import Mathlib.Data.Set.Card
import SlotArena.Proofs.Lending
import SlotArena.Allotment

/-!
Allotments. To its pool a spare slot of an allotment is a live record like any other; all that tells
it apart is that its link word belongs to the allotment's chain. So an allotment moves spare slots
by rewriting link words of live records (`Pool.Valid.relinked`), which nobody else reads, and gives
up what it has by popping its chain until it is empty (`release_meets`). An allotment that was made
has as many spare slots as it set aside (`create_meets`), and it gives up as many as it has.
-/

namespace SlotArena

open Act Finset Ledger

namespace Pool

variable {p : Pool} {loose : Finset Int}

/-- The link word of a live record is its owner's to write. -/
theorem Valid.relinked (h : p.Valid loose) {i : Nat} (hi : i ∈ p.live) {r : Roster}
    (hr : p.roster.Relinked r (Roster.run i 1)) :
    ({ p with roster := r } : Pool).Valid loose ∧ p.Passed { p with roster := r } {i} := by
  obtain ⟨spot, h, hhand⟩ := h
  have hlive : spot i = .live := (h.live i).mpr hi
  have hshelf : ∀ s, ∀ j ∈ {j | spot j = .shelf s}, j ∉ Roster.run i 1 := by
    intro s j hj hrun
    rw [Set.mem_ofPred_eq, eq_of_mem_run hrun, hlive] at hj
    exact Spot.noConfusion hj
  have hground : ({ p with roster := r } : Pool).Grounded loose :=
    h.toGrounded.congr rfl rfl (hr.sound h.roster) (ledger_relinked hr) fun _ => rfl
  have hfiled : ({ p with roster := r } : Pool).Filed spot := {
    unborn := fun j => by
      rw [hr.length]
      exact h.unborn j
    live := h.live
    count := h.count
    chained := fun s => (h.chained s).congr fun j hj => by
      rw [Roster.link, Roster.link, hr.kept j (hshelf s j hj)]
    fits := fun j hj => by
      simp only [Record.Fits, hr.offset, hr.size]
      exact h.fits j hj
    fits_shelf := fun j s hj => by
      simp only [Record.Fits, hr.offset, hr.size]
      exact h.fits_shelf j s hj }
  have hkept : Kept p { p with roster := r } spot spot {i} := ⟨.refl _, rfl, fun _ _ _ => rfl,
    fun j hj _ => hr.kept j fun hrun => hj (eq_of_mem_run hrun)⟩
  exact ⟨⟨spot, ⟨hground, hfiled⟩, hhand⟩, hkept.passed h ⟨hground, hfiled⟩⟩

end Pool

namespace Allotment

/-- The records of `spares` wait on the chain of the allotment. -/
structure Sound (a : Allotment) (p : Pool) (spares : Set Nat) : Prop where
  chained : Chain.Covers p.roster.link a.spare.head spares
  live : ∀ i ∈ spares, i ∈ p.live
  sized : ∀ i ∈ spares, (p.roster.record i).size = a.slotSize

variable {a : Allotment} {p p' : Pool} {loose : Finset Int} {spares moved : Set Nat}

theorem Sound.passed (h : a.Sound p spares) (hpassed : p.Passed p' moved)
    (hspares : ∀ i ∈ spares, i ∉ moved) : a.Sound p' spares where
  chained := h.chained.congr fun i hi => by
    rw [Roster.link, Roster.link, hpassed.records i (hspares i hi) (h.live i hi)]
  live i hi := (hpassed.live i (hspares i hi)).mpr (h.live i hi)
  sized i hi := by
    rw [hpassed.records i (hspares i hi) (h.live i hi)]
    exact h.sized i hi

/-! ### The chain -/

theorem pushFree_meets (h : a.Sound p spares) (hp : p.Valid loose) {i : Nat} (hi : i ∈ p.live)
    (hnew : i ∉ spares) (hsize : (p.roster.record i).size = a.slotSize) :
    (pushFree i).Meets (a, p)
      (fun _ t => (∃ chain, t.1 = { a with spare := chain }) ∧ t.2.Valid loose ∧
        p.Passed t.2 {i} ∧ t.1.Sound t.2 {j | j = i ∨ j ∈ spares}) Never := by
  have hlt := hp.lt_length hi
  simp only [pushFree, meets_bind, meets_get, onPool, onAllotment, meets_focus, meets_modify,
    Pool.onRoster]
  apply (Roster.push_meets hp.roster a.spare Nat.one_pos hlt).imp
  intro chain r hres
  obtain ⟨hr, hc⟩ := hres
  obtain ⟨hvalid, hpassed⟩ := hp.relinked hi hr
  have hout : ∀ j ∈ spares, j ∉ Roster.run i 1 := fun j hj hrun =>
    hnew (Pool.eq_of_mem_run hrun ▸ hj)
  refine ⟨⟨chain, rfl⟩, hvalid, hpassed, ?_, ?_, ?_⟩
  · refine (hc spares h.chained hout).of_eq fun j => or_congr_left ⟨Pool.eq_of_mem_run, ?_⟩
    rintro rfl
    simp only [Roster.mem_run]
    omega
  · rintro j (rfl | hj)
    · exact hi
    · exact h.live j hj
  · rintro j (rfl | hj)
    · exact (hr.size j).trans hsize
    · exact (hr.size j).trans (h.sized j hj)

theorem popFree_meets (h : a.Sound p spares) (hp : p.Valid loose) :
    popFree.Meets (a, p)
      (fun top t => t.2 = p ∧ ((top = none ∧ t.1 = a ∧ ∀ i, i ∉ spares) ∨
        ∃ i chain, top = some i ∧ i ∈ spares ∧ t.1 = { a with spare := chain } ∧
          t.1.Sound p {j | j ∈ spares ∧ j ≠ i})) Never := by
  have hlt : ∀ i ∈ spares, i < p.roster.length := fun i hi => hp.lt_length (h.live i hi)
  simp only [popFree, meets_bind, meets_get, onPool, onAllotment, meets_focus, meets_modify,
    meets_pure, Pool.onRoster]
  apply (Roster.pop_meets hp.roster h.chained hlt).imp
  intro answer r hres
  obtain ⟨rfl, ⟨rfl, hnone⟩ | ⟨chain, rfl, hmem, hrest⟩⟩ := hres
  · exact ⟨rfl, Or.inl ⟨rfl, rfl, hnone⟩⟩
  · exact ⟨rfl, Or.inr ⟨_, chain, rfl, hmem, rfl, hrest, fun i hi => h.live i hi.1,
      fun i hi => h.sized i hi.1⟩⟩

/-! ### Taking and putting back -/

theorem alloc_meets (h : a.Sound p spares) (hp : p.Valid loose) :
    alloc.Meets (a, p)
      (fun answer t => t.2 = p ∧ ((answer = none ∧ t.1 = a ∧ ∀ i, i ∉ spares) ∨
        ∃ i chain, answer = some (p.slotOf i) ∧ i ∈ spares ∧ t.1 = { a with spare := chain } ∧
          t.1.Sound p {j | j ∈ spares ∧ j ≠ i})) Never := by
  simp only [alloc, meets_bind]
  apply (popFree_meets h hp).imp
  rintro _ ⟨b, q⟩ ⟨rfl, ⟨rfl, rfl, hnone⟩ | ⟨i, chain, rfl, hi, rfl, hsound⟩⟩
  · exact ⟨rfl, Or.inl ⟨rfl, rfl, hnone⟩⟩
  · simp only [onPool, meets_bind, meets_focus, meets_pure]
    apply (hp.slotAt_meets (h.live i hi)).imp
    intro _ _ hres
    obtain ⟨rfl, rfl⟩ := hres
    exact ⟨rfl, Or.inr ⟨i, chain, rfl, hi, rfl, hsound⟩⟩

/-- A slot that its user returns to an allotment becomes a spare one; if its size is not that of the
allotment, nothing is done. -/
theorem free_meets (h : a.Sound p spares) (hp : p.Valid loose) {slot : Slot} (hlent : p.Lent slot)
    (hnew : slot.idx ∉ spares) :
    (free slot).Meets (a, p)
      (fun _ t => (∃ chain, t.1 = { a with spare := chain }) ∧ t.2.Valid loose ∧
        p.Passed t.2 {slot.idx} ∧ t.1.Sound t.2 {j | j = slot.idx ∨ j ∈ spares})
      fun _ t => t = (a, p) ∧ slot.size ≠ a.slotSize := by
  simp only [free, meets_bind, meets_get, meets_ensure]
  refine ⟨fun hmine => ?_, fun hmine => ⟨trivial, fun hsize => hmine ?_⟩⟩
  · simp only [onPool, meets_focus, Pool.onRoster]
    apply (Roster.get_meets hp.roster (hp.lt_length hlent.live)).sure
    intro _ _ hres
    obtain ⟨rfl, rfl⟩ := hres
    refine ⟨fun hrecord => ?_, fun hrecord => absurd ⟨hlent.offset, hlent.size⟩ hrecord⟩
    exact (pushFree_meets h hp hlent.live hnew (hrecord.2.trans hmine.2.2)).sure fun _ _ => id
  · exact ⟨hp.ne_noIndex hlent.live, hp.lt_length hlent.live, hsize⟩

/-! ### Making -/

theorem servedSize_eq (size : Nat) :
    Pool.servedSize size (min 64 (ceilPow2 size)) = ceilPow2 (max size SizeClass.least) := by
  have hge := ceilPow2_ge size
  have hleast : ceilPow2 64 = 64 := (powerOfTwo_pow 6).ceilPow2_eq
  have hsmall : SizeClass.least = 64 := rfl
  rw [Pool.servedSize, hsmall]
  rcases Nat.le_total 64 size with hsize | hsize
  · have hmax : max size (min 64 (ceilPow2 size)) = size := by omega
    rw [hmax, Nat.max_eq_left hsize]
    omega
  · have hmono := ceilPow2_mono hsize
    have hmax : max size (min 64 (ceilPow2 size)) = ceilPow2 size := by omega
    rw [hmax, (powerOfTwo_ceilPow2 size).ceilPow2_eq, Nat.max_eq_right hsize]
    omega

/-- What an allotment that is being filled leaves behind, whether it got all its slots or not. -/
def Gathered (a : Allotment) (p : Pool) (loose : Finset Int) (spares : Set Nat)
    (t : Allotment × Pool) : Prop :=
  t.1.size = a.size ∧ t.1.slotSize = a.slotSize ∧ ∃ new : Set Nat, (∀ i ∈ new, i ∉ p.live) ∧
    t.2.Valid loose ∧ p.Passed t.2 new ∧ t.1.count = a.count + new.ncard ∧
      t.1.Sound t.2 {i | i ∈ new ∨ i ∈ spares}

theorem Sound.gathered (h : a.Sound p spares) (hvalid : p'.Valid loose) (hpassed : p.Passed p' ∅) :
    Gathered a p loose spares (a, p') := by
  refine ⟨rfl, rfl, ∅, fun i hi => absurd hi (Set.notMem_empty i), hvalid, hpassed, ?_, ?_⟩
  · rw [Set.ncard_empty, Nat.add_zero]
  have hspares : {i | i ∈ (∅ : Set Nat) ∨ i ∈ spares} = spares := by
    ext i
    simp
  rw [hspares]
  exact h.passed hpassed fun i _ => Set.notMem_empty i

theorem Gathered.cons {b : Allotment} {i : Nat} {t : Allotment × Pool} (hi : i ∉ p.live)
    (hlive : i ∈ p'.live) (hpassed : p.Passed p' {i})
    (h : Gathered b p' loose {j | j = i ∨ j ∈ spares} t) (hsize : b.size = a.size)
    (hslot : b.slotSize = a.slotSize) (hmore : b.count = a.count + 1) :
    Gathered a p loose spares t := by
  obtain ⟨hsize', hslot', new, hnew, hvalid, hpassed', hcount, hsound⟩ := h
  have hout : i ∉ new := fun hmem => hnew i hmem hlive
  have hfinite : new.Finite := hsound.chained.finite.subset fun j hj => Or.inl hj
  refine ⟨hsize'.trans hsize, hslot'.trans hslot, {j | j = i ∨ j ∈ new}, ?_, hvalid, ?_, ?_, ?_⟩
  · rintro j (rfl | hj) hlive'
    · exact hi hlive'
    · by_cases hji : j = i
      · exact hi (hji ▸ hlive')
      · exact hnew j hj ((hpassed.live j hji).mpr hlive')
  · exact (hpassed.mono fun j hj => Or.inl hj).trans (hpassed'.mono fun j hj => Or.inr hj)
  · have hinsert : {j | j = i ∨ j ∈ new}.ncard = new.ncard + 1 :=
      Set.ncard_insert_of_notMem hout hfinite
    omega
  · have hset : {j | j ∈ new ∨ j ∈ {j | j = i ∨ j ∈ spares}} =
        {j | j ∈ {j | j = i ∨ j ∈ new} ∨ j ∈ spares} := by
      ext j
      simp only [Set.mem_ofPred_eq]
      tauto
    exact hset ▸ hsound

theorem accepts_gathered (hp : p.Valid loose) {size : Nat} (hsize : size ≤ SizeClass.largest) :
    p.Accepts size (min 64 (ceilPow2 size)) := by
  have hblock : 64 ≤ p.blockSize := hp.block.2.1
  have hlargest : 64 ≤ SizeClass.largest := by decide
  exact ⟨(powerOfTwo_pow 6).min (powerOfTwo_ceilPow2 size), by omega, by omega⟩

/-- Slots are set aside one by one; a failure leaves those that were obtained on the chain. -/
theorem gather_meets [Host] (h : a.Sound p spares) (hp : p.Valid loose) (hpos : 0 < a.size)
    (hslot : a.slotSize = ceilPow2 (max a.size SizeClass.least)) (n : Nat) :
    (gather n).Meets (a, p) (fun _ => Gathered a p loose spares)
      (stopping (a.size ≤ SizeClass.largest) (Gathered a p loose spares)) := by
  induction n generalizing a p spares with
  | zero => exact h.gathered hp (.refl _ _)
  | succ n ih =>
    simp only [gather, meets_bind, meets_get, onPool, meets_focus]
    refine (Pool.alloc_meets_any hp _ _).weaken ?_ fun _ q hq =>
      ⟨h.gathered hq.1.1 hq.1.2, fun hsize => hq.2 (accepts_gathered hp hsize)⟩
    rintro slot q (⟨hzero, -⟩ | ⟨-, hissued, -, hserved⟩)
    · exact absurd hzero (Nat.ne_of_gt hpos)
    · have hsize : slot.size = a.slotSize := by rw [hserved, servedSize_eq, hslot]
      have hlent := hissued.lent
      have hsound : a.Sound q spares := h.passed hissued.passed fun i hi hidx =>
        hissued.new (Set.mem_singleton_iff.mp hidx ▸ h.live i hi)
      have hnew : slot.idx ∉ spares := fun hmem => hissued.new (h.live _ hmem)
      simp only [hsize, meets_ensure, true_implies, not_true_eq_false, false_implies, and_true]
      refine (pushFree_meets hsound hissued.valid hissued.live hnew
        (hlent.size.trans hsize)).sure ?_
      rintro _ ⟨_, q'⟩ ⟨⟨chain, rfl⟩, hvalid, hpassed, hsound'⟩
      simp only [onAllotment, meets_focus, meets_modify]
      have hchain : ({ a with spare := chain, count := a.count + 1 } : Allotment).Sound q'
          {j | j = slot.idx ∨ j ∈ spares} := ⟨hsound'.chained, hsound'.live, hsound'.sized⟩
      have hlive : slot.idx ∈ q'.live := hsound'.live _ (Or.inl rfl)
      have hdone : ∀ t, Gathered { a with spare := chain, count := a.count + 1 } q' loose
          {j | j = slot.idx ∨ j ∈ spares} t → Gathered a p loose spares t := fun t ht =>
        ht.cons hissued.new hlive (hissued.passed.trans hpassed) rfl rfl rfl
      exact (ih hchain hvalid hpos hslot).relax (fun _ => hdone) id hdone

/-! ### Giving up -/

/-- The chain is emptied slot by slot, as often as there are spare slots, and they are counted. -/
theorem returnFree_meets (h : a.Sound p spares) (hp : p.Valid loose) {fuel : Nat} (returned : Nat)
    (hfuel : ∀ records : List Nat, records.Nodup → (∀ i ∈ records, i ∈ spares) →
      records.length < fuel) :
    (returnFree fuel returned).Meets (a, p)
      (fun count t => count = returned + spares.ncard ∧ t.2.Valid loose ∧ p.Passed t.2 spares ∧
        ∀ i ∈ spares, i ∉ t.2.live) Never := by
  induction fuel generalizing a p spares returned with
  | zero =>
    have hnil := hfuel [] List.nodup_nil fun i hi => absurd hi List.not_mem_nil
    exact absurd hnil (Nat.not_lt_zero _)
  | succ fuel ih =>
    simp only [returnFree, meets_bind]
    apply (popFree_meets h hp).imp
    rintro _ ⟨b, q⟩ ⟨rfl, ⟨rfl, rfl, hnone⟩ | ⟨i, chain, rfl, hi, rfl, hsound⟩⟩
    · refine ⟨?_, hp, .refl _ _, fun i hi => absurd hi (hnone i)⟩
      rw [Set.eq_empty_of_forall_notMem hnone, Set.ncard_empty, Nat.add_zero]
    · dsimp only at hp h hsound ⊢
      simp only [onPool, meets_bind, meets_focus]
      apply (hp.slotAt_meets (h.live i hi)).imp
      intro _ q hres
      obtain ⟨rfl, rfl⟩ := hres
      apply (hp.free_meets (hp.lent_slotOf (h.live i hi))).imp
      intro _ q' hres
      obtain ⟨hvalid, hpassed, hgone⟩ := hres
      have hrest := hsound.passed hpassed fun j hj => hj.2
      refine (ih hrest hvalid (returned + 1) fun records hnodup hmem => ?_).imp ?_
      · have hlonger := hfuel (i :: records)
          (List.nodup_cons.mpr ⟨fun hin => (hmem i hin).2 rfl, hnodup⟩) ?_
        · simp only [List.length_cons] at hlonger
          omega
        · intro j hj
          rcases List.mem_cons.mp hj with rfl | hj
          · exact hi
          · exact (hmem j hj).1
      · rintro _ ⟨b, q''⟩ ⟨rfl, hvalid', hpassed', hgone'⟩
        refine ⟨?_, hvalid', ?_, fun j hj => ?_⟩
        · have hcount : {j | j ∈ spares ∧ j ≠ i}.ncard + 1 = spares.ncard :=
            Set.ncard_sdiff_singleton_add_one hi h.chained.finite
          omega
        · refine (hpassed.mono ?_).trans (hpassed'.mono fun j hj => hj.1)
          rintro j rfl
          exact hi
        · by_cases hji : j = i
          · rw [hji]
            exact fun hback => hgone ((hpassed'.live i fun hin => hin.2 rfl).mp hback)
          · exact hgone' j ⟨hj, hji⟩

theorem Sound.fuel (h : a.Sound p spares) :
    ∀ records : List Nat, records.Nodup → (∀ i ∈ records, i ∈ spares) →
      records.length < (p.live.size + 1) * (p.roster.length + 2) := fun records hnodup hmem => by
  have hlength := Pool.length_le_live hnodup fun i hi => h.live i (hmem i hi)
  exact Nat.lt_of_le_of_lt hlength (Nat.lt_of_lt_of_le (Nat.lt_succ_self _)
    (Nat.le_mul_of_pos_right _ (Nat.succ_pos _)))

theorem release_meets (h : a.Sound p spares) (hp : p.Valid loose) :
    release.Meets (a, p)
      (fun _ t => t.2.Valid loose ∧ p.Passed t.2 spares ∧ ∀ i ∈ spares, i ∉ t.2.live) Never := by
  simp only [release, meets_bind, meets_get]
  refine (returnFree_meets h hp 0 h.fuel).imp fun returned t ht => ?_
  simp only [meets_ite, meets_note, meets_pure]
  exact ⟨fun _ => ht.2, fun _ => ht.2⟩

theorem sound_empty (size slotSize : Nat) : (⟨.empty, size, slotSize, 0⟩ : Allotment).Sound p ∅ :=
  ⟨.empty _, fun i hi => absurd hi (Set.notMem_empty i), fun i hi => absurd hi (Set.notMem_empty i)⟩

theorem Gathered.filled {size slotSize : Nat} {t : Allotment × Pool}
    (h : Gathered ⟨.empty, size, slotSize, 0⟩ p loose ∅ t) : ∃ new : Set Nat,
      (∀ i ∈ new, i ∉ p.live) ∧ t.2.Valid loose ∧ p.Passed t.2 new ∧ t.1.count = new.ncard ∧
        t.1.Sound t.2 new := by
  obtain ⟨-, -, new, hnew, hvalid, hpassed, hcount, hsound⟩ := h
  have hnone : {i | i ∈ new ∨ i ∈ (∅ : Set Nat)} = new := by
    ext i
    simp
  rw [hnone] at hsound
  exact ⟨new, hnew, hvalid, hpassed, hcount.trans (Nat.zero_add _), hsound⟩

/-- An allotment is made of slots that nobody had; if there are too few, the pool gets back those
that were obtained. -/
theorem create_meets [Host] (hp : p.Valid loose) (count size : Nat) :
    (create count size).Meets p
      (fun a p' => ∃ new : Set Nat, (∀ i ∈ new, i ∉ p.live) ∧ p'.Valid loose ∧
        p.Passed p' new ∧ a.count = new.ncard ∧ a.Sound p' new)
      (stopping (0 < size ∧ size ≤ SizeClass.largest) fun p' =>
        p'.Valid loose ∧ p.Passed p' ∅) := by
  have hsame : p.Valid loose ∧ p.Passed p ∅ := hp.passed_self
  refine (meets_bind _ _).mpr ((meets_ensure _ _).mpr
    ⟨fun hpos => ?_, fun hzero => ⟨hsame, fun hproper => absurd hproper.1 hzero⟩⟩)
  refine (meets_bind _ _).mpr ?_
  simp only [roundToPow2, meets_bind, meets_ensure, meets_pure]
  refine ⟨fun _ => ?_, fun hover => ⟨hsame, fun hproper => absurd ?_ hover⟩⟩
  · refine (meets_beside _ _).mpr ((meets_bind _ _).mpr ((meets_attempt _).mpr ?_))
    refine (gather_meets (sound_empty size _) hp hpos rfl count).weaken ?_ ?_
    · exact fun _ _ hgathered => hgathered.filled
    · rintro e ⟨a, p'⟩ ⟨hgathered, hrefusal⟩
      obtain ⟨new, hnew, hvalid, hpassed, -, hsound⟩ := hgathered.filled
      apply (release_meets hsound hvalid).bind_sure
      rintro _ ⟨_, p''⟩ ⟨hvalid', hpassed', hgone⟩
      exact ⟨⟨hvalid', (hpassed.trans hpassed').forget hnew hgone⟩,
        fun hproper => hrefusal hproper.2⟩
  · have hleast : SizeClass.least ≤ SizeClass.largest := by decide
    have hsize : max size SizeClass.least ≤ 2 ^ 21 := Nat.max_le.mpr ⟨hproper.2, hleast⟩
    exact Nat.lt_of_le_of_lt (ceilPow2_le hsize) (by decide)

end Allotment

end SlotArena
