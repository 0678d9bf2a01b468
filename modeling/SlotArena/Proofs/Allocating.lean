import SlotArena.Proofs.Carving

/-!
Pools as their users see them. Between two operations no record is in the hands of one, so a pool is
`Valid`; and an operation leaves all live records alone but the one that it hands out or takes back,
which is what `Passed` says. Each operation has one statement here, and none of them mentions spots.
-/

namespace SlotArena

open Act Finset Ledger

namespace Pool

/-- A pool between two operations, with the bytes of its arena that the rest of the world holds. -/
def Valid (p : Pool) (loose : Finset Int) : Prop :=
  ∃ spot, p.Sound spot loose ∧ ∀ i, spot i ≠ .hand

def bytesOf (p : Pool) (i : Nat) : Finset Int :=
  span (p.roster.record i).offset (p.roster.record i).size

/-- What an operation leaves of a pool to those who hold live records, apart from those of
`moved`. -/
structure Passed (p p' : Pool) (moved : Set Nat) : Prop where
  blockSize : p'.blockSize = p.blockSize
  extent : p'.arena.window.extent = p.arena.window.extent
  shows : ∀ place n, p.arena.window.Shows place n → p'.arena.window.Shows place n
  live : ∀ i ∉ moved, i ∈ p'.live ↔ i ∈ p.live
  records : ∀ i ∉ moved, i ∈ p.live → p'.roster.record i = p.roster.record i
  bytes : ∀ i ∉ moved, i ∈ p.live → ∀ x ∈ p.bytesOf i,
    p'.arena.window.byteAt x = p.arena.window.byteAt x

def slotOf (p : Pool) (i : Nat) : Slot :=
  ⟨(p.roster.record i).offset, (p.roster.record i).size,
    some (p.arena.window.place (p.roster.record i).offset), i⟩

/-- A slot that is new to its user. -/
structure Issued (p : Pool) (loose : Finset Int) (slot : Slot) (p' : Pool) : Prop where
  valid : p'.Valid loose
  passed : p.Passed p' {slot.idx}
  new : slot.idx ∉ p.live
  live : slot.idx ∈ p'.live
  slot_eq : slot = p'.slotOf slot.idx

variable {p p' q : Pool} {spot spot' : Nat → Spot} {loose : Finset Int}

theorem Passed.refl (p : Pool) (moved : Set Nat) : p.Passed p moved :=
  ⟨rfl, rfl, fun _ _ => id, fun _ _ => Iff.rfl, fun _ _ _ => rfl, fun _ _ _ _ _ => rfl⟩

theorem Passed.bytesOf {moved : Set Nat} (h : p.Passed p' moved) {i : Nat} (hi : i ∉ moved)
    (hlive : i ∈ p.live) : p'.bytesOf i = p.bytesOf i := by
  rw [Pool.bytesOf, Pool.bytesOf, h.records i hi hlive]

theorem Passed.trans {moved : Set Nat} (h : p.Passed p' moved) (h' : p'.Passed q moved) :
    p.Passed q moved where
  blockSize := h'.blockSize.trans h.blockSize
  extent := h'.extent.trans h.extent
  shows place n hp := h'.shows place n (h.shows place n hp)
  live i hi := (h'.live i hi).trans (h.live i hi)
  records i hi hlive := (h'.records i hi ((h.live i hi).mpr hlive)).trans (h.records i hi hlive)
  bytes i hi hlive x hx :=
    (h'.bytes i hi ((h.live i hi).mpr hlive) x (h.bytesOf hi hlive ▸ hx)).trans
      (h.bytes i hi hlive x hx)

theorem Passed.mono {moved moved' : Set Nat} (h : p.Passed p' moved)
    (hsub : ∀ i ∈ moved, i ∈ moved') : p.Passed p' moved' where
  blockSize := h.blockSize
  extent := h.extent
  shows := h.shows
  live i hi := h.live i fun hmoved => hi (hsub i hmoved)
  records i hi := h.records i fun hmoved => hi (hsub i hmoved)
  bytes i hi := h.bytes i fun hmoved => hi (hsub i hmoved)

/-- Records that were live neither before nor after are nobody's concern. -/
theorem Passed.forget {moved : Set Nat} (h : p.Passed p' moved)
    (hold : ∀ i ∈ moved, i ∉ p.live) (hnew : ∀ i ∈ moved, i ∉ p'.live) : p.Passed p' ∅ where
  blockSize := h.blockSize
  extent := h.extent
  shows := h.shows
  live i _ := by
    by_cases hi : i ∈ moved
    · exact iff_of_false (hnew i hi) (hold i hi)
    · exact h.live i hi
  records i _ hlive := h.records i (fun hi => hold i hi hlive) hlive
  bytes i _ hlive := h.bytes i (fun hi => hold i hi hlive) hlive

theorem Kept.passed {moved : Set Nat} (hkept : Kept p p' spot spot' moved) (h : p.Sound spot loose)
    {loose' : Finset Int} (h' : p'.Sound spot' loose') : p.Passed p' moved where
  blockSize := hkept.blockSize
  extent := hkept.window.extent
  shows := hkept.window.shows
  live i hi := by
    rw [← h.live i, ← h'.live i]
    constructor
    · intro hlive
      rw [← hkept.spots i hi (Or.inr (Or.inl hlive)), hlive]
    · intro hlive
      rw [hkept.spots i hi (Or.inl (Or.inl hlive)), hlive]
  records i hi hlive := hkept.records i hi (Or.inl ((h.live i).mpr hlive))
  bytes _ _ _ x _ := hkept.window.byteAt x

theorem Kept.no_hand (hkept : Kept p p' spot spot' ∅) (hhand : ∀ i, spot i ≠ .hand) (i : Nat) :
    spot' i ≠ .hand := by
  intro hi
  have hsame := hkept.spots i (Set.notMem_empty i) (Or.inr (Or.inr hi))
  exact hhand i (hsame.symm.trans hi)

theorem Refused.passed [Host] {why : Refusal} (h : p.Refused why p') (hp : p.Sound spot loose)
    (hhand : ∀ i, spot i ≠ .hand) : p'.Valid loose ∧ p.Passed p' ∅ :=
  ⟨⟨spot, h.sound hp, hhand⟩, (h.kept hp ∅).passed hp (h.sound hp)⟩

/-! ### Handing out -/

theorem slotAt_meets (h : p.Sound spot loose) {i : Nat} (hi : spot i ≠ .unborn) :
    (slotAt i).Meets p (fun slot p' => slot = p.slotOf i ∧ p' = p) Never := by
  have hbounds := h.record_bounds hi
  simp only [slotAt, meets_bind]
  apply (onRoster_meets (Roster.get_meets h.roster (h.born hi))).imp
  intro _ _ hres
  obtain ⟨_, rfl, rfl, rfl⟩ := hres
  simp only [onArena, meets_focus_never, meets_pure]
  apply (Arena.place_meets h.arena hbounds.1).imp
  intro _ _ hres
  obtain ⟨rfl, rfl⟩ := hres
  exact ⟨rfl, rfl⟩

def handing (p : Pool) (i : Nat) : Pool :=
  { p with live := p.live.insert i, liveCount := p.liveCount + 1 }

theorem handOut_hands (h : p.Sound spot loose) {i : Nat} (hi : spot i = .hand) :
    (handOut i).Meets p (fun slot p' => slot = p'.slotOf i ∧ p' = p.handing i) Never := by
  have hnot : ¬ p.live.contains i := fun hlive =>
    absurd (hi.symm.trans ((h.live i).mpr (Std.TreeSet.mem_iff_contains.mpr hlive)))
      Spot.noConfusion
  simp only [handOut, meets_bind, meets_get, meets_ensure_never, meets_modify, meets_emit]
  refine ⟨hnot,
    (slotAt_meets (h.handOut hi) (i := i) (by rw [move_self]; exact Spot.noConfusion)).imp ?_⟩
  intro _ _ hres
  obtain ⟨rfl, rfl⟩ := hres
  exact ⟨rfl, rfl⟩

theorem handOut_meets (h : p.Sound spot loose) {i : Nat} (hi : spot i = .hand) :
    (handOut i).Meets p
      (fun slot p' => slot = p'.slotOf i ∧ p'.Sound (move spot i 1 .live) loose ∧
        p'.arena = p.arena ∧ p'.roster = p.roster ∧ p'.blockSize = p.blockSize) Never := by
  refine (handOut_hands h hi).imp fun _ _ hres => ?_
  obtain ⟨rfl, rfl⟩ := hres
  exact ⟨rfl, h.handOut hi, rfl, rfl, rfl⟩

/-- A record that came into the hands of an operation is handed out. -/
theorem issue_meets (h : p.Sound spot loose) (hhand : ∀ i, spot i ≠ .hand) {i : Nat}
    (hlive : spot i ≠ .live) (h' : p'.Sound spot' loose) (hi : spot' i = .hand)
    (hkept : Kept p p' spot spot' {i}) :
    (handOut i).Meets p'
      (fun slot q => p.Issued loose slot q ∧ slot.offset = (p'.roster.record i).offset ∧
        slot.size = (p'.roster.record i).size) Never := by
  apply (handOut_meets h' hi).imp
  intro _ q hres
  obtain ⟨rfl, hq, harena, hroster, hblock⟩ := hres
  have hkept' : Kept p' q spot' (move spot' i 1 .live) {i} :=
    .move p' spot' i harena hroster hblock _ fun j hj => move_of_ne hj
  refine ⟨⟨⟨_, hq, fun j hj => ?_⟩, (hkept.trans hkept').passed h hq, ?_, ?_, rfl⟩, ?_, ?_⟩
  · by_cases hji : j = i
    · rw [hji, move_self] at hj
      exact Spot.noConfusion hj
    · rw [move_of_ne hji] at hj
      exact hhand j ((hkept.spots j hji (Or.inr (Or.inr hj))).symm.trans hj)
  · exact fun hmem => hlive ((h.live i).mpr hmem)
  · exact (hq.live i).mp move_self
  · simp only [slotOf, hroster]
  · simp only [slotOf, hroster]

/-! ### Allocating -/

theorem Sound.chain_isEmpty (h : p.Sound spot loose) {s : Shelf} (hnone : ∀ i, spot i ≠ .shelf s) :
    (p.chain s).IsEmpty := by
  by_contra hne
  exact hnone _ ((h.chained s).head_mem hne).1

theorem firstFree_some {classes : List SizeClass} {c : SizeClass}
    (h : p.firstFree classes = some c) : c ∈ classes ∧ ¬ (p.bucket c).free.IsEmpty :=
  ⟨List.mem_of_find?_eq_some h, by simpa using List.find?_some h⟩

theorem firstFree_none {classes : List SizeClass} (h : p.firstFree classes = none) :
    ∀ c ∈ classes, (p.bucket c).free.IsEmpty := fun c hc => by
  simpa using List.find?_eq_none.mp h c hc

theorem popFirst_meets (h : p.Sound spot loose) (classes : List SizeClass) :
    (popFirst classes).Meets p
      (fun answer p' => (answer = none ∧ p' = p ∧ ∀ c ∈ classes, (p.bucket c).free.IsEmpty) ∨
        ∃ c i, answer = some (c, i) ∧ c ∈ classes ∧
          p.Unshelved spot loose (.front c) (some i) p') Never := by
  simp only [popFirst, meets_bind, meets_get]
  split
  · rename_i hnone
    exact Or.inl ⟨rfl, rfl, firstFree_none hnone⟩
  · rename_i c hc
    obtain ⟨hmem, hne⟩ := firstFree_some hc
    apply (popFree_meets h c).bind_sure
    rintro (_ | i) p' hp'
    · exact absurd (h.chain_isEmpty hp'.2) hne
    · exact Or.inr ⟨c, i, rfl, hmem, hp'⟩

theorem Unshelved.kept {s : Shelf} {i : Nat} (h : p.Unshelved spot loose s (some i) p') :
    Kept p p' spot (move spot i 1 .hand) {i} :=
  .move p spot i h.2.2.1 h.2.2.2.1 h.2.2.2.2 _ fun _ hj => move_of_ne hj

theorem issue_unshelved (h : p.Sound spot loose) (hhand : ∀ i, spot i ≠ .hand) {s : Shelf} {i : Nat}
    (hi : p.Unshelved spot loose s (some i) p') :
    (handOut i).Meets p'
      (fun slot q => p.Issued loose slot q ∧ (⟨0, 0, slot.offset, slot.size⟩ : Record).Fits
        p.blockSize s) Never := by
  have hlive : spot i ≠ .live := hi.1 ▸ Spot.noConfusion
  apply (issue_meets h hhand hlive hi.2.1 move_self hi.kept).imp
  intro slot q hres
  obtain ⟨hissued, hoffset, hsize⟩ := hres
  refine ⟨hissued, ?_⟩
  rw [hoffset, hsize, hi.2.2.2.1]
  exact h.fits_shelf i s hi.1

/-- What was carved for a class, or claimed below the origin, is enrolled and handed out. -/
theorem issue_claimed [Host] (h : p.Sound spot loose) (hhand : ∀ i, spot i ≠ .hand) {x : Int}
    {n : Nat} (hclaimed : p.Claimed spot loose x n p') {s : Shelf}
    (hfits : (⟨0, 0, x, n⟩ : Record).Fits p.blockSize s) :
    (do handOut (← enroll x n) : Act Pool Slot).Meets p'
      (fun slot q => p.Issued loose slot q ∧ slot.offset = x ∧ slot.size = n)
      (refusing fun why q => (q.Valid loose ∧ p.Passed q ∅) ∧
        ∃ p'', p'.Unlisted (p.roster.length + 1) why p'' ∧
          q = { p'' with leaked := p''.leaked + n }) := by
  refine (enroll_meets hclaimed ⟨s, hfits⟩).bind ?_ ?_
  · intro i q hres
    obtain ⟨hunborn, hsound, hoffset, hsize, hkept⟩ := hres
    have hlive : spot i ≠ .live := hunborn ▸ Spot.noConfusion
    apply (issue_meets h hhand hlive hsound move_self hkept).sure
    intro slot q' hres
    obtain ⟨hissued, hoffset', hsize'⟩ := hres
    exact ⟨hissued, hoffset'.trans hoffset, hsize'.trans hsize⟩
  · intro why q hres
    obtain ⟨⟨hsound, hkept⟩, hwhy⟩ := hres
    exact ⟨⟨⟨spot, hsound, hhand⟩, hkept.passed h hsound⟩, hwhy⟩

def servedSize (size align : Nat) : Nat := max (ceilPow2 (max size align)) SizeClass.least

def Accepts (p : Pool) (size align : Nat) : Prop :=
  PowerOfTwo align ∧ align ≤ p.blockSize ∧ max size align ≤ SizeClass.largest

theorem Accepts.exists_class {size align : Nat} (h : p.Accepts size align) :
    ∃ c : SizeClass, c.bytes = servedSize size align := by
  refine SizeClass.IsSize.exists_bytes
    ⟨(powerOfTwo_ceilPow2 _).max (powerOfTwo_pow _), Nat.le_max_right .., ?_⟩
  exact Nat.max_le.mpr ⟨ceilPow2_le h.2.2, by decide⟩

/-- What a class does for a request. -/
def serve [Host] (c : SizeClass) : Act Pool Slot := do
  match ← popFree c with
  | some i => handOut i
  | none =>
      match ← popFirst c.above with
      | some (larger, i) =>
          shrink larger i c.bytes
          handOut i
      | none =>
          let offset ← carve c
          handOut (← enroll offset c.bytes)

/-- A request that keeps to its limits is a matter of the class that holds it. -/
theorem alloc_of_serve [Host] {size align : Nat} (hsize : 0 < size)
    (haccepts : p.Accepts size align)
    {c : SizeClass} (hc : c.bytes = servedSize size align) {good : Slot → Pool → Prop}
    {bad : Fault → Pool → Prop} (hserve : (serve c).Meets p good bad) :
    (alloc size align).Meets p good bad := by
  obtain ⟨halign, hblock, hmax⟩ := haccepts
  simp only [alloc, meets_bind, meets_ite, meets_pure, meets_get, meets_ensure, halign, hblock,
    hmax, and_self, true_implies, not_true_eq_false, false_implies, and_true]
  refine ⟨fun hzero => absurd hzero (Nat.ne_of_gt hsize), fun _ => ?_⟩
  apply (SizeClass.holding_meets hmax).sure
  rintro d p ⟨rfl, hd⟩
  obtain rfl : d = c := SizeClass.bytes_injective (hd.trans hc.symm)
  exact (meets_bind ..).mp hserve

/-- A request that keeps to its limits is served, or refused for want of memory. -/
theorem alloc_meets [Host] (h : p.Valid loose) {size align : Nat} (hsize : 0 < size)
    (haccepts : p.Accepts size align) :
    (alloc size align).Meets p
      (fun slot p' => p.Issued loose slot p' ∧ 0 ≤ slot.offset ∧
        slot.size = servedSize size align)
      (refusing fun _ p' => p'.Valid loose ∧ p.Passed p' ∅) := by
  obtain ⟨spot, h, hhand⟩ := h
  obtain ⟨c, hc⟩ := haccepts.exists_class
  refine alloc_of_serve hsize haccepts hc ((meets_bind ..).mpr ?_)
  rw [← hc]
  apply (popFree_meets h c).sure
  rintro (_ | i) q hq
  · obtain ⟨rfl, -⟩ := hq
    refine (meets_bind ..).mpr ((popFirst_meets h c.above).sure ?_)
    rintro _ q (⟨rfl, rfl, -⟩ | ⟨larger, i, rfl, hlarger, hq⟩)
    · refine (meets_bind ..).mpr ((carve_meets h c).mono ?_ ?_)
      · intro x q' hres
        obtain ⟨hx, hdvd, hclaimed⟩ := hres
        refine (issue_claimed h hhand hclaimed (s := .front c) ⟨hx, rfl, hdvd⟩).mono ?_
          fun _ _ => And.left
        intro slot q'' hres
        obtain ⟨hissued, hoffset, hsize'⟩ := hres
        exact ⟨hissued, hoffset ▸ hx, hsize'⟩
      · exact fun why q' hrefused => hrefused.refused.passed h hhand
    · have hlive : spot i ≠ .live := hq.1 ▸ Spot.noConfusion
      have hfits : (q.roster.record i).Fits q.blockSize (.front larger) := by
        rw [hq.2.2.2.1, hq.2.2.2.2]
        exact h.fits_shelf i _ hq.1
      apply (shrink_meets hq.2.1 (SizeClass.mem_above.mp hlarger) move_self hfits).bind_sure
      intro _ q' hres
      obtain ⟨-, spot', hsound, hi, hoffset, hsize', hkept⟩ := hres
      apply (issue_meets h hhand hlive hsound hi (hq.kept.trans hkept)).sure
      intro slot q'' hres
      obtain ⟨hissued, hoffset', hsize''⟩ := hres
      refine ⟨hissued, ?_, hsize''.trans hsize'⟩
      rw [hoffset', hoffset]
      exact hfits.1
  · apply (issue_unshelved h hhand hq).sure
    intro slot q' hres
    obtain ⟨hissued, hfits⟩ := hres
    exact ⟨hissued, hfits.1, hfits.2.1⟩

theorem Valid.passed_self (h : p.Valid loose) : p.Valid loose ∧ p.Passed p ∅ := ⟨h, .refl _ _⟩

theorem alloc_beyond [Host] {size align : Nat} (hsize : 0 < size)
    (hbeyond : ¬ p.Accepts size align) : (alloc size align).Meets p (fun _ _ => False)
      fun fault p' => p' = p ∧ ∃ what, fault = .violated what := by
  simp only [alloc, meets_bind, meets_ite, meets_pure, meets_get, meets_ensure]
  exact ⟨fun hzero => absurd hzero (Nat.ne_of_gt hsize), fun _ => ⟨fun halign =>
    ⟨fun hmax => absurd ⟨halign.1, halign.2, hmax⟩ hbeyond, fun _ => ⟨trivial, _, rfl⟩⟩,
      fun _ => ⟨trivial, _, rfl⟩⟩⟩

/-- Whatever is asked for, a pool that does not serve it is as good as before; and it serves what
keeps to the limits, unless it runs out. -/
theorem alloc_meets_any [Host] (h : p.Valid loose) (size align : Nat) :
    (alloc size align).Meets p
      (fun slot p' => (size = 0 ∧ slot = .null ∧ p' = p) ∨
        (0 < size ∧ p.Issued loose slot p' ∧ 0 ≤ slot.offset ∧ slot.size = servedSize size align))
      (stopping (p.Accepts size align) fun p' => p'.Valid loose ∧ p.Passed p' ∅) := by
  by_cases hsize : 0 < size
  · by_cases haccepts : p.Accepts size align
    · exact (alloc_meets h hsize haccepts).of_refusing.imp fun slot p' h' => Or.inr ⟨hsize, h'⟩
    · refine (alloc_beyond hsize haccepts).weaken (fun _ _ => False.elim) ?_
      rintro _ _ ⟨rfl, what, rfl⟩
      exact (stopping_violated ..).mpr ⟨h.passed_self, haccepts⟩
  · have hzero : size = 0 := by omega
    simp [alloc, hzero]

theorem allocBack_meets [Host] (h : p.Valid loose) :
    allocBack.Meets p
      (fun slot p' => p.Issued loose slot p' ∧ slot.stop ≤ 0 ∧ slot.size = p.blockSize)
      (refusing fun _ p' => p'.Valid loose ∧ p.Passed p' ∅) := by
  obtain ⟨spot, h, hhand⟩ := h
  simp only [allocBack, meets_bind]
  apply (popBack_meets h).sure
  rintro (_ | i) q hq
  · obtain ⟨rfl, -⟩ := hq
    refine (meets_bind ..).mpr (meets_get.mpr ((meets_bind ..).mpr
      ((allocBack_arena_meets h).mono ?_ ?_)))
    · intro x q' hres
      obtain ⟨hx, hclaimed⟩ := hres
      refine (issue_claimed h hhand hclaimed (s := .back) ⟨hx, rfl⟩).mono ?_ fun _ _ => And.left
      intro slot q'' hres
      obtain ⟨hissued, hoffset, hsize⟩ := hres
      exact ⟨hissued, by rw [Slot.stop, hoffset, hsize]; exact hx, hsize⟩
    · exact fun why q' hrefused => hrefused.refused.passed h hhand
  · apply (issue_unshelved h hhand hq).sure
    intro slot q' hres
    obtain ⟨hissued, hfits⟩ := hres
    exact ⟨hissued, hfits.1, hfits.2⟩

/-! ### Taking back -/

theorem Shelved.kept {s : Shelf} {i : Nat}
    (hq : q.roster = p.roster ∧ q.arena = p.arena ∧ q.blockSize = p.blockSize)
    (h : q.Shelved (move spot i 1 .hand) loose s i 1 p') :
    Kept p p' spot (move (move spot i 1 .hand) i 1 (.shelf s)) {i} where
  window := by
    rw [h.2.1, hq.2.1]
    exact .refl _
  blockSize := h.2.2.1.trans hq.2.2
  spots j hj _ := by rw [move_of_ne hj, move_of_ne hj]
  records j hj _ := by
    have hkept := h.2.2.2.kept j fun hrun => hj (eq_of_mem_run hrun)
    rw [hkept, hq.1]

theorem free_meets (h : p.Valid loose) {slot : Slot} (hlive : slot.idx ∈ p.live)
    (hoffset : (p.roster.record slot.idx).offset = slot.offset)
    (hsize : (p.roster.record slot.idx).size = slot.size) :
    (free slot).Meets p
      (fun _ p' => p'.Valid loose ∧ p.Passed p' {slot.idx} ∧ slot.idx ∉ p'.live) Never := by
  obtain ⟨spot, h, hhand⟩ := h
  obtain ⟨offset, size, place, i⟩ := slot
  dsimp only at hlive hoffset hsize ⊢
  have hspot : spot i = .live := (h.live i).mpr hlive
  have hborn : i < p.roster.length := h.born (hspot ▸ Spot.noConfusion)
  obtain ⟨s, hs⟩ := h.fits i (hspot ▸ Spot.noConfusion)
  have hpos := hs.pos h.block
  have hcontains : p.live.contains i := Std.TreeSet.mem_iff_contains.mp hlive
  have hnoIndex := Nat.ne_of_lt (h.roster.lt_noIndex hborn)
  -- once the record is on its shelf, the pool is valid again
  have hdone : ∀ p', ({ p with live := p.live.erase i, liveCount := p.liveCount - 1 } :
      Pool).Shelved (move spot i 1 .hand) loose s i 1 p' →
      p'.Valid loose ∧ p.Passed p' {i} ∧ i ∉ p'.live := by
    intro p' hp'
    have hkept : Kept p p' spot _ {i} := Shelved.kept ⟨rfl, rfl, rfl⟩ hp'
    refine ⟨⟨_, hp'.1, fun j hj => ?_⟩, hkept.passed h hp'.1, ?_⟩
    · by_cases hji : j = i
      · rw [hji, move_self] at hj
        exact Spot.noConfusion hj
      · rw [move_of_ne hji, move_of_ne hji] at hj
        exact hhand j hj
    · intro hmem
      have hlive' := (hp'.1.live i).mpr hmem
      rw [move_self] at hlive'
      exact Spot.noConfusion hlive'
  have hback := h.takeBack hspot
  simp only [free, meets_bind, meets_ite, meets_pure, meets_get, meets_ensure_never, meets_modify,
    meets_emit]
  refine ⟨fun hnull => ?_, fun _ => ⟨⟨hnoIndex, hborn⟩, hcontains, ?_⟩⟩
  · exact absurd (hsize.trans hnull) (Nat.ne_of_gt hpos)
  · refine (onRoster_meets (p := { p with live := p.live.erase i })
      (Roster.get_meets h.roster hborn)).imp ?_
    intro _ _ hres
    obtain ⟨_, rfl, rfl, rfl⟩ := hres
    refine ⟨hoffset, hsize, fun hneg => ?_, fun hnonneg => ?_⟩
    · cases s with
      | front c => exact absurd hs.1 (by omega)
      | back =>
        refine ⟨hsize.symm.trans hs.2, (pushBack_meets hback move_self hs).imp ?_⟩
        exact fun _ p' hp' => hdone p' hp'
    · cases s with
      | front c =>
        rw [← hsize, hs.2.1]
        apply (SizeClass.holding_bytes_meets c).sure
        intro d _ hres
        obtain ⟨rfl, hd⟩ := hres
        rw [hd]
        refine (pushFree_meets hback Nat.one_pos (fun j hj => ?_) fun j hj => ?_).imp ?_
        · rw [eq_of_mem_run hj, move_self]
        · rw [eq_of_mem_run hj]
          exact hs
        · exact fun _ p' hp' => hdone p' hp'
      | back =>
        have hend := hs.1
        omega

/-! ### Bytes taken directly -/

/-- A range whose end is a whole block can always be given to a pool. -/
theorem returnChunk_meets [Host] (h : p.Valid loose) {offset : Int} {n : Nat} (hoffset : 0 ≤ offset)
    (hend : (p.blockSize : Int) ∣ offset + n) (hloose : span offset n ⊆ loose) :
    (returnChunk offset n).Meets p
      (fun _ p' => p'.Valid (loose \ span offset n) ∧ p.Passed p' ∅)
      (refusing fun _ p' => p'.Valid (loose \ span offset n) ∧ p.Passed p' ∅) := by
  obtain ⟨spot, h, hhand⟩ := h
  have hdone : ∀ p', p.Absorbed spot loose offset n p' →
      p'.Valid (loose \ span offset n) ∧ p.Passed p' ∅ := by
    intro p' hres
    obtain ⟨-, spot', hsound, hkept⟩ := hres
    exact ⟨⟨spot', hsound, hkept.no_hand hhand⟩, hkept.passed h hsound⟩
  refine (splitChunk_meets h hoffset (fun m hm => absurd hm (Option.not_mem_none m))
    (cuttable_end h.block hend) hloose).mono ?_ ?_
  · exact fun _ p' hp' => hdone p' hp'
  · exact fun _ p' hp' => hdone p' hp'

theorem take_meets [Host] (h : p.Valid loose) {n : Nat} (hn : p.blockSize ∣ n)
    (hadmits : Arena.AdmitsBlock n) (hword : p.arena.front.next + n < word32) :
    (onArena (Arena.alloc n)).Meets p
      (fun offset p' => 0 ≤ offset ∧ (∀ x ∈ span offset n, x ∉ loose) ∧
        p'.Valid (loose ∪ span offset n) ∧ p.Passed p' ∅)
      (refusing fun _ p' => p'.Valid loose ∧ p.Passed p' ∅) := by
  obtain ⟨spot, h, hhand⟩ := h
  refine (allocFront_meets h hadmits hn hword).mono ?_
    fun _ _ hrefused => hrefused.refused.passed h hhand
  intro _ p' hres
  obtain ⟨rfl, hclaimed⟩ := hres
  have hkept : Kept p p' spot spot ∅ := ⟨hclaimed.window, hclaimed.blockSize, fun _ _ _ => rfl,
    fun i _ _ => by rw [hclaimed.roster]⟩
  exact ⟨Int.natCast_nonneg _, hclaimed.fresh, ⟨spot, hclaimed.sound, hhand⟩,
    hkept.passed h hclaimed.sound⟩

theorem take_meets_any [Host] (h : p.Valid loose) {n : Nat} (hn : p.blockSize ∣ n) :
    (onArena (Arena.alloc n)).Meets p
      (fun offset p' => 0 ≤ offset ∧ (∀ x ∈ span offset n, x ∉ loose) ∧
        p'.Valid (loose ∪ span offset n) ∧ p.Passed p' ∅)
      fun e p' => e ≠ .violated .cursorOverflow → p'.Valid loose ∧ p.Passed p' ∅ := by
  by_cases hadmits : Arena.AdmitsBlock n
  · by_cases hword : p.arena.front.next + n < word32
    · exact (take_meets h hn hadmits hword).on_refusal (fun _ _ => id) fun _ _ hsame _ => hsame
    · simp only [onArena, meets_focus, Arena.alloc, Arena.claim, Cursor.claim, Cursor.reserve,
        meets_bind, meets_ensure, meets_get, meets_set, Arena.cursor, hword, hadmits]
      simp
  · simp only [onArena, meets_focus, Arena.alloc, Arena.claim, meets_bind, meets_ensure, hadmits]
    simpa using h.passed_self

/-! ### Making -/

theorem sound_new {p : Pool} (hblock : SizeClass.IsSize p.blockSize) (ha : p.arena.Sound)
    (hfront : p.arena.front.next = 0) (hback : p.arena.back.next = 0) (hr : p.roster.Sound)
    (hlength : p.roster.length = 0) (hbuckets : ∀ c, p.bucket c = ⟨.empty, .empty⟩)
    (hfree : p.backFree = .empty) (hleaked : p.leaked = 0) (hcount : p.liveCount = 0)
    (hlive : p.live = ∅) : p.Sound (fun _ => .unborn) ∅ where
  block := hblock
  arena := ha
  block_dvd := by
    rintro (_ | _)
    · exact hfront ▸ Nat.dvd_zero _
    · exact hback ▸ Nat.dvd_zero _
  roster := hr
  ledger := by
    have hnobody : ∀ o x, ¬ (p.ledger ∅).Owns o x := by
      rintro (i | c | _) x hx
      · simp only [Ledger.Owns, Pool.ledger, hlength, Nat.not_lt_zero, if_false] at hx
        omega
      · simp only [Ledger.Owns, Pool.ledger, hbuckets, Cursor.empty] at hx
        omega
      · exact notMem_empty x hx
    exact {
      apart := fun o _ x hx => absurd hx (hnobody o x)
      within := fun o x hx => absurd hx (hnobody o x)
      balance := by
        simp [recorded, carved, Pool.ledger, hlength, hbuckets, hleaked, hfront, hback,
          Cursor.empty, Cursor.remaining]
      carve_le := fun c => by simp only [Pool.ledger, hbuckets, Cursor.empty, Nat.le_refl]
      unborn := fun i _ => by simp only [Pool.ledger, hlength, Nat.not_lt_zero, if_false] }
  carve_dvd c := by
    rw [hbuckets]
    exact ⟨Nat.dvd_zero _, Nat.dvd_zero _⟩
  carve_stop c := by
    rw [hbuckets]
    exact Nat.zero_le _
  unborn i := by simp [hlength]
  live i := by simp [hlive]
  count := by simp [hcount, hlive]
  chained s := by
    have hhead : (p.chain s).head = noIndex := by
      cases s with
      | front c => rw [chain, hbuckets]; rfl
      | back => rw [chain, hfree]; rfl
    rw [hhead]
    exact (Chain.Covers.empty _).of_eq fun i => by simp
  fits i hi := absurd rfl hi
  fits_shelf i s hi := Spot.noConfusion hi

theorem create_meets [Host] (config : PoolConfig) :
    (create config).Meets () (fun p _ => p.Valid ∅ ∧ (∀ i, i ∉ p.live) ∧
      p.arena.window.memory = .blank ∧ p.blockSize = config.blockSize) fun _ _ => True := by
  simp only [create, meets_bind, meets_ensure, implies_true, and_true]
  intro hblock
  apply (Arena.create_meets config.arena).imp
  intro a _ ha
  have hroster := Roster.create_meets (min config.capacity 1024) config.capacity
    config.arena.strategy
  unfold Meets at hroster
  simp only [Meets, run_attempt]
  rcases hrun : (Roster.create (min config.capacity 1024) config.capacity
    config.arena.strategy).run () with ⟨e | r, _, es⟩
  · rw [hrun] at hroster
    trivial
  · rw [hrun] at hroster
    have hbuckets : ∀ c : SizeClass,
        (Vector.replicate classCount (⟨.empty, .empty⟩ : Bucket))[c] = ⟨.empty, .empty⟩ :=
      fun c => Vector.getElem_replicate _
    refine ⟨⟨_, sound_new hblock ha.sound (ha.next .front) (ha.next .back) hroster.1 hroster.2
      hbuckets rfl rfl rfl rfl, fun _ => Spot.noConfusion⟩, fun i => ?_, ha.blank, rfl⟩
    exact Std.TreeSet.not_mem_emptyc

end Pool

end SlotArena
