import SlotArena.Proofs.Estate

/-!
Who has a live record. Each one has a `Keeper`: the client, a stream or an allotment. An estate is
sound if its pool is and if every keeper is content with the records that are its own; nobody looks
at the records of others. So what a step does to an estate comes down to the few records that it
moves and to the keepers that they leave or come to (`Sound.update`).
-/

namespace SlotArena

open Finset Ledger

inductive Keeper
  | client
  | stream (k : Nat)
  | allotment (k : Nat)

def Pool.keptBy (p : Pool) (keeper : Nat → Keeper) (k : Keeper) : Set Nat :=
  {i | i ∈ p.live ∧ keeper i = k}

/-- The keepers after the records of `moved` were given to `k`. -/
noncomputable def entrust (keeper : Nat → Keeper) (moved : Set Nat) (k : Keeper) : Nat → Keeper :=
  open Classical in fun i => if i ∈ moved then k else keeper i

theorem mem_keptBy_entrust {p p' : Pool} {keeper : Nat → Keeper} {moved : Set Nat}
    {k receiver : Keeper} (hpassed : p.Passed p' moved) {i : Nat} :
    i ∈ p'.keptBy (entrust keeper moved receiver) k ↔
      (i ∈ moved ∧ i ∈ p'.live ∧ receiver = k) ∨ (i ∉ moved ∧ i ∈ p.keptBy keeper k) := by
  by_cases hi : i ∈ moved
  · simp [Pool.keptBy, entrust, hi]
  · simp [Pool.keptBy, entrust, hi, hpassed.live i hi]

namespace Estate

/-- A keeper is content with the records of `S`. -/
def Content (e : Estate) (S : Set Nat) : Keeper → Prop
  | .client => (e.held.map Slot.idx).Nodup ∧ (∀ slot ∈ e.held, e.pool.Lent slot) ∧
      ∀ i, i ∈ S ↔ i ∈ e.held.map Slot.idx
  | .stream k => (e.lanes k = none → ∀ i, i ∉ S) ∧
      ∀ lane, e.lanes k = some lane → lane.stream.Sound e.pool S lane.issued
  | .allotment k => (e.allotments k = none → ∀ i, i ∉ S) ∧
      ∀ a, e.allotments k = some a → a.Sound e.pool S

structure Sound (e : Estate) (keeper : Nat → Keeper) : Prop where
  valid : e.pool.Valid e.taken
  forward : ∀ x ∈ e.taken, 0 ≤ x
  content : ∀ k, e.Content (e.pool.keptBy keeper k) k

/-- A keeper has in `e'` what it had in `e`. -/
def SameFor (e e' : Estate) : Keeper → Prop
  | .client => e'.held = e.held
  | .stream k => e'.lanes k = e.lanes k
  | .allotment k => e'.allotments k = e.allotments k

variable {e e' : Estate} {keeper : Nat → Keeper} {moved S : Set Nat} {k : Keeper}

theorem sameFor_client (hlanes : e'.lanes = e.lanes) (hallotments : e'.allotments = e.allotments)
    (hk : k ∉ ({.client} : Set Keeper)) : e.SameFor e' k := by
  cases k with
  | client => exact absurd rfl hk
  | stream k => exact congrFun hlanes k
  | allotment k => exact congrFun hallotments k

theorem sameFor_lane {n : Nat} {lane : Option Lane} (hheld : e'.held = e.held)
    (hlanes : e'.lanes = Function.update e.lanes n lane)
    (hallotments : e'.allotments = e.allotments) (hk : k ∉ ({.stream n} : Set Keeper)) :
    e.SameFor e' k := by
  cases k with
  | client => exact hheld
  | stream k =>
    rw [SameFor, hlanes, Function.update_of_ne]
    rintro rfl
    exact hk rfl
  | allotment k => exact congrFun hallotments k

theorem sameFor_allotment {n : Nat} {a : Option Allotment} (hlanes : e'.lanes = e.lanes)
    (hallotments : e'.allotments = Function.update e.allotments n a)
    (hheld : k = .client → e'.held = e.held) (hk : k ≠ .allotment n) : e.SameFor e' k := by
  cases k with
  | client => exact hheld rfl
  | stream k => exact congrFun hlanes k
  | allotment k =>
    rw [SameFor, hallotments, Function.update_of_ne]
    rintro rfl
    exact hk rfl

/-- A keeper does not notice what passes its records by. -/
theorem Content.passed (h : e.Content S k) (hvalid : e.pool.Valid e.taken)
    (hvalid' : e'.pool.Valid e'.taken) (hpassed : e.pool.Passed e'.pool moved)
    (hS : ∀ i ∈ S, i ∉ moved) (hsame : e.SameFor e' k) : e'.Content S k := by
  cases k with
  | client =>
    obtain ⟨hnodup, hlent, hmem⟩ := h
    rw [SameFor] at hsame
    rw [Content, hsame]
    refine ⟨hnodup, fun slot hslot => (hlent slot hslot).passed hpassed ?_, hmem⟩
    exact hS _ ((hmem _).mpr (List.mem_map_of_mem hslot))
  | stream k =>
    rw [SameFor] at hsame
    rw [Content, hsame]
    exact ⟨h.1, fun lane hlane => (h.2 lane hlane).passed hvalid hvalid' hpassed hS⟩
  | allotment k =>
    rw [SameFor] at hsame
    rw [Content, hsame]
    exact ⟨h.1, fun a ha => (h.2 a ha).passed hpassed hS⟩

/-- A step that moves the records of `moved` to one keeper concerns that keeper and those who had
them. -/
theorem Sound.update (h : e.Sound keeper) (receiver : Keeper) (touched : Set Keeper)
    (hvalid : e'.pool.Valid e'.taken) (hforward : ∀ x ∈ e'.taken, 0 ≤ x)
    (hpassed : e.pool.Passed e'.pool moved)
    (hfrom : ∀ i ∈ moved, i ∈ e.pool.live → keeper i ∈ touched)
    (hto : ∀ i ∈ moved, i ∈ e'.pool.live → receiver ∈ touched)
    (hsame : ∀ k, k ∉ touched → e.SameFor e' k)
    (htouched : ∀ k ∈ touched, e'.Content (e'.pool.keptBy (entrust keeper moved receiver) k) k) :
    e'.Sound (entrust keeper moved receiver) where
  valid := hvalid
  forward := hforward
  content k := by
    by_cases hk : k ∈ touched
    · exact htouched k hk
    · have hkept : e'.pool.keptBy (entrust keeper moved receiver) k = e.pool.keptBy keeper k := by
        ext i
        rw [mem_keptBy_entrust hpassed]
        constructor
        · rintro (⟨hi, hlive, rfl⟩ | ⟨-, hi⟩)
          · exact absurd (hto i hi hlive) hk
          · exact hi
        · exact fun hi => Or.inr ⟨fun hmem => hk (hi.2 ▸ hfrom i hmem hi.1), hi⟩
      rw [hkept]
      refine (h.content k).passed h.valid hvalid hpassed (fun i hi hmem => ?_) (hsame k hk)
      exact hk (hi.2 ▸ hfrom i hmem hi.1)

theorem Sound.undisturbed (h : e.Sound keeper) (hvalid : e'.pool.Valid e'.taken)
    (hforward : ∀ x ∈ e'.taken, 0 ≤ x) (hpassed : e.pool.Passed e'.pool ∅)
    (hsame : ∀ k, e.SameFor e' k) : e'.Sound keeper where
  valid := hvalid
  forward := hforward
  content k := by
    have hkept : e'.pool.keptBy keeper k = e.pool.keptBy keeper k := by
      ext i
      simp only [Pool.keptBy, Set.mem_ofPred_eq, hpassed.live i (Set.notMem_empty i)]
    rw [hkept]
    exact (h.content k).passed h.valid hvalid hpassed (fun i _ => Set.notMem_empty i) (hsame k)

/-! ### Slots in use -/

/-- The bytes of a slot that may be used are bytes of record `i`. -/
def Lies (e : Estate) (keeper : Nat → Keeper) (slot : Slot) (i : Nat) : Prop :=
  (slot ∈ e.held ∧ i = slot.idx) ∨
    ∃ k lane, e.lanes k = some lane ∧ slot ∈ lane.issued ∧ keeper i = .stream k

theorem Sound.held_keeper (h : e.Sound keeper) {slot : Slot} (hslot : slot ∈ e.held) :
    slot.idx ∈ e.pool.live ∧ keeper slot.idx = .client :=
  ((h.content .client).2.2 _).mpr (List.mem_map_of_mem hslot)

theorem Sound.held_injective (h : e.Sound keeper) {s t : Slot} (hs : s ∈ e.held) (ht : t ∈ e.held)
    (hidx : s.idx = t.idx) : s = t :=
  List.inj_on_of_nodup_map (h.content .client).1 hs ht hidx

/-- Every slot that may be used lies in a live record, and can be reached. -/
theorem Sound.exists_lies (h : e.Sound keeper) {slot : Slot} (hslot : e.Has slot) :
    e.pool.Reaches slot ∧ ∃ i ∈ e.pool.live, e.Lies keeper slot i ∧
      (e.pool.roster.record i).offset ≤ slot.offset ∧
      slot.stop ≤ (e.pool.roster.record i).offset + (e.pool.roster.record i).size := by
  rcases hslot with hheld | ⟨k, lane, hlane, hissued⟩
  · have hlent := (h.content .client).2.1 slot hheld
    refine ⟨hlent.reaches, slot.idx, hlent.live, Or.inl ⟨hheld, rfl⟩, ?_, ?_⟩
    · rw [hlent.offset]
    · rw [hlent.offset, hlent.size, Slot.stop]
  · have hsound := (h.content (.stream k)).2 lane hlane
    obtain ⟨i, ⟨hlive, hkeeper⟩, hlo, hhi, -⟩ := hsound.inside slot hissued
    refine ⟨hsound.reaches slot hissued, i, hlive, Or.inr ⟨k, lane, hlane, hissued, hkeeper⟩, ?_,
      hhi⟩
    omega

theorem Sound.slots_disjoint (h : e.Sound keeper) {s t : Slot} (hs : e.Has s) (ht : e.Has t)
    (hne : s ≠ t) : Disjoint (span s.offset s.size) (span t.offset t.size) := by
  obtain ⟨-, i, hi, his, hlo, hhi⟩ := h.exists_lies hs
  obtain ⟨-, j, hj, hjt, hlo', hhi'⟩ := h.exists_lies ht
  by_cases hij : i = j
  · subst hij
    rcases his with ⟨hs, rfl⟩ | ⟨k, lane, hlane, hs, hkeeper⟩
    · rcases hjt with ⟨ht, hidx⟩ | ⟨k', lane', -, -, hkeeper'⟩
      · exact absurd (h.held_injective hs ht hidx) hne
      · exact Keeper.noConfusion (((h.held_keeper hs).2).symm.trans hkeeper')
    · rcases hjt with ⟨ht, rfl⟩ | ⟨k', lane', hlane', ht, hkeeper'⟩
      · exact Keeper.noConfusion (((h.held_keeper ht).2).symm.trans hkeeper)
      · obtain rfl : k = k' := Keeper.stream.inj (hkeeper.symm.trans hkeeper')
        obtain rfl : lane = lane' := Option.some.inj (hlane.symm.trans hlane')
        have hapart := ((h.content (.stream k)).2 lane hlane).apart
        have hsymm : Std.Symm fun a b : Slot =>
          Disjoint (span a.offset a.size) (span b.offset b.size) := ⟨fun _ _ hab => hab.symm⟩
        exact hapart.forall hs ht hne
  · exact disjoint_of_subset_left (span_subset_span hlo hhi)
      (disjoint_of_subset_right (span_subset_span hlo' hhi') (h.valid.disjoint hi hj hij))

theorem Sound.header_disjoint (h : e.Sound keeper) {slot : Slot} (hslot : e.Has slot) {k j : Nat}
    (hj : j ∈ e.pool.keptBy keeper (.stream k)) :
    Disjoint (span (e.pool.roster.record j).offset Stream.headerSize)
      (span slot.offset slot.size) := by
  have hsize := Stream.size_ge h.valid hj.1
  have hheader : span (e.pool.roster.record j).offset Stream.headerSize ⊆ e.pool.bytesOf j := by
    refine span_subset_span (le_refl _) ?_
    rw [Stream.headerSize]
    omega
  rcases hslot with hheld | ⟨k', lane, hlane, hissued⟩
  · have hlent := (h.content .client).2.1 slot hheld
    have hne : j ≠ slot.idx := by
      rintro rfl
      exact Keeper.noConfusion (hj.2.symm.trans (h.held_keeper hheld).2)
    have hdisjoint := h.valid.disjoint hj.1 hlent.live hne
    rw [hlent.bytesOf] at hdisjoint
    exact disjoint_of_subset_left hheader hdisjoint
  · obtain ⟨i, hi, hlo, hhi, -⟩ := ((h.content (.stream k')).2 lane hlane).inside slot hissued
    rw [Slot.stop] at hhi
    by_cases hij : j = i
    · subst hij
      refine disjoint_left.mpr fun x hx hx' => ?_
      rw [mem_span] at hx hx'
      omega
    · refine disjoint_of_subset_left hheader
        (disjoint_of_subset_right (span_subset_span ?_ hhi) (h.valid.disjoint hj.1 hi.1 hij))
      omega

/-! ### What the client has -/

theorem Sound.content_keep (h : e.Sound keeper) (slot : Slot) (hlent : e'.pool.Lent slot)
    (hnew : slot.idx ∉ e.pool.keptBy keeper .client) (hpassed : e.pool.Passed e'.pool {slot.idx})
    (hheld : e'.held = slot :: e.held) :
    e'.Content (e'.pool.keptBy (entrust keeper {slot.idx} .client) .client) .client := by
  obtain ⟨hnodup, hold, hmem⟩ := h.content .client
  have hout : slot.idx ∉ e.held.map Slot.idx := fun hin => hnew ((hmem _).mpr hin)
  have hne : ∀ t ∈ e.held, t.idx ∉ ({slot.idx} : Set Nat) := by
    intro t ht heq
    exact hout (Set.mem_singleton_iff.mp heq ▸ List.mem_map_of_mem ht)
  rw [Content, hheld]
  refine ⟨List.nodup_cons.mpr ⟨hout, hnodup⟩, fun t ht => ?_, fun i => ?_⟩
  · rcases List.mem_cons.mp ht with rfl | ht
    · exact hlent
    · exact (hold t ht).passed hpassed (hne t ht)
  · rw [mem_keptBy_entrust hpassed, hmem i, List.map_cons, List.mem_cons, Set.mem_singleton_iff]
    constructor
    · rintro (⟨rfl, -⟩ | ⟨-, hi⟩)
      · exact Or.inl rfl
      · exact Or.inr hi
    · rintro (rfl | hi)
      · exact Or.inl ⟨rfl, hlent.live, rfl⟩
      · exact Or.inr ⟨fun heq => hout (heq ▸ hi), hi⟩

theorem Sound.content_drop (h : e.Sound keeper) {slot : Slot} (hslot : slot ∈ e.held)
    {receiver : Keeper} (hgone : slot.idx ∈ e'.pool.live → receiver ≠ .client)
    (hpassed : e.pool.Passed e'.pool {slot.idx}) (hheld : e'.held = e.held.erase slot) :
    e'.Content (e'.pool.keptBy (entrust keeper {slot.idx} receiver) .client) .client := by
  obtain ⟨hnodup, hold, hmem⟩ := h.content .client
  have hheld' : ∀ t, t ∈ e.held.erase slot ↔ t ≠ slot ∧ t ∈ e.held := fun t =>
    hnodup.of_map.mem_erase_iff
  have hne : ∀ t ∈ e.held, t ≠ slot → t.idx ≠ slot.idx := fun t ht hts hidx =>
    hts (h.held_injective ht hslot hidx)
  rw [Content, hheld]
  refine ⟨hnodup.sublist (List.erase_sublist.map _), fun t ht => ?_, fun i => ?_⟩
  · obtain ⟨hts, ht⟩ := (hheld' t).mp ht
    exact (hold t ht).passed hpassed (hne t ht hts)
  · rw [mem_keptBy_entrust hpassed, hmem i, Set.mem_singleton_iff, List.mem_map, List.mem_map]
    constructor
    · rintro (⟨rfl, hlive, hclient⟩ | ⟨hi, t, ht, rfl⟩)
      · exact absurd hclient (hgone hlive)
      · exact ⟨t, (hheld' t).mpr ⟨fun hts => hi (hts ▸ rfl), ht⟩, rfl⟩
    · rintro ⟨t, ht, rfl⟩
      obtain ⟨hts, ht⟩ := (hheld' t).mp ht
      exact Or.inr ⟨hne t ht hts, t, ht, rfl⟩

end Estate

end SlotArena
