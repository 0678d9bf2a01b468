import SlotArena.Proofs.Custody

/-!
What the steps of an estate preserve. `Follows e step e'` is all that the users of the estate can
rely on: it stays sound, a slot that is not given back stays in use, and its bytes are those that it
had or those that the step wrote to it. Every admitted step does so, whether it is served or fails
(`perform_follows`), and therefore every run (`Run.sound`).
-/

namespace SlotArena

open Act Finset Ledger

/-- The byte at an offset of a slot after a step that found `b` there. -/
def Step.puts (slot : Slot) (x : Int) (b : UInt8) : Step → UInt8
  | .write t place bytes =>
      if t = slot ∧ place.offset ≤ x ∧ x < place.offset + bytes.size then
        bytes.getD (x - place.offset).toNat 0
      else b
  | _ => b

namespace Estate

def byteAt (e : Estate) (x : Int) : UInt8 := e.pool.arena.window.byteAt x

def Returns (e : Estate) (slot : Slot) : Step → Prop
  | .free t => t = slot
  | .putBack _ t => t = slot
  | .finish k => ∃ lane, e.lanes k = some lane ∧ slot ∈ lane.issued
  | _ => False

structure Follows (e : Estate) (step : Step) (e' : Estate) : Prop where
  sound : ∃ keeper, e'.Sound keeper
  stays : ∀ slot, e.Has slot → ¬ e.Returns slot step → e'.Has slot
  bytes : ∀ slot, e.Has slot → ¬ e.Returns slot step → ∀ x ∈ span slot.offset slot.size,
    e'.byteAt x = step.puts slot x (e.byteAt x)

variable {e e' : Estate} {keeper keeper' : Nat → Keeper} {moved : Set Nat} {step : Step}

/-- A step that writes nothing leaves the bytes of all slots but those that it takes away. -/
theorem Sound.follows (h : e.Sound keeper) (hsound : e'.Sound keeper')
    (hpassed : e.pool.Passed e'.pool moved) (hquiet : ∀ slot x b, step.puts slot x b = b)
    (hstays : ∀ slot, e.Has slot → ¬ e.Returns slot step → e'.Has slot)
    (hgone : ∀ i ∈ moved, i ∈ e.pool.live → ∀ slot, e.Lies keeper slot i → e.Returns slot step) :
    e.Follows step e' where
  sound := ⟨keeper', hsound⟩
  stays := hstays
  bytes slot hslot hreturns x hx := by
    obtain ⟨-, i, hi, hlies, hlo, hhi⟩ := h.exists_lies hslot
    rw [hquiet]
    exact hpassed.bytes i (fun hmem => hreturns (hgone i hmem hi slot hlies)) hi x
      (span_subset_span hlo hhi hx)

theorem Has.congr (hheld : e'.held = e.held) (hlanes : e'.lanes = e.lanes) {slot : Slot}
    (h : e.Has slot) : e'.Has slot := by
  rw [Has, hheld, hlanes]
  exact h

theorem Sound.follows_undisturbed (h : e.Sound keeper) (hquiet : ∀ slot x b, step.puts slot x b = b)
    (hvalid : e'.pool.Valid e'.taken) (hforward : ∀ x ∈ e'.taken, 0 ≤ x)
    (hpassed : e.pool.Passed e'.pool ∅) (hheld : e'.held = e.held) (hlanes : e'.lanes = e.lanes)
    (hallotments : e'.allotments = e.allotments) : e.Follows step e' := by
  have hsound : e'.Sound keeper := by
    refine h.undisturbed hvalid hforward hpassed ?_
    rintro (_ | k | k)
    · exact hheld
    · exact congrFun hlanes k
    · exact congrFun hallotments k
  exact h.follows hsound hpassed hquiet (fun slot hslot _ => hslot.congr hheld hlanes)
    fun i hi => absurd hi (Set.notMem_empty i)

theorem Sound.follows_self (h : e.Sound keeper) (hquiet : ∀ slot x b, step.puts slot x b = b) :
    e.Follows step e :=
  h.follows_undisturbed hquiet h.valid h.forward (.refl _ _) rfl rfl rfl

/-! ### The client and the pool -/

theorem keep_follows (h : e.Sound keeper) (hquiet : ∀ slot x b, step.puts slot x b = b)
    {x : Act Pool Slot}
    (hx : x.Meets e.pool
      (fun slot p => (slot = .null ∧ p = e.pool) ∨ e.pool.Issued e.taken slot p)
      fun _ p => p.Valid e.taken ∧ e.pool.Passed p ∅) :
    (do
      let slot ← onPool x
      Act.modify (keep · slot)
      return some slot).Meets e (fun _ => e.Follows step) fun _ => e.Follows step := by
  simp only [meets_bind, onPool, meets_focus, meets_modify, meets_pure]
  refine hx.weaken ?_ ?_
  · rintro slot p (⟨rfl, rfl⟩ | hissued)
    · exact h.follows_self hquiet
    · have hpos : 0 < slot.size := by
        rw [← hissued.lent.size]
        exact hissued.valid.size_pos hissued.live
      have hkeep : keep { e with pool := p } slot = { e with pool := p, held := slot :: e.held } :=
        if_neg (Nat.ne_of_gt hpos)
      have hnew : slot.idx ∉ e.pool.keptBy keeper .client := fun hmem => hissued.new hmem.1
      rw [hkeep]
      refine h.follows (h.update .client {.client} hissued.valid h.forward hissued.passed ?_ ?_ ?_
        ?_) hissued.passed hquiet ?_ ?_
      · rintro i rfl hlive
        exact absurd hlive hissued.new
      · exact fun _ _ _ => rfl
      · exact fun _ hk => sameFor_client rfl rfl hk
      · rintro _ rfl
        exact h.content_keep slot hissued.lent hnew hissued.passed rfl
      · exact fun t ht _ => ht.imp_left (List.mem_cons_of_mem _)
      · rintro i rfl hlive
        exact absurd hlive hissued.new
  · exact fun _ p hp => h.follows_undisturbed hquiet hp.1 h.forward hp.2 rfl rfl rfl

theorem alloc_follows [Host] (h : e.Sound keeper) (size align : Nat) :
    (perform (.alloc size align)).Meets e (fun _ => e.Follows (.alloc size align))
      fun _ => e.Follows (.alloc size align) := by
  refine keep_follows h (fun _ _ _ => rfl)
    ((Pool.alloc_meets_any h.valid size align).weaken ?_ fun _ p hp => hp.1)
  rintro slot p (⟨-, hnull, hp⟩ | ⟨-, hissued, -⟩)
  · exact Or.inl ⟨hnull, hp⟩
  · exact Or.inr hissued

theorem allocBack_follows [Host] (h : e.Sound keeper) :
    (perform .allocBack).Meets e (fun _ => e.Follows .allocBack) fun _ => e.Follows .allocBack := by
  refine keep_follows h (fun _ _ _ => rfl) ((Pool.allocBack_meets h.valid).on_refusal ?_ ?_)
  · exact fun slot p hp => Or.inr hp.1
  · exact fun _ _ => id

theorem has_drop {slot t : Slot} (ht : e.Has t) (hne : ¬ slot = t)
    (hheld : e'.held = e.held.erase slot) (hlanes : e'.lanes = e.lanes) : e'.Has t := by
  rcases ht with ht | ht
  · left
    rw [hheld]
    exact (List.mem_erase_of_ne (Ne.symm hne)).mpr ht
  · right
    rw [hlanes]
    exact ht

theorem free_follows [Host] (h : e.Sound keeper) {slot : Slot}
    (hslot : slot.IsNull ∨ slot ∈ e.held) :
    (perform (.free slot)).Meets e (fun _ => e.Follows (.free slot)) Never := by
  simp only [perform, meets_bind, onPool, meets_focus, meets_modify, meets_pure]
  by_cases hheld : slot ∈ e.held
  · have hlent := (h.content .client).2.1 slot hheld
    have hkeeper := (h.held_keeper hheld).2
    apply (h.valid.free_meets hlent).imp
    intro _ p hres
    obtain ⟨hvalid, hpassed, hgone⟩ := hres
    refine h.follows (h.update .client {.client} hvalid h.forward hpassed ?_ ?_ ?_ ?_) hpassed
      (fun _ _ _ => rfl) ?_ ?_
    · rintro i rfl -
      exact hkeeper
    · exact fun _ _ _ => rfl
    · exact fun _ hk => sameFor_client rfl rfl hk
    · rintro _ rfl
      exact h.content_drop hheld (fun hlive => absurd hlive hgone) hpassed rfl
    · exact fun t ht hne => has_drop ht hne rfl rfl
    · rintro i rfl - t (⟨ht, hidx⟩ | ⟨k, lane, -, -, hlane⟩)
      · exact h.held_injective hheld ht hidx
      · exact Keeper.noConfusion (hkeeper.symm.trans hlane)
  · have hnull : slot.IsNull := hslot.resolve_right hheld
    simp only [Pool.free, meets_ite, hnull, true_implies, meets_pure, not_true_eq_false,
      false_implies, and_true]
    have hdrop : drop { e with pool := e.pool } slot = e := by
      rw [drop, List.erase_of_not_mem hheld]
    rw [hdrop]
    exact h.follows_self fun _ _ _ => rfl

/-! ### Bytes of the arena -/

theorem take_follows [Host] (h : e.Sound keeper) {n : Nat} (hn : e.pool.blockSize ∣ n) :
    (perform (.take n)).Meets e (fun _ => e.Follows (.take n))
      fun fault e' => fault ≠ .violated .cursorOverflow → e.Follows (.take n) e' := by
  simp only [perform, meets_bind, onPool, meets_focus, meets_modify, meets_pure]
  refine (Pool.take_meets_any h.valid hn).weaken ?_ ?_
  · intro offset p hres
    obtain ⟨hoffset, -, hvalid, hpassed⟩ := hres
    refine h.follows_undisturbed (fun _ _ _ => rfl) hvalid (fun x hx => ?_) hpassed rfl rfl rfl
    rcases mem_union.mp hx with hx | hx
    · exact h.forward x hx
    · have hspan := mem_span.mp hx
      omega
  · intro fault p hres hfault
    obtain ⟨hvalid, hpassed⟩ := hres hfault
    exact h.follows_undisturbed (fun _ _ _ => rfl) hvalid h.forward hpassed rfl rfl rfl

theorem giveBack_follows [Host] (h : e.Sound keeper) {offset : Int} {n : Nat}
    (hsub : span offset n ⊆ e.taken) (hend : (e.pool.blockSize : Int) ∣ offset + n) :
    (perform (.giveBack offset n)).Meets e (fun _ => e.Follows (.giveBack offset n))
      fun _ => e.Follows (.giveBack offset n) := by
  have hdone : ∀ p : Pool, p.Valid (e.taken \ span offset n) ∧ e.pool.Passed p ∅ →
      e.Follows (.giveBack offset n)
        { e with pool := p, taken := e.taken \ span offset n } := fun p hp =>
    h.follows_undisturbed (fun _ _ _ => rfl) hp.1 (fun x hx => h.forward x (mem_sdiff.mp hx).1)
      hp.2 rfl rfl rfl
  simp only [perform, meets_bind, onPool, meets_focus, meets_modify, meets_pure]
  by_cases hoffset : 0 ≤ offset
  · exact (Pool.returnChunk_meets h.valid hoffset hend hsub).on_refusal (fun _ => hdone)
      fun _ => hdone
  · -- a range below the origin that the client owns is empty
    have hempty : span offset n = ∅ := by
      refine eq_empty_of_forall_notMem fun x hx => ?_
      have hlow := mem_span.mp hx
      have hfirst := h.forward offset (hsub (mem_span.mpr (by omega)))
      exact hoffset hfirst
    have hself : e.pool.Valid (e.taken \ span offset n) ∧ e.pool.Passed e.pool ∅ := by
      rw [hempty, sdiff_empty]
      exact h.valid.passed_self
    simp only [Pool.returnChunk, Pool.splitChunk, meets_bind, meets_ensure, hoffset, false_implies,
      not_false_eq_true, true_implies, true_and]
    exact hdone _ hself

/-! ### Streams -/

theorem has_lane {k : Nat} {lane : Option Lane} {slot : Slot} (h : e.Has slot)
    (hheld : e'.held = e.held) (hlanes : e'.lanes = Function.update e.lanes k lane)
    (hsame : ∀ old, e.lanes k = some old → slot ∈ old.issued →
      ∃ new, lane = some new ∧ slot ∈ new.issued) : e'.Has slot := by
  rcases h with h | ⟨k', old, hold, hslot⟩
  · exact Or.inl (hheld ▸ h)
  · right
    rw [hlanes]
    by_cases hk : k' = k
    · subst hk
      obtain ⟨new, rfl, hnew⟩ := hsame old hold hslot
      exact ⟨k', new, Function.update_self .., hnew⟩
    · exact ⟨k', old, (Function.update_of_ne hk ..).trans hold, hslot⟩

theorem content_lane {k : Nat} {lane : Lane} {S : Set Nat} (hlane : e'.lanes k = some lane)
    (h : lane.stream.Sound e'.pool S lane.issued) : e'.Content S (.stream k) := by
  refine ⟨fun hnone => ?_, fun lane' hlane' => ?_⟩
  · exact absurd (hlane.symm.trans hnone) (Option.some_ne_none _)
  · obtain rfl : lane = lane' := Option.some.inj (hlane.symm.trans hlane')
    exact h

theorem openStream_follows [Host] (h : e.Sound keeper) {k : Nat} (hk : e.lanes k = none)
    (blockSize : Nat) :
    (perform (.openStream k blockSize)).Meets e (fun _ => e.Follows (.openStream k blockSize))
      fun _ => e.Follows (.openStream k blockSize) := by
  simp only [perform, Stream.create, meets_bind, meets_ensure, meets_pure, meets_modify]
  refine ⟨fun _ => ?_, fun _ => h.follows_self fun _ _ _ => rfl⟩
  have hpassed : e.pool.Passed e.pool ∅ := .refl _ _
  have hnone := (h.content (.stream k)).1 hk
  have hempty : ∀ i, i ∉ e.pool.keptBy (entrust keeper ∅ .client) (.stream k) := by
    intro i hi
    rw [mem_keptBy_entrust hpassed] at hi
    rcases hi with ⟨hi, -⟩ | ⟨-, hi⟩
    · exact hi
    · exact hnone i hi
  refine h.follows (h.update .client {.stream k} h.valid h.forward hpassed ?_ ?_ ?_ ?_) hpassed
    (fun _ _ _ => rfl) ?_ ?_
  · exact fun i hi => absurd hi (Set.notMem_empty i)
  · exact fun i hi => absurd hi (Set.notMem_empty i)
  · exact fun _ hk => sameFor_lane rfl rfl rfl hk
  · rintro _ rfl
    exact content_lane (Function.update_self ..) (Stream.sound_new hempty blockSize)
  · intro slot hslot _
    refine has_lane hslot rfl rfl fun old hold => ?_
    exact absurd (hold.symm.trans hk) (Option.some_ne_none _)
  · exact fun i hi => absurd hi (Set.notMem_empty i)

theorem lane_follows (h : e.Sound keeper) {k : Nat} {old lane : Lane} (hold : e.lanes k = some old)
    (hquiet : ∀ slot x b, step.puts slot x b = b) {p : Pool} (hvalid : p.Valid e.taken)
    (new : Set Nat) (hnew : ∀ i ∈ new, i ∉ e.pool.live) (hpassed : e.pool.Passed p new)
    (hissued : ∀ slot ∈ old.issued, slot ∈ lane.issued)
    (hsound : lane.stream.Sound p {i | i ∈ new ∨ i ∈ e.pool.keptBy keeper (.stream k)}
      lane.issued) : e.Follows step ({ e with pool := p }.withLane k (some lane)) := by
  have hkept : p.keptBy (entrust keeper new (.stream k)) (.stream k) =
      {i | i ∈ new ∨ i ∈ e.pool.keptBy keeper (.stream k)} := by
    ext i
    rw [mem_keptBy_entrust hpassed]
    constructor
    · rintro (⟨hi, -⟩ | ⟨-, hi⟩)
      · exact Or.inl hi
      · exact Or.inr hi
    · intro hi
      by_cases hin : i ∈ new
      · exact Or.inl ⟨hin, hsound.live i hi, rfl⟩
      · exact Or.inr ⟨hin, hi.resolve_left hin⟩
  refine h.follows (h.update (.stream k) {.stream k} hvalid h.forward hpassed ?_ ?_ ?_ ?_)
    hpassed hquiet ?_ ?_
  · exact fun i hi hlive => absurd hlive (hnew i hi)
  · exact fun _ _ _ => rfl
  · exact fun _ hk => sameFor_lane rfl rfl rfl hk
  · rintro _ rfl
    refine content_lane (Function.update_self ..) ?_
    show lane.stream.Sound p (p.keptBy _ _) lane.issued
    rw [hkept]
    exact hsound
  · intro slot hslot _
    refine has_lane hslot rfl rfl fun old' hold' hmem => ⟨lane, rfl, ?_⟩
    obtain rfl : old = old' := Option.some.inj (hold.symm.trans hold')
    exact hissued slot hmem
  · exact fun i hi hlive => absurd hlive (hnew i hi)

theorem streamAlloc_follows [Host] (h : e.Sound keeper) (k size align : Nat) :
    (perform (.streamAlloc k size align)).Meets e
      (fun _ => e.Follows (.streamAlloc k size align))
      fun _ => e.Follows (.streamAlloc k size align) := by
  have hquiet : ∀ slot x b, (Step.streamAlloc k size align).puts slot x b = b := fun _ _ _ => rfl
  simp only [perform, meets_bind, meets_get]
  cases hlane : e.lanes k with
  | none => exact h.follows_self hquiet
  | some lane =>
    have hsound := (h.content (.stream k)).2 lane hlane
    have hnone : {i | i ∈ (∅ : Set Nat) ∨ i ∈ e.pool.keptBy keeper (.stream k)} =
        e.pool.keptBy keeper (.stream k) := by
      ext i
      simp
    simp only [meets_bind, onLane, meets_focus, meets_modify, meets_pure]
    refine (Stream.alloc_meets_any hsound h.valid size align).weaken ?_ ?_
    · rintro slot ⟨s, p⟩ hanswered
      simp only [withLane, Function.update_self, Function.update_idem, Option.map_some]
      rcases hanswered with ⟨-, rfl, hsame⟩ | ⟨hpos, hsize, -, -, new, hnew, hvalid, hpassed, hs⟩
      · obtain ⟨rfl, rfl⟩ := Prod.mk.inj hsame
        refine lane_follows h hlane hquiet h.valid ∅ ?_ (.refl _ _) (fun _ => id) ?_
        · exact fun i hi => absurd hi (Set.notMem_empty i)
        · rw [hnone]
          exact hsound
      · have hnull : ¬ slot.IsNull := by
          rw [Slot.IsNull, hsize]
          exact Nat.ne_of_gt hpos
        rw [Lane.issue, if_neg hnull]
        exact lane_follows h hlane hquiet hvalid new hnew hpassed
          (fun _ hslot => List.mem_cons_of_mem _ hslot) hs
    · rintro _ ⟨s, p⟩ ⟨⟨rfl, hvalid, hpassed⟩, -⟩
      refine lane_follows h hlane hquiet hvalid ∅ ?_ hpassed (fun _ => id) ?_
      · exact fun i hi => absurd hi (Set.notMem_empty i)
      · rw [hnone]
        exact hsound.passed h.valid hvalid hpassed fun i _ => Set.notMem_empty i

theorem finish_follows [Host] (h : e.Sound keeper) (k : Nat) :
    (perform (.finish k)).Meets e (fun _ => e.Follows (.finish k)) Never := by
  have hquiet : ∀ slot x b, (Step.finish k).puts slot x b = b := fun _ _ _ => rfl
  simp only [perform, meets_bind, meets_get]
  cases hlane : e.lanes k with
  | none => exact h.follows_self hquiet
  | some lane =>
    have hsound := (h.content (.stream k)).2 lane hlane
    simp only [meets_bind, meets_modify, onPool, meets_focus, meets_pure]
    apply (Stream.release_meets hsound h.valid).imp
    intro _ p hres
    obtain ⟨hvalid, hpassed, hgone⟩ := hres
    refine h.follows (h.update (.stream k) {.stream k} hvalid h.forward hpassed ?_ ?_ ?_ ?_)
      hpassed hquiet ?_ ?_
    · exact fun i hi _ => hi.2
    · exact fun _ _ _ => rfl
    · exact fun _ hk => sameFor_lane rfl rfl rfl hk
    · rintro _ rfl
      refine ⟨fun _ i hi => ?_, fun lane' hlane' => ?_⟩
      · rw [mem_keptBy_entrust hpassed] at hi
        rcases hi with ⟨hi, hlive, -⟩ | ⟨hout, hi⟩
        · exact hgone i hi hlive
        · exact hout hi
      · exact absurd (hlane'.symm.trans (Function.update_self ..)) (Option.some_ne_none _)
    · intro slot hslot hreturns
      refine has_lane hslot rfl rfl fun old hold hmem => ?_
      exact absurd ⟨old, hold, hmem⟩ hreturns
    · rintro i ⟨-, hkeeper⟩ hlive slot (⟨hheld, rfl⟩ | ⟨k', lane', hlane', hslot, hkeeper'⟩)
      · exact Keeper.noConfusion ((h.held_keeper hheld).2.symm.trans hkeeper)
      · obtain rfl : k' = k := Keeper.stream.inj (hkeeper'.symm.trans hkeeper)
        exact ⟨lane', hlane', hslot⟩

/-! ### Allotments -/

theorem content_allotment {k : Nat} {a : Allotment} {S : Set Nat}
    (ha : e'.allotments k = some a) (h : a.Sound e'.pool S) : e'.Content S (.allotment k) := by
  refine ⟨fun hnone => ?_, fun a' ha' => ?_⟩
  · exact absurd (ha.symm.trans hnone) (Option.some_ne_none _)
  · obtain rfl : a = a' := Option.some.inj (ha.symm.trans ha')
    exact h

theorem reserve_follows [Host] (h : e.Sound keeper) {k : Nat} (hk : e.allotments k = none)
    (count size : Nat) :
    (perform (.reserve k count size)).Meets e (fun _ => e.Follows (.reserve k count size))
      fun _ => e.Follows (.reserve k count size) := by
  have hquiet : ∀ slot x b, (Step.reserve k count size).puts slot x b = b := fun _ _ _ => rfl
  have hnone := (h.content (.allotment k)).1 hk
  simp only [perform, meets_bind, onPool, meets_focus, meets_modify, meets_pure]
  refine (Allotment.create_meets h.valid count size).weaken ?_ ?_
  · intro a p hres
    obtain ⟨new, hnew, hvalid, hpassed, -, hsound⟩ := hres
    have hkept : p.keptBy (entrust keeper new (.allotment k)) (.allotment k) = new := by
      ext i
      rw [mem_keptBy_entrust hpassed]
      constructor
      · rintro (⟨hi, -⟩ | ⟨-, hi⟩)
        · exact hi
        · exact absurd hi (hnone i)
      · exact fun hi => Or.inl ⟨hi, hsound.live i hi, rfl⟩
    refine h.follows (h.update (.allotment k) {.allotment k} hvalid h.forward hpassed ?_ ?_ ?_ ?_)
      hpassed hquiet ?_ ?_
    · exact fun i hi hlive => absurd hlive (hnew i hi)
    · exact fun _ _ _ => rfl
    · exact fun _ hk => sameFor_allotment rfl rfl (fun _ => rfl) hk
    · rintro _ rfl
      refine content_allotment (Function.update_self ..) ?_
      show a.Sound p (p.keptBy _ _)
      rw [hkept]
      exact hsound
    · exact fun slot hslot _ => hslot.congr rfl rfl
    · exact fun i hi hlive => absurd hlive (hnew i hi)
  · exact fun _ p hp => h.follows_undisturbed hquiet hp.1.1 h.forward hp.1.2 rfl rfl rfl

theorem draw_follows [Host] (h : e.Sound keeper) (k : Nat) :
    (perform (.draw k)).Meets e (fun _ => e.Follows (.draw k)) Never := by
  have hquiet : ∀ slot x b, (Step.draw k).puts slot x b = b := fun _ _ _ => rfl
  simp only [perform, meets_bind, meets_get]
  cases ha : e.allotments k with
  | none => exact h.follows_self hquiet
  | some a =>
    have hsound := (h.content (.allotment k)).2 a ha
    simp only [meets_bind, onAllotment, meets_focus, meets_modify, meets_pure]
    apply (Allotment.alloc_meets hsound h.valid).imp
    rintro _ ⟨b, p⟩ ⟨rfl, ⟨rfl, rfl, -⟩ | ⟨i, chain, rfl, hi, rfl, hrest⟩⟩
    · have hself : withAllotment { e with pool := e.pool } k (some b) = e := by
        rw [withAllotment, ← ha, Function.update_eq_self]
      rw [Option.elim_none, hself]
      exact h.follows_self hquiet
    · have hlive := hi.1
      have hpos : ¬ (e.pool.slotOf i).IsNull := Nat.ne_of_gt (h.valid.size_pos hlive)
      have hpassed : e.pool.Passed e.pool {i} := .refl _ _
      have hclient : i ∉ e.pool.keptBy keeper .client := fun hmem =>
        Keeper.noConfusion (hmem.2.symm.trans hi.2)
      have hkept : e.pool.keptBy (entrust keeper {i} .client) (.allotment k) =
          {j | j ∈ e.pool.keptBy keeper (.allotment k) ∧ j ≠ i} := by
        ext j
        rw [mem_keptBy_entrust hpassed]
        constructor
        · rintro (⟨-, -, hk⟩ | ⟨hj, hmem⟩)
          · exact Keeper.noConfusion hk
          · exact ⟨hmem, hj⟩
        · exact fun hj => Or.inr ⟨hj.2, hj.1⟩
      rw [Option.elim_some, keep, if_neg hpos]
      refine h.follows (h.update .client {.client, .allotment k} h.valid h.forward hpassed ?_ ?_ ?_
        ?_) hpassed hquiet ?_ ?_
      · rintro j rfl -
        exact Or.inr hi.2
      · exact fun _ _ _ => Or.inl rfl
      · intro k' hk'
        exact sameFor_allotment rfl rfl (fun hc => absurd (Or.inl hc) hk') fun hc => hk' (Or.inr hc)
      · rintro _ (rfl | rfl)
        · exact h.content_keep (e.pool.slotOf i) (h.valid.lent_slotOf hlive) hclient hpassed rfl
        · refine content_allotment (Function.update_self ..) ?_
          show Allotment.Sound _ e.pool (e.pool.keptBy _ _)
          rw [hkept]
          exact hrest
      · exact fun t ht _ => ht.imp_left (List.mem_cons_of_mem _)
      · rintro j rfl - t (⟨ht, rfl⟩ | ⟨k', lane, -, -, hlane⟩)
        · exact absurd (h.held_keeper ht) hclient
        · exact Keeper.noConfusion (hi.2.symm.trans hlane)

theorem putBack_follows [Host] (h : e.Sound keeper) (k : Nat) {slot : Slot}
    (hheld : slot ∈ e.held) :
    (perform (.putBack k slot)).Meets e (fun _ => e.Follows (.putBack k slot))
      fun _ => e.Follows (.putBack k slot) := by
  have hquiet : ∀ t x b, (Step.putBack k slot).puts t x b = b := fun _ _ _ => rfl
  simp only [perform, meets_bind, meets_get]
  cases ha : e.allotments k with
  | none => exact h.follows_self hquiet
  | some a =>
    have hsound := (h.content (.allotment k)).2 a ha
    have hlent := (h.content .client).2.1 slot hheld
    have hkeeper := (h.held_keeper hheld).2
    have hnew : slot.idx ∉ e.pool.keptBy keeper (.allotment k) := fun hmem =>
      Keeper.noConfusion (hkeeper.symm.trans hmem.2)
    simp only [meets_bind, onAllotment, meets_focus, meets_modify, meets_pure]
    refine (Allotment.free_meets hsound h.valid hlent hnew).weaken ?_ ?_
    · rintro _ ⟨b, p⟩ ⟨-, hvalid, hpassed, hrest⟩
      have hkept : p.keptBy (entrust keeper {slot.idx} (.allotment k)) (.allotment k) =
          {j | j = slot.idx ∨ j ∈ e.pool.keptBy keeper (.allotment k)} := by
        ext j
        rw [mem_keptBy_entrust hpassed]
        constructor
        · rintro (⟨hj, -⟩ | ⟨-, hj⟩)
          · exact Or.inl hj
          · exact Or.inr hj
        · rintro (rfl | hj)
          · exact Or.inl ⟨rfl, hrest.live _ (Or.inl rfl), rfl⟩
          · exact Or.inr ⟨fun heq => hnew (Set.mem_singleton_iff.mp heq ▸ hj), hj⟩
      refine h.follows (h.update (.allotment k) {.client, .allotment k} hvalid h.forward hpassed ?_
        ?_ ?_ ?_) hpassed hquiet ?_ ?_
      · rintro j rfl -
        exact Or.inl hkeeper
      · exact fun _ _ _ => Or.inr rfl
      · intro k' hk'
        exact sameFor_allotment rfl rfl (fun hc => absurd (Or.inl hc) hk') fun hc => hk' (Or.inr hc)
      · rintro _ (rfl | rfl)
        · exact h.content_drop hheld (fun _ => Keeper.noConfusion) hpassed rfl
        · refine content_allotment (Function.update_self ..) ?_
          show b.Sound p (p.keptBy _ _)
          rw [hkept]
          exact hrest
      · exact fun t ht hne => has_drop ht hne rfl rfl
      · rintro i rfl - t (⟨ht, hidx⟩ | ⟨k', lane, -, -, hlane⟩)
        · exact h.held_injective hheld ht hidx
        · exact Keeper.noConfusion (hkeeper.symm.trans hlane)
    · rintro _ _ ⟨rfl, -⟩
      have hself : withAllotment { e with pool := e.pool } k (some a) = e := by
        rw [withAllotment, ← ha, Function.update_eq_self]
      rw [hself]
      exact h.follows_self hquiet

theorem release_follows [Host] (h : e.Sound keeper) (k : Nat) :
    (perform (.release k)).Meets e (fun _ => e.Follows (.release k)) Never := by
  have hquiet : ∀ slot x b, (Step.release k).puts slot x b = b := fun _ _ _ => rfl
  simp only [perform, meets_bind, meets_get]
  cases ha : e.allotments k with
  | none => exact h.follows_self hquiet
  | some a =>
    have hsound := (h.content (.allotment k)).2 a ha
    simp only [meets_bind, onAllotment, meets_focus, meets_modify, meets_pure]
    apply (Allotment.release_meets hsound h.valid).imp
    rintro _ ⟨b, p⟩ ⟨hvalid, hpassed, hgone⟩
    simp only [withAllotment, Function.update_idem]
    refine h.follows (h.update (.allotment k) {.allotment k} hvalid h.forward hpassed ?_ ?_ ?_ ?_)
      hpassed hquiet ?_ ?_
    · exact fun i hi _ => hi.2
    · exact fun _ _ _ => rfl
    · exact fun _ hk => sameFor_allotment rfl rfl (fun _ => rfl) hk
    · rintro _ rfl
      refine ⟨fun _ i hi => ?_, fun a' ha' => ?_⟩
      · rw [mem_keptBy_entrust hpassed] at hi
        rcases hi with ⟨hi, hlive, -⟩ | ⟨hout, hi⟩
        · exact hgone i hi hlive
        · exact hout hi
      · exact absurd (ha'.symm.trans (Function.update_self ..)) (Option.some_ne_none _)
    · exact fun slot hslot _ => hslot.congr rfl rfl
    · rintro i ⟨-, hkeeper⟩ - slot (⟨hheld, rfl⟩ | ⟨k', lane, -, -, hlane⟩)
      · exact Keeper.noConfusion ((h.held_keeper hheld).2.symm.trans hkeeper)
      · exact Keeper.noConfusion (hlane.symm.trans hkeeper)

/-! ### Writing -/

/-- Nobody but the users of a slot notices what is written into it. -/
theorem Sound.write (h : e.Sound keeper) {slot : Slot} (hslot : e.Has slot) {place : Place}
    (bytes : Array UInt8) (hplace : -(e.pool.arena.window.extent.back : Int) ≤ place.offset)
    (hsub : span place.offset bytes.size ⊆ span slot.offset slot.size) :
    ({ e with pool := e.pool.write place bytes } : Estate).Sound keeper where
  valid := h.valid.write place bytes
  forward := h.forward
  content k := by
    cases k with
    | client =>
      obtain ⟨hnodup, hlent, hmem⟩ := h.content .client
      exact ⟨hnodup, fun t ht => (hlent t ht).write place bytes, hmem⟩
    | stream k =>
      obtain ⟨hnone, hlane⟩ := h.content (.stream k)
      refine ⟨hnone, fun lane hk => (hlane lane hk).write h.valid bytes hplace fun j hj => ?_⟩
      exact disjoint_of_subset_right hsub (h.header_disjoint hslot hj)
    | allotment k =>
      obtain ⟨hnone, ha⟩ := h.content (.allotment k)
      exact ⟨hnone, fun a hk => ⟨(ha a hk).chained, (ha a hk).live, (ha a hk).sized⟩⟩

theorem write_follows [Host] (h : e.Sound keeper) {slot : Slot} (hslot : e.Has slot) {place : Place}
    {bytes : Array UInt8} (hlo : slot.offset ≤ place.offset)
    (hhi : place.offset + bytes.size ≤ slot.stop) :
    (perform (.write slot place bytes)).Meets e (fun _ => e.Follows (.write slot place bytes))
      Never := by
  have hsub : span place.offset bytes.size ⊆ span slot.offset slot.size :=
    span_subset_span hlo hhi
  have hback : ∀ t, e.Has t → -(e.pool.arena.window.extent.back : Int) ≤ t.offset := by
    intro t ht
    obtain ⟨-, i, hi, -, hoffset, -⟩ := h.exists_lies ht
    exact Int.le_trans (h.valid.bounds hi).2.2.1 hoffset
  have hplace := Int.le_trans (hback slot hslot) hlo
  simp only [perform, meets_bind, onPool, meets_focus, meets_pure]
  apply (Pool.copy_meets place bytes).imp
  rintro _ _ rfl
  refine ⟨⟨keeper, h.write hslot bytes hplace hsub⟩, fun t ht _ => ht.congr rfl rfl, ?_⟩
  intro t ht _ x hx
  have hx' := (mem_span.mp hx).1
  have hbyte := h.valid.byteAt_write bytes hplace (Int.le_trans (hback t ht) hx')
  refine hbyte.trans ?_
  by_cases hts : slot = t
  · simp only [Step.puts, hts, true_and]
    rfl
  · have hout : ¬ (place.offset ≤ x ∧ x < place.offset + bytes.size) := fun hin =>
      disjoint_left.mp (h.slots_disjoint hslot ht hts) (hsub (mem_span.mpr hin)) hx
    simp only [Step.puts, hts, hout, if_false, false_and]
    rfl

/-! ### Runs -/

/-- Whatever an admitted step comes to, all users of the estate can go on. -/
theorem Sound.next [Host] (h : e.Sound keeper) (hadmits : e.Admits step)
    (hsurvives : e.Survives step) : e.Follows step (e.next step) := by
  cases step with
  | alloc size align => exact (alloc_follows h size align).state
  | allocBack => exact (allocBack_follows h).state
  | free slot => exact ((free_follows h hadmits).sure fun _ _ => id).state
  | take n =>
    cases hresult : ((perform (.take n)).run e).result with
    | ok answer => exact (take_follows h hadmits).of_ok hresult
    | error fault =>
      refine (take_follows h hadmits).of_error hresult ?_
      rintro rfl
      exact hsurvives hresult
  | giveBack offset n => exact (giveBack_follows h hadmits.1 hadmits.2).state
  | openStream k blockSize => exact (openStream_follows h hadmits blockSize).state
  | streamAlloc k size align => exact (streamAlloc_follows h k size align).state
  | finish k => exact ((finish_follows h k).sure fun _ _ => id).state
  | reserve k count size => exact (reserve_follows h hadmits count size).state
  | draw k => exact ((draw_follows h k).sure fun _ _ => id).state
  | putBack k slot => exact (putBack_follows h k hadmits).state
  | release k => exact ((release_follows h k).sure fun _ _ => id).state
  | write slot place bytes =>
    exact ((write_follows h hadmits.1 hadmits.2.2.1 hadmits.2.2.2).sure fun _ _ => id).state

theorem Run.sound {rounds : List Round} (hrun : Run e rounds e') (h : e.Sound keeper) :
    ∃ keeper, e'.Sound keeper := by
  induction hrun generalizing keeper with
  | nil e => exact ⟨keeper, h⟩
  | cons hadmits hsurvives _ ih =>
    obtain ⟨keeper', h'⟩ := (h.next hadmits hsurvives).sound
    exact ih h'

theorem new_sound {p : Pool} (hp : p.Valid ∅) (hlive : ∀ i, i ∉ p.live) :
    (new p).Sound fun _ => .client where
  valid := hp
  forward x hx := absurd hx (notMem_empty x)
  content k := by
    have hnone : ∀ i, i ∉ p.keptBy (fun _ => .client) k := fun i hi => hlive i hi.1
    cases k with
    | client =>
      exact ⟨List.nodup_nil, fun slot hslot => absurd hslot List.not_mem_nil,
        fun i => iff_of_false (hnone i) List.not_mem_nil⟩
    | stream k =>
      exact ⟨fun _ => hnone, fun lane hlane => absurd hlane.symm (Option.some_ne_none _)⟩
    | allotment k =>
      exact ⟨fun _ => hnone, fun a ha => absurd ha.symm (Option.some_ne_none _)⟩

/-- Every estate that can be reached is sound. -/
theorem Reachable.sound {config : PoolConfig} (h : Reachable config e) :
    ∃ keeper, e.Sound keeper := by
  obtain ⟨_, p, rounds, hp, hrun⟩ := h
  obtain ⟨hvalid, hlive, -, -⟩ := (Pool.create_meets config).of_ok hp
  exact hrun.sound (new_sound hvalid hlive)

theorem survives_of_ok [Host] (hok : ((perform step).run e).result.isOk) : e.Survives step := by
  cases step with
  | take n =>
    intro hfault
    rw [hfault] at hok
    exact Bool.noConfusion hok
  | _ => trivial

theorem Run.cons_ok [host : Host] {rounds : List Round} {e₁ : Estate} (hadmits : e.Admits step)
    (hok : ((perform step).run e).result.isOk) (hnext : e₁ = e.next step)
    (hrest : Run e₁ rounds e') : Run e (⟨host, step⟩ :: rounds) e' := by
  subst hnext
  exact .cons hadmits (survives_of_ok hok) hrest

section

attribute [local instance] Host.plain

/-- A run in which everybody gets something: the client, a stream, an allotment, and one who takes a
block of the arena. -/
theorem exists_reachable : ∃ e, Reachable {} e ∧ e.pool.live.toList = [0, 1, 2, 3, 4] ∧
    e.held.map Slot.idx = [4, 1, 0] ∧ e.taken.card = 4096 ∧
      (e.lanes 0).isSome ∧ (e.allotments 0).isSome := by
  have hpool : ∃ p e₁ e₂ e₃ e₄ e₅ e₆ e₇, ((Pool.create {}).run ()).result = .ok p ∧
      e₁ = (new p).next (.alloc 100 64) ∧ e₂ = e₁.next .allocBack ∧
      e₃ = e₂.next (.take 4096) ∧ e₄ = e₃.next (.openStream 0 4096) ∧
      e₅ = e₄.next (.streamAlloc 0 40 8) ∧ e₆ = e₅.next (.reserve 0 2 64) ∧
      e₇ = e₆.next (.draw 0) ∧
      ((perform (.alloc 100 64)).run (new p)).result.isOk ∧
      ((perform .allocBack).run e₁).result.isOk ∧
      (4096 % e₂.pool.blockSize = 0 ∧ ((perform (.take 4096)).run e₂).result.isOk) ∧
      ((e₃.lanes 0).isNone ∧ ((perform (.openStream 0 4096)).run e₃).result.isOk) ∧
      ((perform (.streamAlloc 0 40 8)).run e₄).result.isOk ∧
      ((e₅.allotments 0).isNone ∧ ((perform (.reserve 0 2 64)).run e₅).result.isOk) ∧
      ((perform (.draw 0)).run e₆).result.isOk ∧
      e₇.pool.live.toList = [0, 1, 2, 3, 4] ∧ e₇.held.map Slot.idx = [4, 1, 0] ∧
      e₇.taken.card = 4096 ∧ (e₇.lanes 0).isSome ∧ (e₇.allotments 0).isSome := by
    refine ⟨_, _, _, _, _, _, _, _, rfl, rfl, rfl, rfl, rfl, rfl, rfl, rfl, ?_⟩
    decide +kernel
  obtain ⟨p, e₁, e₂, e₃, e₄, e₅, e₆, e₇, hp, he₁, he₂, he₃, he₄, he₅, he₆, he₇, h₁, h₂,
    ⟨hblock, h₃⟩, ⟨hlane, h₄⟩, h₅, ⟨hallotment, h₆⟩, h₇, hleft⟩ := hpool
  have hrun₃ : Run e₃
      (plainly [.openStream 0 4096, .streamAlloc 0 40 8, .reserve 0 2 64, .draw 0]) e₇ :=
    .cons_ok (Option.isNone_iff_eq_none.mp hlane) h₄ he₄ <| .cons_ok trivial h₅ he₅ <|
      .cons_ok (Option.isNone_iff_eq_none.mp hallotment) h₆ he₆ <| .cons_ok trivial h₇ he₇ (.nil _)
  have hrun : Run (new p) (⟨.plain, .alloc 100 64⟩ :: ⟨.plain, .allocBack⟩ ::
      ⟨.plain, .take 4096⟩ :: _) e₇ :=
    .cons_ok trivial h₁ he₁ <| .cons_ok trivial h₂ he₂ <|
      .cons_ok (Nat.dvd_of_mod_eq_zero hblock) h₃ he₃ hrun₃
  exact ⟨_, ⟨.plain, p, _, hp, hrun⟩, hleft⟩

end

end Estate

end SlotArena
