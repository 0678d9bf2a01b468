import SlotArena.Proofs.Wording

/-!
Well-formed use. A step is well-formed where it keeps to the limits of the pool and gives back only
what was handed out and is still out. An estate whose steps are all well-formed never breaks: each
of them is answered or refused, with nothing in its log that could not be told
(`answered_or_refused`). Most of that is known of any sound estate; what a sound estate does not
tell is how many slots of an allotment are out. `Tally` keeps count of them, since an allotment that
gets more slots back than it set aside could not be given up.
-/

namespace SlotArena

open Act Finset Ledger

/-- The slots of an allotment that are spare, and as many that are out, are no more than were set
aside. -/
def Allotment.Balanced (a : Allotment) (p : Pool) (out : Nat) : Prop :=
  ∃ spares : Set Nat, a.Sound p spares ∧ spares.ncard + out ≤ a.count

namespace Estate

/-- The slots that are out of each allotment, after a step with this result. -/
def drawnAfter (drawn : Nat → List Slot) (step : Step) :
    Except Fault (Option Slot) → Nat → List Slot
  | .error _ => drawn
  | .ok answer =>
      match step with
      | .draw k => Function.update drawn k (answer.toList ++ drawn k)
      -- what came out of an allotment may also go straight to the pool
      | .free slot => fun k => (drawn k).filter (· ≠ slot)
      | .putBack _ slot => fun k => (drawn k).filter (· ≠ slot)
      | .release k => Function.update drawn k []
      | _ => drawn

/-- The step keeps to the limits of the pool, and gives back what is out. -/
def WellFormed (e : Estate) (drawn : Nat → List Slot) : Step → Prop
  | .alloc size align =>
      size ≤ SizeClass.largest ∧ PowerOfTwo align ∧ align ≤ e.pool.blockSize
  | .free slot => slot.IsNull ∨ slot ∈ e.held
  | .take n => 0 < n ∧ n < 2 ^ 31 ∧ e.pool.blockSize ∣ n
  | .giveBack offset n =>
      0 ≤ offset ∧ span offset n ⊆ e.taken ∧ (e.pool.blockSize : Int) ∣ offset + n
  | .openStream k blockSize => e.lanes k = none ∧ Stream.AdmitsBlock blockSize
  | .streamAlloc k size align =>
      ∀ lane, e.lanes k = some lane → lane.stream.Accepts e.pool size align
  | .reserve k _ size => e.allotments k = none ∧ 0 < size ∧ size ≤ SizeClass.largest
  | .putBack k slot => slot ∈ drawn k
  | .write slot place bytes => e.Has slot ∧ e.pool.arena.window.Shows place bytes.size ∧
      slot.offset ≤ place.offset ∧ place.offset + bytes.size ≤ slot.stop
  | _ => True

/-- The estates that well-formed steps lead to, whether they are served or refused and whatever the
host answers, with the slots that are out of their allotments. -/
inductive Conduct (config : PoolConfig) : Estate → (Nat → List Slot) → Prop
  | start [host : Host] {p : Pool} (created : ((Pool.create config).run ()).result = .ok p) :
      Conduct config (new p) fun _ => []
  | next [host : Host] {e : Estate} {drawn : Nat → List Slot} {step : Step}
      (before : Conduct config e drawn) (wellFormed : e.WellFormed drawn step) :
      Conduct config (e.next step) (drawnAfter drawn step ((perform step).run e).result)

def Owes (e : Estate) (k : Nat) (slot : Slot) : Prop :=
  slot ∈ e.held ∧ ∃ a, e.allotments k = some a ∧ slot.size = a.slotSize

/-- What is out of the allotments is the client's; what is out of one of them and what is spare in
it are no more than it set aside. -/
structure Tally (e : Estate) (drawn : Nat → List Slot) : Prop where
  owes : ∀ k, ∀ slot ∈ drawn k, e.Owes k slot
  balanced : ∀ k a, e.allotments k = some a → a.Balanced e.pool (drawn k).length

variable {config : PoolConfig} {e e' : Estate} {keeper : Nat → Keeper} {moved : Set Nat}
  {drawn drawn' : Nat → List Slot}

theorem tally_new (p : Pool) : (new p).Tally fun _ => [] where
  owes _ _ hslot := absurd hslot List.not_mem_nil
  balanced _ _ ha := absurd ha.symm (Option.some_ne_none _)

theorem Tally.kept_le (ht : e.Tally drawn) (h : e.Sound keeper) {k : Nat} {a : Allotment}
    (ha : e.allotments k = some a) :
    (e.pool.keptBy keeper (.allotment k)).ncard + (drawn k).length ≤ a.count := by
  obtain ⟨spares, hsound, hle⟩ := ht.balanced k a ha
  have hkept := (h.content (.allotment k)).2 a ha
  rwa [hkept.chained.unique hsound.chained]

theorem Tally.drawn_nil (ht : e.Tally drawn) {k : Nat} (hk : e.allotments k = none) :
    drawn k = [] := by
  refine List.eq_nil_iff_forall_not_mem.mpr fun slot hslot => ?_
  obtain ⟨-, a, ha, -⟩ := ht.owes k slot hslot
  exact Option.some_ne_none a (ha.symm.trans hk)

/-- What a step does to the count concerns the allotments that it touches. -/
theorem Tally.update (ht : e.Tally drawn) (h : e.Sound keeper)
    (hpassed : e.pool.Passed e'.pool moved) (touched : Set Nat)
    (howes : ∀ k, ∀ slot ∈ drawn' k, e'.Owes k slot)
    (hfrom : ∀ i ∈ moved, i ∈ e.pool.live → ∀ k, keeper i = .allotment k → k ∈ touched)
    (hsame : ∀ k, k ∉ touched →
      e'.allotments k = e.allotments k ∧ (drawn' k).length ≤ (drawn k).length)
    (htouched : ∀ k ∈ touched, ∀ a, e'.allotments k = some a →
      a.Balanced e'.pool (drawn' k).length) : e'.Tally drawn' where
  owes := howes
  balanced k a ha := by
    by_cases hk : k ∈ touched
    · exact htouched k hk a ha
    · obtain ⟨hallotment, hlength⟩ := hsame k hk
      rw [hallotment] at ha
      have hsound := (h.content (.allotment k)).2 a ha
      refine ⟨_, hsound.passed hpassed fun i hi hmem => hk (hfrom i hmem hi.1 k hi.2), ?_⟩
      exact Nat.le_trans (Nat.add_le_add_left hlength _) (ht.kept_le h ha)

theorem Tally.frame (ht : e.Tally drawn) (h : e.Sound keeper)
    (hpassed : e.pool.Passed e'.pool moved)
    (hfrom : ∀ i ∈ moved, i ∈ e.pool.live → ∀ k, keeper i ≠ .allotment k)
    (hheld : ∀ slot ∈ e.held, slot ∈ e'.held) (hallotments : e'.allotments = e.allotments) :
    e'.Tally drawn := by
  refine ht.update h hpassed ∅ ?_ ?_ ?_ ?_
  · rintro k slot hslot
    obtain ⟨hmem, hsize⟩ := ht.owes k slot hslot
    exact ⟨hheld slot hmem, hallotments ▸ hsize⟩
  · exact fun i hi hlive k hkeeper => absurd hkeeper (hfrom i hi hlive k)
  · exact fun k _ => ⟨congrFun hallotments k, Nat.le_refl _⟩
  · exact fun k hk => absurd hk (Set.notMem_empty k)

theorem Tally.update_one (ht : e.Tally drawn) (h : e.Sound keeper)
    (hpassed : e.pool.Passed e'.pool moved) {k : Nat} {b : Option Allotment}
    (hallotments : e'.allotments = Function.update e.allotments k b)
    (howes : ∀ k', ∀ slot ∈ drawn' k', e'.Owes k' slot)
    (hfrom : ∀ i ∈ moved, i ∈ e.pool.live → ∀ k', keeper i = .allotment k' → k' = k)
    (hlength : ∀ k', k' ≠ k → (drawn' k').length ≤ (drawn k').length)
    (hb : ∀ a, b = some a → a.Balanced e'.pool (drawn' k).length) : e'.Tally drawn' := by
  refine ht.update h hpassed {k} howes hfrom ?_ ?_
  · intro k' hk
    refine ⟨?_, hlength k' hk⟩
    rw [hallotments, Function.update_of_ne hk]
  · rintro k rfl a ha
    rw [hallotments, Function.update_self] at ha
    exact hb a ha

theorem Tally.undisturbed (ht : e.Tally drawn) (h : e.Sound keeper)
    (hpassed : e.pool.Passed e'.pool ∅) (hheld : e'.held = e.held)
    (hallotments : e'.allotments = e.allotments) : e'.Tally drawn :=
  ht.frame h hpassed (fun i hi => absurd hi (Set.notMem_empty i)) (fun _ hslot => hheld ▸ hslot)
    hallotments

/-- What the client has of an allotment it still has, if the allotment keeps its size of slots. -/
theorem Owes.next {k k' : Nat} {a b : Allotment} {slot : Slot} (howes : e.Owes k' slot)
    (hheld : slot ∈ e'.held) (ha : e.allotments k = some a)
    (hallotments : e'.allotments = Function.update e.allotments k (some b))
    (hslot : b.slotSize = a.slotSize) : e'.Owes k' slot := by
  obtain ⟨-, c, hc, hsize⟩ := howes
  refine ⟨hheld, ?_⟩
  rw [hallotments]
  by_cases hk : k' = k
  · subst hk
    obtain rfl : a = c := Option.some.inj (ha.symm.trans hc)
    exact ⟨b, Function.update_self .., hsize.trans hslot.symm⟩
  · exact ⟨c, (Function.update_of_ne hk ..).trans hc, hsize⟩

/-! ### Steps -/

/-- A step that is well-formed is answered or refused, and the count is kept. -/
def Orderly [Host] (e : Estate) (drawn : Nat → List Slot) (step : Step) : Prop :=
  (perform step).Meets e (fun answer e' => e'.Tally (drawnAfter drawn step (.ok answer)))
    (refusing fun _ e' => e'.Tally drawn)

@[simp] theorem keep_pool (e : Estate) (slot : Slot) : (e.keep slot).pool = e.pool := by
  unfold keep
  split
  · rfl
  · rfl

@[simp] theorem keep_allotments (e : Estate) (slot : Slot) :
    (e.keep slot).allotments = e.allotments := by
  unfold keep
  split
  · rfl
  · rfl

theorem mem_keep (e : Estate) (slot : Slot) {t : Slot} (ht : t ∈ e.held) :
    t ∈ (e.keep slot).held := by
  unfold keep
  split
  · exact ht
  · exact List.mem_cons_of_mem _ ht

theorem Tally.keep (ht : e.Tally drawn) (h : e.Sound keeper) {p : Pool}
    (hpassed : e.pool.Passed p moved) (hnew : ∀ i ∈ moved, i ∉ e.pool.live) (slot : Slot) :
    ({ e with pool := p }.keep slot).Tally drawn := by
  have hkept : e.pool.Passed ({ e with pool := p }.keep slot).pool moved := by
    rw [keep_pool]
    exact hpassed
  exact ht.frame h hkept (fun i hi hlive => absurd hlive (hnew i hi))
    (fun _ => mem_keep { e with pool := p } slot) (keep_allotments _ slot)

theorem keep_tally (h : e.Sound keeper) (ht : e.Tally drawn) {x : Act Pool Slot}
    (hx : x.Meets e.pool
      (fun slot p => (slot = .null ∧ p = e.pool) ∨ e.pool.Issued e.taken slot p)
      (refusing fun _ p => p.Valid e.taken ∧ e.pool.Passed p ∅)) :
    (do
      let slot ← onPool x
      Act.modify (keep · slot)
      return some slot).Meets e (fun _ e' => e'.Tally drawn)
        (refusing fun _ e' => e'.Tally drawn) := by
  simp only [meets_bind, onPool, meets_focus_refusing, meets_modify, meets_pure]
  refine hx.mono ?_ fun _ p hp => ht.undisturbed h hp.2 rfl rfl
  rintro slot p (⟨-, rfl⟩ | hissued)
  · exact ht.keep h (.refl _ ∅) (fun i hi => absurd hi (Set.notMem_empty i)) slot
  · refine ht.keep h hissued.passed ?_ slot
    rintro i rfl
    exact hissued.new

theorem alloc_orderly [Host] (h : e.Sound keeper) (ht : e.Tally drawn) {size align : Nat}
    (hwell : e.WellFormed drawn (.alloc size align)) : e.Orderly drawn (.alloc size align) := by
  obtain ⟨hsize, halign, hblock⟩ := hwell
  have haccepts : e.pool.Accepts size align :=
    ⟨halign, hblock, Nat.max_le.mpr ⟨hsize, Nat.le_trans hblock h.valid.block.2.2⟩⟩
  refine keep_tally h ht (((Pool.alloc_meets_any h.valid size align).to_refusing haccepts).imp ?_)
  rintro slot p (⟨-, hnull, hp⟩ | ⟨-, hissued, -⟩)
  · exact Or.inl ⟨hnull, hp⟩
  · exact Or.inr hissued

theorem allocBack_orderly [Host] (h : e.Sound keeper) (ht : e.Tally drawn) :
    e.Orderly drawn .allocBack :=
  keep_tally h ht ((Pool.allocBack_meets h.valid).imp fun _ _ hp => Or.inr hp.1)

theorem Tally.owes_drop (ht : e.Tally drawn) {slot t : Slot} {k : Nat}
    (hmem : t ∈ (drawn k).filter (· ≠ slot)) : e.Owes k t ∧ t ∈ e.held.erase slot := by
  obtain ⟨hout, hne⟩ : t ∈ drawn k ∧ t ≠ slot := by simpa using hmem
  have howes := ht.owes k t hout
  exact ⟨howes, (List.mem_erase_of_ne hne).mpr howes.1⟩

theorem Tally.drop (ht : e.Tally drawn) (h : e.Sound keeper) {p : Pool}
    (hpassed : e.pool.Passed p moved)
    (hfrom : ∀ i ∈ moved, i ∈ e.pool.live → ∀ k, keeper i ≠ .allotment k) (slot : Slot) :
    ({ e with pool := p }.drop slot).Tally fun k => (drawn k).filter (· ≠ slot) := by
  refine ht.update h hpassed ∅ ?_ ?_ ?_ ?_
  · intro k t hmem
    obtain ⟨⟨-, hsize⟩, hheld⟩ := ht.owes_drop hmem
    exact ⟨hheld, hsize⟩
  · exact fun i hi hlive k hkeeper => absurd hkeeper (hfrom i hi hlive k)
  · exact fun k _ => ⟨rfl, List.length_filter_le _ _⟩
  · exact fun k hk => absurd hk (Set.notMem_empty k)

theorem free_orderly [Host] (h : e.Sound keeper) (ht : e.Tally drawn) {slot : Slot}
    (hwell : e.WellFormed drawn (.free slot)) : e.Orderly drawn (.free slot) := by
  simp only [Orderly, perform, meets_bind, onPool, meets_focus_refusing, meets_modify, meets_pure]
  by_cases hheld : slot ∈ e.held
  · have hlent := (h.content .client).2.1 slot hheld
    have hkeeper := (h.held_keeper hheld).2
    apply (h.valid.free_meets hlent).sure
    intro _ p hres
    refine ht.drop h hres.2.1 ?_ slot
    rintro i rfl - k hk
    exact Keeper.noConfusion (hkeeper.symm.trans hk)
  · have hnull : slot.IsNull := hwell.resolve_right hheld
    simp only [Pool.free, meets_ite, hnull, true_implies, meets_pure, not_true_eq_false,
      false_implies, and_true]
    exact ht.drop h (.refl _ ∅) (fun i hi => absurd hi (Set.notMem_empty i)) slot

theorem take_orderly [Host] (h : e.Sound keeper) (ht : e.Tally drawn) {n : Nat}
    (hwell : e.WellFormed drawn (.take n)) : e.Orderly drawn (.take n) := by
  obtain ⟨hpos, hlt, hblock⟩ := hwell
  obtain ⟨spot, hground, -⟩ := h.valid
  have hhalf := hground.arena.next_le_half .front
  have hadmits : Arena.AdmitsBlock n := ⟨hpos, Nat.le_of_lt hlt⟩
  -- no cursor is past the middle of its word, and `n` is less than the other half
  have hword : e.pool.arena.front.next + n < word32 :=
    Nat.lt_of_le_of_lt (Nat.add_le_add_right hhalf n) (Nat.add_lt_add_left hlt (2 ^ 31))
  simp only [Orderly, perform, meets_bind, onPool, meets_focus_refusing, meets_modify, meets_pure]
  refine (Pool.take_meets h.valid hblock hadmits hword).mono ?_ ?_
  · exact fun offset p hres => ht.undisturbed h hres.2.2.2 rfl rfl
  · exact fun _ p hp => ht.undisturbed h hp.2 rfl rfl

theorem giveBack_orderly [Host] (h : e.Sound keeper) (ht : e.Tally drawn) {offset : Int} {n : Nat}
    (hwell : e.WellFormed drawn (.giveBack offset n)) : e.Orderly drawn (.giveBack offset n) := by
  obtain ⟨hoffset, hsub, hend⟩ := hwell
  simp only [Orderly, perform, meets_bind, onPool, meets_focus_refusing, meets_modify, meets_pure]
  exact (Pool.returnChunk_meets h.valid hoffset hend hsub).mono
    (fun _ p hp => ht.undisturbed h hp.2 rfl rfl) fun _ p hp => ht.undisturbed h hp.2 rfl rfl

theorem openStream_orderly [Host] (h : e.Sound keeper) (ht : e.Tally drawn) {k blockSize : Nat}
    (hwell : e.WellFormed drawn (.openStream k blockSize)) :
    e.Orderly drawn (.openStream k blockSize) := by
  simp only [Orderly, perform, Stream.create, meets_bind, meets_ensure_refusing, meets_pure,
    meets_modify]
  exact ⟨hwell.2, ht.undisturbed h (.refl _ _) rfl rfl⟩

theorem streamAlloc_orderly [Host] (h : e.Sound keeper) (ht : e.Tally drawn) {k size align : Nat}
    (hwell : e.WellFormed drawn (.streamAlloc k size align)) :
    e.Orderly drawn (.streamAlloc k size align) := by
  simp only [Orderly, perform, meets_bind, meets_get]
  cases hlane : e.lanes k with
  | none => exact ht
  | some lane =>
    have hsound := (h.content (.stream k)).2 lane hlane
    have hpassed : ∀ (p : Pool) (moved : Set Nat) (lane' : Option Lane), e.pool.Passed p moved →
        (∀ i ∈ moved, i ∉ e.pool.live) → ({ e with pool := p }.withLane k lane').Tally drawn :=
      fun p moved lane' hpassed hnew => ht.frame h hpassed
        (fun i hi hlive => absurd hlive (hnew i hi)) (fun _ => id) rfl
    simp only [meets_bind, onLane, meets_focus_refusing, meets_modify, meets_pure]
    refine ((Stream.alloc_meets_any hsound h.valid size align).to_refusing
      (hwell lane hlane)).mono ?_ ?_
    · rintro slot ⟨s, p⟩ (⟨-, rfl, hsame⟩ | ⟨-, -, -, -, new, hnew, -, hmoved, -⟩)
      · obtain ⟨rfl, rfl⟩ := Prod.mk.inj hsame
        simp only [withLane, Function.update_idem]
        exact hpassed e.pool ∅ _ (.refl _ _) fun i hi => absurd hi (Set.notMem_empty i)
      · simp only [withLane, Function.update_idem]
        exact hpassed p new _ hmoved hnew
    · rintro _ ⟨s, p⟩ ⟨rfl, -, hmoved⟩
      exact hpassed p ∅ _ hmoved fun i hi => absurd hi (Set.notMem_empty i)

theorem finish_orderly [Host] (h : e.Sound keeper) (ht : e.Tally drawn) (k : Nat) :
    e.Orderly drawn (.finish k) := by
  simp only [Orderly, perform, meets_bind, meets_get]
  cases hlane : e.lanes k with
  | none => exact ht
  | some lane =>
    have hsound := (h.content (.stream k)).2 lane hlane
    simp only [meets_bind, meets_modify, onPool, meets_focus_refusing, meets_pure]
    apply (Stream.release_meets hsound h.valid).sure
    intro _ p hres
    refine ht.frame h hres.2.1 ?_ (fun _ => id) rfl
    exact fun i hi _ k' hk' => Keeper.noConfusion (hi.2.symm.trans hk')

/-! ### Allotments -/

theorem reserve_orderly [Host] (h : e.Sound keeper) (ht : e.Tally drawn) {k count size : Nat}
    (hwell : e.WellFormed drawn (.reserve k count size)) :
    e.Orderly drawn (.reserve k count size) := by
  obtain ⟨hk, hsize⟩ := hwell
  have hnone := ht.drawn_nil hk
  simp only [Orderly, perform, meets_bind, onPool, meets_focus_refusing, meets_modify, meets_pure]
  refine ((Allotment.create_meets h.valid count size).to_refusing hsize).mono ?_ ?_
  · rintro a p ⟨new, hnew, -, hpassed, hcount, hsound⟩
    refine ht.update_one h hpassed rfl ?_ ?_ ?_ ?_
    · rintro k' slot hslot
      obtain ⟨hheld, b, hb, hsize⟩ := ht.owes k' slot hslot
      have hne : k' ≠ k := by
        rintro rfl
        exact Option.some_ne_none b (hb.symm.trans hk)
      exact ⟨hheld, b, (Function.update_of_ne hne ..).trans hb, hsize⟩
    · exact fun i hi hlive => absurd hlive (hnew i hi)
    · exact fun _ _ => Nat.le_refl _
    · rintro b hb
      obtain rfl : a = b := Option.some.inj hb
      refine ⟨new, hsound, ?_⟩
      show new.ncard + (drawn k).length ≤ a.count
      rw [hnone, hcount]
      exact Nat.le_refl _
  · exact fun _ p hp => ht.undisturbed h hp.2 rfl rfl

theorem draw_orderly [Host] (h : e.Sound keeper) (ht : e.Tally drawn) (k : Nat) :
    e.Orderly drawn (.draw k) := by
  have hsame : (drawnAfter drawn (.draw k) (.ok none)) = drawn := Function.update_eq_self k drawn
  simp only [Orderly, perform, meets_bind, meets_get]
  cases ha : e.allotments k with
  | none =>
    show e.Tally (drawnAfter drawn (.draw k) (.ok none))
    rwa [hsame]
  | some a =>
    have hsound := (h.content (.allotment k)).2 a ha
    have hcount := ht.kept_le h ha
    simp only [meets_bind, onAllotment, meets_focus_refusing, meets_modify, meets_pure]
    apply (Allotment.alloc_meets hsound h.valid).sure
    rintro _ ⟨b, p⟩ ⟨rfl, ⟨rfl, rfl, -⟩ | ⟨i, chain, rfl, hi, rfl, hrest⟩⟩
    · have hself : withAllotment { e with pool := e.pool } k (some b) = e := by
        rw [withAllotment, ← ha, Function.update_eq_self]
      rw [Option.elim_none, hself, hsame]
      exact ht
    · have hpos : ¬ (e.pool.slotOf i).IsNull := Nat.ne_of_gt (h.valid.size_pos hi.1)
      have hfewer : {j | j ∈ e.pool.keptBy keeper (.allotment k) ∧ j ≠ i}.ncard + 1 =
          (e.pool.keptBy keeper (.allotment k)).ncard :=
        Set.ncard_sdiff_singleton_add_one hi hsound.chained.finite
      rw [Option.elim_some, keep, if_neg hpos]
      have hother : ∀ k', k' ≠ k →
          drawnAfter drawn (.draw k) (.ok (some (e.pool.slotOf i))) k' = drawn k' :=
        fun _ hk' => Function.update_of_ne hk' ..
      have hmine : drawnAfter drawn (.draw k) (.ok (some (e.pool.slotOf i))) k =
          e.pool.slotOf i :: drawn k := Function.update_self ..
      have hold : ∀ k', ∀ slot ∈ drawn k', Owes ({ e with
          held := e.pool.slotOf i :: e.held }.withAllotment k (some { a with spare := chain }))
            k' slot := fun k' slot hslot =>
        (ht.owes k' slot hslot).next (List.mem_cons_of_mem _ (ht.owes k' slot hslot).1) ha rfl rfl
      have hpassed : e.pool.Passed e.pool ∅ := .refl _ _
      refine ht.update_one h hpassed rfl ?_ ?_ ?_ ?_
      · intro k' slot hslot
        by_cases hk' : k' = k
        · subst hk'
          rw [hmine] at hslot
          rcases List.mem_cons.mp hslot with rfl | hslot
          · exact ⟨List.mem_cons_self, _, Function.update_self .., hsound.sized i hi⟩
          · exact hold k' slot hslot
        · rw [hother k' hk'] at hslot
          exact hold k' slot hslot
      · exact fun j hj => absurd hj (Set.notMem_empty j)
      · intro k' hk'
        rw [hother k' hk']
      · rintro b hb
        obtain rfl := Option.some.inj hb
        refine ⟨_, hrest, ?_⟩
        rw [hmine, List.length_cons]
        show _ ≤ a.count
        omega

theorem putBack_orderly [Host] (h : e.Sound keeper) (ht : e.Tally drawn) {k : Nat} {slot : Slot}
    (hwell : e.WellFormed drawn (.putBack k slot)) : e.Orderly drawn (.putBack k slot) := by
  obtain ⟨hheld, a, ha, hsize⟩ := ht.owes k slot hwell
  have hsound := (h.content (.allotment k)).2 a ha
  have hcount := ht.kept_le h ha
  have hlent := (h.content .client).2.1 slot hheld
  have hkeeper := (h.held_keeper hheld).2
  have hnew : slot.idx ∉ e.pool.keptBy keeper (.allotment k) := fun hmem =>
    Keeper.noConfusion (hkeeper.symm.trans hmem.2)
  simp only [Orderly, perform, meets_bind, meets_get, ha, onAllotment, meets_focus, meets_modify,
    meets_pure]
  refine (Allotment.free_meets hsound h.valid hlent hnew).weaken ?_ ?_
  · rintro _ ⟨_, p⟩ ⟨⟨chain, rfl⟩, -, hpassed, hrest⟩
    refine ht.update_one h hpassed rfl ?_ ?_ ?_ ?_
    · intro k' t hmem
      obtain ⟨howes, hheld'⟩ := ht.owes_drop hmem
      exact howes.next hheld' ha rfl rfl
    · rintro i rfl - k' hk'
      exact Keeper.noConfusion (hkeeper.symm.trans hk')
    · exact fun k' _ => List.length_filter_le _ _
    · rintro b hb
      obtain rfl := Option.some.inj hb
      refine ⟨_, hrest, ?_⟩
      have hmore : {j | j = slot.idx ∨ j ∈ e.pool.keptBy keeper (.allotment k)}.ncard =
          (e.pool.keptBy keeper (.allotment k)).ncard + 1 :=
        Set.ncard_insert_of_notMem hnew hsound.chained.finite
      have hfewer : ((drawn k).filter (· ≠ slot)).length < (drawn k).length :=
        List.length_filter_lt_length_iff_exists.mpr ⟨slot, hwell, by simp⟩
      show _ + ((drawn k).filter (· ≠ slot)).length ≤ a.count
      omega
  · rintro _ _ ⟨-, hne⟩
    exact absurd hsize hne

theorem release_orderly [Host] (h : e.Sound keeper) (ht : e.Tally drawn) (k : Nat) :
    e.Orderly drawn (.release k) := by
  have hmine : drawnAfter drawn (.release k) (.ok none) k = [] := Function.update_self ..
  have hother : ∀ k', k' ≠ k → drawnAfter drawn (.release k) (.ok none) k' = drawn k' :=
    fun _ hk => Function.update_of_ne hk ..
  simp only [Orderly, perform, meets_bind, meets_get]
  cases ha : e.allotments k with
  | none =>
    have hsame : drawnAfter drawn (.release k) (.ok none) = drawn := by
      rw [drawnAfter, ← ht.drawn_nil ha, Function.update_eq_self]
    show e.Tally (drawnAfter drawn (.release k) (.ok none))
    rwa [hsame]
  | some a =>
    have hsound := (h.content (.allotment k)).2 a ha
    simp only [meets_bind, onAllotment, meets_focus_refusing, meets_modify, meets_pure]
    apply (Allotment.release_meets hsound h.valid).sure
    rintro _ ⟨b, p⟩ ⟨-, hpassed, -⟩
    simp only [withAllotment, Function.update_idem]
    refine ht.update_one h hpassed rfl ?_ ?_ ?_ ?_
    · intro k' slot hslot
      have hk : k' ≠ k := by
        rintro rfl
        exact List.not_mem_nil (hmine ▸ hslot)
      rw [hother k' hk] at hslot
      obtain ⟨hheld, b, hb, hsize⟩ := ht.owes k' slot hslot
      exact ⟨hheld, b, (Function.update_of_ne hk ..).trans hb, hsize⟩
    · exact fun i hi _ k' hk' => Keeper.allotment.inj (hk'.symm.trans hi.2)
    · exact fun k' hk => Nat.le_of_eq (congrArg _ (hother k' hk))
    · exact fun a ha => absurd ha.symm (Option.some_ne_none a)

/-! ### Writing -/

theorem write_orderly [Host] (h : e.Sound keeper) (ht : e.Tally drawn) {slot : Slot} {place : Place}
    {bytes : Array UInt8} : e.Orderly drawn (.write slot place bytes) := by
  simp only [Orderly, perform, meets_bind, onPool, meets_focus_refusing, meets_pure]
  apply (Pool.copy_meets place bytes).sure
  rintro _ _ rfl
  refine ⟨ht.owes, fun k a ha => ?_⟩
  have hsound := (h.content (.allotment k)).2 a ha
  exact ⟨_, ⟨hsound.chained, hsound.live, hsound.sized⟩, ht.kept_le h ha⟩

/-! ### Runs -/

theorem perform_orderly [Host] (h : e.Sound keeper) (ht : e.Tally drawn) {step : Step}
    (hwell : e.WellFormed drawn step) : e.Orderly drawn step := by
  cases step with
  | alloc size align => exact alloc_orderly h ht hwell
  | allocBack => exact allocBack_orderly h ht
  | free slot => exact free_orderly h ht hwell
  | take n => exact take_orderly h ht hwell
  | giveBack offset n => exact giveBack_orderly h ht hwell
  | openStream k blockSize => exact openStream_orderly h ht hwell
  | streamAlloc k size align => exact streamAlloc_orderly h ht hwell
  | finish k => exact finish_orderly h ht k
  | reserve k count size => exact reserve_orderly h ht hwell
  | draw k => exact draw_orderly h ht k
  | putBack k slot => exact putBack_orderly h ht hwell
  | release k => exact release_orderly h ht k
  | write slot place bytes => exact write_orderly h ht

theorem WellFormed.admits (ht : e.Tally drawn) {step : Step} (hwell : e.WellFormed drawn step) :
    e.Admits step := by
  cases step with
  | take n => exact hwell.2.2
  | giveBack offset n => exact hwell.2
  | openStream k blockSize => exact hwell.1
  | reserve k count size => exact hwell.1
  | putBack k slot => exact (ht.owes k slot hwell).1
  | free slot => exact hwell
  | write slot place bytes => exact hwell
  | _ => trivial

theorem Orderly.survives [Host] {step : Step} (h : e.Orderly drawn step) : e.Survives step := by
  cases step with
  | take n => exact fun hfault => h.of_error hfault
  | _ => trivial

/-- Well-formed use keeps the estate sound, and the count right. -/
theorem Conduct.invariant (hconduct : Conduct config e drawn) :
    (∃ keeper, e.Sound keeper) ∧ e.Tally drawn := by
  induction hconduct with
  | start hp =>
    obtain ⟨hvalid, hlive, -, -⟩ := (Pool.create_meets config).of_ok hp
    exact ⟨⟨_, new_sound hvalid hlive⟩, tally_new _⟩
  | @next host e drawn step _ hwell ih =>
    obtain ⟨⟨keeper, h⟩, ht⟩ := ih
    have horderly := perform_orderly h ht hwell
    refine ⟨(h.next (hwell.admits ht) horderly.survives).sound, ?_⟩
    cases hresult : ((perform step).run e).result with
    | ok answer => exact horderly.of_ok hresult
    | error fault =>
      obtain ⟨-, -, hleft⟩ := exists_refusal (horderly.of_error hresult)
      exact hleft

/-- However the pool, its streams and its allotments were used before: where each step is
well-formed, the next is answered or refused, and tells nothing that could not be told. -/
theorem answered_or_refused [Host] (hconduct : Conduct config e drawn) {step : Step}
    (hwell : e.WellFormed drawn step) :
    ((∃ answer, ((perform step).run e).result = .ok answer) ∨
        ∃ why, ((perform step).run e).result = .error (.refused why)) ∧
      Event.firstFlaw? ((perform step).run e).events = none := by
  obtain ⟨⟨keeper, h⟩, ht⟩ := hconduct.invariant
  have horderly := perform_orderly h ht hwell
  refine ⟨?_, ?_⟩
  · cases hresult : ((perform step).run e).result with
    | ok answer => exact Or.inl ⟨answer, rfl⟩
    | error fault =>
      obtain ⟨why, rfl, -⟩ := exists_refusal (horderly.of_error hresult)
      exact Or.inr ⟨why, rfl⟩
  · refine List.findSome?_eq_none_iff.mpr (perform_worded h step fun k a _ ha => ?_)
    exact Nat.le_trans (Nat.le_add_right _ _) (ht.kept_le h ha)

section

attribute [local instance] Host.plain

/-- A client that holds a slot of the pool, bytes of its arena and a slot of an allotment, puts the
last one back. -/
theorem answered_or_refused_of_drawn : ∃ e drawn slot, Conduct {} e drawn ∧
    e.WellFormed drawn (.putBack 0 slot) ∧ e.held.length = 2 ∧ e.taken.card = 4096 ∧
      ((∃ answer, ((perform (.putBack 0 slot)).run e).result = .ok answer) ∨
          ∃ why, ((perform (.putBack 0 slot)).run e).result = .error (.refused why)) ∧
        Event.firstFlaw? ((perform (.putBack 0 slot)).run e).events = none := by
  have hrun : ∃ p e₁ e₂ e₃ e₄ drawn₁ drawn₂ drawn₃ drawn₄ slot,
      ((Pool.create {}).run ()).result = .ok p ∧
      e₁ = (new p).next (.alloc 100 64) ∧ e₂ = e₁.next (.take 4096) ∧
      e₃ = e₂.next (.reserve 0 2 64) ∧ e₄ = e₃.next (.draw 0) ∧
      drawn₁ = drawnAfter (fun _ => []) (.alloc 100 64)
        ((perform (.alloc 100 64)).run (new p)).result ∧
      drawn₂ = drawnAfter drawn₁ (.take 4096) ((perform (.take 4096)).run e₁).result ∧
      drawn₃ = drawnAfter drawn₂ (.reserve 0 2 64) ((perform (.reserve 0 2 64)).run e₂).result ∧
      drawn₄ = drawnAfter drawn₃ (.draw 0) ((perform (.draw 0)).run e₃).result ∧
      slot = (drawn₄ 0).headD .null ∧ (new p).pool.blockSize = 4096 ∧ e₁.pool.blockSize = 4096 ∧
      (e₂.allotments 0).isNone ∧ slot ∈ drawn₄ 0 ∧ e₄.held.length = 2 ∧ e₄.taken.card = 4096 := by
    refine ⟨_, _, _, _, _, _, _, _, _, _, rfl, rfl, rfl, rfl, rfl, rfl, rfl, rfl, rfl, rfl, ?_⟩
    decide +kernel
  obtain ⟨p, e₁, e₂, e₃, e₄, drawn₁, drawn₂, drawn₃, drawn₄, slot, hp, he₁, he₂, he₃, he₄, hd₁,
    hd₂, hd₃, hd₄, -, hblock, hblock', hnone, hdrawn, hheld, htaken⟩ := hrun
  have hsmall : (new p).WellFormed (fun _ => []) (.alloc 100 64) :=
    ⟨by decide, powerOfTwo_pow 6, by rw [hblock]; decide⟩
  have htake : e₁.WellFormed drawn₁ (.take 4096) :=
    ⟨by decide, by decide, by rw [hblock']⟩
  have hreserve : e₂.WellFormed drawn₂ (.reserve 0 2 64) :=
    ⟨Option.isNone_iff_eq_none.mp hnone, by decide, by decide⟩
  have h₁ : Conduct {} e₁ drawn₁ := he₁ ▸ hd₁ ▸ .next (.start hp) hsmall
  have h₂ : Conduct {} e₂ drawn₂ := he₂ ▸ hd₂ ▸ .next h₁ htake
  have h₃ : Conduct {} e₃ drawn₃ := he₃ ▸ hd₃ ▸ .next h₂ hreserve
  have h₄ : Conduct {} e₄ drawn₄ := he₄ ▸ hd₄ ▸ .next h₃ trivial
  exact ⟨e₄, drawn₄, slot, h₄, hdrawn, hheld, htaken, answered_or_refused h₄ hdrawn⟩

/-- Nothing is a multiple of the block size, and the client owns every empty range; but an arena
does not hand out nothing, and a pool takes no range back that starts below its origin. -/
theorem violated_by_nothing : ∃ p, Conduct {} (new p) (fun _ => []) ∧ p.blockSize ∣ 0 ∧
    ((perform (.take 0)).run (new p)).result = .error (.violated (.arenaBlockSize .front 0)) ∧
    span (-4096) 0 ⊆ (new p).taken ∧ (p.blockSize : Int) ∣ -4096 + 0 ∧
    ((perform (.giveBack (-4096) 0)).run (new p)).result =
      .error (.violated (.backChunk (-4096))) := by
  have hpool : ∃ p, ((Pool.create {}).run ()).result = .ok p ∧
      ((perform (.take 0)).run (new p)).result = .error (.violated (.arenaBlockSize .front 0)) ∧
      span (-4096) 0 ⊆ (new p).taken ∧ (p.blockSize : Int) ∣ -4096 + 0 ∧
      ((perform (.giveBack (-4096) 0)).run (new p)).result =
        .error (.violated (.backChunk (-4096))) := by
    refine ⟨_, rfl, ?_⟩
    decide +kernel
  obtain ⟨p, hp, hviolated⟩ := hpool
  exact ⟨p, .start hp, Nat.dvd_zero _, hviolated⟩

end

end Estate

end SlotArena
