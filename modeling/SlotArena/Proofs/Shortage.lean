import SlotArena.Proofs.Attainable
import SlotArena.Proofs.Holdings

/-!
Requests that a pool has to refuse. A request is refused only where no shelf can serve it, since
nothing fails once a record has come off one. There are two things a pool runs out of then. Without
memory it undoes what it did, and is the pool that it was. Without a record for memory that it has
claimed already it gives that memory up, and only its counts show it: the slots, free or handed out,
are the same (`Forfeits`). Where it is the host that declines, the same is left, but for pieces that
were committed to a window that did not grow.

Main statement: these are all refusals that there are, on either side of the origin
(`refusals_spare`).
-/

namespace SlotArena

open Act Finset

namespace Pool

variable {p p' q : Pool} {spot : Nat → Spot} {loose : Finset Int} {c : SizeClass}

/-! ### Drawing fresh memory -/

/-- The bytes that were claimed, without those that are left to carve. -/
def drawn (p : Pool) : Int :=
  (p.arena.frontUsed + p.arena.backUsed : Nat) - (∑ c, (p.bucket c).carve.remaining : Nat)

/-- Apart from its arena and from what it has left to carve, the pool is as it was. -/
structure Draws (p p' : Pool) : Prop where
  roster : p'.roster = p.roster
  chain : ∀ s, p'.chain s = p.chain s
  live : p'.live = p.live
  liveCount : p'.liveCount = p.liveCount
  leaked : p'.leaked = p.leaked
  blockSize : p'.blockSize = p.blockSize
  base : p'.base = p.base

theorem Draws.refl (p : Pool) : p.Draws p := ⟨rfl, fun _ => rfl, rfl, rfl, rfl, rfl, rfl⟩

theorem Draws.trans (h : p.Draws q) (h' : q.Draws p') : p.Draws p' where
  roster := h'.roster.trans h.roster
  chain s := (h'.chain s).trans (h.chain s)
  live := h'.live.trans h.live
  liveCount := h'.liveCount.trans h.liveCount
  leaked := h'.leaked.trans h.leaked
  blockSize := h'.blockSize.trans h.blockSize
  base := h'.base.trans h.base

theorem onArena_draws {α : Type} (x : Act Arena α) (h : q.Draws p) :
    (onArena x).Meets p (fun _ => q.Draws) fun _ => q.Draws :=
  (meets_focus ..).mpr (.of_always (fun _ _ => h.trans ⟨rfl, fun _ => rfl, rfl, rfl, rfl, rfl, rfl⟩)
    fun _ _ => h.trans ⟨rfl, fun _ => rfl, rfl, rfl, rfl, rfl, rfl⟩)

theorem onCarve_draws {α : Type} (x : Act Cursor α) (h : q.Draws p) :
    (onCarve c x).Meets p (fun _ => q.Draws) fun _ => q.Draws := by
  have hcarve : ∀ cur, q.Draws (p.withCarve c cur) := fun cur =>
    h.trans ⟨rfl, fun s => chain_withCarve p c cur s, rfl, rfl, rfl, rfl, rfl⟩
  exact (meets_focus ..).mpr (.of_always (fun _ _ => hcarve _) fun _ _ => hcarve _)

/-- Fresh memory for a class comes from the arena, or from the block that the class carves. -/
theorem carve_draws [Host] (p : Pool) (c : SizeClass) :
    (carve c).Meets p (fun _ => p.Draws) fun _ => p.Draws := by
  simp only [carve, meets_bind, meets_get, meets_ite]
  refine ⟨fun _ => onArena_draws _ (.refl p), fun _ => ?_⟩
  refine (onCarve_draws _ (.refl p)).imp fun verdict q hq => ?_
  cases verdict with
  | fits offset => exact hq
  | wait stop => exact hq
  | mustGrow before =>
    simp only [meets_bind, meets_attempt]
    refine (onArena_draws _ hq).weaken (fun block t ht => ?_) fun fault t ht => ?_
    · simp only [addWord, meets_bind, meets_ensure, meets_pure]
      exact ⟨fun _ => ⟨fun _ => onCarve_draws _ ht, fun _ => ht⟩, fun _ => ht⟩
    · cases fault with
      | refused why =>
        simp only [meets_bind, meets_refuse]
        exact onCarve_draws _ ht
      | violated what => exact ht
      | stuck => exact ht

/-! ### Refusals -/

/-- The pool drew `n` bytes and gave them up; it has the slots that it had. -/
structure Forfeits (p : Pool) (n : Nat) (p' : Pool) : Prop where
  roster : p'.roster = p.roster
  chain : ∀ s, p'.chain s = p.chain s
  live : p'.live = p.live
  liveCount : p'.liveCount = p.liveCount
  blockSize : p'.blockSize = p.blockSize
  base : p'.base = p.base
  leaked : p'.leaked = p.leaked + n
  drawn : p'.drawn = p.drawn + n

/-- What a pool is like that has refused a slot of `n` bytes: without memory as it was, without a
record poorer by the bytes; and if it is the host that declines either, only the window that was to
grow can tell beside. -/
inductive Refuses [Host] (p : Pool) (n : Nat) : Refusal → Pool → Prop
  | memory (requested reserved : Nat) : Refuses p n (.outOfReservedSpace requested reserved) p
  | record {p' : Pool} (forfeits : p.Forfeits n p') :
      Refuses p n (.outOfTableSpace (p.roster.length + 1) p.roster.capacity) p'
  | unfed {why : HostError} {p' : Pool} (refused : p.Unfed (.growth why) p') :
      Refuses p n (.growth why) p'
  | unlisted {why : HostError} {q p' : Pool} (forfeits : p.Forfeits n q)
      (refused : q.Unlisted (p.roster.length + 1) (.growth why) p') : Refuses p n (.growth why) p'

theorem Refuses.of_memory [Host] {n requested reserved : Nat}
    (h : p.Refuses n (.outOfReservedSpace requested reserved) p') : p' = p := by
  cases h
  rfl

theorem Refuses.of_record [Host] {n required capacity : Nat}
    (h : p.Refuses n (.outOfTableSpace required capacity) p') : p.Forfeits n p' := by
  generalize hwhy : Refusal.outOfTableSpace required capacity = why at h
  cases h with
  | memory requested reserved => cases hwhy
  | record forfeits => exact forfeits
  | unfed => cases hwhy
  | unlisted => cases hwhy

theorem Unfed.refuses [Host] {why : Refusal} (h : p.Unfed why p') (n : Nat) :
    p.Refuses n why p' := by
  obtain ⟨a, rfl, w, rfl, hw⟩ := h
  cases hw with
  | space _ requested reserved => exact .memory requested reserved
  | host why mean stayed => exact .unfed ⟨_, rfl, _, rfl, .host why mean stayed⟩

/-- Memory that was drawn and given up shows in the counts alone. -/
theorem Draws.forfeits (h : p.Draws q) (hp : p.Valid loose) {n : Nat}
    (hq : ({ q with leaked := q.leaked + n } : Pool).Valid loose) :
    p.Forfeits n { q with leaked := q.leaked + n } where
  roster := h.roster
  chain := h.chain
  live := h.live
  liveCount := h.liveCount
  blockSize := h.blockSize
  base := h.base
  leaked := congrArg (· + n) h.leaked
  drawn := by
    have hold := hp.balance
    have hnew := hq.balance
    dsimp only at hnew
    rw [h.roster, h.leaked] at hnew
    simp only [Pool.drawn]
    dsimp only [bucket] at hold hnew ⊢
    omega

theorem Claimed.refuses [Host] (h : p.Sound spot loose) (hhand : ∀ i, spot i ≠ .hand) {x : Int}
    {n : Nat} (hclaimed : p.Claimed spot loose x n q) {s : Shelf}
    (hfits : (⟨0, 0, x, n⟩ : Record).Fits p.blockSize s) (hdraws : p.Draws q) :
    (do handOut (← enroll x n) : Act Pool Slot).Meets q (fun _ _ => True)
      (refusing (p.Refuses n)) := by
  refine (issue_claimed h hhand hclaimed hfits).mono (fun _ _ _ => trivial) ?_
  rintro why _ ⟨-, _, ⟨r, rfl, hrefused⟩, rfl⟩
  have hleak := hclaimed.sound.leak (x := x) (n := n) subset_union_right
  rw [union_sdiff_span hclaimed.fresh] at hleak
  have hforfeits := hdraws.forfeits ⟨spot, h, hhand⟩ ⟨spot, hleak, hhand⟩
  cases hrefused with
  | full =>
    rw [congrArg Roster.capacity hclaimed.roster]
    exact .record hforfeits
  | host declined mean room stayed =>
    exact .unlisted hforfeits ⟨_, rfl, .host declined mean room stayed⟩

/-- A request that keeps to its limits is refused only where no shelf can serve it. -/
theorem alloc_refuses [Host] (h : p.Valid loose) {size align : Nat} (hsize : 0 < size)
    (haccepts : p.Accepts size align) :
    (alloc size align).Meets p (fun _ _ => True) (refusing fun why p' =>
      (∀ c : SizeClass, servedSize size align ≤ c.bytes → (p.bucket c).free.IsEmpty) ∧
        p.Refuses (servedSize size align) why p') := by
  obtain ⟨spot, h, hhand⟩ := h
  obtain ⟨c, hc⟩ := haccepts.exists_class
  refine alloc_of_serve hsize haccepts hc ((popFree_meets h c).bind_sure ?_)
  rw [← hc]
  rintro (_ | i) q hq
  · obtain ⟨rfl, hnone⟩ := hq
    have hown : (q.bucket c).free.IsEmpty := h.chain_isEmpty hnone
    refine (meets_bind ..).mpr ((popFirst_meets h c.above).sure ?_)
    rintro _ t (⟨rfl, rfl, habove⟩ | ⟨larger, i, rfl, hlarger, ht⟩)
    · -- only here, where fresh memory is drawn, can anything be refused
      have hempty : ∀ d : SizeClass, c.bytes ≤ d.bytes → (t.bucket d).free.IsEmpty := by
        intro d hd
        rcases Nat.lt_or_eq_of_le hd with hlt | heq
        · exact habove d (SizeClass.mem_above.mpr (SizeClass.bytes_lt_bytes.mp hlt))
        · exact SizeClass.bytes_injective heq ▸ hown
      refine ((carve_draws t c).and_answers (carve_meets h c)).bind ?_ ?_
      · rintro x u ⟨hdraws, hx, hdvd, hclaimed⟩
        exact (hclaimed.refuses h hhand (s := .front c) ⟨hx, rfl, hdvd⟩ hdraws).mono
          (fun _ _ => id) fun _ _ hwhy => ⟨hempty, hwhy⟩
      · exact fun _ u hrefused => ⟨hempty, hrefused.refuses _⟩
    · have hfits : (t.roster.record i).Fits t.blockSize (.front larger) := by
        rw [ht.2.2.2.1, ht.2.2.2.2]
        exact h.fits_shelf i _ ht.1
      apply (shrink_meets ht.2.1 (SizeClass.mem_above.mp hlarger) move_self hfits).bind_sure
      rintro _ u ⟨-, spot', hsound, hi, -⟩
      exact (handOut_hands hsound hi).sure fun _ _ _ => trivial
  · exact (handOut_hands hq.2.1 move_self).sure fun _ _ _ => trivial

theorem allocBack_refuses [Host] (h : p.Valid loose) :
    allocBack.Meets p (fun _ _ => True)
      (refusing fun why p' => p.backFree.IsEmpty ∧ p.Refuses p.blockSize why p') := by
  obtain ⟨spot, h, hhand⟩ := h
  simp only [allocBack, meets_bind]
  apply (popBack_meets h).sure
  rintro (_ | i) q hq
  · obtain ⟨rfl, hnone⟩ := hq
    have hempty : (q.chain .back).IsEmpty := h.chain_isEmpty hnone
    refine (meets_bind ..).mpr (meets_get.mpr
      (((onArena_draws _ (.refl q)).and_answers (allocBack_arena_meets h)).bind ?_ ?_))
    · rintro x t ⟨hdraws, hx, hclaimed⟩
      exact (hclaimed.refuses h hhand (s := .back) ⟨hx, rfl⟩ hdraws).mono
        (fun _ _ => id) fun _ _ hwhy => ⟨hempty, hwhy⟩
    · exact fun _ t hrefused => ⟨hempty, hrefused.refuses _⟩
  · exact (handOut_hands hq.2.1 move_self).sure fun _ _ _ => trivial

end Pool

namespace Estate

variable {config : PoolConfig} {e : Estate}

/-- A pool that refuses a slot has no free slot that would do. If it ran out of memory it is as it
was; if it ran out of records it has the slots that it had, and the bytes of the one that it could
not enrol are claimed and given up. If the host let it down it is the same, for all that its
windows show. -/
theorem refusals_spare [Host] (h : Attainable config e) :
    (∀ size align, (Pool.alloc size align).Meets e.pool (fun _ _ => True)
      (sparing e.pool fun why p' =>
        (∀ c : SizeClass, Pool.servedSize size align ≤ c.bytes →
          (e.pool.bucket c).free.IsEmpty) ∧
        e.pool.Refuses (Pool.servedSize size align) why p')) ∧
    Pool.allocBack.Meets e.pool (fun _ _ => True)
      (refusing fun why p' =>
        e.pool.backFree.IsEmpty ∧ e.pool.Refuses e.pool.blockSize why p') := by
  refine ⟨fun size align => ?_, Pool.allocBack_refuses h.valid⟩
  rcases Nat.eq_zero_or_pos size with rfl | hsize
  · simp [Pool.alloc]
  by_cases haccepts : e.pool.Accepts size align
  · exact (Pool.alloc_refuses h.valid hsize haccepts).sparing e.pool
  · refine (Pool.alloc_beyond hsize haccepts).weaken (fun _ _ _ => trivial) ?_
    rintro _ _ ⟨rfl, what, rfl⟩
    rfl

/-- A block on either side of the origin, and a record for one of them. -/
def tightConfig : PoolConfig := { arena := { initial := 4096, extent := 8192 }, capacity := 1 }

section

attribute [local instance] Host.plain

/-- With the block above the origin in use there is no memory for more of it, and no record for the
block below. -/
theorem refusals_spare_of_tight : ∃ e, Attainable tightConfig e ∧
    ((Pool.alloc 50 1).run e.pool).result = .error (.refused (.outOfReservedSpace 8192 4096)) ∧
    ((Pool.alloc 50 1).run e.pool).state = e.pool ∧
    (Pool.allocBack.run e.pool).result = .error (.refused (.outOfTableSpace 2 1)) ∧
    e.pool.Forfeits 4096 (Pool.allocBack.run e.pool).state := by
  have hrun : ∃ p e, ((Pool.create tightConfig).run ()).result = .ok p ∧
      e = (new p).next (.alloc 4096 1) ∧
      ((perform (.alloc 4096 1)).run (new p)).result.isOk ∧ e.pool.blockSize = 4096 ∧
      ((Pool.alloc 50 1).run e.pool).result = .error (.refused (.outOfReservedSpace 8192 4096)) ∧
      (Pool.allocBack.run e.pool).result = .error (.refused (.outOfTableSpace 2 1)) := by
    refine ⟨_, _, rfl, rfl, ?_⟩
    decide +kernel
  obtain ⟨p, e, hp, rfl, hok, hblock, hmemory, hrecord⟩ := hrun
  have hattainable : Attainable tightConfig ((new p).next (.alloc 4096 1)) :=
    .step (.opened hp) trivial (survives_of_ok hok)
  have hspare := refusals_spare hattainable
  obtain ⟨-, hsame⟩ := (hspare.1 50 1).of_error hmemory
  obtain ⟨-, hpoorer⟩ := hspare.2.of_error hrecord
  rw [hblock] at hpoorer
  exact ⟨_, hattainable, hmemory, hsame.of_memory, hrecord, hpoorer.of_record⟩

end

end Estate

end SlotArena
