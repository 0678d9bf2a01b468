import SlotArena.Proofs.AlikePools
import SlotArena.Proofs.AlikeSessions
import SlotArena.Session.Pools

/-!
The strategy does not show. A session on some pools, run under one strategy and under the other, is
answered in the same way at every step, and the figures and the contents of the pools are the same
(`Session.OfPools.strategies_agree`). What may differ are pointers, the count of superseded views
and the lines of the log, which name the strategy.
-/

namespace SlotArena.Session

open Act

/-! ### How a session ends -/

namespace OfPools

def giveUp (done : List Reply × List String × Running Yard) (x : Act Yard Reply) :
    List Reply × List String × Running Yard :=
  (done.1 ++ [(perform (onObject x) done.2.2).1], done.2.1 ++ (perform (onObject x) done.2.2).2.2,
    (perform (onObject x) done.2.2).2.1)

def leftovers (y : Yard) : List (Act Yard Reply) :=
  ((List.range y.streams.size).filter fun k => (y.stream? k).isSome).map finish ++
    ((List.range y.allotments.size).filter fun k => (y.allotment? k).isSome).map release

theorem close_eq (s : Running Yard) :
    close s =
      let done := (leftovers s.object).foldl giveUp ([], [], s)
      let closing := done.2.2.object.pools.toList.flatMap Pool.closing
      { drops := done.1
        pools := done.2.2.object.pools.toList.map PoolReading.of
        gauges := done.2.2.gauges.absorb closing
        lines := done.2.1 ++ Event.lines closing } := rfl

end OfPools

section

variable [Host]

/-! ### Reaching for memory -/

theorem through_agrees (a : Access) (view view' : Nat) :
    Agrees True Window.Alike Reply.Alike (a.through view) (a.through view') := by
  have hplace : ∀ offset, (⟨view, offset⟩ : Place).offset = (⟨view', offset⟩ : Place).offset :=
    fun _ => rfl
  cases a with
  | read offset size =>
    refine Agrees.get.bind fun w v h => .pure ?_
    rw [h.runs (hplace offset)]
    exact .same _
  | fill offset size byte =>
    exact answer_agrees (fun b => silent_agrees (Window.fill_agrees (hplace offset) size b)) byte
  | write offset bytes => exact silent_agrees (Window.copy_agrees (hplace offset) bytes)

theorem now_agrees (a : Access) : Agrees True Window.Alike Reply.Alike a.now a.now := by
  refine Agrees.get.bind ?_
  rintro w _ ⟨-, -⟩
  exact .ite Iff.rfl (fun _ => reply_same _) fun _ => through_agrees _ _ _

namespace OfPools

/-! ### Yards -/

/-- A stream that may have been given up, and where it lives. -/
def LaneAlike (s t : Nat × Option Stream) : Prop := s.1 = t.1 ∧ Option.Rel Stream.Alike s.2 t.2

/-- A slot that was answered, and where it came from. -/
def HeldAlike (s t : Nat × Slot) : Prop := s.1 = t.1 ∧ s.2.Alike t.2

/-- The two yards hold the same, apart from what windows are made of and from pointers. -/
structure Yard.Alike (y z : Yard) : Prop where
  pools : Along Pool.Alike y.pools z.pools
  handles : y.slots.size = z.slots.size
  slots : ∀ h : Nat, Option.Rel HeldAlike y.slots[h]? z.slots[h]?
  streams : Along LaneAlike y.streams z.streams
  allotments : y.allotments = z.allotments

namespace Yard.Alike

variable {y z : Yard}

theorem withPool (h : y.Alike z) (i : Nat) {p q : Pool} (hpq : p.Alike q) :
    (y.withPool i p).Alike (z.withPool i q) :=
  ⟨h.pools.setIfInBounds i hpq, h.handles, h.slots, h.streams, h.allotments⟩

theorem withStream (h : y.Alike z) (k i : Nat) {s t : Option Stream}
    (hst : Option.Rel Stream.Alike s t) : (y.withStream k i s).Alike (z.withStream k i t) :=
  ⟨h.pools, h.handles, h.slots, h.streams.setIfInBounds k ⟨rfl, hst⟩, h.allotments⟩

theorem withAllotment (h : y.Alike z) (k i : Nat) (a : Option Allotment) :
    (y.withAllotment k i a).Alike (z.withAllotment k i a) :=
  ⟨h.pools, h.handles, h.slots, h.streams, by rw [Yard.withAllotment, h.allotments]; rfl⟩

theorem keep (h : y.Alike z) (i : Nat) {s t : Slot} (hst : s.Alike t) :
    Yard.Alike { y with slots := y.slots.insert y.slots.size (i, s) }
      { z with slots := z.slots.insert z.slots.size (i, t) } where
  pools := h.pools
  handles := by
    have hmem : z.slots.size ∈ y.slots ↔ z.slots.size ∈ z.slots := by
      rw [Std.TreeMap.mem_iff_isSome_getElem?, Std.TreeMap.mem_iff_isSome_getElem?,
        isSome_eq_of_rel (h.slots _)]
    dsimp only
    rw [Std.TreeMap.size_insert, Std.TreeMap.size_insert]
    simp only [Std.TreeMap.contains_iff_mem, hmem, h.handles]
  slots k := by
    dsimp only
    rw [Std.TreeMap.getElem?_insert, Std.TreeMap.getElem?_insert, h.handles]
    split
    · exact .some ⟨rfl, hst⟩
    · exact h.slots k
  streams := h.streams
  allotments := h.allotments

theorem stream? (h : y.Alike z) (k : Nat) :
    Option.Rel (fun s t => s.1 = t.1 ∧ s.2.Alike t.2) (y.stream? k) (z.stream? k) := by
  refine rel_bind (h.streams k) fun s t hlane => ?_
  exact rel_map hlane.2 fun _ _ hst => ⟨hlane.1, hst⟩

theorem allotment? (h : y.Alike z) (k : Nat) : y.allotment? k = z.allotment? k := by
  rw [Yard.allotment?, h.allotments]
  rfl

theorem slot? (h : y.Alike z) (ref : SlotRef) :
    Option.Rel Slot.Alike (y.slot? ref) (z.slot? ref) := by
  cases ref with
  | handle k => exact rel_map (h.slots k) fun _ _ hheld => hheld.2
  | spelled offset size idx => exact .some (.refl _)

end Yard.Alike

/-! ### Operations -/

section

variable {α β : Type} {Q : α → β → Prop}

theorem onPool_agrees (i : Nat) {x : Act Pool α} {y : Act Pool β}
    {reply : α → Act Yard Reply} {reply' : β → Act Yard Reply}
    (h : Agrees True Pool.Alike Q x y)
    (hreply : ∀ a b, Q a b → Agrees True Yard.Alike Reply.Alike (reply a) (reply' b)) :
    Agrees True Yard.Alike Reply.Alike (onPool i x reply) (onPool i y reply') := by
  refine Agrees.get.bind fun u v huv => ?_
  have hi := huv.pools i
  generalize u.pools[i]? = o at hi ⊢
  generalize v.pools[i]? = o' at hi ⊢
  cases hi with
  | none => exact reply_same _
  | some hpq =>
    exact (h.focus (fun _ _ _ => hpq) fun _ _ hst _ _ hp => hst.withPool i hp).bind hreply

theorem onStream_agrees (k : Nat) {x : Act (Stream × Pool) α} {y : Act (Stream × Pool) β}
    {reply : Nat → α → Act Yard Reply} {reply' : Nat → β → Act Yard Reply}
    (h : Agrees True Stream.Paired Q x y)
    (hreply : ∀ i a b, Q a b → Agrees True Yard.Alike Reply.Alike (reply i a) (reply' i b)) :
    Agrees True Yard.Alike Reply.Alike (onStream k x reply) (onStream k y reply') := by
  refine Agrees.get.bind fun u v huv => ?_
  have hk := huv.stream? k
  generalize u.stream? k = o at hk ⊢
  generalize v.stream? k = o' at hk ⊢
  cases hk with
  | none => exact reply_same _
  | @some a b hab =>
    obtain ⟨i, s⟩ := a
    obtain ⟨j, t⟩ := b
    obtain ⟨hij, hst⟩ := hab
    cases (hij : i = j)
    have hi := huv.pools i
    dsimp only
    generalize u.pools[i]? = o at hi ⊢
    generalize v.pools[i]? = o' at hi ⊢
    cases hi with
    | none => exact reply_same _
    | some hpq =>
      exact (h.focus (fun _ _ _ => ⟨hst, hpq⟩) fun _ _ hyz _ _ hq =>
        (hyz.withStream k i (.some hq.1)).withPool i hq.2).bind (hreply i)

theorem onAllotment_agrees (k : Nat) {x : Act (Allotment × Pool) α} {y : Act (Allotment × Pool) β}
    {reply : Nat → α → Act Yard Reply} {reply' : Nat → β → Act Yard Reply}
    (h : Agrees True Allotment.Paired Q x y)
    (hreply : ∀ i a b, Q a b → Agrees True Yard.Alike Reply.Alike (reply i a) (reply' i b)) :
    Agrees True Yard.Alike Reply.Alike (onAllotment k x reply) (onAllotment k y reply') := by
  refine Agrees.get.bind fun u v huv => ?_
  rw [huv.allotment? k]
  cases v.allotment? k with
  | none => exact reply_same _
  | some found =>
    obtain ⟨i, a⟩ := found
    have hi := huv.pools i
    dsimp only
    generalize u.pools[i]? = o at hi ⊢
    generalize v.pools[i]? = o' at hi ⊢
    cases hi with
    | none => exact reply_same _
    | some hpq =>
      refine (h.focus (fun _ _ _ => ⟨rfl, hpq⟩) ?_).bind (hreply i)
      rintro _ _ hyz ⟨a', _⟩ ⟨_, _⟩ ⟨rfl, hq⟩
      exact (hyz.withAllotment k i (some a')).withPool i hq

end

theorem nothing_agrees : ∀ a b : Unit, a = b →
    Agrees True Yard.Alike Reply.Alike (nothing a) (nothing b) :=
  fun _ _ _ => reply_same _

theorem keep_agrees (i : Nat) (s t : Slot) (h : s.Alike t) :
    Agrees True Yard.Alike Reply.Alike (keep i s) (keep i t) := by
  refine (Agrees.modify fun _ _ hyz => hyz.keep i h).bind fun _ _ _ =>
    Agrees.get.bind fun u v huv => ?_
  have hi := huv.pools i
  generalize u.pools[i]? = o at hi ⊢
  generalize v.pools[i]? = o' at hi ⊢
  cases hi with
  | none => exact reply_same _
  | some hpq => exact .pure (.slot _ _ h)

theorem free_agrees (i : Nat) (ref : SlotRef) :
    Agrees True Yard.Alike Reply.Alike (free i ref) (free i ref) := by
  refine Agrees.get.bind fun u v huv => ?_
  have hslot := huv.slot? ref
  generalize u.slot? ref = o at hslot ⊢
  generalize v.slot? ref = o' at hslot ⊢
  cases hslot with
  | none => exact reply_same _
  | some hst => exact onPool_agrees i (Pool.free_agrees hst) nothing_agrees

theorem freeRange_agrees (i first stop stride : Nat) :
    Agrees True Yard.Alike Reply.Alike (freeRange i first stop stride)
      (freeRange i first stop stride) :=
  (along_agrees (fun h => free_agrees i (.handle h)) _ _ _).bind fun _ _ hrs => .pure (.many hrs)

/-- All of a slot is reached alike through either pointer. -/
theorem onSlot_agrees (h : Nat) {a : Slot → Access} (ha : ∀ s t, s.Alike t → a s = a t) :
    Agrees True Yard.Alike Reply.Alike (onSlot h a) (onSlot h a) := by
  refine Agrees.get.bind fun u v huv => ?_
  have hslot := huv.slots h
  generalize u.slots[h]? = o at hslot ⊢
  generalize v.slots[h]? = o' at hslot ⊢
  cases hslot with
  | none => exact reply_same _
  | @some held held' hheld =>
    obtain ⟨i, s⟩ := held
    obtain ⟨j, t⟩ := held'
    obtain ⟨hij, hst⟩ := hheld
    cases (hij : i = j)
    dsimp only at hst ⊢
    rw [ha s t hst]
    refine onPool_agrees i (Pool.onWindow_agrees (Agrees.get.bind ?_)) fun _ _ => .pure
    rintro w _ ⟨-, -⟩
    exact .ite Iff.rfl (fun _ => reply_same _) fun _ => through_agrees _ _ _

theorem newStream_agrees (i blockSize : Nat) :
    Agrees True Yard.Alike Reply.Alike (newStream i blockSize) (newStream i blockSize) := by
  refine onPool_agrees i (Stream.create_agrees blockSize) fun s t hst =>
    Agrees.get.bind fun u v huv => ?_
  rw [huv.streams.size_eq]
  exact (Agrees.set ⟨huv.pools, huv.handles, huv.slots, huv.streams.push ⟨rfl, .some hst⟩,
    huv.allotments⟩).bind fun _ _ _ => reply_same _

theorem newAllotment_agrees (i count size : Nat) :
    Agrees True Yard.Alike Reply.Alike (newAllotment i count size)
      (newAllotment i count size) := by
  refine onPool_agrees i (Allotment.create_agrees trivial count size) ?_
  rintro a _ rfl
  refine Agrees.get.bind fun u v huv => ?_
  rw [huv.allotments]
  exact (Agrees.set ⟨huv.pools, huv.handles, huv.slots, huv.streams, rfl⟩).bind fun _ _ _ =>
    reply_same _

theorem onHandle_agrees (i h : Nat) {reply : Pool → Slot → Reply}
    (hreply : ∀ p q s t, p.Alike q → s.Alike t → (reply p s).Alike (reply q t)) :
    Agrees True Yard.Alike Reply.Alike (onHandle i h reply) (onHandle i h reply) := by
  refine Agrees.get.bind fun u v huv => ?_
  have hslot := huv.slots h
  generalize u.slots[h]? = o at hslot ⊢
  generalize v.slots[h]? = o' at hslot ⊢
  cases hslot with
  | none => exact reply_same _
  | some hheld => exact onPool_agrees i Agrees.get fun p q hpq => .pure (hreply p q _ _ hpq hheld.2)

theorem alloc_agrees (i size align : Nat) :
    Agrees True Yard.Alike Reply.Alike (alloc i size align) (alloc i size align) :=
  onPool_agrees i (Pool.alloc_agrees size align) (keep_agrees i)

theorem allocBack_agrees (i : Nat) :
    Agrees True Yard.Alike Reply.Alike (allocBack i) (allocBack i) :=
  onPool_agrees i Pool.allocBack_agrees (keep_agrees i)

theorem told_agrees {α : Type} (f : α → Reply) (a b : α) (h : a = b) :
    Agrees True Yard.Alike Reply.Alike (pure (f a)) (pure (f b)) := by
  rw [h]
  exact reply_same _

theorem actOnPool_agrees (i : Nat) (step : PoolStep) :
    Agrees True Yard.Alike Reply.Alike (actOnPool i step) (actOnPool i step) := by
  cases step with
  | alloc size align => exact alloc_agrees i size align
  | allocTimes size align n => exact times_agrees n (alloc_agrees i size align)
  | allocBack => exact allocBack_agrees i
  | allocBackTimes n => exact times_agrees n (allocBack_agrees i)
  | free ref => exact free_agrees i ref
  | freeRange first stop stride => exact freeRange_agrees i first stop stride
  | returnChunk offset size =>
    exact onPool_agrees i (Pool.splitChunk_agrees offset size none) nothing_agrees
  | returnBlocks offset count size =>
    exact onPool_agrees i (Pool.returnBlocks_agrees offset count size) nothing_agrees
  | blockAlloc size =>
    exact onPool_agrees i (Pool.onArena_agrees (Arena.alloc_agrees size)) (told_agrees _)
  | blockAllocBack size =>
    exact onPool_agrees i (Pool.onArena_agrees (Arena.allocBack_agrees size)) (told_agrees _)
  | addRecords count =>
    exact onPool_agrees i (Pool.onRoster_agrees (Roster.add_agrees count))
      (told_agrees fun n : Nat => .number n)
  | getRecord idx =>
    exact onPool_agrees i (Pool.onRoster_agrees (Roster.get_agrees idx)) (told_agrees _)
  | setRecord idx offset size =>
    exact onPool_agrees i (Pool.onRoster_agrees (Roster.edit_agrees idx _)) nothing_agrees
  | addressOf h =>
    refine onHandle_agrees i h ?_
    rintro p _ s _ ⟨-, -⟩ ⟨-⟩
    exact .same _
  | addressAt offset =>
    refine onPool_agrees i Agrees.get ?_
    rintro p _ ⟨-, -⟩
    exact reply_same _
  | isNull h =>
    refine onHandle_agrees i h ?_
    rintro p _ s _ ⟨-, -⟩ ⟨-⟩
    exact .same _
  | fillSlot h byte =>
    refine onSlot_agrees h ?_
    rintro s _ ⟨-⟩
    rfl
  | readSlot h =>
    refine onSlot_agrees h ?_
    rintro s _ ⟨-⟩
    rfl
  | access a =>
    exact onPool_agrees i (Pool.onWindow_agrees (now_agrees a)) fun _ _ => .pure
  | readGauges => exact reply_same _
  | newStream blockSize => exact newStream_agrees i blockSize
  | newAllotment count size => exact newAllotment_agrees i count size

theorem streamAlloc_agrees (k size align : Nat) :
    Agrees True Yard.Alike Reply.Alike (streamAlloc k size align) (streamAlloc k size align) :=
  onStream_agrees k (Stream.alloc_agrees size align) keep_agrees

theorem finish_agrees (k : Nat) :
    Agrees True Yard.Alike Reply.Alike (finish k) (finish k) := by
  refine Agrees.get.bind fun u v huv => ?_
  have hk := huv.stream? k
  generalize u.stream? k = o at hk ⊢
  generalize v.stream? k = o' at hk ⊢
  cases hk with
  | none => exact reply_same _
  | @some a b hab =>
    obtain ⟨i, s⟩ := a
    obtain ⟨j, t⟩ := b
    obtain ⟨hij, hst⟩ := hab
    cases (hij : i = j)
    exact (Agrees.modify fun _ _ hyz => hyz.withStream k i .none).bind fun _ _ _ =>
      onPool_agrees i (Stream.release_agrees hst) nothing_agrees

theorem actOnStream_agrees (k : Nat) (step : StreamStep) :
    Agrees True Yard.Alike Reply.Alike (actOnStream k step) (actOnStream k step) := by
  cases step with
  | alloc size align => exact streamAlloc_agrees k size align
  | allocTimes size align n => exact times_agrees n (streamAlloc_agrees k size align)
  | finish => exact finish_agrees k

theorem allotmentAlloc_agrees (k : Nat) :
    Agrees True Yard.Alike Reply.Alike (allotmentAlloc k) (allotmentAlloc k) := by
  refine onAllotment_agrees k Allotment.alloc_agrees fun i s t hst => ?_
  cases hst with
  | none => exact reply_same _
  | some h => exact keep_agrees i _ _ h

theorem release_agrees (k : Nat) :
    Agrees True Yard.Alike Reply.Alike (release k) (release k) := by
  refine Agrees.get.bind fun u v huv => ?_
  rw [huv.allotment? k]
  cases v.allotment? k with
  | none => exact reply_same _
  | some found =>
    obtain ⟨i, a⟩ := found
    refine (Agrees.modify fun _ _ hyz => hyz.withAllotment k i none).bind fun _ _ _ => ?_
    exact onPool_agrees i (.beside rfl (Allotment.release_agrees trivial)) nothing_agrees

theorem actOnAllotment_agrees (k : Nat) (step : AllotmentStep) :
    Agrees True Yard.Alike Reply.Alike (actOnAllotment k step) (actOnAllotment k step) := by
  cases step with
  | alloc => exact allotmentAlloc_agrees k
  | allocTimes n => exact times_agrees n (allotmentAlloc_agrees k)
  | free ref =>
    refine Agrees.get.bind fun u v huv => ?_
    have hslot := huv.slot? ref
    generalize u.slot? ref = o at hslot ⊢
    generalize v.slot? ref = o' at hslot ⊢
    cases hslot with
    | none => exact reply_same _
    | some hst =>
      exact onAllotment_agrees k (Allotment.free_agrees hst) fun _ => nothing_agrees
  | release => exact release_agrees k

theorem act_agrees (step : Step) :
    Agrees True (Running.Alike Yard.Alike) Reply.Alike (act step) (act step) := by
  refine Agrees.get.bind fun s t hst => ?_
  have hobject := hst.object
  refine .ite ?_ (fun _ => reply_same _) fun _ => ?_
  · rw [← Option.not_isSome, ← Option.not_isSome, isSome_eq_of_rel (hobject.pools step.pool)]
  cases step with
  | onPool i step =>
    rcases step with why | step
    · exact onObject_agrees (answer_agrees (actOnPool_agrees i) _)
    · cases step with
      | readGauges => exact readings_agrees
      | _ => exact onObject_agrees (answer_agrees (actOnPool_agrees i) (.ok _))
  | onStream _ k step =>
    refine .ite ?_ (fun _ => reply_same _) fun _ =>
      onObject_agrees (answer_agrees (actOnStream_agrees k) step)
    rw [← Option.not_isSome, ← Option.not_isSome, isSome_eq_of_rel (hobject.stream? k)]
  | onAllotment _ k step =>
    refine .ite ?_ (fun _ => reply_same _) fun _ =>
      onObject_agrees (answer_agrees (actOnAllotment_agrees k) step)
    rw [hobject.allotment? k]

/-! ### What is seen -/

theorem reading_plain {p q : Pool} (h : p.Alike q) :
    (PoolReading.of p).plain = (PoolReading.of q).plain := by
  obtain ⟨⟨⟨-, -⟩⟩, ⟨⟨-, -⟩⟩⟩ := h
  rfl

structure Reading.Alike (r r' : Reading) : Prop where
  pool : r.pool.plain = r'.pool.plain
  stream : r.stream = r'.stream

theorem Yard.Alike.poolOf {y z : Yard} (h : y.Alike z) (step : Step) :
    y.poolOf step = z.poolOf step := by
  cases step with
  | onPool i step => rfl
  | onStream i k step =>
    have hk := h.stream? k
    unfold Yard.poolOf
    dsimp only
    generalize y.stream? k = o at hk ⊢
    generalize z.stream? k = o' at hk ⊢
    cases hk with
    | none => rfl
    | some hst => exact hst.1
  | onAllotment i k step =>
    unfold Yard.poolOf
    dsimp only
    rw [h.allotment? k]

theorem Yard.Alike.streamFigures {y z : Yard} (h : y.Alike z) (step : Step) :
    y.streamFigures step = z.streamFigures step := by
  have hfigures : ∀ k, (y.stream? k).map (fun s => (s.2.blocks, s.2.total)) =
      (z.stream? k).map fun s => (s.2.blocks, s.2.total) := by
    intro k
    have hk := h.stream? k
    generalize y.stream? k = o at hk ⊢
    generalize z.stream? k = o' at hk ⊢
    cases hk with
    | none => rfl
    | @some a b hst =>
      obtain ⟨i, s⟩ := a
      obtain ⟨j, t⟩ := b
      obtain ⟨-, ⟨-⟩⟩ := hst
      rfl
  rcases step with ⟨i, step⟩ | ⟨i, k, why | step⟩ | ⟨i, k, step⟩
  · rfl
  · rfl
  · cases step with
    | finish => rfl
    | _ => exact hfigures k
  · rfl

theorem observe_alike (asked : Asked Step) {y z : Yard} {s t : Running Yard} (hyz : y.Alike z)
    (hst : s.Alike Yard.Alike t) :
    Option.Rel Reading.Alike (observe asked y s) (observe asked z t) := by
  cases asked with
  | error why => exact .none
  | ok step =>
    show Option.Rel Reading.Alike
      ((y.pools[step.pool]?).bind fun _ => (s.object.pools[y.poolOf step]?).bind fun p =>
        some ⟨.of p, s.object.streamFigures step⟩)
      ((z.pools[step.pool]?).bind fun _ => (t.object.pools[z.poolOf step]?).bind fun p =>
        some ⟨.of p, t.object.streamFigures step⟩)
    refine rel_bind (hyz.pools step.pool) fun _ _ _ => ?_
    rw [hyz.poolOf, hst.object.streamFigures]
    exact rel_bind (hst.object.pools _) fun p q hpq => .some ⟨reading_plain hpq, rfl⟩

/-! ### Whole sessions -/

/-- What could be begun on both sides, or on neither and for the same reason. -/
inductive Opened {α β : Type} (P : α → β → Prop) :
    Asked (Except Abandoned α) → Asked (Except Abandoned β) → Prop
  | unread (why : String) : Opened P (.error why) (.error why)
  | abandoned {a b : Abandoned} (fault : a.fault.Alike b.fault)
      (gauges : a.gauges.plain = b.gauges.plain) : Opened P (.ok (.error a)) (.ok (.error b))
  | done {a : α} {b : β} (h : P a b) : Opened P (.ok (.ok a)) (.ok (.ok b))

/-- The ends of the two sessions are the same; their log lines are not compared. -/
structure Ending.Alike (e f : Ending) : Prop where
  drops : List.Forall₂ Reply.Alike e.drops f.drops
  pools : e.pools.map PoolReading.plain = f.pools.map PoolReading.plain
  gauges : e.gauges.plain = f.gauges.plain

/-- The two sessions began alike, were answered alike at every step and ended alike. -/
structure Transcript.Alike (t u : Transcript) : Prop where
  start : List.Forall₂ (fun m n => m.1.Alike n.1) t.start u.start
  turns : List.Forall₂ (Turn.Alike Reading.Alike) t.turns u.turns
  ending : Option.Rel Ending.Alike t.ending u.ending

def under (strategy : Strategy) (configs : List (Asked PoolConfig)) : List (Asked PoolConfig) :=
  configs.map fun config => config.map (Pool.under · strategy)

/-- Two pools as they were made, with what their making told. -/
def MadeAlike (m n : Pool × List Event) : Prop := m.1.Alike n.1 ∧ Event.plain m.2 = Event.plain n.2

theorem closing_plain {p q : Pool} (h : p.Alike q) :
    Event.plain p.closing = Event.plain q.closing := by
  obtain ⟨⟨ha⟩, ⟨hr⟩⟩ := h
  simp only [Pool.closing, Arena.closing, Roster.closing, Event.plain_append, ha.closing,
    hr.closing]

theorem makePools_alike [Host.Generous] (s s' : Strategy) (configs : List (Asked PoolConfig))
    {made made' : List (Pool × List Event)} (hmade : List.Forall₂ MadeAlike made made') :
    Opened (List.Forall₂ MadeAlike) (makePools (under s configs) made)
      (makePools (under s' configs) made') := by
  induction configs generalizing made made' with
  | nil => exact .done (List.rel_reverse hmade)
  | cons config rest ih =>
    cases config with
    | error why => exact .unread why
    | ok config =>
      have hcreate : Agrees True Eq Pool.Alike (Pool.create (Pool.under config s))
        (Pool.create (Pool.under config s')) := Pool.create_agrees config s s'
      obtain ⟨hresult, -, hevents, -⟩ := hcreate () () rfl
      show Opened _ (makePools (.ok (Pool.under config s) :: under s rest) made)
        (makePools (.ok (Pool.under config s') :: under s' rest) made')
      rw [makePools, makePools]
      rcases hx : (Pool.create (Pool.under config s)).run () with ⟨r, _, es⟩
      rcases hy : (Pool.create (Pool.under config s')).run () with ⟨q, _, fs⟩
      rw [hx, hy] at hresult hevents
      dsimp only at hresult hevents ⊢
      cases hresult with
      | ok hpq => exact ih (.cons ⟨hpq, hevents⟩ hmade)
      | error he =>
        refine .abandoned he ?_
        have hback := List.rel_reverse hmade
        rw [Gauges.plain_absorb, Gauges.plain_absorb]
        simp only [Event.plain_append, hevents]
        rw [Event.plain_flatMap (fun _ _ h => h.2) hback,
          Event.plain_flatMap (fun _ _ h => closing_plain h.1) hback]

def start (made : List (Pool × List Event)) (logging : Bool) : Running Yard :=
  ⟨{ pools := (made.map Prod.fst).toArray }, Gauges.absorb {} (made.flatMap Prod.snd), logging⟩

theorem start_alike {made made' : List (Pool × List Event)}
    (h : List.Forall₂ MadeAlike made made') (logging : Bool) :
    (start made logging).Alike Yard.Alike (start made' logging) where
  object := {
    pools := .of_forall₂ (List.rel_map (fun _ _ hm => hm.1) h)
    handles := rfl
    slots := fun k => by simp [start]
    streams := fun i => by simp [start]
    allotments := rfl }
  gauges := by
    rw [start, start, Gauges.plain_absorb, Gauges.plain_absorb,
      Event.plain_flatMap (fun _ _ hm => hm.2) h]
  logging := rfl

theorem giveUp_alike (xs : List (Act Yard Reply))
    (hxs : ∀ x ∈ xs, Agrees True Yard.Alike Reply.Alike x x)
    {done done' : List Reply × List String × Running Yard}
    (hdrops : List.Forall₂ Reply.Alike done.1 done'.1)
    (hst : done.2.2.Alike Yard.Alike done'.2.2) :
    List.Forall₂ Reply.Alike (xs.foldl giveUp done).1 (xs.foldl giveUp done').1 ∧
      (xs.foldl giveUp done).2.2.Alike Yard.Alike (xs.foldl giveUp done').2.2 := by
  induction xs generalizing done done' with
  | nil => exact ⟨hdrops, hst⟩
  | cons x xs ih =>
    obtain ⟨hreply, hnext⟩ := perform_alike (onObject_agrees (hxs x (List.mem_cons_self ..))) hst
    refine ih (fun x hx => hxs x (List.mem_cons_of_mem _ hx)) ?_ hnext
    exact List.rel_append hdrops (.cons hreply .nil)

theorem Yard.Alike.leftovers {y z : Yard} (h : y.Alike z) : leftovers y = leftovers z := by
  have hstreams : ∀ k, (y.stream? k).isSome = (z.stream? k).isSome := fun k =>
    isSome_eq_of_rel (h.stream? k)
  have hallotments : ∀ k, (y.allotment? k).isSome = (z.allotment? k).isSome := fun k => by
    rw [h.allotment? k]
  simp only [OfPools.leftovers, h.streams.size_eq, hstreams, h.allotments, hallotments]

theorem leftovers_agrees (y : Yard) :
    ∀ x ∈ leftovers y, Agrees True Yard.Alike Reply.Alike x x := by
  intro x hx
  rcases List.mem_append.mp hx with hx | hx
  · obtain ⟨k, -, rfl⟩ := List.mem_map.mp hx
    exact finish_agrees k
  · obtain ⟨k, -, rfl⟩ := List.mem_map.mp hx
    exact release_agrees k

/-- What is left is given up in the same order on both sides. -/
theorem close_alike {s t : Running Yard} (h : s.Alike Yard.Alike t) :
    (close s).Alike (close t) := by
  have hdone := giveUp_alike (leftovers t.object) (leftovers_agrees _)
    (show List.Forall₂ Reply.Alike ([], [], s).1 ([], [], t).1 from .nil) h
  rw [close_eq, close_eq, h.object.leftovers]
  generalize (leftovers t.object).foldl giveUp ([], [], s) = done at hdone ⊢
  generalize (leftovers t.object).foldl giveUp ([], [], t) = done' at hdone ⊢
  obtain ⟨hdrops, hlast⟩ := hdone
  have hpools := hlast.object.pools.toList
  refine ⟨hdrops, ?_, ?_⟩
  · rw [List.map_map, List.map_map, ← List.forall₂_eq_eq_eq]
    exact List.rel_map (fun _ _ hpq => reading_plain hpq) hpools
  · dsimp only
    rw [Gauges.plain_absorb, Gauges.plain_absorb, hlast.gauges,
      Event.plain_flatMap (fun _ _ hpq => closing_plain hpq) hpools]

/-- The contents of every pool after some steps, by offset. -/
def contents (configs : List (Asked PoolConfig)) (steps : List (Asked Step)) (logging : Bool) :
    List (Int → UInt8) :=
  match makePools configs [] with
  | .ok (.ok made) =>
      (play act observe (start made logging) steps).last.object.pools.toList.map fun p =>
        p.arena.window.byteAt
  | _ => []

/-- A session is answered in the same way under both strategies, from the making of its pools to
their end, and at every point its pools hold the same bytes. -/
theorem strategies_agree [Host.Generous] (configs : List (Asked PoolConfig))
    (steps : List (Asked Step)) (logging : Bool) :
    Opened Transcript.Alike (run (under .remap configs) steps logging)
        (run (under .pinned configs) steps logging) ∧
      contents (under .remap configs) steps logging =
        contents (under .pinned configs) steps logging := by
  have hmade := makePools_alike .remap .pinned configs .nil
  unfold run contents
  generalize makePools (under .remap configs) [] = made at hmade ⊢
  generalize makePools (under .pinned configs) [] = made' at hmade ⊢
  cases hmade with
  | unread why => exact ⟨.unread why, rfl⟩
  | abandoned fault gauges => exact ⟨.abandoned fault gauges, rfl⟩
  | done h =>
    have hplayed := play_alike act_agrees (fun step _ _ _ _ => observe_alike step) steps
      (start_alike h logging)
    refine ⟨.done ⟨?_, hplayed.turns, ?_⟩, ?_⟩
    · exact List.rel_map (fun _ _ hm => hm.1) h
    · show Option.Rel Ending.Alike
        (if (play act observe (start _ logging) steps).stopped then none
          else some (close (play act observe (start _ logging) steps).last))
        (if (play act observe (start _ logging) steps).stopped then none
          else some (close (play act observe (start _ logging) steps).last))
      rw [hplayed.stopped]
      split
      · exact .none
      · exact .some (close_alike hplayed.last)
    · rw [← List.forall₂_eq_eq_eq]
      exact List.rel_map (fun _ _ hpq => by obtain ⟨⟨hw⟩, -⟩ := hpq; exact hw.byteAt)
        hplayed.last.object.pools.toList

end OfPools

end

namespace OfPools

section

attribute [local instance] Host.plain

/-- A slot is written, and its pool grows downwards, into a new view or by a piece more. -/
theorem strategies_agree_of_moved : ∃ configs steps,
    Opened Transcript.Alike (run (under .remap configs) steps true)
      (run (under .pinned configs) steps true) ∧
    contents (under .remap configs) steps true = contents (under .pinned configs) steps true ∧
    (contents (under .pinned configs) steps true).map (· 99) = [7] := by
  have hbytes : (contents (under .pinned [.ok {}]) [.ok (.onPool 0 (.ok (.alloc 100 64))),
      .ok (.onPool 0 (.ok (.fillSlot 0 (.ok 7)))), .ok (.onPool 0 (.ok .allocBack))]
      true).map (· 99) = [7] := by
    decide +kernel
  obtain ⟨hturns, hcontents⟩ := strategies_agree [.ok {}] _ true
  exact ⟨_, _, hturns, hcontents, hbytes⟩

end

end OfPools

end SlotArena.Session
