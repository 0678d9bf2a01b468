import SlotArena.Proofs.Attainable
import SlotArena.Proofs.PoolCharges
import SlotArena.Proofs.Tables

/-!
What estates charge. A stream charges its blocks; an allotment charges nothing of its own, for the
slots that it sets aside are live slots of its pool; an estate charges what its pool and its streams
do. What a stream or an allotment asks a pool for is booked, whatever becomes of it. A stream that
ends is booked as a whole: its blocks go back one by one, each of them as a slot and as a block, and
since they are all of its blocks (`release_meets`), nothing that it charged stays behind.
-/

namespace SlotArena

open Act Ledger

/-! ### Streams -/

namespace Stream

def account : Account Stream where
  keeps _ := True
  charge s g := if g = .streamBlocks then s.blocks else 0

def sharedAccount : Account (Stream × Pool) where
  keeps t := Pool.account.keeps t.2
  charge t g := account.charge t.1 g + Pool.account.charge t.2 g

variable {α : Type}

theorem onStream_booked {x : Act Stream α} (h : Booked account x) :
    Booked sharedAccount (onStream x) :=
  h.focus (fun _ _ => trivial) (fun _ _ ht _ => ht) fun t s g => by
    show account.charge s g + Pool.account.charge t.2 g + account.charge t.1 g =
      account.charge t.1 g + Pool.account.charge t.2 g + account.charge s g
    omega

theorem onPool_booked {x : Act Pool α} (h : Booked Pool.account x) :
    Booked sharedAccount (onPool x) :=
  h.focus (fun _ => id) (fun _ _ _ hp => hp) fun t p g => by
    show account.charge t.1 g + Pool.account.charge p g + Pool.account.charge t.2 g =
      account.charge t.1 g + Pool.account.charge t.2 g + Pool.account.charge p g
    omega

theorem writeHeader_booked (block : Slot) (previous : Nat) :
    Booked Pool.account (writeHeader block previous) := by
  rw [writeHeader]
  cases block.place with
  | none => exact booked_pure ()
  | some place => exact Pool.onWindow_booked (Window.copy_booked _ _)

theorem readHeader_booked (block : Slot) : Booked Pool.account (readHeader block) :=
  booked_get_bind fun _ => booked_pure _

theorem books_blocks {s s' : Stream} (h : s'.blocks = s.blocks) : account.Books s [] s' :=
  .silent id fun g => congrArg (fun n => if g = .streamBlocks then n else 0) h

theorem cut_booked (offset size : Nat) : Booked account (cut offset size) := by
  have hadvance : Booked account (advance (offset + size) size) :=
    Booked.bind (booked_modify fun _ => books_blocks rfl) fun _ => booked_get_bind fun _ =>
      (booked_checked _ _ _).bind fun _ => booked_modify fun _ => books_blocks rfl
  exact hadvance.bind fun _ => booked_get_bind fun _ => (booked_checked _ _ _).bind fun _ =>
    booked_pure _

/-- The newest block counts once it is entered and told of. -/
theorem enter_booked (block : Slot) :
    Booked sharedAccount (do onStream (enter block); emit [.raise .streamBlocks 1]) := by
  intro t
  simp only [Traces, leaves_bind, onStream, leaves_focus, enter, addSize, leaves_modify, leaves_get,
    leaves_ensure, leaves_pure, leaves_emit, List.nil_append]
  refine ⟨fun _ => fun ht => ⟨ht, fun g => ?_, ?_⟩, fun _ => .silent id fun _ => rfl⟩
  · by_cases hg : g = .streamBlocks
    · subst hg
      simp [sharedAccount, account]
      omega
    · simp [sharedAccount, account, hg, Ne.symm hg]
  · rintro e he
    obtain rfl := List.mem_singleton.mp he
    exact (by decide : 1 ≤ Counter.largestDelta)

theorem startBlock_booked [Host] (size align : Nat) :
    Booked sharedAccount (startBlock size align) :=
  (onPool_booked (Pool.alloc_booked _ _)).bind fun block => booked_get_bind fun _ =>
    (onPool_booked (writeHeader_booked _ _)).bind fun _ => (booked_note _).bind fun _ =>
      enter_booked block

theorem alloc_booked [Host] (size align : Nat) : Booked sharedAccount (alloc size align) := by
  have hcut : ∀ offset, Booked sharedAccount (onStream (cut offset size)) := fun offset =>
    onStream_booked (cut_booked offset size)
  refine booked_ite (booked_pure _) <| booked_get_bind fun t => (booked_ensure _ _).bind fun _ =>
    (booked_checked _ _ _).bind fun _ => ?_
  refine booked_ite ?_ (hcut _)
  exact (booked_checked _ _ _).bind fun _ => (booked_checked _ _ _).bind fun _ =>
    (startBlock_booked _ _).bind fun _ => hcut _

/-! ### The end of a stream -/

/-- While a stream ends, every slot that its pool has handed out is charged for as a block too. -/
def endingAccount : Account Pool where
  keeps := Pool.account.keeps
  charge p g := Pool.account.charge p g + if g = .streamBlocks then p.liveCount else 0

def SameCount (p : Pool) (_ : List Event) (p' : Pool) : Prop := p'.liveCount = p.liveCount

theorem sameCount_path : Path SameCount where
  refl _ := rfl
  trans h h' := h'.trans h

theorem slotAt_count (i : Nat) (p : Pool) : Traces SameCount (Pool.slotAt i) p :=
  Traces.bind sameCount_path (x := Pool.onRoster _) rfl fun _ _ =>
    Traces.bind sameCount_path (x := Pool.onArena _) rfl fun _ _ => rfl

theorem pushFree_count (c : SizeClass) (first count : Nat) (p : Pool) :
    Traces SameCount (Pool.pushFree c first count) p :=
  traces_get_bind (Traces.bind sameCount_path (x := Pool.onRoster _) rfl fun _ _ => rfl)

theorem pushBack_count (i : Nat) (p : Pool) : Traces SameCount (Pool.pushBack i) p :=
  traces_get_bind (Traces.bind sameCount_path (x := Pool.onRoster _) rfl fun _ _ => rfl)

theorem holding_count (size : Nat) (p : Pool) :
    Traces SameCount (SizeClass.holding size : Act Pool SizeClass) p := by
  refine Traces.bind sameCount_path (traces_ensure_bind sameCount_path rfl) fun _ _ => ?_
  split
  · rfl
  · rfl

theorem free_count {slot : Slot} (hnull : ¬ slot.IsNull) (p : Pool) :
    (Pool.free slot).Leaves p fun r _ p' => ∀ a, r = .ok a →
      p.live.contains slot.idx ∧ p'.liveCount = p.liveCount - 1 := by
  rw [Pool.free, if_neg hnull]
  simp only [leaves_bind, leaves_ensure, leaves_modify, leaves_emit, Pool.onRoster, leaves_focus,
    Roster.get, leaves_get, leaves_pure, reduceCtorEq, false_implies, implies_true, and_true]
  refine fun _ hlive _ _ _ => ?_
  have hback : ∀ q, Traces SameCount (do
      Act.ensure (slot.size = p.blockSize) (.disagreement .backSlotSize slot.size p.blockSize)
      Pool.pushBack slot.idx) q := fun q =>
    traces_ensure_bind sameCount_path (pushBack_count _ q)
  have hfront : ∀ q, Traces SameCount
      (do Pool.pushFree (← SizeClass.holding slot.size) slot.idx 1) q := fun q =>
    (holding_count _ q).bind sameCount_path fun _ => pushFree_count _ _ _
  exact Leaves.imp (traces_ite (hback _) (hfront _)) fun _ _ _ hsame _ _ => ⟨hlive, hsame⟩

theorem ending_booked {x : Act Pool α} (h : Booked Pool.account x)
    (hcount : ∀ p, Traces SameCount x p) : Booked endingAccount x := fun p =>
  (h p).part id (fun _ => id) fun _ g => by
    have hsame : (x.run p).state.liveCount = p.liveCount := hcount p
    simp only [endingAccount, hsame]
    omega

/-- A block that goes back is a slot less and a block less. -/
theorem free_settled {block : Slot} (hnull : ¬ block.IsNull) :
    Settled endingAccount (do Pool.free block; emit [.lower .streamBlocks 1]) := by
  intro p
  have hbooks := Pool.free_booked block p
  have hcount := free_count hnull p
  unfold Traces Leaves at hbooks
  unfold Leaves at hcount
  rw [leaves_bind]
  unfold Leaves
  rcases hrun : (Pool.free block).run p with ⟨fault | _, p', es⟩
  · exact fun _ hok => by cases hok
  · rw [hrun] at hbooks hcount
    obtain ⟨hlive, hless⟩ := hcount _ rfl
    intro _ _ hp
    obtain ⟨hp', hnet, hmodest⟩ := hbooks hp
    have hpos := Nat.lt_of_lt_of_le (Pool.live_pos hlive) hp.2.2
    refine ⟨hp', fun g => ?_, ?_⟩
    · have hg := hnet g
      dsimp only at hg hless
      by_cases hblocks : g = .streamBlocks
      · subst hblocks
        simp [endingAccount]
        omega
      · simp [endingAccount, hblocks, Ne.symm hblocks, hg]
    · refine List.forall_mem_append.mpr ⟨hmodest, fun e he => ?_⟩
      obtain rfl := List.mem_singleton.mp he
      exact (by decide : 1 ≤ Counter.largestDelta)

/-- A stream that ends takes as many blocks back as slots. -/
theorem releaseFrom_settled (fuel : Nat) (block : Slot) :
    Settled endingAccount (releaseFrom fuel block) := by
  induction fuel generalizing block with
  | zero => exact (booked_fail _).settled
  | succ fuel ih =>
    refine settled_ite (fun _ => (booked_pure _).settled) fun hnull => ?_
    have hheader := ending_booked (readHeader_booked block) fun p => rfl
    refine hheader.settled.bind fun previous => ?_
    have hrest : Settled endingAccount (do
        if previous = noIndex then return
        releaseFrom fuel (← Pool.slotAt previous)) := by
      refine settled_ite (fun _ => (booked_pure _).settled) fun _ => ?_
      exact (ending_booked (Pool.slotAt_booked _) (slotAt_count _)).settled.bind fun _ => ih _
    have hall := (free_settled hnull).bind fun _ => hrest
    rw [bind_assoc] at hall
    exact hall

theorem coe_live (p : Pool) : {i | i ∈ p.live} = ↑p.live.toList.toFinset := by
  ext i
  simp

/-- A pool counts the records that are handed out. -/
theorem ncard_live {p : Pool} {loose : Finset Int} (h : p.Valid loose) :
    p.liveCount = {i | i ∈ p.live}.ncard := by
  obtain ⟨spot, h, -⟩ := h
  rw [coe_live, Set.ncard_coe_finset, List.toFinset_card_of_nodup (Pool.nodup_toList _),
    Std.TreeSet.length_toList, h.count]

theorem release_books {s : Stream} {p : Pool} {loose : Finset Int} {blocks : Set Nat}
    {issued : List Slot} (h : s.Sound p blocks issued) (hp : p.Valid loose) :
    (release s).Leaves p fun _ es p' => Pool.account.keeps p → Pool.account.keeps p' ∧
      (∀ g, (Pool.account.charge p' g : Int) =
        Pool.account.charge p g + account.charge s g + Event.net g es) ∧ ∀ e ∈ es, e.Modest := by
  obtain ⟨_, p', es, hrun, hvalid, hpassed, hgone⟩ := (release_meets h hp).exists_ok
  have hsettled : Settled endingAccount (release s) :=
    booked_get.settled.bind fun q => releaseFrom_settled (q.live.size + 1) s.block
  have hbooks := hsettled p
  unfold Leaves at hbooks ⊢
  rw [hrun] at hbooks ⊢
  have hlive : {i | i ∈ p'.live} = {i | i ∈ p.live} \ blocks := by
    ext i
    by_cases hi : i ∈ blocks
    · exact iff_of_false (hgone i hi) fun hmem => hmem.2 hi
    · exact (hpassed.live i hi).trans ⟨fun hmem => ⟨hmem, hi⟩, And.left⟩
  have hcount : p'.liveCount + s.blocks = p.liveCount := by
    rw [ncard_live hvalid, ncard_live hp, hlive, h.blocks_eq]
    exact Set.ncard_sdiff_add_ncard_of_subset h.live (coe_live p ▸ Finset.finite_toSet _)
  intro hkeeps
  obtain ⟨hkeeps', hnet, hmodest⟩ := hbooks _ rfl hkeeps
  refine ⟨hkeeps', fun g => ?_, hmodest⟩
  have hg := hnet g
  simp only [endingAccount, account] at hg ⊢
  by_cases hblocks : g = .streamBlocks
  · rw [if_pos hblocks, if_pos hblocks] at hg
    rw [if_pos hblocks]
    omega
  · rw [if_neg hblocks, if_neg hblocks] at hg
    rw [if_neg hblocks]
    omega

end Stream

/-! ### Allotments -/

namespace Allotment

variable {α : Type}

/-- The slots of an allotment are live slots of its pool, and no more than that. -/
def account : Account (Allotment × Pool) := Pool.account.on Prod.snd

theorem onPool_booked {x : Act Pool α} (h : Booked Pool.account x) : Booked account (onPool x) :=
  h.on fun _ _ => rfl

theorem onAllotment_booked {x : Act Allotment α} (hquiet : ∀ a, (x.run a).events = []) :
    Booked account (onAllotment x) :=
  booked_beside hquiet fun _ _ => .silent id fun _ => rfl

theorem pushFree_booked (i : Nat) : Booked account (pushFree i) :=
  booked_get_bind fun _ => (onPool_booked (Pool.onRoster_booked (Chain.push_booked _ _ _))).bind
    fun _ => onAllotment_booked fun _ => rfl

theorem popFree_booked : Booked account popFree :=
  booked_get_bind fun _ => (onPool_booked (Pool.onRoster_booked (Chain.pop_booked _))).bind
    fun _ => (onAllotment_booked fun _ => rfl).bind fun _ => booked_pure _

theorem alloc_booked : Booked account alloc := by
  refine popFree_booked.bind fun top => ?_
  cases top with
  | none => exact booked_pure _
  | some i => exact (onPool_booked (Pool.slotAt_booked i)).bind fun _ => booked_pure _

theorem free_booked (slot : Slot) : Booked account (free slot) :=
  booked_get_bind fun _ => (booked_ensure _ _).bind fun _ =>
    (onPool_booked (Pool.onRoster_booked (Roster.get_booked _))).bind fun _ =>
      (booked_ensure _ _).bind fun _ => pushFree_booked _

theorem returnFree_booked (fuel returned : Nat) : Booked account (returnFree fuel returned) := by
  induction fuel generalizing returned with
  | zero => exact booked_fail _
  | succ fuel ih =>
    refine popFree_booked.bind fun top => ?_
    cases top with
    | none => exact booked_pure _
    | some i =>
      have hfree : Booked Pool.account (do Pool.free (← Pool.slotAt i)) :=
        (Pool.slotAt_booked i).bind fun _ => Pool.free_booked _
      exact (onPool_booked hfree).bind fun _ => ih (returned + 1)

theorem release_booked : Booked account release :=
  booked_get_bind fun _ => (returnFree_booked _ _).bind fun _ =>
    booked_ite (booked_note _) (booked_pure _)

theorem gather_booked [Host] (n : Nat) : Booked account (gather n) := by
  induction n with
  | zero => exact booked_pure _
  | succ n ih =>
    exact booked_get_bind fun _ => (onPool_booked (Pool.alloc_booked _ _)).bind fun _ =>
      (booked_ensure _ _).bind fun _ => (pushFree_booked _).bind fun _ =>
        (onAllotment_booked fun _ => rfl).bind fun _ => ih

theorem booked_begin (a : Allotment) {x : Act (Allotment × Pool) α} (h : Booked account x) :
    Booked Pool.account fun p => ⟨(x.run (a, p)).result, (x.run (a, p)).state.2,
      (x.run (a, p)).events⟩ := fun p => h (a, p)

/-- An allotment that cannot be filled goes back as far as it was. -/
theorem create_booked [Host] (count size : Nat) : Booked Pool.account (create count size) := by
  refine (booked_ensure _ _).bind fun _ => (booked_checked _ _ _).bind fun slotSize => ?_
  refine booked_begin ⟨.empty, size, slotSize, 0⟩ ?_
  refine (gather_booked count).attempt.bind fun answer => ?_
  rcases answer with fault | _
  · exact release_booked.bind fun _ => booked_fail _
  · exact booked_get_bind fun _ => booked_pure _

end Allotment

/-! ### Estates -/

namespace Lane

def account : Account Lane := Stream.account.on Lane.stream

end Lane

namespace Estate

noncomputable def outlay : Account Estate where
  keeps e := Pool.account.keeps e.pool ∧ FewEntries e.lanes
  charge e g := Pool.account.charge e.pool g + sumOver e.lanes (Lane.account.charge · g)

variable {e e' : Estate} {α : Type}

theorem books_same (hpool : e'.pool = e.pool) (hlanes : e'.lanes = e.lanes) :
    outlay.Books e [] e' := by
  refine .silent (fun he => ?_) fun g => ?_
  · show _ ∧ _
    rw [hpool, hlanes]
    exact he
  · show Pool.account.charge e'.pool g + sumOver e'.lanes _ = _
    rw [hpool, hlanes]
    rfl

theorem books_keep (e : Estate) (slot : Slot) : outlay.Books e [] (e.keep slot) := by
  rw [keep]
  split
  · exact outlay.path.refl e
  · exact books_same rfl rfl

theorem onPool_booked {x : Act Pool α} (h : Booked Pool.account x) : Booked outlay (onPool x) :=
  h.focus (fun _ he => he.1) (fun _ _ he hp => ⟨hp, he.2⟩) fun e p g => by
    show Pool.account.charge p g + _ + _ = Pool.account.charge e.pool g + _ + _
    dsimp only
    omega

theorem onAllotment_booked (k : Nat) (a : Allotment) {x : Act (Allotment × Pool) α}
    (h : Booked Allotment.account x) : Booked outlay (onAllotment k a x) :=
  h.focus (fun _ he => he.1) (fun _ _ he hp => ⟨hp, he.2⟩) fun e t g => by
    show Pool.account.charge t.2 g + _ + Pool.account.charge e.pool g =
      Pool.account.charge e.pool g + _ + Pool.account.charge t.2 g
    simp only [withAllotment]
    omega

def laneCharge (lane : Option Lane) (g : Gauge) : Nat := Lane.account.optional.charge lane g

theorem books_lane {k : Nat} {lane : Option Lane} {p : Pool} {es : List Event}
    (h : Pool.account.keeps e.pool → Pool.account.keeps p ∧
      (∀ g, (Pool.account.charge p g + laneCharge lane g : Int) =
        Pool.account.charge e.pool g + laneCharge (e.lanes k) g + Event.net g es) ∧
      ∀ ev ∈ es, ev.Modest) :
    outlay.Books e es ({ e with pool := p }.withLane k lane) := fun he => by
  obtain ⟨hp, hnet, hmodest⟩ := h he.1
  refine ⟨⟨hp, he.2.update k lane⟩, fun g => ?_, hmodest⟩
  have hg := hnet g
  have hsum : sumOver (Function.update e.lanes k lane) (Lane.account.charge · g) +
      laneCharge (e.lanes k) g = sumOver e.lanes (Lane.account.charge · g) + laneCharge lane g :=
    sumOver_update he.2 k lane (Lane.account.charge · g)
  show ((Pool.account.charge p g + sumOver (Function.update e.lanes k lane)
    (Lane.account.charge · g) : Nat) : Int) =
      (Pool.account.charge e.pool g + sumOver e.lanes (Lane.account.charge · g) : Nat) + _
  omega

theorem books_relane {k : Nat} {lane : Option Lane}
    (h : ∀ g, laneCharge lane g = laneCharge (e.lanes k) g) :
    outlay.Books e [] (e.withLane k lane) :=
  books_lane (p := e.pool) fun hp => ⟨hp, fun g => by rw [h, Event.net_nil, Int.add_zero],
    fun ev hev => absurd hev List.not_mem_nil⟩

theorem onLane_traces {k : Nat} {lane : Lane} (hk : e.lanes k = some lane)
    {x : Act (Stream × Pool) α} (h : Booked Stream.sharedAccount x) :
    Traces outlay.Books (onLane k lane x) e := by
  refine books_lane fun hp => ?_
  obtain ⟨hp', hnet, hmodest⟩ := h (lane.stream, e.pool) hp
  refine ⟨hp', fun g => ?_, hmodest⟩
  have hg := hnet g
  simp only [Stream.sharedAccount] at hg
  rw [hk]
  show (Pool.account.charge (x.run (lane.stream, e.pool)).state.2 g +
      Stream.account.charge (x.run (lane.stream, e.pool)).state.1 g : Int) =
    Pool.account.charge e.pool g + Stream.account.charge lane.stream g +
      Event.net g (x.run (lane.stream, e.pool)).events
  omega

/-! ### Steps -/

theorem streamAlloc_traces [Host] (e : Estate) (k size align : Nat) :
    Traces outlay.Books (perform (.streamAlloc k size align)) e := by
  refine traces_get_bind ?_
  cases hk : e.lanes k with
  | none => exact traces_pure outlay.path _
  | some lane =>
    refine (onLane_traces hk (Stream.alloc_booked size align)).bind outlay.path fun slot e' => ?_
    have hissue : ∀ e : Estate, outlay.Books e []
        (e.withLane k ((e.lanes k).map (Lane.issue · slot))) := fun e => by
      refine books_relane fun g => ?_
      cases e.lanes k with
      | none => rfl
      | some lane =>
        show Stream.account.charge (lane.issue slot).stream g = _
        rw [Lane.issue]
        split
        · rfl
        · rfl
    exact ((booked_modify hissue).bind fun _ => booked_pure _) e'

theorem openStream_traces [Host] {k : Nat} (hk : e.lanes k = none) (blockSize : Nat) :
    Traces outlay.Books (perform (.openStream k blockSize)) e := by
  simp only [Traces, perform, Stream.create, leaves_bind, leaves_ensure, leaves_pure, leaves_modify]
  refine ⟨fun _ => books_relane fun g => ?_, fun _ => outlay.path.refl e⟩
  rw [hk]
  exact ite_self 0

theorem finish_traces [Host] {keeper : Nat → Keeper} (h : e.Sound keeper) (k : Nat) :
    Traces outlay.Books (perform (.finish k)) e := by
  refine traces_get_bind ?_
  cases hk : e.lanes k with
  | none => exact traces_pure outlay.path _
  | some lane =>
    have hrelease := Stream.release_books ((h.content (.stream k)).2 lane hk) h.valid
    simp only [Traces, leaves_bind, leaves_modify, onPool, leaves_focus, leaves_pure]
    refine hrelease.imp fun r es p hbooks => ?_
    have hdone : outlay.Books e es ({ e with pool := p }.withLane k none) := by
      refine books_lane fun hp => ?_
      obtain ⟨hp', hnet, hmodest⟩ := hbooks hp
      refine ⟨hp', fun g => ?_, hmodest⟩
      rw [hk, hnet g]
      exact Int.add_zero _
    cases r with
    | error fault => exact hdone
    | ok _ =>
      show outlay.Books e ([] ++ (es ++ [])) _
      rw [List.append_nil]
      exact hdone

theorem pool_booked {x : Act Pool α} (h : Booked Pool.account x) {f : α → Estate → Estate}
    (hf : ∀ a e, outlay.Books e [] (f a e)) (g : α → Option Slot) :
    Booked outlay (do
      let answer ← onPool x
      Act.modify (f answer)
      return g answer) :=
  (onPool_booked h).bind fun a => (booked_modify (hf a)).bind fun _ => booked_pure _

theorem allotment_traces (e : Estate) (k : Nat) {x : Act (Allotment × Pool) α}
    (h : Booked Allotment.account x) {f : α → Estate → Estate}
    (hf : ∀ a e, outlay.Books e [] (f a e)) (g : α → Option Slot) :
    Traces outlay.Books (do
      match (← Act.get).allotments k with
      | none => return none
      | some a =>
          let answer ← onAllotment k a x
          Act.modify (f answer)
          return g answer) e := by
  refine traces_get_bind ?_
  cases e.allotments k with
  | none => exact traces_pure outlay.path _
  | some a =>
    exact ((onAllotment_booked k a h).bind fun _ => (booked_modify (hf _)).bind fun _ =>
      booked_pure _) e

/-- Whatever becomes of a step, what it tells comes to the difference that it makes. -/
theorem perform_traces [Host] {keeper : Nat → Keeper} (h : e.Sound keeper) {step : Step}
    (hadmits : e.Admits step) : Traces outlay.Books (perform step) e := by
  have hsame : ∀ (e : Estate) (taken : Finset Int) (held : List Slot)
      (allotments : Nat → Option Allotment),
      outlay.Books e [] ⟨e.pool, taken, held, e.lanes, allotments⟩ := fun _ _ _ _ =>
    books_same rfl rfl
  cases step with
  | alloc size align =>
    exact pool_booked (Pool.alloc_booked size align) (fun slot e => books_keep e slot) some e
  | allocBack => exact pool_booked Pool.allocBack_booked (fun slot e => books_keep e slot) some e
  | free slot =>
    exact pool_booked (Pool.free_booked slot) (fun _ e => hsame e _ _ _) (fun _ => none) e
  | take n =>
    exact pool_booked (Pool.onArena_booked (Arena.alloc_booked n)) (fun _ e => hsame e _ _ _)
      (fun _ => none) e
  | giveBack offset n =>
    have hback : Booked outlay (do
        onPool (Pool.returnChunk offset n)
        return none : Act Estate (Option Slot)) :=
      (onPool_booked (Pool.splitChunk_booked _ _ _)).bind fun _ => booked_pure _
    exact (booked_modify fun e => hsame e _ _ _).bind (fun _ => hback) e
  | openStream k blockSize => exact openStream_traces hadmits blockSize
  | streamAlloc k size align => exact streamAlloc_traces e k size align
  | finish k => exact finish_traces h k
  | reserve k count size =>
    exact pool_booked (Allotment.create_booked count size) (fun _ e => hsame e _ _ _)
      (fun _ => none) e
  | draw k =>
    refine allotment_traces e k Allotment.alloc_booked (fun answer e => ?_) id
    cases answer with
    | none => exact outlay.path.refl e
    | some slot => exact books_keep e slot
  | putBack k slot =>
    exact allotment_traces e k (Allotment.free_booked slot) (fun _ e => hsame e _ _ _) fun _ => none
  | release k =>
    exact allotment_traces e k Allotment.release_booked (fun _ e => hsame e _ _ _) fun _ => none
  | write slot place bytes =>
    exact ((onPool_booked (Pool.onWindow_booked (Window.copy_booked _ _))).bind fun _ =>
      booked_pure _) e

/-! ### Putting an estate to use -/

/-- The client offers pieces that it took, all of one size; it keeps the bytes if the pool will not
have them. -/
def grant [Host] (offset : Int) (count size : Nat) : Act Estate Unit := do
  onPool (Pool.returnBlocks offset count size)
  Act.modify fun e => { e with taken := e.taken \ span offset (count * size) }

inductive Use
  | step (step : Step)
  | tender (offset : Int) (n : Nat)
  | grant (offset : Int) (count size : Nat)

def Use.act [Host] : Use → Act Estate Unit
  | .step s => (fun _ => ()) <$> perform s
  | .tender offset n => Estate.tender offset n
  | .grant offset count size => Estate.grant offset count size

def Permits [Host] (e : Estate) : Use → Prop
  | .step step => e.Admits step ∧ e.Survives step
  | .tender offset n => span offset n ⊆ e.taken
  | .grant offset count size => span offset (count * size) ⊆ e.taken

theorem grant_meets [Host] {keeper : Nat → Keeper} (h : e.Sound keeper) {offset : Int}
    {count size : Nat} (hsub : span offset (count * size) ⊆ e.taken) :
    (grant offset count size).Meets e (fun _ e' => e'.Sound keeper)
      fun _ e' => e'.Sound keeper := by
  simp only [grant, meets_bind, onPool, meets_focus, meets_modify]
  refine (Pool.returnBlocks_meets_any h.valid hsub).weaken ?_ ?_
  · intro _ p hp
    refine h.undisturbed hp.1 (fun x hx => h.forward x (Finset.mem_sdiff.mp hx).1) hp.2 ?_
    rintro (_ | _ | _)
    · rfl
    · rfl
    · rfl
  · intro _ p hp
    refine h.undisturbed hp.1 h.forward hp.2 ?_
    rintro (_ | _ | _)
    · rfl
    · rfl
    · rfl

/-- Whatever is done with it, an estate stays sound. -/
theorem Sound.use [Host] {keeper : Nat → Keeper} (h : e.Sound keeper) {use : Use}
    (hpermits : e.Permits use) : ∃ keeper, (use.act.run e).state.Sound keeper := by
  cases use with
  | step step => exact (h.next hpermits.1 hpermits.2).sound
  | tender offset n => exact ⟨keeper, (tender_meets h hpermits).state⟩
  | grant offset count size => exact ⟨keeper, (grant_meets h hpermits).state⟩

theorem tender_booked [Host] (offset : Int) (n : Nat) : Booked outlay (tender offset n) := by
  have htaken : Booked outlay (Act.modify fun e => { e with taken := e.taken \ span offset n }) :=
    booked_modify fun _ => books_same rfl rfl
  refine (onPool_booked (Pool.splitChunk_booked _ _ _)).attempt.bind fun answer => ?_
  rcases answer with (why | _ | _) | _
  · exact htaken.bind fun _ => booked_fail _
  · exact booked_fail _
  · exact booked_fail _
  · exact htaken

theorem grant_booked [Host] (offset : Int) (count size : Nat) :
    Booked outlay (grant offset count size) :=
  (onPool_booked (Pool.returnBlocks_booked _ _ _)).bind fun _ =>
    booked_modify fun _ => books_same rfl rfl

noncomputable def account : Account Estate where
  keeps e := (∃ keeper, e.Sound keeper) ∧ outlay.keeps e
  charge := outlay.charge

theorem use_traces [Host] {use : Use} (hpermits : e.Permits use) :
    Traces account.Books use.act e := by
  intro he
  obtain ⟨⟨keeper, hsound⟩, hkeeps⟩ := he
  have houtlay : Traces outlay.Books use.act e := by
    cases use with
    | step step => exact perform_traces hsound hpermits.1
    | tender offset n => exact tender_booked offset n e
    | grant offset count size => exact grant_booked offset count size e
  obtain ⟨hkeeps', hnet, hmodest⟩ := houtlay hkeeps
  exact ⟨⟨hsound.use hpermits, hkeeps'⟩, hnet, hmodest⟩

theorem new_books [Host] (config : PoolConfig) :
    (Pool.create config).Leaves () fun r es _ =>
      account.optional.Books none es (r.toOption.map new) := by
  have hopens := Pool.opens config
  have hmeets := Pool.create_meets config
  unfold Leaves
  rcases hrun : (Pool.create config).run () with ⟨fault | p, _, es⟩
  · obtain ⟨hnet, hmodest⟩ := hopens.net_error hrun
    exact .failed hnet hmodest
  · obtain ⟨hkeeps, hnet, hmodest⟩ := hopens.net hrun
    obtain ⟨hvalid, hlive, -, -⟩ := hmeets.of_ok (congrArg Outcome.result hrun)
    refine .made ⟨⟨_, new_sound hvalid hlive⟩, hkeeps, fewEntries_empty⟩ (fun g => ?_) hmodest
    rw [hnet g]
    show ((p.charge g : Nat) : Int) = (p.charge g + sumOver (fun _ => none) _ : Nat)
    rw [sumOver_empty, Nat.add_zero]

theorem opens [Host] (config : PoolConfig) :
    account.Opens (do return Estate.new (← Pool.create config)) := by
  refine (leaves_bind ..).mpr ((new_books config).imp fun r es _ hbooks => ?_)
  cases r with
  | error fault => exact hbooks
  | ok p =>
    show account.optional.Books none (es ++ []) (some (new p))
    rw [List.append_nil]
    exact hbooks

theorem closes (hidle : ∀ k, e.lanes k = none) (hlt : ∀ g, account.charge e g < 2 ^ 63) :
    account.optional.Books (some e) e.pool.closing none := by
  have hlanes : e.lanes = fun _ => none := funext hidle
  have hcharge : ∀ g, account.charge e g = Pool.account.charge e.pool g := fun g => by
    show Pool.account.charge e.pool g + sumOver e.lanes _ = _
    rw [hlanes, sumOver_empty, Nat.add_zero]
  intro he
  obtain ⟨hnet, hmodest⟩ := Pool.closes.net (he e rfl).2.1 fun g => hcharge g ▸ hlt g
  refine ⟨account.keeps_none, fun g => ?_, hmodest⟩
  show (0 : Int) = (account.charge e g : Nat) + _
  rw [hnet, hcharge]
  omega

end Estate

end SlotArena
