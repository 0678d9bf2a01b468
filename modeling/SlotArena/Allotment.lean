import SlotArena.Pool

/-!
Allotments: slots of one size that are set aside from a pool in advance, so that taking one cannot
fail on growth.  The slots stay live in the pool; those that nobody has taken wait on a chain of the
allotment's own, threaded through the pool's records.
-/

namespace SlotArena

structure Allotment where
  /-- Slots that nobody has taken. -/
  spare : Chain
  /-- The size asked for. -/
  size : Nat
  /-- The size that slots of that size have. -/
  slotSize : Nat
  /-- Slots set aside. -/
  count : Nat
  deriving DecidableEq, Repr, Inhabited

namespace Allotment

variable [Host]

def onAllotment {α : Type} : Act Allotment α → Act (Allotment × Pool) α :=
  Act.focus Prod.fst fun s t => (t, s.2)

def onPool {α : Type} : Act Pool α → Act (Allotment × Pool) α :=
  Act.focus Prod.snd fun s t => (s.1, t)

def pushFree (idx : Nat) : Act (Allotment × Pool) Unit := do
  let chain ← onPool (Pool.onRoster ((← Act.get).1.spare.push idx 1))
  onAllotment (Act.modify fun a => { a with spare := chain })

def popFree : Act (Allotment × Pool) (Option Nat) := do
  let (top, chain) ← onPool (Pool.onRoster (← Act.get).1.spare.pop)
  onAllotment (Act.modify fun a => { a with spare := chain })
  return top

/-! ### Taking and putting back -/

def alloc : Act (Allotment × Pool) (Option Slot) := do
  match ← popFree with
  | none => return none
  | some idx => return some (← onPool (Pool.slotAt idx))

/-- Puts a slot back.  All that is checked is that the slot agrees with a record of the pool and has
the size of the allotment. -/
def free (slot : Slot) : Act (Allotment × Pool) Unit := do
  let (a, p) ← Act.get
  Act.ensure (slot.idx ≠ noIndex ∧ slot.idx < p.roster.length ∧ slot.size = a.slotSize)
    (.notOfAllotment slot)
  let v ← onPool (Pool.onRoster (Roster.get slot.idx))
  Act.ensure (v.offset = slot.offset ∧ v.size = slot.size) (.recordMismatch slot)
  pushFree slot.idx

/-! ### Making and giving up -/

/-- Returns the slots on the chain to the pool and answers how many there were, `returned` of them
so far. -/
def returnFree : (fuel : Nat) → (returned : Nat) → Act (Allotment × Pool) Nat
  | 0, _ => Act.fail .stuck
  | fuel + 1, returned => do
      match ← popFree with
      | none => return returned
      | some idx =>
          onPool (do Pool.free (← Pool.slotAt idx))
          returnFree fuel (returned + 1)

/-- Returns the slots that nobody has taken; those still taken stay live in the pool.  Between two
slots that leave the live ones the chain visits every record at most once, which bounds it. -/
def release : Act (Allotment × Pool) Unit := do
  let (a, p) ← Act.get
  let returned ← returnFree ((p.live.size + 1) * (p.roster.length + 2)) 0
  if returned ≠ a.count then Act.note (.allotmentShort returned a.count)

def gather : (n : Nat) → Act (Allotment × Pool) Unit
  | 0 => pure ()
  | n + 1 => do
      let a := (← Act.get).1
      let slot ← onPool (Pool.alloc a.size (min 64 (ceilPow2 a.size)))
      Act.ensure (slot.size = a.slotSize) (.disagreement .allottedSize slot.size a.slotSize)
      pushFree slot.idx
      onAllotment (Act.modify fun a => { a with count := a.count + 1 })
      gather n

/-- Sets `count` slots of `size` bytes aside.  If the pool cannot supply them, those obtained so far
go back. -/
def create (count size : Nat) : Act Pool Allotment := do
  Act.ensure (0 < size) .allotmentOfNothing
  let slotSize ← Act.roundToPow2 word32 (max size SizeClass.least)
  let build : Act (Allotment × Pool) Allotment := do
    match ← (gather count).attempt with
    | .ok () => return (← Act.get).1
    | .error e =>
        release
        Act.fail e
  -- Of an allotment that could not be filled only the pool is left.
  fun pool =>
    let o := build.run (⟨.empty, size, slotSize, 0⟩, pool)
    ⟨o.result, o.state.2, o.events⟩

end Allotment

end SlotArena
