import SlotArena.Pool

/-!
Streams: many small slots that die together.  A stream takes whole blocks from a pool and bumps
through them; its slots are never returned one by one, the blocks go back in one pass.  The blocks
are chained through a header at the start of each, which holds the record of the block before it.
-/

namespace SlotArena

structure Stream where
  /-- The least size of its blocks. -/
  blockSize : Nat
  /-- The newest block. -/
  block : Slot
  /-- Bytes of the newest block that are used up, header included. -/
  next : Nat
  /-- Blocks held. -/
  blocks : Nat
  /-- Bytes handed out, padding not counted. -/
  total : Nat
  deriving DecidableEq, Repr, Inhabited

namespace Stream

variable [Host]

/-- Bytes at the start of every block that belong to the chain. -/
def headerSize : Nat := 8

def AdmitsBlock (size : Nat) : Prop := PowerOfTwo size ∧ SizeClass.least ≤ size

instance : DecidablePred AdmitsBlock := fun _ => inferInstanceAs (Decidable (_ ∧ _))

def create {σ : Type} (blockSize : Nat) : Act σ Stream := do
  Act.ensure (AdmitsBlock blockSize) (.streamBlockSize blockSize SizeClass.least)
  return ⟨blockSize, .null, 0, 0, 0⟩

/-- The record that the header of the block before it is to hold. -/
def previous (s : Stream) : Nat := if s.block.IsNull then noIndex else s.block.idx

/-- The newest block has `size` bytes left from `offset` on, and `offset` is aligned in the pool. -/
def Fits (s : Stream) (offset size align : Nat) : Prop :=
  ¬ s.block.IsNull ∧ align ∣ asUnsigned s.block.offset ∧ offset + size ≤ s.block.size

instance (s : Stream) (offset size align : Nat) : Decidable (s.Fits offset size align) :=
  inferInstanceAs (Decidable (_ ∧ _ ∧ _))

def onStream {α : Type} : Act Stream α → Act (Stream × Pool) α :=
  Act.focus Prod.fst fun s t => (t, s.2)

def onPool {α : Type} : Act Pool α → Act (Stream × Pool) α :=
  Act.focus Prod.snd fun s t => (s.1, t)

def writeHeader (block : Slot) (previous : Nat) : Act Pool Unit :=
  match block.place with
  | some p => Pool.onWindow (Window.copy p (wordBytes previous))
  | none => pure ()

def readHeader (block : Slot) : Act Pool Nat := do
  let w := (← Act.get).arena.window
  return wordOfBytes (w.load (block.place.getD (w.place block.offset)) 4)

def enter (block : Slot) : Act Stream Unit := do
  Act.modify fun s => { s with block := block }
  let blocks ← Act.addSize (← Act.get).blocks 1
  Act.modify fun s => { s with blocks := blocks }

/-- Takes a block of `size` bytes from the pool and chains it to the newest one. -/
def startBlock (size align : Nat) : Act (Stream × Pool) Unit := do
  let block ← onPool (Pool.alloc size (max align SizeClass.least))
  let s := (← Act.get).1
  onPool (writeHeader block s.previous)
  Act.note (.streamBlock s.blocks block.offset size)
  onStream (enter block)
  Act.emit [.raise .streamBlocks 1]

/-- Uses up the newest block as far as `next`, of which `size` bytes are handed out. -/
def advance (next size : Nat) : Act Stream Unit := do
  Act.modify fun s => { s with next := next }
  let total ← Act.addSize (← Act.get).total size
  Act.modify fun s => { s with total := total }

def cut (offset size : Nat) : Act Stream Slot := do
  advance (offset + size) size
  let block := (← Act.get).block
  let start ← Act.addSigned block.offset (asSigned offset)
  return ⟨start, size, block.place.map fun p => { p with offset := p.offset + offset }, noIndex⟩

/-- `size` bytes aligned to `align`, from the newest block if they fit and else from a new one. -/
def alloc (size align : Nat) : Act (Stream × Pool) Slot := do
  if size = 0 then return .null
  let (s, p) ← Act.get
  Act.ensure (PowerOfTwo align ∧ align ≤ p.blockSize) (.streamAlignment align p.blockSize)
  let next ← Act.roundWord s.next align
  let fits := s.Fits next size align
  let offset := if fits then next else roundUp headerSize align
  if ¬ fits then
    -- What is left of the newest block stays unused until the stream ends.
    let rounded ← Act.roundToPow2 word32 (← Act.addWord offset size)
    startBlock (max s.blockSize rounded) align
  onStream (cut offset size)

/-- Returns a block and those chained before it, newest first.  Every block that goes back leaves
the live slots, so `fuel` bounds the chain. -/
def releaseFrom : (fuel : Nat) → Slot → Act Pool Unit
  | 0, _ => Act.fail .stuck
  | fuel + 1, block => do
      if block.IsNull then return
      -- The header is gone once somebody else may write to the block.
      let previous ← readHeader block
      Pool.free block
      Act.emit [.lower .streamBlocks 1]
      if previous = noIndex then return
      releaseFrom fuel (← Pool.slotAt previous)

def release (s : Stream) : Act Pool Unit := do
  releaseFrom ((← Act.get).live.size + 1) s.block

end Stream

end SlotArena
