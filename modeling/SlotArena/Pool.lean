import SlotArena.Arena
import SlotArena.Roster
import SlotArena.SizeClass
import Std.Data.TreeSet

/-!
Slot pools.  A pool hands out slots of power-of-two sizes above the origin and slots of one block
below it.  Every slot has a record in the roster; a free slot waits on the chain of its size class,
threaded through the records.  A request that finds its own chain empty takes a slot of a larger
class and gives back what it does not need in smaller pieces; if there is none, it carves fresh
memory from the block that its class is using up, and takes a new block from the arena when that is
empty.

The pool knows which records are in somebody's hands, so that a slot that is returned twice or
handed out twice is noticed.
-/

namespace SlotArena

/-! ### Pools -/

structure PoolConfig where
  /-- The granularity of fresh memory, and the size of every slot below the origin. -/
  blockSize : Nat := 4096
  /-- The device address of the origin. -/
  base : Nat := 0
  arena : ArenaConfig := {}
  /-- The most slots that the pool will ever know, live or free. -/
  capacity : Nat := 2 ^ 20
  deriving DecidableEq, Repr, Inhabited

def PoolConfig.text (c : PoolConfig) : String :=
  s!"StatePoolConfig \x7b block_size: {c.blockSize}, base_address: {c.base}, " ++
    s!"block_pool: {c.arena.text}, table_capacity: {c.capacity} \x7d"

/-- What a size class has at hand. -/
structure Bucket where
  /-- Free slots of the class. -/
  free : Chain
  /-- The offsets left of the block that the class carves slots from. -/
  carve : Cursor
  deriving DecidableEq, Repr, Inhabited

structure Pool where
  arena : Arena
  roster : Roster
  buckets : Vector Bucket classCount
  /-- Free slots below the origin. -/
  backFree : Chain
  blockSize : Nat
  base : Nat
  /-- Bytes given up for good. -/
  leaked : Nat
  /-- The number of slots handed out. -/
  liveCount : Nat
  /-- The records whose slots are handed out. -/
  live : Std.TreeSet Nat

namespace Pool

variable [Host]

def text (p : Pool) : String :=
  s!"StatePool \x7b block_size: {p.blockSize}, base_address: {p.base}, .. \x7d"

def bucket (p : Pool) (c : SizeClass) : Bucket := p.buckets[c]

def address (p : Pool) (offset : Int) : Nat := ((p.base + offset) % word64).toNat

def create (config : PoolConfig) : Act Unit Pool := do
  Act.ensure (SizeClass.IsSize config.blockSize) (.poolBlockSize config.blockSize)
  let arena ← Arena.create config.arena
  match ← (Roster.create (min config.capacity 1024) config.capacity config.arena.strategy).attempt
  with
  | .error e =>
      -- The arena was made already and has to be given up again.
      Act.emit arena.closing
      Act.fail e
  | .ok roster =>
      Act.note (.poolMade config.blockSize config.base config.arena.strategy)
      return {
        arena, roster
        buckets := Vector.replicate classCount ⟨.empty, .empty⟩
        backFree := .empty
        blockSize := config.blockSize
        base := config.base
        leaked := 0
        liveCount := 0
        live := ∅ }

def closing (p : Pool) : List Event :=
  (if 0 < p.liveCount then [.note (.poolDropped p.liveCount), .lower .live p.liveCount] else []) ++
    p.arena.closing ++ p.roster.closing

/-! ### Parts -/

def onArena {α : Type} : Act Arena α → Act Pool α :=
  Act.focus Pool.arena fun p a => { p with arena := a }

def onRoster {α : Type} : Act Roster α → Act Pool α :=
  Act.focus Pool.roster fun p r => { p with roster := r }

def onWindow {α : Type} (x : Act Window α) : Act Pool α := onArena (Arena.onWindow x)

def withBucket (p : Pool) (c : SizeClass) (b : Bucket) : Pool :=
  { p with buckets := p.buckets.set c b }

def onCarve {α : Type} (c : SizeClass) : Act Cursor α → Act Pool α :=
  Act.focus (fun p => (p.bucket c).carve) fun p cur =>
    p.withBucket c { p.bucket c with carve := cur }

def pushFree (c : SizeClass) (first count : Nat) : Act Pool Unit := do
  let chain ← onRoster (((← Act.get).bucket c).free.push first count)
  Act.modify fun p => p.withBucket c { p.bucket c with free := chain }

def popFree (c : SizeClass) : Act Pool (Option Nat) := do
  if ((← Act.get).bucket c).free.IsEmpty then return none
  let (top, chain) ← onRoster ((← Act.get).bucket c).free.pop
  Act.modify fun p => p.withBucket c { p.bucket c with free := chain }
  return top

def pushBack (idx : Nat) : Act Pool Unit := do
  let chain ← onRoster ((← Act.get).backFree.push idx 1)
  Act.modify fun p => { p with backFree := chain }

def popBack : Act Pool (Option Nat) := do
  let (top, chain) ← onRoster (← Act.get).backFree.pop
  Act.modify fun p => { p with backFree := chain }
  return top

/-! ### Handing out -/

def slotAt (idx : Nat) : Act Pool Slot := do
  let v ← onRoster (Roster.get idx)
  let place ← onArena (Arena.place v.offset)
  return ⟨v.offset, v.size, some place, idx⟩

/-- Marks a record as handed out and answers its slot. -/
def handOut (idx : Nat) : Act Pool Slot := do
  Act.ensure (¬ (← Act.get).live.contains idx) (.handedOutTwice idx)
  Act.modify fun p => { p with live := p.live.insert idx, liveCount := p.liveCount + 1 }
  Act.emit [.raise .live 1]
  slotAt idx

/-! ### Giving memory to the pool -/

def leak (bytes : Nat) (offset : Int) : Act Pool Unit := do
  Act.modify fun p => { p with leaked := p.leaked + bytes }
  Act.note (.leaked bytes offset)

/-- Adds `count` consecutive pieces of `size` bytes from `offset` on as free slots. -/
def returnBlocks (offset : Int) (count size : Nat) : Act Pool Unit := do
  if count = 0 then return
  Act.ensure (SizeClass.IsSize size) (.pieceSize size)
  -- Pieces larger than a block start at any block.
  let unit := min size (← Act.get).blockSize
  Act.ensure (0 ≤ offset ∧ unit ∣ offset.toNat) (.pieceUnaligned offset size)
  let first ← onRoster (Roster.add count)
  Act.sweep 0 count fun i => do
    let start ← Act.addSigned offset (asSigned (← Act.mulWord i size))
    onRoster (Roster.assign (first + i) start size)
  pushFree (← SizeClass.holding size) first count

/-- Returns as many pieces of `size` bytes as fit, from the high end of the `remaining` bytes at
`offset`, and answers how many bytes are left at the low end.  If the roster is full, all of the
remaining bytes are given up. -/
def peel (offset : Int) (remaining size : Nat) : Act Pool Nat := do
  if remaining / size = 0 then return remaining
  let start ← Act.addSigned offset (asSigned (remaining % size))
  match ← (returnBlocks start (remaining / size) size).attempt with
  | .ok () => return remaining % size
  | .error (.refused why) =>
      leak remaining offset
      Act.refuse why
  | .error e => Act.fail e

def peelDown (offset : Int) : (fuel : Nat) → (size remaining : Nat) → Act Pool Nat
  | 0, _, remaining => pure remaining
  | fuel + 1, size, remaining =>
      if 0 < remaining ∧ SizeClass.least ≤ size then do
        let rest ← peel offset remaining size
        peelDown offset fuel (size / 2) rest
      else pure remaining

/-- Cuts the `size` bytes at `offset` into free slots: blocks from the high end, then smaller
pieces, none of them larger than `cap` if one is given.  What is too small for a piece is given
up. -/
def splitChunk (offset : Int) (size : Nat) (cap : Option Nat) : Act Pool Unit := do
  Act.ensure (0 ≤ offset) (.backChunk offset)
  let blockSize := (← Act.get).blockSize
  let rest ← peel offset size blockSize
  let half := blockSize / 2
  let largest := min half (cap.getD half)
  let rest ← peelDown offset (largest.log2 + 1) largest rest
  if 0 < rest then leak rest offset

/-- Gives the range of `size` bytes at `offset` to the pool as free slots.  The caller owns it. -/
def returnChunk (offset : Int) (size : Nat) : Act Pool Unit := splitChunk offset size none

/-! ### Allocating -/

def firstFree (p : Pool) (classes : List SizeClass) : Option SizeClass :=
  classes.find? fun c => ¬ (p.bucket c).free.IsEmpty

def popFirst (classes : List SizeClass) : Act Pool (Option (SizeClass × Nat)) := do
  match (← Act.get).firstFree classes with
  | none => return none
  | some c => return (← popFree c).map (c, ·)

/-- Cuts the chunk of record `idx`, taken from class `from`, down to `size` bytes and returns the
rest of it. -/
def shrink (larger : SizeClass) (idx size : Nat) : Act Pool Unit := do
  let v ← onRoster (Roster.get idx)
  Act.ensure (v.size = larger.bytes) (.disagreement .chunkSize v.size larger.bytes)
  -- The low end keeps the record of the chunk; the rest gets records of its own.
  onRoster (Roster.resize idx size)
  let offset ← Act.addSigned v.offset size
  match ← (splitChunk offset (v.size - size) (some size)).attempt with
  | .ok () => return
  | .error (.refused why) => Act.note (.remainderDropped v.size why)
  | .error e => Act.fail e

/-- Fresh memory for a slot of a class: from the arena for a block or more, else from the block that
the class carves. -/
def carve (c : SizeClass) : Act Pool Int := do
  let blockSize := (← Act.get).blockSize
  if blockSize ≤ c.bytes then onArena (Arena.alloc c.bytes)
  else
    match ← onCarve c (Cursor.reserve c.bytes) with
    | .fits offset => return asSigned offset
    | .wait _ => Act.fail .stuck
    | .mustGrow before =>
        match ← (onArena (Arena.alloc blockSize)).attempt with
        | .ok block =>
            -- The first piece of the block is the claim that asked for it.
            let next ← Act.addWord (asUnsigned block) c.bytes
            let stop ← Act.addWord (asUnsigned block) blockSize
            let _ ← onCarve c (Cursor.publish ⟨next, stop⟩)
            return block
        | .error (.refused why) =>
            let _ ← onCarve c (Cursor.publish before)
            Act.refuse why
        | .error e => Act.fail e

/-- Gives fresh memory a record.  If the roster is full, the memory is given up. -/
def enroll (offset : Int) (size : Nat) : Act Pool Nat := do
  match ← (onRoster (Roster.add 1)).attempt with
  | .ok idx =>
      onRoster (Roster.assign idx offset size)
      return idx
  | .error (.refused why) =>
      Act.modify fun p => { p with leaked := p.leaked + size }
      Act.refuse why
  | .error e => Act.fail e

def alloc (size align : Nat) : Act Pool Slot := do
  if size = 0 then return .null
  let blockSize := (← Act.get).blockSize
  Act.ensure (PowerOfTwo align ∧ align ≤ blockSize) (.slotAlignment align blockSize)
  Act.ensure (max size align ≤ SizeClass.largest) (.slotTooLarge size SizeClass.largest)
  let c ← SizeClass.holding (max size align)
  match ← popFree c with
  | some idx => handOut idx
  | none =>
      match ← popFirst c.above with
      | some (larger, idx) =>
          shrink larger idx c.bytes
          handOut idx
      | none =>
          let offset ← carve c
          handOut (← enroll offset c.bytes)

def allocBack : Act Pool Slot := do
  match ← popBack with
  | some idx => handOut idx
  | none =>
      let blockSize := (← Act.get).blockSize
      let offset ← onArena (Arena.allocBack blockSize)
      handOut (← enroll offset blockSize)

/-! ### Freeing -/

/-- Takes a slot back.  A null slot needs no taking back. -/
def free (slot : Slot) : Act Pool Unit := do
  if slot.IsNull then return
  let p ← Act.get
  Act.ensure (slot.idx ≠ noIndex ∧ slot.idx < p.roster.length) (.foreignSlot slot)
  Act.ensure (p.live.contains slot.idx) (.doubleFree slot.idx slot.offset)
  -- From here on the slot counts as taken back, also where its record turns out not to agree.
  Act.modify fun p => { p with live := p.live.erase slot.idx }
  let v ← onRoster (Roster.get slot.idx)
  Act.ensure (v.offset = slot.offset) (.disagreement .recordOffset v.offset slot.offset)
  Act.ensure (v.size = slot.size) (.disagreement .recordSize v.size slot.size)
  Act.modify fun p => { p with liveCount := p.liveCount - 1 }
  Act.emit [.lower .live 1]
  if slot.offset < 0 then
    Act.ensure (slot.size = p.blockSize) (.disagreement .backSlotSize slot.size p.blockSize)
    pushBack slot.idx
  else pushFree (← SizeClass.holding slot.size) slot.idx 1

end Pool

end SlotArena
