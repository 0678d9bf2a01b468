import SlotArena.Extent
import SlotArena.Slot

/-!
Why an operation stops.  There are three reasons: the allocator refuses, and says what it ran out
of; the caller or a record broke a contract; or the call would wait for somebody who never comes.
A reason is data, and each family of reasons has one function that words it.
-/

namespace SlotArena

/-! ### Refusals -/

inductive HostCause
  | outOfMemory
  | invalidArgument
  | other (text : String)
  deriving DecidableEq, Repr, Inhabited

def HostCause.message : HostCause → String
  | .outOfMemory => "Cannot allocate memory (os error 12)"
  | .invalidArgument => "Invalid argument (os error 22)"
  | .other text => text

inductive HostError
  | reservation (cause : HostCause)
  | commit (cause : HostCause)
  | release (cause : HostCause)
  | initialization (why : String)
  deriving DecidableEq, Repr, Inhabited

namespace HostError

def message : HostError → String
  | .reservation cause => "VM reservation failed: " ++ cause.message
  | .commit cause => "VM commit failed: " ++ cause.message
  | .release cause => "VM release failed: " ++ cause.message
  | .initialization why => "VM initialization failed: " ++ why

/-- The host's answer behind the error, if a call was made at all. -/
def cause? : HostError → Option HostCause
  | .reservation cause | .commit cause | .release cause => some cause
  | .initialization _ => none

/-- The wording of what lies behind the error. -/
def sources (e : HostError) : List String := (e.cause?.map HostCause.message).toList

end HostError

inductive Refusal
  /-- The first window could not be set up. -/
  | initialization (cause : HostError)
  /-- The host did not let a window grow. -/
  | growth (cause : HostError)
  /-- One side would have to span `requested` bytes of `reserved`. -/
  | outOfReservedSpace (requested reserved : Nat)
  /-- The roster would have to hold `requested` records of `capacity`. -/
  | outOfTableSpace (requested capacity : Nat)
  deriving DecidableEq, Repr, Inhabited

namespace Refusal

def message : Refusal → String
  | .initialization cause => "pool initialization failed: " ++ cause.message
  | .growth cause => "pool growth failed: " ++ cause.message
  | .outOfReservedSpace requested reserved =>
      s!"out of reserved space: need {requested} bytes, {reserved} bytes reserved"
  | .outOfTableSpace requested capacity =>
      s!"state table exhausted: need {requested} entries, capacity {capacity}"

/-- The wording of what lies behind the refusal, outermost first. -/
def sources : Refusal → List String
  | .initialization cause | .growth cause => cause.message :: cause.sources
  | .outOfReservedSpace _ _ | .outOfTableSpace _ _ => []

/-- The refusal means that memory ran out, which can happen at any time; a failed initialization
happens only when a pool is made. -/
def isExhaustion : Refusal → Bool
  | .initialization _ => false
  | _ => true

end Refusal

/-! ### Violations -/

inductive Arithmetic
  | add
  | subtract
  | multiply
  deriving DecidableEq, Repr, Inhabited

def Arithmetic.label : Arithmetic → String
  | .add => "add"
  | .subtract => "subtract"
  | .multiply => "multiply"

/-- The pairs of values that are compared with each other where they must agree. -/
inductive Agreement
  /-- A chunk taken from a larger class has the size of that class. -/
  | chunkSize
  /-- A returned slot has the offset of its record. -/
  | recordOffset
  /-- A returned slot has the size of its record. -/
  | recordSize
  /-- A slot below the origin is exactly one block. -/
  | backSlotSize
  /-- A slot set aside has the size of its allotment. -/
  | allottedSize
  deriving DecidableEq, Repr, Inhabited

def Agreement.note : Agreement → String
  | .backSlotSize => ": back state must be exactly one block"
  | _ => ""

/-- A broken contract.  The operation stops where it is, and what it did before stays done. -/
inductive Violation
  | overflow (op : Arithmetic)
  | disagreement (what : Agreement) (left right : Int)
  /-- A bump carried out of the lower half of a cursor into the upper one. -/
  | cursorOverflow
  | cursorTooNarrow (bytes : Nat)
  | extentUnaligned (e : Extent)
  | windowEmpty
  | windowShrinksBack
  | windowShrinksFront
  | windowUnaligned (center size : Nat)
  | pinnedWindowShrinks
  | viewOutsideBacking (offset size backing : Nat)
  | arenaExtent (size : Nat)
  | arenaBlockSize (side : Side) (size : Nat)
  /-- An arena grows without a window to grow from. -/
  | growthOfNothing
  /-- The back side grows although nothing is claimed there. -/
  | growthUnclaimed
  | belowBackRegion (offset : Int)
  | rosterCapacity (initial capacity : Nat)
  | emptyAddition
  | neverAdded (idx : Nat)
  | emptyRun
  | runTooLong
  | pageUnaligned
  | poolBlockSize (size : Nat)
  | slotAlignment (align blockSize : Nat)
  | slotTooLarge (size largest : Nat)
  | noSuchClass (classes idx : Nat)
  | foreignSlot (slot : Slot)
  | doubleFree (idx : Nat) (offset : Int)
  | backChunk (offset : Int)
  | pieceSize (size : Nat)
  | pieceUnaligned (offset : Int) (size : Nat)
  | handedOutTwice (idx : Nat)
  | streamBlockSize (size least : Nat)
  | streamAlignment (align blockSize : Nat)
  | allotmentOfNothing
  | notOfAllotment (slot : Slot)
  | recordMismatch (slot : Slot)
  deriving DecidableEq, Repr, Inhabited

def Violation.message : Violation → String
  | .overflow op => s!"attempt to {op.label} with overflow"
  | .disagreement what left right =>
      s!"assertion `left == right` failed{what.note}\n  left: {left}\n right: {right}"
  | .cursorOverflow => "block cursor overflowed into its end field"
  | .cursorTooNarrow bytes => s!"{bytes} does not fit a block cursor"
  | .extentUnaligned e => s!"reservation {e.text} is not page aligned"
  | .windowEmpty => "GrowableMapping needs a non-zero initial size"
  | .windowShrinksBack => "GrowableMapping::expand_range would shrink the back side"
  | .windowShrinksFront => "GrowableMapping::expand_range would shrink the front side"
  | .windowUnaligned center size =>
      s!"GrowableMapping::expand_range window ({center}, {size}) is not page aligned"
  | .pinnedWindowShrinks => "pinned window may only grow"
  | .viewOutsideBacking offset size backing =>
      s!"SharedBacking::map out of range: offset {offset} size {size} backing {backing}"
  | .arenaExtent size =>
      s!"BlockPool max_size {size} must be a power of two between {2 * pageSize} and {word32}"
  | .arenaBlockSize .front size => s!"BlockPool::alloc of {size} bytes"
  | .arenaBlockSize .back size => s!"BlockPool::alloc_back of {size} bytes"
  | .growthOfNothing => "assertion failed: old_size > 0"
  | .growthUnclaimed => "assertion failed: side == Side::Front || back_used > 0"
  | .belowBackRegion offset => s!"offset {offset} lies below the mapped back region"
  | .rosterCapacity initial capacity => s!"StateTable sized {initial}/{capacity} entries"
  | .emptyAddition => "StateTable::add of zero entries"
  | .neverAdded idx => s!"state index {idx} was never added"
  | .emptyRun => "FreeList::push of an empty run"
  | .runTooLong => "FreeList::push run overflows the index space"
  | .pageUnaligned => "PtrFreeList::push of unaligned block <ptr>"
  | .poolBlockSize size =>
      s!"StatePool block_size {size} must be a power of two in [64, 2097152]"
  | .slotAlignment align blockSize =>
      s!"state alignment {align} must be a power of two no larger than {blockSize}"
  | .slotTooLarge size largest =>
      s!"state of {size} bytes exceeds the largest bucket ({largest})"
  | .noSuchClass classes idx =>
      s!"index out of bounds: the len is {classes} but the index is {idx}"
  | .foreignSlot slot => s!"state {slot.text} was not allocated from this pool"
  | .doubleFree idx offset => s!"double free of state {idx} at offset {offset}"
  | .backChunk offset => s!"return_chunk of back range at {offset}"
  | .pieceSize size => s!"return_blocks of {size}-byte pieces"
  | .pieceUnaligned offset size =>
      s!"return_blocks offset {offset} is not aligned for {size}-byte pieces"
  | .handedOutTwice idx => s!"state {idx} handed out twice"
  | .streamBlockSize size least =>
      s!"StateStream block_size {size} must be a power of two of at least {least}"
  | .streamAlignment align blockSize =>
      s!"stream alignment {align} must be a power of two no larger than {blockSize}"
  | .allotmentOfNothing => "ReservedStatePool of zero-size states"
  | .notOfAllotment slot => s!"state {slot.text} does not belong to this reservation"
  | .recordMismatch slot => s!"state {slot.text} does not match its pool record"

/-! ### Faults -/

inductive Fault
  | refused (why : Refusal)
  | violated (what : Violation)
  /-- The call would never return: it waits for a growth that nobody is doing. -/
  | stuck
  deriving DecidableEq, Repr, Inhabited

/-- Answers are compared where a run is evaluated. -/
instance decidableEqAnswer {ε α : Type} [DecidableEq ε] [DecidableEq α] : DecidableEq (Except ε α)
  | .ok a, .ok b => decidable_of_iff (a = b) ⟨congrArg _, Except.ok.inj⟩
  | .error e, .error f => decidable_of_iff (e = f) ⟨congrArg _, Except.error.inj⟩
  | .ok _, .error _ => isFalse nofun
  | .error _, .ok _ => isFalse nofun

/-- Bytes on both sides of an extent, if a 64-bit word holds them. -/
def Extent.total? (e : Extent) : Except Fault Nat :=
  if e.total < word64 then .ok e.total else .error (.violated (.overflow .add))

def Fault.message : Fault → String
  | .refused why => why.message
  | .violated what => what.message
  | .stuck => "would park"

end SlotArena
