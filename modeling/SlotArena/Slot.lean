import SlotArena.Word

/-!
Slots: what the pool hands out.  A slot is a plain handle, a range of offsets together with the
record that remembers it and the place it is reached through.
-/

namespace SlotArena

/-- A pointer into a window: an offset seen through the window's view number `view`.  Views are
numbered from zero in the order in which they were made. -/
structure Place where
  view : Nat
  offset : Int
  deriving DecidableEq, Repr, Inhabited

/-- A range of pool memory in somebody's hands. -/
structure Slot where
  /-- First byte of the range, relative to the origin. -/
  offset : Int
  size : Nat
  /-- The pointer it was handed out with; a slot spelled out by hand has none. -/
  place : Option Place
  /-- The record of the slot, or `noIndex`. -/
  idx : Nat
  deriving DecidableEq, Repr, Inhabited

namespace Slot

/-- The answer to an empty request. -/
def null : Slot := ⟨0, 0, none, noIndex⟩

def IsNull (s : Slot) : Prop := s.size = 0

instance : DecidablePred IsNull := fun s => inferInstanceAs (Decidable (s.size = 0))

/-- The listing of a slot, with its address left out. -/
def text (s : Slot) : String :=
  s!"State \x7b offset: {s.offset}, alloc_size: {s.size}, map: <ptr>, idx: {s.idx} \x7d"

def stop (s : Slot) : Int := s.offset + s.size

@[simp] theorem isNull_null : null.IsNull := rfl

end Slot

end SlotArena
