import SlotArena.Word

/-!
The address space set aside around an origin, and how it is filled.  An extent is fixed when a
window is made; the window then grows inside it, on either side of the origin, by one of two
strategies.
-/

namespace SlotArena

/-- The two directions away from the origin. -/
inductive Side
  | front
  | back
  deriving DecidableEq, Repr, Inhabited

def Side.label : Side → String
  | .front => "Front"
  | .back => "Back"

inductive Strategy
  /-- A sparse backing as large as the extent; each growth shows it through a new, wider view. -/
  | remap
  /-- One reservation whose base never moves; each growth commits the pieces next to the old
  window. -/
  | pinned
  deriving DecidableEq, Repr, Inhabited

namespace Strategy

def label : Strategy → String
  | .remap => "Remap"
  | .pinned => "Pinned"

/-- Whether the host offers the strategy: it has both reservations and shared backings. -/
def isAvailable : Strategy → Bool
  | .remap => true
  | .pinned => true

/-- The strategy taken when none is asked for: remapping where the host offers it. -/
def preferred : Strategy := if isAvailable .remap then .remap else .pinned

end Strategy

/-- What a window is used for, which decides the gauge it charges. -/
inductive Purpose
  | arena
  | roster
  deriving DecidableEq, Repr, Inhabited

def Purpose.label : Purpose → String
  | .arena => "BlockPool"
  | .roster => "StateTable"

/-- Bytes of address space below and above the origin. -/
structure Extent where
  back : Nat
  front : Nat
  deriving DecidableEq, Repr, Inhabited

namespace Extent

def frontOnly (size : Nat) : Extent := ⟨0, size⟩

/-- Split evenly; of an odd size the front has the larger half. -/
def centered (size : Nat) : Extent := ⟨size / 2, size - size / 2⟩

def total (e : Extent) : Nat := e.back + e.front

def Aligned (e : Extent) : Prop := pageSize ∣ e.back ∧ pageSize ∣ e.front

instance : DecidablePred Aligned := fun e =>
  inferInstanceAs (Decidable (pageSize ∣ e.back ∧ pageSize ∣ e.front))

def text (e : Extent) : String := s!"Reservation \x7b back: {e.back}, front: {e.front} \x7d"

@[simp] theorem total_frontOnly (size : Nat) : (frontOnly size).total = size := by
  simp [frontOnly, total]

@[simp] theorem total_centered (size : Nat) : (centered size).total = size := by
  simp only [centered, total]
  omega

end Extent

end SlotArena
