import SlotArena.Act

/-!
Size classes.  Every slot above the origin has one of sixteen sizes, the powers of two from 64 bytes
to 2 MiB; a request is served from the least class that holds it.
-/

namespace SlotArena

abbrev classCount : Nat := 16

abbrev SizeClass : Type := Fin classCount

namespace SizeClass

def leastLog2 : Nat := 6

def largestLog2 : Nat := 21

def least : Nat := 2 ^ leastLog2

def largest : Nat := 2 ^ largestLog2

def bytes (c : SizeClass) : Nat := 2 ^ (c.val + leastLog2)

/-- The number of the class that holds a slot of a power of two bytes. -/
def indexOf (size : Nat) : Nat := max size.log2 leastLog2 - leastLog2

/-- The least class that holds `size` bytes. -/
def holding {σ : Type} (size : Nat) : Act σ SizeClass := do
  let rounded ← Act.roundToPow2 word32 size
  if h : indexOf rounded < classCount then return ⟨indexOf rounded, h⟩
  else Act.violate (.noSuchClass classCount (indexOf rounded))

def above (c : SizeClass) : List SizeClass := (List.finRange classCount).filter (c < ·)

def IsSize (size : Nat) : Prop := PowerOfTwo size ∧ least ≤ size ∧ size ≤ largest

instance : DecidablePred IsSize := fun _ => inferInstanceAs (Decidable (_ ∧ _ ∧ _))

theorem isSize_bytes (c : SizeClass) : IsSize c.bytes := by
  refine ⟨powerOfTwo_pow _, ?_, ?_⟩
  · exact Nat.pow_le_pow_right (by decide) (by simp [leastLog2])
  · have h := c.isLt
    simp only [classCount] at h
    exact Nat.pow_le_pow_right (by decide) (by simp only [leastLog2, largestLog2]; omega)

end SizeClass

end SlotArena
