import SlotArena.Word
import Std.Data.TreeMap

/-!
Record storage.  The first `filled` records have been started: each of them was given its own index
and nothing else, and keeps what was put into it since.  Storage past them reads as zero unless
somebody wrote there early; starting a record wipes what was written early.

Records are started in order, so `extend` is not told where to begin: it goes on after the last one.
-/

namespace SlotArena

/-- What the roster remembers of a slot. -/
structure Record where
  /-- The link word for chains. -/
  next : Nat
  idx : Nat
  offset : Int
  size : Nat
  deriving DecidableEq, Repr, Inhabited

namespace Record

def blank : Record := ⟨0, 0, 0, 0⟩

def fresh (idx : Nat) : Record := ⟨noIndex, idx, 0, 0⟩

end Record

structure Records where
  /-- How many records have been started. -/
  filled : Nat
  /-- Started records that differ from how they started out. -/
  edits : Std.TreeMap Nat Record
  /-- Storage that was written before its record was started. -/
  early : Std.TreeMap Nat Record
  edits_lt : ∀ i, i ∈ edits → i < filled

namespace Records

def empty : Records := ⟨0, ∅, ∅, fun i h => absurd h (by simp)⟩

def get (r : Records) (i : Nat) : Record :=
  if i < r.filled then r.edits.getD i (.fresh i) else r.early.getD i .blank

def extend (r : Records) (count : Nat) : Records where
  filled := r.filled + count
  edits := r.edits
  early := r.early
  edits_lt i h := Nat.lt_of_lt_of_le (r.edits_lt i h) (Nat.le_add_right _ _)

def set (r : Records) (i : Nat) (v : Record) : Records :=
  if h : i < r.filled then
    { r with
      edits := r.edits.insert i v
      edits_lt := fun j hj => by
        rw [Std.TreeMap.mem_insert] at hj
        rcases hj with hj | hj
        · have := Std.LawfulEqCmp.compare_eq_iff_eq.mp hj
          omega
        · exact r.edits_lt j hj }
  else { r with early := r.early.insert i v }

@[simp] theorem filled_set (r : Records) (i : Nat) (v : Record) :
    (r.set i v).filled = r.filled := by
  unfold set
  split <;> rfl

@[simp] theorem filled_extend (r : Records) (count : Nat) :
    (r.extend count).filled = r.filled + count := rfl

theorem get_set (r : Records) (i j : Nat) (v : Record) :
    (r.set i v).get j = if i = j then v else r.get j := by
  unfold set
  split
  · rename_i h
    by_cases hij : i = j
    · subst hij
      simp [get, h]
    · simp [get, hij, Std.TreeMap.getD_insert]
  · rename_i h
    by_cases hij : i = j
    · subst hij
      simp [get, h]
    · simp [get, hij, Std.TreeMap.getD_insert]

theorem get_extend_of_lt (r : Records) (count : Nat) {i : Nat} (h : i < r.filled) :
    (r.extend count).get i = r.get i := by
  have : i < r.filled + count := by omega
  simp [get, extend, h, this]

theorem get_extend_of_ge (r : Records) (count : Nat) {i : Nat} (h : r.filled ≤ i)
    (h' : i < r.filled + count) : (r.extend count).get i = .fresh i := by
  have hi : i ∉ r.edits := fun hm => by
    have := r.edits_lt i hm
    omega
  simp [get, extend, h', Std.TreeMap.getD_eq_fallback hi]

end Records

end SlotArena
