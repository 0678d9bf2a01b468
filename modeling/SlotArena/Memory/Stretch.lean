import SlotArena.Word

/-!
Stretches of memory.  A stretch of depth `d` holds the bytes of `2 ^ d` positions: it is the same
byte everywhere, or it has two halves of depth `d - 1`.  So a part that was never written to takes a
single node however long it is, and so does one that was filled at once.

The main statement is that a store laid over a stretch changes the bytes that it covers and no
others (`byteAt_overlay`).
-/

namespace SlotArena

/-! ### Stores -/

inductive Store
  /-- `size` equal bytes from `start` on. -/
  | fill (start size : Nat) (byte : UInt8)
  /-- The given bytes from `start` on. -/
  | copy (start : Nat) (source : Array UInt8)
  deriving DecidableEq, Repr

namespace Store

def start : Store → Nat
  | .fill start .. | .copy start _ => start

def size : Store → Nat
  | .fill _ size _ => size
  | .copy _ source => source.size

def stop (s : Store) : Nat := s.start + s.size

def Covers (s : Store) (x : Nat) : Prop := s.start ≤ x ∧ x < s.stop

instance (s : Store) (x : Nat) : Decidable (s.Covers x) := inferInstanceAs (Decidable (_ ∧ _))

/-- What the store puts at a position that it covers. -/
def byteAt (s : Store) (x : Nat) : UInt8 :=
  match s with
  | .fill _ _ byte => byte
  | .copy start source => source.getD (x - start) 0

/-- The byte that fills all positions from `lo` up to `hi`, if the store is a fill that reaches as
far. -/
def fills? (s : Store) (lo hi : Nat) : Option UInt8 :=
  match s with
  | .fill start size byte => if start ≤ lo ∧ hi ≤ start + size then some byte else none
  | .copy .. => none

theorem covers_of_fills? {s : Store} {lo hi x : Nat} {b : UInt8} (h : s.fills? lo hi = some b)
    (h₁ : lo ≤ x) (h₂ : x < hi) : s.Covers x ∧ s.byteAt x = b := by
  cases s with
  | fill start size byte =>
    simp only [fills?, Option.ite_none_right_eq_some, Option.some.injEq] at h
    obtain ⟨⟨hlo, hhi⟩, rfl⟩ := h
    exact ⟨⟨by simp only [Store.start]; omega, by simp only [stop, Store.start, Store.size]; omega⟩,
      rfl⟩
  | copy start source => simp [fills?] at h

end Store

/-! ### Stretches -/

/-- The bytes of `2 ^ d` positions. -/
inductive Stretch : Nat → Type
  /-- The same byte everywhere. -/
  | flat {d : Nat} (byte : UInt8) : Stretch d
  | halves {d : Nat} (low high : Stretch d) : Stretch (d + 1)
  deriving DecidableEq, Repr

namespace Stretch

variable {d : Nat}

def byteAt : {d : Nat} → Stretch d → Nat → UInt8
  | _, .flat b, _ => b
  | _, @halves d low high, x => if x < 2 ^ d then low.byteAt x else high.byteAt (x - 2 ^ d)

def low : Stretch (d + 1) → Stretch d
  | .flat b => .flat b
  | .halves low _ => low

def high : Stretch (d + 1) → Stretch d
  | .flat b => .flat b
  | .halves _ high => high

@[simp] theorem byteAt_flat (b : UInt8) (x : Nat) : (flat b : Stretch d).byteAt x = b := by
  simp [byteAt]

theorem byteAt_halves (low high : Stretch d) (x : Nat) :
    (halves low high).byteAt x =
      if x < 2 ^ d then low.byteAt x else high.byteAt (x - 2 ^ d) := by
  rw [byteAt]

theorem byteAt_low (t : Stretch (d + 1)) {x : Nat} (h : x < 2 ^ d) :
    t.low.byteAt x = t.byteAt x := by
  cases t with
  | flat b => simp [low]
  | halves low high => simp [Stretch.low, byteAt_halves, h]

theorem byteAt_high (t : Stretch (d + 1)) {x : Nat} (h : 2 ^ d ≤ x) :
    t.high.byteAt (x - 2 ^ d) = t.byteAt x := by
  cases t with
  | flat b => simp [high]
  | halves low high => simp [Stretch.high, byteAt_halves, Nat.not_lt.mpr h]

/-! ### Laying a store over a stretch -/

/-- The stretch that begins at position `base`, after a store. -/
def overlay (s : Store) : {d : Nat} → (base : Nat) → Stretch d → Stretch d
  | 0, base, t => if s.Covers base then .flat (s.byteAt base) else t
  | d + 1, base, t =>
      if s.stop ≤ base ∨ base + 2 ^ (d + 1) ≤ s.start then t
      else
        match s.fills? base (base + 2 ^ (d + 1)) with
        | some b => .flat b
        | none => .halves (overlay s base t.low) (overlay s (base + 2 ^ d) t.high)

/-- A store changes the bytes that it covers and no others. -/
theorem byteAt_overlay (s : Store) (base : Nat) (t : Stretch d) {x : Nat} (hx : x < 2 ^ d) :
    (overlay s base t).byteAt x =
      if s.Covers (base + x) then s.byteAt (base + x) else t.byteAt x := by
  induction d generalizing base x with
  | zero =>
    obtain rfl : x = 0 := by omega
    rw [overlay]
    split <;> simp_all
  | succ d ih =>
    have hpow : 2 ^ (d + 1) = 2 ^ d + 2 ^ d := by omega
    rw [overlay]
    split
    · rename_i h
      rw [if_neg fun hc => ?_]
      simp only [Store.Covers] at hc
      omega
    · split
      · rename_i b hb
        have hc := Store.covers_of_fills? (x := base + x) hb (by omega) (by omega)
        simp [hc]
      · rw [byteAt_halves]
        split
        · rename_i h
          rw [ih _ _ h, byteAt_low _ h]
        · rename_i h
          have hx' : 2 ^ d ≤ x := by omega
          have hbase : base + 2 ^ d + (x - 2 ^ d) = base + x := by omega
          rw [ih _ _ (by omega), byteAt_high _ hx', hbase]

end Stretch

/-! ### Reading in runs -/

/-- So many equal bytes in a row. -/
abbrev Run : Type := UInt8 × Nat

def consRun (r : Run) : List Run → List Run
  | (c, n) :: rest => if r.1 = c then (c, r.2 + n) :: rest else r :: (c, n) :: rest
  | [] => [r]

namespace Stretch

/-- The runs of the bytes at the positions from `lo` up to `hi`, in front of other runs. -/
def runsOnto : {d : Nat} → Stretch d → (lo hi : Nat) → List Run → List Run
  | _, .flat b, lo, hi, rest => if lo < hi then consRun (b, hi - lo) rest else rest
  | _, @halves d low high, lo, hi, rest =>
      if lo < hi then
        low.runsOnto lo (min hi (2 ^ d)) (high.runsOnto (lo - 2 ^ d) (hi - 2 ^ d) rest)
      else rest

end Stretch

end SlotArena
