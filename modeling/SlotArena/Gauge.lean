import SlotArena.Extent

/-!
Diagnostic gauges.  A counter is a signed 64-bit word that wraps; readers see a negative value as
zero, so a subtraction that overtakes its addition never shows.  The seven gauges of the allocator
are counters that operations raise and lower.
-/

namespace SlotArena

/-! ### Counters -/

/-- A gauge reading that may dip below zero for a moment. -/
structure Counter where
  raw : Int
  deriving DecidableEq, Repr

namespace Counter

def largestDelta : Nat := 2 ^ 63 - 1

/-- Absurd changes are clamped. -/
def delta (n : Nat) : Nat := min n largestDelta

def zero : Counter := ⟨0⟩

instance : Inhabited Counter := ⟨zero⟩

def add (c : Counter) (n : Nat) : Counter := ⟨Int.bmod (c.raw + delta n) word64⟩

def sub (c : Counter) (n : Nat) : Counter := ⟨Int.bmod (c.raw - delta n) word64⟩

def get (c : Counter) : Nat := c.raw.toNat

@[simp] theorem get_zero : zero.get = 0 := rfl

theorem delta_of_le {n : Nat} (h : n ≤ largestDelta) : delta n = n := Nat.min_eq_left h

/-- The counter of a sum, which keeps of it what its word can hold. -/
def wrapped (x : Int) : Counter := ⟨Int.bmod x word64⟩

theorem wrapped_add (x : Int) (n : Nat) : (wrapped x).add n = wrapped (x + delta n) :=
  congrArg Counter.mk Int.bmod_add_bmod

theorem wrapped_sub (x : Int) (n : Nat) : (wrapped x).sub n = wrapped (x - delta n) :=
  congrArg Counter.mk Int.bmod_sub_bmod

/-- A sum that fits the word is read as it is, or as zero below zero. -/
theorem get_wrapped {x : Int} (hlo : -2 ^ 63 ≤ x) (hhi : x < 2 ^ 63) :
    (wrapped x).get = x.toNat := by
  rw [get, wrapped, Int.bmod_eq_of_le]
  · simp only [word64]
    omega
  · simp only [word64]
    omega

end Counter

/-! ### The gauges of the allocator -/

inductive Gauge
  /-- Address space set aside. -/
  | reserved
  /-- Bytes in the current windows. -/
  | committed
  /-- Bytes in the windows of arenas. -/
  | arenas
  /-- Bytes in the windows of rosters. -/
  | rosters
  /-- Superseded views that are still usable. -/
  | retired
  /-- Slots handed out. -/
  | live
  /-- Blocks held by streams. -/
  | streamBlocks
  deriving DecidableEq, Repr, Inhabited

def Purpose.gauge : Purpose → Gauge
  | .arena => .arenas
  | .roster => .rosters

/-- How far each gauge has moved since a session began; one that was raised before may end below
where it started. -/
structure Gauges where
  reserved : Counter := .zero
  committed : Counter := .zero
  arenas : Counter := .zero
  rosters : Counter := .zero
  retired : Counter := .zero
  live : Counter := .zero
  streamBlocks : Counter := .zero
  deriving DecidableEq, Repr, Inhabited

namespace Gauges

def counter (g : Gauges) : Gauge → Counter
  | .reserved => g.reserved
  | .committed => g.committed
  | .arenas => g.arenas
  | .rosters => g.rosters
  | .retired => g.retired
  | .live => g.live
  | .streamBlocks => g.streamBlocks

def update (g : Gauges) (which : Gauge) (f : Counter → Counter) : Gauges :=
  match which with
  | .reserved => { g with reserved := f g.reserved }
  | .committed => { g with committed := f g.committed }
  | .arenas => { g with arenas := f g.arenas }
  | .rosters => { g with rosters := f g.rosters }
  | .retired => { g with retired := f g.retired }
  | .live => { g with live := f g.live }
  | .streamBlocks => { g with streamBlocks := f g.streamBlocks }

@[simp] theorem counter_update_same (g : Gauges) (w : Gauge) (f : Counter → Counter) :
    (g.update w f).counter w = f (g.counter w) := by
  cases w <;> rfl

@[simp] theorem counter_update_of_ne (g : Gauges) {w v : Gauge} (h : v ≠ w)
    (f : Counter → Counter) : (g.update w f).counter v = g.counter v := by
  cases w <;> cases v <;> first | rfl | exact absurd rfl h

end Gauges

end SlotArena
