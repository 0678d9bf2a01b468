/-!
Machine words and rounding.  Sizes and offsets are plain numbers everywhere in this library; the
widths below are what the arithmetic of an allocator is checked against, so that a sum that leaves
its word is a fault of the operation and never a wrapped value.  That is how a build behaves that
checks for overflow; what comes of a sum that wraps unnoticed in a build without such checks is left
out.
-/

namespace SlotArena

/-- Powers of numbers are the core library's. They outrank the powers of monoids where those are
imported, so that `2 ^ 32` is one term in every module. -/
@[default_instance 10001]
instance (priority := high) instPowCore {α : Type} [NatPow α] : Pow α Nat := instPowNat

/-- The number of values of a 32-bit word: block offsets, record indices and slot sizes. -/
@[reducible, noinline] def word32 : Nat := 2 ^ 32

/-- The number of values of a 64-bit word: window sizes and extents. -/
@[reducible, noinline] def word64 : Nat := 2 ^ 64

/-- The least value too large for a signed 32-bit offset. -/
@[reducible, noinline] def signed32 : Int := 2 ^ 31

/-- The index that stands for no record. -/
abbrev noIndex : Nat := 2 ^ 32 - 1

/-- The granularity of the host's address space. -/
abbrev pageSize : Nat := 4096

def roundUp (n step : Nat) : Nat := (n + step - 1) / step * step

def ceilPow2 (n : Nat) : Nat := if n ≤ 1 then 1 else 2 ^ ((n - 1).log2 + 1)

/-- Doubles `n` until it reaches `target`, at most `fuel` times. -/
def doubleUntil (target : Nat) : (fuel : Nat) → (n : Nat) → Nat
  | 0, n => n
  | fuel + 1, n => if n < target then doubleUntil target fuel (n * 2) else n

/-- Doubles `n` once, and then until it reaches `target`. -/
def doublePast (target n : Nat) : Nat := doubleUntil target (target.log2 + 1) (n * 2)

/-- A power of two is recovered from its own logarithm. -/
def PowerOfTwo (n : Nat) : Prop := n = 2 ^ n.log2

instance : DecidablePred PowerOfTwo := fun n => inferInstanceAs (Decidable (n = 2 ^ n.log2))

/-- The signed reading of the low 32 bits of `n`. -/
def asSigned (n : Nat) : Int :=
  if n % word32 < 2 ^ 31 then (n % word32 : Nat) else (n % word32 : Nat) - word32

/-- The unsigned reading of a signed 32-bit value. -/
def asUnsigned (i : Int) : Nat := (i % word32).toNat

def FitsSigned (i : Int) : Prop := -signed32 ≤ i ∧ i < signed32

instance : DecidablePred FitsSigned := fun i =>
  inferInstanceAs (Decidable (-signed32 ≤ i ∧ i < signed32))

theorem roundUp_ge (n : Nat) {step : Nat} (h : 0 < step) : n ≤ roundUp n step := by
  have hm := Nat.div_add_mod (n + step - 1) step
  have hlt := Nat.mod_lt (n + step - 1) h
  rw [Nat.mul_comm] at hm
  simp only [roundUp]
  omega

theorem roundUp_lt (n : Nat) {step : Nat} (h : 0 < step) : roundUp n step < n + step := by
  have hm := Nat.div_add_mod (n + step - 1) step
  rw [Nat.mul_comm] at hm
  simp only [roundUp]
  omega

theorem dvd_roundUp (n step : Nat) : step ∣ roundUp n step :=
  ⟨_, Nat.mul_comm _ _⟩

theorem roundUp_le {n m step : Nat} (h : 0 < step) (hd : step ∣ m) (hn : n ≤ m) :
    roundUp n step ≤ m := by
  obtain ⟨k, rfl⟩ := hd
  have hlt : (n + step - 1) / step < k + 1 := by
    rw [Nat.div_lt_iff_lt_mul h, Nat.add_one_mul, Nat.mul_comm k step]
    omega
  rw [roundUp, Nat.mul_comm step k]
  exact Nat.mul_le_mul_right step (Nat.le_of_lt_succ hlt)

theorem ceilPow2_ge (n : Nat) : n ≤ ceilPow2 n := by
  unfold ceilPow2
  split
  · assumption
  · have := Nat.lt_log2_self (n := n - 1)
    omega

theorem ceilPow2_le {n k : Nat} (h : n ≤ 2 ^ k) : ceilPow2 n ≤ 2 ^ k := by
  unfold ceilPow2
  split
  · exact Nat.one_le_two_pow
  · have hlt : (n - 1).log2 < k := (Nat.log2_lt (by omega)).mpr (by omega)
    exact Nat.pow_le_pow_right (by decide) hlt

theorem doubleUntil_ge {target : Nat} :
    ∀ {fuel n : Nat}, target ≤ n * 2 ^ fuel → target ≤ doubleUntil target fuel n
  | 0, n, h => by simpa [doubleUntil] using h
  | fuel + 1, n, h => by
    unfold doubleUntil
    split
    · exact doubleUntil_ge (by rw [Nat.mul_assoc, ← Nat.pow_succ']; exact h)
    · omega

theorem le_doubled (target : Nat) {n : Nat} (h : 0 < n) :
    target ≤ n * 2 * 2 ^ (target.log2 + 1) := by
  have h₁ := Nat.lt_log2_self (n := target)
  have h₂ : 1 * 2 ^ (target.log2 + 1) ≤ n * 2 * 2 ^ (target.log2 + 1) :=
    Nat.mul_le_mul_right _ (by omega)
  omega

theorem doublePast_ge {target n : Nat} (h : 0 < n) : target ≤ doublePast target n :=
  doubleUntil_ge (le_doubled target h)

/-- Doubling past a target multiplies by a power of two, at least by two. -/
theorem doubleUntil_eq (target : Nat) :
    ∀ fuel n : Nat, ∃ k, doubleUntil target fuel n = n * 2 ^ k
  | 0, n => ⟨0, by simp [doubleUntil]⟩
  | fuel + 1, n => by
    unfold doubleUntil
    split
    · obtain ⟨k, hk⟩ := doubleUntil_eq target fuel (n * 2)
      exact ⟨k + 1, by rw [hk, Nat.mul_assoc, ← Nat.pow_succ']⟩
    · exact ⟨0, by simp⟩

theorem doublePast_eq (target n : Nat) : ∃ k, doublePast target n = n * 2 ^ (k + 1) := by
  obtain ⟨k, hk⟩ := doubleUntil_eq target (target.log2 + 1) (n * 2)
  exact ⟨k, by rw [doublePast, hk, Nat.mul_assoc, ← Nat.pow_succ']⟩

theorem two_mul_le_doublePast (target n : Nat) : 2 * n ≤ doublePast target n := by
  obtain ⟨k, hk⟩ := doublePast_eq target n
  rw [hk, Nat.pow_succ', ← Nat.mul_assoc, Nat.mul_comm n]
  exact Nat.le_mul_of_pos_right _ (Nat.two_pow_pos k)

theorem powerOfTwo_pow (k : Nat) : PowerOfTwo (2 ^ k) := by
  simp [PowerOfTwo, Nat.log2_two_pow]

theorem powerOfTwo_ceilPow2 (n : Nat) : PowerOfTwo (ceilPow2 n) := by
  unfold ceilPow2
  split
  · exact powerOfTwo_pow 0
  · exact powerOfTwo_pow _

end SlotArena
