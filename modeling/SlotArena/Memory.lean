import SlotArena.Memory.Stretch
import SlotArena.Word

/-!
Sparse memory.  Every position reads as zero until somebody writes there; a memory keeps a stretch
that holds all positions ever written to, and makes it twice as long where a store reaches past it.

The main statement is `byteAt_store`, what is read after a store.
-/

namespace SlotArena

/-- What the positions from `2 ^ depth` on hold is zero. -/
structure Memory where
  depth : Nat
  contents : Stretch depth
  deriving DecidableEq, Repr

namespace Memory

def blank : Memory := ⟨0, .flat 0⟩

instance : Inhabited Memory := ⟨blank⟩

def byteAt (m : Memory) (x : Nat) : UInt8 := if x < 2 ^ m.depth then m.contents.byteAt x else 0

/-- The same memory, of which twice as much is kept. -/
def double (m : Memory) : Memory := ⟨m.depth + 1, .halves m.contents (.flat 0)⟩

def doubled (m : Memory) : (n : Nat) → Memory
  | 0 => m
  | n + 1 => (m.doubled n).double

/-- The same memory, with all positions before `stop` kept. -/
def reach (m : Memory) (stop : Nat) : Memory := m.doubled (stop.log2 + 1 - m.depth)

def store (m : Memory) (s : Store) : Memory :=
  let m := m.reach s.stop
  ⟨m.depth, m.contents.overlay s 0⟩

def read (m : Memory) (start size : Nat) : List UInt8 := (List.range' start size).map m.byteAt

def runs (m : Memory) (start size : Nat) : List Run :=
  (m.reach (start + size)).contents.runsOnto start (start + size) []

@[simp] theorem byteAt_blank (x : Nat) : blank.byteAt x = 0 := by
  simp [byteAt, blank]

@[simp] theorem byteAt_double (m : Memory) (x : Nat) : m.double.byteAt x = m.byteAt x := by
  have hpow : 2 ^ (m.depth + 1) = 2 ^ m.depth + 2 ^ m.depth := by omega
  simp only [byteAt, double, Stretch.byteAt_halves, Stretch.byteAt_flat]
  by_cases h : x < 2 ^ m.depth
  · rw [if_pos (by omega), if_pos h]
  · simp [h]

@[simp] theorem byteAt_doubled (m : Memory) (n x : Nat) : (m.doubled n).byteAt x = m.byteAt x := by
  induction n with
  | zero => rfl
  | succ n ih => rw [doubled, byteAt_double, ih]

@[simp] theorem byteAt_reach (m : Memory) (stop x : Nat) : (m.reach stop).byteAt x = m.byteAt x :=
  byteAt_doubled ..

theorem depth_doubled (m : Memory) (n : Nat) : (m.doubled n).depth = m.depth + n := by
  induction n with
  | zero => rfl
  | succ n ih =>
    show (m.doubled n).depth + 1 = _
    rw [ih, Nat.add_assoc]

theorem lt_two_pow_depth_reach (m : Memory) (stop : Nat) : stop < 2 ^ (m.reach stop).depth := by
  rw [reach, depth_doubled]
  exact Nat.lt_of_lt_of_le Nat.lt_log2_self (Nat.pow_le_pow_right (by omega) (by omega))

/-- A store changes the bytes that it covers and no others. -/
theorem byteAt_store (m : Memory) (s : Store) (x : Nat) :
    (m.store s).byteAt x = if s.Covers x then s.byteAt x else m.byteAt x := by
  have hreach := m.lt_two_pow_depth_reach s.stop
  rw [← byteAt_reach m s.stop x]
  by_cases h : x < 2 ^ (m.reach s.stop).depth
  · simp only [store, byteAt, h, if_true]
    rw [Stretch.byteAt_overlay s 0 _ h, Nat.zero_add]
  · have hc : ¬ s.Covers x := fun hc => by
      simp only [Store.Covers] at hc
      omega
    simp [store, byteAt, h, hc]

@[simp] theorem length_read (m : Memory) (start size : Nat) :
    (m.read start size).length = size := by
  simp [read]

end Memory

/-! ### Words in memory -/

/-- The four bytes of a 32-bit word, lowest first. -/
def wordBytes (n : Nat) : Array UInt8 :=
  #[UInt8.ofNat n, UInt8.ofNat (n / 2 ^ 8), UInt8.ofNat (n / 2 ^ 16), UInt8.ofNat (n / 2 ^ 24)]

def wordOfBytes (bytes : List UInt8) : Nat :=
  bytes.foldr (fun b n => b.toNat + 2 ^ 8 * n) 0

theorem wordOfBytes_wordBytes {n : Nat} (h : n < word32) :
    wordOfBytes (wordBytes n).toList = n := by
  simp only [wordOfBytes, wordBytes, List.foldr_cons, List.foldr_nil, UInt8.toNat_ofNat']
  simp only [word32] at h
  omega

end SlotArena
