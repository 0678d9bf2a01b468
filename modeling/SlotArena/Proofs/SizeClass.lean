import SlotArena.Proofs.Meets
import SlotArena.SizeClass

/-!
Powers of two and the size classes made of them. A size is a power of two between the least and the
largest, so of two sizes the smaller divides the larger; this is what all alignments in a pool rest
on. `holding_meets` says which class holds a request.
-/

namespace SlotArena

theorem powerOfTwo_iff {n : Nat} : PowerOfTwo n ↔ ∃ k, n = 2 ^ k :=
  ⟨fun h => ⟨_, h⟩, fun ⟨k, h⟩ => h ▸ powerOfTwo_pow k⟩

namespace PowerOfTwo

variable {a b n : Nat}

theorem pos (h : PowerOfTwo n) : 0 < n := by
  obtain ⟨k, rfl⟩ := powerOfTwo_iff.mp h
  exact Nat.two_pow_pos k

theorem dvd_of_le (ha : PowerOfTwo a) (hb : PowerOfTwo b) (h : a ≤ b) : a ∣ b := by
  obtain ⟨j, rfl⟩ := powerOfTwo_iff.mp ha
  obtain ⟨k, rfl⟩ := powerOfTwo_iff.mp hb
  exact Nat.pow_dvd_pow 2 ((Nat.pow_le_pow_iff_right (by decide)).mp h)

theorem half (h : PowerOfTwo n) (h₁ : 1 < n) : PowerOfTwo (n / 2) := by
  obtain ⟨k, rfl⟩ := powerOfTwo_iff.mp h
  obtain _ | k := k
  · exact absurd h₁ (by decide)
  · rw [Nat.pow_succ, Nat.mul_div_cancel _ (by decide)]
    exact powerOfTwo_pow k

theorem two_mul_half (h : PowerOfTwo n) (h₁ : 1 < n) : 2 * (n / 2) = n := by
  obtain ⟨k, rfl⟩ := powerOfTwo_iff.mp h
  obtain _ | k := k
  · exact absurd h₁ (by decide)
  · omega

theorem half_dvd (h : PowerOfTwo n) (h₁ : 1 < n) : n / 2 ∣ n :=
  ⟨2, by rw [Nat.mul_comm, h.two_mul_half h₁]⟩

theorem le_half (ha : PowerOfTwo a) (hb : PowerOfTwo b) (h : a < b) : a ≤ b / 2 := by
  obtain ⟨j, rfl⟩ := powerOfTwo_iff.mp ha
  obtain ⟨k, rfl⟩ := powerOfTwo_iff.mp hb
  have hjk : j < k := (Nat.pow_lt_pow_iff_right (by decide)).mp h
  obtain ⟨k, rfl⟩ := Nat.exists_eq_add_one.mpr (Nat.zero_lt_of_lt hjk)
  rw [Nat.pow_succ, Nat.mul_div_cancel _ (by decide)]
  exact Nat.pow_le_pow_right (by decide) (Nat.le_of_lt_succ hjk)

theorem min (ha : PowerOfTwo a) (hb : PowerOfTwo b) : PowerOfTwo (min a b) := by
  rcases Nat.le_total a b with h | h
  · rwa [Nat.min_eq_left h]
  · rwa [Nat.min_eq_right h]

theorem max (ha : PowerOfTwo a) (hb : PowerOfTwo b) : PowerOfTwo (max a b) := by
  rcases Nat.le_total a b with h | h
  · rwa [Nat.max_eq_right h]
  · rwa [Nat.max_eq_left h]

theorem ceilPow2_eq (h : PowerOfTwo n) : ceilPow2 n = n := by
  obtain ⟨k, rfl⟩ := powerOfTwo_iff.mp h
  exact Nat.le_antisymm (ceilPow2_le (Nat.le_refl _)) (ceilPow2_ge _)

end PowerOfTwo

theorem ceilPow2_mono {m n : Nat} (h : m ≤ n) : ceilPow2 m ≤ ceilPow2 n := by
  obtain ⟨k, hk⟩ := powerOfTwo_iff.mp (powerOfTwo_ceilPow2 n)
  rw [hk]
  exact ceilPow2_le (Nat.le_trans h (hk ▸ ceilPow2_ge n))

namespace SizeClass

theorem bytes_pos (c : SizeClass) : 0 < c.bytes := Nat.two_pow_pos _

theorem powerOfTwo_bytes (c : SizeClass) : PowerOfTwo c.bytes := powerOfTwo_pow _

theorem least_le_bytes (c : SizeClass) : least ≤ c.bytes := (isSize_bytes c).2.1

theorem bytes_le_largest (c : SizeClass) : c.bytes ≤ largest := (isSize_bytes c).2.2

theorem bytes_le_bytes {c d : SizeClass} : c.bytes ≤ d.bytes ↔ c ≤ d := by
  rw [bytes, bytes, Nat.pow_le_pow_iff_right (by decide), Fin.le_def]
  omega

theorem bytes_lt_bytes {c d : SizeClass} : c.bytes < d.bytes ↔ c < d := by
  rw [← Nat.not_le, bytes_le_bytes, Fin.not_le]

theorem bytes_injective {c d : SizeClass} (h : c.bytes = d.bytes) : c = d := by
  refine Fin.le_antisymm (bytes_le_bytes.mp ?_) (bytes_le_bytes.mp ?_)
  · exact Nat.le_of_eq h
  · exact Nat.le_of_eq h.symm

theorem one_lt_of_least_le {n : Nat} (h : least ≤ n) : 1 < n := Nat.lt_of_lt_of_le (by decide) h

theorem IsSize.pos {n : Nat} (h : IsSize n) : 0 < n := h.1.pos

theorem IsSize.one_lt {n : Nat} (h : IsSize n) : 1 < n := one_lt_of_least_le h.2.1

theorem bytes_of_indexOf {n : Nat} (h : PowerOfTwo n) {c : SizeClass} (hc : c.val = indexOf n) :
    c.bytes = max n least := by
  obtain ⟨k, rfl⟩ := powerOfTwo_iff.mp h
  rw [bytes, hc, indexOf, Nat.log2_two_pow, least]
  rcases Nat.le_total k leastLog2 with hk | hk
  · have hle : 2 ^ k ≤ 2 ^ leastLog2 := Nat.pow_le_pow_right (by decide) hk
    rw [Nat.max_eq_right hk, Nat.max_eq_right hle, Nat.sub_self, Nat.zero_add]
  · have hle : 2 ^ leastLog2 ≤ 2 ^ k := Nat.pow_le_pow_right (by decide) hk
    rw [Nat.max_eq_left hk, Nat.max_eq_left hle, Nat.sub_add_cancel hk]

theorem indexOf_lt {n : Nat} (h : PowerOfTwo n) (hn : n ≤ largest) : indexOf n < classCount := by
  obtain ⟨k, rfl⟩ := powerOfTwo_iff.mp h
  have hk : k ≤ largestLog2 := (Nat.pow_le_pow_iff_right (by decide)).mp hn
  simp only [indexOf, Nat.log2_two_pow, leastLog2, largestLog2, classCount] at hk ⊢
  omega

/-- The class that holds a request: the least power of two that reaches both the request and the
least size. -/
theorem holding_meets {σ : Type} {s : σ} {size : Nat} (h : size ≤ largest) :
    (holding size).Meets s (fun c t => t = s ∧ c.bytes = max (ceilPow2 size) least) Act.Never := by
  have hle : ceilPow2 size ≤ largest := ceilPow2_le h
  have hpow := powerOfTwo_ceilPow2 size
  have hlt := indexOf_lt hpow hle
  simp only [holding, Act.roundToPow2, Act.meets_bind, Act.meets_ensure_never, Act.meets_pure, hlt,
    dif_pos, true_and]
  refine ⟨?_, bytes_of_indexOf hpow rfl⟩
  exact Nat.lt_of_le_of_lt hle (by decide)

theorem holding_bytes_meets {σ : Type} {s : σ} (c : SizeClass) :
    (holding c.bytes).Meets s (fun d t => t = s ∧ d = c) Act.Never := by
  refine (holding_meets (bytes_le_largest c)).imp fun d t h => ⟨h.1, bytes_injective ?_⟩
  rw [h.2, (powerOfTwo_bytes c).ceilPow2_eq, Nat.max_eq_left (least_le_bytes c)]

theorem IsSize.exists_bytes {n : Nat} (h : IsSize n) : ∃ c : SizeClass, c.bytes = n :=
  ⟨⟨indexOf n, indexOf_lt h.1 h.2.2⟩, by rw [bytes_of_indexOf h.1 rfl, Nat.max_eq_left h.2.1]⟩

theorem mem_above {c d : SizeClass} : d ∈ c.above ↔ c < d := by
  simp [above]

end SizeClass

end SlotArena
