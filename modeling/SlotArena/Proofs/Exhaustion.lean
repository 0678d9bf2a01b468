import SlotArena.Proofs.Counting

/-!
When an arena runs out of space. Growth never asks for less than twice the window, so a side may be
refused what its half of the extent still holds, even bytes that the window shows already
(`refuses_what_fits`). What is true is that the doubled window does not fit a half, and that an
arena whose back side is unused is refused nothing that fits (`refused_beyond_half`).
-/

namespace SlotArena

/-! ### How far doubling goes -/

theorem doubleUntil_le (target fuel n : Nat) : doubleUntil target fuel n ≤ max n (2 * target) := by
  induction fuel generalizing n with
  | zero => exact Nat.le_max_left ..
  | succ fuel ih =>
    unfold doubleUntil
    split
    · have hnext := ih (n * 2)
      omega
    · exact Nat.le_max_left ..

theorem doublePast_le (target n : Nat) : doublePast target n ≤ 2 * max n target := by
  have := doubleUntil_le target (target.log2 + 1) (n * 2)
  rw [doublePast]
  omega

theorem doubleUntil_le_pow {target j : Nat} (h : target ≤ 2 ^ j) (fuel : Nat) {i : Nat}
    (hi : i ≤ j) : doubleUntil target fuel (2 ^ i) ≤ 2 ^ j := by
  induction fuel generalizing i with
  | zero => exact Nat.pow_le_pow_right (by decide) hi
  | succ fuel ih =>
    unfold doubleUntil
    split
    · rename_i hlt
      have hij : i < j := (Nat.pow_lt_pow_iff_right (by decide)).mp (Nat.lt_of_lt_of_le hlt h)
      rw [← Nat.pow_succ]
      exact ih hij
    · exact Nat.pow_le_pow_right (by decide) hi

theorem doublePast_le_of_lt {target n m : Nat} (hn : PowerOfTwo n) (hm : PowerOfTwo m)
    (hlt : n < target) (hle : target ≤ m) : doublePast target n ≤ m := by
  obtain ⟨i, rfl⟩ := powerOfTwo_iff.mp hn
  obtain ⟨j, rfl⟩ := powerOfTwo_iff.mp hm
  have hij : i < j := (Nat.pow_lt_pow_iff_right (by decide)).mp (Nat.lt_of_lt_of_le hlt hle)
  rw [doublePast, ← Nat.pow_succ]
  exact doubleUntil_le_pow hle _ hij

namespace Arena

open Act

variable {config : ArenaConfig} {log : List Call} {a : Arena} {side : Side} {n : Nat}

/-- What both sides require once `n` bytes more are claimed on one of them: the other side keeps
what it has. -/
theorem Sound.wanted_le (h : a.Sound) (side : Side) (n : Nat) :
    (a.asking side n).wanted ≤
      2 * max a.size (roundUp ((a.cursor side).next + n) pageSize + (a.size - a.reach side)) := by
  have hpage : 0 < pageSize := by decide
  have hback : roundUp a.back.next pageSize ≤ a.center :=
    roundUp_le hpage h.window.page_dvd_center (h.next_le_reach .back)
  have hfront : roundUp a.front.next pageSize ≤ a.size - a.center :=
    roundUp_le hpage (Nat.dvd_sub h.window.page_dvd_size h.window.page_dvd_center)
      (h.next_le_reach .front)
  have hcenter : a.center ≤ a.size := h.window.center_le_size
  refine Nat.le_trans (doublePast_le ..) ?_
  rw [asking_size, asking_center]
  cases side with
  | front =>
    show 2 * max a.size (max (roundUp a.back.next pageSize) a.center +
      max (roundUp (a.front.next + n) pageSize) (a.size - a.center)) ≤
        2 * max a.size (roundUp (a.front.next + n) pageSize + (a.size - (a.size - a.center)))
    omega
  | back =>
    show 2 * max a.size (max (roundUp (a.back.next + n) pageSize) a.center +
      max (roundUp a.front.next pageSize) (a.size - a.center)) ≤
        2 * max a.size (roundUp (a.back.next + n) pageSize + (a.size - a.center))
    omega

theorem Counted.wanted_eq (h : Counted config log a) (hnone : a.back.next = 0)
    (hover : a.front.stop < a.front.next + n) : a.size < roundUp (a.front.next + n) pageSize ∧
      (a.asking .front n).wanted = doublePast (roundUp (a.front.next + n) pageSize) a.size := by
  obtain ⟨hcenter, hall⟩ := h.forward hnone
  have hge : a.front.next + n ≤ roundUp (a.front.next + n) pageSize := roundUp_ge _ (by decide)
  have hsize : a.size < roundUp (a.front.next + n) pageSize := by omega
  have hbackRequired : max (roundUp a.back.next pageSize) a.center = 0 := by
    rw [hnone, hcenter]
    rfl
  have hfrontRequired : max (roundUp (a.front.next + n) pageSize) (a.size - a.center) =
      roundUp (a.front.next + n) pageSize := by omega
  refine ⟨hsize, ?_⟩
  show doublePast (max (roundUp a.back.next pageSize) a.center +
    max (roundUp (a.front.next + n) pageSize) (a.size - a.center)) a.size = _
  rw [hbackRequired, hfrontRequired, Nat.zero_add]

theorem Counted.wanted_le_half (h : Counted config log a) (hnone : a.back.next = 0)
    (hover : a.front.stop < a.front.next + n) (hfits : a.front.next + n ≤ config.extent / 2) :
    (a.asking .front n).wanted ≤ config.extent / 2 := by
  obtain ⟨hsize, hwanted⟩ := h.wanted_eq hnone hover
  have hhalf : PowerOfTwo (config.extent / 2) :=
    h.admits.1.half (Nat.le_trans (by decide) h.admits.2.1)
  have hpage : pageSize ∣ config.extent / 2 :=
    (powerOfTwo_pow 12).dvd_of_le hhalf ((Nat.le_div_iff_mul_le (by decide)).mpr h.admits.2.1)
  have hround : roundUp (a.front.next + n) pageSize ≤ config.extent / 2 :=
    roundUp_le (by decide) hpage hfits
  rw [hwanted]
  exact doublePast_le_of_lt h.size hhalf hsize hround

/-- An arena refuses a block for lack of space only if twice its window, or twice what both sides
would hold with the block, does not fit one half of the extent. While nothing was granted at the
back, it refuses a block at the front only if the front with the block does not fit its half. The
host that is asked for the block need not be the one that the arena was made with. -/
theorem refused_beyond_half [Host] {requested reserved : Nat} (h : History config log a) [Host]
    (hrefused : ((serve side n).run a).result =
      .error (.refused (.outOfReservedSpace requested reserved))) :
    config.extent / 2 <
        2 * max a.size (roundUp ((a.cursor side).used + n) pageSize + (a.size - a.reach side)) ∧
      (side = .front → a.backUsed = 0 → config.extent / 2 < a.frontUsed + n) := by
  have hcounted := h.counted
  have hused : ∀ side, (a.cursor side).used = (a.cursor side).next := fun side =>
    (hcounted.used side).trans (hcounted.next side).symm
  rcases (serve_meets hcounted.sound side n).of_error hrefused with
    ⟨what, hwhat⟩ | ⟨why, hwhy, -, hover, hno⟩
  · exact absurd hwhat (by simp)
  · have hwanted := hno.of_space (Fault.refused.inj hwhy).symm
    have hhalf : config.extent / 2 < (a.asking side n).wanted := by
      rw [hcounted.extent] at hwanted
      simp only [Extent.centered] at hwanted
      omega
    refine ⟨?_, ?_⟩
    · rw [hused]
      exact Nat.lt_of_lt_of_le hhalf (hcounted.sound.wanted_le side n)
    · rintro rfl hnone
      have hback : a.back.next = 0 := (hused .back).symm.trans hnone
      have hfront : a.frontUsed = a.front.next := hused .front
      rw [hfront]
      refine Nat.lt_of_not_le fun hfits => ?_
      have hwithin := hcounted.wanted_le_half hback hover hfits
      omega

section

attribute [local instance] Host.plain

/-- A front that fills its half is refused the next page. -/
theorem refused_beyond_half_of_full : ∃ log a, History ⟨4096, 16384, .pinned⟩ log a ∧
    ((serve .front 4096).run a).result = .error (.refused (.outOfReservedSpace 16384 8192)) ∧
    16384 / 2 < a.frontUsed + 4096 := by
  have hrun : ∃ a₀ a₁ a₂, ((create ⟨4096, 16384, .pinned⟩).run ()).result = .ok a₀ ∧
      a₁ = ((serve .front 4096).run a₀).state ∧ a₂ = ((serve .front 4096).run a₁).state ∧
      ((serve .front 4096).run a₀).result = .ok 0 ∧
      ((serve .front 4096).run a₁).result = .ok 4096 ∧ a₂.backUsed = 0 ∧
      ((serve .front 4096).run a₂).result =
        .error (.refused (.outOfReservedSpace 16384 8192)) := by
    refine ⟨_, _, _, rfl, rfl, rfl, ?_⟩
    decide +kernel
  obtain ⟨a₀, a₁, a₂, hcreate, ha₁, ha₂, h₁, h₂, hback, hrefused⟩ := hrun
  have hhistory := ((History.created hcreate).answered h₁ ha₁ (by simp)).answered h₂ ha₂ (by simp)
  exact ⟨_, a₂, hhistory, hrefused, (refused_beyond_half hhistory hrefused).2 rfl hback⟩

/-- Requests that are refused although they fit. In a window that shows all of its extent the front
has a page that it has not used, but growth asks for twice as much; and the back side of a new arena
does not get its half, because growth would hand the rest of the doubled window to it. -/
theorem refuses_what_fits :
    (∃ log a, History ⟨4096, 16384, .remap⟩ log a ∧
      ((alloc 4096).run a).result = .error (.refused (.outOfReservedSpace 16384 8192)) ∧
      a.frontUsed + 4096 ≤ 16384 / 2 ∧ a.frontUsed + 4096 ≤ a.size - a.center) ∧
    ∃ log a, History ⟨4096, 65536, .remap⟩ log a ∧
      ((allocBack 32768).run a).result = .error (.refused (.outOfReservedSpace 61440 32768)) ∧
      a.backUsed + 32768 ≤ 65536 / 2 := by
  refine ⟨?_, ?_⟩
  · have hrun : ∃ a₀ a₁ a₂, ((create ⟨4096, 16384, .remap⟩).run ()).result = .ok a₀ ∧
        a₁ = ((serve .front 4096).run a₀).state ∧ a₂ = ((serve .back 8192).run a₁).state ∧
        ((serve .front 4096).run a₀).result = .ok 0 ∧
        ((serve .back 8192).run a₁).result = .ok (-8192) ∧
        ((alloc 4096).run a₂).result = .error (.refused (.outOfReservedSpace 16384 8192)) ∧
        a₂.frontUsed + 4096 ≤ 16384 / 2 ∧ a₂.frontUsed + 4096 ≤ a₂.size - a₂.center := by
      refine ⟨_, _, _, rfl, rfl, rfl, ?_⟩
      decide +kernel
    obtain ⟨a₀, a₁, a₂, hcreate, ha₁, ha₂, h₁, h₂, hleft⟩ := hrun
    have hhistory := ((History.created hcreate).answered h₁ ha₁ (by simp)).answered h₂ ha₂ (by simp)
    exact ⟨_, a₂, hhistory, hleft⟩
  · have hrun : ∃ a₀, ((create ⟨4096, 65536, .remap⟩).run ()).result = .ok a₀ ∧
        ((allocBack 32768).run a₀).result = .error (.refused (.outOfReservedSpace 61440 32768)) ∧
        a₀.backUsed + 32768 ≤ 65536 / 2 := by
      refine ⟨_, rfl, ?_⟩
      decide +kernel
    obtain ⟨a₀, hcreate, hleft⟩ := hrun
    exact ⟨[], a₀, .created hcreate, hleft⟩

end

end Arena

end SlotArena
