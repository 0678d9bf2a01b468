import SlotArena.Proofs.Overflow
import SlotArena.Proofs.Exhaustion

/-!
An arena that is asked for blocks at the front only. Growth doubles the window until the front fits,
and no further, so the window is as small as a power of two can be: it is the first window, or the
next power of two from what the front has used, however many doublings one block skips and whatever
was refused in between, by the arena or by the host. One half of the extent is a power of two as
well, so growth never asks for more than that before the front is past it (`front_only_exact`).
-/

namespace SlotArena

open Act

/-- Doubling until some number of whole pages fits ends at the next power of two. -/
theorem doublePast_roundUp {m n : Nat} (hn : PowerOfTwo n) (hpage : pageSize ≤ n)
    (hlt : n < roundUp m pageSize) : doublePast (roundUp m pageSize) n = ceilPow2 m := by
  have hceil := powerOfTwo_ceilPow2 m
  have hge : m ≤ doublePast (roundUp m pageSize) n :=
    Nat.le_trans (roundUp_ge _ (by decide)) (doublePast_ge hn.pos)
  have hpow : PowerOfTwo (doublePast (roundUp m pageSize) n) := by
    obtain ⟨j, hj⟩ := powerOfTwo_iff.mp hn
    obtain ⟨k, hk⟩ := doublePast_eq (roundUp m pageSize) n
    rw [hk, hj, ← Nat.pow_add]
    exact powerOfTwo_pow _
  -- the next power of two is made of whole pages, because it is past the window
  have hwhole : pageSize ∣ ceilPow2 m := by
    refine (powerOfTwo_pow 12).dvd_of_le hceil (Nat.le_of_not_lt fun hsmall => ?_)
    have hle : m ≤ pageSize := Nat.le_trans (ceilPow2_ge m) (Nat.le_of_lt hsmall)
    have hfits : roundUp m pageSize ≤ pageSize := roundUp_le (by decide) (Nat.dvd_refl _) hle
    omega
  refine Nat.le_antisymm ?_ ?_
  · exact doublePast_le_of_lt hn hceil hlt (roundUp_le (by decide) hwhole (ceilPow2_ge m))
  · obtain ⟨k, hk⟩ := powerOfTwo_iff.mp hpow
    rw [hk] at hge ⊢
    exact ceilPow2_le hge

namespace Arena

variable {config : ArenaConfig} {log : List Call} {a : Arena} {n : Nat}

/-! ### One block -/

/-- What is published for a side holds a block without growth. Otherwise the window grows to the
size that growth asks for, unless the other side has grown it far enough already. -/
def Resized (a : Arena) (side : Side) (n : Nat) (a' : Arena) : Prop :=
  if (a.cursor side).next + n ≤ (a.cursor side).stop then a'.size = a.size
  else a'.size = a.size ∨ a'.size = (a.asking side n).wanted

theorem claim_resized [Host] (h : a.Sound) (side : Side) (hn : AdmitsBlock n)
    (hword : (a.cursor side).next + n < word32) :
    (claim side n).Meets a (fun _ => a.Resized side n) (refusing fun _ _ => True) := by
  have hsize : ∀ a' c, (withCursor side a' c).size = a'.size := by
    cases side <;> exact fun _ _ => rfl
  simp only [claim, meets_bind, meets_ensure_refusing]
  refine ⟨hn, Cursor.claim_meets rfl (h.next_le side) hword (fun hfits => ?_) fun hover => ?_⟩
  · rw [Resized, if_pos hfits]
    exact hsize a _
  · show (grow side).Meets (a.asking side n) _ _
    refine (grow_meets (asking_window a side n ▸ h.window) (asking_window a side n ▸ h.back_le)
      (asking_window a side n ▸ h.front_le) side
      (asking_next a side n ▸ Nat.add_pos_right _ hn.1)).mono ?_ fun _ _ _ => trivial
    intro stop a' hres
    obtain ⟨w, rfl, -, -, -, hnext, hgrown⟩ := hres
    rw [asking_next] at hnext
    refine ⟨hnext, ?_⟩
    rw [Resized, if_neg (Nat.not_le.mpr hover), hsize]
    rcases hgrown with rfl | ⟨hsize, -⟩
    · exact Or.inl (asking_size a side n)
    · exact Or.inr hsize

theorem serve_resized [Host] (h : a.Sound) (side : Side) (hn : AdmitsBlock n)
    (hword : (a.cursor side).next + n < word32) :
    (serve side n).Meets a (fun _ => a.Resized side n) (refusing fun _ _ => True) := by
  rw [serve_eq, meets_bind]
  refine (claim_resized h side hn hword).imp fun distance a' hres => ?_
  split
  · exact hres
  · trivial

/-! ### Blocks at the front -/

/-- What is known of an arena that granted no block at the back: the window is as small as it can
be. -/
structure FrontOnly (config : ArenaConfig) (log : List Call) (a : Arena) : Prop extends
    Counted config log a where
  back_next : a.back.next = 0
  size_eq : a.size = max (initialSize config) (ceilPow2 a.front.next)

theorem Created.frontOnly (h : Created config a) (hsize : a.size = initialSize config) :
    FrontOnly config [] a where
  toCounted := h.counted
  back_next := h.next .back
  size_eq := by
    have hnone : a.front.next = 0 := h.next .front
    rw [hnone, hsize]
    exact (Nat.max_eq_left (powerOfTwo_initialSize config).pos).symm

theorem FrontOnly.wanted_eq_ceilPow2 (h : FrontOnly config log a)
    (hover : a.front.stop < a.front.next + n) :
    (a.asking .front n).wanted = ceilPow2 (a.front.next + n) ∧
      a.size < ceilPow2 (a.front.next + n) := by
  obtain ⟨hlt, hwanted⟩ := h.toCounted.wanted_eq h.back_next hover
  have hpage : pageSize ≤ a.size :=
    Nat.le_of_dvd h.size.pos h.sound.window.page_dvd_size
  have hceil := doublePast_roundUp h.size hpage hlt
  refine ⟨hwanted.trans hceil, ?_⟩
  rw [← hceil]
  exact Nat.lt_of_lt_of_le hlt (doublePast_ge h.size.pos)

/-- A block at the front leaves the window as small as it can be. -/
theorem FrontOnly.size_claimed (h : FrontOnly config log a) {a' : Arena}
    (hclaimed : a.Claimed .front n a') (hresized : a.Resized .front n a') :
    a'.size = max (initialSize config) (ceilPow2 a'.front.next) := by
  have hnext : a'.front.next = a.front.next + n := hclaimed.next
  have hreach : a'.front.next ≤ a'.size - a'.center := hclaimed.sound.next_le_reach .front
  have hstop : a.front.stop = a.size := (h.forward h.back_next).2
  have hsize := h.size_eq
  rw [hnext] at hreach ⊢
  by_cases hfits : a.front.next + n ≤ a.front.stop
  · have hsame : a'.size = a.size := (if_pos hfits).mp hresized
    have hmono : ceilPow2 a.front.next ≤ ceilPow2 (a.front.next + n) := ceilPow2_mono (by omega)
    have hle : ceilPow2 (a.front.next + n) ≤ a.size := by
      rw [← h.size.ceilPow2_eq]
      exact ceilPow2_mono (hstop ▸ hfits)
    omega
  · obtain ⟨hwanted, hlt⟩ := h.wanted_eq_ceilPow2 (Nat.not_le.mp hfits)
    rcases (if_neg hfits).mp hresized with hsame | hgrown
    · -- no other side has grown the window
      omega
    · rw [hgrown, hwanted]
      omega

theorem Counted.next_lt_word32 (h : Counted config log a) (hextent : config.extent < largestExtent)
    (hn : AdmitsBlock n) : a.front.next + n < word32 := by
  have hnext : a.front.next ≤ config.extent / 2 :=
    Nat.le_trans (h.sound.next_le_reach .front) (h.reach_le_half .front)
  have hblock : n ≤ largestExtent / 2 := hn.2
  simp only [largestExtent, word32] at hextent hblock ⊢
  omega

/-- A block that is too small or too large is turned down before anything is done. -/
theorem serve_unadmitted [Host] (side : Side) (hn : ¬ AdmitsBlock n) :
    (serve side n).run a = ⟨.error (.violated (.arenaBlockSize side n)), a, []⟩ := by
  rw [serve_eq, claim]
  simp [run_bind, run_ensure, hn]

theorem FrontOnly.asked [Host] (h : FrontOnly config log a)
    (hextent : config.extent < largestExtent)
    (n : Nat) : FrontOnly config (log ++ [a.callOf .front n]) ((alloc n).run a).state := by
  have hrefused : ∀ {fault a'}, (a.callOf .front n).answer = .error fault → a.Near a' →
      FrontOnly config (log ++ [a.callOf .front n]) a' := by
    intro fault a' hanswer hnear
    have hcounted := h.toCounted.refused hanswer hnear
    obtain ⟨⟨-⟩⟩ := hnear
    exact ⟨hcounted, h.back_next, h.size_eq⟩
  by_cases hn : AdmitsBlock n
  · have hword := h.toCounted.next_lt_word32 hextent hn
    have halloc := alloc_meets h.sound hn hword
    cases hanswer : ((alloc n).run a).result with
    | ok offset =>
      obtain ⟨hoffset, hclaimed⟩ := halloc.of_ok hanswer
      exact {
        toCounted := h.toCounted.served hanswer hoffset hclaimed
        back_next := by
          have hback : ((alloc n).run a).state.back = a.back := hclaimed.other .back nofun
          rw [hback, h.back_next]
        size_eq := h.size_claimed hclaimed ((serve_resized h.sound .front hn hword).of_ok hanswer) }
    | error fault =>
      obtain ⟨why, -, hno⟩ := exists_refusal (halloc.of_error hanswer)
      exact hrefused hanswer hno.near
  · have hrun : (alloc n).run a = _ := serve_unadmitted .front hn
    rw [hrun]
    exact hrefused (congrArg (·.result) hrun) (.refl _)

/-- A block at the front is answered only if it is a block and its half of the extent holds it, and
by a generous host it is answered if so. -/
theorem FrontOnly.answered_iff [Host] (h : FrontOnly config log a)
    (hextent : config.extent < largestExtent) :
    ((∃ offset, ((alloc n).run a).result = .ok offset) →
        0 < n ∧ a.front.next + n ≤ config.extent / 2) ∧
      (Host.Generous → 0 < n ∧ a.front.next + n ≤ config.extent / 2 →
        ∃ offset, ((alloc n).run a).result = .ok offset) := by
  have hserve := serve_meets h.sound .front n
  refine ⟨?_, fun _ => ?_⟩
  · rintro ⟨offset, hanswer⟩
    obtain ⟨hoffset, hpos, hclaimed⟩ := hserve.of_ok hanswer
    have hcounted : Counted config (log ++ [a.callOf .front n]) _ :=
      h.toCounted.served hanswer hoffset hclaimed
    have hnext : ((serve .front n).run a).state.front.next = a.front.next + n := hclaimed.next
    rw [← hnext]
    exact ⟨hpos, Nat.le_trans (hcounted.sound.next_le_reach .front) (hcounted.reach_le_half .front)⟩
  · rintro ⟨hpos, hfits⟩
    have hn : AdmitsBlock n := by
      refine ⟨hpos, ?_⟩
      simp only [largestExtent, word32] at hextent ⊢
      omega
    have halloc := alloc_meets h.sound hn (h.toCounted.next_lt_word32 hextent hn)
    cases hanswer : ((alloc n).run a).result with
    | ok offset => exact ⟨offset, rfl⟩
    | error fault =>
      obtain ⟨why, rfl, -⟩ := exists_refusal (halloc.of_error hanswer)
      rcases hserve.of_error hanswer with ⟨what, hwhat⟩ | ⟨why', -, -, hover, hno⟩
      · cases hwhat
      · have hwanted := hno.of_generous.1
        have hle := h.toCounted.wanted_le_half h.back_next hover hfits
        simp only [h.extent, Extent.centered] at hwanted
        omega

/-! ### All blocks -/

/-- A block of `size` bytes is asked for, and the host is as it is then. -/
structure Demand where
  host : Host
  size : Nat

/-- Asks for one block after another at the front, whatever becomes of them. -/
def allocEach : (demands : List Demand) → Act Arena Unit
  | [] => pure ()
  | ⟨_, n⟩ :: demands => do
      let _ ← (alloc n).attempt
      allocEach demands

theorem FrontOnly.askedEach (h : FrontOnly config log a) (hextent : config.extent < largestExtent)
    (demands : List Demand) : ∃ log', FrontOnly config log' ((allocEach demands).run a).state := by
  induction demands generalizing log a with
  | nil => exact ⟨log, h⟩
  | cons demand demands ih =>
    obtain ⟨host, n⟩ := demand
    exact ih (h.asked hextent n)

/-- Below the largest extent, whatever blocks are asked for at the front and whichever of them are
refused: the origin stays where the window begins, and the window is the first window or the next
power of two from what the front has used. A block is answered only if it has a byte at least and
the front with it fits its half of the extent; and then it is, unless the host declines. -/
theorem front_only_exact [Host] {config : ArenaConfig} {a₀ a : Arena} {demands : List Demand}
    (hcreate : ((create config).run ()).result = .ok a₀) (hextent : config.extent < 2 ^ 32)
    (hrun : ((allocEach demands).run a₀).state = a) :
    a.center = 0 ∧ a.size = max (initialSize config) (ceilPow2 a.frontUsed) ∧
      ∀ [Host] n,
        ((∃ offset, ((alloc n).run a).result = .ok offset) →
          0 < n ∧ a.frontUsed + n ≤ config.extent / 2) ∧
        (Host.Generous → 0 < n ∧ a.frontUsed + n ≤ config.extent / 2 →
          ∃ offset, ((alloc n).run a).result = .ok offset) := by
  have hcreated := (create_meets config).of_ok hcreate
  have hfirst := hcreated.frontOnly ((create_size config).of_ok hcreate)
  obtain ⟨log, h⟩ := hfirst.askedEach hextent demands
  rw [hrun] at h
  have hused : a.frontUsed = a.front.next := Nat.min_eq_left (h.sound.next_le .front)
  rw [hused]
  exact ⟨(h.forward h.back_next).1, h.size_eq, fun n => h.answered_iff hextent⟩

section

attribute [local instance] Host.plain

/-- A block that skips three doublings, one that is refused, one that is none, and one that fills
the half to its last byte. -/
theorem front_only_exact_of_full : ∃ a₀ a,
    ((create ⟨4096, 131072, .pinned⟩).run ()).result = .ok a₀ ∧
    ((allocEach ([100, 30000, 40000, 0, 35436].map (Demand.mk .plain))).run a₀).state = a ∧
    a.frontUsed = 65536 ∧ a.size = 65536 ∧ ¬ ∃ offset, ((alloc 1).run a).result = .ok offset := by
  have hrun : ∃ a₀ a, ((create ⟨4096, 131072, .pinned⟩).run ()).result = .ok a₀ ∧
      ((allocEach ([100, 30000, 40000, 0, 35436].map (Demand.mk .plain))).run a₀).state = a ∧
      a.frontUsed = 65536 := by
    refine ⟨_, _, rfl, rfl, ?_⟩
    decide +kernel
  obtain ⟨a₀, a, hcreate, hrun, hused⟩ := hrun
  obtain ⟨-, hsize, hanswered⟩ := front_only_exact hcreate (by decide) hrun
  refine ⟨a₀, a, hcreate, hrun, hused, ?_, ?_⟩
  · rw [hsize, hused]
    decide
  · intro hanswer
    have hfits := ((hanswered 1).1 hanswer).2
    rw [hused] at hfits
    exact absurd hfits (by decide)

/-- A block of no bytes is turned down, although it fits any half. -/
theorem empty_block_refused : ∃ a₀, ((create ⟨4096, 131072, .pinned⟩).run ()).result = .ok a₀ ∧
    a₀.frontUsed + 0 ≤ 131072 / 2 ∧ ¬ ∃ offset, ((alloc 0).run a₀).result = .ok offset := by
  refine ⟨_, rfl, by decide +kernel, ?_⟩
  rintro ⟨offset, hanswer⟩
  exact nomatch (congrArg (·.result) (serve_unadmitted .front (by decide))).symm.trans hanswer

end

end Arena

end SlotArena
