import SlotArena.Proofs.Exhaustion
import SlotArena.Proofs.Refusals

/-!
One growth is enough. Growth reads cursors that others may have added to, or taken claims back from,
since the window was last grown, so the only thing it can go by is the window itself. It is enough
all the same: whatever the cursors hold, growth that succeeds reaches what its own cursor holds, and
growth that is refused leaves the window as it was, whoever refuses (`one_growth_suffices`). So
whoever has to grow does it once at most.

Sizes are plain numbers in growth. `plan?` finds them as a machine does, where sums and products
have to fit a word, a difference must not be negative and nothing is divided by zero; for every
window that an arena can have it comes to the same sizes (`plan?_eq`).
-/

namespace SlotArena

open Act

/-! ### Numbers in words -/

/-- A number, if a word of `width` values holds it. -/
def held (width n : Nat) : Option Nat := if n < width then some n else none

def difference (m n : Nat) : Option Nat := if n ≤ m then some (m - n) else none

def quotient (m n : Nat) : Option Nat := if n = 0 then none else some (m / n)

def wholePages? (n : Nat) : Option Nat :=
  if n % pageSize = 0 then some n else held word64 (n + (pageSize - n % pageSize))

def doubleUntil? (target : Nat) : (fuel : Nat) → (n : Nat) → Option Nat
  | 0, n => if n < target then none else some n
  | fuel + 1, n =>
      if n < target then (held word64 (n * 2)).bind (doubleUntil? target fuel) else some n

theorem held_eq {width n : Nat} (h : n < width) : held width n = some n := if_pos h

theorem difference_eq {m n : Nat} (h : n ≤ m) : difference m n = some (m - n) := if_pos h

theorem quotient_eq {m n : Nat} (h : 0 < n) : quotient m n = some (m / n) :=
  if_neg (Nat.ne_of_gt h)

theorem wholePages?_eq {n : Nat} (h : roundUp n pageSize < word64) :
    wholePages? n = some (roundUp n pageSize) := by
  unfold wholePages? held
  simp only [roundUp, pageSize, word64] at h ⊢
  split
  · exact congrArg some (by omega)
  · rw [if_pos (by omega)]
    exact congrArg some (by omega)

theorem doubleUntil?_eq {target fuel n : Nat} (h : target ≤ n * 2 ^ fuel)
    (hword : 2 * target ≤ word64) :
    doubleUntil? target fuel n = some (doubleUntil target fuel n) := by
  induction fuel generalizing n with
  | zero =>
    have hreached : ¬ n < target := Nat.not_lt.mpr (by simpa using h)
    rw [doubleUntil?, if_neg hreached, doubleUntil]
  | succ fuel ih =>
    unfold doubleUntil? doubleUntil
    split
    · rename_i hshort
      have hnext : target ≤ n * 2 * 2 ^ fuel := by rwa [Nat.mul_assoc, ← Nat.pow_succ']
      rw [held_eq (by omega), Option.bind_some, ih hnext]
    · rfl

/-! ### Growth that does not go on -/

theorem Cursor.growUntil_once {σ : Type} {grow : Act σ Nat} {next stop fuel : Nat} {s : σ}
    (hfuel : 1 < fuel) (henough : ∀ stop', (grow.run s).result = .ok stop' → next ≤ stop') :
    (growUntil grow next fuel stop).run s =
      if stop < next then grow.run s else ⟨.ok stop, s, []⟩ := by
  obtain ⟨fuel, rfl⟩ : ∃ k, fuel = k + 1 + 1 := ⟨fuel - 2, by omega⟩
  by_cases hshort : stop < next
  · rw [growUntil, if_pos hshort, if_pos hshort, run_bind]
    rcases hgrow : grow.run s with ⟨fault | stop', s', es⟩
    · rfl
    · rw [hgrow] at henough
      dsimp only
      rw [growUntil, if_neg (Nat.not_lt.mpr (henough stop' rfl)), run_pure, List.append_nil]
  · rw [growUntil, if_neg hshort, if_neg hshort, run_pure]

namespace Arena

/-! ### What growth goes for -/

/-- The size of the window that growth goes for and where the origin is to be in it, unless both
sides have twice their usage already. -/
def plan (a : Arena) : Option (Nat × Nat) :=
  let backUsed := roundUp a.back.next pageSize
  let frontUsed := roundUp a.front.next pageSize
  let backRequired := max backUsed a.center
  let frontRequired := max frontUsed (a.size - a.center)
  if backRequired < backUsed * 2 ∨ frontRequired < frontUsed * 2 then
    some (a.wanted, placeOrigin a.wanted frontUsed backUsed frontRequired backRequired)
  else none

/-- The place of the origin as a machine finds it. Only the product has twice the width; the
quotient is cut back to a word. -/
def placeOrigin? (size totalUsed backUsed frontRequired backRequired : Nat) : Option Nat :=
  if backUsed = 0 then some backRequired
  else do
    let share := (← quotient (← held (2 ^ 128) (size * backUsed)) totalUsed) % word64
    let center := max (share / pageSize * pageSize) backRequired
    if (← difference size center) < frontRequired then difference size frontRequired
    else some center

/-- The plan as a machine finds it, one operation after the other. -/
def plan? (a : Arena) : Option (Option (Nat × Nat)) := do
  let backUsed ← wholePages? a.back.next
  let frontUsed ← wholePages? a.front.next
  let totalUsed ← held word64 (frontUsed + backUsed)
  let backRequired := max backUsed a.center
  let frontRequired := max frontUsed (← difference a.size a.center)
  if backRequired < (← held word64 (backUsed * 2)) ∨
      frontRequired < (← held word64 (frontUsed * 2)) then
    let required ← held word64 (backRequired + frontRequired)
    let size ← doubleUntil? required (required.log2 + 1) (← held word64 (a.size * 2))
    let center ← placeOrigin? size totalUsed backUsed frontRequired backRequired
    -- what is new on both sides together is counted
    let _ ← difference size a.size
    return some (size, center)
  else return none

def growBy [Host] (side : Side) (plan : Option (Nat × Nat)) : Act Arena Nat := do
  if let some (size, center) := plan then
    let a ← get
    onWindow (Window.expandRange center size)
    note (.arenaGrew side a.size size a.center center (roundUp a.front.next pageSize)
      (roundUp a.back.next pageSize))
  cursorBytes ((← get).reach side)

variable {a : Arena} {side : Side}

theorem grow_eq [Host] (hsize : 0 < a.size) (hclaims : 0 < (a.cursor side).next) :
    (grow side).run a = (growBy side a.plan).run a := by
  have hclaimed : side = .front ∨ 0 < roundUp a.back.next pageSize := by
    cases side with
    | front => exact Or.inl rfl
    | back => exact Or.inr (Nat.lt_of_lt_of_le hclaims (roundUp_ge _ (by decide)))
  simp only [grow, growBy, plan, run_bind, run_get, run_ensure, if_pos hsize, if_pos hclaimed,
    List.nil_append]
  split
  · rfl
  · rfl

theorem placeOrigin?_eq {size frontUsed backUsed frontRequired backRequired : Nat}
    (h : backRequired + frontRequired ≤ size) (hsize : size ≤ 2 ^ 34) (hback : backUsed ≤ 2 ^ 32) :
    placeOrigin? size (frontUsed + backUsed) backUsed frontRequired backRequired =
      some (placeOrigin size frontUsed backUsed frontRequired backRequired) := by
  unfold placeOrigin? placeOrigin
  by_cases hnone : backUsed = 0
  · simp only [if_pos hnone]
  · have hproduct : size * backUsed < 2 ^ 128 :=
      Nat.lt_of_le_of_lt (Nat.mul_le_mul hsize hback) (by decide)
    have hquotient : size * backUsed / (frontUsed + backUsed) ≤ size := by
      rw [Nat.mul_comm size]
      exact Nat.div_le_of_le_mul (Nat.mul_le_mul_right _ (Nat.le_add_left ..))
    have hword : size * backUsed / (frontUsed + backUsed) % word64 =
        size * backUsed / (frontUsed + backUsed) :=
      Nat.mod_eq_of_lt (Nat.lt_of_le_of_lt (Nat.le_trans hquotient hsize) (by decide))
    have hcenter : max (size * backUsed / (frontUsed + backUsed) / pageSize * pageSize)
        backRequired ≤ size := by
      have hpages := Nat.div_mul_le_self (size * backUsed / (frontUsed + backUsed)) pageSize
      omega
    simp only [if_neg hnone, held_eq hproduct, quotient_eq (show 0 < frontUsed + backUsed by omega),
      Option.bind_eq_bind, Option.bind_some, hword, difference_eq hcenter]
    split
    · exact difference_eq (by omega)
    · rfl

theorem plan?_eq (hw : a.window.Sound) (hback : a.window.extent.back ≤ 2 ^ 31)
    (hfront : a.window.extent.front ≤ 2 ^ 31) (hword : ∀ side, (a.cursor side).next < word32) :
    a.plan? = some a.plan := by
  -- the cursors hold no more than a word of 32 bits, and the window is within one as well
  have hpages : ∀ {n : Nat}, n < word32 → roundUp n pageSize ≤ 2 ^ 32 := fun h =>
    roundUp_le (by decide) (by decide) (Nat.le_of_lt h)
  have hheld : ∀ {n : Nat}, n ≤ 2 ^ 35 → held word64 n = some n := fun h =>
    held_eq (Nat.lt_of_le_of_lt h (by decide))
  have hbackUsed : roundUp a.back.next pageSize ≤ 2 ^ 32 := hpages (hword .back)
  have hfrontUsed : roundUp a.front.next pageSize ≤ 2 ^ 32 := hpages (hword .front)
  have hcenter : a.center ≤ 2 ^ 31 := Nat.le_trans hw.center_le_back hback
  have hreach : a.size - a.center ≤ 2 ^ 31 := Nat.le_trans hw.front_le_front hfront
  have hsize : a.center ≤ a.size := hw.center_le_size
  simp only [plan?, plan, wanted]
  rw [wholePages?_eq (Nat.lt_of_le_of_lt hbackUsed (by decide)),
    wholePages?_eq (Nat.lt_of_le_of_lt hfrontUsed (by decide))]
  generalize roundUp a.back.next pageSize = backUsed at *
  generalize roundUp a.front.next pageSize = frontUsed at *
  simp only [Option.bind_eq_bind, Option.bind_some, difference_eq hsize,
    hheld (show frontUsed + backUsed ≤ 2 ^ 35 by omega),
    hheld (show backUsed * 2 ≤ 2 ^ 35 by omega), hheld (show frontUsed * 2 ≤ 2 ^ 35 by omega)]
  have hrequired : max backUsed a.center + max frontUsed (a.size - a.center) ≤ 2 ^ 33 := by omega
  generalize max backUsed a.center = backRequired at *
  generalize max frontUsed (a.size - a.center) = frontRequired at *
  split
  · have hle := doublePast_le (backRequired + frontRequired) a.size
    have hge : backRequired + frontRequired ≤ doublePast (backRequired + frontRequired) a.size :=
      doublePast_ge hw.size_pos
    have hdoubled : doubleUntil? (backRequired + frontRequired)
        ((backRequired + frontRequired).log2 + 1) (a.size * 2) =
          some (doublePast (backRequired + frontRequired) a.size) :=
      doubleUntil?_eq (le_doubled _ hw.size_pos)
        (Nat.le_trans (show 2 * (backRequired + frontRequired) ≤ 2 ^ 34 by omega) (by decide))
    have hgrows := two_mul_le_doublePast (backRequired + frontRequired) a.size
    rw [hheld (by omega), hheld (by omega), Option.bind_some, Option.bind_some, hdoubled,
      Option.bind_some, placeOrigin?_eq hge (by omega) hbackUsed, Option.bind_some,
      difference_eq (by omega)]
    rfl
  · rfl

/-! ### Windows of arenas -/

/-- The windows that arenas of a configuration have, between two requests or while any number of
claimants are at it. -/
def Shown (config : ArenaConfig) (w : Window) : Prop :=
  ∃ (hosts : Host → Prop) (a : Arena) (m : Claimants Arena Side Nat), Reached config a ∧
    Claimants.Reachable (claimable hosts) a m ∧ m.object.window = w

theorem Reached.shown {config : ArenaConfig} (h : Reached config a) : Shown config a.window :=
  ⟨fun _ => True, a, .start a, h, .refl, rfl⟩

theorem Shown.sound {config : ArenaConfig} {w : Window} (h : Shown config w) :
    w.Sound ∧ w.extent.back ≤ 2 ^ 31 ∧ w.extent.front ≤ 2 ^ 31 := by
  obtain ⟨hosts, a, m, hreached, hrun, rfl⟩ := h
  have hsteady := steady_of_reachable hreached.sound hrun
  exact ⟨hsteady.window, hsteady.back_le, hsteady.front_le⟩

/-- In any window that an arena can have, and whatever words the cursors are, growth for a side that
claims something finds the same numbers as it would without bounds on numbers. It is refused and
leaves the window as it was - for want of space without a word, and by a host that declines with a
piece committed for nothing at most - or it reaches what its cursor holds. So whoever has to grow
for a claim that its cursor holds grows once, or not at all if the end that it found was enough. -/
theorem one_growth_suffices [Host] {config : ArenaConfig} (h : Shown config a.window)
    (hword : ∀ side, (a.cursor side).next < word32) (hclaims : 0 < (a.cursor side).next) :
    (∃ plan, a.plan? = some plan ∧ (grow side).run a = (growBy side plan).run a) ∧
    ((∃ requested reserved,
        (grow side).run a = ⟨.error (.refused (.outOfReservedSpace requested reserved)), a, []⟩) ∨
      (∃ cause b es, (grow side).run a = ⟨.error (.refused (.growth cause)),
          { a with window := { a.window with backing := b } }, es⟩ ∧
        Window.Stayed a.window.backing b ∧ (∀ ev ∈ es, ∃ n, ev = .note n) ∧ ¬ Host.Generous) ∨
      ∃ stop w es, (grow side).run a = ⟨.ok stop, { a with window := w }, es⟩ ∧
        a.window.Extends w ∧ stop = ({ a with window := w } : Arena).reach side ∧
        (a.cursor side).next ≤ stop) ∧
    ∀ next ≤ (a.cursor side).next, ∀ stop fuel, 1 < fuel →
      (Cursor.growUntil (grow side) next fuel stop).run a =
        if stop < next then (grow side).run a else ⟨.ok stop, a, []⟩ := by
  obtain ⟨hw, hback, hfront⟩ := h.sound
  have hgrow := grow_meets hw hback hfront side hclaims
  refine ⟨⟨a.plan, plan?_eq hw hback hfront hword, grow_eq hw.size_pos hclaims⟩, ?_,
    fun next hnext stop fuel hfuel => Cursor.growUntil_once hfuel fun stop' hanswer => ?_⟩
  · have htold := grow_mute a side
    unfold Mute Leaves at htold
    rcases hrun : (grow side).run a with ⟨fault | stop, a', es⟩
    · obtain ⟨why, rfl, hno⟩ := exists_refusal (hgrow.of_error (congrArg (·.result) hrun))
      rw [hrun] at hno htold
      obtain ⟨w, rfl, hw⟩ := hno
      have hes := htold why rfl
      cases hw with
      | space _ requested reserved =>
        obtain rfl : es = [] := hes
        exact Or.inl ⟨requested, reserved, rfl⟩
      | @host cause mean b stayed =>
        exact Or.inr (Or.inl ⟨cause, b, es, rfl, stayed, hes, mean⟩)
    · obtain ⟨w, hstate, -, hext, hstop, hreach, -⟩ := hgrow.of_ok (congrArg (·.result) hrun)
      rw [hrun] at hstate hstop
      subst hstate
      exact Or.inr (Or.inr ⟨stop, w, es, rfl, hext, hstop, hreach⟩)
  · obtain ⟨w, -, -, -, -, hreach, -⟩ := hgrow.of_ok hanswer
    exact Nat.le_trans hnext hreach

section

attribute [local instance] Host.plain

/-- The back has taken its claim back after it had moved the origin, and others wait at the front.
-/
theorem one_growth_suffices_of_taken_back : ∃ a, Shown ⟨4096, 2 ^ 20, .pinned⟩ a.window ∧
    a.center = 12288 ∧ a.back.next = 0 ∧ a.front = ⟨60000, 4096⟩ ∧
    a.plan? = some (some (131072, 12288)) ∧
    ((Cursor.growUntil (grow .front) 6000 6001 4096).run a).result = .ok 118784 := by
  have hrun : ∃ a₀ a₁ a, ((create ⟨4096, 2 ^ 20, .pinned⟩).run ()).result = .ok a₀ ∧
      a₁ = ((Request.block .back 5000).act.run a₀).state ∧
      a = { a₁ with front := ⟨60000, 4096⟩, back := ⟨0, 12288⟩ } ∧
      ((Request.block .back 5000).act.run a₀).result = .ok (.block (-5000)) ∧ a.center = 12288 ∧
      a.plan? = some (some (131072, 12288)) ∧ ((grow .front).run a).result = .ok 118784 := by
    refine ⟨_, _, _, rfl, rfl, rfl, ?_⟩
    decide +kernel
  obtain ⟨a₀, a₁, a, hcreate, ha₁, ha, hanswer, hcenter, hplan, hgrow⟩ := hrun
  have hshown : Shown ⟨4096, 2 ^ 20, .pinned⟩ a.window :=
    ha ▸ ((Reached.created hcreate).answered _ hanswer ha₁).shown
  have hfront : a.front = ⟨60000, 4096⟩ := ha ▸ rfl
  have hback : a.back = ⟨0, 12288⟩ := ha ▸ rfl
  have hword : ∀ side, (a.cursor side).next < word32
    | .front => show a.front.next < word32 from hfront ▸ (by decide : 60000 < word32)
    | .back => show a.back.next < word32 from hback ▸ (by decide : 0 < word32)
  have hclaims : 6000 ≤ (a.cursor .front).next :=
    show 6000 ≤ a.front.next from hfront ▸ (by decide : 6000 ≤ 60000)
  have hsome : 0 < (a.cursor .front).next := Nat.lt_of_lt_of_le (by decide) hclaims
  obtain ⟨-, -, honce⟩ := one_growth_suffices hshown hword hsome
  refine ⟨a, hshown, hcenter, congrArg (·.next) hback, hfront, hplan, ?_⟩
  rw [honce 6000 hclaims 4096 6001 (by decide), if_pos (by decide)]
  exact hgrow

end

end Arena

end SlotArena
