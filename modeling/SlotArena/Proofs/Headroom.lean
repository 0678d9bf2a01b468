import SlotArena.Proofs.Growth

/-!
How much room growth leaves. Growth goes on as long as one of the sides has less than twice its
usage, but what it goes for is room for the usage alone. Where the window held the usage already
this makes no difference, because growth doubles it. Where a claim leads out of the window, both
sides have twice their usage afterwards just if twice the usage, and no less than each side had
before, fits the window that growth came to (`grown_roomy_iff`); an arena that is filled page by
page has nothing to spare after it has grown (`grows_for_one_page`).
-/

namespace SlotArena

open Act

theorem Window.expandRange_sized [Host] (w : Window) (center size : Nat) :
    (expandRange center size).Meets w (fun _ w' => w'.size = size ∧ w'.center = center)
      fun _ _ => True := by
  simp only [expandRange, meets_bind, meets_get, meets_ensure, meets_ite, meets_refuse,
    implies_true, true_and, and_true]
  refine fun _ _ _ _ _ => Meets.of_always (fun answer w' => ?_) fun _ _ => trivial
  cases answer with
  | error why => exact trivial
  | ok done => exact ⟨rfl, rfl⟩

namespace Arena

def paged (a : Arena) (side : Side) : Nat := roundUp (a.cursor side).next pageSize

/-- Both sides have twice their usage. -/
def Roomy (a : Arena) : Prop := ∀ side, 2 * a.paged side ≤ a.reach side

theorem roomy_iff_sides {a : Arena} :
    a.Roomy ↔ 2 * a.paged .front ≤ a.reach .front ∧ 2 * a.paged .back ≤ a.reach .back :=
  ⟨fun h => ⟨h .front, h .back⟩, fun h side => side.casesOn h.1 h.2⟩

instance (a : Arena) : Decidable a.Roomy := decidable_of_iff _ roomy_iff_sides.symm

/-- What a side requires of growth: its usage, and what it has already. -/
def required (a : Arena) (side : Side) : Nat := max (a.paged side) (a.reach side)

/-- What a side would need in order to have twice its usage without losing anything. -/
def due (a : Arena) (side : Side) : Nat := max (2 * a.paged side) (a.reach side)

/-! ### The share of a side -/

/-- Of a window of twice the usage, both sides get twice their usage when they share it as they
share the usage. -/
theorem share_between {size frontUsed backUsed : Nat} (hused : 0 < frontUsed + backUsed)
    (h : 2 * (frontUsed + backUsed) ≤ size) :
    2 * backUsed ≤ size * backUsed / (frontUsed + backUsed) ∧
      size * backUsed / (frontUsed + backUsed) + 2 * frontUsed ≤ size := by
  obtain ⟨more, rfl⟩ := Nat.exists_eq_add_of_le h
  refine ⟨?_, ?_⟩
  · rw [Nat.le_div_iff_mul_le hused, Nat.mul_right_comm]
    exact Nat.mul_le_mul_right _ (Nat.le_add_right ..)
  · have hmore : more * backUsed ≤ more * (frontUsed + backUsed) :=
      Nat.mul_le_mul_left _ (Nat.le_add_left ..)
    have hquotient : (2 * (frontUsed + backUsed) + more) * backUsed / (frontUsed + backUsed) ≤
        2 * backUsed + more := by
      apply Nat.div_le_of_le_mul
      calc (2 * (frontUsed + backUsed) + more) * backUsed
          = 2 * backUsed * (frontUsed + backUsed) + more * backUsed := by
            rw [Nat.add_mul, Nat.mul_right_comm]
        _ ≤ 2 * backUsed * (frontUsed + backUsed) + more * (frontUsed + backUsed) :=
            Nat.add_le_add_left hmore _
        _ = (frontUsed + backUsed) * (2 * backUsed + more) := by
            rw [← Nat.add_mul, Nat.mul_comm]
    omega

theorem le_wholePages {m n : Nat} (hpage : pageSize ∣ m) (h : m ≤ n) :
    m ≤ n / pageSize * pageSize := by
  rw [← Nat.div_mul_cancel hpage]
  exact Nat.mul_le_mul_right _ (Nat.div_le_div_right h)

/-- The sides get twice their usage wherever there is room for that and for what they require. -/
theorem placeOrigin_roomy_iff (frontUsed : Nat) {size backUsed frontRequired backRequired : Nat}
    (hpage : pageSize ∣ backUsed) (h : backRequired + frontRequired ≤ size) :
    2 * backUsed ≤ placeOrigin size frontUsed backUsed frontRequired backRequired ∧
        placeOrigin size frontUsed backUsed frontRequired backRequired + 2 * frontUsed ≤ size ↔
      max (2 * backUsed) backRequired + max (2 * frontUsed) frontRequired ≤ size := by
  refine ⟨fun hroomy => ?_, fun hroom => ?_⟩
  · obtain ⟨hback, hfront⟩ := placeOrigin_bounds frontUsed backUsed h
    omega
  · unfold placeOrigin
    split
    · omega
    · obtain ⟨hback, hfront⟩ := share_between (by omega)
        (show 2 * (frontUsed + backUsed) ≤ size by omega)
      have hpages := Nat.div_mul_le_self (size * backUsed / (frontUsed + backUsed)) pageSize
      have hwhole := le_wholePages (Nat.dvd_mul_left_of_dvd hpage 2) hback
      dsimp only
      split
      · omega
      · omega

/-! ### After growth -/

variable {a : Arena} {side : Side}

theorem growBy_meets [Host] (side : Side) (plan : Option (Nat × Nat)) :
    (growBy side plan).Meets a
      (fun _ a' => match plan with
        | none => a' = a
        | some (size, center) => a'.size = size ∧ a'.center = center)
      fun _ _ => True := by
  cases plan with
  | none =>
    simp only [growBy, cursorBytes, meets_bind, meets_get, meets_ensure, meets_pure, implies_true,
      and_true]
  | some plan =>
    obtain ⟨size, center⟩ := plan
    simp only [growBy, onWindow, cursorBytes, meets_bind, meets_get, meets_focus, meets_ensure,
      meets_note, meets_pure, implies_true, and_true]
    exact (Window.expandRange_sized a.window center size).imp fun _ w hw _ => hw

theorem roomy_iff_center (h : a.center ≤ a.size) :
    a.Roomy ↔ 2 * a.paged .back ≤ a.center ∧ a.center + 2 * a.paged .front ≤ a.size := by
  rw [roomy_iff_sides]
  simp only [reach]
  omega

/-- Growth that succeeds leaves an arena as it is if both sides have twice their usage. Otherwise it
comes to the size that it goes for, with the origin where it is to be. -/
theorem grow_sized [Host] (hw : a.window.Sound) (hclaims : 0 < (a.cursor side).next) {stop : Nat}
    (hanswer : ((grow side).run a).result = .ok stop) :
    (a.Roomy ∧ ((grow side).run a).state = a) ∨
      ((grow side).run a).state.size = a.wanted ∧ ((grow side).run a).state.center =
        placeOrigin a.wanted (a.paged .front) (a.paged .back) (a.required .front)
          (a.required .back) := by
  rw [grow_eq hw.size_pos hclaims] at hanswer ⊢
  have hsized := (growBy_meets side a.plan).of_ok hanswer
  by_cases hspare : a.required .back < a.paged .back * 2 ∨ a.required .front < a.paged .front * 2
  · have hplan : a.plan = some (a.wanted, placeOrigin a.wanted (a.paged .front) (a.paged .back)
        (a.required .front) (a.required .back)) := if_pos hspare
    rw [hplan] at hsized ⊢
    exact Or.inr hsized
  · have hplan : a.plan = none := if_neg hspare
    rw [hplan] at hsized ⊢
    refine Or.inl ⟨?_, hsized⟩
    simp only [required, reach] at hspare
    rintro (_ | _)
    · simp only [reach]
      omega
    · simp only [reach]
      omega

/-- Growth that succeeds gives each side room for its usage and leaves it what it had, and a window
that grows is doubled at least. Both sides get twice their usage just if there is room for that and
for what they had; so they do wherever the window held the usage before. -/
theorem grown_roomy_iff [Host] {config : ArenaConfig} (h : Shown config a.window)
    (hclaims : 0 < (a.cursor side).next) {stop : Nat}
    (hanswer : ((grow side).run a).result = .ok stop) :
    (∀ other, a.required other ≤ ((grow side).run a).state.reach other) ∧
      (((grow side).run a).state = a ∨ 2 * a.size ≤ ((grow side).run a).state.size) ∧
      (((grow side).run a).state.Roomy ↔
        a.due .back + a.due .front ≤ ((grow side).run a).state.size) ∧
      ((∀ other, a.paged other ≤ a.reach other) → ((grow side).run a).state.Roomy) := by
  obtain ⟨hw, -, -⟩ := h.sound
  have hcenter : a.center ≤ a.size := hw.center_le_size
  have hpaged : ∀ other, ((grow side).run a).state.paged other = a.paged other := fun other => by
    rw [paged, grow_cursor, paged]
  have hgrown := grow_sized hw hclaims hanswer
  generalize ((grow side).run a).state = a' at *
  rcases hgrown with ⟨hroomy, rfl⟩ | ⟨hsize, hplaced⟩
  · have hback := hroomy .back
    have hfront := hroomy .front
    refine ⟨?_, Or.inl rfl, iff_of_true hroomy ?_, fun _ => hroomy⟩
    · rintro (_ | _)
      · simp only [required]
        omega
      · simp only [required]
        omega
    · simp only [due, reach] at hback hfront ⊢
      omega
  · have hpage : pageSize ∣ a.paged .back := dvd_roundUp ..
    have hfits : a.required .back + a.required .front ≤ a'.size :=
      hsize ▸ doublePast_ge hw.size_pos
    have htwice : 2 * a.size ≤ a'.size := hsize ▸ two_mul_le_doublePast ..
    rw [← hsize] at hplaced
    obtain ⟨hback, hfront⟩ := placeOrigin_bounds (a.paged .front) (a.paged .back) hfits
    have hroomy := placeOrigin_roomy_iff (a.paged .front) hpage hfits
    rw [← hplaced] at hback hfront hroomy
    rw [roomy_iff_center (by omega), hpaged, hpaged, hroomy]
    simp only [required, due, reach] at hback hfront hroomy ⊢
    refine ⟨?_, Or.inr htwice, by omega, fun hheld => ?_⟩
    · rintro (_ | _)
      · dsimp only
        omega
      · exact hback
    · have hheldBack := hheld .back
      have hheldFront := hheld .front
      dsimp only at hheldBack hheldFront
      omega

section

attribute [local instance] Host.plain

/-- The first block at the back leads out of the window, and there is room for twice its size. -/
theorem grown_roomy_iff_of_back : ∃ a, Reached ⟨65536, 2 ^ 20, .pinned⟩ a ∧
    a.reach .back < (a.asking .back 5000).paged .back ∧
    ((grow .back).run (a.asking .back 5000)).result = .ok 65536 ∧
    ((grow .back).run (a.asking .back 5000)).state.Roomy := by
  have hrun : ∃ a₀ a₁, ((create ⟨65536, 2 ^ 20, .pinned⟩).run ()).result = .ok a₀ ∧
      a₁ = ((Request.block .front 5000).act.run a₀).state ∧
      ((Request.block .front 5000).act.run a₀).result = .ok (.block 0) ∧
      a₁.reach .back < (a₁.asking .back 5000).paged .back ∧
      ((grow .back).run (a₁.asking .back 5000)).result = .ok 65536 ∧
      (a₁.asking .back 5000).due .back + (a₁.asking .back 5000).due .front ≤
        ((grow .back).run (a₁.asking .back 5000)).state.size := by
    refine ⟨_, _, rfl, rfl, ?_⟩
    decide +kernel
  obtain ⟨a₀, a₁, hcreate, ha₁, h₁, hbeyond, hanswer, hroom⟩ := hrun
  have hreached := (Reached.created hcreate).answered _ h₁ ha₁
  have hshown : Shown ⟨65536, 2 ^ 20, .pinned⟩ (a₁.asking .back 5000).window :=
    (asking_window a₁ .back 5000).symm ▸ hreached.shown
  have hclaims : 0 < ((a₁.asking .back 5000).cursor .back).next := by
    rw [asking_next]
    omega
  obtain ⟨-, -, hroomy, -⟩ := grown_roomy_iff hshown hclaims hanswer
  exact ⟨a₁, hreached, hbeyond, hanswer, hroomy.mpr hroom⟩

/-- Growth without room to spare, though the extent has more than enough of it: a front that asks
for its second page gets that page and no other. -/
theorem grows_for_one_page : ∃ a, Reached ⟨4096, 65536, .remap⟩ a ∧
    ((grow .front).run (a.asking .front 4096)).result = .ok 8192 ∧
    ((grow .front).run (a.asking .front 4096)).state.paged .front = 8192 ∧
    ¬ ((grow .front).run (a.asking .front 4096)).state.Roomy := by
  have hrun : ∃ a₀ a₁, ((create ⟨4096, 65536, .remap⟩).run ()).result = .ok a₀ ∧
      a₁ = ((Request.block .front 4096).act.run a₀).state ∧
      ((Request.block .front 4096).act.run a₀).result = .ok (.block 0) ∧
      ((grow .front).run (a₁.asking .front 4096)).result = .ok 8192 ∧
      ((grow .front).run (a₁.asking .front 4096)).state.paged .front = 8192 ∧
      ¬ ((grow .front).run (a₁.asking .front 4096)).state.Roomy := by
    refine ⟨_, _, rfl, rfl, ?_⟩
    decide +kernel
  obtain ⟨a₀, a₁, hcreate, ha₁, h₁, hleft⟩ := hrun
  exact ⟨a₁, (Reached.created hcreate).answered _ h₁ ha₁, hleft⟩

end

end Arena

end SlotArena
