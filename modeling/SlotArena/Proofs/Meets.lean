import SlotArena.Act

/-!
Reasoning about operations. `x.Meets s good bad` says what becomes of `x` on the object `s`: where
it answers, `good` holds of the answer and of what is left of the object, and where it stops, `bad`
holds of the fault and of what is left.

An operation that is used as it should be refuses at most: `refusing` is the `bad` that no broken
contract and no endless wait meets, and `Never` the one that nothing meets. So one judgment carries
three things at once, that an operation is safe, what it does and what it leaves behind where it
fails. Where the same is left behind by a broken contract, `stopping` says so of any use at once.
The rules below take a `do` block apart line by line. Events are not part of it.
-/

namespace SlotArena

/-- The allocator says what it ran out of: no contract is broken, and nobody waits. -/
def Fault.IsRefusal : Fault → Prop
  | .refused _ => True
  | _ => False

namespace Act

variable {σ τ α β : Type}

/-- From `s` on, `x` answers with `good` or stops with `bad`. -/
def Meets (x : Act σ α) (s : σ) (good : α → σ → Prop) (bad : Fault → σ → Prop) : Prop :=
  match (x.run s).result with
  | .ok a => good a (x.run s).state
  | .error e => bad e (x.run s).state

/-- Stops by refusing only, and then with `r`. -/
def refusing (r : Refusal → σ → Prop) : Fault → σ → Prop
  | .refused why, s => r why s
  | _, _ => False

/-- Stops with `left`, and by refusing only if `proper`. -/
def stopping (proper : Prop) (left : σ → Prop) : Fault → σ → Prop :=
  fun e s => left s ∧ (proper → e.IsRefusal)

def Never : Fault → σ → Prop := fun _ _ => False

@[simp] theorem refusing_refused (r : Refusal → σ → Prop) (why : Refusal) (s : σ) :
    refusing r (.refused why) s ↔ r why s := Iff.rfl

@[simp] theorem refusing_violated (r : Refusal → σ → Prop) (what : Violation) (s : σ) :
    refusing r (.violated what) s ↔ False := Iff.rfl

@[simp] theorem refusing_stuck (r : Refusal → σ → Prop) (s : σ) :
    refusing r .stuck s ↔ False := Iff.rfl

@[simp] theorem stopping_refused (proper : Prop) (left : σ → Prop) (why : Refusal) (s : σ) :
    stopping proper left (.refused why) s ↔ left s := and_iff_left fun _ => trivial

@[simp] theorem stopping_violated (proper : Prop) (left : σ → Prop) (what : Violation) (s : σ) :
    stopping proper left (.violated what) s ↔ left s ∧ ¬ proper := Iff.rfl

theorem refusing_mono {r r' : Refusal → σ → Prop} (h : ∀ why s, r why s → r' why s) :
    ∀ (e : Fault) (s : σ), refusing r e s → refusing r' e s
  | .refused why, s, hr => h why s hr
  | .violated _, _, hr => hr
  | .stuck, _, hr => hr

theorem exists_refusal {r : Refusal → σ → Prop} : ∀ {e : Fault} {s : σ}, refusing r e s →
    ∃ why, e = .refused why ∧ r why s
  | .refused why, _, hr => ⟨why, rfl, hr⟩

section

variable {x : Act σ α} {s : σ} {good good' : α → σ → Prop} {bad bad' : Fault → σ → Prop}
  {r r' : Refusal → σ → Prop}

theorem Meets.weaken (h : x.Meets s good bad) (hgood : ∀ a t, good a t → good' a t)
    (hbad : ∀ e t, bad e t → bad' e t) : x.Meets s good' bad' := by
  unfold Meets at h ⊢
  split at h
  · exact hgood _ _ h
  · exact hbad _ _ h

theorem Meets.mono (h : x.Meets s good (refusing r)) (hgood : ∀ a t, good a t → good' a t)
    (hr : ∀ why t, r why t → r' why t) : x.Meets s good' (refusing r') :=
  h.weaken hgood (refusing_mono hr)

/-- Of what refuses at most, only the refusals matter. -/
theorem Meets.on_refusal (h : x.Meets s good (refusing r)) (hgood : ∀ a t, good a t → good' a t)
    (hr : ∀ why t, r why t → bad' (.refused why) t) : x.Meets s good' bad' := by
  refine h.weaken hgood ?_
  rintro (why | _ | _) t ht
  · exact hr why t ht
  · exact ht.elim
  · exact ht.elim

theorem Meets.imp (h : x.Meets s good bad) (hgood : ∀ a t, good a t → good' a t) :
    x.Meets s good' bad :=
  h.weaken hgood fun _ _ => id

/-- An operation that never stops meets any expectation about faults. -/
theorem Meets.sure (h : x.Meets s good Never) (hgood : ∀ a t, good a t → good' a t) :
    x.Meets s good' bad :=
  h.weaken hgood fun _ _ => False.elim

theorem Meets.and_answers (h : x.Meets s good bad) (h' : x.Meets s good' bad') :
    x.Meets s (fun a t => good a t ∧ good' a t) bad' := by
  unfold Meets at h h' ⊢
  cases hx : (x.run s).result with
  | ok a =>
    rw [hx] at h h'
    exact ⟨h, h'⟩
  | error e =>
    rw [hx] at h'
    exact h'

theorem Meets.under {p : Prop} (h : p → x.Meets s good bad) :
    x.Meets s (fun a t => p → good a t) fun e t => p → bad e t := by
  unfold Meets at h ⊢
  split
  · rename_i hx
    rw [hx] at h
    exact h
  · rename_i hx
    rw [hx] at h
    exact h

theorem Meets.of_always (hgood : ∀ a t, good a t) (hbad : ∀ e t, bad e t) : x.Meets s good bad := by
  unfold Meets
  split
  · exact hgood _ _
  · exact hbad _ _

theorem Meets.never (h : x.Meets s good (refusing r)) (hr : ∀ why t, ¬ r why t) :
    x.Meets s good Never :=
  h.on_refusal (fun _ _ => id) hr

section

variable {proper proper' : Prop} {left left' : σ → Prop}

/-- What refuses at most does so however it is used. -/
theorem Meets.of_refusing (h : x.Meets s good (refusing fun _ => left)) :
    x.Meets s good (stopping proper left) :=
  h.on_refusal (fun _ _ => id) fun _ _ ht => ⟨ht, fun _ => trivial⟩

theorem Meets.to_refusing (h : x.Meets s good (stopping proper left)) (hproper : proper) :
    x.Meets s good (refusing fun _ => left) := by
  refine h.weaken (fun _ _ => id) ?_
  rintro (why | _ | _) t ⟨ht, hrefusal⟩
  · exact ht
  · exact hrefusal hproper
  · exact hrefusal hproper

theorem Meets.relax (h : x.Meets s good (stopping proper left))
    (hgood : ∀ a t, good a t → good' a t) (hproper : proper' → proper)
    (hleft : ∀ t, left t → left' t) : x.Meets s good' (stopping proper' left') :=
  h.weaken hgood fun _ t ht => ⟨hleft t ht.1, fun hp => ht.2 (hproper hp)⟩

end

theorem Meets.of_ok (h : x.Meets s good bad) {a : α} (ha : (x.run s).result = .ok a) :
    good a (x.run s).state := by
  unfold Meets at h
  rwa [ha] at h

theorem Meets.of_error (h : x.Meets s good bad) {e : Fault} (he : (x.run s).result = .error e) :
    bad e (x.run s).state := by
  unfold Meets at h
  rwa [he] at h

theorem Meets.of_isOk {left : σ → Prop} (h : x.Meets s (fun _ => left) bad)
    (hok : (x.run s).result.isOk) : left (x.run s).state := by
  unfold Meets at h
  cases hx : (x.run s).result with
  | error e =>
    rw [hx] at hok
    exact Bool.noConfusion hok
  | ok a => rwa [hx] at h

/-- What is known of an operation is known of it together with the run that it was. -/
theorem Meets.traced (h : x.Meets s good bad) :
    x.Meets s (fun a t => good a t ∧ ∃ es, x.run s = ⟨.ok a, t, es⟩)
      fun fault t => bad fault t ∧ ∃ es, x.run s = ⟨.error fault, t, es⟩ := by
  unfold Meets at h ⊢
  rcases hrun : x.run s with ⟨fault | a, t, es⟩
  · rw [hrun] at h
    exact ⟨h, es, rfl⟩
  · rw [hrun] at h
    exact ⟨h, es, rfl⟩

theorem Meets.exists_ok (h : x.Meets s good Never) :
    ∃ a t es, x.run s = ⟨.ok a, t, es⟩ ∧ good a t := by
  unfold Meets at h
  rcases hx : x.run s with ⟨_ | a, t, es⟩ <;> rw [hx] at h
  · exact h.elim
  · exact ⟨a, t, es, rfl, h⟩

theorem Meets.exists_error (h : x.Meets s (fun _ _ => False) bad) :
    ∃ e t es, x.run s = ⟨.error e, t, es⟩ ∧ bad e t := by
  unfold Meets at h
  rcases hx : x.run s with ⟨e | _, t, es⟩ <;> rw [hx] at h
  · exact ⟨e, t, es, rfl, h⟩
  · exact h.elim

/-- Whatever becomes of the operation, it leaves behind an object of which `left` holds. -/
theorem Meets.state {left : σ → Prop} (h : x.Meets s (fun _ => left) (fun _ => left)) :
    left (x.run s).state := by
  unfold Meets at h
  split at h
  · exact h
  · exact h

end

/-! ### One rule for each line of a block -/

section

variable {good : α → σ → Prop} {bad : Fault → σ → Prop} {r : Refusal → σ → Prop} {s : σ}

@[simp] theorem meets_pure (a : α) : (pure a : Act σ α).Meets s good bad ↔ good a s := Iff.rfl

@[simp] theorem meets_fail (e : Fault) : (fail e : Act σ α).Meets s good bad ↔ bad e s := Iff.rfl

@[simp] theorem meets_refuse (why : Refusal) :
    (refuse why : Act σ α).Meets s good bad ↔ bad (.refused why) s := Iff.rfl

@[simp] theorem meets_violate (what : Violation) :
    (violate what : Act σ α).Meets s good bad ↔ bad (.violated what) s := Iff.rfl

theorem meets_ofExcept (x : Except Fault α) :
    (ofExcept x).Meets s good bad ↔
      (∀ a, x = .ok a → good a s) ∧ (∀ e, x = .error e → bad e s) := by
  rcases x with _ | a
  all_goals simp [Meets, ofExcept, run]

@[simp] theorem meets_bind (x : Act σ β) (f : β → Act σ α) :
    (x >>= f).Meets s good bad ↔ x.Meets s (fun a t => (f a).Meets t good bad) bad := by
  unfold Meets
  rw [run_bind]
  rcases x.run s with ⟨_ | a, t, es⟩
  all_goals rfl

@[simp] theorem meets_map (f : β → α) (x : Act σ β) :
    (f <$> x).Meets s good bad ↔ x.Meets s (fun a t => good (f a) t) bad := by
  unfold Meets
  rw [run_map]
  rcases x.run s with ⟨_ | a, t, es⟩
  all_goals rfl

@[simp] theorem meets_ite (c : Prop) [Decidable c] (x y : Act σ α) :
    (if c then x else y).Meets s good bad ↔
      (c → x.Meets s good bad) ∧ (¬ c → y.Meets s good bad) := by
  by_cases h : c
  · simp [h]
  · simp [h]

/-- What comes first may be known by a lemma of its own. -/
theorem Meets.bind {x : Act σ β} {f : β → Act σ α} {good' : β → σ → Prop}
    {r' : Refusal → σ → Prop} (h : x.Meets s good' (refusing r'))
    (hgood : ∀ a t, good' a t → (f a).Meets t good (refusing r))
    (hr : ∀ why t, r' why t → r why t) : (x >>= f).Meets s good (refusing r) :=
  (meets_bind x f).mpr (h.mono hgood hr)

theorem Meets.bind_sure {x : Act σ β} {f : β → Act σ α} {good' : β → σ → Prop}
    (h : x.Meets s good' Never) (hgood : ∀ a t, good' a t → (f a).Meets t good bad) :
    (x >>= f).Meets s good bad :=
  (meets_bind x f).mpr (h.sure hgood)

theorem meets_focus (part : σ → τ) (replace : σ → τ → σ) (x : Act τ α) :
    (focus part replace x).Meets s good bad ↔
      x.Meets (part s) (fun a t => good a (replace s t)) (fun e t => bad e (replace s t)) :=
  Iff.rfl

theorem meets_beside (x : Act (τ × σ) α) (t : τ) :
    Meets (fun s => ⟨(x.run (t, s)).result, (x.run (t, s)).state.2, (x.run (t, s)).events⟩) s
        good bad ↔
      x.Meets (t, s) (fun a u => good a u.2) (fun e u => bad e u.2) :=
  Iff.rfl

@[simp] theorem meets_focus_refusing (part : σ → τ) (replace : σ → τ → σ) (x : Act τ α) :
    (focus part replace x).Meets s good (refusing r) ↔
      x.Meets (part s) (fun a t => good a (replace s t))
        (refusing fun why t => r why (replace s t)) := by
  have h : (fun e t => refusing r e (replace s t)) =
      refusing (fun why t => r why (replace s t)) := by
    funext e t
    cases e <;> rfl
  rw [meets_focus, h]

@[simp] theorem meets_focus_never (part : σ → τ) (replace : σ → τ → σ) (x : Act τ α) :
    (focus part replace x).Meets s good Never ↔
      x.Meets (part s) (fun a t => good a (replace s t)) Never := Iff.rfl

end

section

variable {bad : Fault → σ → Prop} {r : Refusal → σ → Prop} {s : σ}

@[simp] theorem meets_get {good : σ → σ → Prop} :
    (get : Act σ σ).Meets s good bad ↔ good s s := Iff.rfl

@[simp] theorem meets_set (t : σ) {good : Unit → σ → Prop} :
    (set t : Act σ Unit).Meets s good bad ↔ good () t := Iff.rfl

@[simp] theorem meets_modify (f : σ → σ) {good : Unit → σ → Prop} :
    (modify f).Meets s good bad ↔ good () (f s) := Iff.rfl

@[simp] theorem meets_emit (es : List Event) {good : Unit → σ → Prop} :
    (emit es : Act σ Unit).Meets s good bad ↔ good () s := Iff.rfl

@[simp] theorem meets_note (n : Note) {good : Unit → σ → Prop} :
    (note n : Act σ Unit).Meets s good bad ↔ good () s := Iff.rfl

theorem meets_ensure (c : Prop) [Decidable c] (what : Violation) {good : Unit → σ → Prop} :
    (ensure c what : Act σ Unit).Meets s good bad ↔
      (c → good () s) ∧ (¬ c → bad (.violated what) s) := by
  rw [ensure, meets_ite]
  rfl

@[simp] theorem meets_ensure_refusing (c : Prop) [Decidable c] (what : Violation)
    {good : Unit → σ → Prop} :
    (ensure c what : Act σ Unit).Meets s good (refusing r) ↔ c ∧ good () s := by
  rw [meets_ensure]
  by_cases h : c
  · simp [h]
  · simp [h]

@[simp] theorem meets_ensure_never (c : Prop) [Decidable c] (what : Violation)
    {good : Unit → σ → Prop} :
    (ensure c what : Act σ Unit).Meets s good Never ↔ c ∧ good () s := by
  rw [meets_ensure]
  by_cases h : c
  · simp [h]
  · simp [h, Never]

/-- A fault that is caught is an answer like any other. -/
theorem meets_attempt (x : Act σ α) {good : Except Fault α → σ → Prop} :
    x.attempt.Meets s good bad ↔
      x.Meets s (fun a => good (.ok a)) (fun e => good (.error e)) := by
  unfold Meets
  rw [run_attempt]
  rcases x.run s with ⟨_ | a, t, es⟩
  all_goals rfl

theorem Meets.attempt {x : Act σ α} {good : Except Fault α → σ → Prop}
    (h : x.Meets s (fun a => good (.ok a)) (refusing fun why => good (.error (.refused why)))) :
    x.attempt.Meets s good bad :=
  (meets_attempt x).mpr (h.on_refusal (fun _ _ => id) fun _ _ => id)

/-- A sweep meets what its steps carry on from one index to the next. -/
theorem Meets.sweep {f : Nat → Act σ Unit} {first count : Nat} (inv : Nat → σ → Prop)
    (h₀ : inv 0 s)
    (step : ∀ i t, i < count → inv i t →
      (f (first + i)).Meets t (fun _ u => inv (i + 1) u) bad) :
    (sweep first count f).Meets s (fun _ t => inv count t) bad := by
  induction count generalizing first s inv with
  | zero =>
    rw [sweep_zero, meets_pure]
    exact h₀
  | succ n ih =>
    rw [sweep_succ, meets_bind]
    refine (step 0 s (Nat.succ_pos n) h₀).imp fun _ t ht => ?_
    refine ih (fun i => inv (i + 1)) ht fun i u hi hu => ?_
    rw [Nat.add_right_comm]
    exact step (i + 1) u (Nat.succ_lt_succ hi) hu

end

/-! ### Checked arithmetic -/

section

variable {r : Refusal → σ → Prop} {s : σ}

@[simp] theorem meets_addWord (a b : Nat) {good : Nat → σ → Prop} :
    (addWord a b).Meets s good (refusing r) ↔ a + b < word32 ∧ good (a + b) s := by
  simp [addWord]

@[simp] theorem meets_addSize (a b : Nat) {good : Nat → σ → Prop} :
    (addSize a b).Meets s good (refusing r) ↔ a + b < word64 ∧ good (a + b) s := by
  simp [addSize]

@[simp] theorem meets_mulWord (a b : Nat) {good : Nat → σ → Prop} :
    (mulWord a b).Meets s good (refusing r) ↔ a * b < word32 ∧ good (a * b) s := by
  simp [mulWord]

@[simp] theorem meets_addSigned (a b : Int) {good : Int → σ → Prop} :
    (addSigned a b).Meets s good (refusing r) ↔ FitsSigned (a + b) ∧ good (a + b) s := by
  simp [addSigned]

end

end Act

end SlotArena
