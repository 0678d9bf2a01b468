import SlotArena.Proofs.Claim

/-!
What an operation tells. `x.Leaves s P` is the judgment about all that `x` leaves on `s`: `P` holds
of its result, its events and the object after it.

Most of what is said of events holds whatever becomes of the operation. `Traces R x s` says that
`R` relates `s`, the events of `x` and the object after it. Where `R` is a `Path` - it holds where
nothing happens, and of one thing after the other - the judgment goes through a block line by line
(`Traces.bind`), and a claim on a cursor adds nothing to what its growth tells (`claim_traces`).
-/

namespace SlotArena

namespace Act

variable {σ τ α β : Type} {s : σ}

/-! ### All that is left -/

section

variable {P : Except Fault α → List Event → σ → Prop}

/-- `P` holds of the result of `x` on `s`, of its events and of the object after it. -/
def Leaves (x : Act σ α) (s : σ) (P : Except Fault α → List Event → σ → Prop) : Prop :=
  P (x.run s).result (x.run s).events (x.run s).state

theorem Leaves.imp {P' : Except Fault α → List Event → σ → Prop} {x : Act σ α}
    (h : x.Leaves s P) (hP : ∀ r es t, P r es t → P' r es t) : x.Leaves s P' :=
  hP _ _ _ h

@[simp] theorem leaves_pure (a : α) : (pure a : Act σ α).Leaves s P ↔ P (.ok a) [] s := Iff.rfl

@[simp] theorem leaves_fail (e : Fault) :
    (fail e : Act σ α).Leaves s P ↔ P (.error e) [] s := Iff.rfl

@[simp] theorem leaves_refuse (why : Refusal) :
    (refuse why : Act σ α).Leaves s P ↔ P (.error (.refused why)) [] s := Iff.rfl

@[simp] theorem leaves_ofExcept (r : Except Fault α) :
    (ofExcept r : Act σ α).Leaves s P ↔ P r [] s := Iff.rfl

/-- A sequence tells what its first part tells, and after it what the second part tells. -/
theorem leaves_bind (x : Act σ β) (f : β → Act σ α) :
    (x >>= f).Leaves s P ↔ x.Leaves s fun r es t =>
      match r with
      | .ok a => (f a).Leaves t fun r' fs => P r' (es ++ fs)
      | .error e => P (.error e) es t := by
  unfold Leaves
  rw [run_bind]
  rcases x.run s with ⟨_ | a, t, es⟩
  all_goals rfl

@[simp] theorem leaves_ite (c : Prop) [Decidable c] (x y : Act σ α) :
    (if c then x else y).Leaves s P ↔ (c → x.Leaves s P) ∧ (¬ c → y.Leaves s P) := by
  by_cases h : c
  · simp [h]
  · simp [h]

theorem leaves_focus (part : σ → τ) (replace : σ → τ → σ) (x : Act τ α) :
    (focus part replace x).Leaves s P ↔
      x.Leaves (part s) fun r es t => P r es (replace s t) := Iff.rfl

theorem leaves_make {P : Except Fault α → List Event → σ → Prop} (x : Act Unit α) :
    (make x : Act σ α).Leaves s P ↔ x.Leaves () fun r es _ => P r es s := Iff.rfl

theorem leaves_attempt {P : Except Fault (Except Fault α) → List Event → σ → Prop} (x : Act σ α) :
    x.attempt.Leaves s P ↔ x.Leaves s fun r es t => P (.ok r) es t := Iff.rfl

@[simp] theorem leaves_get {P : Except Fault σ → List Event → σ → Prop} :
    (get : Act σ σ).Leaves s P ↔ P (.ok s) [] s := Iff.rfl

@[simp] theorem leaves_set (t : σ) {P : Except Fault Unit → List Event → σ → Prop} :
    (set t : Act σ Unit).Leaves s P ↔ P (.ok ()) [] t := Iff.rfl

@[simp] theorem leaves_modify (f : σ → σ) {P : Except Fault Unit → List Event → σ → Prop} :
    (modify f).Leaves s P ↔ P (.ok ()) [] (f s) := Iff.rfl

@[simp] theorem leaves_emit (es : List Event) {P : Except Fault Unit → List Event → σ → Prop} :
    (emit es : Act σ Unit).Leaves s P ↔ P (.ok ()) es s := Iff.rfl

@[simp] theorem leaves_note (n : Note) {P : Except Fault Unit → List Event → σ → Prop} :
    (note n : Act σ Unit).Leaves s P ↔ P (.ok ()) [.note n] s := Iff.rfl

@[simp] theorem leaves_ensure (c : Prop) [Decidable c] (what : Violation)
    {P : Except Fault Unit → List Event → σ → Prop} :
    (ensure c what : Act σ Unit).Leaves s P ↔
      (c → P (.ok ()) [] s) ∧ (¬ c → P (.error (.violated what)) [] s) := by
  rw [ensure, leaves_ite]
  rfl

end

/-! ### What is told on the way -/

section

variable {R : σ → List Event → σ → Prop}

/-- What is told on the way from one object to another, for ways of any length. -/
structure Path (R : σ → List Event → σ → Prop) : Prop where
  refl : ∀ s, R s [] s
  trans : ∀ {s t u es fs}, R s es t → R t fs u → R s (es ++ fs) u

/-- Whatever becomes of `x` on `s`, what it tells and what it leaves are related by `R`. -/
def Traces (R : σ → List Event → σ → Prop) (x : Act σ α) (s : σ) : Prop :=
  x.Leaves s fun _ => R s

theorem traces_get_bind {f : σ → Act σ α} (h : Traces R (f s) s) : Traces R (get >>= f) s := h

theorem traces_ite {c : Prop} [Decidable c] {x y : Act σ α} (hx : Traces R x s)
    (hy : Traces R y s) : Traces R (if c then x else y) s := by
  split
  · exact hx
  · exact hy

theorem Traces.attempt {x : Act σ α} (h : Traces R x s) : Traces R x.attempt s := h

variable (hR : Path R)

include hR

theorem traces_pure (a : α) : Traces R (pure a : Act σ α) s := hR.refl s

theorem traces_fail (e : Fault) : Traces R (fail e : Act σ α) s := hR.refl s

theorem traces_ensure (c : Prop) [Decidable c] (what : Violation) :
    Traces R (ensure c what) s :=
  traces_ite (traces_pure hR ()) (traces_fail hR _)

theorem Traces.bind {x : Act σ α} {f : α → Act σ β} (h : Traces R x s)
    (hf : ∀ a t, Traces R (f a) t) : Traces R (x >>= f) s := by
  refine (leaves_bind x f).mpr (h.imp fun r es t hes => ?_)
  cases r with
  | error e => exact hes
  | ok a => exact (hf a t).imp fun _ _ _ hfs => hR.trans hes hfs

theorem traces_ensure_bind {c : Prop} [Decidable c] {what : Violation} {f : Unit → Act σ α}
    (h : Traces R (f ()) s) : Traces R (ensure c what >>= f) s := by
  simp only [Traces, leaves_bind, leaves_ensure, List.nil_append]
  exact ⟨fun _ => h, fun _ => hR.refl s⟩

end

end Act

namespace Cursor

open Act

variable {σ : Type} {R : σ → List Event → σ → Prop} {grow : Act σ Nat}

theorem growUntil_traces (hR : Path R) (hgrow : ∀ s, Traces R grow s) (next fuel stop : Nat)
    (s : σ) : Traces R (growUntil grow next fuel stop) s := by
  induction fuel generalizing stop s with
  | zero => exact traces_fail hR _
  | succ fuel ih => exact traces_ite ((hgrow s).bind hR ih) (traces_pure hR stop)

/-- A cursor that is replaced tells nothing, so a claim tells what its growth tells. -/
theorem claim_traces (hR : Path R) {part : σ → Cursor} {replace : σ → Cursor → σ}
    (hcursor : ∀ s c, R s [] (replace s c)) (hgrow : ∀ s, Traces R grow s) (amount : Nat) (s : σ) :
    Traces R (claim part replace grow amount) s := by
  have hpublish : ∀ c s, Traces R (focus part replace (publish c)) s := fun c s => hcursor s c
  have hreserve : Traces R (focus part replace (reserve amount)) s := by
    rw [Traces, leaves_focus, Leaves, run_reserve]
    exact hcursor s _
  refine hreserve.bind hR fun verdict t => ?_
  cases verdict with
  | fits offset => exact traces_pure hR offset
  | wait before => exact traces_fail hR _
  | mustGrow before =>
    refine (growUntil_traces hR hgrow _ _ _ t).attempt.bind hR fun answer u => ?_
    cases answer with
    | ok stop => exact (hpublish _ u).bind hR fun _ _ => traces_pure hR before.next
    | error fault =>
      cases fault with
      | refused why => exact (hpublish before u).bind hR fun _ _ => traces_fail hR _
      | violated what => exact traces_fail hR _
      | stuck => exact traces_fail hR _

end Cursor

end SlotArena
