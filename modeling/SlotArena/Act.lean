import SlotArena.Event

/-!
Operations.  An operation on an object always leaves the object in some state, also when it stops
half way, and it leaves the events it caused; only its result may be missing.  So an operation is a
function from the object to an outcome with all three parts, and doing one after the other keeps
what the first one did whatever becomes of the second.
-/

namespace SlotArena

/-- What an operation leaves behind. -/
structure Outcome (σ α : Type) where
  result : Except Fault α
  state : σ
  events : List Event := []

def Act (σ α : Type) : Type := σ → Outcome σ α

namespace Act

variable {σ τ α β γ : Type}

@[inline] def run (x : Act σ α) (s : σ) : Outcome σ α := x s

@[always_inline]
instance : Monad (Act σ) where
  pure a := fun s => ⟨.ok a, s, []⟩
  map f x := fun s =>
    let o := x s
    ⟨o.result.map f, o.state, o.events⟩
  bind x f := fun s =>
    match x s with
    | ⟨.ok a, s', es⟩ =>
        let o := f a s'
        ⟨o.result, o.state, es ++ o.events⟩
    | ⟨.error e, s', es⟩ => ⟨.error e, s', es⟩

@[inline] def get : Act σ σ := fun s => ⟨.ok s, s, []⟩

@[inline] def set (s : σ) : Act σ Unit := fun _ => ⟨.ok (), s, []⟩

@[inline] def modify (f : σ → σ) : Act σ Unit := fun s => ⟨.ok (), f s, []⟩

@[inline] def fail (e : Fault) : Act σ α := fun s => ⟨.error e, s, []⟩

@[inline] def refuse (why : Refusal) : Act σ α := fail (.refused why)

@[inline] def violate (what : Violation) : Act σ α := fail (.violated what)

@[inline] def ensure (c : Prop) [Decidable c] (what : Violation) : Act σ Unit :=
  if c then pure () else violate what

@[inline] def emit (es : List Event) : Act σ Unit := fun s => ⟨.ok (), s, es⟩

@[inline] def note (n : Note) : Act σ Unit := emit [.note n]

@[inline] def ofExcept (r : Except Fault α) : Act σ α := fun s => ⟨r, s, []⟩

/-- Turns a fault into part of the answer.  What was done before it stays done. -/
@[inline] def attempt (x : Act σ α) : Act σ (Except Fault α) := fun s =>
  let o := x s
  ⟨.ok o.result, o.state, o.events⟩

@[inline] def focus (part : σ → τ) (replace : σ → τ → σ) (x : Act τ α) : Act σ α := fun s =>
  let o := x (part s)
  ⟨o.result, replace s o.state, o.events⟩

/-- Something made out of nothing, inside an operation on `σ`. -/
def make (x : Act Unit α) : Act σ α := fun s =>
  let o := x ()
  ⟨o.result, s, o.events⟩

/-- Does `f i`, `f (i + 1)`, … `n` times, until one of them stops.  `es` is what happened before. -/
def sweepFrom (f : Nat → Act σ Unit) : List Event → Nat → Nat → σ → Outcome σ Unit
  | es, 0, _, s => ⟨.ok (), s, es⟩
  | es, n + 1, i, s =>
      match f i s with
      | ⟨.ok (), s', fs⟩ => sweepFrom f (es ++ fs) n (i + 1) s'
      | ⟨.error e, s', fs⟩ => ⟨.error e, s', es ++ fs⟩

def sweep (first count : Nat) (f : Nat → Act σ Unit) : Act σ Unit := fun s =>
  sweepFrom f [] count first s

def addWord (a b : Nat) : Act σ Nat := do
  ensure (a + b < word32) (.overflow .add)
  return a + b

def addSize (a b : Nat) : Act σ Nat := do
  ensure (a + b < word64) (.overflow .add)
  return a + b

def mulWord (a b : Nat) : Act σ Nat := do
  ensure (a * b < word32) (.overflow .multiply)
  return a * b

def addSigned (a b : Int) : Act σ Int := do
  ensure (FitsSigned (a + b)) (.overflow .add)
  return a + b

def roundWord (n step : Nat) : Act σ Nat := do
  ensure (roundUp n step < word32) (.overflow .add)
  return roundUp n step

def roundToPow2 (width n : Nat) : Act σ Nat := do
  ensure (ceilPow2 n < width) (.overflow .add)
  return ceilPow2 n

/-! ### Reading an outcome off -/

@[simp] theorem run_pure (a : α) (s : σ) : (pure a : Act σ α).run s = ⟨.ok a, s, []⟩ := rfl

@[simp] theorem run_map (f : α → β) (x : Act σ α) (s : σ) :
    (f <$> x).run s = ⟨(x.run s).result.map f, (x.run s).state, (x.run s).events⟩ := rfl

theorem run_bind (x : Act σ α) (f : α → Act σ β) (s : σ) :
    (x >>= f).run s =
      match x.run s with
      | ⟨.ok a, s', es⟩ =>
          ⟨((f a).run s').result, ((f a).run s').state, es ++ ((f a).run s').events⟩
      | ⟨.error e, s', es⟩ => ⟨.error e, s', es⟩ := rfl

theorem run_bind_ok {x : Act σ α} {f : α → Act σ β} {s s' : σ} {a : α} {es : List Event}
    (h : x.run s = ⟨.ok a, s', es⟩) :
    (x >>= f).run s =
      ⟨((f a).run s').result, ((f a).run s').state, es ++ ((f a).run s').events⟩ := by
  rw [run_bind, h]

theorem run_bind_error {x : Act σ α} {f : α → Act σ β} {s s' : σ} {e : Fault} {es : List Event}
    (h : x.run s = ⟨.error e, s', es⟩) : (x >>= f).run s = ⟨.error e, s', es⟩ := by
  rw [run_bind, h]

theorem result_bind_eq_ok {x : Act σ α} {f : α → Act σ β} {s : σ} {b : β} :
    ((x >>= f).run s).result = .ok b ↔
      ∃ a, (x.run s).result = .ok a ∧ ((f a).run (x.run s).state).result = .ok b := by
  rw [run_bind]
  cases hx : x.run s with
  | mk result state events =>
    cases result with
    | error e => simp
    | ok a => simp

@[simp] theorem run_get (s : σ) : (get : Act σ σ).run s = ⟨.ok s, s, []⟩ := rfl

@[simp] theorem run_set (s t : σ) : (set t : Act σ Unit).run s = ⟨.ok (), t, []⟩ := rfl

@[simp] theorem run_modify (f : σ → σ) (s : σ) : (modify f).run s = ⟨.ok (), f s, []⟩ := rfl

@[simp] theorem run_fail (e : Fault) (s : σ) : (fail e : Act σ α).run s = ⟨.error e, s, []⟩ := rfl

@[simp] theorem run_emit (es : List Event) (s : σ) :
    (emit es : Act σ Unit).run s = ⟨.ok (), s, es⟩ := rfl

theorem run_ensure (c : Prop) [Decidable c] (what : Violation) (s : σ) :
    (ensure c what : Act σ Unit).run s =
      if c then ⟨.ok (), s, []⟩ else ⟨.error (.violated what), s, []⟩ := by
  unfold ensure
  split <;> rfl

@[simp] theorem run_attempt (x : Act σ α) (s : σ) :
    x.attempt.run s = ⟨.ok (x.run s).result, (x.run s).state, (x.run s).events⟩ := rfl

@[simp] theorem run_focus (part : σ → τ) (replace : σ → τ → σ) (x : Act τ α) (s : σ) :
    (focus part replace x).run s =
      ⟨(x.run (part s)).result, replace s (x.run (part s)).state, (x.run (part s)).events⟩ := rfl

/-! ### Sequences and sweeps -/

theorem map_eq_bind (f : α → β) (x : Act σ α) : f <$> x = x >>= fun a => pure (f a) := by
  funext s
  show (f <$> x).run s = (x >>= fun a => pure (f a)).run s
  rw [run_bind, run_map]
  rcases x.run s with ⟨_ | a, s', es⟩
  · rfl
  · simp [Except.map]

/-- How a sequence is bracketed does not matter, for the events either. -/
theorem bind_assoc (x : Act σ α) (f : α → Act σ β) (g : β → Act σ γ) :
    x >>= f >>= g = x >>= fun a => f a >>= g := by
  funext s
  show (x >>= f >>= g).run s = (x >>= fun a => f a >>= g).run s
  simp only [run_bind]
  rcases x.run s with ⟨_ | a, s', es⟩
  · rfl
  · dsimp only
    rcases (f a).run s' with ⟨_ | b, s'', fs⟩ <;> simp

instance : LawfulMonad (Act σ) :=
  LawfulMonad.mk' _
    (fun x => by
      funext s
      show (id <$> x).run s = x.run s
      rw [run_map]
      rcases x.run s with ⟨_ | a, s', es⟩ <;> rfl)
    (fun _ _ => rfl)
    bind_assoc
    (fun _ _ => rfl)
    (fun _ _ => rfl)
    (fun _ _ => rfl)
    (fun f x => (map_eq_bind f x).symm)
    (fun _ _ => rfl)

theorem sweepFrom_eq (f : Nat → Act σ Unit) (es : List Event) (n i : Nat) (s : σ) :
    sweepFrom f es n i s =
      ⟨(sweepFrom f [] n i s).result, (sweepFrom f [] n i s).state,
        es ++ (sweepFrom f [] n i s).events⟩ := by
  induction n generalizing es i s with
  | zero => simp [sweepFrom]
  | succ n ih =>
    unfold sweepFrom
    rcases f i s with ⟨_ | _, s', fs⟩
    · simp
    · dsimp only
      rw [ih (es ++ fs), ih ([] ++ fs)]
      simp

@[simp] theorem sweep_zero (first : Nat) (f : Nat → Act σ Unit) : sweep first 0 f = pure () := rfl

theorem sweep_succ (first n : Nat) (f : Nat → Act σ Unit) :
    sweep first (n + 1) f = (do f first; sweep (first + 1) n f) := by
  funext s
  show sweepFrom f [] (n + 1) first s = (f first >>= fun _ => sweep (first + 1) n f).run s
  rw [run_bind, run, sweepFrom]
  rcases f first s with ⟨_ | _, s', fs⟩
  · rfl
  · exact sweepFrom_eq ..

end Act

end SlotArena
