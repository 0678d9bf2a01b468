import SlotArena.Proofs.Meets

/-!
Reasoning about two runs at once. `x.Agrees flaws R Q y` says that `x` and `y`, started in states
that `R` relates, come to the same end: both answer, with answers that `Q` relates, or both stop,
for the same reason; and the states they leave are again related, whichever of the two it is. What
they tell the outside is the same as well, up to what only depends on how a window obtains its
memory: the gauge of superseded views and the name of the strategy.

A fault may carry a slot, and a slot the pointer that it was handed out with. Pointers are not
compared, only the offsets they stand for; two faults that are alike have the same message.

The notes of a run are worded when the log is read. One of them cannot always be worded; `flaws`
says whether that one may occur.
-/

namespace SlotArena

/-! ### What a strategy decides -/

def Note.plain : Note → Note
  | .windowGrew purpose oldSize size oldCenter center _ =>
      .windowGrew purpose oldSize size oldCenter center .remap
  | .poolMade blockSize base _ => .poolMade blockSize base .remap
  | n => n

/-- An event, apart from what a strategy decides. -/
def Event.plain? : Event → Option Event
  | .raise .retired _ | .lower .retired _ => none
  | .note n => some (.note n.plain)
  | e => some e

def Event.plain (events : List Event) : List Event := events.filterMap plain?

@[simp] theorem Event.plain_nil : plain [] = [] := rfl

@[simp] theorem Event.plain_append (es fs : List Event) : plain (es ++ fs) = plain es ++ plain fs :=
  List.filterMap_append

/-- The two slots are the same range with the same record; their pointers lead to the same
offset. -/
inductive Slot.Alike : Slot → Slot → Prop
  | intro {s : Slot} {place : Option Place}
      (h : place.map Place.offset = s.place.map Place.offset) : Alike s { s with place := place }

@[simp] theorem Slot.Alike.refl (s : Slot) : s.Alike s :=
  .intro (show s.place.map Place.offset = _ from rfl)

theorem Slot.Alike.places {s t : Slot} (h : s.Alike t) :
    (s.place = none ∧ t.place = none) ∨
      ∃ p q, s.place = some p ∧ t.place = some q ∧ p.offset = q.offset := by
  obtain ⟨hplace⟩ := h
  rename_i place
  cases hs : s.place with
  | none => exact Or.inl ⟨rfl, by simpa [hs] using hplace⟩
  | some p =>
    obtain ⟨q, hq, hpq⟩ := Option.map_eq_some_iff.mp (hplace.trans (by rw [hs]; rfl))
    exact Or.inr ⟨p, q, rfl, hq, hpq.symm⟩

def Violation.unplaced : Violation → Violation
  | .foreignSlot s => .foreignSlot { s with place := none }
  | .notOfAllotment s => .notOfAllotment { s with place := none }
  | .recordMismatch s => .recordMismatch { s with place := none }
  | what => what

inductive Fault.Alike : Fault → Fault → Prop
  | refused (why : Refusal) : Alike (.refused why) (.refused why)
  | violated {what what' : Violation} (h : what.unplaced = what'.unplaced) :
      Alike (.violated what) (.violated what')
  | stuck : Alike .stuck .stuck

@[simp] theorem Fault.Alike.refl (e : Fault) : e.Alike e := by
  cases e with
  | refused why => exact .refused why
  | violated what => exact .violated rfl
  | stuck => exact .stuck

theorem Violation.message_unplaced (what : Violation) : what.unplaced.message = what.message := by
  cases what <;> rfl

theorem Fault.Alike.message {e f : Fault} (h : e.Alike f) : e.message = f.message := by
  cases h with
  | refused why => rfl
  | @violated what what' h =>
    show what.message = what'.message
    rw [← what.message_unplaced, h, what'.message_unplaced]
  | stuck => rfl

/-- Both answer, with answers that `Q` relates, or both stop for the same reason. -/
inductive Agreed {α β : Type} (Q : α → β → Prop) : Except Fault α → Except Fault β → Prop
  | ok {a : α} {b : β} (h : Q a b) : Agreed Q (.ok a) (.ok b)
  | error {e f : Fault} (h : e.Alike f) : Agreed Q (.error e) (.error f)

theorem Agreed.mono {α β : Type} {Q Q' : α → β → Prop} {r : Except Fault α} {q : Except Fault β}
    (h : Agreed Q r q) (hQ : ∀ a b, Q a b → Q' a b) : Agreed Q' r q := by
  cases h with
  | ok h => exact .ok (hQ _ _ h)
  | error h => exact .error h

theorem Agreed.refl {α : Type} (r : Except Fault α) : Agreed Eq r r := by
  cases r with
  | ok a => exact .ok rfl
  | error e => exact .error (.refl e)

/-- The outcomes are alike: the results, the states left and what was told to the outside. -/
structure Outcome.Agrees {σ τ α β : Type} (flaws : Prop) (R : σ → τ → Prop) (Q : α → β → Prop)
    (o : Outcome σ α) (o' : Outcome τ β) : Prop where
  result : Agreed Q o.result o'.result
  state : R o.state o'.state
  events : Event.plain o.events = Event.plain o'.events
  worded : ∀ ev ∈ o.events, ev.flaw? ≠ none → flaws

namespace Act

variable {σ τ σ' τ' α β γ δ : Type} {flaws : Prop}

/-! ### Operations that tell nothing -/

/-- The operation tells nothing but what a strategy decides, whatever becomes of it. -/
def Quiet (x : Act σ α) : Prop :=
  ∀ s, Event.plain (x.run s).events = [] ∧ ∀ ev ∈ (x.run s).events, ev.flaw? = none

namespace Quiet

theorem of_events {x : Act σ α} (h : ∀ s, (x.run s).events = []) : x.Quiet := by
  intro s
  rw [h s]
  exact ⟨rfl, fun _ hev => absurd hev List.not_mem_nil⟩

theorem pure (a : α) : (Pure.pure a : Act σ α).Quiet := of_events fun _ => rfl

theorem fail (e : Fault) : (Act.fail e : Act σ α).Quiet := of_events fun _ => rfl

theorem get : (Act.get : Act σ σ).Quiet := of_events fun _ => rfl

theorem set (s : σ) : (Act.set s).Quiet := of_events fun _ => rfl

theorem modify (f : σ → σ) : (Act.modify f).Quiet := of_events fun _ => rfl

theorem ensure (c : Prop) [Decidable c] (what : Violation) :
    (Act.ensure c what : Act σ Unit).Quiet :=
  of_events fun s => by
    rw [run_ensure]
    split <;> rfl

theorem bind {x : Act σ α} {f : α → Act σ γ} (h : x.Quiet) (hf : ∀ a, (f a).Quiet) :
    (x >>= f).Quiet := by
  intro s
  have hx := h s
  rw [run_bind]
  rcases hrun : x.run s with ⟨_ | a, s', es⟩
  all_goals rw [hrun] at hx
  · exact hx
  · refine ⟨?_, fun ev hev => ?_⟩
    · dsimp only at hx ⊢
      rw [Event.plain_append, hx.1, (hf a s').1]
      rfl
    · rcases List.mem_append.mp hev with hev | hev
      · exact hx.2 ev hev
      · exact (hf a s').2 ev hev

end Quiet

/-! ### The judgment -/

/-- Started in states that `R` relates, the two operations have outcomes that agree. -/
def Agrees (flaws : Prop) (R : σ → τ → Prop) (Q : α → β → Prop) (x : Act σ α) (y : Act τ β) :
    Prop :=
  ∀ s t, R s t → (x.run s).Agrees flaws R Q (y.run t)

namespace Agrees

variable {R : σ → τ → Prop} {R' : σ' → τ' → Prop} {Q : α → β → Prop} {P : γ → δ → Prop}

theorem mono {x : Act σ α} {y : Act τ β} {Q' : α → β → Prop} (h : Agrees flaws R Q x y)
    (hQ : ∀ a b, Q a b → Q' a b) : Agrees flaws R Q' x y := by
  intro s t hst
  have hxy := h s t hst
  refine ⟨?_, hxy.state, hxy.events, hxy.worded⟩
  exact hxy.result.mono hQ

/-! ### One rule for each line of a block -/

theorem pure {a : α} {b : β} (h : Q a b) : Agrees flaws R Q (Pure.pure a) (Pure.pure b) :=
  fun _ _ hst => ⟨.ok h, hst, rfl, fun _ hev => absurd hev List.not_mem_nil⟩

theorem fail {e f : Fault} (h : e.Alike f) : Agrees flaws R Q (Act.fail e) (Act.fail f) :=
  fun _ _ hst => ⟨.error h, hst, rfl, fun _ hev => absurd hev List.not_mem_nil⟩

theorem refuse (why : Refusal) : Agrees flaws R Q (Act.refuse why) (Act.refuse why) :=
  fail (.refused why)

theorem refuse_bind (why : Refusal) {f : γ → Act σ α} {g : δ → Act τ β} :
    Agrees flaws R Q (Act.refuse why >>= f) (Act.refuse why >>= g) :=
  fun _ _ hst => ⟨.error (.refused why), hst, rfl, fun _ hev => absurd hev List.not_mem_nil⟩

theorem bind {x : Act σ α} {y : Act τ β} {f : α → Act σ γ} {g : β → Act τ δ}
    (h : Agrees flaws R Q x y) (hfg : ∀ a b, Q a b → Agrees flaws R P (f a) (g b)) :
    Agrees flaws R P (x >>= f) (y >>= g) := by
  intro s t hst
  have hxy := h s t hst
  rw [run_bind, run_bind]
  rcases hx : x.run s with ⟨r, s', es⟩
  rcases hy : y.run t with ⟨q, t', fs⟩
  rw [hx, hy] at hxy
  obtain ⟨hresult, hstate, hevents, hworded⟩ := hxy
  cases hresult with
  | ok hab =>
    have hrest := hfg _ _ hab _ _ hstate
    refine ⟨hrest.result, hrest.state, ?_, fun ev hev => ?_⟩
    · dsimp only at hevents ⊢
      rw [Event.plain_append, Event.plain_append, hevents, hrest.events]
    · rcases List.mem_append.mp hev with hev | hev
      · exact hworded ev hev
      · exact hrest.worded ev hev
  | error he => exact ⟨.error he, hstate, hevents, hworded⟩

theorem map {x : Act σ α} {y : Act τ β} {f : α → γ} {g : β → δ} (h : Agrees flaws R Q x y)
    (hfg : ∀ a b, Q a b → P (f a) (g b)) : Agrees flaws R P (f <$> x) (g <$> y) := by
  rw [map_eq_bind, map_eq_bind]
  exact h.bind fun a b hab => pure (hfg a b hab)

theorem ite {c d : Prop} [Decidable c] [Decidable d] {x x' : Act σ α} {y y' : Act τ β} (hcd : c ↔ d)
    (h : c → Agrees flaws R Q x y) (h' : ¬ c → Agrees flaws R Q x' y') :
    Agrees flaws R Q (if c then x else x') (if d then y else y') := by
  by_cases hc : c
  · rw [if_pos hc, if_pos (hcd.mp hc)]
    exact h hc
  · rw [if_neg hc, if_neg (mt hcd.mpr hc)]
    exact h' hc

theorem get : Agrees flaws R R Act.get Act.get :=
  fun _ _ hst => ⟨.ok hst, hst, rfl, fun _ hev => absurd hev List.not_mem_nil⟩

theorem set {s : σ} {t : τ} (h : R s t) : Agrees flaws R Eq (Act.set s) (Act.set t) :=
  fun _ _ _ => ⟨.ok rfl, h, rfl, fun _ hev => absurd hev List.not_mem_nil⟩

theorem modify {f : σ → σ} {g : τ → τ} (h : ∀ s t, R s t → R (f s) (g t)) :
    Agrees flaws R Eq (Act.modify f) (Act.modify g) :=
  fun s t hst => ⟨.ok rfl, h s t hst, rfl, fun _ hev => absurd hev List.not_mem_nil⟩

theorem emit {es fs : List Event} (h : Event.plain es = Event.plain fs)
    (hworded : ∀ ev ∈ es, ev.flaw? ≠ none → flaws) :
    Agrees flaws R Eq (Act.emit es) (Act.emit fs) :=
  fun _ _ hst => ⟨.ok rfl, hst, h, hworded⟩

theorem note {n m : Note} (h : n.plain = m.plain) (hworded : n.flaw? ≠ none → flaws) :
    Agrees flaws R Eq (Act.note n) (Act.note m) := by
  refine emit ?_ fun ev hev => ?_
  · show [Event.note n.plain] = [Event.note m.plain]
    rw [h]
  · rw [List.mem_singleton.mp hev]
    exact hworded

theorem note_same {n : Note} (h : n.flaw? = none) : Agrees flaws R Eq (Act.note n) (Act.note n) :=
  note rfl fun hn => absurd h hn

theorem emit_same {es : List Event} (h : ∀ ev ∈ es, ev.flaw? = none) :
    Agrees flaws R Eq (Act.emit es) (Act.emit es) :=
  emit rfl fun ev hev hflaw => absurd (h ev hev) hflaw

theorem ensure {c d : Prop} [Decidable c] [Decidable d] {what what' : Violation} (hcd : c ↔ d)
    (h : what.unplaced = what'.unplaced) :
    Agrees flaws R Eq (Act.ensure c what) (Act.ensure d what') :=
  ite hcd (fun _ => pure rfl) fun _ => fail (.violated h)

theorem ensure_same {c : Prop} [Decidable c] (what : Violation) :
    Agrees flaws R Eq (Act.ensure c what) (Act.ensure c what) :=
  ensure Iff.rfl rfl

/-- What was read is still there when the next line starts. -/
theorem of_get {x : σ → Act σ α} {y : τ → Act τ β}
    (h : ∀ s t, R s t → ((x s).run s).Agrees flaws R Q ((y t).run t)) :
    Agrees flaws R Q (Act.get >>= x) (Act.get >>= y) := by
  intro s t hst
  rw [run_bind, run_bind, run_get, run_get]
  exact h s t hst

theorem of_ensure {c : Prop} [Decidable c] {what : Violation} {x : Unit → Act σ α}
    {y : Unit → Act τ β} {s : σ} {t : τ} (hst : R s t)
    (h : c → ((x ()).run s).Agrees flaws R Q ((y ()).run t)) :
    ((Act.ensure c what >>= x).run s).Agrees flaws R Q ((Act.ensure c what >>= y).run t) := by
  rw [run_bind, run_bind, run_ensure, run_ensure]
  by_cases hc : c
  · rw [if_pos hc, if_pos hc]
    exact h hc
  · rw [if_neg hc, if_neg hc]
    exact ⟨.error (.refl _), hst, rfl, fun _ hev => absurd hev List.not_mem_nil⟩

theorem focus {part : σ → σ'} {part' : τ → τ'} {replace : σ → σ' → σ} {replace' : τ → τ' → τ}
    {x : Act σ' α} {y : Act τ' β} (hpart : ∀ s t, R s t → R' (part s) (part' t))
    (hreplace : ∀ s t, R s t → ∀ u v, R' u v → R (replace s u) (replace' t v))
    (h : Agrees flaws R' Q x y) :
    Agrees flaws R Q (Act.focus part replace x) (Act.focus part' replace' y) := by
  intro s t hst
  obtain ⟨hresult, hstate, hevents, hworded⟩ := h _ _ (hpart s t hst)
  exact ⟨hresult, hreplace s t hst _ _ hstate, hevents, hworded⟩

theorem attempt {x : Act σ α} {y : Act τ β} (h : Agrees flaws R Q x y) :
    Agrees flaws R (Agreed Q) x.attempt y.attempt := by
  intro s t hst
  obtain ⟨hresult, hstate, hevents, hworded⟩ := h s t hst
  exact ⟨.ok hresult, hstate, hevents, hworded⟩

theorem sweep {f : Nat → Act σ Unit} {g : Nat → Act τ Unit}
    (h : ∀ i, Agrees flaws R Eq (f i) (g i)) (first count : Nat) :
    Agrees flaws R Eq (Act.sweep first count f) (Act.sweep first count g) := by
  induction count generalizing first with
  | zero => exact pure rfl
  | succ n ih =>
    rw [sweep_succ, sweep_succ]
    exact (h first).bind fun _ _ _ => ih (first + 1)

/-- An operation that works on a state of its own beside the one it is given. -/
theorem beside {x : Act (σ' × σ) α} {y : Act (τ' × τ) β} {u : σ'} {v : τ'} (huv : R' u v)
    (h : Agrees flaws (fun p q => R' p.1 q.1 ∧ R p.2 q.2) Q x y) :
    Agrees flaws R Q
      (fun s => ⟨(x.run (u, s)).result, (x.run (u, s)).state.2, (x.run (u, s)).events⟩)
      (fun t => ⟨(y.run (v, t)).result, (y.run (v, t)).state.2, (y.run (v, t)).events⟩) := by
  intro s t hst
  obtain ⟨hresult, hstate, hevents, hworded⟩ := h (u, s) (v, t) ⟨huv, hst⟩
  exact ⟨hresult, hstate.2, hevents, hworded⟩

theorem same {x : Act σ α} (h : x.Quiet) : Agrees flaws Eq Eq x x := by
  rintro s _ rfl
  exact ⟨.refl _, rfl, rfl, fun ev hev hflaw => absurd ((h s).2 ev hev) hflaw⟩

/-! ### Checked arithmetic -/

theorem addWord (a b : Nat) : Agrees flaws R Eq (Act.addWord a b) (Act.addWord a b) :=
  (ensure_same _).bind fun _ _ _ => pure rfl

theorem addSize (a b : Nat) : Agrees flaws R Eq (Act.addSize a b) (Act.addSize a b) :=
  (ensure_same _).bind fun _ _ _ => pure rfl

theorem mulWord (a b : Nat) : Agrees flaws R Eq (Act.mulWord a b) (Act.mulWord a b) :=
  (ensure_same _).bind fun _ _ _ => pure rfl

theorem addSigned (a b : Int) : Agrees flaws R Eq (Act.addSigned a b) (Act.addSigned a b) :=
  (ensure_same _).bind fun _ _ _ => pure rfl

theorem roundWord (n step : Nat) :
    Agrees flaws R Eq (Act.roundWord n step) (Act.roundWord n step) :=
  (ensure_same _).bind fun _ _ _ => pure rfl

theorem roundToPow2 (width n : Nat) :
    Agrees flaws R Eq (Act.roundToPow2 width n) (Act.roundToPow2 width n) :=
  (ensure_same _).bind fun _ _ _ => pure rfl

end Agrees

end Act

end SlotArena
