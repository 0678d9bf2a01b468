import Mathlib.Data.List.Forall2
import SlotArena.Proofs.Agree
import SlotArena.Session.Reply

/-!
Sessions that are answered alike. Two answers are alike if they differ in pointers and in the count
of superseded views at most; a step that is answered alike leaves gauges that agree on everything
else (`Session.perform_alike`), and so does a run of steps (`Session.play_alike`).
-/

namespace SlotArena

open Act

/-! ### Gauges -/

/-- The gauges, without the one that counts superseded views. -/
def Gauges.plain (g : Gauges) : Gauges := { g with retired := .zero }

theorem Gauges.plain_absorb (g : Gauges) (events : List Event) :
    (g.absorb events).plain = g.plain.absorb (Event.plain events) := by
  induction events generalizing g with
  | nil => rfl
  | cons ev events ih =>
    have hstep : (ev.apply g).plain = g.plain.absorb (Event.plain [ev]) := by
      cases ev with
      | raise gauge amount => cases gauge <;> rfl
      | lower gauge amount => cases gauge <;> rfl
      | note n => rfl
    calc (g.absorb (ev :: events)).plain = ((ev.apply g).absorb events).plain := rfl
      _ = (g.plain.absorb (Event.plain [ev])).absorb (Event.plain events) := by rw [ih, hstep]
      _ = g.plain.absorb (Event.plain ([ev] ++ events)) := by
        rw [Event.plain_append, Gauges.absorb_append]

theorem Event.flaw?_plain? (ev : Event) : ev.flaw? = ev.plain?.bind Event.flaw? := by
  rcases ev with ⟨gauge, amount⟩ | ⟨gauge, amount⟩ | n
  · cases gauge <;> rfl
  · cases gauge <;> rfl
  · cases n <;> rfl

/-- Whether a log can be read does not depend on the strategy. -/
theorem Event.firstFlaw?_plain (events : List Event) :
    firstFlaw? events = firstFlaw? (plain events) := by
  induction events with
  | nil => rfl
  | cons ev events ih =>
    have hplain : plain (ev :: events) = (plain? ev).toList ++ plain events := by
      rw [plain, List.filterMap_cons]
      cases plain? ev <;> rfl
    rw [hplain, firstFlaw?, List.findSome?_cons, flaw?_plain? ev]
    cases hev : plain? ev with
    | none => exact ih
    | some ev' =>
      show _ = List.findSome? flaw? ([ev'] ++ plain events)
      rw [Option.bind_some, List.singleton_append, List.findSome?_cons]
      cases flaw? ev' with
      | none => exact ih
      | some what => rfl

theorem Event.plain_flatMap {α β : Type} {R : α → β → Prop} {f : α → List Event}
    {g : β → List Event}
    (hfg : ∀ a b, R a b → plain (f a) = plain (g b)) {xs : List α} {ys : List β}
    (h : List.Forall₂ R xs ys) : plain (xs.flatMap f) = plain (ys.flatMap g) := by
  induction h with
  | nil => rfl
  | cons hab _ ih =>
    rw [List.flatMap_cons, List.flatMap_cons, plain_append, plain_append, ih,
      hfg _ _ hab]

/-! ### Rows of objects -/

section

variable {α β γ δ : Type} {R : α → β → Prop} {P : γ → δ → Prop} {o : Option α} {o' : Option β}

theorem isSome_eq_of_rel (h : Option.Rel R o o') : o.isSome = o'.isSome := by
  cases h <;> rfl

theorem rel_bind (h : Option.Rel R o o') {f : α → Option γ} {g : β → Option δ}
    (hfg : ∀ a b, R a b → Option.Rel P (f a) (g b)) : Option.Rel P (o.bind f) (o'.bind g) := by
  cases h with
  | none => exact .none
  | some hab => exact hfg _ _ hab

theorem rel_map (h : Option.Rel R o o') {f : α → γ} {g : β → δ}
    (hfg : ∀ a b, R a b → P (f a) (g b)) : Option.Rel P (o.map f) (o'.map g) := by
  cases h with
  | none => exact .none
  | some hab => exact .some (hfg _ _ hab)

end

/-- The arrays are equally long, and `R` relates what stands at the same index. -/
def Along {α β : Type} (R : α → β → Prop) (xs : Array α) (ys : Array β) : Prop :=
  ∀ i : Nat, Option.Rel R xs[i]? ys[i]?

namespace Along

variable {α β : Type} {R : α → β → Prop} {xs : Array α} {ys : Array β}

theorem size_eq (h : Along R xs ys) : xs.size = ys.size := by
  have hle : ∀ i, xs.size ≤ i ↔ ys.size ≤ i := by
    intro i
    rw [← Array.getElem?_eq_none_iff, ← Array.getElem?_eq_none_iff,
      ← Option.not_isSome_iff_eq_none, ← Option.not_isSome_iff_eq_none, isSome_eq_of_rel (h i)]
  exact Nat.le_antisymm ((hle _).mpr (Nat.le_refl _)) ((hle _).mp (Nat.le_refl _))

theorem setIfInBounds (h : Along R xs ys) (i : Nat) {a : α} {b : β} (hab : R a b) :
    Along R (xs.setIfInBounds i a) (ys.setIfInBounds i b) := by
  intro j
  rw [Array.getElem?_setIfInBounds, Array.getElem?_setIfInBounds, h.size_eq]
  split
  · split
    · exact .some hab
    · exact .none
  · exact h j

theorem push (h : Along R xs ys) {a : α} {b : β} (hab : R a b) :
    Along R (xs.push a) (ys.push b) := by
  intro j
  rw [Array.getElem?_push, Array.getElem?_push, h.size_eq]
  split
  · exact .some hab
  · exact h j

theorem of_forall₂ {as : List α} {bs : List β} (h : List.Forall₂ R as bs) :
    Along R as.toArray bs.toArray := by
  intro i
  rw [List.getElem?_toArray, List.getElem?_toArray]
  induction h generalizing i with
  | nil => exact .none
  | cons hab _ ih =>
    cases i with
    | zero => exact .some hab
    | succ i => exact ih i

theorem toList (h : Along R xs ys) : List.Forall₂ R xs.toList ys.toList := by
  refine List.forall₂_iff_get.mpr ⟨h.size_eq, fun i hi hi' => ?_⟩
  have hrel := h i
  rw [Array.getElem?_eq_getElem hi, Array.getElem?_eq_getElem hi'] at hrel
  cases hrel with
  | some hab => exact hab

end Along

namespace Session

/-! ### Answers -/

/-- The two answers are the same, apart from pointers and superseded views. -/
inductive Reply.Alike : Reply → Reply → Prop
  | slot {s t : Slot} (standing standing' : Standing) (h : s.Alike t) :
      Alike (.slot s standing) (.slot t standing')
  | gauges {g g' : Gauges} (h : g.plain = g'.plain) : Alike (.gauges g) (.gauges g')
  | fault {e f : Fault} (h : e.Alike f) : Alike (.fault e) (.fault f)
  | many {rs qs : List Reply} (h : List.Forall₂ Alike rs qs) : Alike (.many rs) (.many qs)
  | same (r : Reply) : Alike r r

theorem Reply.Alike.isFailure {r q : Reply} (h : r.Alike q) : r.isFailure = q.isFailure := by
  cases h <;> rfl

def Reply.broken : Reply → Bool
  | .fault (.violated .cursorOverflow) => true
  | _ => false

theorem Reply.broken_unplaced (what : Violation) :
    broken (.fault (.violated what.unplaced)) = broken (.fault (.violated what)) := by
  cases what <;> rfl

theorem Reply.Alike.broken {r q : Reply} (h : r.Alike q) : r.broken = q.broken := by
  cases h with
  | fault he =>
    cases he with
    | refused why => rfl
    | @violated what what' hwhat => rw [← broken_unplaced what, hwhat, broken_unplaced]
    | stuck => rfl
  | _ => rfl

theorem Reply.Alike.any_broken {rs qs : List Reply} (h : List.Forall₂ Alike rs qs) :
    rs.any Reply.broken = qs.any Reply.broken := by
  induction h with
  | nil => rfl
  | cons hrq _ ih => rw [List.any_cons, List.any_cons, hrq.broken, ih]

theorem Reply.brokeCursor_fault (e : Fault) : brokeCursor (.fault e) = broken (.fault e) := by
  rcases e with why | what | _
  · rfl
  · cases what <;> rfl
  · rfl

theorem Reply.Alike.brokeCursor {r q : Reply} (h : r.Alike q) : r.brokeCursor = q.brokeCursor := by
  cases h with
  | fault he => rw [brokeCursor_fault, (Alike.fault he).broken, brokeCursor_fault]
  | many hrs => exact any_broken hrs
  | _ => rfl

def PoolReading.plain (r : PoolReading) : PoolReading := { r with retired := 0 }

/-! ### Steps -/

section

variable {σ τ : Type} {R : σ → τ → Prop}

theorem reply_same (r : Reply) :
    Agrees True R Reply.Alike (pure r : Act σ Reply) (pure r : Act τ Reply) :=
  .pure (.same r)

theorem settle_agrees {x : Act σ Reply} {y : Act τ Reply} (h : Agrees True R Reply.Alike x y) :
    Agrees True R Reply.Alike (settle x) (settle y) := by
  refine h.attempt.bind ?_
  rintro _ _ (hr | he)
  · exact .pure hr
  · exact .pure (.fault he)

theorem silent_agrees {x : Act σ Unit} {y : Act τ Unit} (h : Agrees True R Eq x y) :
    Agrees True R Reply.Alike (silent x) (silent y) :=
  h.bind fun _ _ _ => reply_same _

theorem answer_agrees {ρ : Type} {act : ρ → Act σ Reply} {act' : ρ → Act τ Reply}
    (h : ∀ step, Agrees True R Reply.Alike (act step) (act' step)) (asked : Asked ρ) :
    Agrees True R Reply.Alike (answer act asked) (answer act' asked) := by
  cases asked with
  | error why => exact reply_same _
  | ok step => exact h step

theorem along_agrees {x : Nat → Act σ Reply} {y : Nat → Act τ Reply}
    (h : ∀ i, Agrees True R Reply.Alike (x i) (y i)) (stride n i : Nat) :
    Agrees True R (List.Forall₂ Reply.Alike) (along x stride n i) (along y stride n i) := by
  induction n generalizing i with
  | zero => exact .pure .nil
  | succ n ih =>
    refine (settle_agrees (h i)).bind fun r q hrq => ?_
    refine .ite (by rw [hrq.isFailure]) (fun _ => .pure (.cons hrq .nil)) fun _ => ?_
    exact (ih (i + stride)).map fun _ _ hrest => .cons hrq hrest

theorem times_agrees (n : Nat) {x : Act σ Reply} {y : Act τ Reply}
    (h : Agrees True R Reply.Alike x y) :
    Agrees True R Reply.Alike (times n x) (times n y) :=
  (along_agrees (fun _ => h) 1 n 0).bind fun _ _ hrs => .pure (.many hrs)

/-- The two runs are as far, on objects that `R` relates, with gauges that agree on all but the
superseded views. -/
structure Running.Alike (R : σ → τ → Prop) (s : Running σ) (t : Running τ) : Prop where
  object : R s.object t.object
  gauges : s.gauges.plain = t.gauges.plain
  logging : s.logging = t.logging

theorem onObject_agrees {α β : Type} {Q : α → β → Prop} {x : Act σ α} {y : Act τ β}
    (h : Agrees True R Q x y) :
    Agrees True (Running.Alike R) Q (onObject x) (onObject y) :=
  h.focus (fun _ _ hst => hst.object) fun _ _ hst _ _ ho => ⟨ho, hst.gauges, hst.logging⟩

theorem readings_agrees : Agrees True (Running.Alike R) Reply.Alike readings readings :=
  Agrees.get.bind fun _ _ hst => .pure (.gauges hst.gauges)

theorem perform_alike {x : Act (Running σ) Reply} {y : Act (Running τ) Reply}
    (h : Agrees True (Running.Alike R) Reply.Alike x y) {s : Running σ} {t : Running τ}
    (hst : s.Alike R t) :
    (perform x s).1.Alike (perform y t).1 ∧ (perform x s).2.1.Alike R (perform y t).2.1 := by
  obtain ⟨hresult, hstate, hevents, -⟩ := settle_agrees h s t hst
  have hflaw : (if s.logging then Event.firstFlaw? ((settle x).run s).events else none) =
      if t.logging then Event.firstFlaw? ((settle y).run t).events else none := by
    rw [hst.logging, Event.firstFlaw?_plain, hevents, ← Event.firstFlaw?_plain]
  refine ⟨?_, ⟨hstate.object, ?_, hstate.logging⟩⟩
  · unfold perform
    dsimp only
    rw [hflaw]
    generalize (if t.logging then _ else none : Option Violation) = flaw
    generalize ((settle x).run s).result = r at hresult ⊢
    generalize ((settle y).run t).result = q at hresult ⊢
    cases flaw with
    | some what => exact .same _
    | none =>
      cases hresult with
      | ok hr => exact hr
      | error he => exact .fault he
  · show (Gauges.absorb _ _).plain = (Gauges.absorb _ _).plain
    rw [Gauges.plain_absorb, Gauges.plain_absorb, hevents, hstate.gauges]

/-- What is seen of a step is the same; its log lines are not compared. -/
structure Turn.Alike {κ : Type} (K : κ → κ → Prop) (u v : Turn κ) : Prop where
  reply : u.reply.Alike v.reply
  reading : Option.Rel K u.reading v.reading

structure Played.Alike {κ : Type} (R : σ → τ → Prop) (K : κ → κ → Prop) (p : Played σ κ)
    (q : Played τ κ) : Prop where
  turns : List.Forall₂ (Turn.Alike K) p.turns q.turns
  last : p.last.Alike R q.last
  stopped : p.stopped = q.stopped

/-- Runs that start alike go on alike, step by step. -/
theorem play_alike {ρ κ : Type} {K : κ → κ → Prop} {act : ρ → Act (Running σ) Reply}
    {act' : ρ → Act (Running τ) Reply} {observe : Asked ρ → σ → Running σ → Option κ}
    {observe' : Asked ρ → τ → Running τ → Option κ}
    (hact : ∀ step, Agrees True (Running.Alike R) Reply.Alike (act step) (act' step))
    (hobserve : ∀ step o o' u v, R o o' → u.Alike R v →
      Option.Rel K (observe step o u) (observe' step o' v))
    (steps : List (Asked ρ)) {s : Running σ} {t : Running τ} (hst : s.Alike R t) :
    (play act observe s steps).Alike R K (play act' observe' t steps) := by
  induction steps generalizing s t with
  | nil => exact ⟨.nil, hst, rfl⟩
  | cons step rest ih =>
    obtain ⟨hreply, hnext⟩ := perform_alike (answer_agrees hact step) hst
    rw [play, play]
    rcases hx : perform (answer act step) s with ⟨r, u, lines⟩
    rcases hy : perform (answer act' step) t with ⟨q, v, lines'⟩
    rw [hx, hy] at hreply hnext
    dsimp only at hreply hnext ⊢
    rw [hreply.brokeCursor]
    cases q.brokeCursor with
    | true => exact ⟨.cons ⟨hreply, .none⟩ .nil, hnext, rfl⟩
    | false =>
      have hrest := ih hnext
      exact ⟨.cons ⟨hreply, hobserve step _ _ _ _ hst.object hnext⟩ hrest.turns, hrest.last,
        hrest.stopped⟩

end

end Session

end SlotArena
