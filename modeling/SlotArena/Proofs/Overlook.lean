import SlotArena.Proofs.Arena

/-!
What operations do not look at. `x.Overlooks R` says that `x` cannot tell states apart that `R`
relates: it answers and tells the same from both of them, and what it leaves is related again. The
judgment goes through a block line by line.

The pieces in which a reservation was committed are such a thing. A host may grant one piece and
decline the next, and then the first one stays; but what the host is asked for, and what is usable,
depends on the bounds of the window alone (`Window.expandRange_overlooks`).
-/

namespace SlotArena

structure Outcome.Same {σ α : Type} (R : σ → σ → Prop) (o o' : Outcome σ α) : Prop where
  result : o.result = o'.result
  events : o.events = o'.events
  state : R o.state o'.state

namespace Act

variable {σ τ α β : Type} {R : σ → σ → Prop}

/-- The operation does the same to states that `R` relates. -/
def Overlooks (R : σ → σ → Prop) (x : Act σ α) : Prop :=
  ∀ s t, R s t → (x.run s).Same R (x.run t)

namespace Overlooks

theorem of_pure (a : α) : (pure a : Act σ α).Overlooks R := fun _ _ h => ⟨rfl, rfl, h⟩

theorem of_fail (e : Fault) : (fail e : Act σ α).Overlooks R := fun _ _ h => ⟨rfl, rfl, h⟩

theorem of_emit (es : List Event) : (emit es : Act σ Unit).Overlooks R := fun _ _ h => ⟨rfl, rfl, h⟩

theorem of_modify {f : σ → σ} (h : ∀ s t, R s t → R (f s) (f t)) : (modify f).Overlooks R :=
  fun s t hst => ⟨rfl, rfl, h s t hst⟩

theorem of_ensure (c : Prop) [Decidable c] (what : Violation) :
    (ensure c what : Act σ Unit).Overlooks R := by
  unfold ensure
  split
  · exact of_pure ()
  · exact of_fail _

theorem ite {c : Prop} [Decidable c] {x y : Act σ α} (hx : x.Overlooks R) (hy : y.Overlooks R) :
    (if c then x else y).Overlooks R := by
  split
  · exact hx
  · exact hy

theorem bind {x : Act σ α} {f : α → Act σ β} (hx : x.Overlooks R) (hf : ∀ a, (f a).Overlooks R) :
    (x >>= f).Overlooks R := by
  intro s t hst
  obtain ⟨hresult, hevents, hstate⟩ := hx s t hst
  rw [run_bind, run_bind]
  generalize x.run s = o at *
  generalize x.run t = o' at *
  obtain ⟨answer, s', es⟩ := o
  obtain ⟨answer', t', es'⟩ := o'
  dsimp only at hresult hevents hstate
  subst hresult hevents
  cases answer with
  | error e => exact ⟨rfl, rfl, hstate⟩
  | ok a =>
    obtain ⟨hresult', hevents', hstate'⟩ := hf a s' t' hstate
    exact ⟨hresult', congrArg (es ++ ·) hevents', hstate'⟩

/-- What is read is not looked at where it makes no difference to what is done next. -/
theorem get_bind {f : σ → Act σ α} (hread : ∀ s t, R s t → f s = f t)
    (hf : ∀ s, (f s).Overlooks R) : (get >>= f).Overlooks R := by
  intro s t hst
  obtain ⟨hresult, hevents, hstate⟩ := hf s s t hst
  rw [run_bind, run_bind, run_get, run_get]
  dsimp only
  rw [← hread s t hst]
  exact ⟨hresult, congrArg ([] ++ ·) hevents, hstate⟩

theorem map {x : Act σ α} (h : x.Overlooks R) (f : α → β) : (f <$> x).Overlooks R := by
  rw [map_eq_bind]
  exact h.bind fun _ => of_pure _

theorem attempt {x : Act σ α} (h : x.Overlooks R) : x.attempt.Overlooks R := fun s t hst => by
  obtain ⟨hresult, hevents, hstate⟩ := h s t hst
  exact ⟨congrArg Except.ok hresult, hevents, hstate⟩

theorem focus {Q : τ → τ → Prop} {part : σ → τ} {replace : σ → τ → σ}
    (hpart : ∀ s t, R s t → Q (part s) (part t))
    (hreplace : ∀ s t p q, R s t → Q p q → R (replace s p) (replace t q)) {x : Act τ α}
    (h : x.Overlooks Q) : (Act.focus part replace x).Overlooks R := fun s t hst => by
  obtain ⟨hresult, hevents, hstate⟩ := h _ _ (hpart s t hst)
  exact ⟨hresult, hevents, hreplace s t _ _ hst hstate⟩

end Overlooks

end Act

open Act

/-! ### Cursors -/

theorem Act.overlooks_eq {σ α : Type} (x : Act σ α) : x.Overlooks Eq := by
  rintro s _ rfl
  exact ⟨rfl, rfl, rfl⟩

section

variable {σ : Type} {R : σ → σ → Prop} {grow : Act σ Nat}

theorem Cursor.growUntil_overlooks (h : grow.Overlooks R) (next fuel stop : Nat) :
    (growUntil grow next fuel stop).Overlooks R := by
  induction fuel generalizing stop with
  | zero => exact .of_fail _
  | succ fuel ih => exact .ite (h.bind ih) (.of_pure _)

/-- A claim overlooks what its growth overlooks, if that is not the cursor. -/
theorem Cursor.claim_overlooks {part : σ → Cursor} {replace : σ → Cursor → σ}
    (hpart : ∀ s t, R s t → part s = part t)
    (hreplace : ∀ s t c, R s t → R (replace s c) (replace t c)) (h : grow.Overlooks R)
    (amount : Nat) : (claim part replace grow amount).Overlooks R := by
  have hfocus : ∀ {α : Type} (x : Act Cursor α), (Act.focus part replace x).Overlooks R := fun x =>
    Overlooks.focus hpart (by rintro s t c _ hst rfl; exact hreplace s t c hst) (overlooks_eq x)
  refine (hfocus _).bind fun verdict => ?_
  cases verdict with
  | fits offset => exact .of_pure _
  | wait before => exact .of_fail _
  | mustGrow before =>
    refine (growUntil_overlooks h _ _ _).attempt.bind fun answer => ?_
    rcases answer with (why | what | _) | stop
    · exact (hfocus _).bind fun _ => .of_fail _
    · exact .of_fail _
    · exact .of_fail _
    · exact (hfocus _).bind fun _ => .of_pure _

end

/-! ### Windows -/

namespace Window

theorem Stayed.symm {b b' : Backing} (h : Stayed b b') : Stayed b' b := by
  cases b with
  | remap views =>
    obtain rfl : b' = _ := h
    rfl
  | pinned lo hi pieces =>
    obtain ⟨pieces', rfl⟩ := h
    exact ⟨pieces, rfl⟩

/-- Only the pieces that are committed differ. -/
inductive Near : Window → Window → Prop
  | intro {w : Window} {b : Backing} (stayed : Stayed w.backing b) :
      Near w { w with backing := b }

theorem modify_overlooks {f : Nat → Nat → List (Nat × Nat) → Backing}
    (hf : ∀ lo hi pieces pieces', Stayed (f lo hi pieces) (f lo hi pieces')) :
    (Act.modify fun
      | .pinned lo hi pieces => f lo hi pieces
      | b => b).Overlooks Stayed := by
  refine .of_modify fun b b' h => ?_
  cases b with
  | remap views =>
    obtain rfl : b' = _ := h
    exact .refl _
  | pinned lo hi pieces =>
    obtain ⟨pieces', rfl⟩ := h
    exact hf ..

theorem onBacking_overlooks {α : Type} {x : Act Backing α} (h : x.Overlooks Stayed) :
    (onBacking x).Overlooks Near :=
  h.focus (fun _ _ ⟨hb⟩ => hb) fun _ _ _ _ ⟨_⟩ hq => ⟨hq⟩

section

variable [Host]

/-- What the host is asked for depends on the bounds of a backing, and not on its pieces. -/
theorem commitPiece_overlooks (owner : Purpose) (start stop : Nat) :
    (Backing.commitPiece owner start stop).Overlooks Stayed := by
  refine .ite (.of_pure _) ?_
  cases Host.commit owner start (stop - start) with
  | error why => exact .of_pure _
  | ok _ => exact .bind (modify_overlooks fun _ _ _ _ => ⟨_, rfl⟩) fun _ => .of_pure _

theorem expand_overlooks (owner : Purpose) (e : Extent) (center size : Nat) :
    (Backing.expand owner e center size).Overlooks Stayed := by
  refine .get_bind (fun b b' h => ?_) fun b => ?_
  · cases b with
    | remap views =>
      obtain rfl : b' = _ := h
      rfl
    | pinned lo hi pieces =>
      obtain ⟨pieces', rfl⟩ := h
      rfl
  · cases b with
    | remap views =>
      refine (Overlooks.of_ensure _ _).bind fun _ => ?_
      cases Host.showView owner (e.back - center) size with
      | error why => exact .of_pure _
      | ok _ =>
        have hset : (Act.set (Backing.remap (⟨e.back - center, size, center⟩ :: views))).Overlooks
            Stayed := fun _ _ _ => ⟨rfl, rfl, .refl _⟩
        exact hset.bind fun _ => (Overlooks.of_emit _).bind fun _ => .of_pure _
    | pinned lo hi pieces =>
      refine (Overlooks.of_ensure _ _).bind fun _ => ?_
      dsimp only
      refine .ite (.bind (commitPiece_overlooks owner _ _) ?_)
        (.bind (commitPiece_overlooks owner _ _) ?_)
      all_goals
        rintro (why | _)
        · exact .of_pure _
        · refine .ite (.bind (.of_pure _) ?_) (.bind (commitPiece_overlooks owner _ _) ?_)
          all_goals
            rintro (why | _)
            · exact .of_pure _
            · exact .bind (modify_overlooks fun _ _ _ _ => ⟨_, rfl⟩) fun _ => .of_pure _

theorem expandRange_overlooks (center size : Nat) : (expandRange center size).Overlooks Near := by
  refine .get_bind (fun w v h => ?_) fun w => ?_
  · obtain ⟨hb⟩ := h
    simp only [strategy, hb.strategy]
  · refine (Overlooks.of_ensure _ _).bind fun _ => (Overlooks.of_ensure _ _).bind fun _ =>
      (Overlooks.of_ensure _ _).bind fun _ => ?_
    refine .ite (.of_fail _) (.ite (.of_fail _) ?_)
    refine (onBacking_overlooks (expand_overlooks w.purpose w.extent center size)).bind
      fun answer => ?_
    cases answer with
    | error why => exact (Overlooks.of_emit _).bind fun _ => .of_fail _
    | ok _ =>
      refine (Overlooks.of_emit _).bind fun _ => (Overlooks.of_emit _).bind fun _ => ?_
      exact .of_modify fun _ _ ⟨hb⟩ => ⟨hb⟩

end

end Window

/-! ### Arenas -/

namespace Arena

inductive Near : Arena → Arena → Prop
  | intro {a : Arena} {w : Window} (near : a.window.Near w) : Near a { a with window := w }

theorem Near.refl (a : Arena) : a.Near a := ⟨⟨.refl _⟩⟩

theorem Near.sound {a a' : Arena} (h : a.Near a') (ha : a.Sound) : a'.Sound := by
  obtain ⟨⟨hb⟩⟩ := h
  exact ⟨ha.window.stayed hb, ha.back_le, ha.front_le, ha.next_le, ha.stop_le⟩

theorem Refused.near [Host] {a a' : Arena} {cramped : Prop} {why : Refusal}
    (h : a.Refused cramped why a') : a.Near a' := by
  obtain ⟨w, rfl, hw⟩ := h
  obtain ⟨b, hb, rfl⟩ := hw.stays
  exact ⟨⟨hb⟩⟩

theorem onWindow_overlooks {α : Type} {x : Act Window α} (h : x.Overlooks Window.Near) :
    (onWindow x).Overlooks Near :=
  h.focus (fun _ _ ⟨hw⟩ => hw) fun _ _ _ _ ⟨_⟩ hw => ⟨hw⟩

theorem cursorBytes_overlooks {σ : Type} {R : σ → σ → Prop} (bytes : Nat) :
    (cursorBytes bytes : Act σ Nat).Overlooks R :=
  (Overlooks.of_ensure _ _).bind fun _ => .of_pure _

theorem Near.cursor {a a' : Arena} (h : a.Near a') (side : Side) :
    a.cursor side = a'.cursor side := by
  obtain ⟨-⟩ := h
  cases side with
  | front => rfl
  | back => rfl

theorem Near.withCursor {a a' : Arena} (h : a.Near a') (side : Side) (c : Cursor) :
    (Arena.withCursor side a c).Near (Arena.withCursor side a' c) := by
  obtain ⟨hw⟩ := h
  cases side with
  | front => exact ⟨hw⟩
  | back => exact ⟨hw⟩

variable [Host]

theorem grow_overlooks (side : Side) : (grow side).Overlooks Near := by
  have hreach : (do cursorBytes ((← Act.get).reach side) : Act Arena Nat).Overlooks Near := by
    refine .get_bind ?_ fun _ => cursorBytes_overlooks _
    rintro a _ ⟨⟨-⟩⟩
    cases side with
    | front => rfl
    | back => rfl
  refine .get_bind ?_ fun a => ?_
  · rintro a _ ⟨⟨-⟩⟩
    rfl
  · refine (Overlooks.of_ensure _ _).bind fun _ => (Overlooks.of_ensure _ _).bind fun _ => ?_
    refine .ite ?_ hreach
    refine (onWindow_overlooks (Window.expandRange_overlooks _ _)).bind fun _ => ?_
    exact (Overlooks.of_emit _).bind fun _ => hreach

theorem claim_overlooks (side : Side) (size : Nat) : (claim side size).Overlooks Near :=
  (Overlooks.of_ensure _ _).bind fun _ => Cursor.claim_overlooks (fun _ _ h => h.cursor side)
    (fun _ _ c h => h.withCursor side c) (grow_overlooks side) size

end Arena

end SlotArena
