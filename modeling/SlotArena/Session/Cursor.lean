import SlotArena.Session.Reply

/-!
Sessions on a bare cursor.  Nobody waits for ever here: a step that would is not tried, since there
is nobody else who could publish.  So a session comes to an end whatever it is asked for, and the
cursors that it shows are words (`run_shows`).
-/

namespace SlotArena.Session.OfCursor

inductive Step
  | reserve (amount : Nat)
  | publish (new : Cursor)
  /-- Waits for `observed` to be replaced. -/
  | wait (observed : Cursor)
  /-- Publishes while somebody waits for a cursor that ends at `seenStop`. -/
  | waitPublish (seenStop : Nat) (new : Cursor)
  deriving DecidableEq, Repr

def act : Step → Act (Running Cursor) Reply
  | .reserve amount => onObject do return .verdict (← Cursor.reserve amount)
  | .publish new => onObject do return .cursor (← Cursor.publish new)
  | .wait observed => onObject do
      if Cursor.Parks (← Act.get) observed then return .guarded .wouldPark
      return .woke
  | .waitPublish seenStop new => onObject do
      if Cursor.Parks new ⟨0, seenStop⟩ then return .guarded .wouldPark
      return .cursor (← Cursor.publish new)

/-- A session on the cursor `start`; every step shows the cursor after it. -/
def run (start : Cursor) (steps : List (Asked Step)) : List (Turn Cursor) :=
  (play act (fun _ _ s => some s.object) (.start start) steps).turns

/-! ### What a session shows -/

def Step.Fits : Step → Prop
  | .reserve amount => amount < word32
  | .publish new | .waitPublish _ new => new.Fits
  | .wait _ => True

/-- A step is answered, and leaves a cursor that fits its word, a broken one as well. -/
theorem act_fits {step : Step} (hstep : step.Fits) {s : Running Cursor} (hs : s.object.Fits) :
    Reply.ofResult ((act step).run s).result ≠ .fault .stuck ∧
      ((act step).run s).state.object.Fits ∧ ((act step).run s).state.logging = s.logging := by
  cases step with
  | reserve amount =>
    have hrun := Cursor.run_reserve s.object amount
    by_cases hword : s.object.next + amount < word32
    · rw [if_pos hword] at hrun
      simp only [act, onObject, Act.run_focus, Act.run_bind, hrun]
      exact ⟨nofun, hs.bump hstep, trivial⟩
    · rw [if_neg hword] at hrun
      simp only [act, onObject, Act.run_focus, Act.run_bind, hrun]
      exact ⟨nofun, hs.bump hstep, trivial⟩
  | publish new => exact ⟨nofun, hstep, rfl⟩
  | wait observed =>
    simp only [act, onObject, Act.run_focus, Act.run_bind, Act.run_get]
    split
    · exact ⟨nofun, hs, trivial⟩
    · exact ⟨nofun, hs, trivial⟩
  | waitPublish seenStop new =>
    simp only [act, onObject, Act.run_focus]
    split
    · exact ⟨nofun, hs, trivial⟩
    · exact ⟨nofun, hstep, trivial⟩

/-- Every step of a session is answered, and the cursors that it shows fit their words. -/
theorem run_shows {start : Cursor} (hstart : start.Fits) {steps : List (Asked Step)}
    (hsteps : ∀ step, .ok step ∈ steps → step.Fits) :
    ∀ turn ∈ run start steps, turn.reply ≠ .fault .stuck ∧ ∀ c ∈ turn.reading, c.Fits := by
  refine play_shows (fun s => s.object.Fits ∧ s.logging = false) ?_ ⟨hstart, rfl⟩
  rintro (why | step) hmem s ⟨hs, hlogging⟩
  · rw [perform_eq _ hlogging]
    exact ⟨⟨hs, hlogging⟩, ⟨nofun, nofun⟩, nofun, fun c hc => Option.some.inj hc ▸ hs⟩
  · obtain ⟨hreply, hfits, hstays⟩ := act_fits (hsteps step hmem) hs
    rw [perform_eq _ hlogging]
    exact ⟨⟨hfits, hstays.trans hlogging⟩, ⟨hreply, nofun⟩, hreply,
      fun c hc => Option.some.inj hc ▸ hfits⟩

end SlotArena.Session.OfCursor
