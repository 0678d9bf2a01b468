import SlotArena.Proofs.Counting
import SlotArena.Proofs.Traces

/-!
The shape of an arena. Every growth at least doubles the window, so an arena has grown no more often
than its size was doubled, and it has no more superseded views than that (`shape_kept`). Whatever
the sizes and the sides of the calls and whichever of them were refused, both sides are whole pages
inside their half of the extent, hold all that is claimed on them, and never shrink.

How often an arena grew is read off the events: growth notes itself (`growths`). What the events
say and how the size changes is one fact about an operation, `Doubles`.
-/

namespace SlotArena

open Act

/-! ### Events -/

def Event.isGrowth : Event → Bool
  | .note (.arenaGrew ..) => true
  | _ => false

def Event.growths (es : List Event) : Nat := es.countP Event.isGrowth

@[simp] theorem Event.growths_nil : Event.growths [] = 0 := rfl

@[simp] theorem Event.growths_cons (ev : Event) (es : List Event) :
    Event.growths (ev :: es) = Event.growths es + if ev.isGrowth then 1 else 0 := List.countP_cons

@[simp] theorem Event.growths_append (es fs : List Event) :
    Event.growths (es ++ fs) = Event.growths es + Event.growths fs := List.countP_append

/-! ### Views -/

namespace Backing

/-- Views of a backing, superseded or not. -/
def shown : Backing → Nat
  | .remap views => views.length
  | .pinned .. => 0

theorem retired_eq (b : Backing) : b.retired = b.shown - 1 := by
  cases b with
  | remap views => rfl
  | pinned lo hi pieces => rfl

theorem commitPiece_leaves [Host] (owner : Purpose) (start stop : Nat) (b : Backing) :
    (commitPiece owner start stop).Leaves b fun r es b' => (∃ answer, r = .ok answer) ∧ es = [] ∧
      b'.shown = b.shown := by
  rw [commitPiece, leaves_ite]
  refine ⟨fun _ => ⟨⟨_, rfl⟩, rfl, rfl⟩, fun _ => ?_⟩
  cases Host.commit owner start (stop - start) with
  | error why => exact ⟨⟨_, rfl⟩, rfl, rfl⟩
  | ok u =>
    cases b with
    | remap views => exact ⟨⟨_, rfl⟩, rfl, rfl⟩
    | pinned lo hi pieces => exact ⟨⟨_, rfl⟩, rfl, rfl⟩

/-- A backing that follows a window gets one view more at most. One that does not follow gets none
and tells nothing; it never refuses, that is for the window to do. -/
theorem expand_leaves [Host] (owner : Purpose) (e : Extent) (center size : Nat) (b : Backing) :
    (expand owner e center size).Leaves b fun r es b' => Event.growths es = 0 ∧
      (b'.shown = b.shown ∨ r = .ok (.ok ()) ∧ b'.shown = b.shown + 1) ∧
      (∀ why, r ≠ .error (.refused why)) ∧ ∀ why, r = .ok (.error why) → es = [] := by
  cases b with
  | remap views =>
    simp only [expand, leaves_bind, leaves_get, leaves_ensure]
    refine ⟨fun _ => ?_, fun _ => by simp⟩
    cases Host.showView owner (e.back - center) size with
    | error why => simp
    | ok u =>
      cases views with
      | nil => refine ⟨rfl, Or.inr ⟨rfl, rfl⟩, ?_, ?_⟩ <;> rintro why ⟨⟩
      | cons v views => refine ⟨rfl, Or.inr ⟨rfl, rfl⟩, ?_, ?_⟩ <;> rintro why ⟨⟩
  | pinned lo hi pieces =>
    simp only [expand, leaves_bind, leaves_get, leaves_ensure]
    refine ⟨fun _ => ?_, fun _ => by simp⟩
    by_cases hnew : lo = hi
    · simp only [hnew, if_true, leaves_bind]
      refine (commitPiece_leaves ..).imp fun r es b h => ?_
      obtain ⟨⟨answer, rfl⟩, rfl, hb⟩ := h
      cases answer with
      | error why => simp [hb]
      | ok u =>
        cases b with
        | remap views => refine ⟨rfl, Or.inl hb, ?_, ?_⟩ <;> rintro why ⟨⟩
        | pinned lo' hi' pieces' => refine ⟨rfl, Or.inl rfl, ?_, ?_⟩ <;> rintro why ⟨⟩
    · simp only [hnew, if_false, leaves_bind]
      refine (commitPiece_leaves ..).imp fun r es b h => ?_
      obtain ⟨⟨answer, rfl⟩, rfl, hb⟩ := h
      cases answer with
      | error why => simp [hb]
      | ok u =>
        simp only [leaves_bind]
        refine (commitPiece_leaves ..).imp fun r es b' h => ?_
        obtain ⟨⟨answer, rfl⟩, rfl, hb'⟩ := h
        rw [hb] at hb'
        cases answer with
        | error why => simp [hb']
        | ok u =>
          cases b' with
          | remap views => refine ⟨rfl, Or.inl hb', ?_, ?_⟩ <;> rintro why ⟨⟩
          | pinned lo' hi' pieces' => refine ⟨rfl, Or.inl rfl, ?_, ?_⟩ <;> rintro why ⟨⟩

end Backing

/-- A window that grows has the new size and one view more at most; one that does not is as before
in both. It says nothing of the arena around it. -/
theorem Window.expandRange_leaves [Host] (center size : Nat) (w : Window) :
    (Window.expandRange center size).Leaves w fun r es w' => Event.growths es = 0 ∧
      (r = .ok () → w'.size = size ∧ w'.backing.shown ≤ w.backing.shown + 1) ∧
      (∀ fault, r = .error fault → w'.size = w.size ∧ w'.backing.shown = w.backing.shown) := by
  simp only [Window.expandRange, leaves_bind, leaves_get, leaves_ensure, leaves_ite, leaves_refuse]
  refine ⟨fun _ => ⟨fun _ => ⟨fun _ => ⟨fun _ => by simp, fun _ => ⟨fun _ => by simp, fun _ => ?_⟩⟩,
    fun _ => by simp⟩, fun _ => by simp⟩, fun _ => by simp⟩
  simp only [Window.onBacking, leaves_focus]
  refine (Backing.expand_leaves w.purpose w.extent center size w.backing).imp fun r es b h => ?_
  obtain ⟨hes, hb, -⟩ := h
  cases r with
  | error fault => simpa [hes] using hb
  | ok answer =>
    cases answer with
    | error why => simpa [leaves_bind, hes, Event.isGrowth] using hb
    | ok u =>
      simp only [leaves_bind, leaves_emit, leaves_note, leaves_modify]
      refine ⟨by simp [hes, Event.isGrowth], fun _ => ⟨trivial, ?_⟩, by rintro fault ⟨⟩⟩
      omega

theorem Window.create_shown [Host] (purpose : Purpose) (initial : Nat) (e : Extent)
    (strategy : Strategy) :
    (Window.create purpose initial e strategy).Meets () (fun w _ => w.backing.shown ≤ 1)
      fun _ _ => True := by
  simp only [Window.create, meets_bind, meets_ensure, meets_ite, meets_refuse, implies_true,
    and_true, true_and]
  intro _ _ _ _
  refine (Window.backing_create_meets purpose e strategy).imp fun b _ hb => ?_
  have hnew : b.shown = 0 := by
    rcases hb with rfl | rfl
    · rfl
    · rfl
  have hexpand := Backing.expand_leaves purpose e 0 (roundUp initial pageSize) b
  unfold Leaves at hexpand
  rcases hrun : (Backing.expand purpose e 0 (roundUp initial pageSize)).run b with ⟨r, b', es⟩
  rw [hrun] at hexpand
  rcases r with fault | why | u
  · exact trivial
  · exact trivial
  · simp only [meets_bind, meets_emit, meets_pure]
    dsimp only at hexpand
    omega

namespace Arena

/-- What becomes of the size of an arena while it tells `es`: it doubles whenever it grows. -/
def Doubles (a : Arena) (es : List Event) (a' : Arena) : Prop :=
  (∃ j, Event.growths es ≤ j ∧ a'.size = a.size * 2 ^ j) ∧
    a'.window.backing.shown ≤ a.window.backing.shown + Event.growths es

theorem doubles_path : Path Doubles where
  refl a := ⟨⟨0, Nat.le_refl _, (Nat.mul_one _).symm⟩, Nat.le_refl _⟩
  trans {a b c es fs} h h' := by
    obtain ⟨⟨j, hj, hsize⟩, hshown⟩ := h
    obtain ⟨⟨j', hj', hsize'⟩, hshown'⟩ := h'
    simp only [Doubles, Event.growths_append]
    refine ⟨⟨j + j', by omega, ?_⟩, by omega⟩
    rw [hsize', hsize, Nat.mul_assoc, ← Nat.pow_add]

theorem doubles_withCursor (side : Side) (a : Arena) (c : Cursor) :
    Doubles a [] (withCursor side a c) := by
  cases side with
  | front => exact doubles_path.refl a
  | back => exact doubles_path.refl a

theorem answer_traces {R : Arena → List Event → Arena → Prop} (hR : Path R) (side : Side)
    (a : Arena) : Traces R (do cursorBytes ((← Act.get).reach side)) a :=
  traces_get_bind ((traces_ensure hR _ _).bind hR fun _ _ => traces_pure hR _)

/-- An arena that grows tells so, and is at least twice as large after it. -/
theorem grow_traces [Host] (side : Side) (a : Arena) : Traces Doubles (grow side) a := by
  have hR := doubles_path
  have hanswer := answer_traces hR side
  refine traces_get_bind (traces_ensure_bind hR (traces_ensure_bind hR ?_))
  refine traces_ite ?_ (hanswer a)
  dsimp only
  obtain ⟨k, hk⟩ := doublePast_eq
    (max (roundUp a.back.next pageSize) a.center +
      max (roundUp a.front.next pageSize) (a.size - a.center)) a.size
  generalize doublePast _ a.size = size at *
  generalize placeOrigin size _ _ _ _ = center
  rw [Traces, leaves_bind, onWindow, leaves_focus]
  refine (Window.expandRange_leaves center size a.window).imp fun r es w h => ?_
  obtain ⟨hes, hgrown, hsame⟩ := h
  cases r with
  | error fault =>
    obtain ⟨hsize, hshown⟩ := hsame fault rfl
    refine ⟨⟨0, Nat.le_of_eq hes, ?_⟩, Nat.le_add_right_of_le (Nat.le_of_eq hshown)⟩
    rw [Nat.pow_zero, Nat.mul_one]
    exact hsize
  | ok u =>
    obtain ⟨hsize, hshown⟩ := hgrown rfl
    refine (leaves_bind ..).mpr ((leaves_note ..).mpr ((hanswer _).imp fun _ fs a' hfs => ?_))
    have hnoted : ∀ n : Note, Event.isGrowth (.note n) = true →
        Doubles a (es ++ [.note n]) { a with window := w } := by
      intro n hn
      have hgrowths : Event.growths (es ++ [.note n]) = 1 := by simp [hes, hn]
      rw [Doubles, hgrowths]
      exact ⟨⟨k + 1, Nat.le_add_left .., hsize.trans hk⟩, hshown⟩
    rw [← List.append_assoc]
    exact hR.trans (hnoted _ rfl) hfs

theorem serve_traces [Host] (side : Side) (n : Nat) (a : Arena) :
    Traces Doubles (serve side n) a := by
  have hR := doubles_path
  have hclaim : Traces Doubles (claim side n) a := traces_ensure_bind hR
    (Cursor.claim_traces hR (doubles_withCursor side) (grow_traces side) n a)
  rw [serve_eq]
  exact hclaim.bind hR fun _ _ => traces_ite (traces_pure hR _) (traces_fail hR _)

/-! ### All calls again -/

/-- Makes the calls of a log, each with the host that it met, whatever becomes of them. -/
def replay : (log : List Call) → Act Arena Unit
  | [] => pure ()
  | c :: log => do
      let _ ← (@serve c.host c.side c.size).attempt
      replay log

def growths [Host] (config : ArenaConfig) (log : List Call) : Nat :=
  match ((create config).run ()).result with
  | .ok a => Event.growths ((replay log).run a).events
  | .error _ => 0

theorem replay_append (log log' : List Call) :
    replay (log ++ log') = (do replay log; replay log') := by
  induction log with
  | nil => rfl
  | cons c log ih =>
    rw [List.cons_append, replay, replay, ih, bind_assoc]

theorem replay_result (log : List Call) (a : Arena) : ((replay log).run a).result = .ok () := by
  induction log generalizing a with
  | nil => rfl
  | cons c log ih => exact ih _

theorem state_replay_append (log log' : List Call) (a : Arena) :
    ((replay (log ++ log')).run a).state =
      ((replay log').run ((replay log).run a).state).state := by
  rw [replay_append, run_bind]
  have hresult := replay_result log a
  rcases hrun : (replay log).run a with ⟨_ | u, a', es⟩
  · rw [hrun] at hresult
    cases hresult
  · rfl

theorem replay_traces (log : List Call) (a : Arena) : Traces Doubles (replay log) a := by
  induction log generalizing a with
  | nil => exact traces_pure doubles_path ()
  | cons c log ih =>
    exact (@serve_traces c.host c.side c.size a).attempt.bind doubles_path fun _ => ih

/-- A log says all about the arena that it led to. -/
theorem History.replayed {made : Host} {config : ArenaConfig} {log : List Call} {a a₀ : Arena}
    (h : History config log a) (hcreate : ((create config).run ()).result = .ok a₀) :
    a = ((replay log).run a₀).state := by
  induction h with
  | created h => exact Except.ok.inj (h.symm.trans hcreate)
  | @called _ _ before host side n keeps ih =>
    rw [state_replay_append, ← ih]
    rfl

theorem History.exists_created {made : Host} {config : ArenaConfig} {log : List Call} {a : Arena}
    (h : History config log a) : ∃ a₀, ((create config).run ()).result = .ok a₀ := by
  induction h with
  | created h => exact ⟨_, h⟩
  | called before side n keeps ih => exact ih

theorem History.unique {made : Host} {config : ArenaConfig} {log : List Call} {a b : Arena}
    (h : History config log a) (h' : History config log b) : b = a := by
  obtain ⟨a₀, hcreate⟩ := h.exists_created
  rw [h.replayed hcreate, h'.replayed hcreate]

theorem Sound.extends_served [Host] {a : Arena} (h : a.Sound) {side : Side} {n : Nat}
    (hkeeps : ∀ what, ((serve side n).run a).result ≠ .error (.violated what)) :
    a.window.Extends ((serve side n).run a).state.window := by
  have hserve := serve_meets h side n
  cases hanswer : ((serve side n).run a).result with
  | ok offset => exact (hserve.of_ok hanswer).2.2.extends_window
  | error fault =>
    rcases hserve.of_error hanswer with ⟨what, rfl⟩ | ⟨why, -, -, -, hrefused⟩
    · exact absurd hanswer (hkeeps what)
    · exact hrefused.extends_window h

/-- Whatever was usable after some of the calls is usable after all of them. -/
theorem History.extends {made : Host} {config : ArenaConfig} {log earlier later : List Call}
    {a b : Arena}
    (h : History config log a) (hlog : log = earlier ++ later) (hb : History config earlier b) :
    b.window.Extends a.window := by
  induction h generalizing later with
  | created h =>
    obtain ⟨rfl, rfl⟩ := List.append_eq_nil_iff.mp hlog.symm
    rw [(History.created h).unique hb]
    exact .refl _
  | @called log a before host side n keeps ih =>
    rcases List.eq_nil_or_concat later with rfl | ⟨rest, last, rfl⟩
    · rw [List.append_nil] at hlog
      subst hlog
      rw [(@History.called made config log a before host side n keeps).unique hb]
      exact .refl _
    · rw [List.concat_eq_append, ← List.append_assoc] at hlog
      have hprefix := (List.append_inj' hlog rfl).1
      exact (ih hprefix).trans (before.counted.sound.extends_served keeps)

theorem create_size [Host] (config : ArenaConfig) :
    (create config).Meets () (fun a _ => a.size = initialSize config) fun _ _ => True := by
  simp only [create, roundToPow2, meets_bind, meets_ensure, meets_pure, implies_true, and_true]
  intro hextent _
  apply (Window.create_sound hextent.total_lt).imp
  intro w _ hres
  obtain ⟨-, -, -, hsize, -⟩ := hres
  exact hsize.trans (roundUp_initialSize config)

theorem create_shown [Host] (config : ArenaConfig) :
    (create config).Meets () (fun a _ => a.window.backing.shown ≤ 1) fun _ _ => True := by
  simp only [create, roundToPow2, meets_bind, meets_ensure, meets_pure, implies_true, and_true]
  intro _ _
  exact Window.create_shown ..

theorem Counted.reach_le_half {config : ArenaConfig} {log : List Call} {a : Arena}
    (h : Counted config log a) (side : Side) : a.reach side ≤ config.extent / 2 := by
  have hback := h.sound.window.center_le_back
  have hfront := h.sound.window.front_le_front
  have hhalf := h.admits.1.two_mul_half (Nat.lt_of_lt_of_le (by decide) h.admits.2.1)
  simp only [h.extent, Extent.centered] at hback hfront
  cases side with
  | front =>
    simp only [reach, Arena.size, Arena.center]
    omega
  | back => exact hback

/-- Whatever was asked of an arena before, and with whatever success: its window is its first window
doubled at least as often as it grew, which bounds the growths and the superseded views; both sides
are whole pages within their half of the extent; each cursor is within what is published for it, and
that within the window; and neither side is shorter than it ever was. -/
theorem shape_kept [Host] {config : ArenaConfig} {log : List Call} {a : Arena}
    (h : History config log a) :
    (∃ j, growths config log ≤ j ∧ a.size = initialSize config * 2 ^ j) ∧
      growths config log ≤ Nat.log2 (a.size / initialSize config) ∧
      a.window.backing.retired ≤ Nat.log2 (a.size / initialSize config) ∧
      pageSize ∣ a.center ∧ pageSize ∣ a.size - a.center ∧
      a.center ≤ config.extent / 2 ∧ a.size - a.center ≤ config.extent / 2 ∧
      (∀ side, (a.cursor side).next ≤ (a.cursor side).stop ∧
        (a.cursor side).stop ≤ a.reach side) ∧
      ∀ earlier later b, log = earlier ++ later → History config earlier b →
        b.center ≤ a.center ∧ b.size - b.center ≤ a.size - a.center := by
  have hcounted := h.counted
  have hsound := hcounted.sound
  obtain ⟨a₀, hcreate⟩ := h.exists_created
  have hgrowths : growths config log = Event.growths ((replay log).run a₀).events := by
    rw [growths, hcreate]
  obtain ⟨⟨j, hj, hsize⟩, hshown⟩ := replay_traces log a₀
  rw [← h.replayed hcreate] at hsize hshown
  rw [← hgrowths] at hj hshown
  rw [(create_size config).of_ok hcreate] at hsize
  have hfirst : a₀.window.backing.shown ≤ 1 := (create_shown config).of_ok hcreate
  have hlog : Nat.log2 (a.size / initialSize config) = j := by
    rw [hsize, Nat.mul_div_cancel_left _ (powerOfTwo_initialSize config).pos, Nat.log2_two_pow]
  refine ⟨⟨j, hj, hsize⟩, hlog ▸ hj, ?_, hsound.window.page_dvd_center,
    Nat.dvd_sub hsound.window.page_dvd_size hsound.window.page_dvd_center,
    hcounted.reach_le_half .back, hcounted.reach_le_half .front,
    fun side => ⟨hsound.next_le side, hsound.stop_le side⟩, ?_⟩
  · rw [hlog, Backing.retired_eq]
    omega
  · intro earlier later b hprefix hb
    have hext := h.extends hprefix hb
    exact ⟨hext.center_le, hext.front_le⟩

section

attribute [local instance] Host.plain

/-- A growth at the back that moves the origin, a refusal, and a growth at the front that doubles
the window twice. -/
theorem shape_kept_of_refused : ∃ log a, History ⟨1000, 131072, .remap⟩ log a ∧
    log.map Call.answer = [.ok (-1000), .error (.refused (.outOfReservedSpace 258048 65536)),
      .ok 0] ∧
    growths ⟨1000, 131072, .remap⟩ log = 2 ∧ a.window.backing.retired = 2 ∧
    2 ≤ Nat.log2 (a.size / initialSize ⟨1000, 131072, .remap⟩) ∧ pageSize ∣ a.center ∧
    a.size - a.center ≤ 65536 := by
  have hrun : ∃ a₀ a₁ a₂ a₃, ((create ⟨1000, 131072, .remap⟩).run ()).result = .ok a₀ ∧
      a₁ = ((serve .back 1000).run a₀).state ∧ a₂ = ((serve .front 200000).run a₁).state ∧
      a₃ = ((serve .front 20000).run a₂).state ∧
      ((serve .back 1000).run a₀).result = .ok (-1000) ∧
      ((serve .front 200000).run a₁).result =
        .error (.refused (.outOfReservedSpace 258048 65536)) ∧
      ((serve .front 20000).run a₂).result = .ok 0 ∧ a₃.window.backing.retired = 2 ∧
      growths ⟨1000, 131072, .remap⟩ [⟨.plain, .back, 1000, .ok (-1000)⟩,
        ⟨.plain, .front, 200000, .error (.refused (.outOfReservedSpace 258048 65536))⟩,
        ⟨.plain, .front, 20000, .ok 0⟩] = 2 := by
    refine ⟨_, _, _, _, rfl, rfl, rfl, rfl, ?_⟩
    decide +kernel
  obtain ⟨a₀, a₁, a₂, a₃, hcreate, ha₁, ha₂, ha₃, h₁, h₂, h₃, hretired, hgrowths⟩ := hrun
  have hhistory := (((History.created hcreate).answered h₁ ha₁ (by simp)).answered h₂ ha₂
    (by simp)).answered h₃ ha₃ (by simp)
  obtain ⟨-, hbound, -, hpages, -, -, hhalf, -⟩ := shape_kept hhistory
  exact ⟨_, a₃, hhistory, rfl, hgrowths, hretired, hgrowths ▸ hbound, hpages, hhalf⟩

end

end Arena

end SlotArena
