import SlotArena.Proofs.Agree
import SlotArena.Proofs.Arena
import SlotArena.Proofs.Roster

/-!
Windows of either strategy, and what is built on one. Two windows are alike if they are sound and
differ in their backing at most; and on a host that may decline something, where it shows which
strategy a window has, only if they do not differ at all. Growing keeps them alike, because a sound
window is never let down by a generous host (`Window.expandRange_agrees`); so do the operations of
arenas and rosters, which see of a window nothing but its bounds.
-/

namespace SlotArena

open Act

variable {flaws : Prop}

/-! ### Windows -/

namespace Window

section

variable [Host]

/-- The two windows are sound, and the same apart from what they are made of, which makes a
difference only where the host is short of something. -/
inductive Alike : Window → Window → Prop
  | intro {w : Window} {b : Backing} (h : w.Sound) (h' : Sound { w with backing := b })
      (same : ¬ Host.Generous → b = w.backing) : Alike w { w with backing := b }

theorem Alike.self {w : Window} (h : w.Sound) : w.Alike w := .intro h h fun _ => rfl

theorem commitPiece_quiet (owner : Purpose) (start stop : Nat) :
    (Backing.commitPiece owner start stop).Quiet :=
  Quiet.of_events fun b => by
    unfold Backing.commitPiece
    split
    · rfl
    · cases Host.commit owner start (stop - start) <;> rfl

/-- Growing a backing is not noticed but for a view that it supersedes. -/
theorem expand_quiet (owner : Purpose) (e : Extent) (center size : Nat) :
    (Backing.expand owner e center size).Quiet := by
  unfold Backing.expand
  refine (Quiet.of_events fun _ => rfl).bind fun b => ?_
  cases b with
  | remap views =>
    refine (Quiet.ensure _ _).bind fun _ => ?_
    cases Host.showView owner (e.back - center) size with
    | error why => exact .pure _
    | ok =>
      refine (Quiet.set _).bind fun _ => Quiet.bind (fun s => ?_) fun _ => .pure _
      rw [run_emit]
      cases views.isEmpty with
      | true => exact ⟨rfl, by simp⟩
      | false => exact ⟨rfl, by simp [Event.flaw?]⟩
  | pinned lo hi pieces =>
    refine (Quiet.ensure _ _).bind fun _ => ?_
    by_cases hlohi : lo = hi
    · simp only [hlohi, if_true]
      refine (commitPiece_quiet _ _ _).bind fun first => ?_
      cases first with
      | error why => exact .pure _
      | ok =>
        refine (Quiet.pure _).bind fun second => ?_
        cases second with
        | error why => exact .pure _
        | ok => exact (Quiet.modify _).bind fun _ => .pure _
    · simp only [hlohi, if_false]
      refine (commitPiece_quiet _ _ _).bind fun first => ?_
      cases first with
      | error why => exact .pure _
      | ok =>
        refine (commitPiece_quiet _ _ _).bind fun second => ?_
        cases second with
        | error why => exact .pure _
        | ok => exact (Quiet.modify _).bind fun _ => .pure _

/-- What growth that the extent admits leaves of two windows that are alike, if it is answered
so. -/
def Left (w : Window) (center size : Nat) (answer : Except HostError Unit) (c c' : Backing) :
    Prop :=
  match answer with
  | .ok _ => (w.grown center size c).Alike (w.grown center size c')
  | .error _ => Alike { w with backing := c } { w with backing := c' }

/-- Growth that the extent admits, as it is seen from outside, ends for one window as it does for
the other: well, on a generous host, and in any case if it is the same window twice. -/
theorem expand_alike {w : Window} {b : Backing} (h : w.Sound) (h' : Sound { w with backing := b })
    (same : ¬ Host.Generous → b = w.backing) {center size : Nat} (hcenter : w.center ≤ center)
    (hsize : center ≤ size) (hfront : w.front ≤ size - center)
    (hpages : pageSize ∣ center ∧ pageSize ∣ size) (hback : center ≤ w.extent.back)
    (hroom : size - center ≤ w.extent.front) :
    ∃ answer c es c' es',
      (Backing.expand w.purpose w.extent center size).run w.backing = ⟨.ok answer, c, es⟩ ∧
      (Backing.expand w.purpose w.extent center size).run b = ⟨.ok answer, c', es'⟩ ∧
      w.Left center size answer c c' ∧ Event.plain es = [] ∧ Event.plain es' = [] ∧
        ∀ ev ∈ es, ev.flaw? = none := by
  have hpos : 0 < size := by
    have hw := h.size_pos
    have hcs := h.center_le_size
    simp only [front] at hfront
    omega
  have hgrown : ∀ {v : Window} {c : Backing}, v.Sound → v.center ≤ center →
      v.front ≤ size - center → center ≤ v.extent.back → size - center ≤ v.extent.front →
      Followed v.extent center size v.backing c → (v.grown center size c).Sound :=
    fun hv hcenter hfront hback hroom hc =>
      grown_sound hv hcenter hsize hfront hpages hback hroom
        (hv.anchored.grown hcenter hsize hfront hback hc).1.backed
  have hquiet := expand_quiet w.purpose w.extent center size
  by_cases hgenerous : Host.Generous
  · obtain ⟨_, c, es, hrun, rfl, hc⟩ :=
      ((expand_granted h hsize hpages hpos hback hroom).and_answers
        (expand_meets h hcenter hsize hfront hback hroom)).exists_ok
    obtain ⟨_, c', es', hrun', rfl, hc'⟩ :=
      ((expand_granted h' hsize hpages hpos hback hroom).and_answers
        (expand_meets h' hcenter hsize hfront hback hroom)).exists_ok
    have hes := hquiet w.backing
    have hes' := hquiet b
    dsimp only at hrun'
    rw [hrun] at hes
    rw [hrun'] at hes'
    refine ⟨.ok (), c, es, c', es', hrun, hrun', .intro (hgrown h hcenter hfront hback hroom hc) ?_
      fun hmean => absurd hgenerous hmean, hes.1, hes'.1, hes.2⟩
    exact hgrown (v := { w with backing := b }) h' hcenter hfront hback hroom hc'
  · obtain rfl := same hgenerous
    obtain ⟨answer, c, es, hrun, hc⟩ := (expand_meets h hcenter hsize hfront hback hroom).exists_ok
    have hes := hquiet w.backing
    rw [hrun] at hes
    refine ⟨answer, c, es, c, es, hrun, hrun, ?_, hes.1, hes.1, hes.2⟩
    cases answer with
    | error why => exact .self (h.stayed hc)
    | ok _ => exact .self (hgrown h hcenter hfront hback hroom hc)

theorem expandRange_agrees (center size : Nat) :
    Agrees flaws Alike Eq (expandRange center size) (expandRange center size) := by
  refine .of_get ?_
  rintro w _ ⟨h, h', same⟩
  have halike := Alike.intro h h' same
  refine Agrees.of_ensure halike fun hcenter => Agrees.of_ensure halike fun hfront =>
    Agrees.of_ensure halike fun hpages => ?_
  dsimp only
  by_cases hback : w.extent.back < center
  · simp only [hback, if_true]
    exact Agrees.refuse_bind _ _ _ halike
  by_cases hroom : w.extent.front < size - center
  · simp only [hback, hroom, if_true, if_false]
    exact Agrees.refuse_bind _ _ _ halike
  simp only [hback, hroom, if_false]
  rw [Nat.not_lt] at hback hroom
  obtain ⟨answer, c, es, c', es', hrun, hrun', hleft, hes, hes', hworded⟩ :=
    expand_alike h h' same hcenter.1 hcenter.2 hfront hpages hback hroom
  cases answer with
  | error why =>
    simp only [onBacking, run_bind, run_focus, hrun, hrun', note, run_emit, refuse, run_fail,
      List.append_nil]
    refine ⟨.error (.refl _), hleft, ?_, ?_⟩
    · simp only [Event.plain_append, hes, hes']
    · intro ev hev hflaw
      dsimp only at hev
      simp only [List.mem_append, List.mem_cons, List.not_mem_nil, or_false] at hev
      refine absurd ?_ hflaw
      rcases hev with hev | rfl
      · exact hworded ev hev
      · rfl
  | ok _ =>
    simp only [onBacking, run_bind, run_focus, hrun, hrun', note, run_emit, run_modify]
    refine ⟨.ok rfl, hleft, ?_, ?_⟩
    · simp only [Event.plain_append, hes, hes']
      cases w.purpose <;> rfl
    · intro ev hev hflaw
      dsimp only at hev
      simp only [List.mem_append, List.mem_cons, List.not_mem_nil, or_false] at hev
      refine absurd ?_ hflaw
      rcases hev with hev | (rfl | rfl) | rfl
      · exact hworded ev hev
      · rfl
      · rfl
      · rfl

theorem expandTo_agrees (size : Nat) :
    Agrees flaws Alike Eq (expandTo size) (expandTo size) := by
  refine Agrees.get.bind ?_
  rintro w _ ⟨-, -⟩
  exact expandRange_agrees w.center size

/-! ### Reaching the contents -/

theorem Alike.position {w v : Window} (h : w.Alike v) {p q : Place} (hpq : p.offset = q.offset) :
    w.position p = v.position q := by
  obtain ⟨h, h', -⟩ := h
  rw [position_eq h, position_eq h', hpq]

theorem Alike.byteAt {w v : Window} (h : w.Alike v) : w.byteAt = v.byteAt := by
  obtain ⟨h, h'⟩ := h
  rfl

theorem Alike.load {w v : Window} (h : w.Alike v) {p q : Place} (hpq : p.offset = q.offset)
    (size : Nat) : w.load p size = v.load q size := by
  have hposition := h.position hpq
  obtain ⟨h, h'⟩ := h
  rw [Window.load, Window.load, hposition]

theorem Alike.runs {w v : Window} (h : w.Alike v) {p q : Place} (hpq : p.offset = q.offset)
    (size : Nat) : w.runs p size = v.runs q size := by
  have hposition := h.position hpq
  obtain ⟨h, h'⟩ := h
  rw [Window.runs, Window.runs, hposition]

theorem Alike.store {w v : Window} (h : w.Alike v) (s : Store) :
    Alike { w with memory := w.memory.store s } { v with memory := v.memory.store s } := by
  obtain ⟨h, h', same⟩ := h
  exact .intro (h.withMemory _) (h'.withMemory _) same

theorem fill_agrees {p q : Place} (hpq : p.offset = q.offset) (size : Nat) (byte : UInt8) :
    Agrees flaws Alike Eq (fill p size byte) (fill q size byte) :=
  .modify fun w v h => by
    rw [h.position hpq]
    exact h.store _

theorem copy_agrees {p q : Place} (hpq : p.offset = q.offset) (source : Array UInt8) :
    Agrees flaws Alike Eq (copy p source) (copy q source) :=
  .modify fun w v h => by
    rw [h.position hpq]
    exact h.store _

/-! ### Making -/

section

variable [Host.Generous]

theorem backing_create_run (owner : Purpose) {e : Extent} (hpos : 0 < e.total)
    (hsmall : e.total < Host.addressSpan) (strategy : Strategy) :
    ∃ b, (Backing.create owner e strategy).run () = ⟨.ok b, (), []⟩ ∧ Bare e b := by
  have htotal : e.total? = .ok e.total :=
    if_pos (Nat.lt_trans hsmall (by decide))
  have htold : (Act.ofExcept (.ok e.total) : Act Unit Nat).run () = ⟨.ok e.total, (), []⟩ := rfl
  unfold Backing.create
  rw [htotal, run_bind_ok htold]
  cases strategy with
  | remap =>
    refine ⟨.remap [], ?_, Or.inl rfl⟩
    rw [Host.makeBacking_ok owner (Nat.lt_trans hsmall (by decide))]
    rfl
  | pinned =>
    refine ⟨.pinned e.back e.back [], ?_, Or.inr rfl⟩
    rw [Host.reserve_ok owner hpos hsmall]
    rfl

theorem expand_new_run (purpose : Purpose) {e : Extent} {size : Nat} {b : Backing} (ha : e.Aligned)
    (hsmall : e.total < Host.addressSpan) (hroom : size ≤ e.front) (hpos : 0 < size)
    (hpage : pageSize ∣ size) (hb : Bare e b) :
    ∃ b' es, (Backing.expand purpose e 0 size).run b = ⟨.ok (.ok ()), b', es⟩ ∧
      (⟨purpose, e, 0, size, b', .blank⟩ : Window).Sound ∧ Event.plain es = [] ∧
        ∀ ev ∈ es, ev.flaw? = none := by
  obtain ⟨_, b', es, hrun, rfl, hfollowed⟩ :=
    (hb.expand_granted purpose ha hsmall hroom hpos).exists_ok
  have hquiet := expand_quiet purpose e 0 size b
  rw [hrun] at hquiet
  exact ⟨b', es, hrun, hb.sound hfollowed ha hsmall hroom hpos hpage, hquiet⟩

/-- Whatever the strategy, a new window is as the other strategy would have it. -/
theorem create_agrees (purpose : Purpose) (initial : Nat) {e : Extent}
    (hsmall : e.total < Host.addressSpan) (strategy strategy' : Strategy) :
    Agrees flaws Eq Alike (create purpose initial e strategy)
      (create purpose initial e strategy') := by
  rintro ⟨⟩ _ rfl
  refine Agrees.of_ensure rfl fun halign => Agrees.of_ensure rfl fun hinitial =>
    Agrees.of_ensure rfl fun _ => ?_
  dsimp only
  by_cases hfront : e.front < roundUp initial pageSize
  · simp only [hfront, if_true]
    exact Agrees.refuse_bind _ _ _ rfl
  simp only [hfront, if_false]
  rw [Nat.not_lt] at hfront
  have hpos : 0 < roundUp initial pageSize :=
    Nat.lt_of_lt_of_le hinitial (roundUp_ge _ (by decide))
  have htotal : 0 < e.total := by
    simp only [Extent.total]
    omega
  obtain ⟨b, hb, hnew⟩ := backing_create_run purpose htotal hsmall strategy
  obtain ⟨b', hb', hnew'⟩ := backing_create_run purpose htotal hsmall strategy'
  obtain ⟨c, es, hrun, hs, hes, hworded⟩ :=
    expand_new_run purpose halign hsmall hfront hpos (dvd_roundUp _ _) hnew
  obtain ⟨c', es', hrun', hs', hes', -⟩ :=
    expand_new_run purpose halign hsmall hfront hpos (dvd_roundUp _ _) hnew'
  simp only [run_bind, hb, hb', hrun, hrun', run_emit, run_pure]
  refine ⟨.ok (.intro hs hs' fun hmean => absurd ‹Host.Generous› hmean), rfl, ?_, ?_⟩
  · simp only [Event.plain_append, hes, hes']
  · intro ev hev hflaw
    dsimp only at hev
    simp only [List.nil_append, List.append_nil, List.mem_append, List.mem_cons, List.not_mem_nil,
      or_false] at hev
    refine absurd ?_ hflaw
    rcases hev with hev | rfl | rfl | rfl
    · exact hworded ev hev
    · rfl
    · rfl
    · rfl

end

/-! ### Giving up -/

theorem Alike.closing {w v : Window} (h : w.Alike v) :
    Event.plain w.closing = Event.plain v.closing := by
  obtain ⟨-, -⟩ := h
  unfold Window.closing
  cases w.purpose <;> rfl

end

theorem closing_worded (w : Window) : ∀ ev ∈ w.closing, ev.flaw? = none := by
  simp [closing, Event.flaw?]

end Window

/-! ### Cursors and chains -/

section

variable {σ τ : Type} {R : σ → τ → Prop}

theorem Cursor.growUntil_agrees {grow : Act σ Nat} {grow' : Act τ Nat}
    (h : Agrees flaws R Eq grow grow') (next fuel stop : Nat) :
    Agrees flaws R Eq (Cursor.growUntil grow next fuel stop)
      (Cursor.growUntil grow' next fuel stop) := by
  induction fuel generalizing stop with
  | zero => exact .fail .stuck
  | succ fuel ih =>
    refine .ite Iff.rfl (fun _ => h.bind ?_) fun _ => .pure rfl
    rintro stop _ rfl
    exact ih stop

theorem Cursor.reserve_agrees (amount : Nat) :
    Agrees flaws Eq Eq (Cursor.reserve amount) (Cursor.reserve amount) :=
  .same ((Quiet.of_events fun _ => rfl).bind fun _ => (Quiet.set _).bind fun _ =>
    (Quiet.ensure _ _).bind fun _ => .pure _)

theorem Cursor.publish_agrees (new : Cursor) :
    Agrees flaws Eq Eq (Cursor.publish new) (Cursor.publish new) :=
  .same (.of_events fun _ => rfl)

theorem Cursor.claim_agrees {part : σ → Cursor} {part' : τ → Cursor} {replace : σ → Cursor → σ}
    {replace' : τ → Cursor → τ} (hpart : ∀ s t, R s t → part s = part' t)
    (hreplace : ∀ s t, R s t → ∀ c, R (replace s c) (replace' t c)) {grow : Act σ Nat}
    {grow' : Act τ Nat} (hgrow : Agrees flaws R Eq grow grow') (amount : Nat) :
    Agrees flaws R Eq (Cursor.claim part replace grow amount)
      (Cursor.claim part' replace' grow' amount) := by
  have hfocus : ∀ s t, R s t → ∀ c d, c = d → R (replace s c) (replace' t d) := by
    rintro s t hst c _ rfl
    exact hreplace s t hst c
  refine (Agrees.focus hpart hfocus (reserve_agrees amount)).bind ?_
  rintro verdict _ rfl
  cases verdict with
  | fits offset => exact .pure rfl
  | wait before => exact .fail .stuck
  | mustGrow before =>
    refine ((growUntil_agrees hgrow _ _ _).attempt).bind ?_
    rintro _ _ (hstop | (why | hwhat | _))
    · cases hstop
      exact (Agrees.focus hpart hfocus (publish_agrees _)).bind fun _ _ _ => .pure rfl
    · exact (Agrees.focus hpart hfocus (publish_agrees _)).bind fun _ _ _ => .refuse why
    · exact .fail (.violated hwhat)
    · exact .fail .stuck

variable [Links σ] [Links τ]

theorem Chain.push_agrees
    (hset : ∀ idx next, Agrees flaws R Eq (Links.setLink idx next : Act σ Unit)
      (Links.setLink idx next : Act τ Unit)) (c : Chain) (first count : Nat) :
    Agrees flaws R Eq (c.push first count : Act σ Chain) (c.push first count : Act τ Chain) :=
  (Agrees.ensure_same _).bind fun _ _ _ => (Agrees.ensure_same _).bind fun _ _ _ =>
    (Agrees.sweep (fun _ => hset _ _) _ _).bind fun _ _ _ => (hset _ _).bind fun _ _ _ => .pure rfl

theorem Chain.pop_agrees
    (hlink : ∀ idx, Agrees flaws R Eq (Links.link idx : Act σ Nat) (Links.link idx : Act τ Nat))
    (c : Chain) :
    Agrees flaws R Eq (c.pop : Act σ (Option Nat × Chain))
      (c.pop : Act τ (Option Nat × Chain)) := by
  refine .ite Iff.rfl (fun _ => .pure rfl) fun _ => (hlink c.head).bind ?_
  rintro next _ rfl
  exact .pure rfl

end

/-! ### Arenas -/

def ArenaConfig.under (config : ArenaConfig) (strategy : Strategy) : ArenaConfig :=
  { config with strategy := strategy }

namespace Arena

theorem cursorBytes_agrees {σ τ : Type} {R : σ → τ → Prop} (bytes : Nat) :
    Agrees flaws R Eq (cursorBytes bytes : Act σ Nat) (cursorBytes bytes : Act τ Nat) :=
  (Agrees.ensure_same _).bind fun _ _ _ => .pure rfl

variable [Host]

/-- The two arenas are the same apart from what their windows are made of. -/
inductive Alike : Arena → Arena → Prop
  | intro {a : Arena} {w : Window} (h : a.window.Alike w) : Alike a { a with window := w }

theorem onWindow_agrees {α β : Type} {Q : α → β → Prop} {x : Act Window α} {y : Act Window β}
    (h : Agrees flaws Window.Alike Q x y) : Agrees flaws Alike Q (onWindow x) (onWindow y) :=
  h.focus (fun _ _ ⟨hw⟩ => hw) fun _ _ ⟨_⟩ _ _ hw => ⟨hw⟩

theorem grow_agrees (side : Side) : Agrees flaws Alike Eq (grow side) (grow side) := by
  refine Agrees.get.bind ?_
  rintro a _ ⟨⟨-, -⟩⟩
  refine (Agrees.ensure_same _).bind fun _ _ _ => (Agrees.ensure_same _).bind fun _ _ _ => ?_
  have hreach : Agrees flaws Alike Eq (do cursorBytes ((← Act.get).reach side) : Act Arena Nat)
      (do cursorBytes ((← Act.get).reach side)) := by
    refine Agrees.get.bind ?_
    rintro a _ ⟨⟨-, -⟩⟩
    cases side <;> exact cursorBytes_agrees _
  refine .ite Iff.rfl (fun _ => ?_) fun _ => hreach
  refine (onWindow_agrees (Window.expandRange_agrees _ _)).bind fun _ _ _ => ?_
  exact (Agrees.note_same rfl).bind fun _ _ _ => hreach

theorem claim_agrees (side : Side) (size : Nat) :
    Agrees flaws Alike Eq (claim side size) (claim side size) := by
  refine (Agrees.ensure_same _).bind fun _ _ _ => Cursor.claim_agrees ?_ ?_ (grow_agrees side) size
  · rintro a _ ⟨hw⟩
    cases side <;> rfl
  · rintro a _ ⟨hw⟩ c
    cases side <;> exact ⟨hw⟩

theorem alloc_agrees (size : Nat) : Agrees flaws Alike Eq (alloc size) (alloc size) := by
  refine (claim_agrees .front size).bind ?_
  rintro offset _ rfl
  exact .ite Iff.rfl (fun _ => .pure rfl) fun _ => .refuse _

theorem allocBack_agrees (size : Nat) :
    Agrees flaws Alike Eq (allocBack size) (allocBack size) := by
  refine (claim_agrees .back size).bind ?_
  rintro distance _ rfl
  exact .ite Iff.rfl (fun _ => .pure rfl) fun _ => .refuse _

theorem place_agrees (offset : Int) :
    Agrees flaws Alike (fun p q => p.offset = q.offset) (place offset) (place offset) := by
  refine Agrees.get.bind ?_
  rintro a _ ⟨⟨-, -⟩⟩
  exact (Agrees.ensure_same _).bind fun _ _ _ => .pure rfl

theorem create_agrees [Host.Generous] (config : ArenaConfig) (strategy strategy' : Strategy) :
    Agrees flaws Eq Alike (create (config.under strategy)) (create (config.under strategy')) := by
  rintro ⟨⟩ _ rfl
  refine Agrees.of_ensure rfl fun hadmits => ?_
  refine ((Agrees.roundToPow2 _ _).bind ?_) () () rfl
  rintro initial _ rfl
  refine (Window.create_agrees .arena initial hadmits.total_lt strategy strategy').bind
    fun w v hw => ?_
  exact .pure ⟨hw⟩

end Arena

/-! ### Rosters -/

namespace Roster

variable [Host]

inductive Alike : Roster → Roster → Prop
  | intro {r : Roster} {w : Window} (h : r.window.Alike w) : Alike r { r with window := w }

theorem onWindow_agrees {α β : Type} {Q : α → β → Prop} {x : Act Window α} {y : Act Window β}
    (h : Agrees flaws Window.Alike Q x y) : Agrees flaws Alike Q (onWindow x) (onWindow y) :=
  h.focus (fun _ _ ⟨hw⟩ => hw) fun _ _ ⟨_⟩ _ _ hw => ⟨hw⟩

theorem widen_agrees (size : Nat) : Agrees flaws Alike Eq (widen size) (widen size) := by
  refine Agrees.get.bind ?_
  rintro r _ ⟨⟨-, -⟩⟩
  refine .ite Iff.rfl (fun _ => ?_) fun _ => .pure rfl
  refine (onWindow_agrees (Window.expandTo_agrees size)).bind fun _ _ _ => Agrees.get.bind ?_
  rintro r _ ⟨⟨-, -⟩⟩
  exact .note_same rfl

theorem settle_agrees (used : Nat) (exhausted : Refusal) :
    Agrees flaws Alike Eq (settle used exhausted) (settle used exhausted) := by
  refine Agrees.get.bind ?_
  rintro r _ ⟨⟨-, -⟩⟩
  exact .ite Iff.rfl (fun _ => .refuse _) fun _ => .pure rfl

theorem grow_agrees : Agrees flaws Alike Eq grow grow := by
  refine Agrees.get.bind ?_
  rintro r _ ⟨⟨-, -⟩⟩
  refine .ite Iff.rfl (fun _ => .ite Iff.rfl (fun _ => ?_) fun _ => ?_) fun _ => settle_agrees _ _
  · exact (Agrees.note_same rfl).bind fun _ _ _ => .refuse _
  · exact (widen_agrees _).bind fun _ _ _ => settle_agrees _ _

theorem add_agrees (count : Nat) : Agrees flaws Alike Eq (add count) (add count) := by
  refine (Agrees.ensure_same _).bind fun _ _ _ => ?_
  refine (Cursor.claim_agrees ?_ ?_ grow_agrees count).bind ?_
  · rintro r _ ⟨-⟩
    rfl
  · rintro r _ ⟨hw⟩ c
    exact ⟨hw⟩
  · rintro first _ rfl
    refine (Agrees.modify ?_).bind fun _ _ _ => .pure rfl
    rintro r _ ⟨hw⟩
    exact ⟨hw⟩

theorem get_agrees (idx : Nat) : Agrees flaws Alike Eq (get idx) (get idx) := by
  refine Agrees.get.bind ?_
  rintro r _ ⟨-⟩
  exact (Agrees.ensure_same _).bind fun _ _ _ => .pure rfl

theorem edit_agrees (idx : Nat) (f : Record → Record) :
    Agrees flaws Alike Eq (edit idx f) (edit idx f) := by
  refine (get_agrees idx).bind ?_
  rintro v _ rfl
  refine .modify ?_
  rintro r _ ⟨hw⟩
  exact ⟨hw⟩

theorem push_agrees (c : Chain) (first count : Nat) :
    Agrees flaws Alike Eq (c.push first count : Act Roster Chain) (c.push first count) :=
  c.push_agrees (fun _ _ => edit_agrees _ _) first count

theorem pop_agrees (c : Chain) :
    Agrees flaws Alike Eq (c.pop : Act Roster (Option Nat × Chain)) c.pop := by
  refine c.pop_agrees fun idx => (get_agrees idx).bind ?_
  rintro v _ rfl
  exact .pure rfl

theorem create_agrees [Host.Generous] (initial capacity : Nat) (strategy strategy' : Strategy) :
    Agrees flaws Eq Alike (create initial capacity strategy)
      (create initial capacity strategy') := by
  rintro ⟨⟩ _ rfl
  refine Agrees.of_ensure rfl fun hadmits => ?_
  refine Agrees.bind (Window.create_agrees .roster _ (total_lt hadmits.2.1) strategy strategy')
    (fun w v hw => ?_) () () rfl
  obtain ⟨h, h', same⟩ := hw
  exact .pure ⟨.intro h h' same⟩

end Roster

end SlotArena
