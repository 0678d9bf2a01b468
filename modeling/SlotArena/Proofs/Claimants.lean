import SlotArena.Host
import SlotArena.Proofs.Handoff

/-!
An object with several cursors, and any number of claimants. A step of a claimant reserves, grows
the object or publishes; growth is one step, and it may read all of the cursors while others add to
them or take their claims back.

What goes on at one cursor is what goes on at a cursor alone: growth takes place between the moment
when the claimant becomes the owner and the moment when it publishes, and no cursor sees it. So
each cursor is orderly, whatever the growth does with the object.

The main statements are `Reachable.view`, that each cursor is seen to go through the steps of a
cursor alone, and `claim_runs`, that a claim by one claimant, as a whole, is a run of these steps.
-/

namespace SlotArena

open Act Cursor

/-- An object with a cursor for each `κ`, how it grows for them, and which hosts it may meet while
it grows, at each growth another. Growth moves no cursor. -/
structure Claimable (σ κ : Type) where
  part : κ → σ → Cursor
  replace : κ → σ → Cursor → σ
  grow : [Host] → κ → Act σ Nat
  hosts : Host → Prop
  part_replace : ∀ k s c, part k (replace k s c) = c
  part_replace_of_ne : ∀ {k k'} s c, k' ≠ k → part k' (replace k s c) = part k' s
  part_grow : ∀ [Host] k k' s, part k' ((grow k).run s).state = part k' s

namespace Claimable

variable {σ κ : Type} (c : Claimable σ κ)

def onCursor {α : Type} (k : κ) (x : Act Cursor α) : Act σ α :=
  Act.focus (c.part k) (c.replace k) x

def claim [Host] (k : κ) (amount : Nat) : Act σ Nat :=
  Cursor.claim (c.part k) (c.replace k) (c.grow k) amount

theorem part_onCursor {α : Type} (k : κ) (x : Act Cursor α) (s : σ) :
    c.part k ((c.onCursor k x).run s).state = (x.run (c.part k s)).state :=
  c.part_replace ..

theorem part_onCursor_of_ne {α : Type} {k k' : κ} (h : k' ≠ k) (x : Act Cursor α) (s : σ) :
    c.part k' ((c.onCursor k x).run s).state = c.part k' s :=
  c.part_replace_of_ne _ _ h

end Claimable

inductive Stage
  | claiming (amount : Nat)
  /-- Owns the growth after `before`; `stop` is the end that it knows of. -/
  | growing (amount : Nat) (before : Cursor) (stop : Nat)
  /-- Owns a growth that was refused. -/
  | refused (amount : Nat) (before : Cursor) (why : Refusal)
  /-- Was stopped by something else while it grew; nobody takes the growth over. -/
  | broken (amount : Nat) (before : Cursor) (fault : Fault)
  | looking (amount : Nat) (observed : Cursor)
  | asleep (amount : Nat) (observed : Cursor)
  | waking
  deriving DecidableEq, Repr

namespace Stage

/-- What is seen of a claimant at its cursor: whoever owns a growth is growing. -/
def phase : Stage → Phase
  | .claiming amount => .claiming amount
  | .growing amount before _ => .growing amount before
  | .refused amount before _ => .growing amount before
  | .broken amount before _ => .growing amount before
  | .looking amount observed => .looking amount observed
  | .asleep amount observed => .asleep amount observed
  | .waking => .waking

def grown (amount : Nat) (before : Cursor) : Except Fault Nat → Stage
  | .ok stop => .growing amount before stop
  | .error (.refused why) => .refused amount before why
  | .error fault => .broken amount before fault

def woken : Stage → Stage
  | .asleep amount observed => .looking amount observed
  | s => s

@[simp] theorem phase_grown (amount : Nat) (before : Cursor) (answer : Except Fault Nat) :
    (grown amount before answer).phase = .growing amount before := by
  cases answer with
  | ok stop => rfl
  | error fault =>
    cases fault with
    | _ => rfl

@[simp] theorem phase_woken (s : Stage) : s.woken.phase = s.phase.woken := by
  cases s with
  | _ => rfl

end Stage

/-- A claimant, and at which cursor it claims if it does. -/
inductive Claimant (κ : Type)
  | idle
  | busy (k : κ) (stage : Stage)
  deriving DecidableEq, Repr

namespace Claimant

variable {κ : Type}

def judged (k : κ) (amount : Nat) : Verdict → Claimant κ
  | .fits _ => .idle
  | .mustGrow before => .busy k (.growing amount before before.stop)
  | .wait before => .busy k (.looking amount before)

variable [DecidableEq κ]

def phase (k : κ) : Claimant κ → Phase
  | .idle => .idle
  | .busy k' stage => if k' = k then stage.phase else .idle

def woken (k : κ) : Claimant κ → Claimant κ
  | .idle => .idle
  | .busy k' stage => .busy k' (if k' = k then stage.woken else stage)

@[simp] theorem phase_busy_self (k : κ) (stage : Stage) :
    (busy k stage).phase k = stage.phase := if_pos rfl

theorem phase_busy_of_ne {k k' : κ} (h : k' ≠ k) (stage : Stage) :
    (busy k stage).phase k' = .idle := if_neg h.symm

@[simp] theorem phase_judged_self (k : κ) (amount : Nat) (v : Verdict) :
    (judged k amount v).phase k = v.next amount := by
  cases v with
  | fits offset => rfl
  | mustGrow before => exact phase_busy_self ..
  | wait before => exact phase_busy_self ..

theorem phase_judged_of_ne {k k' : κ} (h : k' ≠ k) (amount : Nat) (v : Verdict) :
    (judged k amount v).phase k' = .idle := by
  cases v with
  | fits offset => rfl
  | mustGrow before => exact phase_busy_of_ne h _
  | wait before => exact phase_busy_of_ne h _

@[simp] theorem phase_woken_self (k : κ) (p : Claimant κ) :
    (p.woken k).phase k = (p.phase k).woken := by
  cases p with
  | idle => rfl
  | busy k' stage =>
    by_cases hk : k' = k
    · simp [woken, phase, hk]
    · simp [woken, phase, hk, Phase.woken]

theorem phase_woken_of_ne {k k' : κ} (h : k' ≠ k) (p : Claimant κ) :
    (p.woken k).phase k' = p.phase k' := by
  cases p with
  | idle => rfl
  | busy k'' stage =>
    by_cases hk : k'' = k'
    · subst hk
      simp [woken, phase, h]
    · simp [woken, phase, hk]

end Claimant

/-- An object and those who claim on it, with all that was granted at each cursor, the latest
first. -/
structure Claimants (σ κ ι : Type) where
  object : σ
  claimant : ι → Claimant κ
  granted : κ → List Range

namespace Claimants

variable {σ κ ι : Type}

def start (s : σ) : Claimants σ κ ι := ⟨s, fun _ => .idle, fun _ => []⟩

def put (m : Claimants σ κ ι) (s : σ) : Claimants σ κ ι := { m with object := s }

section

variable [DecidableEq ι]

def move (m : Claimants σ κ ι) (t : ι) (p : Claimant κ) : Claimants σ κ ι :=
  { m with claimant := Function.update m.claimant t p }

variable [DecidableEq κ]

/-- Everybody who sleeps at the cursor `k` is woken by `t`. -/
def wakeAll (m : Claimants σ κ ι) (t : ι) (k : κ) : Claimants σ κ ι :=
  { m with claimant := fun u => if u = t then .idle else (m.claimant u).woken k }

def change (m : Claimants σ κ ι) (s : σ) (k : κ) (rs : List Range) : Claimants σ κ ι :=
  { m with object := s, granted := Function.update m.granted k (rs ++ m.granted k) }

end

/-- One atomic step of one claimant. -/
inductive Step [DecidableEq ι] [DecidableEq κ] (c : Claimable σ κ) :
    Claimants σ κ ι → Claimants σ κ ι → Prop
  | ask {m : Claimants σ κ ι} (t : ι) (k : κ) (amount : Nat) (h : m.claimant t = .idle) :
      Step c m (m.move t (.busy k (.claiming amount)))
  | reserve {m : Claimants σ κ ι} {verdict : Verdict} (t : ι) {k : κ} {amount : Nat}
      (h : m.claimant t = .busy k (.claiming amount))
      (hok : ((c.onCursor k (Cursor.reserve amount)).run m.object).result = .ok verdict) :
      Step c m ((m.change ((c.onCursor k (Cursor.reserve amount)).run m.object).state k
        (verdict.grants amount)).move t (.judged k amount verdict))
  | grow {m : Claimants σ κ ι} [host : Host] (met : c.hosts host) (t : ι) (k : κ) (amount : Nat)
      (before : Cursor) (stop : Nat) (h : m.claimant t = .busy k (.growing amount before stop))
      (hshort : stop < before.next + amount) :
      Step c m ((m.put ((c.grow k).run m.object).state).move t
        (.busy k (.grown amount before ((c.grow k).run m.object).result)))
  | publish {m : Claimants σ κ ι} (t : ι) (k : κ) (amount : Nat) (before : Cursor) (stop : Nat)
      (h : m.claimant t = .busy k (.growing amount before stop))
      (hreach : before.next + amount ≤ stop) :
      Step c m ((m.change
        ((c.onCursor k (Cursor.publish ⟨before.next + amount, stop⟩)).run m.object).state k
        [⟨before.next, amount⟩]).move t (.busy k .waking))
  | restore {m : Claimants σ κ ι} (t : ι) (k : κ) (amount : Nat) (before : Cursor) (why : Refusal)
      (h : m.claimant t = .busy k (.refused amount before why)) :
      Step c m ((m.put ((c.onCursor k (Cursor.publish before)).run m.object).state).move t
        (.busy k .waking))
  | wake {m : Claimants σ κ ι} (t : ι) (k : κ) (h : m.claimant t = .busy k .waking) :
      Step c m (m.wakeAll t k)
  | look {m : Claimants σ κ ι} (t : ι) {k : κ} {amount : Nat} {observed : Cursor}
      (h : m.claimant t = .busy k (.looking amount observed)) :
      Step c m (m.move t (.busy k
        (if Parks (c.part k m.object) observed then .asleep amount observed
          else .claiming amount)))
  | stir {m : Claimants σ κ ι} (t : ι) {k : κ} {amount : Nat} {observed : Cursor}
      (h : m.claimant t = .busy k (.asleep amount observed)) :
      Step c m (m.move t (.busy k (.looking amount observed)))

/-! ### One cursor of several -/

section

variable [DecidableEq κ]

def view (c : Claimable σ κ) (k : κ) (m : Claimants σ κ ι) : Shared ι :=
  ⟨c.part k m.object, fun t => (m.claimant t).phase k, m.granted k⟩

variable {c : Claimable σ κ} {k k' : κ} {m m' : Claimants σ κ ι} {t : ι} {stage : Stage}

theorem view_put (m : Claimants σ κ ι) (s : σ) :
    (m.put s).view c k = { m.view c k with cursor := c.part k s } := rfl

theorem view_put_same (m : Claimants σ κ ι) {s : σ} (h : c.part k s = c.part k m.object) :
    (m.put s).view c k = m.view c k := by
  rw [view_put, h]
  rfl

theorem view_change_self (m : Claimants σ κ ι) (s : σ) (rs : List Range) :
    (m.change s k rs).view c k =
      { m.view c k with cursor := c.part k s, granted := rs ++ m.granted k } := by
  ext1
  · rfl
  · rfl
  · exact Function.update_self ..

theorem view_change_of_ne (m : Claimants σ κ ι) {s : σ} (rs : List Range) (h : k' ≠ k)
    (hs : c.part k' s = c.part k' m.object) : (m.change s k rs).view c k' = m.view c k' := by
  ext1
  · exact hs
  · rfl
  · exact Function.update_of_ne h ..

theorem phase_view (h : m.claimant t = .busy k stage) :
    (m.view c k).phase t = stage.phase := by
  show (m.claimant t).phase k = stage.phase
  rw [h, Claimant.phase_busy_self]

theorem phase_of_ne (h : m.claimant t = .busy k stage) (hk : k' ≠ k) :
    (m.claimant t).phase k' = .idle := by
  rw [h, Claimant.phase_busy_of_ne hk]

variable [DecidableEq ι]

theorem view_move (m : Claimants σ κ ι) (t : ι) (p : Claimant κ) :
    (m.move t p).view c k = (m.view c k).move t (p.phase k) := by
  ext1
  · rfl
  · exact Function.comp_update (Claimant.phase k) m.claimant t p
  · rfl

/-- A claimant that looks the same at a cursor as before changes nothing there. -/
theorem view_move_same (m : Claimants σ κ ι) {p : Claimant κ}
    (h : p.phase k = (m.claimant t).phase k) : (m.move t p).view c k = m.view c k := by
  rw [view_move, h]
  ext1
  · rfl
  · exact Function.update_eq_self ..
  · rfl

theorem view_wakeAll_self (m : Claimants σ κ ι) (t : ι) (k : κ) :
    (m.wakeAll t k).view c k = (m.view c k).wakeAll t := by
  ext1
  · rfl
  · funext u
    show (if u = t then Claimant.idle else (m.claimant u).woken k).phase k =
      if u = t then .idle else ((m.claimant u).phase k).woken
    by_cases hu : u = t
    · rw [if_pos hu, if_pos hu]
      rfl
    · rw [if_neg hu, if_neg hu, Claimant.phase_woken_self]
  · rfl

theorem view_wakeAll_of_ne (m : Claimants σ κ ι) (ht : m.claimant t = .busy k stage)
    (h : k' ≠ k) : (m.wakeAll t k).view c k' = m.view c k' := by
  ext1
  · rfl
  · funext u
    show (if u = t then Claimant.idle else (m.claimant u).woken k).phase k' =
      (m.claimant u).phase k'
    by_cases hu : u = t
    · rw [if_pos hu, hu, phase_of_ne ht h]
      rfl
    · rw [if_neg hu, Claimant.phase_woken_of_ne h]
  · rfl

/-- Each step is a step at its own cursor, or growth; the other cursors see nothing of it. -/
theorem Step.view (h : Step c m m') (k : κ) :
    m'.view c k = m.view c k ∨ Cursor.Step (m.view c k) (m'.view c k) := by
  cases h with
  | ask t k' amount h =>
    have hidle : (m.claimant t).phase k = .idle := by rw [h, Claimant.phase]
    by_cases hk : k = k'
    · subst hk
      rw [view_move, Claimant.phase_busy_self]
      exact Or.inr (.ask t amount hidle)
    · exact Or.inl (view_move_same m (by rw [Claimant.phase_busy_of_ne hk, hidle]))
  | @reserve verdict t k' amount h hok =>
    by_cases hk : k = k'
    · subst hk
      rw [view_move, view_change_self, Claimant.phase_judged_self, c.part_onCursor]
      exact Or.inr (.reserve t (phase_view h) hok)
    · left
      rw [view_move_same _ (by rw [Claimant.phase_judged_of_ne hk]; exact (phase_of_ne h hk).symm)]
      exact view_change_of_ne m _ hk (c.part_onCursor_of_ne hk ..)
  | @grow _ _ t k' amount before stop h hshort =>
    left
    refine (view_move_same _ ?_).trans (view_put_same m (c.part_grow k' k m.object))
    show _ = (m.claimant t).phase k
    rw [h]
    by_cases hk : k = k'
    · subst hk
      rw [Claimant.phase_busy_self, Claimant.phase_busy_self, Stage.phase_grown, Stage.phase]
    · rw [Claimant.phase_busy_of_ne hk, Claimant.phase_busy_of_ne hk]
  | @publish t k' amount before stop h hreach =>
    by_cases hk : k = k'
    · subst hk
      rw [view_move, view_change_self, Claimant.phase_busy_self, c.part_onCursor]
      exact Or.inr (.publish t stop (phase_view h) hreach)
    · left
      rw [view_move_same _ (by rw [Claimant.phase_busy_of_ne hk]; exact (phase_of_ne h hk).symm)]
      exact view_change_of_ne m _ hk (c.part_onCursor_of_ne hk ..)
  | @restore t k' amount before why h =>
    by_cases hk : k = k'
    · subst hk
      rw [view_move, view_put, Claimant.phase_busy_self, c.part_onCursor]
      exact Or.inr (.restore t (phase_view h))
    · left
      rw [view_move_same _ (by rw [Claimant.phase_busy_of_ne hk]; exact (phase_of_ne h hk).symm)]
      exact view_put_same m (c.part_onCursor_of_ne hk ..)
  | @wake t k' h =>
    by_cases hk : k = k'
    · subst hk
      rw [view_wakeAll_self]
      exact Or.inr (.wake t (phase_view h))
    · exact Or.inl (view_wakeAll_of_ne m h hk)
  | @look t k' amount observed h =>
    by_cases hk : k = k'
    · subst hk
      rw [view_move, Claimant.phase_busy_self, apply_ite Stage.phase]
      exact Or.inr (.look t (phase_view h))
    · exact Or.inl (view_move_same m (by rw [Claimant.phase_busy_of_ne hk, phase_of_ne h hk]))
  | @stir t k' amount observed h =>
    by_cases hk : k = k'
    · subst hk
      rw [view_move, Claimant.phase_busy_self]
      exact Or.inr (.stir t (phase_view h))
    · exact Or.inl (view_move_same m (by rw [Claimant.phase_busy_of_ne hk, phase_of_ne h hk]))

/-! ### Runs -/

/-- What any number of steps in any order can lead to from an object that nobody has claimed on. -/
def Reachable (c : Claimable σ κ) (s : σ) (m : Claimants σ κ ι) : Prop :=
  Relation.ReflTransGen (Step c) (start s) m

/-- Each cursor runs as one that is shared by itself. -/
theorem Reachable.view {s : σ} (h : Reachable c s m) (k : κ) :
    Cursor.Reachable (c.part k s) (m.view c k) := by
  induction h with
  | refl => exact .refl
  | tail _ hstep ih =>
    rcases hstep.view k with hsame | hnext
    · rw [hsame]
      exact ih
    · exact ih.tail hnext

end

/-! ### One claimant alone -/

theorem change_nil [DecidableEq κ] (m : Claimants σ κ ι) (s : σ) (k : κ) :
    m.change s k [] = m.put s := by
  simp only [change, List.nil_append, Function.update_eq_self, put]

section

variable [DecidableEq ι]

theorem claimant_move_self (m : Claimants σ κ ι) (t : ι) (p : Claimant κ) :
    (m.move t p).claimant t = p := Function.update_self ..

theorem move_self (m : Claimants σ κ ι) {t : ι} {p : Claimant κ} (h : m.claimant t = p) :
    m.move t p = m := by
  simp only [move, ← h, Function.update_eq_self]

theorem move_put_move (m : Claimants σ κ ι) (t : ι) (p p' : Claimant κ) (s : σ) :
    ((m.move t p).put s).move t p' = (m.put s).move t p' := by
  simp only [move, put, Function.update_idem]

variable [DecidableEq κ]

theorem move_change_move (m : Claimants σ κ ι) (t : ι) (p p' : Claimant κ) (s : σ) (k : κ)
    (rs : List Range) : ((m.move t p).change s k rs).move t p' = (m.change s k rs).move t p' := by
  simp only [move, change, Function.update_idem]

variable {c : Claimable σ κ} {k : κ} {m : Claimants σ κ ι} {t : ι} {amount : Nat} {before : Cursor}

theorem reserve_runs (t : ι) (k : κ) (amount : Nat) (hidle : m.claimant t = .idle)
    (hword : (c.part k m.object).next + amount < word32) :
    Relation.ReflTransGen (Step c) m
      ((m.change (c.replace k m.object
        ⟨(c.part k m.object).next + amount, (c.part k m.object).stop⟩) k
        (((c.part k m.object).verdict amount).grants amount)).move t
          (.judged k amount ((c.part k m.object).verdict amount))) := by
  have hrun : (c.onCursor k (Cursor.reserve amount)).run m.object =
      ⟨.ok ((c.part k m.object).verdict amount), c.replace k m.object
        ⟨(c.part k m.object).next + amount, (c.part k m.object).stop⟩, []⟩ := by
    rw [Claimable.onCursor, run_focus, run_reserve, if_pos hword, bump_of_lt hword]
  have hask := Step.ask (c := c) t k amount hidle
  have hreserve := Step.reserve (c := c) t (claimant_move_self m t (.busy k (.claiming amount)))
    (congrArg Outcome.result hrun)
  have hstate : ((c.onCursor k (Cursor.reserve amount)).run
      (m.move t (.busy k (.claiming amount))).object).state = _ := congrArg Outcome.state hrun
  rw [move_change_move, hstate] at hreserve
  exact .tail (.single hask) hreserve

theorem wakes_nobody (m : Claimants σ κ ι) (hidle : ∀ u, m.claimant u = .idle) (t : ι) (k : κ) :
    Step c (m.move t (.busy k .waking)) m := by
  have hwake : (m.move t (.busy k .waking)).wakeAll t k = m := by
    have hclaimant : (fun u => if u = t then .idle
        else ((m.move t (.busy k .waking)).claimant u).woken k) = m.claimant := by
      funext u
      by_cases hu : u = t
      · rw [if_pos hu, hidle]
      · have hother : (m.move t (.busy k .waking)).claimant u = m.claimant u :=
          Function.update_of_ne hu ..
        rw [if_neg hu, hother, hidle, Claimant.woken]
    rw [wakeAll, hclaimant]
    rfl
  have hstep := Step.wake (c := c) t k (claimant_move_self m t (.busy k .waking))
  rwa [hwake] at hstep

theorem grow_step [host : Host] (met : c.hosts host) {stop : Nat}
    (h : m.claimant t = .busy k (.growing amount before stop))
    (hshort : stop < before.next + amount) :
    (c.grow k).Meets m.object
      (fun stop' s => Step c m ((m.put s).move t (.busy k (.growing amount before stop'))))
      fun e s => ∀ why, e = .refused why →
        Step c m ((m.put s).move t (.busy k (.refused amount before why))) := by
  have hstep := Step.grow (c := c) met t k amount before stop h hshort
  unfold Meets
  cases hgrow : ((c.grow k).run m.object).result with
  | ok stop' =>
    rw [hgrow] at hstep
    exact hstep
  | error fault =>
    rw [hgrow] at hstep
    rintro why rfl
    exact hstep

/-- Growing until the claim is reached takes one step for each growth. -/
theorem growUntil_runs [host : Host] (met : c.hosts host) (fuel : Nat) {stop : Nat}
    (h : m.claimant t = .busy k (.growing amount before stop)) :
    (growUntil (c.grow k) (before.next + amount) fuel stop).Meets m.object
      (fun stop' s => before.next + amount ≤ stop' ∧
        Relation.ReflTransGen (Step c) m
          ((m.put s).move t (.busy k (.growing amount before stop'))))
      fun e s => ∀ why, e = .refused why →
        Relation.ReflTransGen (Step c) m
          ((m.put s).move t (.busy k (.refused amount before why))) := by
  induction fuel generalizing stop m with
  | zero =>
    rw [growUntil, meets_fail]
    rintro why ⟨⟩
  | succ fuel ih =>
    rw [growUntil, meets_ite, meets_bind, meets_pure]
    refine ⟨fun hshort => (grow_step met h hshort).weaken (fun stop' s hstep => ?_)
      fun _ _ hstep why hwhy => .single (hstep why hwhy), fun hreach => ⟨Nat.not_lt.mp hreach, ?_⟩⟩
    · have hrest := ih (claimant_move_self (m.put s) t (.busy k (.growing amount before stop')))
      simp only [move_put_move] at hrest
      exact hrest.weaken (fun _ _ hruns => ⟨hruns.1, .head hstep hruns.2⟩)
        fun _ _ hruns why hwhy => .head hstep (hruns why hwhy)
    · show Relation.ReflTransGen (Step c) m (m.move t (.busy k (.growing amount before stop)))
      rw [move_self m h]

theorem publish_runs (hidle : ∀ u, m.claimant u = .idle) (s : σ) {stop : Nat}
    (hreach : before.next + amount ≤ stop) :
    Relation.ReflTransGen (Step c) ((m.put s).move t (.busy k (.growing amount before stop)))
      (m.change (c.replace k s ⟨before.next + amount, stop⟩) k [⟨before.next, amount⟩]) := by
  have hpublish := Step.publish (c := c) t k amount before stop
    (claimant_move_self (m.put s) t (.busy k (.growing amount before stop))) hreach
  rw [move_change_move] at hpublish
  exact .tail (.single hpublish) (wakes_nobody
    (m.change (c.replace k s ⟨before.next + amount, stop⟩) k [⟨before.next, amount⟩]) hidle t k)

theorem restore_runs (hidle : ∀ u, m.claimant u = .idle) (s : σ) (why : Refusal) :
    Relation.ReflTransGen (Step c) ((m.put s).move t (.busy k (.refused amount before why)))
      (m.put (c.replace k s before)) := by
  have hrestore := Step.restore (c := c) t k amount before why
    (claimant_move_self (m.put s) t (.busy k (.refused amount before why)))
  rw [move_put_move] at hrestore
  exact .tail (.single hrestore) (wakes_nobody (m.put (c.replace k s before)) hidle t k)

/-- What a claim by one claimant comes to while all others are idle is what its steps lead to. -/
theorem claim_runs [host : Host] (met : c.hosts host) (hidle : ∀ u, m.claimant u = .idle) (t : ι)
    (k : κ) (amount : Nat) :
    (c.claim k amount).Meets m.object
      (fun offset s => Relation.ReflTransGen (Step c) m (m.change s k [⟨offset, amount⟩]))
      fun e s => ∀ why, e = .refused why → Relation.ReflTransGen (Step c) m (m.put s) := by
  have hreserve := reserve_runs (c := c) t k amount (hidle t)
  simp only [Claimable.claim, Cursor.claim, Cursor.reserve, meets_bind, meets_focus, meets_get,
    meets_set, meets_ensure, meets_pure]
  refine ⟨fun hword => ?_, fun _ => by rintro why ⟨⟩⟩
  have hreserved := hreserve hword
  rw [bump_of_lt hword]
  generalize c.replace k m.object _ = s at *
  cases hv : (c.part k m.object).verdict amount with
  | fits offset =>
    rw [hv] at hreserved
    rwa [Claimant.judged, move_self (m.change s k _) (hidle t)] at hreserved
  | wait before => rintro why ⟨⟩
  | mustGrow before =>
    rw [hv] at hreserved
    simp only [Claimant.judged, Verdict.grants, change_nil] at hreserved
    have hgrown := growUntil_runs (c := c) met (before.next + amount + 1)
      (claimant_move_self (m.put s) t (.busy k (.growing amount before before.stop)))
    simp only [move_put_move] at hgrown
    refine (meets_bind ..).mpr ((meets_attempt _).mpr (hgrown.weaken ?_ ?_))
    · intro stop s' hruns
      simp only [publish, meets_bind, meets_focus, meets_get, meets_set, meets_pure]
      exact (hreserved.trans hruns.2).trans (publish_runs hidle s' hruns.1)
    · intro fault s' hruns
      cases fault with
      | refused why =>
        simp only [publish, meets_bind, meets_focus, meets_get, meets_set, meets_pure,
          meets_refuse]
        exact fun _ _ => (hreserved.trans (hruns why rfl)).trans (restore_runs hidle s' why)
      | violated what => rintro why ⟨⟩
      | stuck => rintro why ⟨⟩

end

end Claimants

end SlotArena
