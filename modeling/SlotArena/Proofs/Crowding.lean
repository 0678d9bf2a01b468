import SlotArena.Proofs.Claimants
import SlotArena.Proofs.Roster
import SlotArena.Proofs.Traces
import Mathlib.Algebra.BigOperators.Group.Finset.Basic
import Mathlib.Algebra.GroupWithZero.Nat

/-!
Many claimants near the end of a roster. Growth reads the live cursor, and while a claimant owns it
the cursor holds what others have added who wait for it and will ask again. So what growth takes for
the number of records is what was granted, what the owner asks for, and what some of those who wait
ask for (`outstanding`); and it refuses the owner if all of these together exceed the capacity, even
if each of them would fit on its own (`refuses_what_fits_alone`).

The main statements are `refused_for_outstanding`, that a claimant is refused only if what was
granted, what it asks for and what others wait for at that moment exceed the capacity, so only for
what was granted and what it asks for if nobody waits; and `add_alone`, that an addition as a roster
answers it is a run of the steps that claimants take here.
-/

namespace SlotArena

open Act

namespace Cursor

variable {ι : Type}

/-! ### Those who wait -/

def total (rs : List Range) : Nat := (rs.map Range.size).sum

theorem Tiles.add_total {lo hi : Nat} {rs : List Range} (h : Tiles lo hi rs) :
    lo + total rs = hi := by
  induction rs generalizing hi with
  | nil => exact h
  | cons r rs ih =>
    have hstop : r.start + r.size = hi := h.1
    have hrest := ih h.2
    simp only [total, List.map_cons, List.sum_cons] at hrest ⊢
    omega

namespace Phase

def amount : Phase → Nat
  | .claiming amount | .growing amount _ | .looking amount _ | .asleep amount _ => amount
  | .idle | .waking => 0

def Awaits (stop : Nat) : Phase → Prop
  | .looking _ observed | .asleep _ observed => observed.stop = stop
  | _ => False

@[simp] theorem amount_woken (p : Phase) : p.woken.amount = p.amount := by
  cases p with
  | _ => rfl

@[simp] theorem awaits_woken (p : Phase) (stop : Nat) : p.woken.Awaits stop ↔ p.Awaits stop := by
  cases p with
  | _ => rfl

end Phase

namespace Shared

def Waiting (m : Shared ι) (W : Finset ι) : Prop := ∀ u ∈ W, (m.phase u).Awaits m.cursor.stop

def owed (m : Shared ι) (W : Finset ι) : Nat := ∑ u ∈ W, (m.phase u).amount

end Shared

section

variable [DecidableEq ι] {first : Cursor} {m m' : Shared ι} {t : ι} {amount : Nat}
  {before : Cursor} {W : Finset ι}

/-- While somebody owns the growth, whoever waits for it goes on waiting. -/
theorem Owned.waits (h : Owned first m t amount before) (hstep : Step m m')
    (hphase : m'.phase t = .growing amount before) {u : ι}
    (hu : (m.phase u).Awaits m.cursor.stop) :
    (m'.phase u).Awaits m'.cursor.stop ∧ (m'.phase u).amount = (m.phase u).amount := by
  have hother : ∀ {v : ι} {p : Phase}, m.phase v = p → ¬ p.Awaits m.cursor.stop → u ≠ v := by
    rintro v p hv hp rfl
    exact hp (hv ▸ hu)
  have hmoved : ∀ {v : ι} {c : Cursor} {granted : List Range} {p : Phase}, u ≠ v →
      c.stop = m.cursor.stop →
      ((({ m with cursor := c, granted := granted }.move v p).phase u).Awaits c.stop ∧
        (({ m with cursor := c, granted := granted }.move v p).phase u).amount =
          (m.phase u).amount) := by
    intro v c granted p hne hstop
    rw [Shared.phase_move_of_ne _ hne, hstop]
    exact ⟨hu, rfl⟩
  have howner : ∀ {v : ι} {n : Nat} {c : Cursor}, m.phase v = .growing n c → v = t := by
    intro v n c hv
    refine h.only v ?_
    rw [hv]
    trivial
  cases hstep with
  | ask v n hidle => exact hmoved (hother hidle id) rfl
  | reserve v hclaiming hok =>
    obtain ⟨-, hstate⟩ := reserve_ok hok
    rw [hstate]
    exact hmoved (hother hclaiming id) rfl
  | publish v stop hgrowing hreach =>
    obtain rfl := howner hgrowing
    rw [Shared.phase_move_self] at hphase
    cases hphase
  | restore v hgrowing =>
    obtain rfl := howner hgrowing
    rw [Shared.phase_move_self] at hphase
    cases hphase
  | wake v hwaking =>
    rw [Shared.phase_wakeAll, if_neg (hother hwaking id)]
    exact ⟨(Phase.awaits_woken ..).mpr hu, Phase.amount_woken _⟩
  | @look v n observed hlooking =>
    by_cases huv : u = v
    · subst huv
      rw [hlooking] at hu ⊢
      -- the owner has taken the cursor past its end
      have hparks : Parks m.cursor observed :=
        ⟨hu.symm, h.stop ▸ Nat.lt_of_lt_of_le h.short h.past⟩
      rw [if_pos hparks, Shared.phase_move_self]
      exact ⟨hu, rfl⟩
    · exact hmoved huv rfl
  | @stir v n observed hasleep =>
    by_cases huv : u = v
    · subst huv
      rw [hasleep] at hu ⊢
      rw [Shared.phase_move_self]
      exact ⟨hu, rfl⟩
    · exact hmoved huv rfl

theorem Owned.waiting (h : Owned first m t amount before) (hstep : Step m m')
    (hphase : m'.phase t = .growing amount before) (hW : m.Waiting W) :
    m'.Waiting W ∧ m'.owed W = m.owed W :=
  ⟨fun u hu => (h.waits hstep hphase (hW u hu)).1,
    Finset.sum_congr rfl fun u hu => (h.waits hstep hphase (hW u hu)).2⟩

theorem next_eq_growing {verdict : Verdict} {n : Nat} :
    verdict.next n = .growing amount before ↔ n = amount ∧ verdict = .mustGrow before := by
  cases verdict with
  | mustGrow c => simp [Verdict.next]
  | _ => simp [Verdict.next]

/-- A reservation past the end is added to what is outstanding; no other step that leaves the owner
its growth changes the cursor. -/
theorem outstanding_step (horderly : Orderly first m) (hstep : Step m m')
    (ih : m.phase t = .growing amount before →
      ∃ W, m.Waiting W ∧ m.cursor.next = before.next + amount + m.owed W)
    (hphase : m'.phase t = .growing amount before) :
    ∃ W, m'.Waiting W ∧ m'.cursor.next = before.next + amount + m'.owed W := by
  have hsame : m.phase t = .growing amount before → m'.cursor = m.cursor →
      ∃ W, m'.Waiting W ∧ m'.cursor.next = before.next + amount + m'.owed W := by
    intro hgrowing hcursor
    obtain ⟨W, hW, hnext⟩ := ih hgrowing
    obtain ⟨hW', howed⟩ := (horderly.owned hgrowing).waiting hstep hphase hW
    exact ⟨W, hW', by rw [hcursor, howed, hnext]⟩
  have hbefore : ∀ {s : Shared ι} {v : ι} {p : Phase},
      (s.move v p).phase t = .growing amount before →
        ¬ p.Grows → s.phase t = .growing amount before := by
    intro s v p h hp
    by_cases htv : t = v
    · subst htv
      rw [Shared.phase_move_self] at h
      rw [h] at hp
      exact (hp trivial).elim
    · rwa [Shared.phase_move_of_ne _ htv] at h
  have hgiven : ∀ {v : ι} {n : Nat} {c : Cursor}, m.phase v = .growing n c →
      m.phase t = .growing amount before → v = t := by
    intro v n c hv hgrowing
    refine (horderly.owned hgrowing).only v ?_
    rw [hv]
    trivial
  have hreserve := hstep
  cases hstep with
  | ask v n hidle => exact hsame (hbefore hphase id) rfl
  | @reserve verdict v n hclaiming hok =>
    obtain ⟨rfl, hstate⟩ := reserve_ok hok
    rw [hstate] at hreserve hphase ⊢
    by_cases htv : t = v
    · -- the owner itself reserved, and nobody has come after it yet
      subst htv
      rw [Shared.phase_move_self] at hphase
      obtain ⟨rfl, hverdict⟩ := next_eq_growing.mp hphase
      obtain ⟨-, -, rfl⟩ := verdict_eq_mustGrow.mp hverdict
      exact ⟨∅, fun u hu => absurd hu (Finset.notMem_empty u), rfl⟩
    · have hgrowing : m.phase t = .growing amount before := by
        rwa [Shared.phase_move_of_ne _ htv] at hphase
      have howned := horderly.owned hgrowing
      have hpast : m.cursor.stop < m.cursor.next :=
        howned.stop ▸ Nat.lt_of_lt_of_le howned.short howned.past
      obtain ⟨W, hW, hnext⟩ := ih hgrowing
      have hv : v ∉ W := fun hv => by
        have hawaits := hW v hv
        rw [hclaiming] at hawaits
        exact hawaits
      obtain ⟨hW', howed⟩ := howned.waiting hreserve hphase hW
      rw [verdict_eq_wait.mpr ⟨hpast, rfl⟩] at hW' howed ⊢
      refine ⟨insert v W, fun u hu => ?_, ?_⟩
      · rcases Finset.mem_insert.mp hu with rfl | hu
        · rw [Shared.phase_move_self]
          exact rfl
        · exact hW' u hu
      · rw [Shared.owed, Finset.sum_insert hv, Shared.phase_move_self, ← Shared.owed, howed]
        show m.cursor.next + n = before.next + amount + (n + m.owed W)
        omega
  | publish v stop hgrowing hreach =>
    obtain rfl := hgiven hgrowing (hbefore hphase id)
    rw [Shared.phase_move_self] at hphase
    cases hphase
  | restore v hgrowing =>
    obtain rfl := hgiven hgrowing (hbefore hphase id)
    rw [Shared.phase_move_self] at hphase
    cases hphase
  | wake v hwaking =>
    refine hsame ?_ rfl
    rw [Shared.phase_wakeAll] at hphase
    split at hphase
    · cases hphase
    · exact Phase.woken_eq_growing.mp hphase
  | look v hlooking =>
    refine hsame (hbefore hphase ?_) rfl
    split
    · exact id
    · exact id
  | stir v hasleep => exact hsame (hbefore hphase id) rfl

/-- While somebody owns the growth, the cursor holds what was granted, what the owner asks for and
what some of those ask for who wait. -/
theorem Reachable.outstanding (hfirst : first.next ≤ first.stop) (h : Reachable first m)
    (hphase : m.phase t = .growing amount before) :
    ∃ W, m.Waiting W ∧ m.cursor.next = before.next + amount + m.owed W := by
  induction h with
  | refl => cases hphase
  | tail hrun hstep ih => exact outstanding_step (Reachable.orderly hfirst hrun) hstep ih hphase

end

end Cursor

open Cursor

/-! ### Steps with an object -/

namespace Claimants

variable {σ κ ι : Type} [DecidableEq ι] [DecidableEq κ] {c : Claimable σ κ}
  {m m' : Claimants σ κ ι} {t : ι} {k : κ} {amount : Nat} {before : Cursor} {why : Refusal}

theorem Step.object (h : Step c m m') :
    m'.object = m.object ∨ (∃ k' new, m'.object = c.replace k' m.object new) ∨
      ∃ (_ : Host) (k' : κ), m'.object = ((c.grow k').run m.object).state := by
  cases h with
  | reserve t hclaiming hok => exact Or.inr (Or.inl ⟨_, _, rfl⟩)
  | publish t k amount before stop hgrowing hreach => exact Or.inr (Or.inl ⟨_, _, rfl⟩)
  | restore t k amount before why hrefused => exact Or.inr (Or.inl ⟨_, _, rfl⟩)
  | grow met t k amount before stop hgrowing hshort => exact Or.inr (Or.inr ⟨_, _, rfl⟩)
  | _ => exact Or.inl rfl

theorem grown_eq_refused {n : Nat} {found : Cursor} {answer : Except Fault Nat} :
    Stage.grown n found answer = .refused amount before why ↔
      n = amount ∧ found = before ∧ answer = .error (.refused why) := by
  rcases answer with (why' | what | _) | stop
  · simp [Stage.grown]
  · simp [Stage.grown]
  · simp [Stage.grown]
  · simp [Stage.grown]

theorem woken_eq_refused {p : Claimant κ} {k' : κ} :
    p.woken k' = .busy k (.refused amount before why) ↔
      p = .busy k (.refused amount before why) := by
  cases p with
  | idle => rfl
  | busy k'' stage =>
    rw [Claimant.woken]
    split
    · cases stage with
      | _ => simp [Stage.woken]
    · rfl

/-- Whoever was refused was refused before, or its growth has just been, by a host that it may
meet. -/
theorem Step.of_refused (h : Step c m m')
    (hrefused : m'.claimant t = .busy k (.refused amount before why)) :
    m.claimant t = .busy k (.refused amount before why) ∨
      (∃ stop, m.claimant t = .busy k (.growing amount before stop)) ∧
        (∃ host : Host, c.hosts host ∧ ((c.grow k).run m.object).result = .error (.refused why)) ∧
          m'.view c k = m.view c k := by
  have hmoved : ∀ {s : Claimants σ κ ι} {v : ι} {p : Claimant κ},
      (s.move v p).claimant t = .busy k (.refused amount before why) →
        p ≠ .busy k (.refused amount before why) →
          s.claimant t = .busy k (.refused amount before why) := by
    intro s v p hs hp
    by_cases htv : t = v
    · subst htv
      rw [claimant_move_self] at hs
      exact absurd hs hp
    · exact (Function.update_of_ne htv ..).symm.trans hs
  cases h with
  | ask v k' n hidle => exact Or.inl (hmoved hrefused (by rintro ⟨⟩))
  | @reserve verdict v k' n hclaiming hok =>
    refine Or.inl (hmoved hrefused ?_)
    cases verdict with
    | _ => rintro ⟨⟩
  | @grow host met v k' n found stop hgrowing hshort =>
    by_cases htv : t = v
    · subst htv
      rw [claimant_move_self, Claimant.busy.injEq, grown_eq_refused] at hrefused
      obtain ⟨rfl, rfl, rfl, hanswer⟩ := hrefused
      refine Or.inr ⟨⟨stop, hgrowing⟩, ⟨host, met, hanswer⟩,
        (view_move_same _ ?_).trans (view_put_same m (c.part_grow k' k' m.object))⟩
      show _ = (m.claimant t).phase k'
      rw [hgrowing, Claimant.phase_busy_self, Claimant.phase_busy_self, Stage.phase_grown,
        Stage.phase]
    · exact Or.inl ((Function.update_of_ne htv ..).symm.trans hrefused)
  | publish v k' n found stop hgrowing hreach => exact Or.inl (hmoved hrefused (by rintro ⟨⟩))
  | restore v k' n found why' hrefused' => exact Or.inl (hmoved hrefused (by rintro ⟨⟩))
  | wake v k' hwaking =>
    have hwoken : (if t = v then Claimant.idle else (m.claimant t).woken k') =
        .busy k (.refused amount before why) := hrefused
    split at hwoken
    · cases hwoken
    · exact Or.inl (woken_eq_refused.mp hwoken)
  | look v hlooking =>
    refine Or.inl (hmoved hrefused ?_)
    split
    · rintro ⟨⟩
    · rintro ⟨⟩
  | stir v hasleep => exact Or.inl (hmoved hrefused (by rintro ⟨⟩))

end Claimants

/-! ### Rosters -/

namespace Roster

open Claimants

theorem grow_cursor [Host] (r : Roster) : (grow.run r).state.cursor = r.cursor := by
  let R (r : Roster) (_ : List Event) (r' : Roster) : Prop := r'.cursor = r.cursor
  have hR : Path R := ⟨fun _ => rfl, fun h h' => h'.trans h⟩
  have hnote : ∀ (n : Note) r, Traces R (Act.note n) r := fun _ _ => rfl
  have hsettle : ∀ used exhausted r, Traces R (settle used exhausted) r := fun used exhausted r =>
    traces_get_bind (traces_ite (traces_fail hR _) (traces_pure hR _))
  have hwiden : ∀ size r, Traces R (widen size) r := by
    intro size r
    refine traces_get_bind (traces_ite ?_ (traces_pure hR ()))
    have hwindow : Traces R (onWindow (Window.expandTo size)) r := rfl
    exact hwindow.bind hR fun _ r => traces_get_bind (hnote _ r)
  have hgrow : Traces R grow r := by
    refine traces_get_bind (traces_ite (traces_ite ?_ ?_) (hsettle _ _ r))
    · exact (hnote _ r).bind hR fun _ _ => traces_fail hR _
    · exact (hwiden _ r).bind hR fun _ => hsettle _ _
  exact hgrow

def claimable (hosts : Host → Prop) : Claimable Roster Unit where
  part _ r := r.cursor
  replace _ r c := { r with cursor := c }
  grow _ := grow
  hosts := hosts
  part_replace _ _ _ := rfl
  part_replace_of_ne _ _ h := absurd rfl h
  part_grow _ _ r := grow_cursor r

variable {ι : Type} {hosts : Host → Prop}

/-- An addition that nobody interferes with is a run of the claimant's steps; then it starts the
records that it was granted. -/
theorem add_alone [host : Host] (met : hosts host) [DecidableEq ι] {m : Claimants Roster Unit ι}
    (hidle : ∀ u, m.claimant u = .idle)
    (t : ι) (count : Nat) :
    (add count).Meets m.object
      (fun first r' => ∃ r, r' = { r with records := r.records.extend count } ∧
        Relation.ReflTransGen (Step (claimable hosts)) m (m.change r () [⟨first, count⟩]))
      fun e r' => ∀ why, e = .refused why →
        Relation.ReflTransGen (Step (claimable hosts)) m (m.put r') := by
  have hadd : add count = (do
      Act.ensure (0 < count) .emptyAddition
      let first ← (claimable hosts).claim () count
      Act.modify fun r => { r with records := r.records.extend count }
      return first) := rfl
  simp only [hadd, meets_bind, meets_ensure, meets_modify, meets_pure]
  refine ⟨fun _ => ?_, by rintro _ _ ⟨⟩⟩
  exact (claim_runs met hidle t () count).imp fun _ r hruns => ⟨r, rfl, hruns⟩

/-- What growth needs of a roster, whatever its cursor holds. -/
structure Fit (capacity : Nat) (r : Roster) : Prop where
  window : r.window.Sound
  back_eq : r.window.extent.back = 0
  front_eq : r.window.extent.front = roundUp (r.capacity * recordBytes) pageSize
  capacity_eq : r.capacity = capacity

theorem Refused.fit [Host] {capacity wanted : Nat} {why : Refusal} {r r' : Roster}
    (h : r.Refused wanted why r') (hr : r.Fit capacity) : r'.Fit capacity := by
  cases h with
  | full => exact hr
  | host why mean room stayed =>
    exact ⟨hr.window.stayed stayed, hr.back_eq, hr.front_eq, hr.capacity_eq⟩

theorem Fit.grow [Host] {capacity : Nat} {r : Roster} (h : r.Fit capacity) :
    (grow.run r).state.Fit capacity := by
  have hgrow : Roster.grow.Meets r (fun _ r' => r'.Fit capacity) fun _ r' => r'.Fit capacity := by
    refine (grow_meets h.window h.back_eq h.front_eq).weaken ?_ ?_
    · rintro _ _ ⟨w, rfl, hw, hext, -⟩
      exact ⟨hw, hext.extent ▸ h.back_eq, hext.extent ▸ h.front_eq, h.capacity_eq⟩
    · intro fault r' hr
      obtain ⟨why, -, hrefused⟩ := exists_refusal hr
      exact hrefused.fit h
  exact hgrow.state

section

variable [DecidableEq ι] {r : Roster} {m m' : Claimants Roster Unit ι} {capacity : Nat}

theorem Fit.step (h : m.object.Fit capacity) (hstep : Step (claimable hosts) m m') :
    m'.object.Fit capacity := by
  rcases hstep.object with hsame | ⟨_, c, hreplaced⟩ | ⟨_, _, hgrown⟩
  · rw [hsame]
    exact h
  · rw [hreplaced]
    exact ⟨h.window, h.back_eq, h.front_eq, h.capacity_eq⟩
  · rw [hgrown]
    exact h.grow

theorem fit_of_reachable (hfirst : r.Fit capacity) (h : Reachable (claimable hosts) r m) :
    m.object.Fit capacity := by
  induction h with
  | refl => exact hfirst
  | tail _ hstep ih => exact ih.step hstep

theorem orderly_of_reachable (hsound : r.Sound) (h : Reachable (claimable hosts) r m) :
    Orderly r.cursor (m.view (claimable hosts) ()) :=
  (h.view ()).orderly hsound.next_le

variable {t : ι} {amount : Nat} {before : Cursor} {why : Refusal}

/-- A refusal is one by a host that is short of something, or it counts what the cursor held when
the roster was to grow. -/
theorem requested_of_refused (hsound : r.Sound) (h : Reachable (claimable hosts) r m)
    (hrefused : m.claimant t = .busy () (.refused amount before why)) :
    (∃ cause, why = .growth cause ∧ ∃ host : Host, hosts host ∧ ¬ host.Generous) ∨
      ∃ requested W, why = .outOfTableSpace requested r.capacity ∧ r.capacity < requested ∧
        (m.view (claimable hosts) ()).Waiting W ∧
        requested = before.next + amount + (m.view (claimable hosts) ()).owed W := by
  induction h with
  | refl => cases hrefused
  | @tail m m' hrun hstep ih =>
    have hreach : Reachable (claimable hosts) r m := hrun
    rcases hstep.of_refused hrefused with hbefore | ⟨⟨stop, hgrowing⟩, ⟨host, met, hanswer⟩, hview⟩
    · refine (ih hbefore).imp_right ?_
      rintro ⟨requested, W, hwhy, hover, hW, hrequested⟩
      rcases hstep.view () with hsame | hmoved
      · rw [hsame]
        exact ⟨requested, W, hwhy, hover, hW, hrequested⟩
      · have howned := (orderly_of_reachable hsound hreach).owned (phase_view hbefore)
        obtain ⟨hW', howed⟩ := howned.waiting hmoved (phase_view hrefused) hW
        exact ⟨requested, W, hwhy, hover, hW', by rw [howed, hrequested]⟩
    · have hfit := fit_of_reachable ⟨hsound.window, hsound.back_eq, hsound.front_eq, rfl⟩ hreach
      obtain ⟨W, hW, hnext⟩ := (hreach.view ()).outstanding hsound.next_le (phase_view hgrowing)
      obtain ⟨why', hfault, hno⟩ := exists_refusal
        ((grow_meets hfit.window hfit.back_eq hfit.front_eq).of_error hanswer)
      obtain rfl := Fault.refused.inj hfault
      rcases hno.why_eq with ⟨cause, hcause, mean⟩ | ⟨hwhy, hover⟩
      · exact Or.inl ⟨cause, hcause, host, met, mean⟩
      · rw [hfit.capacity_eq] at hwhy hover
        exact Or.inr ⟨m.object.cursor.next, W, hwhy, hover, hview ▸ hW, hview ▸ hnext⟩

/-- However the steps of any number of claimants interleave, one of them is refused only by a host
that is short of something, or if the capacity is exceeded by what was granted before it reserved,
what it asks for itself and what some others ask for who wait for it; and that is the number which
the refusal tells. So where nobody waits for it, what was granted and what it asks for exceed the
capacity. -/
theorem refused_for_outstanding [Host] {initial capacity : Nat} {strategy : Strategy}
    (hcreate : ((create initial capacity strategy).run ()).result = .ok r)
    (h : Reachable (claimable hosts) r m)
    (hrefused : m.claimant t = .busy () (.refused amount before why)) :
    before.next = total (m.granted ()) ∧
      ((∃ cause, why = .growth cause ∧ ∃ host : Host, hosts host ∧ ¬ host.Generous) ∨
        (∃ (requested : Nat) (W : Finset ι), why = .outOfTableSpace requested capacity ∧
          capacity < requested ∧ (∀ u ∈ W, ((m.claimant u).phase ()).Awaits before.stop) ∧
          requested =
            total (m.granted ()) + amount + ∑ u ∈ W, ((m.claimant u).phase ()).amount) ∧
        ((∀ u, ¬ ((m.claimant u).phase ()).Awaits before.stop) →
          capacity < total (m.granted ()) + amount)) := by
  obtain ⟨hsound, hempty⟩ := (create_meets initial capacity strategy).of_ok hcreate
  have hcapacity : r.capacity = capacity := by
    have hmade : (create initial capacity strategy).Meets () (fun r _ => r.capacity = capacity)
        fun _ _ => True := by
      simp only [create, meets_bind, meets_ensure, meets_pure, implies_true, and_true]
      exact fun _ => .of_always (fun _ _ => trivial) fun _ _ => trivial
    exact hmade.of_ok hcreate
  have howned := (orderly_of_reachable hsound h).owned (phase_view hrefused)
  have hgranted : before.next = total (m.granted ()) := by
    have htotal : r.cursor.next + total (m.granted ()) = before.next := howned.tiles.add_total
    have hnone : r.cursor.next = 0 := hsound.length_eq.symm.trans hempty
    omega
  refine ⟨hgranted, (requested_of_refused hsound h hrefused).imp_right ?_⟩
  rintro ⟨requested, W, hwhy, hover, hW, hrequested⟩
  have hwaiting : ∀ u ∈ W, ((m.claimant u).phase ()).Awaits before.stop := by
    rw [← howned.stop]
    exact hW
  rw [hcapacity] at hwhy hover
  rw [hgranted] at hrequested
  refine ⟨⟨requested, W, hwhy, hover, hwaiting, hrequested⟩, fun hnobody => ?_⟩
  have hempty : W = ∅ := Finset.eq_empty_of_forall_notMem fun u hu => hnobody u (hwaiting u hu)
  rw [hempty] at hrequested
  exact hrequested ▸ hover

end

section

attribute [local instance] Host.plain

/-- Claimant 0 has to grow for 100 records more when 200 of 512 are taken, and claimant 1 waits for
it with 300, so claimant 0 is refused. When it has taken its claim back, claimant 1 has to grow for
its 300, claimant 2 waits for it with 100, and so claimant 1 is refused as well. -/
theorem exists_crowd : ∃ (r : Roster) (m m' : Claimants Roster Unit (Fin 3)),
    ((create 1 512 .remap).run ()).result = .ok r ∧ Reachable (claimable (· = .plain)) r m ∧
      Relation.ReflTransGen (Step (claimable (· = .plain))) m m' ∧
      m.claimant 0 = .busy () (.refused 100 ⟨200, 256⟩ (.outOfTableSpace 600 512)) ∧
      m.claimant 1 = .busy () (.looking 300 ⟨300, 256⟩) ∧ m.claimant 2 = .idle ∧
      m.granted () = [⟨0, 200⟩] ∧
      m'.claimant 1 = .busy () (.refused 300 ⟨200, 256⟩ (.outOfTableSpace 600 512)) ∧
      m'.granted () = [⟨0, 200⟩] := by
  have hstart : ∀ {r : Roster}, ((create 1 512 .remap).run ()).result = .ok r →
      Relation.ReflTransGen (Step (claimable (· = .plain)))
        (start r : Claimants Roster Unit (Fin 3)) (start r) :=
    fun _ => .refl
  have hstay : ∀ {m m' : Claimants Roster Unit (Fin 3)},
      Relation.ReflTransGen (Step (claimable (· = .plain))) m m' →
        Relation.ReflTransGen (Step (claimable (· = .plain))) m' m' :=
    fun _ => .refl
  have htaken := (hstart rfl).trans (reserve_runs 0 () 200 rfl (by decide +kernel))
  have hgrows := htaken.trans (reserve_runs 0 () 100 (by decide +kernel) (by decide +kernel))
  have hwaits := hgrows.trans (reserve_runs 1 () 300 (by decide +kernel) (by decide +kernel))
  have hrefused := hwaits.tail (.grow rfl 0 () 100 ⟨200, 256⟩ 256 (by decide +kernel) (by decide))
  have hrestored := (hstay hrefused).tail
    (.restore 0 () 100 ⟨200, 256⟩ (.outOfTableSpace 600 512) (by decide +kernel))
  have hwoken := hrestored.tail (.wake 0 () (by decide +kernel))
  have hlooks := hwoken.tail
    (.look 1 (show _ = Claimant.busy () (.looking 300 ⟨300, 256⟩) by decide +kernel))
  have hreserves := hlooks.tail
    (.reserve 1 (show _ = Claimant.busy () (.claiming 300) by decide +kernel)
      (show _ = Except.ok (Verdict.mustGrow ⟨200, 256⟩) by decide +kernel))
  have hcrowded := hreserves.trans
    (reserve_runs 2 () 100 (by decide +kernel) (by decide +kernel))
  refine ⟨_, _, _, rfl, hrefused, hcrowded.tail
    (.grow rfl 1 () 300 ⟨200, 256⟩ 256 (by decide +kernel) (by decide)), ?_⟩
  decide +kernel

/-- With 200 of 512 records granted, claimants that ask for 100 and for 300 more are refused one
after the other, and neither gets any; each of them fits on its own. -/
theorem refuses_what_fits_alone : ∃ (r : Roster) (m m' : Claimants Roster Unit (Fin 3)),
    ((create 1 512 .remap).run ()).result = .ok r ∧ Reachable (claimable (· = .plain)) r m ∧
      Relation.ReflTransGen (Step (claimable (· = .plain))) m m' ∧
      m.claimant 0 = .busy () (.refused 100 ⟨200, 256⟩ (.outOfTableSpace 600 512)) ∧
      total (m.granted ()) + 100 ≤ 512 ∧
      m'.claimant 1 = .busy () (.refused 300 ⟨200, 256⟩ (.outOfTableSpace 600 512)) ∧
      total (m'.granted ()) + 300 ≤ 512 := by
  obtain ⟨r, m, m', hcreate, hreach, hlater, hfirst, -, -, hgranted, hsecond, hgranted'⟩ :=
    exists_crowd
  refine ⟨r, m, m', hcreate, hreach, hlater, hfirst, ?_, hsecond, ?_⟩
  · rw [hgranted]
    decide
  · rw [hgranted']
    decide

/-- The first of the two is refused for the 200 granted, its own 100 and the 300 that the other
waits with. -/
theorem refused_for_outstanding_of_three : ∃ (r : Roster) (m : Claimants Roster Unit (Fin 3)),
    ((create 1 512 .remap).run ()).result = .ok r ∧ Reachable (claimable (· = .plain)) r m ∧
      m.claimant 0 = .busy () (.refused 100 ⟨200, 256⟩ (.outOfTableSpace 600 512)) ∧
      total (m.granted ()) = 200 ∧
      ∃ W : Finset (Fin 3), (∀ u ∈ W, ((m.claimant u).phase ()).Awaits 256) ∧
        600 = 200 + 100 + ∑ u ∈ W, ((m.claimant u).phase ()).amount := by
  obtain ⟨r, m, m', hcreate, hreach, -, hrefused, -⟩ := exists_crowd
  obtain ⟨hgranted, ⟨cause, hcause, -⟩ | ⟨⟨requested, W, hwhy, -, hW, hrequested⟩, -⟩⟩ :=
    refused_for_outstanding hcreate hreach hrefused
  · cases hcause
  obtain ⟨rfl, -⟩ := Refusal.outOfTableSpace.inj hwhy
  rw [← hgranted] at hrequested
  exact ⟨r, m, hcreate, hreach, hrefused, hgranted.symm, W, hW, hrequested⟩

end

end Roster

end SlotArena
