import Mathlib.Logic.Function.Basic
import Mathlib.Logic.Relation
import SlotArena.Proofs.Claim

/-!
A cursor shared by any number of claimants. They reserve, grow, publish and wait in whatever order
the steps come: those that land past the end go on adding to the cursor while they look and fall
asleep, a growth may fail and put back an older cursor with the same end, and who waits may have
looked at a cursor that is long gone.

One claimant at most owns a growth, and while it does, the cursor lies past what the growth will
reach (`Orderly`). So nobody else can be granted anything, what is published leaves out whatever
was added meanwhile, and the granted ranges tile what was claimed without a gap. Nobody sleeps
unless somebody is there who will wake them (`Attended`).
-/

namespace SlotArena.Cursor

open Act

/-! ### Ranges -/

/-- A granted range, counted as the cursor counts. -/
structure Range where
  start : Nat
  size : Nat
  deriving DecidableEq, Repr

namespace Range

def stop (r : Range) : Nat := r.start + r.size

def Covers (r : Range) (x : Nat) : Prop := r.start ≤ x ∧ x < r.stop

def Apart (r s : Range) : Prop := r.stop ≤ s.start ∨ s.stop ≤ r.start

end Range

/-- The ranges lie side by side from `lo` to `hi`, the highest one first. -/
def Tiles (lo hi : Nat) : List Range → Prop
  | [] => lo = hi
  | r :: rs => r.stop = hi ∧ Tiles lo r.start rs

namespace Tiles

variable {lo hi : Nat} {rs : List Range}

theorem le (h : Tiles lo hi rs) : lo ≤ hi := by
  induction rs generalizing hi with
  | nil => exact Nat.le_of_eq h
  | cons r rs ih =>
    have hstart := ih h.2
    have hstop : r.start + r.size = hi := h.1
    omega

theorem covers_iff (h : Tiles lo hi rs) (x : Nat) :
    (∃ r ∈ rs, r.Covers x) ↔ lo ≤ x ∧ x < hi := by
  induction rs generalizing hi with
  | nil =>
    have hempty : lo = hi := h
    simp only [List.not_mem_nil, false_and, exists_false, false_iff]
    omega
  | cons r rs ih =>
    have hle := h.2.le
    have hstop : r.start + r.size = hi := h.1
    have hcons : (∃ s ∈ r :: rs, s.Covers x) ↔ r.Covers x ∨ ∃ s ∈ rs, s.Covers x := by simp
    rw [hcons, ih h.2, Range.Covers, Range.stop]
    omega

theorem stop_le (h : Tiles lo hi rs) {r : Range} (hr : r ∈ rs) : r.stop ≤ hi := by
  induction rs generalizing hi with
  | nil => cases hr
  | cons s rs ih =>
    have hstop : s.start + s.size = hi := h.1
    rcases List.mem_cons.mp hr with rfl | hr
    · exact Nat.le_of_eq h.1
    · have hle := ih h.2 hr
      omega

theorem apart (h : Tiles lo hi rs) : rs.Pairwise Range.Apart := by
  induction rs generalizing hi with
  | nil => exact .nil
  | cons r rs ih => exact .cons (fun s hs => Or.inr (h.2.stop_le hs)) (ih h.2)

end Tiles

/-! ### Claimants -/

inductive Phase
  | idle
  /-- About to reserve. -/
  | claiming (amount : Nat)
  /-- Owns the growth; `before` is the cursor that it found. -/
  | growing (amount : Nat) (before : Cursor)
  /-- Waits for `observed` to be replaced, and is about to see whether it still stands. -/
  | looking (amount : Nat) (observed : Cursor)
  | asleep (amount : Nat) (observed : Cursor)
  /-- Has published and is about to wake all who sleep. -/
  | waking
  deriving DecidableEq, Repr

namespace Phase

def Grows : Phase → Prop
  | .growing .. => True
  | _ => False

instance : DecidablePred Grows
  | .growing .. => isTrue trivial
  | .idle => isFalse id
  | .claiming _ => isFalse id
  | .looking .. => isFalse id
  | .asleep .. => isFalse id
  | .waking => isFalse id

def Sleeps : Phase → Prop
  | .asleep .. => True
  | _ => False

/-- Who sleeps looks again, the others go on with what they do. -/
def woken : Phase → Phase
  | .asleep amount observed => .looking amount observed
  | p => p

theorem woken_eq_growing {p : Phase} {amount : Nat} {before : Cursor} :
    p.woken = .growing amount before ↔ p = .growing amount before := by
  cases p with
  | asleep amount' observed => simp [woken]
  | _ => rfl

theorem not_sleeps_woken (p : Phase) : ¬ p.woken.Sleeps := by
  cases p with
  | _ => exact id

theorem Grows.exists {p : Phase} (h : p.Grows) : ∃ amount before, p = .growing amount before := by
  cases p with
  | growing amount before => exact ⟨amount, before, rfl⟩
  | _ => exact h.elim

end Phase

def Verdict.next (amount : Nat) : Verdict → Phase
  | .fits _ => .idle
  | .mustGrow before => .growing amount before
  | .wait before => .looking amount before

def Verdict.grants (amount : Nat) : Verdict → List Range
  | .fits offset => [⟨offset, amount⟩]
  | _ => []

/-- A cursor and those who claim on it, with all that was granted, the latest first. -/
@[ext]
structure Shared (ι : Type) where
  cursor : Cursor
  phase : ι → Phase
  granted : List Range

variable {ι : Type}

namespace Shared

def start (c : Cursor) : Shared ι := ⟨c, fun _ => .idle, []⟩

def wakeAll [DecidableEq ι] (m : Shared ι) (t : ι) : Shared ι :=
  { m with phase := fun u => if u = t then .idle else (m.phase u).woken }

def move [DecidableEq ι] (m : Shared ι) (t : ι) (p : Phase) : Shared ι :=
  { m with phase := Function.update m.phase t p }

end Shared

/-- One atomic step of one claimant. A growth that succeeds may publish any end that reaches the
claim, one that fails publishes what it found. -/
inductive Step [DecidableEq ι] : Shared ι → Shared ι → Prop
  | ask {m : Shared ι} (t : ι) (amount : Nat) (h : m.phase t = .idle) :
      Step m (m.move t (.claiming amount))
  | reserve {m : Shared ι} {verdict : Verdict} (t : ι) {amount : Nat}
      (h : m.phase t = .claiming amount)
      (hok : ((reserve amount).run m.cursor).result = .ok verdict) :
      Step m ({ m with
        cursor := ((reserve amount).run m.cursor).state
        granted := verdict.grants amount ++ m.granted }.move t (verdict.next amount))
  | publish {m : Shared ι} (t : ι) {amount : Nat} {before : Cursor} (stop : Nat)
      (h : m.phase t = .growing amount before) (hstop : before.next + amount ≤ stop) :
      Step m ({ m with
        cursor := ((publish ⟨before.next + amount, stop⟩).run m.cursor).state
        granted := ⟨before.next, amount⟩ :: m.granted }.move t .waking)
  | restore {m : Shared ι} (t : ι) {amount : Nat} {before : Cursor}
      (h : m.phase t = .growing amount before) :
      Step m ({ m with cursor := ((publish before).run m.cursor).state }.move t .waking)
  | wake {m : Shared ι} (t : ι) (h : m.phase t = .waking) : Step m (m.wakeAll t)
  /-- To look and to fall asleep is one step: the gate is held from the one to the other, and
  whoever wakes the others takes the gate first. -/
  | look {m : Shared ι} (t : ι) {amount : Nat} {observed : Cursor}
      (h : m.phase t = .looking amount observed) :
      Step m (m.move t
        (if Parks m.cursor observed then .asleep amount observed else .claiming amount))
  /-- Who sleeps may wake up for no reason. -/
  | stir {m : Shared ι} (t : ι) {amount : Nat} {observed : Cursor}
      (h : m.phase t = .asleep amount observed) : Step m (m.move t (.looking amount observed))

/-! ### One owner at most -/

/-- The claimant `t` owns the growth that `amount` needs after `before`, and nobody else owns one.
The cursor lies past all that `t` asks for, and what was granted tiles what was claimed before. -/
structure Owned (first : Cursor) (m : Shared ι) (t : ι) (amount : Nat) (before : Cursor) :
    Prop where
  phase : m.phase t = .growing amount before
  only : ∀ u, (m.phase u).Grows → u = t
  le : before.next ≤ before.stop
  short : before.stop < before.next + amount
  past : before.next + amount ≤ m.cursor.next
  stop : m.cursor.stop = before.stop
  tiles : Tiles first.next before.next m.granted

/-- Either nobody owns a growth, and what was granted tiles what was claimed; or one claimant
does. -/
inductive Orderly (first : Cursor) (m : Shared ι) : Prop
  | quiet (none : ∀ t, ¬ (m.phase t).Grows) (le : m.cursor.next ≤ m.cursor.stop)
      (tiles : Tiles first.next m.cursor.next m.granted)
  | grown {t : ι} {amount : Nat} {before : Cursor} (owned : Owned first m t amount before)

section

variable {first : Cursor} {m m' : Shared ι} {t : ι} {amount : Nat} {before : Cursor}

theorem Owned.grows (h : Owned first m t amount before) : (m.phase t).Grows := by
  rw [h.phase]
  trivial

theorem Orderly.owned (h : Orderly first m) (hphase : m.phase t = .growing amount before) :
    Owned first m t amount before := by
  have hgrows : (m.phase t).Grows := by
    rw [hphase]
    trivial
  cases h with
  | quiet none _ _ => exact (none t hgrows).elim
  | @grown u amount' before' owned =>
    obtain rfl := owned.only t hgrows
    obtain ⟨rfl, rfl⟩ : amount = amount' ∧ before = before' :=
      Phase.growing.inj (hphase.symm.trans owned.phase)
    exact owned

theorem Orderly.apart (h : Orderly first m) : m.granted.Pairwise Range.Apart := by
  cases h with
  | quiet none le tiles => exact tiles.apart
  | grown owned => exact owned.tiles.apart

theorem Orderly.stop_le (h : Orderly first m) {r : Range} (hr : r ∈ m.granted) :
    r.stop ≤ m.cursor.stop := by
  cases h with
  | quiet none le tiles => exact Nat.le_trans (tiles.stop_le hr) le
  | grown owned =>
    rw [owned.stop]
    exact Nat.le_trans (owned.tiles.stop_le hr) owned.le

/-- Who owns a growth, and after which cursor, is all that matters about the claimants. -/
theorem Orderly.congr (h : Orderly first m) (hcursor : m'.cursor = m.cursor)
    (hgranted : m'.granted = m.granted)
    (hphase : ∀ t amount before,
      m'.phase t = .growing amount before ↔ m.phase t = .growing amount before) :
    Orderly first m' := by
  have hgrows : ∀ t, (m'.phase t).Grows → (m.phase t).Grows := by
    intro t ht
    obtain ⟨amount, before, hp⟩ := ht.exists
    rw [(hphase t amount before).mp hp]
    trivial
  cases h with
  | quiet none le tiles =>
    rw [← hcursor] at le tiles
    rw [← hgranted] at tiles
    exact .quiet (fun t ht => none t (hgrows t ht)) le tiles
  | grown owned =>
    exact .grown {
      phase := (hphase ..).mpr owned.phase
      only := fun u hu => owned.only u (hgrows u hu)
      le := owned.le
      short := owned.short
      past := hcursor ▸ owned.past
      stop := hcursor ▸ owned.stop
      tiles := hgranted ▸ owned.tiles }

end

section

variable [DecidableEq ι] {first : Cursor} {m m' : Shared ι} {t : ι} {amount : Nat}
  {before : Cursor} {p : Phase}

@[simp] theorem Shared.phase_move_self (m : Shared ι) (t : ι) (p : Phase) :
    (m.move t p).phase t = p := Function.update_self ..

theorem Shared.phase_move_of_ne (m : Shared ι) {t u : ι} (h : u ≠ t) (p : Phase) :
    (m.move t p).phase u = m.phase u := Function.update_of_ne h ..

theorem Shared.phase_wakeAll (m : Shared ι) (t u : ι) :
    (m.wakeAll t).phase u = if u = t then .idle else (m.phase u).woken := rfl

/-- A claimant that neither takes over a growth nor gives one up does not disturb its owner. -/
theorem Orderly.move (h : Orderly first m) (hfrom : ¬ (m.phase t).Grows) (hto : ¬ p.Grows) :
    Orderly first (m.move t p) := by
  refine h.congr rfl rfl fun u amount before => ?_
  by_cases hu : u = t
  · subst hu
    rw [Shared.phase_move_self]
    constructor
    · rintro rfl
      exact (hto trivial).elim
    · intro hp
      rw [hp] at hfrom
      exact (hfrom trivial).elim
  · rw [Shared.phase_move_of_ne _ hu]

theorem Orderly.wakeAll (h : Orderly first m) (hfrom : ¬ (m.phase t).Grows) :
    Orderly first (m.wakeAll t) := by
  refine h.congr rfl rfl fun u amount before => ?_
  rw [Shared.phase_wakeAll]
  by_cases hu : u = t
  · subst hu
    rw [if_pos rfl]
    constructor
    · nofun
    · intro hp
      rw [hp] at hfrom
      exact (hfrom trivial).elim
  · rw [if_neg hu, Phase.woken_eq_growing]

theorem reserve_ok {c : Cursor} {verdict : Verdict}
    (h : ((Cursor.reserve amount).run c).result = .ok verdict) :
    verdict = c.verdict amount ∧
      ((Cursor.reserve amount).run c).state = ⟨c.next + amount, c.stop⟩ := by
  rw [run_reserve] at h ⊢
  by_cases hword : c.next + amount < word32
  · rw [if_pos hword] at h
    exact ⟨(Except.ok.inj h).symm, bump_of_lt hword⟩
  · rw [if_neg hword] at h
    cases h

theorem Orderly.reserve (h : Orderly first m) (hphase : m.phase t = .claiming amount)
    {verdict : Verdict} (hok : ((Cursor.reserve amount).run m.cursor).result = .ok verdict) :
    Orderly first ({ m with
      cursor := ((Cursor.reserve amount).run m.cursor).state
      granted := verdict.grants amount ++ m.granted }.move t (verdict.next amount)) := by
  obtain ⟨rfl, hstate⟩ := reserve_ok hok
  rw [hstate]
  have hfrom : ¬ (m.phase t).Grows := hphase ▸ id
  cases h with
  | quiet none le tiles =>
    by_cases hfits : m.cursor.next + amount ≤ m.cursor.stop
    · rw [verdict_eq_fits.mpr ⟨hfits, rfl⟩]
      have hquiet : Orderly first { m with
          cursor := ⟨m.cursor.next + amount, m.cursor.stop⟩
          granted := ⟨m.cursor.next, amount⟩ :: m.granted } := .quiet none hfits ⟨rfl, tiles⟩
      exact hquiet.move hfrom id
    · rw [Nat.not_le] at hfits
      rw [verdict_eq_mustGrow.mpr ⟨hfits, le, rfl⟩]
      refine .grown ⟨Shared.phase_move_self .., fun u hu => ?_, le, hfits, Nat.le_refl _, rfl,
        tiles⟩
      by_contra hne
      rw [Shared.phase_move_of_ne _ hne] at hu
      exact none u hu
  | grown owned =>
    -- the cursor lies past its end, so whoever reserves now has to wait
    have hpast : m.cursor.stop < m.cursor.next := by
      rw [owned.stop]
      exact Nat.lt_of_lt_of_le owned.short owned.past
    rw [verdict_eq_wait.mpr ⟨hpast, rfl⟩]
    have hgrown : Orderly first { m with cursor := ⟨m.cursor.next + amount, m.cursor.stop⟩ } :=
      .grown { owned with past := Nat.le_add_right_of_le owned.past }
    exact hgrown.move hfrom id

/-- The owner of a growth gives it up and puts a cursor within its end in place. -/
theorem Orderly.resolve (h : Orderly first m) (hphase : m.phase t = .growing amount before)
    {c : Cursor} {granted : List Range} (hle : c.next ≤ c.stop)
    (htiles : Tiles first.next before.next m.granted → Tiles first.next c.next granted) :
    Orderly first ({ m with cursor := c, granted := granted }.move t .waking) := by
  have howned := h.owned hphase
  refine .quiet (fun u hu => ?_) hle (htiles howned.tiles)
  by_cases hne : u = t
  · subst hne
    rw [Shared.phase_move_self] at hu
    exact hu
  · rw [Shared.phase_move_of_ne _ hne] at hu
    exact hne (howned.only u hu)

/-- Each step leaves one owner at most, and the ranges tile what was claimed before it. -/
theorem Orderly.step (h : Orderly first m) (hstep : Step m m') : Orderly first m' := by
  cases hstep with
  | ask t amount hphase => exact h.move (hphase ▸ id) id
  | reserve t hphase hok => exact h.reserve hphase hok
  | publish t stop hphase hstop => exact h.resolve hphase hstop fun htiles => ⟨rfl, htiles⟩
  | restore t hphase => exact h.resolve hphase (h.owned hphase).le id
  | wake t hphase => exact h.wakeAll (hphase ▸ id)
  | look t hphase =>
    refine h.move (hphase ▸ id) ?_
    split
    · exact id
    · exact id
  | stir t hphase => exact h.move (hphase ▸ id) id

/-! ### Nobody left asleep -/

/-- Somebody is there to wake those who sleep. -/
def Attended (m : Shared ι) : Prop :=
  ∀ t, (m.phase t).Sleeps → ∃ u, (m.phase u).Grows ∨ m.phase u = .waking

theorem Attended.move (h : Attended m) (hgrows : ¬ (m.phase t).Grows)
    (hwaking : m.phase t ≠ .waking) (hto : p.Sleeps → ∃ u, (m.phase u).Grows) :
    Attended (m.move t p) := by
  intro u hu
  obtain ⟨v, hv⟩ : ∃ v, (m.phase v).Grows ∨ m.phase v = .waking := by
    by_cases hut : u = t
    · subst hut
      rw [Shared.phase_move_self] at hu
      obtain ⟨v, hv⟩ := hto hu
      exact ⟨v, Or.inl hv⟩
    · rw [Shared.phase_move_of_ne _ hut] at hu
      exact h u hu
  have hvt : v ≠ t := by
    rintro rfl
    exact hv.elim hgrows hwaking
  refine ⟨v, ?_⟩
  rw [Shared.phase_move_of_ne _ hvt]
  exact hv

/-- Who falls asleep found the cursor past its end, so somebody owns the growth. -/
theorem Attended.step (h : Attended m) (horderly : Orderly first m) (hstep : Step m m') :
    Attended m' := by
  cases hstep with
  | ask t amount hphase => exact h.move (hphase ▸ id) (hphase ▸ nofun) False.elim
  | @reserve verdict t amount hphase hok =>
    refine Attended.move h (hphase ▸ id) (hphase ▸ nofun) ?_
    cases verdict with
    | _ => exact False.elim
  | publish t stop hphase hstop => exact fun _ _ => ⟨t, Or.inr (Shared.phase_move_self ..)⟩
  | restore t hphase => exact fun _ _ => ⟨t, Or.inr (Shared.phase_move_self ..)⟩
  | wake t hphase =>
    intro u hu
    by_cases hut : u = t
    · rw [Shared.phase_wakeAll, if_pos hut] at hu
      exact hu.elim
    · rw [Shared.phase_wakeAll, if_neg hut] at hu
      exact (Phase.not_sleeps_woken _ hu).elim
  | @look t amount observed hphase =>
    refine h.move (hphase ▸ id) (hphase ▸ nofun) fun hsleeps => ?_
    by_cases hparks : Parks m.cursor observed
    · cases horderly with
      | quiet none le _ => exact absurd hparks.2 (Nat.not_lt.mpr le)
      | grown owned => exact ⟨_, owned.grows⟩
    · rw [if_neg hparks] at hsleeps
      exact hsleeps.elim
  | stir t hphase => exact h.move (hphase ▸ id) (hphase ▸ nofun) False.elim

/-! ### Runs -/

/-- What any number of steps in any order can lead to from a cursor that nobody has claimed on. -/
def Reachable (first : Cursor) (m : Shared ι) : Prop :=
  Relation.ReflTransGen Step (Shared.start first) m

theorem Reachable.orderly (hfirst : first.next ≤ first.stop) (h : Reachable first m) :
    Orderly first m := by
  induction h with
  | refl => exact .quiet (fun _ => id) hfirst rfl
  | tail _ hstep ih => exact ih.step hstep

theorem Reachable.attended (hfirst : first.next ≤ first.stop) (h : Reachable first m) :
    Attended m := by
  induction h with
  | refl => exact fun _ => False.elim
  | tail hrun hstep ih => exact ih.step (Reachable.orderly hfirst hrun) hstep

/-- However the steps of any number of claimants interleave, as long as no addition overflows: one
claimant at most owns a growth; no two of the ranges granted overlap; and while nobody owns a growth
they are exactly what was claimed, that is within the end, nobody who waits for a cursor seen
earlier has to go on waiting, and those who still sleep are about to be woken. -/
theorem growth_handed_off (hfirst : first.next ≤ first.stop) (h : Reachable first m) :
    (∀ t u, (m.phase t).Grows → (m.phase u).Grows → t = u) ∧
      m.granted.Pairwise Range.Apart ∧
      ((∀ t, ¬ (m.phase t).Grows) →
        m.cursor.next ≤ m.cursor.stop ∧
          (∀ x, (∃ r ∈ m.granted, r.Covers x) ↔ first.next ≤ x ∧ x < m.cursor.next) ∧
          (∀ observed, ¬ Parks m.cursor observed) ∧
          ∀ t, (m.phase t).Sleeps → ∃ u, m.phase u = .waking) := by
  have horderly := h.orderly hfirst
  have hattended := h.attended hfirst
  have hapart := horderly.apart
  cases horderly with
  | quiet none le tiles =>
    refine ⟨fun t _ ht => (none t ht).elim, hapart, fun _ => ⟨le, tiles.covers_iff, ?_, ?_⟩⟩
    · exact fun _ hparks => absurd hparks.2 (Nat.not_lt.mpr le)
    · intro t ht
      obtain ⟨u, hu⟩ := hattended t ht
      exact ⟨u, hu.resolve_left (none u)⟩
  | grown owned =>
    exact ⟨fun t u ht hu => (owned.only t ht).trans (owned.only u hu).symm, hapart,
      fun hnone => (hnone _ owned.grows).elim⟩

end

/-- The second of three claimants grows while the third falls asleep. What it publishes leaves out
what the third added, and the third is about to be woken. -/
theorem growth_handed_off_of_three : ∃ m : Shared (Fin 3), Reachable ⟨0, 16⟩ m ∧
    m.cursor = ⟨20, 32⟩ ∧ m.granted = [⟨10, 10⟩, ⟨0, 10⟩] ∧ m.phase 2 = .asleep 8 ⟨20, 16⟩ ∧
    m.granted.Pairwise Range.Apart ∧ ¬ Parks m.cursor ⟨20, 16⟩ ∧ ∃ u, m.phase u = .waking := by
  have hstart : Relation.ReflTransGen Step (Shared.start ⟨0, 16⟩ : Shared (Fin 3)) _ := .refl
  have hfits := (hstart.tail (Step.ask 0 10 rfl)).tail (Step.reserve 0 rfl rfl)
  have hgrows := (hfits.tail (Step.ask 1 10 rfl)).tail (Step.reserve 1 rfl rfl)
  have hwaits := (hgrows.tail (Step.ask 2 8 rfl)).tail (Step.reserve 2 rfl rfl)
  have hasleep := hwaits.tail (Step.look 2 rfl)
  have hpublished := hasleep.tail (Step.publish 1 32 rfl (by decide))
  have hreachable : Reachable ⟨0, 16⟩ _ := hpublished
  obtain ⟨-, hapart, hquiet⟩ := growth_handed_off (by decide) hreachable
  obtain ⟨-, -, hreturns, hwaking⟩ := hquiet (by decide)
  exact ⟨_, hreachable, rfl, rfl, rfl, hapart, hreturns _, hwaking 2 trivial⟩

end SlotArena.Cursor
