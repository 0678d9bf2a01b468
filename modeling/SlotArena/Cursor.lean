import SlotArena.Act

/-!
Bump cursors.  A cursor is one 64-bit word with the next free position in its lower half and the
end of what is available in its upper half.  A claim adds to the whole word before it is checked,
so that one addition both reserves space and tells the claimant what it was checked against.  The
claimant whose range straddles the end owns the growth and later publishes a new word; claimants
that land past the end wait for that.

An addition that carries out of the lower half is a fault here, found after it was done, as it is
where overflow is checked for. What becomes of cursors where nobody checks is left out.

`pack_bump` ties the two halves to the word: a claim adds to it as to any word of 64 bits.
-/

namespace SlotArena

structure Cursor where
  next : Nat
  stop : Nat
  deriving DecidableEq, Repr, Inhabited

namespace Cursor

def empty : Cursor := ⟨0, 0⟩

inductive Verdict
  /-- The range from `offset` on is the claimant's. -/
  | fits (offset : Nat)
  /-- The claimant owns the growth; `before` is the cursor it found. -/
  | mustGrow (before : Cursor)
  /-- Somebody else owns the growth. -/
  | wait (before : Cursor)
  deriving DecidableEq, Repr

def verdict (c : Cursor) (amount : Nat) : Verdict :=
  if c.next + amount ≤ c.stop then .fits c.next
  else if c.next ≤ c.stop then .mustGrow c
  else .wait c

/-- The word after `amount` was added to it: what the lower half cannot hold is carried into the
upper one. -/
def bump (c : Cursor) (amount : Nat) : Cursor :=
  if c.next + amount < word32 then { c with next := c.next + amount }
  else ⟨c.next + amount - word32, (c.stop + 1) % word32⟩

def reserve (amount : Nat) : Act Cursor Verdict := do
  let before ← Act.get
  -- The addition is done before it is judged, and is not undone where it went too far.
  Act.set (before.bump amount)
  Act.ensure (before.next + amount < word32) .cursorOverflow
  return before.verdict amount

/-- Replaces the cursor and wakes all who wait; answers the cursor that was replaced.  Publishing
the cursor that a claimant found takes its claim back. -/
def publish (new : Cursor) : Act Cursor Cursor := do
  let old ← Act.get
  Act.set new
  return old

/-- One who waits for `observed` to be replaced keeps waiting while `current` stands. -/
def Parks (current observed : Cursor) : Prop :=
  current.stop = observed.stop ∧ current.stop < current.next

instance (current observed : Cursor) : Decidable (Parks current observed) :=
  inferInstanceAs (Decidable (_ ∧ _))

def used (c : Cursor) : Nat := min c.next c.stop

def remaining (c : Cursor) : Nat := c.stop - c.next

/-! ### The word -/

def Fits (c : Cursor) : Prop := c.next < word32 ∧ c.stop < word32

def pack (c : Cursor) : Nat := c.stop * word32 + c.next

theorem pack_inj {c d : Cursor} (hc : c.Fits) (hd : d.Fits) : c.pack = d.pack ↔ c = d := by
  refine ⟨fun h => ?_, fun h => h ▸ rfl⟩
  obtain ⟨next, stop⟩ := c
  obtain ⟨next', stop'⟩ := d
  simp only [Fits, pack, word32] at hc hd h
  rw [Cursor.mk.injEq]
  omega

/-- The halves never grow out of the word, not even by a carry. -/
theorem Fits.bump {c : Cursor} (h : c.Fits) {amount : Nat} (hamount : amount < word32) :
    (c.bump amount).Fits := by
  simp only [Fits, Cursor.bump, word32] at h hamount ⊢
  split
  · exact ⟨‹_›, h.2⟩
  · exact ⟨by dsimp only; omega, Nat.mod_lt _ (by decide)⟩

/-- A claim adds to the whole word, and wraps with it. -/
theorem pack_bump {c : Cursor} (h : c.Fits) {amount : Nat} (hamount : amount < word32) :
    (c.bump amount).pack = (c.pack + amount) % word64 := by
  simp only [Fits, pack, bump, word32, word64] at h hamount ⊢
  split <;> dsimp only <;> omega

/-! ### How claims are judged -/

/-- The addition is always done and tells nothing; it is judged if it leaves the upper half
alone. -/
theorem run_reserve (c : Cursor) (amount : Nat) :
    (reserve amount).run c =
      ⟨if c.next + amount < word32 then .ok (c.verdict amount)
        else .error (.violated .cursorOverflow), c.bump amount, []⟩ := by
  simp only [reserve, Act.run_bind, Act.run_get, Act.run_set, Act.run_ensure]
  by_cases h : c.next + amount < word32
  · simp [h]
  · simp [h]

theorem bump_of_lt {c : Cursor} {amount : Nat} (h : c.next + amount < word32) :
    c.bump amount = ⟨c.next + amount, c.stop⟩ := if_pos h

theorem verdict_eq_fits {c : Cursor} {amount offset : Nat} :
    c.verdict amount = .fits offset ↔ c.next + amount ≤ c.stop ∧ offset = c.next := by
  unfold verdict
  by_cases h : c.next + amount ≤ c.stop
  · rw [if_pos h, Verdict.fits.injEq]
    exact ⟨fun e => ⟨h, e.symm⟩, fun e => e.2.symm⟩
  · rw [if_neg h]
    constructor
    · intro e
      split at e <;> cases e
    · exact fun e => absurd e.1 h

theorem verdict_eq_mustGrow {c before : Cursor} {amount : Nat} :
    c.verdict amount = .mustGrow before ↔
      c.stop < c.next + amount ∧ c.next ≤ c.stop ∧ before = c := by
  unfold verdict
  by_cases h : c.next + amount ≤ c.stop
  · rw [if_pos h]
    exact ⟨fun e => (by cases e), fun e => by omega⟩
  · rw [if_neg h]
    by_cases h' : c.next ≤ c.stop
    · rw [if_pos h', Verdict.mustGrow.injEq]
      exact ⟨fun e => ⟨by omega, h', e.symm⟩, fun e => e.2.2.symm⟩
    · rw [if_neg h']
      exact ⟨fun e => (by cases e), fun e => absurd e.2.1 h'⟩

theorem verdict_eq_wait {c before : Cursor} {amount : Nat} :
    c.verdict amount = .wait before ↔ c.stop < c.next ∧ before = c := by
  unfold verdict
  by_cases h : c.next + amount ≤ c.stop
  · rw [if_pos h]
    exact ⟨fun e => (by cases e), fun e => by omega⟩
  · rw [if_neg h]
    by_cases h' : c.next ≤ c.stop
    · rw [if_pos h']
      exact ⟨fun e => (by cases e), fun e => by omega⟩
    · rw [if_neg h', Verdict.wait.injEq]
      exact ⟨fun e => ⟨by omega, e.symm⟩, fun e => e.2.symm⟩

/-! ### Claiming with growth -/

/-- Grows until the end reaches `next`.  A growth that succeeds reaches it at once; `fuel` bounds
the attempts of one that does not. -/
def growUntil {σ : Type} (grow : Act σ Nat) (next : Nat) : (fuel : Nat) → (stop : Nat) → Act σ Nat
  | 0, _ => Act.fail .stuck
  | fuel + 1, stop =>
      if stop < next then do
        let stop ← grow
        growUntil grow next fuel stop
      else pure stop

/-- Claims `amount` on a cursor inside `σ`.  Who must grow either publishes the grown cursor and
keeps its range, or takes its claim back and passes the refusal on. -/
def claim {σ : Type} (part : σ → Cursor) (replace : σ → Cursor → σ) (grow : Act σ Nat)
    (amount : Nat) : Act σ Nat := do
  match ← Act.focus part replace (reserve amount) with
  | .fits offset => return offset
  | .wait _ => Act.fail .stuck
  | .mustGrow before =>
      let next := before.next + amount
      match ← (growUntil grow next (next + 1) before.stop).attempt with
      | .ok stop =>
          let _ ← Act.focus part replace (publish ⟨next, stop⟩)
          return before.next
      | .error (.refused why) =>
          -- Whoever waits for this growth may now try to grow in turn.
          let _ ← Act.focus part replace (publish before)
          Act.refuse why
      | .error e => Act.fail e

end Cursor

end SlotArena
