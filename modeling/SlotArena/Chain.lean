import SlotArena.Act
import Std.Data.TreeMap

/-!
Intrusive stacks of records.  A chain is a head word; the rest of the stack is threaded through one
link word per record, in whatever holds the records.  Several chains may share the link words, as
long as no record is on two of them.  The head carries a count of the changes made to it, so that a
head that was popped and pushed back in the meantime is told apart from one that never changed.
-/

namespace SlotArena

/-- Objects that hold one link word per record.  Reaching for the link of a record that does not
exist stops the operation. -/
class Links (σ : Type) where
  link : Nat → Act σ Nat
  setLink : Nat → Nat → Act σ Unit

structure Chain where
  /-- The record on top, or `noIndex`. -/
  head : Nat
  /-- Changes of the head, modulo the width of a word. -/
  count : Nat
  deriving DecidableEq, Repr, Inhabited

namespace Chain

def empty : Chain := ⟨noIndex, 0⟩

def IsEmpty (c : Chain) : Prop := c.head = noIndex

instance : DecidablePred IsEmpty := fun c => inferInstanceAs (Decidable (c.head = noIndex))

def text (c : Chain) : String := s!"FreeList \x7b head: {c.head}, count: {c.count} \x7d"

def moveTo (c : Chain) (head : Nat) : Chain := ⟨head, (c.count + 1) % word32⟩

variable {σ : Type} [Links σ]

/-- Puts the records `first`, `first + 1`, … , `count` of them, on top; they come off in ascending
order.  Until the last link is written the chain itself is as before. -/
def push (c : Chain) (first count : Nat) : Act σ Chain := do
  Act.ensure (0 < count) .emptyRun
  let last := first + (count - 1)
  Act.ensure (last < noIndex) .runTooLong
  Act.sweep first (count - 1) fun idx => Links.setLink idx (idx + 1)
  Links.setLink last c.head
  return c.moveTo first

def pop (c : Chain) : Act σ (Option Nat × Chain) := do
  if c.IsEmpty then return (none, c)
  let next ← Links.link c.head
  return (some c.head, c.moveTo next)

/-- The records of `c` are `records`, top first, as the link words `link` tell. -/
def Threads (link : Nat → Nat) : Nat → List Nat → Prop
  | head, [] => head = noIndex
  | head, r :: rest => head = r ∧ r ≠ noIndex ∧ Threads link (link r) rest

namespace Threads

variable {link link' : Nat → Nat} {head : Nat} {records others : List Nat}

theorem congr (h : Threads link head records) (agree : ∀ r ∈ records, link' r = link r) :
    Threads link' head records := by
  induction records generalizing head with
  | nil => exact h
  | cons r rest ih =>
    obtain ⟨rfl, hne, hrest⟩ := h
    refine ⟨rfl, hne, ?_⟩
    rw [agree head (List.mem_cons_self ..)]
    exact ih hrest fun r hr => agree r (List.mem_cons_of_mem _ hr)

theorem unique (h : Threads link head records) (h' : Threads link head others) :
    records = others := by
  induction records generalizing head others with
  | nil =>
    cases others with
    | nil => rfl
    | cons r rest =>
      obtain ⟨rfl, hne, -⟩ := h'
      exact absurd h hne
  | cons r rest ih =>
    obtain ⟨rfl, hne, hrest⟩ := h
    cases others with
    | nil => exact absurd h' hne
    | cons r' rest' =>
      obtain ⟨rfl, -, hrest'⟩ := h'
      rw [ih hrest hrest']

/-- A record of a chain heads the part of it that the record starts. -/
theorem suffix (h : Threads link head records) {r : Nat} (hr : r ∈ records) :
    ∃ rest, Threads link r (r :: rest) ∧ rest.length < records.length := by
  induction records generalizing head with
  | nil => cases hr
  | cons r' rest ih =>
    obtain ⟨rfl, hne, hrest⟩ := h
    rcases List.mem_cons.mp hr with rfl | hr
    · exact ⟨rest, ⟨rfl, hne, hrest⟩, Nat.lt_succ_self _⟩
    · obtain ⟨tail, htail, hlt⟩ := ih hrest hr
      exact ⟨tail, htail, Nat.lt_succ_of_lt hlt⟩

theorem nodup (h : Threads link head records) : records.Nodup := by
  induction records generalizing head with
  | nil => exact List.nodup_nil
  | cons r rest ih =>
    obtain ⟨rfl, hne, hrest⟩ := h
    refine List.nodup_cons.mpr ⟨fun hmem => ?_, ih hrest⟩
    obtain ⟨tail, htail, hlt⟩ := hrest.suffix hmem
    have heq : head :: tail = head :: rest := unique htail ⟨rfl, hne, hrest⟩
    rw [(List.cons.inj heq).2] at hlt
    exact Nat.lt_irrefl _ hlt

end Threads

end Chain

/-! ### Bare link words -/

/-- `size` link words that belong to nothing else. -/
structure LinkWords where
  size : Nat
  words : Std.TreeMap Nat Nat := ∅

namespace LinkWords

/-- The word of a record; it names no record until it is written. -/
def word (l : LinkWords) (idx : Nat) : Nat := l.words.getD idx noIndex

instance : Links LinkWords where
  link idx := do
    let l ← Act.get
    Act.ensure (idx < l.size) (.neverAdded idx)
    return l.word idx
  setLink idx next := do
    let l ← Act.get
    Act.ensure (idx < l.size) (.neverAdded idx)
    Act.set { l with words := l.words.insert idx next }

theorem word_insert (l : LinkWords) (idx next j : Nat) :
    ({ l with words := l.words.insert idx next } : LinkWords).word j =
      if idx = j then next else l.word j := by
  simp [word, Std.TreeMap.getD_insert]

end LinkWords

end SlotArena
