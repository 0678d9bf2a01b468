import SlotArena.Act
import Std.Data.TreeMap

/-!
Intrusive stacks of pages.  The head is one word: the address of the top page, with a counter of the
changes in the bits that a page address leaves free.  The first word of a page on the stack holds
the plain address of the next one, or zero.
-/

namespace SlotArena

/-- The first word of each page, by address; zero until it is written. -/
structure PageWords where
  words : Std.TreeMap Nat Nat := ∅

namespace PageWords

def word (m : PageWords) (address : Nat) : Nat := m.words.getD address 0

def write (m : PageWords) (address value : Nat) : PageWords := ⟨m.words.insert address value⟩

theorem word_write (m : PageWords) (address value a : Nat) :
    (m.write address value).word a = if address = a then value else m.word a := by
  simp [word, write, Std.TreeMap.getD_insert]

end PageWords

/-- A stack of pages, as its head word. -/
structure PageChain where
  head : Nat
  deriving DecidableEq, Repr, Inhabited

namespace PageChain

def alignment : Nat := 4096

def empty : PageChain := ⟨0⟩

def addressOf (head : Nat) : Nat := head / alignment * alignment

/-- The counter of a head word after one more change. -/
def nextCount (head : Nat) : Nat := (head + 1) % alignment

/-- The address of the top page, or zero. -/
def top (c : PageChain) : Nat := addressOf c.head

def IsEmpty (c : PageChain) : Prop := c.top = 0

instance : DecidablePred IsEmpty := fun c => inferInstanceAs (Decidable (c.top = 0))

/-- The head word for an address, after one more change. -/
def moveTo (c : PageChain) (address : Nat) : PageChain := ⟨address ||| nextCount c.head⟩

def push (c : PageChain) (address : Nat) : Act PageWords PageChain := do
  Act.ensure (alignment ∣ address) .pageUnaligned
  Act.modify (·.write address c.top)
  return c.moveTo address

def pop (c : PageChain) : Act PageWords (Option Nat × PageChain) := do
  if c.IsEmpty then return (none, c)
  let next := (← Act.get).word c.top
  return (some c.top, c.moveTo next)

end PageChain

end SlotArena
