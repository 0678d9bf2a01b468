import SlotArena.Chain
import SlotArena.PageChain
import SlotArena.Session.Reply

/-!
Sessions on a chain over bare link words, and on a chain of pages.
-/

namespace SlotArena.Session

/-! ### Chains over link words -/

namespace OfChain

structure Table where
  chain : Chain
  links : LinkWords

inductive Step
  | push (first count : Nat)
  | pop
  | popTimes (n : Nat)
  /-- Pushes and pops one record `n` times. -/
  | cycle (first : Nat) (n : Asked Nat)
  | link (first : Nat)
  deriving Repr

/-- The run is one that a chain accepts, but not all of it exists. -/
def RunsOut (t : Table) (first count : Nat) : Prop :=
  0 < count ∧ first + (count - 1) < noIndex ∧ t.links.size ≤ first + (count - 1)

instance (t : Table) (first count : Nat) : Decidable (RunsOut t first count) :=
  inferInstanceAs (Decidable (_ ∧ _ ∧ _))

def onLinks {α : Type} : Act LinkWords α → Act Table α :=
  Act.focus Table.links fun t l => { t with links := l }

def push (first count : Nat) : Act Table Unit := do
  let chain ← onLinks ((← Act.get).chain.push first count)
  Act.modify fun t => { t with chain := chain }

def pop : Act Table (Option Nat) := do
  let (top, chain) ← onLinks (← Act.get).chain.pop
  Act.modify fun t => { t with chain := chain }
  return top

def popReply : Act Table Reply := do return .ofOption (← pop)

def cycle (first n : Nat) : Act Table Unit :=
  Act.sweep 0 n fun _ => do
    push first 1
    let _ ← pop

def act : Step → Act (Running Table) Reply
  | .push first count => onObject do
      if RunsOut (← Act.get) first count then return .guarded .noSuchRecord
      silent (push first count)
  | .pop => onObject popReply
  | .popTimes n => onObject (times n popReply)
  | .cycle first n => onObject do
      if (← Act.get).links.size ≤ first then return .guarded .noSuchRecord
      answer (fun n => silent (cycle first n)) n
  | .link first => onObject do
      let t ← Act.get
      if t.links.size ≤ first then return .guarded .noSuchRecord
      return .number (t.links.word first)

/-- A session on an empty chain over `size` link words; every step shows the chain after it. -/
def run (size : Nat) (steps : List (Asked Step)) : List (Turn Chain) :=
  (play act (fun _ _ s => some s.object.chain) (.start ⟨.empty, ⟨size, ∅⟩⟩) steps).turns

end OfChain

/-! ### Chains of pages -/

namespace OfPages

/-- A chain and the pages that it may hold.  Page `p` has the address `address p`. -/
structure Table where
  chain : PageChain
  words : PageWords
  pages : Nat

/-- Page addresses are aligned and none of them is zero. -/
def address (page : Nat) : Nat := (page + 1) * PageChain.alignment

def page? (address : Nat) : Option Nat :=
  if address = 0 then none else some (address / PageChain.alignment - 1)

def lastWord : Nat := PageChain.alignment - 8

inductive Step
  | push (start : Nat) (page : Asked Nat)
  | pop
  | popTimes (n : Nat)
  /-- Pushes and pops one page `n` times. -/
  | cycle (page : Nat) (n : Asked Nat)
  | link (page : Nat)
  deriving Repr

def onWords {α : Type} : Act PageWords α → Act Table α :=
  Act.focus Table.words fun t w => { t with words := w }

def push (address : Nat) : Act Table Unit := do
  let chain ← onWords ((← Act.get).chain.push address)
  Act.modify fun t => { t with chain := chain }

def pop : Act Table (Option Nat) := do
  let (top, chain) ← onWords (← Act.get).chain.pop
  Act.modify fun t => { t with chain := chain }
  return top

def popReply : Act Table Reply := do return .ofOption ((← pop).bind page?)

def pushPage (start page : Nat) : Act Table Reply := do
  if (← Act.get).pages ≤ page then return .guarded .noSuchPage
  silent (push (address page + start))

def cycle (page n : Nat) : Act Table Unit :=
  Act.sweep 0 n fun _ => do
    push (address page)
    let _ ← pop

def act : Step → Act (Running Table) Reply
  | .push start page => onObject do
      if lastWord < start then return .guarded .outsidePage
      answer (pushPage start) page
  | .pop => onObject popReply
  | .popTimes n => onObject (times n popReply)
  | .cycle page n => onObject do
      if (← Act.get).pages ≤ page then return .guarded .noSuchPage
      answer (fun n => silent (cycle page n)) n
  | .link page => onObject do
      let t ← Act.get
      if t.pages ≤ page then return .guarded .noSuchPage
      return .ofOption (page? (t.words.word (address page)))

/-- A session on an empty chain over some pages; every step shows whether the chain is empty. -/
def run (pages : Nat) (steps : List (Asked Step)) : List (Turn Bool) :=
  (play act (fun _ _ s => some (decide s.object.chain.IsEmpty)) (.start ⟨.empty, ⟨∅⟩, pages⟩)
    steps).turns

end OfPages

end SlotArena.Session
