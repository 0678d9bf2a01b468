import SlotArena.Session.Access

/-!
Sessions on a roster with one chain threaded through its records, watched by an observer.
-/

namespace SlotArena.Session.OfRoster

variable [Host]

structure Watched where
  roster : Roster
  chain : Chain
  seen : List Sighting

inductive Step
  | add (count : Nat)
  | addTimes (count n : Nat)
  | get (idx : Nat)
  | assign (idx : Nat) (offset : Int) (size : Nat)
  | resize (idx size : Nat)
  | push (first count : Nat)
  | pop
  | popTimes (n : Nat)
  | readGauges
  deriving DecidableEq, Repr

structure Reading where
  length : Nat
  mapped : Nat
  capacity : Nat
  views : Nat
  chainEmpty : Bool
  deriving DecidableEq, Repr

def Watched.reading (o : Watched) : Reading where
  length := o.roster.length
  mapped := o.roster.mapped
  capacity := o.roster.capacity
  views := o.seen.length
  chainEmpty := o.chain.IsEmpty

def watch (x : Act (Roster × Chain) Reply) : Act Watched Reply := fun o =>
  let r := x (o.roster, o.chain)
  ⟨r.result, ⟨r.state.1, r.state.2, look o.seen r.state.1.window⟩, r.events⟩

def onRoster {α : Type} : Act Roster α → Act (Roster × Chain) α :=
  Act.focus Prod.fst fun s t => (t, s.2)

def add (count : Nat) : Act (Roster × Chain) Reply := do
  return .number (← onRoster (Roster.add count))

def push (first count : Nat) : Act (Roster × Chain) Unit := do
  let chain ← onRoster ((← Act.get).2.push first count)
  Act.modify fun s => (s.1, chain)

def pop : Act (Roster × Chain) Reply := do
  let (top, chain) ← onRoster (← Act.get).2.pop
  Act.modify fun s => (s.1, chain)
  return .ofOption top

def act : Step → Act (Running Watched) Reply
  | .add count => onObject (watch (add count))
  | .addTimes count n => onObject (watch (times n (add count)))
  | .get idx => onObject (watch do return .record (← onRoster (Roster.get idx)))
  | .assign idx offset size => onObject (watch (silent (onRoster (Roster.assign idx offset size))))
  | .resize idx size => onObject (watch (silent (onRoster (Roster.resize idx size))))
  | .push first count => onObject (watch (silent (push first count)))
  | .pop => onObject (watch pop)
  | .popTimes n => onObject (watch (times n pop))
  | .readGauges => readings

def run (initial capacity : Nat) (strategy : Strategy) (steps : List (Asked Step)) :
    Except Abandoned (Transcript Watched Reading) :=
  transcribe
    (do
      let roster ← Roster.create initial capacity strategy
      return ⟨roster, .empty, look [] roster.window⟩)
    act (fun _ _ s => some s.object.reading) (·.roster.closing) steps

end SlotArena.Session.OfRoster
