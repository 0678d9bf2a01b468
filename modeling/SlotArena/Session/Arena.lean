import SlotArena.Session.Access

/-!
Sessions on an arena, watched by an observer.
-/

namespace SlotArena.Session.OfArena

variable [Host]

structure Watched where
  arena : Arena
  seen : List Sighting

inductive Step
  | alloc (size : Nat)
  | allocBack (size : Nat)
  | allocTimes (size n : Nat)
  | allocBackTimes (size n : Nat)
  /-- How far the place of an offset is from the place of the origin. -/
  | locate (offset : Int)
  | access (a : Asked Access) (base? : Option Nat)
  | readGauges
  deriving Repr

structure Reading where
  size : Nat
  center : Nat
  front : Nat
  back : Nat
  retired : Nat
  views : Nat
  deriving DecidableEq, Repr

def Watched.reading (o : Watched) : Reading where
  size := o.arena.size
  center := o.arena.center
  front := o.arena.frontUsed
  back := o.arena.backUsed
  retired := o.arena.window.backing.retired
  views := o.seen.length

/-- An operation on the arena, whatever becomes of it, and another look. -/
def watch (x : Act Arena Reply) : Act Watched Reply := fun o =>
  let r := x o.arena
  ⟨r.result, ⟨r.state, look o.seen r.state.window⟩, r.events⟩

def alloc (size : Nat) : Act Arena Reply := do return .number (← Arena.alloc size)

def allocBack (size : Nat) : Act Arena Reply := do return .number (← Arena.allocBack size)

def locate (offset : Int) : Act Arena Reply := do
  let a ← Act.get
  if a.window.hi ≤ offset then return .guarded .outsideWindow
  let place ← Arena.place offset
  let origin ← Arena.place 0
  return .number (a.window.position place - a.window.position origin)

def act : Step → Act (Running Watched) Reply
  | .alloc size => onObject (watch (alloc size))
  | .allocBack size => onObject (watch (allocBack size))
  | .allocTimes size n => onObject (watch (times n (alloc size)))
  | .allocBackTimes size n => onObject (watch (times n (allocBack size)))
  | .locate offset => onObject (watch (locate offset))
  | .access a base? => onObject do
      watch (Arena.onWindow (accessSeen (← Act.get).seen a base?))
  | .readGauges => readings

def run (config : ArenaConfig) (steps : List (Asked Step)) :
    Except Abandoned (Transcript Watched Reading) :=
  transcribe
    (do
      let arena ← Arena.create config
      return ⟨arena, look [] arena.window⟩)
    act (fun _ _ s => some s.object.reading) (·.arena.closing) steps

end SlotArena.Session.OfArena
