import SlotArena.Session.Access

/-!
Sessions on a window, watched by an observer.
-/

namespace SlotArena.Session.OfWindow

variable [Host]

structure Watched where
  window : Window
  seen : List Sighting

inductive Step
  | expandTo (size : Nat)
  | expandRange (center size : Nat)
  | access (a : Asked Access) (base? : Option Nat)
  | readGauges
  deriving Repr

structure Reading where
  size : Nat
  center : Nat
  retired : Nat
  segments : Nat
  views : Nat
  deriving DecidableEq, Repr

def Watched.reading (o : Watched) : Reading where
  size := o.window.size
  center := o.window.center
  retired := o.window.backing.retired
  segments := o.window.backing.segments
  views := o.seen.length

def watch (x : Act Window Reply) : Act Watched Reply := fun o =>
  let r := x o.window
  ⟨r.result, ⟨r.state, look o.seen r.state⟩, r.events⟩

def act : Step → Act (Running Watched) Reply
  | .expandTo size => onObject (watch (silent (Window.expandTo size)))
  | .expandRange center size => onObject (watch (silent (Window.expandRange center size)))
  | .access a base? => onObject do watch (accessSeen (← Act.get).seen a base?)
  | .readGauges => readings

def run (initial : Nat) (e : Extent) (strategy : Strategy) (steps : List (Asked Step)) :
    Except Abandoned (Transcript Watched Reading) :=
  transcribe
    (do
      let window ← Window.create .arena initial e strategy
      return ⟨window, look [] window⟩)
    act (fun _ _ s => some s.object.reading) (·.window.closing) steps

end SlotArena.Session.OfWindow
