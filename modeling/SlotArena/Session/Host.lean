import SlotArena.Session.Access

/-!
Sessions on the host's address space: reservations with committed ranges, and shared backings with
views.  Handles count up from zero, separately for each of the three.  An access is looked at once
the memory that it is for is known: a view by its handle, a committed range by its handle and the
offset where the access starts.
-/

namespace SlotArena.Session.OfHost

variable [Host]

structure Reservation where
  size : Nat
  /-- Committed ranges, by start and size, oldest first. -/
  committed : List (Nat × Nat) := []
  memory : Memory := .blank
  released : Bool := false

structure SharedBacking where
  size : Nat
  memory : Memory := .blank

structure SharedView where
  backing : Nat
  start : Nat
  size : Nat
  unmapped : Bool := false

structure Space where
  reservations : Array Reservation := #[]
  backings : Array SharedBacking := #[]
  views : Array SharedView := #[]

inductive Step
  | reserve (size : Nat)
  | commit (handle start size : Nat)
  | release (handle : Nat)
  | access (handle : Nat) (start : Asked Nat) (a : Asked Access)
  | backing (size : Nat)
  | map (handle start size : Nat)
  | unmap (handle : Nat)
  | accessView (handle : Nat) (a : Asked Access)
  deriving Repr

namespace Space

def reservation? (s : Space) (handle : Nat) : Option Reservation :=
  (s.reservations[handle]?).filter fun r => !r.released

def view? (s : Space) (handle : Nat) : Option (SharedView × SharedBacking) := do
  let v ← (s.views[handle]?).filter fun v => !v.unmapped
  return (v, ← s.backings[v.backing]?)

def rangeOf (r : Reservation) (offset : Nat) : Option (Nat × Nat) :=
  r.committed.find? fun c => c.1 ≤ offset ∧ offset < c.1 + c.2

end Space

def granted (r : Except HostError Unit) (ok : Act Space Reply) : Act Space Reply :=
  match r with
  | .ok () => ok
  | .error why => pure (.unavailable why)

def reserve (size : Nat) : Act Space Reply :=
  granted (Host.reserve .arena size) do
    let s ← Act.get
    Act.set { s with reservations := s.reservations.push { size } }
    return .number s.reservations.size

def commit (handle start size : Nat) : Act Space Reply := do
  let s ← Act.get
  match s.reservation? handle with
  | none => return .guarded .noSuchHandle
  | some r =>
      if r.size < start + size then return .guarded .outsideReservation
      granted (Host.commit .arena start size) do
        let r := { r with committed := r.committed ++ [(start, size)] }
        silent (Act.set { s with reservations := s.reservations.setIfInBounds handle r })

def release (handle : Nat) : Act Space Reply := do
  let s ← Act.get
  match s.reservation? handle with
  | none => return .guarded .noSuchHandle
  | some r =>
      let r := { r with released := true }
      silent (Act.set { s with reservations := s.reservations.setIfInBounds handle r })

/-- An access to a range of a reservation, in which all of it has to lie. -/
def accessRange (handle : Nat) (r : Reservation) (range : Nat × Nat) (a : Access) :
    Act Space Reply := do
  if ¬ a.Inside range.1 (range.1 + range.2) then return .guarded .outsideWindow
  Act.focus (fun _ => r.memory)
    (fun s m =>
      let r := { r with memory := m }
      { s with reservations := s.reservations.setIfInBounds handle r })
    (a.onMemory 0)

def accessAt (handle : Nat) (r : Reservation) (asked : Asked Access) (start : Nat) :
    Act Space Reply := do
  match Space.rangeOf r start with
  | none => return .guarded .outsideWindow
  | some range => answer (accessRange handle r range) asked

def access (handle : Nat) (start : Asked Nat) (asked : Asked Access) : Act Space Reply := do
  match (← Act.get).reservation? handle with
  | none => return .guarded .noSuchHandle
  | some r => answer (accessAt handle r asked) start

def makeBacking (size : Nat) : Act Space Reply :=
  granted (Host.makeBacking .arena size) do
    let s ← Act.get
    Act.set { s with backings := s.backings.push { size } }
    return .backing s.backings.size size

def map (handle start size : Nat) : Act Space Reply := do
  let s ← Act.get
  match s.backings[handle]? with
  | none => return .guarded .noSuchHandle
  | some b =>
      Act.ensure (start + size ≤ b.size) (.viewOutsideBacking start size b.size)
      granted (Host.showView .arena start size) do
        Act.set { s with views := s.views.push { backing := handle, start, size } }
        return .number s.views.size

def unmap (handle : Nat) : Act Space Reply := do
  let s ← Act.get
  match s.view? handle with
  | none => return .guarded .noSuchHandle
  | some (v, _) =>
      let v := { v with unmapped := true }
      silent (Act.set { s with views := s.views.setIfInBounds handle v })

def accessShown (v : SharedView) (b : SharedBacking) (a : Access) : Act Space Reply := do
  if ¬ a.Inside 0 v.size then return .guarded .outsideWindow
  Act.focus (fun _ => b.memory)
    (fun s m =>
      let b := { b with memory := m }
      { s with backings := s.backings.setIfInBounds v.backing b })
    (a.onMemory v.start)

def accessView (handle : Nat) (asked : Asked Access) : Act Space Reply := do
  match (← Act.get).view? handle with
  | none => return .guarded .noSuchHandle
  | some (v, b) => answer (accessShown v b) asked

def act : Step → Act (Running Space) Reply
  | .reserve size => onObject (reserve size)
  | .commit handle start size => onObject (commit handle start size)
  | .release handle => onObject (release handle)
  | .access handle start a => onObject (access handle start a)
  | .backing size => onObject (makeBacking size)
  | .map handle start size => onObject (map handle start size)
  | .unmap handle => onObject (unmap handle)
  | .accessView handle a => onObject (accessView handle a)

def run (steps : List (Asked Step)) : List (Turn Unit) :=
  (play act (fun _ _ _ => some ()) (.start {}) steps).turns

end SlotArena.Session.OfHost

namespace SlotArena.Session

/-- Where nothing else is said, sessions are run on the plain host. -/
scoped instance : Host := .plain

end SlotArena.Session
