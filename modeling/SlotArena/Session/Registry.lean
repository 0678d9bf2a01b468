import SlotArena.Registry
import SlotArena.Session.Reply

/-!
Sessions on the registry.  Handles of pools and slots count up from zero; at the end all handles are
dropped and then all devices closed.  What is asked of a pool is looked at once its handle is known
to be held.
-/

namespace SlotArena.Session.OfRegistry

variable [Host]

structure Desk where
  registry : Registry
  /-- The pool of every handle, while it is held. -/
  handles : Array (Option Nat) := #[]
  slots : Array Slot := #[]

inductive Step
  | openDevice (device : Nat) (config : PoolConfig)
  | close (device : Nat)
  | drop (h : Nat)
  /-- Asks for a slot of a size and an alignment. -/
  | alloc (h : Nat) (request : Asked (Nat × Nat))
  | allocBack (h : Nat)
  | free (h : Nat) (slot : Asked Nat)
  | read (h : Nat)
  deriving Repr

namespace Desk

def held? (d : Desk) (h : Nat) : Option Nat := d.handles[h]?.join

def holder? (d : Desk) (pool : Nat) : Option Nat := d.handles.findIdx? (· = some pool)

end Desk

def onRegistry {α : Type} : Act Registry α → Act Desk α :=
  Act.focus Desk.registry fun d r => { d with registry := r }

def onPool {α : Type} (h : Nat) (x : Act Pool α) (reply : Nat → α → Act Desk Reply) :
    Act Desk Reply := do
  match (← Act.get).held? h with
  | none => return .guarded .noSuchHandle
  | some id =>
      match ← onRegistry (Registry.onPool id x) with
      | none => return .guarded .noSuchHandle
      | some a => reply id a

def keep (id : Nat) (slot : Slot) : Act Desk Reply := do
  Act.modify fun d => { d with slots := d.slots.push slot }
  match (← Act.get).registry.pool? id with
  | none => return .guarded .noSuchHandle
  | some p => return .slot slot (.of p.arena.window slot)

def openDevice (device : Nat) (config : PoolConfig) : Act Desk Reply := do
  let id ← onRegistry (Registry.openDevice device config)
  let d ← Act.get
  Act.set { d with handles := d.handles.push (some id) }
  match d.registry.pool? id with
  | none => return .guarded .noSuchHandle
  | some p => return .device d.handles.size (d.holder? id) p.text p.liveCount

def drop (h : Nat) : Act Desk Reply := do
  let d ← Act.get
  match d.held? h with
  | none => return .guarded .noSuchHandle
  | some id =>
      Act.set { d with handles := d.handles.setIfInBounds h none }
      silent (onRegistry (Registry.letGo id))

def close (device : Nat) : Act Desk Reply := do
  return .flag (← onRegistry (Registry.closeDevice device))

def alloc (h : Nat) (request : Asked (Nat × Nat)) : Act Desk Reply := do
  if ((← Act.get).held? h).isNone then return .guarded .noSuchHandle
  answer (fun (size, align) => onPool h (Pool.alloc size align) keep) request

def freeNumber (h slot : Nat) : Act Desk Reply := do
  match (← Act.get).slots[slot]? with
  | none => return .guarded .noSuchSlot
  | some slot => onPool h (Pool.free slot) fun _ _ => pure .done

def free (h : Nat) (slot : Asked Nat) : Act Desk Reply := do
  if ((← Act.get).held? h).isNone then return .guarded .noSuchHandle
  answer (freeNumber h) slot

def act : Step → Act (Running Desk) Reply
  | .openDevice device config => onObject (openDevice device config)
  | .close device => onObject (close device)
  | .drop h => onObject (drop h)
  | .alloc h request => onObject (alloc h request)
  | .allocBack h => onObject (onPool h Pool.allocBack keep)
  | .free h slot => onObject (free h slot)
  | .read h => onObject (onPool h Act.get fun _ p => return .pool (.of p))

structure Reading where
  devices : List Nat
  gauges : Gauges
  deriving DecidableEq, Repr

def observe (s : Running Desk) : Reading := ⟨s.object.registry.openDevices, s.gauges⟩

structure Transcript where
  turns : List (Turn Reading)
  /-- Missing behind a broken cursor. -/
  ending : Option (Reading × List String)

/-- Drops every handle and then closes every device as often as it is open. -/
def endings (d : Desk) : List (Act Desk Reply) :=
  (List.range d.handles.size).map drop ++
    d.registry.devices.toList.flatMap fun e => List.replicate e.2.refs (close e.1)

def run (steps : List (Asked Step)) : Transcript :=
  let p := play act (fun _ _ s => some (observe s)) (.start { registry := .empty }) steps
  let (last, lines) := (endings p.last.object).foldl
    (fun (s, lines) x =>
      let (_, s, more) := perform (onObject x) s
      (s, lines ++ more))
    (p.last, [])
  ⟨p.turns, if p.stopped then none else some (observe last, lines)⟩

end SlotArena.Session.OfRegistry
