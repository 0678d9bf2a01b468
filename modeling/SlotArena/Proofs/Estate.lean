import SlotArena.Proofs.Allotment
import SlotArena.Proofs.Stream

/-!
A pool and all who use it. An `Estate` is a pool with everything that came out of it: the slots that
its client holds, the bytes that were taken from its arena directly, the streams and the allotments.
Its steps are the operations of the program, one at a time and in any order; `Admits` is what they
ask of the client, and nothing is asked of the answers: a step may fail, and the estate goes on from
what the failure left. The one failure that a pool does not survive is an arena cursor that is
driven out of its word by a direct claim (`Survives`); a run ends there.
-/

namespace SlotArena

open Act Finset Ledger

/-- A stream and the slots that it handed out. -/
structure Lane where
  stream : Stream
  issued : List Slot

def Lane.issue (lane : Lane) (slot : Slot) : Lane :=
  if slot.IsNull then lane else { lane with issued := slot :: lane.issued }

structure Estate where
  pool : Pool
  /-- Bytes taken from the arena, and not given back. -/
  taken : Finset Int
  /-- The slots that the client holds. -/
  held : List Slot
  lanes : Nat → Option Lane
  allotments : Nat → Option Allotment

inductive Step
  | alloc (size align : Nat)
  | allocBack
  | free (slot : Slot)
  /-- Takes bytes from the arena of the pool. -/
  | take (n : Nat)
  /-- Gives bytes that were taken to the pool. -/
  | giveBack (offset : Int) (n : Nat)
  | openStream (k blockSize : Nat)
  | streamAlloc (k size align : Nat)
  | finish (k : Nat)
  | reserve (k count size : Nat)
  /-- Takes a slot of an allotment. -/
  | draw (k : Nat)
  | putBack (k : Nat) (slot : Slot)
  | release (k : Nat)
  /-- Writes into a slot, through any place that leads there. -/
  | write (slot : Slot) (place : Place) (bytes : Array UInt8)

/-- A step, and the host that is asked while it is taken. -/
structure Round where
  host : Host
  step : Step

def plainly (steps : List Step) : List Round := steps.map (Round.mk .plain)

namespace Estate

/-! ### Steps -/

def onPool {α : Type} : Act Pool α → Act Estate α :=
  Act.focus Estate.pool fun e p => { e with pool := p }

def keep (e : Estate) (slot : Slot) : Estate :=
  if slot.IsNull then e else { e with held := slot :: e.held }

def drop (e : Estate) (slot : Slot) : Estate := { e with held := e.held.erase slot }

def withLane (e : Estate) (k : Nat) (lane : Option Lane) : Estate :=
  { e with lanes := Function.update e.lanes k lane }

def withAllotment (e : Estate) (k : Nat) (a : Option Allotment) : Estate :=
  { e with allotments := Function.update e.allotments k a }

def onLane {α : Type} (k : Nat) (lane : Lane) : Act (Stream × Pool) α → Act Estate α :=
  Act.focus (fun e => (lane.stream, e.pool)) fun e t =>
    { e with pool := t.2 }.withLane k (some { lane with stream := t.1 })

def onAllotment {α : Type} (k : Nat) (a : Allotment) : Act (Allotment × Pool) α → Act Estate α :=
  Act.focus (fun e => (a, e.pool)) fun e t => { e with pool := t.2 }.withAllotment k (some t.1)

/-- A step, with the slot that it answers. -/
def perform [Host] : Step → Act Estate (Option Slot)
  | .alloc size align => do
      let slot ← onPool (Pool.alloc size align)
      Act.modify (keep · slot)
      return some slot
  | .allocBack => do
      let slot ← onPool Pool.allocBack
      Act.modify (keep · slot)
      return some slot
  | .free slot => do
      onPool (Pool.free slot)
      Act.modify (drop · slot)
      return none
  | .take n => do
      let offset ← onPool (Pool.onArena (Arena.alloc n))
      Act.modify fun e => { e with taken := e.taken ∪ span offset n }
      return none
  | .giveBack offset n => do
      Act.modify fun e => { e with taken := e.taken \ span offset n }
      onPool (Pool.returnChunk offset n)
      return none
  | .openStream k blockSize => do
      let s ← Stream.create blockSize
      Act.modify (withLane · k (some ⟨s, []⟩))
      return none
  | .streamAlloc k size align => do
      match (← Act.get).lanes k with
      | none => return none
      | some lane =>
          let slot ← onLane k lane (Stream.alloc size align)
          Act.modify fun e => e.withLane k ((e.lanes k).map (Lane.issue · slot))
          return some slot
  | .finish k => do
      match (← Act.get).lanes k with
      | none => return none
      | some lane =>
          Act.modify (withLane · k none)
          onPool (Stream.release lane.stream)
          return none
  | .reserve k count size => do
      let a ← onPool (Allotment.create count size)
      Act.modify (withAllotment · k (some a))
      return none
  | .draw k => do
      match (← Act.get).allotments k with
      | none => return none
      | some a =>
          let answer ← onAllotment k a Allotment.alloc
          Act.modify fun e => answer.elim e (keep e)
          return answer
  | .putBack k slot => do
      match (← Act.get).allotments k with
      | none => return none
      | some a =>
          onAllotment k a (Allotment.free slot)
          Act.modify (drop · slot)
          return none
  | .release k => do
      match (← Act.get).allotments k with
      | none => return none
      | some a =>
          onAllotment k a Allotment.release
          Act.modify (withAllotment · k none)
          return none
  | .write _ place bytes => do
      onPool (Pool.onWindow (Window.copy place bytes))
      return none

/-- The slot may be used: the client holds it, or a stream handed it out that goes on. -/
def Has (e : Estate) (slot : Slot) : Prop :=
  slot ∈ e.held ∨ ∃ k lane, e.lanes k = some lane ∧ slot ∈ lane.issued

def Admits (e : Estate) : Step → Prop
  | .free slot => slot.IsNull ∨ slot ∈ e.held
  | .take n => e.pool.blockSize ∣ n
  | .giveBack offset n => span offset n ⊆ e.taken ∧ (e.pool.blockSize : Int) ∣ offset + n
  | .openStream k _ => e.lanes k = none
  | .reserve k _ _ => e.allotments k = none
  | .putBack _ slot => slot ∈ e.held
  | .write slot place bytes => e.Has slot ∧ e.pool.arena.window.Shows place bytes.size ∧
      slot.offset ≤ place.offset ∧ place.offset + bytes.size ≤ slot.stop
  | _ => True

def next [Host] (e : Estate) (step : Step) : Estate := ((perform step).run e).state

/-- No cursor is driven out of its word. Only who takes bytes directly can ask for as much. -/
def Survives [Host] (e : Estate) : Step → Prop
  | .take n => ((perform (.take n)).run e).result ≠ .error (.violated .cursorOverflow)
  | _ => True

def new (p : Pool) : Estate := ⟨p, ∅, [], fun _ => none, fun _ => none⟩

/-- `Run e rounds e'`: the steps lead from `e` to `e'`, and each of them is admitted where it is
taken. The host may answer each step as it likes. -/
inductive Run : Estate → List Round → Estate → Prop
  | nil (e : Estate) : Run e [] e
  | cons [host : Host] {e e' : Estate} {step : Step} {rounds : List Round} (admits : e.Admits step)
      (survives : e.Survives step) (rest : Run (e.next step) rounds e') :
      Run e (⟨host, step⟩ :: rounds) e'

/-- The estates that a pool of this configuration can come to. -/
def Reachable (config : PoolConfig) (e : Estate) : Prop :=
  ∃ (_ : Host) (p : Pool) (rounds : List Round),
    ((Pool.create config).run ()).result = .ok p ∧ Run (new p) rounds e

end Estate

end SlotArena
