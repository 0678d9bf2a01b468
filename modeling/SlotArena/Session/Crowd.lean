import SlotArena.Allotment
import SlotArena.PageChain
import SlotArena.Session.Reply

/-!
Crowds: several threads that each do the same number of actions on one object.  What is asked of a
crowd holds for every order of the actions, so it is found by letting one thread after the other
have its turn.
-/

namespace SlotArena.Session

structure Summary where
  count : Nat
  distinct : Nat
  min? : Option Int
  max? : Option Int
  /-- Neighbours in ascending order differ by the step exactly. -/
  even : Bool
  deriving DecidableEq, Repr

namespace Summary

def spaced (step : Int) : List Int → Bool
  | a :: b :: rest => b - a == step && spaced step (b :: rest)
  | _ => true

def runCount : List Int → Nat
  | a :: b :: rest => (if a = b then 0 else 1) + runCount (b :: rest)
  | [_] => 1
  | [] => 0

def of (step : Int) (values : List Int) : Summary :=
  let sorted := values.mergeSort
  { count := values.length
    distinct := runCount sorted
    min? := sorted.head?
    max? := sorted.getLast?
    even := spaced step sorted }

end Summary

namespace OfCrowd

variable [Host]

inductive Task
  | arenaFront
  | arenaBack
  | arenaBoth
  | roster
  | pool
  | poolChurn
  | chain
  | pages
  deriving DecidableEq, Repr

structure Crowd where
  threads : Nat
  /-- How often every thread acts. -/
  actions : Nat
  size : Nat
  strategy : Strategy
  deriving DecidableEq, Repr

/-- Crowds that are let in: at least one thread, and not too many of them with too much to do. -/
def Crowd.Admitted (c : Crowd) : Prop := 0 < c.threads ∧ c.threads ≤ 16 ∧ c.actions ≤ 5000

instance : DecidablePred Crowd.Admitted := fun _ => inferInstanceAs (Decidable (_ ∧ _))

inductive Finding
  | front (blocks : Summary) (used : Nat)
  | back (blocks : Summary) (used : Nat)
  | both (front back : Summary) (frontUsed backUsed : Nat)
  | roster (runs : Summary) (length : Nat)
  | pool (offsets records : Summary) (live front : Nat)
  | churn (bad : Nat) (live leaked : Nat)
  | chain (records : Summary)
  | pages (count : Nat) (empty : Bool)
  deriving DecidableEq, Repr

def arenaConfig (strategy : Strategy) : ArenaConfig := ⟨4096, 64 * 1024 * 1024, strategy⟩

def poolConfig (strategy : Strategy) : PoolConfig := { arena := arenaConfig strategy }

/-- The answers of those of `n` actions that succeed; a thread passes over the others. -/
def collect {σ α : Type} (x : Act σ α) : Nat → Act σ (List α)
  | 0 => pure []
  | n + 1 => do
      match ← x.attempt with
      | .ok a => (a :: ·) <$> collect x n
      | .error _ => collect x n

/-- An operation on an object that is made for it and given up afterwards. -/
def trial {ω α : Type} (make : Act Unit ω) (closing : ω → List Event) (x : Act ω α) :
    Act Unit α := do
  let object ← make
  let o := x.run object
  Act.emit (o.events ++ closing o.state)
  Act.ofExcept o.result

/-- Takes a slot, at the back every other time, fills it, checks what it holds and returns it;
answers how many bytes were not as they were left. -/
def churn (size : Nat) (back : Bool) (byte : UInt8) : Act Pool Nat := do
  let slot ← if back then Pool.allocBack else Pool.alloc size 64
  let place := slot.place.getD default
  Pool.onWindow (Window.fill place slot.size byte)
  let runs := (← Act.get).arena.window.runs place slot.size
  Pool.free slot
  return (runs.filter (·.1 ≠ byte)).foldl (fun bad run => bad + run.2) 0

/-- The action number `k` of some thread, for `k` below the number of all actions. -/
def churnAll (size : Nat) : Nat → Act Pool Nat
  | 0 => pure 0
  | k + 1 => do
      match ← (churn size (k % 2 = 1) (UInt8.ofNat k)).attempt with
      | .ok bad => (bad + ·) <$> churnAll size k
      | .error _ => churnAll size k

def pushAll (n : Nat) : Act (Chain × LinkWords) Unit :=
  Act.sweep 0 n fun idx => do
    let chain ← Act.focus Prod.snd (fun s l => (s.1, l)) ((← Act.get).1.push idx 1)
    Act.modify fun s => (chain, s.2)

def popOne : Act (Chain × LinkWords) (Option Nat) := do
  let (top, chain) ← Act.focus Prod.snd (fun s l => (s.1, l)) (← Act.get).1.pop
  Act.modify fun s => (chain, s.2)
  return top

def turnOver : Act (Chain × LinkWords) Unit := do
  match ← popOne with
  | none => return
  | some idx =>
      let chain ← Act.focus Prod.snd (fun s l => (s.1, l)) ((← Act.get).1.push idx 1)
      Act.modify fun s => (chain, s.2)

def pushPage (address : Nat) : Act (PageChain × PageWords) Unit := do
  let chain ← Act.focus Prod.snd (fun s w => (s.1, w)) ((← Act.get).1.push address)
  Act.modify fun s => (chain, s.2)

def popPage : Act (PageChain × PageWords) (Option Nat) := do
  let (top, chain) ← Act.focus Prod.snd (fun s w => (s.1, w)) (← Act.get).1.pop
  Act.modify fun s => (chain, s.2)
  return top

def turnPage : Act (PageChain × PageWords) Unit := do
  match ← popPage with
  | none => return
  | some address => pushPage address

def find (c : Crowd) : Task → Act Unit Finding
  | .arenaFront =>
      trial (Arena.create (arenaConfig c.strategy)) Arena.closing do
        let offsets ← collect (Arena.alloc c.size) (c.threads * c.actions)
        return .front (.of c.size offsets) (← Act.get).frontUsed
  | .arenaBack =>
      trial (Arena.create (arenaConfig c.strategy)) Arena.closing do
        let offsets ← collect (Arena.allocBack c.size) (c.threads * c.actions)
        return .back (.of c.size offsets) (← Act.get).backUsed
  | .arenaBoth =>
      trial (Arena.create (arenaConfig c.strategy)) Arena.closing do
        let front ← collect (Arena.alloc c.size) ((c.threads + 1) / 2 * c.actions)
        let back ← collect (Arena.allocBack c.size) (c.threads / 2 * c.actions)
        let a ← Act.get
        return .both (.of c.size front) (.of c.size back) a.frontUsed a.backUsed
  | .roster =>
      trial (Roster.create 1 (2 ^ 20) c.strategy) Roster.closing do
        let firsts ← collect (Roster.add c.size) (c.threads * c.actions)
        return .roster (.of c.size (firsts.map Int.ofNat)) (← Act.get).length
  | .pool =>
      trial (Pool.create (poolConfig c.strategy)) Pool.closing do
        let slots ← collect (Pool.alloc c.size 64) (c.threads * c.actions)
        let rounded := ceilPow2 (max c.size 64)
        let p ← Act.get
        return .pool (.of rounded (slots.map Slot.offset))
          (.of 1 (slots.map fun s => Int.ofNat s.idx)) p.liveCount p.arena.frontUsed
  | .poolChurn =>
      trial (Pool.create (poolConfig c.strategy)) Pool.closing do
        let bad ← churnAll c.size (c.threads * c.actions)
        let p ← Act.get
        return .churn bad p.liveCount p.leaked
  | .chain =>
      -- There is a record also where nobody has anything to do.
      let n := max 1 (c.threads * c.actions)
      trial (pure (Chain.empty, ⟨n, ∅⟩)) (fun _ => []) do
        pushAll n
        Act.sweep 0 (c.threads * c.actions) fun _ => turnOver
        let records ← collect popOne n
        return .chain (.of 1 (records.filterMap (·.map Int.ofNat)))
  | .pages =>
      trial (pure (PageChain.empty, ⟨∅⟩)) (fun _ => []) do
        Act.sweep 1 c.threads fun page => pushPage (page * PageChain.alignment)
        Act.sweep 0 (c.threads * c.actions) fun _ => turnPage
        let pages ← collect popPage c.threads
        return .pages (pages.filterMap id).length ((← Act.get).1.IsEmpty)

/-- What is found, and the readings of the gauges once the object is gone.  The crowd is looked at
before its task. -/
def run (c : Crowd) (task : Asked Task) : Asked (Except Fault Finding × Gauges) := do
  if ¬ c.Admitted then throw "too many threads"
  let o := (find c (← task)).run ()
  return (o.result, Gauges.absorb {} o.events)

end OfCrowd

end SlotArena.Session
