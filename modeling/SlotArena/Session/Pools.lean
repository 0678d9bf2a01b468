import SlotArena.Allotment
import SlotArena.Session.Access
import SlotArena.Stream

/-!
Sessions on one or more pools with their streams and allotments.  Slots, streams and allotments get
handles in the order in which they are answered.  At the end the streams that are left are given up,
then the allotments, then the pools.
-/

namespace SlotArena.Session.OfPools

variable [Host]

/-! ### What a session holds -/

structure Yard where
  pools : Array Pool
  /-- Every slot that was answered, by its handle, with the pool it came from. -/
  slots : Std.TreeMap Nat (Nat × Slot) := ∅
  /-- Every stream that was made, with its pool, while it exists. -/
  streams : Array (Nat × Option Stream) := #[]
  /-- Every allotment that was made, with its pool, while it exists. -/
  allotments : Array (Nat × Option Allotment) := #[]

inductive SlotRef
  | handle (h : Nat)
  | spelled (offset : Int) (size idx : Nat)
  deriving DecidableEq, Repr

inductive PoolStep
  | alloc (size align : Nat)
  | allocTimes (size align n : Nat)
  | allocBack
  | allocBackTimes (n : Nat)
  | free (slot : SlotRef)
  /-- Frees the handles `first`, `first + stride`, … below `stop`. -/
  | freeRange (first stop stride : Nat)
  | returnChunk (offset : Int) (size : Nat)
  | returnBlocks (offset : Int) (count size : Nat)
  | blockAlloc (size : Nat)
  | blockAllocBack (size : Nat)
  | addRecords (count : Nat)
  | getRecord (idx : Nat)
  | setRecord (idx : Nat) (offset : Int) (size : Nat)
  | addressOf (h : Nat)
  | addressAt (offset : Int)
  | isNull (h : Nat)
  | fillSlot (h : Nat) (byte : Asked UInt8)
  | readSlot (h : Nat)
  | access (a : Access)
  | readGauges
  | newStream (blockSize : Nat)
  | newAllotment (count size : Nat)
  deriving Repr

inductive StreamStep
  | alloc (size align : Nat)
  | allocTimes (size align n : Nat)
  | finish
  deriving DecidableEq, Repr

inductive AllotmentStep
  | alloc
  | allocTimes (n : Nat)
  | free (slot : SlotRef)
  | release
  deriving DecidableEq, Repr

/-- A step.  It names a pool, which has to exist; a stream or an allotment is found by its own
number and lives in the pool that it was made in.  What is asked of any of them is looked at once it
is found. -/
inductive Step
  | onPool (pool : Nat) (step : Asked PoolStep)
  | onStream (pool stream : Nat) (step : Asked StreamStep)
  | onAllotment (pool allotment : Nat) (step : Asked AllotmentStep)
  deriving Repr

def Step.pool : Step → Nat
  | .onPool i _ | .onStream i _ _ | .onAllotment i _ _ => i

namespace Yard

def stream? (y : Yard) (k : Nat) : Option (Nat × Stream) :=
  y.streams[k]?.bind fun s => s.2.map fun t => (s.1, t)

def allotment? (y : Yard) (k : Nat) : Option (Nat × Allotment) :=
  y.allotments[k]?.bind fun s => s.2.map fun t => (s.1, t)

def withPool (y : Yard) (i : Nat) (p : Pool) : Yard :=
  { y with pools := y.pools.setIfInBounds i p }

def withStream (y : Yard) (k i : Nat) (s : Option Stream) : Yard :=
  { y with streams := y.streams.setIfInBounds k (i, s) }

def withAllotment (y : Yard) (k i : Nat) (a : Option Allotment) : Yard :=
  { y with allotments := y.allotments.setIfInBounds k (i, a) }

/-- The slot that an argument means.  A slot that is spelled out has no pointer. -/
def slot? (y : Yard) : SlotRef → Option Slot
  | .handle h => y.slots[h]?.map Prod.snd
  | .spelled offset size idx => some ⟨offset, size, none, idx⟩

end Yard

variable {α : Type}

def onPool (i : Nat) (x : Act Pool α) (reply : α → Act Yard Reply) : Act Yard Reply := do
  match (← Act.get).pools[i]? with
  | none => return .guarded .noSuchPool
  | some p => reply (← Act.focus (fun _ => p) (fun y q => y.withPool i q) x)

def onStream (k : Nat) (x : Act (Stream × Pool) α) (reply : Nat → α → Act Yard Reply) :
    Act Yard Reply := do
  let y ← Act.get
  match y.stream? k with
  | none => return .guarded .noSuchStream
  | some (i, s) =>
      match y.pools[i]? with
      | none => return .guarded .noSuchPool
      | some p =>
          reply i (← Act.focus (fun _ => (s, p))
            (fun y q => (y.withStream k i (some q.1)).withPool i q.2) x)

def onAllotment (k : Nat) (x : Act (Allotment × Pool) α) (reply : Nat → α → Act Yard Reply) :
    Act Yard Reply := do
  let y ← Act.get
  match y.allotment? k with
  | none => return .guarded .noSuchAllotment
  | some (i, a) =>
      match y.pools[i]? with
      | none => return .guarded .noSuchPool
      | some p =>
          reply i (← Act.focus (fun _ => (a, p))
            (fun y q => (y.withAllotment k i (some q.1)).withPool i q.2) x)

def nothing (_ : Unit) : Act Yard Reply := pure .done

/-- Gives a slot of pool `i` the next handle and answers it. -/
def keep (i : Nat) (slot : Slot) : Act Yard Reply := do
  Act.modify fun y => { y with slots := y.slots.insert y.slots.size (i, slot) }
  match (← Act.get).pools[i]? with
  | none => return .guarded .noSuchPool
  | some p => return .slot slot (.of p.arena.window slot)

/-! ### Steps -/

def free (i : Nat) (ref : SlotRef) : Act Yard Reply := do
  match (← Act.get).slot? ref with
  | none => return .guarded .noSuchSlot
  | some slot => onPool i (Pool.free slot) nothing

/-- Frees the handles `first`, `first + stride`, … below `stop`, until one of them cannot be freed.
Without a stride they follow one another. -/
def freeRange (i first stop stride : Nat) : Act Yard Reply := do
  let stride := max stride 1
  let count := (stop - first + (stride - 1)) / stride
  return .many (← along (fun h => free i (.handle h)) stride count first)

def onSlot (h : Nat) (a : Slot → Access) : Act Yard Reply := do
  let y ← Act.get
  match y.slots[h]? with
  | none => return .guarded .noSuchSlot
  | some (i, slot) =>
      let reach : Act Window Reply := do
        let w ← Act.get
        if ¬ (a slot).Inside w.lo w.hi then return .guarded .outsideWindow
        (a slot).through ((slot.place.map Place.view).getD w.newestView)
      onPool i (Pool.onWindow reach) pure

def newStream (i blockSize : Nat) : Act Yard Reply :=
  onPool i (Stream.create blockSize) fun s => do
    let y ← Act.get
    Act.set { y with streams := y.streams.push (i, some s) }
    return .number y.streams.size

def newAllotment (i count size : Nat) : Act Yard Reply :=
  onPool i (Allotment.create count size) fun a => do
    let y ← Act.get
    Act.set { y with allotments := y.allotments.push (i, some a) }
    return .allotment y.allotments.size a.count a.size

def alloc (i size align : Nat) : Act Yard Reply := onPool i (Pool.alloc size align) (keep i)

def allocBack (i : Nat) : Act Yard Reply := onPool i Pool.allocBack (keep i)

def onHandle (i h : Nat) (reply : Pool → Slot → Reply) : Act Yard Reply := do
  match (← Act.get).slots[h]? with
  | none => return .guarded .noSuchSlot
  | some (_, slot) => onPool i Act.get fun p => return reply p slot

def actOnPool (i : Nat) : PoolStep → Act Yard Reply
  | .alloc size align => alloc i size align
  | .allocTimes size align n => times n (alloc i size align)
  | .allocBack => allocBack i
  | .allocBackTimes n => times n (allocBack i)
  | .free ref => free i ref
  | .freeRange first stop stride => freeRange i first stop stride
  | .returnChunk offset size => onPool i (Pool.returnChunk offset size) nothing
  | .returnBlocks offset count size => onPool i (Pool.returnBlocks offset count size) nothing
  | .blockAlloc size => onPool i (Pool.onArena (Arena.alloc size)) fun o => pure (.number o)
  | .blockAllocBack size => onPool i (Pool.onArena (Arena.allocBack size)) fun o => pure (.number o)
  | .addRecords count => onPool i (Pool.onRoster (Roster.add count)) fun n => pure (.number n)
  | .getRecord idx => onPool i (Pool.onRoster (Roster.get idx)) fun r => pure (.record r)
  | .setRecord idx offset size => onPool i (Pool.onRoster (Roster.assign idx offset size)) nothing
  | .addressOf h => onHandle i h fun p slot => .number (p.address slot.offset)
  | .addressAt offset => onPool i Act.get fun p => pure (.number (p.address offset))
  | .isNull h => onHandle i h fun _ slot => .flag slot.IsNull
  | .fillSlot h byte => onSlot h fun slot => .fill slot.offset slot.size byte
  | .readSlot h => onSlot h fun slot => .read slot.offset slot.size
  | .access a => onPool i (Pool.onWindow a.now) pure
  | .readGauges => pure .done
  | .newStream blockSize => newStream i blockSize
  | .newAllotment count size => newAllotment i count size

def streamAlloc (k size align : Nat) : Act Yard Reply := onStream k (Stream.alloc size align) keep

/-- Ends a stream: it is gone, whatever becomes of its blocks. -/
def finish (k : Nat) : Act Yard Reply := do
  match (← Act.get).stream? k with
  | none => return .guarded .noSuchStream
  | some (i, s) =>
      Act.modify (·.withStream k i none)
      onPool i s.release nothing

def actOnStream (k : Nat) : StreamStep → Act Yard Reply
  | .alloc size align => streamAlloc k size align
  | .allocTimes size align n => times n (streamAlloc k size align)
  | .finish => finish k

def allotmentAlloc (k : Nat) : Act Yard Reply :=
  onAllotment k Allotment.alloc fun i slot? =>
    match slot? with
    | none => pure .done
    | some slot => keep i slot

/-- Ends an allotment: it is gone, whatever becomes of its slots. -/
def release (k : Nat) : Act Yard Reply := do
  match (← Act.get).allotment? k with
  | none => return .guarded .noSuchAllotment
  | some (i, a) =>
      Act.modify (·.withAllotment k i none)
      onPool i (fun p =>
        let o := Allotment.release.run (a, p)
        ⟨o.result, o.state.2, o.events⟩) nothing

def actOnAllotment (k : Nat) : AllotmentStep → Act Yard Reply
  | .alloc => allotmentAlloc k
  | .allocTimes n => times n (allotmentAlloc k)
  | .free ref => do
      match (← Act.get).slot? ref with
      | none => return .guarded .noSuchSlot
      | some slot => onAllotment k (Allotment.free slot) fun _ => nothing
  | .release => release k

def act (step : Step) : Act (Running Yard) Reply := do
  let y := (← Act.get).object
  if y.pools[step.pool]?.isNone then return .guarded .noSuchPool
  match step with
  | .onPool _ (.ok .readGauges) => readings
  | .onPool i step => onObject (answer (actOnPool i) step)
  | .onStream _ k step =>
      if (y.stream? k).isNone then return .guarded .noSuchStream
      onObject (answer (actOnStream k) step)
  | .onAllotment _ k step =>
      if (y.allotment? k).isNone then return .guarded .noSuchAllotment
      onObject (answer (actOnAllotment k) step)

/-! ### Whole sessions -/

structure Reading where
  pool : PoolReading
  /-- Blocks held and bytes handed out. -/
  stream : Option (Nat × Nat)
  deriving DecidableEq, Repr

/-- The pool that a step is about: that of its stream or allotment, while there is one. -/
def Yard.poolOf (y : Yard) : Step → Nat
  | .onPool i _ => i
  | .onStream i k _ => ((y.stream? k).map Prod.fst).getD i
  | .onAllotment i k _ => ((y.allotment? k).map Prod.fst).getD i

def Yard.streamFigures (y : Yard) : Step → Option (Nat × Nat)
  | .onStream _ k (.ok (.alloc ..)) | .onStream _ k (.ok (.allocTimes ..)) =>
      (y.stream? k).map fun s => (s.2.blocks, s.2.total)
  | _ => none

/-- What is seen after a step, of the pool that it was about before; nothing where the step names no
pool that exists. -/
def observe (asked : Asked Step) (before : Yard) (s : Running Yard) : Option Reading := do
  let step ← asked.toOption
  let _ ← before.pools[step.pool]?
  return ⟨.of (← s.object.pools[before.poolOf step]?), s.object.streamFigures step⟩

structure Ending where
  /-- The answers of the streams and allotments that were given up. -/
  drops : List Reply
  pools : List PoolReading
  /-- The readings after the pools were given up. -/
  gauges : Gauges
  lines : List String

structure Transcript where
  /-- Every pool as it was made, with its log lines. -/
  start : List (Pool × List String)
  turns : List (Turn Reading)
  /-- Missing behind a broken cursor. -/
  ending : Option Ending

/-- Makes the pools in order.  If one cannot be made, those before it are given up, and its own log
lines are all that is left to read.  What is asked of a pool is looked at when those before it are
made; where it cannot be read there is no session at all. -/
def makePools : List (Asked PoolConfig) → List (Pool × List Event) →
    Asked (Except Abandoned (List (Pool × List Event)))
  | [], made => .ok (.ok made.reverse)
  | .error why :: _, _ => .error why
  | .ok config :: rest, made =>
      let o := (Pool.create config).run ()
      match o.result with
      | .ok pool => makePools rest ((pool, o.events) :: made)
      | .error fault =>
          let events := (made.reverse.flatMap Prod.snd) ++ o.events ++
            made.reverse.flatMap fun p => p.1.closing
          .ok (.error ⟨fault, Gauges.absorb {} events, Event.lines o.events⟩)

def close (s : Running Yard) : Ending :=
  let y := s.object
  let streams := (List.range y.streams.size).filter fun k => (y.stream? k).isSome
  let allotments := (List.range y.allotments.size).filter fun k => (y.allotment? k).isSome
  let endings := streams.map finish ++ allotments.map release
  let (drops, lines, s) := endings.foldl
    (fun (drops, lines, s) x =>
      let (reply, s, more) := perform (onObject x) s
      (drops ++ [reply], lines ++ more, s))
    ([], [], s)
  let closing := s.object.pools.toList.flatMap Pool.closing
  { drops
    pools := s.object.pools.toList.map PoolReading.of
    gauges := s.gauges.absorb closing
    lines := lines ++ Event.lines closing }

def run (configs : List (Asked PoolConfig)) (steps : List (Asked Step)) (logging : Bool) :
    Asked (Except Abandoned Transcript) := do
  match ← makePools configs [] with
  | .error abandoned => return .error abandoned
  | .ok made =>
      let gauges := Gauges.absorb {} (made.flatMap Prod.snd)
      let yard : Yard := { pools := (made.map Prod.fst).toArray }
      let p := play act observe ⟨yard, gauges, logging⟩ steps
      return .ok {
        start := made.map fun m => (m.1, Event.lines m.2)
        turns := p.turns
        ending := if p.stopped then none else some (close p.last) }

end SlotArena.Session.OfPools
