import SlotArena.Memory
import SlotArena.Pool

/-!
Answers of a session.  A session is a run of steps on some objects; each step is answered with a
value, with the fault that ended it, or with the guard that kept it from starting.
-/

namespace SlotArena.Session

/-- Why a step was not tried: it would reach outside of what the session holds. -/
inductive Guard
  | wouldPark
  | outsideReservation
  | outsideWindow
  | outsidePage
  | noSuchHandle
  | noSuchRecord
  | noSuchPage
  | noSuchView
  | noSuchPool
  | noSuchSlot
  | noSuchStream
  | noSuchAllotment
  deriving DecidableEq, Repr

def Guard.message : Guard → String
  | .wouldPark => "would park"
  | .outsideReservation => "outside the reservation"
  | .outsideWindow => "outside the accessible window"
  | .outsidePage => "outside the page"
  | .noSuchHandle => "no such handle"
  | .noSuchRecord => "no such record"
  | .noSuchPage => "no such page"
  | .noSuchView => "no such view"
  | .noSuchPool => "no such pool"
  | .noSuchSlot => "no such state"
  | .noSuchStream => "no such stream"
  | .noSuchAllotment => "no such reservation"

inductive Standing
  | null
  | current
  | stale
  deriving DecidableEq, Repr

def Standing.label : Standing → String
  | .null => "null"
  | .current => "current"
  | .stale => "stale"

def Standing.of (w : Window) (slot : Slot) : Standing :=
  match slot.place with
  | none => .null
  | some p => if p = w.place slot.offset then .current else .stale

structure PoolReading where
  live : Nat
  leaked : Nat
  records : Nat
  mapped : Nat
  front : Nat
  back : Nat
  size : Nat
  center : Nat
  retired : Nat
  deriving DecidableEq, Repr

def PoolReading.of (p : Pool) : PoolReading where
  live := p.liveCount
  leaked := p.leaked
  records := p.roster.length
  mapped := p.roster.mapped
  front := p.arena.frontUsed
  back := p.arena.backUsed
  size := p.arena.size
  center := p.arena.center
  retired := p.arena.window.backing.retired

inductive Reply
  | done
  | woke
  | number (n : Int)
  | flag (b : Bool)
  | cursor (c : Cursor)
  | verdict (v : Cursor.Verdict)
  | runs (runs : List Run)
  | record (r : Record)
  | slot (slot : Slot) (standing : Standing)
  | gauges (g : Gauges)
  | backing (handle size : Nat)
  | allotment (handle count size : Nat)
  | device (handle : Nat) (sameAs : Option Nat) (pool : String) (live : Nat)
  | pool (reading : PoolReading)
  | many (replies : List Reply)
  | unavailable (why : HostError)
  | fault (e : Fault)
  | guarded (g : Guard)
  /-- The step could not be read. -/
  | unread (why : String)

namespace Reply

def ofOption : Option Nat → Reply
  | some n => .number n
  | none => .done

def isFailure : Reply → Bool
  | .unavailable _ | .fault _ | .guarded _ | .unread _ => true
  | _ => false

/-- The step itself, or one of its repetitions, broke a cursor. -/
def brokeCursor : Reply → Bool
  | .fault (.violated .cursorOverflow) => true
  | .many replies => replies.any fun
      | .fault (.violated .cursorOverflow) => true
      | _ => false
  | _ => false

end Reply

/-! ### What is asked -/

/-- A step, or a part of one, as it was read, or why it could not be.  A part is an `Asked` of its
own where the step is looked at before that part is needed. -/
abbrev Asked (τ : Type) : Type := Except String τ

/-- Goes on with what was read; nothing is done where it could not be. -/
def answer {σ τ : Type} (act : τ → Act σ Reply) : Asked τ → Act σ Reply
  | .ok read => act read
  | .error why => pure (.unread why)

/-! ### Running steps -/

structure Running (σ : Type) where
  object : σ
  gauges : Gauges := {}
  /-- Somebody reads the log. -/
  logging : Bool := false

def Running.start {σ : Type} (object : σ) : Running σ := { object }

/-- What is seen of a step: its answer, the state after it, and its log lines.  There is no state
to see behind a broken cursor. -/
structure Turn (κ : Type) where
  reply : Reply
  reading : Option κ
  lines : List String

variable {σ τ κ : Type}

/-- A fault becomes the answer. -/
def settle (x : Act σ Reply) : Act σ Reply := do
  match ← x.attempt with
  | .ok r => return r
  | .error e => return .fault e

/-- An operation whose answer is not worth a value. -/
def silent (x : Act σ Unit) : Act σ Reply := do
  x
  return .done

/-- Does `x i`, `x (i + stride)`, … , `n` of them, or until one fails; the failure is the last
answer. -/
def along (x : Nat → Act σ Reply) (stride : Nat) : (n : Nat) → (i : Nat) → Act σ (List Reply)
  | 0, _ => pure []
  | n + 1, i => do
      let r ← settle (x i)
      if r.isFailure then return [r] else (r :: ·) <$> along x stride n (i + stride)

/-- The answers of up to `n` repetitions as one; the first failure ends them. -/
def times (n : Nat) (x : Act σ Reply) : Act σ Reply := do
  return .many (← along (fun _ => x) 1 n 0)

def onObject {α : Type} : Act σ α → Act (Running σ) α :=
  Act.focus Running.object fun s t => { s with object := t }

def readings : Act (Running σ) Reply := do
  return .gauges (← Act.get).gauges

/-- Does a step and brings the gauges up to date.  A step that leaves a note which cannot be worded
fails where the log is read. -/
def perform (x : Act (Running σ) Reply) (s : Running σ) : Reply × Running σ × List String :=
  let o := (settle x).run s
  let flaw := if s.logging then Event.firstFlaw? o.events else none
  let reply := match flaw, o.result with
    | some what, _ => .fault (.violated what)
    | none, .ok r => r
    | none, .error e => .fault e
  (reply, { o.state with gauges := o.state.gauges.absorb o.events }, Event.lines o.events)

def Reply.ofResult : Except Fault Reply → Reply
  | .ok r => r
  | .error e => .fault e

/-- Where nobody reads the log, the answer is what the step comes to. -/
theorem perform_eq (x : Act (Running σ) Reply) {s : Running σ} (h : s.logging = false) :
    perform x s =
      (.ofResult (x.run s).result,
        { (x.run s).state with gauges := (x.run s).state.gauges.absorb (x.run s).events },
        Event.lines (x.run s).events) := by
  have hsettle : (settle x).run s =
      ⟨.ok (.ofResult (x.run s).result), (x.run s).state, (x.run s).events⟩ := by
    rw [settle, Act.run_bind, Act.run_attempt]
    cases (x.run s).result with
    | ok r => simp [Reply.ofResult]
    | error e => simp [Reply.ofResult]
  simp only [perform, hsettle, h]
  rfl

structure Played (σ κ : Type) where
  turns : List (Turn κ)
  last : Running σ
  /-- The run ended early, behind a broken cursor. -/
  stopped : Bool

/-- Does steps in order and shows every one of them; `observe` sees the object before a step and all
there is after it. -/
def play (act : τ → Act (Running σ) Reply) (observe : Asked τ → σ → Running σ → Option κ) :
    Running σ → List (Asked τ) → Played σ κ
  | s, [] => ⟨[], s, false⟩
  | s, step :: rest =>
      let (reply, t, lines) := perform (answer act step) s
      if reply.brokeCursor then ⟨[⟨reply, none, lines⟩], t, true⟩
      else
        let p := play act observe t rest
        { p with turns := ⟨reply, observe step s.object t, lines⟩ :: p.turns }

/-- What each of the steps keeps and shows, all of them show. -/
theorem play_shows {act : τ → Act (Running σ) Reply} {observe : Asked τ → σ → Running σ → Option κ}
    (Keeps : Running σ → Prop) {Shows : Turn κ → Prop} {steps : List (Asked τ)}
    (hstep : ∀ step ∈ steps, ∀ s, Keeps s →
      let (reply, t, lines) := perform (answer act step) s
      Keeps t ∧ Shows ⟨reply, none, lines⟩ ∧ Shows ⟨reply, observe step s.object t, lines⟩)
    {s : Running σ} (hs : Keeps s) : ∀ turn ∈ (play act observe s steps).turns, Shows turn := by
  induction steps generalizing s with
  | nil => exact fun turn hturn => absurd hturn List.not_mem_nil
  | cons step rest ih =>
    obtain ⟨ht, hlast, hshown⟩ := hstep step List.mem_cons_self s hs
    rw [play]
    dsimp only
    split
    · exact fun turn hturn => List.mem_singleton.mp hturn ▸ hlast
    · intro turn hturn
      rcases List.mem_cons.mp hturn with rfl | hturn
      · exact hshown
      · exact ih (fun step hmem => hstep step (List.mem_cons_of_mem _ hmem)) ht turn hturn

/-! ### Whole sessions -/

structure Transcript (σ κ : Type) where
  start : σ
  startLines : List String
  turns : List (Turn κ)
  /-- The readings after the object was given up. -/
  gauges : Gauges
  lines : List String

structure Abandoned where
  fault : Fault
  gauges : Gauges
  lines : List String

/-- A session on an object that `make` makes, from its making to its end. -/
def transcribe (make : Act Unit σ) (act : τ → Act (Running σ) Reply)
    (observe : Asked τ → σ → Running σ → Option κ) (closing : σ → List Event)
    (steps : List (Asked τ)) : Except Abandoned (Transcript σ κ) :=
  let made := make.run ()
  let gauges := Gauges.absorb {} made.events
  let lines := Event.lines made.events
  match made.result with
  | .error fault => .error ⟨fault, gauges, lines⟩
  | .ok start =>
      let p := play act observe { object := start, gauges } steps
      let ending := closing p.last.object
      .ok ⟨start, lines, p.turns, p.last.gauges.absorb ending, Event.lines ending⟩

end SlotArena.Session
