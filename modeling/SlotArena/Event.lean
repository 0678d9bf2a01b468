import SlotArena.Fault
import SlotArena.Gauge

/-!
What an operation tells the outside: changes of the gauges and lines for the log.  Events are part
of an operation's outcome, in order, so a run can be replayed into readings and into text.
-/

namespace SlotArena

/-! ### Log lines -/

inductive Level
  | trace
  | debug
  | warn
  deriving DecidableEq, Repr, Inhabited

def Level.label : Level → String
  | .trace => "TRACE"
  | .debug => "DEBUG"
  | .warn => "WARN"

def hexText (n : Nat) : String := "0x" ++ String.ofList (Nat.toDigits 16 n)

inductive Note
  | windowRefused (purpose : Purpose) (size : Nat) (why : HostError)
  | windowGrew (purpose : Purpose) (oldSize size oldCenter center : Nat) (strategy : Strategy)
  | arenaGrew (side : Side) (oldSize size oldCenter center frontUsed backUsed : Nat)
  | rosterExhausted (requested capacity : Nat)
  | rosterGrew (records : Nat)
  | poolMade (blockSize base : Nat) (strategy : Strategy)
  | remainderDropped (chunkSize : Nat) (why : Refusal)
  | leaked (bytes : Nat) (offset : Int)
  | poolDropped (live : Nat)
  | streamBlock (number : Nat) (offset : Int) (size : Nat)
  | allotmentShort (returned count : Nat)
  | deviceReopened (device refs : Nat)
  | deviceOpened (device : Nat)
  | deviceUnknown (device : Nat)
  | deviceClosed (device : Nat)
  deriving DecidableEq, Repr

namespace Note

def level : Note → Level
  | .windowRefused .. | .rosterExhausted .. | .remainderDropped .. | .allotmentShort ..
  | .deviceUnknown .. => .warn
  | .windowGrew .. | .arenaGrew .. | .poolMade .. | .poolDropped .. | .deviceOpened ..
  | .deviceClosed .. => .debug
  | .rosterGrew .. | .leaked .. | .streamBlock .. | .deviceReopened .. => .trace

def message : Note → String
  | .windowRefused purpose size why =>
      s!"{purpose.label} mapping failed to grow to {size} bytes: {why.message}"
  | .windowGrew purpose oldSize size oldCenter center strategy =>
      s!"{purpose.label} mapping grew {oldSize} -> {size} bytes " ++
        s!"(center {oldCenter} -> {center}, {strategy.label})"
  | .arenaGrew side oldSize size oldCenter center frontUsed backUsed =>
      s!"block pool grew for {side.label}: {oldSize} -> {size} bytes, " ++
        s!"center {oldCenter} -> {center} (front used {frontUsed}, back used {backUsed})"
  | .rosterExhausted requested capacity =>
      s!"state table exhausted: {requested} of {capacity} entries requested"
  | .rosterGrew records => s!"state table grew to {records} entries"
  | .poolMade blockSize base strategy =>
      s!"state pool created: block size {blockSize}, base {hexText base}, {strategy.label}"
  | .remainderDropped chunkSize why =>
      s!"dropping split remainder of {chunkSize}-byte chunk: {why.message}"
  | .leaked bytes offset => s!"leaked {bytes} bytes at offset {offset}"
  | .poolDropped live => s!"state pool dropped with {live} live states"
  | .streamBlock number offset size =>
      s!"state stream block {number} at offset {offset} ({size} bytes)"
  | .allotmentShort returned count =>
      s!"reserved pool dropped with {count - returned} of {count} states still taken"
  | .deviceReopened device refs => s!"device {hexText device} reopened ({refs} refs)"
  | .deviceOpened device => s!"device {hexText device} opened"
  | .deviceUnknown device => s!"close of unknown device {hexText device}"
  | .deviceClosed device => s!"device {hexText device} closed"

def line (n : Note) : String := n.level.label ++ " " ++ n.message

/-- What keeps a note from being worded: the number of slots that are missing is a difference, and
more slots may have come back than were set aside.  Nobody works the difference out unless the log
is read. -/
def flaw? : Note → Option Violation
  | .allotmentShort returned count => if count < returned then some (.overflow .subtract) else none
  | _ => none

end Note

/-! ### Events -/

inductive Event
  | raise (gauge : Gauge) (amount : Nat)
  | lower (gauge : Gauge) (amount : Nat)
  | note (n : Note)
  deriving DecidableEq, Repr

namespace Event

/-- The log line of an event, if it is one and can be worded. -/
def line? : Event → Option String
  | .note n => if n.flaw?.isNone then some n.line else none
  | _ => none

/-- What keeps an event from the log, if it belongs there. -/
def flaw? : Event → Option Violation
  | .note n => n.flaw?
  | _ => none

def apply (g : Gauges) : Event → Gauges
  | .raise which amount => g.update which (·.add amount)
  | .lower which amount => g.update which (·.sub amount)
  | .note _ => g

def lines (events : List Event) : List String := events.filterMap line?

/-- What stops whoever reads the log of some events, if anything does. -/
def firstFlaw? (events : List Event) : Option Violation := events.findSome? flaw?

end Event

def Gauges.absorb (g : Gauges) (events : List Event) : Gauges := events.foldl Event.apply g

@[simp] theorem Gauges.absorb_nil (g : Gauges) : g.absorb [] = g := rfl

@[simp] theorem Gauges.absorb_append (g : Gauges) (es fs : List Event) :
    g.absorb (es ++ fs) = (g.absorb es).absorb fs := List.foldl_append

@[simp] theorem Event.lines_append (es fs : List Event) :
    Event.lines (es ++ fs) = Event.lines es ++ Event.lines fs := List.filterMap_append

end SlotArena
