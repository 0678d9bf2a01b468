import SlotArena.Session.Reply

/-!
Reaching for memory in a session.  An access is tried only where all of its bytes are usable; an
access to no bytes may stand at the very end.  What memory is filled with is looked at last.

An observer of a window keeps every base that the window ever had, together with the offsets that
were usable when it was last seen with that base.  Old bases stay good for those offsets.
-/

namespace SlotArena.Session

/-! ### Accesses -/

inductive Access
  | read (offset : Int) (size : Nat)
  | fill (offset : Int) (size : Nat) (byte : Asked UInt8)
  | write (offset : Int) (bytes : Array UInt8)
  deriving Repr

namespace Access

def offset : Access → Int
  | .read offset _ | .fill offset .. | .write offset _ => offset

def size : Access → Nat
  | .read _ size | .fill _ size _ => size
  | .write _ bytes => bytes.size

/-- All bytes of the access lie between two offsets. -/
def Inside (a : Access) (lo hi : Int) : Prop := lo ≤ a.offset ∧ a.offset + a.size ≤ hi

instance (a : Access) (lo hi : Int) : Decidable (a.Inside lo hi) :=
  inferInstanceAs (Decidable (_ ∧ _))

def onMemory (a : Access) (origin : Nat) : Act Memory Reply := do
  let start := (origin + a.offset).toNat
  match a with
  | .read _ size => return .runs ((← Act.get).runs start size)
  | .fill _ size byte => answer (fun b => silent (Act.modify (·.store (.fill start size b)))) byte
  | .write _ bytes => silent (Act.modify (·.store (.copy start bytes)))

def through (a : Access) (view : Nat) : Act Window Reply := do
  match a with
  | .read offset size => return .runs ((← Act.get).runs ⟨view, offset⟩ size)
  | .fill offset size byte => answer (fun b => silent (Window.fill ⟨view, offset⟩ size b)) byte
  | .write offset bytes => silent (Window.copy ⟨view, offset⟩ bytes)

def now (a : Access) : Act Window Reply := do
  let w ← Act.get
  if ¬ a.Inside w.lo w.hi then return .guarded .outsideWindow
  a.through w.newestView

end Access

/-! ### Observers -/

/-- A base that a window was seen with, and the offsets that were usable through it. -/
structure Sighting where
  view : Nat
  lo : Int
  hi : Int
  deriving DecidableEq, Repr

def Sighting.of (w : Window) : Sighting := ⟨w.newestView, w.lo, w.hi⟩

def Sighting.access (s : Sighting) (a : Access) : Act Window Reply := do
  if ¬ a.Inside s.lo s.hi then return .guarded .outsideWindow
  a.through s.view

/-- What an observer knows after another look: an unchanged base is good for more offsets, a changed
one is a new entry. -/
def look (seen : List Sighting) (w : Window) : List Sighting :=
  match seen.getLast? with
  | none => [.of w]
  | some last =>
      if last.view = w.newestView then seen.dropLast ++ [.of w] else seen ++ [.of w]

/-- An access through base `base?` of an observer's list, or through the newest base.  The base
comes first: without it the access is not looked at. -/
def accessSeen (seen : List Sighting) (asked : Asked Access) (base? : Option Nat) :
    Act Window Reply := do
  match seen[base?.getD (seen.length - 1)]? with
  | none => return .guarded .noSuchView
  | some s => answer s.access asked

end SlotArena.Session
