import SlotArena.Cursor
import SlotArena.Window

/-!
Two-sided arenas.  An arena bumps blocks off a growable window in both directions: blocks at the
front have offsets from zero up, blocks at the back end at zero and go down.  Each side has its own
cursor, counted in bytes away from the origin.  An arena that must grow doubles its window and
moves the origin inside it so that both sides keep their share.
-/

namespace SlotArena

/-- The largest extent of an arena.  Each side gets half, which keeps claims clear of the upper
half of a cursor. -/
def Arena.largestExtent : Nat := word32

structure ArenaConfig where
  /-- Bytes usable at first, all at the front; rounded up to a power of two. -/
  initial : Nat := 64 * 1024
  /-- Address space, half of it on either side. -/
  extent : Nat := 1024 * 1024 * 1024
  strategy : Strategy := .preferred
  deriving DecidableEq, Repr, Inhabited

def ArenaConfig.text (c : ArenaConfig) : String :=
  s!"BlockPoolConfig \x7b initial_size: {c.initial}, max_size: {c.extent}, " ++
    s!"strategy: {c.strategy.label} \x7d"

structure Arena where
  front : Cursor
  back : Cursor
  window : Window
  deriving DecidableEq, Repr

namespace Arena

variable [Host]

/-! ### Reading -/

def size (a : Arena) : Nat := a.window.size

def center (a : Arena) : Nat := a.window.center

def frontUsed (a : Arena) : Nat := a.front.used

def backUsed (a : Arena) : Nat := a.back.used

def cursor (a : Arena) : Side → Cursor
  | .front => a.front
  | .back => a.back

def withCursor (side : Side) (a : Arena) (c : Cursor) : Arena :=
  match side with
  | .front => { a with front := c }
  | .back => { a with back := c }

/-- Bytes usable on a side. -/
def reach (a : Arena) : Side → Nat
  | .front => a.size - a.center
  | .back => a.center

/-! ### Making -/

def cursorBytes {σ : Type} (bytes : Nat) : Act σ Nat := do
  Act.ensure (bytes < word32) (.cursorTooNarrow bytes)
  return bytes

def AdmitsExtent (extent : Nat) : Prop :=
  PowerOfTwo extent ∧ 2 * pageSize ≤ extent ∧ extent ≤ largestExtent

instance : DecidablePred AdmitsExtent := fun _ => inferInstanceAs (Decidable (_ ∧ _ ∧ _))

/-- Makes an arena with all of its first window at the front.  That window lies inside the front
half of the extent, so its end fits a cursor. -/
def create (config : ArenaConfig) : Act Unit Arena := do
  Act.ensure (AdmitsExtent config.extent) (.arenaExtent config.extent)
  let initial ← Act.roundToPow2 word64 (max config.initial pageSize)
  let window ← Window.create .arena initial (.centered config.extent) config.strategy
  return ⟨⟨0, initial⟩, .empty, window⟩

def closing (a : Arena) : List Event := a.window.closing

/-! ### Growing -/

/-- Where the origin goes in a window of `size` bytes: the sides share it as they share the usage,
in whole pages, but neither gets less than it requires.  A back side without usage keeps what it
has. -/
def placeOrigin (size frontUsed backUsed frontRequired backRequired : Nat) : Nat :=
  if backUsed = 0 then backRequired
  else
    let share := size * backUsed / (frontUsed + backUsed) / pageSize * pageSize
    let center := max share backRequired
    -- Both sides fit: the window is at least as long as the two requirements together.
    if size - center < frontRequired then size - frontRequired else center

def onWindow {α : Type} : Act Window α → Act Arena α :=
  Act.focus Arena.window fun a w => { a with window := w }

/-- Grows the window if one of the sides has less than twice its usage, and answers the end of
`side`.  Usage is read off the cursors, which already hold the claim that asks for the growth. -/
def grow (side : Side) : Act Arena Nat := do
  let a ← Act.get
  let backUsed := roundUp a.back.next pageSize
  let frontUsed := roundUp a.front.next pageSize
  Act.ensure (0 < a.size) .growthOfNothing
  Act.ensure (side = .front ∨ 0 < backUsed) .growthUnclaimed
  -- Neither side may shrink, whatever the cursors say.
  let backRequired := max backUsed a.center
  let frontRequired := max frontUsed (a.size - a.center)
  if backRequired < backUsed * 2 ∨ frontRequired < frontUsed * 2 then
    let size := doublePast (backRequired + frontRequired) a.size
    let center := placeOrigin size frontUsed backUsed frontRequired backRequired
    onWindow (Window.expandRange center size)
    Act.note (.arenaGrew side a.size size a.center center frontUsed backUsed)
  cursorBytes ((← Act.get).reach side)

/-! ### Blocks -/

def AdmitsBlock (size : Nat) : Prop := 0 < size ∧ size ≤ largestExtent / 2

instance : DecidablePred AdmitsBlock := fun _ => inferInstanceAs (Decidable (_ ∧ _))

/-- Claims `size` bytes on a side; answers their distance from the origin. -/
def claim (side : Side) (size : Nat) : Act Arena Nat := do
  Act.ensure (AdmitsBlock size) (.arenaBlockSize side size)
  Cursor.claim (·.cursor side) (withCursor side) (grow side) size

def alloc (size : Nat) : Act Arena Int := do
  let offset ← claim .front size
  if FitsSigned offset then return offset
  else Act.refuse (.outOfReservedSpace (offset + size) (2 ^ 31 - 1))

/-- A block at the back: it ends where the claim begins, below the origin. -/
def allocBack (size : Nat) : Act Arena Int := do
  let distance ← claim .back size
  let offset : Int := -(distance + size : Nat)
  if FitsSigned offset then return offset
  else Act.refuse (.outOfReservedSpace (distance + size) (2 ^ 31 - 1))

def place (offset : Int) : Act Arena Place := do
  let a ← Act.get
  Act.ensure (-(a.center : Int) ≤ offset) (.belowBackRegion offset)
  return a.window.place offset

end Arena

end SlotArena
