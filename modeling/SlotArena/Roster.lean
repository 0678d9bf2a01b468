import SlotArena.Chain
import SlotArena.Cursor
import SlotArena.Records
import SlotArena.Window

/-!
Rosters: append-only tables of records.  Records have their room in a window of their own that only
grows at the front, and they are claimed in runs by the same cursor that claims blocks, counted in
records.  A record never moves and never disappears.

What records hold is kept in a store beside the window, record by record; of the window only the
bounds count, its bytes are neither read nor written.  Additions come one after the other here, so
the run that an addition claims is always the next one to be started in the store, and nothing but
its length needs to be passed on.
-/

namespace SlotArena

structure Roster where
  cursor : Cursor
  window : Window
  /-- The most records the roster will ever hold. -/
  capacity : Nat
  records : Records

namespace Roster

variable [Host]

def recordBytes : Nat := 16

/-- The records that a window has room for, as far as the capacity allows. -/
def recordsIn (window : Window) (capacity : Nat) : Nat := min (window.size / recordBytes) capacity

def length (r : Roster) : Nat := r.cursor.used

def mapped (r : Roster) : Nat := recordsIn r.window r.capacity

def record (r : Roster) (idx : Nat) : Record := r.records.get idx

def Admits (initial capacity : Nat) : Prop :=
  0 < capacity ∧ capacity < noIndex ∧ initial ≤ capacity

instance (initial capacity : Nat) : Decidable (Admits initial capacity) :=
  inferInstanceAs (Decidable (_ ∧ _ ∧ _))

def create (initial capacity : Nat) (strategy : Strategy) : Act Unit Roster := do
  Act.ensure (Admits initial capacity) (.rosterCapacity initial capacity)
  let reserved := roundUp (capacity * recordBytes) pageSize
  let size := min (max (ceilPow2 (max initial 1 * recordBytes)) pageSize) reserved
  let window ← Window.create .roster size (.frontOnly reserved) strategy
  return ⟨⟨0, recordsIn window capacity⟩, window, capacity, .empty⟩

def closing (r : Roster) : List Event := r.window.closing

/-! ### Adding records -/

def onWindow {α : Type} : Act Window α → Act Roster α :=
  Act.focus Roster.window fun r w => { r with window := w }

def widen (size : Nat) : Act Roster Unit := do
  if (← Act.get).window.size < size then
    onWindow (Window.expandTo size)
    Act.note (.rosterGrew (← Act.get).mapped)

/-- Answers how many records there is room for, if the first `used` bytes of records are among
them. -/
def settle (used : Nat) (exhausted : Refusal) : Act Roster Nat := do
  let room := (← Act.get).mapped
  if room * recordBytes < used then Act.refuse exhausted else return room

/-- Makes room for the records that the cursor has claimed, twice over if the reservation allows,
and answers how many records there is room for. -/
def grow : Act Roster Nat := do
  let r ← Act.get
  let used := r.cursor.next * recordBytes
  let reserved := r.window.extent.front
  let exhausted := Refusal.outOfTableSpace (used / recordBytes) r.capacity
  if r.window.size < used * 2 then
    let doubled := doublePast (used * 2) r.window.size
    -- Where doubling does not fit, the whole reservation may still do.
    if reserved < doubled ∧ (reserved < used ∨ r.capacity * recordBytes < used) then
      Act.note (.rosterExhausted (used / recordBytes) r.capacity)
      Act.refuse exhausted
    else
      widen (min doubled reserved)
      settle used exhausted
  else settle used exhausted

/-- Adds `count` records and answers the index of the first; each starts out with its own index and
nothing else. -/
def add (count : Nat) : Act Roster Nat := do
  Act.ensure (0 < count) .emptyAddition
  let first ← Cursor.claim Roster.cursor (fun r c => { r with cursor := c }) grow count
  Act.modify fun r => { r with records := r.records.extend count }
  return first

/-! ### Reaching records -/

def get (idx : Nat) : Act Roster Record := do
  let r ← Act.get
  Act.ensure (idx < r.cursor.stop) (.neverAdded idx)
  return r.record idx

def edit (idx : Nat) (f : Record → Record) : Act Roster Unit := do
  let v ← get idx
  Act.modify fun r => { r with records := r.records.set idx (f v) }

def assign (idx : Nat) (offset : Int) (size : Nat) : Act Roster Unit :=
  edit idx fun v => { v with offset := offset, size := size }

def resize (idx size : Nat) : Act Roster Unit := edit idx fun v => { v with size := size }

instance : Links Roster where
  link idx := do return (← get idx).next
  setLink idx next := edit idx fun v => { v with next := next }

end Roster

end SlotArena
