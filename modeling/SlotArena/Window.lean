import SlotArena.Act
import SlotArena.Host
import SlotArena.Memory

/-!
Growable windows.  A window makes the offsets `[-center, size - center)` around an origin usable
and only ever grows, on either side, inside its extent.  Growth never changes which byte an offset
denotes: the bytes live in a backing whose positions do not move, and every view of the backing,
old or new, leads an offset to the same position.

Positions in the backing count from the far end of the back side, so the origin is at position
`extent.back`.
-/

namespace SlotArena

/-! ### Backings -/

/-- A stretch of a backing shown in address space. -/
structure View where
  /-- Position in the backing of the first byte shown. -/
  start : Nat
  size : Nat
  /-- Bytes of the view that lie below the origin. -/
  origin : Nat
  deriving DecidableEq, Repr, Inhabited

def View.position (v : View) (offset : Int) : Int := v.start + (v.origin + offset)

inductive Backing
  /-- A shared backing and the views of it, newest first.  Superseded views stay usable. -/
  | remap (views : List View)
  /-- A reservation with the positions `[lo, hi)` committed, piece by piece, newest first. -/
  | pinned (lo hi : Nat) (pieces : List (Nat × Nat))
  deriving DecidableEq, Repr

namespace Backing

def strategy : Backing → Strategy
  | .remap _ => .remap
  | .pinned .. => .pinned

def retired : Backing → Nat
  | .remap views => views.length - 1
  | .pinned .. => 0

/-- Pieces in which the current window was made usable. -/
def segments : Backing → Nat
  | .remap views => min views.length 1
  | .pinned _ _ pieces => pieces.length

section

variable [Host]

def create (owner : Purpose) (e : Extent) (strategy : Strategy) : Act Unit Backing := do
  let total ← Act.ofExcept e.total?
  let made := match strategy with
    | .pinned => (Host.reserve owner total).map fun _ => Backing.pinned e.back e.back []
    | .remap => (Host.makeBacking owner total).map fun _ => Backing.remap []
  match made with
  | .ok b => return b
  | .error why => Act.refuse (.initialization why)

/-- Commits the positions `[start, stop)` next to what is committed; an empty piece is none. -/
def commitPiece (owner : Purpose) (start stop : Nat) : Act Backing (Except HostError Unit) := do
  if stop ≤ start then return .ok ()
  match Host.commit owner start (stop - start) with
  | .error why => return .error why
  | .ok () =>
      Act.modify fun
        | .pinned lo hi pieces => .pinned lo hi ((start, stop) :: pieces)
        | b => b
      return .ok ()

/-- Makes the window of `size` bytes usable of which `center` lie below the origin.  Where the host
declines, pieces that it had granted before stay committed. -/
def expand (owner : Purpose) (e : Extent) (center size : Nat) :
    Act Backing (Except HostError Unit) := do
  let start := e.back - center
  match ← Act.get with
  | .remap views =>
      Act.ensure (start + size ≤ e.total) (.viewOutsideBacking start size e.total)
      -- The old view is kept, so that places in it stay good.
      match Host.showView owner start size with
      | .error why => return .error why
      | .ok () =>
          Act.set (.remap (⟨start, size, center⟩ :: views))
          Act.emit (if views.isEmpty then [] else [.raise .retired 1])
          return .ok ()
  | .pinned lo hi _ =>
      let stop := start + size
      Act.ensure (start ≤ lo ∧ hi ≤ stop) .pinnedWindowShrinks
      -- The first window is one piece; a later one adds what is new on either side.
      let first ← if lo = hi then commitPiece owner start stop else commitPiece owner start lo
      match first with
      | .error why => return .error why
      | .ok () =>
          let second ← if lo = hi then pure (.ok ()) else commitPiece owner hi stop
          match second with
          | .error why => return .error why
          | .ok () =>
              Act.modify fun
                | .pinned _ _ pieces => .pinned start stop pieces
                | b => b
              return .ok ()

end

end Backing

/-! ### Windows -/

structure Window where
  purpose : Purpose
  extent : Extent
  /-- Usable bytes below the origin. -/
  center : Nat
  /-- Usable bytes on both sides together. -/
  size : Nat
  backing : Backing
  /-- The contents of the backing, by position. -/
  memory : Memory
  deriving DecidableEq, Repr

namespace Window

def strategy (w : Window) : Strategy := w.backing.strategy

def front (w : Window) : Nat := w.size - w.center

def lo (w : Window) : Int := -w.center

def hi (w : Window) : Int := w.size - w.center

/-- Makes a window whose first `initial` bytes, rounded up to whole pages, are usable; all of them
lie at and above the origin. -/
def create [Host] (purpose : Purpose) (initial : Nat) (e : Extent) (strategy : Strategy) :
    Act Unit Window := do
  Act.ensure e.Aligned (.extentUnaligned e)
  Act.ensure (0 < initial) .windowEmpty
  let size := roundUp initial pageSize
  Act.ensure (size < word64) (.overflow .add)
  if e.front < size then Act.refuse (.outOfReservedSpace size e.front)
  let backing ← Backing.create purpose e strategy
  match (Backing.expand purpose e 0 size).run backing with
  | ⟨.error fault, _, _⟩ => Act.fail fault
  | ⟨.ok (.error why), _, _⟩ => Act.refuse (.initialization why)
  | ⟨.ok (.ok ()), backing, events⟩ =>
      Act.emit events
      Act.emit [.raise .reserved e.total, .raise .committed size, .raise purpose.gauge size]
      return ⟨purpose, e, 0, size, backing, .blank⟩

def onBacking {α : Type} : Act Backing α → Act Window α :=
  Act.focus Window.backing fun w b => { w with backing := b }

/-- Grows to `size` bytes of which `center` lie below the origin.  Neither side may shrink. -/
def expandRange [Host] (center size : Nat) : Act Window Unit := do
  let w ← Act.get
  Act.ensure (w.center ≤ center ∧ center ≤ size) .windowShrinksBack
  Act.ensure (w.size - w.center ≤ size - center) .windowShrinksFront
  Act.ensure (pageSize ∣ center ∧ pageSize ∣ size) (.windowUnaligned center size)
  if w.extent.back < center then Act.refuse (.outOfReservedSpace center w.extent.back)
  if w.extent.front < size - center then
    Act.refuse (.outOfReservedSpace (size - center) w.extent.front)
  match ← onBacking (Backing.expand w.purpose w.extent center size) with
  | .error why =>
      Act.note (.windowRefused w.purpose size why)
      Act.refuse (.growth why)
  | .ok () =>
      Act.emit [.raise .committed (size - w.size), .raise w.purpose.gauge (size - w.size)]
      Act.note (.windowGrew w.purpose w.size size w.center center w.strategy)
      Act.modify fun w => { w with center := center, size := size }

def expandTo [Host] (size : Nat) : Act Window Unit := do
  expandRange (← Act.get).center size

def closing (w : Window) : List Event :=
  [.lower .retired w.backing.retired, .lower .reserved w.extent.total, .lower .committed w.size,
    .lower w.purpose.gauge w.size]

/-! ### Reaching the contents -/

def newestView (w : Window) : Nat := w.backing.retired

/-- The position in the backing that a place leads to. -/
def position (w : Window) (p : Place) : Int :=
  match w.backing with
  | .pinned .. => w.extent.back + p.offset
  | .remap views =>
      match views.reverse[p.view]? with
      | some v => v.position p.offset
      | none => w.extent.back + p.offset

def place (w : Window) (offset : Int) : Place := ⟨w.newestView, offset⟩

def load (w : Window) (p : Place) (size : Nat) : List UInt8 :=
  w.memory.read (w.position p).toNat size

def runs (w : Window) (p : Place) (size : Nat) : List Run :=
  w.memory.runs (w.position p).toNat size

def fill (p : Place) (size : Nat) (byte : UInt8) : Act Window Unit :=
  Act.modify fun w => { w with memory := w.memory.store (.fill (w.position p).toNat size byte) }

def copy (p : Place) (source : Array UInt8) : Act Window Unit :=
  Act.modify fun w => { w with memory := w.memory.store (.copy (w.position p).toNat source) }

end Window

end SlotArena
