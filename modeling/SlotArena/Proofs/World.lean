import SlotArena.Proofs.Aliasing
import SlotArena.Proofs.Commons

/-!
Everything at once. A `World` is all that a process has: windows, arenas, rosters and pools of its
own, the pools with their streams and allotments, and those that devices share. Deeds make, use and
give up any of them; any of them may fail, and the world goes on from what it left. What one deed
tells comes to what exists after it and did not before (`perform_holdings`), and so the books are
kept along a whole `Course` (`Course.books`).

Main statement: as long as the sums stay inside half a word, every gauge reads what it read at the
start and what exists comes to (`gauges_exact`): the extents, sizes and superseded views of the
windows, the live slots of the pools and the blocks of the streams. So when nothing exists any more,
all of them read what they read at the start.
-/

namespace SlotArena

open Act

/-! ### Kinds -/

namespace Window

structure Plan where
  purpose : Purpose
  initial : Nat
  extent : Extent
  strategy : Strategy

/-- Windows may be put to any use, and be given up at any time. -/
def kind [Host] : Kind Plan Deed Window where
  make plan := create plan.purpose plan.initial plan.extent plan.strategy
  use := Deed.act
  closing := closing
  Permits _ _ := True
  Idle _ := True

theorem kind_balanced [Host] : kind.Balanced account where
  opens plan := opens plan.purpose plan.initial plan.extent plan.strategy
  uses w d _ := by
    cases d with
    | expandTo size => exact (booked_get_bind fun w => expandRange_booked w.center size) w
    | expandRange center size => exact expandRange_booked center size w
    | fill p size byte => exact fill_booked p size byte w
    | copy p source => exact copy_booked p source w
  closes w _ hlt := closes w hlt

end Window

namespace Arena

inductive Use
  | block (side : Side) (size : Nat)
  | fill (p : Place) (size : Nat) (byte : UInt8)
  | copy (p : Place) (source : Array UInt8)

def Use.act [Host] : Use → Act Arena Unit
  | .block side size => (fun _ => ()) <$> serve side size
  | .fill p size byte => onWindow (Window.fill p size byte)
  | .copy p source => onWindow (Window.copy p source)

def kind [Host] : Kind ArenaConfig Use Arena where
  make := create
  use := Use.act
  closing := closing
  Permits _ _ := True
  Idle _ := True

theorem kind_balanced [Host] : kind.Balanced account where
  opens := opens
  uses a u _ := by
    cases u with
    | block side size =>
      cases side with
      | front => exact (alloc_booked size).map _ a
      | back => exact (allocBack_booked size).map _ a
    | fill p size byte => exact onWindow_booked (Window.fill_booked p size byte) a
    | copy p source => exact onWindow_booked (Window.copy_booked p source) a
  closes a _ hlt := closes a hlt

end Arena

namespace Roster

structure Plan where
  initial : Nat
  capacity : Nat
  strategy : Strategy

/-- Chains through the records are kept by whoever uses the roster. -/
inductive Use
  | add (count : Nat)
  | assign (idx : Nat) (offset : Int) (size : Nat)
  | resize (idx size : Nat)
  | push (c : Chain) (first count : Nat)
  | pop (c : Chain)

def Use.act [Host] : Use → Act Roster Unit
  | .add count => (fun _ => ()) <$> Roster.add count
  | .assign idx offset size => Roster.assign idx offset size
  | .resize idx size => Roster.resize idx size
  | .push c first count => (fun _ => ()) <$> c.push first count
  | .pop c => (fun _ => ()) <$> c.pop

def kind [Host] : Kind Plan Use Roster where
  make plan := create plan.initial plan.capacity plan.strategy
  use := Use.act
  closing := closing
  Permits _ _ := True
  Idle _ := True

theorem kind_balanced [Host] : kind.Balanced account where
  opens plan := opens plan.initial plan.capacity plan.strategy
  uses r u _ := by
    cases u with
    | add count => exact (add_booked count).map _ r
    | assign idx offset size => exact edit_booked idx _ r
    | resize idx size => exact edit_booked idx _ r
    | push c first count => exact (Chain.push_booked c first count).map _ r
    | pop c => exact (Chain.pop_booked c).map _ r
  closes r _ hlt := closes r hlt

end Roster

namespace Estate

/-- A pool may be used as its users may use it, and be given up when nothing goes with it. -/
def kind [Host] : Kind PoolConfig Use Estate where
  make config := do return new (← Pool.create config)
  use := Use.act
  closing e := e.pool.closing
  Permits := Permits
  Idle := Idle

theorem kind_balanced [Host] : kind.Balanced account where
  opens := opens
  uses _ _ hpermits := use_traces hpermits
  closes _ hidle hlt := closes hidle.1 hlt

end Estate

/-! ### Worlds -/

structure World where
  windows : Nat → Option Window
  arenas : Nat → Option Arena
  rosters : Nat → Option Roster
  pools : Nat → Option Estate
  commons : Commons

namespace World

def empty : World := ⟨fun _ => none, fun _ => none, fun _ => none, fun _ => none, .empty⟩

inductive Deed
  | windows (d : Handling Window.Plan Window.Deed)
  | arenas (d : Handling ArenaConfig Arena.Use)
  | rosters (d : Handling Roster.Plan Roster.Use)
  | pools (d : Handling PoolConfig Estate.Use)
  | commons (d : Commons.Deed)

def perform [Host] : Deed → Act World Unit
  | .windows d => focus windows (fun w t => { w with windows := t }) (Window.kind.perform d)
  | .arenas d => focus arenas (fun w t => { w with arenas := t }) (Arena.kind.perform d)
  | .rosters d => focus rosters (fun w t => { w with rosters := t }) (Roster.kind.perform d)
  | .pools d => focus pools (fun w t => { w with pools := t }) (Estate.kind.perform d)
  | .commons d => focus commons (fun w c => { w with commons := c }) (Commons.perform d)

def Admits [Host] (w : World) : Deed → Prop
  | .windows d => Window.kind.Admits w.windows d
  | .arenas d => Arena.kind.Admits w.arenas d
  | .rosters d => Roster.kind.Admits w.rosters d
  | .pools d => Estate.kind.Admits w.pools d
  | .commons d => w.commons.Admits d

def after [Host] (w : World) (d : Deed) : World := ((perform d).run w).state

def told [Host] (w : World) (d : Deed) : List Event := ((perform d).run w).events

/-! ### What exists -/

/-- What all windows come to, those of arenas, rosters and pools among them. -/
noncomputable def sumWindows (w : World) (f : Window → Nat) : Nat :=
  let inPool := fun e : Estate => f e.pool.arena.window + f e.pool.roster.window
  sumOver w.windows f + sumOver w.arenas (f ·.window) + sumOver w.rosters (f ·.window) +
    sumOver w.pools inPool + sumOver w.commons.estate? inPool

noncomputable def sumPools (w : World) (f : Pool → Nat) : Nat :=
  sumOver w.pools (f ·.pool) + sumOver w.commons.estate? (f ·.pool)

noncomputable def sumStreams (w : World) (f : Stream → Nat) : Nat :=
  let inPool := fun e : Estate => sumOver e.lanes (f ·.stream)
  sumOver w.pools inPool + sumOver w.commons.estate? inPool

/-- What exists of that which a gauge counts. -/
noncomputable def holdings (w : World) : Gauge → Nat
  | .reserved => w.sumWindows (·.extent.total)
  | .committed => w.sumWindows (·.size)
  | .arenas => w.sumWindows fun v => if v.purpose = .arena then v.size else 0
  | .rosters => w.sumWindows fun v => if v.purpose = .roster then v.size else 0
  | .retired => w.sumWindows (·.backing.retired)
  | .live => w.sumPools (·.liveCount)
  | .streamBlocks => w.sumStreams (·.blocks)

structure Cleared (w : World) : Prop where
  windows : ∀ k, w.windows k = none
  arenas : ∀ k, w.arenas k = none
  rosters : ∀ k, w.rosters k = none
  pools : ∀ k, w.pools k = none
  shared : ∀ id, w.commons.registry.pool? id = none

/-- The worlds that deeds lead to from nothing, with what the gauges read there, as long as the sums
stay inside half a word. The host may answer differently at every deed. -/
inductive Course (start : Gauges) : World → Gauges → Prop
  | start : Course start empty start
  | deed [host : Host] {w : World} {g : Gauges} {d : Deed} (before : Course start w g)
      (admits : w.Admits d)
      (fits : ∀ k, (start.counter k).get + (w.after d).holdings k < 2 ^ 63) :
      Course start (w.after d) (g.absorb (w.told d))

/-! ### What is charged -/

noncomputable def account : Account World :=
  (Window.account.table.on windows).beside <| (Arena.account.table.on arenas).beside <|
    (Roster.account.table.on rosters).beside <| (Estate.account.table.on pools).beside <|
      Commons.account.on commons

variable {w : World} {g start : Gauges} {d : Deed}

theorem perform_books [Host] (hadmits : w.Admits d) (hlt : ∀ g, account.charge w g < 2 ^ 63) :
    account.Books w (w.told d) (w.after d) := by
  cases d with
  | windows d =>
    refine .beside_left hlt (fun hlt => ?_) id fun _ => rfl
    exact Window.kind_balanced.perform hadmits hlt
  | arenas d =>
    refine .beside_right hlt (fun hlt => ?_) id fun _ => rfl
    refine .beside_left hlt (fun hlt => ?_) id fun _ => rfl
    exact Arena.kind_balanced.perform hadmits hlt
  | rosters d =>
    refine .beside_right hlt (fun hlt => ?_) id fun _ => rfl
    refine .beside_right hlt (fun hlt => ?_) id fun _ => rfl
    refine .beside_left hlt (fun hlt => ?_) id fun _ => rfl
    exact Roster.kind_balanced.perform hadmits hlt
  | pools d =>
    refine .beside_right hlt (fun hlt => ?_) id fun _ => rfl
    refine .beside_right hlt (fun hlt => ?_) id fun _ => rfl
    refine .beside_right hlt (fun hlt => ?_) id fun _ => rfl
    refine .beside_left hlt (fun hlt => ?_) id fun _ => rfl
    exact Estate.kind_balanced.perform hadmits hlt
  | commons d =>
    refine .beside_right hlt (fun hlt => ?_) id fun _ => rfl
    refine .beside_right hlt (fun hlt => ?_) id fun _ => rfl
    refine .beside_right hlt (fun hlt => ?_) id fun _ => rfl
    refine .beside_right hlt (fun hlt => ?_) id fun _ => rfl
    exact Commons.perform_traces hadmits hlt

theorem keeps_empty : account.keeps empty := by
  have hshared : (Commons.empty).estate? = fun _ => none := rfl
  refine ⟨Account.table_keeps_empty _, Account.table_keeps_empty _, Account.table_keeps_empty _,
    Account.table_keeps_empty _, ?_, fun id _ => ⟨rfl, rfl⟩⟩
  show Estate.account.table.keeps (Commons.empty).estate?
  rw [hshared]
  exact Account.table_keeps_empty _

/-- What a world charges, by what its windows and its estates do. -/
theorem charge_eq {k : Gauge} (w : World) {f : Window → Nat} {f' : Estate → Nat}
    (hwindow : ∀ v : Window, v.charge k = f v) (hestate : ∀ e, Estate.account.charge e k = f' e) :
    account.charge w k = sumOver w.windows f + sumOver w.arenas (f ·.window) +
      sumOver w.rosters (f ·.window) + sumOver w.pools f' + sumOver w.commons.estate? f' := by
  obtain rfl : (Window.charge · k) = f := funext hwindow
  obtain rfl : (Estate.account.charge · k) = f' := funext hestate
  rw [Nat.add_assoc, Nat.add_assoc, Nat.add_assoc]
  rfl

theorem charge_estate (e : Estate) (k : Gauge) : Estate.account.charge e k =
    e.pool.arena.window.charge k + e.pool.roster.window.charge k +
      (if k = .live then e.pool.liveCount else 0) +
        sumOver e.lanes fun lane => if k = .streamBlocks then lane.stream.blocks else 0 := rfl

theorem charge_eq_holdings (w : World) (k : Gauge) : account.charge w k = w.holdings k := by
  -- an estate charges to a gauge of windows what its two windows do
  have hestate : ∀ {k : Gauge} {f : Window → Nat}, (∀ v : Window, v.charge k = f v) →
      k ≠ .live → k ≠ .streamBlocks → ∀ e : Estate, Estate.account.charge e k =
        f e.pool.arena.window + f e.pool.roster.window := by
    intro k f hf hlive hblocks e
    simp only [charge_estate, hf, hlive, hblocks, if_false, sumOver_zero, Nat.add_zero]
  have hzero : ∀ v : Window, v.charge .live = 0 ∧ v.charge .streamBlocks = 0 := fun v => by
    rcases v with ⟨_ | _, _⟩ <;> exact ⟨rfl, rfl⟩
  cases k with
  | reserved => exact charge_eq w (fun _ => rfl) (hestate (fun _ => rfl) (by decide) (by decide))
  | committed => exact charge_eq w (fun _ => rfl) (hestate (fun _ => rfl) (by decide) (by decide))
  | retired => exact charge_eq w (fun _ => rfl) (hestate (fun _ => rfl) (by decide) (by decide))
  | arenas =>
    have hsize : ∀ v : Window, v.charge .arenas = if v.purpose = .arena then v.size else 0 :=
      fun v => by rcases v with ⟨_ | _, _⟩ <;> rfl
    exact charge_eq w hsize (hestate hsize (by decide) (by decide))
  | rosters =>
    have hsize : ∀ v : Window, v.charge .rosters = if v.purpose = .roster then v.size else 0 :=
      fun v => by rcases v with ⟨_ | _, _⟩ <;> rfl
    exact charge_eq w hsize (hestate hsize (by decide) (by decide))
  | live =>
    have hlive : ∀ e, Estate.account.charge e .live = e.pool.liveCount := fun e => by
      simp [charge_estate, hzero, sumOver_zero]
    rw [charge_eq w (fun v => (hzero v).1) hlive]
    simp only [sumOver_zero, Nat.zero_add]
    rfl
  | streamBlocks =>
    have hblocks : ∀ e, Estate.account.charge e .streamBlocks =
        sumOver e.lanes fun lane => lane.stream.blocks := fun e => by
      simp [charge_estate, hzero]
    rw [charge_eq w (fun v => (hzero v).2) hblocks]
    simp only [sumOver_zero, Nat.zero_add]
    rfl

theorem Cleared.holdings (h : w.Cleared) (g : Gauge) : w.holdings g = 0 := by
  have hshared : ∀ id, w.commons.estate? id = none := fun id => by
    rw [Commons.estate?, h.shared id]
    rfl
  cases g <;>
    simp only [World.holdings, sumWindows, sumPools, sumStreams, sumOver_of_none h.windows,
      sumOver_of_none h.arenas, sumOver_of_none h.rosters, sumOver_of_none h.pools,
      sumOver_of_none hshared]

theorem cleared_empty : empty.Cleared where
  windows _ := rfl
  arenas _ := rfl
  rosters _ := rfl
  pools _ := rfl
  shared _ := rfl

/-! ### Courses -/

/-- What a deed tells comes to what exists after it and did not before. -/
theorem perform_holdings [Host] (hadmits : w.Admits d) (hkeeps : account.keeps w)
    (hlt : ∀ k, w.holdings k < 2 ^ 63) :
    account.keeps (w.after d) ∧
      (∀ k, ((w.after d).holdings k : Int) = w.holdings k + Event.net k (w.told d)) ∧
        ∀ e ∈ w.told d, e.Modest := by
  have hbooks := perform_books hadmits (fun k => charge_eq_holdings w k ▸ hlt k) hkeeps
  simpa only [charge_eq_holdings] using hbooks

/-- The books are kept, and the counters do not leave half a word. -/
theorem Course.books (h : Course start w g)
    (hstart : ∀ k, 0 ≤ (start.counter k).raw ∧ (start.counter k).raw < 2 ^ 63) :
    account.keeps w ∧ ∀ k, (g.counter k).raw = (start.counter k).raw + w.holdings k ∧
      (start.counter k).raw + w.holdings k < 2 ^ 63 := by
  have hread : ∀ k, ((start.counter k).get : Int) = (start.counter k).raw := fun k =>
    Int.toNat_of_nonneg (hstart k).1
  induction h with
  | start =>
    refine ⟨keeps_empty, fun k => ?_⟩
    rw [cleared_empty.holdings, Int.natCast_zero, Int.add_zero]
    exact ⟨rfl, (hstart k).2⟩
  | @deed host w g d before admits fits ih =>
    obtain ⟨hkeeps, hreads⟩ := ih
    have hlt : ∀ k, w.holdings k < 2 ^ 63 := fun k => by
      have hk := (hreads k).2
      have hnonneg := (hstart k).1
      omega
    obtain ⟨hkeeps', hnet, hmodest⟩ := perform_holdings admits hkeeps hlt
    refine ⟨hkeeps', fun k => ?_⟩
    have hk := hnet k
    have hfits := fits k
    have hbefore := hreads k
    have hnonneg := (hstart k).1
    have hraw := hread k
    have habsorb := g.raw_absorb hmodest (k := k) (by omega) (by omega)
    omega

theorem Course.get_eq (h : Course start w g)
    (hstart : ∀ k, 0 ≤ (start.counter k).raw ∧ (start.counter k).raw < 2 ^ 63) (k : Gauge) :
    (g.counter k).get = (start.counter k).get + w.holdings k := by
  have hk := ((h.books hstart).2 k).1
  have hnonneg := (hstart k).1
  simp only [Counter.get]
  omega

theorem Course.deed_of_gauges [Host] (h : Course start w g)
    (hstart : ∀ k, 0 ≤ (start.counter k).raw ∧ (start.counter k).raw < 2 ^ 63)
    (admits : w.Admits d)
    (hgauges : ∀ k, ((g.counter k).get : Int) + Event.net k (w.told d) < 2 ^ 63) :
    Course start (w.after d) (g.absorb (w.told d)) := by
  obtain ⟨hkeeps, hreads⟩ := h.books hstart
  have hlt : ∀ k, w.holdings k < 2 ^ 63 := fun k => by
    have hk := (hreads k).2
    have hnonneg := (hstart k).1
    omega
  obtain ⟨-, hnet, -⟩ := perform_holdings admits hkeeps hlt
  refine h.deed admits fun k => ?_
  have hk := hnet k
  have hget := h.get_eq hstart k
  have hbefore := hgauges k
  omega

/-- Gauges are checked one by one. -/
instance decidableForallGauge (P : Gauge → Prop) [DecidablePred P] : Decidable (∀ k, P k) :=
  decidable_of_iff (P .reserved ∧ P .committed ∧ P .arenas ∧ P .rosters ∧ P .retired ∧ P .live ∧
      P .streamBlocks)
    ⟨fun ⟨h₁, h₂, h₃, h₄, h₅, h₆, h₇⟩ k => match k with
      | .reserved => h₁
      | .committed => h₂
      | .arenas => h₃
      | .rosters => h₄
      | .retired => h₅
      | .live => h₆
      | .streamBlocks => h₇,
    fun h => ⟨h _, h _, h _, h _, h _, h _, h _⟩⟩

def AdmitsAll [Host] (w : World) : List Deed → Prop
  | [] => True
  | d :: ds => w.Admits d ∧ (w.after d).AdmitsAll ds

def Fits [Host] (w : World) (g : Gauges) : List Deed → Prop
  | [] => True
  | d :: ds => (∀ k, ((g.counter k).get : Int) + Event.net k (w.told d) < 2 ^ 63) ∧
      (w.after d).Fits (g.absorb (w.told d)) ds

instance decidableFits [Host] :
    (ds : List Deed) → (w : World) → (g : Gauges) → Decidable (w.Fits g ds)
  | [], _, _ => .isTrue trivial
  | d :: ds, w, g =>
      have := decidableFits ds (w.after d) (g.absorb (w.told d))
      inferInstanceAs (Decidable (_ ∧ _))

def leadsTo [Host] (w : World) (g : Gauges) : List Deed → World × Gauges
  | [] => (w, g)
  | d :: ds => (w.after d).leadsTo (g.absorb (w.told d)) ds

theorem Course.deeds [Host] (h : Course start w g)
    (hstart : ∀ k, 0 ≤ (start.counter k).raw ∧ (start.counter k).raw < 2 ^ 63) {ds : List Deed}
    (admits : w.AdmitsAll ds) (fits : w.Fits g ds) :
    Course start (w.leadsTo g ds).1 (w.leadsTo g ds).2 := by
  induction ds generalizing w g with
  | nil => exact h
  | cons d ds ih => exact ih (h.deed_of_gauges hstart admits.1 fits.1) admits.2 fits.2

/-- While the sums stay inside half a word, gauges are exact. -/
theorem gauges_exact (hstart : ∀ k, 0 ≤ (start.counter k).raw ∧ (start.counter k).raw < 2 ^ 63)
    (h : Course start w g) :
    (∀ k, (g.counter k).get = (start.counter k).get + w.holdings k) ∧
      (w.Cleared → ∀ k, (g.counter k).get = (start.counter k).get) := by
  refine ⟨h.get_eq hstart, fun hcleared k => ?_⟩
  rw [h.get_eq hstart, hcleared.holdings, Nat.add_zero]

section

attribute [local instance] Host.plain

/-- A pool with a slot and a stream, another for a device, a window that has grown, and one that
could not be made. -/
theorem gauges_exact_somewhere : ∃ w g, Course {} w g ∧ w.holdings .retired = 1 ∧
    w.holdings .live = 2 ∧ w.holdings .streamBlocks = 1 := by
  let ds : List Deed := [.pools (.make 0 {}), .pools (.use 0 (.step (.alloc 100 64))),
    .pools (.use 0 (.step (.openStream 1 4096))), .pools (.use 0 (.step (.streamAlloc 1 40 8))),
    .commons (.openDevice 7 {}), .windows (.make 3 ⟨.arena, 4096, .centered 65536, .remap⟩),
    .windows (.use 3 (.expandTo 8192)),
    .windows (.make 4 ⟨.roster, 65536, .centered 65536, .pinned⟩)]
  have hstart : ∀ k, 0 ≤ (Gauges.counter {} k).raw ∧ (Gauges.counter {} k).raw < 2 ^ 63 := by decide
  have hadmits : empty.AdmitsAll ds := by
    have hopens : ((empty.leadsTo {} (ds.take 2)).1.pools 0).all
        fun e => (e.lanes 1).isNone := by decide +kernel
    have hthree : ((empty.leadsTo {} (ds.take 5)).1.windows 3).isNone := by decide +kernel
    have hfour : ((empty.leadsTo {} (ds.take 7)).1.windows 4).isNone := by decide +kernel
    refine ⟨rfl, fun _ _ => ⟨trivial, trivial⟩, fun e he => ⟨?_, trivial⟩,
      fun _ _ => ⟨trivial, trivial⟩, trivial, Option.isNone_iff_eq_none.mp hthree,
      fun _ _ => trivial, Option.isNone_iff_eq_none.mp hfour, trivial⟩
    exact Option.isNone_iff_eq_none.mp ((Option.all_eq_true _ _).mp hopens e he)
  have hfits : empty.Fits {} ds := by decide +kernel
  have hreads : (empty.leadsTo {} ds).2.retired.get = 1 ∧ (empty.leadsTo {} ds).2.live.get = 2 ∧
      (empty.leadsTo {} ds).2.streamBlocks.get = 1 := by decide +kernel
  have hcourse := Course.start.deeds hstart hadmits hfits
  obtain ⟨hexact, -⟩ := gauges_exact hstart hcourse
  have hread : ∀ k, (empty.leadsTo {} ds).1.holdings k =
      ((empty.leadsTo {} ds).2.counter k).get := fun k => by
    have hzero : (Gauges.counter {} k).get = 0 := by cases k <;> rfl
    rw [hexact, hzero, Nat.zero_add]
  exact ⟨_, _, hcourse, (hread .retired).trans hreads.1, (hread .live).trans hreads.2.1,
    (hread .streamBlocks).trans hreads.2.2⟩

end

end World

end SlotArena
