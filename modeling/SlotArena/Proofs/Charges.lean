import SlotArena.Proofs.Balance
import SlotArena.Proofs.Shape
import SlotArena.Roster

/-!
What windows, arenas and rosters charge. A window charges its extent, its size, twice over, and its
superseded views; an arena and a roster charge what their windows do. Making one of them charges
what it will charge from then on, or nothing if it fails (`opens`); giving it up takes all of that
back (`closes`); and everything that can be done to it in between is `Booked`.
-/

namespace SlotArena

open Act

/-! ### Windows -/

namespace Backing

def account : Account Backing where
  keeps _ := True
  charge b g := if g = .retired then b.retired else 0

theorem commitPiece_booked [Host] (owner : Purpose) (start stop : Nat) :
    Booked account (commitPiece owner start stop) := by
  refine booked_ite (booked_pure _) ?_
  cases Host.commit owner start (stop - start) with
  | error why => exact booked_pure _
  | ok _ =>
    refine Booked.bind (booked_modify fun b => .silent id fun g => ?_) fun _ => booked_pure _
    cases b with
    | remap views => rfl
    | pinned lo hi pieces => rfl

theorem shows_books (v : View) (views : List View) :
    account.Books (.remap views) (if views.isEmpty then [] else [.raise .retired 1])
      (.remap (v :: views)) := fun _ => by
  cases views with
  | nil => exact ⟨trivial, fun g => rfl, fun e he => absurd he List.not_mem_nil⟩
  | cons u views =>
    refine ⟨trivial, fun g => ?_, fun e he => ?_⟩
    · by_cases hg : g = .retired
      · subst hg
        simp [account, retired]
      · simp [account, hg, Ne.symm hg]
    · obtain rfl := List.mem_singleton.mp he
      exact (by decide : 1 ≤ Counter.largestDelta)

theorem expand_booked [Host] (owner : Purpose) (e : Extent) (center size : Nat) :
    Booked account (expand owner e center size) := by
  rintro (views | ⟨lo, hi, pieces⟩)
  · refine traces_get_bind (traces_ensure_bind account.path ?_)
    cases Host.showView owner (e.back - center) size with
    | error why => exact booked_pure _ _
    | ok _ =>
      have hbooks := shows_books ⟨e.back - center, size, center⟩ views
      simp only [Traces, leaves_bind, leaves_set, leaves_emit, leaves_pure, List.nil_append,
        List.append_nil]
      exact hbooks
  · refine traces_get_bind (traces_ensure_bind account.path ?_)
    refine booked_ite (.bind (commitPiece_booked _ _ _) ?_) (.bind (commitPiece_booked _ _ _) ?_) _
    all_goals
      rintro (why | _)
      · exact booked_pure _
      · refine booked_ite (.bind (booked_pure _) ?_) (.bind (commitPiece_booked _ _ _) ?_)
        all_goals
          rintro (why | _)
          · exact booked_pure _
          · refine Booked.bind (booked_modify fun b => .silent id fun g => ?_) fun _ =>
              booked_pure _
            cases b with
            | remap views => rfl
            | pinned lo hi pieces => rfl

end Backing

namespace Window

def charge (w : Window) : Gauge → Nat
  | .reserved => w.extent.total
  | .committed => w.size
  | .retired => w.backing.retired
  | g => if w.purpose.gauge = g then w.size else 0

/-- Windows lie inside their extents, which a file offset can span. -/
def account : Account Window where
  keeps w := w.center ≤ w.size ∧ w.size ≤ w.extent.total ∧ w.extent.total < Host.fileSpan
  charge := charge

theorem books_backing {w : Window} {es : List Event} {b : Backing}
    (h : Backing.account.Books w.backing es b) : account.Books w es { w with backing := b } :=
  fun hw => by
    obtain ⟨-, hnet, hmodest⟩ := h trivial
    refine ⟨hw, fun g => ?_, hmodest⟩
    have hg := hnet g
    cases g
    case retired => exact hg
    all_goals
      simp only [Backing.account, reduceCtorEq, if_false, Int.natCast_zero, Int.zero_add] at hg
      rw [← hg, Int.add_zero]
      rfl

theorem books_size {w : Window} {center size : Nat} (hback : w.center ≤ center ∧ center ≤ size)
    (hfront : w.size - w.center ≤ size - center) (htotal : size ≤ w.extent.total) (n : Note) :
    account.Books w [.raise .committed (size - w.size), .raise w.purpose.gauge (size - w.size),
      .note n] { w with center := center, size := size } := fun hw => by
  have hle : w.size ≤ size := by
    have hcenter := hw.1
    omega
  have hspan : w.extent.total < 2 ^ 63 := hw.2.2
  have hmodest : size - w.size ≤ Counter.largestDelta := by
    simp only [Counter.largestDelta]
    omega
  refine ⟨⟨hback.2, htotal, hw.2.2⟩, fun g => ?_, ?_⟩
  · obtain ⟨purpose, extent, center', size', backing, memory⟩ := w
    dsimp only at hle
    cases purpose <;> cases g <;> simp [account, charge, Purpose.gauge] <;> omega
  · simp only [List.mem_cons, List.not_mem_nil, or_false]
    rintro e (rfl | rfl | rfl)
    · exact hmodest
    · exact hmodest
    · trivial

theorem expandRange_booked [Host] (center size : Nat) :
    Booked account (expandRange center size) := by
  intro w
  refine traces_get_bind ?_
  simp only [Traces, leaves_bind, leaves_ensure, leaves_ite, leaves_refuse, List.nil_append]
  have hrefl : account.Books w [] w := account.path.refl w
  refine ⟨fun hback => ⟨fun hfront => ⟨fun _ => ⟨fun _ => hrefl, fun hback' => ⟨fun _ => hrefl,
    fun hfront' => ?_⟩⟩, fun _ => hrefl⟩, fun _ => hrefl⟩, fun _ => hrefl⟩
  simp only [onBacking, leaves_focus]
  refine Leaves.imp (Backing.expand_booked w.purpose w.extent center size w.backing)
    fun r es b hbooks => ?_
  have hstay := books_backing hbooks
  rcases r with fault | why | _
  · exact hstay
  · exact account.path.trans hstay (.note account _ _)
  · simp only [leaves_bind, leaves_emit, leaves_note, leaves_modify]
    have htotal : size ≤ w.extent.total := by
      rw [Extent.total]
      omega
    exact account.path.trans hstay
      (books_size (w := { w with backing := b }) hback hfront htotal _)

theorem fill_booked (p : Place) (size : Nat) (byte : UInt8) : Booked account (fill p size byte) :=
  booked_modify fun _ => .silent id fun g => by cases g <;> rfl

theorem copy_booked (p : Place) (source : Array UInt8) : Booked account (copy p source) :=
  booked_modify fun _ => .silent id fun g => by cases g <;> rfl

theorem charge_lt {w : Window} (h : account.keeps w) (hretired : w.backing.retired < 2 ^ 63)
    (g : Gauge) : w.charge g < 2 ^ 63 := by
  have hsize := h.2.1
  have htotal : w.extent.total < 2 ^ 63 := h.2.2
  cases g <;> simp only [charge] <;> first | omega | (split <;> omega)

theorem net_closing (w : Window) (g : Gauge) :
    Event.net g w.closing = -(w.charge g : Int) := by
  obtain ⟨purpose, extent, center, size, backing, memory⟩ := w
  cases purpose <;> cases g <;> simp [charge, closing, Purpose.gauge]

theorem closes : account.Closes closing := by
  intro w hlt _
  have hmodest : ∀ g, w.charge g ≤ Counter.largestDelta := fun g => Nat.le_sub_one_of_lt (hlt g)
  have hgauge : w.charge w.purpose.gauge = w.size := by
    obtain ⟨purpose, extent, center, size, backing, memory⟩ := w
    cases purpose <;> rfl
  refine ⟨account.keeps_none, fun g => ?_, ?_⟩
  · show (0 : Int) = (w.charge g : Int) + Event.net g w.closing
    rw [net_closing]
    omega
  · simp only [closing, List.mem_cons, List.not_mem_nil, or_false]
    rintro e (rfl | rfl | rfl | rfl)
    · exact hmodest .retired
    · exact hmodest .reserved
    · exact hmodest .committed
    · exact hgauge ▸ hmodest w.purpose.gauge

theorem backing_create_leaves [Host] (owner : Purpose) (e : Extent) (strategy : Strategy) :
    (Backing.create owner e strategy).Leaves () fun r es _ => es = [] ∧
      ∀ b, r = .ok b → e.total < Host.fileSpan ∧ b.retired = 0 := by
  rw [Backing.create, leaves_bind, Extent.total?, leaves_ofExcept]
  split
  · rename_i total htotal
    have hrefused : ∀ why, (refuse why : Act Unit Backing).Leaves () fun r es _ => es = [] ∧
        ∀ b, r = .ok b → e.total < Host.fileSpan ∧ b.retired = 0 := fun why =>
      ⟨rfl, fun b hb => by cases hb⟩
    have hmade : ∀ b, e.total < Host.fileSpan → b.retired = 0 →
        (pure b : Act Unit Backing).Leaves () fun r es _ => es = [] ∧
          ∀ b, r = .ok b → e.total < Host.fileSpan ∧ b.retired = 0 := fun b hlt hretired =>
      ⟨rfl, by rintro _ ⟨⟩; exact ⟨hlt, hretired⟩⟩
    obtain rfl : total = e.total := by
      split at htotal
      · exact (Except.ok.inj htotal).symm
      · cases htotal
    cases strategy with
    | remap =>
      cases hbacking : Host.makeBacking owner e.total with
      | error why => exact hrefused _
      | ok _ => exact hmade _ (Host.makeBacking_lt hbacking) rfl
    | pinned =>
      cases hbacking : Host.reserve owner e.total with
      | error why => exact hrefused _
      | ok _ => exact hmade _ (Host.reserve_lt hbacking) rfl
  · exact ⟨rfl, fun b hb => by cases hb⟩

theorem books_new {purpose : Purpose} {e : Extent} {size : Nat} {b b' : Backing} {es : List Event}
    (hb : b.retired = 0) (h : Backing.account.Books b es b') (hsize : size ≤ e.front)
    (htotal : e.total < Host.fileSpan) :
    account.optional.Books none
      (es ++ [.raise .reserved e.total, .raise .committed size, .raise purpose.gauge size])
      (some ⟨purpose, e, 0, size, b', .blank⟩) := fun _ => by
  obtain ⟨-, hnet, hmodest⟩ := h trivial
  have hspan : e.total < 2 ^ 63 := htotal
  have hle : size ≤ e.total := Nat.le_trans hsize (Nat.le_add_left ..)
  refine ⟨?_, fun g => ?_, fun ev hev => ?_⟩
  · rintro _ ⟨⟩
    exact ⟨Nat.zero_le _, hle, htotal⟩
  · have hg := hnet g
    rw [Event.net_append]
    cases purpose <;> cases g <;>
      simp [Account.optional, account, charge, Backing.account, Purpose.gauge, hb] at hg ⊢ <;> omega
  · have hlarge : ∀ n, n ≤ e.total → n ≤ Counter.largestDelta := fun n hn => by
      simp only [Counter.largestDelta]
      omega
    rcases List.mem_append.mp hev with hev | hev
    · exact hmodest ev hev
    · simp only [List.mem_cons, List.not_mem_nil, or_false] at hev
      rcases hev with rfl | rfl | rfl
      · exact hlarge _ (Nat.le_refl _)
      · exact hlarge _ hle
      · exact hlarge _ hle

theorem opens [Host] (purpose : Purpose) (initial : Nat) (e : Extent) (strategy : Strategy) :
    account.Opens (create purpose initial e strategy) := by
  have hrefl : account.optional.Books none [] none := account.optional.path.refl none
  simp only [Account.Opens, create, leaves_bind, leaves_ensure, leaves_ite, leaves_refuse,
    List.nil_append]
  refine ⟨fun _ => ⟨fun _ => ⟨fun _ => ⟨fun _ => hrefl, fun hfront => ?_⟩, fun _ => hrefl⟩,
    fun _ => hrefl⟩, fun _ => hrefl⟩
  refine (backing_create_leaves purpose e strategy).imp fun r es _ hmade => ?_
  obtain ⟨rfl, hb⟩ := hmade
  cases r with
  | error fault => exact hrefl
  | ok b =>
    obtain ⟨htotal, hretired⟩ := hb b rfl
    have hexpand := Backing.expand_booked purpose e 0 (roundUp initial pageSize) b
    unfold Traces Leaves at hexpand
    rcases hrun : (Backing.expand purpose e 0 (roundUp initial pageSize)).run b with ⟨r, b', es⟩
    dsimp only
    rw [hrun] at hexpand ⊢
    rcases r with fault | why | _
    · exact hrefl
    · exact hrefl
    · simp only [leaves_bind, leaves_emit, leaves_pure, List.nil_append, List.append_nil]
      exact books_new hretired hexpand (Nat.le_of_not_lt hfront) htotal

theorem charge_lt_of_create [Host] (purpose : Purpose) (initial : Nat) (e : Extent)
    (strategy : Strategy) {w : Window}
    (h : ((create purpose initial e strategy).run ()).result = .ok w) (g : Gauge) :
    w.charge g < 2 ^ 63 := by
  have hopens := opens purpose initial e strategy account.keeps_none
  rw [h] at hopens
  have hshown := (create_shown purpose initial e strategy).of_ok h
  refine charge_lt (hopens.1 w rfl) ?_ g
  rw [w.backing.retired_eq]
  omega

end Window

/-! ### Arenas -/

namespace Arena

def account : Account Arena := Window.account.on Arena.window

theorem onWindow_booked {α : Type} {x : Act Window α} (h : Booked Window.account x) :
    Booked account (onWindow x) := h.on fun _ _ => rfl

theorem grow_booked [Host] (side : Side) : Booked account (grow side) := by
  refine booked_get_bind fun a => (booked_ensure _ _).bind fun _ =>
    (booked_ensure _ _).bind fun _ => ?_
  have hanswer : Booked account (do cursorBytes ((← Act.get).reach side)) :=
    booked_get_bind fun _ => (booked_ensure _ _).bind fun _ => booked_pure _
  refine booked_ite ?_ hanswer
  exact (onWindow_booked (Window.expandRange_booked _ _)).bind fun _ =>
    (booked_note _).bind fun _ => hanswer

theorem books_withCursor (side : Side) (a : Arena) (c : Cursor) :
    account.Books a [] (withCursor side a c) := by
  cases side with
  | front => exact account.path.refl a
  | back => exact account.path.refl a

theorem claim_booked [Host] (side : Side) (n : Nat) : Booked account (claim side n) :=
  (booked_ensure _ _).bind fun _ => Cursor.claim_traces account.path
    (fun a c => books_withCursor side a c) (grow_booked side) n

theorem alloc_booked [Host] (n : Nat) : Booked account (alloc n) :=
  (claim_booked .front n).bind fun _ => booked_ite (booked_pure _) (booked_fail _)

theorem allocBack_booked [Host] (n : Nat) : Booked account (allocBack n) :=
  (claim_booked .back n).bind fun _ => booked_ite (booked_pure _) (booked_fail _)

theorem place_booked (offset : Int) : Booked account (place offset) :=
  booked_get_bind fun _ => (booked_ensure _ _).bind fun _ => booked_pure _

theorem opens [Host] (config : ArenaConfig) : account.Opens (create config) := by
  refine .ensure_bind fun _ => ?_
  rw [roundToPow2, bind_assoc]
  refine .ensure_bind fun _ => ?_
  exact Account.Opens.bind_pure (Window.opens _ _ _ _) fun _ => rfl

theorem closes : account.Closes closing := Window.closes.on Arena.window

theorem charge_lt_of_create [Host] {config : ArenaConfig} {a : Arena}
    (h : ((create config).run ()).result = .ok a) (g : Gauge) : a.window.charge g < 2 ^ 63 := by
  obtain ⟨-, -, h⟩ := result_bind_eq_ok.mp h
  obtain ⟨initial, -, h⟩ := result_bind_eq_ok.mp h
  obtain ⟨w, hw, h⟩ := result_bind_eq_ok.mp h
  obtain rfl := Except.ok.inj h
  exact Window.charge_lt_of_create _ _ _ _ hw g

end Arena

/-! ### Rosters -/

namespace Roster

def account : Account Roster := Window.account.on Roster.window

theorem get_booked (i : Nat) : Booked account (get i) :=
  booked_get_bind fun _ => (booked_ensure _ _).bind fun _ => booked_pure _

theorem edit_booked (i : Nat) (f : Record → Record) : Booked account (edit i f) :=
  (get_booked i).bind fun _ => booked_modify fun r => account.path.refl r

theorem widen_booked [Host] (size : Nat) : Booked account (widen size) := by
  refine booked_get_bind fun r => booked_ite ?_ (booked_pure _)
  have hexpand : Booked Window.account (Window.expandTo size) :=
    booked_get_bind fun w => Window.expandRange_booked w.center size
  exact (hexpand.on fun _ _ => rfl).bind fun _ => booked_get_bind fun _ => booked_note _

theorem settle_booked (used : Nat) (exhausted : Refusal) : Booked account (settle used exhausted) :=
  booked_get_bind fun _ => booked_ite (booked_fail _) (booked_pure _)

theorem grow_booked [Host] : Booked account grow := by
  refine booked_get_bind fun r => booked_ite (booked_ite ?_ ?_) (settle_booked _ _)
  · exact (booked_note _).bind fun _ => booked_fail _
  · exact (widen_booked _).bind fun _ => settle_booked _ _

theorem books_cursor (r : Roster) (c : Cursor) : account.Books r [] { r with cursor := c } :=
  account.path.refl r

theorem add_booked [Host] (count : Nat) : Booked account (add count) :=
  (booked_ensure _ _).bind fun _ =>
    Booked.bind (Cursor.claim_traces account.path books_cursor grow_booked count) fun _ =>
      Booked.bind (booked_modify fun r => account.path.refl r) fun _ => booked_pure _

theorem opens [Host] (initial capacity : Nat) (strategy : Strategy) :
    account.Opens (create initial capacity strategy) :=
  .ensure_bind fun _ => Account.Opens.bind_pure (Window.opens _ _ _ _) fun _ => rfl

theorem closes : account.Closes closing := Window.closes.on Roster.window

end Roster

namespace Chain

theorem push_booked (c : Chain) (first count : Nat) :
    Booked Roster.account (c.push first count : Act Roster Chain) :=
  (booked_ensure _ _).bind fun _ => (booked_ensure _ _).bind fun _ =>
    (booked_sweep (fun i => Roster.edit_booked i _) _ _).bind fun _ =>
      (Roster.edit_booked _ _).bind fun _ => booked_pure _

theorem pop_booked (c : Chain) : Booked Roster.account (c.pop : Act Roster (Option Nat × Chain)) :=
  booked_ite (booked_pure _) (((Roster.get_booked _).bind fun _ => booked_pure _).bind fun _ =>
    booked_pure _)

end Chain

end SlotArena
