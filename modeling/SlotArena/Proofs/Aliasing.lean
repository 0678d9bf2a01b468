import SlotArena.Proofs.Window

/-!
Old views and new ones. A window is put to use by deeds: growth, which the host may let down at any
point, and stores through any view that was ever handed out. `Later` is what becomes of a window:
what was usable stays usable, and a byte is the one that was put last at its offset, whichever view
it was put through. One deed keeps it (`Deed.later`), so any course of deeds does (`Course.later`),
and what is read through a superseded view is what is read through the newest one (`views_alias`).
-/

namespace SlotArena.Window

open Act

/-! ### Putting a window to use -/

inductive Deed
  | expandTo (size : Nat)
  | expandRange (center size : Nat)
  | fill (p : Place) (size : Nat) (byte : UInt8)
  | copy (p : Place) (source : Array UInt8)

namespace Deed

def act [Host] : Deed → Act Window Unit
  | .expandTo size => Window.expandTo size
  | .expandRange center size => Window.expandRange center size
  | .fill p size byte => Window.fill p size byte
  | .copy p source => Window.copy p source

/-- Growth may be asked for at any time and in any way; stores go to bytes that a view shows. -/
def Allowed (w : Window) : Deed → Prop
  | .expandTo _ | .expandRange .. => True
  | .fill p size _ => w.Shows p size
  | .copy p source => w.Shows p source.size

def put? (x : Int) : Deed → Option UInt8
  | .expandTo _ | .expandRange .. => none
  | .fill p size byte => if p.offset ≤ x ∧ x < p.offset + size then some byte else none
  | .copy p source => if p.offset ≤ x then source[(x - p.offset).toNat]? else none

end Deed

def lastPut? (deeds : List Deed) (x : Int) : Option UInt8 := deeds.reverse.findSome? (Deed.put? x)

/-- The byte that was put last at an offset, and zero where none was. -/
def lastPut (deeds : List Deed) (x : Int) : UInt8 := (lastPut? deeds x).getD 0

@[simp] theorem lastPut?_nil (x : Int) : lastPut? [] x = none := rfl

@[simp] theorem lastPut?_singleton (d : Deed) (x : Int) : lastPut? [d] x = d.put? x := by
  rw [lastPut?, List.reverse_singleton, List.findSome?_cons]
  cases d.put? x with
  | none => rfl
  | some b => rfl

/-- Later deeds come first. -/
theorem lastPut?_append (deeds more : List Deed) (x : Int) :
    lastPut? (deeds ++ more) x = (lastPut? more x).or (lastPut? deeds x) := by
  rw [lastPut?, List.reverse_append, List.findSome?_append]
  rfl

structure Round where
  host : Host
  deed : Deed

def plainly (deeds : List Deed) : List Round := deeds.map (Round.mk .plain)

theorem generous_of_plainly (deeds : List Deed) : ∀ r ∈ plainly deeds, r.host.Generous := by
  intro r hr
  obtain ⟨d, -, rfl⟩ := List.mem_map.mp hr
  exact (inferInstance : Host.plain.Generous)

/-- Deeds done one after the other. A deed that fails leaves what it leaves, and the next one
follows. -/
inductive Course : Window → List Round → Window → Prop
  | nil (w : Window) : Course w [] w
  | cons [host : Host] {w w' : Window} {d : Deed} {rounds : List Round} (allowed : d.Allowed w)
      (rest : Course (d.act.run w).state rounds w') : Course w (⟨host, d⟩ :: rounds) w'

structure Later (w : Window) (deeds : List Deed) (w' : Window) : Prop where
  anchored : w'.Anchored
  extent : w'.extent = w.extent
  strategy : w'.strategy = w.strategy
  lo_le : w'.lo ≤ w.lo
  le_hi : w.hi ≤ w'.hi
  shows : ∀ p n, w.Shows p n → w'.Shows p n
  byteAt : ∀ x, -(w.extent.back : Int) ≤ x → w'.byteAt x = (lastPut? deeds x).getD (w.byteAt x)

theorem Later.refl {w : Window} (h : w.Anchored) : w.Later [] w :=
  ⟨h, rfl, rfl, Int.le_refl _, Int.le_refl _, fun _ _ => id, fun _ _ => rfl⟩

theorem Later.trans {w w' w'' : Window} {deeds more : List Deed} (h : w.Later deeds w')
    (h' : w'.Later more w'') : w.Later (deeds ++ more) w'' where
  anchored := h'.anchored
  extent := h'.extent.trans h.extent
  strategy := h'.strategy.trans h.strategy
  lo_le := Int.le_trans h'.lo_le h.lo_le
  le_hi := Int.le_trans h.le_hi h'.le_hi
  shows p n hp := h'.shows p n (h.shows p n hp)
  byteAt x hx := by
    rw [h'.byteAt x (by rwa [h.extent]), h.byteAt x hx, lastPut?_append]
    cases lastPut? more x with
    | none => rfl
    | some b => rfl

theorem Anchored.offset_ge {w : Window} (h : w.Anchored) {p : Place} {n : Nat} (hp : w.Shows p n) :
    -(w.extent.back : Int) ≤ p.offset := by
  have hb := h.backed
  unfold Shows at hp
  unfold Backed at hb
  split at hp
  · rename_i views hviews
    rw [hviews] at hb
    obtain ⟨v, hv, hlo, -⟩ := hp
    have hstart := hb.2 v (List.mem_reverse.mp (List.mem_of_getElem? hv))
    omega
  · omega

/-! ### One deed -/

section

variable {w : Window} {b : Backing}

theorem Anchored.remains (h : w.Anchored) (hb : Stayed w.backing b) :
    w.Later [] { w with backing := b } := by
  obtain ⟨hanchored, hextends⟩ := h.stayed hb
  exact ⟨hanchored, rfl, hb.strategy, Int.le_refl _, Int.le_refl _, hextends.shows, fun _ _ => rfl⟩

theorem Anchored.followed (h : w.Anchored) {center size : Nat} (hcenter : w.center ≤ center)
    (hsize : center ≤ size) (hfront : w.front ≤ size - center) (hback : center ≤ w.extent.back)
    (hb : Followed w.extent center size w.backing b) : w.Later [] (w.grown center size b) := by
  obtain ⟨hanchored, hextends⟩ := h.grown hcenter hsize hfront hback hb
  refine ⟨hanchored, rfl, hb.strategy, ?_, ?_, hextends.shows, fun _ _ => rfl⟩
  · simp only [lo, Window.grown]
    omega
  · simp only [hi, front, Window.grown] at hfront ⊢
    omega

/-- Growth takes nothing away, whether it fails or not. -/
theorem Anchored.expandRange [Host] (h : w.Anchored) (center size : Nat) :
    (Window.expandRange center size).Meets w (fun _ => w.Later []) fun _ => w.Later [] := by
  have hrefl := Later.refl h
  rw [Window.expandRange, meets_bind, meets_get, meets_bind, meets_ensure]
  refine ⟨fun hbounds => ?_, fun _ => hrefl⟩
  obtain ⟨hcenter, hsize⟩ := hbounds
  rw [meets_bind, meets_ensure]
  refine ⟨fun hfront => ?_, fun _ => hrefl⟩
  rw [meets_bind, meets_ensure]
  refine ⟨fun _ => ?_, fun _ => hrefl⟩
  simp only [meets_bind, meets_ite, meets_refuse, onBacking]
  refine ⟨fun _ => hrefl, fun hback => ⟨fun _ => hrefl, fun _ => ?_⟩⟩
  rw [meets_focus]
  refine (expand_ends w.purpose w.extent center size w.backing).weaken (fun answer b hb => ?_)
    fun _ b hb => h.remains hb.1
  cases answer with
  | error why => exact h.remains hb
  | ok _ => exact h.followed hcenter hsize hfront (Nat.not_lt.mp hback) hb

theorem Anchored.stored (h : w.Anchored) {d : Deed} {m : Memory}
    (hput : ∀ x, -(w.extent.back : Int) ≤ x →
      Window.byteAt { w with memory := m } x = (d.put? x).getD (w.byteAt x)) :
    w.Later [d] { w with memory := m } :=
  ⟨⟨h.center_le_back, h.backed⟩, rfl, rfl, Int.le_refl _, Int.le_refl _, fun _ _ => id,
    fun x hx => by rw [lastPut?_singleton, hput x hx]⟩

end

theorem Later.of_nil {w w' : Window} (h : w.Later [] w') {d : Deed} (hd : ∀ x, d.put? x = none) :
    w.Later [d] w' :=
  { h with byteAt := fun x hx => by rw [h.byteAt x hx, lastPut?_singleton, hd, lastPut?_nil] }

theorem Deed.later [Host] {w : Window} {d : Deed} (h : w.Anchored) (hd : d.Allowed w) :
    w.Later [d] (d.act.run w).state := by
  cases d with
  | expandTo size => exact (h.expandRange w.center size).state.of_nil fun _ => rfl
  | expandRange center size => exact (h.expandRange center size).state.of_nil fun _ => rfl
  | fill p size byte =>
    refine h.stored fun x hx => ?_
    have hcovers : (Store.fill (w.position p).toNat size byte).Covers (w.extent.back + x).toNat ↔
        p.offset ≤ x ∧ x < p.offset + size := h.covers_iff rfl (h.offset_ge hd) hx
    rw [byteAt, Memory.byteAt_store]
    simp only [hcovers, put?]
    split
    · rfl
    · rfl
  | copy p source =>
    refine h.stored fun x hx => ?_
    refine (h.byteAt_written source (h.offset_ge hd) hx).trans ?_
    by_cases hlo : p.offset ≤ x
    · by_cases hhi : x < p.offset + source.size
      · have hlt : (x - p.offset).toNat < source.size := by omega
        simp [put?, hlo, hhi, hlt]
      · have hge : source.size ≤ (x - p.offset).toNat := by omega
        simp [put?, hlo, hhi, Array.getElem?_eq_none hge]
    · simp [put?, hlo]

/-! ### Courses of deeds -/

theorem Course.later {w w' : Window} {rounds : List Round} (h : w.Anchored)
    (hrun : Course w rounds w') : w.Later (rounds.map Round.deed) w' := by
  induction hrun with
  | nil w => exact Later.refl h
  | cons allowed _ ih =>
    have hfirst := Deed.later h allowed
    exact hfirst.trans (ih hfirst.anchored)

theorem newestView_pinned {w : Window} (h : w.strategy = .pinned) : w.newestView = 0 := by
  unfold strategy at h
  unfold newestView
  cases hw : w.backing with
  | remap views =>
    rw [hw] at h
    cases h
  | pinned lo hi pieces => rfl

/-- All that was ever usable through a base stays usable through it, and shows the bytes that were
put last, through any base; the base leads to the positions that the newest one leads to. A pinned
window has one base only. -/
theorem views_alias [Host] {purpose : Purpose} {initial : Nat} {e : Extent} {strategy : Strategy}
    {w w₁ w₂ : Window} {rounds more : List Round}
    (hcreate : ((create purpose initial e strategy).run ()).result = .ok w)
    (hrounds : Course w rounds w₁) (hmore : Course w₁ more w₂) :
    (∀ (x : Int) (n : Nat), w₁.lo ≤ x → x + n ≤ w₁.hi →
      w₂.Shows (w₁.place x) n ∧
        w₂.load (w₁.place x) n =
          (List.range n).map fun k => lastPut ((rounds ++ more).map Round.deed) (x + (k : Nat))) ∧
    (∀ x : Int, w₂.position (w₁.place x) = w₁.position (w₁.place x) ∧
      w₂.position (w₁.place x) = w₂.position (w₂.place x)) ∧
    (strategy = .pinned → ∀ x : Int, w₂.place x = w₁.place x) := by
  obtain ⟨⟨hw, hstrategy⟩, -, -, -, -, -, -, hblank⟩ :=
    (create_meets purpose initial e strategy).of_ok hcreate
  have h₁ := hrounds.later hw
  have h₂ := hmore.later h₁.anchored
  have h := h₁.trans h₂
  rw [← List.map_append] at h
  refine ⟨fun x n hlo hhi => ⟨h₂.shows _ _ (h₁.anchored.shows_place hlo hhi), ?_⟩, fun x => ?_,
    fun hpinned x => ?_⟩
  · have hback := h₁.anchored.center_le_back
    have hx : -(w₁.extent.back : Int) ≤ x := by
      simp only [lo] at hlo
      omega
    rw [h₂.anchored.load_eq (by rw [h₂.extent]; exact hx)]
    refine List.map_congr_left fun k _ => ?_
    have hk : -(w.extent.back : Int) ≤ x + (k : Nat) := by
      rw [← h₁.extent]
      omega
    rw [show (w₁.place x).offset = x from rfl, h.byteAt _ hk, byteAt, hblank, Memory.byteAt_blank]
    rfl
  · rw [h₂.anchored.position_eq, h₂.anchored.position_eq, h₁.anchored.position_eq, h₂.extent]
    exact ⟨rfl, rfl⟩
  · have hfirst : w₁.strategy = .pinned := h₁.strategy.trans (hstrategy.trans hpinned)
    rw [place, place, newestView_pinned hfirst, newestView_pinned (h₂.strategy.trans hfirst)]

section

attribute [local instance] Host.plain

/-- Three bases, the origin moved twice, growth that fails, and stores through the first base and
the last: all of it is seen through the one in the middle. -/
theorem views_alias_recentred : ∃ w w₁ w₂ : Window,
    ((create .arena 4096 ⟨8192, 8192⟩ .remap).run ()).result = .ok w ∧
    Course w (plainly [.copy ⟨0, 10⟩ #[1, 2], .expandRange 4096 8192]) w₁ ∧
    Course w₁ (plainly [.fill ⟨0, 11⟩ 1 9, .expandRange 8192 16384, .copy ⟨2, -6⟩ #[7],
      .expandTo 20480]) w₂ ∧
    w₁.place 0 = ⟨1, 0⟩ ∧ w₂.place 0 = ⟨2, 0⟩ ∧
    w₂.load (w₁.place 10) 3 = [1, 9, 0] ∧ w₂.load (w₁.place (-6)) 2 = [7, 0] := by
  have hrun : ∃ w w₁ w₂ : Window,
      ((create .arena 4096 ⟨8192, 8192⟩ .remap).run ()).result = .ok w ∧
      Course w (plainly [.copy ⟨0, 10⟩ #[1, 2], .expandRange 4096 8192]) w₁ ∧
      Course w₁ (plainly [.fill ⟨0, 11⟩ 1 9, .expandRange 8192 16384, .copy ⟨2, -6⟩ #[7],
        .expandTo 20480]) w₂ ∧
      w₁.lo = -4096 ∧ w₁.hi = 4096 ∧ w₁.place 0 = ⟨1, 0⟩ ∧ w₂.place 0 = ⟨2, 0⟩ :=
    ⟨_, _, _, rfl,
      .cons ⟨⟨8192, 4096, 0⟩, rfl, by decide, by decide⟩ <| .cons trivial <| .nil _,
      .cons ⟨⟨8192, 4096, 0⟩, rfl, by decide, by decide⟩ <| .cons trivial <|
        .cons ⟨⟨0, 16384, 8192⟩, rfl, by decide, by decide⟩ <| .cons trivial <| .nil _,
      rfl, rfl, rfl, rfl⟩
  obtain ⟨w, w₁, w₂, hcreate, hdeeds, hmore, hlo, hhi, hplace⟩ := hrun
  obtain ⟨hreads, -, -⟩ := views_alias hcreate hdeeds hmore
  refine ⟨w, w₁, w₂, hcreate, hdeeds, hmore, hplace.1, hplace.2, ?_, ?_⟩
  · exact (hreads 10 3 (by omega) (by omega)).2
  · exact (hreads (-6) 2 (by omega) (by omega)).2

end

end SlotArena.Window
