import SlotArena.Proofs.Meets
import SlotArena.Window

/-!
Windows that grow. `Sound` is what a window keeps: whole pages inside the extent, and a backing that
agrees with them. In a sound window every place leads to the position that its offset has, whichever
view it goes through (`position_eq`), and growth that the extent admits succeeds and takes nothing
away (`expandRange_meets`).
-/

namespace SlotArena.Window

open Act

/-- The backing makes exactly the window usable, and all of its views lead an offset to the same
position. -/
def Backed (w : Window) : Prop :=
  match w.backing with
  | .remap views =>
      views.head? = some ⟨w.extent.back - w.center, w.size, w.center⟩ ∧
        ∀ v ∈ views, v.start + v.origin = w.extent.back
  | .pinned lo hi _ => lo = w.extent.back - w.center ∧ hi = lo + w.size

structure Sound (w : Window) : Prop where
  aligned : w.extent.Aligned
  small : w.extent.total < Host.addressSpan
  center_le_back : w.center ≤ w.extent.back
  front_le_front : w.size - w.center ≤ w.extent.front
  center_le_size : w.center ≤ w.size
  size_pos : 0 < w.size
  page_dvd_center : pageSize ∣ w.center
  page_dvd_size : pageSize ∣ w.size
  backed : w.Backed

/-- The part of soundness that decides where places lead. -/
structure Anchored (w : Window) : Prop where
  center_le_back : w.center ≤ w.extent.back
  backed : w.Backed

theorem Sound.anchored {w : Window} (h : w.Sound) : w.Anchored := ⟨h.center_le_back, h.backed⟩

/-- The `size` bytes at a place are usable through the view that the place goes through. -/
def Shows (w : Window) (p : Place) (size : Nat) : Prop :=
  match w.backing with
  | .remap views =>
      ∃ v, views.reverse[p.view]? = some v ∧ -(v.origin : Int) ≤ p.offset ∧
        p.offset + size ≤ (v.size : Int) - v.origin
  | .pinned lo hi _ =>
      (lo : Int) ≤ w.extent.back + p.offset ∧ w.extent.back + p.offset + size ≤ hi

/-- `w'` is `w` with more of it usable. -/
structure Extends (w w' : Window) : Prop where
  extent : w'.extent = w.extent
  memory : w'.memory = w.memory
  center_le : w.center ≤ w'.center
  front_le : w.size - w.center ≤ w'.size - w'.center
  shows : ∀ p n, w.Shows p n → w'.Shows p n

theorem Extends.refl (w : Window) : w.Extends w :=
  ⟨rfl, rfl, Nat.le_refl _, Nat.le_refl _, fun _ _ => id⟩

theorem Extends.trans {w w' w'' : Window} (h : w.Extends w') (h' : w'.Extends w'') :
    w.Extends w'' where
  extent := h'.extent.trans h.extent
  memory := h'.memory.trans h.memory
  center_le := Nat.le_trans h.center_le h'.center_le
  front_le := Nat.le_trans h.front_le h'.front_le
  shows p n hp := h'.shows p n (h.shows p n hp)

section

variable {w : Window}

/-- All views of a window alias: only the offset decides where a place leads. -/
theorem Anchored.position_eq (h : w.Anchored) (p : Place) :
    w.position p = w.extent.back + p.offset := by
  have hb := h.backed
  unfold Backed at hb
  unfold position
  split at hb
  · rename_i views hviews
    rw [hviews]
    dsimp only
    split
    · rename_i v hv
      have hmem : v ∈ views := List.mem_reverse.mp (List.mem_of_getElem? hv)
      have hstart := hb.2 v hmem
      rw [View.position]
      omega
    · rfl
  · rename_i hpinned
    rw [hpinned]

theorem position_eq (h : w.Sound) (p : Place) : w.position p = w.extent.back + p.offset :=
  h.anchored.position_eq p

theorem Anchored.shows_place (h : w.Anchored) {offset : Int} {n : Nat} (hlo : w.lo ≤ offset)
    (hhi : offset + n ≤ w.hi) : w.Shows (w.place offset) n := by
  have hb := h.backed
  have hcenter := h.center_le_back
  unfold Backed at hb
  simp only [lo, hi] at hlo hhi
  unfold Shows
  split at hb
  · rename_i views hviews
    obtain ⟨v, rest, rfl⟩ : ∃ v rest, views = v :: rest := by
      cases views with
      | nil => simp at hb
      | cons v rest => exact ⟨v, rest, rfl⟩
    obtain rfl : v = ⟨w.extent.back - w.center, w.size, w.center⟩ := by simpa using hb.1
    refine ⟨⟨w.extent.back - w.center, w.size, w.center⟩, ?_, ?_, ?_⟩
    · have hnewest : w.newestView = rest.length := by
        simp [newestView, hviews, Backing.retired]
      simp [place, hnewest]
    · simpa [place] using hlo
    · simpa [place] using hhi
  · rename_i lo hi pieces hpinned
    simp only [place]
    omega

theorem shows_place (h : w.Sound) {offset : Int} {n : Nat} (hlo : w.lo ≤ offset)
    (hhi : offset + n ≤ w.hi) : w.Shows (w.place offset) n :=
  h.anchored.shows_place hlo hhi

theorem shows_inside {p : Place} {m n k : Nat} (h : w.Shows p n) (hk : k + m ≤ n) :
    w.Shows { p with offset := p.offset + k } m := by
  unfold Shows at h ⊢
  split at h
  · obtain ⟨v, hv, hlo, hhi⟩ := h
    refine ⟨v, hv, ?_, ?_⟩
    · dsimp only
      omega
    · dsimp only
      omega
  · dsimp only
    omega

end

/-! ### Contents -/

def byteAt (w : Window) (x : Int) : UInt8 := w.memory.byteAt (w.extent.back + x).toNat

theorem Extends.byteAt {w w' : Window} (h : w.Extends w') (x : Int) : w'.byteAt x = w.byteAt x := by
  rw [Window.byteAt, Window.byteAt, h.memory, h.extent]

theorem Anchored.load_eq {w : Window} (h : w.Anchored) {p : Place}
    (hp : -(w.extent.back : Int) ≤ p.offset) (n : Nat) :
    w.load p n = (List.range n).map fun k => w.byteAt (p.offset + (k : Nat)) := by
  rw [load, h.position_eq, Memory.read, List.range'_eq_map_range, List.map_map]
  refine List.map_congr_left fun k _ => ?_
  have hk : (w.extent.back + p.offset).toNat + k =
      (w.extent.back + (p.offset + (k : Nat))).toNat := by
    omega
  rw [Function.comp_apply, hk]
  rfl

theorem load_eq {w : Window} (h : w.Sound) {p : Place} (hp : -(w.extent.back : Int) ≤ p.offset)
    (n : Nat) : w.load p n = (List.range n).map fun k => w.byteAt (p.offset + (k : Nat)) :=
  h.anchored.load_eq hp n

theorem Anchored.covers_iff {w : Window} (h : w.Anchored) {p : Place} {s : Store}
    (hs : s.start = (w.position p).toNat) (hp : -(w.extent.back : Int) ≤ p.offset) {x : Int}
    (hx : -(w.extent.back : Int) ≤ x) :
    s.Covers (w.extent.back + x).toNat ↔ p.offset ≤ x ∧ x < p.offset + s.size := by
  rw [h.position_eq] at hs
  simp only [Store.Covers, Store.stop, hs]
  omega

def written (w : Window) (p : Place) (source : Array UInt8) : Window :=
  { w with memory := w.memory.store (.copy (w.position p).toNat source) }

theorem Sound.withMemory {w : Window} (h : w.Sound) (m : Memory) : Sound { w with memory := m } :=
  ⟨h.aligned, h.small, h.center_le_back, h.front_le_front, h.center_le_size, h.size_pos,
    h.page_dvd_center, h.page_dvd_size, h.backed⟩

theorem written_sound {w : Window} (h : w.Sound) (p : Place) (source : Array UInt8) :
    (w.written p source).Sound :=
  h.withMemory _

theorem Anchored.byteAt_written {w : Window} (h : w.Anchored) {p : Place} (source : Array UInt8)
    (hp : -(w.extent.back : Int) ≤ p.offset) {x : Int} (hx : -(w.extent.back : Int) ≤ x) :
    (w.written p source).byteAt x =
      if p.offset ≤ x ∧ x < p.offset + source.size then source.getD (x - p.offset).toNat 0
      else w.byteAt x := by
  have hcovers : (Store.copy (w.position p).toNat source).Covers (w.extent.back + x).toNat ↔
      p.offset ≤ x ∧ x < p.offset + source.size := h.covers_iff rfl hp hx
  rw [byteAt, written]
  dsimp only
  rw [Memory.byteAt_store]
  simp only [hcovers]
  split
  · have hsub : (w.extent.back + x).toNat - (w.position p).toNat = (x - p.offset).toNat := by
      rw [h.position_eq]
      omega
    rw [Store.byteAt, hsub]
  · rfl

theorem byteAt_written {w : Window} (h : w.Sound) {p : Place} (source : Array UInt8)
    (hp : -(w.extent.back : Int) ≤ p.offset) {x : Int} (hx : -(w.extent.back : Int) ≤ x) :
    (w.written p source).byteAt x =
      if p.offset ≤ x ∧ x < p.offset + source.size then source.getD (x - p.offset).toNat 0
      else w.byteAt x :=
  h.anchored.byteAt_written source hp hx

/-! ### Growing -/

/-- The backing `b` became `b'` when it followed a window of `size` bytes, `center` of them below
the origin. -/
def Followed (e : Extent) (center size : Nat) (b b' : Backing) : Prop :=
  match b with
  | .remap views => b' = .remap (⟨e.back - center, size, center⟩ :: views)
  | .pinned .. => ∃ pieces, b' = .pinned (e.back - center) (e.back - center + size) pieces

/-- The backing `b` became `b'` when it could not follow: a piece more may be committed, but no more
is usable. -/
def Stayed (b b' : Backing) : Prop :=
  match b with
  | .remap _ => b' = b
  | .pinned lo hi _ => ∃ pieces, b' = .pinned lo hi pieces

/-- How a backing that was to follow a window answers, and what becomes of it. -/
def Ended (e : Extent) (center size : Nat) (b : Backing) (answer : Except HostError Unit)
    (b' : Backing) : Prop :=
  match answer with
  | .ok () => Followed e center size b b'
  | .error _ => Stayed b b'

theorem Followed.strategy {e : Extent} {center size : Nat} {b b' : Backing}
    (h : Followed e center size b b') : b'.strategy = b.strategy := by
  cases b with
  | remap views =>
    rw [show b' = _ from h]
    rfl
  | pinned lo hi pieces =>
    obtain ⟨pieces', rfl⟩ := h
    rfl

theorem Stayed.refl (b : Backing) : Stayed b b := by
  cases b with
  | remap views => rfl
  | pinned lo hi pieces => exact ⟨pieces, rfl⟩

theorem Stayed.strategy {b b' : Backing} (h : Stayed b b') : b'.strategy = b.strategy := by
  cases b with
  | remap views =>
    rw [show b' = _ from h]
  | pinned lo hi pieces =>
    obtain ⟨pieces', rfl⟩ := h
    rfl

theorem Stayed.retired {b b' : Backing} (h : Stayed b b') : b'.retired = b.retired := by
  cases b with
  | remap views =>
    rw [show b' = _ from h]
  | pinned lo hi pieces =>
    obtain ⟨pieces', rfl⟩ := h
    rfl

theorem Stayed.position_eq {w : Window} {b : Backing} (h : Stayed w.backing b) (p : Place) :
    ({ w with backing := b } : Window).position p = w.position p := by
  cases hw : w.backing with
  | remap views =>
    rw [hw] at h
    simp only [position, show b = _ from h, hw]
  | pinned lo hi pieces =>
    rw [hw] at h
    obtain ⟨pieces', rfl⟩ := h
    simp only [position, hw]

theorem commitPiece_stays [Host] (owner : Purpose) (start stop lo hi : Nat)
    (pieces : List (Nat × Nat)) :
    (Backing.commitPiece owner start stop).Meets (.pinned lo hi pieces)
      (fun _ b => ∃ pieces', b = .pinned lo hi pieces') Never := by
  rw [Backing.commitPiece, meets_ite]
  refine ⟨fun _ => ⟨pieces, rfl⟩, fun _ => ?_⟩
  cases Host.commit owner start (stop - start) with
  | error why => exact ⟨pieces, rfl⟩
  | ok _ => exact ⟨_, rfl⟩

/-- A backing is asked for no less than it shows, and for no more than the extent has. -/
def Asks (e : Extent) (center size : Nat) : Backing → Prop
  | .remap _ => e.back - center + size ≤ e.total
  | .pinned lo hi _ => e.back - center ≤ lo ∧ hi ≤ e.back - center + size

/-- A backing follows the window or is as good as untouched, whatever is asked of it and whatever
the host answers. -/
theorem expand_ends [Host] (owner : Purpose) (e : Extent) (center size : Nat) (b : Backing) :
    (Backing.expand owner e center size).Meets b (Ended e center size b)
      fun _ b' => Stayed b b' ∧ ¬ Asks e center size b := by
  rw [Backing.expand, meets_bind, meets_get]
  cases b with
  | remap views =>
    dsimp only
    rw [meets_bind, meets_ensure]
    refine ⟨fun _ => ?_, fun houtside => ⟨Stayed.refl _, houtside⟩⟩
    cases Host.showView owner (e.back - center) size with
    | error why => exact Stayed.refl (.remap views)
    | ok _ =>
      simp only [meets_bind, meets_set, meets_emit, meets_pure]
      rfl
  | pinned lo hi pieces =>
    dsimp only
    rw [meets_bind, meets_ensure]
    refine ⟨fun _ => ?_, fun hless => ⟨Stayed.refl _, hless⟩⟩
    -- pieces that were committed stay so, but the bounds move only once all of them are there
    by_cases hlohi : lo = hi
    · simp only [hlohi, if_true]
      refine (commitPiece_stays ..).bind_sure fun first _ hb => ?_
      obtain ⟨pieces', rfl⟩ := hb
      cases first with
      | error why => exact ⟨pieces', rfl⟩
      | ok _ => exact ⟨pieces', rfl⟩
    · simp only [hlohi, if_false]
      refine (commitPiece_stays ..).bind_sure fun first _ hb => ?_
      obtain ⟨pieces', rfl⟩ := hb
      cases first with
      | error why => exact ⟨pieces', rfl⟩
      | ok _ =>
        refine (commitPiece_stays ..).bind_sure fun second _ hb => ?_
        obtain ⟨pieces'', rfl⟩ := hb
        cases second with
        | error why => exact ⟨pieces'', rfl⟩
        | ok _ => exact ⟨pieces'', rfl⟩

def grown (w : Window) (center size : Nat) (b : Backing) : Window :=
  { w with center := center, size := size, backing := b }

theorem grown_sound {w : Window} (h : w.Sound) {center size : Nat} {b : Backing}
    (hcenter : w.center ≤ center) (hsize : center ≤ size) (hfront : w.front ≤ size - center)
    (hpages : pageSize ∣ center ∧ pageSize ∣ size) (hback : center ≤ w.extent.back)
    (hroom : size - center ≤ w.extent.front) (hb : (w.grown center size b).Backed) :
    (w.grown center size b).Sound where
  aligned := h.aligned
  small := h.small
  center_le_back := hback
  front_le_front := hroom
  center_le_size := hsize
  size_pos := by
    have hw := h.size_pos
    have hc := h.center_le_size
    simp only [grown, front] at hfront ⊢
    omega
  page_dvd_center := hpages.1
  page_dvd_size := hpages.2
  backed := hb

theorem Anchored.grown {w : Window} (h : w.Anchored) {center size : Nat} {b : Backing}
    (hcenter : w.center ≤ center) (hsize : center ≤ size) (hfront : w.front ≤ size - center)
    (hback : center ≤ w.extent.back) (hb : Followed w.extent center size w.backing b) :
    (w.grown center size b).Anchored ∧ w.Extends (w.grown center size b) := by
  have hbacked := h.backed
  simp only [front] at hfront
  cases hw : w.backing with
  | remap views =>
    simp only [Followed, hw] at hb
    simp only [Backed, hw] at hbacked
    subst hb
    refine ⟨⟨hback, rfl, fun v hv => ?_⟩, rfl, rfl, hcenter, hfront, fun p n hp => ?_⟩
    · rcases List.mem_cons.mp hv with rfl | hv
      · simp only [Window.grown]
        omega
      · exact hbacked.2 v hv
    · simp only [Shows, hw] at hp
      obtain ⟨v, hv, hp⟩ := hp
      obtain ⟨hlt, -⟩ := List.getElem?_eq_some_iff.mp hv
      refine ⟨v, ?_, hp⟩
      rw [List.reverse_cons, List.getElem?_append_left hlt]
      exact hv
  | pinned lo hi pieces =>
    simp only [Followed, hw] at hb
    simp only [Backed, hw] at hbacked
    obtain ⟨pieces', rfl⟩ := hb
    obtain ⟨rfl, rfl⟩ := hbacked
    refine ⟨⟨hback, rfl, rfl⟩, rfl, rfl, hcenter, hfront, fun p n hp => ?_⟩
    simp only [Shows, hw] at hp
    simp only [Shows, Window.grown]
    omega

theorem Anchored.stayed {w : Window} (h : w.Anchored) {b : Backing} (hb : Stayed w.backing b) :
    Anchored { w with backing := b } ∧ w.Extends { w with backing := b } := by
  have hbacked := h.backed
  cases hw : w.backing with
  | remap views =>
    simp only [Stayed, hw] at hb
    subst hb
    rw [← hw]
    exact ⟨h, .refl w⟩
  | pinned lo hi pieces =>
    simp only [Stayed, hw] at hb
    simp only [Backed, hw] at hbacked
    obtain ⟨pieces', rfl⟩ := hb
    refine ⟨⟨h.center_le_back, hbacked⟩, rfl, rfl, Nat.le_refl _, Nat.le_refl _, fun p n hp => ?_⟩
    simpa only [Shows, hw] using hp

theorem Sound.stayed {w : Window} (h : w.Sound) {b : Backing} (hb : Stayed w.backing b) :
    Sound { w with backing := b } :=
  ⟨h.aligned, h.small, h.center_le_back, h.front_le_front, h.center_le_size, h.size_pos,
    h.page_dvd_center, h.page_dvd_size, (h.anchored.stayed hb).1.backed⟩

/-- What a window that is refused is left as: as it was where there is no space, which needs
`cramped`, and with a piece more committed for nothing, at most, where the host declines. -/
inductive Refused [Host] (w : Window) (cramped : Prop) : Refusal → Window → Prop
  | space (h : cramped) (requested reserved : Nat) :
      w.Refused cramped (.outOfReservedSpace requested reserved) w
  | host (why : HostError) (mean : ¬ Host.Generous) {b : Backing} (stayed : Stayed w.backing b) :
      w.Refused cramped (.growth why) { w with backing := b }

section

variable [Host] {w w' : Window} {cramped : Prop} {why : Refusal}

theorem Refused.mono {cramped' : Prop} (h : w.Refused cramped why w')
    (himp : cramped → cramped') : w.Refused cramped' why w' := by
  cases h with
  | space hcramped requested reserved => exact .space (himp hcramped) requested reserved
  | host why mean stayed => exact .host why mean stayed

theorem Refused.sound (h : w.Refused cramped why w') (hw : w.Sound) : w'.Sound := by
  cases h with
  | space => exact hw
  | host why mean stayed => exact hw.stayed stayed

theorem Refused.extends_window (h : w.Refused cramped why w') (hw : w.Sound) : w.Extends w' := by
  cases h with
  | space => exact .refl w
  | host why mean stayed => exact (hw.anchored.stayed stayed).2

theorem Refused.of_space {requested reserved : Nat} (h : w.Refused cramped why w')
    (hwhy : why = .outOfReservedSpace requested reserved) : cramped := by
  cases h with
  | space hcramped => exact hcramped
  | host => cases hwhy

theorem Refused.stays (h : w.Refused cramped why w') :
    ∃ b, Stayed w.backing b ∧ w' = { w with backing := b } := by
  cases h with
  | space => exact ⟨w.backing, .refl _, rfl⟩
  | host why mean stayed => exact ⟨_, stayed, rfl⟩

theorem Refused.of_generous [Host.Generous] (h : w.Refused cramped why w') : cramped ∧ w' = w := by
  cases h with
  | space hcramped => exact ⟨hcramped, rfl⟩
  | host why mean => exact absurd ‹Host.Generous› mean

end

/-- The backing of a window follows it, and keeps all that was shown before, or it stays. -/
theorem expand_meets [Host] {w : Window} (h : w.Sound) {center size : Nat}
    (hcenter : w.center ≤ center) (hsize : center ≤ size) (hfront : w.front ≤ size - center)
    (hback : center ≤ w.extent.back) (hroom : size - center ≤ w.extent.front) :
    (Backing.expand w.purpose w.extent center size).Meets w.backing
      (Ended w.extent center size w.backing) Never := by
  have hasks : Asks w.extent center size w.backing := by
    have hb := h.backed
    simp only [front] at hfront
    cases hw : w.backing with
    | remap views =>
      simp only [Asks, Extent.total]
      omega
    | pinned lo hi pieces =>
      have hcs := h.center_le_size
      have hcb := h.center_le_back
      simp only [Backed, hw] at hb
      simp only [Asks]
      omega
  exact (expand_ends ..).weaken (fun _ _ => id) fun _ _ hbad => hbad.2 hasks

theorem commitPiece_granted [Host] [Host.Generous] (owner : Purpose) {start : Nat}
    (whole : pageSize ∣ start) (stop : Nat) (b : Backing) :
    (Backing.commitPiece owner start stop).Meets b (fun answer _ => answer = .ok ()) Never := by
  rw [Backing.commitPiece, Host.commit_ok owner _ whole, meets_ite]
  exact ⟨fun _ => rfl, fun _ => rfl⟩

theorem expand_granted [Host] [Host.Generous] {w : Window} (h : w.Sound) {center size : Nat}
    (hsize : center ≤ size) (hpages : pageSize ∣ center ∧ pageSize ∣ size) (hpos : 0 < size)
    (hback : center ≤ w.extent.back) (hroom : size - center ≤ w.extent.front) :
    (Backing.expand w.purpose w.extent center size).Meets w.backing
      (fun answer _ => answer = .ok ()) fun _ _ => True := by
  have hstart : pageSize ∣ w.extent.back - center := Nat.dvd_sub h.aligned.1 hpages.1
  have hsmall := h.small
  have hb := h.backed
  simp only [Extent.total, Host.addressSpan] at hsmall
  rw [Backing.expand, meets_bind, meets_get]
  cases hw : w.backing with
  | remap views =>
    simp only [meets_bind, meets_ensure, implies_true, and_true]
    intro _
    rw [Host.showView_ok w.purpose (by simp only [Host.fileSpan]; omega) hstart hpos
      (by simp only [Host.addressSpan]; omega)]
    rfl
  | pinned lo hi pieces =>
    simp only [Backed, hw] at hb
    have hstop : pageSize ∣ hi := by
      rw [hb.2, hb.1]
      exact Nat.dvd_add (Nat.dvd_sub h.aligned.1 h.page_dvd_center) h.page_dvd_size
    simp only [meets_bind, meets_ensure, implies_true, and_true]
    intro _
    -- both pieces begin at whole pages
    by_cases hlohi : lo = hi
    · simp only [hlohi, if_true]
      refine (commitPiece_granted _ hstart _ _).bind_sure fun _ _ hfirst => ?_
      subst hfirst
      rfl
    · simp only [hlohi, if_false]
      refine (commitPiece_granted _ hstart _ _).bind_sure fun _ _ hfirst => ?_
      subst hfirst
      refine (commitPiece_granted _ hstop _ _).bind_sure fun _ _ hsecond => ?_
      subst hsecond
      rfl

/-- Growth either happens, or the window is refused. -/
theorem expandRange_meets [Host] {w : Window} (h : w.Sound) {center size : Nat}
    (hcenter : w.center ≤ center) (hsize : center ≤ size) (hfront : w.front ≤ size - center)
    (hpages : pageSize ∣ center ∧ pageSize ∣ size) :
    (expandRange center size).Meets w
      (fun _ w' => w'.Sound ∧ w.Extends w' ∧ w'.center = center ∧ w'.size = size)
      (refusing (w.Refused (w.extent.back < center ∨ w.extent.front < size - center))) := by
  simp only [expandRange, meets_bind, meets_get, meets_ensure_refusing, meets_ite, meets_refuse,
    refusing_refused]
  refine ⟨⟨hcenter, hsize⟩, hfront, hpages, fun hback => .space (Or.inl hback) .., fun hback =>
    ⟨fun hroom => .space (Or.inr hroom) .., fun hroom => ?_⟩⟩
  rw [Nat.not_lt] at hback hroom
  simp only [onBacking, meets_focus_refusing]
  have hpos : 0 < size := by
    have hw := h.size_pos
    have hcs := h.center_le_size
    simp only [front] at hfront
    omega
  have hgranted := Meets.under fun hgenerous : Host.Generous =>
    expand_granted h hsize hpages hpos hback hroom
  refine (hgranted.and_answers (expand_meets h hcenter hsize hfront hback hroom)).sure
    fun answer b hres => ?_
  obtain ⟨hgranted, hb⟩ := hres
  cases answer with
  | error why =>
    simp only [meets_bind, meets_note, meets_refuse, refusing_refused]
    have hmean : ¬ Host.Generous := fun hgenerous => by cases hgranted hgenerous
    exact .host why hmean hb
  | ok _ =>
    obtain ⟨hanchored, hextends⟩ := h.anchored.grown hcenter hsize hfront hback hb
    simp only [meets_bind, meets_emit, meets_note, meets_modify]
    exact ⟨grown_sound h hcenter hsize hfront hpages hback hroom hanchored.backed, hextends,
      trivial, trivial⟩

/-! ### Making -/

/-- A backing that shows nothing yet. -/
def Bare (e : Extent) (b : Backing) : Prop := b = .remap [] ∨ b = .pinned e.back e.back []

theorem Bare.backed {e : Extent} {size : Nat} {b b' : Backing} (h : Bare e b)
    (hb : Followed e 0 size b b') (purpose : Purpose) :
    (⟨purpose, e, 0, size, b', .blank⟩ : Window).Backed := by
  rcases h with rfl | rfl
  · rw [show b' = _ from hb]
    refine ⟨rfl, fun v hv => ?_⟩
    rw [List.mem_singleton.mp hv]
    rfl
  · obtain ⟨pieces, rfl⟩ := hb
    exact ⟨rfl, rfl⟩

theorem Bare.expand_granted [Host] [Host.Generous] (owner : Purpose) {e : Extent} {size : Nat}
    {b : Backing} (hbare : Bare e b) (ha : e.Aligned) (hsmall : e.total < Host.addressSpan)
    (hroom : size ≤ e.front) (hpos : 0 < size) :
    (Backing.expand owner e 0 size).Meets b
      (fun answer b' => answer = .ok () ∧ Followed e 0 size b b') Never := by
  have hstart : pageSize ∣ e.back - 0 := ha.1
  simp only [Extent.total, Host.addressSpan] at hsmall
  rw [Backing.expand, meets_bind, meets_get]
  rcases hbare with rfl | rfl
  · simp only [meets_bind, meets_ensure]
    refine ⟨fun _ => ?_, fun houtside => houtside (by simp only [Extent.total]; omega)⟩
    rw [Host.showView_ok owner (by simp only [Host.fileSpan]; omega) hstart hpos
      (by simp only [Host.addressSpan]; omega)]
    simp only [meets_bind, meets_set, meets_emit, meets_pure]
    exact ⟨trivial, rfl⟩
  · simp only [meets_bind, meets_ensure, if_true]
    refine ⟨fun _ => ?_, fun hless => hless (by omega)⟩
    refine ((commitPiece_granted owner hstart _ _).and_answers
      (commitPiece_stays ..)).sure fun first b hres => ?_
    obtain ⟨rfl, pieces, rfl⟩ := hres
    exact ⟨rfl, pieces, rfl⟩

theorem backing_create_meets [Host] (owner : Purpose) (e : Extent) (strategy : Strategy) :
    (Backing.create owner e strategy).Meets () (fun b _ => Bare e b ∧ b.strategy = strategy)
      fun _ _ => True := by
  simp only [Backing.create, meets_bind, meets_ofExcept, implies_true, and_true]
  intro total _
  cases strategy with
  | remap => cases Host.makeBacking owner total <;> simp [Except.map, Backing.strategy, Bare]
  | pinned => cases Host.reserve owner total <;> simp [Except.map, Backing.strategy, Bare]

/-- What a new window is like: its backing follows it, whatever the extent, its first bytes are
usable, all of them at and above the origin, and nothing was written to them. -/
theorem create_meets [Host] (purpose : Purpose) (initial : Nat) (e : Extent) (strategy : Strategy) :
    (create purpose initial e strategy).Meets ()
      (fun w _ => (w.Anchored ∧ w.strategy = strategy) ∧ e.Aligned ∧ 0 < initial ∧ w.extent = e ∧
        w.center = 0 ∧ w.size = roundUp initial pageSize ∧ w.size ≤ e.front ∧ w.memory = .blank)
      fun _ _ => True := by
  simp only [create, meets_bind, meets_ensure, meets_ite, meets_refuse, implies_true, and_true,
    true_and]
  intro halign hinitial _ hfront
  refine (backing_create_meets purpose e strategy).imp fun b _ hb => ?_
  obtain ⟨hbare, rfl⟩ := hb
  have hended := expand_ends purpose e 0 (roundUp initial pageSize) b
  unfold Meets at hended
  rcases hrun : (Backing.expand purpose e 0 (roundUp initial pageSize)).run b with
    ⟨fault | answer, b', es⟩
  · trivial
  · rw [hrun] at hended
    cases answer with
    | error why => trivial
    | ok _ =>
      simp only [meets_bind, meets_emit, meets_pure, and_true, true_and]
      have hfollowed : Followed e 0 (roundUp initial pageSize) b b' := hended
      exact ⟨⟨⟨Nat.zero_le _, hbare.backed hfollowed purpose⟩, hfollowed.strategy⟩, halign,
        hinitial, Nat.not_lt.mp hfront⟩

theorem Bare.sound {purpose : Purpose} {e : Extent} {size : Nat} {b b' : Backing}
    (hbare : Bare e b) (hb : Followed e 0 size b b') (ha : e.Aligned)
    (hsmall : e.total < Host.addressSpan) (hroom : size ≤ e.front) (hpos : 0 < size)
    (hpage : pageSize ∣ size) : (⟨purpose, e, 0, size, b', .blank⟩ : Window).Sound where
  aligned := ha
  small := hsmall
  center_le_back := Nat.zero_le _
  front_le_front := hroom
  center_le_size := Nat.zero_le _
  size_pos := hpos
  page_dvd_center := Nat.dvd_zero _
  page_dvd_size := hpage
  backed := hbare.backed hb purpose

theorem create_sound [Host] {purpose : Purpose} {initial : Nat} {e : Extent} {strategy : Strategy}
    (hsmall : e.total < Host.addressSpan) :
    (create purpose initial e strategy).Meets ()
      (fun w _ => w.Sound ∧ w.extent = e ∧ w.center = 0 ∧ w.size = roundUp initial pageSize ∧
        w.memory = .blank) fun _ _ => True := by
  refine (create_meets purpose initial e strategy).imp fun w _ hw => ?_
  obtain ⟨⟨hanchored, -⟩, halign, hinitial, rfl, hcenter, hsize, hfront, hblank⟩ := hw
  have hpos : 0 < roundUp initial pageSize :=
    Nat.lt_of_lt_of_le hinitial (roundUp_ge _ (by decide))
  refine ⟨⟨halign, hsmall, hanchored.center_le_back, ?_, ?_, hsize ▸ hpos, ?_, ?_,
    hanchored.backed⟩, rfl, hcenter, hsize, hblank⟩
  · omega
  · omega
  · rw [hcenter]
    exact Nat.dvd_zero _
  · rw [hsize]
    exact dvd_roundUp _ _

end SlotArena.Window
