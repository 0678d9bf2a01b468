import SlotArena.Proofs.Claimants
import SlotArena.Proofs.Shape

/-!
An arena and any number of claimants on both of its sides. Growth reads the cursors of both sides
while claimants who wait have added to them, or just before others take their claims back, so what
it takes for usage may be more than is used and less than it took for usage before. It never
matters: growth reaches what its cursor holds at that moment whatever the other cursor holds, the
window never shrinks on either side, and an end that was once published stays within the window.
Each side hands out its ranges in order, so no two blocks overlap.

The main statements are `blocks_apart_together`, that blocks stay apart whoever claims them, and
`claim_alone`, that a claim as an arena answers it is a run of the steps that claimants take here.
-/

namespace SlotArena.Arena

open Act Cursor Claimants

/-! ### Arenas as objects with two cursors -/

theorem grow_cursor [Host] (side other : Side) (a : Arena) :
    ((grow side).run a).state.cursor other = a.cursor other := by
  let R (a : Arena) (_ : List Event) (a' : Arena) : Prop := a'.cursor other = a.cursor other
  have hR : Path R := ⟨fun _ => rfl, fun h h' => h'.trans h⟩
  have hwindow : ∀ (x : Act Window Unit) (a : Arena), Traces R (onWindow x) a := by
    intro x a
    rw [onWindow, Traces, leaves_focus]
    cases other with
    | front => rfl
    | back => rfl
  have hanswer := answer_traces hR side
  have hgrow : Traces R (grow side) a := by
    refine traces_get_bind (traces_ensure_bind hR (traces_ensure_bind hR ?_))
    refine traces_ite ((hwindow _ a).bind hR fun _ a' => ?_) (hanswer a)
    exact Traces.bind hR (x := Act.note _) rfl fun _ => hanswer
  exact hgrow

@[simp] theorem cursor_withCursor (side : Side) (a : Arena) (c : Cursor) :
    (withCursor side a c).cursor side = c := by
  cases side with
  | front => rfl
  | back => rfl

theorem cursor_withCursor_of_ne {side other : Side} (h : other ≠ side) (a : Arena) (c : Cursor) :
    (withCursor side a c).cursor other = a.cursor other := by
  cases side with
  | front => cases other with
    | front => exact absurd rfl h
    | back => rfl
  | back => cases other with
    | front => rfl
    | back => exact absurd rfl h

def claimable (hosts : Host → Prop) : Claimable Arena Side where
  part side a := a.cursor side
  replace := withCursor
  grow := grow
  hosts := hosts
  part_replace := cursor_withCursor
  part_replace_of_ne a c h := cursor_withCursor_of_ne h a c
  part_grow := grow_cursor

variable {ι : Type} {hosts : Host → Prop}

/-- A claim that nobody interferes with is a run of the claimant's steps. -/
theorem claim_alone [host : Host] (met : hosts host) [DecidableEq ι] {m : Claimants Arena Side ι}
    (hidle : ∀ u, m.claimant u = .idle) (t : ι) (side : Side) (n : Nat) :
    (claim side n).Meets m.object
      (fun offset a =>
        Relation.ReflTransGen (Step (claimable hosts)) m (m.change a side [⟨offset, n⟩]))
      fun e a => ∀ why, e = .refused why →
        Relation.ReflTransGen (Step (claimable hosts)) m (m.put a) := by
  have hclaim : claim side n = (do
      Act.ensure (AdmitsBlock n) (.arenaBlockSize side n)
      (claimable hosts).claim side n) := rfl
  rw [hclaim, meets_bind, meets_ensure]
  exact ⟨fun _ => claim_runs met hidle t side n, fun _ => nofun⟩

/-! ### What every step keeps -/

/-- What an owner knows of an end lies within the arena, and no growth was broken off. -/
def Within (a : Arena) : Claimant Side → Prop
  | .busy side (.growing _ _ stop) => stop ≤ a.reach side
  | .busy _ (.broken ..) => False
  | _ => True

/-- What holds of an arena and of all who claim on it, whatever they have added to its cursors. -/
structure Steady (m : Claimants Arena Side ι) : Prop where
  window : m.object.window.Sound
  back_le : m.object.window.extent.back ≤ 2 ^ 31
  front_le : m.object.window.extent.front ≤ 2 ^ 31
  stop_le : ∀ side, (m.object.cursor side).stop ≤ m.object.reach side
  within : ∀ t, m.object.Within (m.claimant t)

@[simp] theorem window_withCursor (side : Side) (a : Arena) (c : Cursor) :
    (withCursor side a c).window = a.window := by
  cases side with
  | front => rfl
  | back => rfl

theorem reach_eq {a a' : Arena} (h : a'.window = a.window) (side : Side) :
    a'.reach side = a.reach side := by
  cases side with
  | front => simp only [reach, size, center, h]
  | back => simp only [reach, center, h]

theorem Within.mono {a a' : Arena} {p : Claimant Side} (h : a.Within p)
    (hreach : ∀ side, a.reach side ≤ a'.reach side) : a'.Within p := by
  unfold Within at h ⊢
  split at h
  · exact Nat.le_trans h (hreach _)
  · exact h.elim
  · trivial

theorem Within.woken {a : Arena} {p : Claimant Side} (h : a.Within p) (side : Side) :
    a.Within (p.woken side) := by
  cases p with
  | idle => exact trivial
  | busy other stage =>
    rw [Claimant.woken]
    split
    · cases stage with
      | growing amount before stop => exact h
      | broken amount before fault => exact h
      | _ => exact trivial
    · exact h

theorem within_judged {a : Arena} {side : Side} {c : Cursor} (hstop : c.stop ≤ a.reach side)
    (amount : Nat) : a.Within (.judged side amount (c.verdict amount)) := by
  cases hverdict : c.verdict amount with
  | mustGrow before =>
    obtain ⟨-, -, rfl⟩ := verdict_eq_mustGrow.mp hverdict
    exact hstop
  | _ => exact trivial

section

variable {m m' : Claimants Arena Side ι}

theorem Steady.start {a : Arena} (h : a.Sound) :
    Steady (Claimants.start a : Claimants Arena Side ι) where
  window := h.window
  back_le := h.back_le
  front_le := h.front_le
  stop_le := h.stop_le
  within _ := trivial

theorem Steady.move [DecidableEq ι] (h : Steady m) {t : ι} {p : Claimant Side}
    (hp : m.object.Within p) : Steady (m.move t p) where
  window := h.window
  back_le := h.back_le
  front_le := h.front_le
  stop_le := h.stop_le
  within u := by
    by_cases hu : u = t
    · subst hu
      rw [claimant_move_self]
      exact hp
    · have hother : (m.move t p).claimant u = m.claimant u := Function.update_of_ne hu ..
      rw [hother]
      exact h.within u

theorem Steady.wakeAll [DecidableEq ι] (h : Steady m) (t : ι) (side : Side) :
    Steady (m.wakeAll t side) where
  window := h.window
  back_le := h.back_le
  front_le := h.front_le
  stop_le := h.stop_le
  within u := by
    show m.object.Within (if u = t then .idle else (m.claimant u).woken side)
    split
    · exact trivial
    · exact (h.within u).woken side

/-- A cursor may be replaced by any whose end lies within the arena. -/
theorem Steady.replaced (h : Steady m) {side : Side} {c : Cursor}
    (hc : c.stop ≤ m.object.reach side) : Steady (m.put (withCursor side m.object c)) where
  window := (window_withCursor side m.object c).symm ▸ h.window
  back_le := (window_withCursor side m.object c).symm ▸ h.back_le
  front_le := (window_withCursor side m.object c).symm ▸ h.front_le
  stop_le other := by
    show ((withCursor side m.object c).cursor other).stop ≤ (withCursor side m.object c).reach other
    rw [reach_eq (window_withCursor ..)]
    by_cases hother : other = side
    · subst hother
      rw [cursor_withCursor]
      exact hc
    · rw [cursor_withCursor_of_ne hother]
      exact h.stop_le other
  within t := (h.within t).mono fun other =>
    Nat.le_of_eq (reach_eq (window_withCursor side m.object c) other).symm

theorem Steady.change {a : Arena} (h : Steady (m.put a)) (side : Side) (rs : List Range) :
    Steady (m.change a side rs) :=
  ⟨h.window, h.back_le, h.front_le, h.stop_le, h.within⟩

theorem Steady.extended (h : Steady m) {w : Window} (hw : w.Sound)
    (hext : m.object.window.Extends w) : Steady (m.put { m.object with window := w }) where
  window := hw
  back_le := hext.extent ▸ h.back_le
  front_le := hext.extent ▸ h.front_le
  stop_le side := Nat.le_trans (h.stop_le side) (reach_mono hext side)
  within t := (h.within t).mono (reach_mono hext)

variable [DecidableEq ι] {side : Side}

/-- Growth succeeds or is refused, whatever the cursors hold. -/
theorem Steady.grow [Host] (h : Steady m) (hclaims : 0 < (m.object.cursor side).next) (t : ι)
    (amount : Nat) (before : Cursor) :
    Steady ((m.put ((Arena.grow side).run m.object).state).move t
      (.busy side (.grown amount before ((Arena.grow side).run m.object).result))) ∧
      m.object.window.Extends ((Arena.grow side).run m.object).state.window := by
  have hgrow := grow_meets h.window h.back_le h.front_le side hclaims
  cases hanswer : ((Arena.grow side).run m.object).result with
  | ok stop =>
    obtain ⟨w, hstate, hw, hext, hstop, -⟩ := hgrow.of_ok hanswer
    rw [hstate] at hstop ⊢
    exact ⟨(h.extended hw hext).move (Nat.le_of_eq hstop), hext⟩
  | error fault =>
    obtain ⟨why, rfl, w, hstate, hw⟩ := exists_refusal (hgrow.of_error hanswer)
    have hext := hw.extends_window h.window
    rw [hstate]
    exact ⟨(h.extended (hw.sound h.window) hext).move trivial, hext⟩

/-- No step breaks a growth off or takes anything from the window. -/
theorem Steady.step {first : Side → Cursor} (h : Steady m)
    (horderly : ∀ side, Orderly (first side) (m.view (claimable hosts) side))
    (hstep : Step (claimable hosts) m m') :
    Steady m' ∧ m.object.window.Extends m'.object.window := by
  -- all but growth leave the window as it is
  have hsame : ∀ (side : Side) (c : Cursor),
      m.object.window.Extends (withCursor side m.object c).window := by
    intro side c
    rw [window_withCursor]
    exact .refl _
  cases hstep with
  | ask t side amount hidle => exact ⟨h.move trivial, .refl _⟩
  | @reserve verdict t side amount hclaiming hok =>
    obtain ⟨rfl, hcursor⟩ := reserve_ok hok
    let added : Cursor := ⟨(m.object.cursor side).next + amount, (m.object.cursor side).stop⟩
    have hobject : (((claimable hosts).onCursor side (Cursor.reserve amount)).run m.object).state =
        withCursor side m.object added := congrArg (withCursor side m.object) hcursor
    rw [hobject]
    have hadded := h.replaced (c := added) (h.stop_le side)
    refine ⟨(hadded.change ..).move (within_judged ?_ amount), hsame ..⟩
    exact Nat.le_trans (h.stop_le side) (Nat.le_of_eq (reach_eq (window_withCursor ..) side).symm)
  | @grow _ _ t side amount before stop hgrowing hshort =>
    have howned := (horderly side).owned (phase_view hgrowing)
    have hclaims : 0 < (m.object.cursor side).next :=
      Nat.lt_of_lt_of_le (Nat.zero_lt_of_lt howned.short) howned.past
    exact h.grow hclaims t amount before
  | @publish t side amount before stop hgrowing hreach =>
    have hwithin := h.within t
    rw [hgrowing] at hwithin
    have hstop : (⟨before.next + amount, stop⟩ : Cursor).stop ≤ m.object.reach side := hwithin
    exact ⟨((h.replaced hstop).change ..).move trivial, hsame ..⟩
  | @restore t side amount before why hrefused =>
    have hstop : before.stop ≤ m.object.reach side := by
      rw [← ((horderly side).owned (phase_view hrefused)).stop]
      exact h.stop_le side
    exact ⟨(h.replaced hstop).move trivial, hsame ..⟩
  | @wake t side hwaking => exact ⟨h.wakeAll t side, .refl _⟩
  | @look t side amount observed hlooking =>
    refine ⟨h.move ?_, .refl _⟩
    split
    · exact trivial
    · exact trivial
  | @stir t side amount observed hasleep => exact ⟨h.move trivial, .refl _⟩

/-! ### Runs -/

variable {a : Arena}

theorem orderly_of_reachable (hsound : a.Sound) (h : Reachable (claimable hosts) a m)
    (side : Side) : Orderly (a.cursor side) (m.view (claimable hosts) side) :=
  (h.view side).orderly (hsound.next_le side)

theorem steady_of_reachable (hsound : a.Sound) (h : Reachable (claimable hosts) a m) :
    Steady m := by
  induction h with
  | refl => exact .start hsound
  | tail hrun hstep ih => exact (ih.step (orderly_of_reachable hsound hrun) hstep).1

/-- Whatever is usable on a side stays usable, whoever grows. -/
theorem extends_of_run (hsound : a.Sound) (h : Reachable (claimable hosts) a m)
    (hlater : Relation.ReflTransGen (Step (claimable hosts)) m m') :
    m.object.window.Extends m'.object.window := by
  induction hlater with
  | refl => exact .refl _
  | tail hrun hstep ih =>
    have hreach : Reachable (claimable hosts) a _ := Relation.ReflTransGen.trans h hrun
    have hsteady := steady_of_reachable hsound hreach
    exact ih.trans (hsteady.step (orderly_of_reachable hsound hreach) hstep).2

end

/-! ### Blocks -/

/-- A block as it is handed out: where it begins, seen from the origin. -/
structure Block where
  offset : Int
  size : Nat
  deriving DecidableEq, Repr

namespace Block

def Apart (b b' : Block) : Prop := b.offset + b.size ≤ b'.offset ∨ b'.offset + b'.size ≤ b.offset

instance : DecidableRel Apart := fun _ _ => inferInstanceAs (Decidable (_ ∨ _))

def OnSide (b : Block) : Side → Prop
  | .front => 0 ≤ b.offset
  | .back => b.offset + b.size ≤ 0

def In (b : Block) (a : Arena) : Prop :=
  -(a.center : Int) ≤ b.offset ∧ b.offset + b.size ≤ a.size - a.center

end Block

def blockOf (side : Side) (r : Range) : Block := ⟨blockAt side r.start r.size, r.size⟩

def blocksOn (m : Claimants Arena Side ι) (side : Side) : List Block :=
  (m.granted side).map (blockOf side)

def blocks (m : Claimants Arena Side ι) : List Block := blocksOn m .front ++ blocksOn m .back

theorem blockOf_onSide (side : Side) (r : Range) : (blockOf side r).OnSide side := by
  cases side with
  | front => exact Int.natCast_nonneg _
  | back =>
    simp only [Block.OnSide, blockOf, blockAt]
    omega

theorem blockOf_apart (side : Side) {r r' : Range} (h : r.Apart r') :
    (blockOf side r).Apart (blockOf side r') := by
  simp only [Range.Apart, Range.stop] at h
  cases side with
  | front =>
    simp only [Block.Apart, blockOf, blockAt]
    omega
  | back =>
    simp only [Block.Apart, blockOf, blockAt]
    omega

theorem Block.OnSide.apart {b b' : Block} (h : b.OnSide .front) (h' : b'.OnSide .back) :
    b.Apart b' :=
  Or.inr (Int.le_trans h' h)

theorem blockOf_in {a : Arena} (hcenter : a.center ≤ a.size) {side : Side} {r : Range}
    (hr : r.stop ≤ a.reach side) : (blockOf side r).In a := by
  simp only [Range.stop] at hr
  cases side with
  | front =>
    simp only [reach] at hr
    simp only [Block.In, blockOf, blockAt]
    omega
  | back =>
    simp only [reach] at hr
    simp only [Block.In, blockOf, blockAt]
    omega

theorem Block.In.mono {a a' : Arena} {b : Block} (h : b.In a)
    (hext : a.window.Extends a'.window) (hcenter : a.center ≤ a.size)
    (hcenter' : a'.center ≤ a'.size) : b.In a' := by
  have hback : a.center ≤ a'.center := hext.center_le
  have hfront : a.size - a.center ≤ a'.size - a'.center := hext.front_le
  simp only [Block.In] at h ⊢
  omega

section

variable {m m' : Claimants Arena Side ι}

theorem mem_blocks {b : Block} : b ∈ blocks m ↔ ∃ side, b ∈ blocksOn m side := by
  rw [blocks, List.mem_append]
  constructor
  · rintro (h | h)
    · exact ⟨.front, h⟩
    · exact ⟨.back, h⟩
  · rintro ⟨side, h⟩
    cases side with
    | front => exact Or.inl h
    | back => exact Or.inr h

theorem onSide_of_mem {side : Side} {b : Block} (hb : b ∈ blocksOn m side) : b.OnSide side := by
  obtain ⟨r, -, rfl⟩ := List.mem_map.mp hb
  exact blockOf_onSide side r

theorem blocks_apart [DecidableEq ι] {first : Side → Cursor}
    (horderly : ∀ side, Orderly (first side) (m.view (claimable hosts) side)) :
    (blocks m).Pairwise Block.Apart := by
  have hside : ∀ side, (blocksOn m side).Pairwise Block.Apart := fun side =>
    List.pairwise_map.mpr ((horderly side).apart.imp (blockOf_apart side))
  refine List.pairwise_append.mpr ⟨hside .front, hside .back, fun b hb b' hb' => ?_⟩
  exact (onSide_of_mem hb).apart (onSide_of_mem hb')

/-- What was handed out is within the window, however far the claims go that are not settled. -/
theorem Steady.in_of_mem [DecidableEq ι] {first : Side → Cursor} (h : Steady m)
    (horderly : ∀ side, Orderly (first side) (m.view (claimable hosts) side)) {b : Block}
    (hb : b ∈ blocks m) : b.In m.object := by
  obtain ⟨side, hb⟩ := mem_blocks.mp hb
  obtain ⟨r, hr, rfl⟩ := List.mem_map.mp hb
  exact blockOf_in h.window.center_le_size
    (Nat.le_trans ((horderly side).stop_le hr) (h.stop_le side))

/-- However the steps of any number of claimants at the front and at the back interleave, as long
as no addition to a cursor overflows: no growth is broken off; neither side of the window is ever
shorter than it was; no two of all the blocks handed out overlap, and each lies on its side of the
origin; and from the moment when a block is handed out it is within the window, and the place it
was given stays usable. -/
theorem blocks_apart_together [Host] [DecidableEq ι] {config : ArenaConfig} {a : Arena}
    (hcreate : ((create config).run ()).result = .ok a) (h : Reachable (claimable hosts) a m)
    (hlater : Relation.ReflTransGen (Step (claimable hosts)) m m') :
    (∀ t side amount before fault, m'.claimant t ≠ .busy side (.broken amount before fault)) ∧
      m.object.center ≤ m'.object.center ∧
      m.object.size - m.object.center ≤ m'.object.size - m'.object.center ∧
      (blocks m').Pairwise Block.Apart ∧
      (∀ side, ∀ b ∈ blocksOn m' side, b.OnSide side) ∧
      ∀ b ∈ blocks m, b.In m'.object ∧
        m'.object.window.Shows (m.object.window.place b.offset) b.size := by
  have hsound : a.Sound := ((create_meets config).of_ok hcreate).sound
  have hlast : Reachable (claimable hosts) a m' := Relation.ReflTransGen.trans h hlater
  have hsteady := steady_of_reachable hsound h
  have hsteady' := steady_of_reachable hsound hlast
  have hext := extends_of_run hsound h hlater
  refine ⟨fun t side amount before fault hbroken => ?_, hext.center_le, hext.front_le,
    blocks_apart (orderly_of_reachable hsound hlast), fun side b hb => onSide_of_mem hb,
    fun b hb => ?_⟩
  · have hwithin := hsteady'.within t
    rw [hbroken] at hwithin
    exact hwithin
  · have hin := hsteady.in_of_mem (orderly_of_reachable hsound h) hb
    refine ⟨hin.mono hext hsteady.window.center_le_size hsteady'.window.center_le_size, ?_⟩
    exact hext.shows _ _ (Window.shows_place hsteady.window hin.1 hin.2)

end

section

attribute [local instance] Host.plain

/-- Claimant 1 grows the front while claimant 0 asks for growth at the back. Then claimant 2 waits
at the back, so the growth of 0 is refused and its claim is taken back. The front grows once more,
when nothing is claimed at the back any longer. -/
theorem exists_rollback : ∃ (a : Arena) (m m' : Claimants Arena Side (Fin 3)),
    ((create ⟨4096, 131072, .remap⟩).run ()).result = .ok a ∧
      Reachable (claimable (· = .plain)) a m ∧
      Relation.ReflTransGen (Step (claimable (· = .plain))) m m' ∧ m.object.center = 4096 ∧
      m.object.back.next = 0 ∧ m.claimant 2 = .busy .back (.looking 120000 ⟨4096, 0⟩) ∧
      m'.object.size = 32768 ∧ blocks m' = [⟨8192, 8192⟩, ⟨4096, 4096⟩, ⟨0, 4096⟩] := by
  have hcreate : ((create ⟨4096, 131072, .remap⟩).run ()).result = .ok ⟨⟨0, 4096⟩, .empty,
      ⟨.arena, .centered 131072, 0, 4096, .remap [⟨65536, 4096, 0⟩], .blank⟩⟩ := by
    decide +kernel
  have hstart : ∀ {a : Arena}, ((create ⟨4096, 131072, .remap⟩).run ()).result = .ok a →
      Relation.ReflTransGen (Step (claimable (· = .plain)))
        (start a : Claimants Arena Side (Fin 3)) (start a) :=
    fun _ => .refl
  have hback := (hstart hcreate).trans (reserve_runs 0 .back 4096 rfl (by decide))
  have hfits := hback.trans (reserve_runs 1 .front 4096 (by decide +kernel) (by decide +kernel))
  have hfront := hfits.trans (reserve_runs 1 .front 4096 (by decide +kernel) (by decide +kernel))
  have hgrown :=
    hfront.tail (.grow rfl 1 .front 4096 ⟨4096, 4096⟩ 4096 (by decide +kernel) (by decide))
  have hpublished := hgrown.tail
    (.publish 1 .front 4096 ⟨4096, 4096⟩ 12288 (by decide +kernel) (by decide))
  have hwoken := hpublished.tail (.wake 1 .front (by decide +kernel))
  have hwaits := hwoken.trans (reserve_runs 2 .back 120000 (by decide +kernel) (by decide +kernel))
  have hrefused := hwaits.tail (.grow rfl 0 .back 4096 ⟨0, 0⟩ 0 (by decide +kernel) (by decide))
  have hrestored := hrefused.tail (.restore 0 .back 4096 ⟨0, 0⟩
    (.outOfReservedSpace 245760 65536) (by decide +kernel))
  refine ⟨_, _, _, hcreate, hrestored, ((reserve_runs 1 .front 8192 (by decide +kernel)
    (by decide +kernel)).tail (.grow rfl 1 .front 8192 ⟨8192, 12288⟩ 12288 (by decide +kernel)
      (by decide))).tail (.publish 1 .front 8192 ⟨8192, 12288⟩ 28672 (by decide +kernel)
        (by decide)), ?_⟩
  decide +kernel

/-- The origin stays where it was while the claim at the back was counted, and the blocks that were
handed out before are within the window after it. -/
theorem blocks_apart_together_of_rollback : ∃ (a : Arena) (m m' : Claimants Arena Side (Fin 3)),
    ((create ⟨4096, 131072, .remap⟩).run ()).result = .ok a ∧
      Reachable (claimable (· = .plain)) a m ∧
      Relation.ReflTransGen (Step (claimable (· = .plain))) m m' ∧ m.object.back.next = 0 ∧
      m.claimant 2 = .busy .back (.looking 120000 ⟨4096, 0⟩) ∧ m'.object.size = 32768 ∧
      blocks m' = [⟨8192, 8192⟩, ⟨4096, 4096⟩, ⟨0, 4096⟩] ∧
      4096 ≤ m'.object.center ∧ (blocks m').Pairwise Block.Apart ∧
      ∀ b ∈ blocks m, b.In m'.object := by
  obtain ⟨a, m, m', hcreate, hreach, hlater, hcenter, hnone, hwaits, hsize, hblocks⟩ :=
    exists_rollback
  obtain ⟨-, hback, -, hapart, -, hin⟩ := blocks_apart_together hcreate hreach hlater
  exact ⟨a, m, m', hcreate, hreach, hlater, hnone, hwaits, hsize, hblocks, hcenter ▸ hback,
    hapart, fun b hb => (hin b hb).1⟩

end

end SlotArena.Arena
