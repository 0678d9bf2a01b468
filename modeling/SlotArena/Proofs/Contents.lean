import SlotArena.Proofs.Steps

/-!
What is in the slots. Nothing but a write through a slot changes its bytes, and they are found at
the place that the slot came with as well as at the newest one (`contents_kept`), however often the
arena has grown in between.
-/

namespace SlotArena

open Act Finset Ledger

/-- The byte at an offset of a slot after some steps, if the slot had `b` there before: the one that
was written last. -/
def lastWritten (slot : Slot) (x : Int) (b : UInt8) (rounds : List Round) : UInt8 :=
  rounds.foldl (fun b round => round.step.puts slot x b) b

namespace Estate

variable {e e' : Estate} {keeper : Nat → Keeper} {rounds : List Round} {slot : Slot}

def Unreturned (slot : Slot) : Estate → List Round → Prop
  | _, [] => True
  | e, ⟨_, step⟩ :: rounds => ¬ e.Returns slot step ∧ Unreturned slot (e.next step) rounds

def load (e : Estate) (place : Place) (n : Nat) : List UInt8 := e.pool.arena.window.load place n

theorem Run.bytes (hrun : Run e rounds e') (h : e.Sound keeper) (hslot : e.Has slot)
    (hkept : Unreturned slot e rounds) :
    (∃ keeper, e'.Sound keeper) ∧ e'.Has slot ∧ ∀ x ∈ span slot.offset slot.size,
      e'.byteAt x = lastWritten slot x (e.byteAt x) rounds := by
  induction hrun generalizing keeper with
  | nil e => exact ⟨⟨keeper, h⟩, hslot, fun _ _ => rfl⟩
  | cons hadmits hsurvives _ ih =>
    obtain ⟨hstep, hrest⟩ := hkept
    have hfollows := h.next hadmits hsurvives
    obtain ⟨keeper', h'⟩ := hfollows.sound
    obtain ⟨hsound, hhas, hbytes⟩ := ih h' (hfollows.stays slot hslot hstep) hrest
    refine ⟨hsound, hhas, fun x hx => ?_⟩
    rw [hbytes x hx, hfollows.bytes slot hslot hstep x hx]
    rfl

theorem Sound.load_eq (h : e.Sound keeper) (hslot : e.Has slot) {place : Place}
    (hplace : place.offset = slot.offset) :
    e.load place slot.size =
      (List.range slot.size).map fun j => e.byteAt (slot.offset + (j : Nat)) := by
  obtain ⟨-, i, hi, -, hlo, -⟩ := h.exists_lies hslot
  have hback := (h.valid.bounds hi).2.2.1
  rw [load, Window.load_eq h.valid.window (by omega), hplace]
  rfl

theorem Sound.newest (h : e.Sound keeper) (hslot : e.Has slot) :
    ((Pool.onArena (Arena.place slot.offset)).run e.pool).result =
        .ok (e.pool.arena.window.place slot.offset) ∧
      e.pool.arena.window.Shows (e.pool.arena.window.place slot.offset) slot.size := by
  obtain ⟨-, i, hi, -, hlo, hhi⟩ := h.exists_lies hslot
  have hbounds := h.valid.bounds hi
  rw [Slot.stop] at hhi
  have hlow : e.pool.arena.window.lo ≤ slot.offset := by omega
  refine ⟨?_, Window.shows_place h.valid.window hlow (by omega)⟩
  have hcenter : -(e.pool.arena.center : Int) ≤ slot.offset := hlow
  simp only [Pool.onArena, run_focus, Arena.place, run_bind, run_get, run_ensure, if_pos hcenter,
    run_pure]

/-- A slot that is not given back keeps its bytes, apart from those that are written through it, and
they are read through the place that the slot came with and through the newest one alike. -/
theorem contents_kept {config : PoolConfig} (hreach : Reachable config e) (hslot : e.Has slot)
    (hrun : Run e rounds e') (hkept : Unreturned slot e rounds) :
    e'.Has slot ∧ ∃ place newest, slot.place = some place ∧
      ((Pool.onArena (Arena.place slot.offset)).run e'.pool).result = .ok newest ∧
      e'.pool.arena.window.Shows place slot.size ∧
      e'.pool.arena.window.Shows newest slot.size ∧
      e'.load newest slot.size = e'.load place slot.size ∧
      e'.load place slot.size = (e.load place slot.size).mapIdx fun j b =>
        lastWritten slot (slot.offset + (j : Nat)) b rounds := by
  obtain ⟨keeper, h⟩ := hreach.sound
  obtain ⟨⟨keeper', h'⟩, hslot', hbytes⟩ := hrun.bytes h hslot hkept
  obtain ⟨⟨place, hplace, hoffset, hshows⟩, -⟩ := h'.exists_lies hslot'
  obtain ⟨hnewest, hshows'⟩ := h'.newest hslot'
  have hload := h'.load_eq hslot' hoffset
  have hload' := h'.load_eq hslot' (rfl : (e'.pool.arena.window.place slot.offset).offset = _)
  refine ⟨hslot', place, _, hplace, hnewest, hshows, hshows', ?_, ?_⟩
  · rw [hload, hload']
  · rw [hload, h.load_eq hslot hoffset]
    refine List.ext_getElem (by simp) fun j hj _ => ?_
    simp only [List.getElem_map, List.getElem_range, List.getElem_mapIdx]
    rw [List.length_map, List.length_range] at hj
    refine hbytes _ (mem_span.mpr ?_)
    omega

/-- What a new pool hands out to one who asks it for 100 bytes. -/
def firstSlot : Slot := ⟨0, 128, some ⟨0, 0⟩, 0⟩

section

attribute [local instance] Host.plain

/-- A slot is written through its own place, then the origin moves, and it is written through the
new view. -/
theorem contents_kept_of_moved : ∃ e e' slot rounds, Reachable {} e ∧ e.Has slot ∧
    Run e rounds e' ∧ Unreturned slot e rounds ∧ e'.pool.arena.center = 65536 ∧
    (e'.load ⟨0, 0⟩ 128).take 8 = [0, 0, 0, 0, 7, 9, 0, 0] ∧
    ∃ newest, ((Pool.onArena (Arena.place 0)).run e'.pool).result = .ok newest ∧
      e'.load newest 128 = e'.load ⟨0, 0⟩ 128 := by
  have hpool : ∃ p e₁ e₂ e₃ e₄, ((Pool.create {}).run ()).result = .ok p ∧
      e₁ = (new p).next (.alloc 100 64) ∧
      e₂ = e₁.next (.write firstSlot ⟨0, 4⟩ #[7, 8]) ∧ e₃ = e₂.next .allocBack ∧
      e₄ = e₃.next (.write firstSlot ⟨1, 5⟩ #[9]) ∧
      ((perform (.alloc 100 64)).run (new p)).result.isOk ∧
      (firstSlot ∈ e₁.held ∧
        e₁.pool.arena.window.backing = .remap [⟨536870912, 65536, 0⟩] ∧
        ((perform (.write firstSlot ⟨0, 4⟩ #[7, 8])).run e₁).result.isOk) ∧
      ((perform .allocBack).run e₂).result.isOk ∧
      (firstSlot ∈ e₃.held ∧
        e₃.pool.arena.window.backing =
          .remap [⟨536805376, 131072, 65536⟩, ⟨536870912, 65536, 0⟩] ∧
        ((perform (.write firstSlot ⟨1, 5⟩ #[9])).run e₃).result.isOk) ∧
      e₄.pool.arena.center = 65536 ∧ (e₄.load ⟨0, 0⟩ 128).take 8 = [0, 0, 0, 0, 7, 9, 0, 0] := by
    refine ⟨_, _, _, _, _, rfl, rfl, rfl, rfl, rfl, ?_⟩
    decide +kernel
  obtain ⟨p, e₁, e₂, e₃, e₄, hp, he₁, he₂, he₃, he₄, h₁, ⟨hheld, hview, h₂⟩, h₃,
    ⟨hheld', hviews, h₄⟩, hcenter, hread⟩ := hpool
  have hfirst : Run (new p) (plainly [.alloc 100 64]) e₁ := .cons_ok trivial h₁ he₁ (.nil _)
  have hreach : Reachable {} e₁ := ⟨.plain, p, _, hp, hfirst⟩
  have hshows : e₁.pool.arena.window.Shows ⟨0, 4⟩ 2 := by
    rw [Window.Shows, hview]
    exact ⟨_, rfl, by decide, by decide⟩
  have hshows' : e₃.pool.arena.window.Shows ⟨1, 5⟩ 1 := by
    rw [Window.Shows, hviews]
    exact ⟨_, rfl, by decide, by decide⟩
  have hrun : Run e₁ (plainly [.write firstSlot ⟨0, 4⟩ #[7, 8], .allocBack,
      .write firstSlot ⟨1, 5⟩ #[9]]) e₄ :=
    .cons_ok ⟨Or.inl hheld, hshows, by decide, by decide⟩ h₂ he₂ <| .cons_ok trivial h₃ he₃ <|
      .cons_ok ⟨Or.inl hheld', hshows', by decide, by decide⟩ h₄ he₄ (.nil _)
  have hkept : Unreturned firstSlot e₁ (plainly [.write firstSlot ⟨0, 4⟩ #[7, 8], .allocBack,
      .write firstSlot ⟨1, 5⟩ #[9]]) := ⟨id, id, id, trivial⟩
  obtain ⟨-, place, newest, hplace, hnewest, -, -, hsame, -⟩ :=
    contents_kept hreach (Or.inl hheld) hrun hkept
  obtain rfl := Option.some.inj hplace
  exact ⟨e₁, e₄, _, _, hreach, Or.inl hheld, hrun, hkept, hcenter, hread, newest, hnewest, hsame⟩

end

end Estate

end SlotArena
