import SlotArena.Proofs.Attainable
import SlotArena.Proofs.Stock

/-!
Slots that are given back, rightly or not. A slot that agrees with a live record is taken back: the
record goes on top of the shelf that it fits, and nothing else happens (`Reclaims`). A slot whose
record was never made, or is not live, is turned down and the pool is as it was. But a pool takes
the record off its list of live ones before it looks whether the slot agrees with it, so that a slot
that does not, such as one whose record was handed out anew at another size, is turned down with the
record gone from the list (`Rejects`). Nobody can give that record back from then on.

Main statement: this is what becomes of any slot whatever (`free_settles`).
-/

namespace SlotArena

open Act

namespace Pool

structure Matches (p : Pool) (slot : Slot) : Prop where
  live : slot.idx ∈ p.live
  offset : (p.roster.record slot.idx).offset = slot.offset
  size : (p.roster.record slot.idx).size = slot.size

theorem Lent.matches {p : Pool} {slot : Slot} (h : p.Lent slot) : p.Matches slot :=
  ⟨h.live, h.offset, h.size⟩

/-- The record of the slot went from the live ones to the top of the shelf that it fits, and nothing
else happened. -/
structure Reclaims (p : Pool) (slot : Slot) (p' : Pool) : Prop where
  live : ∀ i, i ∈ p'.live ↔ i ≠ slot.idx ∧ i ∈ p.live
  liveCount : p'.liveCount + 1 = p.liveCount
  shelved : ∃ s, (p.roster.record slot.idx).Fits p.blockSize s ∧
    (∀ t ≠ s, p'.chain t = p.chain t) ∧
    ∀ t records, Chain.Threads p.roster.link (p.chain t).head records →
      Chain.Threads p'.roster.link (p'.chain t).head
        (if t = s then slot.idx :: records else records)
  length : p'.roster.length = p.roster.length
  capacity : p'.roster.capacity = p.roster.capacity
  pieceOf : ∀ i, p'.pieceOf i = p.pieceOf i
  kept : ∀ i ≠ slot.idx, p'.roster.record i = p.roster.record i
  arena : p'.arena = p.arena
  carve : ∀ c, (p'.bucket c).carve = (p.bucket c).carve
  leaked : p'.leaked = p.leaked
  blockSize : p'.blockSize = p.blockSize
  base : p'.base = p.base

/-- The pool without a record on its list of live ones that nobody gave back. -/
def forgetting (p : Pool) (i : Nat) : Pool := { p with live := p.live.erase i }

/-- What becomes of a pool that turns a slot down: nothing, if the slot has no live record; else the
record is no longer live. -/
inductive Rejects (p : Pool) (slot : Slot) : Fault → Pool → Prop
  | foreign (unborn : slot.idx = noIndex ∨ p.roster.length ≤ slot.idx) :
      Rejects p slot (.violated (.foreignSlot slot)) p
  | free (born : slot.idx < p.roster.length) (idle : slot.idx ∉ p.live) :
      Rejects p slot (.violated (.doubleFree slot.idx slot.offset)) p
  | offset (live : slot.idx ∈ p.live)
      (differs : (p.roster.record slot.idx).offset ≠ slot.offset) :
      Rejects p slot (.violated (.disagreement .recordOffset
        (p.roster.record slot.idx).offset slot.offset)) (p.forgetting slot.idx)
  | size (live : slot.idx ∈ p.live) (agrees : (p.roster.record slot.idx).offset = slot.offset)
      (differs : (p.roster.record slot.idx).size ≠ slot.size) :
      Rejects p slot (.violated (.disagreement .recordSize
        (p.roster.record slot.idx).size slot.size)) (p.forgetting slot.idx)

variable {p p' : Pool} {spot : Nat → Spot} {loose : Finset Int} {slot : Slot} {i : Nat} {r : Roster}
  {s : Shelf}

theorem Rejects.of_disagreement {what : Agreement} {left right : Int}
    (h : p.Rejects slot (.violated (.disagreement what left right)) p') :
    slot.idx ∈ p.live ∧ p' = p.forgetting slot.idx := by
  generalize hfault : Fault.violated (.disagreement what left right) = fault at h
  cases h with
  | foreign unborn => cases hfault
  | free born idle => cases hfault
  | offset live differs => exact ⟨live, rfl⟩
  | size live agrees differs => exact ⟨live, rfl⟩

theorem not_mem_forgetting (p : Pool) (i : Nat) : i ∉ (p.forgetting i).live := fun hlive =>
  (Std.TreeSet.mem_erase.mp hlive).1 Std.ReflCmp.compare_self

def retrieving (p : Pool) (i : Nat) : Pool :=
  { p with live := p.live.erase i, liveCount := p.liveCount - 1 }

def racked (p : Pool) (s : Shelf) (i : Nat) (r : Roster) : Pool :=
  ({ p with roster := r } : Pool).withChain ((p.chain s).moveTo i) s

theorem pushFree_racks (c : SizeClass) (htakes : Chain.Takes (LawfulLinks.rest p.roster) i 1) :
    (pushFree c i 1).Meets p (fun _ p' => ∃ r,
      Chain.Linked p.roster r (p.chain (.front c)).head i 1 ∧ p' = p.racked (.front c) i r) Never :=
  pushFree_pushed c htakes

theorem pushBack_racks (htakes : Chain.Takes (LawfulLinks.rest p.roster) i 1) :
    (pushBack i).Meets p (fun _ p' => ∃ r,
      Chain.Linked p.roster r (p.chain .back).head i 1 ∧ p' = p.racked .back i r) Never := by
  simp only [pushBack, meets_bind, meets_get]
  refine (onRoster_meets (push_links p.backFree htakes)).imp ?_
  rintro _ _ ⟨r, rfl, rfl, hlinked⟩
  exact ⟨r, hlinked, rfl⟩

/-- A record that no shelf holds goes on top of one, and the others are as they were. -/
theorem threads_racked (htakes : Chain.Takes (LawfulLinks.rest p.roster) i 1)
    (hlinked : Chain.Linked p.roster r (p.chain s).head i 1) {t : Shelf} {records : List Nat}
    (hthreads : Chain.Threads p.roster.link (p.chain t).head records) (happart : i ∉ records) :
    Chain.Threads (p.racked s i r).roster.link ((p.racked s i r).chain t).head
      (if t = s then i :: records else records) := by
  have hrun : ∀ j ∈ records, j ∉ List.range' i 1 := fun j hj hmem =>
    happart (List.mem_singleton.mp hmem ▸ hj)
  rw [racked, withChain_roster, chain_withChain]
  split
  · rename_i hts
    subst hts
    exact hlinked.threads htakes hthreads hrun
  · exact hthreads.congr fun j hj => hlinked.rethreaded.kept j (hrun j hj)

theorem Sound.shelved_spot (h : p.Sound spot loose) {t : Shelf} {records : List Nat}
    (hthreads : Chain.Threads p.roster.link (p.chain t).head records) (hi : i ∈ records) :
    spot i = .shelf t := by
  obtain ⟨listed, hlisted, hmem⟩ := h.chained t
  rw [hthreads.unique hlisted] at hi
  exact (hmem i).mp hi

theorem Matches.reclaims (hmatch : p.Matches slot) (h : p.Sound spot loose)
    (hfits : (p.roster.record slot.idx).Fits p.blockSize s)
    (htakes : Chain.Takes (LawfulLinks.rest p.roster) slot.idx 1)
    (hlinked : Chain.Linked p.roster r (p.chain s).head slot.idx 1) :
    p.Reclaims slot ((p.retrieving slot.idx).racked s slot.idx r) := by
  have hspot : spot slot.idx = .live := (h.live _).mpr hmatch.live
  have hrelinked := Roster.relinked_of hlinked.rethreaded
  have hroster : ((p.retrieving slot.idx).racked s slot.idx r).roster = r := withChain_roster ..
  have hlive : ((p.retrieving slot.idx).racked s slot.idx r).live = p.live.erase slot.idx :=
    withChain_live ..
  exact {
    live := fun i => by
      rw [hlive, Std.TreeSet.mem_erase, Ne, Std.LawfulEqCmp.compare_eq_iff_eq]
      exact and_congr_left fun _ => not_congr eq_comm
    liveCount := by
      have hcount : ((p.retrieving slot.idx).racked s slot.idx r).liveCount = p.liveCount - 1 :=
        withChain_liveCount ..
      have hone : [slot.idx].length ≤ p.live.size := length_le_live (List.nodup_singleton _)
        fun i hi => List.mem_singleton.mp hi ▸ hmatch.live
      have hsize := h.count
      rw [List.length_singleton] at hone
      omega
    shelved := ⟨s, hfits, fun t ht => (chain_withChain ..).trans (if_neg ht),
      fun t records hthreads => threads_racked (p := p.retrieving slot.idx) htakes hlinked hthreads
        fun hmem => Spot.noConfusion (hspot.symm.trans (h.shelved_spot hthreads hmem))⟩
    length := by rw [hroster, hrelinked.length]
    capacity := by rw [hroster, hrelinked.capacity]
    pieceOf := fun i => by
      rw [Pool.pieceOf, Pool.pieceOf, hroster, hrelinked.offset, hrelinked.size]
    kept := fun i hi => by
      rw [hroster]
      exact hrelinked.kept i fun hmem => hi (List.mem_singleton.mp hmem)
    arena := withChain_arena ..
    carve := carve_withChain _ _ _
    leaked := withChain_leaked ..
    blockSize := withChain_blockSize ..
    base := by cases s <;> rfl }

theorem Matches.side (hmatch : p.Matches slot)
    (hfits : (p.roster.record slot.idx).Fits p.blockSize s) (hpos : slot.size ≠ 0) :
    (slot.offset < 0 → s = .back ∧ slot.size = p.blockSize) ∧
      (¬ slot.offset < 0 → ∃ c : SizeClass, s = .front c ∧ slot.size = c.bytes) := by
  rw [← hmatch.offset, ← hmatch.size] at *
  cases s with
  | front c => exact ⟨fun hneg => absurd hfits.1 (by omega), fun _ => ⟨c, rfl, hfits.2.1⟩⟩
  | back =>
    refine ⟨fun _ => ⟨rfl, hfits.2⟩, fun hfront => ?_⟩
    have hend := hfits.1
    omega

/-- What becomes of a slot that is given back, whatever it is. -/
theorem free_meets_any (h : p.Valid loose) (slot : Slot) :
    (free slot).Meets p
      (fun _ p' => (slot.size = 0 ∧ p' = p) ∨
        (slot.size ≠ 0 ∧ p.Matches slot ∧ p.Reclaims slot p')) (p.Rejects slot) := by
  obtain ⟨spot, h, -⟩ := h
  simp only [free, meets_bind, meets_ite, meets_pure, meets_get, meets_ensure, meets_modify,
    meets_emit]
  refine ⟨fun hnull => Or.inl ⟨hnull, trivial⟩, fun hpos => ⟨fun hborn => ⟨fun hlive => ?_,
    fun hidle => .free hborn.2 fun hmem => hidle (Std.TreeSet.mem_iff_contains.mp hmem)⟩,
      fun hforeign => .foreign ?_⟩⟩
  · have hlive := Std.TreeSet.mem_iff_contains.mpr hlive
    -- the record is off the list before the slot is compared with it
    refine (onRoster_meets (p := p.forgetting slot.idx) (Roster.get_meets h.roster hborn.2)).sure ?_
    rintro _ _ ⟨_, rfl, rfl, rfl⟩
    refine ⟨fun hoffset => ⟨fun hsize => ?_, fun hsize => .size hlive hoffset hsize⟩,
      fun hoffset => .offset hlive hoffset⟩
    have hmatch : p.Matches slot := ⟨hlive, hoffset, hsize⟩
    obtain ⟨s, hfits⟩ := h.fits slot.idx (by
      rw [(h.live _).mpr hlive]
      exact Spot.noConfusion)
    obtain ⟨hback, hfront⟩ := hmatch.side hfits hpos
    have htakes := h.roster.takes Nat.one_pos hborn.2
    refine ⟨fun hneg => ?_, fun hnonneg => ?_⟩
    · obtain ⟨rfl, hblock⟩ := hback hneg
      refine ⟨fun _ => ?_, fun hother => absurd hblock hother⟩
      refine (pushBack_racks (p := p.retrieving slot.idx) htakes).sure ?_
      rintro _ _ ⟨r, hlinked, rfl⟩
      exact Or.inr ⟨hpos, hmatch, hmatch.reclaims h hfits htakes hlinked⟩
    · obtain ⟨c, rfl, hbytes⟩ := hfront hnonneg
      have hholding := SizeClass.holding_bytes_meets (s := p.retrieving slot.idx) c
      rw [← hbytes] at hholding
      refine hholding.sure ?_
      rintro d _ ⟨rfl, hd⟩
      rw [hd]
      refine (pushFree_racks (p := p.retrieving slot.idx) c htakes).sure ?_
      rintro _ _ ⟨r, hlinked, rfl⟩
      exact Or.inr ⟨hpos, hmatch, hmatch.reclaims h hfits htakes hlinked⟩
  · by_contra hborn
    exact hforeign ⟨fun hidx => hborn (Or.inl hidx), Nat.lt_of_not_le fun hle => hborn (Or.inr hle)⟩

theorem Matches.not_rejects (hmatch : p.Matches slot) (h : p.Valid loose) {fault : Fault} :
    ¬ p.Rejects slot fault p' := by
  rintro (hunborn | ⟨-, hidle⟩ | ⟨-, hoffset⟩ | ⟨-, -, hsize⟩)
  · exact hunborn.elim (h.ne_noIndex hmatch.live) (Nat.not_le.mpr (h.lt_length hmatch.live))
  · exact hidle hmatch.live
  · exact hoffset hmatch.offset
  · exact hsize hmatch.size

theorem Matches.free_meets (hmatch : p.Matches slot) (h : p.Valid loose) :
    (free slot).Meets p (fun _ p' => p.Reclaims slot p') Never := by
  refine (free_meets_any h slot).weaken ?_ fun _ _ => hmatch.not_rejects h
  rintro _ p' (⟨hnull, -⟩ | ⟨-, -, hreclaims⟩)
  · exact absurd (hmatch.size.trans hnull) (Nat.ne_of_gt (h.size_pos hmatch.live))
  · exact hreclaims

theorem free_forgotten (hborn : slot.idx < p.roster.length) (hidx : slot.idx ≠ noIndex)
    (hpos : slot.size ≠ 0) :
    (free slot).Meets (p.forgetting slot.idx) (fun _ _ => False) fun fault p' =>
      fault = .violated (.doubleFree slot.idx slot.offset) ∧ p' = p.forgetting slot.idx := by
  have hidle : ¬ (p.forgetting slot.idx).live.contains slot.idx := fun hlive =>
    p.not_mem_forgetting slot.idx (Std.TreeSet.mem_iff_contains.mpr hlive)
  simp only [free, meets_bind, meets_ite, meets_pure, meets_get, meets_ensure]
  exact ⟨fun hnull => hpos hnull, fun _ => ⟨fun _ => ⟨fun hlive => absurd hlive hidle,
    fun _ => ⟨trivial, trivial⟩⟩, fun hforeign => absurd ⟨hidx, hborn⟩ hforeign⟩⟩

end Pool

namespace Estate

variable {config : PoolConfig} {e : Estate}

/-- A slot that is given back is taken back if it agrees with a live record, and nothing becomes of
a null slot. Any other slot is turned down. That leaves the pool as it was unless the slot has a
live record that it does not agree with; then the record is forgotten, and whoever gives it back is
told that it was freed already. -/
theorem free_settles (h : Attainable config e) (slot : Slot) :
    (Pool.free slot).Meets e.pool
      (fun _ p' => (slot.size = 0 ∧ p' = e.pool) ∨
        (slot.size ≠ 0 ∧ e.pool.Matches slot ∧ e.pool.Reclaims slot p')) (e.pool.Rejects slot) ∧
    (e.pool.Matches slot →
      (Pool.free slot).Meets e.pool (fun _ p' => e.pool.Reclaims slot p') Never) ∧
    (slot.idx ∈ e.pool.live → slot.size ≠ 0 →
      (Pool.free slot).Meets (e.pool.forgetting slot.idx) (fun _ _ => False) fun fault p' =>
        fault = .violated (.doubleFree slot.idx slot.offset) ∧
          p' = e.pool.forgetting slot.idx) := by
  have hvalid := h.valid
  exact ⟨Pool.free_meets_any hvalid slot, fun hmatch => hmatch.free_meets hvalid,
    fun hlive => Pool.free_forgotten (hvalid.lt_length hlive) (hvalid.ne_noIndex hlive)⟩

def pairSlot : Slot := ⟨0, 128, some ⟨0, 0⟩, 0⟩

def halfSlot : Slot := ⟨0, 64, some ⟨0, 0⟩, 0⟩

section

attribute [local instance] Host.plain

/-- A chunk that was freed and handed out anew, cut down to half of it. -/
theorem exists_recut : ∃ e, Attainable {} e ∧ halfSlot ∈ e.held ∧ e.pool.Matches halfSlot ∧
    ((Pool.free pairSlot).run e.pool).result =
      .error (.violated (.disagreement .recordSize 64 128)) := by
  have hrun : ∃ p e₁ e₂ e₃, ((Pool.create {}).run ()).result = .ok p ∧
      e₁ = (new p).next (.alloc 128 64) ∧ e₂ = e₁.next (.free pairSlot) ∧
      e₃ = e₂.next (.alloc 64 64) ∧ ((perform (.alloc 128 64)).run (new p)).result.isOk ∧
      (pairSlot ∈ e₁.held ∧ ((perform (.free pairSlot)).run e₁).result.isOk) ∧
      ((perform (.alloc 64 64)).run e₂).result.isOk ∧ halfSlot ∈ e₃.held ∧
      e₃.pool.live.contains 0 ∧ (e₃.pool.roster.record 0).offset = 0 ∧
      (e₃.pool.roster.record 0).size = 64 ∧
      ((Pool.free pairSlot).run e₃.pool).result =
        .error (.violated (.disagreement .recordSize 64 128)) := by
    refine ⟨_, _, _, _, rfl, rfl, rfl, rfl, ?_⟩
    decide +kernel
  obtain ⟨p, e₁, e₂, e₃, hp, he₁, he₂, he₃, h₁, ⟨hheld, h₂⟩, h₃, howner, hlive, hoffset, hsize,
    hstale⟩ := hrun
  have hfirst : Attainable {} e₁ := he₁ ▸ .step (.opened hp) trivial (survives_of_ok h₁)
  have hsecond : Attainable {} e₂ := he₂ ▸ .step hfirst (Or.inr hheld) (survives_of_ok h₂)
  have hthird : Attainable {} e₃ := he₃ ▸ .step hsecond trivial (survives_of_ok h₃)
  exact ⟨e₃, hthird, howner, ⟨Std.TreeSet.mem_iff_contains.mpr hlive, hoffset, hsize⟩, hstale⟩

end

/-- The slot of the whole chunk, given back once more, and the slot of its half. -/
theorem free_settles_of_recut : ∃ e, Attainable {} e ∧
    e.pool.Rejects pairSlot (.violated (.disagreement .recordSize 64 128))
      ((Pool.free pairSlot).run e.pool).state ∧
    e.pool.Reclaims halfSlot ((Pool.free halfSlot).run e.pool).state := by
  obtain ⟨e, hattainable, -, hmatch, hstale⟩ := exists_recut
  obtain ⟨_, p', events, hfreed, hreclaims⟩ :=
    ((free_settles hattainable halfSlot).2.1 hmatch).exists_ok
  exact ⟨e, hattainable, (free_settles hattainable pairSlot).1.of_error hstale, hfreed ▸ hreclaims⟩

/-- A slot that is given back twice, after its record was handed out anew at another size, is turned
down, but the new owner of the record cannot give it back any more. -/
theorem free_forgets_owner : ∃ e, Attainable {} e ∧ halfSlot ∈ e.held ∧
    ((Pool.free halfSlot).run e.pool).result = .ok () ∧
    ((Pool.free pairSlot).run e.pool).result =
      .error (.violated (.disagreement .recordSize 64 128)) ∧
    0 ∈ e.pool.live ∧ 0 ∉ ((Pool.free pairSlot).run e.pool).state.live ∧
    ((Pool.free halfSlot).run ((Pool.free pairSlot).run e.pool).state).result =
      .error (.violated (.doubleFree 0 0)) := by
  obtain ⟨e, hattainable, howner, hmatch, hstale⟩ := exists_recut
  have hvalid := hattainable.valid
  obtain ⟨_, _, _, hfreed, -⟩ := (hmatch.free_meets hvalid).exists_ok
  obtain ⟨hlive, hforgotten⟩ :=
    ((Pool.free_meets_any hvalid pairSlot).of_error hstale).of_disagreement
  obtain ⟨_, _, _, hagain, rfl, -⟩ := (@Pool.free_forgotten e.pool halfSlot
    (hvalid.lt_length hlive) (hvalid.ne_noIndex hlive) (by decide)).exists_error
  refine ⟨e, hattainable, howner, by rw [hfreed], hstale, hlive, ?_, ?_⟩
  · rw [hforgotten]
    exact e.pool.not_mem_forgetting 0
  · exact hforgotten ▸ congrArg Outcome.result hagain

end Estate

end SlotArena
