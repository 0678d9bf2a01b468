import SlotArena.Proofs.Reclaiming
import SlotArena.Proofs.Traces

/-!
Slots that go back in a row. `Recalls` adds up what becomes of a pool that takes some slots back,
one after the other (`returnEach_meets`): their records are live no more, and lie on top of the
shelves of their classes, the last one that came back uppermost. A stream that ends does no more
than that to its pool (`release_run`): it reads the header of a block while the block is still lent,
and a block that goes back leaves the headers of the others alone.
-/

namespace SlotArena

open Act

/-- What comes after an operation that answers decides what a sequence does. -/
theorem Act.run_bind_congr {σ α β : Type} {x : Act σ α} {f g : α → Act σ β} {s t : σ} {a : α}
    {es : List Event} (h : x.run s = ⟨.ok a, t, es⟩) (hfg : (f a).run t = (g a).run t) :
    (x >>= f).run s = (x >>= g).run s := by
  rw [run_bind_ok h, run_bind_ok h, hfg]

namespace Pool

/-- The slots were taken back in this order, and nothing else happened. -/
structure Recalls (p : Pool) (slots : List Slot) (p' : Pool) : Prop where
  live : ∀ i, i ∈ p'.live ↔ i ∈ p.live ∧ i ∉ slots.map Slot.idx
  liveCount : p'.liveCount + slots.length = p.liveCount
  front : ∀ c records, Chain.Threads p.roster.link (p.bucket c).free.head records →
    Chain.Threads p'.roster.link (p'.bucket c).free.head
      (((slots.filter fun slot => slot.size = c.bytes).map Slot.idx).reverse ++ records)
  back : ∀ records, Chain.Threads p.roster.link p.backFree.head records →
    Chain.Threads p'.roster.link p'.backFree.head records
  pieceOf : ∀ i, p'.pieceOf i = p.pieceOf i
  length : p'.roster.length = p.roster.length
  rest : p.Sealed p'

variable {p p' q : Pool} {loose : Finset Int} {slot : Slot} {slots : List Slot}

theorem Recalls.nil (p : Pool) : p.Recalls [] p where
  live _ := (and_iff_left List.not_mem_nil).symm
  liveCount := rfl
  front _ _ := id
  back _ := id
  pieceOf _ := rfl
  length := rfl
  rest := .refl p

theorem Reclaims.front (h : p.Reclaims slot p') (hmatch : p.Matches slot) (hslot : 0 ≤ slot.offset)
    (hpos : slot.size ≠ 0) :
    (∀ c records, Chain.Threads p.roster.link (p.bucket c).free.head records →
      Chain.Threads p'.roster.link (p'.bucket c).free.head
        (if slot.size = c.bytes then slot.idx :: records else records)) ∧
      (∀ records, Chain.Threads p.roster.link p.backFree.head records →
        Chain.Threads p'.roster.link p'.backFree.head records) ∧ p.Sealed p' := by
  obtain ⟨s, hfits, hkept, hthreads⟩ := h.shelved
  obtain ⟨d, rfl, hsize⟩ := (hmatch.side hfits hpos).2 (Int.not_lt.mpr hslot)
  refine ⟨fun c records hc => ?_, fun records hback => hthreads .back records hback,
    h.arena, h.leaked, h.carve, hkept .back Shelf.noConfusion, h.blockSize, h.capacity⟩
  have htop := hthreads (.front c) records hc
  have hclass : Shelf.front c = .front d ↔ slot.size = c.bytes :=
    ⟨fun heq => Shelf.front.inj heq ▸ hsize, fun hc =>
      congrArg _ (SizeClass.bytes_injective (hc.symm.trans hsize))⟩
  simp only [hclass] at htop
  exact htop

theorem Recalls.cons (h : p.Reclaims slot q) (hmatch : p.Matches slot) (hslot : 0 ≤ slot.offset)
    (hpos : slot.size ≠ 0) (hrest : q.Recalls slots p') : p.Recalls (slot :: slots) p' := by
  obtain ⟨hfront, hback, hsealed⟩ := h.front hmatch hslot hpos
  exact {
    live := fun i => by
      rw [hrest.live, h.live, List.map_cons, List.mem_cons, not_or]
      tauto
    liveCount := by
      have hone := h.liveCount
      have hmore := hrest.liveCount
      rw [List.length_cons]
      omega
    front := fun c records hc => by
      have htop := hrest.front c _ (hfront c records hc)
      by_cases hsize : slot.size = c.bytes
      · simpa [hsize] using htop
      · simpa [hsize] using htop
    back := fun records hrecords => hrest.back records (hback records hrecords)
    pieceOf := fun i => (hrest.pieceOf i).trans (h.pieceOf i)
    length := hrest.length.trans h.length
    rest := hsealed.trans hrest.rest }

/-- Every slot that came back is on the shelf of its class, with the size that it had. -/
theorem Recalls.shelved (h : p.Recalls slots p') (hp : p.Valid loose)
    (hlent : ∀ slot ∈ slots, p.Lent slot) (hfront : ∀ slot ∈ slots, 0 ≤ slot.offset)
    (hslot : slot ∈ slots) :
    p'.pieceOf slot.idx = ⟨slot.offset, slot.size⟩ ∧ ∃ c records, slot.size = c.bytes ∧
      Chain.Threads p'.roster.link (p'.bucket c).free.head records ∧ slot.idx ∈ records := by
  have hmatch := (hlent slot hslot).matches
  refine ⟨?_, ?_⟩
  · rw [h.pieceOf, Pool.pieceOf, hmatch.offset, hmatch.size]
  · obtain ⟨s, hfits⟩ := hp.fits hmatch.live
    have hpos : slot.size ≠ 0 := hmatch.size ▸ Nat.ne_of_gt (hp.size_pos hmatch.live)
    obtain ⟨c, -, hsize⟩ := (hmatch.side hfits hpos).2 (Int.not_lt.mpr (hfront slot hslot))
    obtain ⟨spot, hsound, -⟩ := hp
    obtain ⟨records, hrecords, -⟩ := hsound.chained (.front c)
    refine ⟨c, _, hsize, h.front c records hrecords, List.mem_append_left _ ?_⟩
    rw [List.mem_reverse]
    exact List.mem_map_of_mem (List.mem_filter.mpr ⟨hslot, decide_eq_true hsize⟩)

/-- A pool looks at nothing but the record, the offset and the size of a slot that it takes back. -/
theorem free_congr (hp : p.Valid loose) (hlent : p.Lent slot) {other : Slot}
    (hidx : other.idx = slot.idx) (hother : p.Lent other) :
    (free other).run p = (free slot).run p := by
  have hborn : slot.idx ≠ noIndex ∧ slot.idx < p.roster.length :=
    ⟨hp.ne_noIndex hlent.live, hp.lt_length hlent.live⟩
  have hoffset : other.offset = slot.offset := by rw [← hother.offset, hidx, hlent.offset]
  have hsize : other.size = slot.size := by rw [← hother.size, hidx, hlent.size]
  have hnull : ¬ slot.IsNull := fun hnull =>
    Nat.ne_of_gt (hp.size_pos hlent.live) (hlent.size.trans hnull)
  have hnull' : ¬ other.IsNull := fun hnull' => hnull (hsize.symm.trans hnull')
  rw [free, free, if_neg hnull, if_neg hnull']
  obtain ⟨offset, size, place, idx⟩ := slot
  obtain ⟨_, _, _, _⟩ := other
  dsimp only at hidx hoffset hsize hborn
  subst idx offset size
  -- only the complaint about a slot that is not the pool's would show the place
  refine run_bind_congr (run_get p) ?_
  simp only [run_bind, run_ensure, if_pos hborn]

theorem Valid.slotAt_run (hp : p.Valid loose) {i : Nat} (hi : i ∈ p.live) :
    (slotAt i).run p = ⟨.ok (p.slotOf i), p, []⟩ := by
  obtain ⟨slot, q, es, hrun, hslot, hq⟩ := (hp.slotAt_meets hi).exists_ok
  have hquiet : (slotAt i).Leaves p fun _ es _ => es = [] := by
    simp only [slotAt, onRoster, onArena, Roster.get, Arena.place, leaves_bind, leaves_focus,
      leaves_get, leaves_ensure, leaves_pure]
    simp
  unfold Leaves at hquiet
  rw [hrun] at hquiet
  rw [hrun, hslot, hq, show es = [] from hquiet]

end Pool

namespace Stream

/-- Returns slots to a pool one by one, as blocks of a stream. -/
def returnEach : List Slot → Act Pool Unit
  | [] => return
  | slot :: slots => do
      Pool.free slot
      Act.emit [.lower .streamBlocks 1]
      returnEach slots

variable {s : Stream} {p : Pool} {loose : Finset Int} {blocks : Set Nat} {issued : List Slot}
  {slots : List Slot}

theorem not_mem_moved {slot : Slot} (hnodup : ((slot :: slots).map Slot.idx).Nodup) :
    ∀ other ∈ slots, other.idx ∉ ({slot.idx} : Set Nat) := by
  intro other hother hidx
  have hout := (List.nodup_cons.mp hnodup).1
  exact hout (Set.mem_singleton_iff.mp hidx ▸ List.mem_map_of_mem hother)

theorem returnEach_meets (hp : p.Valid loose) (hlent : ∀ slot ∈ slots, p.Lent slot)
    (hfront : ∀ slot ∈ slots, 0 ≤ slot.offset) (hnodup : (slots.map Slot.idx).Nodup) :
    (returnEach slots).Meets p (fun _ p' => p.Recalls slots p') Never := by
  induction slots generalizing p with
  | nil => exact .nil p
  | cons slot slots ih =>
    obtain ⟨hslot, hlent'⟩ := List.forall_mem_cons.mp hlent
    obtain ⟨habove, hfront'⟩ := List.forall_mem_cons.mp hfront
    have hpos : slot.size ≠ 0 := hslot.size ▸ Nat.ne_of_gt (hp.size_pos hslot.live)
    simp only [returnEach, meets_bind, meets_emit]
    apply ((hp.free_meets hslot).and_answers (hslot.matches.free_meets hp)).imp
    rintro _ q ⟨⟨hvalid, hpassed, -⟩, hreclaims⟩
    have hkept : ∀ other ∈ slots, q.Lent other := fun other hother =>
      (hlent' other hother).passed hpassed (not_mem_moved hnodup other hother)
    exact (ih hvalid hkept hfront' (List.nodup_cons.mp hnodup).2).imp fun _ _ =>
      .cons hreclaims hslot.matches habove hpos

theorem releaseFrom_congr (hp : p.Valid loose) {block slot : Slot} (fuel : Nat)
    (hblock : p.Lent block) (hslot : p.Lent slot) (hidx : block.idx = slot.idx)
    (hrest : ∀ q, Gone p loose slot.idx q →
      (do
        if p.header slot.idx = noIndex then return
        releaseFrom fuel (← Pool.slotAt (p.header slot.idx)) : Act Pool Unit).run q =
          (returnEach slots).run q) :
    (releaseFrom (fuel + 1) block).run p = (returnEach (slot :: slots)).run p := by
  have hnull : ¬ block.IsNull := fun hnull =>
    Nat.ne_of_gt (hp.size_pos hblock.live) (hblock.size.trans hnull)
  have hread : (readHeader block).run p = ⟨.ok (p.header slot.idx), p, []⟩ := by
    obtain ⟨_, _, es, hrun, rfl, rfl⟩ := (readHeader_meets hp hblock).exists_ok
    have hquiet : [] = es := congrArg Outcome.events hrun
    rw [hrun, hidx, hquiet]
  obtain ⟨_, q, es, hfreed, hgone⟩ := (hp.free_meets hslot).exists_ok
  have hfree : ∀ f : Unit → Act Pool Unit,
      (Pool.free block >>= f).run p = (Pool.free slot >>= f).run p := fun f => by
    rw [run_bind, run_bind, Pool.free_congr hp hslot hidx hblock]
  rw [releaseFrom, if_neg hnull, run_bind_ok hread, List.nil_append, hfree]
  exact run_bind_congr hfreed (run_bind_congr (run_emit _ q) (hrest q hgone))

/-- A chain of blocks that is released is returned block by block. The header of a block is read
while it is still lent, and returning it leaves the headers of those behind it alone. -/
theorem releaseFrom_run (hp : p.Valid loose) {block slot : Slot} {fuel : Nat}
    (hblock : p.Lent block) (hslot : p.Lent slot) (hidx : block.idx = slot.idx)
    (hchain : Chain.Threads p.header (p.header slot.idx) (slots.map Slot.idx))
    (hnodup : ((slot :: slots).map Slot.idx).Nodup) (hlent : ∀ slot ∈ slots, p.Lent slot)
    (hfuel : slots.length < fuel) :
    (releaseFrom fuel block).run p = (returnEach (slot :: slots)).run p := by
  induction slots generalizing p block slot fuel with
  | nil =>
    obtain ⟨fuel, rfl⟩ := Nat.exists_eq_add_one_of_ne_zero (Nat.ne_zero_of_lt hfuel)
    refine releaseFrom_congr hp fuel hblock hslot hidx fun q _ => ?_
    rw [if_pos (show p.header slot.idx = noIndex from hchain), returnEach]
  | cons next slots ih =>
    obtain ⟨fuel, rfl⟩ := Nat.exists_eq_add_one_of_ne_zero (Nat.ne_zero_of_lt hfuel)
    obtain ⟨hhead, hne, htail⟩ := hchain
    refine releaseFrom_congr hp fuel hblock hslot hidx fun q hgone => ?_
    obtain ⟨hvalid, hpassed, -⟩ := hgone
    have hout := not_mem_moved hnodup
    have hkept : ∀ other ∈ next :: slots, q.Lent other := fun other hother =>
      (hlent other hother).passed hpassed (hout other hother)
    have hheader : ∀ other ∈ next :: slots, q.header other.idx = p.header other.idx :=
      fun other hother =>
        header_passed hp hvalid hpassed (hout other hother) (hlent other hother).live
    obtain ⟨hnext, hkept'⟩ := List.forall_mem_cons.mp hkept
    obtain ⟨hheader', hheaders⟩ := List.forall_mem_cons.mp hheader
    have htail' : Chain.Threads q.header (q.header next.idx) (slots.map Slot.idx) := by
      rw [hheader']
      exact htail.congr (List.forall_mem_map.mpr hheaders)
    rw [hhead, if_neg hne, run_bind_ok (hvalid.slotAt_run hnext.live), List.nil_append]
    exact ih hvalid (hvalid.lent_slotOf hnext.live) hnext rfl htail'
      (List.nodup_cons.mp hnodup).2 hkept' (Nat.lt_of_succ_lt_succ hfuel)

/-- A stream that ends returns its blocks, newest first. -/
theorem release_run (h : s.Sound p blocks issued) (hp : p.Valid loose)
    (hchain : Chain.Threads p.header s.previous (slots.map Slot.idx))
    (hlent : ∀ slot ∈ slots, p.Lent slot) :
    (release s).run p = (returnEach slots).run p := by
  have hnodup := hchain.nodup
  have hlength : slots.length ≤ p.live.size := by
    have hle := Pool.length_le_live hnodup (List.forall_mem_map.mpr fun slot hslot =>
      (hlent slot hslot).live)
    rwa [List.length_map] at hle
  rw [release, run_bind_ok (run_get p), List.nil_append]
  by_cases hnull : s.block.IsNull
  · have hprevious : s.previous = noIndex := if_pos hnull
    cases slots with
    | nil => rw [releaseFrom, if_pos hnull, returnEach]
    | cons slot slots => exact absurd (hchain.1.symm.trans hprevious) hchain.2.1
  · have hblock := h.lent hnull
    have hprevious : s.previous = s.block.idx := if_neg hnull
    rw [hprevious] at hchain
    cases slots with
    | nil => exact absurd hchain (hp.ne_noIndex hblock.live)
    | cons slot slots =>
      obtain ⟨hidx, -, hrest⟩ := hchain
      obtain ⟨hslot, hlent'⟩ := List.forall_mem_cons.mp hlent
      exact releaseFrom_run hp hblock hslot hidx hrest hnodup hlent'
        (Nat.lt_succ_of_lt hlength)

end Stream

end SlotArena
