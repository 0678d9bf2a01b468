import SlotArena.Proofs.Allocating

/-!
What a pool lends. A slot that its pool has lent agrees with a live record and can be reached
through the place that it was handed out with, whatever the pool did since. Different live records
share no byte, so what is written inside one of them is seen by nobody else (`write_passed`).
-/

namespace SlotArena

open Act Finset Ledger

namespace Pool

/-- The bytes of a slot can be used through the place that the slot came with. -/
def Reaches (p : Pool) (slot : Slot) : Prop :=
  ∃ place, slot.place = some place ∧ place.offset = slot.offset ∧
    p.arena.window.Shows place slot.size

/-- The slot is the one of a live record. -/
structure Lent (p : Pool) (slot : Slot) : Prop where
  live : slot.idx ∈ p.live
  offset : (p.roster.record slot.idx).offset = slot.offset
  size : (p.roster.record slot.idx).size = slot.size
  reaches : p.Reaches slot

variable {p p' : Pool} {loose : Finset Int} {slot : Slot} {moved : Set Nat}

theorem Lent.bytesOf (h : p.Lent slot) : p.bytesOf slot.idx = span slot.offset slot.size := by
  rw [Pool.bytesOf, h.offset, h.size]

theorem Lent.passed (h : p.Lent slot) (hpassed : p.Passed p' moved) (hslot : slot.idx ∉ moved) :
    p'.Lent slot where
  live := (hpassed.live _ hslot).mpr h.live
  offset := by rw [hpassed.records _ hslot h.live, h.offset]
  size := by rw [hpassed.records _ hslot h.live, h.size]
  reaches := by
    obtain ⟨place, hplace, hoffset, hshows⟩ := h.reaches
    exact ⟨place, hplace, hoffset, hpassed.shows place _ hshows⟩

/-! ### Live records -/

section

variable {i j : Nat}

theorem Valid.block (h : p.Valid loose) : SizeClass.IsSize p.blockSize := by
  obtain ⟨spot, h, -⟩ := h
  exact h.block

theorem Valid.window (h : p.Valid loose) : p.arena.window.Sound := by
  obtain ⟨spot, h, -⟩ := h
  exact h.arena.window

theorem Valid.roster (h : p.Valid loose) : p.roster.Sound := by
  obtain ⟨spot, h, -⟩ := h
  exact h.roster

theorem Valid.back_le (h : p.Valid loose) : p.arena.window.extent.back ≤ 2 ^ 31 := by
  obtain ⟨spot, h, -⟩ := h
  exact h.arena.back_le

theorem Valid.lt_length (h : p.Valid loose) (hi : i ∈ p.live) : i < p.roster.length := by
  obtain ⟨spot, h, -⟩ := h
  refine h.born ?_
  rw [(h.live i).mpr hi]
  exact Spot.noConfusion

theorem Valid.ne_noIndex (h : p.Valid loose) (hi : i ∈ p.live) : i ≠ noIndex :=
  Nat.ne_of_lt (h.roster.lt_noIndex (h.lt_length hi))

/-- A record belongs to the front or to the back, and takes some bytes there. -/
theorem Valid.fits (h : p.Valid loose) (hi : i ∈ p.live) :
    ∃ s, (p.roster.record i).Fits p.blockSize s := by
  obtain ⟨spot, h, -⟩ := h
  refine h.fits i ?_
  rw [(h.live i).mpr hi]
  exact Spot.noConfusion

theorem Valid.size_pos (h : p.Valid loose) (hi : i ∈ p.live) : 0 < (p.roster.record i).size := by
  obtain ⟨s, hs⟩ := h.fits hi
  exact hs.pos h.block

theorem Valid.size_le (h : p.Valid loose) (hi : i ∈ p.live) :
    (p.roster.record i).size ≤ SizeClass.largest := by
  obtain ⟨s, hs⟩ := h.fits hi
  cases s with
  | front c => exact hs.2.1 ▸ c.bytes_le_largest
  | back => exact hs.2 ▸ h.block.2.2

/-- A live record above the origin is aligned to any power of two that neither its size nor the
block size falls short of. -/
theorem Valid.dvd_offset (h : p.Valid loose) (hi : i ∈ p.live) {align : Nat}
    (hfront : 0 ≤ (p.roster.record i).offset) (halign : PowerOfTwo align)
    (hsize : align ≤ (p.roster.record i).size) (hblock : align ≤ p.blockSize) :
    (align : Int) ∣ (p.roster.record i).offset := by
  obtain ⟨s, hs⟩ := h.fits hi
  cases s with
  | front c =>
    obtain ⟨-, hbytes, hdvd⟩ := hs
    have hmin : align ∣ min c.bytes p.blockSize :=
      halign.dvd_of_le (c.powerOfTwo_bytes.min h.block.1) (Nat.le_min.mpr ⟨hbytes ▸ hsize, hblock⟩)
    exact Int.dvd_trans (Int.natCast_dvd_natCast.mpr hmin) hdvd
  | back =>
    -- what ends at the origin has no byte above it
    have hpos := h.size_pos hi
    have hstop := hs.1
    omega

theorem Valid.bounds (h : p.Valid loose) (hi : i ∈ p.live) :
    p.arena.window.lo ≤ (p.roster.record i).offset ∧
      (p.roster.record i).offset + (p.roster.record i).size ≤ p.arena.window.hi ∧
      -(p.arena.window.extent.back : Int) ≤ (p.roster.record i).offset ∧
      (p.roster.record i).offset + (p.roster.record i).size ≤ 2 ^ 31 := by
  obtain ⟨spot, h, -⟩ := h
  have hbounds := h.record_bounds (i := i) (by
    rw [(h.live i).mpr hi]
    exact Spot.noConfusion)
  have hfront := h.arena.next_le_reach .front
  have hback := h.arena.next_le_reach .back
  have hhalf := h.claimed_le.1
  have hcenter := h.arena.window.center_le_back
  have hsize := h.arena.window.center_le_size
  simp only [Arena.cursor, Arena.reach, Arena.size, Arena.center] at hfront hback
  simp only [Window.lo, Window.hi]
  omega

theorem Sound.owns_iff {spot : Nat → Spot} (h : p.Sound spot loose) (hi : spot i = .live)
    (x : Int) : (p.ledger loose).Owns (.record i) x ↔ x ∈ p.bytesOf i := by
  rw [owns_record loose (h.born_of_busy (Or.inl hi)), Pool.bytesOf, mem_span]

theorem Valid.disjoint (h : p.Valid loose) (hi : i ∈ p.live) (hj : j ∈ p.live) (hij : i ≠ j) :
    Disjoint (p.bytesOf i) (p.bytesOf j) := by
  obtain ⟨spot, h, -⟩ := h
  refine disjoint_left.mpr fun x hx hx' => hij ?_
  have hi' := (h.owns_iff ((h.live i).mpr hi) x).mpr hx
  have hj' := (h.owns_iff ((h.live j).mpr hj) x).mpr hx'
  exact Owner.record.inj (h.ledger.apart _ _ x hi' hj')

theorem Valid.not_loose (h : p.Valid loose) (hi : i ∈ p.live) : Disjoint (p.bytesOf i) loose := by
  obtain ⟨spot, h, -⟩ := h
  refine disjoint_left.mpr fun x hx hx' => ?_
  have hi' := (h.owns_iff ((h.live i).mpr hi) x).mpr hx
  exact Owner.noConfusion (h.ledger.apart (.record i) .loose x hi' hx')

theorem Valid.lent_slotOf (h : p.Valid loose) (hi : i ∈ p.live) : p.Lent (p.slotOf i) where
  live := hi
  offset := rfl
  size := rfl
  reaches := ⟨_, rfl, rfl, Window.shows_place h.window (h.bounds hi).1 (h.bounds hi).2.1⟩

theorem Issued.lent (h : p.Issued loose slot p') : p'.Lent slot := by
  rw [h.slot_eq]
  exact h.valid.lent_slotOf h.live

theorem Valid.slotAt_meets (h : p.Valid loose) (hi : i ∈ p.live) :
    (slotAt i).Meets p (fun slot p' => slot = p.slotOf i ∧ p' = p) Never := by
  obtain ⟨spot, h, -⟩ := h
  refine Pool.slotAt_meets h ?_
  rw [(h.live i).mpr hi]
  exact Spot.noConfusion

theorem Valid.free_meets (h : p.Valid loose) (hlent : p.Lent slot) :
    (free slot).Meets p
      (fun _ p' => p'.Valid loose ∧ p.Passed p' {slot.idx} ∧ slot.idx ∉ p'.live) Never :=
  Pool.free_meets h hlent.live hlent.offset hlent.size

theorem nodup_toList (s : Std.TreeSet Nat) : s.toList.Nodup := by
  refine Std.TreeSet.distinct_toList.imp fun {a b} hne heq => hne ?_
  rw [heq]
  exact Nat.compare_eq_eq.mpr rfl

theorem length_le_live {records : List Nat} (hnodup : records.Nodup)
    (hlive : ∀ i ∈ records, i ∈ p.live) : records.length ≤ p.live.size := by
  have hsub : records ⊆ p.live.toList := fun i hi => Std.TreeSet.mem_toList.mpr (hlive i hi)
  have hle := (hnodup.subperm hsub).length_le
  rwa [Std.TreeSet.length_toList] at hle

theorem Valid.liveCount_eq {p' : Pool} {loose' : Finset Int} (h : p'.Valid loose')
    (hp : p.Valid loose) (hlive : ∀ i, i ∈ p'.live ↔ i ∈ p.live) : p'.liveCount = p.liveCount := by
  obtain ⟨_, h', -⟩ := h
  obtain ⟨_, h, -⟩ := hp
  have hperm : p'.live.toList.Perm p.live.toList :=
    (List.perm_ext_iff_of_nodup (nodup_toList _) (nodup_toList _)).mpr fun i => by
      rw [Std.TreeSet.mem_toList, Std.TreeSet.mem_toList, hlive]
  rw [h'.count, h.count, ← Std.TreeSet.length_toList, ← Std.TreeSet.length_toList]
  exact hperm.length_eq

end

/-! ### Writing -/

def write (p : Pool) (place : Place) (source : Array UInt8) : Pool :=
  { p with arena := { p.arena with window := p.arena.window.written place source } }

theorem copy_meets (place : Place) (source : Array UInt8) :
    (onWindow (Window.copy place source)).Meets p (fun _ p' => p' = p.write place source)
      Never := by
  simp only [onWindow, onArena, Arena.onWindow, meets_focus_never, Window.copy, meets_modify]
  rfl

theorem Valid.write (h : p.Valid loose) (place : Place) (source : Array UInt8) :
    (p.write place source).Valid loose := by
  obtain ⟨spot, h, hhand⟩ := h
  have harena : (p.write place source).arena.Sound :=
    ⟨Window.written_sound h.arena.window place source, h.arena.back_le, h.arena.front_le,
      h.arena.next_le, h.arena.stop_le⟩
  exact ⟨spot, ⟨⟨h.block, harena, h.block_dvd, h.roster, h.ledger, h.carve_dvd, h.carve_stop⟩,
    h.toFiled.congr rfl rfl rfl rfl fun _ => rfl⟩, hhand⟩

theorem Lent.write (h : p.Lent slot) (place : Place) (source : Array UInt8) :
    (p.write place source).Lent slot := ⟨h.live, h.offset, h.size, h.reaches⟩

/-- What is written at a place is seen from the offset of the place on, and nowhere else. -/
theorem Valid.byteAt_write (h : p.Valid loose) {place : Place} (source : Array UInt8)
    (hplace : -(p.arena.window.extent.back : Int) ≤ place.offset) {x : Int}
    (hx : -(p.arena.window.extent.back : Int) ≤ x) :
    (p.write place source).arena.window.byteAt x =
      if place.offset ≤ x ∧ x < place.offset + source.size then
        source.getD (x - place.offset).toNat 0
      else p.arena.window.byteAt x :=
  Window.byteAt_written h.window source hplace hx

/-- Writing where no live record but those of `moved` lies passes by the others. -/
theorem Valid.write_passed (h : p.Valid loose) {place : Place} (source : Array UInt8)
    (hplace : -(p.arena.window.extent.back : Int) ≤ place.offset)
    (hout : ∀ i ∉ moved, i ∈ p.live → Disjoint (p.bytesOf i) (span place.offset source.size)) :
    p.Passed (p.write place source) moved where
  blockSize := rfl
  extent := rfl
  shows _ _ := id
  live _ _ := Iff.rfl
  records _ _ _ := rfl
  bytes i hi hlive x hx := by
    have hlo := (mem_span.mp hx).1
    have hbounds := (h.bounds hlive).2.2.1
    rw [h.byteAt_write source hplace (by omega), if_neg]
    exact fun hin => disjoint_left.mp (hout i hi hlive) hx (mem_span.mpr hin)

end Pool

end SlotArena
