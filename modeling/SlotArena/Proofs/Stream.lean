import Mathlib.Data.Set.Card
import SlotArena.Proofs.Lending
import SlotArena.Stream

/-!
Streams. The blocks of a stream are chained through their own first bytes, so what keeps the chain
together is memory that the pool lends: nobody else writes there, and the stream's own slots begin
past it. `Stream.Sound` carries this through whatever is done to the pool between two operations of
the stream (`Sound.passed`); an allocation adds a block at most (`alloc_meets_any`), and a release
takes back all of them, each one once (`release_meets`). The counters of a stream count what it
holds and what it handed out, so they cannot leave their words.
-/

namespace SlotArena

open Act Finset Ledger

def Pool.header (p : Pool) (i : Nat) : Nat :=
  wordOfBytes (p.arena.window.load (p.arena.window.place (p.roster.record i).offset) 4)

namespace Stream

/-- The stream `s` holds the records of `blocks` and has handed out the slots `issued`. -/
structure Sound (s : Stream) (p : Pool) (blocks : Set Nat) (issued : List Slot) : Prop where
  chained : Chain.Covers p.header s.previous blocks
  live : ∀ i ∈ blocks, i ∈ p.live
  lent : ¬ s.block.IsNull → p.Lent s.block
  front : ¬ s.block.IsNull → 0 ≤ s.block.offset
  next_ge : ¬ s.block.IsNull → headerSize ≤ s.next
  next_le : s.next ≤ s.block.size
  blocks_eq : s.blocks = blocks.ncard
  total_eq : s.total = (issued.map Slot.size).sum
  inside : ∀ slot ∈ issued, ∃ i ∈ blocks,
    (p.roster.record i).offset + headerSize ≤ slot.offset ∧
      slot.stop ≤ (p.roster.record i).offset + (p.roster.record i).size ∧
      (i = s.block.idx → slot.stop ≤ s.block.offset + s.next)
  reaches : ∀ slot ∈ issued, p.Reaches slot
  apart : issued.Pairwise fun a b => Disjoint (span a.offset a.size) (span b.offset b.size)

variable {s : Stream} {p p' : Pool} {loose loose' : Finset Int} {blocks moved : Set Nat}
  {issued : List Slot}

theorem size_ge {i : Nat} (hp : p.Valid loose) (hi : i ∈ p.live) :
    64 ≤ (p.roster.record i).size := by
  obtain ⟨t, ht⟩ := hp.fits hi
  exact ht.least_le hp.block

theorem header_eq {i : Nat} (hp : p.Valid loose) (hi : i ∈ p.live) :
    p.header i = wordOfBytes ((List.range 4).map fun k =>
      p.arena.window.byteAt ((p.roster.record i).offset + (k : Nat))) := by
  rw [Pool.header, Window.load_eq hp.window (hp.bounds hi).2.2.1]
  rfl

theorem header_passed (hp : p.Valid loose) (hp' : p'.Valid loose') (h : p.Passed p' moved) {i : Nat}
    (hi : i ∉ moved) (hlive : i ∈ p.live) : p'.header i = p.header i := by
  have hsize := size_ge hp hlive
  rw [header_eq hp hlive, header_eq hp' ((h.live i hi).mpr hlive), h.records i hi hlive]
  refine congrArg _ (List.map_congr_left fun k hk => h.bytes i hi hlive _ ?_)
  have hk' := List.mem_range.mp hk
  rw [Pool.bytesOf, mem_span]
  omega

/-- A stream does not notice what passes its blocks by. -/
theorem Sound.passed (h : s.Sound p blocks issued) (hp : p.Valid loose) (hp' : p'.Valid loose')
    (hpassed : p.Passed p' moved) (hblocks : ∀ i ∈ blocks, i ∉ moved) :
    s.Sound p' blocks issued where
  chained := h.chained.congr fun i hi => header_passed hp hp' hpassed (hblocks i hi) (h.live i hi)
  live i hi := (hpassed.live i (hblocks i hi)).mpr (h.live i hi)
  lent hnull := by
    have hlent := h.lent hnull
    have hprevious : s.previous = s.block.idx := if_neg hnull
    have hmem := h.chained.head_mem (hprevious ▸ hp.ne_noIndex hlent.live)
    exact hlent.passed hpassed (hblocks _ (hprevious ▸ hmem.1))
  front := h.front
  next_ge := h.next_ge
  next_le := h.next_le
  blocks_eq := h.blocks_eq
  total_eq := h.total_eq
  inside slot hslot := by
    obtain ⟨i, hi, hin⟩ := h.inside slot hslot
    refine ⟨i, hi, ?_⟩
    rw [hpassed.records i (hblocks i hi) (h.live i hi)]
    exact hin
  reaches slot hslot := by
    obtain ⟨place, hplace, hoffset, hshows⟩ := h.reaches slot hslot
    exact ⟨place, hplace, hoffset, hpassed.shows place _ hshows⟩
  apart := h.apart

theorem Sound.idx_mem (h : s.Sound p blocks issued) (hp : p.Valid loose)
    (hnull : ¬ s.block.IsNull) : s.block.idx ∈ blocks := by
  have hprevious : s.previous = s.block.idx := if_neg hnull
  exact hprevious ▸ (h.chained.head_mem (hprevious ▸ hp.ne_noIndex (h.lent hnull).live)).1

theorem sound_new (hnone : ∀ i, i ∉ blocks) (blockSize : Nat) :
    (⟨blockSize, .null, 0, 0, 0⟩ : Stream).Sound p blocks [] where
  chained := (Chain.Covers.empty _).of_eq fun i => iff_of_false (Set.notMem_empty i) (hnone i)
  live i hi := absurd hi (hnone i)
  lent hnull := absurd rfl hnull
  front hnull := absurd rfl hnull
  next_ge hnull := absurd rfl hnull
  next_le := Nat.le_refl _
  blocks_eq := by rw [Set.eq_empty_of_forall_notMem hnone, Set.ncard_empty]
  total_eq := rfl
  inside _ hslot := absurd hslot List.not_mem_nil
  reaches _ hslot := absurd hslot List.not_mem_nil
  apart := List.Pairwise.nil

theorem Sound.not_mem (h : s.Sound p blocks issued) (hnull : s.block.IsNull) (i : Nat) :
    i ∉ blocks := h.chained.not_mem_of_head (if_pos hnull) i

theorem Sound.issue (h : s.Sound p blocks issued) (hp : p.Valid loose) (hnull : ¬ s.block.IsNull)
    {offset size : Nat} (hge : s.next ≤ offset) (hroom : offset + size ≤ s.block.size) :
    ({ s with next := offset + size, total := s.total + size } : Stream).Sound p blocks
      (⟨s.block.offset + offset, size,
        s.block.place.map fun q => { q with offset := q.offset + offset }, noIndex⟩ :: issued) where
  chained := h.chained
  live := h.live
  lent := h.lent
  front := h.front
  next_ge _ := by
    have hnext := h.next_ge hnull
    dsimp only
    omega
  next_le := hroom
  blocks_eq := h.blocks_eq
  total_eq := by
    rw [List.map_cons, List.sum_cons, ← h.total_eq]
    exact Nat.add_comm ..
  inside slot hslot := by
    rcases List.mem_cons.mp hslot with rfl | hslot
    · have hlent := h.lent hnull
      have hnext := h.next_ge hnull
      refine ⟨s.block.idx, h.idx_mem hp hnull, ?_, ?_, fun _ => ?_⟩
      · rw [hlent.offset]
        dsimp only
        omega
      · rw [hlent.offset, hlent.size, Slot.stop]
        dsimp only
        omega
      · rw [Slot.stop]
        dsimp only
        omega
    · obtain ⟨i, hi, hlo, hhi, hbump⟩ := h.inside slot hslot
      refine ⟨i, hi, hlo, hhi, fun hidx => ?_⟩
      have hstop := hbump hidx
      dsimp only
      omega
  reaches slot hslot := by
    rcases List.mem_cons.mp hslot with rfl | hslot
    · obtain ⟨place, hplace, hoffset, hshows⟩ := (h.lent hnull).reaches
      refine ⟨{ place with offset := place.offset + offset }, ?_, ?_, ?_⟩
      · dsimp only
        rw [hplace]
        rfl
      · rw [← hoffset]
      · exact Window.shows_inside hshows hroom
    · exact h.reaches slot hslot
  apart := by
    refine List.pairwise_cons.mpr ⟨fun slot hslot => ?_, h.apart⟩
    have hlent := h.lent hnull
    obtain ⟨i, hi, hlo, hhi, hbump⟩ := h.inside slot hslot
    rw [Slot.stop] at hhi hbump
    by_cases hidx : i = s.block.idx
    · have hstop := hbump hidx
      refine disjoint_left.mpr fun x hx hx' => ?_
      rw [mem_span] at hx hx'
      dsimp only at hx
      omega
    · have hdisjoint := hp.disjoint hlent.live (h.live i hi) (Ne.symm hidx)
      rw [hlent.bytesOf, Pool.bytesOf] at hdisjoint
      refine disjoint_of_subset_left (span_subset_span ?_ ?_)
        (disjoint_of_subset_right (span_subset_span ?_ ?_) hdisjoint)
      · dsimp only
        omega
      · dsimp only
        omega
      · omega
      · omega

/-- A user of the stream may write wherever no header is. -/
theorem Sound.write (h : s.Sound p blocks issued) (hp : p.Valid loose) {place : Place}
    (source : Array UInt8) (hplace : -(p.arena.window.extent.back : Int) ≤ place.offset)
    (hout : ∀ i ∈ blocks, Disjoint (span (p.roster.record i).offset headerSize)
      (span place.offset source.size)) :
    s.Sound (p.write place source) blocks issued where
  chained := h.chained.congr fun i hi => by
    have hlive := h.live i hi
    rw [header_eq hp hlive, header_eq (hp.write place source) hlive]
    refine congrArg _ (List.map_congr_left fun k hk => ?_)
    have hk' := List.mem_range.mp hk
    have hbounds := (hp.bounds hlive).2.2.1
    have hheader : (p.roster.record i).offset + (k : Nat) ∈
        span (p.roster.record i).offset headerSize := by
      rw [mem_span, headerSize]
      omega
    show (p.write place source).arena.window.byteAt ((p.roster.record i).offset + (k : Nat)) = _
    rw [hp.byteAt_write source hplace (by omega), if_neg]
    exact fun hin => disjoint_left.mp (hout i hi) hheader (mem_span.mpr hin)
  live := h.live
  lent hnull := (h.lent hnull).write place source
  front := h.front
  next_ge := h.next_ge
  next_le := h.next_le
  blocks_eq := h.blocks_eq
  total_eq := h.total_eq
  inside := h.inside
  reaches := h.reaches
  apart := h.apart

/-! ### Counters -/

/-- Slots that share no byte have no more bytes than the range they lie in. -/
theorem sum_sizes_le {slots : List Slot} (bytes : Finset Int)
    (hapart : slots.Pairwise fun a b => Disjoint (span a.offset a.size) (span b.offset b.size))
    (hsub : ∀ slot ∈ slots, span slot.offset slot.size ⊆ bytes) :
    (slots.map Slot.size).sum ≤ bytes.card := by
  induction slots generalizing bytes with
  | nil => exact Nat.zero_le _
  | cons slot slots ih =>
    obtain ⟨hslot, hapart⟩ := List.pairwise_cons.mp hapart
    have hrest := ih (bytes \ span slot.offset slot.size) hapart fun t ht =>
      subset_sdiff.mpr ⟨hsub t (List.mem_cons_of_mem _ ht), (hslot t ht).symm⟩
    have hcard := card_sdiff_span (hsub slot (List.mem_cons_self ..))
    rw [List.map_cons, List.sum_cons]
    omega

theorem Sound.total_lt (h : s.Sound p blocks issued) (hp : p.Valid loose) : s.total < word64 := by
  have hsum := sum_sizes_le (span (-2 ^ 31) (2 ^ 32)) h.apart fun slot hslot => by
    obtain ⟨i, hi, hlo, hhi, -⟩ := h.inside slot hslot
    have hbounds := (hp.bounds (h.live i hi)).2.2
    have hback := hp.back_le
    rw [Slot.stop] at hhi
    exact span_subset_span (by omega) (by omega)
  rw [card_span, ← h.total_eq] at hsum
  exact Nat.lt_of_le_of_lt hsum (by decide)

theorem Sound.blocks_lt (h : s.Sound p blocks issued) (hp : p.Valid loose) :
    s.blocks < noIndex := by
  have hsub : blocks ⊆ ↑(range p.roster.length) := fun i hi =>
    mem_coe.mpr (mem_range.mpr (hp.lt_length (h.live i hi)))
  have hle := Set.ncard_le_ncard hsub (finite_toSet _)
  rw [Set.ncard_coe_finset, card_range, ← h.blocks_eq] at hle
  exact Nat.lt_of_le_of_lt (Nat.le_trans hle hp.roster.length_le_capacity) hp.roster.capacity_lt

theorem Sound.next_le_largest (h : s.Sound p blocks issued) (hp : p.Valid loose) :
    s.next ≤ SizeClass.largest := by
  refine Nat.le_trans h.next_le ?_
  by_cases hnull : s.block.IsNull
  · rw [hnull]
    exact Nat.zero_le _
  · have hlent := h.lent hnull
    exact hlent.size ▸ hp.size_le hlent.live

/-! ### Blocks -/

theorem header_write (hp : p.Valid loose) {block : Slot} (hlent : p.Lent block) {place : Place}
    (hplace : place.offset = block.offset) {previous : Nat} (hword : previous < word32) :
    (p.write place (wordBytes previous)).header block.idx = previous := by
  have hbounds := (hp.bounds hlent.live).2.2.1
  rw [hlent.offset] at hbounds
  have hbytes : ((List.range 4).map fun k =>
      (p.write place (wordBytes previous)).arena.window.byteAt
        ((p.roster.record block.idx).offset + (k : Nat))) = (wordBytes previous).toList := by
    have hbyte : ∀ k < 4, (p.write place (wordBytes previous)).arena.window.byteAt
        ((p.roster.record block.idx).offset + (k : Nat)) = (wordBytes previous).getD k 0 := by
      intro k hk
      have hsize : (wordBytes previous).size = 4 := rfl
      have hoffset : (block.offset + (k : Nat) - place.offset).toNat = k := by omega
      rw [hlent.offset, hp.byteAt_write _ (hplace ▸ hbounds) (by omega), hoffset, if_pos]
      rw [hsize]
      omega
    rw [List.map_congr_left fun k hk => hbyte k (List.mem_range.mp hk)]
    rfl
  rw [header_eq (hp.write place _) hlent.live]
  exact (congrArg wordOfBytes hbytes).trans (wordOfBytes_wordBytes hword)

theorem writeHeader_meets (hp : p.Valid loose) {block : Slot} (hlent : p.Lent block)
    {previous : Nat} (hword : previous < word32) :
    (writeHeader block previous).Meets p
      (fun _ p' => p'.Valid loose ∧ p.Passed p' {block.idx} ∧ p'.Lent block ∧
        p'.header block.idx = previous) Never := by
  obtain ⟨place, hplace, hoffset, hshows⟩ := hlent.reaches
  have hsize := size_ge hp hlent.live
  have hbounds := (hp.bounds hlent.live).2.2.1
  rw [hlent.offset] at hbounds
  rw [hlent.size] at hsize
  rw [writeHeader, hplace]
  apply (Pool.copy_meets place (wordBytes previous)).imp
  rintro _ _ rfl
  refine ⟨hp.write _ _, hp.write_passed _ (hoffset ▸ hbounds) fun i hi hlive => ?_, ?_,
    header_write hp hlent hoffset hword⟩
  · have hdisjoint := hp.disjoint hlive hlent.live hi
    rw [hlent.bytesOf] at hdisjoint
    refine disjoint_of_subset_right (span_subset_span (by omega) ?_) hdisjoint
    have hfour : (wordBytes previous).size = 4 := rfl
    rw [hfour, hoffset]
    omega
  · exact ⟨hlent.live, hlent.offset, hlent.size, place, hplace, hoffset, hshows⟩

/-- What a request does that is not answered: nothing that anybody would see. -/
def Unanswered (s : Stream) (p : Pool) (loose : Finset Int) (t : Stream × Pool) : Prop :=
  t.1 = s ∧ t.2.Valid loose ∧ p.Passed t.2 ∅

theorem unanswered_self (hp : p.Valid loose) : Unanswered s p loose (s, p) :=
  ⟨rfl, hp, .refl _ _⟩

theorem startBlock_meets [Host] (h : s.Sound p blocks issued) (hp : p.Valid loose)
    {size align : Nat} (hsize : 0 < size) :
    (startBlock size align).Meets (s, p)
      (fun _ t => ∃ block, t.1 = { s with block := block, blocks := s.blocks + 1 } ∧
        t.2.Valid loose ∧ p.Passed t.2 {block.idx} ∧ block.idx ∉ p.live ∧ t.2.Lent block ∧
        0 ≤ block.offset ∧ size ≤ block.size ∧ t.2.header block.idx = s.previous)
      (stopping (p.Accepts size (max align SizeClass.least)) (Unanswered s p loose)) := by
  have hword : s.previous < word32 := by
    rw [previous]
    split
    · decide
    · rename_i hnull
      have hlive := (h.lent hnull).live
      exact Nat.lt_trans (hp.roster.lt_noIndex (hp.lt_length hlive)) (by decide)
  have hblocks : s.blocks + 1 < word64 :=
    Nat.lt_of_le_of_lt (h.blocks_lt hp) (by decide)
  simp only [startBlock, enter, addSize, meets_bind, onPool, onStream, meets_focus, meets_get,
    meets_note, meets_modify, meets_emit, meets_ensure, meets_pure]
  refine (Pool.alloc_meets_any hp size _).weaken ?_ fun _ p' hp' => ⟨⟨rfl, hp'.1⟩, hp'.2⟩
  rintro block p' (⟨hzero, -⟩ | ⟨-, hissued, hfront, hserved⟩)
  · omega
  · apply (writeHeader_meets hissued.valid hissued.lent hword).sure
    intro _ p'' hres
    obtain ⟨hvalid, hpassed, hlent, hheader⟩ := hres
    refine ⟨fun _ => ⟨block, rfl, hvalid, hissued.passed.trans hpassed, hissued.new, hlent, hfront,
      ?_, hheader⟩, fun hover => absurd hblocks hover⟩
    rw [hserved, Pool.servedSize]
    have hceil := ceilPow2_ge (max size (max align SizeClass.least))
    omega

theorem Sound.start (h : s.Sound p blocks issued) (hp : p.Valid loose) (hp' : p'.Valid loose)
    {block : Slot} (hpassed : p.Passed p' {block.idx}) (hnew : block.idx ∉ p.live)
    (hlent : p'.Lent block) (hfront : 0 ≤ block.offset)
    (hheader : p'.header block.idx = s.previous) :
    ({ s with block := block, next := headerSize, blocks := s.blocks + 1 } : Stream).Sound p'
      {i | i = block.idx ∨ i ∈ blocks} issued := by
  have hold : ∀ i ∈ blocks, i ∉ ({block.idx} : Set Nat) := by
    rintro i hi rfl
    exact hnew (h.live _ hi)
  have hs := h.passed hp hp' hpassed hold
  have hsize := size_ge hp' hlent.live
  have hnull : ¬ block.IsNull := by
    rw [Slot.IsNull, ← hlent.size]
    omega
  have hprevious : ({ s with block := block, next := headerSize, blocks := s.blocks + 1 } :
      Stream).previous = block.idx := if_neg hnull
  exact {
    chained := by
      rw [hprevious]
      exact (hheader ▸ hs.chained : Chain.Covers p'.header (p'.header block.idx) blocks).cons
        (hp'.ne_noIndex hlent.live)
    live := by
      rintro i (rfl | hi)
      · exact hlent.live
      · exact hs.live i hi
    lent := fun _ => hlent
    front := fun _ => hfront
    next_ge := fun _ => Nat.le_refl _
    next_le := by
      rw [hlent.size] at hsize
      have hheader : headerSize ≤ 64 := by decide
      exact Nat.le_trans hheader hsize
    blocks_eq := by
      have hinsert := Set.ncard_insert_of_notMem (fun hmem => hold _ hmem rfl) h.chained.finite
      exact (congrArg (· + 1) h.blocks_eq).trans hinsert.symm
    total_eq := h.total_eq
    inside := fun slot hslot => by
      obtain ⟨i, hi, hlo, hhi, -⟩ := hs.inside slot hslot
      exact ⟨i, Or.inr hi, hlo, hhi, fun hidx => absurd hidx fun heq => hold i hi heq⟩
    reaches := hs.reaches
    apart := hs.apart }

/-! ### Slots -/

/-- A slot of the newest block, whatever `next` was. -/
theorem cut_meets (h : s.Sound p blocks issued) (hp : p.Valid loose) (hnull : ¬ s.block.IsNull)
    (next : Nat) {offset size : Nat} (hge : s.next ≤ offset) (hpos : 0 < size)
    (hroom : offset + size ≤ s.block.size) :
    (cut offset size).Meets { s with next := next }
      (fun slot s' => slot.size = size ∧ slot.offset = s.block.offset + offset ∧
        slot.idx = noIndex ∧ s'.Sound p blocks (slot :: issued)) Never := by
  have hissue := h.issue hp hnull hge hroom
  have htotal := hissue.total_lt hp
  have hlent := h.lent hnull
  have hfront := h.front hnull
  have hbounds := (hp.bounds hlent.live).2.2.2
  rw [hlent.offset, hlent.size] at hbounds
  have hsigned : asSigned offset = offset := asSigned_of_lt (by omega)
  have hfits : FitsSigned (s.block.offset + (offset : Nat)) := by
    simp only [FitsSigned, signed32]
    omega
  simp only [cut, advance, addSize, addSigned, meets_bind, meets_modify, meets_get,
    meets_ensure_never, meets_pure, hsigned]
  exact ⟨htotal, hfits, trivial, trivial, trivial, hissue⟩

/-- The limits of a request: the alignment is one of the pool's, and the block that a stream may
need for it is not larger than a slot can be. -/
def Accepts (s : Stream) (p : Pool) (size align : Nat) : Prop :=
  PowerOfTwo align ∧ align ≤ p.blockSize ∧
    max s.blockSize (ceilPow2 (roundUp headerSize align + size)) ≤ SizeClass.largest

theorem Accepts.block {size align : Nat} (h : s.Accepts p size align) (hp : p.Valid loose) :
    p.Accepts (max s.blockSize (ceilPow2 (roundUp headerSize align + size)))
      (max align SizeClass.least) := by
  obtain ⟨halign, hle, hlargest⟩ := h
  have hblock := hp.block
  have hmax : max align SizeClass.least ≤ p.blockSize := Nat.max_le.mpr ⟨hle, hblock.2.1⟩
  exact ⟨halign.max (powerOfTwo_pow 6), hmax,
    Nat.max_le.mpr ⟨hlargest, Nat.le_trans hmax hblock.2.2⟩⟩

/-- What a request does that is answered: nothing if it is empty, and else it adds a slot, and a
block if need be. -/
def Answered (s : Stream) (p : Pool) (loose : Finset Int) (blocks : Set Nat) (issued : List Slot)
    (size align : Nat) (slot : Slot) (t : Stream × Pool) : Prop :=
  (size = 0 ∧ slot = .null ∧ t = (s, p)) ∨
    (0 < size ∧ slot.size = size ∧ (align : Int) ∣ slot.offset ∧ slot.idx = noIndex ∧
      ∃ new : Set Nat, (∀ i ∈ new, i ∉ p.live) ∧ t.2.Valid loose ∧ p.Passed t.2 new ∧
        t.1.Sound t.2 {i | i ∈ new ∨ i ∈ blocks} (slot :: issued))

/-- The newest block is aligned to `align` where the test on its offset says so. -/
theorem Sound.dvd_of_fits (h : s.Sound p blocks issued) (hp : p.Valid loose)
    {offset size align : Nat} (hfits : s.Fits offset size align) :
    (align : Int) ∣ s.block.offset := by
  obtain ⟨hnull, hdvd, -⟩ := hfits
  have hlent := h.lent hnull
  have hbounds := (hp.bounds hlent.live).2.2.2
  rw [hlent.offset] at hbounds
  obtain ⟨n, hn⟩ := Int.eq_ofNat_of_zero_le (h.front hnull)
  rw [hn] at hdvd ⊢
  rw [asUnsigned_of_lt (by simp only [word32]; omega)] at hdvd
  exact Int.natCast_dvd_natCast.mpr hdvd

theorem dvd_of_room (hp : p.Valid loose) {block : Slot} (hlent : p.Lent block)
    (hfront : 0 ≤ block.offset) {size align : Nat} (halign : PowerOfTwo align)
    (hblock : align ≤ p.blockSize) (hroom : roundUp headerSize align + size ≤ block.size) :
    (align : Int) ∣ block.offset := by
  have hheader : headerSize ≤ roundUp headerSize align := roundUp_ge _ halign.pos
  have hpos : 0 < roundUp headerSize align := Nat.lt_of_lt_of_le (by decide) hheader
  have hsize : align ≤ (p.roster.record block.idx).size := by
    have hle := Nat.le_of_dvd hpos (dvd_roundUp headerSize align)
    rw [hlent.size]
    omega
  rw [← hlent.offset] at hfront ⊢
  exact hp.dvd_offset hlent.live hfront halign hsize hblock

/-- The slot that is cut from the newest block answers the request, whether the block was taken for
it or not. -/
theorem cut_answers {s' : Stream} {new : Set Nat} {bad : Fault → Stream × Pool → Prop}
    (h' : s'.Sound p' {i | i ∈ new ∨ i ∈ blocks} issued) (hp' : p'.Valid loose)
    (hnew : ∀ i ∈ new, i ∉ p.live) (hpassed : p.Passed p' new) (hnull : ¬ s'.block.IsNull)
    (next : Nat) {offset size align : Nat} (hge : s'.next ≤ offset) (hpos : 0 < size)
    (hroom : offset + size ≤ s'.block.size) (hblock : (align : Int) ∣ s'.block.offset)
    (hoffset : align ∣ offset) :
    (onStream (cut offset size)).Meets ({ s' with next := next }, p')
      (Answered s p loose blocks issued size align) bad := by
  have hcut := cut_meets h' hp' hnull next hge hpos hroom
  refine (meets_focus ..).mpr (hcut.sure fun slot t hres => ?_)
  obtain ⟨hsize, hstart, hidx, ht⟩ := hres
  have hdvd : (align : Int) ∣ slot.offset :=
    hstart ▸ Int.dvd_add hblock (Int.natCast_dvd_natCast.mpr hoffset)
  exact Or.inr ⟨hpos, hsize, hdvd, hidx, new, hnew, hp', hpassed, ht⟩

/-- A stream serves a request from its newest block or from a new one; when it cannot, it is as it
was. What keeps to the limits is served unless the pool runs out. -/
theorem alloc_meets_any [Host] (h : s.Sound p blocks issued) (hp : p.Valid loose)
    (size align : Nat) :
    (alloc size align).Meets (s, p) (Answered s p loose blocks issued size align)
      (stopping (s.Accepts p size align) (Unanswered s p loose)) := by
  have hsame : Unanswered s p loose (s, p) := unanswered_self hp
  have hlargest : SizeClass.largest < 2 ^ 31 := by decide
  simp only [alloc, meets_bind, meets_ite, meets_pure, meets_get, meets_ensure, roundWord,
    stopping_violated]
  refine ⟨fun hzero => Or.inl ⟨hzero, rfl, rfl⟩, fun hpos => ⟨fun halign => ⟨fun _ => ?_,
    fun hover => ⟨hsame, fun haccepts => hover ?_⟩⟩,
    fun halign => ⟨hsame, fun haccepts => halign ⟨haccepts.1, haccepts.2.1⟩⟩⟩⟩
  · have hpos' : 0 < size := Nat.pos_of_ne_zero hpos
    have hnext : s.next ≤ roundUp s.next align := roundUp_ge _ halign.1.pos
    -- either the newest block has room, or what is left of it stays unused
    by_cases hfits : s.Fits (roundUp s.next align) size align
    · simp only [hfits, if_true, not_true_eq_false, false_implies, true_and]
      intro _
      have hblocks : {i | i ∈ (∅ : Set Nat) ∨ i ∈ blocks} = blocks := by
        ext i
        simp
      exact cut_answers (hblocks.symm ▸ h) hp (fun i hi => absurd hi (Set.notMem_empty i))
        (.refl _ _) hfits.1 s.next hnext hpos' hfits.2.2 (h.dvd_of_fits hp hfits)
        (dvd_roundUp s.next align)
    · simp only [hfits, if_false, not_false_eq_true, true_implies, not_true_eq_false, false_implies,
        and_true, addWord, roundToPow2, meets_bind, meets_ensure, meets_pure, stopping_violated]
      have hheader : headerSize ≤ roundUp headerSize align := roundUp_ge _ halign.1.pos
      have hceil := ceilPow2_ge (roundUp headerSize align + size)
      have hblock : s.Accepts p size align → ceilPow2 (roundUp headerSize align + size) < 2 ^ 31 :=
        fun haccepts => by
          have hmax := haccepts.2.2
          omega
      refine ⟨fun _ => ⟨fun _ => ?_, fun hover => ⟨hsame, fun haccepts => hover ?_⟩⟩,
        fun hover => ⟨hsame, fun haccepts => hover ?_⟩⟩
      · apply (startBlock_meets h hp (by omega)).relax _ (fun haccepts => haccepts.block hp)
          fun _ => id
        rintro _ ⟨s', p'⟩ ⟨block, rfl, hvalid, hpassed, hnew, hlent, hfront, hlarge, hhead⟩
        have hstart := h.start hp hvalid hpassed hnew hlent hfront hhead
        have hnull : ¬ block.IsNull := by
          rw [Slot.IsNull]
          omega
        have hroom : roundUp headerSize align + size ≤ block.size := by omega
        have hnew' : ∀ i ∈ ({block.idx} : Set Nat), i ∉ p.live := by
          rintro i rfl
          exact hnew
        exact cut_answers hstart hvalid hnew' hpassed hnull s.next hheader hpos' hroom
          (dvd_of_room hvalid hlent hfront halign.1 (hpassed.blockSize ▸ halign.2) hroom)
          (dvd_roundUp headerSize align)
      · exact Nat.lt_trans (hblock haccepts) (by decide)
      · exact Nat.lt_trans (Nat.lt_of_le_of_lt hceil (hblock haccepts)) (by decide)
  · have hround := roundUp_lt s.next haccepts.1.pos
    have hnext := h.next_le_largest hp
    have hblock := Nat.le_trans haccepts.2.1 hp.block.2.2
    simp only [word32]
    omega

/-! ### Giving the blocks back -/

theorem readHeader_meets (hp : p.Valid loose) {block : Slot} (hlent : p.Lent block) :
    (readHeader block).Meets p (fun previous p' => previous = p.header block.idx ∧ p' = p)
      Never := by
  obtain ⟨place, hplace, hoffset, -⟩ := hlent.reaches
  have hbounds := (hp.bounds hlent.live).2.2.1
  have hload : p.arena.window.load place 4 =
      p.arena.window.load (p.arena.window.place (p.roster.record block.idx).offset) 4 := by
    rw [hlent.offset] at hbounds ⊢
    rw [Window.load_eq hp.window (hoffset ▸ hbounds), Window.load_eq hp.window hbounds, hoffset]
    rfl
  simp only [readHeader, meets_bind, meets_get, meets_pure, and_true, hplace, Option.getD_some]
  exact congrArg wordOfBytes hload

def Gone (p : Pool) (loose : Finset Int) (i : Nat) (p' : Pool) : Prop :=
  p'.Valid loose ∧ p.Passed p' {i} ∧ i ∉ p'.live

/-- A block goes back, and then the one that its header leads to. -/
theorem releaseFrom_succ (hp : p.Valid loose) {block : Slot} {fuel : Nat}
    {good : Unit → Pool → Prop} (hlent : p.Lent block)
    (hlast : p.header block.idx = noIndex → ∀ p', Gone p loose block.idx p' → good () p')
    (hnext : p.header block.idx ≠ noIndex → ∀ p', Gone p loose block.idx p' →
      p.header block.idx ∈ p'.live ∧
        (releaseFrom fuel (p'.slotOf (p.header block.idx))).Meets p' good Never) :
    (releaseFrom (fuel + 1) block).Meets p good Never := by
  have hnull : ¬ block.IsNull := by
    rw [Slot.IsNull, ← hlent.size]
    exact Nat.ne_of_gt (hp.size_pos hlent.live)
  simp only [releaseFrom, meets_bind, meets_ite, hnull, false_implies, true_and,
    not_false_eq_true, true_implies]
  apply (readHeader_meets hp hlent).imp
  intro _ p hres
  obtain ⟨rfl, rfl⟩ := hres
  apply (hp.free_meets hlent).imp
  intro _ p' hgone
  simp only [meets_emit, meets_pure]
  refine ⟨fun hend => hlast hend p' hgone, fun hend => ?_⟩
  obtain ⟨hlive, hrest⟩ := hnext hend p' hgone
  apply (hgone.1.slotAt_meets hlive).imp
  intro _ q hres
  obtain ⟨rfl, rfl⟩ := hres
  exact hrest

/-- A chain of blocks goes back, newest first: a header is read while its block is still lent, and
the blocks that are still there are not touched by what happens to the others. -/
theorem releaseFrom_meets (hp : p.Valid loose) {block : Slot} {rest : List Nat} {fuel : Nat}
    (hlent : p.Lent block) (hrest : Chain.Threads p.header (p.header block.idx) rest)
    (hnodup : (block.idx :: rest).Nodup) (hlive : ∀ i ∈ rest, i ∈ p.live)
    (hfuel : rest.length < fuel) :
    (releaseFrom fuel block).Meets p
      (fun _ p' => p'.Valid loose ∧ p.Passed p' {i | i ∈ block.idx :: rest} ∧
        ∀ i ∈ block.idx :: rest, i ∉ p'.live) Never := by
  induction rest generalizing p block fuel with
  | nil =>
    obtain ⟨fuel, rfl⟩ := Nat.exists_eq_succ_of_ne_zero (Nat.ne_of_gt hfuel)
    refine releaseFrom_succ hp hlent (fun _ p' hres => ?_) fun hend => absurd hrest hend
    obtain ⟨hvalid, hpassed, hgone⟩ := hres
    refine ⟨hvalid, hpassed.mono fun i hi => ?_, fun i hi => ?_⟩
    · exact List.mem_singleton.mpr hi
    · exact List.mem_singleton.mp hi ▸ hgone
  | cons next rest ih =>
    obtain ⟨fuel, rfl⟩ := Nat.exists_eq_succ_of_ne_zero (by omega : fuel ≠ 0)
    obtain ⟨hhead, hne, htail⟩ := hrest
    have hout := (List.nodup_cons.mp hnodup).1
    have hnodup' := (List.nodup_cons.mp hnodup).2
    have hfuel' : rest.length < fuel := by
      simp only [List.length_cons] at hfuel
      omega
    refine releaseFrom_succ hp hlent (fun hend => absurd (hhead.symm.trans hend) hne)
      fun _ p' hres => ?_
    obtain ⟨hvalid, hpassed, hgone⟩ := hres
    have hkeep : ∀ i ∈ next :: rest, i ∉ ({block.idx} : Set Nat) := by
      rintro i hi rfl
      exact hout hi
    have hlive' : ∀ i ∈ next :: rest, i ∈ p'.live := fun i hi =>
      (hpassed.live i (hkeep i hi)).mpr (hlive i hi)
    have hnext := hlive' next (List.mem_cons_self ..)
    have hheader : ∀ i ∈ next :: rest, p'.header i = p.header i := fun i hi =>
      header_passed hp hvalid hpassed (hkeep i hi) (hlive i hi)
    have htail' : Chain.Threads p'.header (p'.header next) rest := by
      rw [hheader next (List.mem_cons_self ..)]
      exact htail.congr fun i hi => hheader i (List.mem_cons_of_mem _ hi)
    rw [hhead]
    refine ⟨hnext, (ih hvalid (hvalid.lent_slotOf hnext) htail' hnodup'
      (fun i hi => hlive' i (List.mem_cons_of_mem _ hi)) hfuel').imp ?_⟩
    intro _ p'' hres
    obtain ⟨hvalid', hpassed', hgone'⟩ := hres
    refine ⟨hvalid', ?_, fun i hi => ?_⟩
    · refine (hpassed.mono ?_).trans (hpassed'.mono ?_)
      · rintro i rfl
        exact List.mem_cons_self ..
      · exact fun i hi => List.mem_cons_of_mem _ hi
    · rcases List.mem_cons.mp hi with rfl | hi
      · exact fun hback => hgone ((hpassed'.live _ hout).mp hback)
      · exact hgone' i hi

theorem release_meets (h : s.Sound p blocks issued) (hp : p.Valid loose) :
    (release s).Meets p
      (fun _ p' => p'.Valid loose ∧ p.Passed p' blocks ∧ ∀ i ∈ blocks, i ∉ p'.live) Never := by
  simp only [release, meets_bind, meets_get]
  by_cases hnull : s.block.IsNull
  · have hnone := h.not_mem hnull
    simp only [releaseFrom, meets_ite, hnull, true_implies, not_true_eq_false, false_implies,
      and_true, meets_pure]
    exact ⟨hp, .refl _ _, fun i hi => absurd hi (hnone i)⟩
  · have hlent := h.lent hnull
    have hprevious : s.previous = s.block.idx := if_neg hnull
    obtain ⟨records, hthreads, hmem⟩ := h.chained
    have hnodup := hthreads.nodup
    rw [hprevious] at hthreads
    cases records with
    | nil => exact absurd hthreads (hp.ne_noIndex hlent.live)
    | cons i rest =>
      obtain ⟨rfl, -, hrest⟩ := hthreads
      have hlive : ∀ i ∈ s.block.idx :: rest, i ∈ p.live := fun i hi =>
        h.live i ((hmem i).mp hi)
      have hlength := Pool.length_le_live hnodup hlive
      refine (releaseFrom_meets hp hlent hrest hnodup
        (fun i hi => hlive i (List.mem_cons_of_mem _ hi))
        (by simp only [List.length_cons] at hlength; omega)).imp ?_
      intro _ p' hres
      obtain ⟨hvalid, hpassed, hgone⟩ := hres
      exact ⟨hvalid, hpassed.mono fun i hi => (hmem i).mp hi, fun i hi => hgone i ((hmem i).mpr hi)⟩

end Stream

end SlotArena
