import SlotArena.Proofs.Attainable
import SlotArena.Proofs.Cutting

/-!
Slots from what a pool has at hand. A request that finds a slot of its class gets the one on top;
one that does not gets the low end of the slot on top of the next larger class, and the rest of that
goes to the shelves in pieces (`alloc_takes`, `alloc_steals`). Either way the pool stays sealed:
nothing is taken from the arena, and nothing is given up.

Main statement: where the host grants the records, the rest is cut without a gap, into blocks above
the first block of the chunk and pieces of the size that was asked for inside it, or into blocks
throughout where a block or more was asked for (`steal_splits`).
-/

namespace SlotArena

open Act Finset Ledger

/-! ### The rest of a chunk -/

/-- What is left of a chunk of `chunk` bytes at `offset` without its low `size` bytes: the blocks
above the first, and pieces of the same size inside the first; or blocks only. -/
def remainder (blockSize size chunk : Nat) (offset : Int) : List Cut :=
  if size < blockSize then
    [⟨offset + (min chunk blockSize : Nat), blockSize, chunk / blockSize - 1⟩,
      ⟨offset + size, size, (min chunk blockSize - size) / size⟩]
  else [⟨offset + size, blockSize, (chunk - size) / blockSize⟩]

/-- What is missing from whole blocks is missing from the last one. -/
theorem sub_divMod {m s n : Nat} (hdvd : m ∣ n) (hpos : 0 < s) (hlt : s < m) (hn : 0 < n) :
    (n - s) / m = n / m - 1 ∧ (n - s) % m = m - s := by
  obtain ⟨v, rfl⟩ := hdvd
  have hm : 0 < m := Nat.lt_of_le_of_lt (Nat.zero_le s) hlt
  obtain ⟨v, rfl⟩ : ∃ u, v = u + 1 := Nat.exists_eq_add_one.mpr (Nat.pos_of_mul_pos_left hn)
  rw [Nat.mul_div_cancel_left _ hm, Nat.add_sub_cancel]
  refine (Nat.div_mod_unique hm).mpr ⟨?_, by omega⟩
  rw [Nat.mul_succ]
  omega

section

variable {bs : Nat} {c larger : SizeClass}

/-- Blocks and smaller pieces take up the rest of a chunk to the last byte. -/
theorem rest_divMod (hbs : SizeClass.IsSize bs) (hlt : c < larger) (hsmall : c.bytes < bs) :
    (larger.bytes - c.bytes) / bs = larger.bytes / bs - 1 ∧
      (larger.bytes - c.bytes) % bs = min larger.bytes bs - c.bytes ∧
      c.bytes < min larger.bytes bs ∧ c.bytes ∣ min larger.bytes bs - c.bytes := by
  have hbytes := SizeClass.bytes_lt_bytes.mpr hlt
  have hmin : c.bytes < min larger.bytes bs := lt_min hbytes hsmall
  have hdvd : c.bytes ∣ min larger.bytes bs - c.bytes :=
    Nat.dvd_sub (c.powerOfTwo_bytes.dvd_of_le (larger.powerOfTwo_bytes.min hbs.1)
      (Nat.le_of_lt hmin)) (Nat.dvd_refl _)
  rcases Nat.lt_or_ge larger.bytes bs with hlarge | hlarge
  · rw [Nat.min_eq_left (Nat.le_of_lt hlarge)] at hmin hdvd ⊢
    have hrest : larger.bytes - c.bytes < bs := by omega
    exact ⟨by rw [Nat.div_eq_of_lt hrest, Nat.div_eq_of_lt hlarge], Nat.mod_eq_of_lt hrest, hmin,
      hdvd⟩
  · rw [Nat.min_eq_right hlarge] at hmin hdvd ⊢
    obtain ⟨hdiv, hmod⟩ := sub_divMod (hbs.1.dvd_of_le larger.powerOfTwo_bytes hlarge) c.bytes_pos
      hsmall larger.bytes_pos
    exact ⟨hdiv, hmod, hmin, hdvd⟩

theorem dvd_rest (hbs : SizeClass.IsSize bs) (hlt : c < larger) (hlarge : bs ≤ c.bytes) :
    bs ∣ larger.bytes - c.bytes :=
  Nat.dvd_sub (hbs.1.dvd_of_le larger.powerOfTwo_bytes
    (hlarge.trans (Nat.le_of_lt (SizeClass.bytes_lt_bytes.mpr hlt))))
      (hbs.1.dvd_of_le c.powerOfTwo_bytes hlarge)

/-- Cutting the rest of a chunk into pieces that are no larger than its low end gives just that. -/
theorem cuts_remainder (hbs : SizeClass.IsSize bs) (hlt : c < larger) (offset : Int) :
    cuts bs (offset + c.bytes) (larger.bytes - c.bytes) (some c.bytes) =
      remainder bs c.bytes larger.bytes offset := by
  rw [cuts, remainder]
  split
  · rename_i hsmall
    obtain ⟨hdiv, hmod, hmin, hdvd⟩ := rest_divMod hbs hlt hsmall
    have hlargest : largestCut bs (some c.bytes) = c.bytes :=
      Nat.min_eq_right (c.powerOfTwo_bytes.le_half hbs.1 hsmall)
    have hgo : 0 < min larger.bytes bs - c.bytes ∧ SizeClass.least ≤ c.bytes :=
      ⟨Nat.sub_pos_of_lt hmin, c.least_le_bytes⟩
    have hblocks : offset + c.bytes + (min larger.bytes bs - c.bytes : Nat) =
        offset + (min larger.bytes bs : Nat) := by omega
    rw [hlargest, hmod, cutDown, if_pos hgo, peeled, peeled, hmod, hdiv,
      Nat.mod_eq_zero_of_dvd hdvd, cutDown_zero, hblocks, Int.natCast_zero, Int.add_zero]
  · rename_i hlarge
    have hdvd := dvd_rest hbs hlt (Nat.le_of_not_lt hlarge)
    rw [Nat.mod_eq_zero_of_dvd hdvd, cutDown_zero, peeled, Nat.mod_eq_zero_of_dvd hdvd,
      Int.natCast_zero, Int.add_zero]

theorem bytesIn_remainder (hbs : SizeClass.IsSize bs) (hlt : c < larger) (offset : Int) :
    bytesIn (remainder bs c.bytes larger.bytes offset) = larger.bytes - c.bytes := by
  rw [remainder]
  split
  · rename_i hsmall
    obtain ⟨hdiv, hmod, hmin, hdvd⟩ := rest_divMod hbs hlt hsmall
    have hwhole := Nat.div_add_mod' (larger.bytes - c.bytes) bs
    rw [hdiv, hmod] at hwhole
    simp only [bytesIn, List.map_cons, List.map_nil, List.sum_cons, List.sum_nil, Nat.add_zero,
      Nat.div_mul_cancel hdvd]
    exact hwhole
  · rename_i hlarge
    have hdvd := dvd_rest hbs hlt (Nat.le_of_not_lt hlarge)
    simp only [bytesIn, List.map_cons, List.map_nil, List.sum_cons, List.sum_nil, Nat.add_zero,
      Nat.div_mul_cancel hdvd]

theorem dvd_of_mem_remainder (hbs : SizeClass.IsSize bs) (hlt : c < larger) {offset : Int}
    (hoffset : 0 ≤ offset) (hdvd : ((min larger.bytes bs : Nat) : Int) ∣ offset) {k : Piece}
    (hk : k ∈ pieces (remainder bs c.bytes larger.bytes offset)) :
    0 ≤ k.offset ∧ (k.size : Int) ∣ k.offset := by
  have hbytes := SizeClass.bytes_lt_bytes.mpr hlt
  obtain ⟨cut, hcut, j, hj, rfl⟩ := mem_pieces.mp hk
  rw [remainder] at hcut
  split at hcut
  · rename_i hsmall
    have hunit : c.bytes ∣ min larger.bytes bs :=
      c.powerOfTwo_bytes.dvd_of_le (larger.powerOfTwo_bytes.min hbs.1)
        (Nat.le_of_lt (lt_min hbytes hsmall))
    rcases List.mem_cons.mp hcut with rfl | hcut
    · -- there are blocks above the first only in a chunk of several blocks
      dsimp only at hj
      have hlarge : bs ≤ larger.bytes := by
        by_contra hlarge
        rw [Nat.div_eq_of_lt (Nat.lt_of_not_le hlarge)] at hj
        omega
      rw [Nat.min_eq_right hlarge] at hdvd ⊢
      exact Cut.piece_aligned (by dsimp only; omega) (Int.dvd_add hdvd (Int.dvd_refl _))
    · obtain rfl := List.mem_singleton.mp hcut
      exact Cut.piece_aligned (by dsimp only; omega) (Int.dvd_add
        (Int.dvd_trans (Int.natCast_dvd_natCast.mpr hunit) hdvd) (Int.dvd_refl _))
  · rename_i hlarge
    obtain rfl := List.mem_singleton.mp hcut
    have hle := Nat.le_of_not_lt hlarge
    rw [Nat.min_eq_right (hle.trans (Nat.le_of_lt hbytes))] at hdvd
    exact Cut.piece_aligned (by dsimp only; omega) (Int.dvd_add hdvd
      (Int.natCast_dvd_natCast.mpr (hbs.1.dvd_of_le c.powerOfTwo_bytes hle)))

theorem tile_remainder (hbs : SizeClass.IsSize bs) (hlt : c < larger) (offset : Int) :
    Tile (offset + c.bytes) (offset + larger.bytes)
      (pieces (remainder bs c.bytes larger.bytes offset)) := by
  have hbytes := SizeClass.bytes_lt_bytes.mpr hlt
  have htile := (cuts_fill bs (offset + c.bytes) (larger.bytes - c.bytes) (some c.bytes)).tile
  rw [cuts_remainder hbs hlt, bytesIn_remainder hbs hlt, Nat.sub_self, Int.natCast_zero,
    Int.add_zero] at htile
  have hend : offset + c.bytes + (larger.bytes - c.bytes : Nat) = offset + larger.bytes := by omega
  rwa [hend] at htile

end

/-- How many pieces there are in a rest does not depend on where it lies. -/
theorem countOf_remainder (bs size chunk : Nat) (offset : Int) :
    countOf (remainder bs size chunk offset) = countOf (remainder bs size chunk 0) := by
  unfold remainder
  split
  · rfl
  · rfl

theorem nodup_remainder (bs size chunk : Nat) (offset : Int) :
    ((remainder bs size chunk offset).map Cut.size).Nodup := by
  rw [remainder]
  split
  · rename_i hsmall
    simp only [List.map_cons, List.map_nil, List.nodup_cons, List.mem_singleton, List.not_mem_nil,
      not_false_eq_true, List.nodup_nil, and_true]
    exact Nat.ne_of_gt hsmall
  · exact List.nodup_singleton _

namespace Pool

variable {p p' q : Pool} {spot : Nat → Spot} {loose : Finset Int} {stock : SizeClass → List Nat}
  {c larger : SizeClass} {i : Nat}

/-- The slot of record `i` was cut down to `size` bytes, and the cuts `ks` were made of the rest. -/
structure Trimmed (p : Pool) (i size : Nat) (ks : List Cut) (p' : Pool) : Prop
    extends Sealed p p' where
  live : p'.live = p.live
  record : p'.roster.record i = { p.roster.record i with size := size }
  kept : ∀ j < p.roster.length, j ≠ i → p'.roster.record j = p.roster.record j
  length : p'.roster.length = p.roster.length + countOf ks
  pieces : (List.range' p.roster.length (countOf ks)).map p'.pieceOf = SlotArena.pieces ks
  stocked : ∀ stock, p.Stocked stock →
    p'.Stocked fun d => p'.newOf p.roster.length (countOf ks) d ++ stock d

/-- Where the roster has room for all of it and the host grants it, the rest of a chunk is cut
without a gap. -/
theorem shrink_trims [Host] [Host.Generous] (h : p.Sound spot loose) (hlt : c < larger)
    (hi : spot i = .hand) (hfits : (p.roster.record i).Fits p.blockSize (.front larger))
    (hroom : p.roster.length + countOf (remainder p.blockSize c.bytes larger.bytes
      (p.roster.record i).offset) ≤ p.roster.capacity) :
    (shrink larger i c.bytes).Meets p (fun _ p' => p.Trimmed i c.bytes
      (remainder p.blockSize c.bytes larger.bytes (p.roster.record i).offset) p') Never := by
  obtain ⟨hfresh, hcut⟩ := h.rest_cuttable hlt hi hfits
  refine shrink_of_split h hlt hi hfits fun r hr hri hsound => ?_
  have hborn : i < p.roster.length := h.born (hi ▸ Spot.noConfusion)
  have hcap : ∀ n ∈ some c.bytes, PowerOfTwo n := fun n hn =>
    Option.mem_some.mp hn ▸ c.powerOfTwo_bytes
  have hoffset := hfits.1
  rw [hfits.2.1] at hcut hsound ⊢
  have hcuts := cuts_remainder h.block hlt (p.roster.record i).offset
  have hroom' : r.length + countOf (cuts p.blockSize ((p.roster.record i).offset + c.bytes)
      (larger.bytes - c.bytes) (some c.bytes)) ≤ r.capacity := by
    rw [hcuts, hr.length, hr.capacity]
    exact hroom
  refine ((splitChunk_enriches hsound (by omega) hcap hcut subset_union_right).never
    fun _ _ hshort => ?_).sure ?_
  · rcases hshort.cause with ⟨-, -, hfull⟩ | ⟨-, -, mean⟩
    · exact Nat.not_le.mpr hfull hroom'
    · exact mean ‹Host.Generous›
  rintro _ _ ⟨q, hq, rfl⟩
  dsimp only at hq ⊢
  rw [hcuts] at hq ⊢
  rw [bytesIn_remainder h.block hlt, Nat.sub_self, Nat.add_zero]
  have hlink : ∀ j, r.link j = p.roster.link j := fun j => by
    by_cases hj : j = i
    · rw [hj, Roster.link, hri]
      rfl
    · rw [Roster.link, hr.kept j hj]
      rfl
  have hsealed := hq.toSealed
  exact {
    arena := hsealed.arena
    leaked := hsealed.leaked
    carve := hsealed.carve
    backFree := hsealed.backFree
    blockSize := hsealed.blockSize
    capacity := hsealed.capacity.trans hr.capacity
    live := hq.live
    record := (hq.kept i (hr.length.symm ▸ hborn)).trans hri
    kept := fun j hj hne => (hq.kept j (hr.length.symm ▸ hj)).trans (hr.kept j hne)
    length := hq.length.trans (congrArg (· + _) hr.length)
    pieces := by
      have hpieces := hq.pieces_eq
      dsimp only at hpieces
      rwa [hr.length] at hpieces
    stocked := fun stock hs => by
      have hlinked : Pool.Stocked { p with roster := r } stock :=
        hs.congr (fun d j _ => hlink j) fun _ => rfl
      have hstocked := hq.stocked (nodup_remainder ..) hlinked
      dsimp only at hstocked
      rwa [hr.length] at hstocked }

theorem Trimmed.none {size : Nat} (hsize : (p.roster.record i).size = size) :
    p.Trimmed i size [] p where
  toSealed := .refl p
  live := rfl
  record := by rw [← hsize]
  kept _ _ _ := rfl
  length := rfl
  pieces := rfl
  stocked _ hs := hs

/-! ### What a request gets -/

/-- The slot is the low end of the one on top of class `source`, and the cuts `ks` were made of the
rest of it; but for that the pool is as it was. -/
structure Supplied (p : Pool) (source c : SizeClass) (ks : List Cut) (slot : Slot) (p' : Pool) :
    Prop extends Sealed p p' where
  idx : slot.idx = (p.bucket source).free.head
  offset : slot.offset = (p.roster.record slot.idx).offset
  size : slot.size = c.bytes
  chunk : (p.roster.record slot.idx).size = source.bytes
  live : ∀ j, j ∈ p'.live ↔ j = slot.idx ∨ j ∈ p.live
  record : p'.roster.record slot.idx = { p.roster.record slot.idx with size := c.bytes }
  kept : ∀ j < p.roster.length, j ≠ slot.idx → p'.roster.record j = p.roster.record j
  length : p'.roster.length = p.roster.length + countOf ks
  pieces : (List.range' p.roster.length (countOf ks)).map p'.pieceOf = SlotArena.pieces ks
  stocked : ∀ stock, p.Stocked stock → p'.Stocked fun d =>
    p'.newOf p.roster.length (countOf ks) d ++ if d = source then (stock d).tail else stock d

theorem Stocked.exists_cons (hs : p.Stocked stock) (hne : ¬ (p.bucket c).free.IsEmpty) :
    ∃ rest, stock c = (p.bucket c).free.head :: rest := by
  have hthreads := hs c
  cases hlist : stock c with
  | nil => exact absurd (hs.isEmpty_iff.mpr hlist) hne
  | cons i rest =>
    rw [hlist] at hthreads
    exact ⟨rest, by rw [hthreads.1]⟩

theorem Stocked.head_eq (hs : p.Stocked stock) {rest : List Nat} (hc : stock c = i :: rest) :
    ¬ (p.bucket c).free.IsEmpty ∧ (p.bucket c).free.head = i := by
  refine ⟨fun hempty => List.cons_ne_nil i rest (hc.symm.trans (hs.isEmpty_iff.mp hempty)), ?_⟩
  have hthreads := hs c
  rw [hc] at hthreads
  exact hthreads.1

theorem popFree_top (h : p.Sound spot loose) (hne : ¬ (p.bucket c).free.IsEmpty) :
    (popFree c).Meets p (fun answer q => answer = some (p.bucket c).free.head ∧
      p.Unshelved spot loose (.front c) answer q ∧ ∃ ch, q = p.withChain ch (.front c) ∧
        ∀ stock, p.Stocked stock → q.Stocked (Function.update stock c (stock c).tail)) Never := by
  obtain ⟨stock, hs⟩ := h.exists_stocked
  obtain ⟨rest, hrest⟩ := hs.exists_cons hne
  refine ((popFree_meets h c).and_answers (popFree_stock h hs hrest)).imp ?_
  rintro answer q ⟨hunshelved, rfl, ch, hq, hstock⟩
  refine ⟨rfl, hunshelved, ch, hq, fun stock' hs' => ?_⟩
  obtain rfl := hs.unique hs'
  rw [hrest, List.tail_cons]
  exact hstock

/-- A slot that was taken off a shelf, cut down and handed out. -/
theorem Trimmed.supplied {source : SizeClass} {ks : List Cut} {ch : Chain}
    (h : q.Trimmed (p.bucket source).free.head c.bytes ks p')
    (hq : q = p.withChain ch (.front source))
    (hstock : ∀ stock, p.Stocked stock →
      q.Stocked (Function.update stock source (stock source).tail))
    (hchunk : (p.roster.record (p.bucket source).free.head).size = source.bytes) :
    p.Supplied source c ks ((p'.handing (p.bucket source).free.head).slotOf
      (p.bucket source).free.head) (p'.handing (p.bucket source).free.head) := by
  have hroster : q.roster = p.roster := hq ▸ withChain_roster ..
  have hlive : q.live = p.live := hq ▸ withChain_live ..
  have hsealed : p.Sealed q := hq ▸ sealed_withChain p rfl ch source
  obtain ⟨hall, hlive', hrecord, hkept, hlength, hpieces, hstocked⟩ := h
  rw [hroster] at hrecord hkept hlength hpieces hstocked
  have hall := hsealed.trans hall
  exact {
    arena := hall.arena
    leaked := hall.leaked
    carve := hall.carve
    backFree := hall.backFree
    blockSize := hall.blockSize
    capacity := hall.capacity
    idx := rfl
    offset := (congrArg Record.offset hrecord :)
    size := (congrArg Record.size hrecord :)
    chunk := hchunk
    live := fun j => by
      show j ∈ p'.live.insert _ ↔ _
      rw [Std.TreeSet.mem_insert, Std.LawfulEqCmp.compare_eq_iff_eq, hlive', hlive]
      exact or_congr_left eq_comm
    record := hrecord
    kept := hkept
    length := hlength
    pieces := hpieces
    stocked := fun stock hs => by
      have hafter := hstocked _ (hstock stock hs)
      intro d
      have hd := hafter d
      simp only [Function.update_apply] at hd
      by_cases hsource : d = source
      · subst hsource
        exact hd
      · simp only [if_neg hsource] at hd ⊢
        exact hd }

theorem popFree_none (hempty : (p.bucket c).free.IsEmpty) :
    (popFree c).Meets p (fun answer q => answer = none ∧ q = p) Never := by
  simp only [popFree, meets_bind, meets_get, meets_ite, meets_pure, hempty, not_true_eq_false,
    false_implies, and_true, true_implies]

theorem alloc_takes [Host] (h : p.Valid loose) {size align : Nat} (hsize : 0 < size)
    (haccepts : p.Accepts size align) (hc : c.bytes = servedSize size align)
    (hne : ¬ (p.bucket c).free.IsEmpty) :
    (alloc size align).Meets p (fun slot p' => p'.Valid loose ∧ p.Supplied c c [] slot p')
      Never := by
  refine (((alloc_meets h hsize haccepts).imp fun _ _ hres => hres.1.valid).and_answers ?_)
  obtain ⟨spot, h, -⟩ := h
  refine alloc_of_serve hsize haccepts hc ((popFree_top h hne).bind_sure ?_)
  rintro _ q ⟨rfl, hunshelved, ch, hq, hstock⟩
  apply (handOut_hands hunshelved.2.1 move_self).sure
  rintro _ _ ⟨rfl, rfl⟩
  have hfits := h.fits_shelf _ _ hunshelved.1
  have htrimmed : q.Trimmed (p.bucket c).free.head c.bytes [] q :=
    .none (by rw [hunshelved.2.2.2.1]; exact hfits.2.1)
  exact htrimmed.supplied hq hstock hfits.2.1

theorem alloc_steals [Host] [Host.Generous] (h : p.Valid loose) {size align : Nat}
    (hsize : 0 < size) (haccepts : p.Accepts size align) (hc : c.bytes = servedSize size align)
    (hempty : (p.bucket c).free.IsEmpty) (hlarger : p.firstFree c.above = some larger)
    (hroom : p.roster.length + countOf (remainder p.blockSize c.bytes larger.bytes 0) ≤
      p.roster.capacity) :
    (alloc size align).Meets p
      (fun slot p' => p'.Valid loose ∧ p.Supplied larger c
        (remainder p.blockSize c.bytes larger.bytes slot.offset) slot p') Never := by
  refine (((alloc_meets h hsize haccepts).imp fun _ _ hres => hres.1.valid).and_answers ?_)
  obtain ⟨spot, h, -⟩ := h
  obtain ⟨hmem, hne⟩ := firstFree_some hlarger
  have hlt := SizeClass.mem_above.mp hmem
  refine alloc_of_serve hsize haccepts hc ((popFree_none hempty).bind_sure ?_)
  rintro _ p ⟨rfl, rfl⟩
  simp only [meets_bind, popFirst, meets_get, hlarger]
  apply (popFree_top h hne).sure
  rintro _ q ⟨rfl, hunshelved, ch, hq, hstock⟩
  have hroster := hunshelved.2.2.2.1
  have hblockSize := hunshelved.2.2.2.2
  have hfits := h.fits_shelf _ _ hunshelved.1
  have hfits' : (q.roster.record (p.bucket larger).free.head).Fits q.blockSize (.front larger) := by
    rw [hroster, hblockSize]
    exact hfits
  have hroom' : q.roster.length + countOf (remainder q.blockSize c.bytes larger.bytes
      (q.roster.record (p.bucket larger).free.head).offset) ≤ q.roster.capacity := by
    rw [hroster, hblockSize, countOf_remainder]
    exact hroom
  refine ((shrink_meets hunshelved.2.1 hlt move_self hfits').and_answers
    (shrink_trims hunshelved.2.1 hlt move_self hfits' hroom')).bind_sure ?_
  rintro _ p' ⟨⟨-, spot', hsound, hhand, -⟩, htrimmed⟩
  apply (handOut_hands hsound hhand).sure
  rintro _ _ ⟨rfl, rfl⟩
  have hsupplied := htrimmed.supplied hq hstock hfits.2.1
  rw [hroster, hblockSize] at hsupplied
  have hoffset := hsupplied.offset
  dsimp only [slotOf] at hoffset
  rw [slotOf, hoffset]
  rwa [slotOf, hoffset] at hsupplied

theorem Valid.top_fits (h : p.Valid loose) (hne : ¬ (p.bucket c).free.IsEmpty) :
    (p.roster.record (p.bucket c).free.head).Fits p.blockSize (.front c) := by
  obtain ⟨spot, h, -⟩ := h
  obtain ⟨stock, hs⟩ := h.exists_stocked
  obtain ⟨rest, hrest⟩ := hs.exists_cons hne
  exact h.fits_shelf _ _ ((h.mem_stock hs).mp (hrest ▸ List.mem_cons_self))

end Pool

namespace Estate

variable {config : PoolConfig} {e : Estate} {c larger : SizeClass} {size align : Nat}

/-- A request that a larger class has to serve gets the low end of the slot on top, with its record;
the rest is cut without a gap into free slots that are aligned to their sizes. Nothing is given up,
and nothing is taken from the arena. -/
theorem steal_splits [Host] [Host.Generous] (h : Attainable config e) (hsize : 0 < size)
    (haccepts : e.pool.Accepts size align) (hc : c.bytes = Pool.servedSize size align)
    (hempty : (e.pool.bucket c).free.IsEmpty) (hlarger : e.pool.firstFree c.above = some larger)
    (hroom : e.pool.roster.length + countOf (remainder e.pool.blockSize c.bytes larger.bytes 0) ≤
      e.pool.roster.capacity) :
    (Pool.alloc size align).Meets e.pool (fun slot p' =>
      e.pool.Supplied larger c (remainder e.pool.blockSize c.bytes larger.bytes slot.offset) slot
        p' ∧
      Tile (slot.offset + c.bytes) (slot.offset + larger.bytes)
        (pieces (remainder e.pool.blockSize c.bytes larger.bytes slot.offset)) ∧
      ∀ k ∈ pieces (remainder e.pool.blockSize c.bytes larger.bytes slot.offset),
        0 ≤ k.offset ∧ (k.size : Int) ∣ k.offset) Never := by
  have hvalid := h.valid
  obtain ⟨hmem, hne⟩ := Pool.firstFree_some hlarger
  have hlt := SizeClass.mem_above.mp hmem
  obtain ⟨hoffset, -, hdvd⟩ := hvalid.top_fits hne
  refine (Pool.alloc_steals hvalid hsize haccepts hc hempty hlarger hroom).imp ?_
  rintro slot p' ⟨-, hsupplied⟩
  refine ⟨hsupplied, tile_remainder hvalid.block hlt _, fun k hk => ?_⟩
  rw [← hsupplied.idx, ← hsupplied.offset] at hoffset hdvd
  exact dvd_of_mem_remainder hvalid.block hlt hoffset hdvd hk

def wideSlot : Slot := ⟨0, 512, some ⟨0, 0⟩, 0⟩

section

attribute [local instance] Host.plain

/-- Half a block of four that were freed. -/
theorem steal_splits_of_freed : ∃ e slot p' events, Attainable { blockSize := 128 } e ∧
    (Pool.alloc 40 16).run e.pool = ⟨.ok slot, p', events⟩ ∧ slot.offset = 0 ∧ slot.size = 64 ∧
    (List.range' 1 4).map p'.pieceOf = [⟨128, 128⟩, ⟨256, 128⟩, ⟨384, 128⟩, ⟨64, 64⟩] ∧
    Tile 64 512 [⟨128, 128⟩, ⟨256, 128⟩, ⟨384, 128⟩, ⟨64, 64⟩] := by
  have hrun : ∃ p e₁ e₂, ((Pool.create { blockSize := 128 }).run ()).result = .ok p ∧
      e₁ = (new p).next (.alloc 512 128) ∧ e₂ = e₁.next (.free wideSlot) ∧
      ((perform (.alloc 512 128)).run (new p)).result.isOk ∧
      (wideSlot ∈ e₁.held ∧ ((perform (.free wideSlot)).run e₁).result.isOk) ∧
      e₂.pool.blockSize = 128 ∧ (e₂.pool.bucket 0).free.IsEmpty ∧
      e₂.pool.firstFree (SizeClass.above 0) = some 3 ∧ e₂.pool.roster.length = 1 ∧
      5 ≤ e₂.pool.roster.capacity ∧ (e₂.pool.bucket 3).free.head = 0 ∧
      (e₂.pool.roster.record 0).offset = 0 := by
    refine ⟨_, _, _, rfl, rfl, rfl, ?_⟩
    decide +kernel
  obtain ⟨p, e₁, e₂, hp, rfl, rfl, h₁, ⟨hheld, h₂⟩, hblock, hempty, hlarger, hlength, hcapacity,
    hhead, hoffset⟩ := hrun
  have hserving : Attainable { blockSize := 128 } ((new p).next (.alloc 512 128)) :=
    .step (.opened hp) trivial (survives_of_ok h₁)
  have hattainable : Attainable { blockSize := 128 } (((new p).next (.alloc 512 128)).next
      (.free wideSlot)) := .step hserving (Or.inr hheld) (survives_of_ok h₂)
  have hroom : 1 + countOf (remainder 128 (SizeClass.bytes 0) (SizeClass.bytes 3) 0) ≤ 5 := by
    decide
  obtain ⟨slot, p', events, hserved, hsupplied, htile, -⟩ := (@steal_splits _ _ 0 3 40 16 _ _
    hattainable (by decide) ⟨by decide, by rw [hblock]; decide, by decide⟩ (by decide) hempty
    hlarger (by rw [hlength, hblock]; exact hroom.trans hcapacity)).exists_ok
  have hstart : slot.offset = 0 := by rw [hsupplied.offset, hsupplied.idx, hhead, hoffset]
  have hpieces := hsupplied.pieces
  rw [hblock, hlength, hstart] at hpieces
  rw [hblock, hstart] at htile
  exact ⟨_, slot, p', events, hattainable, hserved, hstart, hsupplied.size, hpieces, htile⟩

end

end Estate

end SlotArena
