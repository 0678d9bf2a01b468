import SlotArena.Proofs.Stock

/-!
The pieces that a chunk is cut into. `cuts` works them out from sizes alone: blocks from the high
end, then pieces of half a block or less, each size half of the one before, as long as there is room
for a piece. These are what a pool gets, in this order, as far as its roster has room for them
(`splitChunk_enriches`), and they lie side by side in the chunk, with nothing between them and
nothing left over but the bytes below the lowest (`cuts_fill`).
-/

namespace SlotArena

open Act Finset Ledger

def peeled (offset : Int) (remaining size : Nat) : Cut :=
  ⟨offset + (remaining % size : Nat), size, remaining / size⟩

def cutDown (offset : Int) : (fuel size remaining : Nat) → List Cut
  | 0, _, _ => []
  | fuel + 1, size, remaining =>
      if 0 < remaining ∧ SizeClass.least ≤ size then
        peeled offset remaining size :: cutDown offset fuel (size / 2) (remaining % size)
      else []

@[simp] theorem cutDown_zero (offset : Int) (fuel size : Nat) :
    cutDown offset fuel size 0 = [] := by
  cases fuel with
  | zero => rfl
  | succ fuel => rw [cutDown, if_neg fun hgo => absurd hgo.1 (Nat.lt_irrefl 0)]

def cuts (blockSize : Nat) (offset : Int) (size : Nat) (cap : Option Nat) : List Cut :=
  peeled offset size blockSize ::
    cutDown offset ((largestCut blockSize cap).log2 + 1) (largestCut blockSize cap)
      (size % blockSize)

def pieces (ks : List Cut) : List Piece := ks.flatMap fun k => (List.range k.count).map k.piece

def countOf (ks : List Cut) : Nat := (ks.map Cut.count).sum

def bytesIn (ks : List Cut) : Nat := (ks.map fun k => k.count * k.size).sum

theorem length_pieces (ks : List Cut) : (pieces ks).length = countOf ks := by
  simp [pieces, countOf, List.length_flatMap]

theorem pieces_cons (k : Cut) (ks : List Cut) :
    pieces (k :: ks) = (List.range k.count).map k.piece ++ pieces ks := rfl

theorem pieces_append (ks ls : List Cut) : pieces (ks ++ ls) = pieces ks ++ pieces ls := by
  simp only [pieces, List.flatMap_append]

theorem countOf_cons (k : Cut) (ks : List Cut) : countOf (k :: ks) = k.count + countOf ks := rfl

theorem bytesIn_cons (k : Cut) (ks : List Cut) :
    bytesIn (k :: ks) = k.count * k.size + bytesIn ks := rfl

theorem mem_pieces {ks : List Cut} {k : Piece} :
    k ∈ pieces ks ↔ ∃ cut ∈ ks, ∃ j < cut.count, cut.piece j = k := by
  simp only [pieces, List.mem_flatMap, List.mem_map, List.mem_range]

theorem filter_pieces (ks : List Cut) (size : Nat) :
    (pieces ks).filter (fun k => k.size = size) = pieces (ks.filter fun k => k.size = size) := by
  induction ks with
  | nil => rfl
  | cons k ks ih =>
    rw [pieces_cons, List.filter_append, ih, List.filter_cons]
    by_cases hk : k.size = size
    · have hall : ((List.range k.count).map k.piece).filter (fun k => k.size = size) =
          (List.range k.count).map k.piece :=
        List.filter_eq_self.mpr fun piece hpiece => by
          obtain ⟨j, -, rfl⟩ := List.mem_map.mp hpiece
          exact decide_eq_true hk
      rw [hall, if_pos (decide_eq_true hk), pieces_cons]
    · have hnone : ((List.range k.count).map k.piece).filter (fun k => k.size = size) = [] :=
        List.filter_eq_nil_iff.mpr fun piece hpiece hsize => by
          obtain ⟨j, -, rfl⟩ := List.mem_map.mp hpiece
          exact hk (of_decide_eq_true hsize)
      rw [hnone, if_neg (fun h => hk (of_decide_eq_true h)), List.nil_append]

theorem countP_pieces (ks : List Cut) (size : Nat) :
    (pieces ks).countP (·.size = size) = countOf (ks.filter fun k => k.size = size) := by
  rw [List.countP_eq_length_filter, filter_pieces, length_pieces]

theorem filter_size_eq {ks : List Cut} (hsizes : (ks.map Cut.size).Nodup) {k : Cut} (hk : k ∈ ks) :
    ks.filter (fun l => l.size = k.size) = [k] := by
  induction ks with
  | nil => exact absurd hk List.not_mem_nil
  | cons l ks ih =>
    obtain ⟨hnew, hsizes⟩ := List.nodup_cons.mp hsizes
    rcases List.mem_cons.mp hk with rfl | hk
    · have hrest : ks.filter (fun l => l.size = k.size) = [] :=
        List.filter_eq_nil_iff.mpr fun l hl hsize =>
          hnew (of_decide_eq_true hsize ▸ List.mem_map_of_mem hl)
      rw [List.filter_cons, if_pos (decide_eq_true rfl), hrest]
    · have hne : l.size ≠ k.size := fun hsize => hnew (hsize ▸ List.mem_map_of_mem hk)
      rw [List.filter_cons, if_neg (by simpa using hne), ih hsizes hk]

theorem Cut.dvd_piece {k : Cut} (hdvd : (k.size : Int) ∣ k.offset) {j : Nat} :
    ((k.piece j).size : Int) ∣ (k.piece j).offset :=
  Int.dvd_add hdvd (Int.natCast_dvd_natCast.mpr (Nat.dvd_mul_left ..))

theorem Cut.piece_aligned {k : Cut} (hoffset : 0 ≤ k.offset) (hdvd : (k.size : Int) ∣ k.offset)
    {j : Nat} : 0 ≤ (k.piece j).offset ∧ ((k.piece j).size : Int) ∣ (k.piece j).offset :=
  ⟨Int.add_nonneg hoffset (Int.natCast_nonneg _), Cut.dvd_piece hdvd⟩

theorem sum_pieces (ks : List Cut) : ((pieces ks).map Piece.size).sum = bytesIn ks := by
  induction ks with
  | nil => rfl
  | cons k ks ih =>
    have hsizes : ((List.range k.count).map k.piece).map Piece.size =
        List.replicate k.count k.size := by
      simp [List.map_map, Function.comp_def, Cut.piece, List.map_const']
    rw [pieces_cons, List.map_append, List.sum_append, ih, hsizes, List.sum_replicate, bytesIn_cons]
    rfl

/-! ### Side by side -/

def Piece.Covers (k : Piece) (x : Int) : Prop := k.offset ≤ x ∧ x < k.offset + k.size

instance (k : Piece) (x : Int) : Decidable (k.Covers x) := inferInstanceAs (Decidable (_ ∧ _))

/-- Every byte from `lo` to `hi` is in one of the pieces, and in no second one, and no other byte is
in any. -/
def Tile (lo hi : Int) (ks : List Piece) : Prop :=
  ∀ x, ks.countP (·.Covers x) = if lo ≤ x ∧ x < hi then 1 else 0

namespace Tile

variable {lo mid hi : Int} {ks ls : List Piece}

theorem nil (lo : Int) : Tile lo lo [] := fun x => by
  rw [List.countP_nil, if_neg (by omega)]

theorem append (h : Tile mid hi ks) (h' : Tile lo mid ls) (hlo : lo ≤ mid) (hhi : mid ≤ hi) :
    Tile lo hi (ks ++ ls) := fun x => by
  rw [List.countP_append, h x, h' x]
  split_ifs <;> omega

theorem perm (h : Tile lo hi ks) (hperm : ks.Perm ls) : Tile lo hi ls := fun x => by
  rw [← hperm.countP_eq, h x]

theorem cut (k : Cut) : Tile k.offset (k.offset + (k.count * k.size : Nat))
    ((List.range k.count).map k.piece) := by
  obtain ⟨offset, size, count⟩ := k
  induction count with
  | zero =>
    rw [Nat.zero_mul, Int.natCast_zero, Int.add_zero]
    exact .nil offset
  | succ n ih =>
    have hlast : Tile (offset + (n * size : Nat)) (offset + ((n + 1) * size : Nat))
        [Cut.piece ⟨offset, size, n + 1⟩ n] := fun x => by
      simp only [List.countP_singleton, Piece.Covers, Cut.piece, Nat.succ_mul, decide_eq_true_eq,
        Int.natCast_add, Int.add_assoc]
    rw [List.range_succ, List.map_append]
    refine (hlast.append ih (by dsimp only; omega) ?_).perm List.perm_append_comm
    rw [Nat.succ_mul]
    omega

end Tile

/-- The cuts lie side by side at the high end of the `n` bytes at `offset`. -/
structure Fills (offset : Int) (n : Nat) (ks : List Cut) : Prop where
  le : bytesIn ks ≤ n
  tile : Tile (offset + (n - bytesIn ks : Nat)) (offset + n) (pieces ks)

theorem Fills.nil (offset : Int) (n : Nat) : Fills offset n [] := ⟨Nat.zero_le _, .nil _⟩

/-- Whole pieces at the high end, and cuts of what is too small for one more. -/
theorem Fills.cons {offset : Int} {remaining size : Nat} {ks : List Cut}
    (h : Fills offset (remaining % size) ks) :
    Fills offset remaining (peeled offset remaining size :: ks) := by
  have hdiv := Nat.div_add_mod' remaining size
  have hle := h.le
  have hbytes : bytesIn (peeled offset remaining size :: ks) =
      remaining / size * size + bytesIn ks := rfl
  have hstart : remaining - bytesIn (peeled offset remaining size :: ks) =
      remaining % size - bytesIn ks := by omega
  have hend : offset + (remaining % size : Nat) + (remaining / size * size : Nat) =
      offset + remaining := by omega
  have hcut : Tile (offset + (remaining % size : Nat)) (offset + remaining)
      ((List.range (remaining / size)).map (peeled offset remaining size).piece) :=
    hend ▸ Tile.cut (peeled offset remaining size)
  refine ⟨by omega, ?_⟩
  rw [hstart, pieces_cons]
  exact hcut.append h.tile (by omega) (by omega)

theorem cutDown_fills (offset : Int) (fuel size remaining : Nat) :
    Fills offset remaining (cutDown offset fuel size remaining) := by
  induction fuel generalizing size remaining with
  | zero => exact .nil _ _
  | succ fuel ih =>
    rw [cutDown]
    split
    · exact (ih (size / 2) (remaining % size)).cons
    · exact .nil _ _

/-- The cuts of a chunk tile it down to the bytes that are left over. -/
theorem cuts_fill (blockSize : Nat) (offset : Int) (size : Nat) (cap : Option Nat) :
    Fills offset size (cuts blockSize offset size cap) :=
  (cutDown_fills ..).cons

namespace Pool

/-! ### What cutting does to a pool -/

/-- The pieces of some cuts were given to a pool, one cut after the other. -/
inductive Enriched : Pool → List Cut → Pool → Prop
  | nil (p : Pool) : Enriched p [] p
  | cons {p q p' : Pool} {k : Cut} {ks : List Cut} (first : p.Stacked k q)
      (rest : Enriched q ks p') : Enriched p (k :: ks) p'

variable {p p' q : Pool} {spot : Nat → Spot} {loose : Finset Int} {ks : List Cut}
  {stock : SizeClass → List Nat}

/-- The `count` records from `length` on, as far as they are slots of class `c`. -/
def newOf (p' : Pool) (length count : Nat) (c : SizeClass) : List Nat :=
  (List.range' length count).filter fun i => (p'.pieceOf i).size = c.bytes

namespace Enriched

theorem toSealed (h : p.Enriched ks p') : p.Sealed p' := by
  induction h with
  | nil p => exact .refl p
  | cons first _ ih => exact first.toSealed.trans ih

theorem live (h : p.Enriched ks p') : p'.live = p.live := by
  induction h with
  | nil p => rfl
  | cons first _ ih => exact ih.trans first.live

theorem length (h : p.Enriched ks p') : p'.roster.length = p.roster.length + countOf ks := by
  induction h with
  | nil p => rfl
  | cons first _ ih => rw [ih, first.length, countOf_cons, Nat.add_assoc]

theorem kept (h : p.Enriched ks p') :
    ∀ i < p.roster.length, p'.roster.record i = p.roster.record i := by
  induction h with
  | nil p => exact fun _ _ => rfl
  | cons first _ ih =>
    intro i hi
    rw [ih i (by rw [first.length]; omega), first.kept i hi]

theorem pieceOf (h : p.Enriched ks p') {i : Nat} (hi : i < p.roster.length) :
    p'.pieceOf i = p.pieceOf i := by
  rw [Pool.pieceOf, Pool.pieceOf, h.kept i hi]

/-- The new records are the pieces, in the order in which they were cut. -/
theorem pieces_eq (h : p.Enriched ks p') :
    (List.range' p.roster.length (countOf ks)).map p'.pieceOf = pieces ks := by
  induction h with
  | nil p => rfl
  | @cons p q p' k ks first rest ih =>
    have hrun : (List.range' p.roster.length k.count).map p'.pieceOf =
        (List.range k.count).map k.piece := by
      rw [List.range'_eq_map_range, List.map_map]
      refine List.map_congr_left fun j hj => ?_
      have hj := List.mem_range.mp hj
      show p'.pieceOf (p.roster.length + j) = k.piece j
      rw [rest.pieceOf (by rw [first.length]; omega), first.piece j hj]
    rw [countOf_cons, List.range'_append_1.symm, List.map_append, hrun, ← first.length, ih,
      pieces_cons]

theorem mem_sizes (h : p.Enriched ks p') {i : Nat}
    (hi : i ∈ List.range' p.roster.length (countOf ks)) :
    (p'.pieceOf i).size ∈ ks.map Cut.size := by
  have hmem := List.mem_map_of_mem (f := p'.pieceOf) hi
  rw [h.pieces_eq] at hmem
  obtain ⟨k, hk, j, -, hj⟩ := mem_pieces.mp hmem
  rw [← hj]
  exact List.mem_map_of_mem hk

/-- Pieces of different sizes go to different shelves, each on top of what was there. -/
theorem stocked (h : p.Enriched ks p') (hsizes : (ks.map Cut.size).Nodup) (hs : p.Stocked stock) :
    p'.Stocked fun c => p'.newOf p.roster.length (countOf ks) c ++ stock c := by
  induction h generalizing stock with
  | nil p => exact hs
  | @cons p q p' k ks first rest ih =>
    obtain ⟨hnew, hsizes⟩ := List.nodup_cons.mp hsizes
    have hfirst : ∀ i ∈ List.range' p.roster.length k.count, (p'.pieceOf i).size = k.size := by
      intro i hi
      obtain ⟨hle, hlt⟩ := List.mem_range'_1.mp hi
      obtain ⟨j, rfl⟩ := Nat.exists_eq_add_of_le hle
      rw [rest.pieceOf (by rw [first.length]; exact hlt), first.piece j (by omega)]
      rfl
    intro c
    have hstock := ih hsizes (first.stock stock hs) c
    simp only [newOf] at hstock ⊢
    rw [countOf_cons, List.range'_append_1.symm, ← first.length, List.filter_append]
    by_cases hc : c.bytes = k.size
    · have hall : (List.range' p.roster.length k.count).filter
          (fun i => (p'.pieceOf i).size = c.bytes) = List.range' p.roster.length k.count :=
        List.filter_eq_self.mpr fun i hi => decide_eq_true ((hfirst i hi).trans hc.symm)
      have hnone : (List.range' q.roster.length (countOf ks)).filter
          (fun i => (p'.pieceOf i).size = c.bytes) = [] :=
        List.filter_eq_nil_iff.mpr fun i hi hsize =>
          hnew (hc ▸ of_decide_eq_true hsize ▸ rest.mem_sizes hi)
      rw [if_pos hc, hnone, List.nil_append] at hstock
      rwa [hall, hnone, List.append_nil]
    · have hnone : (List.range' p.roster.length k.count).filter
          (fun i => (p'.pieceOf i).size = c.bytes) = [] :=
        List.filter_eq_nil_iff.mpr fun i hi hsize =>
          hc (of_decide_eq_true hsize ▸ hfirst i hi)
      rw [if_neg hc] at hstock
      rwa [hnone, List.nil_append]

end Enriched

/-! ### The cuts are what a pool gets -/

/-- The pool got the first of the cuts of `n` bytes, is refused the records of the next, and gave up
all bytes from there on. -/
inductive Short [Host] (p : Pool) (ks : List Cut) (n : Nat) (why : Refusal) : Pool → Prop
  | intro {done rest : List Cut} {next : Cut} {q q' : Pool} (cut : ks = done ++ next :: rest)
      (given : p.Enriched done q) (refused : q.Unlisted (q.roster.length + next.count) why q') :
      Short p ks n why { q' with leaked := q'.leaked + (n - bytesIn done) }

namespace Short

variable [Host] {k : Cut} {ls : List Cut} {n : Nat} {why : Refusal}

theorem append (h : p.Short ks n why p') (ls : List Cut) : p.Short (ks ++ ls) n why p' := by
  obtain ⟨rfl, given, refused⟩ := h
  exact .intro (by rw [List.append_assoc, List.cons_append]) given refused

theorem cons (first : p.Stacked k q) (h : q.Short ks (n - k.count * k.size) why p') :
    p.Short (k :: ks) n why p' := by
  obtain @⟨done, rest, next, q, q', rfl, given, refused⟩ := h
  rw [Nat.sub_sub, ← bytesIn_cons]
  exact .intro rfl (.cons first given) refused

theorem cause (h : p.Short ks n why p') :
    (∃ required, why = .outOfTableSpace required p.roster.capacity ∧
      p.roster.capacity < p.roster.length + countOf ks) ∨
    ∃ declined, why = .growth declined ∧ ¬ Host.Generous := by
  obtain @⟨done, rest, next, q, q', rfl, given, r, rfl, refused⟩ := h
  cases refused with
  | full hfull =>
    have hcount : countOf (done ++ next :: rest) = countOf done + (next.count + countOf rest) := by
      simp [countOf]
    have hlength := given.length
    have hcapacity := given.toSealed.capacity
    exact .inl ⟨_, by rw [hcapacity], by omega⟩
  | host declined mean => exact .inr ⟨declined, rfl, mean⟩

end Short

theorem leak_rest_meets {rest : Nat} {offset : Int} {bad : Fault → Pool → Prop}
    (h : p.Enriched ks q) :
    (if 0 < rest then leak rest offset else pure () : Act Pool Unit).Meets q
      (fun _ p' => ∃ q, p.Enriched ks q ∧ p' = { q with leaked := q.leaked + rest })
      bad := by
  simp only [leak, meets_ite, meets_bind, meets_modify, meets_note, meets_pure]
  refine ⟨fun _ => ⟨q, h, rfl⟩, fun hzero => ?_⟩
  obtain rfl : rest = 0 := by omega
  exact ⟨q, h, rfl⟩

/-- A pool gets the pieces that are peeled off, as far as its roster has room. -/
theorem peel_stacks [Host] (h : p.Sound spot loose) {offset : Int} {remaining size : Nat}
    (hsize : SizeClass.IsSize size) (hoffset : 0 ≤ offset)
    (hdvd : size ≤ remaining → ((min size p.blockSize : Nat) : Int) ∣ offset + remaining)
    (hloose : span offset remaining ⊆ loose) :
    (peel offset remaining size).Meets p
      (fun rest p' => (rest = remaining % size ∧
        p.Absorbed spot loose (offset + rest) (remaining - rest) p') ∧
          p.Stacked (peeled offset remaining size) p')
      (refusing (p.Short [peeled offset remaining size] remaining)) := by
  have hdiv := Nat.div_add_mod' remaining size
  have hstacks : (peel offset remaining size).Meets p
      (fun _ p' => p.Stacked (peeled offset remaining size) p')
      (refusing (p.Short [peeled offset remaining size] remaining)) := by
    refine peel_of_return h hsize hoffset hloose (fun hlt => ?_) fun hle => ?_
    · rw [peeled, Nat.div_eq_of_lt hlt]
      exact .none ..
    · have hmin : min size p.blockSize ∣ size :=
        (hsize.1.min h.block.1).dvd_of_le hsize.1 (Nat.min_le_left ..)
      refine (returnBlocks_stacks h hsize (by omega) (dvd_add_mod (hdvd hle) hmin) ?_).mono
        (fun _ _ => id) ?_
      · exact fun y hy => hloose (span_subset_span (by omega) (by omega) hy)
      · exact fun why q hrefused =>
          .intro (List.nil_append [peeled offset remaining size]).symm (.nil _) hrefused
  exact (peel_meets h hsize hoffset hdvd hloose).and_answers hstacks

theorem peelDown_enriches [Host] {offset : Int} (hoffset : 0 ≤ offset) {fuel size remaining : Nat}
    (h : p.Sound spot loose) (hpow : PowerOfTwo size) (hle : size ≤ SizeClass.largest)
    (hdvd : (size : Int) ∣ offset + remaining) (hloose : span offset remaining ⊆ loose) :
    (peelDown offset fuel size remaining).Meets p
      (fun rest p' => rest = remaining - bytesIn (cutDown offset fuel size remaining) ∧
        p.Enriched (cutDown offset fuel size remaining) p')
      (refusing (p.Short (cutDown offset fuel size remaining) remaining)) := by
  induction fuel generalizing p spot loose size remaining with
  | zero => exact ⟨rfl, .nil p⟩
  | succ fuel ih =>
    rw [cutDown, peelDown]
    split
    · rename_i hgo
      have hsize : SizeClass.IsSize size := ⟨hpow, hgo.2, hle⟩
      have hmin : min size p.blockSize ∣ size :=
        (hpow.min h.block.1).dvd_of_le hpow (Nat.min_le_left ..)
      have hhalf := hpow.half_dvd hsize.one_lt
      have hdvd' := dvd_add_mod hdvd (Nat.dvd_refl size)
      have hrest : remaining - (peeled offset remaining size).count *
          (peeled offset remaining size).size = remaining % size :=
        Nat.sub_eq_of_eq_add (Nat.mod_add_div' remaining size).symm
      refine (peel_stacks h hsize hoffset
        (fun _ => Int.dvd_trans (Int.natCast_dvd_natCast.mpr hmin) hdvd) hloose).bind ?_
        fun why _ hshort => hshort.append _
      rintro _ q ⟨⟨rfl, -, spot', hsound, -⟩, hstacked⟩
      refine (ih hsound (hpow.half hsize.one_lt) (by omega)
        (Int.dvd_trans (Int.natCast_dvd_natCast.mpr hhalf) hdvd')
        (span_subset_sdiff hloose (Nat.mod_le ..))).mono ?_ fun why _ hshort =>
          .cons hstacked (hrest.symm ▸ hshort)
      rintro rest p' ⟨rfl, henriched⟩
      exact ⟨by rw [bytesIn_cons, ← Nat.sub_sub, hrest], .cons hstacked henriched⟩
    · exact ⟨rfl, .nil p⟩

/-- A pool gets the cuts of a chunk, as far as its roster has room; what is too small for a piece is
given up. -/
theorem splitChunk_enriches [Host] (h : p.Sound spot loose) {offset : Int} {size : Nat}
    {cap : Option Nat} (hoffset : 0 ≤ offset) (hcap : ∀ n ∈ cap, PowerOfTwo n)
    (hcut : Cuttable p.blockSize offset size (largestCut p.blockSize cap))
    (hloose : span offset size ⊆ loose) :
    (splitChunk offset size cap).Meets p
      (fun _ p' => ∃ q, p.Enriched (cuts p.blockSize offset size cap) q ∧
        p' = { q with leaked := q.leaked + (size - bytesIn (cuts p.blockSize offset size cap)) })
      (refusing (p.Short (cuts p.blockSize offset size cap) size)) := by
  have hpow := powerOfTwo_largestCut h.block hcap
  have hlargest := hpow.dvd_of_le h.block.1 (largestCut_le ..)
  have hle := (largestCut_le p.blockSize cap).trans h.block.2.2
  have hrest : size - (peeled offset size p.blockSize).count *
      (peeled offset size p.blockSize).size = size % p.blockSize :=
    Nat.sub_eq_of_eq_add (Nat.mod_add_div' size p.blockSize).symm
  simp only [splitChunk, meets_bind, meets_ensure_refusing, meets_get]
  rw [cuts, bytesIn_cons, ← Nat.sub_sub, hrest]
  refine ⟨hoffset, (peel_stacks h h.block hoffset (by rw [Nat.min_self]; exact hcut.1)
    hloose).mono ?_ fun why _ hshort => hshort.append _⟩
  rintro _ q ⟨⟨rfl, -, spot', hsound, -⟩, hstacked⟩
  refine (peelDown_enriches hoffset hsound hpow hle (dvd_add_mod hcut.2 hlargest)
    (span_subset_sdiff hloose (Nat.mod_le ..))).mono ?_ fun why _ hshort =>
      .cons hstacked (hrest.symm ▸ hshort)
  rintro _ q' ⟨rfl, henriched⟩
  exact leak_rest_meets (.cons hstacked henriched)

end Pool

end SlotArena
