import SlotArena.Proofs.Reclaiming
import SlotArena.Proofs.Stealing

/-!
A freed chunk in smaller pieces. A slot that was given back makes slots of any smaller class, as
long as that is no larger than a block and nothing of a size in between is free: `Serves` says which
offsets the next requests will be answered with, in order, and a request takes the first of them off
(`Serves.alloc`). A chunk of several blocks is used up block by block, since the blocks above the
first lie on a shelf of their own from the first request on.

Main statement: the slots come in ascending order, without a gap and to the last byte, and nothing
else happens to the pool meanwhile (`freed_serves`).
-/

namespace SlotArena

open Act Finset Ledger

/-! ### Offsets in a row -/

def ascending (offset : Int) (step n : Nat) : List Int :=
  (List.range n).map fun j => offset + (j * step : Nat)

theorem length_ascending (offset : Int) (step n : Nat) : (ascending offset step n).length = n := by
  simp [ascending]

theorem ascending_add (offset : Int) (step m n : Nat) :
    ascending offset step (m + n) =
      ascending offset step m ++ ascending (offset + (m * step : Nat)) step n := by
  rw [ascending, List.range_add, List.map_append, List.map_map]
  refine congrArg (ascending offset step m ++ ·) (List.map_congr_left fun j _ => ?_)
  rw [Function.comp_apply, Nat.add_mul]
  omega

theorem ascending_succ (offset : Int) (step n : Nat) :
    ascending offset step (n + 1) = offset :: ascending (offset + step) step n := by
  rw [Nat.add_comm, ascending_add, Nat.one_mul]
  simp [ascending]

theorem ascending_mul (offset : Int) (step m n : Nat) :
    ascending offset step (m * n) =
      (List.range m).flatMap fun j => ascending (offset + (j * (n * step) : Nat)) step n := by
  induction m with
  | zero => simp [ascending]
  | succ m ih =>
    rw [Nat.succ_mul, ascending_add, ih, List.range_succ, List.flatMap_append,
      List.flatMap_singleton, Nat.mul_assoc]

/-- The offsets at which a piece makes slots of `size` bytes. -/
def Piece.course (size : Nat) (k : Piece) : List Int := ascending k.offset size (k.size / size)

theorem Piece.course_self {size : Nat} (hsize : 0 < size) (offset : Int) :
    Piece.course size ⟨offset, size⟩ = [offset] := by
  rw [Piece.course, Nat.div_self hsize, ascending_succ]
  rfl

theorem length_le_courses {size : Nat} (hsize : 0 < size) {ks : List Piece}
    (h : ∀ k ∈ ks, size ≤ k.size) : ks.length ≤ (ks.flatMap (Piece.course size)).length := by
  induction ks with
  | nil => exact Nat.zero_le _
  | cons k ks ih =>
    obtain ⟨hk, hrest⟩ := List.forall_mem_cons.mp h
    have hone : 1 ≤ k.size / size := (Nat.one_le_div_iff hsize).mpr hk
    have hrest := ih hrest
    rw [List.flatMap_cons, List.length_append, Piece.course, length_ascending, List.length_cons]
    omega

theorem course_pieces {size n : Nat} (hsize : 0 < size) (offset : Int) (count : Nat) :
    (pieces [⟨offset, n * size, count⟩]).flatMap (Piece.course size) =
      ascending offset size (count * n) := by
  rw [ascending_mul, pieces_cons, List.flatMap_append, List.flatMap_map]
  simp [pieces, Cut.piece, Piece.course, Nat.mul_div_cancel _ hsize]

/-! ### The rest of a chunk, lowest first -/

theorem countOf_reverse (ks : List Cut) : countOf ks.reverse = countOf ks := by
  rw [countOf, countOf, List.map_reverse, List.sum_reverse]

section

variable {bs : Nat} {c d : SizeClass}

/-- Unless a chunk has several blocks and the request needs less than one, its rest is of one
size. -/
theorem pieces_even (hsmall : c.bytes ≤ bs) (heven : d.bytes ≤ bs ∨ c.bytes = bs) (offset : Int) :
    pieces ((remainder bs c.bytes d.bytes offset).filter fun k => k.size = c.bytes) =
      pieces (remainder bs c.bytes d.bytes offset).reverse ∧
    ∀ n ≠ c.bytes,
      pieces ((remainder bs c.bytes d.bytes offset).filter fun k => k.size = n) = [] := by
  rcases Nat.lt_or_eq_of_le hsmall with hless | rfl
  · have hone : d.bytes / bs ≤ 1 :=
      Nat.div_le_of_le_mul (by have := heven.resolve_right (Nat.ne_of_lt hless); omega)
    rw [remainder, if_pos hless, Nat.sub_eq_zero_of_le hone]
    refine ⟨by simp [pieces, Nat.ne_of_gt hless], fun n hn => ?_⟩
    by_cases hbs : bs = n
    · simp [pieces, hbs, hn.symm]
    · simp [pieces, hbs, hn.symm]
  · rw [remainder, if_neg (Nat.lt_irrefl _)]
    exact ⟨by simp, fun n hn => by simp [pieces, hn.symm]⟩

/-- The rest of a chunk of several blocks is blocks, and pieces of the size of the request. -/
theorem pieces_blocks (hless : c.bytes < bs) (offset : Int) :
    pieces ((remainder bs c.bytes d.bytes offset).filter fun k => k.size = c.bytes) ++
        pieces ((remainder bs c.bytes d.bytes offset).filter fun k => k.size = bs) =
      pieces (remainder bs c.bytes d.bytes offset).reverse ∧
    ∀ n ≠ c.bytes, n ≠ bs →
      pieces ((remainder bs c.bytes d.bytes offset).filter fun k => k.size = n) = [] := by
  rw [remainder, if_pos hless]
  refine ⟨by simp [pieces, Nat.ne_of_gt hless, Nat.ne_of_lt hless], fun n hn hbs => ?_⟩
  simp [pieces, hn.symm, hbs.symm]

theorem course_remainder (hbs : SizeClass.IsSize bs) (hlt : c < d) (hsmall : c.bytes ≤ bs)
    (offset : Int) :
    Piece.course c.bytes ⟨offset, d.bytes⟩ =
      offset :: (pieces (remainder bs c.bytes d.bytes offset).reverse).flatMap
        (Piece.course c.bytes) := by
  have hpos := c.bytes_pos
  have hbytes := SizeClass.bytes_lt_bytes.mpr hlt
  -- a whole number of slots fits into the chunk, and the first of them is its low end
  have hrow : ∀ n, d.bytes = (n + 1) * c.bytes → Piece.course c.bytes ⟨offset, d.bytes⟩ =
      offset :: ascending (offset + c.bytes) c.bytes n := by
    intro n hn
    rw [Piece.course, hn, Nat.mul_div_cancel _ hpos, ascending_succ]
  have hsame := fun start => @course_pieces c.bytes 1 hpos start
  simp only [Nat.one_mul, Nat.mul_one] at hsame
  rcases Nat.lt_or_eq_of_le hsmall with hless | rfl
  · obtain ⟨hdiv, hmod, hmin, hdvd⟩ := rest_divMod hbs hlt hless
    have hwhole := Nat.div_add_mod' (d.bytes - c.bytes) bs
    rw [hdiv, hmod] at hwhole
    obtain ⟨m, hm⟩ := c.powerOfTwo_bytes.dvd_of_le hbs.1 hsmall
    obtain ⟨v, hv⟩ := hdvd
    have hblocks := @course_pieces c.bytes m hpos (offset + (min d.bytes bs : Nat))
      (d.bytes / bs - 1)
    rw [Nat.mul_comm m, ← hm] at hblocks
    have hcount : (min d.bytes bs - c.bytes) / c.bytes = v := by
      rw [hv, Nat.mul_div_cancel_left _ hpos]
    have hstart : offset + (min d.bytes bs : Nat) = offset + c.bytes + (v * c.bytes : Nat) := by
      rw [Nat.mul_comm, ← hv]
      omega
    have hall : d.bytes = (v + (d.bytes / bs - 1) * m + 1) * c.bytes := by
      rw [Nat.succ_mul, Nat.add_mul, Nat.mul_assoc, Nat.mul_comm m, ← hm, Nat.mul_comm v, ← hv]
      omega
    rw [hrow _ hall, remainder, if_pos hless, hcount, List.reverse_cons, List.reverse_singleton,
      pieces_append, List.flatMap_append, hsame, hblocks, ascending_add,
      hstart]
  · obtain ⟨v, hv⟩ := dvd_rest hbs hlt (Nat.le_refl _)
    have hcount : (d.bytes - c.bytes) / c.bytes = v := by rw [hv, Nat.mul_div_cancel_left _ hpos]
    have hall : d.bytes = (v + 1) * c.bytes := by
      rw [Nat.succ_mul, Nat.mul_comm, ← hv]
      omega
    rw [hrow _ hall, remainder, if_neg (Nat.lt_irrefl _), hcount, List.reverse_singleton, hsame]

/-- A chunk makes more slots than its rest has pieces. -/
theorem countOf_lt_course (hbs : SizeClass.IsSize bs) (hlt : c < d) (hsmall : c.bytes ≤ bs)
    (offset : Int) :
    countOf (remainder bs c.bytes d.bytes offset) <
      (Piece.course c.bytes ⟨offset, d.bytes⟩).length := by
  have hsizes : ∀ k ∈ pieces (remainder bs c.bytes d.bytes offset).reverse, c.bytes ≤ k.size := by
    intro k hk
    obtain ⟨cut, hcut, j, -, rfl⟩ := mem_pieces.mp hk
    rw [List.mem_reverse, remainder] at hcut
    split at hcut
    · rcases List.mem_cons.mp hcut with rfl | hcut
      · exact hsmall
      · obtain rfl := List.mem_singleton.mp hcut
        exact Nat.le_refl _
    · obtain rfl := List.mem_singleton.mp hcut
      exact hsmall
  have hle := length_le_courses c.bytes_pos hsizes
  rw [length_pieces, countOf_reverse] at hle
  rw [course_remainder hbs hlt hsmall, List.length_cons]
  omega

end

namespace SizeClass

theorem find_above {c d : SizeClass} {q : SizeClass → Bool} (hlt : c < d) (hd : q d)
    (hbetween : ∀ x, c < x → x < d → ¬ q x) : c.above.find? q = some d := by
  rw [above, List.find?_filter, List.find?_eq_some_iff_getElem]
  refine ⟨by simpa using ⟨hlt, hd⟩, d.val, by simp, by simp, fun j hj => ?_⟩
  have hj' : (⟨j, by omega⟩ : SizeClass) < d := hj
  by_cases hc : c < (⟨j, by omega⟩ : SizeClass)
  · simp [hbetween _ hc hj']
  · simp [hc]

end SizeClass

namespace Pool

variable {p p' : Pool} {spot : Nat → Spot} {loose : Finset Int} {stock : SizeClass → List Nat}
  {c d x : SizeClass} {i : Nat} {own wide : List Nat}

/-! ### What is to come -/

/-- The offsets at which some records make slots of a class. -/
def queue (p : Pool) (c : SizeClass) (records : List Nat) : List Int :=
  records.flatMap fun i => (p.pieceOf i).course c.bytes

/-- Requests of class `c` are served from its own shelf, which holds `own`, and after that from
`wide`, the top of the shelf of the nearest class that has slots free; the roster has room for all
the pieces. -/
structure Lined (p : Pool) (loose : Finset Int) (c d : SizeClass) (own wide : List Nat) : Prop where
  valid : p.Valid loose
  small : c.bytes ≤ p.blockSize
  lt : c < d
  stock : ∃ stock rest, p.Stocked stock ∧ stock c = own ∧ stock d = wide ++ rest ∧
    ∀ x, c < x → x < d → stock x = []
  whole : d.bytes ≤ p.blockSize ∨ wide.length ≤ 1
  room : p.roster.length + (p.queue c (own ++ wide)).length ≤
    p.roster.capacity + (own ++ wide).length

/-- The next requests of class `c` will be answered with these offsets. -/
def Serves (p : Pool) (loose : Finset Int) (c : SizeClass) (offsets : List Int) : Prop :=
  ∃ d own wide, p.Lined loose c d own wide ∧ p.queue c (own ++ wide) = offsets

theorem queue_cons (p : Pool) (c : SizeClass) (i : Nat) (records : List Nat) :
    p.queue c (i :: records) = (p.pieceOf i).course c.bytes ++ p.queue c records := rfl

theorem queue_append (p : Pool) (c : SizeClass) (records more : List Nat) :
    p.queue c (records ++ more) = p.queue c records ++ p.queue c more := List.flatMap_append

theorem queue_congr {records : List Nat} (h : ∀ i ∈ records, p'.pieceOf i = p.pieceOf i) :
    p'.queue c records = p.queue c records :=
  List.flatMap_congr fun i hi => by rw [h i hi]

theorem queue_eq (p : Pool) (c : SizeClass) (records : List Nat) :
    p.queue c records = (records.map p.pieceOf).flatMap (Piece.course c.bytes) := by
  rw [queue, List.flatMap_map]

theorem map_newOf {length count : Nat} {ks : List Cut}
    (h : (List.range' length count).map p'.pieceOf = pieces ks) (x : SizeClass) :
    (p'.newOf length count x).map p'.pieceOf = pieces (ks.filter fun k => k.size = x.bytes) := by
  rw [← filter_pieces, ← h, List.filter_map]
  rfl

theorem newOf_eq_nil {length count : Nat} {ks : List Cut}
    (h : (List.range' length count).map p'.pieceOf = pieces ks)
    (hnone : pieces (ks.filter fun k => k.size = x.bytes) = []) :
    p'.newOf length count x = [] :=
  List.map_eq_nil_iff.mp ((map_newOf h x).trans hnone)

/-! ### One request -/

theorem accepts_bytes {align : Nat} (hsmall : c.bytes ≤ p.blockSize)
    (halign : PowerOfTwo align ∧ align ≤ c.bytes) :
    p.Accepts c.bytes align ∧ c.bytes = servedSize c.bytes align := by
  have hmax := Nat.max_eq_left halign.2
  refine ⟨⟨halign.1, halign.2.trans hsmall, hmax.trans_le c.bytes_le_largest⟩, ?_⟩
  rw [servedSize, hmax, c.powerOfTwo_bytes.ceilPow2_eq, Nat.max_eq_left c.least_le_bytes]

section

variable {source : SizeClass} {ks : List Cut} {slot : Slot}

theorem Supplied.pieceOf (h : p.Supplied source c ks slot p') {j : Nat} (hj : j < p.roster.length)
    (hne : j ≠ slot.idx) : p'.pieceOf j = p.pieceOf j := by
  rw [Pool.pieceOf, Pool.pieceOf, h.kept j hj hne]

theorem Supplied.pieceOf_idx (h : p.Supplied source c ks slot p') :
    p'.pieceOf slot.idx = ⟨slot.offset, c.bytes⟩ := by
  rw [Pool.pieceOf, h.record, h.offset]

theorem Supplied.chunk_eq (h : p.Supplied source c ks slot p') :
    p.pieceOf slot.idx = ⟨slot.offset, source.bytes⟩ := by
  rw [Pool.pieceOf, h.offset, h.chunk]

theorem Supplied.pieceOf_own (h : p.Supplied c c ks slot p') {j : Nat} (hj : j < p.roster.length) :
    p'.pieceOf j = p.pieceOf j := by
  by_cases hji : j = slot.idx
  · rw [hji, h.pieceOf_idx, h.chunk_eq]
  · exact h.pieceOf hj hji

/-- It was on top of its shelf, and the rest of the shelf is still there. -/
theorem Supplied.stocked_own (h : p.Supplied c c [] slot p') (hs : p.Stocked stock) :
    p'.Stocked (Function.update stock c (stock c).tail) := fun d => by
  have hd := h.stocked stock hs d
  rw [Function.update_apply]
  by_cases hdc : d = c
  · subst hdc
    simp only [if_pos] at hd ⊢
    exact hd
  · simp only [if_neg hdc] at hd ⊢
    exact hd

end

theorem Lined.takes [Host] (h : p.Lined loose c d (i :: own) wide) {align : Nat}
    (halign : PowerOfTwo align ∧ align ≤ c.bytes) :
    (alloc c.bytes align).Meets p
      (fun slot p' => slot.size = c.bytes ∧ p.Sealed p' ∧ p'.Lined loose c d own wide ∧
        p.queue c (i :: own ++ wide) = slot.offset :: p'.queue c (own ++ wide)) Never := by
  obtain ⟨stock, rest, hs, hc, hd, hbetween⟩ := h.stock
  obtain ⟨hne, hhead⟩ := hs.head_eq hc
  obtain ⟨haccepts, hserved⟩ := accepts_bytes h.small halign
  refine (alloc_takes h.valid c.bytes_pos haccepts hserved hne).imp ?_
  rintro slot p' ⟨hvalid, hsupplied⟩
  obtain rfl : slot.idx = i := hsupplied.idx.trans hhead
  obtain ⟨spot, hsound, -⟩ := h.valid
  have hborn : ∀ x, ∀ j ∈ stock x, j < p.roster.length := fun _ _ hj => hsound.stock_lt hs hj
  have hpiece : ∀ j ∈ own ++ wide, p'.pieceOf j = p.pieceOf j := by
    intro j hj
    refine hsupplied.pieceOf_own ?_
    rcases List.mem_append.mp hj with hj | hj
    · exact hborn c j (hc ▸ List.mem_cons_of_mem _ hj)
    · exact hborn d j (hd ▸ List.mem_append_left _ hj)
  have hqueue : p.queue c (slot.idx :: own ++ wide) = slot.offset :: p'.queue c (own ++ wide) := by
    rw [List.cons_append, queue_cons, hsupplied.chunk_eq, Piece.course_self c.bytes_pos,
      queue_congr hpiece]
    rfl
  have hroom := h.room
  rw [hqueue, List.length_cons, List.cons_append, List.length_cons] at hroom
  refine ⟨hsupplied.size, hsupplied.toSealed, ?_, hqueue⟩
  exact {
    valid := hvalid
    small := hsupplied.blockSize ▸ h.small
    lt := h.lt
    stock := by
      refine ⟨_, rest, hsupplied.stocked stock hs, ?_, ?_, fun x hx hxd => ?_⟩
      · simp only [if_pos, hc]
        rfl
      · simp only [if_neg h.lt.ne']
        exact hd
      · simp only [if_neg hx.ne']
        exact hbetween x hx hxd
    whole := hsupplied.blockSize ▸ h.whole
    room := by
      have hlength : p'.roster.length = p.roster.length := hsupplied.length
      rw [hlength, hsupplied.capacity]
      omega }

/-- When its own shelf is empty, a class is served from the larger one, and there is room for the
rest of the chunk. -/
theorem Lined.ready (h : p.Lined loose c d [] (i :: wide)) :
    (p.bucket c).free.IsEmpty ∧ p.firstFree c.above = some d ∧ (p.bucket d).free.head = i ∧
      p.roster.length + countOf (remainder p.blockSize c.bytes d.bytes 0) ≤
        p.roster.capacity := by
  obtain ⟨stock, rest, hs, hc, hd, hbetween⟩ := h.stock
  obtain ⟨spot, hsound, -⟩ := h.valid
  have hempty : ∀ x, (p.bucket x).free.IsEmpty ↔ stock x = [] := fun _ => hs.isEmpty_iff
  obtain ⟨hne, hhead⟩ := hs.head_eq (hd.trans (List.cons_append ..))
  refine ⟨(hempty c).mpr hc, ?_, hhead, ?_⟩
  · refine SizeClass.find_above h.lt (by simpa using hne) fun x hcx hxd => ?_
    simpa using (hempty x).mpr (hbetween x hcx hxd)
  have hsizes : ∀ j ∈ i :: wide, (p.pieceOf j).size = d.bytes := fun j hj =>
    (hsound.fits_shelf _ _ ((hsound.mem_stock hs).mp (hd ▸ List.mem_append_left _ hj))).2.1
  have hmore : wide.length ≤ (p.queue c wide).length := by
    rw [queue_eq, ← List.length_map p.pieceOf]
    refine length_le_courses c.bytes_pos fun k hk => ?_
    obtain ⟨j, hj, rfl⟩ := List.mem_map.mp hk
    rw [hsizes j (List.mem_cons_of_mem _ hj)]
    exact SizeClass.bytes_le_bytes.mpr (Fin.le_of_lt h.lt)
  have hchunk : p.pieceOf i = ⟨(p.pieceOf i).offset, d.bytes⟩ := by
    rw [← hsizes i List.mem_cons_self]
  have hcount := countOf_lt_course h.valid.block h.lt h.small (p.pieceOf i).offset
  rw [← hchunk, countOf_remainder] at hcount
  have hroom := h.room
  rw [List.nil_append, List.length_cons, queue_cons, List.length_append] at hroom
  omega

/-- After a chunk was split, its pieces wait in front of those that were there, and these are as
before. -/
theorem Lined.queue_after {slot : Slot} (h : p.Lined loose c d [] (slot.idx :: wide))
    (hsupplied : p.Supplied d c (remainder p.blockSize c.bytes d.bytes slot.offset) slot p')
    {new : List Nat} (hnew : new.map p'.pieceOf =
      pieces (remainder p.blockSize c.bytes d.bytes slot.offset).reverse) :
    new.length = countOf (remainder p.blockSize c.bytes d.bytes slot.offset) ∧
      p.queue c (slot.idx :: wide) = slot.offset :: p'.queue c (new ++ wide) := by
  obtain ⟨stock, rest, hs, -, hd, -⟩ := h.stock
  obtain ⟨spot, hsound, -⟩ := h.valid
  have hkept : ∀ j ∈ wide, p'.pieceOf j = p.pieceOf j := fun j hj => by
    have hthreads := (hs d).nodup
    rw [hd, List.cons_append, List.nodup_cons] at hthreads
    refine hsupplied.pieceOf (hsound.stock_lt hs (hd ▸ List.mem_append_left _
      (List.mem_cons_of_mem _ hj))) ?_
    rintro rfl
    exact hthreads.1 (List.mem_append_left _ hj)
  refine ⟨?_, ?_⟩
  · rw [← List.length_map p'.pieceOf, hnew, length_pieces, countOf_reverse]
  · rw [queue_cons, hsupplied.chunk_eq, course_remainder h.valid.block h.lt h.small, queue_append,
      queue_congr hkept, queue_eq p' c new, hnew, List.cons_append]

theorem Lined.after_even {slot : Slot} (h : p.Lined loose c d [] (slot.idx :: wide))
    (hvalid : p'.Valid loose)
    (hsupplied : p.Supplied d c (remainder p.blockSize c.bytes d.bytes slot.offset) slot p')
    (heven : d.bytes ≤ p.blockSize ∨ c.bytes = p.blockSize) :
    ∃ own', p'.Lined loose c d own' wide ∧
      p.queue c (slot.idx :: wide) = slot.offset :: p'.queue c (own' ++ wide) := by
  obtain ⟨stock, rest, hs, hc, hd, hbetween⟩ := h.stock
  obtain ⟨hown, hothers⟩ := pieces_even h.small heven slot.offset
  obtain ⟨hcount, hall⟩ := h.queue_after hsupplied ((map_newOf hsupplied.pieces c).trans hown)
  have hnone : ∀ x : SizeClass, c < x → _ := fun x hx => newOf_eq_nil hsupplied.pieces
    (hothers x.bytes (Nat.ne_of_gt (SizeClass.bytes_lt_bytes.mpr hx)))
  have hroom := h.room
  rw [List.nil_append, hall, List.length_cons, List.length_cons] at hroom
  refine ⟨_, ?_, hall⟩
  exact {
    valid := hvalid
    small := hsupplied.blockSize ▸ h.small
    lt := h.lt
    stock := by
      refine ⟨_, rest, hsupplied.stocked stock hs, ?_, ?_, fun x hx hxd => ?_⟩
      · simp only [if_neg h.lt.ne, hc, List.append_nil]
      · simp only [if_pos, hd, hnone d h.lt, List.nil_append]
        rfl
      · simp only [if_neg hxd.ne, hnone x hx, hbetween x hx hxd, List.append_nil]
    whole := hsupplied.blockSize ▸ h.whole.imp_right fun hle => by
      rw [List.length_cons] at hle
      omega
    room := by
      have hlength : p'.roster.length = p.roster.length + _ := hsupplied.length
      rw [hlength, hsupplied.capacity, List.length_append, hcount]
      omega }

/-- What is left of a chunk that blocks cut waits in part on the shelf of the request and in part on
that of the blocks, which was empty. -/
theorem Lined.after_blocks {slot : Slot} (h : p.Lined loose c d [] (slot.idx :: wide))
    (hvalid : p'.Valid loose)
    (hsupplied : p.Supplied d c (remainder p.blockSize c.bytes d.bytes slot.offset) slot p')
    (hmany : ¬ d.bytes ≤ p.blockSize) (hne : c.bytes ≠ p.blockSize) :
    ∃ d' own' wide', p'.Lined loose c d' own' wide' ∧
      p.queue c (slot.idx :: wide) = slot.offset :: p'.queue c (own' ++ wide') := by
  obtain ⟨stock, rest, hs, hc, hd, hbetween⟩ := h.stock
  have hless := Nat.lt_of_le_of_ne h.small hne
  obtain rfl : wide = [] := by
    have hone := h.whole.resolve_left hmany
    rw [List.length_cons] at hone
    exact List.length_eq_zero_iff.mp (by omega)
  obtain ⟨k, hk⟩ := h.valid.block.exists_bytes
  have hck := SizeClass.bytes_lt_bytes.mp (hk.symm ▸ hless)
  have hkd := SizeClass.bytes_lt_bytes.mp (hk.symm ▸ Nat.lt_of_not_le hmany)
  obtain ⟨hboth, hothers⟩ := pieces_blocks (d := d) hless slot.offset
  have hnew := map_newOf hsupplied.pieces
  have hblocks := hnew k
  rw [hk] at hblocks
  rw [← hnew, ← hblocks, ← List.map_append] at hboth
  obtain ⟨hcount, hall⟩ := h.queue_after hsupplied hboth
  rw [List.append_nil] at hall
  have hroom := h.room
  rw [List.nil_append, hall, List.length_cons, List.length_cons, List.length_nil] at hroom
  refine ⟨k, _, _, ?_, hall⟩
  exact {
    valid := hvalid
    small := hsupplied.blockSize ▸ h.small
    lt := hck
    stock := by
      refine ⟨_, [], hsupplied.stocked stock hs, ?_, ?_, fun x hx hxk => ?_⟩
      · simp only [if_neg h.lt.ne, hc, List.append_nil]
      · simp only [if_neg hkd.ne, hbetween k hck hkd]
      · have hnone := newOf_eq_nil hsupplied.pieces
          (hothers x.bytes (Nat.ne_of_gt (SizeClass.bytes_lt_bytes.mpr hx))
            (hk ▸ Nat.ne_of_lt (SizeClass.bytes_lt_bytes.mpr hxk)))
        simp only [if_neg (hxk.trans hkd).ne, hnone, hbetween x hx (hxk.trans hkd),
          List.append_nil]
    whole := Or.inl (Nat.le_of_eq (hk.trans hsupplied.blockSize.symm))
    room := by
      have hlength : p'.roster.length = p.roster.length + _ := hsupplied.length
      rw [hlength, hsupplied.capacity, hcount]
      omega }

/-- After a chunk was split, what waits on the shelves takes up the row where its low end leaves
off. -/
theorem Lined.after {slot : Slot} (h : p.Lined loose c d [] (slot.idx :: wide))
    (hvalid : p'.Valid loose)
    (hsupplied : p.Supplied d c (remainder p.blockSize c.bytes d.bytes slot.offset) slot p') :
    ∃ d' own' wide', p'.Lined loose c d' own' wide' ∧
      p.queue c (slot.idx :: wide) = slot.offset :: p'.queue c (own' ++ wide') := by
  by_cases heven : d.bytes ≤ p.blockSize ∨ c.bytes = p.blockSize
  · obtain ⟨own', hlined, hqueue⟩ := h.after_even hvalid hsupplied heven
    exact ⟨d, own', wide, hlined, hqueue⟩
  · obtain ⟨hmany, hne⟩ := not_or.mp heven
    exact h.after_blocks hvalid hsupplied hmany hne

theorem Lined.splits [Host] [Host.Generous] (h : p.Lined loose c d [] (i :: wide)) {align : Nat}
    (halign : PowerOfTwo align ∧ align ≤ c.bytes) :
    (alloc c.bytes align).Meets p
      (fun slot p' => slot.size = c.bytes ∧ p.Sealed p' ∧ ∃ d' own' wide',
        p'.Lined loose c d' own' wide' ∧
          p.queue c (i :: wide) = slot.offset :: p'.queue c (own' ++ wide')) Never := by
  obtain ⟨hempty, hlarger, hhead, hroom⟩ := h.ready
  obtain ⟨haccepts, hserved⟩ := accepts_bytes h.small halign
  refine (alloc_steals h.valid c.bytes_pos haccepts hserved hempty hlarger hroom).imp ?_
  rintro slot p' ⟨hvalid, hsupplied⟩
  obtain rfl : slot.idx = i := hsupplied.idx.trans hhead
  exact ⟨hsupplied.size, hsupplied.toSealed, h.after hvalid hsupplied⟩

theorem Serves.alloc [Host] [Host.Generous] {offset : Int} {offsets : List Int}
    (h : p.Serves loose c (offset :: offsets))
    {align : Nat} (halign : PowerOfTwo align ∧ align ≤ c.bytes) :
    (alloc c.bytes align).Meets p
      (fun slot p' => (slot.offset = offset ∧ slot.size = c.bytes) ∧ p.Sealed p' ∧
        p'.Serves loose c offsets) Never := by
  obtain ⟨d, own, wide, hlined, hqueue⟩ := h
  cases own with
  | cons i own =>
    refine (hlined.takes halign).imp ?_
    rintro slot p' ⟨hsize, hsealed, hlined', hrest⟩
    obtain ⟨hoffset, hoffsets⟩ := List.cons.inj (hrest.symm.trans hqueue)
    exact ⟨⟨hoffset, hsize⟩, hsealed, d, own, wide, hlined', hoffsets⟩
  | nil =>
    cases wide with
    | nil => cases hqueue
    | cons i wide =>
      refine (hlined.splits halign).imp ?_
      rintro slot p' ⟨hsize, hsealed, d', own', wide', hlined', hrest⟩
      obtain ⟨hoffset, hoffsets⟩ := List.cons.inj (hrest.symm.trans hqueue)
      exact ⟨⟨hoffset, hsize⟩, hsealed, d', own', wide', hlined', hoffsets⟩

/-- As many requests as there are offsets to come are answered with them, in order. -/
theorem Serves.run [Host] [Host.Generous] {offsets later : List Int}
    (h : p.Serves loose c (offsets ++ later))
    {aligns : List Nat} (haligns : ∀ align ∈ aligns, PowerOfTwo align ∧ align ≤ c.bytes)
    (hcount : aligns.length = offsets.length) :
    (aligns.mapM (Pool.alloc c.bytes)).Meets p
      (fun slots p' => slots.map Slot.offset = offsets ∧ (∀ slot ∈ slots, slot.size = c.bytes) ∧
        p.Sealed p' ∧ p'.Serves loose c later) Never := by
  induction aligns generalizing p offsets with
  | nil =>
    obtain rfl := List.length_eq_zero_iff.mp hcount.symm
    rw [List.mapM_nil, meets_pure]
    exact ⟨rfl, fun _ hslot => absurd hslot List.not_mem_nil, .refl p, h⟩
  | cons align aligns ih =>
    obtain ⟨offset, offsets, rfl⟩ := List.exists_cons_of_length_eq_add_one hcount.symm
    obtain ⟨halign, haligns⟩ := List.forall_mem_cons.mp haligns
    rw [List.mapM_cons]
    refine (h.alloc halign).bind_sure ?_
    rintro slot q ⟨⟨rfl, hsize⟩, hsealed, hserves⟩
    refine (ih hserves haligns (Nat.succ.inj hcount)).bind_sure ?_
    rintro slots p' ⟨hoffsets, hsizes, hsealed', hlater⟩
    rw [meets_pure]
    exact ⟨by rw [List.map_cons, hoffsets], List.forall_mem_cons.mpr ⟨hsize, hsizes⟩,
      hsealed.trans hsealed', hlater⟩

/-! ### A slot that is given back -/

structure Freed (p : Pool) (c : SizeClass) (i : Nat) (p' : Pool) : Prop extends Sealed p p' where
  length : p'.roster.length = p.roster.length
  pieceOf : ∀ j, p'.pieceOf j = p.pieceOf j
  stocked : ∀ stock, p.Stocked stock → p'.Stocked (Function.update stock c (i :: stock c))

theorem Reclaims.freed {slot : Slot} (h : p.Reclaims slot p') (hmatch : p.Matches slot)
    (hoffset : 0 ≤ slot.offset) (hsize : slot.size = c.bytes) : p.Freed c slot.idx p' := by
  obtain ⟨s, hfits, hothers, hthreads⟩ := h.shelved
  have hpos : slot.size ≠ 0 := hsize ▸ Nat.ne_of_gt c.bytes_pos
  obtain ⟨d, rfl, hd⟩ := (hmatch.side hfits hpos).2 (Int.not_lt.mpr hoffset)
  obtain rfl : d = c := SizeClass.bytes_injective (hd.symm.trans hsize)
  exact {
    arena := h.arena
    leaked := h.leaked
    carve := h.carve
    backFree := hothers .back Shelf.noConfusion
    blockSize := h.blockSize
    capacity := h.capacity
    length := h.length
    pieceOf := h.pieceOf
    stocked := fun stock hs x => by
      have hx := hthreads (.front x) (stock x) (hs x)
      simp only [Shelf.front.injEq] at hx
      rw [Function.update_apply]
      by_cases hxd : x = d
      · subst hxd
        simp only [if_pos] at hx ⊢
        exact hx
      · simp only [if_neg hxd] at hx ⊢
        exact hx }

theorem free_stacks (h : p.Valid loose) {slot : Slot} (hlent : p.Lent slot)
    (hoffset : 0 ≤ slot.offset) (hsize : slot.size = c.bytes) :
    (free slot).Meets p (fun _ p' => p'.Valid loose ∧ p.Freed c slot.idx p') Never :=
  (((h.free_meets hlent).imp fun _ _ hres => hres.1).and_answers (hlent.matches.free_meets h)).imp
    fun _ _ hres => ⟨hres.1, hres.2.freed hlent.matches hoffset hsize⟩

theorem Lent.exists_bytes {slot : Slot} (hlent : p.Lent slot) (h : p.Valid loose)
    (hoffset : 0 ≤ slot.offset) : ∃ d : SizeClass, slot.size = d.bytes := by
  obtain ⟨s, hs⟩ := h.fits hlent.live
  have hpos := hlent.size ▸ h.size_pos hlent.live
  obtain ⟨d, -, hd⟩ := (hlent.matches.side hs (Nat.ne_of_gt hpos)).2 (Int.not_lt.mpr hoffset)
  exact ⟨d, hd⟩

/-- A slot that is given back makes a row of slots of a smaller class, if nothing else does. -/
theorem Freed.serves {slot : Slot} (h : p.Freed d slot.idx p') (hvalid : p.Valid loose)
    (hvalid' : p'.Valid loose) (hpiece : p.pieceOf slot.idx = ⟨slot.offset, d.bytes⟩) (hlt : c < d)
    (hsmall : c.bytes ≤ p.blockSize) (hempty : ∀ x, c ≤ x → x < d → (p.bucket x).free.IsEmpty)
    (hroom : p.roster.length + (d.bytes / c.bytes - 1) ≤ p.roster.capacity) :
    p'.Serves loose c (ascending slot.offset c.bytes (d.bytes / c.bytes)) := by
  obtain ⟨spot, hsound, -⟩ := hvalid
  obtain ⟨stock, hs⟩ := hsound.exists_stocked
  have hqueue : p'.queue c [slot.idx] = ascending slot.offset c.bytes (d.bytes / c.bytes) := by
    rw [queue_cons, h.pieceOf, hpiece]
    exact List.append_nil _
  have hnone : ∀ x, c ≤ x → x < d → Function.update stock d (slot.idx :: stock d) x = [] := by
    intro x hcx hxd
    rw [Function.update_of_ne hxd.ne]
    exact hs.isEmpty_iff.mp (hempty x hcx hxd)
  refine ⟨d, [], [slot.idx], ?_, hqueue⟩
  exact {
    valid := hvalid'
    small := h.blockSize ▸ hsmall
    lt := hlt
    stock := ⟨_, stock d, h.stocked stock hs, hnone c (Fin.le_refl c) hlt,
      Function.update_self .., fun x hcx => hnone x (Fin.le_of_lt hcx)⟩
    whole := Or.inr (Nat.le_refl 1)
    room := by
      rw [List.nil_append, hqueue, length_ascending, h.length, h.capacity, List.length_singleton]
      omega }

end Pool

namespace Estate

variable {config : PoolConfig} {e : Estate} {c : SizeClass}

/-- A chunk that is given back makes slots of a smaller class, as many as it has room for, from its
low end to its high end without a gap, if the host grants the records for them. -/
theorem freed_serves [Host] [Host.Generous] (h : Attainable config e) {slot : Slot}
    (hlent : e.pool.Lent slot)
    (hfront : 0 ≤ slot.offset) (hless : c.bytes < slot.size) (hsmall : c.bytes ≤ e.pool.blockSize)
    (hempty : ∀ d, c ≤ d → d.bytes < slot.size → (e.pool.bucket d).free.IsEmpty)
    (hroom : e.pool.roster.length + (slot.size / c.bytes - 1) ≤ e.pool.roster.capacity)
    {aligns : List Nat} (haligns : ∀ align ∈ aligns, PowerOfTwo align ∧ align ≤ c.bytes)
    (hcount : aligns.length ≤ slot.size / c.bytes) :
    (do
      Pool.free slot
      aligns.mapM (Pool.alloc c.bytes)).Meets e.pool
      (fun slots p' => slots.map Slot.offset = ascending slot.offset c.bytes aligns.length ∧
        (∀ s ∈ slots, s.size = c.bytes) ∧ e.pool.Sealed p') Never := by
  have hvalid := h.valid
  obtain ⟨d, hd⟩ := hlent.exists_bytes hvalid hfront
  rw [hd] at hless hempty hroom hcount
  have hlt := SizeClass.bytes_lt_bytes.mp hless
  refine (Pool.free_stacks hvalid hlent hfront hd).bind_sure ?_
  rintro _ p ⟨hvalid', hfreed⟩
  have hpiece : e.pool.pieceOf slot.idx = ⟨slot.offset, d.bytes⟩ := by
    rw [Pool.pieceOf, hlent.offset, hlent.size, hd]
  have hserves := hfreed.serves hvalid hvalid' hpiece hlt hsmall
    (fun x hcx hxd => hempty x hcx (SizeClass.bytes_lt_bytes.mpr hxd)) hroom
  obtain ⟨later, hlater⟩ := Nat.exists_eq_add_of_le hcount
  rw [hlater, ascending_add] at hserves
  refine (hserves.run haligns (length_ascending ..).symm).imp ?_
  rintro slots p' ⟨hoffsets, hsizes, hsealed, -⟩
  exact ⟨hoffsets, hsizes, hfreed.toSealed.trans hsealed⟩

section

attribute [local instance] Host.plain

/-- Four blocks in eight halves of a block. -/
theorem freed_serves_halves : ∃ e slots p' events, Attainable { blockSize := 128 } e ∧
    wideSlot ∈ e.held ∧
    (do
      Pool.free wideSlot
      [64, 1, 32, 64, 2, 16, 8, 4].mapM (Pool.alloc 64)).run e.pool = ⟨.ok slots, p', events⟩ ∧
    slots.map Slot.offset = [0, 64, 128, 192, 256, 320, 384, 448] ∧ e.pool.Sealed p' := by
  have hrun : ∃ p e, ((Pool.create { blockSize := 128 }).run ()).result = .ok p ∧
      e = (new p).next (.alloc 512 128) ∧
      ((perform (.alloc 512 128)).run (new p)).result.isOk ∧ wideSlot ∈ e.held ∧
      64 ≤ e.pool.blockSize ∧ e.pool.roster.length = 1 ∧ 8 ≤ e.pool.roster.capacity ∧
      ∀ d : SizeClass, d.bytes < 512 → (e.pool.bucket d).free.IsEmpty := by
    refine ⟨_, _, rfl, rfl, ?_⟩
    decide +kernel
  obtain ⟨p, e, hp, rfl, hok, hheld, hsmall, hlength, hcapacity, hempty⟩ := hrun
  have hattainable : Attainable { blockSize := 128 } ((new p).next (.alloc 512 128)) :=
    .step (.opened hp) trivial (survives_of_ok hok)
  obtain ⟨keeper, hsound⟩ := hattainable.sound
  obtain ⟨slots, p', events, hserved, hoffsets, -, hsealed⟩ := (@freed_serves _ _ 0 _ _ hattainable
    wideSlot ((hsound.content .client).2.1 _ hheld) (by decide) (by decide) hsmall
    (fun d _ hd => hempty d hd) (by rw [hlength]; exact hcapacity)
    [64, 1, 32, 64, 2, 16, 8, 4] (by decide) (by decide)).exists_ok
  exact ⟨_, slots, p', events, hattainable, hheld, hserved, hoffsets, hsealed⟩

end

end Estate

end SlotArena
