import SlotArena.Proofs.Attainable
import SlotArena.Proofs.Cutting

/-!
Ranges that are given to a pool, piece by piece. A range is cut into whole blocks and below them
into at most one piece of each smaller size, like the binary digits of its length, and only what is
less than the least size is left over (`chopped_chop`). Its end decides whether the pieces are
aligned: if the first of them is, then all of them are, so that a range with an end that does not
fit is turned down before anything has happened (`returnChunk_tries`).

Main statement: a pool gets all of these pieces, or those from the high end that its roster has room
for, each on the shelf of its size; and what it does not get is given up (`chunk_tiled`).
-/

namespace SlotArena

open Act Finset Ledger

/-! ### The pieces of a range -/

section

variable {offset : Int} {fuel size remaining : Nat} {k : Cut}

/-- What is true of no cuts, and of one more size if it is of half that size and of what is left, is
true of the cuts of any sizes. -/
theorem cutDown_induct {P : (size remaining : Nat) → List Cut → Prop}
    (stop : ∀ size remaining, P size remaining [])
    (go : ∀ size remaining ks, PowerOfTwo size → SizeClass.least ≤ size → 2 * (size / 2) = size →
      P (size / 2) (remaining % size) ks → P size remaining (peeled offset remaining size :: ks))
    (fuel : Nat) {size : Nat} (hpow : PowerOfTwo size) (remaining : Nat) :
    P size remaining (cutDown offset fuel size remaining) := by
  induction fuel generalizing size remaining with
  | zero => exact stop ..
  | succ fuel ih =>
    rw [cutDown]
    split
    · rename_i hgo
      have hone := SizeClass.one_lt_of_least_le hgo.2
      exact go _ _ _ hpow hgo.2 (hpow.two_mul_half hone) (ih (hpow.half hone) _)
    · exact stop ..

theorem cutDown_sizes (hpow : PowerOfTwo size) :
    ((cutDown offset fuel size remaining).map Cut.size).Nodup ∧
      ∀ k ∈ cutDown offset fuel size remaining,
        PowerOfTwo k.size ∧ SizeClass.least ≤ k.size ∧ k.size ≤ size := by
  refine cutDown_induct (P := fun size _ ks => (ks.map Cut.size).Nodup ∧
    ∀ k ∈ ks, PowerOfTwo k.size ∧ SizeClass.least ≤ k.size ∧ k.size ≤ size)
    ?_ ?_ fuel hpow remaining
  · exact fun _ _ => ⟨List.nodup_nil, fun _ hk => absurd hk List.not_mem_nil⟩
  · rintro size remaining ks hpow hleast htwo ⟨hnodup, hsizes⟩
    have hpos := hpow.pos
    refine ⟨List.nodup_cons.mpr ⟨fun hmem => ?_, hnodup⟩,
      List.forall_mem_cons.mpr ⟨⟨hpow, hleast, Nat.le_refl _⟩, fun k hk => ?_⟩⟩
    · obtain ⟨k, hk, hsize⟩ := List.mem_map.mp hmem
      have hle := (hsizes k hk).2.2
      simp only [peeled] at hsize
      omega
    · obtain ⟨hpow', hleast', hle⟩ := hsizes k hk
      exact ⟨hpow', hleast', hle.trans (Nat.div_le_self ..)⟩

/-- Less than two pieces of one size leave less than two of half that size. -/
theorem cutDown_count_le_one (hpow : PowerOfTwo size) (hlt : remaining < 2 * size)
    (hk : k ∈ cutDown offset fuel size remaining) : k.count ≤ 1 := by
  refine cutDown_induct (P := fun size remaining ks => remaining < 2 * size → ∀ k ∈ ks, k.count ≤ 1)
    ?_ ?_ fuel hpow remaining hlt k hk
  · exact fun _ _ _ _ hk => absurd hk List.not_mem_nil
  · intro size remaining ks hpow _ htwo ih hlt
    refine List.forall_mem_cons.mpr ⟨?_, ih ?_⟩
    · exact Nat.le_of_lt_succ (Nat.div_lt_of_lt_mul (Nat.mul_comm 2 size ▸ hlt))
    · rw [htwo]
      exact Nat.mod_lt _ hpow.pos

theorem dvd_of_mem_cutDown (hpow : PowerOfTwo size) (hdvd : (size : Int) ∣ offset + remaining)
    (hk : k ∈ cutDown offset fuel size remaining) : (k.size : Int) ∣ k.offset := by
  refine cutDown_induct (P := fun size remaining ks => (size : Int) ∣ offset + remaining →
    ∀ k ∈ ks, (k.size : Int) ∣ k.offset) ?_ ?_ fuel hpow remaining hdvd k hk
  · exact fun _ _ _ _ hk => absurd hk List.not_mem_nil
  · intro size remaining ks _ _ htwo ih hdvd
    have hdvd' := dvd_add_mod hdvd (Nat.dvd_refl size)
    have hhalf : size / 2 ∣ size := ⟨2, by rw [Nat.mul_comm, htwo]⟩
    exact List.forall_mem_cons.mpr
      ⟨hdvd', ih (Int.dvd_trans (Int.natCast_dvd_natCast.mpr hhalf) hdvd')⟩

theorem bytesIn_cutDown (hpow : PowerOfTwo size) (hfuel : size < 2 ^ fuel)
    (hlt : remaining < 2 * size) :
    bytesIn (cutDown offset fuel size remaining) = remaining - remaining % SizeClass.least := by
  induction fuel generalizing size remaining with
  | zero =>
    have hpos := hpow.pos
    omega
  | succ fuel ih =>
    rw [cutDown]
    split
    · rename_i hgo
      have hone := SizeClass.one_lt_of_least_le hgo.2
      have hdvd : SizeClass.least ∣ size := (powerOfTwo_pow _).dvd_of_le hpow hgo.2
      have hmod := Nat.mod_lt remaining hpow.pos
      have hrest := @ih _ (remaining % size) (hpow.half hone) (by omega)
        (by rw [hpow.two_mul_half hone]; exact hmod)
      have hdiv := Nat.div_add_mod' remaining size
      have hle := Nat.mod_le (remaining % size) SizeClass.least
      rw [Nat.mod_mod_of_dvd _ hdvd] at hrest hle
      rw [bytesIn_cons, hrest]
      simp only [peeled]
      omega
    · rename_i hstop
      -- what a size below the least has left is less than that size twice over
      have hsmall : remaining < SizeClass.least := by
        rcases Nat.lt_or_ge size SizeClass.least with hless | hmore
        · have hhalf := hpow.le_half (powerOfTwo_pow _) hless
          simp only [SizeClass.least, SizeClass.leastLog2] at hhalf ⊢
          omega
        · have hzero : remaining = 0 := by omega
          rw [hzero]
          decide
      rw [Nat.mod_eq_of_lt hsmall, Nat.sub_self]
      rfl

end

/-- How `n` bytes are cut up: into whole blocks and at most one piece of each smaller size, side by
side and up to the end, so that less than the least size is left over. -/
structure Chopped (blockSize : Nat) (offset : Int) (n : Nat) (ks : List Piece) : Prop where
  tile : Tile (offset + (n % SizeClass.least : Nat)) (offset + n) ks
  sizes : ∀ k ∈ ks, SizeClass.IsSize k.size ∧ k.size ≤ blockSize
  blocks : ks.countP (·.size = blockSize) = n / blockSize
  smaller : ∀ size < blockSize, ks.countP (·.size = size) ≤ 1
  aligned : (blockSize : Int) ∣ offset + n → ∀ k ∈ ks, (k.size : Int) ∣ k.offset

/-- The pieces that a range is cut into, from the high end down, those of one size lowest first. -/
def chop (blockSize : Nat) (offset : Int) (n : Nat) : List Piece :=
  pieces (cuts blockSize offset n none)

section

variable {bs : Nat} {offset : Int} {n : Nat} {k : Cut}

theorem cuts_sizes (hbs : SizeClass.IsSize bs) :
    ((cuts bs offset n none).map Cut.size).Nodup ∧
      ∀ k ∈ cuts bs offset n none, SizeClass.IsSize k.size ∧ k.size ≤ bs := by
  have hone := hbs.one_lt
  obtain ⟨hnodup, hsizes⟩ := @cutDown_sizes offset ((bs / 2).log2 + 1) (bs / 2) (n % bs)
    (hbs.1.half hone)
  rw [cuts, largestCut_none]
  refine ⟨List.nodup_cons.mpr ⟨fun hmem => ?_, hnodup⟩,
    List.forall_mem_cons.mpr ⟨⟨hbs, Nat.le_refl _⟩, fun k hk => ?_⟩⟩
  · obtain ⟨k, hk, hsize⟩ := List.mem_map.mp hmem
    have hle := (hsizes k hk).2.2
    simp only [peeled] at hsize
    omega
  · obtain ⟨hpow, hleast, hle⟩ := hsizes k hk
    have hle' := hle.trans (Nat.div_le_self ..)
    exact ⟨⟨hpow, hleast, hle'.trans hbs.2.2⟩, hle'⟩

theorem mod_lt_two_halves (hbs : SizeClass.IsSize bs) (n : Nat) : n % bs < 2 * (bs / 2) :=
  (Nat.mod_lt n hbs.pos).trans_eq (hbs.1.two_mul_half hbs.one_lt).symm

theorem rest_cuts (hbs : SizeClass.IsSize bs) (offset : Int) (n : Nat) :
    n - bytesIn (cuts bs offset n none) = n % SizeClass.least := by
  have hdvd : SizeClass.least ∣ bs := (powerOfTwo_pow _).dvd_of_le hbs.1 hbs.2.1
  have hsmaller := @bytesIn_cutDown offset _ _ _ (hbs.1.half hbs.one_lt) Nat.lt_log2_self
    (mod_lt_two_halves hbs n)
  rw [Nat.mod_mod_of_dvd _ hdvd] at hsmaller
  have hle := Nat.mod_le (n % bs) SizeClass.least
  rw [Nat.mod_mod_of_dvd _ hdvd] at hle
  have hdiv := Nat.div_add_mod' n bs
  rw [cuts, largestCut_none, bytesIn_cons, hsmaller]
  simp only [peeled]
  omega

theorem dvd_of_mem_cuts (hbs : SizeClass.IsSize bs) (hdvd : (bs : Int) ∣ offset + n)
    (hk : k ∈ cuts bs offset n none) : (k.size : Int) ∣ k.offset := by
  have hdvd' := dvd_add_mod hdvd (Nat.dvd_refl bs)
  rw [cuts, largestCut_none] at hk
  rcases List.mem_cons.mp hk with rfl | hk
  · exact hdvd'
  · exact dvd_of_mem_cutDown (hbs.1.half hbs.one_lt)
      (Int.dvd_trans (Int.natCast_dvd_natCast.mpr (hbs.1.half_dvd hbs.one_lt)) hdvd') hk

theorem chopped_chop (hbs : SizeClass.IsSize bs) (offset : Int) (n : Nat) :
    Chopped bs offset n (chop bs offset n) := by
  obtain ⟨hnodup, hsizes⟩ := @cuts_sizes bs offset n hbs
  have hlarge : peeled offset n bs ∈ cuts bs offset n none := List.mem_cons_self
  exact {
    tile := rest_cuts hbs offset n ▸ (cuts_fill bs offset n none).tile
    sizes := fun k hk => by
      obtain ⟨cut, hcut, j, -, rfl⟩ := mem_pieces.mp hk
      exact hsizes cut hcut
    blocks := by
      have hall : (cuts bs offset n none).filter (fun k => k.size = bs) = [peeled offset n bs] :=
        filter_size_eq hnodup hlarge
      rw [chop, countP_pieces, hall]
      exact Nat.add_zero _
    smaller := fun size hsize => by
      rw [chop, countP_pieces]
      by_cases hcut : ∃ k ∈ cuts bs offset n none, k.size = size
      · obtain ⟨k, hk, rfl⟩ := hcut
        rw [filter_size_eq hnodup hk]
        rw [cuts, largestCut_none] at hk
        rcases List.mem_cons.mp hk with rfl | hk
        · exact absurd hsize (Nat.lt_irrefl _)
        · exact cutDown_count_le_one (hbs.1.half hbs.one_lt) (mod_lt_two_halves hbs n) hk
      · rw [List.filter_eq_nil_iff.mpr fun k hk hkind => hcut ⟨k, hk, of_decide_eq_true hkind⟩]
        exact Nat.zero_le 1
    aligned := fun hdvd k hk => by
      obtain ⟨cut, hcut, j, -, rfl⟩ := mem_pieces.mp hk
      exact Cut.dvd_piece (dvd_of_mem_cuts hbs hdvd hcut) }

end

namespace Pool

variable {p p' q : Pool} {spot : Nat → Spot} {loose : Finset Int} {ks : List Cut} {k : Cut}
  {n lost : Nat}

/-! ### What a pool makes of a range -/

/-- The pool has some pieces more, each on top of the shelf of its size in a record of its own, and
gave up some bytes. -/
structure Gained (p : Pool) (ks : List Piece) (lost : Nat) (p' : Pool) : Prop where
  arena : p'.arena = p.arena
  carve : ∀ c, (p'.bucket c).carve = (p.bucket c).carve
  backFree : p'.backFree = p.backFree
  blockSize : p'.blockSize = p.blockSize
  capacity : p'.roster.capacity = p.roster.capacity
  live : p'.live = p.live
  leaked : p'.leaked = p.leaked + lost
  length : p'.roster.length = p.roster.length + ks.length
  kept : ∀ i < p.roster.length, p'.roster.record i = p.roster.record i
  made : (List.range' p.roster.length ks.length).map p'.pieceOf = ks
  stocked : ∀ stock, p.Stocked stock →
    p'.Stocked fun c => p'.newOf p.roster.length ks.length c ++ stock c

theorem Enriched.gained (h : p.Enriched ks q) (hsizes : (ks.map Cut.size).Nodup) (lost : Nat) :
    p.Gained (pieces ks) lost { q with leaked := q.leaked + lost } := by
  have hsealed := h.toSealed
  exact {
    arena := hsealed.arena
    carve := hsealed.carve
    backFree := hsealed.backFree
    blockSize := hsealed.blockSize
    capacity := hsealed.capacity
    live := h.live
    leaked := congrArg (· + lost) hsealed.leaked
    length := by rw [length_pieces]; exact h.length
    kept := h.kept
    made := by rw [length_pieces]; exact h.pieces_eq
    stocked := fun stock hs => by rw [length_pieces]; exact h.stocked hsizes hs }

theorem Gained.unlisted [Host] {ks : List Piece} {lost wanted : Nat} {why : Refusal}
    (h : p.Gained ks lost q) (hrefused : q.Unlisted wanted why p') : p.Gained ks lost p' := by
  obtain ⟨r, rfl, hr⟩ := hrefused
  rw [hr.eq_withWindow]
  exact { h with }

/-- Why a pool does not take the cuts of `n` bytes: for want of records, or because the first piece
is not aligned, and then nothing has happened. -/
def Balks [Host] (p : Pool) (ks : List Cut) (n : Nat) : Fault → Pool → Prop
  | .refused why, p' => p.Short ks n why p'
  | .violated what, p' => p' = p ∧ ∃ k rest, pieces ks = k :: rest ∧ ¬ (k.size : Int) ∣ k.offset ∧
      what = .pieceUnaligned k.offset k.size
  | .stuck, _ => False

theorem Balks.skip [Host] {offset : Int} {size : Nat} {fault : Fault} (h : p.Balks ks n fault p') :
    p.Balks (⟨offset, size, 0⟩ :: ks) n fault p' := by
  cases fault with
  | refused why => exact .cons (.none ..) (by rwa [Nat.zero_mul])
  | violated what => exact h
  | stuck => exact h

theorem pieces_of_pos {offset : Int} {size count : Nat} (hcount : count ≠ 0) (ks : List Cut) :
    ∃ rest, pieces (⟨offset, size, count⟩ :: ks) = ⟨offset, size⟩ :: rest := by
  obtain ⟨count, rfl⟩ := Nat.exists_eq_succ_of_ne_zero hcount
  rw [pieces_cons, List.range_succ_eq_map, List.map_cons, List.cons_append, Cut.piece, Nat.zero_mul,
    Int.natCast_zero, Int.add_zero]
  exact ⟨_, rfl⟩

theorem peel_balks [Host] (h : p.Sound spot loose) {offset : Int} {remaining size : Nat}
    (hsize : SizeClass.IsSize size) (hoffset : 0 ≤ offset) (hloose : span offset remaining ⊆ loose)
    (hblock : size ≤ p.blockSize) (hfits : size ≤ remaining)
    (hend : ¬ (size : Int) ∣ offset + remaining) (ks : List Cut) :
    (peel offset remaining size).Meets p (fun _ _ => False)
      (p.Balks (peeled offset remaining size :: ks) remaining) := by
  refine (peel_misaligned h hsize hoffset hloose hblock hfits hend).weaken (fun _ _ => id) ?_
  rintro _ _ ⟨rfl, rfl⟩
  obtain ⟨rest, hrest⟩ := @pieces_of_pos (offset + (remaining % size : Nat)) size (remaining / size)
    (Nat.div_pos hfits hsize.pos).ne' ks
  refine ⟨rfl, _, rest, hrest, fun hdvd => hend ?_, rfl⟩
  have hdiv := Nat.div_add_mod remaining size
  have hsum : offset + remaining =
      offset + (remaining % size : Nat) + (size * (remaining / size) : Nat) := by omega
  rw [hsum]
  exact Int.dvd_add hdvd (Int.natCast_dvd_natCast.mpr (Nat.dvd_mul_right ..))

theorem peelDown_tries [Host] (h : p.Sound spot loose) {offset : Int} (hoffset : 0 ≤ offset)
    {fuel size remaining : Nat} (hpow : PowerOfTwo size) (hblock : size ≤ p.blockSize)
    (hloose : span offset remaining ⊆ loose) :
    (peelDown offset fuel size remaining).Meets p
      (fun rest p' => (rest = remaining - bytesIn (cutDown offset fuel size remaining) ∧
        p.Enriched (cutDown offset fuel size remaining) p') ∧
          ∀ k ∈ pieces (cutDown offset fuel size remaining), (k.size : Int) ∣ k.offset)
      (p.Balks (cutDown offset fuel size remaining) remaining) := by
  -- an end that fits one size fits all smaller ones, so only the first piece can be misaligned
  induction fuel generalizing size with
  | zero => exact ⟨⟨rfl, .nil p⟩, fun k hk => absurd hk List.not_mem_nil⟩
  | succ fuel ih =>
    have hle : size ≤ SizeClass.largest := hblock.trans h.block.2.2
    by_cases hend : (size : Int) ∣ offset + remaining
    · refine (peelDown_enriches hoffset h hpow hle hend hloose).on_refusal ?_ fun _ _ => id
      intro rest p' hres
      refine ⟨hres, fun k hk => ?_⟩
      obtain ⟨cut, hcut, j, -, rfl⟩ := mem_pieces.mp hk
      exact Cut.dvd_piece (dvd_of_mem_cutDown hpow hend hcut)
    rw [peelDown, cutDown]
    split
    · rename_i hgo
      by_cases hfits : size ≤ remaining
      · exact (meets_bind ..).mpr ((peel_balks h ⟨hpow, hgo.2, hle⟩ hoffset hloose hblock hfits hend
          _).weaken (fun _ _ => False.elim) fun _ _ => id)
      · -- no piece of this size, so that the next one is the first to be tried
        have hless := Nat.lt_of_not_le hfits
        rw [peel_none hless, pure_bind, peeled, Nat.div_eq_of_lt hless, Nat.mod_eq_of_lt hless]
        refine (ih (hpow.half (SizeClass.one_lt_of_least_le hgo.2))
          ((Nat.div_le_self ..).trans hblock)).weaken ?_ fun _ _ => .skip
        rintro rest p' ⟨⟨hrest, henriched⟩, haligned⟩
        rw [bytesIn_cons, Nat.zero_mul, Nat.zero_add]
        exact ⟨⟨hrest, .cons (.none ..) henriched⟩, haligned⟩
    · exact ⟨⟨rfl, .nil p⟩, fun k hk => absurd hk List.not_mem_nil⟩

/-- A range that a pool is given is cut up, or nothing happens to it beyond the high end that the
roster has room for. -/
theorem returnChunk_tries [Host] (h : p.Sound spot loose) {offset : Int} (hoffset : 0 ≤ offset)
    (hloose : span offset n ⊆ loose) :
    (returnChunk offset n).Meets p
      (fun _ p' => (∃ q, p.Enriched (cuts p.blockSize offset n none) q ∧ p' =
        { q with leaked := q.leaked + (n - bytesIn (cuts p.blockSize offset n none)) }) ∧
          ∀ k ∈ chop p.blockSize offset n, (k.size : Int) ∣ k.offset)
      (p.Balks (cuts p.blockSize offset n none) n) := by
  by_cases hend : (p.blockSize : Int) ∣ offset + n
  · exact (splitChunk_enriches h hoffset (fun m hm => absurd hm (Option.not_mem_none m))
      (cuttable_end h.block hend) hloose).on_refusal
      (fun _ _ hres => ⟨hres, (chopped_chop h.block offset n).aligned hend⟩) fun _ _ => id
  rw [chop, cuts, largestCut_none]
  simp only [returnChunk, splitChunk, meets_bind, meets_ensure, hoffset, true_implies,
    not_true_eq_false, false_implies, and_true, meets_get, Option.getD_none, Nat.min_self]
  by_cases hfits : p.blockSize ≤ n
  · exact (peel_balks h h.block hoffset hloose (Nat.le_refl _) hfits hend _).weaken
      (fun _ _ => False.elim) fun _ _ => id
  · -- no block, so that half of one is the first size to be tried
    have hless := Nat.lt_of_not_le hfits
    rw [peel_none hless, meets_pure, peeled, Nat.div_eq_of_lt hless, Nat.mod_eq_of_lt hless]
    refine (peelDown_tries h hoffset (h.block.1.half h.block.one_lt) (Nat.div_le_self ..)
      hloose).weaken ?_ fun _ _ => .skip
    rintro _ q ⟨⟨rfl, henriched⟩, haligned⟩
    rw [bytesIn_cons, Nat.zero_mul, Nat.zero_add]
    exact (leak_rest_meets (.cons (.none ..) henriched)).imp fun _ _ hres => ⟨hres, haligned⟩

/-- How a pool stops that is given pieces of `n` bytes: the first of them is not aligned to its
size, and the pool is as it was; or its roster has no room for all of them, or the host none for the
roster, and the pool got some of them and gave up the rest of the bytes. -/
inductive Stops [Host] (p : Pool) (ks : List Piece) (n : Nat) : Fault → Pool → Prop
  | unaligned {k : Piece} {rest : List Piece} (first : ks = k :: rest)
      (misplaced : ¬ (k.size : Int) ∣ k.offset) :
      Stops p ks n (.violated (.pieceUnaligned k.offset k.size)) p
  | full {done rest : List Piece} {required lost : Nat} {p' : Pool} (some : ks = done ++ rest)
      (gained : p.Gained done lost p') (whole : (done.map Piece.size).sum + lost = n)
      (room : p.roster.capacity < p.roster.length + ks.length) :
      Stops p ks n (.refused (.outOfTableSpace required p.roster.capacity)) p'
  | host {done rest : List Piece} {lost : Nat} {p' : Pool} (why : HostError)
      (some : ks = done ++ rest) (gained : p.Gained done lost p')
      (whole : (done.map Piece.size).sum + lost = n) (mean : ¬ Host.Generous) :
      Stops p ks n (.refused (.growth why)) p'

theorem Short.stops [Host] {why : Refusal} (h : p.Short ks n why p')
    (hsizes : (ks.map Cut.size).Nodup)
    (hbytes : bytesIn ks ≤ n) : p.Stops (pieces ks) n (.refused why) p' := by
  have hcause := h.cause
  rw [← length_pieces] at hcause
  obtain @⟨done, rest, next, q, q', rfl, given, refused⟩ := h
  rw [List.map_append] at hsizes
  have hsum : bytesIn (done ++ next :: rest) = bytesIn done + bytesIn (next :: rest) := by
    simp [bytesIn]
  have hwhole : ((pieces done).map Piece.size).sum + (n - bytesIn done) = n := by
    rw [sum_pieces]
    omega
  have hleft : Unlisted { q with leaked := q.leaked + (n - bytesIn done) }
      (q.roster.length + next.count) why { q' with leaked := q'.leaked + (n - bytesIn done) } := by
    obtain ⟨r, rfl, hr⟩ := refused
    exact ⟨r, rfl, hr⟩
  have hgained := (given.gained hsizes.of_append_left (n - bytesIn done)).unlisted hleft
  rcases hcause with ⟨required, rfl, hroom⟩ | ⟨declined, rfl, mean⟩
  · exact .full (pieces_append ..) hgained hwhole hroom
  · exact .host declined (pieces_append ..) hgained hwhole mean

theorem Balks.stops [Host] {fault : Fault} (h : p.Balks ks n fault p')
    (hsizes : (ks.map Cut.size).Nodup)
    (hbytes : bytesIn ks ≤ n) : p.Stops (pieces ks) n fault p' := by
  cases fault with
  | refused why => exact Short.stops h hsizes hbytes
  | violated what =>
    obtain ⟨rfl, k, rest, hfirst, hk, rfl⟩ := h
    exact .unaligned hfirst hk
  | stuck => exact h.elim

theorem returnChunk_gains [Host] (h : p.Valid loose) {offset : Int} (hoffset : 0 ≤ offset)
    (hloose : span offset n ⊆ loose) :
    (returnChunk offset n).Meets p
      (fun _ p' => (∀ k ∈ chop p.blockSize offset n, (k.size : Int) ∣ k.offset) ∧
        p.Gained (chop p.blockSize offset n) (n % SizeClass.least) p')
      (p.Stops (chop p.blockSize offset n) n) := by
  obtain ⟨spot, h, -⟩ := h
  have hsizes := (@cuts_sizes p.blockSize offset n h.block).1
  refine (returnChunk_tries h hoffset hloose).weaken ?_ fun _ _ hbalks =>
    hbalks.stops hsizes (cuts_fill ..).le
  rintro _ _ ⟨⟨q, henriched, rfl⟩, haligned⟩
  rw [rest_cuts h.block]
  exact ⟨haligned, henriched.gained hsizes _⟩

/-- A range that ends at a block is always taken, if the roster has room and the host grants it. -/
theorem returnChunk_takes [Host] [Host.Generous] (h : p.Valid loose) {offset : Int}
    (hoffset : 0 ≤ offset)
    (hloose : span offset n ⊆ loose) (hend : (p.blockSize : Int) ∣ offset + n)
    (hroom : p.roster.length + (chop p.blockSize offset n).length ≤ p.roster.capacity) :
    (returnChunk offset n).Meets p
      (fun _ p' => p.Gained (chop p.blockSize offset n) (n % SizeClass.least) p') Never := by
  refine (returnChunk_gains h hoffset hloose).weaken (fun _ _ => And.right) ?_
  rintro _ _ (@⟨k, rest, hfirst, hk⟩ | @⟨done, rest, required, lost, _, hsome, -, -, hfull⟩ |
    @⟨done, rest, lost, _, why, -, -, -, mean⟩)
  · exact hk ((chopped_chop h.block offset n).aligned hend k (hfirst ▸ List.mem_cons_self))
  · exact Nat.not_le.mpr hfull hroom
  · exact mean ‹Host.Generous›

end Pool

namespace Estate

variable {config : PoolConfig} {e : Estate}

/-- A range above the origin that its user owns is cut into blocks and at most one piece of each
smaller size, and only what is too small for a slot is left over. The pool gets them all, or finds
the first one misaligned, which it never is where the range ends at a block, or has no room for all
of them in its roster, or is let down by the host. -/
theorem chunk_tiled [Host] (h : Attainable config e) {offset : Int} {n : Nat} (hoffset : 0 ≤ offset)
    (howned : span offset n ⊆ e.taken) {ks : List Piece}
    (hks : ks = chop e.pool.blockSize offset n) :
    Chopped e.pool.blockSize offset n ks ∧
    (Pool.returnChunk offset n).Meets e.pool
      (fun _ p' => (∀ k ∈ ks, (k.size : Int) ∣ k.offset) ∧
        e.pool.Gained ks (n % SizeClass.least) p') (e.pool.Stops ks n) ∧
    (Host.Generous → (e.pool.blockSize : Int) ∣ offset + n →
      e.pool.roster.length + ks.length ≤ e.pool.roster.capacity →
      (Pool.returnChunk offset n).Meets e.pool
        (fun _ p' => e.pool.Gained ks (n % SizeClass.least) p') Never) := by
  subst hks
  exact ⟨chopped_chop h.valid.block offset n, Pool.returnChunk_gains h.valid hoffset howned,
    fun _ => Pool.returnChunk_takes h.valid hoffset howned⟩

section

attribute [local instance] Host.plain

/-- A client that took two blocks from a new pool, and owns all but their first bytes. -/
theorem exists_taken : ∃ e, Attainable { blockSize := 256 } e ∧ span 36 476 ⊆ e.taken ∧
    e.pool.blockSize = 256 ∧ e.pool.roster.length = 0 ∧ 3 ≤ e.pool.roster.capacity ∧
    e.pool.leaked = 0 := by
  have hrun : ∃ p e, ((Pool.create { blockSize := 256 }).run ()).result = .ok p ∧
      e = (new p).next (.take 512) ∧ e.taken = ∅ ∪ span 0 512 ∧
      ((perform (.take 512)).run (new p)).result.isOk ∧ 512 % p.blockSize = 0 ∧
      e.pool.blockSize = 256 ∧ e.pool.roster.length = 0 ∧ 3 ≤ e.pool.roster.capacity ∧
      e.pool.leaked = 0 := by
    refine ⟨_, _, rfl, rfl, by with_unfolding_all rfl, ?_⟩
    decide +kernel
  obtain ⟨p, e, hp, he, htaken, hok, hdvd, hpool⟩ := hrun
  refine ⟨e, he ▸ .step (.opened hp) (Nat.dvd_of_mod_eq_zero hdvd) (survives_of_ok hok), ?_, hpool⟩
  rw [htaken, empty_union]
  exact span_subset_span (by decide) (by decide)

/-- A range that begins inside a block. -/
theorem chunk_tiled_of_taken : ∃ e p' events, Attainable { blockSize := 256 } e ∧
    (Pool.returnChunk 36 476).run e.pool = ⟨.ok (), p', events⟩ ∧ p'.leaked = 28 ∧
    (List.range' 0 3).map p'.pieceOf = [⟨256, 256⟩, ⟨128, 128⟩, ⟨64, 64⟩] ∧
    Tile 64 512 [⟨256, 256⟩, ⟨128, 128⟩, ⟨64, 64⟩] := by
  obtain ⟨e, hattainable, howned, hblock, hlength, hcapacity, hleaked⟩ := exists_taken
  have hks : [⟨256, 256⟩, ⟨128, 128⟩, ⟨64, 64⟩] = chop e.pool.blockSize 36 476 := by
    rw [hblock]
    decide
  obtain ⟨hchopped, -, hgains⟩ := chunk_tiled hattainable (by decide) howned hks
  obtain ⟨_, p', events, hgiven, hgained⟩ := (hgains inferInstance (by rw [hblock]; decide)
    (by rw [hlength]; exact hcapacity)).exists_ok
  have hleaked' := hgained.leaked
  have hmade := hgained.made
  rw [hleaked] at hleaked'
  rw [hlength] at hmade
  exact ⟨_, p', events, hattainable, hgiven, hleaked', hmade, hchopped.tile⟩

end

end Estate

end SlotArena
