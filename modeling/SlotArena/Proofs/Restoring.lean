import SlotArena.Proofs.Reuse
import SlotArena.Proofs.Tiling

/-!
A range that a pool was given, taken out again. Its pieces lie on top of the shelves of their sizes,
above whatever was there, and `Offers` says which of them are still there. A request for one of
these sizes takes the piece on top (`Offers.alloc`), so that as many requests as there are pieces of
each size, whatever their order, get just these pieces (`Offers.run`).

Main statement: the pool is left as if it had never been given the range, but for the records of the
pieces, and the blocks come out in ascending order (`chunk_restored`).
-/

namespace SlotArena

open Act Finset Ledger

def Slot.piece (slot : Slot) : Piece := ⟨slot.offset, slot.size⟩

theorem perm_of_filter_eq {ks ls : List Piece}
    (hks : ∀ k ∈ ks, SizeClass.IsSize k.size) (hls : ∀ k ∈ ls, SizeClass.IsSize k.size)
    (h : ∀ c : SizeClass, ks.filter (fun k => k.size = c.bytes) =
      ls.filter fun k => k.size = c.bytes) : ks.Perm ls := by
  rw [List.perm_iff_count]
  intro k
  by_cases hsize : SizeClass.IsSize k.size
  · obtain ⟨c, hc⟩ := hsize.exists_bytes
    have hof : ∀ l : List Piece, (l.filter fun k => k.size = c.bytes).count k = l.count k :=
      fun l => List.count_filter (decide_eq_true hc.symm)
    have hcount := congrArg (List.count k) (h c)
    rwa [hof, hof] at hcount
  · rw [List.count_eq_zero_of_not_mem fun hk => hsize (hks k hk),
      List.count_eq_zero_of_not_mem fun hk => hsize (hls k hk)]

theorem count_sizes (ks : List Piece) (size : Nat) :
    (ks.map Piece.size).count size = (ks.filter fun k => k.size = size).length := by
  rw [List.count_eq_countP, List.countP_map, List.countP_eq_length_filter]
  rfl

/-- The blocks of a range, lowest first. -/
theorem blocks_chop {bs : Nat} (hbs : SizeClass.IsSize bs) (offset : Int) (n : Nat) :
    ((chop bs offset n).filter fun k => k.size = bs).map Piece.offset =
      ascending (offset + (n % bs : Nat)) bs (n / bs) := by
  have hlarge : (cuts bs offset n none).filter (fun k => k.size = bs) = [peeled offset n bs] :=
    filter_size_eq (cuts_sizes hbs).1 (List.mem_cons_self ..)
  rw [chop, filter_pieces, hlarge, pieces_cons, List.map_append, List.map_map]
  exact List.append_nil _

namespace Pool

variable {p p' q : Pool} {loose : Finset Int} {due : SizeClass → List Piece}
  {stock : SizeClass → List Nat} {c : SizeClass} {k : Piece} {rest ks : List Piece} {lost : Nat}

/-- On top of each shelf, above what is in `stock`, are the pieces that are due. -/
structure Offers (p : Pool) (loose : Finset Int) (due : SizeClass → List Piece)
    (stock : SizeClass → List Nat) : Prop where
  valid : p.Valid loose
  small : ∀ c, due c ≠ [] → c.bytes ≤ p.blockSize
  top : ∃ top : SizeClass → List Nat, p.Stocked (fun c => top c ++ stock c) ∧
    ∀ c, (top c).map p.pieceOf = due c

theorem Gained.offers (h : p.Gained ks lost p') (hvalid : p'.Valid loose) (hs : p.Stocked stock)
    (hsmall : ∀ k ∈ ks, k.size ≤ p.blockSize) :
    p'.Offers loose (fun c => ks.filter fun k => k.size = c.bytes) stock where
  valid := hvalid
  small c hne := by
    obtain ⟨k, hk⟩ := List.exists_mem_of_ne_nil _ hne
    obtain ⟨hk, hsize⟩ := List.mem_filter.mp hk
    rw [h.blockSize, ← of_decide_eq_true hsize]
    exact hsmall k hk
  top := by
    refine ⟨_, h.stocked stock hs, fun c => ?_⟩
    conv_rhs => rw [← h.made, List.filter_map]
    rfl

/-- A request for a piece that is due takes the one on top. -/
theorem Offers.alloc [Host] (h : p.Offers loose due stock) (hdue : due c = k :: rest) {align : Nat}
    (halign : PowerOfTwo align ∧ align ≤ c.bytes) :
    (alloc c.bytes align).Meets p
      (fun slot p' => slot.piece = k ∧ k.size = c.bytes ∧ p.Sealed p' ∧
        p'.roster.length = p.roster.length ∧
        p'.Offers loose (Function.update due c rest) stock) Never := by
  obtain ⟨top, hs, htop⟩ := h.top
  obtain ⟨i, own, hown, hi, hrest⟩ : ∃ i own, top c = i :: own ∧ p.pieceOf i = k ∧
      own.map p.pieceOf = rest := by
    have hc := htop c
    rw [hdue] at hc
    exact List.map_eq_cons_iff.mp hc
  have hshelf : top c ++ stock c = i :: (own ++ stock c) := by rw [hown, List.cons_append]
  obtain ⟨hne, hhead⟩ := hs.head_eq hshelf
  obtain ⟨haccepts, hserved⟩ := accepts_bytes (h.small c (hdue ▸ List.cons_ne_nil k rest)) halign
  refine (alloc_takes h.valid c.bytes_pos haccepts hserved hne).imp ?_
  rintro slot p' ⟨hvalid, hsupplied⟩
  obtain rfl : slot.idx = i := hsupplied.idx.trans hhead
  have hk : slot.piece = k ∧ k.size = c.bytes := by
    rw [← hi, hsupplied.chunk_eq, Slot.piece, hsupplied.size]
    exact ⟨rfl, rfl⟩
  have hlength : p'.roster.length = p.roster.length := hsupplied.length
  obtain ⟨spot, hsound, -⟩ := h.valid
  -- the record of the slot keeps its size, so the pieces on the other shelves stay due as they were
  have hpiece : ∀ d, ∀ j ∈ top d, p'.pieceOf j = p.pieceOf j := fun d j hj =>
    hsupplied.pieceOf_own (hsound.stock_lt hs (List.mem_append_left _ hj))
  refine ⟨hk.1, hk.2, hsupplied.toSealed, hlength, ?_⟩
  exact {
    valid := hvalid
    small := fun d hd => by
      rw [hsupplied.blockSize]
      refine h.small d fun hnil => hd ?_
      by_cases hdc : d = c
      · subst hdc
        exact absurd (hdue.symm.trans hnil) (List.cons_ne_nil k rest)
      · rw [Function.update_of_ne hdc, hnil]
    top := by
      have hstocked := hsupplied.stocked_own hs
      simp only [hshelf, List.tail_cons] at hstocked
      refine ⟨Function.update top c own, fun d => ?_, fun d => ?_⟩
      · have hd := hstocked d
        rwa [← Function.apply_update (fun d records => records ++ stock d) top c own d] at hd
      · by_cases hdc : d = c
        · subst hdc
          rw [Function.update_self, Function.update_self, ← hrest]
          exact List.map_congr_left fun j hj => hpiece d j (hown ▸ List.mem_cons_of_mem _ hj)
        · rw [Function.update_of_ne hdc, Function.update_of_ne hdc, ← htop d]
          exact List.map_congr_left (hpiece d) }

/-- Requests that ask for each piece that is due get just these. -/
theorem Offers.run [Host] {requests : List (Nat × Nat)} (h : p.Offers loose due stock)
    (hrequests : ∀ r ∈ requests, SizeClass.IsSize r.1 ∧ PowerOfTwo r.2 ∧ r.2 ≤ r.1)
    (hcount : ∀ c : SizeClass, (requests.map Prod.fst).count c.bytes = (due c).length) :
    (requests.mapM fun r => Pool.alloc r.1 r.2).Meets p
      (fun slots p' => slots.map Slot.size = requests.map Prod.fst ∧
        (∀ c : SizeClass, (slots.map Slot.piece).filter (fun k => k.size = c.bytes) = due c) ∧
        p.Sealed p' ∧ p'.roster.length = p.roster.length ∧ p'.Stocked stock) Never := by
  -- each request takes a piece off `due`; nothing is due any more when all are served
  induction requests generalizing p due with
  | nil =>
    have hnone : ∀ c, due c = [] := fun c => List.eq_nil_of_length_eq_zero (hcount c).symm
    obtain ⟨top, hs, htop⟩ := h.top
    have hempty : ∀ c, top c = [] := fun c => List.map_eq_nil_iff.mp ((htop c).trans (hnone c))
    simp only [hempty, List.nil_append] at hs
    rw [List.mapM_nil, meets_pure]
    exact ⟨rfl, fun c => (hnone c).symm, .refl p, rfl, hs⟩
  | cons r requests ih =>
    obtain ⟨size, align⟩ := r
    obtain ⟨⟨hsize, halign⟩, hlater⟩ := List.forall_mem_cons.mp hrequests
    obtain ⟨c, rfl⟩ := hsize.exists_bytes
    have hlength : (due c).length = (requests.map Prod.fst).count c.bytes + 1 := by
      rw [← hcount c, List.map_cons, List.count_cons_self]
    obtain ⟨k, rest, hdue⟩ := List.exists_cons_of_length_eq_add_one hlength
    rw [List.mapM_cons]
    refine (h.alloc hdue halign).bind_sure ?_
    rintro slot q ⟨hslot, hk, hsealed, hkept, hoffers⟩
    refine (ih hoffers hlater fun d => ?_).bind_sure ?_
    · have hd := hcount d
      rw [List.map_cons] at hd
      by_cases hdc : d = c
      · subst hdc
        rw [Function.update_self]
        rw [hdue, List.count_cons_self, List.length_cons] at hd
        exact Nat.succ.inj hd
      · have hne : c.bytes ≠ d.bytes := fun hbytes => hdc (SizeClass.bytes_injective hbytes.symm)
        rw [Function.update_of_ne hdc, ← hd, List.count_cons_of_ne hne]
    · rintro slots p' ⟨hsizes, hpieces, hsealed', hkept', hs⟩
      rw [meets_pure]
      refine ⟨?_, fun d => ?_, hsealed.trans hsealed', hkept'.trans hkept, hs⟩
      · have hown : slot.size = c.bytes := (congrArg Piece.size hslot).trans hk
        rw [List.map_cons, List.map_cons, hsizes, hown]
      · have hd := hpieces d
        rw [List.map_cons, hslot, List.filter_cons]
        by_cases hdc : d = c
        · subst hdc
          rw [Function.update_self] at hd
          rw [if_pos (decide_eq_true hk), hd, hdue]
        · have hne : k.size ≠ d.bytes := fun hbytes =>
            hdc (SizeClass.bytes_injective (hbytes.symm.trans hk))
          rw [Function.update_of_ne hdc] at hd
          rw [if_neg (by simpa using hne), hd]

end Pool

namespace Estate

variable {config : PoolConfig} {e : Estate}

/-- A range that a pool is given comes out again piece by piece, whatever was on the shelves before,
if each piece is asked for by its size, in any order, and the host grants the records: no other
memory is touched, and the blocks come in ascending order. -/
theorem chunk_restored [Host] [Host.Generous] (h : Attainable config e) {offset : Int} {n : Nat}
    (hoffset : 0 ≤ offset)
    (howned : span offset n ⊆ e.taken) (hend : (e.pool.blockSize : Int) ∣ offset + n)
    {ks : List Piece} (hks : ks = chop e.pool.blockSize offset n)
    (hroom : e.pool.roster.length + ks.length ≤ e.pool.roster.capacity)
    {requests : List (Nat × Nat)}
    (hrequests : (requests.map Prod.fst).Perm (ks.map Piece.size))
    (haligns : ∀ r ∈ requests, PowerOfTwo r.2 ∧ r.2 ≤ r.1) :
    (Pool.returnChunk offset n).Meets e.pool
      (fun _ q => (requests.mapM fun r => Pool.alloc r.1 r.2).Meets q
        (fun slots p' =>
          slots.map Slot.size = requests.map Prod.fst ∧
          (slots.map Slot.piece).Perm ks ∧
          (slots.filter fun slot => slot.size = e.pool.blockSize).map Slot.offset =
            ascending (offset + (n % e.pool.blockSize : Nat)) e.pool.blockSize
              (n / e.pool.blockSize) ∧
          q.Sealed p' ∧ p'.roster.length = q.roster.length ∧
          ∀ stock, e.pool.Stocked stock → p'.Stocked stock) Never) Never := by
  subst hks
  have hvalid := h.valid
  have hchopped := chopped_chop hvalid.block offset n
  refine ((Pool.returnChunk_meets hvalid hoffset hend howned).and_answers
    (Pool.returnChunk_takes hvalid hoffset howned hend hroom)).imp ?_
  rintro _ q ⟨⟨hq, -⟩, hgained⟩
  obtain ⟨stock, hs⟩ : ∃ stock, e.pool.Stocked stock := by
    obtain ⟨spot, hsound, -⟩ := hvalid
    exact hsound.exists_stocked
  have hoffers := hgained.offers hq hs fun k hk => (hchopped.sizes k hk).2
  have hsizes : ∀ r ∈ requests, SizeClass.IsSize r.1 := fun r hr => by
    obtain ⟨k, hk, hsize⟩ := List.mem_map.mp (hrequests.subset (List.mem_map_of_mem hr))
    exact hsize ▸ (hchopped.sizes k hk).1
  refine (hoffers.run (fun r hr => ⟨hsizes r hr, haligns r hr⟩) fun c => ?_).imp ?_
  · rw [hrequests.count_eq, count_sizes]
  rintro slots p' ⟨hasked, hpieces, hsealed, hlength, hstock⟩
  refine ⟨hasked, perm_of_filter_eq (fun k hk => ?_) (fun k hk => (hchopped.sizes k hk).1) hpieces,
    ?_, hsealed, hlength, fun stock' hs' => ?_⟩
  · obtain ⟨slot, hslot, rfl⟩ := List.mem_map.mp hk
    have hmem : slot.size ∈ requests.map Prod.fst := hasked ▸ List.mem_map_of_mem hslot
    obtain ⟨r, hr, hsize⟩ := List.mem_map.mp hmem
    rw [Slot.piece, ← hsize]
    exact hsizes r hr
  · obtain ⟨c, hc⟩ := hvalid.block.exists_bytes
    have hblocks := congrArg (List.map Piece.offset) (hpieces c)
    rw [hc, blocks_chop hvalid.block, List.filter_map, List.map_map] at hblocks
    exact hblocks
  · obtain rfl := hs.unique hs'
    exact hstock

section

attribute [local instance] Host.plain

/-- A range that begins inside a block, its smallest piece first. -/
theorem chunk_restored_of_taken : ∃ e q slots p' given served,
    Attainable { blockSize := 256 } e ∧
    (Pool.returnChunk 36 476).run e.pool = ⟨.ok (), q, given⟩ ∧
    ([(64, 1), (256, 64), (128, 128)].mapM fun r => Pool.alloc r.1 r.2).run q =
      ⟨.ok slots, p', served⟩ ∧
    (slots.map Slot.piece).Perm [⟨256, 256⟩, ⟨128, 128⟩, ⟨64, 64⟩] ∧ q.Sealed p' := by
  obtain ⟨e, hattainable, howned, hblock, hlength, hcapacity, -⟩ := exists_taken
  have hks : [⟨256, 256⟩, ⟨128, 128⟩, ⟨64, 64⟩] = chop e.pool.blockSize 36 476 := by
    rw [hblock]
    decide
  obtain ⟨_, q, given, hgiven, hserves⟩ := (@chunk_restored _ _ _ _ hattainable _ _ (by decide)
    howned (by rw [hblock]; decide) _ hks (by rw [hlength]; exact hcapacity)
    [(64, 1), (256, 64), (128, 128)] (by decide) (by decide)).exists_ok
  obtain ⟨slots, p', served, hserved, -, hpieces, -, hsealed, -⟩ := hserves.exists_ok
  exact ⟨e, q, slots, p', given, served, hattainable, hgiven, hserved, hpieces, hsealed⟩

end

end Estate

end SlotArena
