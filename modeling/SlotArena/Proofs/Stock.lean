import SlotArena.Proofs.Splitting

/-!
Free slots in order. A pool is `Stocked` with lists of records, one for each size class, that come
off its chains in this order; a pool between two operations always is, and the lists are its own
(`Sound.exists_stocked`, `Sound.mem_stock`). Here the operations that put records on a shelf are
followed to the last record: a run goes on top and comes off in ascending order, and while nothing
but slots changes hands the pool stays `Sealed`.
-/

namespace SlotArena

open Act

structure Piece where
  offset : Int
  size : Nat
  deriving DecidableEq, Repr

structure Cut where
  offset : Int
  size : Nat
  count : Nat
  deriving DecidableEq, Repr

def Cut.piece (k : Cut) (j : Nat) : Piece := ⟨k.offset + (j * k.size : Nat), k.size⟩

namespace Pool

def pieceOf (p : Pool) (i : Nat) : Piece := ⟨(p.roster.record i).offset, (p.roster.record i).size⟩

/-- The free slots of each class, in the order in which they come off. -/
def Stocked (p : Pool) (stock : SizeClass → List Nat) : Prop :=
  ∀ c, Chain.Threads p.roster.link (p.bucket c).free.head (stock c)

/-- Nothing came into the pool and nothing left it but slots. -/
structure Sealed (p p' : Pool) : Prop where
  arena : p'.arena = p.arena
  leaked : p'.leaked = p.leaked
  carve : ∀ c, (p'.bucket c).carve = (p.bucket c).carve
  backFree : p'.backFree = p.backFree
  blockSize : p'.blockSize = p.blockSize
  capacity : p'.roster.capacity = p.roster.capacity

variable {p p' q : Pool} {spot : Nat → Spot} {loose : Finset Int} {stock : SizeClass → List Nat}
  {c : SizeClass} {i first count : Nat} {r : Roster}

theorem Sealed.refl (p : Pool) : p.Sealed p := ⟨rfl, rfl, fun _ => rfl, rfl, rfl, rfl⟩

theorem Sealed.trans (h : p.Sealed q) (h' : q.Sealed p') : p.Sealed p' where
  arena := h'.arena.trans h.arena
  leaked := h'.leaked.trans h.leaked
  carve c := (h'.carve c).trans (h.carve c)
  backFree := h'.backFree.trans h.backFree
  blockSize := h'.blockSize.trans h.blockSize
  capacity := h'.capacity.trans h.capacity

theorem sealed_withChain (p : Pool) (hr : r.capacity = p.roster.capacity) (ch : Chain)
    (c : SizeClass) : p.Sealed (({ p with roster := r } : Pool).withChain ch (.front c)) where
  arena := withChain_arena ..
  leaked := withChain_leaked ..
  carve := carve_withChain _ _ _
  backFree := rfl
  blockSize := withChain_blockSize ..
  capacity := by rw [withChain_roster, hr]

/-! ### What is in stock -/

theorem Sound.exists_stocked (h : p.Sound spot loose) : ∃ stock, p.Stocked stock := by
  choose listed hthreads hmem using h.chained
  exact ⟨fun c => listed (.front c), fun c => hthreads (.front c)⟩

theorem Stocked.unique (hs : p.Stocked stock) {stock' : SizeClass → List Nat}
    (hs' : p.Stocked stock') : stock = stock' :=
  funext fun c => (hs c).unique (hs' c)

theorem Sound.mem_stock (h : p.Sound spot loose) (hs : p.Stocked stock) :
    i ∈ stock c ↔ spot i = .shelf (.front c) := by
  obtain ⟨listed, hthreads, hmem⟩ := h.chained (.front c)
  rw [(hs c).unique hthreads]
  exact hmem i

theorem Sound.stock_lt (h : p.Sound spot loose) (hs : p.Stocked stock) (hi : i ∈ stock c) :
    i < p.roster.length := by
  refine h.born fun hunborn => ?_
  exact Spot.noConfusion (hunborn.symm.trans ((h.mem_stock hs).mp hi))

theorem Stocked.isEmpty_iff (hs : p.Stocked stock) : (p.bucket c).free.IsEmpty ↔ stock c = [] := by
  have hc := hs c
  cases hlist : stock c with
  | nil =>
    rw [hlist] at hc
    exact iff_of_true hc rfl
  | cons i rest =>
    rw [hlist] at hc
    exact iff_of_false (fun hempty => hc.2.1 (hc.1.symm.trans hempty)) (List.cons_ne_nil i rest)

/-- Link words and chains that are as they were where the stock is. -/
theorem Stocked.congr (hs : p.Stocked stock)
    (hlink : ∀ c, ∀ i ∈ stock c, p'.roster.link i = p.roster.link i)
    (hfree : ∀ c, (p'.bucket c).free = (p.bucket c).free) : p'.Stocked stock := fun c => by
  rw [hfree c]
  exact (hs c).congr (hlink c)

theorem Stocked.withChain (hs : p.Stocked stock) {ch : Chain} {records : List Nat}
    (hch : Chain.Threads p.roster.link ch.head records) :
    (p.withChain ch (.front c)).Stocked (Function.update stock c records) := fun d => by
  have hchain := chain_withChain p ch (.front c) (.front d)
  simp only [chain, Shelf.front.injEq] at hchain
  rw [withChain_roster, hchain]
  by_cases hd : d = c
  · subst hd
    rw [if_pos rfl, Function.update_self]
    exact hch
  · rw [if_neg hd, Function.update_of_ne hd]
    exact hs d

/-! ### Off the top -/

theorem popFree_stock (h : p.Sound spot loose) (hs : p.Stocked stock) {rest : List Nat}
    (hc : stock c = i :: rest) :
    (popFree c).Meets p
      (fun answer p' => answer = some i ∧
        ∃ ch, p' = p.withChain ch (.front c) ∧
          p'.Stocked (Function.update stock c rest)) Never := by
  have hthreads := hs c
  rw [hc] at hthreads
  have hne : ¬ (p.bucket c).free.IsEmpty := fun hempty =>
    hthreads.2.1 (hthreads.1.symm.trans hempty)
  have hknown : ∀ j ∈ i :: rest, LawfulLinks.knows (LawfulLinks.rest p.roster) j := fun j hj =>
    decide_eq_true (h.roster.lt_stop (h.stock_lt hs (hc ▸ hj)))
  simp only [popFree, meets_bind, meets_get, meets_ite, hne, false_implies, true_and,
    not_false_eq_true, true_implies]
  refine (onRoster_meets (Chain.pop_meets p.roster (p.bucket c).free hthreads hknown)).imp ?_
  rintro ⟨top, ch⟩ _ ⟨r, rfl, rfl, htop, hch⟩
  exact ⟨htop, ch, rfl, hs.withChain hch⟩

/-! ### On top -/

def pushed (p : Pool) (c : SizeClass) (first : Nat) (r : Roster) : Pool :=
  ({ p with roster := r } : Pool).withChain ((p.bucket c).free.moveTo first) (.front c)

theorem push_links (ch : Chain) (htakes : Chain.Takes (LawfulLinks.rest r) first count) :
    (ch.push first count).Meets r
      (fun ch' r' => ch' = ch.moveTo first ∧ Chain.Linked r r' ch.head first count) Never :=
  (Chain.push_meets r ch first count).weaken (fun _ _ hres => hres.2) fun _ _ hres => hres.1 htakes

theorem pushFree_pushed (c : SizeClass)
    (htakes : Chain.Takes (LawfulLinks.rest p.roster) first count) :
    (pushFree c first count).Meets p
      (fun _ p' => ∃ r, Chain.Linked p.roster r (p.bucket c).free.head first count ∧
        p' = p.pushed c first r) Never := by
  simp only [pushFree, meets_bind, meets_get]
  refine (onRoster_meets (push_links (p.bucket c).free htakes)).imp ?_
  rintro _ _ ⟨r, rfl, rfl, hlinked⟩
  exact ⟨r, hlinked, rfl⟩

/-- A run of records that no list holds comes off first, in ascending order. -/
theorem Stocked.pushed (hs : p.Stocked stock)
    (htakes : Chain.Takes (LawfulLinks.rest p.roster) first count)
    (hlinked : Chain.Linked p.roster r (p.bucket c).free.head first count)
    (happart : ∀ d, ∀ i ∈ stock d, i ∉ List.range' first count) :
    (p.pushed c first r).Stocked
      (Function.update stock c (List.range' first count ++ stock c)) := by
  have hold : ({ p with roster := r } : Pool).Stocked stock :=
    hs.congr (fun d i hi => hlinked.rethreaded.kept i (happart d i hi)) fun _ => rfl
  exact hold.withChain (hlinked.threads htakes (hs c) (happart c))

theorem pushed_roster (p : Pool) (c : SizeClass) (first : Nat) (r : Roster) :
    (p.pushed c first r).roster = r := withChain_roster ..

theorem piece_pushed (hlinked : Chain.Linked p.roster r (p.bucket c).free.head first count) :
    (p.pushed c first r).roster.capacity = p.roster.capacity ∧
      (p.pushed c first r).roster.length = p.roster.length ∧
      (∀ i, i ∉ List.range' first count →
        (p.pushed c first r).roster.record i = p.roster.record i) ∧
      ∀ i, (p.pushed c first r).pieceOf i = p.pieceOf i := by
  have hrelinked := Roster.relinked_of hlinked.rethreaded
  simp only [pieceOf, pushed_roster]
  refine ⟨hrelinked.capacity, hrelinked.length, fun i hi => hrelinked.kept i hi, fun i => ?_⟩
  rw [hrelinked.offset, hrelinked.size]

/-! ### Pieces that are given to a pool -/

/-- The pieces of a cut are on top of the shelf of their size, in new records, lowest first. -/
structure Stacked (p : Pool) (k : Cut) (p' : Pool) : Prop extends Sealed p p' where
  live : p'.live = p.live
  length : p'.roster.length = p.roster.length + k.count
  kept : ∀ i < p.roster.length, p'.roster.record i = p.roster.record i
  piece : ∀ j < k.count, p'.pieceOf (p.roster.length + j) = k.piece j
  stock : ∀ stock, p.Stocked stock → p'.Stocked fun c =>
    if c.bytes = k.size then List.range' p.roster.length k.count ++ stock c else stock c

theorem Stacked.none (p : Pool) (offset : Int) (size : Nat) : p.Stacked ⟨offset, size, 0⟩ p where
  toSealed := .refl p
  live := rfl
  length := rfl
  kept _ _ := rfl
  piece j hj := absurd hj (Nat.not_lt_zero j)
  stock stock hs := by
    simpa using hs

theorem stock_of_size (stock : SizeClass → List Nat) (c : SizeClass) (records : List Nat) :
    (fun d : SizeClass => if d.bytes = c.bytes then records ++ stock d else stock d) =
      Function.update stock c (records ++ stock c) := by
  funext d
  by_cases hd : d = c
  · subst hd
    rw [if_pos rfl, Function.update_self]
  · rw [if_neg fun hbytes => hd (SizeClass.bytes_injective hbytes), Function.update_of_ne hd]

/-- Pieces go to the shelf of their size, unless the roster refuses the records. -/
theorem returnBlocks_stacks [Host] (h : p.Sound spot loose) {offset : Int} {size count : Nat}
    (hsize : SizeClass.IsSize size) (hoffset : 0 ≤ offset)
    (hdvd : ((min size p.blockSize : Nat) : Int) ∣ offset)
    (hloose : Ledger.span offset (count * size) ⊆ loose) :
    (returnBlocks offset count size).Meets p (fun _ p' => p.Stacked ⟨offset, size, count⟩ p')
      (refusing (p.Unlisted (p.roster.length + count))) := by
  simp only [returnBlocks, meets_bind, meets_ite, meets_pure, meets_get, meets_ensure_refusing]
  refine ⟨?_, fun hcount => ⟨hsize, ⟨hoffset, ?_⟩, ?_⟩⟩
  · rintro rfl
    exact .none ..
  · rwa [← Int.natCast_dvd_natCast, Int.toNat_of_nonneg hoffset]
  have hbounds := fun i hi => h.piece_bounds (i := i) hoffset hsize.pos hloose hi
  have hlength := h.length_le
  have hlast := hbounds (count - 1) (by omega)
  have hleast : (count - 1) * SizeClass.least ≤ (count - 1) * size :=
    Nat.mul_le_mul_left _ hsize.2.1
  simp only [SizeClass.least, SizeClass.leastLog2] at hleast
  obtain ⟨c, rfl⟩ := hsize.exists_bytes
  simp only [onRoster, meets_focus_refusing]
  refine (Roster.add_meets h.roster (by omega) (by simp only [word32]; omega)).mono ?_ ?_
  · rintro _ r ⟨rfl, hr⟩
    apply (assignRun_edits hr hoffset c.bytes_pos hbounds).sure
    rintro _ _ ⟨r', rfl, hedited, hset⟩
    have hlist := hr.enlistedRun hedited hset
    apply (SizeClass.holding_bytes_meets c).sure
    rintro d _ ⟨rfl, hd⟩
    rw [hd]
    have htakes := hlist.sound.takes (Nat.pos_of_ne_zero hcount) (Nat.le_of_eq hlist.length.symm)
    apply (pushFree_pushed (p := { p with roster := r' }) c htakes).sure
    rintro _ p' ⟨r'', hlinked, rfl⟩
    obtain ⟨hcapacity, hlength', hkept, hpiece⟩ := piece_pushed hlinked
    exact {
      toSealed := sealed_withChain _ (hcapacity.trans (hedited.capacity.trans hr.capacity)) _ c
      live := withChain_live ..
      length := hlength'.trans hlist.length
      kept := fun i hi => by
        rw [hkept i fun hmem => ?_]
        · exact hlist.kept i hi
        · exact absurd (List.mem_range'_1.mp hmem).1 (Nat.not_le.mpr hi)
      piece := fun j hj => by
        rw [hpiece, pieceOf, hlist.new_offset j hj, hlist.new_size j hj]
        rfl
      stock := fun stock hs => by
        have hs' : ({ p with roster := r' } : Pool).Stocked stock :=
          hs.congr (fun d i hi => congrArg Record.next (hlist.kept i (h.stock_lt hs hi)))
            fun _ => rfl
        rw [stock_of_size]
        refine hs'.pushed htakes hlinked fun d i hi hmem => ?_
        have hlt := h.stock_lt hs hi
        have hge := (List.mem_range'_1.mp hmem).1
        omega }
  · exact fun why r hrefused => ⟨r, rfl, hrefused⟩

end Pool

end SlotArena
