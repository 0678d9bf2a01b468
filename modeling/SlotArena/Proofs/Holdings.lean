import SlotArena.Proofs.Steps

/-!
What holds of an estate at every point of every run. No two live records share a byte, and each of
them has one user (`live_records_apart`). All bytes that were ever claimed can be accounted for
(`bytes_accounted`). And every record is at one place, either live or on the one chain that it fits
(`records_placed`).
-/

namespace SlotArena

open Act Finset Ledger

namespace Pool

variable {p : Pool} {loose : Finset Int}

/-- The claimed bytes are those of the records, those left to carve, those given up and those that
the rest of the world holds. -/
theorem Valid.balance (h : p.Valid loose) :
    p.arena.frontUsed + p.arena.backUsed =
      ∑ i ∈ range p.roster.length, (p.roster.record i).size +
        ∑ c, (p.bucket c).carve.remaining + p.leaked + loose.card := by
  obtain ⟨spot, h, -⟩ := h
  have hfront : p.arena.frontUsed = p.arena.front.next := min_eq_left (h.arena.next_le .front)
  have hback : p.arena.backUsed = p.arena.back.next := min_eq_left (h.arena.next_le .back)
  have hrecorded : (p.ledger loose).recorded =
      ∑ i ∈ range p.roster.length, (p.roster.record i).size :=
    sum_congr rfl fun i hi => if_pos (mem_range.mp hi)
  have hbalance := h.ledger.balance
  rw [hrecorded] at hbalance
  rw [hfront, hback]
  exact hbalance.symm

theorem Valid.carve_le (h : p.Valid loose) (c : SizeClass) :
    (p.bucket c).carve.next ≤ (p.bucket c).carve.stop := by
  obtain ⟨spot, h, -⟩ := h
  exact h.ledger.carve_le c

/-- Every record is live or free, and the free ones are on the chains of their shelves. -/
theorem Sound.placed {spot : Nat → Spot} (h : p.Sound spot loose) (hhand : ∀ i, spot i ≠ .hand)
    {free : SizeClass → List Nat} {back : List Nat}
    (hfree : ∀ c i, i ∈ free c ↔ spot i = .shelf (.front c)) (hfree' : ∀ c, (free c).Nodup)
    (hback : ∀ i, i ∈ back ↔ spot i = .shelf .back) (hback' : back.Nodup) :
    (p.live.toList ++ (List.finRange classCount).flatMap free ++ back).Perm
      (List.range p.roster.length) := by
  have hlive : ∀ i, i ∈ p.live.toList ↔ spot i = .live := fun i => by
    rw [Std.TreeSet.mem_toList, h.live]
  have hfront : ∀ i, i ∈ (List.finRange classCount).flatMap free ↔
      ∃ c, spot i = .shelf (.front c) := fun i => by
    simp only [List.mem_flatMap, List.mem_finRange, true_and, hfree]
  have hfront' : ((List.finRange classCount).flatMap free).Nodup := by
    refine List.nodup_flatMap.mpr ⟨fun c _ => hfree' c, ?_⟩
    refine (List.nodup_finRange classCount).imp fun {c d} hne i hi hi' => hne ?_
    have hsame := ((hfree c i).mp hi).symm.trans ((hfree d i).mp hi')
    exact Shelf.front.inj (Spot.shelf.inj hsame)
  refine (List.perm_ext_iff_of_nodup ?_ List.nodup_range).mpr fun i => ?_
  · refine List.nodup_append.mpr ⟨List.nodup_append.mpr ⟨nodup_toList _, hfront', ?_⟩, hback', ?_⟩
    · rintro i hi _ hi' rfl
      obtain ⟨c, hc⟩ := (hfront i).mp hi'
      exact Spot.noConfusion (((hlive i).mp hi).symm.trans hc)
    · rintro i hi _ hi' rfl
      have hspot := (hback i).mp hi'
      rcases List.mem_append.mp hi with hi | hi
      · exact Spot.noConfusion (((hlive i).mp hi).symm.trans hspot)
      · obtain ⟨c, hc⟩ := (hfront i).mp hi
        exact Shelf.noConfusion (Spot.shelf.inj (hc.symm.trans hspot))
  · have hunborn := h.unborn i
    rw [List.mem_append, List.mem_append, hlive, hfront, hback, List.mem_range, ← not_le, ← hunborn]
    rcases hspot : spot i with _ | _ | _ | (c | _)
    · simp
    · exact absurd hspot (hhand i)
    · simp
    · simp
    · simp

end Pool

namespace Estate

variable {config : PoolConfig} {e : Estate} {keeper : Nat → Keeper}

/-- Whose the live records are: each has one keeper. The client holds one slot of each record that
is its own, a stream has chained its records through their headers, and an allotment through their
link words; and nobody else keeps any. -/
structure Custody (e : Estate) (keeper : Nat → Keeper) : Prop where
  held : ∀ i, i ∈ e.pool.keptBy keeper .client ↔ i ∈ e.held.map Slot.idx
  distinct : (e.held.map Slot.idx).Nodup
  lent : ∀ slot ∈ e.held, e.pool.Lent slot
  blocks : ∀ k lane, e.lanes k = some lane →
    Chain.Covers e.pool.header lane.stream.previous (e.pool.keptBy keeper (.stream k))
  noBlocks : ∀ k, e.lanes k = none → ∀ i, i ∉ e.pool.keptBy keeper (.stream k)
  spares : ∀ k a, e.allotments k = some a →
    Chain.Covers e.pool.roster.link a.spare.head (e.pool.keptBy keeper (.allotment k))
  noSpares : ∀ k, e.allotments k = none → ∀ i, i ∉ e.pool.keptBy keeper (.allotment k)

theorem Sound.custody (h : e.Sound keeper) : e.Custody keeper where
  held := (h.content .client).2.2
  distinct := (h.content .client).1
  lent := (h.content .client).2.1
  blocks k lane hlane := ((h.content (.stream k)).2 lane hlane).chained
  noBlocks k := (h.content (.stream k)).1
  spares k a ha := ((h.content (.allotment k)).2 a ha).chained
  noSpares k := (h.content (.allotment k)).1

/-! ### No record is issued twice -/

theorem Sound.alloc_answer [Host] (h : e.Sound keeper) (size align : Nat) :
    (perform (.alloc size align)).Meets e
      (fun answer _ => ∀ slot, answer = some slot → 0 ≤ slot.offset) fun _ _ => True := by
  simp only [perform, meets_bind, onPool, meets_focus, meets_modify, meets_pure]
  refine (Pool.alloc_meets_any h.valid size align).weaken ?_ fun _ _ _ => trivial
  rintro slot p (⟨-, rfl, -⟩ | ⟨-, -, hoffset, -⟩) _ ⟨⟩
  · exact Int.le_refl 0
  · exact hoffset

theorem Sound.allocBack_answer [Host] (h : e.Sound keeper) :
    (perform .allocBack).Meets e
      (fun answer _ => ∀ slot, answer = some slot → slot.stop ≤ 0) fun _ _ => True := by
  simp only [perform, meets_bind, onPool, meets_focus, meets_modify, meets_pure]
  refine (Pool.allocBack_meets h.valid).weaken ?_ fun _ _ _ => trivial
  rintro slot p ⟨-, hstop, -⟩ _ ⟨⟩
  exact hstop

/-- At every point of every run the live records have one keeper each, share no byte with each other
or with what was taken directly, and lie inside the window. -/
theorem live_records_apart [Host] (h : Reachable config e) :
    (∀ i ∈ e.pool.live, ∀ j ∈ e.pool.live, i ≠ j →
      Disjoint (e.pool.bytesOf i) (e.pool.bytesOf j)) ∧
    (∀ i ∈ e.pool.live, Disjoint (e.pool.bytesOf i) e.taken) ∧
    (∀ i ∈ e.pool.live, ∀ x ∈ e.pool.bytesOf i,
      -(e.pool.arena.center : Int) ≤ x ∧ x < (e.pool.arena.size : Int) - e.pool.arena.center) ∧
    (∃ keeper, e.Custody keeper) ∧
    (∀ size align slot, ((perform (.alloc size align)).run e).result = .ok (some slot) →
      0 ≤ slot.offset) ∧
    (∀ slot, ((perform .allocBack).run e).result = .ok (some slot) → slot.stop ≤ 0) := by
  obtain ⟨keeper, h⟩ := h.sound
  refine ⟨fun i hi j hj hne => h.valid.disjoint hi hj hne, fun i hi => h.valid.not_loose hi, ?_,
    ⟨keeper, h.custody⟩, ?_, ?_⟩
  · intro i hi x hx
    have hbounds := h.valid.bounds hi
    have hspan := mem_span.mp hx
    simp only [Window.lo, Window.hi] at hbounds
    simp only [Arena.center, Arena.size]
    omega
  · exact fun size align slot hslot => (h.alloc_answer size align).of_ok hslot slot rfl
  · exact fun slot hslot => h.allocBack_answer.of_ok hslot slot rfl

section

attribute [local instance] Host.plain

theorem live_records_apart_of_five : ∃ e, Reachable {} e ∧
    e.pool.live.toList = [0, 1, 2, 3, 4] ∧ Disjoint (e.pool.bytesOf 0) (e.pool.bytesOf 2) := by
  obtain ⟨e, he, hlive, -⟩ := exists_reachable
  have hmem : ∀ i ∈ [0, 1, 2, 3, 4], i ∈ e.pool.live := fun i hi =>
    Std.TreeSet.mem_toList.mp (hlive ▸ hi)
  exact ⟨e, he, hlive, (live_records_apart he).1 0 (hmem 0 (by decide)) 2 (hmem 2 (by decide))
    (by decide)⟩

end

/-! ### Every byte is accounted for -/

theorem Sound.card_take [Host] (h : e.Sound keeper) {n : Nat} (hn : e.pool.blockSize ∣ n) :
    (perform (.take n)).Meets e (fun _ e' => e'.taken.card = e.taken.card + n) fun _ _ => True := by
  simp only [perform, meets_bind, onPool, meets_focus, meets_modify, meets_pure]
  refine (Pool.take_meets_any h.valid hn).weaken ?_ fun _ _ _ => trivial
  intro offset p hres
  obtain ⟨-, hfresh, -⟩ := hres
  have hdisjoint : Disjoint e.taken (span offset n) :=
    disjoint_right.mpr fun x hx => hfresh x hx
  rw [card_union_of_disjoint hdisjoint, card_span]

theorem card_giveBack [Host] {offset : Int} {n : Nat} (hsub : span offset n ⊆ e.taken) :
    (perform (.giveBack offset n)).Meets e (fun _ e' => e'.taken.card + n = e.taken.card)
      fun _ e' => e'.taken.card + n = e.taken.card := by
  have hcard : (e.taken \ span offset n).card + n = e.taken.card := by
    have hle := card_le_card hsub
    rw [card_span] at hle
    rw [card_sdiff_of_subset hsub, card_span]
    omega
  simp only [perform, meets_bind, onPool, meets_focus, meets_modify, meets_pure, hcard]
  unfold Meets
  split <;> trivial

/-- At every point of every run the claimed bytes are those of all records, live or free, those left
to carve, those given up and those that were taken and not given back. -/
theorem bytes_accounted [Host] (h : Reachable config e) :
    e.pool.arena.frontUsed + e.pool.arena.backUsed =
      ∑ i ∈ range e.pool.roster.length, (e.pool.roster.record i).size +
        ∑ c, (e.pool.bucket c).carve.remaining + e.pool.leaked + e.taken.card ∧
    (∀ c, (e.pool.bucket c).carve.next ≤ (e.pool.bucket c).carve.stop) ∧
    (∀ n answer, e.Admits (.take n) → ((perform (.take n)).run e).result = .ok answer →
      (e.next (.take n)).taken.card = e.taken.card + n) ∧
    (∀ offset n, e.Admits (.giveBack offset n) →
      (e.next (.giveBack offset n)).taken.card + n = e.taken.card) := by
  obtain ⟨keeper, h⟩ := h.sound
  refine ⟨h.valid.balance, h.valid.carve_le, fun n answer hn hok => ?_, fun offset n hadmits => ?_⟩
  · exact (h.card_take hn).of_ok hok
  · exact (card_giveBack hadmits.1).state

section

attribute [local instance] Host.plain

theorem bytes_accounted_of_taken : ∃ e, Reachable {} e ∧ e.taken.card = 4096 ∧
    e.pool.arena.frontUsed + e.pool.arena.backUsed =
      ∑ i ∈ range e.pool.roster.length, (e.pool.roster.record i).size +
        ∑ c, (e.pool.bucket c).carve.remaining + e.pool.leaked + 4096 := by
  obtain ⟨e, he, -, -, htaken, -⟩ := exists_reachable
  have hbytes := (bytes_accounted he).1
  rw [htaken] at hbytes
  exact ⟨e, he, htaken, hbytes⟩

end

/-! ### Every record has its place -/

/-- At every point of every run each record is live or on one chain, once, all chains end, and a
free record fits the class or the side whose chain it is on. The live ones are counted, and have one
keeper each; those that wait on the chain of an allotment are among them. -/
theorem records_placed (h : Reachable config e) :
    ∃ (free : SizeClass → List Nat) (back : List Nat),
      (∀ c, Chain.Threads e.pool.roster.link (e.pool.bucket c).free.head (free c)) ∧
      Chain.Threads e.pool.roster.link e.pool.backFree.head back ∧
      (e.pool.live.toList ++ (List.finRange classCount).flatMap free ++ back).Perm
        (List.range e.pool.roster.length) ∧
      (∀ c, ∀ i ∈ free c, 0 ≤ (e.pool.roster.record i).offset ∧
        (e.pool.roster.record i).size = 64 * 2 ^ c.val ∧
        ((min (e.pool.roster.record i).size e.pool.blockSize : Nat) : Int) ∣
          (e.pool.roster.record i).offset) ∧
      (∀ i ∈ back, (e.pool.roster.record i).offset < 0 ∧
        (e.pool.roster.record i).size = e.pool.blockSize) ∧
      e.pool.liveCount = e.pool.live.size ∧
      ∃ keeper, e.Custody keeper := by
  obtain ⟨keeper, h⟩ := h.sound
  obtain ⟨spot, hp, hhand⟩ := h.valid
  choose listed hthreads hmem using hp.chained
  have hnodup : ∀ s, (listed s).Nodup := fun s => (hthreads s).nodup
  refine ⟨fun c => listed (.front c), listed .back, fun c => hthreads (.front c), hthreads .back,
    hp.placed hhand (fun c => hmem (.front c)) (fun c => hnodup (.front c)) (hmem .back)
      (hnodup .back), ?_, ?_, hp.count, keeper, h.custody⟩
  · intro c i hi
    obtain ⟨hoffset, hsize, hdvd⟩ := hp.fits_shelf i _ ((hmem (.front c) i).mp hi)
    refine ⟨hoffset, ?_, hsize ▸ hdvd⟩
    rw [hsize, SizeClass.bytes, SizeClass.leastLog2, Nat.pow_add, Nat.mul_comm]
  · intro i hi
    obtain ⟨hstop, hsize⟩ := hp.fits_shelf i _ ((hmem .back i).mp hi)
    have hpos := hp.block.pos
    exact ⟨by omega, hsize⟩

theorem records_placed_of_five : ∃ e, Reachable {} e ∧ e.pool.liveCount = 5 ∧
    ∃ (free : SizeClass → List Nat) (back : List Nat),
      ([0, 1, 2, 3, 4] ++ (List.finRange classCount).flatMap free ++ back).Perm
        (List.range e.pool.roster.length) := by
  obtain ⟨e, he, hlive, -⟩ := exists_reachable
  obtain ⟨free, back, -, -, hperm, -, -, hcount, -⟩ := records_placed he
  rw [hlive] at hperm
  have hsize : e.pool.live.size = 5 := by
    rw [← Std.TreeSet.length_toList, hlive]
    rfl
  exact ⟨e, he, hcount.trans hsize, free, back, hperm⟩

end Estate

end SlotArena
