import SlotArena.Proofs.Filing
import Mathlib.Algebra.Order.BigOperators.Group.Finset

/-!
Memory that is given to a pool. Loose bytes become records in one step, however many records that
is (`Sound.enlist`), and the records go to the shelf of their class (`returnBlocks_meets`). A chunk
is cut from its high end: the end is aligned to the largest piece, and stays aligned to the next one
while pieces come off (`peel_meets`, `peelDown_meets`). Whatever happens, all bytes of the chunk are
accounted for in the end (`splitChunk_meets`).
-/

namespace SlotArena

open Act Finset Ledger

theorem asSigned_of_lt {n : Nat} (h : n < 2 ^ 31) : asSigned n = n := by
  have hmod : n % word32 = n := Nat.mod_eq_of_lt (Nat.lt_trans h (by decide))
  rw [asSigned, hmod, if_pos h]

theorem sdiff_span_span (s : Finset Int) (x : Int) (m n : Nat) :
    (s \ span (x + m) n) \ span x m = s \ span x (m + n) := by
  ext y
  simp only [mem_sdiff, mem_span, and_assoc]
  exact and_congr_right fun _ => by omega

theorem span_subset_span {x y : Int} {m n : Nat} (hlo : y ≤ x) (hhi : x + m ≤ y + n) :
    span x m ⊆ span y n := by
  intro z hz
  rw [mem_span] at hz ⊢
  omega

theorem span_subset_sdiff {s : Finset Int} {x : Int} {m n : Nat} (h : span x n ⊆ s) (hmn : m ≤ n) :
    span x m ⊆ s \ span (x + m) (n - m) := by
  intro y hy
  have hy' := mem_span.mp hy
  refine mem_sdiff.mpr ⟨h (mem_span.mpr (by omega)), fun hout => ?_⟩
  have hout' := mem_span.mp hout
  omega

/-- What is left when whole pieces come off the high end is aligned as the end was. -/
theorem dvd_add_mod {d m n : Nat} {x : Int} (h : (d : Int) ∣ x + n) (hd : d ∣ m) :
    (d : Int) ∣ x + (n % m : Nat) := by
  have hdiv := Nat.div_add_mod n m
  have hsum : x + (n % m : Nat) = x + n - (m * (n / m) : Nat) := by omega
  rw [hsum]
  exact Int.dvd_sub h (Int.natCast_dvd_natCast.mpr (Nat.dvd_mul_right_of_dvd hd _))

/-! ### The largest cut -/

/-- The largest piece, below a block, that a chunk is cut into. -/
def largestCut (blockSize : Nat) (cap : Option Nat) : Nat :=
  min (blockSize / 2) (cap.getD (blockSize / 2))

theorem largestCut_none (bs : Nat) : largestCut bs none = bs / 2 := Nat.min_self _

theorem powerOfTwo_largestCut {bs : Nat} (hbs : SizeClass.IsSize bs) {cap : Option Nat}
    (hcap : ∀ n ∈ cap, PowerOfTwo n) : PowerOfTwo (largestCut bs cap) := by
  have hhalf := hbs.1.half hbs.one_lt
  refine hhalf.min ?_
  cases cap with
  | none => exact hhalf
  | some n => exact hcap n rfl

theorem largestCut_le (bs : Nat) (cap : Option Nat) : largestCut bs cap ≤ bs :=
  (Nat.min_le_left ..).trans (Nat.div_le_self ..)

/-! ### Adding records -/

namespace Roster

/-- `count` records more of `size` bytes each, side by side from `offset` on. -/
structure Enlisted (r r' : Roster) (offset : Int) (size count : Nat) : Prop where
  sound : r'.Sound
  length : r'.length = r.length + count
  kept : ∀ i < r.length, r'.record i = r.record i
  new_offset : ∀ j < count, (r'.record (r.length + j)).offset = offset + (j * size : Nat)
  new_size : ∀ j < count, (r'.record (r.length + j)).size = size

theorem Added.enlistedRun {r r' r'' : Roster} {offset : Int} {size count : Nat}
    (h : r.Added count r') (hedited : r'.Edited r'' (run r.length count))
    (hset : ∀ k < count, (r''.record (r.length + k)).offset = offset + (k * size : Nat) ∧
      (r''.record (r.length + k)).size = size) : r.Enlisted r'' offset size count where
  sound := hedited.sound h.sound
  length := hedited.length.trans h.length
  kept i hi := by
    rw [hedited.kept i (by simp only [Roster.mem_run]; omega), h.kept i hi]
  new_offset k hk := (hset k hk).1
  new_size k hk := (hset k hk).2

theorem Added.enlisted {r r' r'' : Roster} {offset : Int} {size : Nat} (h : r.Added 1 r')
    (hedited : r'.Edited r'' {r.length}) (hoffset : (r''.record r.length).offset = offset)
    (hsize : (r''.record r.length).size = size) : r.Enlisted r'' offset size 1 := by
  refine h.enlistedRun (hedited.mono ?_) fun k hk => ?_
  · rintro i rfl
    simp only [mem_run]
    omega
  · obtain rfl := Nat.lt_one_iff.mp hk
    rw [Nat.zero_mul]
    exact ⟨hoffset.trans (Int.add_zero offset).symm, hsize⟩

theorem assign_meets {r : Roster} (h : r.Sound) {i : Nat} (hi : i < r.length) (offset : Int)
    (size : Nat) :
    (assign i offset size).Meets r (fun _ r' => r.Edited r' {i} ∧
      (r'.record i).offset = offset ∧ (r'.record i).size = size) Never := by
  refine (edit_meets h hi _).imp fun _ r' h' => ⟨h'.1, ?_, ?_⟩
  · rw [h'.2]
  · rw [h'.2]

end Roster

namespace Pool

variable {p : Pool} {spot : Nat → Spot} {loose : Finset Int}

theorem Grounded.claimed_le (h : p.Grounded loose) :
    p.arena.front.next ≤ 2 ^ 31 ∧ p.arena.back.next ≤ 2 ^ 31 :=
  ⟨h.arena.next_le_half .front, h.arena.next_le_half .back⟩

/-- Every record takes bytes, so there are not too many to count. -/
theorem Sound.length_le (h : p.Sound spot loose) : p.roster.length ≤ 2 ^ 26 := by
  have hsum : p.roster.length * SizeClass.least ≤ (p.ledger loose).recorded := by
    have hcard := card_nsmul_le_sum (range p.roster.length) (p.ledger loose).size SizeClass.least
      fun i hi => by
        have hlt := mem_range.mp hi
        obtain ⟨s, hs⟩ := h.fits i fun hunborn => absurd ((h.unborn i).mp hunborn) (by omega)
        simp only [Pool.ledger, if_pos hlt]
        exact hs.least_le h.block
    rwa [card_range] at hcard
  have hbalance := h.ledger.balance
  have hfront : (p.ledger loose).front ≤ 2 ^ 31 := h.claimed_le.1
  have hback : (p.ledger loose).back ≤ 2 ^ 31 := h.claimed_le.2
  simp only [SizeClass.least, SizeClass.leastLog2] at hsum
  omega

theorem Grounded.loose_bounds (h : p.Grounded loose) {x : Int} {n : Nat}
    (hloose : span x n ⊆ loose) (hn : 0 < n) :
    -(p.arena.back.next : Int) ≤ x ∧ x + n ≤ p.arena.front.next := by
  have hfirst := h.ledger.within .loose x (hloose (mem_span.mpr (by omega)))
  have hlast := h.ledger.within .loose (x + n - 1) (hloose (mem_span.mpr (by omega)))
  simp only [Pool.ledger] at hfirst hlast
  omega

theorem Sound.record_bounds (h : p.Sound spot loose) {i : Nat} (hi : spot i ≠ .unborn) :
    -(p.arena.back.next : Int) ≤ (p.roster.record i).offset ∧
      (p.roster.record i).offset + (p.roster.record i).size ≤ p.arena.front.next := by
  obtain ⟨s, hs⟩ := h.fits i hi
  have hpos := hs.pos h.block
  have howns := owns_record loose (h.born hi)
  have hfirst := h.ledger.within _ _ ((howns (p.roster.record i).offset).mpr (by omega))
  have hlast := h.ledger.within _ _ ((howns ((p.roster.record i).offset +
    (p.roster.record i).size - 1)).mpr (by omega))
  simp only [Pool.ledger] at hfirst hlast
  omega

theorem ledger_enlist {r : Roster} {offset : Int} {size count : Nat}
    (hr : p.roster.Enlisted r offset size count) :
    ({ p with roster := r } : Pool).ledger (loose \ span offset (count * size)) =
      (p.ledger loose).enrolRun offset size count := by
  rw [enrolRun_eq]
  refine Ledger.ext hr.length (funext fun i => ?_) (funext fun i => ?_) rfl rfl rfl rfl rfl
  · show (if i < r.length then (r.record i).offset else 0) =
      if p.roster.length ≤ i ∧ i < p.roster.length + count then
        offset + ((i - p.roster.length) * size : Nat)
      else if i < p.roster.length then (p.roster.record i).offset else 0
    rw [hr.length]
    rcases Nat.lt_or_ge i p.roster.length with hi | hi
    · rw [if_pos (by omega), if_neg (by omega), if_pos hi, hr.kept i hi]
    · obtain ⟨j, rfl⟩ := Nat.exists_eq_add_of_le hi
      rw [if_neg (Nat.not_lt.mpr hi), Nat.add_sub_cancel_left]
      by_cases hj : j < count
      · rw [if_pos (by omega), if_pos (by omega), hr.new_offset j hj]
      · rw [if_neg (by omega), if_neg (by omega)]
  · show (if i < r.length then (r.record i).size else 0) =
      if p.roster.length ≤ i ∧ i < p.roster.length + count then size
      else if i < p.roster.length then (p.roster.record i).size else 0
    rw [hr.length]
    rcases Nat.lt_or_ge i p.roster.length with hi | hi
    · rw [if_pos (by omega), if_neg (by omega), if_pos hi, hr.kept i hi]
    · obtain ⟨j, rfl⟩ := Nat.exists_eq_add_of_le hi
      rw [if_neg (Nat.not_lt.mpr hi)]
      by_cases hj : j < count
      · rw [if_pos (by omega), if_pos (by omega), hr.new_size j hj]
      · rw [if_neg (by omega), if_neg (by omega)]

/-- Loose bytes that become records in the hands of an operation. -/
theorem Sound.enlist (h : p.Sound spot loose) {r : Roster} {offset : Int} {size count : Nat}
    (hr : p.roster.Enlisted r offset size count) (hloose : span offset (count * size) ⊆ loose)
    (hfits : ∀ j < count, ∃ s, (r.record (p.roster.length + j)).Fits p.blockSize s) :
    ({ p with roster := r } : Pool).Sound (move spot p.roster.length count .hand)
      (loose \ span offset (count * size)) := by
  have hold : ∀ u, u ≠ .unborn → ∀ i ∈ Roster.run p.roster.length count, spot i ≠ u := by
    rintro u hu i hi rfl
    exact hu ((h.unborn i).mpr hi.1)
  have hborn : ∀ i, spot i ≠ .unborn → r.record i = p.roster.record i := fun i hi =>
    hr.kept i (h.born hi)
  refine ⟨⟨h.block, h.arena, h.block_dvd, hr.sound, ?_, h.carve_dvd, h.carve_stop⟩, ?_⟩
  · rw [ledger_enlist hr]
    exact h.ledger.enrolRun hloose
  exact {
    unborn := fun i => by
      show move spot _ _ _ i = .unborn ↔ r.length ≤ i
      rw [hr.length]
      by_cases hi : i ∈ Roster.run p.roster.length count
      · rw [move_of_mem hi]
        exact iff_of_false Spot.noConfusion (Nat.not_le.mpr hi.2)
      · rw [move_of_not_mem hi, h.unborn i]
        simp only [Roster.mem_run] at hi
        omega
    live := fun i => by
      rw [← h.live i]
      exact move_eq_iff (hold _ Spot.noConfusion) Spot.noConfusion
    count := h.count
    chained := fun s => by
      refine ((h.chained s).congr fun i hi => ?_).of_eq fun i =>
        (move_eq_iff (hold _ Spot.noConfusion) Spot.noConfusion).symm
      have hi' : spot i = .shelf s := hi
      show (r.record i).next = (p.roster.record i).next
      rw [hborn i (hi' ▸ Spot.noConfusion)]
    fits := fun i hi => by
      by_cases hrun : i ∈ Roster.run p.roster.length count
      · obtain ⟨j, rfl⟩ := Nat.exists_eq_add_of_le hrun.1
        exact hfits j (Nat.lt_of_add_lt_add_left hrun.2)
      · rw [move_of_not_mem hrun] at hi
        show ∃ s, (r.record i).Fits p.blockSize s
        rw [hborn i hi]
        exact h.fits i hi
    fits_shelf := fun i s hi => by
      rw [move_eq_iff (hold _ Spot.noConfusion) Spot.noConfusion] at hi
      show (r.record i).Fits p.blockSize s
      rw [hborn i (hi ▸ Spot.noConfusion)]
      exact h.fits_shelf i s hi }

/-- The pool has made the `n` loose bytes from `x` on its own. -/
def Absorbed (p : Pool) (spot : Nat → Spot) (loose : Finset Int) (x : Int) (n : Nat) (p' : Pool) :
    Prop :=
  p'.arena = p.arena ∧ ∃ spot', p'.Sound spot' (loose \ span x n) ∧
    Kept p p' spot spot' ∅

theorem Sound.absorbed_zero (h : p.Sound spot loose) (x : Int) : p.Absorbed spot loose x 0 p := by
  have hspan : loose \ span x 0 = loose := by simp [span]
  exact ⟨rfl, spot, hspan.symm ▸ h, .refl ..⟩

theorem Sound.piece_bounds (h : p.Sound spot loose) {offset : Int} {size count : Nat}
    (hoffset : 0 ≤ offset) (hpos : 0 < size) (hloose : span offset (count * size) ⊆ loose)
    {i : Nat} (hi : i < count) :
    i * size + size ≤ 2 ^ 31 ∧ offset + (i * size : Nat) + size ≤ 2 ^ 31 := by
  have hle : (i + 1) * size ≤ count * size := Nat.mul_le_mul_right _ hi
  rw [Nat.succ_mul] at hle
  have hbounds := h.loose_bounds hloose (by omega)
  have hclaimed := h.claimed_le.1
  omega

theorem assignRun_edits {r : Roster} {offset : Int} {size count : Nat}
    (hr : p.roster.Added count r) (hoffset : 0 ≤ offset) (hpos : 0 < size)
    (hbounds : ∀ i < count,
      i * size + size ≤ 2 ^ 31 ∧ offset + (i * size : Nat) + size ≤ 2 ^ 31) :
    (sweep 0 count fun i => do
      let start ← addSigned offset (asSigned (← mulWord i size))
      onRoster (Roster.assign (p.roster.length + i) start size) : Act Pool Unit).Meets
      { p with roster := r }
      (fun _ p' => ∃ r', p' = { p with roster := r' } ∧
        r.Edited r' (Roster.run p.roster.length count) ∧
        ∀ k < count, (r'.record (p.roster.length + k)).offset = offset + (k * size : Nat) ∧
          (r'.record (p.roster.length + k)).size = size) Never := by
  refine Meets.sweep (fun j t => ∃ r', t = { p with roster := r' } ∧
    r.Edited r' (Roster.run p.roster.length count) ∧
      ∀ k < j, (r'.record (p.roster.length + k)).offset = offset + (k * size : Nat) ∧
        (r'.record (p.roster.length + k)).size = size)
    ⟨r, rfl, .refl _ _, fun k hk => absurd hk (Nat.not_lt_zero k)⟩ ?_
  intro j _ hj hres
  obtain ⟨r', rfl, hedited, hset⟩ := hres
  have hle := hbounds j hj
  have hsigned : asSigned (j * size) = (j * size : Nat) := asSigned_of_lt (by omega)
  simp only [Nat.zero_add, meets_bind, mulWord, addSigned, meets_ensure_never, meets_pure,
    hsigned]
  refine ⟨by simp only [word32]; omega, ?_, ?_⟩
  · simp only [FitsSigned, signed32]
    omega
  refine (onRoster_meets (Roster.assign_meets (hedited.sound hr.sound)
    (by rw [hedited.length, hr.length]; omega) _ _)).imp ?_
  intro _ _ hres
  obtain ⟨r'', rfl, hr'', hnew⟩ := hres
  refine ⟨r'', rfl, hedited.trans (hr''.mono ?_), fun k hk => ?_⟩
  · rintro i rfl
    simp only [Roster.mem_run]
    omega
  · rcases Nat.lt_succ_iff_lt_or_eq.mp hk with hk | rfl
    · rw [hr''.kept _ (by simp only [Set.mem_singleton_iff]; omega)]
      exact hset k hk
    · exact hnew

/-- Pieces that are given to a pool go to the shelf of their class, unless the roster refuses the
records; then nothing else happens. -/
theorem returnBlocks_meets [Host] (h : p.Sound spot loose) {offset : Int} {size count : Nat}
    (hsize : SizeClass.IsSize size) (hoffset : 0 ≤ offset)
    (hdvd : ((min size p.blockSize : Nat) : Int) ∣ offset)
    (hloose : span offset (count * size) ⊆ loose) :
    (returnBlocks offset count size).Meets p
      (fun _ p' => p.Absorbed spot loose offset (count * size) p')
      (refusing (p.Unlisted (p.roster.length + count))) := by
  simp only [returnBlocks, meets_bind, meets_ite, meets_pure, meets_get, meets_ensure_refusing]
  refine ⟨?_, fun hcount => ⟨hsize, ⟨hoffset, ?_⟩, ?_⟩⟩
  · rintro rfl
    rw [Nat.zero_mul]
    exact h.absorbed_zero offset
  · rwa [← Int.natCast_dvd_natCast, Int.toNat_of_nonneg hoffset]
  · have hbounds := fun i hi => h.piece_bounds (i := i) hoffset hsize.pos hloose hi
    have hlength := h.length_le
    have hlast := hbounds (count - 1) (by omega)
    have hleast : (count - 1) * SizeClass.least ≤ (count - 1) * size :=
      Nat.mul_le_mul_left _ hsize.2.1
    simp only [SizeClass.least, SizeClass.leastLog2] at hleast
    obtain ⟨c, rfl⟩ := hsize.exists_bytes
    simp only [onRoster, meets_focus_refusing]
    refine (Roster.add_meets h.roster (by omega) (by simp only [word32]; omega)).mono ?_ ?_
    · intro _ r hres
      obtain ⟨rfl, hr⟩ := hres
      apply (assignRun_edits hr hoffset c.bytes_pos hbounds).sure
      intro _ _ hres
      obtain ⟨r', rfl, hedited, hset⟩ := hres
      have hlist := hr.enlistedRun hedited hset
      have hfits : ∀ j < count,
          (r'.record (p.roster.length + j)).Fits p.blockSize (.front c) := fun j hj => by
        refine ⟨?_, hlist.new_size j hj, ?_⟩
        · rw [hlist.new_offset j hj]
          omega
        · rw [hlist.new_offset j hj]
          have hmin : min c.bytes p.blockSize ∣ c.bytes :=
            (c.powerOfTwo_bytes.min h.block.1).dvd_of_le c.powerOfTwo_bytes (Nat.min_le_left ..)
          exact Int.dvd_add hdvd (Int.natCast_dvd_natCast.mpr (Nat.dvd_mul_left_of_dvd hmin j))
      have hsound := h.enlist hlist hloose fun j hj => ⟨_, hfits j hj⟩
      apply (SizeClass.holding_bytes_meets c).sure
      intro d _ hres
      obtain ⟨rfl, hd⟩ := hres
      rw [hd]
      refine (pushFree_meets hsound (by omega) (fun i hi => move_of_mem hi) ?_).sure ?_
      · intro i hi
        obtain ⟨j, rfl⟩ := Nat.exists_eq_add_of_le hi.1
        exact hfits j (Nat.lt_of_add_lt_add_left hi.2)
      · intro _ p' hres
        obtain ⟨hp', harena, hblock, hrelinked⟩ := hres
        refine ⟨harena, _, hp', harena ▸ .refl _, hblock, fun i _ hi => ?_, fun i _ hi => ?_⟩
        · by_cases hrun : i ∈ Roster.run p.roster.length count
          · have hunborn : spot i = .unborn := (h.unborn i).mpr hrun.1
            simp only [busy, Set.mem_ofPred_eq, hunborn, move_of_mem hrun] at hi
            exact absurd hi (by simp)
          · rw [move_of_not_mem hrun, move_of_not_mem hrun]
        · have hborn := h.born_of_busy hi
          rw [hrelinked.kept i fun hrun => absurd hrun.1 (Nat.not_le.mpr hborn)]
          exact hlist.kept i hborn
    · exact fun why r hrefused => ⟨r, rfl, hrefused⟩

/-! ### Cutting chunks -/

/-- What is absorbed in two steps, the high end first. -/
theorem Absorbed.trans {p' p'' : Pool} {spot' : Nat → Spot} {x y : Int} {m n : Nat}
    (harena : p'.arena = p.arena) (hkept : Kept p p' spot spot' ∅) (hy : y = x + m)
    (h : p'.Absorbed spot' (loose \ span y n) x m p'') :
    p.Absorbed spot loose x (m + n) p'' := by
  obtain ⟨harena', spot'', hsound, hkept'⟩ := h
  subst hy
  refine ⟨harena'.trans harena, spot'', ?_, ?_⟩
  · rwa [← sdiff_span_span]
  · exact hkept.trans hkept'

theorem Sound.leak (h : p.Sound spot loose) {x : Int} {n : Nat} (hloose : span x n ⊆ loose) :
    ({ p with leaked := p.leaked + n } : Pool).Sound spot (loose \ span x n) where
  toGrounded := ⟨h.block, h.arena, h.block_dvd, h.roster, h.ledger.leak hloose, h.carve_dvd,
    h.carve_stop⟩
  toFiled := h.toFiled.congr rfl rfl rfl rfl fun _ => rfl

theorem Sound.absorbed_leak (h : p.Sound spot loose) {x : Int} {n : Nat}
    (hloose : span x n ⊆ loose) :
    p.Absorbed spot loose x n { p with leaked := p.leaked + n } :=
  ⟨rfl, spot, h.leak hloose, .refl _, rfl, fun _ _ _ => rfl, fun _ _ _ => rfl⟩

theorem Sound.absorbed_unlisted [Host] (h : p.Sound spot loose) {wanted : Nat} {why : Refusal}
    {p' : Pool}
    (hrefused : p.Unlisted wanted why p') {x : Int} {n : Nat} (hloose : span x n ⊆ loose) :
    p.Absorbed spot loose x n { p' with leaked := p'.leaked + n } := by
  obtain ⟨harena, spot', hsound, hkept⟩ := (hrefused.refused.sound h).absorbed_leak hloose
  exact ⟨harena.trans hrefused.arena, spot', hsound, (hrefused.refused.kept h ∅).trans hkept⟩

theorem leak_meets (h : p.Sound spot loose) {x : Int} {n : Nat} (hloose : span x n ⊆ loose) :
    (leak n x).Meets p (fun _ p' => p.Absorbed spot loose x n p') Never := by
  simp only [Pool.leak, meets_bind, meets_modify, meets_note]
  exact h.absorbed_leak hloose

/-- Pieces that come off a chunk decide what becomes of it, if any fit. -/
theorem peel_of_return [Host] (h : p.Sound spot loose) {offset : Int} {remaining size : Nat}
    (hsize : SizeClass.IsSize size) (hoffset : 0 ≤ offset) (hloose : span offset remaining ⊆ loose)
    {good : Nat → Pool → Prop} {r : Refusal → Pool → Prop}
    (hnone : remaining < size → good remaining p)
    (hsome : size ≤ remaining →
      (returnBlocks (offset + (remaining % size : Nat)) (remaining / size) size).Meets p
        (fun _ => good (remaining % size))
        (refusing fun why q => r why { q with leaked := q.leaked + remaining })) :
    (peel offset remaining size).Meets p good (refusing r) := by
  have hmod := Nat.mod_lt remaining hsize.pos
  simp only [peel, meets_bind, meets_ite, meets_pure, meets_addSigned]
  refine ⟨fun hzero => hnone ?_, fun hcount => ?_⟩
  · exact Nat.lt_of_not_le fun hle => (Nat.div_pos hle hsize.pos).ne' hzero
  · have hle : size ≤ remaining := (Nat.div_pos_iff.mp (Nat.pos_of_ne_zero hcount)).2
    have hbounds := h.loose_bounds hloose (Nat.lt_of_lt_of_le hsize.pos hle)
    have hclaimed := h.claimed_le.1
    rw [asSigned_of_lt (by omega)]
    refine ⟨by simp only [FitsSigned, signed32]; omega, Meets.attempt ?_⟩
    refine (hsome hle).mono (fun _ _ => id) fun why q hq => ?_
    simp only [leak, meets_bind, meets_modify, meets_note, meets_refuse, refusing_refused]
    exact hq

theorem peel_none [Host] {offset : Int} {remaining size : Nat} (h : remaining < size) :
    peel offset remaining size = pure remaining := by
  rw [peel, if_pos (Nat.div_eq_of_lt h)]

/-- Pieces that would be misaligned are noticed at the first of them. -/
theorem peel_misaligned [Host] (h : p.Sound spot loose) {offset : Int} {remaining size : Nat}
    (hsize : SizeClass.IsSize size) (hoffset : 0 ≤ offset) (hloose : span offset remaining ⊆ loose)
    (hblock : size ≤ p.blockSize) (hfits : size ≤ remaining)
    (hend : ¬ (size : Int) ∣ offset + remaining) :
    (peel offset remaining size).Meets p (fun _ _ => False) fun fault p' => p' = p ∧
      fault = .violated (.pieceUnaligned (offset + (remaining % size : Nat)) size) := by
  have hcount : remaining / size ≠ 0 := (Nat.div_pos hfits hsize.pos).ne'
  have hstart : ¬ (0 ≤ offset + (remaining % size : Nat) ∧
      size ∣ (offset + (remaining % size : Nat)).toNat) := by
    rintro ⟨hnonneg, hdvd⟩
    refine hend ?_
    have hdiv := Nat.div_add_mod remaining size
    have hsum : offset + remaining = offset + (remaining % size : Nat) +
        (size * (remaining / size) : Nat) := by omega
    rw [← Int.natCast_dvd_natCast, Int.toNat_of_nonneg hnonneg] at hdvd
    rw [hsum]
    exact Int.dvd_add hdvd (Int.natCast_dvd_natCast.mpr (Nat.dvd_mul_right ..))
  have hlt := Nat.mod_lt remaining hsize.pos
  have hbounds := h.loose_bounds hloose (Nat.lt_of_lt_of_le hsize.pos hfits)
  have hclaimed := h.claimed_le.1
  have hsigned : FitsSigned (offset + (remaining % size : Nat)) := by
    simp only [FitsSigned, signed32]
    omega
  rw [peel, if_neg hcount, asSigned_of_lt (by omega)]
  simp only [addSigned, meets_bind, meets_ensure, meets_pure, hsigned, meets_attempt, returnBlocks,
    meets_ite, hcount, meets_get, hsize, Nat.min_eq_left hblock, hstart, meets_fail, true_implies,
    not_true_eq_false, false_implies, and_true, not_false_eq_true, true_and]

theorem peel_meets [Host] (h : p.Sound spot loose) {offset : Int} {remaining size : Nat}
    (hsize : SizeClass.IsSize size) (hoffset : 0 ≤ offset)
    (hdvd : size ≤ remaining → ((min size p.blockSize : Nat) : Int) ∣ offset + remaining)
    (hloose : span offset remaining ⊆ loose) :
    (peel offset remaining size).Meets p
      (fun rest p' => rest = remaining % size ∧
        p.Absorbed spot loose (offset + rest) (remaining - rest) p')
      (refusing fun _ p' => p.Absorbed spot loose offset remaining p') := by
  have hdiv := Nat.div_add_mod remaining size
  rw [Nat.mul_comm] at hdiv
  refine peel_of_return h hsize hoffset hloose (fun hlt => ?_) fun hle => ?_
  · rw [Nat.sub_self]
    exact ⟨(Nat.mod_eq_of_lt hlt).symm, h.absorbed_zero _⟩
  · have hcut : remaining / size * size = remaining - remaining % size := by omega
    have hmin : min size p.blockSize ∣ size :=
      (hsize.1.min h.block.1).dvd_of_le hsize.1 (Nat.min_le_left ..)
    have hstart := dvd_add_mod (hdvd hle) hmin
    refine (returnBlocks_meets h hsize (by omega) hstart ?_).mono ?_ ?_
    · exact fun y hy => hloose (span_subset_span (by omega) (by omega) hy)
    · intro _ p' hp'
      rw [hcut] at hp'
      exact ⟨rfl, hp'⟩
    · exact fun why p' hrefused => h.absorbed_unlisted hrefused hloose

theorem peelDown_meets [Host] {offset : Int} (hoffset : 0 ≤ offset) {fuel size remaining : Nat}
    (h : p.Sound spot loose) (hpow : PowerOfTwo size) (hle : size ≤ SizeClass.largest)
    (hdvd : (size : Int) ∣ offset + remaining) (hloose : span offset remaining ⊆ loose) :
    (peelDown offset fuel size remaining).Meets p
      (fun rest p' => rest ≤ remaining ∧
        p.Absorbed spot loose (offset + rest) (remaining - rest) p')
      (refusing fun _ p' => p.Absorbed spot loose offset remaining p') := by
  induction fuel generalizing p spot loose size remaining with
  | zero =>
    rw [peelDown, meets_pure, Nat.sub_self]
    exact ⟨Nat.le_refl _, h.absorbed_zero _⟩
  | succ fuel ih =>
    rw [peelDown]
    split
    · rename_i hgo
      have hsize : SizeClass.IsSize size := ⟨hpow, hgo.2, hle⟩
      have hmin : min size p.blockSize ∣ size :=
        (hpow.min h.block.1).dvd_of_le hpow (Nat.min_le_left ..)
      have hhalf := hpow.half_dvd hsize.one_lt
      refine (peel_meets h hsize hoffset
        (fun _ => Int.dvd_trans (Int.natCast_dvd_natCast.mpr hmin) hdvd) hloose).bind ?_
        fun _ _ => id
      intro _ p' hres
      obtain ⟨rfl, harena, spot', hsound, hkept⟩ := hres
      have hrest : remaining % size ≤ remaining := Nat.mod_le ..
      have hdvd' := dvd_add_mod hdvd (Nat.dvd_refl size)
      refine (ih hsound (hpow.half hsize.one_lt) (by omega)
        (Int.dvd_trans (Int.natCast_dvd_natCast.mpr hhalf) hdvd')
        (span_subset_sdiff hloose hrest)).mono ?_ ?_
      · intro rest p'' hres
        obtain ⟨hle', habsorbed⟩ := hres
        have hsum : remaining - rest =
            remaining % size - rest + (remaining - remaining % size) := by
          omega
        rw [hsum]
        exact ⟨by omega, Absorbed.trans harena hkept (by omega) habsorbed⟩
      · intro why p'' habsorbed
        have hsum : remaining = remaining % size + (remaining - remaining % size) := by omega
        rw [hsum]
        exact Absorbed.trans harena hkept rfl habsorbed
    · rw [meets_pure, Nat.sub_self]
      exact ⟨Nat.le_refl _, h.absorbed_zero _⟩

/-- The end of a chunk is one that pieces can be cut from. -/
def Cuttable (blockSize : Nat) (offset : Int) (size largest : Nat) : Prop :=
  (blockSize ≤ size → (blockSize : Int) ∣ offset + size) ∧ (largest : Int) ∣ offset + size

theorem cuttable_end {bs : Nat} (hbs : SizeClass.IsSize bs) {offset : Int} {size : Nat}
    (hend : (bs : Int) ∣ offset + size) : Cuttable bs offset size (largestCut bs none) := by
  refine ⟨fun _ => hend, ?_⟩
  rw [largestCut_none]
  exact Int.dvd_trans (Int.natCast_dvd_natCast.mpr (hbs.1.half_dvd hbs.one_lt)) hend

/-- All bytes of a chunk are accounted for, whether the roster has room for its pieces or not. -/
theorem splitChunk_meets [Host] (h : p.Sound spot loose) {offset : Int} {size : Nat}
    {cap : Option Nat} (hoffset : 0 ≤ offset) (hcap : ∀ n ∈ cap, PowerOfTwo n)
    (hcut : Cuttable p.blockSize offset size (largestCut p.blockSize cap))
    (hloose : span offset size ⊆ loose) :
    (splitChunk offset size cap).Meets p (fun _ p' => p.Absorbed spot loose offset size p')
      (refusing fun _ p' => p.Absorbed spot loose offset size p') := by
  have hpow := powerOfTwo_largestCut h.block hcap
  have hlargest := hpow.dvd_of_le h.block.1 (largestCut_le ..)
  simp only [splitChunk, meets_bind, meets_ensure_refusing, meets_get]
  refine ⟨hoffset, ?_⟩
  rw [← largestCut]
  refine (peel_meets h h.block hoffset (by rw [Nat.min_self]; exact hcut.1) hloose).mono ?_
    fun _ _ => id
  intro _ p' hres
  obtain ⟨rfl, harena, spot', hsound, hkept⟩ := hres
  have hrest : size % p.blockSize ≤ size := Nat.mod_le ..
  have hdvd := dvd_add_mod hcut.2 hlargest
  have hle := (largestCut_le p.blockSize cap).trans h.block.2.2
  refine (peelDown_meets hoffset hsound hpow hle hdvd (span_subset_sdiff hloose hrest)).mono ?_ ?_
  · intro rest p'' hres
    obtain ⟨hle', habsorbed⟩ := hres
    have hsum : size - rest =
        size % p.blockSize - rest + (size - size % p.blockSize) := by omega
    have hfirst : p.Absorbed spot loose (offset + rest) (size - rest) p'' := by
      rw [hsum]
      exact Absorbed.trans harena hkept (by omega) habsorbed
    obtain ⟨harena'', spot'', hsound'', hkept''⟩ := hfirst
    simp only [meets_ite, meets_pure]
    refine ⟨fun _ => (leak_meets hsound'' (span_subset_sdiff hloose (by omega))).sure
      fun _ q hleak => ?_, fun hzero => ?_⟩
    · have hall : size = rest + (size - rest) := by omega
      rw [hall]
      exact Absorbed.trans harena'' hkept'' rfl hleak
    · obtain rfl : rest = 0 := by omega
      rw [Nat.sub_zero, Int.natCast_zero, Int.add_zero] at *
      exact ⟨harena'', spot'', hsound'', hkept''⟩
  · intro why p'' habsorbed
    have hsum : size = size % p.blockSize + (size - size % p.blockSize) := by omega
    rw [hsum]
    exact Absorbed.trans harena hkept rfl habsorbed

end Pool

end SlotArena
