import SlotArena.Proofs.Splitting

/-!
Fresh memory for a pool. Blocks come from the arena and pieces of blocks from the carve cursors;
both are loose until they are given a record. A class that starts a new block has used up the old
one to the last byte, since the ends of a block are multiples of its size.
-/

namespace SlotArena

open Act Finset Ledger

theorem asUnsigned_of_lt {n : Nat} (h : n < word32) : asUnsigned n = n := by
  simp only [asUnsigned, word32] at h ⊢
  omega

theorem union_sdiff_span {s : Finset Int} {x : Int} {n : Nat} (h : ∀ y ∈ span x n, y ∉ s) :
    (s ∪ span x n) \ span x n = s :=
  union_sdiff_cancel_right (disjoint_right.mpr h)

namespace Pool

variable {p p' : Pool} {spot : Nat → Spot} {loose : Finset Int}

/-! ### Carve cursors -/

def withCarve (p : Pool) (c : SizeClass) (cur : Cursor) : Pool :=
  p.withBucket c { p.bucket c with carve := cur }

theorem carve_withCarve (p : Pool) (c d : SizeClass) (cur : Cursor) :
    ((p.withCarve c cur).bucket d).carve = if d = c then cur else (p.bucket d).carve := by
  rw [withCarve, bucket_withBucket]
  split
  · rfl
  · rfl

theorem chain_withCarve (p : Pool) (c : SizeClass) (cur : Cursor) (s : Shelf) :
    (p.withCarve c cur).chain s = p.chain s := by
  cases s with
  | front d =>
    simp only [chain, withCarve, bucket_withBucket]
    split
    · rename_i h
      rw [h]
    · rfl
  | back => rfl

/-! ### Claims -/

/-- The pool has `n` bytes more, which are loose. -/
structure Claimed (p : Pool) (spot : Nat → Spot) (loose : Finset Int) (x : Int) (n : Nat)
    (p' : Pool) : Prop where
  sound : p'.Sound spot (loose ∪ span x n)
  fresh : ∀ y ∈ span x n, y ∉ loose
  window : p.arena.window.Extends p'.arena.window
  roster : p'.roster = p.roster
  blockSize : p'.blockSize = p.blockSize

theorem Sound.claimFront (h : p.Sound spot loose) {n : Nat} {a : Arena}
    (ha : p.arena.Claimed .front n a) (hn : p.blockSize ∣ n) :
    p.Claimed spot loose p.arena.front.next n { p with arena := a } := by
  have hfront : a.front.next = p.arena.front.next + n := ha.next
  have hback : a.back = p.arena.back := ha.other .back Side.noConfusion
  have hledger : ({ p with arena := a } : Pool).ledger (loose ∪ span p.arena.front.next n) =
      (p.ledger loose).claimFront n := by
    simp only [Pool.ledger, hfront, hback]
    rfl
  refine ⟨⟨⟨h.block, ha.sound, ?_, h.roster, ?_, h.carve_dvd, fun c => ?_⟩, ?_⟩, ?_,
    ha.extends_window, rfl, rfl⟩
  · rintro (_ | _)
    · show p.blockSize ∣ a.front.next
      rw [hfront]
      exact Nat.dvd_add (h.block_dvd .front) hn
    · show p.blockSize ∣ a.back.next
      rw [hback]
      exact h.block_dvd .back
  · rw [hledger]
    exact h.ledger.claimFront n
  · have hle := h.carve_stop c
    show (p.bucket c).carve.stop ≤ a.front.next
    omega
  · exact h.toFiled.congr rfl rfl rfl rfl fun _ => rfl
  · intro y hy hloose
    have hwithin := (h.ledger.within .loose y hloose).2
    have hy' := mem_span.mp hy
    simp only [Pool.ledger] at hwithin
    omega

theorem Sound.claimBack (h : p.Sound spot loose) {n : Nat} {a : Arena}
    (ha : p.arena.Claimed .back n a) (hn : p.blockSize ∣ n) :
    p.Claimed spot loose (-(p.arena.back.next + n : Nat)) n { p with arena := a } := by
  have hback : a.back.next = p.arena.back.next + n := ha.next
  have hfront : a.front = p.arena.front := ha.other .front Side.noConfusion
  have hledger : ({ p with arena := a } : Pool).ledger
      (loose ∪ span (-(p.arena.back.next + n : Nat)) n) = (p.ledger loose).claimBack n := by
    simp only [Pool.ledger, hfront, hback]
    rfl
  refine ⟨⟨⟨h.block, ha.sound, ?_, h.roster, ?_, h.carve_dvd, fun c => ?_⟩, ?_⟩, ?_,
    ha.extends_window, rfl, rfl⟩
  · rintro (_ | _)
    · show p.blockSize ∣ a.front.next
      rw [hfront]
      exact h.block_dvd .front
    · show p.blockSize ∣ a.back.next
      rw [hback]
      exact Nat.dvd_add (h.block_dvd .back) hn
  · rw [hledger]
    exact h.ledger.claimBack n
  · show (p.bucket c).carve.stop ≤ a.front.next
    rw [hfront]
    exact h.carve_stop c
  · exact h.toFiled.congr rfl rfl rfl rfl fun _ => rfl
  · intro y hy hloose
    have hwithin := (h.ledger.within .loose y hloose).1
    have hy' := mem_span.mp hy
    simp only [Pool.ledger] at hwithin
    omega

theorem Grounded.admitsBlock (h : p.Grounded loose) (c : SizeClass) (side : Side) :
    Arena.AdmitsBlock c.bytes ∧ (p.arena.cursor side).next + c.bytes < word32 := by
  have hlargest : c.bytes ≤ 2 ^ 21 := c.bytes_le_largest
  have hhalf := h.arena.next_le_half side
  refine ⟨⟨c.bytes_pos, Nat.le_trans hlargest (by decide)⟩, ?_⟩
  simp only [word32]
  omega

theorem allocFront_meets [Host] (h : p.Sound spot loose) {n : Nat} (hn : Arena.AdmitsBlock n)
    (hdvd : p.blockSize ∣ n) (hword : (p.arena.cursor .front).next + n < word32) :
    (onArena (Arena.alloc n)).Meets p
      (fun offset p' => offset = p.arena.front.next ∧ p.Claimed spot loose offset n p')
      (refusing p.Unfed) := by
  simp only [onArena, meets_focus_refusing]
  refine (Arena.alloc_meets h.arena hn hword).mono ?_ ?_
  · intro _ a hres
    obtain ⟨rfl, ha⟩ := hres
    exact ⟨rfl, h.claimFront ha hdvd⟩
  · exact fun why a hrefused => ⟨a, rfl, hrefused⟩

theorem allocBack_arena_meets [Host] (h : p.Sound spot loose) :
    (onArena (Arena.allocBack p.blockSize)).Meets p
      (fun offset p' => offset + p.blockSize ≤ 0 ∧ p.Claimed spot loose offset p.blockSize p')
      (refusing p.Unfed) := by
  obtain ⟨c, hc⟩ := h.block.exists_bytes
  obtain ⟨hadmits, hword⟩ := h.admitsBlock c .back
  rw [hc] at hadmits hword
  simp only [onArena, meets_focus_refusing]
  refine (Arena.allocBack_meets h.arena hadmits hword).mono ?_ ?_
  · intro _ a hres
    obtain ⟨rfl, ha⟩ := hres
    exact ⟨by omega, h.claimBack ha (Nat.dvd_refl _)⟩
  · exact fun why a hrefused => ⟨a, rfl, hrefused⟩

/-! ### Pieces -/

theorem ledger_withCarve (c : SizeClass) (cur : Cursor) :
    (p.withCarve c cur).ledger loose =
      { p.ledger loose with carve := Function.update (p.ledger loose).carve c cur } := by
  refine Ledger.ext rfl rfl rfl (funext fun d => ?_) rfl rfl rfl rfl
  show ((p.withCarve c cur).bucket d).carve = Function.update (p.ledger loose).carve c cur d
  rw [carve_withCarve, Function.update_apply]
  rfl

theorem Sound.withCarve (h : p.Sound spot loose) {c : SizeClass} {cur : Cursor}
    {loose' : Finset Int} (hledger : ((p.withCarve c cur).ledger loose').Sound)
    (hnext : c.bytes ∣ cur.next) (hstop : c.bytes ∣ cur.stop)
    (hle : cur.stop ≤ p.arena.front.next) : (p.withCarve c cur).Sound spot loose' := by
  refine ⟨⟨h.block, h.arena, h.block_dvd, h.roster, hledger, fun d => ?_, fun d => ?_⟩, ?_⟩
  · rw [carve_withCarve]
    split
    · rename_i hd
      rw [hd]
      exact ⟨hnext, hstop⟩
    · exact h.carve_dvd d
  · rw [carve_withCarve]
    split
    · exact hle
    · exact h.carve_stop d
  · exact h.toFiled.congr rfl rfl rfl rfl (chain_withCarve p c cur)

theorem Sound.takePiece (h : p.Sound spot loose) {c : SizeClass} {cur : Cursor}
    (hcur : (p.bucket c).carve = cur) (hfits : cur.next + c.bytes ≤ cur.stop) :
    p.Claimed spot loose cur.next c.bytes (p.withCarve c ⟨cur.next + c.bytes, cur.stop⟩) := by
  have hcarve : (p.ledger loose).carve c = cur := hcur
  have hdvd := h.carve_dvd c
  have hle := h.carve_stop c
  rw [hcur] at hdvd hle
  refine ⟨h.withCarve ?_ (Nat.dvd_add hdvd.1 (Nat.dvd_refl _)) hdvd.2 hle, ?_, .refl _, rfl, rfl⟩
  · have htake := h.ledger.take (c := c) (n := c.bytes) (by rw [hcarve]; exact hfits)
    rw [Ledger.take, hcarve] at htake
    rw [ledger_withCarve]
    exact htake
  · intro y hy hloose
    have hy' := mem_span.mp hy
    have howns : (p.ledger loose).Owns (.carve c) y := by
      simp only [Ledger.Owns, hcarve]
      omega
    exact Owner.noConfusion (h.ledger.apart (.carve c) .loose y howns hloose)

/-- A class that finds no room for a piece has nothing left to carve. -/
theorem Grounded.used_up (h : p.Grounded loose) {c : SizeClass} {cur : Cursor}
    (hcur : (p.bucket c).carve = cur) (hfull : cur.stop < cur.next + c.bytes) :
    cur.next = cur.stop := by
  have hle : cur.next ≤ cur.stop := hcur ▸ h.ledger.carve_le c
  have hdvd := h.carve_dvd c
  rw [hcur] at hdvd
  have hdiff : c.bytes ∣ cur.stop - cur.next := Nat.dvd_sub hdvd.2 hdvd.1
  have hzero := Nat.eq_zero_of_dvd_of_lt hdiff (by omega)
  omega

/-- The first piece of a new block, for a class that has used up its old one. -/
theorem Claimed.firstPiece {x : Nat} (h : p.Claimed spot loose x p.blockSize p') {c : SizeClass}
    (hx : p.blockSize ∣ x) (hend : x + p.blockSize ≤ p'.arena.front.next)
    (hempty : (p'.bucket c).carve.next = (p'.bucket c).carve.stop) (hc : c.bytes ≤ p.blockSize) :
    p.Claimed spot loose x c.bytes (p'.withCarve c ⟨x + c.bytes, x + p.blockSize⟩) := by
  have hblock : SizeClass.IsSize p.blockSize := h.blockSize ▸ h.sound.block
  have hdvd : c.bytes ∣ p.blockSize := c.powerOfTwo_bytes.dvd_of_le hblock.1 hc
  have hx' : c.bytes ∣ x := Nat.dvd_trans hdvd hx
  have hfresh : ∀ y ∈ span (x : Int) c.bytes, y ∉ loose := fun y hy =>
    h.fresh y (span_subset_span (Int.le_refl _) (by omega) hy)
  refine ⟨h.sound.withCarve ?_ (Nat.dvd_add hx' (Nat.dvd_refl _)) (Nat.dvd_add hx' hdvd) hend,
    hfresh, h.window, h.roster, h.blockSize⟩
  -- the class gets the whole block first, and then parts with the piece
  have hrefill := h.sound.ledger.refill (c := c) (x := x) (n := p.blockSize)
    subset_union_right hempty
  have htake := hrefill.take (c := c) (n := c.bytes) (by
    simp only [Ledger.refill, Function.update_self]
    omega)
  rw [ledger_withCarve]
  simp only [Ledger.take, Ledger.refill, Function.update_self, Function.update_idem] at htake
  have hloose : (p'.ledger (loose ∪ span x p.blockSize)).loose \ span x p.blockSize = loose :=
    union_sdiff_span h.fresh
  rw [hloose] at htake
  exact htake

/-! ### Fresh memory -/

@[simp] theorem withCarve_withCarve (p : Pool) (c : SizeClass) (cur cur' : Cursor) :
    (p.withCarve c cur).withCarve c cur' = p.withCarve c cur' := by
  have hbucket : (p.withCarve c cur).bucket c = { p.bucket c with carve := cur } :=
    (bucket_withBucket ..).trans (if_pos rfl)
  rw [withCarve, hbucket]
  simp only [withCarve, withBucket, Vector.set_set]

@[simp] theorem withCarve_carve (p : Pool) (c : SizeClass) :
    p.withCarve c (p.bucket c).carve = p := by
  show { p with buckets := p.buckets.set c p.buckets[c.val] } = p
  rw [Vector.set_getElem_self]

theorem Unfed.withCarve [Host] {c : SizeClass} {cur : Cursor} {why : Refusal} {q : Pool}
    (h : (p.withCarve c cur).Unfed why q) : p.Unfed why (q.withCarve c (p.bucket c).carve) := by
  obtain ⟨a, rfl, ha⟩ := h
  refine ⟨a, ?_, ha⟩
  show ({ (p.withCarve c cur).withCarve c (p.bucket c).carve with arena := a } : Pool) = _
  rw [withCarve_withCarve, withCarve_carve]

theorem publish_meets (c : SizeClass) (cur : Cursor) :
    (onCarve c (Cursor.publish cur)).Meets p (fun _ q => q = p.withCarve c cur) Never := by
  simp only [onCarve, meets_focus_never, Cursor.publish, meets_bind, meets_get, meets_set,
    meets_pure]
  rfl

theorem reserve_meets {c : SizeClass} {cur : Cursor} (hcur : (p.bucket c).carve = cur)
    (hword : cur.next + c.bytes < word32) :
    (onCarve c (Cursor.reserve c.bytes)).Meets p
      (fun answer q => answer = cur.verdict c.bytes ∧
        q = p.withCarve c ⟨cur.next + c.bytes, cur.stop⟩) Never := by
  simp only [onCarve, meets_focus_never, Cursor.reserve, meets_bind, meets_get, meets_set,
    meets_ensure_never, meets_pure, hcur, Cursor.bump_of_lt hword]
  exact ⟨hword, trivial, rfl⟩

/-- What is carved for a class that has used up its block, `cur` being where its cursor was. -/
theorem newBlock_meets [Host] (h : p.Sound spot loose) {c : SizeClass} {cur : Cursor}
    (hcur : (p.bucket c).carve = cur) (hsmall : c.bytes < p.blockSize)
    (hempty : cur.next = cur.stop) {r : Refusal → Pool → Prop} :
    (onArena (Arena.alloc p.blockSize)).Meets (p.withCarve c ⟨cur.next + c.bytes, cur.stop⟩)
      (fun offset q => (do
        let next ← addWord (asUnsigned offset) c.bytes
        let stop ← addWord (asUnsigned offset) p.blockSize
        let _ ← onCarve c (Cursor.publish ⟨next, stop⟩)
        return offset : Act Pool Int).Meets q
          (fun offset p' => 0 ≤ offset ∧ (c.bytes : Int) ∣ offset ∧
            p.Claimed spot loose offset c.bytes p')
          (refusing r))
      (refusing (p.withCarve c ⟨cur.next + c.bytes, cur.stop⟩).Unfed) := by
  obtain ⟨d, hd⟩ := h.block.exists_bytes
  obtain ⟨hadmits, hword⟩ := h.admitsBlock d .front
  rw [hd] at hadmits hword
  have halloc := allocFront_meets h hadmits (Nat.dvd_refl _) hword
  simp only [onArena, meets_focus_refusing] at halloc ⊢
  refine halloc.mono ?_ ?_
  · intro _ a hres
    obtain ⟨rfl, hp'⟩ := hres
    have hin := hp'.sound.loose_bounds subset_union_right h.block.pos
    have ha := hp'.sound.claimed_le.1
    have hlargest : p.blockSize ≤ 2 ^ 21 := h.block.2.2
    dsimp only at hin ha
    have hunsigned : asUnsigned (p.arena.front.next : Int) = p.arena.front.next :=
      asUnsigned_of_lt (by simp only [word32]; omega)
    simp only [meets_bind, meets_addWord, hunsigned, meets_pure]
    refine ⟨by simp only [word32]; omega, by simp only [word32]; omega, ?_⟩
    apply (publish_meets c _).sure
    rintro _ _ rfl
    have hdvd : c.bytes ∣ p.blockSize :=
      c.powerOfTwo_bytes.dvd_of_le h.block.1 (Nat.le_of_lt hsmall)
    refine ⟨Int.natCast_nonneg _,
      Int.natCast_dvd_natCast.mpr (Nat.dvd_trans hdvd (h.block_dvd .front)), ?_⟩
    have hpiece := hp'.firstPiece (c := c) (h.block_dvd .front) (by dsimp only; omega)
      (by rw [← hcur] at hempty; exact hempty) (Nat.le_of_lt hsmall)
    rw [← withCarve_withCarve _ c ⟨cur.next + c.bytes, cur.stop⟩] at hpiece
    exact hpiece
  · rintro why _ ⟨a, ha, hrefused⟩
    exact ⟨a, congrArg (fun q : Pool => ({ p.withCarve c _ with arena := q.arena } : Pool)) ha,
      hrefused⟩

/-- Fresh memory for a class: loose, aligned, and nobody's until now. -/
theorem carve_meets [Host] (h : p.Sound spot loose) (c : SizeClass) :
    (carve c).Meets p
      (fun offset p' => 0 ≤ offset ∧ ((min c.bytes p.blockSize : Nat) : Int) ∣ offset ∧
        p.Claimed spot loose offset c.bytes p')
      (refusing p.Unfed) := by
  simp only [carve, meets_bind, meets_get, meets_ite]
  refine ⟨fun hlarge => ?_, fun hsmall => ?_⟩
  · obtain ⟨hadmits, hword⟩ := h.admitsBlock c .front
    have hdvd := h.block.1.dvd_of_le c.powerOfTwo_bytes hlarge
    refine (allocFront_meets h hadmits hdvd hword).mono ?_ fun _ _ => id
    intro offset p' hres
    obtain ⟨rfl, hp'⟩ := hres
    rw [Nat.min_eq_right hlarge]
    exact ⟨Int.natCast_nonneg _, Int.natCast_dvd_natCast.mpr (h.block_dvd .front), hp'⟩
  · rw [Nat.not_le] at hsmall
    generalize hcur : (p.bucket c).carve = cur
    have hle : cur.next ≤ cur.stop := hcur ▸ h.ledger.carve_le c
    have hstop : cur.stop ≤ p.arena.front.next := hcur ▸ h.carve_stop c
    have hclaimed := h.claimed_le.1
    have hpos := c.bytes_pos
    have hlargest : p.blockSize ≤ 2 ^ 21 := h.block.2.2
    apply (reserve_meets hcur (by simp only [word32]; omega)).sure
    intro _ _ hres
    obtain ⟨rfl, rfl⟩ := hres
    rw [Nat.min_eq_left (Nat.le_of_lt hsmall)]
    by_cases hfits : cur.next + c.bytes ≤ cur.stop
    · rw [Cursor.verdict_eq_fits.mpr ⟨hfits, rfl⟩]
      dsimp only
      rw [asSigned_of_lt (by omega), meets_pure]
      have hdvd := (h.carve_dvd c).1
      rw [hcur] at hdvd
      exact ⟨Int.natCast_nonneg _, Int.natCast_dvd_natCast.mpr hdvd, h.takePiece hcur hfits⟩
    · rw [Nat.not_le] at hfits
      rw [Cursor.verdict_eq_mustGrow.mpr ⟨hfits, hle, rfl⟩]
      refine (meets_bind ..).mpr (Meets.attempt ((newBlock_meets h hcur hsmall
        (h.used_up hcur hfits)).mono (fun _ _ => id) ?_))
      intro why q hrefused
      apply (publish_meets c cur).bind_sure
      rintro _ _ rfl
      rw [meets_refuse, refusing_refused, ← hcur]
      exact hrefused.withCarve

/-! ### Records for fresh memory -/

/-- Fresh memory gets a record, or is given up because the roster refuses one. -/
theorem enroll_meets [Host] {p' : Pool} {x : Int} {n : Nat} (h : p.Claimed spot loose x n p')
    (hfits : ∃ s, (⟨0, 0, x, n⟩ : Record).Fits p.blockSize s) :
    (enroll x n).Meets p'
      (fun i q => spot i = .unborn ∧ q.Sound (move spot i 1 .hand) loose ∧
        (q.roster.record i).offset = x ∧ (q.roster.record i).size = n ∧
          Kept p q spot (move spot i 1 .hand) {i})
      (refusing fun why q => (q.Sound spot loose ∧ Kept p q spot spot ∅) ∧
        ∃ p'', p'.Unlisted (p.roster.length + 1) why p'' ∧
          q = { p'' with leaked := p''.leaked + n }) := by
  have hroster := h.sound.roster
  have hlength := h.sound.length_le
  have hloose : (loose ∪ span x n) \ span x n = loose := union_sdiff_span h.fresh
  refine (meets_bind ..).mpr (Meets.attempt ?_)
  simp only [onRoster, meets_focus_refusing]
  refine (Roster.add_meets hroster Nat.one_pos (by simp only [word32]; omega)).mono ?_ ?_
  · intro _ r hres
    obtain ⟨rfl, hr⟩ := hres
    have hassign := Roster.assign_meets hr.sound (i := p'.roster.length)
      (by rw [hr.length]; omega) x n
    refine ((onRoster_meets (p := { p' with roster := r }) hassign).bind_sure ?_)
    intro _ _ hres
    obtain ⟨r', rfl, hedited, hoffset, hsize⟩ := hres
    have hlist : p'.roster.Enlisted r' x n 1 := hr.enlisted hedited hoffset hsize
    have hsound := h.sound.enlist hlist (by rw [Nat.one_mul]; exact subset_union_right)
      fun j hj => by
        obtain ⟨s, hs⟩ := hfits
        obtain rfl := Nat.lt_one_iff.mp hj
        refine ⟨s, ?_⟩
        simp only [Record.Fits, Nat.add_zero, hoffset, hsize, h.blockSize] at hs ⊢
        exact hs
    rw [Nat.one_mul, hloose] at hsound
    have hunborn := (h.sound.unborn p'.roster.length).mpr (Nat.le_refl _)
    refine ⟨hunborn, hsound, hoffset, hsize, h.window, h.blockSize, fun j hj _ => move_of_ne hj,
      fun j _ hj => ?_⟩
    show r'.record j = p.roster.record j
    rw [hlist.kept j (h.sound.born_of_busy hj), h.roster]
  · intro why r hrefused
    have hunlisted : p'.Unlisted (p.roster.length + 1) why { p' with roster := r } :=
      ⟨r, rfl, h.roster ▸ hrefused⟩
    have hleak := (hunlisted.refused.sound h.sound).leak (x := x) (n := n) subset_union_right
    have hkept := hunlisted.refused.kept h.sound ∅
    rw [hloose] at hleak
    simp only [meets_bind, meets_modify, meets_refuse, refusing_refused]
    refine ⟨⟨hleak, h.window, h.blockSize, fun _ _ _ => rfl, fun j hj hbusy => ?_⟩, _, hunlisted,
      rfl⟩
    exact (hkept.records j hj hbusy).trans (congrArg (fun r : Roster => r.record j) h.roster)

/-! ### Larger chunks -/

theorem size_ledger {i : Nat} (hi : i < p.roster.length) :
    (p.ledger loose).size i = (p.roster.record i).size := if_pos hi

/-- The ledger of a pool with a record that keeps its low `n` bytes only. -/
theorem ledger_shrink {i n : Nat} (hi : i < p.roster.length) {r : Roster}
    (hr : p.roster.Edited r {i}) (hri : r.record i = { p.roster.record i with size := n }) :
    ({ p with roster := r } : Pool).ledger
        (loose ∪ span ((p.roster.record i).offset + n) ((p.roster.record i).size - n)) =
      (p.ledger loose).shrink i n := by
  have hoffset : (p.ledger loose).offset i = (p.roster.record i).offset := if_pos hi
  have hkept : ∀ j, j ≠ i → r.record j = p.roster.record j := fun j hj => hr.kept j hj
  rw [Ledger.shrink, hoffset, size_ledger hi]
  refine Ledger.ext hr.length (funext fun j => ?_) (funext fun j => ?_) rfl rfl rfl rfl rfl
  · show (if j < r.length then (r.record j).offset else 0) =
      if j < p.roster.length then (p.roster.record j).offset else 0
    rw [hr.length]
    by_cases hj : j = i
    · rw [hj, hri]
    · rw [hkept j hj]
  · show (if j < r.length then (r.record j).size else 0) =
      Function.update (p.ledger loose).size i n j
    rw [hr.length]
    by_cases hj : j = i
    · rw [hj, hri, Function.update_self, if_pos hi]
    · rw [hkept j hj, Function.update_of_ne hj]
      rfl

theorem Sound.shrink (h : p.Sound spot loose) {i n : Nat} (hi : spot i = .hand) {r : Roster}
    (hr : p.roster.Edited r {i}) (hri : r.record i = { p.roster.record i with size := n })
    (hn : n ≤ (p.roster.record i).size) (hfits : ∃ s, (r.record i).Fits p.blockSize s) :
    ({ p with roster := r } : Pool).Sound spot
      (loose ∪ span ((p.roster.record i).offset + n) ((p.roster.record i).size - n)) := by
  have hborn : i < p.roster.length := h.born (hi ▸ Spot.noConfusion)
  have hkept : ∀ j, j ≠ i → r.record j = p.roster.record j := fun j hj => hr.kept j hj
  have hlink : ∀ j, r.link j = p.roster.link j := by
    intro j
    by_cases hj : j = i
    · rw [hj, Roster.link, hri]
      rfl
    · rw [Roster.link, hkept j hj]
      rfl
  refine ⟨⟨h.block, h.arena, h.block_dvd, hr.sound h.roster, ?_, h.carve_dvd, h.carve_stop⟩, ?_⟩
  · rw [ledger_shrink hborn hr hri]
    refine h.ledger.shrink hborn ?_
    rwa [size_ledger hborn]
  exact {
    unborn := fun j => (h.unborn j).trans (by rw [hr.length])
    live := h.live
    count := h.count
    chained := fun s => (h.chained s).congr fun j _ => hlink j
    fits := fun j hj => by
      by_cases hji : j = i
      · exact hji ▸ hfits
      · show ∃ s, (r.record j).Fits p.blockSize s
        rw [hkept j hji]
        exact h.fits j hj
    fits_shelf := fun j s hj => by
      have hji : j ≠ i := by
        rintro rfl
        exact Spot.noConfusion (hi.symm.trans hj)
      show (r.record j).Fits p.blockSize s
      rw [hkept j hji]
      exact h.fits_shelf j s hj }

theorem cuttable_rest {bs : Nat} (hbs : SizeClass.IsSize bs) {c larger : SizeClass}
    (hlt : c < larger) {x : Int} (hx : ((min larger.bytes bs : Nat) : Int) ∣ x) :
    Cuttable bs (x + c.bytes) (larger.bytes - c.bytes) (largestCut bs (some c.bytes)) := by
  have hbytes := SizeClass.bytes_lt_bytes.mpr hlt
  have hpow := (hbs.1.half hbs.one_lt).min c.powerOfTwo_bytes
  have hend : x + c.bytes + (larger.bytes - c.bytes : Nat) = x + larger.bytes := by omega
  rw [Cuttable, hend]
  refine ⟨fun hle => ?_, ?_⟩
  · have hle' : bs ≤ larger.bytes := by omega
    rw [Nat.min_eq_right hle'] at hx
    exact Int.dvd_add hx
      (Int.natCast_dvd_natCast.mpr (hbs.1.dvd_of_le larger.powerOfTwo_bytes hle'))
  · have hmin : min (bs / 2) c.bytes ∣ min larger.bytes bs :=
      hpow.dvd_of_le (larger.powerOfTwo_bytes.min hbs.1) (by omega)
    have hlarger : min (bs / 2) c.bytes ∣ larger.bytes :=
      hpow.dvd_of_le larger.powerOfTwo_bytes (by omega)
    exact Int.dvd_add (Int.dvd_trans (Int.natCast_dvd_natCast.mpr hmin) hx)
      (Int.natCast_dvd_natCast.mpr hlarger)

/-- The record `i`, in the hands of an operation, has its low `n` bytes left, and the pool the
rest. -/
def CutDown (p : Pool) (spot : Nat → Spot) (loose : Finset Int) (i n : Nat) (p' : Pool) : Prop :=
  p'.arena = p.arena ∧ ∃ spot', p'.Sound spot' loose ∧ spot' i = .hand ∧
    (p'.roster.record i).offset = (p.roster.record i).offset ∧
    (p'.roster.record i).size = n ∧ Kept p p' spot spot' {i}

/-- A larger chunk keeps its low end, and whatever becomes of the rest of it decides. -/
theorem shrink_of_split [Host] (h : p.Sound spot loose) {c larger : SizeClass} (hlt : c < larger)
    {i : Nat} (hi : spot i = .hand) (hfits : (p.roster.record i).Fits p.blockSize (.front larger))
    {P : Pool → Prop}
    (hsplit : ∀ r : Roster, p.roster.Edited r {i} →
      r.record i = { p.roster.record i with size := c.bytes } →
      ({ p with roster := r } : Pool).Sound spot (loose ∪
        span ((p.roster.record i).offset + c.bytes) ((p.roster.record i).size - c.bytes)) →
      (splitChunk ((p.roster.record i).offset + c.bytes) ((p.roster.record i).size - c.bytes)
        (some c.bytes)).Meets { p with roster := r } (fun _ => P) (refusing fun _ => P)) :
    (shrink larger i c.bytes).Meets p (fun _ => P) Never := by
  have hborn : i < p.roster.length := h.born (hi ▸ Spot.noConfusion)
  have hbytes := SizeClass.bytes_lt_bytes.mpr hlt
  obtain ⟨hoffset, hsize, hdvd⟩ := hfits
  have hmin : min c.bytes p.blockSize ∣ min larger.bytes p.blockSize :=
    (c.powerOfTwo_bytes.min h.block.1).dvd_of_le (larger.powerOfTwo_bytes.min h.block.1) (by omega)
  have hin := h.record_bounds (i := i) (hi ▸ Spot.noConfusion)
  have hclaimed := h.claimed_le.1
  simp only [shrink, meets_bind]
  apply (onRoster_meets (Roster.get_meets h.roster hborn)).imp
  intro _ _ hres
  obtain ⟨_, rfl, rfl, rfl⟩ := hres
  simp only [meets_ensure_never, addSigned, meets_bind, meets_pure]
  refine ⟨hsize, (onRoster_meets (Roster.edit_meets h.roster hborn _)).imp ?_⟩
  intro _ _ hres
  obtain ⟨r, rfl, hr, hri⟩ := hres
  have hfits' : (r.record i).Fits p.blockSize (.front c) := by
    rw [hri]
    exact ⟨hoffset, rfl, Int.dvd_trans (Int.natCast_dvd_natCast.mpr hmin) hdvd⟩
  have hsound := h.shrink hi hr hri (by omega) ⟨_, hfits'⟩
  refine ⟨?_, Meets.attempt (hsplit r hr hri hsound)⟩
  simp only [FitsSigned, signed32]
  omega

/-- The bytes that a chunk has besides its low end are nobody's but its own, and can be cut. -/
theorem Sound.rest_cuttable (h : p.Sound spot loose) {c larger : SizeClass} (hlt : c < larger)
    {i : Nat} (hi : spot i = .hand) (hfits : (p.roster.record i).Fits p.blockSize (.front larger)) :
    (∀ y ∈ span ((p.roster.record i).offset + c.bytes) ((p.roster.record i).size - c.bytes),
      y ∉ loose) ∧
    Cuttable p.blockSize ((p.roster.record i).offset + c.bytes)
      ((p.roster.record i).size - c.bytes) (largestCut p.blockSize (some c.bytes)) := by
  have hbytes := SizeClass.bytes_lt_bytes.mpr hlt
  refine ⟨fun y hy hloose => ?_, ?_⟩
  · have hy' := mem_span.mp hy
    have howns : (p.ledger loose).Owns (.record i) y :=
      (owns_record loose (h.born (hi ▸ Spot.noConfusion)) y).mpr (by omega)
    exact Owner.noConfusion (h.ledger.apart (.record i) .loose y howns hloose)
  · rw [hfits.2.1]
    exact cuttable_rest h.block hlt hfits.2.2

/-- A larger chunk is cut down to a slot of a class; what the roster has no room for is given up. -/
theorem shrink_meets [Host] (h : p.Sound spot loose) {c larger : SizeClass} (hlt : c < larger)
    {i : Nat} (hi : spot i = .hand) (hfits : (p.roster.record i).Fits p.blockSize (.front larger)) :
    (shrink larger i c.bytes).Meets p
      (fun _ p' => p.CutDown spot loose i c.bytes p') Never := by
  obtain ⟨hfresh, hcut⟩ := h.rest_cuttable hlt hi hfits
  refine shrink_of_split h hlt hi hfits fun r hr hri hsound => ?_
  have hcap : ∀ n ∈ some c.bytes, PowerOfTwo n := fun n hn =>
    Option.mem_some.mp hn ▸ c.powerOfTwo_bytes
  have hoffset := hfits.1
  have hsplit := splitChunk_meets hsound (by omega) hcap hcut subset_union_right
  -- the remainder is gone from the loose bytes either way
  have hdone : ∀ p', ({ p with roster := r } : Pool).Absorbed spot
      (loose ∪ span ((p.roster.record i).offset + c.bytes) ((p.roster.record i).size - c.bytes))
      ((p.roster.record i).offset + c.bytes) ((p.roster.record i).size - c.bytes) p' →
      p.CutDown spot loose i c.bytes p' := by
    intro p' hres
    obtain ⟨harena, spot', hsound', hkept⟩ := hres
    rw [union_sdiff_span hfresh] at hsound'
    have hbusy : i ∈ busy spot := Or.inr hi
    have hrecord : p'.roster.record i = r.record i := hkept.records i (Set.notMem_empty i) hbusy
    have hspot : spot' i = spot i := hkept.spots i (Set.notMem_empty i) (Or.inl hbusy)
    refine ⟨harena, spot', hsound', hspot.trans hi, ?_, ?_, ?_⟩
    · rw [hrecord, hri]
    · rw [hrecord, hri]
    · exact ⟨hkept.window, hkept.blockSize, fun j _ => hkept.spots j (Set.notMem_empty j),
        fun j hj hbusy => (hkept.records j (Set.notMem_empty j) hbusy).trans (hr.kept j hj)⟩
  exact hsplit.mono (fun _ p' hp' => hdone p' hp') fun why p' hp' => hdone p' hp'

end Pool

end SlotArena
