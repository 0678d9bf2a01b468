import SlotArena.Proofs.Arena
import SlotArena.Proofs.Ledger
import SlotArena.Proofs.Links
import SlotArena.Pool

/-!
What a pool keeps. Every record has one `Spot`: it is handed out, waits on the shelf that fits it,
or is in the hands of the operation that is running. `Pool.Grounded` says that the bytes of a pool
add up, `Pool.Filed` that its records are where their spots say, and `Pool.Sound` is both. Neither
spots nor loose bytes are part of the pool: the first are read off it, and the second are what the
rest of the world holds of its arena.

The second half follows the smallest operations of a pool, those that move records between a shelf,
a hand and the live ones.
-/

namespace SlotArena

open Act Finset

inductive Shelf
  | front (c : SizeClass)
  | back
  deriving DecidableEq

inductive Spot
  /-- Not added yet. -/
  | unborn
  /-- In the hands of an operation. -/
  | hand
  /-- Handed out. -/
  | live
  | shelf (s : Shelf)
  deriving DecidableEq

/-- The range of a record is one that a shelf holds, in a pool with blocks of `blockSize` bytes. -/
def Record.Fits (blockSize : Nat) (v : Record) : Shelf → Prop
  | .front c => 0 ≤ v.offset ∧ v.size = c.bytes ∧ ((min c.bytes blockSize : Nat) : Int) ∣ v.offset
  | .back => v.offset + v.size ≤ 0 ∧ v.size = blockSize

theorem Record.Fits.least_le {bs : Nat} (hbs : SizeClass.IsSize bs) {v : Record} {s : Shelf}
    (h : v.Fits bs s) : SizeClass.least ≤ v.size := by
  cases s with
  | front c => exact h.2.1 ▸ SizeClass.least_le_bytes c
  | back => exact h.2 ▸ hbs.2.1

theorem Record.Fits.pos {bs : Nat} (hbs : SizeClass.IsSize bs) {v : Record} {s : Shelf}
    (h : v.Fits bs s) : 0 < v.size :=
  Nat.lt_of_lt_of_le (by decide) (h.least_le hbs)

namespace Pool

def chain (p : Pool) : Shelf → Chain
  | .front c => (p.bucket c).free
  | .back => p.backFree

def ledger (p : Pool) (loose : Finset Int) : Ledger where
  length := p.roster.length
  offset i := if i < p.roster.length then (p.roster.record i).offset else 0
  size i := if i < p.roster.length then (p.roster.record i).size else 0
  carve c := (p.bucket c).carve
  loose := loose
  leaked := p.leaked
  front := p.arena.front.next
  back := p.arena.back.next

/-- The bytes add up. -/
structure Grounded (p : Pool) (loose : Finset Int) : Prop where
  block : SizeClass.IsSize p.blockSize
  arena : p.arena.Sound
  block_dvd : ∀ side, p.blockSize ∣ (p.arena.cursor side).next
  roster : p.roster.Sound
  ledger : (p.ledger loose).Sound
  carve_dvd : ∀ c, c.bytes ∣ (p.bucket c).carve.next ∧ c.bytes ∣ (p.bucket c).carve.stop
  carve_stop : ∀ c, (p.bucket c).carve.stop ≤ p.arena.front.next

/-- The records are where their spots say. -/
structure Filed (p : Pool) (spot : Nat → Spot) : Prop where
  unborn : ∀ i, spot i = .unborn ↔ p.roster.length ≤ i
  live : ∀ i, spot i = .live ↔ i ∈ p.live
  count : p.liveCount = p.live.size
  chained : ∀ s, Chain.Covers p.roster.link (p.chain s).head {i | spot i = .shelf s}
  fits : ∀ i, spot i ≠ .unborn → ∃ s, (p.roster.record i).Fits p.blockSize s
  fits_shelf : ∀ i s, spot i = .shelf s → (p.roster.record i).Fits p.blockSize s

structure Sound (p : Pool) (spot : Nat → Spot) (loose : Finset Int) : Prop
    extends Grounded p loose, Filed p spot

def busy (spot : Nat → Spot) : Set Nat := {i | spot i = .live ∨ spot i = .hand}

/-- What an operation leaves as it is: all records that were or are in somebody's hands, apart from
those of `moved`. -/
structure Kept (p p' : Pool) (spot spot' : Nat → Spot) (moved : Set Nat) : Prop where
  window : p.arena.window.Extends p'.arena.window
  blockSize : p'.blockSize = p.blockSize
  spots : ∀ i ∉ moved, i ∈ busy spot ∨ i ∈ busy spot' → spot' i = spot i
  records : ∀ i ∉ moved, i ∈ busy spot → p'.roster.record i = p.roster.record i

namespace Kept

variable {p p' p'' : Pool} {spot spot' spot'' : Nat → Spot} {moved : Set Nat}

theorem refl (p : Pool) (spot : Nat → Spot) (moved : Set Nat) : Kept p p spot spot moved :=
  ⟨.refl _, rfl, fun _ _ _ => rfl, fun _ _ _ => rfl⟩

theorem mem_busy (h : Kept p p' spot spot' moved) {i : Nat} (hi : i ∉ moved) :
    i ∈ busy spot' ↔ i ∈ busy spot := by
  have hiff : i ∈ busy spot ∨ i ∈ busy spot' → (i ∈ busy spot' ↔ i ∈ busy spot) := fun hbusy => by
    simp only [busy, Set.mem_ofPred_eq, h.spots i hi hbusy]
  exact ⟨fun hbusy => (hiff (Or.inr hbusy)).mp hbusy, fun hbusy => (hiff (Or.inl hbusy)).mpr hbusy⟩

theorem trans (h : Kept p p' spot spot' moved) (h' : Kept p' p'' spot' spot'' moved) :
    Kept p p'' spot spot'' moved where
  window := h.window.trans h'.window
  blockSize := h'.blockSize.trans h.blockSize
  spots i hi hbusy := by
    have hbusy' : i ∈ busy spot' := by
      rcases hbusy with hbusy | hbusy
      · exact (h.mem_busy hi).mpr hbusy
      · exact (h'.mem_busy hi).mp hbusy
    exact (h'.spots i hi (Or.inl hbusy')).trans (h.spots i hi (Or.inr hbusy'))
  records i hi hbusy :=
    (h'.records i hi ((h.mem_busy hi).mpr hbusy)).trans (h.records i hi hbusy)

theorem move (p : Pool) (spot : Nat → Spot) {q : Pool} (i : Nat)
    (harena : q.arena = p.arena) (hroster : q.roster = p.roster)
    (hblock : q.blockSize = p.blockSize) (spot' : Nat → Spot)
    (hspot : ∀ j, j ≠ i → spot' j = spot j) : Kept p q spot spot' {i} where
  window := harena ▸ .refl _
  blockSize := hblock
  spots j hj _ := hspot j hj
  records j _ _ := by rw [hroster]

end Kept

/-! ### What soundness says -/

section

variable {p p' : Pool} {spot : Nat → Spot} {loose : Finset Int}

theorem Filed.born (h : p.Filed spot) {i : Nat} (hi : spot i ≠ .unborn) : i < p.roster.length := by
  rw [← Nat.not_le, ← h.unborn i]
  exact hi

theorem Filed.born_of_busy (h : p.Filed spot) {i : Nat} (hi : i ∈ busy spot) :
    i < p.roster.length := by
  rcases hi with hi | hi
  · exact h.born (hi ▸ Spot.noConfusion)
  · exact h.born (hi ▸ Spot.noConfusion)

theorem owns_record (loose : Finset Int) {i : Nat} (hi : i < p.roster.length) (x : Int) :
    (p.ledger loose).Owns (.record i) x ↔ (p.roster.record i).offset ≤ x ∧
      x < (p.roster.record i).offset + (p.roster.record i).size := by
  simp only [Ledger.Owns, Pool.ledger, if_pos hi]

theorem Grounded.congr (h : p.Grounded loose) (hblock : p'.blockSize = p.blockSize)
    (harena : p'.arena = p.arena) (hroster : p'.roster.Sound)
    (hledger : p'.ledger loose = p.ledger loose)
    (hcarve : ∀ c, (p'.bucket c).carve = (p.bucket c).carve) : p'.Grounded loose where
  block := hblock ▸ h.block
  arena := harena ▸ h.arena
  block_dvd := hblock ▸ harena ▸ h.block_dvd
  roster := hroster
  ledger := hledger ▸ h.ledger
  carve_dvd c := hcarve c ▸ h.carve_dvd c
  carve_stop c := hcarve c ▸ harena ▸ h.carve_stop c

theorem Filed.congr (h : p.Filed spot) (hblock : p'.blockSize = p.blockSize)
    (hroster : p'.roster = p.roster) (hlive : p'.live = p.live)
    (hcount : p'.liveCount = p.liveCount) (hchain : ∀ s, p'.chain s = p.chain s) :
    p'.Filed spot where
  unborn := hroster ▸ h.unborn
  live := hlive ▸ h.live
  count := by rw [hcount, hlive, h.count]
  chained s := by rw [hroster, hchain s]; exact h.chained s
  fits := by rw [hroster, hblock]; exact h.fits
  fits_shelf := by rw [hroster, hblock]; exact h.fits_shelf

theorem ledger_relinked {r : Roster} {changed : Set Nat} (h : p.roster.Relinked r changed) :
    ({ p with roster := r } : Pool).ledger loose = p.ledger loose := by
  simp only [ledger, h.offset, h.size, h.length]
  rfl

/-- What a pool is left as that was refused memory or records: only the window that was to grow can
tell. -/
inductive Refused [Host] (p : Pool) : Refusal → Pool → Prop
  | memory {cramped : Prop} {why : Refusal} {a : Arena} (h : p.arena.Refused cramped why a) :
      p.Refused why { p with arena := a }
  | records {wanted : Nat} {why : Refusal} {r : Roster} (h : p.roster.Refused wanted why r) :
      p.Refused why { p with roster := r }

namespace Refused

variable [Host] {why : Refusal}

theorem sound (h : p.Refused why p') (hp : p.Sound spot loose) : p'.Sound spot loose := by
  cases h with
  | memory h =>
    have ha := h.sound hp.arena
    obtain ⟨w, rfl, -⟩ := h
    exact ⟨{ hp.toGrounded with arena := ha }, { hp.toFiled with }⟩
  | records h =>
    have hr := h.sound hp.roster
    rw [h.eq_withWindow] at hr ⊢
    exact ⟨{ hp.toGrounded with roster := hr }, { hp.toFiled with }⟩

theorem kept (h : p.Refused why p') (hp : p.Sound spot loose) (moved : Set Nat) :
    Kept p p' spot spot moved := by
  cases h with
  | memory h =>
    obtain ⟨w, rfl, hw⟩ := h
    exact ⟨hw.extends_window hp.arena.window, rfl, fun _ _ _ => rfl, fun _ _ _ => rfl⟩
  | records h =>
    rw [h.eq_withWindow]
    exact ⟨.refl _, rfl, fun _ _ _ => rfl, fun _ _ _ => rfl⟩

end Refused

def Unfed [Host] (p : Pool) (why : Refusal) (p' : Pool) : Prop :=
  ∃ a, p' = { p with arena := a } ∧ p.arena.Refused True why a

theorem Unfed.refused [Host] {why : Refusal} (h : p.Unfed why p') : p.Refused why p' := by
  obtain ⟨a, rfl, ha⟩ := h
  exact .memory ha

def Unlisted [Host] (p : Pool) (wanted : Nat) (why : Refusal) (p' : Pool) : Prop :=
  ∃ r, p' = { p with roster := r } ∧ p.roster.Refused wanted why r

theorem Unlisted.refused [Host] {wanted : Nat} {why : Refusal} (h : p.Unlisted wanted why p') :
    p.Refused why p' := by
  obtain ⟨r, rfl, hr⟩ := h
  exact .records hr

theorem Unlisted.arena [Host] {wanted : Nat} {why : Refusal} (h : p.Unlisted wanted why p') :
    p'.arena = p.arena := by
  obtain ⟨r, rfl, -⟩ := h
  rfl

end

/-! ### Changing one part of a pool -/

theorem bucket_withBucket (p : Pool) (c d : SizeClass) (b : Bucket) :
    (p.withBucket c b).bucket d = if d = c then b else p.bucket d := by
  show (p.buckets.set c b)[d.val] = if d = c then b else p.buckets[d.val]
  simp only [Vector.getElem_set, Fin.ext_iff, eq_comm]

def withChain (p : Pool) (c : Chain) : Shelf → Pool
  | .front d => p.withBucket d { p.bucket d with free := c }
  | .back => { p with backFree := c }

section

variable (p : Pool) (c : Chain) (s : Shelf)

@[simp] theorem withChain_arena : (p.withChain c s).arena = p.arena := by cases s <;> rfl

@[simp] theorem withChain_roster : (p.withChain c s).roster = p.roster := by cases s <;> rfl

@[simp] theorem withChain_blockSize : (p.withChain c s).blockSize = p.blockSize := by
  cases s <;> rfl

@[simp] theorem withChain_live : (p.withChain c s).live = p.live := by cases s <;> rfl

@[simp] theorem withChain_liveCount : (p.withChain c s).liveCount = p.liveCount := by
  cases s <;> rfl

@[simp] theorem withChain_leaked : (p.withChain c s).leaked = p.leaked := by cases s <;> rfl

@[simp] theorem carve_withChain (d : SizeClass) :
    ((p.withChain c s).bucket d).carve = (p.bucket d).carve := by
  cases s with
  | front e =>
    rw [withChain, bucket_withBucket]
    split
    · rename_i h
      rw [h]
    · rfl
  | back => rfl

theorem chain_withChain (t : Shelf) :
    (p.withChain c s).chain t = if t = s then c else p.chain t := by
  cases s with
  | front d =>
    cases t with
    | front e =>
      rw [withChain, chain, bucket_withBucket]
      by_cases h : e = d
      · rw [if_pos h, if_pos (congrArg Shelf.front h)]
      · rw [if_neg h, if_neg fun hs => h (Shelf.front.inj hs)]
        rfl
    | back => rfl
  | back =>
    cases t with
    | front e => rfl
    | back => rfl

@[simp] theorem ledger_withChain (loose : Finset Int) :
    (p.withChain c s).ledger loose = p.ledger loose := by
  simp only [ledger, withChain_arena, withChain_roster, withChain_leaked, carve_withChain]

end

/-! ### Moving records -/

def move (spot : Nat → Spot) (first count : Nat) (target : Spot) : Nat → Spot := fun i =>
  if first ≤ i ∧ i < first + count then target else spot i

section

variable {spot : Nat → Spot} {first count i j : Nat} {t : Spot}

theorem move_of_mem (h : i ∈ Roster.run first count) : move spot first count t i = t := if_pos h

theorem move_of_not_mem (h : i ∉ Roster.run first count) :
    move spot first count t i = spot i := if_neg h

@[simp] theorem move_self : move spot i 1 t i = t :=
  move_of_mem (by simp only [Roster.mem_run]; omega)

theorem move_of_ne (h : j ≠ i) : move spot i 1 t j = spot j :=
  move_of_not_mem (by simp only [Roster.mem_run]; omega)

theorem eq_of_mem_run (h : j ∈ Roster.run i 1) : j = i := by
  simp only [Roster.mem_run] at h
  omega

/-- A move neither fills nor empties a spot that it does not go to or from. -/
theorem move_eq_iff {u : Spot} (h : ∀ i ∈ Roster.run first count, spot i ≠ u) (ht : t ≠ u) :
    move spot first count t j = u ↔ spot j = u := by
  by_cases hj : j ∈ Roster.run first count
  · rw [move_of_mem hj]
    exact iff_of_false ht (h j hj)
  · rw [move_of_not_mem hj]

theorem move_one_eq_iff {u : Spot} (h : spot i ≠ u) (ht : t ≠ u) :
    move spot i 1 t j = u ↔ spot j = u :=
  move_eq_iff (fun _ hj => eq_of_mem_run hj ▸ h) ht

end

section

variable {p : Pool} {spot : Nat → Spot} {loose : Finset Int}

/-- Records that go from a hand to a shelf, when their link words have been written. -/
theorem Sound.shelve (h : p.Sound spot loose) {s : Shelf} {first count : Nat}
    (hhand : ∀ i ∈ Roster.run first count, spot i = .hand)
    (hfits : ∀ i ∈ Roster.run first count, (p.roster.record i).Fits p.blockSize s)
    {r : Roster} {c : Chain} (hr : p.roster.Relinked r (Roster.run first count))
    (hc : ∀ S, Chain.Covers p.roster.link (p.chain s).head S →
      (∀ i ∈ S, i ∉ Roster.run first count) →
        Chain.Covers r.link c.head {i | i ∈ Roster.run first count ∨ i ∈ S}) :
    (({ p with roster := r } : Pool).withChain c s).Sound
      (move spot first count (.shelf s)) loose := by
  have hne : ∀ u, u ≠ .hand → ∀ i ∈ Roster.run first count, spot i ≠ u := by
    rintro u hu i hi rfl
    exact hu (hhand i hi)
  refine ⟨?_, ?_⟩
  · refine h.toGrounded.congr ?_ ?_ ?_ ?_ ?_
    · exact withChain_blockSize ..
    · exact withChain_arena ..
    · rw [withChain_roster]
      exact hr.sound h.roster
    · rw [ledger_withChain, ledger_relinked hr]
    · exact carve_withChain _ _ _
  exact {
    unborn := fun i => by
      rw [withChain_roster, hr.length, ← h.unborn i]
      exact move_eq_iff (hne _ Spot.noConfusion) Spot.noConfusion
    live := fun i => by
      rw [withChain_live, ← h.live i]
      exact move_eq_iff (hne _ Spot.noConfusion) Spot.noConfusion
    count := by
      rw [withChain_live, withChain_liveCount]
      exact h.count
    chained := fun t => by
      rw [chain_withChain, withChain_roster]
      have hnot : ∀ t, ∀ i ∈ {i | spot i = .shelf t}, i ∉ Roster.run first count :=
        fun t i hi hrun => hne _ Spot.noConfusion i hrun hi
      by_cases ht : t = s
      · subst ht
        rw [if_pos rfl]
        refine (hc _ (h.chained t) (hnot t)).of_eq fun i => ?_
        by_cases hi : i ∈ Roster.run first count
        · simp only [Set.mem_ofPred_eq, hi, true_or, move_of_mem hi]
        · simp only [Set.mem_ofPred_eq, hi, false_or, move_of_not_mem hi]
      · rw [if_neg ht]
        refine ((h.chained t).congr fun i hi => ?_).of_eq fun i => ?_
        · rw [Roster.link, Roster.link, hr.kept i (hnot t i hi)]
        · exact (move_eq_iff (hne _ Spot.noConfusion) (fun hs => ht (Spot.shelf.inj hs).symm)).symm
    fits := fun i hi => by
      rw [Ne, move_eq_iff (hne _ Spot.noConfusion) Spot.noConfusion] at hi
      simp only [Record.Fits, withChain_roster, withChain_blockSize, hr.offset, hr.size]
      exact h.fits i hi
    fits_shelf := fun i t hi => by
      simp only [Record.Fits, withChain_roster, withChain_blockSize, hr.offset, hr.size]
      by_cases hrun : i ∈ Roster.run first count
      · rw [move_of_mem hrun, Spot.shelf.injEq] at hi
        exact hi ▸ hfits i hrun
      · rw [move_of_not_mem hrun] at hi
        exact h.fits_shelf i t hi }

theorem Sound.fits_moved (h : p.Sound spot loose) {i : Nat} {t : Spot} (hi : spot i ≠ .unborn)
    (ht : t ≠ .unborn) (j : Nat) (hj : move spot i 1 t j ≠ .unborn) :
    ∃ s, (p.roster.record j).Fits p.blockSize s :=
  h.fits j fun hunborn => hj ((move_one_eq_iff hi ht).mpr hunborn)

theorem Sound.fits_shelf_moved (h : p.Sound spot loose) {i : Nat} {t : Spot}
    (ht : ∀ s, t ≠ .shelf s) (j : Nat) (s : Shelf) (hj : move spot i 1 t j = .shelf s) :
    (p.roster.record j).Fits p.blockSize s := by
  by_cases hji : j = i
  · rw [hji, move_self] at hj
    exact absurd hj (ht s)
  · rw [move_of_ne hji] at hj
    exact h.fits_shelf j s hj

/-- A record that goes from the top of a shelf to a hand. -/
theorem Sound.unshelve (h : p.Sound spot loose) {s : Shelf} {i : Nat} (hi : spot i = .shelf s)
    {c : Chain} (hc : Chain.Covers p.roster.link c.head {j | spot j = .shelf s ∧ j ≠ i}) :
    (p.withChain c s).Sound (move spot i 1 .hand) loose := by
  have hne : ∀ u, .shelf s ≠ u → spot i ≠ u := fun u hu => hi ▸ hu
  refine ⟨?_, ?_⟩
  · refine h.toGrounded.congr ?_ ?_ ?_ ?_ ?_
    · exact withChain_blockSize ..
    · exact withChain_arena ..
    · rw [withChain_roster]
      exact h.roster
    · exact ledger_withChain ..
    · exact carve_withChain _ _ _
  exact {
    unborn := fun j => by
      rw [withChain_roster, ← h.unborn j]
      exact move_one_eq_iff (hne _ Spot.noConfusion) Spot.noConfusion
    live := fun j => by
      rw [withChain_live, ← h.live j]
      exact move_one_eq_iff (hne _ Spot.noConfusion) Spot.noConfusion
    count := by
      rw [withChain_live, withChain_liveCount]
      exact h.count
    chained := fun t => by
      rw [chain_withChain, withChain_roster]
      by_cases ht : t = s
      · subst ht
        rw [if_pos rfl]
        refine hc.of_eq fun j => ?_
        by_cases hj : j = i
        · simp [hj]
        · simp [hj, move_of_ne hj]
      · rw [if_neg ht]
        refine (h.chained t).of_eq fun j => (move_one_eq_iff (hne _ ?_) Spot.noConfusion).symm
        exact fun hs => ht (Spot.shelf.inj hs).symm
    fits := fun j hj => by
      rw [withChain_roster, withChain_blockSize]
      exact h.fits_moved (hne _ Spot.noConfusion) Spot.noConfusion j hj
    fits_shelf := fun j t hj => by
      rw [withChain_roster, withChain_blockSize]
      exact h.fits_shelf_moved (fun _ => Spot.noConfusion) j t hj }

theorem Sound.handOut (h : p.Sound spot loose) {i : Nat} (hi : spot i = .hand) :
    ({ p with live := p.live.insert i, liveCount := p.liveCount + 1 } : Pool).Sound
      (move spot i 1 .live) loose := by
  have hne : ∀ u, .hand ≠ u → spot i ≠ u := fun u hu => hi ▸ hu
  refine ⟨h.toGrounded.congr rfl rfl h.roster rfl fun _ => rfl, ?_⟩
  exact {
    unborn := fun j => by
      rw [← h.unborn j]
      exact move_one_eq_iff (hne _ Spot.noConfusion) Spot.noConfusion
    live := fun j => by
      rw [Std.TreeSet.mem_insert, Std.LawfulEqCmp.compare_eq_iff_eq, ← h.live j]
      by_cases hj : j = i
      · simp [hj]
      · simp [move_of_ne hj, Ne.symm hj]
    count := by
      have hnot : ¬ p.live.contains i := fun hlive =>
        hne _ Spot.noConfusion ((h.live i).mpr (Std.TreeSet.mem_iff_contains.mpr hlive))
      show p.liveCount + 1 = (p.live.insert i).size
      rw [Std.TreeSet.size_insert, if_neg hnot, h.count]
    chained := fun s => (h.chained s).of_eq fun j =>
      (move_one_eq_iff (hne _ Spot.noConfusion) Spot.noConfusion).symm
    fits := h.fits_moved (hne _ Spot.noConfusion) Spot.noConfusion
    fits_shelf := h.fits_shelf_moved fun _ => Spot.noConfusion }

theorem Sound.takeBack (h : p.Sound spot loose) {i : Nat} (hi : spot i = .live) :
    ({ p with live := p.live.erase i, liveCount := p.liveCount - 1 } : Pool).Sound
      (move spot i 1 .hand) loose := by
  have hne : ∀ u, .live ≠ u → spot i ≠ u := fun u hu => hi ▸ hu
  refine ⟨h.toGrounded.congr rfl rfl h.roster rfl fun _ => rfl, ?_⟩
  exact {
    unborn := fun j => by
      rw [← h.unborn j]
      exact move_one_eq_iff (hne _ Spot.noConfusion) Spot.noConfusion
    live := fun j => by
      rw [Std.TreeSet.mem_erase, ← h.live j]
      by_cases hj : j = i
      · simp [hj]
      · simp [move_of_ne hj, Ne.symm hj]
    count := by
      have hmem : p.live.contains i := Std.TreeSet.mem_iff_contains.mp ((h.live i).mp hi)
      show p.liveCount - 1 = (p.live.erase i).size
      rw [Std.TreeSet.size_erase, if_pos hmem, h.count]
    chained := fun s => (h.chained s).of_eq fun j =>
      (move_one_eq_iff (hne _ Spot.noConfusion) Spot.noConfusion).symm
    fits := h.fits_moved (hne _ Spot.noConfusion) Spot.noConfusion
    fits_shelf := h.fits_shelf_moved fun _ => Spot.noConfusion }

/-! ### The operations that move them -/

theorem onRoster_meets {α : Type} {x : Act Roster α} {good : α → Roster → Prop}
    (h : x.Meets p.roster good Never) :
    (onRoster x).Meets p (fun a p' => ∃ r, p' = { p with roster := r } ∧ good a r) Never :=
  (meets_focus_never ..).mpr (h.imp fun _ r hr => ⟨r, rfl, hr⟩)

/-- What becomes of a run of records that is put on a shelf. -/
def Shelved (p : Pool) (spot : Nat → Spot) (loose : Finset Int) (s : Shelf) (first count : Nat)
    (p' : Pool) : Prop :=
  p'.Sound (move spot first count (.shelf s)) loose ∧ p'.arena = p.arena ∧
    p'.blockSize = p.blockSize ∧ p.roster.Relinked p'.roster (Roster.run first count)

theorem Sound.shelved (h : p.Sound spot loose) (s : Shelf) (first : Nat) {count : Nat}
    (hcount : 0 < count) (hhand : ∀ i ∈ Roster.run first count, spot i = .hand)
    (hfits : ∀ i ∈ Roster.run first count, (p.roster.record i).Fits p.blockSize s) :
    ((p.chain s).push first count).Meets p.roster
      (fun c r =>
        p.Shelved spot loose s first count (({ p with roster := r } : Pool).withChain c s))
      Never := by
  have hborn : first + count ≤ p.roster.length := by
    have hlast := h.born (i := first + (count - 1)) (by
      rw [hhand _ (by simp only [Roster.mem_run]; omega)]
      exact Spot.noConfusion)
    omega
  refine (Roster.push_meets h.roster (p.chain s) hcount hborn).imp fun c r hr => ?_
  refine ⟨h.shelve hhand hfits hr.1 hr.2, ?_, ?_, ?_⟩
  · exact withChain_arena ..
  · exact withChain_blockSize ..
  · rw [withChain_roster]
    exact hr.1

theorem pushFree_meets (h : p.Sound spot loose) {c : SizeClass} {first count : Nat}
    (hcount : 0 < count) (hhand : ∀ i ∈ Roster.run first count, spot i = .hand)
    (hfits : ∀ i ∈ Roster.run first count, (p.roster.record i).Fits p.blockSize (.front c)) :
    (pushFree c first count).Meets p
      (fun _ p' => p.Shelved spot loose (.front c) first count p') Never := by
  simp only [pushFree, meets_bind, meets_get]
  apply (onRoster_meets (h.shelved (.front c) first hcount hhand hfits)).imp
  intro chain _ hres
  obtain ⟨r, rfl, hr⟩ := hres
  rw [meets_modify]
  exact hr

theorem pushBack_meets (h : p.Sound spot loose) {i : Nat} (hhand : spot i = .hand)
    (hfits : (p.roster.record i).Fits p.blockSize .back) :
    (pushBack i).Meets p (fun _ p' => p.Shelved spot loose .back i 1 p') Never := by
  simp only [pushBack, meets_bind, meets_get]
  refine (onRoster_meets (h.shelved .back i Nat.one_pos (fun j hj => ?_)
    fun j hj => ?_)).imp ?_
  · rw [eq_of_mem_run hj, hhand]
  · rw [eq_of_mem_run hj]
    exact hfits
  · intro chain _ hres
    obtain ⟨r, rfl, hr⟩ := hres
    rw [meets_modify]
    exact hr

/-- What becomes of a pool when something is asked of a shelf. -/
def Unshelved (p : Pool) (spot : Nat → Spot) (loose : Finset Int) (s : Shelf) :
    Option Nat → Pool → Prop
  | none, p' => p' = p ∧ ∀ i, spot i ≠ .shelf s
  | some i, p' => spot i = .shelf s ∧ p'.Sound (move spot i 1 .hand) loose ∧
      p'.arena = p.arena ∧ p'.roster = p.roster ∧ p'.blockSize = p.blockSize

theorem Sound.unshelved (h : p.Sound spot loose) (s : Shelf) :
    (p.chain s).pop.Meets p.roster
      (fun answer r => r = p.roster ∧ (answer = (none, p.chain s) ∧ (∀ i, spot i ≠ .shelf s) ∨
        ∃ i c, answer = (some i, c) ∧ p.Unshelved spot loose s (some i) (p.withChain c s)))
      Never := by
  have hborn : ∀ i ∈ {i | spot i = .shelf s}, i < p.roster.length := by
    intro i hi
    refine h.born fun hunborn => ?_
    exact Spot.noConfusion (hunborn.symm.trans hi)
  apply (Roster.pop_meets h.roster (h.chained s) hborn).imp
  intro answer r hres
  obtain ⟨hr, ⟨ha, hnone⟩ | ⟨c, ha, hmem, hc⟩⟩ := hres
  · exact ⟨hr, Or.inl ⟨ha, hnone⟩⟩
  · refine ⟨hr, Or.inr ⟨_, c, ha, hmem, h.unshelve hmem hc, ?_, ?_, ?_⟩⟩
    · exact withChain_arena ..
    · exact withChain_roster ..
    · exact withChain_blockSize ..

theorem popBack_meets (h : p.Sound spot loose) :
    popBack.Meets p (p.Unshelved spot loose .back) Never := by
  simp only [popBack, meets_bind, meets_get]
  apply (onRoster_meets (h.unshelved .back)).imp
  intro answer _ hres
  obtain ⟨r, rfl, rfl, ⟨rfl, hnone⟩ | ⟨i, c, rfl, hi⟩⟩ := hres
  · simp only [meets_modify, meets_pure]
    exact ⟨rfl, hnone⟩
  · simp only [meets_modify, meets_pure]
    exact hi

theorem popFree_meets (h : p.Sound spot loose) (c : SizeClass) :
    (popFree c).Meets p (p.Unshelved spot loose (.front c)) Never := by
  simp only [popFree, meets_bind, meets_get, meets_ite, meets_pure]
  refine ⟨fun hempty => ⟨rfl, (h.chained (.front c)).not_mem_of_head hempty⟩, fun hne => ?_⟩
  apply (onRoster_meets (h.unshelved (.front c))).imp
  intro answer _ hres
  obtain ⟨r, rfl, rfl, ⟨rfl, hnone⟩ | ⟨i, chain, rfl, hi⟩⟩ := hres
  · exact absurd ((h.chained (.front c)).head_mem hne).1 (hnone _)
  · simp only [meets_modify]
    exact hi

end

end Pool

end SlotArena
