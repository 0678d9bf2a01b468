import SlotArena.Proofs.Steps

/-!
Ranges with any end. A range that a client gives back need not end at a block: the pool cuts it from
its high end all the same, and either the end is aligned to the first piece that fits, and then to
all later ones, or the first piece is found to be misaligned, and nothing has happened by then
(`returnChunk_meets_any`). So an estate may be offered any range that its client took (`tender`).
The estates that come about with that as well are the `Attainable` ones, and they are as sound as
those that are reached by steps alone.

Main statement: in all of them a request is served with the least power of two that will do, at an
offset aligned to what was asked for and to the size itself, up to a block (`slots_fit`).
-/

namespace SlotArena

open Act Finset Ledger

theorem exists_of_map_eq_ok {α β : Type} {answer : Except Fault α} {f : α → β} {b : β}
    (h : answer.map f = .ok b) : ∃ a, answer = .ok a ∧ f a = b := by
  cases answer with
  | error fault => cases h
  | ok a => exact ⟨a, rfl, Except.ok.inj h⟩

namespace Act

variable {σ α : Type} {x : Act σ α} {s s' : σ} {good : α → σ → Prop} {r r' : Refusal → σ → Prop}

/-- Stops by refusing with `r`, or for any other reason with `s` as it was. -/
def sparing (s : σ) (r : Refusal → σ → Prop) : Fault → σ → Prop
  | .refused why, t => r why t
  | _, t => t = s

@[simp] theorem sparing_refused (why : Refusal) (t : σ) :
    sparing s r (.refused why) t ↔ r why t := Iff.rfl

@[simp] theorem sparing_violated (what : Violation) (t : σ) :
    sparing s r (.violated what) t ↔ t = s := Iff.rfl

theorem Meets.sparing (h : x.Meets s good (refusing r)) (s' : σ) :
    x.Meets s good (sparing s' r) :=
  h.on_refusal (fun _ _ => id) fun _ _ => id

theorem Meets.sparing_mono (h : x.Meets s good (Act.sparing s' r))
    (hr : ∀ why t, r why t → r' why t) : x.Meets s good (Act.sparing s' r') := by
  refine h.weaken (fun _ _ => id) ?_
  rintro (why | _ | _) t ht
  · exact hr why t ht
  · exact ht
  · exact ht

end Act

namespace Pool

variable {p : Pool} {spot : Nat → Spot} {loose : Finset Int}

/-! ### Ranges with any end -/

/-- Pieces of smaller and smaller sizes come off, or the first of them is misaligned. -/
theorem peelDown_meets_any [Host] {offset : Int} (hoffset : 0 ≤ offset) {fuel size remaining : Nat}
    (h : p.Sound spot loose) (hpow : PowerOfTwo size) (hblock : size ≤ p.blockSize)
    (hloose : span offset remaining ⊆ loose) :
    (peelDown offset fuel size remaining).Meets p
      (fun rest p' => rest ≤ remaining ∧
        p.Absorbed spot loose (offset + rest) (remaining - rest) p')
      (sparing p fun _ p' => p.Absorbed spot loose offset remaining p') := by
  induction fuel generalizing size with
  | zero =>
    rw [peelDown, meets_pure, Nat.sub_self]
    exact ⟨Nat.le_refl _, h.absorbed_zero _⟩
  | succ fuel ih =>
    by_cases hend : (size : Int) ∣ offset + remaining
    · have hle : size ≤ SizeClass.largest := Nat.le_trans hblock h.block.2.2
      exact (peelDown_meets hoffset h hpow hle hend hloose).sparing p
    rw [peelDown]
    split
    · rename_i hgo
      have hsize : SizeClass.IsSize size := ⟨hpow, hgo.2, Nat.le_trans hblock h.block.2.2⟩
      by_cases hfits : size ≤ remaining
      · refine (meets_bind ..).mpr
          ((peel_misaligned h hsize hoffset hloose hblock hfits hend).weaken
          (fun _ _ => False.elim) ?_)
        rintro _ _ ⟨rfl, rfl⟩
        exact (sparing_violated ..).mpr rfl
      · rw [peel_none (Nat.lt_of_not_le hfits), pure_bind]
        exact ih (hpow.half hsize.one_lt) (Nat.le_trans (Nat.div_le_self ..) hblock)
    · rw [meets_pure, Nat.sub_self]
      exact ⟨Nat.le_refl _, h.absorbed_zero _⟩

/-- All bytes of a chunk are accounted for wherever it ends, or nothing has happened to it. -/
theorem returnChunk_absorbs [Host] (h : p.Sound spot loose) (offset : Int) {n : Nat}
    (hloose : span offset n ⊆ loose) :
    (returnChunk offset n).Meets p (fun _ p' => p.Absorbed spot loose offset n p')
      (sparing p fun _ p' => p.Absorbed spot loose offset n p') := by
  by_cases hoffset : 0 ≤ offset
  · by_cases hend : (p.blockSize : Int) ∣ offset + n
    · exact (splitChunk_meets h hoffset (fun m hm => absurd hm (Option.not_mem_none m))
        (cuttable_end h.block hend) hloose).sparing p
    simp only [returnChunk, splitChunk, meets_bind, meets_ensure, hoffset, true_implies,
      not_true_eq_false, false_implies, and_true, meets_get, Option.getD_none, Nat.min_self]
    by_cases hfits : p.blockSize ≤ n
    · refine (peel_misaligned h h.block hoffset hloose (Nat.le_refl _) hfits hend).weaken
        (fun _ _ => False.elim) ?_
      rintro _ _ ⟨rfl, rfl⟩
      exact (sparing_violated ..).mpr rfl
    rw [peel_none (Nat.lt_of_not_le hfits), meets_pure]
    refine (peelDown_meets_any hoffset h (h.block.1.half h.block.one_lt) (Nat.div_le_self ..)
      hloose).weaken ?_ fun _ _ => id
    rintro rest p' ⟨hle, harena, spot', hsound, hkept⟩
    simp only [meets_ite, meets_pure]
    refine ⟨fun _ => (leak_meets hsound (span_subset_sdiff hloose hle)).sure fun _ q hleak => ?_,
      fun hzero => ?_⟩
    · have hall : n = rest + (n - rest) := by omega
      rw [hall]
      exact Absorbed.trans harena hkept rfl hleak
    · obtain rfl : rest = 0 := by omega
      rw [Nat.sub_zero, Int.natCast_zero, Int.add_zero] at *
      exact ⟨harena, spot', hsound, hkept⟩
  · simp [returnChunk, splitChunk, meets_ensure, hoffset]

theorem Absorbed.passed (h : p.Sound spot loose) (hhand : ∀ i, spot i ≠ .hand) {x : Int} {n : Nat}
    {p' : Pool} (habsorbed : p.Absorbed spot loose x n p') :
    p'.Valid (loose \ span x n) ∧ p.Passed p' ∅ := by
  obtain ⟨-, spot', hsound, hkept⟩ := habsorbed
  exact ⟨⟨spot', hsound, hkept.no_hand hhand⟩, hkept.passed h hsound⟩

/-- Any pieces can be offered to a pool, as long as they are owned. -/
theorem returnBlocks_meets_any [Host] (h : p.Valid loose) {offset : Int} {count size : Nat}
    (hloose : span offset (count * size) ⊆ loose) :
    (returnBlocks offset count size).Meets p
      (fun _ p' => p'.Valid (loose \ span offset (count * size)) ∧ p.Passed p' ∅)
      fun _ p' => p'.Valid loose ∧ p.Passed p' ∅ := by
  obtain ⟨spot, h, hhand⟩ := h
  by_cases hgood : SizeClass.IsSize size ∧ 0 ≤ offset ∧ min size p.blockSize ∣ offset.toNat
  · obtain ⟨hsize, hoffset, hdvd⟩ := hgood
    rw [← Int.natCast_dvd_natCast, Int.toNat_of_nonneg hoffset] at hdvd
    exact (returnBlocks_meets h hsize hoffset hdvd hloose).on_refusal
      (fun _ _ => Absorbed.passed h hhand) fun _ _ hrefused => hrefused.refused.passed h hhand
  · have hsame : p.Valid loose ∧ p.Passed p ∅ := Valid.passed_self ⟨spot, h, hhand⟩
    simp only [returnBlocks, meets_bind, meets_ite, meets_pure, meets_ensure, meets_get]
    refine ⟨?_, fun _ => ⟨fun hsize => ⟨fun haligned => absurd ⟨hsize, haligned⟩ hgood,
      fun _ => hsame⟩, fun _ => hsame⟩⟩
    rintro rfl
    rw [Nat.zero_mul]
    exact Absorbed.passed h hhand (h.absorbed_zero offset)

theorem returnChunk_meets_any [Host] (h : p.Valid loose) (offset : Int) {n : Nat}
    (hloose : span offset n ⊆ loose) :
    (returnChunk offset n).Meets p
      (fun _ p' => p'.Valid (loose \ span offset n) ∧ p.Passed p' ∅)
      (sparing p fun _ p' => p'.Valid (loose \ span offset n) ∧ p.Passed p' ∅) := by
  obtain ⟨spot, h, hhand⟩ := h
  exact ((returnChunk_absorbs h offset hloose).imp fun _ _ => Absorbed.passed h hhand).sparing_mono
    fun _ _ => Absorbed.passed h hhand

end Pool

namespace Estate

variable {config : PoolConfig} {e e' : Estate} {keeper : Nat → Keeper}

/-! ### What a client may do -/

/-- The client offers a range that it took; it keeps the bytes if the pool will not have them. -/
def tender [Host] (offset : Int) (n : Nat) : Act Estate Unit := do
  match ← (onPool (Pool.returnChunk offset n)).attempt with
  | .ok () => Act.modify fun e => { e with taken := e.taken \ span offset n }
  | .error (.refused why) =>
      Act.modify fun e => { e with taken := e.taken \ span offset n }
      Act.refuse why
  | .error fault => Act.fail fault

/-- The estates that a pool of this configuration can come to, by steps and by ranges with any end
that are offered to it, whatever the host answers each time. -/
inductive Attainable (config : PoolConfig) : Estate → Prop
  | opened [Host] {p : Pool} (made : ((Pool.create config).run ()).result = .ok p) :
      Attainable config (new p)
  | step [Host] {e : Estate} {step : Step} (before : Attainable config e) (admits : e.Admits step)
      (survives : e.Survives step) : Attainable config (e.next step)
  | tender [Host] {e : Estate} {offset : Int} {n : Nat} (before : Attainable config e)
      (owned : span offset n ⊆ e.taken) : Attainable config ((tender offset n).run e).state

theorem tender_meets [Host] (h : e.Sound keeper) {offset : Int} {n : Nat}
    (hsub : span offset n ⊆ e.taken) :
    (tender offset n).Meets e (fun _ e' => e'.Sound keeper) fun _ e' => e'.Sound keeper := by
  have hdone : ∀ p : Pool, p.Valid (e.taken \ span offset n) ∧ e.pool.Passed p ∅ →
      Sound { e with pool := p, taken := e.taken \ span offset n } keeper := fun p hp =>
    h.undisturbed hp.1 (fun x hx => h.forward x (mem_sdiff.mp hx).1) hp.2 fun
      | .client => rfl
      | .stream _ => rfl
      | .allotment _ => rfl
  simp only [tender, meets_bind, meets_attempt, onPool, meets_focus]
  refine (Pool.returnChunk_meets_any h.valid offset hsub).weaken ?_ ?_
  · exact fun _ => hdone
  · rintro (why | _ | _) p hp
    · exact hdone p hp
    · obtain rfl := hp
      exact h
    · obtain rfl := hp
      exact h

theorem Attainable.sound (h : Attainable config e) : ∃ keeper, e.Sound keeper := by
  induction h with
  | opened made =>
    obtain ⟨hvalid, hlive, -, -⟩ := (Pool.create_meets config).of_ok made
    exact ⟨_, new_sound hvalid hlive⟩
  | step _ admits survives ih =>
    obtain ⟨keeper, hsound⟩ := ih
    exact (hsound.next admits survives).sound
  | tender _ owned ih =>
    obtain ⟨keeper, hsound⟩ := ih
    exact ⟨keeper, (tender_meets hsound owned).state⟩

theorem Attainable.valid (h : Attainable config e) : e.pool.Valid e.taken := by
  obtain ⟨keeper, hsound⟩ := h.sound
  exact hsound.valid

/-! ### What is served -/

/-- The size that a request is served with is the least power of two that reaches what was asked
for and the least size. -/
theorem isLeast_servedSize (size align : Nat) :
    IsLeast {n | PowerOfTwo n ∧ max (max size align) SizeClass.least ≤ n}
      (Pool.servedSize size align) := by
  refine ⟨⟨(powerOfTwo_ceilPow2 _).max (powerOfTwo_pow _), ?_⟩, ?_⟩
  · exact max_le_max_right _ (ceilPow2_ge _)
  · rintro n ⟨hpow, hle⟩
    obtain ⟨k, rfl⟩ := powerOfTwo_iff.mp hpow
    exact max_le (ceilPow2_le (le_of_max_le_left hle)) (le_of_max_le_right hle)

/-- Wherever a slot comes from, it has the least size that will do, lies above the origin, and is
aligned to what was asked for and to its own size, up to a block. -/
theorem slots_fit [Host] (h : Attainable config e) {size align : Nat} (hsize : 0 < size)
    (hmax : size ≤ SizeClass.largest) (halign : PowerOfTwo align)
    (hblock : align ≤ e.pool.blockSize) :
    (Pool.alloc size align).Meets e.pool
      (fun slot _ =>
        IsLeast {n | PowerOfTwo n ∧ max (max size align) SizeClass.least ≤ n} slot.size ∧
          0 ≤ slot.offset ∧ (align : Int) ∣ slot.offset ∧
          ((min slot.size e.pool.blockSize : Nat) : Int) ∣ slot.offset)
      (refusing fun _ _ => True) := by
  have hvalid := h.valid
  have haccepts : e.pool.Accepts size align :=
    ⟨halign, hblock, max_le hmax (hblock.trans hvalid.block.2.2)⟩
  refine (Pool.alloc_meets hvalid hsize haccepts).mono ?_ fun _ _ _ => trivial
  intro slot p hres
  obtain ⟨hissued, hoffset, hserved⟩ := hres
  have hleast := isLeast_servedSize size align
  rw [← hserved] at hleast
  have hrecord : (p.roster.record slot.idx).offset = slot.offset := hissued.lent.offset
  have hbytes : (p.roster.record slot.idx).size = slot.size := hissued.lent.size
  -- an alignment that neither the size nor a block falls short of
  have hdvd : ∀ n, PowerOfTwo n → n ≤ slot.size → n ≤ e.pool.blockSize →
      (n : Int) ∣ slot.offset := fun n hpow hle hle' => by
    rw [← hrecord]
    exact hissued.valid.dvd_offset hissued.live (hrecord ▸ hoffset) hpow (hbytes ▸ hle)
      (hissued.passed.blockSize ▸ hle')
  refine ⟨hleast, hoffset, hdvd align halign ?_ hblock, ?_⟩
  · exact ((le_max_right _ _).trans (le_max_left _ _)).trans hleast.1.2
  · exact hdvd _ (hleast.1.1.min hvalid.block.1) (min_le_left _ _) (min_le_right _ _)

section

attribute [local instance] Host.plain

/-- A slot from a range that ends inside a block. -/
theorem slots_fit_of_tendered : ∃ e slot, Attainable { blockSize := 256 } e ∧
    ((Pool.alloc 50 32).run e.pool).result = .ok slot ∧ slot.offset = 64 ∧
    IsLeast {n | PowerOfTwo n ∧ max (max 50 32) SizeClass.least ≤ n} slot.size ∧
    ((min slot.size e.pool.blockSize : Nat) : Int) ∣ slot.offset := by
  have hrun : ∃ p e e', ((Pool.create { blockSize := 256 }).run ()).result = .ok p ∧
      e = (new p).next (.take 256) ∧ e' = ((tender 64 64).run e).state ∧
      256 % p.blockSize = 0 ∧ ((perform (.take 256)).run (new p)).result.isOk ∧
      span 64 64 ⊆ e.taken ∧ 32 ≤ e'.pool.blockSize ∧
      ((Pool.alloc 50 32).run e'.pool).result.map Slot.offset = .ok 64 := by
    refine ⟨_, _, _, rfl, rfl, rfl, ?_⟩
    decide +kernel
  obtain ⟨p, e, e', hp, rfl, rfl, hdvd, hok, hsub, hblock, hserved⟩ := hrun
  have htaken : Attainable { blockSize := 256 } ((new p).next (.take 256)) :=
    .step (.opened hp) (Nat.dvd_of_mod_eq_zero hdvd) (survives_of_ok hok)
  have hattainable := htaken.tender hsub
  obtain ⟨slot, hslot, hoffset⟩ := exists_of_map_eq_ok hserved
  obtain ⟨hleast, -, -, haligned⟩ := (@slots_fit _ _ _ hattainable 50 32 (by decide) (by decide)
    (by decide) hblock).of_ok hslot
  exact ⟨_, slot, hattainable, hslot, hoffset, hleast, haligned⟩

end

end Estate

end SlotArena
