import SlotArena.Cursor
import SlotArena.SizeClass
import Mathlib.Algebra.BigOperators.Group.Finset.Basic
import Mathlib.Algebra.BigOperators.Intervals
import Mathlib.Data.Fintype.Basic

/-!
Where the bytes of an arena are. A byte that was claimed belongs to a record, to the block that a
size class carves, or to nobody, and then it is `loose`: on its way from one owner to the next, or
taken by somebody who asked for it directly. Bytes that were given up are only counted.

A sound ledger gives no byte two owners, none outside what was claimed, and adds up. Every operation
of a pool is a sequence of the moves below, and each of them keeps a ledger sound.
-/

namespace SlotArena

open Finset

inductive Owner
  | record (i : Nat)
  | carve (c : SizeClass)
  | loose

@[ext] structure Ledger where
  /-- The number of records. -/
  length : Nat
  offset : Nat → Int
  size : Nat → Nat
  carve : SizeClass → Cursor
  loose : Finset Int
  leaked : Nat
  /-- Bytes claimed above and below the origin. -/
  front : Nat
  back : Nat

namespace Ledger

def Owns (l : Ledger) : Owner → Int → Prop
  | .record i, x => l.offset i ≤ x ∧ x < l.offset i + l.size i
  | .carve c, x => ((l.carve c).next : Int) ≤ x ∧ x < (l.carve c).stop
  | .loose, x => x ∈ l.loose

def recorded (l : Ledger) : Nat := ∑ i ∈ range l.length, l.size i

def carved (l : Ledger) : Nat := ∑ c, (l.carve c).remaining

structure Sound (l : Ledger) : Prop where
  apart : ∀ a b x, l.Owns a x → l.Owns b x → a = b
  within : ∀ a x, l.Owns a x → -(l.back : Int) ≤ x ∧ x < l.front
  balance : l.recorded + l.carved + l.leaked + l.loose.card = l.front + l.back
  carve_le : ∀ c, (l.carve c).next ≤ (l.carve c).stop
  unborn : ∀ i, l.length ≤ i → l.size i = 0

variable {l l' : Ledger}

/-- A move: some bytes pass to the owner `receiver`, from owners that give them up. -/
theorem Sound.of_moved (h : l.Sound) (receiver : Owner)
    (moved : ∀ a x, l'.Owns a x →
      l.Owns a x ∨ (a = receiver ∧ ∃ b, l.Owns b x ∧ ¬ l'.Owns b x))
    (hfront : l'.front = l.front) (hback : l'.back = l.back)
    (balance : l'.recorded + l'.carved + l'.leaked + l'.loose.card =
      l.recorded + l.carved + l.leaked + l.loose.card)
    (carve_le : ∀ c, (l'.carve c).next ≤ (l'.carve c).stop)
    (unborn : ∀ i, l'.length ≤ i → l'.size i = 0) : l'.Sound where
  apart a b x ha hb := by
    rcases moved a x ha with ha' | ⟨rfl, o, ho, hno⟩
    · rcases moved b x hb with hb' | ⟨rfl, o, ho, hno⟩
      · exact h.apart a b x ha' hb'
      · exact absurd ha (h.apart o a x ho ha' ▸ hno)
    · rcases moved b x hb with hb' | ⟨rfl, -⟩
      · exact absurd hb (h.apart o b x ho hb' ▸ hno)
      · rfl
  within a x ha := by
    rw [hfront, hback]
    rcases moved a x ha with ha' | ⟨-, b, hb, -⟩
    · exact h.within a x ha'
    · exact h.within b x hb
  balance := by rw [balance, hfront, hback, h.balance]
  carve_le := carve_le
  unborn := unborn

theorem sum_update {ι : Type} [DecidableEq ι] {s : Finset ι} {i : ι} (hi : i ∈ s) (f : ι → Nat)
    (n : Nat) : ∑ j ∈ s, Function.update f i n j + f i = ∑ j ∈ s, f j + n := by
  rw [sum_update_of_mem hi, ← add_sum_erase s f hi, sdiff_singleton_eq_erase]
  omega

def span (x : Int) (n : Nat) : Finset Int :=
  (range n).map ⟨fun k => x + (k : Nat), fun _ _ h => Int.ofNat.inj (Int.add_left_cancel h)⟩

@[simp] theorem mem_span {x y : Int} {n : Nat} : y ∈ span x n ↔ x ≤ y ∧ y < x + n := by
  simp only [span, mem_map, mem_range]
  constructor
  · intro hy
    obtain ⟨k, hk, rfl⟩ := hy
    show x ≤ x + (k : Nat) ∧ x + (k : Nat) < x + n
    omega
  · intro hy
    refine ⟨(y - x).toNat, by omega, ?_⟩
    show x + ((y - x).toNat : Nat) = y
    omega

@[simp] theorem card_span (x : Int) (n : Nat) : (span x n).card = n := by
  rw [span, card_map, card_range]

theorem card_sdiff_span {s : Finset Int} {x : Int} {n : Nat} (h : span x n ⊆ s) :
    (s \ span x n).card + n = s.card := by
  have hcard := card_sdiff_add_card_eq_card h
  rwa [card_span] at hcard

theorem card_union_span {s : Finset Int} {x : Int} {n : Nat} (h : ∀ y ∈ span x n, y ∉ s) :
    (s ∪ span x n).card = s.card + n := by
  rw [card_union_of_disjoint (disjoint_right.mpr h), card_span]

/-! ### Claims -/

/-- Bytes outside what was claimed so far, in nobody's hands yet. -/
theorem Sound.claim (h : l.Sound) {front back n : Nat} {x : Int} (hfront : l.front ≤ front)
    (hback : l.back ≤ back) (hlo : -(back : Int) ≤ x) (hhi : x + n ≤ front)
    (hout : x + n ≤ -l.back ∨ l.front ≤ x) (hcard : front + back = l.front + l.back + n) :
    { l with front := front, back := back, loose := l.loose ∪ span x n : Ledger }.Sound where
  apart a b y ha hb := by
    have hnew : ∀ a, { l with front := front, back := back, loose := l.loose ∪ span x n :
        Ledger }.Owns a y → l.Owns a y ∨ (a = .loose ∧ y ∈ span x n) := by
      intro a ha
      cases a with
      | record i => exact Or.inl ha
      | carve c => exact Or.inl ha
      | loose => exact (mem_union.mp ha).imp_right fun hy => ⟨rfl, hy⟩
    have hold : ∀ a, l.Owns a y → y ∉ span x n := by
      intro a ha hy
      have hwithin := h.within a y ha
      have hy' := mem_span.mp hy
      omega
    rcases hnew a ha with ha' | ⟨rfl, ha'⟩
    · rcases hnew b hb with hb' | ⟨rfl, hb'⟩
      · exact h.apart a b y ha' hb'
      · exact absurd hb' (hold a ha')
    · rcases hnew b hb with hb' | ⟨rfl, hb'⟩
      · exact absurd ha' (hold b hb')
      · rfl
  within a y ha := by
    have hold : l.Owns a y ∨ y ∈ span x n := by
      cases a with
      | record i => exact Or.inl ha
      | carve c => exact Or.inl ha
      | loose => exact mem_union.mp ha
    rcases hold with hy | hy
    · have hy' := h.within a y hy
      dsimp only
      omega
    · have hy' := mem_span.mp hy
      dsimp only
      omega
  balance := by
    have hbalance := h.balance
    have hunion : (l.loose ∪ span x n).card = l.loose.card + n := by
      refine card_union_span fun y hy hloose => ?_
      have hwithin := h.within .loose y hloose
      have hy' := mem_span.mp hy
      omega
    simp only [recorded, carved] at hbalance ⊢
    omega
  carve_le := h.carve_le
  unborn := h.unborn

def claimFront (l : Ledger) (n : Nat) : Ledger :=
  { l with front := l.front + n, loose := l.loose ∪ span l.front n }

theorem Sound.claimFront (h : l.Sound) (n : Nat) : (l.claimFront n).Sound :=
  h.claim (Nat.le_add_right ..) (Nat.le_refl _) (by omega) (by omega) (Or.inr (Int.le_refl _))
    (by omega)

def claimBack (l : Ledger) (n : Nat) : Ledger :=
  { l with back := l.back + n, loose := l.loose ∪ span (-(l.back + n : Nat)) n }

theorem Sound.claimBack (h : l.Sound) (n : Nat) : (l.claimBack n).Sound :=
  h.claim (Nat.le_refl _) (Nat.le_add_right ..) (Int.le_refl _) (by omega) (Or.inl (by omega))
    (by omega)

/-! ### Records -/

def enrol (l : Ledger) (x : Int) (n : Nat) : Ledger :=
  { l with
    length := l.length + 1
    offset := Function.update l.offset l.length x
    size := Function.update l.size l.length n
    loose := l.loose \ span x n }

theorem Sound.enrol (h : l.Sound) {x : Int} {n : Nat} (hloose : span x n ⊆ l.loose) :
    (l.enrol x n).Sound := by
  refine h.of_moved (.record l.length) (fun a y ha => ?_) rfl rfl ?_ h.carve_le fun i hi => ?_
  · cases a with
    | record i =>
      by_cases hi : i = l.length
      · subst hi
        simp only [Owns, Ledger.enrol, Function.update_self] at ha
        refine Or.inr ⟨rfl, .loose, hloose (mem_span.mpr ha), fun hy => ?_⟩
        exact (mem_sdiff.mp hy).2 (mem_span.mpr ha)
      · simp only [Owns, Ledger.enrol, Function.update_of_ne hi] at ha
        exact Or.inl ha
    | carve c => exact Or.inl ha
    | loose => exact Or.inl (mem_sdiff.mp ha).1
  · have hrecorded : (l.enrol x n).recorded = l.recorded + n := by
      simp only [recorded, Ledger.enrol]
      rw [sum_range_succ, Function.update_self]
      congr 1
      refine sum_congr rfl fun i hi => ?_
      rw [Function.update_of_ne (Nat.ne_of_lt (mem_range.mp hi))]
    have hcarved : (l.enrol x n).carved = l.carved := rfl
    have hcard := card_sdiff_span hloose
    rw [hrecorded, hcarved]
    simp only [Ledger.enrol]
    omega
  · simp only [Ledger.enrol] at hi ⊢
    rw [Function.update_of_ne (by omega)]
    exact h.unborn i (by omega)

/-- `count` records more of `n` bytes each, side by side. -/
def enrolRun (l : Ledger) (x : Int) (n : Nat) : (count : Nat) → Ledger
  | 0 => l
  | count + 1 => (l.enrolRun x n count).enrol (x + (count * n : Nat)) n

theorem enrolRun_loose (l : Ledger) (x : Int) (n count : Nat) :
    (l.enrolRun x n count).loose = l.loose \ span x (count * n) := by
  induction count with
  | zero =>
    ext y
    simp only [enrolRun, Nat.zero_mul, mem_sdiff, mem_span]
    exact ⟨fun hy => ⟨hy, by omega⟩, And.left⟩
  | succ count ih =>
    ext y
    simp only [enrolRun, Ledger.enrol, ih, mem_sdiff, mem_span, Nat.succ_mul, and_assoc]
    generalize count * n = m
    exact and_congr_right fun _ => by omega

theorem enrolRun_eq (l : Ledger) (x : Int) (n count : Nat) :
    l.enrolRun x n count = { l with
      length := l.length + count
      offset := fun i =>
        if l.length ≤ i ∧ i < l.length + count then x + ((i - l.length) * n : Nat) else l.offset i
      size := fun i => if l.length ≤ i ∧ i < l.length + count then n else l.size i
      loose := l.loose \ span x (count * n) } := by
  rw [← enrolRun_loose]
  induction count with
  | zero =>
    have hnone : ∀ i, ¬ (l.length ≤ i ∧ i < l.length) := fun i => by omega
    simp only [enrolRun, hnone, if_false, Nat.add_zero]
  | succ count ih =>
    rw [enrolRun, ih]
    simp only [Ledger.enrol, Ledger.mk.injEq, and_true]
    refine ⟨Nat.add_assoc .., ?_, ?_⟩
    · funext i
      by_cases hi : i = l.length + count
      · subst hi
        have hnew : l.length ≤ l.length + count ∧ l.length + count < l.length + (count + 1) := by
          omega
        rw [Function.update_self, if_pos hnew, Nat.add_sub_cancel_left]
      · have hiff : (l.length ≤ i ∧ i < l.length + (count + 1)) ↔
            (l.length ≤ i ∧ i < l.length + count) := by omega
        rw [Function.update_of_ne hi]
        simp only [hiff]
    · funext i
      by_cases hi : i = l.length + count
      · subst hi
        have hnew : l.length ≤ l.length + count ∧ l.length + count < l.length + (count + 1) := by
          omega
        rw [Function.update_self, if_pos hnew]
      · have hiff : (l.length ≤ i ∧ i < l.length + (count + 1)) ↔
            (l.length ≤ i ∧ i < l.length + count) := by omega
        rw [Function.update_of_ne hi]
        simp only [hiff]

theorem Sound.enrolRun (h : l.Sound) {x : Int} {n count : Nat}
    (hloose : span x (count * n) ⊆ l.loose) : (l.enrolRun x n count).Sound := by
  induction count with
  | zero => exact h
  | succ count ih =>
    have hmul : (count + 1) * n = count * n + n := Nat.succ_mul count n
    refine (ih fun y hy => hloose ?_).enrol fun y hy => ?_
    · rw [mem_span] at hy ⊢
      omega
    · rw [mem_span] at hy
      rw [enrolRun_loose, mem_sdiff, mem_span]
      exact ⟨hloose (mem_span.mpr (by omega)), by omega⟩

def shrink (l : Ledger) (i n : Nat) : Ledger :=
  { l with
    size := Function.update l.size i n
    loose := l.loose ∪ span (l.offset i + n) (l.size i - n) }

theorem Sound.shrink (h : l.Sound) {i n : Nat} (hi : i < l.length) (hn : n ≤ l.size i) :
    (l.shrink i n).Sound := by
  have hcut : ∀ y, y ∈ span (l.offset i + n) (l.size i - n) ↔
      l.offset i + n ≤ y ∧ y < l.offset i + l.size i := by
    intro y
    rw [mem_span]
    omega
  refine h.of_moved .loose (fun a y ha => ?_) rfl rfl ?_ h.carve_le fun j hj => ?_
  · cases a with
    | record j =>
      refine Or.inl ?_
      by_cases hj : j = i
      · subst hj
        simp only [Owns, Ledger.shrink, Function.update_self] at ha ⊢
        omega
      · simp only [Owns, Ledger.shrink, Function.update_of_ne hj] at ha
        exact ha
    | carve c => exact Or.inl ha
    | loose =>
      refine (mem_union.mp ha).imp_right fun hy => ⟨rfl, .record i, ?_, fun ho => ?_⟩
      · have hy' := (hcut y).mp hy
        simp only [Owns]
        omega
      · have hy' := (hcut y).mp hy
        simp only [Owns, Ledger.shrink, Function.update_self] at ho
        omega
  · have hrecorded : (l.shrink i n).recorded + l.size i = l.recorded + n :=
      sum_update (mem_range.mpr hi) l.size n
    have hcarved : (l.shrink i n).carved = l.carved := rfl
    have hcard : (l.shrink i n).loose.card = l.loose.card + (l.size i - n) := by
      refine card_union_span fun y hy hloose => ?_
      have hy' := (hcut y).mp hy
      have howner := h.apart (.record i) .loose y (by simp only [Owns]; omega) hloose
      exact Owner.noConfusion howner
    rw [hcarved, hcard]
    simp only [Ledger.shrink] at hrecorded ⊢
    omega
  · simp only [Ledger.shrink] at hj ⊢
    rw [Function.update_of_ne (by omega)]
    exact h.unborn j hj

/-! ### Blocks that are carved -/

/-- The low `n` bytes of what is left to carve. -/
def take (l : Ledger) (c : SizeClass) (n : Nat) : Ledger :=
  { l with
    carve := Function.update l.carve c ⟨(l.carve c).next + n, (l.carve c).stop⟩
    loose := l.loose ∪ span (l.carve c).next n }

theorem carved_update (l : Ledger) (c : SizeClass) (cursor : Cursor) :
    ∑ d, (Function.update l.carve c cursor d).remaining + (l.carve c).remaining =
      l.carved + cursor.remaining := by
  have hcomp : ∀ d, (Function.update l.carve c cursor d).remaining =
      Function.update (fun d => (l.carve d).remaining) c cursor.remaining d := by
    intro d
    by_cases hd : d = c
    · rw [hd, Function.update_self, Function.update_self]
    · rw [Function.update_of_ne hd, Function.update_of_ne hd]
  simp only [hcomp]
  exact sum_update (mem_univ c) (fun d => (l.carve d).remaining) cursor.remaining

theorem Sound.take (h : l.Sound) {c : SizeClass} {n : Nat}
    (hn : (l.carve c).next + n ≤ (l.carve c).stop) : (l.take c n).Sound := by
  refine h.of_moved .loose (fun a y ha => ?_) rfl rfl ?_ (fun d => ?_) h.unborn
  · cases a with
    | record j => exact Or.inl ha
    | carve d =>
      refine Or.inl ?_
      by_cases hd : d = c
      · subst hd
        simp only [Owns, Ledger.take, Function.update_self] at ha ⊢
        omega
      · simp only [Owns, Ledger.take, Function.update_of_ne hd] at ha
        exact ha
    | loose =>
      refine (mem_union.mp ha).imp_right fun hy => ⟨rfl, .carve c, ?_, fun ho => ?_⟩
      · have hy' := mem_span.mp hy
        simp only [Owns]
        omega
      · have hy' := mem_span.mp hy
        simp only [Owns, Ledger.take, Function.update_self] at ho
        omega
  · have hcarved : (l.take c n).carved + (l.carve c).remaining =
        l.carved + ((l.carve c).stop - ((l.carve c).next + n)) := carved_update l c _
    have hrecorded : (l.take c n).recorded = l.recorded := rfl
    have hcard : (l.take c n).loose.card = l.loose.card + n := by
      refine card_union_span fun y hy hloose => ?_
      have hy' := mem_span.mp hy
      have howner := h.apart (.carve c) .loose y (by simp only [Owns]; omega) hloose
      exact Owner.noConfusion howner
    rw [hrecorded, hcard]
    simp only [Cursor.remaining] at hcarved
    simp only [Ledger.take] at hcarved ⊢
    omega
  · by_cases hd : d = c
    · subst hd
      simpa only [Ledger.take, Function.update_self] using hn
    · simpa only [Ledger.take, Function.update_of_ne hd] using h.carve_le d

/-- Loose bytes to carve, for a class that has none. -/
def refill (l : Ledger) (c : SizeClass) (x n : Nat) : Ledger :=
  { l with
    carve := Function.update l.carve c ⟨x, x + n⟩
    loose := l.loose \ span x n }

theorem Sound.refill (h : l.Sound) {c : SizeClass} {x n : Nat} (hloose : span x n ⊆ l.loose)
    (hempty : (l.carve c).next = (l.carve c).stop) : (l.refill c x n).Sound := by
  refine h.of_moved (.carve c) (fun a y ha => ?_) rfl rfl ?_ (fun d => ?_) h.unborn
  · cases a with
    | record j => exact Or.inl ha
    | carve d =>
      by_cases hd : d = c
      · subst hd
        simp only [Owns, Ledger.refill, Function.update_self] at ha
        have hy : y ∈ span x n := mem_span.mpr (by omega)
        exact Or.inr ⟨rfl, .loose, hloose hy, fun ho => (mem_sdiff.mp ho).2 hy⟩
      · simp only [Owns, Ledger.refill, Function.update_of_ne hd] at ha
        exact Or.inl ha
    | loose => exact Or.inl (mem_sdiff.mp ha).1
  · have hcarved : (l.refill c x n).carved + (l.carve c).remaining =
        l.carved + (x + n - x) := carved_update l c _
    have hrecorded : (l.refill c x n).recorded = l.recorded := rfl
    have hcard := card_sdiff_span hloose
    rw [hrecorded]
    simp only [Cursor.remaining] at hcarved
    simp only [Ledger.refill] at hcarved ⊢
    omega
  · by_cases hd : d = c
    · subst hd
      simp only [Ledger.refill, Function.update_self]
      omega
    · simpa only [Ledger.refill, Function.update_of_ne hd] using h.carve_le d

/-! ### Bytes given up -/

def leak (l : Ledger) (x : Int) (n : Nat) : Ledger :=
  { l with leaked := l.leaked + n, loose := l.loose \ span x n }

theorem Sound.leak (h : l.Sound) {x : Int} {n : Nat} (hloose : span x n ⊆ l.loose) :
    (l.leak x n).Sound := by
  refine h.of_moved .loose (fun a y ha => ?_) rfl rfl ?_ h.carve_le h.unborn
  · cases a with
    | record j => exact Or.inl ha
    | carve d => exact Or.inl ha
    | loose => exact Or.inl (mem_sdiff.mp ha).1
  · have hcard := card_sdiff_span hloose
    have hrecorded : (l.leak x n).recorded = l.recorded := rfl
    have hcarved : (l.leak x n).carved = l.carved := rfl
    rw [hrecorded, hcarved]
    simp only [Ledger.leak]
    omega

end Ledger

end SlotArena
