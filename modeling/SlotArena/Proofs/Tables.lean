import Mathlib.Algebra.BigOperators.Finprod
import SlotArena.Proofs.Balance

/-!
Tables of objects. Any number of objects of one kind can be made, used and given up, each under a
number of its own. A table charges what its entries charge, all together; so what is booked of one
entry is booked of the table (`Books.entry`), and making, using and giving up are booked wherever
they are for a single object.
-/

namespace SlotArena

open Act

variable {σ α : Type}

/-! ### Sums -/

noncomputable def sumOver (t : Nat → Option σ) (f : σ → Nat) : Nat := ∑ᶠ k, (t k).elim 0 f

def FewEntries (t : Nat → Option σ) : Prop := ∃ numbers : Finset Nat, ∀ k ∉ numbers, t k = none

theorem fewEntries_empty : FewEntries fun _ : Nat => (none : Option σ) := ⟨∅, fun _ _ => rfl⟩

theorem FewEntries.update {t : Nat → Option σ} (h : FewEntries t) (k : Nat) (o : Option σ) :
    FewEntries (Function.update t k o) := by
  obtain ⟨numbers, hnone⟩ := h
  refine ⟨insert k numbers, fun j hj => ?_⟩
  rw [Finset.mem_insert, not_or] at hj
  rw [Function.update_of_ne hj.1, hnone j hj.2]

theorem sumOver_eq_sum {t : Nat → Option σ} {numbers : Finset Nat} (h : ∀ k ∉ numbers, t k = none)
    (f : σ → Nat) : sumOver t f = ∑ k ∈ numbers, (t k).elim 0 f := by
  refine finsum_eq_sum_of_support_subset _ fun k hk => ?_
  by_contra hout
  rw [Function.mem_support, h k hout] at hk
  exact hk rfl

theorem sumOver_empty (f : σ → Nat) : sumOver (fun _ => none) f = 0 := finsum_zero

theorem sumOver_of_none {t : Nat → Option σ} (h : ∀ k, t k = none) (f : σ → Nat) :
    sumOver t f = 0 := by
  rw [show t = fun _ => none from funext h, sumOver_empty]

theorem sumOver_zero (t : Nat → Option σ) : sumOver t (fun _ => 0) = 0 := by
  have hzero : ∀ k, (t k).elim 0 (fun _ => 0) = 0 := fun k => by cases t k <;> rfl
  rw [sumOver, finsum_congr hzero, finsum_zero]

theorem sumOver_update {t : Nat → Option σ} (h : FewEntries t) (k : Nat) (o : Option σ)
    (f : σ → Nat) :
    sumOver (Function.update t k o) f + (t k).elim 0 f = sumOver t f + o.elim 0 f := by
  obtain ⟨numbers, hnone⟩ := h
  have hk : k ∈ insert k numbers := Finset.mem_insert_self ..
  have hbefore : ∀ j ∉ insert k numbers, t j = none := fun j hj =>
    hnone j fun hmem => hj (Finset.mem_insert_of_mem hmem)
  have hafter : ∀ j ∉ insert k numbers, Function.update t k o j = none := fun j hj => by
    rw [Function.update_of_ne (ne_of_mem_of_not_mem hk hj).symm, hbefore j hj]
  have hrest : ∑ j ∈ (insert k numbers).erase k, (Function.update t k o j).elim 0 f =
      ∑ j ∈ (insert k numbers).erase k, (t j).elim 0 f :=
    Finset.sum_congr rfl fun j hj => by rw [Function.update_of_ne (Finset.ne_of_mem_erase hj)]
  rw [sumOver_eq_sum hbefore, sumOver_eq_sum hafter, ← Finset.add_sum_erase _ _ hk,
    ← Finset.add_sum_erase _ (fun j => (t j).elim 0 f) hk, hrest, Function.update_self]
  omega

/-! ### What tables charge -/

namespace Account

variable {A : Account σ} {t : Nat → Option σ} {k : Nat}

noncomputable def table (A : Account σ) : Account (Nat → Option σ) where
  keeps t := FewEntries t ∧ ∀ k, A.optional.keeps (t k)
  charge t g := sumOver t (A.charge · g)

theorem table_keeps_empty (A : Account σ) : A.table.keeps fun _ => none :=
  ⟨fewEntries_empty, fun _ => A.keeps_none⟩

theorem Books.entry {es : List Event} {o : Option σ} (h : A.optional.Books (t k) es o) :
    A.table.Books t es (Function.update t k o) := fun ht => by
  obtain ⟨hkeeps, hcharge, hmodest⟩ := h (ht.2 k)
  refine ⟨⟨ht.1.update k o, fun j => ?_⟩, fun g => ?_, hmodest⟩
  · by_cases hjk : j = k
    · rw [hjk, Function.update_self]
      exact hkeeps
    · rw [Function.update_of_ne hjk]
      exact ht.2 j
  · have hsum := sumOver_update ht.1 k o (A.charge · g)
    have hg : ((o.elim 0 (A.charge · g) : Nat) : Int) =
        ((t k).elim 0 (A.charge · g) : Nat) + Event.net g es := hcharge g
    show (sumOver (Function.update t k o) (A.charge · g) : Int) = sumOver t (A.charge · g) + _
    omega

theorem Books.some {s s' : σ} {es : List Event} (h : A.Books s es s') :
    A.optional.Books (some s) es (some s') := fun hs => by
  obtain ⟨hkeeps, hcharge, hmodest⟩ := h (hs s rfl)
  refine ⟨?_, hcharge, hmodest⟩
  rintro _ ⟨⟩
  exact hkeeps

end Account

/-! ### Making, using and giving up -/

namespace Table

def openAt (k : Nat) (x : Act Unit σ) : Act (Nat → Option σ) Unit := do
  let s ← Act.make x
  Act.modify (Function.update · k (some s))

/-- An operation on the object under a number; where there is none it does nothing. -/
def use (k : Nat) (x : Act σ Unit) : Act (Nat → Option σ) Unit := do
  match (← Act.get) k with
  | none => pure ()
  | some s => Act.focus (fun _ => s) (fun t s' => Function.update t k (some s')) x

def discard (k : Nat) (closing : σ → List Event) : Act (Nat → Option σ) Unit := do
  match (← Act.get) k with
  | none => pure ()
  | some s =>
      Act.modify (Function.update · k none)
      Act.emit (closing s)

variable {A : Account σ} {t : Nat → Option σ} {k : Nat}

theorem openAt_books {x : Act Unit σ} (h : A.Opens x) (hk : t k = none) :
    Traces A.table.Books (openAt k x) t := by
  refine (leaves_bind ..).mpr ((leaves_make ..).mpr (Leaves.imp h fun r es _ hbooks => ?_))
  rw [← hk] at hbooks
  cases r with
  | error fault =>
    have hself : Function.update t k none = t := by rw [← hk, Function.update_eq_self]
    have hfailed : A.table.Books t es (Function.update t k none) := .entry hbooks
    rw [hself] at hfailed
    exact hfailed
  | ok s =>
    show A.table.Books t (es ++ []) _
    rw [List.append_nil]
    exact .entry hbooks

theorem use_books {x : Act σ Unit} (h : ∀ s ∈ t k, Traces A.Books x s) :
    Traces A.table.Books (use k x) t := by
  refine traces_get_bind ?_
  cases hk : t k with
  | none => exact A.table.path.refl t
  | some s =>
    refine (leaves_focus ..).mpr (Leaves.imp (h s hk) fun r es s' hbooks => ?_)
    refine .entry ?_
    rw [hk]
    exact .some hbooks

theorem discard_books {closing : σ → List Event}
    (h : ∀ s ∈ t k, A.optional.Books (some s) (closing s) none) :
    Traces A.table.Books (discard k closing) t := by
  refine traces_get_bind ?_
  cases hk : t k with
  | none => exact A.table.path.refl t
  | some s =>
    refine .entry ?_
    rw [hk]
    exact h s hk

end Table

/-! ### Kinds of objects -/

/-- Objects of one kind: how they are made, used and given up, and what that asks for. -/
structure Kind (μ υ σ : Type) where
  make : μ → Act Unit σ
  use : υ → Act σ Unit
  closing : σ → List Event
  /-- The object may be used in this way. -/
  Permits : σ → υ → Prop
  /-- The object may be given up. -/
  Idle : σ → Prop

inductive Handling (μ υ : Type)
  | make (k : Nat) (how : μ)
  | use (k : Nat) (what : υ)
  | drop (k : Nat)

namespace Kind

variable {μ υ : Type} {K : Kind μ υ σ} {A : Account σ} {t : Nat → Option σ}

def perform (K : Kind μ υ σ) : Handling μ υ → Act (Nat → Option σ) Unit
  | .make k how => Table.openAt k (K.make how)
  | .use k what => Table.use k (K.use what)
  | .drop k => Table.discard k K.closing

/-- A new object gets a new number; the rest depends on the object. -/
def Admits (K : Kind μ υ σ) (t : Nat → Option σ) : Handling μ υ → Prop
  | .make k _ => t k = none
  | .use k what => ∀ s ∈ t k, K.Permits s what
  | .drop k => ∀ s ∈ t k, K.Idle s

/-- What is told of an object, from its making to its end, comes to what it charges. -/
structure Balanced (K : Kind μ υ σ) (A : Account σ) : Prop where
  opens : ∀ how, A.Opens (K.make how)
  uses : ∀ s what, K.Permits s what → Traces A.Books (K.use what) s
  closes : ∀ s, K.Idle s → (∀ g, A.charge s g < 2 ^ 63) →
    A.optional.Books (some s) (K.closing s) none

theorem charge_le_table (h : FewEntries t) {k : Nat} {s : σ} (hk : t k = some s) (g : Gauge) :
    A.charge s g ≤ A.table.charge t g := by
  have hsum := sumOver_update h k none (A.charge · g)
  have hentry : (t k).elim 0 (A.charge · g) = A.charge s g := by
    rw [hk]
    rfl
  have hnone : (none : Option σ).elim 0 (A.charge · g) = 0 := rfl
  rw [hentry, hnone] at hsum
  show A.charge s g ≤ sumOver t (A.charge · g)
  omega

theorem Balanced.perform (h : K.Balanced A) {d : Handling μ υ} (hadmits : K.Admits t d)
    (hlt : ∀ g, A.table.charge t g < 2 ^ 63) : Traces A.table.Books (K.perform d) t := by
  intro ht
  cases d with
  | make k how => exact Table.openAt_books (h.opens how) hadmits ht
  | use k what => exact Table.use_books (fun s hs => h.uses s what (hadmits s hs)) ht
  | drop k =>
    refine Table.discard_books (fun s hs => h.closes s (hadmits s hs) fun g => ?_) ht
    exact Nat.lt_of_le_of_lt (charge_le_table ht.1 hs g) (hlt g)

end Kind

end SlotArena
