import SlotArena.Proofs.Roster
import SlotArena.Proofs.Threads
import Mathlib.Data.Set.Finite.Basic
import Mathlib.Data.Set.Insert

/-!
Chains through the records of a roster. `Covers link head S` says that a chain is finite and visits
each record of `S` once and no other; which order it visits them in is not part of it. Pushing adds
records to the set and popping takes the top one away, and neither touches a link word of any other
record (`push_meets`, `pop_meets`).
-/

namespace SlotArena

namespace Chain

/-- The chain at `head` ends, and its records are those of `S`. -/
def Covers (link : Nat → Nat) (head : Nat) (S : Set Nat) : Prop :=
  ∃ records, Threads link head records ∧ ∀ i, i ∈ records ↔ i ∈ S

namespace Covers

variable {link link' : Nat → Nat} {head : Nat} {S T : Set Nat}

theorem congr (h : Covers link head S) (agree : ∀ i ∈ S, link' i = link i) :
    Covers link' head S := by
  obtain ⟨records, ht, hS⟩ := h
  exact ⟨records, ht.congr fun i hi => agree i ((hS i).mp hi), hS⟩

theorem of_eq (h : Covers link head S) (hST : ∀ i, i ∈ S ↔ i ∈ T) : Covers link head T := by
  obtain ⟨records, ht, hS⟩ := h
  exact ⟨records, ht, fun i => (hS i).trans (hST i)⟩

theorem empty (link : Nat → Nat) : Covers link noIndex ∅ :=
  ⟨[], rfl, fun i => by simp⟩

theorem finite (h : Covers link head S) : S.Finite := by
  obtain ⟨records, -, hS⟩ := h
  exact records.toFinset.finite_toSet.subset fun i hi => List.mem_toFinset.mpr ((hS i).mpr hi)

/-- The records of a chain are found by walking along it. -/
theorem unique (h : Covers link head S) (h' : Covers link head T) : S = T := by
  obtain ⟨records, ht, hS⟩ := h
  obtain ⟨others, ht', hT⟩ := h'
  ext i
  rw [← hS i, ← hT i, ht.unique ht']

theorem not_mem_of_head (h : Covers link head S) (hhead : head = noIndex) (i : Nat) : i ∉ S := by
  obtain ⟨records, ht, hS⟩ := h
  cases records with
  | nil => exact fun hi => absurd ((hS i).mpr hi) (List.not_mem_nil)
  | cons r rest => exact absurd (ht.1.symm.trans hhead) ht.2.1

theorem head_mem (h : Covers link head S) (hhead : head ≠ noIndex) :
    head ∈ S ∧ Covers link (link head) {i | i ∈ S ∧ i ≠ head} := by
  obtain ⟨records, ht, hS⟩ := h
  have hnodup := ht.nodup
  cases records with
  | nil => exact absurd ht hhead
  | cons r rest =>
    obtain ⟨rfl, -, hrest⟩ := ht
    refine ⟨(hS head).mp (List.mem_cons_self ..), rest, hrest, fun i => ?_⟩
    have hne := (List.nodup_cons.mp hnodup).1
    rw [Set.mem_ofPred_eq, ← hS i, List.mem_cons]
    constructor
    · exact fun hi => ⟨Or.inr hi, fun h => hne (h ▸ hi)⟩
    · rintro ⟨rfl | hi, hi'⟩
      · exact absurd rfl hi'
      · exact hi

theorem cons {i : Nat} (h : Covers link (link i) S) (hi : i ≠ noIndex) :
    Covers link i {j | j = i ∨ j ∈ S} := by
  obtain ⟨records, ht, hS⟩ := h
  exact ⟨i :: records, ⟨rfl, hi, ht⟩, fun j => by
    rw [List.mem_cons, Set.mem_ofPred_eq, hS j]⟩

theorem run {first : Nat} (count : Nat) (h : Covers link head S)
    (hword : first + count < noIndex)
    (hinner : ∀ j < count, link (first + j) = first + j + 1)
    (hlast : link (first + count) = head) :
    Covers link first {j | (first ≤ j ∧ j ≤ first + count) ∨ j ∈ S} := by
  obtain ⟨records, ht, hS⟩ := h
  refine ⟨_, ht.run count hword hinner hlast, fun j => ?_⟩
  rw [List.mem_append, List.mem_range'_1, hS j, Set.mem_ofPred_eq]
  exact or_congr_left (by omega)

end Covers

end Chain

namespace Roster

open Act

def link (r : Roster) (i : Nat) : Nat := (r.record i).next

/-- `r'` is `r` with other contents of the records in `changed`. -/
structure Edited (r r' : Roster) (changed : Set Nat) : Prop where
  cursor : r'.cursor = r.cursor
  window : r'.window = r.window
  capacity : r'.capacity = r.capacity
  filled : r'.records.filled = r.records.filled
  kept : ∀ i ∉ changed, r'.record i = r.record i

namespace Edited

variable {r r' r'' : Roster} {changed changed' : Set Nat}

theorem refl (r : Roster) (changed : Set Nat) : r.Edited r changed :=
  ⟨rfl, rfl, rfl, rfl, fun _ _ => rfl⟩

theorem trans (h : r.Edited r' changed) (h' : r'.Edited r'' changed) : r.Edited r'' changed where
  cursor := h'.cursor.trans h.cursor
  window := h'.window.trans h.window
  capacity := h'.capacity.trans h.capacity
  filled := h'.filled.trans h.filled
  kept i hi := (h'.kept i hi).trans (h.kept i hi)

theorem mono (h : r.Edited r' changed) (hsub : ∀ i ∈ changed, i ∈ changed') :
    r.Edited r' changed' where
  cursor := h.cursor
  window := h.window
  capacity := h.capacity
  filled := h.filled
  kept i hi := h.kept i fun hc => hi (hsub i hc)

theorem length (h : r.Edited r' changed) : r'.length = r.length := by
  rw [Roster.length, Roster.length, h.cursor]

theorem sound (h : r.Edited r' changed) (hr : r.Sound) : r'.Sound where
  window := h.window ▸ hr.window
  back_eq := h.window ▸ hr.back_eq
  front_eq := by rw [h.window, h.capacity, hr.front_eq]
  capacity_lt := h.capacity ▸ hr.capacity_lt
  next_le := h.cursor ▸ hr.next_le
  stop_eq := by rw [mapped, h.window, h.capacity, h.cursor, hr.stop_eq, mapped]
  filled_eq := by rw [h.filled, h.cursor, hr.filled_eq]

end Edited

theorem Sound.lt_stop {r : Roster} (h : r.Sound) {i : Nat} (hi : i < r.length) :
    i < r.cursor.stop :=
  Nat.lt_of_lt_of_le (h.length_eq ▸ hi) h.next_le

theorem Sound.lt_noIndex {r : Roster} (h : r.Sound) {i : Nat} (hi : i < r.length) :
    i < noIndex :=
  Nat.lt_trans (Nat.lt_of_lt_of_le hi h.length_le_capacity) h.capacity_lt

/-! ### Single records -/

section

variable {r : Roster} {i : Nat}

theorem get_meets (h : r.Sound) (hi : i < r.length) :
    (get i).Meets r (fun v r' => v = r.record i ∧ r' = r) Never := by
  simp only [get, meets_bind, meets_get, meets_ensure_never, meets_pure, and_true]
  exact h.lt_stop hi

theorem edit_meets (h : r.Sound) (hi : i < r.length) (f : Record → Record) :
    (edit i f).Meets r
      (fun _ r' => r.Edited r' {i} ∧ r'.record i = f (r.record i)) Never := by
  apply (get_meets h hi).bind_sure
  intro _ _ hres
  obtain ⟨rfl, rfl⟩ := hres
  rw [meets_modify]
  refine ⟨⟨rfl, rfl, rfl, Records.filled_set .., fun j hj => ?_⟩, ?_⟩
  · exact (Records.get_set ..).trans (if_neg fun hij => hj hij.symm)
  · exact (Records.get_set ..).trans (if_pos rfl)

end

/-! ### Chains -/

/-- `r'` is `r` with other link words in the records of `changed`. -/
structure Relinked (r r' : Roster) (changed : Set Nat) : Prop extends Edited r r' changed where
  offset : ∀ i, (r'.record i).offset = (r.record i).offset
  size : ∀ i, (r'.record i).size = (r.record i).size

theorem Relinked.mono {r r' : Roster} {changed changed' : Set Nat} (h : r.Relinked r' changed)
    (hsub : ∀ i ∈ changed, i ∈ changed') : r.Relinked r' changed' where
  toEdited := h.toEdited.mono hsub
  offset := h.offset
  size := h.size

structure Bare where
  cursor : Cursor
  window : Window
  capacity : Nat
  filled : Nat
  /-- The records, without their link words. -/
  record : Nat → Record

def bare (r : Roster) : Bare :=
  ⟨r.cursor, r.window, r.capacity, r.records.filled, fun i => { r.record i with next := noIndex }⟩

instance : LawfulLinks Roster where
  Rest := Bare
  rest := bare
  knows a i := i < a.cursor.stop
  word := link
  link_meets r i := by
    simp only [Links.link, get, meets_bind, meets_get, meets_ensure, meets_pure, decide_eq_true_eq]
    exact ⟨fun h => ⟨h, rfl, trivial⟩, fun h => ⟨h, trivial⟩⟩
  setLink_meets r i next := by
    simp only [Links.setLink, edit, get, meets_bind, meets_get, meets_ensure, meets_pure,
      meets_modify, decide_eq_true_eq]
    refine ⟨fun h => ⟨h, ?_, funext fun j => ?_⟩, fun h => ⟨h, trivial⟩⟩
    · rw [bare, bare, Records.filled_set]
      refine congrArg (Bare.mk _ _ _ _) (funext fun j => ?_)
      simp only [record, Records.get_set]
      split
      · rename_i hij
        rw [hij]
      · rfl
    · rw [Function.update_apply, link, record, Records.get_set]
      simp only [eq_comm (a := j)]
      split
      · rfl
      · rfl

theorem relinked_of {r r' : Roster} {changed : List Nat}
    (h : LawfulLinks.Rethreaded r r' changed) : r.Relinked r' {i | i ∈ changed} := by
  have hrest : bare r' = bare r := h.rest
  have hrecord : ∀ i, { r'.record i with next := noIndex } = { r.record i with next := noIndex } :=
    fun i => congrFun (congrArg Bare.record hrest) i
  refine ⟨⟨congrArg Bare.cursor hrest, congrArg Bare.window hrest, congrArg Bare.capacity hrest,
    congrArg Bare.filled hrest, fun i hi => ?_⟩, fun i => (congrArg Record.offset (hrecord i) :),
    fun i => (congrArg Record.size (hrecord i) :)⟩
  have hnext : (r'.record i).next = (r.record i).next := h.kept i hi
  calc r'.record i = { ({ r'.record i with next := noIndex } : Record) with
      next := (r'.record i).next } := rfl
    _ = r.record i := by rw [hrecord i, hnext]

def run (first count : Nat) : Set Nat := {i | first ≤ i ∧ i < first + count}

@[simp] theorem mem_run {first count i : Nat} :
    i ∈ run first count ↔ first ≤ i ∧ i < first + count := Iff.rfl

theorem Sound.takes {r : Roster} (h : r.Sound) {first count : Nat} (hcount : 0 < count)
    (hle : first + count ≤ r.length) :
    Chain.Takes (LawfulLinks.rest r) first count := by
  refine ⟨hcount, h.lt_noIndex (by omega), fun i hi => decide_eq_true ?_⟩
  have hi := List.mem_range'_1.mp hi
  exact h.lt_stop (by omega)

/-- A chain with a run on top covers the run as well, and only link words of the run change. -/
theorem push_meets {r : Roster} (h : r.Sound) (c : Chain) {first count : Nat} (hcount : 0 < count)
    (hle : first + count ≤ r.length) :
    (c.push first count).Meets r
      (fun c' r' => r.Relinked r' (run first count) ∧ ∀ S, Chain.Covers r.link c.head S →
        (∀ i ∈ S, i ∉ run first count) →
          Chain.Covers r'.link c'.head {i | i ∈ run first count ∨ i ∈ S}) Never := by
  have htakes := h.takes hcount hle
  refine (Chain.push_meets r c first count).weaken (fun c' r' hres => ?_)
    fun _ _ hres => hres.1 htakes
  obtain ⟨-, rfl, hlinked⟩ := hres
  refine ⟨(relinked_of hlinked.rethreaded).mono fun i hi => List.mem_range'_1.mp hi, ?_⟩
  intro S hS hapart
  obtain ⟨records, ht, hrecords⟩ := hS
  refine ⟨_, hlinked.threads htakes ht fun i hi hmem => ?_, fun i => ?_⟩
  · exact hapart i ((hrecords i).mp hi) (List.mem_range'_1.mp hmem)
  · rw [List.mem_append, List.mem_range'_1, hrecords i]
    rfl

theorem pop_meets {r : Roster} (h : r.Sound) {c : Chain} {S : Set Nat}
    (hc : Chain.Covers r.link c.head S) (hS : ∀ i ∈ S, i < r.length) :
    c.pop.Meets r
      (fun answer r' => r' = r ∧
        (answer = (none, c) ∧ (∀ i, i ∉ S) ∨
          ∃ c', answer = (some c.head, c') ∧ c.head ∈ S ∧
            Chain.Covers r.link c'.head {i | i ∈ S ∧ i ≠ c.head})) Never := by
  simp only [Chain.pop, meets_bind, meets_ite, meets_pure]
  refine ⟨fun hempty => ⟨trivial, Or.inl ⟨trivial, hc.not_mem_of_head hempty⟩⟩, fun hne => ?_⟩
  obtain ⟨hmem, hrest⟩ := hc.head_mem hne
  refine (LawfulLinks.link_meets r c.head).weaken (fun _ _ hres => ?_) fun _ _ hres => ?_
  · obtain ⟨-, rfl, rfl⟩ := hres
    exact ⟨rfl, Or.inr ⟨_, rfl, hmem, hrest⟩⟩
  · exact hres.1 (decide_eq_true (h.lt_stop (hS _ hmem)))

end Roster

end SlotArena
