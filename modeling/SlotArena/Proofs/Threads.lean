import SlotArena.Proofs.Meets
import SlotArena.Chain
import Mathlib.Logic.Function.Basic

/-!
Chains through any store of link words. `Leads` follows the words from one record to the next, and
`LawfulLinks` says what such a store is: one word for each record that exists, and the rest, which
no link word is part of and which tells what records exist. A push threads its run in front of the
chain, or it stops with words of the run rewritten and no others (`Chain.push_meets`); a pop takes
the top off (`Chain.pop_meets`).
-/

namespace SlotArena

open Act

/-! ### Links that lead somewhere -/

/-- From `start` on the link words lead through `elements` to `stop`. -/
def Leads (link : Nat → Nat) : Nat → List Nat → Nat → Prop
  | start, [], stop => start = stop
  | start, e :: rest, stop => start = e ∧ Leads link (link e) rest stop

namespace Leads

variable {link link' : Nat → Nat} {start stop : Nat} {xs ys : List Nat}

theorem congr (h : Leads link start xs stop) (agree : ∀ e ∈ xs, link' e = link e) :
    Leads link' start xs stop := by
  induction xs generalizing start with
  | nil => exact h
  | cons e rest ih =>
    obtain ⟨rfl, hrest⟩ := h
    refine ⟨rfl, ?_⟩
    rw [agree start (List.mem_cons_self ..)]
    exact ih hrest fun e he => agree e (List.mem_cons_of_mem _ he)

theorem append_iff : Leads link start (xs ++ ys) stop ↔
    ∃ middle, Leads link start xs middle ∧ Leads link middle ys stop := by
  induction xs generalizing start with
  | nil => exact ⟨fun h => ⟨start, rfl, h⟩, fun ⟨_, hstart, h⟩ => hstart ▸ h⟩
  | cons e rest ih =>
    constructor
    · rintro ⟨rfl, h⟩
      obtain ⟨middle, hrest, hys⟩ := ih.mp h
      exact ⟨middle, ⟨rfl, hrest⟩, hys⟩
    · rintro ⟨middle, ⟨rfl, hrest⟩, hys⟩
      exact ⟨rfl, ih.mpr ⟨middle, hrest, hys⟩⟩

theorem run {first : Nat} (n : Nat) (hinner : ∀ j < n, link (first + j) = first + j + 1)
    (hlast : link (first + n) = stop) : Leads link first (List.range' first (n + 1)) stop := by
  induction n generalizing first with
  | zero => exact ⟨rfl, hlast⟩
  | succ n ih =>
    have hfirst : link first = first + 1 := hinner 0 (Nat.succ_pos n)
    refine ⟨rfl, ?_⟩
    rw [hfirst]
    refine ih (fun j hj => ?_) ?_
    · rw [Nat.add_right_comm first 1 j]
      exact hinner (j + 1) (Nat.succ_lt_succ hj)
    · rw [Nat.add_right_comm first 1 n]
      exact hlast

end Leads

/-- The records of a chain lead to the word that names no record. -/
theorem Chain.threads_iff {link : Nat → Nat} {head : Nat} {records : List Nat} :
    Threads link head records ↔ Leads link head records noIndex ∧ ∀ r ∈ records, r ≠ noIndex := by
  induction records generalizing head with
  | nil => simp [Threads, Leads]
  | cons r rest ih =>
    rw [Threads, Leads, ih, List.forall_mem_cons]
    constructor
    · exact fun ⟨hhead, hne, hleads, hrest⟩ => ⟨⟨hhead, hleads⟩, hne, hrest⟩
    · exact fun ⟨⟨hhead, hleads⟩, hne, hrest⟩ => ⟨hhead, hne, hleads, hrest⟩

/-! ### Stores of link words -/

/-- Link words that read as they were written last. Reaching for the word of a record that does not
exist stops the operation and changes nothing. -/
class LawfulLinks (σ : Type) [Links σ] where
  /-- What a store is apart from its link words. -/
  Rest : Type
  rest : σ → Rest
  /-- The record exists. -/
  knows : Rest → Nat → Bool
  word : σ → Nat → Nat
  link_meets (s : σ) (i : Nat) : (Links.link i : Act σ Nat).Meets s
    (fun next s' => knows (rest s) i ∧ next = word s i ∧ s' = s)
    (fun _ s' => ¬ knows (rest s) i ∧ s' = s)
  setLink_meets (s : σ) (i next : Nat) : (Links.setLink i next : Act σ Unit).Meets s
    (fun _ s' => knows (rest s) i ∧ rest s' = rest s ∧ word s' = Function.update (word s) i next)
    (fun _ s' => ¬ knows (rest s) i ∧ s' = s)

namespace LawfulLinks

variable {σ : Type} [Links σ] [LawfulLinks σ] {s s' s'' : σ} {changed changed' : List Nat}

/-- `s'` is `s` with other link words in the records of `changed`. -/
structure Rethreaded (s s' : σ) (changed : List Nat) : Prop where
  rest : rest s' = rest s
  kept : ∀ i ∉ changed, word s' i = word s i

theorem Rethreaded.refl (s : σ) (changed : List Nat) : Rethreaded s s changed :=
  ⟨rfl, fun _ _ => rfl⟩

theorem Rethreaded.update (h : Rethreaded s s' changed) {i next : Nat} (hi : i ∈ changed)
    (hrest : LawfulLinks.rest s'' = LawfulLinks.rest s')
    (hword : word s'' = Function.update (word s') i next) : Rethreaded s s'' changed where
  rest := hrest.trans h.rest
  kept j hj := by
    have hne : j ≠ i := fun hji => hj (hji ▸ hi)
    rw [hword, Function.update_of_ne hne, h.kept j hj]

end LawfulLinks

namespace LinkWords

instance : LawfulLinks LinkWords where
  Rest := Nat
  rest := size
  knows size i := i < size
  word := word
  link_meets s i := by
    simp only [Links.link, meets_bind, meets_get, meets_ensure, meets_pure, decide_eq_true_eq]
    exact ⟨fun h => ⟨h, trivial, trivial⟩, fun h => ⟨h, trivial⟩⟩
  setLink_meets s i next := by
    simp only [Links.setLink, meets_bind, meets_get, meets_ensure, meets_set, decide_eq_true_eq]
    refine ⟨fun h => ⟨h, trivial, funext fun j => ?_⟩, fun h => ⟨h, trivial⟩⟩
    rw [word_insert, Function.update_apply]
    simp only [eq_comm]

end LinkWords

namespace Chain

theorem Threads.run {link : Nat → Nat} {head first : Nat} {records : List Nat} (n : Nat)
    (h : Threads link head records) (hword : first + n < noIndex)
    (hinner : ∀ j < n, link (first + j) = first + j + 1) (hlast : link (first + n) = head) :
    Threads link first (List.range' first (n + 1) ++ records) := by
  obtain ⟨hleads, hne⟩ := threads_iff.mp h
  refine threads_iff.mpr ⟨Leads.append_iff.mpr ⟨head, .run n hinner hlast, hleads⟩, fun r hr => ?_⟩
  rcases List.mem_append.mp hr with hr | hr
  · have hr := List.mem_range'_1.mp hr
    omega
  · exact hne r hr

section

variable {σ : Type} [Links σ] [LawfulLinks σ]

open LawfulLinks

/-- A run that a chain takes: there is something in it, it stays below the word that names no
record, and all of it exists. -/
def Takes (a : Rest σ) (first count : Nat) : Prop :=
  0 < count ∧ first + (count - 1) < noIndex ∧ ∀ i ∈ List.range' first count, knows a i

instance (a : Rest σ) (first count : Nat) : Decidable (Takes a first count) :=
  inferInstanceAs (Decidable (_ ∧ _ ∧ _))

/-- The run is linked up, and its last record to what was on top. -/
structure Linked (s s' : σ) (head first count : Nat) : Prop where
  rethreaded : Rethreaded s s' (List.range' first count)
  inner : ∀ j < count - 1, word s' (first + j) = first + j + 1
  last : word s' (first + (count - 1)) = head

theorem Linked.threads {s s' : σ} {head first count : Nat} {records : List Nat}
    (h : Linked s s' head first count) (hrun : Takes (rest s) first count)
    (hold : Threads (word s) head records) (happart : ∀ i ∈ records, i ∉ List.range' first count) :
    Threads (word s') first (List.range' first count ++ records) := by
  have hcount : count = count - 1 + 1 := (Nat.sub_add_cancel hrun.1).symm
  have hkept : Threads (word s') head records :=
    hold.congr fun i hi => h.rethreaded.kept i (happart i hi)
  rw [hcount]
  exact hkept.run _ hrun.2.1 h.inner h.last

/-- The sweep of a push has linked the first `j` records of a run of `n + 1`. -/
structure Swept (s t : σ) (first n j : Nat) : Prop where
  rethreaded : Rethreaded s t (List.range' first (n + 1))
  linked : ∀ k < j, knows (rest s) (first + k) ∧ word t (first + k) = first + k + 1

namespace Swept

variable {s t u : σ} {first n j : Nat}

theorem succ (h : Swept s t first n j) (hj : j < n) (hknows : knows (rest t) (first + j))
    (hrest : rest u = rest t)
    (hword : word u = Function.update (word t) (first + j) (first + j + 1)) :
    Swept s u first n (j + 1) := by
  refine ⟨h.rethreaded.update (List.mem_range'_1.mpr (by omega)) hrest hword, fun k hk => ?_⟩
  rcases Nat.lt_succ_iff_lt_or_eq.mp hk with hk | rfl
  · rw [hword, Function.update_of_ne (by omega)]
    exact h.linked k hk
  · rw [hword, Function.update_self, ← h.rethreaded.rest]
    exact ⟨hknows, rfl⟩

theorem last {head : Nat} (h : Swept s t first n n) (hlast : first + n < noIndex)
    (hknows : knows (rest t) (first + n)) (hrest : rest u = rest t)
    (hword : word u = Function.update (word t) (first + n) head) :
    Takes (rest s) first (n + 1) ∧ Linked s u head first (n + 1) := by
  refine ⟨⟨Nat.succ_pos n, hlast, fun i hi => ?_⟩,
    h.rethreaded.update (List.mem_range'_1.mpr (by omega)) hrest hword, fun k hk => ?_, ?_⟩
  · obtain ⟨hlo, hhi⟩ := List.mem_range'_1.mp hi
    obtain ⟨k, rfl⟩ := Nat.exists_eq_add_of_le hlo
    rcases Nat.lt_succ_iff_lt_or_eq.mp (show k < n + 1 by omega) with hk | rfl
    · exact (h.linked k hk).1
    · rw [← h.rethreaded.rest]
      exact hknows
  · rw [hword, Function.update_of_ne (by omega)]
    exact (h.linked k hk).2
  · rw [hword, Nat.add_sub_cancel, Function.update_self]

/-- A record that does not exist stops the sweep. -/
theorem not_takes (h : Swept s t first n j) (hj : j ≤ n)
    (hunknown : ¬ knows (rest t) (first + j)) : ¬ Takes (rest s) first (n + 1) := by
  rw [h.rethreaded.rest] at hunknown
  exact fun hrun => hunknown (hrun.2.2 _ (List.mem_range'_1.mpr (by omega)))

end Swept

/-- A push takes the run as it should be taken, or leaves all records outside the run alone. -/
theorem push_meets (s : σ) (c : Chain) (first count : Nat) :
    (c.push first count).Meets s
      (fun c' s' => Takes (rest s) first count ∧ c' = c.moveTo first ∧
        Linked s s' c.head first count)
      (fun _ s' => ¬ Takes (rest s) first count ∧
        Rethreaded s s' (List.range' first count)) := by
  simp only [push, meets_bind, meets_ensure]
  refine ⟨fun hcount => ⟨fun hlast => ?_, fun h => ⟨fun hrun => h hrun.2.1, .refl ..⟩⟩,
    fun h => ⟨fun hrun => h hrun.1, .refl ..⟩⟩
  obtain ⟨n, rfl⟩ : ∃ n, count = n + 1 := ⟨count - 1, by omega⟩
  rw [Nat.add_sub_cancel] at hlast ⊢
  have hstart : Swept s s first n 0 := ⟨.refl .., fun k hk => absurd hk (Nat.not_lt_zero k)⟩
  -- the sweep may stop at any record that does not exist; it has only written to the run by then
  refine (Meets.sweep (fun j t => Swept s t first n j) hstart ?_).imp ?_
  · intro j t hj ht
    refine (setLink_meets t (first + j) (first + j + 1)).weaken (fun _ u hu => ?_) fun _ u hu => ?_
    · obtain ⟨hknows, hrest, hword⟩ := hu
      exact ht.succ hj hknows hrest hword
    · obtain ⟨hunknown, rfl⟩ := hu
      exact ⟨ht.not_takes (Nat.le_of_lt hj) hunknown, ht.rethreaded⟩
  · intro _ t ht
    refine (setLink_meets t (first + n) c.head).weaken (fun _ u hu => ?_) fun _ u hu => ?_
    · obtain ⟨hknows, hrest, hword⟩ := hu
      obtain ⟨htakes, hlinked⟩ := ht.last hlast hknows hrest hword
      exact ⟨htakes, rfl, hlinked⟩
    · obtain ⟨hunknown, rfl⟩ := hu
      exact ⟨ht.not_takes (Nat.le_refl n) hunknown, ht.rethreaded⟩

theorem push_one_meets (s : σ) (c : Chain) (i : Nat) :
    (c.push i 1).Meets s (fun _ _ => True) fun _ s' => s' = s ∧ ¬ Takes (rest s) i 1 := by
  simp only [push, meets_bind, meets_ensure, Nat.sub_self, Nat.add_zero, sweep_zero, meets_pure]
  refine ⟨fun _ => ⟨fun hlast => ?_, fun hlast => ⟨trivial, fun htakes => hlast htakes.2.1⟩⟩,
    fun hpos => absurd Nat.one_pos hpos⟩
  refine (setLink_meets s i c.head).weaken (fun _ _ _ => trivial) ?_
  rintro _ _ ⟨hunknown, rfl⟩
  exact ⟨rfl, fun htakes => hunknown (htakes.2.2 i (List.mem_range'_1.mpr (by omega)))⟩

/-- What comes off a chain whose records exist is its top record; none comes off an empty one. -/
theorem pop_meets (s : σ) (c : Chain) {records : List Nat}
    (h : Threads (word s) c.head records) (hknown : ∀ i ∈ records, knows (rest s) i) :
    c.pop.Meets s
      (fun answer s' => s' = s ∧ answer.1 = records.head? ∧
        Threads (word s) answer.2.head records.tail) Never := by
  simp only [pop, meets_bind, meets_ite, meets_pure]
  cases records with
  | nil => exact ⟨fun _ => ⟨trivial, rfl, h⟩, fun hne => absurd h hne⟩
  | cons r rest =>
    obtain ⟨rfl, hne, hrest⟩ := h
    refine ⟨fun hempty => absurd hempty hne, fun _ => ?_⟩
    refine (link_meets s c.head).weaken (fun next t ht => ?_) fun _ t ht => ?_
    · obtain ⟨-, rfl, rfl⟩ := ht
      exact ⟨rfl, rfl, hrest⟩
    · exact ht.1 (hknown c.head (List.mem_cons_self ..))

end

end Chain

end SlotArena
