import SlotArena.Proofs.Links
import Mathlib.Data.Fintype.Basic

/-!
Chains that share their link words. A rack is any number of chains over one store of link words.
What is done to it is also done to plain stacks of records, one for each chain: a push puts its run
in front, a pop takes the first record off, and nothing else is said about heads, counts or link
words. The rack follows the stacks deed by deed (`Holds.perform_meets`), so it answers as they do
however long the deeds go on (`chains_are_stacks`).
-/

namespace SlotArena

open Act LawfulLinks

/-- Chains that thread their records through one store of link words. -/
structure Rack (κ σ : Type) where
  links : σ
  chain : κ → Chain

namespace Rack

inductive Deed (κ : Type)
  | push (k : κ) (first count : Nat)
  | pop (k : κ)

variable {κ σ α : Type} [DecidableEq κ] [Links σ]

def empty (s : σ) : Rack κ σ := ⟨s, fun _ => .empty⟩

def onLinks : Act σ α → Act (Rack κ σ) α := focus links fun t l => { t with links := l }

def setChain (k : κ) (c : Chain) : Act (Rack κ σ) Unit :=
  modify fun t => { t with chain := Function.update t.chain k c }

def push (k : κ) (first count : Nat) : Act (Rack κ σ) Unit := do
  let c ← onLinks (((← get).chain k).push first count)
  setChain k c

def pop (k : κ) : Act (Rack κ σ) (Option Nat) := do
  let (top, c) ← onLinks ((← get).chain k).pop
  setChain k c
  return top

/-- Does a deed; only a pop has a record to answer with. -/
def perform : Deed κ → Act (Rack κ σ) (Option Nat)
  | .push k first count => do
      push k first count
      return none
  | .pop k => pop k

/-- What is answered to some deeds, one after the other; a deed that stops answers nothing, and the
next one finds what it left. -/
def answers : List (Deed κ) → Rack κ σ → List (Option (Option Nat))
  | [], _ => []
  | d :: deeds, t =>
      ((perform d).run t).result.toOption :: answers deeds ((perform d).run t).state

def after (deeds : List (Deed κ)) (t : Rack κ σ) : Rack κ σ :=
  deeds.foldl (fun t d => ((perform d).run t).state) t

/-! ### Plain stacks -/

namespace Deed

def on : Deed κ → κ
  | .push k _ _ | .pop k => k

/-- The run that is pushed is on no stack. -/
def Fresh (S : κ → List Nat) : Deed κ → Prop
  | .push _ first count => ∀ i ∈ List.range' first count, ∀ k, i ∉ S k
  | .pop _ => True

instance [Fintype κ] (S : κ → List Nat) : (d : Deed κ) → Decidable (d.Fresh S)
  | .push _ first count =>
      inferInstanceAs (Decidable (∀ i ∈ List.range' first count, ∀ k, i ∉ S k))
  | .pop _ => inferInstanceAs (Decidable True)

variable [LawfulLinks σ]

/-- What stacks become: a run goes on top in ascending order, and the top comes off. -/
def next (a : Rest σ) (S : κ → List Nat) : Deed κ → κ → List Nat
  | .push k first count =>
      if Chain.Takes a first count then
        Function.update S k (List.range' first count ++ S k)
      else S
  | .pop k => Function.update S k (S k).tail

/-- What is answered: only a push stops, and a pop has no record just where there is none. -/
def answer (a : Rest σ) (S : κ → List Nat) : Deed κ → Option (Option Nat)
  | .push _ first count => if Chain.Takes a first count then some none else none
  | .pop k => some (S k).head?

theorem next_of_ne (a : Rest σ) (S : κ → List Nat) (d : Deed κ) {k : κ} (hk : k ≠ d.on) :
    d.next a S k = S k := by
  cases d with
  | push l first count =>
    rw [next]
    split
    · exact Function.update_of_ne hk ..
    · rfl
  | pop l => exact Function.update_of_ne hk ..

theorem next_of_answer (a : Rest σ) (S : κ → List Nat) (d : Deed κ)
    (h : d.answer a S = none) : d.next a S = S := by
  cases d with
  | push l first count =>
    rw [answer] at h
    rw [next]
    split
    · rename_i htakes
      rw [if_pos htakes] at h
      cases h
    · rfl
  | pop l => cases h

end Deed

section

variable [LawfulLinks σ]

def told (a : Rest σ) : List (Deed κ) → (κ → List Nat) → List (Option (Option Nat))
  | [], _ => []
  | d :: deeds, S => d.answer a S :: told a deeds (d.next a S)

def stacked (a : Rest σ) (deeds : List (Deed κ)) (S : κ → List Nat) : κ → List Nat :=
  deeds.foldl (fun S d => d.next a S) S

/-- No deed pushes a record that is on a stack by then. -/
def AllFresh (a : Rest σ) : List (Deed κ) → (κ → List Nat) → Prop
  | [], _ => True
  | d :: deeds, S => d.Fresh S ∧ AllFresh a deeds (d.next a S)

instance decidableAllFresh [Fintype κ] (a : Rest σ) :
    (deeds : List (Deed κ)) → (S : κ → List Nat) → Decidable (AllFresh a deeds S)
  | [], _ => inferInstanceAs (Decidable True)
  | d :: deeds, S => @instDecidableAnd _ _ _ (decidableAllFresh a deeds (d.next a S))

/-! ### The rack follows the stacks -/

/-- The records of chain `k`, top first, as the link words tell. -/
def Shows (t : Rack κ σ) (k : κ) (records : List Nat) : Prop :=
  Chain.Threads (word t.links) (t.chain k).head records

/-- The chains are the stacks, all of whose records exist, and no record is on two of them. -/
structure Holds (t : Rack κ σ) (S : κ → List Nat) : Prop where
  shows : ∀ k, t.Shows k (S k)
  known : ∀ k, ∀ i ∈ S k, knows (rest t.links) i
  apart : ∀ k l, k ≠ l → ∀ i ∈ S k, i ∉ S l

omit [DecidableEq κ] in
theorem holds_empty (s : σ) : (empty s : Rack κ σ).Holds fun _ => [] :=
  ⟨fun _ => rfl, fun _ _ hi => absurd hi List.not_mem_nil, fun _ _ _ _ hi =>
    absurd hi List.not_mem_nil⟩

namespace Holds

variable {t : Rack κ σ} {s : σ} {S : κ → List Nat} {k : κ} {first count : Nat}

/-- One chain may change as long as it keeps to records that no other chain has. -/
theorem replace (h : t.Holds S) {c : Chain} {records : List Nat}
    (hrest : rest s = rest t.links)
    (hkept : ∀ l, l ≠ k → ∀ i ∈ S l, word s i = word t.links i)
    (hshows : Chain.Threads (word s) c.head records)
    (hknown : ∀ i ∈ records, knows (rest t.links) i)
    (happart : ∀ i ∈ records, ∀ l, l ≠ k → i ∉ S l) :
    Holds ⟨s, Function.update t.chain k c⟩ (Function.update S k records) where
  shows l := by
    by_cases hl : l = k
    · subst hl
      simp only [Shows, Function.update_self]
      exact hshows
    · simp only [Shows, Function.update_of_ne hl]
      exact (h.shows l).congr (hkept l hl)
  known l i hi := by
    rw [hrest]
    by_cases hl : l = k
    · subst hl
      rw [Function.update_self] at hi
      exact hknown i hi
    · rw [Function.update_of_ne hl] at hi
      exact h.known l i hi
  apart l m hlm i hi hi' := by
    by_cases hl : l = k
    · subst hl
      rw [Function.update_self] at hi
      rw [Function.update_of_ne hlm.symm] at hi'
      exact happart i hi m hlm.symm hi'
    · rw [Function.update_of_ne hl] at hi
      by_cases hm : m = k
      · subst hm
        rw [Function.update_self] at hi'
        exact happart i hi' l hl hi
      · rw [Function.update_of_ne hm] at hi'
        exact h.apart l m hlm i hi hi'

theorem pushed (h : t.Holds S) (hfresh : ∀ i ∈ List.range' first count, ∀ l, i ∉ S l)
    (htakes : Chain.Takes (rest t.links) first count)
    (hlinked : Chain.Linked t.links s (t.chain k).head first count) :
    Holds ⟨s, Function.update t.chain k ((t.chain k).moveTo first)⟩
      (Function.update S k (List.range' first count ++ S k)) := by
  refine h.replace hlinked.rethreaded.rest (fun l _ i hi => ?_) ?_ (fun i hi => ?_)
    fun i hi l hl => ?_
  · exact hlinked.rethreaded.kept i fun hmem => hfresh i hmem l hi
  · exact hlinked.threads htakes (h.shows k) fun i hi hmem => hfresh i hmem k hi
  · rcases List.mem_append.mp hi with hi | hi
    · exact htakes.2.2 i hi
    · exact h.known k i hi
  · rcases List.mem_append.mp hi with hi | hi
    · exact hfresh i hi l
    · exact h.apart k l hl.symm i hi

theorem popped (h : t.Holds S) {c : Chain}
    (hc : Chain.Threads (word t.links) c.head (S k).tail) :
    Holds ⟨t.links, Function.update t.chain k c⟩ (Function.update S k (S k).tail) :=
  h.replace rfl (fun _ _ _ _ => rfl) hc (fun i hi => h.known k i (List.mem_of_mem_tail hi))
    fun i hi l hl => h.apart k l hl.symm i (List.mem_of_mem_tail hi)

omit [DecidableEq κ] in
theorem rethreaded (h : t.Holds S) {changed : List Nat} (hfresh : ∀ i ∈ changed, ∀ l, i ∉ S l)
    (hs : Rethreaded t.links s changed) : Holds ⟨s, t.chain⟩ S where
  shows l := (h.shows l).congr fun i hi => hs.kept i fun hmem => hfresh i hmem l hi
  known l i hi := by
    rw [hs.rest]
    exact h.known l i hi
  apart := h.apart

/-- A deed answers as it does on plain stacks, and leaves what it leaves of them. -/
theorem perform_meets (h : t.Holds S) {d : Deed κ} (hd : d.Fresh S) :
    (perform d).Meets t
      (fun answer t' => some answer = d.answer (rest t.links) S ∧ rest t'.links = rest t.links ∧
        t'.Holds (d.next (rest t.links) S))
      (fun _ t' => none = d.answer (rest t.links) S ∧ rest t'.links = rest t.links ∧
        t'.Holds (d.next (rest t.links) S)) := by
  cases d with
  | push k first count =>
    simp only [perform, push, onLinks, setChain, meets_bind, meets_get, meets_focus, meets_modify,
      meets_pure, Deed.answer, Deed.next]
    refine (Chain.push_meets t.links (t.chain k) first count).weaken (fun c s hs => ?_)
      fun _ s hs => ?_
    · obtain ⟨htakes, rfl, hlinked⟩ := hs
      rw [if_pos htakes, if_pos htakes]
      exact ⟨rfl, hlinked.rethreaded.rest, h.pushed hd htakes hlinked⟩
    · obtain ⟨htakes, hs⟩ := hs
      rw [if_neg htakes, if_neg htakes]
      exact ⟨rfl, hs.rest, h.rethreaded hd hs⟩
  | pop k =>
    simp only [perform, pop, onLinks, setChain, meets_bind, meets_get, meets_focus, meets_modify,
      meets_pure, Deed.answer, Deed.next]
    refine (Chain.pop_meets t.links (t.chain k) (h.shows k) (h.known k)).sure fun answer s hs => ?_
    obtain ⟨rfl, htop, hc⟩ := hs
    exact ⟨congrArg some htop, rfl, h.popped hc⟩

theorem step (h : t.Holds S) {d : Deed κ} (hd : d.Fresh S) :
    ((perform d).run t).result.toOption = d.answer (rest t.links) S ∧
      rest ((perform d).run t).state.links = rest t.links ∧
        ((perform d).run t).state.Holds (d.next (rest t.links) S) := by
  have hmeets := h.perform_meets hd
  unfold Meets at hmeets
  split at hmeets
  · rename_i answer hanswer
    rw [hanswer]
    exact hmeets
  · rename_i fault hfault
    rw [hfault]
    exact hmeets

theorem run (h : t.Holds S) {deeds : List (Deed κ)} (hdeeds : AllFresh (rest t.links) deeds S) :
    answers deeds t = told (rest t.links) deeds S ∧
      rest (after deeds t).links = rest t.links ∧
        (after deeds t).Holds (stacked (rest t.links) deeds S) := by
  induction deeds generalizing t S with
  | nil => exact ⟨rfl, rfl, h⟩
  | cons d deeds ih =>
    obtain ⟨hanswer, hrest, hnext⟩ := h.step hdeeds.1
    obtain ⟨hanswers, hrest', hholds⟩ := ih hnext (hrest ▸ hdeeds.2)
    rw [hrest] at hanswers hrest' hholds
    refine ⟨?_, hrest', hholds⟩
    rw [answers, told, hanswer, hanswers]

end Holds

/-- Chains that share one store of link words are independent stacks. Whatever is pushed, of records
that are on no chain by then, and popped: the answers are those of plain stacks, and so are the
contents; a deed done to one chain leaves the others as they are, and one that stops leaves all. -/
theorem chains_are_stacks (s : σ) {deeds : List (Deed κ)}
    (hdeeds : AllFresh (rest s) deeds fun _ => []) :
    answers deeds (empty s) = told (rest s) deeds (fun _ => []) ∧
    (∀ k, (after deeds (empty s)).Shows k (stacked (rest s) deeds (fun _ => []) k)) ∧
    ∀ d : Deed κ, d.Fresh (stacked (rest s) deeds fun _ => []) →
      ∀ k, k ≠ d.on ∨ ((perform d).run (after deeds (empty s))).result.toOption = none →
        ((perform d).run (after deeds (empty s))).state.Shows k
          (stacked (rest s) deeds (fun _ => []) k) := by
  obtain ⟨hanswers, hrest, hholds⟩ := (holds_empty (κ := κ) s).run hdeeds
  refine ⟨hanswers, hholds.shows, fun d hd k hk => ?_⟩
  obtain ⟨hanswer, -, hnext⟩ := hholds.step hd
  have hshows := hnext.shows k
  rcases hk with hk | hk
  · rwa [Deed.next_of_ne _ _ d hk] at hshows
  · rwa [Deed.next_of_answer _ _ d (hanswer.symm.trans hk)] at hshows

/-- Two chains over eleven link words: they exchange records, one push is empty, and one runs out of
words half way. -/
theorem chains_are_stacks_of_two : ∃ deeds : List (Deed Bool),
    AllFresh (rest (⟨11, ∅⟩ : LinkWords)) deeds (fun _ => []) ∧
    answers deeds (empty (⟨11, ∅⟩ : LinkWords)) =
      [some none, some none, some (some 2), some none, none, none, some (some 2), some (some 7),
        some (some 3), some (some 4), some none] := by
  refine ⟨[.push true 2 3, .push false 7 2, .pop true, .push false 2 1, .push true 9 4,
    .push false 5 0, .pop false, .pop false, .pop true, .pop true, .pop true], by decide, ?_⟩
  exact (chains_are_stacks _ (by decide)).1.trans (by decide)

end

end Rack

end SlotArena
