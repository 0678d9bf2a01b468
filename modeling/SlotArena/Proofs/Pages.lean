import SlotArena.Proofs.Contest

/-!
A chain of pages is a stack. `Ream` is a chain with the first words of all pages, those on the chain
and those that somebody has. What is done to it is also done to a plain list of addresses: a push
puts its page in front, a pop takes the first page off, and who has a page may write to it. The
chain follows the list deed by deed (`Holds.perform_meets`).

The head word holds an address and a count that comes round after so many changes as a page has
bytes. The two never touch, however often the count comes round, and no link word holds any of the
count: the links are the plain addresses of the list (`pages_are_stacked`).
-/

namespace SlotArena

open Act

theorem Leads.start_eq {link : Nat → Nat} {start stop : Nat} {xs : List Nat}
    (h : Leads link start xs stop) : start = xs.headD stop := by
  cases xs with
  | nil => exact h
  | cons e rest => exact h.1

structure Ream where
  chain : PageChain
  words : PageWords

namespace Ream

open PageChain

inductive Deed
  | push (address : Nat)
  | pop
  | write (address value : Nat)

def empty (words : PageWords) : Ream := ⟨.empty, words⟩

def onWords {α : Type} : Act PageWords α → Act Ream α :=
  focus words fun t w => { t with words := w }

def push (address : Nat) : Act Ream Unit := do
  let chain ← onWords ((← get).chain.push address)
  modify fun t => { t with chain := chain }

def pop : Act Ream (Option Nat) := do
  let (top, chain) ← onWords (← get).chain.pop
  modify fun t => { t with chain := chain }
  return top

/-- Does a deed; only a pop has a page to answer with. -/
def perform : Deed → Act Ream (Option Nat)
  | .push address => do
      push address
      return none
  | .pop => pop
  | .write address value => do
      onWords (modify (·.write address value))
      return none

/-- What is answered to some deeds, one after the other; a deed that stops answers nothing, and the
next one finds what it left. -/
def answers : List Deed → Ream → List (Option (Option Nat))
  | [], _ => []
  | d :: deeds, t =>
      ((perform d).run t).result.toOption :: answers deeds ((perform d).run t).state

def after (deeds : List Deed) (t : Ream) : Ream :=
  deeds.foldl (fun t d => ((perform d).run t).state) t

/-! ### Plain lists of addresses -/

namespace Deed

/-- The page that is pushed or written to exists, and it is not on the chain. -/
def Fresh (pages : List Nat) : Deed → Prop
  | .push address | .write address _ => address ≠ 0 ∧ address ∉ pages
  | .pop => True

instance (pages : List Nat) : (d : Deed) → Decidable (d.Fresh pages)
  | .push address | .write address _ =>
      inferInstanceAs (Decidable (address ≠ 0 ∧ address ∉ pages))
  | .pop => inferInstanceAs (Decidable True)

def next (pages : List Nat) : Deed → List Nat
  | .push address => if alignment ∣ address then address :: pages else pages
  | .pop => pages.tail
  | .write .. => pages

/-- What is answered: only the push of an address inside a page stops, and a pop has no page just
where there is none. -/
def answer (pages : List Nat) : Deed → Option (Option Nat)
  | .push address => if alignment ∣ address then some none else none
  | .pop => some pages.head?
  | .write .. => some none

def changes (pages : List Nat) : Deed → Nat
  | .push address => if alignment ∣ address then 1 else 0
  | .pop => if pages = [] then 0 else 1
  | .write .. => 0

end Deed

def told : List Deed → List Nat → List (Option (Option Nat))
  | [], _ => []
  | d :: deeds, pages => d.answer pages :: told deeds (d.next pages)

def stacked (deeds : List Deed) (pages : List Nat) : List Nat :=
  deeds.foldl (fun pages d => d.next pages) pages

def turned : List Deed → List Nat → Nat
  | [], _ => 0
  | d :: deeds, pages => d.changes pages + turned deeds (d.next pages)

/-- No deed is about a page that is on the list by then, unless it takes it off. -/
def AllFresh : List Deed → List Nat → Prop
  | [], _ => True
  | d :: deeds, pages => d.Fresh pages ∧ AllFresh deeds (d.next pages)

instance decidableAllFresh :
    (deeds : List Deed) → (pages : List Nat) → Decidable (AllFresh deeds pages)
  | [], _ => inferInstanceAs (Decidable True)
  | d :: deeds, pages => @instDecidableAnd _ _ _ (decidableAllFresh deeds (d.next pages))

/-! ### The chain follows the list -/

/-- The chain is the list, and its head changed `n` times. -/
structure Holds (t : Ream) (pages : List Nat) (n : Nat) : Prop where
  leads : Leads t.words.word t.chain.top pages 0
  counts : t.chain.head ≡ n [MOD alignment]
  whole : ∀ address ∈ pages, address ≠ 0 ∧ alignment ∣ address

theorem holds_empty (words : PageWords) : (empty words).Holds [] 0 :=
  ⟨(by decide : PageChain.empty.top = 0), Nat.ModEq.refl _, fun _ h => absurd h List.not_mem_nil⟩

variable {t : Ream} {pages : List Nat} {n : Nat}

/-- A head that moves to a page, or to none, shows it and counts one change more. -/
theorem moved {address : Nat} (h : alignment ∣ address)
    (hcounts : t.chain.head ≡ n [MOD alignment]) :
    (t.chain.moveTo address).top = address ∧
      (t.chain.moveTo address).head ≡ n + 1 [MOD alignment] :=
  ⟨CountedHead.top_moveTo (ω := PageChain) _ h,
    (CountedHead.count_moveTo (ω := PageChain) _ h).trans (hcounts.add_right 1)⟩

namespace Holds

theorem written (h : t.Holds pages n) {address : Nat} (hfresh : address ∉ pages) (value : Nat) :
    Leads (t.words.write address value).word t.chain.top pages 0 :=
  h.leads.congr fun page hpage => by
    have hne : address ≠ page := fun heq => hfresh (heq ▸ hpage)
    rw [PageWords.word_write, if_neg hne]

theorem isEmpty_iff (h : t.Holds pages n) : t.chain.IsEmpty ↔ pages = [] := by
  have htop := h.leads.start_eq
  cases pages with
  | nil => exact iff_of_true htop rfl
  | cons page rest =>
    refine iff_of_false (fun hempty => ?_) (List.cons_ne_nil _ _)
    exact (h.whole page (List.mem_cons_self ..)).1 (htop.symm.trans hempty)

theorem pushed (h : t.Holds pages n) {address : Nat} (hne : address ≠ 0) (hfresh : address ∉ pages)
    (haligned : alignment ∣ address) :
    Holds ⟨t.chain.moveTo address, t.words.write address t.chain.top⟩ (address :: pages)
      (n + 1) := by
  obtain ⟨htop, hcounts⟩ := moved haligned h.counts
  refine ⟨⟨htop, ?_⟩, hcounts, List.forall_mem_cons.mpr ⟨⟨hne, haligned⟩, h.whole⟩⟩
  have hlink : (t.words.write address t.chain.top).word address = t.chain.top := by
    rw [PageWords.word_write, if_pos rfl]
  rw [hlink]
  exact h.written hfresh _

/-- The link of the top page is the plain address of the next one. -/
theorem popped {page : Nat} {rest : List Nat} (h : t.Holds (page :: rest) n) :
    t.chain.top = page ∧
      Holds ⟨t.chain.moveTo (t.words.word t.chain.top), t.words⟩ rest (n + 1) := by
  obtain ⟨htop, hrest⟩ := h.leads
  have hwhole := (List.forall_mem_cons.mp h.whole).2
  have haligned : alignment ∣ t.words.word t.chain.top := by
    rw [htop, hrest.start_eq]
    cases rest with
    | nil => exact Nat.dvd_zero _
    | cons next rest => exact (hwhole next (List.mem_cons_self ..)).2
  obtain ⟨htop', hcounts⟩ := moved haligned h.counts
  refine ⟨htop, ?_, hcounts, hwhole⟩
  rw [htop', htop]
  exact hrest

/-- A deed answers as it does on a plain list, and leaves what it leaves of it; one that stops
changes nothing. -/
theorem perform_meets (h : t.Holds pages n) {d : Deed} (hd : d.Fresh pages) :
    (perform d).Meets t
      (fun answer t' => some answer = d.answer pages ∧
        t'.Holds (d.next pages) (n + d.changes pages))
      (fun _ t' => none = d.answer pages ∧ t' = t ∧
        t'.Holds (d.next pages) (n + d.changes pages)) := by
  cases d with
  | push address =>
    simp only [perform, push, onWords, PageChain.push, meets_bind, meets_get, meets_focus,
      meets_ensure, meets_modify, meets_pure, Deed.answer, Deed.next, Deed.changes]
    refine ⟨fun haligned => ?_, fun haligned => ?_⟩
    · simp only [if_pos haligned]
      exact ⟨trivial, h.pushed hd.1 hd.2 haligned⟩
    · simp only [if_neg haligned]
      exact ⟨trivial, trivial, h⟩
  | pop =>
    simp only [perform, pop, onWords, PageChain.pop, meets_bind, meets_get, meets_focus, meets_ite,
      meets_modify, meets_pure, Deed.answer, Deed.next, Deed.changes]
    cases pages with
    | nil => exact ⟨fun _ => ⟨rfl, h⟩, fun hne => absurd (h.isEmpty_iff.mpr rfl) hne⟩
    | cons page rest =>
      refine ⟨fun hempty => ?_, fun _ => ?_⟩
      · exact absurd (h.isEmpty_iff.mp hempty) (List.cons_ne_nil _ _)
      · obtain ⟨htop, hrest⟩ := h.popped
        exact ⟨congrArg (fun page => some (some page)) htop, hrest⟩
  | write address value =>
    simp only [perform, onWords, meets_bind, meets_focus, meets_modify, meets_pure, Deed.answer,
      Deed.next, Deed.changes]
    exact ⟨trivial, h.written hd.2 value, h.counts, h.whole⟩

theorem step (h : t.Holds pages n) {d : Deed} (hd : d.Fresh pages) :
    ((perform d).run t).result.toOption = d.answer pages ∧
      ((perform d).run t).state.Holds (d.next pages) (n + d.changes pages) := by
  have hmeets := h.perform_meets hd
  cases hresult : ((perform d).run t).result with
  | ok answer => exact hmeets.of_ok hresult
  | error fault =>
    obtain ⟨hanswer, -, hholds⟩ := hmeets.of_error hresult
    exact ⟨hanswer, hholds⟩

theorem run (h : t.Holds pages n) {deeds : List Deed} (hdeeds : AllFresh deeds pages) :
    answers deeds t = told deeds pages ∧
      (after deeds t).Holds (stacked deeds pages) (n + turned deeds pages) := by
  induction deeds generalizing t pages n with
  | nil => exact ⟨rfl, h⟩
  | cons d deeds ih =>
    obtain ⟨hanswer, hnext⟩ := h.step hdeeds.1
    obtain ⟨hanswers, hholds⟩ := ih hnext hdeeds.2
    rw [Nat.add_assoc] at hholds
    refine ⟨?_, hholds⟩
    rw [answers, told, hanswer, hanswers]

/-- The head is an address and a count, and neither reaches into the other. -/
theorem head_eq (h : t.Holds pages n) : t.chain.head = pages.headD 0 + n % alignment := by
  rw [← h.leads.start_eq, ← h.counts]
  exact (Nat.div_add_mod' ..).symm

theorem head_lt (h : t.Holds pages n) (hword : ∀ address ∈ pages, address < word64) :
    t.chain.head < word64 := by
  have hcount : n % alignment < alignment := Nat.mod_lt _ (by decide)
  rw [h.head_eq]
  cases pages with
  | nil =>
    simp only [alignment, List.headD_nil, word64] at hcount ⊢
    omega
  | cons page rest =>
    have hpage := hword page (List.mem_cons_self ..)
    obtain ⟨k, rfl⟩ := (h.whole page (List.mem_cons_self ..)).2
    simp only [alignment, List.headD_cons, word64] at hcount hpage ⊢
    omega

end Holds

/-- A push of an address inside a page stops before anything is done. -/
theorem push_unaligned (t : Ream) {address : Nat} (h : ¬ alignment ∣ address) :
    (perform (.push address)).run t = ⟨.error (.violated .pageUnaligned), t, []⟩ := by
  simp [perform, push, onWords, PageChain.push, run_bind, run_ensure, h]

/-- A chain of pages is a stack, however long it is used and whatever is in pages that are not on
it. It answers as a plain list does; its head is the address of the top page, with the number of
changes in the bits that a page address leaves free; and the first word of each page on it is the
address of the next one, or zero in the last. An address inside a page is turned down, and then
nothing is changed. -/
theorem pages_are_stacked (words : PageWords) {deeds : List Deed} (hdeeds : AllFresh deeds []) :
    answers deeds (empty words) = told deeds [] ∧
    ((after deeds (empty words)).chain.IsEmpty ↔ stacked deeds [] = []) ∧
    Leads (after deeds (empty words)).words.word (after deeds (empty words)).chain.top
      (stacked deeds []) 0 ∧
    (after deeds (empty words)).chain.head =
      (stacked deeds []).headD 0 + turned deeds [] % alignment ∧
    ((∀ address ∈ stacked deeds [], address < word64) →
      (after deeds (empty words)).chain.head < word64) ∧
    ∀ address, ¬ alignment ∣ address → (perform (.push address)).run (after deeds (empty words)) =
      ⟨.error (.violated .pageUnaligned), after deeds (empty words), []⟩ := by
  obtain ⟨hanswers, hholds⟩ := (holds_empty words).run hdeeds
  rw [Nat.zero_add] at hholds
  exact ⟨hanswers, hholds.isEmpty_iff, hholds.leads, hholds.head_eq, hholds.head_lt,
    fun address => push_unaligned _⟩

def rounds (address k : Nat) : List Deed := (List.replicate k [.push address, .pop]).flatten

theorem rounds_append {address : Nat} (hne : address ≠ 0) (haligned : alignment ∣ address)
    {pages : List Nat} (hfresh : address ∉ pages) (k : Nat) (deeds : List Deed) :
    (AllFresh (rounds address k ++ deeds) pages ↔ AllFresh deeds pages) ∧
      stacked (rounds address k ++ deeds) pages = stacked deeds pages ∧
      turned (rounds address k ++ deeds) pages = 2 * k + turned deeds pages := by
  induction k with
  | zero => simp [rounds]
  | succ k ih =>
    have hround : rounds address (k + 1) ++ deeds =
        .push address :: .pop :: (rounds address k ++ deeds) := rfl
    obtain ⟨hall, hstacked, hturned⟩ := ih
    rw [hround]
    refine ⟨?_, ?_, ?_⟩
    · simp [AllFresh, Deed.Fresh, Deed.next, haligned, hne, hfresh, hall]
    · simp only [stacked, List.foldl_cons, Deed.next, if_pos haligned, List.tail_cons] at hstacked ⊢
      exact hstacked
    · have hcons : address :: pages ≠ [] := List.cons_ne_nil _ _
      simp only [turned, Deed.changes, Deed.next, if_pos haligned, List.tail_cons, if_neg hcons,
        hturned]
      omega

/-- The count comes round twice while one page lies below another that comes and goes. -/
theorem pages_are_stacked_of_rounds : ∃ deeds : List Deed, AllFresh deeds [] ∧
    turned deeds [] = 2 * alignment + 6 ∧
    (after deeds (empty ⟨∅⟩)).chain.head = 12288 + 6 ∧
    Leads (after deeds (empty ⟨∅⟩)).words.word (after deeds (empty ⟨∅⟩)).chain.top [12288, 4096]
      0 := by
  have hrounds : ∀ k, ∃ deeds, AllFresh deeds [] ∧ turned deeds [] = 2 * k + 2 ∧
      stacked deeds [] = [12288, 4096] := fun k => by
    obtain ⟨hall, hstacked, hturned⟩ := rounds_append (by decide : 12288 ≠ 0) (by decide)
      (by decide : 12288 ∉ [4096]) k [.push 12288]
    refine ⟨.push 4096 :: .write 8192 77 :: .push 8200 :: (rounds 12288 k ++ [.push 12288]),
      ⟨by decide, by decide, by decide, hall.mpr (by decide)⟩, ?_, ?_⟩
    · show 1 + (0 + (0 + turned (rounds 12288 k ++ [.push 12288]) [4096])) = 2 * k + 2
      have hlast : turned [.push 12288] [4096] = 1 := rfl
      omega
    · show stacked (rounds 12288 k ++ [.push 12288]) [4096] = [12288, 4096]
      exact hstacked.trans rfl
  obtain ⟨deeds, hfresh, hturned, hstacked⟩ := hrounds 4098
  obtain ⟨-, -, hleads, hhead, -⟩ := pages_are_stacked ⟨∅⟩ hfresh
  rw [hstacked] at hleads hhead
  rw [hturned] at hhead
  exact ⟨deeds, hfresh, hturned, hhead, hleads⟩

end Ream

end SlotArena
