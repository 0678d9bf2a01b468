import SlotArena.Proofs.Threads
import SlotArena.PageChain
import Mathlib.Algebra.Order.Group.Multiset
import Mathlib.Data.Nat.ModEq
import Mathlib.Logic.Relation

/-!
Chains that are shared by any number of contestants. Taking an element off is three steps, and so is
putting some on: look at the head, go by what it says, and swap the head for another one, which
succeeds only where the head is still the one that was looked at. Between the steps the others do
what they like, so a contestant may have read a link word that was rewritten many times since.

`CountedHead` is what the two kinds of chains have in common. The main statements are that the
operations of both are runs of these steps by one contestant: `chain_pop_runs`, `chain_push_runs`,
`pageChain_pop_runs` and `pageChain_push_runs`.
-/

namespace SlotArena

open Act LawfulLinks

/-! ### Heads that count -/

/-- Heads of chains that count their changes. -/
class CountedHead (ω : Type) where
  /-- What stands for no element. -/
  nil : Nat
  /-- The count comes round after as many changes. -/
  width : Nat
  top : ω → Nat
  count : ω → Nat
  moveTo : ω → Nat → ω
  /-- What a head can have on top. -/
  Fits : Nat → Prop
  fits_nil : Fits nil
  top_moveTo (h : ω) {e : Nat} (he : Fits e) : top (moveTo h e) = e
  count_moveTo (h : ω) {e : Nat} (he : Fits e) : count (moveTo h e) ≡ count h + 1 [MOD width]

instance : CountedHead Chain where
  nil := noIndex
  width := word32
  top := Chain.head
  count := Chain.count
  moveTo := Chain.moveTo
  Fits _ := True
  fits_nil := trivial
  top_moveTo _ _ _ := rfl
  count_moveTo _ _ _ := Nat.mod_modEq ..

namespace PageChain

theorem moveTo_eq (c : PageChain) {address : Nat} (h : alignment ∣ address) :
    (c.moveTo address).head = address + nextCount c.head := by
  obtain ⟨page, rfl⟩ := h
  have hcount : nextCount c.head < 2 ^ 12 := Nat.mod_lt _ (by decide)
  have hor := Nat.shiftLeft_add_eq_or_of_lt hcount page
  rw [Nat.shiftLeft_eq, Nat.mul_comm] at hor
  exact hor.symm

instance : CountedHead PageChain where
  nil := 0
  width := alignment
  top := top
  count c := c.head
  moveTo := moveTo
  Fits address := alignment ∣ address
  fits_nil := Nat.dvd_zero _
  top_moveTo c address h := by
    have hcount : nextCount c.head < alignment := Nat.mod_lt _ (by decide)
    rw [top, moveTo_eq c h, addressOf]
    obtain ⟨page, rfl⟩ := h
    rw [Nat.mul_add_div (by decide), Nat.div_eq_of_lt hcount, Nat.add_zero, Nat.mul_comm]
  count_moveTo c address h := by
    rw [moveTo_eq c h]
    obtain ⟨page, rfl⟩ := h
    exact (Nat.mul_add_mod ..).trans (Nat.mod_mod ..)

end PageChain

/-! ### Elements in a row -/

namespace Leads

variable {link : Nat → Nat} {start middle stop : Nat} {xs : List Nat}

theorem mem (h : Leads link start xs stop) (hne : start ≠ stop) : start ∈ xs := by
  cases xs with
  | nil => exact absurd h hne
  | cons e rest =>
    obtain ⟨rfl, -⟩ := h
    exact List.mem_cons_self ..

/-- The last link word may be rewritten to lead elsewhere. -/
theorem relink {last : Nat} (h : Leads link start (xs ++ [last]) middle) (hlast : last ∉ xs) :
    Leads (Function.update link last stop) start (xs ++ [last]) stop := by
  obtain ⟨e, hxs, rfl, -⟩ := append_iff.mp h
  refine append_iff.mpr ⟨e, hxs.congr fun x hx => ?_, rfl, Function.update_self ..⟩
  have hne : x ≠ e := fun hxe => hlast (by rwa [← hxe])
  exact Function.update_of_ne hne ..

end Leads

/-- Elements that are put on a chain together: the last one, and those that lead to it. -/
structure Batch where
  init : List Nat
  last : Nat
  deriving DecidableEq, Repr

namespace Batch

def elements (b : Batch) : List Nat := b.init ++ [b.last]

def first (b : Batch) : Nat := b.init.headD b.last

theorem first_mem (b : Batch) : b.first ∈ b.elements := by
  cases hinit : b.init with
  | nil => simp [first, elements, hinit]
  | cons e rest => simp [first, elements, hinit]

end Batch

/-! ### Contestants -/

/-- What a contestant is doing. `since` counts the swaps that came before it looked at the head. -/
inductive Contestant (ω : Type)
  | idle
  /-- Wants an element and has looked at the head. -/
  | popping (seen : ω) (since : Nat)
  /-- Has read the link word of the element on top, and is about to swap. -/
  | taking (seen : ω) (next : Nat) (since : Nat)
  /-- Has elements to put on and has looked at the head. -/
  | pushing (batch : Batch) (seen : ω) (since : Nat)
  /-- Has linked the last of them to what was on top, and is about to swap. -/
  | putting (batch : Batch) (seen : ω) (since : Nat)
  deriving DecidableEq

def Contestant.AboutToSwap {ω : Type} (seen : ω) (since : Nat) : Contestant ω → Prop
  | .taking seen' _ since' | .putting _ seen' since' => seen' = seen ∧ since' = since
  | _ => False

/-- A head with the link words behind it, those who contend for it, and the elements that each of
them has. -/
structure Contest (ι ω : Type) where
  head : ω
  link : Nat → Nat
  contestant : ι → Contestant ω
  held : ι → Multiset Nat
  /-- The swaps so far that have succeeded; the contestants do not know of them. -/
  swaps : Nat

namespace Contest

variable {ι ω : Type}

open CountedHead

def write (m : Contest ι ω) (e value : Nat) : Contest ι ω :=
  { m with link := Function.update m.link e value }

@[simp] theorem link_write_self (m : Contest ι ω) (e value : Nat) :
    (m.write e value).link e = value := Function.update_self ..

theorem link_write_of_ne (m : Contest ι ω) {e x : Nat} (h : x ≠ e) (value : Nat) :
    (m.write e value).link x = m.link x := Function.update_of_ne h ..

section

variable [DecidableEq ι]

def move (m : Contest ι ω) (t : ι) (c : Contestant ω) : Contest ι ω :=
  { m with contestant := Function.update m.contestant t c }

/-- The head is swapped, and `t` has other elements than before. -/
def swap (m : Contest ι ω) (t : ι) (head : ω) (held : Multiset Nat) : Contest ι ω :=
  { m with head := head, held := Function.update m.held t held, swaps := m.swaps + 1 }

@[simp] theorem contestant_move_self (m : Contest ι ω) (t : ι) (c : Contestant ω) :
    (m.move t c).contestant t = c := Function.update_self ..

theorem contestant_move_of_ne (m : Contest ι ω) {t u : ι} (h : u ≠ t) (c : Contestant ω) :
    (m.move t c).contestant u = m.contestant u := Function.update_of_ne h ..

theorem move_self {m : Contest ι ω} {t : ι} {c : Contestant ω} (h : m.contestant t = c) :
    m.move t c = m := by
  rw [move, ← h, Function.update_eq_self]

@[simp] theorem move_move (m : Contest ι ω) (t : ι) (c c' : Contestant ω) :
    (m.move t c).move t c' = m.move t c' := by
  rw [move, move, move, Function.update_idem]

theorem held_swap_of_ne (m : Contest ι ω) {t u : ι} (h : u ≠ t) (head : ω)
    (held : Multiset Nat) : (m.swap t head held).held u = m.held u := Function.update_of_ne h ..

variable [CountedHead ω]

/-- One atomic step of one contestant. Who is about to swap may fail for no reason; it succeeds only
if the head is the one that it saw, and then fewer than `limit` swaps came in between. What a
contestant has is its own: it may write to the link words there while it is not at it. -/
inductive Step (limit : Nat) : Contest ι ω → Contest ι ω → Prop
  | look {m : Contest ι ω} (t : ι) (h : m.contestant t = .idle) :
      Step limit m (m.move t (.popping m.head m.swaps))
  | none {m : Contest ι ω} (t : ι) {seen : ω} {since : Nat}
      (h : m.contestant t = .popping seen since) (hnil : top seen = nil ω) :
      Step limit m (m.move t .idle)
  | read {m : Contest ι ω} (t : ι) {seen : ω} {since : Nat}
      (h : m.contestant t = .popping seen since) (htop : top seen ≠ nil ω) :
      Step limit m (m.move t (.taking seen (m.link (top seen)) since))
  | take {m : Contest ι ω} (t : ι) {seen : ω} {next since : Nat}
      (h : m.contestant t = .taking seen next since) (hhead : m.head = seen)
      (hfew : m.swaps < since + limit) :
      Step limit m ((m.swap t (moveTo seen next) (top seen ::ₘ m.held t)).move t .idle)
  | missTake {m : Contest ι ω} (t : ι) {seen : ω} {next since : Nat}
      (h : m.contestant t = .taking seen next since) :
      Step limit m (m.move t (.popping m.head m.swaps))
  | offer {m : Contest ι ω} (t : ι) (batch : Batch) {stop : Nat} (h : m.contestant t = .idle)
      (hheld : batch.elements ≤ m.held t)
      (hleads : Leads m.link batch.first batch.elements stop) :
      Step limit m (m.move t (.pushing batch m.head m.swaps))
  | tie {m : Contest ι ω} (t : ι) {batch : Batch} {seen : ω} {since : Nat}
      (h : m.contestant t = .pushing batch seen since) :
      Step limit m ((m.write batch.last (top seen)).move t (.putting batch seen since))
  | put {m : Contest ι ω} (t : ι) {batch : Batch} {seen : ω} {since : Nat}
      (h : m.contestant t = .putting batch seen since) (hhead : m.head = seen)
      (hfew : m.swaps < since + limit) :
      Step limit m
        ((m.swap t (moveTo seen batch.first) (m.held t - batch.elements)).move t .idle)
  | missPut {m : Contest ι ω} (t : ι) {batch : Batch} {seen : ω} {since : Nat}
      (h : m.contestant t = .putting batch seen since) :
      Step limit m (m.move t (.pushing batch m.head m.swaps))
  | scribble {m : Contest ι ω} (t : ι) {e : Nat} (value : Nat) (h : m.contestant t = .idle)
      (he : e ∈ m.held t) : Step limit m (m.write e value)

def Reachable (limit : Nat) (m m' : Contest ι ω) : Prop := Relation.ReflTransGen (Step limit) m m'

theorem Step.head_eq {limit : Nat} {m m' : Contest ι ω} (h : Step limit m m') :
    m'.head = m.head ∧ m'.swaps = m.swaps ∨ m'.swaps = m.swaps + 1 := by
  cases h with
  | take t h hhead hfew => exact Or.inr rfl
  | put t h hhead hfew => exact Or.inr rfl
  | _ => exact Or.inl ⟨rfl, rfl⟩

theorem Reachable.head_eq {limit : Nat} {m m' : Contest ι ω} (h : Reachable limit m m') :
    m.swaps ≤ m'.swaps ∧ (m'.swaps = m.swaps → m'.head = m.head) := by
  induction h with
  | refl => exact ⟨Nat.le_refl _, fun _ => rfl⟩
  | tail _ hstep ih =>
    obtain ⟨hle, hsame⟩ := ih
    rcases hstep.head_eq with ⟨hhead, hswaps⟩ | hswaps
    · rw [hhead, hswaps]
      exact ⟨hle, hsame⟩
    · rw [hswaps]
      exact ⟨Nat.le_succ_of_le hle, fun h => absurd h (Nat.ne_of_gt (Nat.lt_succ_of_le hle))⟩

end

/-! ### One contestant alone -/

section

variable [DecidableEq ι] [CountedHead ω] {limit : Nat} {m : Contest ι ω} {t : ι}

/-- Taking the top off, with nobody in between. -/
theorem pop_runs (hlimit : 0 < limit) (hidle : m.contestant t = .idle)
    (htop : top m.head ≠ nil ω) : Reachable limit m
      (m.swap t (moveTo m.head (m.link (top m.head))) (top m.head ::ₘ m.held t)) := by
  have hlook : Reachable limit m _ := .single (.look t hidle)
  have hread := hlook.tail (.read t (contestant_move_self ..) htop)
  have htake := hread.tail (.take t (contestant_move_self ..) rfl (Nat.lt_add_of_pos_right hlimit))
  have hend : ∀ c c' head held, (((m.move t c).move t c').swap t head held).move t .idle =
      m.swap t head held := fun c c' head held => by
    rw [move_move]
    exact (move_move (m.swap t head held) t c' .idle).trans (move_self hidle)
  rwa [hend] at htake

theorem none_runs (hidle : m.contestant t = .idle) (hnil : top m.head = nil ω) :
    Relation.TransGen (Step limit) m m := by
  have hlook : Relation.TransGen (Step limit) m _ := .single (.look t hidle)
  have hnone := hlook.tail (.none t (contestant_move_self ..) hnil)
  rwa [move_move, move_self hidle] at hnone

/-- Putting elements on, with nobody in between. -/
theorem push_runs (hlimit : 0 < limit) (hidle : m.contestant t = .idle) (batch : Batch)
    {stop : Nat} (hheld : batch.elements ≤ m.held t)
    (hleads : Leads m.link batch.first batch.elements stop) : Reachable limit m
      ((m.write batch.last (top m.head)).swap t (moveTo m.head batch.first)
        (m.held t - batch.elements)) := by
  have hoffer : Reachable limit m _ := .single (.offer t batch hidle hheld hleads)
  have htie := hoffer.tail (.tie t (contestant_move_self ..))
  have hput := htie.tail (.put t (contestant_move_self ..) rfl (Nat.lt_add_of_pos_right hlimit))
  have hend : ∀ c c' e value head held,
      ((((m.move t c).write e value).move t c').swap t head held).move t .idle =
        (m.write e value).swap t head held := fun c c' e value head held => by
    show (((((m.write e value).swap t head held).move t c).move t c').move t .idle) = _
    rw [move_move, move_move]
    exact move_self hidle
  rwa [hend] at hput

theorem scribble_runs (hidle : m.contestant t = .idle) {elements : List Nat} {link : Nat → Nat}
    (hheld : ∀ e ∈ elements, e ∈ m.held t) (hlink : ∀ e ∉ elements, link e = m.link e) :
    Reachable limit m { m with link := link } := by
  induction elements generalizing m with
  | nil =>
    have hsame : link = m.link := funext fun e => hlink e List.not_mem_nil
    rw [hsame]
    exact .refl
  | cons e rest ih =>
    refine .head (.scribble t (link e) hidle (hheld e (List.mem_cons_self ..))) ?_
    refine ih hidle (fun x hx => hheld x (List.mem_cons_of_mem _ hx)) fun x hx => ?_
    by_cases hxe : x = e
    · rw [hxe, link_write_self]
    · rw [link_write_of_ne m hxe]
      exact hlink x (by simp [hxe, hx])

/-- What a contest is left as by who took off what a chain answered with. -/
def popped (m : Contest ι ω) (t : ι) : Option Nat × ω → Contest ι ω
  | (none, _) => m
  | (some e, head) => m.swap t head (e ::ₘ m.held t)

end

/-- A chain pops in steps that one contestant takes. -/
theorem chain_pop_runs {σ : Type} [Links σ] [LawfulLinks σ] [DecidableEq ι] {limit : Nat}
    {m : Contest ι Chain} {t : ι} {l : σ} (hlink : word l = m.link) (hlimit : 0 < limit)
    (hidle : m.contestant t = .idle) (hknown : ¬ m.head.IsEmpty → knows (rest l) m.head.head) :
    m.head.pop.Meets l (fun answer l' => l' = l ∧ Reachable limit m (m.popped t answer)) Never := by
  simp only [Chain.pop, meets_bind, meets_ite, meets_pure]
  refine ⟨fun hempty => ⟨trivial, (none_runs hidle hempty).to_reflTransGen⟩, fun hne => ?_⟩
  refine (link_meets l m.head.head).weaken (fun next l' hres => ?_) fun _ _ hres => ?_
  · obtain ⟨-, rfl, rfl⟩ := hres
    rw [hlink]
    exact ⟨rfl, pop_runs hlimit hidle hne⟩
  · exact hres.1 (hknown hne)

/-- A chain pushes in steps that one contestant takes, who has the records. -/
theorem chain_push_runs {σ : Type} [Links σ] [LawfulLinks σ] [DecidableEq ι] {limit : Nat}
    {m : Contest ι Chain} {t : ι} {l : σ} {first count : Nat} (hlink : word l = m.link)
    (hlimit : 0 < limit) (hidle : m.contestant t = .idle)
    (hheld : List.range' first count ≤ m.held t) (htakes : Chain.Takes (rest l) first count) :
    (m.head.push first count).Meets l (fun head l' => Reachable limit m
      ({ m with link := word l' }.swap t head (m.held t - List.range' first count))) Never := by
  refine (Chain.push_meets l m.head first count).weaken (fun head l' hres => ?_) fun _ _ hres =>
    hres.1 htakes
  obtain ⟨-, rfl, hlinked⟩ := hres
  obtain ⟨n, rfl⟩ : ∃ n, count = n + 1 := ⟨count - 1, (Nat.sub_add_cancel htakes.1).symm⟩
  have hlast : word l' (first + n) = m.head.head := hlinked.last
  have hscribble : Reachable limit m { m with link := word l' } :=
    scribble_runs hidle
      (fun e he => Multiset.mem_of_le hheld (Multiset.mem_coe.mpr he)) fun e he => by
        rw [hlinked.rethreaded.kept e he, hlink]
  have hbatch : (⟨List.range' first n, first + n⟩ : Batch).elements = List.range' first (n + 1) :=
    (List.range'_1_concat ..).symm
  have hfirst : (⟨List.range' first n, first + n⟩ : Batch).first = first := by
    cases n with
    | zero => rfl
    | succ n => rfl
  -- the last word is what the last step of the sweep made it
  have hwrite : Contest.write { m with link := word l' } (first + n) m.head.head =
      { m with link := word l' } := by
    rw [write, ← hlast, Function.update_eq_self]
  have hpush : Reachable limit { m with link := word l' }
      ((Contest.write { m with link := word l' } (first + n) m.head.head).swap t
        (m.head.moveTo first) (m.held t - List.range' first (n + 1))) := by
    have hrun := push_runs (m := { m with link := word l' }) hlimit hidle
      ⟨List.range' first n, first + n⟩ (by rw [hbatch]; exact hheld)
      (by rw [hbatch, hfirst]; exact .run n hlinked.inner hlast)
    rwa [hbatch, hfirst] at hrun
  rw [hwrite] at hpush
  exact hscribble.trans hpush

/-- A chain of pages pops in steps that one contestant takes. -/
theorem pageChain_pop_runs [DecidableEq ι] {limit : Nat} {m : Contest ι PageChain} {t : ι}
    {w : PageWords} (hlink : w.word = m.link) (hlimit : 0 < limit)
    (hidle : m.contestant t = .idle) :
    m.head.pop.Meets w (fun answer w' => w' = w ∧ Reachable limit m (m.popped t answer)) Never := by
  simp only [PageChain.pop, meets_bind, meets_ite, meets_get, meets_pure]
  refine ⟨fun hempty => ⟨trivial, (none_runs hidle hempty).to_reflTransGen⟩, fun hne => ?_⟩
  rw [hlink]
  exact ⟨trivial, pop_runs hlimit hidle hne⟩

/-- A chain of pages pushes in steps that one contestant takes, who has the page. -/
theorem pageChain_push_runs [DecidableEq ι] {limit : Nat} {m : Contest ι PageChain} {t : ι}
    {w : PageWords} {address : Nat} (hlink : w.word = m.link) (hlimit : 0 < limit)
    (hidle : m.contestant t = .idle) (hheld : address ∈ m.held t)
    (haligned : PageChain.alignment ∣ address) :
    (m.head.push address).Meets w (fun head w' => Reachable limit m
      ({ m with link := w'.word }.swap t head (m.held t - {address}))) Never := by
  simp only [PageChain.push, meets_bind, meets_ensure_never, meets_modify, meets_pure]
  refine ⟨haligned, ?_⟩
  have hword : (w.write address m.head.top).word = (m.write address m.head.top).link := by
    funext a
    show (w.write address m.head.top).word a = Function.update m.link address m.head.top a
    rw [PageWords.word_write, Function.update_apply, hlink]
    simp only [eq_comm]
  rw [hword]
  exact push_runs hlimit hidle ⟨[], address⟩ (Multiset.singleton_le.mpr hheld) ⟨rfl, rfl⟩

end Contest

end SlotArena
