import SlotArena.Proofs.Contest
import Mathlib.Algebra.BigOperators.Group.Finset.Piecewise
import Mathlib.Algebra.Order.BigOperators.Group.Finset

/-!
Who has what while many contend for a chain. The count in the head tells a head that changed apart
from one that did not, as long as it does not come round between a look and the swap that goes by it
(`Sound.unchanged`). So a swap that succeeds is one that nothing came before: the link word that was
read is still the one that is there, and the elements are where they were, on the chain once or with
one contestant. Each step keeps that (`Sound.step`), so any run does (`counted_heads_are_safe`).
-/

namespace SlotArena.Contest

open CountedHead

variable {ι ω : Type} [CountedHead ω]

/-- What is known of a head that was seen before now, `since` swaps having come before it. -/
structure Knows (head : ω) (swaps base : Nat) (seen : ω) (since : Nat) : Prop where
  since_le : since ≤ swaps
  count : count seen ≡ base + since [MOD width ω]
  current : since = swaps → seen = head

/-- What holds of a contestant that has `held`. As long as nobody has swapped since it looked, what
it read is still true. -/
def Stands (m : Contest ι ω) (base : Nat) (held : Multiset Nat) : Contestant ω → Prop
  | .idle => True
  | .popping seen since => Knows m.head m.swaps base seen since
  | .taking seen next since => Knows m.head m.swaps base seen since ∧ top seen ≠ nil ω ∧
      (since = m.swaps → next = m.link (top seen))
  | .pushing batch seen since => Knows m.head m.swaps base seen since ∧ batch.elements ≤ held ∧
      ∃ stop, Leads m.link batch.first batch.elements stop
  | .putting batch seen since => Knows m.head m.swaps base seen since ∧ batch.elements ≤ held ∧
      Leads m.link batch.first batch.elements (top seen)

theorem stands_swap [DecidableEq ι] {m : Contest ι ω} {base : Nat} {held : Multiset Nat}
    {c : Contestant ω} (hc : m.Stands base held c) (t : ι) (head : ω) (held' : Multiset Nat) :
    (m.swap t head held').Stands base held c := by
  have hold : ∀ {since : Nat}, since ≤ m.swaps → since ≠ m.swaps + 1 :=
    fun hle => Nat.ne_of_lt (Nat.lt_succ_of_le hle)
  have hknows : ∀ {seen : ω} {since : Nat}, Knows m.head m.swaps base seen since →
      Knows head (m.swaps + 1) base seen since := fun hk =>
    ⟨Nat.le_succ_of_le hk.since_le, hk.count, fun hsince => absurd hsince (hold hk.since_le)⟩
  cases c with
  | idle => trivial
  | popping seen since => exact hknows hc
  | taking seen next since =>
    obtain ⟨hk, htop, -⟩ := hc
    exact ⟨hknows hk, htop, fun hsince => absurd hsince (hold hk.since_le)⟩
  | pushing batch seen since =>
    obtain ⟨hk, hrest⟩ := hc
    exact ⟨hknows hk, hrest⟩
  | putting batch seen since =>
    obtain ⟨hk, hrest⟩ := hc
    exact ⟨hknows hk, hrest⟩

/-- Elements that may be on a chain, each of them once. -/
structure Proper (ω : Type) [CountedHead ω] (elements : Multiset Nat) : Prop where
  nodup : elements.Nodup
  fits : ∀ e ∈ elements, Fits ω e
  ne_nil : ∀ e ∈ elements, e ≠ nil ω

variable [Fintype ι]

/-- `chained` are on the chain, top first, and together with what the contestants have they are all
the elements. -/
structure Sound (m : Contest ι ω) (base : Nat) (elements : Multiset Nat) (chained : List Nat) :
    Prop where
  proper : Proper ω elements
  leads : Leads m.link (top m.head) chained (nil ω)
  all : chained + ∑ t, m.held t = elements
  count : count m.head ≡ base + m.swaps [MOD width ω]
  stands : ∀ t, m.Stands base (m.held t) (m.contestant t)

namespace Sound

variable {m m' : Contest ι ω} {base limit : Nat} {elements : Multiset Nat} {chained : List Nat}
  {t : ι}

theorem mem_of_chained (h : m.Sound base elements chained) {e : Nat} (he : e ∈ chained) :
    e ∈ elements := by
  rw [← h.all]
  exact Multiset.mem_add.mpr (Or.inl (Multiset.mem_coe.mpr he))

theorem nodup (h : m.Sound base elements chained) : chained.Nodup := by
  have hnodup := h.proper.nodup
  rw [← h.all, Multiset.nodup_add] at hnodup
  exact Multiset.coe_nodup.mp hnodup.1

theorem held_le (h : m.Sound base elements chained) (t : ι) : m.held t ≤ elements := by
  rw [← h.all]
  exact (Finset.single_le_sum (fun _ _ => Multiset.zero_le _) (Finset.mem_univ t)).trans
    (Multiset.le_add_left ..)

theorem nodup_held (h : m.Sound base elements chained) (t : ι) : (m.held t).Nodup :=
  Multiset.nodup_of_le (h.held_le t) h.proper.nodup

theorem knows (h : m.Sound base elements chained) : Knows m.head m.swaps base m.head m.swaps :=
  ⟨Nat.le_refl _, h.count, fun _ => rfl⟩

/-- A head that is still the one that was seen was not swapped in between: the count has not come
round. -/
theorem unchanged (h : m.Sound base elements chained) (hlimit : limit ≤ width ω) {seen : ω}
    {since : Nat} (hknows : Knows m.head m.swaps base seen since) (hhead : m.head = seen)
    (hfew : m.swaps < since + limit) : since = m.swaps := by
  -- the counts agree modulo the width, and the swaps in between are too few to come round
  have hcount : base + since ≡ base + m.swaps [MOD width ω] := by
    have hseen := h.count
    rw [hhead] at hseen
    exact hknows.count.symm.trans hseen
  have hle := hknows.since_le
  have hdvd : width ω ∣ m.swaps - since :=
    (Nat.modEq_iff_dvd' hle).mp (Nat.ModEq.add_left_cancel' base hcount)
  have hzero := Nat.eq_zero_of_dvd_of_lt hdvd (by omega)
  omega

theorem fits (h : m.Sound base elements chained) {e : Nat} {rest : List Nat}
    (hleads : Leads m.link e rest (nil ω)) (hrest : ∀ x ∈ rest, x ∈ chained) : Fits ω e := by
  cases rest with
  | nil =>
    rw [show e = nil ω from hleads]
    exact fits_nil
  | cons x rest =>
    obtain ⟨rfl, -⟩ := hleads
    exact h.proper.fits e (h.mem_of_chained (hrest e (List.mem_cons_self ..)))

/-- Writing to what somebody has changes nothing that another one relies on. -/
theorem stands_write (h : m.Sound base elements chained) {e value : Nat}
    {held : Multiset Nat} {c : Contestant ω} (hc : m.Stands base held c) (hheld : e ∉ held)
    (hchained : e ∉ chained) : (m.write e value).Stands base held c := by
  have hbatch : ∀ {b : Batch} {stop : Nat}, b.elements ≤ held →
      Leads m.link b.first b.elements stop →
        Leads (m.write e value).link b.first b.elements stop := by
    intro b stop hle hleads
    refine hleads.congr fun x hx => link_write_of_ne m ?_ value
    rintro rfl
    exact hheld (Multiset.mem_of_le hle (Multiset.mem_coe.mpr hx))
  cases c with
  | idle => trivial
  | popping seen since => exact hc
  | taking seen next since =>
    obtain ⟨hk, htop, hnext⟩ := hc
    refine ⟨hk, htop, fun hsince => ?_⟩
    -- the head is the one that was seen, so its top is on the chain
    have hmem : top seen ∈ chained := by
      rw [hk.current hsince] at htop ⊢
      exact h.leads.mem htop
    have hne : top seen ≠ e := fun he => hchained (he ▸ hmem)
    rw [hnext hsince, link_write_of_ne m hne]
  | pushing batch seen since =>
    obtain ⟨hk, hle, stop, hleads⟩ := hc
    exact ⟨hk, hle, stop, hbatch hle hleads⟩
  | putting batch seen since =>
    obtain ⟨hk, hle, hleads⟩ := hc
    exact ⟨hk, hle, hbatch hle hleads⟩

end Sound

/-! ### One step -/

variable [DecidableEq ι]

/-- What one contestant has, and all that the others have. -/
theorem exists_others (held : ι → Multiset Nat) (t : ι) : ∃ others : Multiset Nat,
    ∑ u, held u = held t + others ∧ (∀ u, u ≠ t → held u ≤ others) ∧
      ∀ x, ∑ u, Function.update held t x u = x + others := by
  refine ⟨∑ u ∈ Finset.univ \ {t}, held u, ?_, fun u hu => ?_, fun x => ?_⟩
  · rw [Finset.sdiff_singleton_eq_erase, Finset.add_sum_erase _ _ (Finset.mem_univ t)]
  · exact Finset.single_le_sum (fun _ _ => Multiset.zero_le _) (by simpa using hu)
  · exact Finset.sum_update_of_mem (Finset.mem_univ t) held x

namespace Sound

variable {m m' : Contest ι ω} {base limit : Nat} {elements : Multiset Nat} {chained : List Nat}
  {t : ι}

theorem apart (h : m.Sound base elements chained) {e : Nat} (he : e ∈ m.held t) :
    e ∉ chained ∧ ∀ u, u ≠ t → e ∉ m.held u := by
  obtain ⟨others, hsum, hothers, -⟩ := exists_others m.held t
  have hnodup := h.proper.nodup
  rw [← h.all, hsum, Multiset.nodup_add] at hnodup
  obtain ⟨-, hheld, hchained⟩ := hnodup
  refine ⟨fun hmem => ?_, fun u hu hmem => ?_⟩
  · exact Multiset.disjoint_left.mp hchained (Multiset.mem_coe.mpr hmem)
      (Multiset.mem_add.mpr (Or.inl he))
  · exact Multiset.disjoint_left.mp (Multiset.nodup_add.mp hheld).2.2 he
      (Multiset.mem_of_le (hothers u hu) hmem)

theorem move (h : m.Sound base elements chained) {c : Contestant ω}
    (hc : m.Stands base (m.held t) c) : (m.move t c).Sound base elements chained where
  proper := h.proper
  leads := h.leads
  all := h.all
  count := h.count
  stands u := by
    by_cases hu : u = t
    · subst hu
      rw [contestant_move_self]
      exact hc
    · rw [contestant_move_of_ne m hu]
      exact h.stands u

/-- Who has an element may write to its link word, as long as it stands by what it does itself. -/
theorem write (h : m.Sound base elements chained) {e value : Nat} (he : e ∈ m.held t)
    (ht : (m.write e value).Stands base (m.held t) (m.contestant t)) :
    (m.write e value).Sound base elements chained where
  proper := h.proper
  leads := h.leads.congr fun x hx => by
    have hne : x ≠ e := fun hxe => (h.apart he).1 (by rwa [← hxe])
    exact link_write_of_ne m hne value
  all := h.all
  count := h.count
  stands u := by
    by_cases hu : u = t
    · subst hu
      exact ht
    · exact h.stands_write (h.stands u) ((h.apart he).2 u hu) (h.apart he).1

/-- A swap puts another chain in place of the one there was, and the elements pass between it and
whoever swaps. -/
theorem swap (h : m.Sound base elements chained) {next : Nat} {chained' : List Nat}
    {held : Multiset Nat} (hfits : Fits ω next) (hleads : Leads m.link next chained' (nil ω))
    (hall : (chained' : Multiset Nat) + held = chained + m.held t) :
    ((m.swap t (moveTo m.head next) held).move t .idle).Sound base elements chained' where
  proper := h.proper
  leads := by
    show Leads m.link (top (moveTo m.head next)) chained' (nil ω)
    rw [top_moveTo m.head hfits]
    exact hleads
  all := by
    obtain ⟨others, hsum, -, hupdate⟩ := exists_others m.held t
    show (chained' : Multiset Nat) + ∑ u, Function.update m.held t held u = elements
    rw [hupdate, ← add_assoc, hall, add_assoc, ← hsum]
    exact h.all
  count := (count_moveTo m.head hfits).trans (h.count.add_right 1)
  stands u := by
    by_cases hu : u = t
    · subst hu
      rw [contestant_move_self]
      trivial
    · rw [contestant_move_of_ne _ hu]
      show (m.swap t (moveTo m.head next) held).Stands base
        ((m.swap t (moveTo m.head next) held).held u) (m.contestant u)
      rw [held_swap_of_ne m hu]
      exact stands_swap (h.stands u) t _ _

/-- Who takes the top off goes by a link word that is still the one it read. -/
theorem take (h : m.Sound base elements chained) (hlimit : limit ≤ width ω) {seen : ω}
    {next since : Nat} (hc : m.contestant t = .taking seen next since) (hhead : m.head = seen)
    (hfew : m.swaps < since + limit) : ∃ chained',
      ((m.swap t (moveTo seen next) (top seen ::ₘ m.held t)).move t .idle).Sound base elements
        chained' := by
  have hstands := h.stands t
  rw [hc] at hstands
  obtain ⟨hk, htop, hnext⟩ := hstands
  obtain rfl := hnext (h.unchanged hlimit hk hhead hfew)
  subst hhead
  have hleads := h.leads
  cases chained with
  | nil => exact absurd hleads htop
  | cons e rest =>
    obtain ⟨htop', hrest⟩ := hleads
    rw [← htop'] at hrest
    refine ⟨rest, h.swap (h.fits hrest fun x hx => List.mem_cons_of_mem _ hx) hrest ?_⟩
    rw [← Multiset.cons_coe, Multiset.add_cons, Multiset.cons_add, htop']

theorem put (h : m.Sound base elements chained) {batch : Batch} {seen : ω} {since : Nat}
    (hc : m.contestant t = .putting batch seen since) (hhead : m.head = seen) :
    ((m.swap t (moveTo seen batch.first) (m.held t - batch.elements)).move t .idle).Sound base
      elements (batch.elements ++ chained) := by
  have hstands := h.stands t
  rw [hc] at hstands
  obtain ⟨-, hle, hleads⟩ := hstands
  subst hhead
  have hmem : batch.first ∈ m.held t :=
    Multiset.mem_of_le hle (Multiset.mem_coe.mpr batch.first_mem)
  refine h.swap (h.proper.fits _ (Multiset.mem_of_le (h.held_le t) hmem))
    (Leads.append_iff.mpr ⟨_, hleads, h.leads⟩) ?_
  rw [← Multiset.coe_add, add_comm (batch.elements : Multiset Nat), add_assoc,
    add_tsub_cancel_of_le hle]

/-- Who links the last of its elements to what was on top has the others lead there. -/
theorem tie (h : m.Sound base elements chained) {batch : Batch} {seen : ω} {since : Nat}
    (hc : m.contestant t = .pushing batch seen since) :
    ((m.write batch.last (top seen)).move t (.putting batch seen since)).Sound base elements
      chained := by
  have hstands := h.stands t
  rw [hc] at hstands
  obtain ⟨hk, hle, stop, hleads⟩ := hstands
  have hnodup : (batch.init ++ [batch.last]).Nodup :=
    Multiset.coe_nodup.mp (Multiset.nodup_of_le hle (h.nodup_held t))
  have hlast : batch.last ∉ batch.init := fun hmem =>
    (List.nodup_append.mp hnodup).2.2 _ hmem _ (List.mem_singleton_self _) rfl
  have hmem : batch.last ∈ m.held t := Multiset.mem_of_le hle
    (Multiset.mem_coe.mpr (List.mem_append_right _ (List.mem_singleton_self _)))
  have htied : Leads (m.write batch.last (top seen)).link batch.first batch.elements (top seen) :=
    hleads.relink hlast
  refine (h.write hmem ?_).move ⟨hk, hle, htied⟩
  rw [hc]
  exact ⟨hk, hle, _, htied⟩

theorem step (h : m.Sound base elements chained) (hlimit : limit ≤ width ω)
    (hstep : Step limit m m') : ∃ chained', m'.Sound base elements chained' := by
  cases hstep with
  | look t hc => exact ⟨chained, h.move h.knows⟩
  | none t hc hnil => exact ⟨chained, h.move trivial⟩
  | read t hc htop =>
    have hstands := h.stands t
    rw [hc] at hstands
    exact ⟨chained, h.move ⟨hstands, htop, fun _ => rfl⟩⟩
  | take t hc hhead hfew => exact h.take hlimit hc hhead hfew
  | missTake t hc => exact ⟨chained, h.move h.knows⟩
  | offer t batch hc hheld hleads => exact ⟨chained, h.move ⟨h.knows, hheld, _, hleads⟩⟩
  | tie t hc => exact ⟨chained, h.tie hc⟩
  | put t hc hhead hfew => exact ⟨_, h.put hc hhead⟩
  | missPut t hc =>
    have hstands := h.stands t
    rw [hc] at hstands
    obtain ⟨-, hle, hleads⟩ := hstands
    exact ⟨chained, h.move ⟨h.knows, hle, _, hleads⟩⟩
  | scribble t value hc he =>
    refine ⟨chained, h.write he ?_⟩
    rw [hc]
    trivial

theorem run (h : m.Sound base elements chained) (hlimit : limit ≤ width ω)
    (hrun : Reachable limit m m') : ∃ chained', m'.Sound base elements chained' := by
  induction hrun with
  | refl => exact ⟨chained, h⟩
  | tail _ hstep ih =>
    obtain ⟨_, h'⟩ := ih
    exact h'.step hlimit hstep

end Sound

/-! ### Contests from the start on -/

/-- Nobody contends yet. `chained` are on the chain, and the contestants have the other elements. -/
structure Start (m : Contest ι ω) (elements : Multiset Nat) (chained : List Nat) : Prop where
  proper : Proper ω elements
  leads : Leads m.link (top m.head) chained (nil ω)
  all : chained + ∑ t, m.held t = elements
  idle : ∀ t, m.contestant t = .idle
  swaps : m.swaps = 0

def fresh (head : ω) (link : Nat → Nat) : Contest ι ω :=
  ⟨head, link, fun _ => .idle, fun _ => 0, 0⟩

omit [DecidableEq ι] in
theorem start_fresh {head : ω} {link : Nat → Nat} {chained : List Nat}
    (hproper : Proper ω chained) (hleads : Leads link (top head) chained (nil ω)) :
    (fresh head link : Contest ι ω).Start chained chained :=
  ⟨hproper, hleads, by simp [fresh], fun _ => rfl, rfl⟩

omit [DecidableEq ι] in
theorem Start.sound {m : Contest ι ω} {elements : Multiset Nat} {chained : List Nat}
    (h : m.Start elements chained) : m.Sound (count m.head) elements chained where
  proper := h.proper
  leads := h.leads
  all := h.all
  count := by rw [h.swaps, Nat.add_zero]
  stands t := by
    rw [h.idle t]
    trivial

/-- What a contest keeps while fewer than `limit` swaps come between a look at the head and the swap
that goes by it. -/
structure Intact (m : Contest ι ω) (limit : Nat) (elements : Multiset Nat) : Prop where
  /-- Who is about to swap and finds the head that it saw finds it unchanged: nobody has swapped
  since, so all states since were states with this head. -/
  unchanged : ∀ t seen since, (m.contestant t).AboutToSwap seen since → m.head = seen →
    m.swaps < since + limit → since = m.swaps ∧
      ∀ m', Reachable limit m' m → since ≤ m'.swaps → m'.head = seen
  /-- The chain ends and comes by no element twice; what the contestants have is not on it, and
  together these are all the elements. -/
  chained : ∃ chained : List Nat, Leads m.link (top m.head) chained (nil ω) ∧ chained.Nodup ∧
    (∀ e ∈ chained, e ≠ nil ω) ∧ (∀ t, ∀ e ∈ m.held t, e ∉ chained) ∧
      chained + ∑ t, m.held t = elements
  nodup : ∀ t, (m.held t).Nodup
  apart : ∀ t u, t ≠ u → ∀ e ∈ m.held t, e ∉ m.held u

theorem Sound.intact {m : Contest ι ω} {base limit : Nat} {elements : Multiset Nat}
    {chained : List Nat} (h : m.Sound base elements chained) (hlimit : limit ≤ width ω) :
    m.Intact limit elements where
  unchanged t seen since hc hhead hfew := by
    have hknows : Knows m.head m.swaps base seen since := by
      have hstands := h.stands t
      cases hct : m.contestant t with
      | taking seen' next since' =>
        rw [hct] at hc hstands
        obtain ⟨rfl, rfl⟩ := hc
        exact hstands.1
      | putting batch seen' since' =>
        rw [hct] at hc hstands
        obtain ⟨rfl, rfl⟩ := hc
        exact hstands.1
      | _ =>
        rw [hct] at hc
        exact hc.elim
    have hsince := h.unchanged hlimit hknows hhead hfew
    refine ⟨hsince, fun m' hm' hle => ?_⟩
    obtain ⟨hswaps, hsame⟩ := hm'.head_eq
    exact (hsame (by omega)).symm.trans hhead
  chained := ⟨chained, h.leads, h.nodup,
    fun e he => h.proper.ne_nil e (h.mem_of_chained he), fun t e he => (h.apart he).1, h.all⟩
  nodup := h.nodup_held
  apart t u htu e he := (h.apart he).2 u htu.symm

/-- However the steps of any number of contestants interleave, as long as a count does not come
round between a look at the head and the swap that goes by it: a swap succeeds only on a head that
was not changed since the look; the chain ends, without an element twice; and each element there was
is on the chain or with one contestant, and never at two places. -/
theorem counted_heads_are_safe :
    (∀ {m₀ m : Contest ι Chain} {elements : Multiset Nat} {chained : List Nat},
      m₀.Start elements chained → Reachable (2 ^ 32) m₀ m → m.Intact (2 ^ 32) elements) ∧
    (∀ {m₀ m : Contest ι PageChain} {elements : Multiset Nat} {chained : List Nat},
      m₀.Start elements chained → Reachable 4096 m₀ m → m.Intact 4096 elements) := by
  constructor
  · intro m₀ m elements chained hstart hrun
    obtain ⟨_, h⟩ := hstart.sound.run (Nat.le_refl word32) hrun
    exact h.intact (Nat.le_refl word32)
  · intro m₀ m elements chained hstart hrun
    obtain ⟨_, h⟩ := hstart.sound.run (Nat.le_refl PageChain.alignment) hrun
    exact h.intact (Nat.le_refl PageChain.alignment)

/-- The first of two contestants has read the link word of the top element when the second takes
everything off and puts that element back. The element is on top again, but what the first has read
is no longer its link word, and the count tells. -/
theorem counted_heads_are_safe_of_two :
    (∃ m₀ m : Contest (Fin 2) Chain, m₀.Start [0, 1] [0, 1] ∧ Reachable (2 ^ 32) m₀ m ∧
      m.contestant 0 = .taking ⟨0, 0⟩ 1 0 ∧ m.head = ⟨0, 3⟩ ∧ m.link 0 = noIndex ∧
      m.held 1 = {1} ∧ m.Intact (2 ^ 32) [0, 1]) ∧
    (∃ m₀ m : Contest (Fin 2) PageChain, m₀.Start [4096, 8192] [4096, 8192] ∧
      Reachable 4096 m₀ m ∧ m.contestant 0 = .taking ⟨4096⟩ 8192 0 ∧ m.head = ⟨4099⟩ ∧
      m.link 4096 = 0 ∧ m.held 1 = {8192} ∧ m.Intact 4096 [4096, 8192]) := by
  constructor
  · have hstart : (fresh ⟨0, 0⟩ fun e => if e = 0 then 1 else noIndex :
        Contest (Fin 2) Chain).Start [0, 1] [0, 1] :=
      start_fresh ⟨by decide, fun _ _ => trivial, by decide⟩ ⟨rfl, rfl, rfl⟩
    have hlook := (.single (.look 0 (hstart.idle 0)) : Reachable (2 ^ 32) _ _)
    have hread := hlook.tail (.read 0 rfl (by decide))
    have hfirst := hread.trans (pop_runs (t := 1) (by decide) rfl (by decide))
    have hsecond := hfirst.trans (pop_runs (t := 1) (by decide) rfl (by decide))
    have hput := hsecond.trans (push_runs (t := 1) (by decide) rfl ⟨[], 0⟩ (by decide) ⟨rfl, rfl⟩)
    exact ⟨_, _, hstart, hput, rfl, rfl, rfl, by decide, counted_heads_are_safe.1 hstart hput⟩
  · have hstart : (fresh ⟨4096⟩ fun e => if e = 4096 then 8192 else 0 :
        Contest (Fin 2) PageChain).Start [4096, 8192] [4096, 8192] :=
      start_fresh ⟨by decide, fun e he => (by decide : ∀ e ∈ [4096, 8192], 4096 ∣ e) e he,
        by decide⟩ ⟨rfl, rfl, rfl⟩
    have hlook := (.single (.look 0 (hstart.idle 0)) : Reachable 4096 _ _)
    have hread := hlook.tail (.read 0 rfl (by decide))
    have hfirst := hread.trans (pop_runs (t := 1) (by decide) rfl (by decide))
    have hsecond := hfirst.trans (pop_runs (t := 1) (by decide) rfl (by decide))
    have hput :=
      hsecond.trans (push_runs (t := 1) (by decide) rfl ⟨[], 4096⟩ (by decide) ⟨rfl, rfl⟩)
    exact ⟨_, _, hstart, hput, by decide +kernel, by decide +kernel, by decide +kernel,
      by decide +kernel, counted_heads_are_safe.2 hstart hput⟩

end SlotArena.Contest
