import SlotArena.Proofs.SettingAside
import SlotArena.Proofs.Teardown

/-!
An allotment from its making to its end. `Tenure` follows it through every use that is made of it
and every use that others make of its pool in between, and keeps account of two things: which of its
slots are out, and which records the others have. The slots that wait on the chain and those that
are out are together those that were set aside, at every point (`Tenure.holds`): what others do
takes no record from the chain and no slot from the client (`use_holds`), and a slot that is drawn
or put back only changes sides.

Main statement: as long as it lasts an allotment has the slots that were set aside, no more and no
less, and at its end those that are not out go back; if it could not be made, all of them did
(`allotment_conserved`).
-/

namespace SlotArena

open Act

/-- What others have after a use that led from `p` to `p'`: what they gave back is gone, and what
they were handed is there. -/
def Pool.othersAfter (others : Set Nat) (p p' : Pool) : Set Nat :=
  (others \ {i | i ∈ p.live ∧ i ∉ p'.live}) ∪ {i | i ∈ p'.live ∧ i ∉ p.live}

namespace Estate

/-- The use is not one of allotment `k`, and gives none of the slots away that are out of it. -/
def Use.Foreign (k : Nat) (out : List Slot) : Use → Prop
  | .step (.draw n) => n ≠ k
  | .step (.putBack n slot) => n ≠ k ∧ slot ∉ out
  | .step (.release n) => n ≠ k
  | .step (.free slot) => slot ∉ out
  | _ => True

/-- `Tenure maker e₀ k count size e out others`: since allotment `k` was made in `e₀`, which `maker`
was asked for, the estate came to `e`. The slots of `out` are out of the allotment, and others have
the records of `others`. The host may answer differently at every use. -/
inductive Tenure (maker : Host) (e₀ : Estate) (k count size : Nat) :
    Estate → List Slot → Set Nat → Prop
  | made (served : ((perform (.reserve k count size)).run e₀).result.isOk) :
      Tenure maker e₀ k count size (e₀.next (.reserve k count size)) [] {i | i ∈ e₀.pool.live}
  | use [host : Host] {e : Estate} {out : List Slot} {others : Set Nat} {use : Use}
      (before : Tenure maker e₀ k count size e out others) (permits : e.Permits use)
      (foreign : use.Foreign k out) :
      Tenure maker e₀ k count size (e.after use) out
        (Pool.othersAfter others e.pool (e.after use).pool)
  | draw [host : Host] {e : Estate} {out : List Slot} {others : Set Nat} {answer : Option Slot}
      (before : Tenure maker e₀ k count size e out others)
      (answers : ((perform (.draw k)).run e).result = .ok answer) :
      Tenure maker e₀ k count size (e.next (.draw k)) (answer.toList ++ out) others
  | putBack [host : Host] {e : Estate} {out : List Slot} {others : Set Nat} {slot : Slot}
      (before : Tenure maker e₀ k count size e out others) (mem : slot ∈ out) :
      Tenure maker e₀ k count size (e.next (.putBack k slot)) (out.erase slot) others
  | refused [host : Host] {e : Estate} {out : List Slot} {others : Set Nat} {slot : Slot}
      {fault : Fault}
      (before : Tenure maker e₀ k count size e out others)
      (refuses : ((perform (.putBack k slot)).run e).result = .error fault) :
      Tenure maker e₀ k count size (e.next (.putBack k slot)) out others

/-- The records of `aside` were set aside for allotment `k`. Those of `spares` are on its chain, top
first, and the others belong to the slots of `out`, which the client has. -/
structure Holds (e : Estate) (k size : Nat) (a : Allotment) (aside spares : List Nat)
    (out : List Slot) (others : Set Nat) : Prop where
  here : e.allotments k = some a
  slotSize_eq : a.slotSize = ceilPow2 (max size SizeClass.least)
  count_eq : a.count = aside.length
  chained : a.Chained e.pool spares
  held : ∀ slot ∈ out, slot ∈ e.held
  sized : ∀ slot ∈ out, slot.size = a.slotSize
  front : ∀ slot ∈ out, 0 ≤ slot.offset
  split : (spares ++ out.map Slot.idx).Perm aside
  distinct : aside.Nodup
  live : ∀ i, i ∈ e.pool.live ↔ i ∈ others ∨ i ∈ aside
  apart : ∀ i ∈ aside, i ∉ others

variable {e e₀ e' : Estate} {keeper : Nat → Keeper} {k n count size : Nat} {a b : Allotment}
  {aside spares : List Nat} {out : List Slot} {others : Set Nat} {slot : Slot} {use : Use}

theorem Holds.mem_aside (h : e.Holds k size a aside spares out others) {i : Nat} :
    i ∈ aside ↔ i ∈ spares ∨ i ∈ out.map Slot.idx := by
  rw [← h.split.mem_iff, List.mem_append]

theorem Holds.out_nodup (h : e.Holds k size a aside spares out others) :
    (out.map Slot.idx).Nodup :=
  (List.nodup_append.mp (h.split.nodup_iff.mpr h.distinct)).2.1

theorem Holds.not_out (h : e.Holds k size a aside spares out others) {i : Nat} (hi : i ∈ spares) :
    i ∉ out.map Slot.idx := fun hout =>
  (List.nodup_append.mp (h.split.nodup_iff.mpr h.distinct)).2.2 i hi i hout rfl

theorem Holds.length (h : e.Holds k size a aside spares out others) :
    spares.length + out.length = aside.length := by
  have hlength := h.split.length_eq
  rwa [List.length_append, List.length_map] at hlength

theorem Holds.lent (h : e.Holds k size a aside spares out others) (hsound : e.Sound keeper)
    (hslot : slot ∈ out) : e.pool.Lent slot :=
  (hsound.content .client).2.1 slot (h.held slot hslot)

theorem Holds.uniform (h : e.Holds k size a aside spares out others) (hsound : e.Sound keeper) :
    ∀ i ∈ aside, i ∈ e.pool.live ∧
      (e.pool.roster.record i).size = ceilPow2 (max size SizeClass.least) := by
  intro i hi
  rcases h.mem_aside.mp hi with hi | hi
  · exact ⟨h.chained.live i hi, (h.chained.sized i hi).trans h.slotSize_eq⟩
  · obtain ⟨slot, hslot, rfl⟩ := List.mem_map.mp hi
    have hlent := h.lent hsound hslot
    exact ⟨hlent.live, hlent.size.trans ((h.sized slot hslot).trans h.slotSize_eq)⟩

/-! ### What others do -/

/-- Allotment `k` is as it was, and the client still has what it had of `out`. -/
def Bypassed (k : Nat) (out : List Slot) (e : Estate) (_ : List Event) (e' : Estate) : Prop :=
  e'.allotments k = e.allotments k ∧ ∀ slot ∈ out, slot ∈ e.held → slot ∈ e'.held

theorem bypassed_path (k : Nat) (out : List Slot) : Path (Bypassed k out) :=
  ⟨fun _ => ⟨rfl, fun _ _ => id⟩, fun h h' => ⟨h'.1.trans h.1, fun slot hslot hheld =>
    h'.2 slot hslot (h.2 slot hslot hheld)⟩⟩

theorem onPool_bypassed {α : Type} (x : Act Pool α) (e : Estate) :
    Traces (Bypassed k out) (onPool x) e := ⟨rfl, fun _ _ => id⟩

theorem onLane_bypassed {α : Type} (lane : Lane) (x : Act (Stream × Pool) α) (e : Estate) :
    Traces (Bypassed k out) (onLane n lane x) e := ⟨rfl, fun _ _ => id⟩

theorem onAllotment_bypassed {α : Type} (hn : n ≠ k) (b : Allotment) (x : Act (Allotment × Pool) α)
    (e : Estate) : Traces (Bypassed k out) (onAllotment n b x) e :=
  ⟨Function.update_of_ne (Ne.symm hn) .., fun _ _ => id⟩

theorem modify_bypassed {f : Estate → Estate} (hallotments : (f e).allotments k = e.allotments k)
    (hheld : ∀ slot ∈ out, slot ∈ e.held → slot ∈ (f e).held) :
    Traces (Bypassed k out) (Act.modify f) e := ⟨hallotments, hheld⟩

theorem keep_bypassed (slot : Slot) (e : Estate) :
    Traces (Bypassed k out) (Act.modify (keep · slot)) e :=
  modify_bypassed (congrFun (keep_allotments e slot) k) fun _ _ => mem_keep e slot

theorem drop_bypassed (hout : slot ∉ out) (e : Estate) :
    Traces (Bypassed k out) (Act.modify (drop · slot)) e :=
  modify_bypassed rfl fun t ht hheld =>
    (List.mem_erase_of_ne fun hts => hout (by rwa [← hts])).mpr hheld

theorem withAllotment_bypassed (hn : n ≠ k) (b : Option Allotment) (e : Estate) :
    Traces (Bypassed k out) (Act.modify (withAllotment · n b)) e :=
  modify_bypassed (Function.update_of_ne (Ne.symm hn) ..) fun _ _ => id

/-- A step that is not one of an allotment leaves it as it is, and what is out of it is still out.
-/
theorem next_bypassed [Host] {step : Step} (ha : e.allotments k = some a) (hadmits : e.Admits step)
    (hforeign : (Use.step step).Foreign k out) : Traces (Bypassed k out) (perform step) e := by
  have hR := bypassed_path k out
  cases step with
  | alloc size align =>
    exact (onPool_bypassed _ e).bind hR fun slot t =>
      (keep_bypassed slot t).bind hR fun _ _ => traces_pure hR _
  | allocBack =>
    exact (onPool_bypassed _ e).bind hR fun slot t =>
      (keep_bypassed slot t).bind hR fun _ _ => traces_pure hR _
  | free slot =>
    exact (onPool_bypassed _ e).bind hR fun _ t =>
      (drop_bypassed hforeign t).bind hR fun _ _ => traces_pure hR _
  | take n =>
    exact (onPool_bypassed _ e).bind hR fun _ _ =>
      (modify_bypassed rfl fun _ _ => id).bind hR fun _ _ => traces_pure hR _
  | giveBack offset n =>
    exact (modify_bypassed rfl fun _ _ => id).bind hR fun _ t =>
      (onPool_bypassed _ t).bind hR fun _ _ => traces_pure hR _
  | openStream n blockSize =>
    have hcreate : Traces (Bypassed k out) (Stream.create blockSize) e :=
      traces_ensure_bind hR (traces_pure hR _)
    exact hcreate.bind hR fun _ _ =>
      (modify_bypassed rfl fun _ _ => id).bind hR fun _ _ => traces_pure hR _
  | streamAlloc n size align =>
    refine traces_get_bind ?_
    cases e.lanes n with
    | none => exact traces_pure hR none
    | some lane =>
      exact (onLane_bypassed lane _ e).bind hR fun _ _ =>
        (modify_bypassed rfl fun _ _ => id).bind hR fun _ _ => traces_pure hR _
  | finish n =>
    refine traces_get_bind ?_
    cases e.lanes n with
    | none => exact traces_pure hR none
    | some lane =>
      exact (modify_bypassed rfl fun _ _ => id).bind hR fun _ t =>
        (onPool_bypassed _ t).bind hR fun _ _ => traces_pure hR _
  | reserve n count size =>
    -- an allotment is made where there is none
    have hn : n ≠ k := by
      rintro rfl
      exact Option.some_ne_none _ (ha.symm.trans hadmits)
    exact (onPool_bypassed _ e).bind hR fun b t =>
      (withAllotment_bypassed hn (some b) t).bind hR fun _ _ => traces_pure hR _
  | draw n =>
    refine traces_get_bind ?_
    cases e.allotments n with
    | none => exact traces_pure hR none
    | some b =>
      refine (onAllotment_bypassed hforeign b _ e).bind hR fun answer t => ?_
      cases answer with
      | none => exact (modify_bypassed rfl fun _ _ => id).bind hR fun _ _ => traces_pure hR _
      | some slot => exact (keep_bypassed slot t).bind hR fun _ _ => traces_pure hR _
  | putBack n slot =>
    refine traces_get_bind ?_
    cases e.allotments n with
    | none => exact traces_pure hR none
    | some b =>
      exact (onAllotment_bypassed hforeign.1 b _ e).bind hR fun _ t =>
        (drop_bypassed hforeign.2 t).bind hR fun _ _ => traces_pure hR _
  | release n =>
    refine traces_get_bind ?_
    cases e.allotments n with
    | none => exact traces_pure hR none
    | some b =>
      exact (onAllotment_bypassed hforeign b _ e).bind hR fun _ t =>
        (withAllotment_bypassed hforeign none t).bind hR fun _ _ => traces_pure hR _
  | write slot place bytes => exact (onPool_bypassed _ e).bind hR fun _ _ => traces_pure hR _

theorem use_bypassed [Host] (ha : e.allotments k = some a) (hpermits : e.Permits use)
    (hforeign : use.Foreign k out) : Bypassed k out e [] (e.after use) := by
  have hR := bypassed_path k out
  cases use with
  | step step => exact next_bypassed ha hpermits.1 hforeign
  | tender offset n =>
    have htender : Traces (Bypassed k out) (tender offset n) e := by
      refine (onPool_bypassed _ e).attempt.bind hR fun answer t => ?_
      rcases answer with (why | _ | _) | _
      · exact (modify_bypassed rfl fun _ _ => id).bind hR fun _ _ => traces_fail hR _
      · exact traces_fail hR _
      · exact traces_fail hR _
      · exact modify_bypassed rfl fun _ _ => id
    exact htender
  | grant offset count size =>
    have hgrant : Traces (Bypassed k out) (grant offset count size) e :=
      (onPool_bypassed _ e).bind hR fun _ _ => modify_bypassed rfl fun _ _ => id
    exact hgrant

theorem victim_of_foreign (hforeign : use.Foreign k out) : use.victim ≠ some (.allotment k) := by
  cases use with
  | step step =>
    cases step with
    | release n => exact fun hvictim => hforeign (Keeper.allotment.inj (Option.some.inj hvictim))
    | free _ | putBack _ _ => exact fun hvictim => Keeper.noConfusion (Option.some.inj hvictim)
    | finish n => exact fun hvictim => Keeper.noConfusion (Option.some.inj hvictim)
    | _ => exact fun hvictim => Option.some_ne_none _ hvictim.symm
  | _ => exact fun hvictim => Option.some_ne_none _ hvictim.symm

theorem Holds.spare_kept (h : e.Holds k size a aside spares out others) (hsound : e.Sound keeper)
    {i : Nat} (hi : i ∈ spares) : keeper i = .allotment k := by
  obtain ⟨records, hthreads, hmem⟩ := ((hsound.content (.allotment k)).2 a h.here).chained
  rw [h.chained.threads.unique hthreads] at hi
  exact ((hmem i).mp hi).2

/-- What others do leaves an allotment all that was set aside for it. -/
theorem use_holds [Host] (h : e.Holds k size a aside spares out others) (hsound : e.Sound keeper)
    (hpermits : e.Permits use) (hforeign : use.Foreign k out) :
    (e.after use).Holds k size a aside spares out
      (Pool.othersAfter others e.pool (e.after use).pool) := by
  obtain ⟨hallotment, hheld⟩ := use_bypassed h.here hpermits hforeign
  obtain ⟨keeper', hsound'⟩ := hsound.use hpermits
  have hchained : a.Chained (e.after use).pool spares := h.chained.congr fun i hi =>
    use_leaves hsound hpermits (h.chained.live i hi) <| by
      rw [h.spare_kept hsound hi]
      exact victim_of_foreign hforeign
  have hout : ∀ slot ∈ out, slot ∈ (e.after use).held := fun slot hslot =>
    hheld slot hslot (h.held slot hslot)
  have hlive : ∀ i ∈ aside, i ∈ (e.after use).pool.live := by
    intro i hi
    rcases h.mem_aside.mp hi with hi | hi
    · exact hchained.live i hi
    · obtain ⟨slot, hslot, rfl⟩ := List.mem_map.mp hi
      exact (hsound'.held_keeper (hout slot hslot)).1
  refine { h with
    here := hallotment.trans h.here
    chained := hchained
    held := hout
    live := fun i => ?_
    apart := fun i hi => ?_ }
  -- what is set aside is live before and after, so others neither lost nor got any of it
  · have hbefore := h.live i
    have hkept := hlive i
    simp only [Pool.othersAfter, Set.mem_union, Set.mem_sdiff, Set.mem_ofPred_eq]
    by_cases hi : i ∈ aside
    · simp [hi, hkept hi]
    · tauto
  · have hbefore := (h.live i).mpr (Or.inr hi)
    have hother := h.apart i hi
    simp only [Pool.othersAfter, Set.mem_union, Set.mem_sdiff, Set.mem_ofPred_eq]
    tauto

/-! ### What is done with the allotment -/

/-- An allotment that is made has set as many records aside as it should, and nobody had them; if it
cannot be made, nothing is left of it. -/
theorem reserve_meets [Host] (hsound : e.Sound keeper) (k count size : Nat) :
    (perform (.reserve k count size)).Meets e
      (fun _ e' => ∃ a aside, aside.length = count ∧
        e'.Holds k size a aside aside [] {i | i ∈ e.pool.live})
      fun fault e' => 0 < size → size ≤ SizeClass.largest →
        Allotment.Unfilled e.pool count size fault e'.pool := by
  simp only [perform, meets_bind, onPool, meets_focus, meets_modify, meets_pure]
  refine (Allotment.create_fills hsound.valid count size).weaken ?_ fun _ _ => id
  rintro a p ⟨hasked, aside, hlength, hfilled⟩
  refine ⟨a, aside, hlength, {
    here := Function.update_self ..
    slotSize_eq := hasked ▸ hfilled.slotSize_eq
    count_eq := hfilled.count_eq
    chained := hfilled.toChained
    held := fun _ hslot => absurd hslot List.not_mem_nil
    sized := fun _ hslot => absurd hslot List.not_mem_nil
    front := fun _ hslot => absurd hslot List.not_mem_nil
    split := by rw [List.map_nil, List.append_nil]
    distinct := hfilled.nodup
    live := fun i => ?_
    apart := hfilled.new }⟩
  by_cases hi : i ∈ aside
  · exact iff_of_true (hfilled.live i hi) (Or.inr hi)
  · exact (hfilled.passed.live i hi).trans (or_iff_left hi).symm

theorem draw_meets [Host] (h : e.Holds k size a aside spares out others) (hsound : e.Sound keeper) :
    (perform (.draw k)).Meets e (fun answer e' => answer = spares.head?.map e.pool.slotOf ∧
      ∃ b, e'.Holds k size b aside spares.tail (answer.toList ++ out) others) Never := by
  simp only [perform, meets_bind, meets_get, h.here, onAllotment, meets_focus, meets_modify,
    meets_pure]
  apply (Allotment.alloc_top h.chained hsound.valid).imp
  rintro answer ⟨_, p⟩ ⟨rfl, rfl, ⟨chain, rfl⟩, hrest⟩
  dsimp only at h hsound hrest ⊢
  refine ⟨rfl, { a with spare := chain }, ?_⟩
  cases spares with
  | nil => exact { h with here := Function.update_self .., chained := hrest }
  | cons i spares =>
    have hi := h.chained.live i List.mem_cons_self
    have hpos : ¬ (e.pool.slotOf i).IsNull := Nat.ne_of_gt (hsound.valid.size_pos hi)
    simp only [List.head?_cons, Option.map_some, Option.elim_some, keep, if_neg hpos]
    refine { h with
      here := Function.update_self ..
      chained := hrest
      held := List.forall_mem_cons.mpr ⟨List.mem_cons_self, fun slot hslot =>
        List.mem_cons_of_mem _ (h.held slot hslot)⟩
      sized := List.forall_mem_cons.mpr ⟨h.chained.sized i List.mem_cons_self, h.sized⟩
      front := List.forall_mem_cons.mpr ⟨h.chained.front i List.mem_cons_self, h.front⟩
      split := List.perm_middle.trans h.split }

theorem putBack_meets [Host] (h : e.Holds k size a aside spares out others)
    (hsound : e.Sound keeper) (hslot : slot ∈ out) :
    (perform (.putBack k slot)).Meets e (fun answer e' => answer = none ∧
      ∃ b, e'.Holds k size b aside (slot.idx :: spares) (out.erase slot) others) Never := by
  have hlent := h.lent hsound hslot
  have hnew : slot.idx ∉ spares := fun hmem => h.not_out hmem (List.mem_map_of_mem hslot)
  have hmem : ∀ t, t ∈ out.erase slot ↔ t ≠ slot ∧ t ∈ out := fun t =>
    h.out_nodup.of_map.mem_erase_iff
  have hback : (slot.idx :: (out.erase slot).map Slot.idx).Perm (out.map Slot.idx) :=
    ((List.perm_cons_erase hslot).map Slot.idx).symm
  simp only [perform, meets_bind, meets_get, h.here, onAllotment, meets_focus, meets_modify,
    meets_pure]
  apply (Allotment.free_top h.chained hsound.valid hlent hnew (h.sized slot hslot)
    (h.front slot hslot)).imp
  rintro _ ⟨_, p⟩ ⟨⟨chain, rfl⟩, hpassed, hmore⟩
  refine ⟨trivial, { a with spare := chain }, { h with
    here := Function.update_self ..
    chained := hmore
    held := fun t ht => ?_
    sized := fun t ht => h.sized t ((hmem t).mp ht).2
    front := fun t ht => h.front t ((hmem t).mp ht).2
    split := (List.perm_middle.symm.trans (hback.append_left spares)).trans h.split
    live := fun i => ?_ }⟩
  · obtain ⟨hne, ht⟩ := (hmem t).mp ht
    exact (List.mem_erase_of_ne hne).mpr (h.held t ht)
  · refine Iff.trans ?_ (h.live i)
    by_cases hi : i = slot.idx
    · subst hi
      exact iff_of_true (hmore.live _ List.mem_cons_self) hlent.live
    · exact hpassed.live i hi

theorem next_of_refused [Host] {fault : Fault} (ha : e.allotments k = some a)
    (hrefused : ((perform (.putBack k slot)).run e).result = .error fault) :
    e.next (.putBack k slot) = e := by
  have hmeets : (perform (.putBack k slot)).Meets e (fun _ _ => True) fun _ e' => e' = e := by
    simp only [perform, meets_bind, meets_get, ha, onAllotment, meets_focus, meets_modify,
      meets_pure]
    refine (Allotment.free_judges a e.pool slot).weaken (fun _ _ _ => trivial) ?_
    rintro _ _ ⟨rfl, -⟩
    rw [withAllotment, ← ha, Function.update_eq_self]
  exact hmeets.of_error hrefused

theorem release_meets [Host] (h : e.Holds k size a aside spares out others)
    (hsound : e.Sound keeper) : (perform (.release k)).Meets e (fun answer e' => answer = none ∧
      e.pool.Passed e'.pool {i | i ∈ spares} ∧
      e.pool.Recalls (spares.map e.pool.slotOf) e'.pool) Never := by
  simp only [perform, meets_bind, meets_get, h.here, onAllotment, meets_focus, meets_modify,
    meets_pure]
  apply (Allotment.release_recalls h.chained hsound.valid).imp
  rintro _ _ ⟨-, hpassed, hrecalls⟩
  exact ⟨trivial, hpassed, hrecalls⟩

/-! ### The whole tenure -/

/-- At every point of its tenure an allotment has what was set aside for it. -/
theorem Tenure.holds [maker : Host] (ht : Tenure maker e₀ k count size e out others)
    (hsound : ∃ keeper, (e₀.next (.reserve k count size)).Sound keeper)
    (hmade : ∃ a, (e₀.next (.reserve k count size)).Holds k size a aside aside []
      {i | i ∈ e₀.pool.live}) :
    (∃ keeper, e.Sound keeper) ∧ ∃ a spares, e.Holds k size a aside spares out others := by
  induction ht with
  | made _ =>
    obtain ⟨a, hmade⟩ := hmade
    exact ⟨hsound, a, aside, hmade⟩
  | use _ hpermits hforeign ih =>
    obtain ⟨⟨keeper, hsound⟩, a, spares, h⟩ := ih
    exact ⟨hsound.use hpermits, a, spares, use_holds h hsound hpermits hforeign⟩
  | @draw host e _ _ _ _ hanswers ih =>
    obtain ⟨⟨keeper, hsound⟩, a, spares, h⟩ := ih
    have hpermits : e.Permits (.step (.draw k)) := ⟨trivial, trivial⟩
    obtain ⟨-, b, h'⟩ := (draw_meets h hsound).of_ok hanswers
    exact ⟨hsound.use hpermits, b, _, h'⟩
  | @putBack host e out others slot _ hslot ih =>
    obtain ⟨⟨keeper, hsound⟩, a, spares, h⟩ := ih
    have hpermits : e.Permits (.step (.putBack k slot)) := ⟨h.held slot hslot, trivial⟩
    obtain ⟨_, _, es, hrun, -, b, h'⟩ := (putBack_meets h hsound hslot).exists_ok
    refine ⟨hsound.use hpermits, b, slot.idx :: spares, ?_⟩
    rw [next, hrun]
    exact h'
  | refused _ hrefuses ih =>
    obtain ⟨hsound, a, spares, h⟩ := ih
    rw [next_of_refused h.here hrefuses]
    exact ⟨hsound, a, spares, h⟩

theorem Tenure.served [maker : Host] (ht : Tenure maker e₀ k count size e out others) :
    ((perform (.reserve k count size)).run e₀).result.isOk := by
  induction ht with
  | made hok => exact hok
  | use _ _ _ ih => exact ih
  | draw _ _ ih => exact ih
  | putBack _ _ ih => exact ih
  | refused _ _ ih => exact ih

theorem exists_holds {creator : Host} {config : PoolConfig} {p : Pool} {uses : List Occasion}
    (hp : ((Pool.create config).run ()).result = .ok p) (hcourse : Course (new p) uses e₀)
    [maker : Host] (hk : e₀.allotments k = none)
    (hok : ((perform (.reserve k count size)).run e₀).result.isOk) :
    ∃ aside : List Nat, aside.length = count ∧ (∀ i ∈ aside, i ∉ e₀.pool.live) ∧
      ∀ e out others, Tenure maker e₀ k count size e out others →
        (∃ keeper, e.Sound keeper) ∧ ∃ a spares, e.Holds k size a aside spares out others := by
  obtain ⟨hvalid, hnone, -, -⟩ := (@Pool.create_meets creator config).of_ok hp
  obtain ⟨keeper, h₀⟩ := hcourse.sound (new_sound hvalid hnone)
  have hpermits : e₀.Permits (.step (.reserve k count size)) := ⟨hk, trivial⟩
  obtain ⟨a, aside, hlength, hmade⟩ := (reserve_meets h₀ k count size).of_isOk hok
  exact ⟨aside, hlength, hmade.apart, fun e out others ht => ht.holds (h₀.use hpermits) ⟨a, hmade⟩⟩

/-- What goes back at the end is what waits on the chain, so that what is live afterwards is what
others have and what is still out. -/
theorem Holds.release [Host] (h : e.Holds k size a aside spares out others)
    (hsound : e.Sound keeper) : ((perform (.release k)).run e).result = .ok none ∧
    e.pool.Recalls (spares.map e.pool.slotOf) (e.next (.release k)).pool ∧
    (∀ i, i ∈ (e.next (.release k)).pool.live ↔ i ∈ others ∨ i ∈ out.map Slot.idx) ∧
    ∀ slot ∈ out, (e.next (.release k)).pool.Lent slot := by
  obtain ⟨_, e', es, hrun, rfl, hpassed, hrecalls⟩ := (release_meets h hsound).exists_ok
  have hidx : (spares.map e.pool.slotOf).map Slot.idx = spares := by
    rw [List.map_map]
    exact List.map_id spares
  rw [next, hrun]
  refine ⟨rfl, hrecalls, fun i => ?_, fun slot hslot => ?_⟩
  · have hout := fun hi : i ∈ spares => h.not_out hi
    have haside := h.apart i
    rw [hrecalls.live, hidx, h.live, h.mem_aside]
    rw [h.mem_aside] at haside
    tauto
  · exact (h.lent hsound hslot).passed hpassed fun hmem =>
      h.not_out hmem (List.mem_map_of_mem hslot)

/-- However a pool came to where it is, an allotment can be made of it or not. If not, the pool has
back all that it supplied before it refused, and is charged with as many live records as before. If
it is made, then whatever is done with it and with the pool, at every point the slots on its chain
and those that are out are as many different ones as it was made with, all live and all of one size.
It answers with none exactly if all are out, and at its end it returns exactly those that are not:
what is live afterwards is what was live before it was made, as others have changed it, and what is
out. -/
theorem allotment_conserved {creator : Host} {config : PoolConfig} {p : Pool} {uses : List Occasion}
    (hp : ((Pool.create config).run ()).result = .ok p) (hcourse : Course (new p) uses e₀)
    [maker : Host] (hk : e₀.allotments k = none) (count : Nat) (hpos : 0 < size)
    (hsize : size ≤ SizeClass.largest) :
    (∀ fault, ((perform (.reserve k count size)).run e₀).result = .error fault →
      Allotment.Unfilled e₀.pool count size fault (e₀.next (.reserve k count size)).pool) ∧
    (((perform (.reserve k count size)).run e₀).result.isOk → ∃ aside : List Nat,
      aside.length = count ∧ aside.Nodup ∧ (∀ i ∈ aside, i ∉ e₀.pool.live) ∧
      ∀ e out others, Tenure maker e₀ k count size e out others →
        ∃ a spares, e.allotments k = some a ∧ a.count = count ∧
          Chain.Threads e.pool.roster.link a.spare.head spares ∧
          (spares ++ out.map Slot.idx).Perm aside ∧
          (∀ i ∈ aside, i ∈ e.pool.live ∧
            (e.pool.roster.record i).size = ceilPow2 (max size SizeClass.least)) ∧
          (∀ slot ∈ out, e.pool.Lent slot ∧
            ((perform (.putBack k slot)).run e).result = .ok none) ∧
          ((perform (.draw k)).run e).result = .ok (spares.head?.map e.pool.slotOf) ∧
          (((perform (.draw k)).run e).result = .ok none ↔ out.length = count) ∧
          ((perform (.release k)).run e).result = .ok none ∧
          e.pool.Recalls (spares.map e.pool.slotOf) (e.next (.release k)).pool ∧
          (∀ i, i ∈ (e.next (.release k)).pool.live ↔ i ∈ others ∨ i ∈ out.map Slot.idx) ∧
          ∀ slot ∈ out, (e.next (.release k)).pool.Lent slot) := by
  refine ⟨fun fault hfault => ?_, fun hok => ?_⟩
  · obtain ⟨hvalid, hnone, -, -⟩ := (@Pool.create_meets creator config).of_ok hp
    obtain ⟨keeper, h₀⟩ := hcourse.sound (new_sound hvalid hnone)
    exact (reserve_meets h₀ k count size).of_error hfault hpos hsize
  obtain ⟨aside, hlength, hnew, hholds⟩ := exists_holds hp hcourse hk hok
  obtain ⟨-, a₀, spares₀, hmade⟩ := hholds _ _ _ (.made hok)
  refine ⟨aside, hlength, hmade.distinct, hnew, fun e out others ht => ?_⟩
  obtain ⟨⟨keeper, hsound⟩, a, spares, h⟩ := hholds e out others ht
  obtain ⟨_, _, _, hdraw, rfl, -⟩ := (draw_meets h hsound).exists_ok
  have htotal := h.length
  refine ⟨a, spares, h.here, h.count_eq.trans hlength, h.chained.threads, h.split,
    h.uniform hsound, fun slot hslot => ⟨h.lent hsound hslot, ?_⟩, congrArg Outcome.result hdraw,
    ?_, h.release hsound⟩
  · obtain ⟨_, _, _, hback, rfl, -⟩ := (putBack_meets h hsound hslot).exists_ok
    exact congrArg Outcome.result hback
  · rw [congrArg Outcome.result hdraw, Except.ok.injEq, Option.map_eq_none_iff,
      List.head?_eq_none_iff, ← List.length_eq_zero_iff]
    omega

def eightBlocks : PoolConfig := { arena := { initial := 4096, extent := 65536 } }

section

attribute [local instance] Host.plain

/-- A client that has one slot of the pool sets three aside, draws two of them with a block of its
own in between, and puts the first one back; nine blocks cannot be set aside any more. -/
theorem allotment_conserved_of_three : ∃ p e₀ e slot others fault,
    ((Pool.create eightBlocks).run ()).result = .ok p ∧ e₀ = (new p).next (.alloc 1024 64) ∧
    Tenure .plain e₀ 0 3 1000 e [slot] others ∧ e.pool.live.toList = [0, 1, 2, 3, 4] ∧
    (∃ (a : Allotment) (aside spares : List Nat), aside.length = 3 ∧ spares.length = 2 ∧
      Chain.Threads e.pool.roster.link a.spare.head spares ∧ (spares ++ [slot.idx]).Perm aside ∧
      ((perform (.release 0)).run e).result = .ok none ∧
      ∀ i, i ∈ (e.next (.release 0)).pool.live ↔ i ∈ others ∨ i = slot.idx) ∧
    ((perform (.reserve 1 9 4096)).run e₀).result = .error fault ∧
    Allotment.Unfilled e₀.pool 9 4096 fault (e₀.next (.reserve 1 9 4096)).pool := by
  have hrun : ∃ p e₀ e₁ e₂ e₃ e₄ first second fault,
      ((Pool.create eightBlocks).run ()).result = .ok p ∧ e₀ = (new p).next (.alloc 1024 64) ∧
      e₁ = e₀.next (.reserve 0 3 1000) ∧ e₂ = e₁.next (.draw 0) ∧ e₃ = e₂.next (.alloc 4096 64) ∧
      e₄ = e₃.next (.draw 0) ∧ ((perform (.draw 0)).run e₁).result = .ok (some first) ∧
      ((perform (.draw 0)).run e₃).result = .ok (some second) ∧
      ((perform (.reserve 1 9 4096)).run e₀).result = .error fault ∧
      ((perform (.reserve 0 3 1000)).run e₀).result.isOk ∧
      (e₀.allotments 0).isNone ∧ (e₀.allotments 1).isNone ∧ first ≠ second ∧
      (e₄.next (.putBack 0 first)).pool.live.toList = [0, 1, 2, 3, 4] := by
    refine ⟨_, _, _, _, _, _, ⟨3072, 1024, some ⟨0, 3072⟩, 3⟩, ⟨2048, 1024, some ⟨1, 2048⟩, 2⟩,
      .refused (.outOfReservedSpace 65536 32768), rfl, rfl, rfl, rfl, rfl, rfl, ?_⟩
    decide +kernel
  obtain ⟨p, e₀, e₁, e₂, e₃, e₄, first, second, fault, hp, rfl, rfl, rfl, rfl, rfl, hfirst, hsecond,
    hfault, hok, hnone, hnone', hne, hlive⟩ := hrun
  have hcourse : Course (new p) (occasions (plainly [.alloc 1024 64]))
      ((new p).next (.alloc 1024 64)) :=
    .cons ⟨trivial, trivial⟩ (.nil _)
  have hpermits : ∀ e : Estate, e.Permits (.step (.alloc 4096 64)) := fun _ => ⟨trivial, trivial⟩
  have ht := ((((Tenure.made hok).draw hfirst).use (hpermits _) trivial).draw hsecond).putBack
    (List.mem_cons_of_mem second List.mem_cons_self)
  have hout : [second, first].erase first = [second] := by
    rw [List.erase_cons_tail (by simpa using Ne.symm hne), List.erase_cons_head]
  change Tenure _ _ 0 3 1000 _ ([second, first].erase first) _ at ht
  rw [hout] at ht
  obtain ⟨-, hmade⟩ := allotment_conserved hp hcourse (Option.isNone_iff_eq_none.mp hnone) 3
    (by decide : 0 < 1000) (by decide)
  obtain ⟨hunfilled, -⟩ := allotment_conserved hp hcourse (Option.isNone_iff_eq_none.mp hnone') 9
    (by decide : 0 < 4096) (by decide)
  obtain ⟨aside, hlength, -, -, hconserved⟩ := hmade hok
  obtain ⟨a, spares, -, -, hthreads, hsplit, -, -, -, -, hreleased, -, hleft, -⟩ :=
    hconserved _ _ _ ht
  have htotal := hsplit.length_eq
  rw [List.length_append, List.length_map, List.length_singleton, hlength] at htotal
  exact ⟨p, _, _, second, _, fault, hp, rfl, ht, hlive, ⟨a, aside, spares, hlength, by omega,
    hthreads, hsplit, hreleased, by simpa using hleft⟩, hfault, hunfilled fault hfault⟩

end

end Estate

end SlotArena
