import SlotArena.Proofs.AlikePools
import SlotArena.Proofs.Steps

/-!
What the log of a step can show. Only the note of an allotment that is given up may fail to be
worded, if more slots come back than were set aside. So every operation of a pool or a stream is
`Worded` because two runs of it agree without that note, and an allotment is given up without it as
long as it has no more spare slots than it set aside (`Allotment.release_worded`).
-/

namespace SlotArena

open Act

namespace Act

variable {σ τ α β : Type}

/-- Whatever becomes of `x` on `s`, a log can show all that it tells. -/
def Worded (x : Act σ α) (s : σ) : Prop := ∀ ev ∈ (x.run s).events, ev.flaw? = none

theorem Quiet.worded {x : Act σ α} (h : x.Quiet) (s : σ) : x.Worded s := (h s).2

/-- What agrees with a run, and has no flaw in common with it, has none. -/
theorem Worded.of_agrees {x : Act σ α} {y : Act τ β} {R : σ → τ → Prop} {Q : α → β → Prop} {s : σ}
    {t : τ} (h : Agrees False R Q x y) (hst : R s t) : x.Worded s := by
  intro ev hev
  by_contra hflaw
  exact (h s t hst).worded ev hev hflaw

theorem Worded.bind {x : Act σ α} {f : α → Act σ β} {s : σ} (h : x.Worded s)
    (hf : ∀ a, (x.run s).result = .ok a → (f a).Worded (x.run s).state) : (x >>= f).Worded s := by
  intro ev hev
  rw [run_bind] at hev
  rcases hx : x.run s with ⟨_ | a, t, es⟩
  all_goals
    rw [hx] at hev
    rw [Worded, hx] at h
  · exact h ev hev
  · rcases List.mem_append.mp hev with hev | hev
    · exact h ev hev
    · rw [hx] at hf
      exact hf a rfl ev hev

/-- What comes first may be known by a lemma of its own. -/
theorem Worded.bind_meets {x : Act σ α} {f : α → Act σ β} {s : σ} {good : α → σ → Prop}
    {bad : Fault → σ → Prop} (h : x.Worded s) (hx : x.Meets s good bad)
    (hf : ∀ a t, good a t → (f a).Worded t) : (x >>= f).Worded s :=
  h.bind fun a ha => hf a _ (hx.of_ok ha)

theorem Worded.bind_quiet {x : Act σ α} {f : α → Act σ β} {s : σ} (h : x.Worded s)
    (hf : ∀ a, (f a).Quiet) : (x >>= f).Worded s :=
  h.bind fun a _ => (hf a).worded _

theorem worded_get_bind {f : σ → Act σ α} {s : σ} (h : (f s).Worded s) :
    (Act.get >>= f).Worded s := h

theorem worded_modify_bind {g : σ → σ} {f : Unit → Act σ α} {s : σ} (h : (f ()).Worded (g s)) :
    (Act.modify g >>= f).Worded s := h

theorem Worded.attempt {x : Act σ α} {s : σ} (h : x.Worded s) : x.attempt.Worded s := h

theorem worded_beside {x : Act (τ × σ) α} {t : τ} {s : σ} (h : x.Worded (t, s)) :
    Worded (fun s => ⟨(x.run (t, s)).result, (x.run (t, s)).state.2, (x.run (t, s)).events⟩) s := h

end Act

/-! ### Pools and streams -/

theorem Pool.Valid.alike [Host] {p : Pool} {loose : Finset Int} (h : p.Valid loose) : p.Alike p :=
  .intro (.intro (.self h.window)) (.intro (.self h.roster.window))

theorem Stream.paired_self [Host] {s : Stream} {p : Pool} {loose : Finset Int} (h : p.Valid loose) :
    Stream.Paired (s, p) (s, p) :=
  ⟨.intro (.refl _), h.alike⟩

/-! ### Allotments -/

namespace Allotment

variable {a : Allotment} {p : Pool} {loose : Finset Int} {spares : Set Nat}

theorem paired_self [Host] (h : p.Valid loose) : Paired (a, p) (a, p) := ⟨rfl, h.alike⟩

/-- The note of an allotment that is given up can be worded, if not more slots are on the chain than
were set aside. -/
theorem release_worded [Host] (h : a.Sound p spares) (hp : p.Valid loose)
    (hcount : spares.ncard ≤ a.count) : release.Worded (a, p) := by
  refine worded_get_bind ?_
  refine (Worded.of_agrees (returnFree_agrees _ _) (paired_self hp)).bind_meets
    (returnFree_meets h hp 0 h.fuel) ?_
  rintro returned t ⟨hreturned, -⟩
  rw [Nat.zero_add] at hreturned
  have hnote : (Note.allotmentShort returned a.count).flaw? = none :=
    if_neg (Nat.not_lt.mpr (hreturned ▸ hcount))
  split
  · intro ev hev
    obtain rfl := List.mem_singleton.mp hev
    exact hnote
  · exact (Quiet.pure ()).worded t

/-- What is given up half way has as many spare slots as were counted. -/
theorem create_worded [Host] (hp : p.Valid loose) (count size : Nat) :
    (create count size).Worded p := by
  have hensure : (Act.ensure (0 < size) .allotmentOfNothing : Act Pool Unit).Meets p
      (fun _ q => 0 < size ∧ q = p) fun _ _ => True := by
    simp [meets_ensure]
  have hround : (Act.roundToPow2 word32 (max size SizeClass.least) : Act Pool Nat).Meets p
      (fun slotSize q => slotSize = ceilPow2 (max size SizeClass.least) ∧ q = p)
      fun _ _ => True := by
    simp [roundToPow2, meets_ensure]
  refine .bind_meets ((Quiet.ensure _ _).worded p) hensure ?_
  rintro _ p ⟨hpos, rfl⟩
  refine .bind_meets ((Quiet.bind (Quiet.ensure _ _) fun _ => .pure _).worded p) hround ?_
  rintro slotSize p ⟨hslot, rfl⟩
  refine worded_beside ?_
  have hgather := gather_meets (sound_empty size slotSize) hp hpos hslot count
  have hattempt : (gather count).attempt.Meets (⟨.empty, size, slotSize, 0⟩, p)
      (fun _ => Gathered ⟨.empty, size, slotSize, 0⟩ p loose ∅) Never :=
    (meets_attempt _).mpr (hgather.weaken (fun _ _ => id) fun _ _ hres => hres.1)
  refine .bind_meets (Worded.of_agrees (gather_agrees count) (paired_self hp)).attempt hattempt ?_
  rintro (e | _) t hgathered
  · obtain ⟨new, -, hvalid, -, hcount, hsound⟩ := hgathered.filled
    exact .bind_quiet (release_worded hsound hvalid (Nat.le_of_eq hcount.symm)) fun _ => .fail e
  · exact (Quiet.get.bind fun _ => .pure _).worded _

end Allotment

/-! ### Steps -/

namespace Estate

variable {e : Estate} {keeper : Nat → Keeper} {α : Type}

theorem onPool_worded {x : Act Pool α} (h : x.Worded e.pool) : (onPool x).Worded e := h

theorem onLane_worded (k : Nat) {lane : Lane} {x : Act (Stream × Pool) α}
    (h : x.Worded (lane.stream, e.pool)) : (onLane k lane x).Worded e := h

theorem onAllotment_worded (k : Nat) {a : Allotment} {x : Act (Allotment × Pool) α}
    (h : x.Worded (a, e.pool)) : (onAllotment k a x).Worded e := h

/-- A step tells what a log can show, if an allotment that it gives up is not overfull. -/
theorem perform_worded [Host] (h : e.Sound keeper) (step : Step)
    (hcount : ∀ k a, step = .release k → e.allotments k = some a →
      (e.pool.keptBy keeper (.allotment k)).ncard ≤ a.count) : (perform step).Worded e := by
  have hp := h.valid.alike
  have hdone : ∀ f : Estate → Estate, ∀ answer : Option Slot,
      (do Act.modify f; return answer).Quiet := fun f _ => (Quiet.modify f).bind fun _ => .pure _
  cases step with
  | alloc size align =>
    exact .bind_quiet (onPool_worded (.of_agrees (Pool.alloc_agrees size align) hp)) fun _ =>
      hdone _ _
  | allocBack =>
    exact .bind_quiet (onPool_worded (.of_agrees Pool.allocBack_agrees hp)) fun _ => hdone _ _
  | free slot =>
    exact .bind_quiet (onPool_worded (.of_agrees (Pool.free_agrees (.refl slot)) hp)) fun _ =>
      hdone _ _
  | take n =>
    exact .bind_quiet
      (onPool_worded (.of_agrees (Pool.onArena_agrees (Arena.alloc_agrees n)) hp)) fun _ =>
        hdone _ _
  | giveBack offset n =>
    refine worded_modify_bind (.bind_quiet (onPool_worded ?_) fun _ => .pure _)
    exact .of_agrees (Pool.splitChunk_agrees offset n none) hp
  | openStream k blockSize =>
    exact .bind_quiet ((Quiet.bind (Quiet.ensure _ _) fun _ => .pure _).worded e) fun _ =>
      hdone _ _
  | streamAlloc k size align =>
    refine worded_get_bind ?_
    cases e.lanes k with
    | none => exact (Quiet.pure _).worded e
    | some lane =>
      refine .bind_quiet (onLane_worded k ?_) fun _ => hdone _ _
      exact .of_agrees (Stream.alloc_agrees size align) (Stream.paired_self h.valid)
  | finish k =>
    refine worded_get_bind ?_
    cases e.lanes k with
    | none => exact (Quiet.pure _).worded e
    | some lane =>
      refine worded_modify_bind (.bind_quiet (onPool_worded ?_) fun _ => .pure _)
      exact .of_agrees (Stream.release_agrees (.intro (.refl _))) hp
  | reserve k count size =>
    exact .bind_quiet (onPool_worded (Allotment.create_worded h.valid count size)) fun _ =>
      hdone _ _
  | draw k =>
    refine worded_get_bind ?_
    cases e.allotments k with
    | none => exact (Quiet.pure _).worded e
    | some a =>
      refine .bind_quiet (onAllotment_worded k ?_) fun _ => hdone _ _
      exact .of_agrees Allotment.alloc_agrees (Allotment.paired_self h.valid)
  | putBack k slot =>
    refine worded_get_bind ?_
    cases e.allotments k with
    | none => exact (Quiet.pure _).worded e
    | some a =>
      refine .bind_quiet (onAllotment_worded k ?_) fun _ => hdone _ _
      exact .of_agrees (Allotment.free_agrees (.refl slot)) (Allotment.paired_self h.valid)
  | release k =>
    refine worded_get_bind ?_
    cases ha : e.allotments k with
    | none => exact (Quiet.pure _).worded e
    | some a =>
      refine .bind_quiet (onAllotment_worded k ?_) fun _ => hdone _ _
      have hsound := (h.content (.allotment k)).2 a ha
      exact Allotment.release_worded hsound h.valid (hcount k a rfl ha)
  | write slot place bytes =>
    refine .bind_quiet (onPool_worded ?_) fun _ => .pure _
    exact .of_agrees (Pool.onWindow_agrees (Window.copy_agrees rfl bytes)) hp

end Estate

end SlotArena
