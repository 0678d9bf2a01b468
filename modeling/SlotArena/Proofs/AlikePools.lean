import SlotArena.Allotment
import SlotArena.Proofs.Alike
import SlotArena.Stream

/-!
Pools, streams and allotments whose windows differ in the strategy only. All that these hold apart
from the windows is the same on both sides, slots up to the pointer they were handed out with; so
every operation goes the same way on both, whatever it is asked and whatever state it is in.
-/

namespace SlotArena

open Act

variable {flaws : Prop}

/-! ### Apart from windows -/

theorem Pool.holding_agrees {σ τ : Type} {R : σ → τ → Prop} (size : Nat) :
    Agrees flaws R Eq (SizeClass.holding size : Act σ SizeClass) (SizeClass.holding size) := by
  refine (Agrees.roundToPow2 _ _).bind ?_
  rintro rounded _ rfl
  by_cases hclass : SizeClass.indexOf rounded < classCount
  · simp only [hclass, dite_true]
    exact .pure rfl
  · simp only [hclass, dite_false]
    exact .fail (.refl _)

namespace Stream

inductive Alike : Stream → Stream → Prop
  | intro {s : Stream} {block : Slot} (h : s.block.Alike block) : Alike s { s with block := block }

theorem create_agrees {σ τ : Type} {R : σ → τ → Prop} (blockSize : Nat) :
    Agrees flaws R Alike (create blockSize : Act σ Stream) (create blockSize : Act τ Stream) :=
  (Agrees.ensure_same _).bind fun _ _ _ => .pure ⟨.refl _⟩

theorem enter_agrees {block block' : Slot} (hblock : block.Alike block') :
    Agrees flaws Alike Eq (enter block) (enter block') := by
  obtain ⟨hplace⟩ := hblock
  refine (Agrees.modify ?_).bind fun _ _ _ => Agrees.get.bind ?_
  · rintro s _ ⟨-⟩
    exact .intro (s := { s with block := block }) ⟨hplace⟩
  rintro s _ ⟨-⟩
  refine (Agrees.addSize _ _).bind ?_
  rintro blocks _ rfl
  refine .modify ?_
  rintro s _ ⟨h⟩
  exact .intro (s := { s with blocks := blocks }) h

theorem advance_agrees (next size : Nat) :
    Agrees flaws Alike Eq (advance next size) (advance next size) := by
  refine (Agrees.modify ?_).bind fun _ _ _ => Agrees.get.bind ?_
  · rintro s _ ⟨h⟩
    exact .intro (s := { s with next := next }) h
  rintro s _ ⟨-⟩
  refine (Agrees.addSize _ _).bind ?_
  rintro total _ rfl
  refine .modify ?_
  rintro s _ ⟨h⟩
  exact .intro (s := { s with total := total }) h

theorem inside_alike {s t : Slot} (h : s.Alike t) (start : Int) (size : Nat) (offset : Nat) :
    Slot.Alike ⟨start, size, s.place.map fun p => { p with offset := p.offset + offset }, noIndex⟩
      ⟨start, size, t.place.map fun p => { p with offset := p.offset + offset }, noIndex⟩ := by
  refine .intro ?_
  obtain ⟨hs, ht⟩ | ⟨p, q, hs, ht, hpq⟩ := h.places
  · rw [hs, ht]
  · rw [hs, ht]
    simp [hpq]

theorem cut_agrees (offset size : Nat) :
    Agrees flaws Alike Slot.Alike (cut offset size) (cut offset size) := by
  refine (advance_agrees _ _).bind fun _ _ _ => Agrees.get.bind ?_
  rintro s _ ⟨⟨hplace⟩⟩
  refine (Agrees.addSigned _ _).bind ?_
  rintro start _ rfl
  exact .pure (inside_alike ⟨hplace⟩ start size offset)

end Stream

variable [Host]

/-! ### Pools -/

namespace Pool

inductive Alike : Pool → Pool → Prop
  | intro {p : Pool} {a : Arena} {r : Roster} (ha : p.arena.Alike a) (hr : p.roster.Alike r) :
      Alike p { p with arena := a, roster := r }

section

variable {α β : Type} {Q : α → β → Prop}

theorem onArena_agrees {x : Act Arena α} {y : Act Arena β} (h : Agrees flaws Arena.Alike Q x y) :
    Agrees flaws Alike Q (onArena x) (onArena y) :=
  h.focus (fun _ _ ⟨ha, _⟩ => ha) fun _ _ ⟨_, hr⟩ _ _ ha => ⟨ha, hr⟩

theorem onRoster_agrees {x : Act Roster α} {y : Act Roster β}
    (h : Agrees flaws Roster.Alike Q x y) : Agrees flaws Alike Q (onRoster x) (onRoster y) :=
  h.focus (fun _ _ ⟨_, hr⟩ => hr) fun _ _ ⟨ha, _⟩ _ _ hr => ⟨ha, hr⟩

theorem onWindow_agrees {x : Act Window α} {y : Act Window β}
    (h : Agrees flaws Window.Alike Q x y) : Agrees flaws Alike Q (onWindow x) (onWindow y) :=
  onArena_agrees (Arena.onWindow_agrees h)

end

theorem onCarve_agrees (c : SizeClass) {α β : Type} {Q : α → β → Prop} {x : Act Cursor α}
    {y : Act Cursor β} (h : Agrees flaws Eq Q x y) :
    Agrees flaws Alike Q (onCarve c x) (onCarve c y) := by
  refine h.focus ?_ ?_
  · rintro p _ ⟨-, -⟩
    rfl
  · rintro p _ ⟨ha, hr⟩ cur _ rfl
    exact ⟨ha, hr⟩

theorem pushFree_agrees (c : SizeClass) (first count : Nat) :
    Agrees flaws Alike Eq (pushFree c first count) (pushFree c first count) := by
  refine Agrees.get.bind ?_
  rintro p _ ⟨-, -⟩
  refine (onRoster_agrees (Roster.push_agrees _ _ _)).bind ?_
  rintro chain _ rfl
  exact .modify fun _ _ ⟨ha, hr⟩ => ⟨ha, hr⟩

theorem popFree_agrees (c : SizeClass) : Agrees flaws Alike Eq (popFree c) (popFree c) := by
  refine Agrees.get.bind ?_
  rintro p _ ⟨-, -⟩
  refine .ite Iff.rfl (fun _ => .pure rfl) fun _ => Agrees.get.bind ?_
  rintro p _ ⟨-, -⟩
  refine (onRoster_agrees (Roster.pop_agrees _)).bind ?_
  rintro ⟨top, chain⟩ _ rfl
  exact (Agrees.modify fun _ _ ⟨ha, hr⟩ => ⟨ha, hr⟩).bind fun _ _ _ => .pure rfl

theorem pushBack_agrees (idx : Nat) : Agrees flaws Alike Eq (pushBack idx) (pushBack idx) := by
  refine Agrees.get.bind ?_
  rintro p _ ⟨-, -⟩
  refine (onRoster_agrees (Roster.push_agrees _ _ _)).bind ?_
  rintro chain _ rfl
  exact .modify fun _ _ ⟨ha, hr⟩ => ⟨ha, hr⟩

theorem popBack_agrees : Agrees flaws Alike Eq popBack popBack := by
  refine Agrees.get.bind ?_
  rintro p _ ⟨-, -⟩
  refine (onRoster_agrees (Roster.pop_agrees _)).bind ?_
  rintro ⟨top, chain⟩ _ rfl
  exact (Agrees.modify fun _ _ ⟨ha, hr⟩ => ⟨ha, hr⟩).bind fun _ _ _ => .pure rfl

theorem slotAt_agrees (idx : Nat) : Agrees flaws Alike Slot.Alike (slotAt idx) (slotAt idx) := by
  refine (onRoster_agrees (Roster.get_agrees idx)).bind ?_
  rintro v _ rfl
  refine (onArena_agrees (Arena.place_agrees _)).bind fun p q hpq => .pure ?_
  exact .intro (congrArg some hpq.symm)

theorem handOut_agrees (idx : Nat) :
    Agrees flaws Alike Slot.Alike (handOut idx) (handOut idx) := by
  refine Agrees.get.bind ?_
  rintro p _ ⟨-, -⟩
  refine (Agrees.ensure_same _).bind fun _ _ _ =>
    (Agrees.modify fun _ _ ⟨ha, hr⟩ => ⟨ha, hr⟩).bind fun _ _ _ =>
      (Agrees.emit_same (by simp [Event.flaw?])).bind fun _ _ _ => slotAt_agrees idx

/-! ### Giving memory to the pool -/

theorem leak_agrees (bytes : Nat) (offset : Int) :
    Agrees flaws Alike Eq (leak bytes offset) (leak bytes offset) :=
  (Agrees.modify fun _ _ ⟨ha, hr⟩ => ⟨ha, hr⟩).bind fun _ _ _ => .note_same rfl

theorem returnBlocks_agrees (offset : Int) (count size : Nat) :
    Agrees flaws Alike Eq (returnBlocks offset count size) (returnBlocks offset count size) := by
  refine .ite Iff.rfl (fun _ => .pure rfl) fun _ => (Agrees.ensure_same _).bind fun _ _ _ =>
    Agrees.get.bind ?_
  rintro p _ ⟨-, -⟩
  refine (Agrees.ensure_same _).bind fun _ _ _ =>
    (onRoster_agrees (Roster.add_agrees count)).bind ?_
  rintro first _ rfl
  refine (Agrees.sweep (fun i => ?_) 0 count).bind fun _ _ _ => (holding_agrees size).bind ?_
  · refine (Agrees.mulWord i size).bind ?_
    rintro bytes _ rfl
    refine (Agrees.addSigned _ _).bind ?_
    rintro start _ rfl
    exact onRoster_agrees (Roster.edit_agrees _ _)
  · rintro c _ rfl
    exact pushFree_agrees c _ _

theorem peel_agrees (offset : Int) (remaining size : Nat) :
    Agrees flaws Alike Eq (peel offset remaining size) (peel offset remaining size) := by
  refine .ite Iff.rfl (fun _ => .pure rfl) fun _ => (Agrees.addSigned _ _).bind ?_
  rintro start _ rfl
  refine ((returnBlocks_agrees _ _ _).attempt).bind ?_
  rintro _ _ (_ | (why | hwhat | _))
  · exact .pure rfl
  · exact (leak_agrees _ _).bind fun _ _ _ => .refuse why
  · exact .fail (.violated hwhat)
  · exact .fail .stuck

theorem peelDown_agrees (offset : Int) (fuel size remaining : Nat) :
    Agrees flaws Alike Eq (peelDown offset fuel size remaining)
      (peelDown offset fuel size remaining) := by
  induction fuel generalizing size remaining with
  | zero => exact .pure rfl
  | succ fuel ih =>
    refine .ite Iff.rfl (fun _ => (peel_agrees _ _ _).bind ?_) fun _ => .pure rfl
    rintro rest _ rfl
    exact ih _ rest

theorem splitChunk_agrees (offset : Int) (size : Nat) (cap : Option Nat) :
    Agrees flaws Alike Eq (splitChunk offset size cap) (splitChunk offset size cap) := by
  refine (Agrees.ensure_same _).bind fun _ _ _ => Agrees.get.bind ?_
  rintro p _ ⟨-, -⟩
  refine (peel_agrees _ _ _).bind ?_
  rintro rest _ rfl
  refine (peelDown_agrees _ _ _ _).bind ?_
  rintro rest _ rfl
  exact .ite Iff.rfl (fun _ => leak_agrees _ _) fun _ => .pure rfl

/-! ### Allocating -/

theorem Alike.firstFree {p q : Pool} (h : p.Alike q) (classes : List SizeClass) :
    p.firstFree classes = q.firstFree classes := by
  obtain ⟨ha, hr⟩ := h
  rfl

theorem popFirst_agrees (classes : List SizeClass) :
    Agrees flaws Alike Eq (popFirst classes) (popFirst classes) := by
  refine Agrees.get.bind fun p q h => ?_
  rw [h.firstFree]
  cases q.firstFree classes with
  | none => exact .pure rfl
  | some c =>
    refine (popFree_agrees c).bind ?_
    rintro top _ rfl
    exact .pure rfl

theorem shrink_agrees (larger : SizeClass) (idx size : Nat) :
    Agrees flaws Alike Eq (shrink larger idx size) (shrink larger idx size) := by
  refine (onRoster_agrees (Roster.get_agrees idx)).bind ?_
  rintro v _ rfl
  refine (Agrees.ensure_same _).bind fun _ _ _ =>
    (onRoster_agrees (Roster.edit_agrees _ _)).bind fun _ _ _ => (Agrees.addSigned _ _).bind ?_
  rintro offset _ rfl
  refine ((splitChunk_agrees _ _ _).attempt).bind ?_
  rintro _ _ (_ | (why | hwhat | _))
  · exact .pure rfl
  · exact .note_same rfl
  · exact .fail (.violated hwhat)
  · exact .fail .stuck

theorem carve_agrees (c : SizeClass) : Agrees flaws Alike Eq (carve c) (carve c) := by
  refine Agrees.get.bind ?_
  rintro p _ ⟨-, -⟩
  refine .ite Iff.rfl (fun _ => onArena_agrees (Arena.alloc_agrees _)) fun _ => ?_
  refine (onCarve_agrees c (Cursor.reserve_agrees _)).bind ?_
  rintro verdict _ rfl
  cases verdict with
  | fits offset => exact .pure rfl
  | wait before => exact .fail .stuck
  | mustGrow before =>
    refine ((onArena_agrees (Arena.alloc_agrees _)).attempt).bind ?_
    rintro _ _ (hblock | (why | hwhat | _))
    · cases hblock
      refine (Agrees.addWord _ _).bind ?_
      rintro next _ rfl
      refine (Agrees.addWord _ _).bind ?_
      rintro stop _ rfl
      exact (onCarve_agrees c (Cursor.publish_agrees _)).bind fun _ _ _ => .pure rfl
    · exact (onCarve_agrees c (Cursor.publish_agrees _)).bind fun _ _ _ => .refuse why
    · exact .fail (.violated hwhat)
    · exact .fail .stuck

theorem enroll_agrees (offset : Int) (size : Nat) :
    Agrees flaws Alike Eq (enroll offset size) (enroll offset size) := by
  refine ((onRoster_agrees (Roster.add_agrees 1)).attempt).bind ?_
  rintro _ _ (hidx | (why | hwhat | _))
  · cases hidx
    exact (onRoster_agrees (Roster.edit_agrees _ _)).bind fun _ _ _ => .pure rfl
  · exact (Agrees.modify fun _ _ ⟨ha, hr⟩ => ⟨ha, hr⟩).bind fun _ _ _ => .refuse why
  · exact .fail (.violated hwhat)
  · exact .fail .stuck

theorem alloc_agrees (size align : Nat) :
    Agrees flaws Alike Slot.Alike (alloc size align) (alloc size align) := by
  refine .ite Iff.rfl (fun _ => .pure (.refl _)) fun _ => Agrees.get.bind ?_
  rintro p _ ⟨-, -⟩
  refine (Agrees.ensure_same _).bind fun _ _ _ => (Agrees.ensure_same _).bind fun _ _ _ =>
    (holding_agrees _).bind ?_
  rintro c _ rfl
  refine (popFree_agrees c).bind ?_
  rintro top _ rfl
  cases top with
  | some idx => exact handOut_agrees idx
  | none =>
    refine (popFirst_agrees c.above).bind ?_
    rintro larger _ rfl
    cases larger with
    | some larger =>
      exact (shrink_agrees _ _ _).bind fun _ _ _ => handOut_agrees _
    | none =>
      refine (carve_agrees c).bind ?_
      rintro offset _ rfl
      refine (enroll_agrees _ _).bind ?_
      rintro idx _ rfl
      exact handOut_agrees idx

theorem allocBack_agrees : Agrees flaws Alike Slot.Alike allocBack allocBack := by
  refine popBack_agrees.bind ?_
  rintro top _ rfl
  cases top with
  | some idx => exact handOut_agrees idx
  | none =>
    refine Agrees.get.bind ?_
    rintro p _ ⟨-, -⟩
    refine (onArena_agrees (Arena.allocBack_agrees _)).bind ?_
    rintro offset _ rfl
    refine (enroll_agrees _ _).bind ?_
    rintro idx _ rfl
    exact handOut_agrees idx

/-! ### Freeing -/

theorem free_agrees {s t : Slot} (h : s.Alike t) : Agrees flaws Alike Eq (free s) (free t) := by
  obtain ⟨hplace⟩ := h
  refine .ite Iff.rfl (fun _ => .pure rfl) fun _ => Agrees.get.bind ?_
  rintro p _ ⟨-, ⟨-⟩⟩
  refine Agrees.bind (Agrees.ensure Iff.rfl rfl) fun _ _ _ =>
    (Agrees.ensure_same _).bind fun _ _ _ => (Agrees.modify ?_).bind fun _ _ _ =>
      (onRoster_agrees (Roster.get_agrees _)).bind ?_
  · rintro p _ ⟨ha, hr⟩
    exact ⟨ha, hr⟩
  rintro v _ rfl
  refine (Agrees.ensure_same _).bind fun _ _ _ => (Agrees.ensure_same _).bind fun _ _ _ =>
    (Agrees.modify ?_).bind fun _ _ _ =>
      (Agrees.emit_same (by simp [Event.flaw?])).bind fun _ _ _ => ?_
  · rintro p _ ⟨ha, hr⟩
    exact ⟨ha, hr⟩
  refine .ite Iff.rfl (fun _ => ?_) fun _ => (holding_agrees _).bind ?_
  · exact (Agrees.ensure_same _).bind fun _ _ _ => pushBack_agrees _
  · rintro c _ rfl
    exact pushFree_agrees c _ _

/-! ### Making -/

def under (config : PoolConfig) (strategy : Strategy) : PoolConfig :=
  { config with arena := config.arena.under strategy }

theorem create_agrees [Host.Generous] (config : PoolConfig) (strategy strategy' : Strategy) :
    Agrees flaws Eq Alike (create (under config strategy)) (create (under config strategy')) := by
  refine (Agrees.ensure_same _).bind fun _ _ _ =>
    (Arena.create_agrees config.arena strategy strategy').bind ?_
  intro a b hab
  refine ((Roster.create_agrees _ _ _ _).attempt).bind ?_
  rintro _ _ (hr | he)
  · refine Agrees.bind (Agrees.note rfl ?_) fun _ _ _ => .pure ?_
    · exact fun hflaw => absurd rfl hflaw
    exact .intro (p := ⟨a, _, _, _, _, _, _, _, _⟩) hab hr
  · refine (Agrees.emit ?_ ?_).bind fun _ _ _ => .fail he
    · obtain ⟨hw⟩ := hab
      exact hw.closing
    · exact fun ev hev hflaw => absurd (Window.closing_worded _ ev hev) hflaw

end Pool

/-! ### Streams -/

namespace Stream

def Paired (s t : Stream × Pool) : Prop := s.1.Alike t.1 ∧ s.2.Alike t.2

section

variable {α β : Type} {Q : α → β → Prop}

theorem onStream_agrees {x : Act Stream α} {y : Act Stream β} (h : Agrees flaws Alike Q x y) :
    Agrees flaws Paired Q (onStream x) (onStream y) :=
  h.focus (fun _ _ hst => hst.1) fun _ _ hst _ _ hs => ⟨hs, hst.2⟩

theorem onPool_agrees {x : Act Pool α} {y : Act Pool β} (h : Agrees flaws Pool.Alike Q x y) :
    Agrees flaws Paired Q (onPool x) (onPool y) :=
  h.focus (fun _ _ hst => hst.2) fun _ _ hst _ _ hp => ⟨hst.1, hp⟩

end

theorem writeHeader_agrees {s t : Slot} (h : s.Alike t) (previous : Nat) :
    Agrees flaws Pool.Alike Eq (writeHeader s previous) (writeHeader t previous) := by
  unfold writeHeader
  obtain ⟨hs, ht⟩ | ⟨p, q, hs, ht, hpq⟩ := h.places
  · rw [hs, ht]
    exact .pure rfl
  · rw [hs, ht]
    exact Pool.onWindow_agrees (Window.copy_agrees hpq _)

theorem readHeader_agrees {s t : Slot} (h : s.Alike t) :
    Agrees flaws Pool.Alike Eq (readHeader s) (readHeader t) := by
  refine Agrees.get.bind fun x y hxy => .pure ?_
  obtain ⟨⟨hw⟩, -⟩ := hxy
  refine congrArg wordOfBytes (hw.load ?_ 4)
  obtain ⟨hs, ht⟩ | ⟨p, q, hs, ht, hpq⟩ := h.places
  · rw [hs, ht]
    obtain ⟨-⟩ := h
    rfl
  · rw [hs, ht]
    exact hpq

theorem startBlock_agrees (size align : Nat) :
    Agrees flaws Paired Eq (startBlock size align) (startBlock size align) := by
  refine (onPool_agrees (Pool.alloc_agrees _ _)).bind fun block block' hblock =>
    Agrees.get.bind ?_
  rintro ⟨s, p⟩ ⟨_, q⟩ ⟨⟨⟨-⟩⟩, -⟩
  refine (onPool_agrees (writeHeader_agrees hblock _)).bind fun _ _ _ => ?_
  have hnote : Agrees flaws Paired Eq (Act.note (.streamBlock s.blocks block.offset size))
      (Act.note (.streamBlock s.blocks block'.offset size)) := by
    obtain ⟨-⟩ := hblock
    exact .note_same rfl
  exact hnote.bind fun _ _ _ => (onStream_agrees (enter_agrees hblock)).bind fun _ _ _ =>
    .emit_same (by simp [Event.flaw?])

theorem alloc_agrees (size align : Nat) :
    Agrees flaws Paired Slot.Alike (alloc size align) (alloc size align) := by
  refine .ite Iff.rfl (fun _ => .pure (.refl _)) fun _ => Agrees.get.bind ?_
  rintro ⟨s, p⟩ ⟨_, _⟩ ⟨⟨⟨-⟩⟩, ⟨-, -⟩⟩
  refine (Agrees.ensure_same _).bind fun _ _ _ => (Agrees.roundWord _ _).bind ?_
  rintro next _ rfl
  refine .ite Iff.rfl (fun _ => ?_) fun _ => onStream_agrees (cut_agrees _ _)
  refine (Agrees.addWord _ _).bind ?_
  rintro sum _ rfl
  refine (Agrees.roundToPow2 _ _).bind ?_
  rintro rounded _ rfl
  exact (startBlock_agrees _ _).bind fun _ _ _ => onStream_agrees (cut_agrees _ _)

theorem releaseFrom_agrees (fuel : Nat) {s t : Slot} (h : s.Alike t) :
    Agrees flaws Pool.Alike Eq (releaseFrom fuel s) (releaseFrom fuel t) := by
  induction fuel generalizing s t with
  | zero => exact .fail .stuck
  | succ fuel ih =>
    have hnull : s.IsNull ↔ t.IsNull := by
      obtain ⟨-⟩ := h
      rfl
    refine .ite hnull (fun _ => .pure rfl) fun _ => (readHeader_agrees h).bind ?_
    rintro previous _ rfl
    refine (Pool.free_agrees h).bind fun _ _ _ =>
      (Agrees.emit_same (by simp [Event.flaw?])).bind fun _ _ _ => ?_
    exact .ite Iff.rfl (fun _ => .pure rfl) fun _ =>
      (Pool.slotAt_agrees previous).bind fun _ _ hblock => ih hblock

theorem release_agrees {s t : Stream} (h : s.Alike t) :
    Agrees flaws Pool.Alike Eq (release s) (release t) := by
  obtain ⟨h⟩ := h
  refine Agrees.get.bind ?_
  rintro p _ ⟨-, -⟩
  exact releaseFrom_agrees _ h

end Stream

/-! ### Allotments -/

namespace Allotment

def Paired (s t : Allotment × Pool) : Prop := s.1 = t.1 ∧ s.2.Alike t.2

section

variable {α β : Type} {Q : α → β → Prop}

theorem onAllotment_agrees {x : Act Allotment α} {y : Act Allotment β}
    (h : Agrees flaws Eq Q x y) : Agrees flaws Paired Q (onAllotment x) (onAllotment y) :=
  h.focus (fun _ _ hst => hst.1) fun _ _ hst _ _ ha => ⟨ha, hst.2⟩

theorem onPool_agrees {x : Act Pool α} {y : Act Pool β} (h : Agrees flaws Pool.Alike Q x y) :
    Agrees flaws Paired Q (onPool x) (onPool y) :=
  h.focus (fun _ _ hst => hst.2) fun _ _ hst _ _ hp => ⟨hst.1, hp⟩

end

theorem pushFree_agrees (idx : Nat) :
    Agrees flaws Paired Eq (pushFree idx) (pushFree idx) := by
  refine Agrees.get.bind ?_
  rintro ⟨a, p⟩ ⟨_, q⟩ ⟨rfl, hp⟩
  refine (onPool_agrees (Pool.onRoster_agrees (Roster.push_agrees _ _ _))).bind ?_
  rintro chain _ rfl
  exact onAllotment_agrees (.same (.modify _))

theorem popFree_agrees : Agrees flaws Paired Eq popFree popFree := by
  refine Agrees.get.bind ?_
  rintro ⟨a, p⟩ ⟨_, q⟩ ⟨rfl, hp⟩
  refine (onPool_agrees (Pool.onRoster_agrees (Roster.pop_agrees _))).bind ?_
  rintro ⟨top, chain⟩ _ rfl
  exact (onAllotment_agrees (.same (.modify _))).bind fun _ _ _ => .pure rfl

theorem alloc_agrees :
    Agrees flaws Paired (Option.Rel Slot.Alike) alloc alloc := by
  refine popFree_agrees.bind ?_
  rintro top _ rfl
  cases top with
  | none => exact .pure .none
  | some idx =>
    exact (onPool_agrees (Pool.slotAt_agrees idx)).bind fun _ _ hslot => .pure (.some hslot)

theorem free_agrees {s t : Slot} (h : s.Alike t) :
    Agrees flaws Paired Eq (free s) (free t) := by
  obtain ⟨hplace⟩ := h
  refine Agrees.get.bind ?_
  rintro ⟨a, p⟩ ⟨_, _⟩ ⟨rfl, ⟨-, ⟨-⟩⟩⟩
  refine Agrees.bind (Agrees.ensure Iff.rfl rfl) fun _ _ _ =>
    (onPool_agrees (Pool.onRoster_agrees (Roster.get_agrees _))).bind ?_
  rintro v _ rfl
  exact Agrees.bind (Agrees.ensure Iff.rfl rfl) fun _ _ _ => pushFree_agrees _

theorem returnFree_agrees (fuel returned : Nat) :
    Agrees flaws Paired Eq (returnFree fuel returned) (returnFree fuel returned) := by
  induction fuel generalizing returned with
  | zero => exact .fail .stuck
  | succ fuel ih =>
    refine popFree_agrees.bind ?_
    rintro top _ rfl
    cases top with
    | none => exact .pure rfl
    | some idx =>
      have hback : Agrees flaws Pool.Alike Eq (do Pool.free (← Pool.slotAt idx))
          (do Pool.free (← Pool.slotAt idx)) :=
        (Pool.slotAt_agrees idx).bind fun _ _ hslot => Pool.free_agrees hslot
      exact (onPool_agrees hback).bind fun _ _ _ => ih (returned + 1)

/-- More slots may come back than were set aside, so the last note may have no wording. -/
theorem release_agrees (hflaws : flaws) : Agrees flaws Paired Eq release release := by
  refine Agrees.get.bind ?_
  rintro ⟨a, p⟩ ⟨_, _⟩ ⟨rfl, ⟨-, ⟨-⟩⟩⟩
  refine (returnFree_agrees _ _).bind ?_
  rintro returned _ rfl
  exact .ite Iff.rfl (fun _ => .note rfl fun _ => hflaws) fun _ => .pure rfl

theorem gather_agrees (n : Nat) : Agrees flaws Paired Eq (gather n) (gather n) := by
  induction n with
  | zero => exact .pure rfl
  | succ n ih =>
    refine Agrees.get.bind ?_
    rintro ⟨a, p⟩ ⟨_, q⟩ ⟨rfl, hp⟩
    refine (onPool_agrees (Pool.alloc_agrees _ _)).bind ?_
    rintro slot _ ⟨-⟩
    exact Agrees.bind (Agrees.ensure_same _) fun _ _ _ => (pushFree_agrees _).bind fun _ _ _ =>
      (onAllotment_agrees (.same (.modify _))).bind fun _ _ _ => ih

theorem create_agrees (hflaws : flaws) (count size : Nat) :
    Agrees flaws Pool.Alike Eq (create count size) (create count size) := by
  refine (Agrees.ensure_same _).bind fun _ _ _ => (Agrees.roundToPow2 _ _).bind ?_
  rintro slotSize _ rfl
  refine .beside rfl ?_
  refine ((gather_agrees count).attempt).bind ?_
  rintro _ _ (_ | he)
  · exact Agrees.get.bind fun _ _ hst => .pure hst.1
  · exact (release_agrees hflaws).bind fun _ _ _ => .fail he

end Allotment

end SlotArena
