import SlotArena.Proofs.Holdings
import SlotArena.Proofs.Traces

/-!
What a stream answers. `receipts` keeps every answer of a stream beside the request that it was
given to, from the answers of a run alone; the slots of these receipts are the ones that the estate
remembers of the stream (`Told`). A step that is about another stream, or about none, leaves the
stream as it is (`lanes_next`), and a request that fails does so too (`streamAlloc_meets`). So what
holds of a stream at every point of every run holds of its answers (`stream_slots_apart`).
-/

namespace SlotArena

open Act Finset Ledger

/-- A request to a stream and the slot that it was answered with. -/
structure Receipt where
  size : Nat
  align : Nat
  slot : Slot

structure Receipt.Suits (r : Receipt) : Prop where
  size_eq : r.slot.size = r.size
  aligned : (r.align : Int) ∣ r.slot.offset

def Step.stream? : Step → Option Nat
  | .openStream k _ => some k
  | .streamAlloc k _ _ => some k
  | .finish k => some k
  | _ => none

namespace Estate

/-- The receipts of stream `k` after a step with this result, newest first. -/
def receiptsAfter (k : Nat) (past : List Receipt) :
    Step → Except Fault (Option Slot) → List Receipt
  | .streamAlloc k' size align, .ok (some slot) =>
      if k' = k then ⟨size, align, slot⟩ :: past else past
  | .finish k', _ => if k' = k then [] else past
  | _, _ => past

def receipts (k : Nat) : Estate → List Receipt → List Round → List Receipt
  | _, past, [] => past
  | e, past, ⟨_, step⟩ :: rounds =>
      receipts k (e.next step) (receiptsAfter k past step ((perform step).run e).result) rounds

def slotsOf (rs : List Receipt) : List Slot :=
  (rs.map Receipt.slot).filter fun slot => ¬ slot.IsNull

/-- The receipts of stream `k` are for the slots that it handed out. -/
structure Told (e : Estate) (k : Nat) (rs : List Receipt) : Prop where
  slots : slotsOf rs = (e.lanes k).elim [] Lane.issued
  suits : ∀ r ∈ rs, r.Suits

variable {e e' : Estate} {keeper : Nat → Keeper} {k : Nat} {lane : Lane} {step : Step}
  {rs : List Receipt}

theorem slotsOf_cons (r : Receipt) (rs : List Receipt) :
    slotsOf (r :: rs) = if r.slot.IsNull then slotsOf rs else r.slot :: slotsOf rs := by
  by_cases hnull : r.slot.IsNull
  · simp [slotsOf, hnull]
  · simp [slotsOf, hnull]

theorem sum_slotsOf (rs : List Receipt) (hsuits : ∀ r ∈ rs, r.Suits) :
    ((slotsOf rs).map Slot.size).sum = (rs.map Receipt.size).sum := by
  induction rs with
  | nil => rfl
  | cons r rs ih =>
    have hsize := (hsuits r (List.mem_cons_self ..)).size_eq
    have hrest := ih fun r' hr' => hsuits r' (List.mem_cons_of_mem _ hr')
    rw [slotsOf_cons, List.map_cons, List.sum_cons, ← hrest, ← hsize]
    split
    · rename_i hnull
      rw [hnull, Nat.zero_add]
    · rw [List.map_cons, List.sum_cons]

/-! ### Steps that are not about the stream -/

def Spared (k : Nat) (e : Estate) (_ : List Event) (e' : Estate) : Prop := e'.lanes k = e.lanes k

theorem spared_path (k : Nat) : Path (Spared k) :=
  ⟨fun _ => rfl, fun h h' => h'.trans h⟩

theorem onPool_spared {α : Type} (x : Act Pool α) (k : Nat) (e : Estate) :
    Traces (Spared k) (onPool x) e := rfl

theorem onAllotment_spared {α : Type} (n : Nat) (a : Allotment) (x : Act (Allotment × Pool) α)
    (k : Nat) (e : Estate) : Traces (Spared k) (onAllotment n a x) e := rfl

@[simp] theorem keep_lanes (e : Estate) (slot : Slot) : (e.keep slot).lanes = e.lanes := by
  unfold keep
  split
  · rfl
  · rfl

theorem onLane_spared {α : Type} {n : Nat} (h : n ≠ k) (lane : Lane)
    (x : Act (Stream × Pool) α) (e : Estate) : Traces (Spared k) (onLane n lane x) e :=
  Function.update_of_ne (Ne.symm h) ..

theorem modify_spared {f : Estate → Estate} (h : (f e).lanes k = e.lanes k) :
    Traces (Spared k) (Act.modify f) e := h

theorem withLane_lanes {n : Nat} (h : n ≠ k) (lane : Option Lane) (e : Estate) :
    (e.withLane n lane).lanes k = e.lanes k :=
  Function.update_of_ne (Ne.symm h) ..

theorem lanes_next [Host] (h : step.stream? ≠ some k) : (e.next step).lanes k = e.lanes k := by
  have hR := spared_path k
  have hne : ∀ n, step.stream? = some n → n ≠ k := by
    rintro n hn rfl
    exact h hn
  show Traces (Spared k) (perform step) e
  cases step with
  | alloc size align =>
    exact (onPool_spared _ k e).bind hR fun slot t =>
      (modify_spared (congrFun (keep_lanes t slot) k)).bind hR fun _ _ => traces_pure hR _
  | allocBack =>
    exact (onPool_spared _ k e).bind hR fun slot t =>
      (modify_spared (congrFun (keep_lanes t slot) k)).bind hR fun _ _ => traces_pure hR _
  | free slot => exact (onPool_spared _ k e).bind hR fun _ _ => rfl
  | take n => exact (onPool_spared _ k e).bind hR fun _ _ => rfl
  | giveBack offset n =>
    exact (modify_spared rfl).bind hR fun _ t =>
      (onPool_spared _ k t).bind hR fun _ _ => traces_pure hR _
  | openStream n blockSize =>
    have hcreate : Traces (Spared k) (Stream.create blockSize) e :=
      traces_ensure_bind hR (traces_pure hR _)
    exact hcreate.bind hR fun s t =>
      (modify_spared (withLane_lanes (hne n rfl) _ t)).bind hR fun _ _ => traces_pure hR _
  | streamAlloc n size align =>
    refine traces_get_bind ?_
    cases e.lanes n with
    | none => exact traces_pure hR none
    | some lane =>
      exact (onLane_spared (hne n rfl) lane _ e).bind hR fun slot t =>
        (modify_spared (withLane_lanes (hne n rfl) _ t)).bind hR fun _ _ => traces_pure hR _
  | finish n =>
    refine traces_get_bind ?_
    cases e.lanes n with
    | none => exact traces_pure hR none
    | some lane =>
      exact (modify_spared (withLane_lanes (hne n rfl) none e)).bind hR fun _ t =>
        (onPool_spared _ k t).bind hR fun _ _ => traces_pure hR _
  | reserve n count size => exact (onPool_spared _ k e).bind hR fun _ _ => rfl
  | draw n =>
    refine traces_get_bind ?_
    cases e.allotments n with
    | none => exact traces_pure hR none
    | some a =>
      refine (onAllotment_spared n a _ k e).bind hR fun answer t =>
        (modify_spared ?_).bind hR fun _ _ => traces_pure hR _
      cases answer with
      | none => rfl
      | some slot => exact congrFun (keep_lanes t slot) k
  | putBack n slot =>
    refine traces_get_bind ?_
    cases e.allotments n with
    | none => exact traces_pure hR none
    | some a => exact (onAllotment_spared n a _ k e).bind hR fun _ _ => rfl
  | release n =>
    refine traces_get_bind ?_
    cases e.allotments n with
    | none => exact traces_pure hR none
    | some a => exact (onAllotment_spared n a _ k e).bind hR fun _ _ => rfl
  | write slot place bytes => exact (onPool_spared _ k e).bind hR fun _ _ => traces_pure hR _

/-! ### Steps of the stream -/

theorem lanes_finish [Host] (e : Estate) (k : Nat) : (e.next (.finish k)).lanes k = none := by
  have hR := spared_path k
  show (perform (.finish k)).Leaves e fun _ _ e' => e'.lanes k = none
  simp only [perform, leaves_bind, leaves_get]
  cases hlane : e.lanes k with
  | none => exact hlane
  | some lane =>
    -- the stream is gone before its blocks go back, however that ends
    have hrest : Traces (Spared k) (do
        onPool (Stream.release lane.stream)
        return (none : Option Slot)) (e.withLane k none) :=
      (onPool_spared _ k _).bind hR fun _ _ => traces_pure hR _
    exact Eq.trans hrest (Function.update_self ..)

theorem lanes_openStream [Host] (e : Estate) (k blockSize : Nat) (hk : e.lanes k = none) :
    ((e.next (.openStream k blockSize)).lanes k).elim [] Lane.issued = [] := by
  show (perform (.openStream k blockSize)).Leaves e
    fun _ _ e' => (e'.lanes k).elim [] Lane.issued = []
  simp only [perform, Stream.create, leaves_bind, leaves_ensure, leaves_pure, leaves_modify]
  refine ⟨fun _ => ?_, fun _ => ?_⟩
  · exact congrArg (Option.elim · [] Lane.issued) (Function.update_self k _ e.lanes)
  · rw [hk]
    rfl

/-- A request is answered with what it asks for, or else the stream is as it was. -/
theorem streamAlloc_meets [Host] (h : e.Sound keeper) (hlane : e.lanes k = some lane)
    (size align : Nat) :
    (perform (.streamAlloc k size align)).Meets e
      (fun answer e' => ∃ slot s, answer = some slot ∧ Receipt.Suits ⟨size, align, slot⟩ ∧
        e'.lanes k = some (Lane.issue ⟨s, lane.issued⟩ slot))
      fun _ e' => e'.lanes k = some lane := by
  have hsound := (h.content (.stream k)).2 lane hlane
  simp only [perform, meets_bind, meets_get, hlane, onLane, meets_focus, meets_modify, meets_pure]
  refine (Stream.alloc_meets_any hsound h.valid size align).weaken ?_ ?_
  · rintro slot ⟨s, p⟩ hanswered
    simp only [withLane, Function.update_self, Option.map_some]
    refine ⟨slot, s, rfl, ?_, rfl⟩
    rcases hanswered with ⟨rfl, rfl, -⟩ | ⟨-, hsize, hdvd, -⟩
    · exact ⟨rfl, Int.dvd_zero _⟩
    · exact ⟨hsize, hdvd⟩
  · rintro _ ⟨s, p⟩ ⟨⟨rfl, -, -⟩, -⟩
    exact Function.update_self ..

theorem issued_issue (lane : Lane) (slot : Slot) :
    (lane.issue slot).issued = if slot.IsNull then lane.issued else slot :: lane.issued := by
  unfold Lane.issue
  split
  · rfl
  · rfl

/-! ### Receipts -/

theorem receiptsAfter_of_ne (h : step.stream? ≠ some k) (r : Except Fault (Option Slot)) :
    receiptsAfter k rs step r = rs := by
  cases step with
  | streamAlloc n size align =>
    have hne : n ≠ k := fun hn => h (congrArg some hn)
    rcases r with fault | _ | slot
    · rfl
    · rfl
    · exact if_neg hne
  | finish n => exact if_neg fun hn => h (congrArg some hn)
  | _ => rfl

theorem told_new (p : Pool) (k : Nat) : (new p).Told k [] where
  slots := rfl
  suits _ hr := absurd hr List.not_mem_nil

theorem Told.streamAlloc [Host] (ht : e.Told k rs) (h : e.Sound keeper) (size align : Nat) :
    (e.next (.streamAlloc k size align)).Told k
      (receiptsAfter k rs (.streamAlloc k size align)
        ((perform (.streamAlloc k size align)).run e).result) := by
  cases hlane : e.lanes k with
  | none =>
    have hrun : (perform (.streamAlloc k size align)).run e = ⟨.ok none, e, []⟩ := by
      simp only [perform, run_bind, run_get, hlane, run_pure, List.nil_append]
    rw [Estate.next, hrun]
    exact ht
  | some lane =>
    have hmeets := streamAlloc_meets h hlane size align
    have hslots : slotsOf rs = lane.issued := by
      rw [ht.slots, hlane]
      rfl
    cases hresult : ((perform (.streamAlloc k size align)).run e).result with
    | error fault =>
      refine ⟨?_, ht.suits⟩
      rw [Estate.next, hmeets.of_error hresult]
      exact hslots
    | ok answer =>
      obtain ⟨slot, s, rfl, hsuits, hnext⟩ := hmeets.of_ok hresult
      rw [receiptsAfter, if_pos rfl]
      refine ⟨?_, List.forall_mem_cons.mpr ⟨hsuits, ht.suits⟩⟩
      rw [Estate.next, hnext, Option.elim_some, issued_issue, slotsOf_cons, hslots]

theorem Told.next [Host] (ht : e.Told k rs) (h : e.Sound keeper) (hadmits : e.Admits step) :
    (e.next step).Told k (receiptsAfter k rs step ((perform step).run e).result) := by
  -- what is not about the stream changes neither its slots nor its receipts
  by_cases hk : step.stream? = some k
  · cases step with
    | openStream n blockSize =>
      obtain rfl : n = k := Option.some.inj hk
      refine ⟨?_, ht.suits⟩
      rw [lanes_openStream e n blockSize hadmits]
      exact ht.slots.trans (congrArg (Option.elim · [] Lane.issued) hadmits)
    | streamAlloc n size align =>
      obtain rfl : n = k := Option.some.inj hk
      exact ht.streamAlloc h size align
    | finish n =>
      obtain rfl : n = k := Option.some.inj hk
      rw [receiptsAfter, if_pos rfl]
      refine ⟨?_, fun _ hr => absurd hr List.not_mem_nil⟩
      rw [lanes_finish]
      rfl
    | _ => exact absurd hk.symm (Option.some_ne_none k)
  · rw [receiptsAfter_of_ne hk]
    exact ⟨ht.slots.trans (by rw [lanes_next hk]), ht.suits⟩

/-- The receipts of a stream are for its slots at every point of every run. -/
theorem Run.told {rounds : List Round} (hrun : Run e rounds e') (h : e.Sound keeper)
    (ht : e.Told k rs) : e'.Told k (receipts k e rs rounds) := by
  induction hrun generalizing keeper rs with
  | nil e => exact ht
  | cons hadmits hsurvives _ ih =>
    obtain ⟨keeper', h'⟩ := (h.next hadmits hsurvives).sound
    exact ih h' (ht.next h hadmits)

/-- What a stream answered, whatever was done to its pool in between, is as it was asked for; its
slots share no byte with each other, and each lies in a block that the stream has, past the header.
Its counters count these slots and these blocks, and a request that fails leaves it as it was. -/
theorem stream_slots_apart [Host] {config : PoolConfig} {p : Pool} {rounds : List Round}
    (hp : ((Pool.create config).run ()).result = .ok p) (hrun : Run (new p) rounds e)
    (hlane : e.lanes k = some lane) :
    (∀ r ∈ receipts k (new p) [] rounds, r.Suits) ∧
    (slotsOf (receipts k (new p) [] rounds)).Pairwise
      (fun a b => Disjoint (span a.offset a.size) (span b.offset b.size)) ∧
    lane.stream.total = ((receipts k (new p) [] rounds).map Receipt.size).sum ∧
    (∃ keeper, e.Custody keeper ∧
      lane.stream.blocks = (e.pool.keptBy keeper (.stream k)).ncard ∧
      ∀ slot ∈ slotsOf (receipts k (new p) [] rounds), ∃ i ∈ e.pool.keptBy keeper (.stream k),
        (e.pool.roster.record i).offset + 8 ≤ slot.offset ∧
          slot.stop ≤ (e.pool.roster.record i).offset + (e.pool.roster.record i).size) ∧
    ∀ [Host] size align fault,
      ((perform (.streamAlloc k size align)).run e).result = .error fault →
      (e.next (.streamAlloc k size align)).lanes k = some lane := by
  obtain ⟨hvalid, hlive, -, -⟩ := (Pool.create_meets config).of_ok hp
  have hnew := new_sound hvalid hlive
  obtain ⟨keeper, h⟩ := hrun.sound hnew
  have ht := hrun.told hnew (told_new p k)
  have hsound := (h.content (.stream k)).2 lane hlane
  have hslots : slotsOf (receipts k (new p) [] rounds) = lane.issued := by
    rw [ht.slots, hlane]
    rfl
  refine ⟨ht.suits, hslots ▸ hsound.apart, ?_, ⟨keeper, h.custody, hsound.blocks_eq, ?_⟩, ?_⟩
  · rw [← sum_slotsOf _ ht.suits, hslots]
    exact hsound.total_eq
  · rw [hslots]
    intro slot hslot
    obtain ⟨i, hi, hlo, hhi, -⟩ := hsound.inside slot hslot
    exact ⟨i, hi, hlo, hhi⟩
  · exact fun size align fault hfault => (streamAlloc_meets h hlane size align).of_error hfault

/-- Two streams and the client take turns; one request breaks its limits and one is empty. -/
def turns : List Step :=
  [.openStream 0 1024, .openStream 1 64, .streamAlloc 0 100 16, .alloc 100 64, .streamAlloc 1 40 8,
    .streamAlloc 0 200 64, .streamAlloc 0 16 3, .streamAlloc 0 5000 4096, .streamAlloc 0 0 8,
    .allocBack, .streamAlloc 0 24 8]

section

attribute [local instance] Host.plain

theorem turns_run (p : Pool) : Run (new p) (plainly turns) (turns.foldl next (new p)) := by
  have hsecond : ((new p).next (.openStream 0 1024)).lanes 1 = none :=
    lanes_next (k := 1) (by decide)
  exact .cons rfl trivial <| .cons hsecond trivial <| .cons trivial trivial <|
    .cons trivial trivial <| .cons trivial trivial <| .cons trivial trivial <|
    .cons trivial trivial <| .cons trivial trivial <| .cons trivial trivial <|
    .cons trivial trivial <| .cons trivial trivial (.nil _)

/-- The first stream has cut its slots from two blocks, the second one aligned to a page. -/
theorem stream_slots_apart_of_turns : ∃ p e lane, ((Pool.create {}).run ()).result = .ok p ∧
    Run (new p) (plainly turns) e ∧ e.lanes 0 = some lane ∧
    (slotsOf (receipts 0 (new p) [] (plainly turns))).map Slot.offset = [21384, 16384, 128, 16] ∧
    (slotsOf (receipts 0 (new p) [] (plainly turns))).Pairwise
      (fun a b => Disjoint (span a.offset a.size) (span b.offset b.size)) ∧
    lane.stream.total = 5324 ∧
    ∃ keeper, (e.pool.keptBy keeper (.stream 0)).ncard = 2 := by
  have hpool : ∃ p, ((Pool.create {}).run ()).result = .ok p ∧
      ((turns.foldl next (new p)).lanes 0).map (fun lane => lane.stream.blocks) = some 2 ∧
      (slotsOf (receipts 0 (new p) [] (plainly turns))).map Slot.offset = [21384, 16384, 128, 16] ∧
      (receipts 0 (new p) [] (plainly turns)).map Receipt.size = [24, 0, 5000, 200, 100] := by
    refine ⟨_, rfl, ?_⟩
    decide +kernel
  obtain ⟨p, hp, hblocks, hoffsets, hsizes⟩ := hpool
  obtain ⟨lane, hlane, hblocks⟩ := Option.map_eq_some_iff.mp hblocks
  obtain ⟨-, hapart, htotal, ⟨keeper, -, hkept, -⟩, -⟩ :=
    stream_slots_apart hp (turns_run p) hlane
  rw [hsizes] at htotal
  exact ⟨p, _, lane, hp, turns_run p, hlane, hoffsets, hapart, htotal, keeper,
    hkept.symm.trans hblocks⟩

end

end Estate

end SlotArena
