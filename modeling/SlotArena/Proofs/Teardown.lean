import SlotArena.Proofs.Lanes
import SlotArena.Proofs.Recall
import SlotArena.Proofs.Sparing
import SlotArena.Proofs.World

/-!
The end of a stream. `blocksTaken` lists the blocks of a stream by what its requests did to the
pool: the records that became live in them, newest first. The chain that the stream keeps in the
headers of its blocks says the same at every point of every course of uses (`Course.took`), because
a request puts one block in front of the others at most (`alloc_grows`), and nothing else that is
done to the pool loses a block or touches a header (`use_preserves`). So the end of a stream finds
all of its blocks, and no others.

Main statement: the end of a stream returns each of its blocks once, newest first, and leaves
everything else as it was; what it told of its blocks is evened out (`finish_returns_blocks`).
-/

namespace SlotArena

open Act Finset Ledger

/-- The slots that were handed out on the way from one pool to the other. -/
def Pool.handedOut (p p' : Pool) : List Slot :=
  (p'.live.toList.filter fun i => ¬ p.live.contains i).map p'.slotOf

namespace Pool

variable {p p' : Pool} {slot : Slot}

theorem handedOut_nil (h : ∀ i, i ∈ p'.live ↔ i ∈ p.live) : p.handedOut p' = [] := by
  rw [handedOut, List.map_eq_nil_iff, List.filter_eq_nil_iff]
  intro i hi
  have hlive := (h i).mp (Std.TreeSet.mem_toList.mp hi)
  simpa using hlive

theorem handedOut_singleton {i : Nat} (hpassed : p.Passed p' {i}) (hnew : i ∉ p.live)
    (hlive : i ∈ p'.live) : p.handedOut p' = [p'.slotOf i] := by
  have hperm : (p'.live.toList.filter fun j => ¬ p.live.contains j).Perm [i] := by
    refine (List.perm_ext_iff_of_nodup ((nodup_toList _).filter _) (List.nodup_singleton i)).mpr
      fun j => ?_
    rw [List.mem_filter, List.mem_singleton, Std.TreeSet.mem_toList]
    by_cases hj : j = i
    · subst hj
      simpa [hlive] using hnew
    · have hsame := hpassed.live j hj
      simp [hsame, hj]
  rw [handedOut, List.perm_singleton.mp hperm, List.map_singleton]

end Pool

namespace Stream

/-- A request takes a block and puts it in front of the others, or takes none. -/
def Grows (s : Stream) (p : Pool) (t : Stream × Pool) : Prop :=
  (t.1.block = s.block ∧ p.Passed t.2 ∅) ∨
    (t.1.block.idx ∉ p.live ∧ p.Passed t.2 {t.1.block.idx} ∧ t.2.Lent t.1.block ∧
      0 ≤ t.1.block.offset ∧ t.2.header t.1.block.idx = s.previous)

variable {s : Stream} {p : Pool} {loose : Finset Int} {blocks : Set Nat} {issued : List Slot}

theorem cut_grows {t : Stream × Pool} (h : s.Grows p t) (offset size : Nat) :
    (onStream (cut offset size)).Meets t (fun _ => s.Grows p) fun _ => s.Grows p := by
  simp only [onStream, meets_focus, cut, advance, addSize, addSigned, meets_bind, meets_modify,
    meets_get, meets_ensure, meets_pure]
  exact ⟨fun _ => ⟨fun _ => h, fun _ => h⟩, fun _ => h⟩

theorem alloc_grows [Host] (h : s.Sound p blocks issued) (hp : p.Valid loose) (size align : Nat) :
    (alloc size align).Meets (s, p) (fun _ => s.Grows p) fun _ => s.Grows p := by
  have hself : s.Grows p (s, p) := Or.inl ⟨rfl, .refl _ _⟩
  simp only [alloc, meets_bind, meets_ite, meets_pure, meets_get, meets_ensure, roundWord]
  refine ⟨fun _ => hself, fun hsize => ⟨fun _ => ⟨fun _ => ?_, fun _ => hself⟩, fun _ => hself⟩⟩
  by_cases hfits : s.Fits (roundUp s.next align) size align
  · simp only [hfits, not_true_eq_false, if_true, false_implies, true_and]
    exact fun _ => cut_grows hself _ size
  · simp only [hfits, not_false_eq_true, if_false, true_implies, not_true_eq_false, false_implies,
      and_true, addWord, roundToPow2, meets_bind, meets_ensure, meets_pure]
    refine ⟨fun _ => ⟨fun _ => ?_, fun _ => hself⟩, fun _ => hself⟩
    have hceil := ceilPow2_ge (roundUp headerSize align + size)
    refine (startBlock_meets h hp (by omega)).weaken ?_ ?_
    · rintro _ t ⟨block, ht, -, hpassed, hnew, hlent, hfront, -, hheader⟩
      obtain rfl : t.1.block = block := congrArg Stream.block ht
      exact cut_grows (Or.inr ⟨hnew, hpassed, hlent, hfront, hheader⟩) _ size
    · rintro _ t ⟨⟨hs, -, hpassed⟩, -⟩
      exact Or.inl ⟨congrArg Stream.block hs, hpassed⟩

end Stream

/-- A gauge reads the same after events that come to the same, even where it wraps. -/
theorem Gauges.counter_absorb_eq (g : Gauges) {es fs : List Event} {which : Gauge}
    (hes : ∀ ev ∈ es, ev.Modest) (hfs : ∀ ev ∈ fs, ev.Modest)
    (hword : Int.bmod (g.counter which).raw word64 = (g.counter which).raw)
    (hnet : Event.net which es = Event.net which fs) :
    (g.absorb es).counter which = (g.absorb fs).counter which := by
  have hraw : ((g.absorb es).counter which).raw = ((g.absorb fs).counter which).raw := by
    rw [raw_absorb_bmod g hes which hword, raw_absorb_bmod g hfs which hword, hnet]
  exact congrArg Counter.mk hraw

def Estate.Use.stream? : Estate.Use → Option Nat
  | .step s => s.stream?
  | _ => none

namespace Estate

/-- A use, and the host that is asked while it is made. -/
structure Occasion where
  host : Host
  use : Use

def occasions (rounds : List Round) : List Occasion :=
  rounds.map fun r => ⟨r.host, .step r.step⟩

/-- `Course e uses e'`: the uses lead from `e` to `e'`, and each of them is permitted where it is
made. -/
inductive Course : Estate → List Occasion → Estate → Prop
  | nil (e : Estate) : Course e [] e
  | cons [host : Host] {e e' : Estate} {use : Use} {uses : List Occasion} (permits : e.Permits use)
      (rest : Course (e.after use) uses e') : Course e (⟨host, use⟩ :: uses) e'

/-- The blocks of stream `k` after a use that led from `e` to `e'`, newest first. -/
def blocksAfter (k : Nat) (past : List Slot) (e e' : Estate) : Use → List Slot
  | .step (.streamAlloc n _ _) => if n = k then e.pool.handedOut e'.pool ++ past else past
  | .step (.finish n) => if n = k then [] else past
  | _ => past

/-- The blocks of stream `k` after some uses, if `past` were its blocks before. -/
def blocksFrom (k : Nat) : Estate → List Slot → List Occasion → List Slot
  | _, past, [] => past
  | e, past, ⟨_, use⟩ :: uses =>
      blocksFrom k (e.after use) (blocksAfter k past e (e.after use) use) uses

/-- The blocks that stream `k` took in the course of some uses and has not returned. -/
def blocksTaken (k : Nat) (e : Estate) (uses : List Occasion) : List Slot :=
  blocksFrom k e [] uses

/-- The blocks of stream `k` are `blocks`, newest first, as its headers tell. -/
structure Took (e : Estate) (k : Nat) (blocks : List Slot) : Prop where
  idle : e.lanes k = none → blocks = []
  chained : ∀ lane, e.lanes k = some lane →
    Chain.Threads e.pool.header lane.stream.previous (blocks.map Slot.idx)
  lent : ∀ slot ∈ blocks, e.pool.Lent slot
  front : ∀ slot ∈ blocks, 0 ≤ slot.offset

variable {e e' : Estate} {keeper : Nat → Keeper} {k : Nat} {lane : Lane} {use : Use}
  {uses : List Occasion} {blocks : List Slot}

/-- A run is a course in which nothing is offered but what ends at a block. -/
theorem Run.course {rounds : List Round} (hrun : Run e rounds e') :
    Course e (occasions rounds) e' := by
  induction hrun with
  | nil e => exact .nil e
  | cons hadmits hsurvives _ ih => exact .cons ⟨hadmits, hsurvives⟩ ih

theorem Course.sound (hcourse : Course e uses e') (h : e.Sound keeper) :
    ∃ keeper, e'.Sound keeper := by
  induction hcourse generalizing keeper with
  | nil e => exact ⟨keeper, h⟩
  | cons hpermits _ ih =>
    obtain ⟨keeper', h'⟩ := h.use hpermits
    exact ih h'

theorem took_nil (h : ∀ lane, e.lanes k = some lane → lane.stream.previous = noIndex) :
    e.Took k [] where
  idle _ := rfl
  chained := h
  lent _ hslot := absurd hslot List.not_mem_nil
  front _ hslot := absurd hslot List.not_mem_nil

theorem took_of_none (hnone : e.lanes k = none) : e.Took k [] :=
  took_nil fun _ hlane => absurd (hlane.symm.trans hnone) (Option.some_ne_none _)

theorem Took.kept (ht : e.Took k blocks) (h : e.Sound keeper) (hlane : e.lanes k = some lane) :
    ∀ i, i ∈ blocks.map Slot.idx ↔ i ∈ e.pool.keptBy keeper (.stream k) := by
  obtain ⟨records, hthreads, hmem⟩ := ((h.content (.stream k)).2 lane hlane).chained
  rw [(ht.chained lane hlane).unique hthreads]
  exact hmem

theorem Took.idx_kept (ht : e.Took k blocks) (h : e.Sound keeper) {slot : Slot}
    (hslot : slot ∈ blocks) : slot.idx ∈ e.pool.keptBy keeper (.stream k) := by
  cases hlane : e.lanes k with
  | none => exact absurd (ht.idle hlane ▸ hslot) List.not_mem_nil
  | some lane => exact (ht.kept h hlane _).mp (List.mem_map_of_mem hslot)

theorem Took.length (ht : e.Took k blocks) (h : e.Sound keeper) (hlane : e.lanes k = some lane) :
    blocks.length = lane.stream.blocks := by
  have hsound := (h.content (.stream k)).2 lane hlane
  have hset : e.pool.keptBy keeper (.stream k) = ↑(blocks.map Slot.idx).toFinset := by
    ext i
    rw [← ht.kept h hlane, mem_coe, List.mem_toFinset]
  rw [hsound.blocks_eq, hset, Set.ncard_coe_finset,
    List.toFinset_card_of_nodup (ht.chained lane hlane).nodup, List.length_map]

/-! ### Uses -/

/-- Where the headers of a stream are left alone, its blocks are chained as before. -/
theorem Took.still_chained (ht : e.Took k blocks) (h : e.Sound keeper) {p : Pool}
    (hpreserves : e.pool.Preserves (e.pool.keptBy keeper (.stream k)) p)
    (hlane : e.lanes k = some lane) :
    Chain.Threads p.header lane.stream.previous (blocks.map Slot.idx) :=
  (ht.chained lane hlane).congr
    (List.forall_mem_map.mpr fun _ hslot => hpreserves.header _ (ht.idx_kept h hslot))

theorem Took.still_lent (ht : e.Took k blocks) (h : e.Sound keeper) {p : Pool}
    (hpreserves : e.pool.Preserves (e.pool.keptBy keeper (.stream k)) p) :
    ∀ slot ∈ blocks, p.Lent slot :=
  fun slot hslot => hpreserves.lent slot (ht.idx_kept h hslot) (ht.lent slot hslot)

theorem Took.preserved (ht : e.Took k blocks) (h : e.Sound keeper)
    (hpreserves : e.pool.Preserves (e.pool.keptBy keeper (.stream k)) e'.pool)
    (hlanes : e'.lanes k = e.lanes k) : e'.Took k blocks where
  idle hnone := ht.idle (hlanes.symm.trans hnone)
  chained _ hlane := ht.still_chained h hpreserves (hlanes.symm.trans hlane)
  lent := ht.still_lent h hpreserves
  front := ht.front

theorem streamAlloc_grows [Host] (h : e.Sound keeper) (hlane : e.lanes k = some lane)
    (size align : Nat) : ∃ lane', (e.next (.streamAlloc k size align)).lanes k = some lane' ∧
      lane.stream.Grows e.pool (lane'.stream, (e.next (.streamAlloc k size align)).pool) := by
  have hsound := (h.content (.stream k)).2 lane hlane
  let Grown (e' : Estate) : Prop :=
    ∃ lane', e'.lanes k = some lane' ∧ lane.stream.Grows e.pool (lane'.stream, e'.pool)
  have hmeets : (perform (.streamAlloc k size align)).Meets e (fun _ => Grown) fun _ => Grown := by
    simp only [perform, meets_bind, meets_get, hlane, onLane, meets_focus, meets_modify, meets_pure]
    refine (Stream.alloc_grows hsound h.valid size align).weaken ?_ ?_
    · rintro _ ⟨s, p⟩ hgrows
      simp only [Grown, withLane, Function.update_self, Option.map_some]
      refine ⟨_, rfl, ?_⟩
      rw [Lane.issue]
      split
      · exact hgrows
      · exact hgrows
    · rintro _ ⟨s, p⟩ hgrows
      exact ⟨_, Function.update_self .., hgrows⟩
  exact hmeets.state

theorem took_of_lane (hlane : e.lanes k = some lane)
    (hchained : Chain.Threads e.pool.header lane.stream.previous (blocks.map Slot.idx))
    (hlent : ∀ slot ∈ blocks, e.pool.Lent slot) (hfront : ∀ slot ∈ blocks, 0 ≤ slot.offset) :
    e.Took k blocks where
  idle hnone := absurd (hlane.symm.trans hnone) (Option.some_ne_none _)
  chained lane' hlane' := by
    obtain rfl : lane = lane' := Option.some.inj (hlane.symm.trans hlane')
    exact hchained
  lent := hlent
  front := hfront

/-- The block that a stream takes, if it takes any, comes in front of those that it had. -/
theorem took_of_grows (h : e.Sound keeper) (hlane : e.lanes k = some lane) {s : Stream} {p : Pool}
    (hgrows : s.Grows p (lane.stream, e.pool))
    (hchained : Chain.Threads e.pool.header s.previous (blocks.map Slot.idx))
    (hlent : ∀ slot ∈ blocks, e.pool.Lent slot) (hfront : ∀ slot ∈ blocks, 0 ≤ slot.offset) :
    e.Took k (p.handedOut e.pool ++ blocks) := by
  obtain ⟨hblock, hpassed⟩ | ⟨hnew, hpassed, hblock, habove, hheader⟩ := hgrows
  · have hprevious : lane.stream.previous = s.previous := by
      rw [Stream.previous, hblock, Stream.previous]
    rw [Pool.handedOut_nil fun i => hpassed.live i (Set.notMem_empty i)]
    exact took_of_lane hlane (hprevious ▸ hchained) hlent hfront
  · have hnull : ¬ lane.stream.block.IsNull := fun hnull =>
      Nat.ne_of_gt (h.valid.size_pos hblock.live) (hblock.size.trans hnull)
    have hprevious : lane.stream.previous = lane.stream.block.idx := if_neg hnull
    rw [Pool.handedOut_singleton hpassed hnew hblock.live]
    refine took_of_lane hlane ?_ ?_ ?_
    · rw [hprevious]
      exact ⟨rfl, h.valid.ne_noIndex hblock.live, hheader ▸ hchained⟩
    · exact List.forall_mem_cons.mpr ⟨h.valid.lent_slotOf hblock.live, hlent⟩
    · refine List.forall_mem_cons.mpr ⟨?_, hfront⟩
      exact (hblock.offset ▸ habove : 0 ≤ (e.pool.roster.record lane.stream.block.idx).offset)

theorem Took.streamAlloc [Host] (ht : e.Took k blocks) (h : e.Sound keeper) (size align : Nat) :
    (e.next (.streamAlloc k size align)).Took k
      (e.pool.handedOut (e.next (.streamAlloc k size align)).pool ++ blocks) := by
  cases hlane : e.lanes k with
  | none =>
    have hrun : (perform (.streamAlloc k size align)).run e = ⟨.ok none, e, []⟩ := by
      simp only [perform, run_bind, run_get, hlane, run_pure, List.nil_append]
    rw [Estate.next, hrun, Pool.handedOut_nil fun _ => Iff.rfl]
    exact ht
  | some lane =>
    have hpermits : e.Permits (.step (.streamAlloc k size align)) := ⟨trivial, trivial⟩
    obtain ⟨keeper', h'⟩ := h.use hpermits
    have hpreserves := use_preserves h hpermits (k := k) (Option.some_ne_none _).symm
    obtain ⟨lane', hlane', hgrows⟩ := streamAlloc_grows h hlane size align
    exact took_of_grows h' hlane' hgrows (ht.still_chained h hpreserves hlane)
      (ht.still_lent h hpreserves) ht.front

theorem took_openStream [Host] (hk : e.lanes k = none) (blockSize : Nat) :
    (e.next (.openStream k blockSize)).Took k [] := by
  refine took_nil ?_
  show (perform (.openStream k blockSize)).Leaves e
    fun _ _ e' => ∀ lane, e'.lanes k = some lane → lane.stream.previous = noIndex
  simp only [perform, Stream.create, leaves_bind, leaves_ensure, leaves_pure, leaves_modify,
    withLane, Function.update_self]
  refine ⟨fun _ lane hlane => ?_, fun _ lane hlane => ?_⟩
  · obtain rfl := Option.some.inj hlane
    rfl
  · exact absurd (hlane.symm.trans hk) (Option.some_ne_none _)

theorem lanes_after [Host] (hk : use.stream? ≠ some k) : (e.after use).lanes k = e.lanes k := by
  cases use with
  | step step => exact lanes_next hk
  | tender offset n =>
    have htender : Traces (Spared k) (tender offset n) e := by
      refine (onPool_spared _ k e).attempt.bind (spared_path k) fun answer t => ?_
      rcases answer with (why | _ | _) | _
      · exact rfl
      · exact rfl
      · exact rfl
      · exact rfl
    exact htender
  | grant offset count size =>
    exact (onPool_spared _ k e).bind (spared_path k) fun _ _ => modify_spared rfl

theorem blocksAfter_of_ne (hk : use.stream? ≠ some k) : blocksAfter k blocks e e' use = blocks := by
  cases use with
  | step step =>
    cases step with
    | streamAlloc n size align => exact if_neg fun hn => hk (congrArg some hn)
    | finish n => exact if_neg fun hn => hk (congrArg some hn)
    | _ => rfl
  | tender offset n => rfl
  | grant offset count size => rfl

theorem victim_of_ne (hk : use.stream? ≠ some k) : use.victim ≠ some (.stream k) := by
  cases use with
  | step step =>
    cases step with
    | finish n =>
      exact fun hvictim => hk (congrArg some (Keeper.stream.inj (Option.some.inj hvictim)))
    | free _ | putBack _ _ => exact fun hvictim => Keeper.noConfusion (Option.some.inj hvictim)
    | release n => exact fun hvictim => Keeper.noConfusion (Option.some.inj hvictim)
    | _ => exact fun hvictim => Option.some_ne_none _ hvictim.symm
  | _ => exact fun hvictim => Option.some_ne_none _ hvictim.symm

/-- Whatever use is made of an estate, the headers of a stream tell which blocks it took. -/
theorem Took.after [Host] (ht : e.Took k blocks) (h : e.Sound keeper) (hpermits : e.Permits use) :
    (e.after use).Took k (blocksAfter k blocks e (e.after use) use) := by
  by_cases hk : use.stream? = some k
  · rcases use with step | _ | _
    · cases step with
      | openStream n blockSize =>
        obtain rfl : n = k := Option.some.inj hk
        obtain rfl := ht.idle hpermits.1
        exact took_openStream hpermits.1 blockSize
      | streamAlloc n size align =>
        obtain rfl : n = k := Option.some.inj hk
        rw [blocksAfter, if_pos rfl]
        exact ht.streamAlloc h size align
      | finish n =>
        obtain rfl : n = k := Option.some.inj hk
        rw [blocksAfter, if_pos rfl]
        exact took_of_none (lanes_finish e n)
      | _ => exact absurd hk.symm (Option.some_ne_none k)
    · exact absurd hk.symm (Option.some_ne_none k)
    · exact absurd hk.symm (Option.some_ne_none k)
  · rw [blocksAfter_of_ne hk]
    exact ht.preserved h (use_preserves h hpermits (victim_of_ne hk)) (lanes_after hk)

theorem Course.took (hcourse : Course e uses e') (h : e.Sound keeper) (ht : e.Took k blocks) :
    (∃ keeper, e'.Sound keeper) ∧ e'.Took k (blocksFrom k e blocks uses) := by
  induction hcourse generalizing keeper blocks with
  | nil e => exact ⟨⟨keeper, h⟩, ht⟩
  | cons hpermits _ ih =>
    obtain ⟨keeper', h'⟩ := h.use hpermits
    exact ih h' (ht.after h hpermits)

/-! ### What is told -/

def tells [Host] (e : Estate) (use : Use) : List Event := (use.act.run e).events

def told : Estate → List Occasion → List Event
  | _, [] => []
  | e, ⟨_, use⟩ :: uses => e.tells use ++ told (e.after use) uses

/-- What is told in the course of some uses by those that are not about stream `k`. -/
def toldWithout (k : Nat) : Estate → List Occasion → List Event
  | _, [] => []
  | e, ⟨_, use⟩ :: uses =>
      (if use.stream? = some k then [] else e.tells use) ++ toldWithout k (e.after use) uses

def blockCount (e : Estate) (k : Nat) : Nat := (e.lanes k).elim 0 (·.stream.blocks)

theorem charge_streamBlocks (e : Estate) :
    account.charge e .streamBlocks = sumOver e.lanes (·.stream.blocks) := by
  have hzero : ∀ w : Window, w.charge .streamBlocks = 0 := fun w => by
    rcases w with ⟨_ | _, _⟩
    · rfl
    · rfl
  simp [World.charge_estate, hzero]

/-- A use that is about a stream tells how many blocks come to it. -/
theorem net_tells [Host] (hkeeps : account.keeps e) (hpermits : e.Permits use)
    (hk : use.stream? = some k) :
    ((e.after use).blockCount k : Int) =
      e.blockCount k + Event.net .streamBlocks (e.tells use) := by
  obtain ⟨hkeeps', hnet, -⟩ := use_traces hpermits hkeeps
  have hlanes : (e.after use).lanes = Function.update e.lanes k ((e.after use).lanes k) := by
    funext j
    by_cases hj : j = k
    · rw [hj, Function.update_self]
    · rw [Function.update_of_ne hj]
      exact lanes_after fun huse => hj (Option.some.inj (huse.symm.trans hk))
  have hsum := sumOver_update hkeeps.2.2 k ((e.after use).lanes k) (·.stream.blocks)
  rw [← hlanes] at hsum
  have hcharge := hnet .streamBlocks
  rw [charge_streamBlocks, charge_streamBlocks] at hcharge
  change sumOver (e.after use).lanes _ + e.blockCount k =
    sumOver e.lanes _ + (e.after use).blockCount k at hsum
  change ((sumOver (e.after use).lanes _ : Nat) : Int) =
    sumOver e.lanes _ + Event.net .streamBlocks (e.tells use) at hcharge
  omega

/-- All that is told of blocks is told by the other uses, or of blocks that the stream still has. -/
theorem Course.net_told (hcourse : Course e uses e') (hkeeps : account.keeps e) (k : Nat) :
    account.keeps e' ∧ (∀ ev ∈ told e uses, ev.Modest) ∧
      (∀ ev ∈ toldWithout k e uses, ev.Modest) ∧
      Event.net .streamBlocks (told e uses) + e.blockCount k =
        Event.net .streamBlocks (toldWithout k e uses) + e'.blockCount k := by
  induction hcourse with
  | nil e => exact ⟨hkeeps, by simp [told], by simp [toldWithout], rfl⟩
  | @cons host e e' use uses hpermits _ ih =>
    obtain ⟨hkeeps', -, hmodest⟩ := use_traces hpermits hkeeps
    obtain ⟨hend, htold, hwithout, hnet⟩ := ih hkeeps'
    refine ⟨hend, List.forall_mem_append.mpr ⟨hmodest, htold⟩, ?_, ?_⟩
    · refine List.forall_mem_append.mpr ⟨?_, hwithout⟩
      split
      · exact fun _ hev => absurd hev List.not_mem_nil
      · exact hmodest
    · rw [told, toldWithout, Event.net_append, Event.net_append]
      split
      · rename_i hk
        have huse := net_tells hkeeps hpermits hk
        rw [Event.net_nil]
        omega
      · rename_i hk
        have hsame : (e.after use).blockCount k = e.blockCount k := by
          rw [blockCount, lanes_after hk, blockCount]
        omega

/-- A stream that ends evens out what was told of its blocks. -/
theorem Course.net_finish [Host] (hcourse : Course e uses e') (hkeeps : account.keeps e)
    (hnone : e.lanes k = none) :
    (∀ ev ∈ told e uses ++ e'.tells (.step (.finish k)), ev.Modest) ∧
      (∀ ev ∈ toldWithout k e uses, ev.Modest) ∧
      Event.net .streamBlocks (told e uses ++ e'.tells (.step (.finish k))) =
        Event.net .streamBlocks (toldWithout k e uses) := by
  obtain ⟨hend, htold, hwithout, hnet⟩ := hcourse.net_told hkeeps k
  -- the end is one more use that is about the stream
  have hpermits : e'.Permits (.step (.finish k)) := ⟨trivial, trivial⟩
  obtain ⟨-, -, hmodest⟩ := use_traces hpermits hend
  refine ⟨List.forall_mem_append.mpr ⟨htold, hmodest⟩, hwithout, ?_⟩
  have hlast := net_tells hend hpermits rfl
  have hbefore : e.blockCount k = 0 := by
    rw [blockCount, hnone, Option.elim_none]
  have hafter : (e'.after (.step (.finish k))).blockCount k = 0 := by
    rw [blockCount, show (e'.after (.step (.finish k))).lanes k = none from lanes_finish e' k,
      Option.elim_none]
  rw [Event.net_append]
  omega

theorem keeps_new [Host] {config : PoolConfig} {p : Pool}
    (hp : ((Pool.create config).run ()).result = .ok p) : account.keeps (new p) := by
  have hbooks := new_books config
  unfold Leaves at hbooks
  rw [hp] at hbooks
  exact (hbooks account.keeps_none).1 (new p) rfl

/-! ### The end -/

/-- A stream that ends does to its estate what it does to the pool. -/
theorem finish_run [Host] (hlane : e.lanes k = some lane) {p : Pool} {es : List Event}
    (hrun : (Stream.release lane.stream).run e.pool = ⟨.ok (), p, es⟩) :
    (perform (.finish k)).run e = ⟨.ok none, { e with pool := p }.withLane k none, es⟩ := by
  have hpool : (onPool (Stream.release lane.stream)).run (e.withLane k none) =
      ⟨.ok (), { e with pool := p }.withLane k none, es⟩ := by
    show (Act.focus _ _ _).run _ = _
    rw [run_focus, show (e.withLane k none).pool = e.pool from rfl, hrun]
    rfl
  simp only [perform, run_bind, run_get, hlane, run_modify, hpool, run_pure, List.nil_append,
    List.append_nil]

/-- However a stream, its pool and whoever else used the pool got to where they are, the stream ends
without a fault. It returns the blocks that it took and no others, each once and newest first; they
are live no more, and each of them is on the shelf of its class, with the size that it had. Nothing
else changes, and the gauge of blocks reads what it would if the stream had told nothing. -/
theorem finish_returns_blocks [Host] {config : PoolConfig} {p : Pool}
    (hp : ((Pool.create config).run ()).result = .ok p) (hcourse : Course (new p) uses e)
    (hlane : e.lanes k = some lane) :
    (blocksTaken k (new p) uses).length = lane.stream.blocks ∧
    ((blocksTaken k (new p) uses).map Slot.idx).Nodup ∧
    (∀ slot ∈ blocksTaken k (new p) uses, e.pool.Lent slot) ∧
    ∃ p' es, (Stream.release lane.stream).run e.pool = ⟨.ok (), p', es⟩ ∧
      (Stream.returnEach (blocksTaken k (new p) uses)).run e.pool = ⟨.ok (), p', es⟩ ∧
      e.pool.Recalls (blocksTaken k (new p) uses) p' ∧
      (∀ slot ∈ blocksTaken k (new p) uses, p'.pieceOf slot.idx = ⟨slot.offset, slot.size⟩ ∧
        ∃ c records, slot.size = c.bytes ∧
          Chain.Threads p'.roster.link (p'.bucket c).free.head records ∧ slot.idx ∈ records) ∧
      (perform (.finish k)).run e = ⟨.ok none, { e with pool := p' }.withLane k none, es⟩ ∧
      ∀ g : Gauges, Int.bmod (g.counter .streamBlocks).raw word64 =
          (g.counter .streamBlocks).raw →
        (g.absorb (told (new p) uses ++ es)).counter .streamBlocks =
          (g.absorb (toldWithout k (new p) uses)).counter .streamBlocks := by
  obtain ⟨hvalid, hnone, -, -⟩ := (Pool.create_meets config).of_ok hp
  obtain ⟨⟨keeper, h⟩, ht⟩ := hcourse.took (k := k) (new_sound hvalid hnone)
    (took_of_none rfl)
  change e.Took k (blocksTaken k (new p) uses) at ht
  have hnodup := (ht.chained lane hlane).nodup
  obtain ⟨_, p', es, hreturned, hrecalls⟩ :=
    (Stream.returnEach_meets h.valid ht.lent ht.front hnodup).exists_ok
  have hreleased : (Stream.release lane.stream).run e.pool = ⟨.ok (), p', es⟩ :=
    (Stream.release_run ((h.content (.stream k)).2 lane hlane) h.valid (ht.chained lane hlane)
      ht.lent).trans hreturned
  have hfinish := finish_run hlane hreleased
  refine ⟨ht.length h hlane, hnodup, ht.lent, p', es, hreleased, hreturned, hrecalls,
    fun slot hslot => hrecalls.shelved h.valid ht.lent ht.front hslot, hfinish, fun g hword => ?_⟩
  have htells : e.tells (.step (.finish k)) = es := congrArg Outcome.events hfinish
  obtain ⟨htold, hwithout, hnet⟩ := hcourse.net_finish (k := k) (keeps_new hp) rfl
  rw [htells] at htold hnet
  exact g.counter_absorb_eq htold hwithout hword hnet

section

attribute [local instance] Host.plain

/-- The first stream of the turns ends after its pool has grown downwards into a new view, and
returns two blocks of different classes. -/
theorem finish_returns_blocks_of_turns : ∃ p e lane p',
    ((Pool.create {}).run ()).result = .ok p ∧
    Course (new p) (occasions (plainly turns)) e ∧ e.lanes 0 = some lane ∧
    e.pool.arena.window.backing.retired = 1 ∧
    (blocksTaken 0 (new p) (occasions (plainly turns))).map (fun slot => (slot.idx, slot.size)) =
      [(3, 16384), (0, 1024)] ∧
    ((perform (.finish 0)).run e).result = .ok none ∧ (e.next (.finish 0)).pool = p' ∧
    e.pool.Recalls (blocksTaken 0 (new p) (occasions (plainly turns))) p' ∧ p'.liveCount = 3 := by
  have hpool : ∃ p e, ((Pool.create {}).run ()).result = .ok p ∧
      e = turns.foldl next (new p) ∧ (e.lanes 0).isSome ∧
      e.pool.arena.window.backing.retired = 1 ∧
      (blocksTaken 0 (new p) (occasions (plainly turns))).map (fun slot => (slot.idx, slot.size)) =
        [(3, 16384), (0, 1024)] ∧ e.pool.liveCount = 5 := by
    refine ⟨_, _, rfl, rfl, ?_⟩
    decide +kernel
  obtain ⟨p, _, hp, rfl, hsome, hretired, hblocks, hcount⟩ := hpool
  obtain ⟨lane, hlane⟩ := Option.isSome_iff_exists.mp hsome
  have hcourse := (turns_run p).course
  obtain ⟨-, -, -, p', es, -, -, hrecalls, -, hfinish, -⟩ :=
    finish_returns_blocks hp hcourse hlane
  have htwo : (blocksTaken 0 (new p) (occasions (plainly turns))).length = 2 := by
    rw [← List.length_map (fun slot : Slot => (slot.idx, slot.size)), hblocks]
    rfl
  have hleft := hrecalls.liveCount
  refine ⟨p, _, lane, p', hp, hcourse, hlane, hretired, hblocks, congrArg Outcome.result hfinish,
    ?_, hrecalls, by omega⟩
  rw [next, hfinish]
  rfl

end

end Estate

end SlotArena
