import SlotArena.Proofs.Conduct
import SlotArena.Proofs.EstateCharges

/-!
What a step leaves alone. A step takes live records from one keeper at most, its victim: a slot that
is given back was the client's, and what ends with a stream or an allotment was theirs. It passes
all other live records by (`next_spares`), and writing reaches no header. So a stream that does not
end has its blocks afterwards, and reads the headers that it read before (`use_preserves`); and
whoever is not the victim has the same records, which say the same (`use_leaves`).
-/

namespace SlotArena

open Act Finset Ledger

/-- Whose records a step may take. -/
def Step.victim : Step → Option Keeper
  | .free _ | .putBack .. => some .client
  | .finish k => some (.stream k)
  | .release k => some (.allotment k)
  | _ => none

/-- The records of `S` can be used as before, and so can their headers. -/
structure Pool.Preserves (p : Pool) (S : Set Nat) (p' : Pool) : Prop where
  lent : ∀ slot, slot.idx ∈ S → p.Lent slot → p'.Lent slot
  header : ∀ i ∈ S, p'.header i = p.header i

theorem Stream.header_write_of_disjoint {p : Pool} {loose : Finset Int} (hp : p.Valid loose)
    {i : Nat} (hi : i ∈ p.live) {place : Place} (source : Array UInt8)
    (hplace : -(p.arena.window.extent.back : Int) ≤ place.offset)
    (hout : Disjoint (span (p.roster.record i).offset headerSize)
      (span place.offset source.size)) : (p.write place source).header i = p.header i := by
  rw [header_eq hp hi, header_eq (hp.write place source) hi]
  refine congrArg _ (List.map_congr_left fun k hk => ?_)
  have hk' := List.mem_range.mp hk
  have hbounds := (hp.bounds hi).2.2.1
  have hheader : (p.roster.record i).offset + (k : Nat) ∈
      span (p.roster.record i).offset headerSize := by
    rw [mem_span, headerSize]
    omega
  show (p.write place source).arena.window.byteAt ((p.roster.record i).offset + (k : Nat)) = _
  rw [hp.byteAt_write source hplace (by omega), if_neg]
  exact fun hin => disjoint_left.mp hout hheader (mem_span.mpr hin)

namespace Estate

def Use.victim : Use → Option Keeper
  | .step s => s.victim
  | _ => none

/-- Whatever happened between the pool of an estate and `p`, nobody lost a record but the victim. -/
def Spares (e : Estate) (keeper : Nat → Keeper) (victim : Option Keeper) (p : Pool) : Prop :=
  ∃ moved, e.pool.Passed p moved ∧ ∀ i ∈ moved, i ∈ e.pool.live → victim = some (keeper i)

variable {e e' : Estate} {keeper : Nat → Keeper} {victim : Option Keeper} {p : Pool}
  {moved : Set Nat} {step : Step} {k : Nat}

theorem spares_self (e : Estate) (keeper : Nat → Keeper) (victim : Option Keeper) :
    e.Spares keeper victim e.pool :=
  ⟨∅, .refl _ _, fun i hi => absurd hi (Set.notMem_empty i)⟩

theorem Spares.undisturbed (h : e.pool.Passed p ∅) : e.Spares keeper victim p :=
  ⟨∅, h, fun i hi => absurd hi (Set.notMem_empty i)⟩

theorem Spares.new (h : e.pool.Passed p moved) (hnew : ∀ i ∈ moved, i ∉ e.pool.live) :
    e.Spares keeper victim p :=
  ⟨moved, h, fun i hi hlive => absurd hlive (hnew i hi)⟩

theorem Spares.issued {slot : Slot} (h : e.pool.Issued e.taken slot p) :
    e.Spares keeper victim p := by
  refine .new h.passed ?_
  rintro i rfl
  exact h.new

/-! ### Steps -/

/-- Whether it is served or fails, the operation spares all but the victim. -/
def Sparing {α : Type} (e : Estate) (keeper : Nat → Keeper) (victim : Option Keeper)
    (x : Act Estate α) : Prop :=
  x.Meets e (fun _ e' => e.Spares keeper victim e'.pool) fun _ e' => e.Spares keeper victim e'.pool

theorem alloc_sparing [Host] (h : e.Sound keeper) (size align : Nat) :
    e.Sparing keeper none (perform (.alloc size align)) := by
  simp only [Sparing, perform, meets_bind, onPool, meets_focus, meets_modify, meets_pure, keep_pool]
  refine (Pool.alloc_meets_any h.valid size align).weaken ?_ fun _ _ hp => .undisturbed hp.1.2
  rintro slot p (⟨-, -, rfl⟩ | ⟨-, hissued, -⟩)
  · exact spares_self ..
  · exact .issued hissued

theorem allocBack_sparing [Host] (h : e.Sound keeper) :
    e.Sparing keeper none (perform .allocBack) := by
  simp only [Sparing, perform, meets_bind, onPool, meets_focus, meets_modify, meets_pure, keep_pool]
  exact (Pool.allocBack_meets h.valid).on_refusal (fun _ _ hp => .issued hp.1)
    fun _ _ hp => .undisturbed hp.2

theorem free_sparing [Host] (h : e.Sound keeper) {slot : Slot}
    (hslot : slot.IsNull ∨ slot ∈ e.held) :
    e.Sparing keeper (some .client) (perform (.free slot)) := by
  simp only [Sparing, perform, meets_bind, onPool, meets_focus, meets_modify, meets_pure, drop]
  by_cases hheld : slot ∈ e.held
  · refine (h.valid.free_meets ((h.content .client).2.1 slot hheld)).sure ?_
    rintro _ p ⟨-, hpassed, -⟩
    refine ⟨_, hpassed, ?_⟩
    rintro i rfl -
    rw [(h.held_keeper hheld).2]
  · have hnull : slot.IsNull := hslot.resolve_right hheld
    rw [Pool.free, if_pos hnull]
    exact spares_self ..

theorem take_spares [Host] (h : e.Sound keeper) {n : Nat} (hn : e.pool.blockSize ∣ n)
    (hsurvives : e.Survives (.take n)) : e.Spares keeper none (e.next (.take n)).pool := by
  have hmeets : (perform (.take n)).Meets e (fun _ e' => e.Spares keeper none e'.pool)
      fun fault e' => fault ≠ .violated .cursorOverflow → e.Spares keeper none e'.pool := by
    simp only [perform, meets_bind, onPool, meets_focus, meets_modify, meets_pure]
    refine (Pool.take_meets_any h.valid hn).weaken (fun _ _ hp => .undisturbed hp.2.2.2) ?_
    exact fun fault p hp hfault => .undisturbed (hp hfault).2
  cases hresult : ((perform (.take n)).run e).result with
  | ok answer => exact hmeets.of_ok hresult
  | error fault =>
    refine hmeets.of_error hresult ?_
    rintro rfl
    exact hsurvives hresult

/-- What a range becomes that is offered to a pool concerns nobody's records. -/
theorem returnChunk_sparing [Host] (h : e.Sound keeper) {offset : Int} {n : Nat}
    (hsub : span offset n ⊆ e.taken) :
    (Pool.returnChunk offset n).Meets e.pool (fun _ p => e.Spares keeper none p)
      fun _ p => e.Spares keeper none p := by
  refine (Pool.returnChunk_meets_any h.valid offset hsub).weaken
    (fun _ _ hp => .undisturbed hp.2) ?_
  rintro (why | _ | _) p hp
  · exact .undisturbed hp.2
  · obtain rfl := hp
    exact spares_self ..
  · obtain rfl := hp
    exact spares_self ..

theorem giveBack_sparing [Host] (h : e.Sound keeper) {offset : Int} {n : Nat}
    (hsub : span offset n ⊆ e.taken) :
    e.Sparing keeper none (perform (.giveBack offset n)) := by
  simp only [Sparing, perform, meets_bind, onPool, meets_focus, meets_modify, meets_pure]
  exact returnChunk_sparing h hsub

theorem openStream_sparing [Host] (e : Estate) (keeper : Nat → Keeper) (k blockSize : Nat) :
    e.Sparing keeper none (perform (.openStream k blockSize)) := by
  simp only [Sparing, perform, Stream.create, meets_bind, meets_ensure, meets_pure, meets_modify]
  exact ⟨fun _ => spares_self .., fun _ => spares_self ..⟩

theorem streamAlloc_sparing [Host] (h : e.Sound keeper) (k size align : Nat) :
    e.Sparing keeper none (perform (.streamAlloc k size align)) := by
  simp only [Sparing, perform, meets_bind, meets_get]
  cases hlane : e.lanes k with
  | none => exact spares_self ..
  | some lane =>
    have hsound := (h.content (.stream k)).2 lane hlane
    simp only [meets_bind, onLane, meets_focus, meets_modify, meets_pure]
    refine (Stream.alloc_meets_any hsound h.valid size align).weaken ?_ ?_
    · rintro slot ⟨s, p⟩ (⟨-, -, hsame⟩ | ⟨-, -, -, -, new, hnew, -, hpassed, -⟩)
      · obtain ⟨rfl, rfl⟩ := Prod.mk.inj hsame
        exact spares_self ..
      · exact .new hpassed hnew
    · rintro _ ⟨s, p⟩ ⟨⟨-, -, hpassed⟩, -⟩
      exact .undisturbed hpassed

theorem finish_sparing [Host] (h : e.Sound keeper) (k : Nat) :
    e.Sparing keeper (some (.stream k)) (perform (.finish k)) := by
  simp only [Sparing, perform, meets_bind, meets_get]
  cases hlane : e.lanes k with
  | none => exact spares_self ..
  | some lane =>
    have hsound := (h.content (.stream k)).2 lane hlane
    simp only [meets_bind, meets_modify, onPool, meets_focus, meets_pure]
    refine (Stream.release_meets hsound h.valid).sure ?_
    rintro _ p ⟨-, hpassed, -⟩
    exact ⟨_, hpassed, fun i hi _ => congrArg some hi.2.symm⟩

theorem reserve_sparing [Host] (h : e.Sound keeper) (k count size : Nat) :
    e.Sparing keeper none (perform (.reserve k count size)) := by
  simp only [Sparing, perform, meets_bind, onPool, meets_focus, meets_modify, meets_pure]
  refine (Allotment.create_meets h.valid count size).weaken ?_ fun _ _ hp => .undisturbed hp.1.2
  rintro a p ⟨new, hnew, -, hpassed, -⟩
  exact .new hpassed hnew

theorem draw_sparing [Host] (h : e.Sound keeper) (k : Nat) :
    e.Sparing keeper none (perform (.draw k)) := by
  simp only [Sparing, perform, meets_bind, meets_get]
  cases ha : e.allotments k with
  | none => exact spares_self ..
  | some a =>
    have hsound := (h.content (.allotment k)).2 a ha
    simp only [meets_bind, onAllotment, meets_focus, meets_modify, meets_pure]
    refine (Allotment.alloc_meets hsound h.valid).sure ?_
    rintro answer ⟨b, p⟩ ⟨rfl, -⟩
    cases answer with
    | none => exact spares_self ..
    | some slot =>
      rw [Option.elim_some, keep_pool]
      exact spares_self ..

theorem putBack_sparing [Host] (h : e.Sound keeper) (k : Nat) {slot : Slot}
    (hheld : slot ∈ e.held) : e.Sparing keeper (some .client) (perform (.putBack k slot)) := by
  simp only [Sparing, perform, meets_bind, meets_get]
  cases ha : e.allotments k with
  | none => exact spares_self ..
  | some a =>
    have hsound := (h.content (.allotment k)).2 a ha
    have hkeeper := (h.held_keeper hheld).2
    have hnew : slot.idx ∉ e.pool.keptBy keeper (.allotment k) := fun hmem =>
      Keeper.noConfusion (hkeeper.symm.trans hmem.2)
    simp only [meets_bind, onAllotment, meets_focus, meets_modify, meets_pure]
    refine (Allotment.free_meets hsound h.valid ((h.content .client).2.1 slot hheld) hnew).weaken
      ?_ ?_
    · rintro _ ⟨b, p⟩ ⟨-, -, hpassed, -⟩
      refine ⟨_, hpassed, ?_⟩
      rintro i rfl -
      rw [hkeeper]
    · rintro _ _ ⟨rfl, -⟩
      exact spares_self ..

theorem release_sparing [Host] (h : e.Sound keeper) (k : Nat) :
    e.Sparing keeper (some (.allotment k)) (perform (.release k)) := by
  simp only [Sparing, perform, meets_bind, meets_get]
  cases ha : e.allotments k with
  | none => exact spares_self ..
  | some a =>
    have hsound := (h.content (.allotment k)).2 a ha
    simp only [meets_bind, onAllotment, meets_focus, meets_modify, meets_pure]
    refine (Allotment.release_meets hsound h.valid).sure ?_
    rintro _ ⟨b, p⟩ ⟨-, hpassed, -⟩
    exact ⟨_, hpassed, fun i hi _ => congrArg some hi.2.symm⟩

/-- A step that writes nothing leaves every live record alone but those of its victim. -/
theorem next_spares [Host] (h : e.Sound keeper) (hadmits : e.Admits step)
    (hsurvives : e.Survives step) (hquiet : ∀ slot place bytes, step ≠ .write slot place bytes) :
    e.Spares keeper step.victim (e.next step).pool := by
  cases step with
  | alloc size align => exact (alloc_sparing h size align).state
  | allocBack => exact (allocBack_sparing h).state
  | free slot => exact (free_sparing h hadmits).state
  | take n => exact take_spares h hadmits hsurvives
  | giveBack offset n => exact (giveBack_sparing h hadmits.1).state
  | openStream k blockSize => exact (openStream_sparing e keeper k blockSize).state
  | streamAlloc k size align => exact (streamAlloc_sparing h k size align).state
  | finish k => exact (finish_sparing h k).state
  | reserve k count size => exact (reserve_sparing h k count size).state
  | draw k => exact (draw_sparing h k).state
  | putBack k slot => exact (putBack_sparing h k hadmits).state
  | release k => exact (release_sparing h k).state
  | write slot place bytes => exact absurd rfl (hquiet slot place bytes)

/-! ### Uses -/

def after [Host] (e : Estate) (use : Use) : Estate := (use.act.run e).state

theorem after_step [Host] (e : Estate) (step : Step) : e.after (.step step) = e.next step := rfl

theorem tender_sparing [Host] (h : e.Sound keeper) {offset : Int} {n : Nat}
    (hsub : span offset n ⊆ e.taken) : e.Sparing keeper none (tender offset n) := by
  simp only [Sparing, tender, meets_bind, meets_attempt, onPool, meets_focus]
  refine (returnChunk_sparing h hsub).weaken (fun _ _ => id) ?_
  rintro (_ | _ | _) p hp
  · exact hp
  · exact hp
  · exact hp

theorem grant_sparing [Host] (h : e.Sound keeper) {offset : Int} {count size : Nat}
    (hsub : span offset (count * size) ⊆ e.taken) :
    e.Sparing keeper none (grant offset count size) := by
  simp only [Sparing, grant, meets_bind, onPool, meets_focus, meets_modify]
  exact (Pool.returnBlocks_meets_any h.valid hsub).weaken (fun _ _ hp => .undisturbed hp.2)
    fun _ _ hp => .undisturbed hp.2

theorem Spares.leaves {victim : Option Keeper} {p : Pool} (hspares : e.Spares keeper victim p)
    {i : Nat} (hi : i ∈ e.pool.live) (hvictim : victim ≠ some (keeper i)) :
    i ∈ p.live ∧ p.roster.record i = e.pool.roster.record i := by
  obtain ⟨moved, hpassed, hmoved⟩ := hspares
  have hout : i ∉ moved := fun hmem => hvictim (hmoved i hmem hi)
  exact ⟨(hpassed.live i hout).mpr hi, hpassed.records i hout hi⟩

theorem Spares.preserves {loose : Finset Int} (hspares : e.Spares keeper victim p)
    (h : e.Sound keeper) (hp : p.Valid loose) (hk : victim ≠ some (.stream k)) :
    e.pool.Preserves (e.pool.keptBy keeper (.stream k)) p := by
  obtain ⟨moved, hpassed, hvictim⟩ := hspares
  have hout : ∀ i ∈ e.pool.keptBy keeper (.stream k), i ∉ moved := fun i hi hmem =>
    hk (hi.2 ▸ hvictim i hmem hi.1)
  exact ⟨fun slot hslot hlent => hlent.passed hpassed (hout _ hslot), fun i hi =>
    Stream.header_passed h.valid hp hpassed (hout i hi) hi.1⟩

theorem write_pool [Host] (e : Estate) (slot : Slot) (place : Place) (bytes : Array UInt8) :
    (e.next (.write slot place bytes)).pool = e.pool.write place bytes := by
  obtain ⟨_, _, es, hrun, rfl⟩ := (Pool.copy_meets (p := e.pool) place bytes).exists_ok
  simp only [next, perform, run_bind, onPool, run_focus, hrun, run_pure]

/-- Writing into a slot reaches no header. -/
theorem write_preserves [Host] (h : e.Sound keeper) {slot : Slot} (hslot : e.Has slot)
    {place : Place} {bytes : Array UInt8} (hlo : slot.offset ≤ place.offset)
    (hhi : place.offset + bytes.size ≤ slot.stop) (k : Nat) :
    e.pool.Preserves (e.pool.keptBy keeper (.stream k))
      (e.next (.write slot place bytes)).pool := by
  obtain ⟨-, i, hi, -, hoffset, -⟩ := h.exists_lies hslot
  have hplace := Int.le_trans (h.valid.bounds hi).2.2.1 (Int.le_trans hoffset hlo)
  have hsub : span place.offset bytes.size ⊆ span slot.offset slot.size :=
    span_subset_span hlo hhi
  rw [write_pool]
  refine ⟨fun t _ hlent => hlent.write place bytes, fun j hj => ?_⟩
  exact Stream.header_write_of_disjoint h.valid hj.1 bytes hplace
    (disjoint_of_subset_right hsub (h.header_disjoint hslot hj))

/-- A use writes into a slot, or spares all but its victim. -/
theorem use_spares [Host] (h : e.Sound keeper) {use : Use} (hpermits : e.Permits use) :
    (∃ slot place bytes, use = .step (.write slot place bytes)) ∨
      e.Spares keeper use.victim (e.after use).pool := by
  cases use with
  | step step =>
    by_cases hwrite : ∃ slot place bytes, step = .write slot place bytes
    · obtain ⟨slot, place, bytes, rfl⟩ := hwrite
      exact Or.inl ⟨slot, place, bytes, rfl⟩
    · have hquiet : ∀ slot place bytes, step ≠ .write slot place bytes :=
        fun slot place bytes hstep => hwrite ⟨slot, place, bytes, hstep⟩
      exact Or.inr (next_spares h hpermits.1 hpermits.2 hquiet)
  | tender offset n => exact Or.inr (tender_sparing h hpermits).state
  | grant offset count size => exact Or.inr (grant_sparing h hpermits).state

/-- A stream keeps its blocks and reads its headers whatever is done, unless it ends. -/
theorem use_preserves [Host] (h : e.Sound keeper) {use : Use} (hpermits : e.Permits use)
    (hk : use.victim ≠ some (.stream k)) :
    e.pool.Preserves (e.pool.keptBy keeper (.stream k)) (e.after use).pool := by
  obtain ⟨keeper', h'⟩ := h.use hpermits
  rcases use_spares h hpermits with ⟨slot, place, bytes, rfl⟩ | hspares
  · obtain ⟨⟨hslot, -, hlo, hhi⟩, -⟩ := hpermits
    exact write_preserves h hslot hlo hhi k
  · exact hspares.preserves h h'.valid hk

theorem use_leaves [Host] (h : e.Sound keeper) {use : Use} (hpermits : e.Permits use) {i : Nat}
    (hi : i ∈ e.pool.live) (hvictim : use.victim ≠ some (keeper i)) :
    i ∈ (e.after use).pool.live ∧
      (e.after use).pool.roster.record i = e.pool.roster.record i := by
  rcases use_spares h hpermits with ⟨slot, place, bytes, rfl⟩ | hspares
  · rw [after_step, write_pool]
    exact ⟨hi, rfl⟩
  · exact hspares.leaves hi hvictim

end Estate

end SlotArena
