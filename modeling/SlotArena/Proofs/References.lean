import SlotArena.Proofs.Commons

/-!
Counting references. Those who open and close devices see nothing of the registry but its answers,
and handles come and go besides. What they may rely on can be read off the answers alone: how often
a device is open (`refs`), which pool it has (`lastPool`) and how many handles of a pool there are
(`handles`). The registry agrees with that count after every deed (`Course.counted`), also after
pools that could not be made and after devices that were closed too often; so a device is opened
again, closed, listed and left without a pool as the count has it (`references_counted`).
-/

namespace SlotArena

open Act

namespace Registry

/-! ### Deeds and what they answer -/

inductive Deed
  | openDevice (device : Nat) (config : PoolConfig)
  | closeDevice (device : Nat)
  /-- One handle more of a pool. -/
  | hold (id : Nat)
  /-- One handle less. -/
  | letGo (id : Nat)
  /-- Anything at all that is done with a pool. -/
  | use (id : Nat) (x : Act Pool Unit)

inductive Entry
  | opened (device id : Nat)
  | failed (device : Nat) (fault : Fault)
  | closed (device : Nat) (last : Bool)
  | held (id : Nat)
  | dropped (id : Nat)
  | used (id : Nat)
  deriving DecidableEq

def perform [Host] : Deed → Act Registry Entry
  | .openDevice device config => do
      match ← (openDevice device config).attempt with
      | .ok id => return .opened device id
      | .error fault => return .failed device fault
  | .closeDevice device => .closed device <$> closeDevice device
  | .hold id => (fun _ => .held id) <$> retain id
  | .letGo id => (fun _ => .dropped id) <$> letGo id
  | .use id x => (fun _ => .used id) <$> (onPool id x).attempt

/-! ### What the answers come to -/

/-- How often a device is open. A device that is not open is not closed either. -/
@[simp] def refs : List Entry → Nat → Nat
  | [], _ => 0
  | .opened other _ :: log, device =>
      if device = other then refs log device + 1 else refs log device
  | .closed other _ :: log, device =>
      if device = other then refs log device - 1 else refs log device
  | .failed .. :: log, device | .held _ :: log, device | .dropped _ :: log, device
  | .used _ :: log, device => refs log device

@[simp] def lastPool : List Entry → Nat → Option Nat
  | [], _ => none
  | .opened other id :: log, device => if device = other then some id else lastPool log device
  | .closed .. :: log, device | .failed .. :: log, device | .held _ :: log, device
  | .dropped _ :: log, device | .used _ :: log, device => lastPool log device

/-- The handles of a pool. Whoever opens a device has one of its pool. -/
@[simp] def handles : List Entry → Nat → Nat
  | [], _ => 0
  | .opened _ other :: log, id | .held other :: log, id =>
      if id = other then handles log id + 1 else handles log id
  | .dropped other :: log, id => if id = other then handles log id - 1 else handles log id
  | .closed .. :: log, id | .failed .. :: log, id | .used _ :: log, id => handles log id

/-- Only who has a handle can pass one on, use the pool or let go of it. -/
def Admits (log : List Entry) : Deed → Prop
  | .hold id | .letGo id | .use id _ => 0 < handles log id
  | .openDevice .. | .closeDevice _ => True

/-- Deeds that were done one after the other on an empty registry, the last one first. The host may
answer differently at each. -/
inductive Course : List Entry → Registry → Prop
  | start : Course [] .empty
  | step [host : Host] {log : List Entry} {r : Registry} {entry : Entry} (before : Course log r)
      (d : Deed) (admits : Admits log d) (answer : ((perform d).run r).result = .ok entry) :
      Course (entry :: log) ((perform d).run r).state

/-! ### Who keeps what -/

def Owns (log : List Entry) (device id : Nat) : Prop :=
  0 < refs log device ∧ lastPool log device = some id

def Kept (log : List Entry) (id : Nat) : Prop := ∃ device, Owns log device id

open Classical in
/-- All who have a pool: its handles, and the registry as long as an open device has it. -/
noncomputable def holders (log : List Entry) (id : Nat) : Nat :=
  handles log id + if Kept log id then 1 else 0

section

variable {log : List Entry} {device id : Nat}

theorem exists_owns (h : 0 < refs log device) : ∃ id, Owns log device id := by
  suffices hlast : ∃ id, lastPool log device = some id from hlast.imp fun _ hid => ⟨h, hid⟩
  induction log with
  | nil => exact absurd h (Nat.lt_irrefl 0)
  | cons entry log ih =>
    cases entry with
    | opened other id =>
      simp only [refs, lastPool] at h ⊢
      split
      · exact ⟨id, rfl⟩
      · rename_i hne
        rw [if_neg hne] at h
        exact ih h
    | closed other last =>
      simp only [refs, lastPool] at h ⊢
      split at h
      · exact ih (Nat.lt_of_lt_of_le h (Nat.sub_le ..))
      · exact ih h
    | _ => exact ih h

theorem Owns.unique {id' : Nat} (h : Owns log device id) (h' : Owns log device id') : id = id' :=
  Option.some.inj (h.2.symm.trans h'.2)

theorem owns_opened (h : Owns log device id) {other j : Nat} :
    Owns (.opened device id :: log) other j ↔ Owns log other j := by
  by_cases hother : other = device
  · subst hother
    simp [Owns, h.1, h.2]
  · simp only [Owns, refs, lastPool, if_neg hother]

theorem owns_opened_new (h : refs log device = 0) {other j : Nat} :
    Owns (.opened device id :: log) other j ↔ other = device ∧ j = id ∨ Owns log other j := by
  by_cases hother : other = device
  · subst hother
    simp [Owns, h, eq_comm]
  · simp [Owns, hother]

theorem owns_closed (h : refs log device ≠ 1) {last : Bool} {other j : Nat} :
    Owns (.closed device last :: log) other j ↔ Owns log other j := by
  by_cases hother : other = device
  · subst hother
    have hopen : 0 < refs log other - 1 ↔ 0 < refs log other := by omega
    simp only [Owns, refs, lastPool, if_true, hopen]
  · simp only [Owns, refs, lastPool, if_neg hother]

theorem owns_closed_last (h : refs log device = 1) {last : Bool} {other j : Nat} :
    Owns (.closed device last :: log) other j ↔ other ≠ device ∧ Owns log other j := by
  by_cases hother : other = device
  · subst hother
    simp [Owns, h]
  · simp [Owns, hother]

/-- Where a pool is kept as before, its holders change as its handles do. -/
theorem holders_of_kept {log' : List Entry} (h : Kept log' id ↔ Kept log id) :
    holders log' id + handles log id = holders log id + handles log' id := by
  unfold holders
  by_cases hkept : Kept log id
  · rw [if_pos hkept, if_pos (h.mpr hkept)]
    omega
  · rw [if_neg hkept, if_neg fun hkept' => hkept (h.mp hkept')]
    omega

theorem holders_update {log' : List Entry} {n : Nat} (hkept : ∀ j, Kept log' j ↔ Kept log j)
    (hother : ∀ j ≠ id, handles log' j = handles log j)
    (hid : n + handles log id = holders log id + handles log' id) :
    holders log' = Function.update (holders log) id n := by
  funext j
  have hholders := holders_of_kept (hkept j)
  by_cases hj : j = id
  · subst hj
    rw [Function.update_self]
    omega
  · rw [Function.update_of_ne hj]
    have hsame := hother j hj
    omega

theorem holders_opened (h : Owns log device id) : holders (.opened device id :: log) =
    Function.update (holders log) id (holders log id + 1) := by
  refine holders_update (fun j => exists_congr fun _ => owns_opened h) (fun j hj => ?_) ?_
  · rw [handles, if_neg hj]
  · rw [handles, if_pos rfl]
    omega

theorem holders_held :
    holders (.held id :: log) = Function.update (holders log) id (holders log id + 1) := by
  refine holders_update (fun j => Iff.rfl) (fun j hj => ?_) ?_
  · rw [handles, if_neg hj]
  · rw [handles, if_pos rfl]
    omega

theorem handles_le_holders : handles log id ≤ holders log id := Nat.le_add_right ..

theorem holders_dropped (h : 0 < handles log id) :
    holders (.dropped id :: log) = Function.update (holders log) id (holders log id - 1) := by
  have hle : handles log id ≤ holders log id := handles_le_holders
  refine holders_update (fun j => Iff.rfl) (fun j hj => ?_) ?_
  · rw [handles, if_neg hj]
  · rw [handles, if_pos rfl]
    omega

theorem holders_opened_new (h : refs log device = 0) (hnew : holders log id = 0) :
    holders (.opened device id :: log) = Function.update (holders log) id 2 := by
  funext j
  have hkept : Kept (.opened device id :: log) j ↔ j = id ∨ Kept log j := by
    simp only [Kept, owns_opened_new h, exists_or, exists_and_right, exists_eq, true_and]
  by_cases hj : j = id
  · subst hj
    rw [Function.update_self, holders, if_pos (hkept.mpr (Or.inl rfl)), handles, if_pos rfl]
    rw [holders] at hnew
    omega
  · have hholders := holders_of_kept (hkept.trans (or_iff_right hj))
    rw [handles, if_neg hj] at hholders
    rw [Function.update_of_ne hj]
    omega

theorem holders_closed (h : refs log device ≠ 1) (last : Bool) :
    holders (.closed device last :: log) = holders log := by
  funext j
  have hkept : Kept (.closed device last :: log) j ↔ Kept log j :=
    exists_congr fun _ => owns_closed h
  have hholders := holders_of_kept hkept
  rw [handles] at hholders
  omega

theorem holders_closed_last (h : refs log device = 1) (howns : Owns log device id)
    (honly : ∀ other, Owns log other id → other = device) (last : Bool) :
    holders (.closed device last :: log) =
      Function.update (holders log) id (holders log id - 1) := by
  funext j
  by_cases hj : j = id
  · subst hj
    have hgone : ¬ Kept (.closed device last :: log) j := fun ⟨other, hother⟩ => by
      obtain ⟨hne, hothers⟩ := (owns_closed_last h).mp hother
      exact hne (honly other hothers)
    have hkept : Kept log j := ⟨device, howns⟩
    rw [Function.update_self, holders, if_neg hgone, holders, if_pos hkept, handles]
    omega
  · have hkept : Kept (.closed device last :: log) j ↔ Kept log j := by
      refine exists_congr fun other => (owns_closed_last h).trans ?_
      refine ⟨And.right, fun hother => ⟨?_, hother⟩⟩
      rintro rfl
      exact hj (hother.unique howns)
    have hholders := holders_of_kept hkept
    rw [handles] at hholders
    rw [Function.update_of_ne hj]
    omega

end

/-! ### The registry -/

/-- Every pool of the registry has so many holders, and those without holders are gone. -/
def Holds (r : Registry) (f : Nat → Nat) : Prop :=
  ∀ id, r.pools[id]?.map SharedPool.holders = if f id = 0 then none else some (f id)

/-- What giving something back comes to: nothing, or one pool goes and all that it charges is taken
back. -/
def GivenBack (r : Registry) (es : List Event) (r' : Registry) : Prop :=
  (r'.pool? = r.pool? ∧ ∀ g, Event.net g es = 0) ∨
    ∃ id p, r.pool? id = some p ∧ r'.pool? = Function.update r.pool? id none ∧
      ∀ g, Event.net g es = -(p.charge g : Int)

section

variable {r : Registry} {f : Nat → Nat} {id : Nat}

theorem Holds.exists_pool (h : Holds r f) (hid : 0 < f id) :
    ∃ s, r.pools[id]? = some s ∧ s.holders = f id := by
  have hholders := h id
  rw [if_neg (Nat.ne_of_gt hid)] at hholders
  exact Option.map_eq_some_iff.mp hholders

theorem Holds.isSome_iff (h : Holds r f) : (r.pool? id).isSome ↔ 0 < f id := by
  have hholders := congrArg Option.isSome (h id)
  rw [Option.isSome_map] at hholders
  rw [pool?, Option.isSome_map, hholders]
  by_cases hnone : f id = 0
  · simp [hnone]
  · simp [hnone, Nat.pos_of_ne_zero hnone]

theorem Holds.put (h : Holds r f) {r' : Registry} {s : SharedPool}
    (hpools : r'.pools = r.pools.insert id s) (hs : 0 < s.holders) :
    Holds r' (Function.update f id s.holders) := fun j => by
  rw [hpools, getElem?_put, Function.update_apply]
  split
  · rw [if_neg (Nat.ne_of_gt hs)]
    rfl
  · exact h j

theorem pool?_put {r' : Registry} {s : SharedPool} (hpools : r'.pools = r.pools.insert id s) :
    r'.pool? = Function.update r.pool? id (some s.pool) := by
  funext j
  rw [pool?, hpools, getElem?_put, Function.update_apply]
  split
  · rfl
  · rfl

theorem Holds.retain (h : Holds r f) (hid : 0 < f id) :
    ∃ r', (retain id).run r = ⟨.ok (), r', []⟩ ∧ r'.devices = r.devices ∧ r'.made = r.made ∧
      r'.pool? = r.pool? ∧ Holds r' (Function.update f id (f id + 1)) := by
  refine ⟨_, rfl, rfl, rfl, funext (pool_retained r.pools id), fun j => ?_⟩
  rw [getElem?_edited, Function.update_apply]
  split
  · rename_i hj
    obtain ⟨s, hs, hcount⟩ := h.exists_pool hid
    rw [if_neg (Nat.succ_ne_zero _), hj, hs, ← hcount]
    rfl
  · exact h j

theorem run_letGo {s : SharedPool} (hs : r.pools[id]? = some s) : (letGo id).run r =
    if 1 < s.holders then
      ⟨.ok (), { r with pools := r.pools.insert id { s with holders := s.holders - 1 } }, []⟩
    else ⟨.ok (), { r with pools := r.pools.erase id }, s.pool.closing⟩ := by
  simp only [letGo, run_bind, run_get, hs]
  split
  · rfl
  · simp only [run_bind, run_set, run_emit, List.nil_append]

theorem Holds.letGo (h : Holds r f) (hid : 0 < f id) :
    ∃ r' es, (letGo id).run r = ⟨.ok (), r', es⟩ ∧ r'.devices = r.devices ∧ r'.made = r.made ∧
      GivenBack r es r' ∧ Holds r' (Function.update f id (f id - 1)) := by
  obtain ⟨s, hs, hcount⟩ := h.exists_pool hid
  have hpool : r.pool? id = some s.pool := congrArg (Option.map SharedPool.pool) hs
  rw [run_letGo hs]
  split
  · rename_i hmore
    refine ⟨_, _, rfl, rfl, rfl, Or.inl ⟨?_, fun g => rfl⟩, ?_⟩
    · rw [pool?_put rfl, ← hpool, Function.update_eq_self]
    · rw [← hcount]
      exact h.put (s := { s with holders := s.holders - 1 }) rfl (Nat.sub_pos_of_lt hmore)
  · rename_i hlast
    refine ⟨_, _, rfl, rfl, rfl, Or.inr ⟨id, s.pool, hpool, funext fun j => ?_,
      s.pool.net_closing⟩, fun j => ?_⟩
    · rw [pool?, getElem?_dropped, Function.update_apply]
      split
      · rfl
      · rfl
    · rw [getElem?_dropped, Function.update_apply]
      split
      · rw [if_pos (by omega)]
        rfl
      · exact h j

/-! ### Runs of the operations -/

theorem run_openDevice_open [Host] {device : Nat} {d : Device} (hd : r.devices[device]? = some d)
    (config : PoolConfig) : (openDevice device config).run r =
      ⟨.ok d.pool, ((retain d.pool).run
        { r with devices := r.devices.insert device { d with refs := d.refs + 1 } }).state,
        [.note (.deviceReopened device (d.refs + 1))]⟩ := by
  simp only [openDevice, run_bind, run_get, hd]
  rfl

theorem run_openDevice_new [Host] {device : Nat} (hd : r.devices[device]? = none)
    (config : PoolConfig) : (openDevice device config).run r =
      match (Pool.create config).run () with
      | ⟨.ok p, _, es⟩ => ⟨.ok r.made,
          ⟨r.devices.insert device ⟨r.made, 1⟩, r.pools.insert r.made ⟨p, 2⟩, r.made + 1⟩,
          es ++ [.note (.deviceOpened device)]⟩
      | ⟨.error fault, _, es⟩ => ⟨.error fault, r, es⟩ := by
  simp only [openDevice, run_bind, run_get, hd]
  have hmake : (make (Pool.create config) : Act Registry Pool).run r =
    ⟨((Pool.create config).run ()).result, r, ((Pool.create config).run ()).events⟩ := rfl
  rw [hmake]
  rcases (Pool.create config).run () with ⟨fault | p, _, es⟩
  · rfl
  · rfl

theorem run_closeDevice_none {device : Nat} (hd : r.devices[device]? = none) :
    (closeDevice device).run r = ⟨.ok false, r, [.note (.deviceUnknown device)]⟩ := by
  simp only [closeDevice, run_bind, run_get, hd]
  rfl

theorem run_closeDevice_some {device : Nat} {d : Device} (hd : r.devices[device]? = some d) :
    (closeDevice device).run r =
      if 1 < d.refs then
        ⟨.ok false, { r with devices := r.devices.insert device { d with refs := d.refs - 1 } },
          []⟩
      else match (letGo d.pool).run { r with devices := r.devices.erase device } with
        | ⟨.ok _, r', es⟩ => ⟨.ok true, r', es ++ [.note (.deviceClosed device)]⟩
        | ⟨.error fault, r', es⟩ => ⟨.error fault, r', es⟩ := by
  simp only [closeDevice, run_bind, run_get, hd]
  split
  · rfl
  · simp only [run_bind, run_set]
    rcases (letGo d.pool).run _ with ⟨fault | _, r', es⟩
    · rfl
    · rfl

end

/-! ### What every deed keeps -/

/-- The registry is what the answers say. -/
structure Counted (log : List Entry) (r : Registry) : Prop where
  devices : ∀ device d, r.devices[device]? = some d ↔
    Owns log device d.pool ∧ d.refs = refs log device
  held : Holds r (holders log)
  /-- A pool belongs to one device only. -/
  owner : ∀ {device other id}, Owns log device id → Owns log other id → other = device
  /-- Numbers of pools that are still to be made are not in use. -/
  fresh : ∀ id, r.made ≤ id → holders log id = 0

section

variable {log log' : List Entry} {r : Registry} {device id : Nat}

theorem holders_pos_of_owns (h : Owns log device id) : 0 < holders log id := by
  rw [holders, if_pos ⟨device, h⟩]
  exact Nat.succ_pos _

theorem Counted.start : Counted [] .empty := by
  have hnone : ∀ id, holders [] id = 0 := fun id => by
    simp [holders, Kept, Owns]
  refine ⟨fun device d => ?_, fun id => ?_, fun h => absurd h.1 (Nat.lt_irrefl 0),
    fun id _ => hnone id⟩
  · simp [Owns, empty]
  · rw [if_pos (hnone id)]
    simp [empty]

theorem Counted.device_some (h : Counted log r) (howns : Owns log device id) :
    r.devices[device]? = some ⟨id, refs log device⟩ :=
  (h.devices device _).mpr ⟨howns, rfl⟩

theorem Counted.device_none (h : Counted log r) (hnone : refs log device = 0) :
    r.devices[device]? = none := by
  cases hd : r.devices[device]? with
  | none => rfl
  | some d =>
    have howns := ((h.devices device d).mp hd).1.1
    omega

theorem Counted.lt_made (h : Counted log r) (hid : 0 < holders log id) : id < r.made :=
  Nat.lt_of_not_le fun hle => Nat.ne_of_gt hid (h.fresh id hle)

/-- Only the holders of a pool that was made can change. -/
theorem Counted.fresh_update (h : Counted log r) {made n : Nat} (hid : id < made)
    (hle : r.made ≤ made) (j : Nat) (hj : made ≤ j) :
    Function.update (holders log) id n j = 0 := by
  rw [Function.update_of_ne (Nat.ne_of_gt (Nat.lt_of_lt_of_le hid hj))]
  exact h.fresh j (Nat.le_trans hle hj)

def SameFor (log log' : List Entry) (device : Nat) : Prop :=
  refs log' device = refs log device ∧ lastPool log' device = lastPool log device

theorem SameFor.owns_iff (h : SameFor log log' device) :
    Owns log' device id ↔ Owns log device id := by
  rw [Owns, Owns, h.1, h.2]

theorem Counted.devices_put (h : Counted log r) {d₀ : Device}
    (hother : ∀ other ≠ device, SameFor log log' other)
    (hdevice : Owns log' device d₀.pool ∧ d₀.refs = refs log' device) (other : Nat) (d : Device) :
    (r.devices.insert device d₀)[other]? = some d ↔
      Owns log' other d.pool ∧ d.refs = refs log' other := by
  rw [getElem?_put]
  split
  · rename_i hsame
    subst hsame
    refine ⟨fun hd => ?_, fun hd => ?_⟩
    · rwa [← Option.some.inj hd]
    · obtain ⟨pool, refs⟩ := d
      obtain ⟨pool₀, refs₀⟩ := d₀
      rw [Option.some.injEq, Device.mk.injEq]
      exact ⟨hdevice.1.unique hd.1, hdevice.2.trans hd.2.symm⟩
  · rename_i hne
    rw [h.devices, (hother other hne).owns_iff, (hother other hne).1]

theorem Counted.devices_dropped (h : Counted log r)
    (hother : ∀ other ≠ device, SameFor log log' other) (hnone : refs log' device = 0)
    (other : Nat) (d : Device) :
    (r.devices.erase device)[other]? = some d ↔
      Owns log' other d.pool ∧ d.refs = refs log' other := by
  rw [getElem?_dropped]
  split
  · rename_i hsame
    subst hsame
    simp [Owns, hnone]
  · rename_i hne
    rw [h.devices, (hother other hne).owns_iff, (hother other hne).1]

theorem sameFor_opened {other : Nat} (hne : other ≠ device) :
    SameFor log (.opened device id :: log) other := by
  simp [SameFor, hne]

theorem sameFor_closed {other : Nat} {last : Bool} (hne : other ≠ device) :
    SameFor log (.closed device last :: log) other := by
  simp [SameFor, hne]

theorem Counted.reopened [Host] (h : Counted log r) (howns : Owns log device id)
    (config : PoolConfig) : ∃ r', (openDevice device config).run r =
        ⟨.ok id, r', [.note (.deviceReopened device (refs log device + 1))]⟩ ∧
      r'.made = r.made ∧ r'.pool? = r.pool? ∧ Counted (.opened device id :: log) r' := by
  have hholders : Holds { r with
    devices := r.devices.insert device ⟨id, refs log device + 1⟩ } (holders log) := h.held
  obtain ⟨r', hretain, hdevices, hmade, hpools, hholds⟩ :=
    hholders.retain (holders_pos_of_owns howns)
  rw [run_openDevice_open (h.device_some howns) config, hretain]
  refine ⟨r', rfl, hmade, hpools, ?_, ?_, ?_, ?_⟩
  · rw [hdevices]
    refine h.devices_put (fun other hne => sameFor_opened hne) ⟨(owns_opened howns).mpr howns, ?_⟩
    rw [refs, if_pos rfl]
  · rw [holders_opened howns]
    exact hholds
  · intro other other' id hother hother'
    exact h.owner ((owns_opened howns).mp hother) ((owns_opened howns).mp hother')
  · rw [holders_opened howns, hmade]
    exact h.fresh_update (h.lt_made (holders_pos_of_owns howns)) (Nat.le_refl _)

/-- A device that is not open gets a pool of its own, if that can be made. -/
theorem Counted.opened [Host] (h : Counted log r) (hnone : refs log device = 0)
    {config : PoolConfig}
    {p : Pool} {es : List Event} (hp : (Pool.create config).run () = ⟨.ok p, (), es⟩) :
    ∃ r', (openDevice device config).run r =
        ⟨.ok r.made, r', es ++ [.note (.deviceOpened device)]⟩ ∧
      r'.made = r.made + 1 ∧ r'.pool? = Function.update r.pool? r.made (some p) ∧
      Counted (.opened device r.made :: log) r' := by
  have hnew : holders log r.made = 0 := h.fresh _ (Nat.le_refl _)
  rw [run_openDevice_new (h.device_none hnone), hp]
  refine ⟨_, rfl, rfl, pool?_put (s := ⟨p, 2⟩) rfl, ?_, ?_, ?_, ?_⟩
  · refine h.devices_put (fun other hne => sameFor_opened hne)
      ⟨(owns_opened_new hnone).mpr (Or.inl ⟨rfl, rfl⟩), ?_⟩
    rw [refs, if_pos rfl, hnone]
  · rw [holders_opened_new hnone hnew]
    exact h.held.put (s := ⟨p, 2⟩) rfl (Nat.zero_lt_two)
  · -- a device that had the new pool before would be one of its holders
    intro other other' id hother hother'
    rcases (owns_opened_new hnone).mp hother with ⟨rfl, rfl⟩ | hbefore
    · rcases (owns_opened_new hnone).mp hother' with ⟨rfl, -⟩ | hbefore'
      · rfl
      · exact absurd hnew (Nat.ne_of_gt (holders_pos_of_owns hbefore'))
    · rcases (owns_opened_new hnone).mp hother' with ⟨rfl, rfl⟩ | hbefore'
      · exact absurd hnew (Nat.ne_of_gt (holders_pos_of_owns hbefore))
      · exact h.owner hbefore hbefore'
  · rw [holders_opened_new hnone hnew]
    exact h.fresh_update (Nat.lt_succ_self _) (Nat.le_succ _)

/-- A pool that cannot be made leaves everything as it was, and no gauge reads anything else. -/
theorem Counted.refused [Host] (h : Counted log r) (hnone : refs log device = 0)
    {config : PoolConfig} {fault : Fault} {es : List Event}
    (hfault : (Pool.create config).run () = ⟨.error fault, (), es⟩) :
    (openDevice device config).run r = ⟨.error fault, r, es⟩ ∧
      (∀ k, Event.net k es = 0) ∧ ∀ e ∈ es, e.Modest := by
  refine ⟨?_, (Pool.opens config).net_error hfault⟩
  rw [run_openDevice_new (h.device_none hnone), hfault]

theorem Counted.congr (h : Counted log r) {r' : Registry}
    (hsame : ∀ device, SameFor log log' device) (hdevices : r'.devices = r.devices)
    (hheld : Holds r' (holders log'))
    (hfresh : ∀ id, r'.made ≤ id → holders log' id = 0) : Counted log' r' := by
  have howns : ∀ device id, Owns log' device id ↔ Owns log device id := fun device _ =>
    (hsame device).owns_iff
  refine ⟨fun device d => ?_, hheld, fun hother hother' => ?_, hfresh⟩
  · rw [hdevices, h.devices, howns, (hsame device).1]
  · exact h.owner ((howns ..).mp hother) ((howns ..).mp hother')

/-- An answer after which the log says of every device and of every pool what it said before is one
to a deed that did nothing. -/
theorem Counted.idle (h : Counted log r) (hsame : ∀ device, SameFor log log' device)
    (hhandles : ∀ id, handles log' id = handles log id) : Counted log' r := by
  have hholders : holders log' = holders log := funext fun id => by
    have hkept : Kept log' id ↔ Kept log id := exists_congr fun device => (hsame device).owns_iff
    have hcount := holders_of_kept hkept
    have hsameHandles := hhandles id
    omega
  exact h.congr hsame rfl (hholders ▸ h.held) (hholders ▸ h.fresh)

theorem GivenBack.note {r' : Registry} {es : List Event} (h : GivenBack r es r') (n : Note) :
    GivenBack r (es ++ [.note n]) r' := by
  have hnet : ∀ g, Event.net g (es ++ [.note n]) = Event.net g es := fun g => by simp
  simpa only [GivenBack, hnet] using h

theorem Counted.unknown (h : Counted log r) (hnone : refs log device = 0) :
    (closeDevice device).run r = ⟨.ok false, r, [.note (.deviceUnknown device)]⟩ ∧
      Counted (.closed device false :: log) r := by
  refine ⟨run_closeDevice_none (h.device_none hnone), h.idle (fun other => ?_) fun id => rfl⟩
  by_cases hne : other = device
  · subst hne
    simp [SameFor, hnone]
  · exact sameFor_closed hne

theorem Counted.shared (h : Counted log r) (hmore : 1 < refs log device) : ∃ r',
    (closeDevice device).run r = ⟨.ok false, r', []⟩ ∧ r'.pool? = r.pool? ∧
      Counted (.closed device false :: log) r' := by
  have hne : refs log device ≠ 1 := Nat.ne_of_gt hmore
  obtain ⟨id, howns⟩ := exists_owns (Nat.zero_lt_of_lt hmore)
  rw [run_closeDevice_some (h.device_some howns), if_pos hmore]
  refine ⟨_, rfl, rfl, ?_, ?_, ?_, ?_⟩
  · refine h.devices_put (fun other hne => sameFor_closed hne) ⟨(owns_closed hne).mpr howns, ?_⟩
    rw [refs, if_pos rfl]
  · rw [holders_closed hne]
    exact h.held
  · intro other other' id hother hother'
    exact h.owner ((owns_closed hne).mp hother) ((owns_closed hne).mp hother')
  · rw [holders_closed hne]
    exact h.fresh

/-- A device that was opened once is closed, and its pool has one holder less. -/
theorem Counted.released (h : Counted log r) (hlast : refs log device = 1) : ∃ r' es,
    (closeDevice device).run r = ⟨.ok true, r', es⟩ ∧ GivenBack r es r' ∧
      Counted (.closed device true :: log) r' := by
  obtain ⟨id, howns⟩ := exists_owns (hlast ▸ Nat.zero_lt_one)
  have hholders := holders_closed_last hlast howns (fun other hother => h.owner howns hother) true
  have hheld : Holds { r with devices := r.devices.erase device } (holders log) := h.held
  obtain ⟨r', es, hletGo, hdevices, hmade, hback, hheld'⟩ := hheld.letGo (holders_pos_of_owns howns)
  rw [run_closeDevice_some (h.device_some howns), if_neg (Nat.not_lt.mpr (Nat.le_of_eq hlast)),
    hletGo]
  refine ⟨r', _, rfl, GivenBack.note hback _, ?_, hholders ▸ hheld', ?_, ?_⟩
  · rw [hdevices]
    refine h.devices_dropped (fun other hne => sameFor_closed hne) ?_
    rw [refs, if_pos rfl, hlast]
  · intro other other' id hother hother'
    exact h.owner ((owns_closed_last hlast).mp hother).2 ((owns_closed_last hlast).mp hother').2
  · rw [hholders, hmade]
    exact h.fresh_update (h.lt_made (holders_pos_of_owns howns)) (Nat.le_refl _)

theorem Counted.closed (h : Counted log r) (device : Nat) : ∃ r' es,
    (closeDevice device).run r = ⟨.ok (decide (refs log device = 1)), r', es⟩ ∧
      GivenBack r es r' ∧ (refs log device = 0 → r' = r) ∧
      (refs log device ≠ 1 → r'.pool? = r.pool?) ∧
      Counted (.closed device (decide (refs log device = 1)) :: log) r' := by
  rcases Nat.lt_trichotomy (refs log device) 1 with hnone | hlast | hmore
  · obtain ⟨hrun, hcounted⟩ := h.unknown (Nat.lt_one_iff.mp hnone)
    rw [decide_eq_false (Nat.ne_of_lt hnone)]
    exact ⟨r, _, hrun, Or.inl ⟨rfl, fun g => by simp⟩, fun _ => rfl, fun _ => rfl, hcounted⟩
  · obtain ⟨r', es, hrun, hback, hcounted⟩ := h.released hlast
    rw [decide_eq_true hlast]
    exact ⟨r', es, hrun, hback, fun hzero => absurd hzero (by omega), fun hne => absurd hlast hne,
      hcounted⟩
  · obtain ⟨r', hrun, hpools, hcounted⟩ := h.shared hmore
    rw [decide_eq_false (Nat.ne_of_gt hmore)]
    exact ⟨r', [], hrun, Or.inl ⟨hpools, fun g => rfl⟩, fun hzero => absurd hzero (by omega),
      fun _ => hpools, hcounted⟩

/-! ### Handles -/

theorem Counted.moved (h : Counted log r) {r' : Registry} {n : Nat}
    (hsame : ∀ device, SameFor log log' device) (hdevices : r'.devices = r.devices)
    (hmade : r'.made = r.made) (hid : 0 < holders log id)
    (hholders : holders log' = Function.update (holders log) id n)
    (hheld : Holds r' (Function.update (holders log) id n)) : Counted log' r' := by
  refine h.congr hsame hdevices (hholders ▸ hheld) ?_
  rw [hholders, hmade]
  exact h.fresh_update (h.lt_made hid) (Nat.le_refl _)

theorem Counted.holding (h : Counted log r) (hid : 0 < handles log id) : ∃ r',
    (retain id).run r = ⟨.ok (), r', []⟩ ∧ r'.pool? = r.pool? ∧ Counted (.held id :: log) r' := by
  have hpos : 0 < holders log id := Nat.lt_of_lt_of_le hid handles_le_holders
  obtain ⟨r', hretain, hdevices, hmade, hpools, hheld⟩ := h.held.retain hpos
  exact ⟨r', hretain, hpools,
    h.moved (fun _ => ⟨rfl, rfl⟩) hdevices hmade hpos holders_held hheld⟩

theorem Counted.dropping (h : Counted log r) (hid : 0 < handles log id) : ∃ r' es,
    (letGo id).run r = ⟨.ok (), r', es⟩ ∧ GivenBack r es r' ∧
      Counted (.dropped id :: log) r' := by
  have hpos : 0 < holders log id := Nat.lt_of_lt_of_le hid handles_le_holders
  obtain ⟨r', es, hletGo, hdevices, hmade, hback, hheld⟩ := h.held.letGo hpos
  exact ⟨r', es, hletGo, hback,
    h.moved (fun _ => ⟨rfl, rfl⟩) hdevices hmade hpos (holders_dropped hid) hheld⟩

/-- Whatever is done with a pool, it stays where it is with all who have it. -/
theorem Counted.using (h : Counted log r) (hid : 0 < handles log id) (x : Act Pool Unit) :
    Counted (.used id :: log) ((onPool id x).run r).state := by
  have hpos : 0 < holders log id := Nat.lt_of_lt_of_le hid handles_le_holders
  obtain ⟨s, hs, hcount⟩ := h.held.exists_pool hpos
  have hholders : holders (.used id :: log) = Function.update (holders log) id s.holders := by
    rw [hcount, Function.update_eq_self]
    rfl
  rw [run_onPool_some hs]
  refine h.moved (fun _ => ⟨rfl, rfl⟩) rfl rfl hpos hholders ?_
  exact h.held.put (s := { s with pool := (x.run s.pool).state }) rfl (hcount ▸ hpos)

/-! ### Whole courses -/

theorem run_perform_openDevice [Host] {r' : Registry} {es : List Event} {config : PoolConfig}
    {result : Except Fault Nat} (hrun : (openDevice device config).run r = ⟨result, r', es⟩) :
    (perform (.openDevice device config)).run r =
      ⟨.ok (match result with
        | .ok id => .opened device id
        | .error fault => .failed device fault), r', es⟩ := by
  have hattempt : (openDevice device config).attempt.run r = ⟨.ok result, r', es⟩ := by
    rw [run_attempt, hrun]
  rw [perform, run_bind_ok hattempt]
  cases result with
  | ok id => rw [run_pure, List.append_nil]
  | error fault => rw [run_pure, List.append_nil]

/-- Every deed is answered, and the registry is what the answers say afterwards. -/
theorem Counted.performed [Host] (h : Counted log r) {d : Deed} (hadmits : Admits log d) :
    ∃ entry r' es, (perform d).run r = ⟨.ok entry, r', es⟩ ∧ Counted (entry :: log) r' := by
  cases d with
  | openDevice device config =>
    rcases Nat.eq_zero_or_pos (refs log device) with hnone | hopen
    · rcases hmade : (Pool.create config).run () with ⟨fault | p, _, es⟩
      · obtain ⟨hrun, -⟩ := h.refused hnone hmade
        exact ⟨_, _, _, run_perform_openDevice hrun, h.idle (fun _ => ⟨rfl, rfl⟩) fun _ => rfl⟩
      · obtain ⟨r', hrun, -, -, hcounted⟩ := h.opened hnone hmade
        exact ⟨_, r', _, run_perform_openDevice hrun, hcounted⟩
    · obtain ⟨id, howns⟩ := exists_owns hopen
      obtain ⟨r', hrun, -, -, hcounted⟩ := h.reopened howns config
      exact ⟨_, r', _, run_perform_openDevice hrun, hcounted⟩
  | closeDevice device =>
    obtain ⟨r', es, hrun, -, -, -, hcounted⟩ := h.closed device
    refine ⟨_, r', es, ?_, hcounted⟩
    rw [perform, run_map, hrun]
    rfl
  | hold id =>
    obtain ⟨r', hrun, -, hcounted⟩ := h.holding hadmits
    refine ⟨_, r', [], ?_, hcounted⟩
    rw [perform, run_map, hrun]
    rfl
  | letGo id =>
    obtain ⟨r', es, hrun, -, hcounted⟩ := h.dropping hadmits
    refine ⟨_, r', es, ?_, hcounted⟩
    rw [perform, run_map, hrun]
    rfl
  | use id x => exact ⟨_, _, _, rfl, h.using hadmits x⟩

theorem Course.counted (h : Course log r) : Counted log r := by
  induction h with
  | start => exact .start
  | step before d admits answer ih =>
    obtain ⟨entry, r', es, hrun, hcounted⟩ := ih.performed admits
    rw [hrun] at answer ⊢
    obtain rfl := Except.ok.inj answer
    exact hcounted

theorem Counted.mem_openDevices (h : Counted log r) :
    device ∈ r.openDevices ↔ 0 < refs log device := by
  rw [openDevices, Std.TreeMap.mem_keys, Std.TreeMap.mem_iff_isSome_getElem?]
  refine ⟨fun hsome => ?_, fun hopen => ?_⟩
  · obtain ⟨d, hd⟩ := Option.isSome_iff_exists.mp hsome
    exact ((h.devices device d).mp hd).1.1
  · obtain ⟨id, howns⟩ := exists_owns hopen
    rw [h.device_some howns]
    rfl

theorem openDevices_ascending (r : Registry) : r.openDevices.Pairwise (· < ·) :=
  (Std.TreeMap.ordered_keys (t := r.devices)).imp Nat.compare_eq_lt.mp

theorem holders_pos_iff : 0 < holders log id ↔ Kept log id ∨ 0 < handles log id := by
  rw [holders]
  by_cases hkept : Kept log id
  · rw [if_pos hkept]
    exact iff_of_true (Nat.succ_pos _) (Or.inl hkept)
  · rw [if_neg hkept]
    exact (or_iff_right hkept).symm

/-- Whatever devices were opened and closed, with whatever success, and whatever was done with the
pools and their handles:
- a device that is open is opened again without a pool being made, whatever the configuration says,
  and the answer is the pool that was answered before;
- a device that is not open gets a new pool and is charged for it; if that cannot be made, nothing
  has changed and no gauge reads anything else;
- closing a device answers whether it is closed with that, does nothing if it was not open, and
  leaves the pools alone if it stays open;
- the open devices are listed in ascending order;
- a pool is there just as long as an open device has it or a handle is left; if one goes with a
  close or with a handle, all that it charges is taken back, and otherwise nothing is;
- every deed is answered, and leads on. -/
theorem references_counted [Host] (h : Course log r) :
    (∀ device config, 0 < refs log device → ∃ id r', lastPool log device = some id ∧
      (openDevice device config).run r =
        ⟨.ok id, r', [.note (.deviceReopened device (refs log device + 1))]⟩ ∧
      r'.made = r.made ∧ r'.pool? = r.pool?) ∧
    (∀ device config, refs log device = 0 →
      (∀ p es, (Pool.create config).run () = ⟨.ok p, (), es⟩ → ∃ r',
        (openDevice device config).run r =
          ⟨.ok r.made, r', es ++ [.note (.deviceOpened device)]⟩ ∧
        r.pool? r.made = none ∧ r'.made = r.made + 1 ∧
        r'.pool? = Function.update r.pool? r.made (some p) ∧ ∀ g, Event.net g es = p.charge g) ∧
      ∀ fault es, (Pool.create config).run () = ⟨.error fault, (), es⟩ →
        (openDevice device config).run r = ⟨.error fault, r, es⟩ ∧
        ∀ g : Gauges, (∀ k, Int.bmod (g.counter k).raw word64 = (g.counter k).raw) →
          g.absorb es = g) ∧
    (∀ device, ∃ r' es,
      (closeDevice device).run r = ⟨.ok (decide (refs log device = 1)), r', es⟩ ∧
      GivenBack r es r' ∧ (refs log device = 0 → r' = r) ∧
      (refs log device ≠ 1 → r'.pool? = r.pool?)) ∧
    (r.openDevices.Pairwise (· < ·) ∧
      ∀ device, device ∈ r.openDevices ↔ 0 < refs log device) ∧
    (∀ id, (r.pool? id).isSome ↔ Kept log id ∨ 0 < handles log id) ∧
    (∀ id, 0 < handles log id → ∃ r' es, (letGo id).run r = ⟨.ok (), r', es⟩ ∧
      GivenBack r es r') ∧
    ∀ d, Admits log d → ∃ entry, Course (entry :: log) ((perform d).run r).state := by
  have hcounted := h.counted
  refine ⟨fun device config hopen => ?_, fun device config hnone => ⟨fun p es hp => ?_,
    fun fault es hfault => ?_⟩, fun device => ?_,
    ⟨openDevices_ascending r, fun device => hcounted.mem_openDevices⟩,
    fun id => hcounted.held.isSome_iff.trans holders_pos_iff, fun id hid => ?_,
    fun d hadmits => ?_⟩
  · obtain ⟨id, howns⟩ := exists_owns hopen
    obtain ⟨r', hrun, hmade, hpools, -⟩ := hcounted.reopened howns config
    exact ⟨id, r', howns.2, hrun, hmade, hpools⟩
  · obtain ⟨r', hrun, hmade, hpools, -⟩ := hcounted.opened hnone hp
    refine ⟨r', hrun, Option.not_isSome_iff_eq_none.mp fun hsome => ?_, hmade, hpools,
      ((Pool.opens config).net hp).2.1⟩
    exact Nat.lt_irrefl _ (hcounted.lt_made (hcounted.held.isSome_iff.mp hsome))
  · obtain ⟨hrun, hnet, hmodest⟩ := hcounted.refused hnone hfault
    exact ⟨hrun, fun g hword => Gauges.absorb_of_net_zero hword hnet hmodest⟩
  · obtain ⟨r', es, hrun, hback, hnothing, hstays, -⟩ := hcounted.closed device
    exact ⟨r', es, hrun, hback, hnothing, hstays⟩
  · obtain ⟨r', es, hrun, hback, -⟩ := hcounted.dropping hid
    exact ⟨r', es, hrun, hback⟩
  · obtain ⟨entry, r', es, hrun, -⟩ := hcounted.performed hadmits
    exact ⟨entry, h.step d hadmits (congrArg (·.result) hrun)⟩

end

section

attribute [local instance] Host.plain

/-- A device is opened again after its last close, while a handle of its first pool is left; two
pools could not be made in between. -/
theorem references_counted_of_reopened : ∃ log r, Course log r ∧
    log = [.dropped 0, .opened 5 1, .failed 7 (.violated (.rosterCapacity 0 0)), .closed 5 true,
      .closed 5 false, .failed 7 (.refused (.outOfReservedSpace 2097152 1048576)), .opened 5 0,
      .opened 5 0] ∧
    (r.pool? 0).isSome ∧ 5 ∈ r.openDevices ∧ 7 ∉ r.openDevices ∧
    (∃ r' es, (letGo 0).run r = ⟨.ok (), r', es⟩ ∧ GivenBack r es r') ∧
    ((openDevice 7 {}).run r).result = .ok 2 := by
  have h₁ := Course.start.step (.openDevice 5 {}) trivial
    (by decide +kernel : (_ : Except Fault Entry) = .ok (.opened 5 0))
  have h₂ := h₁.step (.openDevice 5 { blockSize := 100 }) trivial
    (by decide +kernel : (_ : Except Fault Entry) = .ok (.opened 5 0))
  have h₃ := h₂.step (.openDevice 7 { arena := { initial := 2 ^ 21, extent := 2 ^ 21 } }) trivial
    (by decide +kernel : (_ : Except Fault Entry) =
      .ok (.failed 7 (.refused (.outOfReservedSpace 2097152 1048576))))
  have h₄ := h₃.step (.closeDevice 5) trivial
    (by decide +kernel : (_ : Except Fault Entry) = .ok (.closed 5 false))
  have h₅ := h₄.step (.closeDevice 5) trivial
    (by decide +kernel : (_ : Except Fault Entry) = .ok (.closed 5 true))
  have h₆ := h₅.step (.openDevice 7 { capacity := 0 }) trivial
    (by decide +kernel : (_ : Except Fault Entry) =
      .ok (.failed 7 (.violated (.rosterCapacity 0 0))))
  have h₇ := h₆.step (.openDevice 5 {}) trivial
    (by decide +kernel : (_ : Except Fault Entry) = .ok (.opened 5 1))
  have h₈ := h₇.step (.letGo 0) (by decide : 0 < handles _ 0)
    (by decide +kernel : (_ : Except Fault Entry) = .ok (.dropped 0))
  obtain ⟨-, -, -, ⟨-, hdevices⟩, hpools, hletGo, -⟩ := references_counted h₈
  refine ⟨_, _, h₈, rfl, (hpools 0).mpr (Or.inr (by decide)), (hdevices 5).mpr (by decide),
    fun h => absurd ((hdevices 7).mp h) (by decide), hletGo 0 (by decide), by decide +kernel⟩

end

end Registry

end SlotArena
