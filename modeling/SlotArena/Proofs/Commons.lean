import SlotArena.Proofs.EstateCharges
import SlotArena.Registry

/-!
The pools that devices share. `Commons` are the registry and, for every pool that it made, what its
users have of it; a pool that somebody holds is an estate with its users (`estate?`). Devices are
opened and closed, holders come and go, and whoever holds a pool may use it as he may use a pool of
his own. Commons charge what these estates do, and all of that is booked (`perform_traces`): the
registry charges a pool when it makes it, and takes everything back when it gives it up, which it
does once, after the last holder.
-/

namespace SlotArena

open Act

/-! ### Tables -/

section

variable {β : Type} (m : Std.TreeMap Nat β) (k j : Nat)

theorem getElem?_put (v : β) : (m.insert k v)[j]? = if j = k then some v else m[j]? := by
  by_cases h : j = k
  · subst h
    simp
  · rw [Std.TreeMap.getElem?_insert, if_neg fun heq => h (Nat.compare_eq_eq.mp heq).symm, if_neg h]

theorem getElem?_dropped : (m.erase k)[j]? = if j = k then none else m[j]? := by
  by_cases h : j = k
  · subst h
    simp
  · rw [Std.TreeMap.getElem?_erase, if_neg fun heq => h (Nat.compare_eq_eq.mp heq).symm, if_neg h]

theorem getElem?_edited (f : β → β) :
    (m.modify k f)[j]? = if j = k then m[j]?.map f else m[j]? := by
  by_cases h : j = k
  · subst h
    simp
  · rw [Std.TreeMap.getElem?_modify, if_neg fun heq => h (Nat.compare_eq_eq.mp heq).symm, if_neg h]

end

namespace Registry

variable {α : Type} {r : Registry} {id : Nat} {x : Act Pool α}

theorem run_onPool_none (h : r.pools[id]? = none) : (onPool id x).run r = ⟨.ok none, r, []⟩ := by
  unfold run onPool
  rw [h]

theorem run_onPool_some {s : SharedPool} (h : r.pools[id]? = some s) :
    (onPool id x).run r = ⟨(x.run s.pool).result.map some,
      { r with pools := r.pools.insert id { s with pool := (x.run s.pool).state } },
      (x.run s.pool).events⟩ := by
  unfold run onPool
  rw [h]

theorem pool_retained (m : Std.TreeMap Nat SharedPool) (id j : Nat) :
    (m.modify id fun s => { s with holders := s.holders + 1 })[j]?.map SharedPool.pool =
      m[j]?.map SharedPool.pool := by
  rw [getElem?_edited]
  split
  · rw [Option.map_map]
    rfl
  · rfl

end Registry

structure Tenancy where
  taken : Finset Int
  held : List Slot
  lanes : Nat → Option Lane
  allotments : Nat → Option Allotment

namespace Tenancy

def empty : Tenancy := ⟨∅, [], fun _ => none, fun _ => none⟩

def within (t : Tenancy) (p : Pool) : Estate := ⟨p, t.taken, t.held, t.lanes, t.allotments⟩

/-- An operation on an estate, as one on its pool that also tells what its users have then. -/
def through (t : Tenancy) (x : Act Estate Unit) : Act Pool (Except Fault Unit × Tenancy) := fun p =>
  let o := x (t.within p)
  ⟨.ok (o.result, ⟨o.state.taken, o.state.held, o.state.lanes, o.state.allotments⟩), o.state.pool,
    o.events⟩

end Tenancy

/-- Nothing that goes with a pool is left: no stream and no allotment. -/
def Estate.Idle (e : Estate) : Prop := (∀ k, e.lanes k = none) ∧ ∀ k, e.allotments k = none

structure Commons where
  registry : Registry
  tenancies : Nat → Tenancy

namespace Commons

def empty : Commons := ⟨.empty, fun _ => .empty⟩

def estate? (c : Commons) (id : Nat) : Option Estate :=
  (c.registry.pool? id).map (c.tenancies id).within

/-! ### What is done to them -/

def onRegistry {α : Type} : Act Registry α → Act Commons α :=
  Act.focus Commons.registry fun c r => { c with registry := r }

def use (id : Nat) (x : Act Estate Unit) : Act Commons Unit := do
  match ← onRegistry (Registry.onPool id (((← Act.get).tenancies id).through x)) with
  | none => pure ()
  | some (answer, t) =>
      Act.modify fun c => { c with tenancies := Function.update c.tenancies id t }
      Act.ofExcept answer

inductive Deed
  | openDevice (device : Nat) (config : PoolConfig)
  | closeDevice (device : Nat)
  /-- One holder more. -/
  | hold (id : Nat)
  /-- One holder less. -/
  | letGo (id : Nat)
  | use (id : Nat) (what : Estate.Use)

def perform [Host] : Deed → Act Commons Unit
  | .openDevice device config => (fun _ => ()) <$> onRegistry (Registry.openDevice device config)
  | .closeDevice device => (fun _ => ()) <$> onRegistry (Registry.closeDevice device)
  | .hold id => onRegistry (Registry.retain id)
  | .letGo id => onRegistry (Registry.letGo id)
  | .use id what => use id what.act

/-- Whoever holds a pool last has nothing in it that needs it. -/
def Vacant (c : Commons) (id : Nat) : Prop :=
  ∀ s ∈ c.registry.pools[id]?, s.holders ≤ 1 → ((c.tenancies id).within s.pool).Idle

def Admits [Host] (c : Commons) : Deed → Prop
  | .closeDevice device => ∀ d ∈ c.registry.devices[device]?, d.refs ≤ 1 → c.Vacant d.pool
  | .letGo id => c.Vacant id
  | .use id what => ∀ e ∈ c.estate? id, e.Permits what
  | _ => True

/-! ### What they charge -/

/-- Numbers of pools that are still to be made are not in use. -/
def Orderly (c : Commons) : Prop :=
  ∀ id, c.registry.made ≤ id → c.registry.pools[id]? = none ∧ c.tenancies id = .empty

noncomputable def account : Account Commons where
  keeps c := Estate.account.table.keeps c.estate? ∧ c.Orderly
  charge c g := Estate.account.table.charge c.estate? g

variable {c c' : Commons} {id : Nat} {es : List Event}

theorem books_entry (id : Nat) (horderly : c.Orderly → c'.Orderly)
    (hother : ∀ j ≠ id, c'.estate? j = c.estate? j)
    (h : Estate.account.optional.Books (c.estate? id) es (c'.estate? id)) :
    account.Books c es c' := fun hc => by
  have htable : c'.estate? = Function.update c.estate? id (c'.estate? id) := by
    funext j
    by_cases hj : j = id
    · rw [hj, Function.update_self]
    · rw [Function.update_of_ne hj, hother j hj]
  obtain ⟨hkeeps, hnet, hmodest⟩ := Account.Books.entry h hc.1
  rw [← htable] at hkeeps hnet
  exact ⟨⟨hkeeps, horderly hc.2⟩, hnet, hmodest⟩

theorem books_same (horderly : c.Orderly → c'.Orderly) (h : c'.estate? = c.estate?) :
    account.Books c [] c' :=
  .silent (fun hc => ⟨h ▸ hc.1, horderly hc.2⟩) fun g =>
    congrArg (Estate.account.table.charge · g) h

theorem estate?_of_pools {s : SharedPool} (h : c.registry.pools[id]? = some s) :
    c.estate? id = some ((c.tenancies id).within s.pool) := by
  rw [estate?, Registry.pool?, h]
  rfl

theorem estate?_eq_none (h : c.registry.pools[id]? = none) : c.estate? id = none := by
  rw [estate?, Registry.pool?, h]
  rfl

theorem estate?_congr (hpool : c'.registry.pool? id = c.registry.pool? id)
    (htenancy : c'.tenancies id = c.tenancies id) : c'.estate? id = c.estate? id := by
  rw [estate?, estate?, hpool, htenancy]

theorem books_insert {s : SharedPool} {t : Tenancy} {r : Registry}
    (hpools : r.pools = c.registry.pools.insert id s) (hmade : c.registry.made ≤ r.made)
    (hid : id < r.made)
    (h : Estate.account.optional.Books (c.estate? id) es (some (t.within s.pool))) :
    account.Books c es ⟨r, Function.update c.tenancies id t⟩ := by
  refine books_entry id (fun horderly j hj => ?_) (fun j hj => ?_) ?_
  · have hne : j ≠ id := Nat.ne_of_gt (Nat.lt_of_lt_of_le hid hj)
    obtain ⟨hgone, hidle⟩ := horderly j (Nat.le_trans hmade hj)
    refine ⟨?_, (Function.update_of_ne hne ..).trans hidle⟩
    rw [hpools, getElem?_put, if_neg hne, hgone]
  · refine estate?_congr ?_ (Function.update_of_ne hj ..)
    rw [Registry.pool?, Registry.pool?, hpools, getElem?_put, if_neg hj]
  · have hnew : (⟨r, Function.update c.tenancies id t⟩ : Commons).estate? id =
        some (t.within s.pool) := by
      have hs : r.pools[id]? = some s := by rw [hpools, Std.TreeMap.getElem?_insert_self]
      refine (estate?_of_pools hs).trans ?_
      exact congrArg (fun t : Tenancy => some (t.within s.pool)) (Function.update_self ..)
    rw [hnew]
    exact h

theorem Orderly.lt_made (h : c.Orderly) {s : SharedPool} (hs : c.registry.pools[id]? = some s) :
    id < c.registry.made := by
  refine Nat.lt_of_not_le fun hid => ?_
  rw [(h id hid).1] at hs
  cases hs

theorem books_stay {s s' : SharedPool} {t : Tenancy} {r : Registry}
    (hs : c.registry.pools[id]? = some s) (hpools : r.pools = c.registry.pools.insert id s')
    (hmade : r.made = c.registry.made)
    (h : Estate.account.Books ((c.tenancies id).within s.pool) es (t.within s'.pool)) :
    account.Books c es ⟨r, Function.update c.tenancies id t⟩ := fun hc => by
  refine books_insert hpools hmade.ge (hmade ▸ hc.2.lt_made hs) ?_ hc
  rw [estate?_of_pools hs]
  exact .some h

/-! ### Holders -/

/-- The number of holders is not charged for, and neither are the devices. -/
theorem books_holders {s : SharedPool} (hs : c.registry.pools[id]? = some s)
    (devices : Std.TreeMap Nat Device) (n : Nat) :
    account.Books c [] ⟨⟨devices, c.registry.pools.insert id { s with holders := n },
      c.registry.made⟩, c.tenancies⟩ := by
  have hsame : account.Books c [] ⟨⟨devices, c.registry.pools.insert id { s with holders := n },
      c.registry.made⟩, Function.update c.tenancies id (c.tenancies id)⟩ :=
    books_stay hs rfl rfl (Estate.account.path.refl _)
  rwa [Function.update_eq_self] at hsame

theorem books_retain (c : Commons) (devices : Std.TreeMap Nat Device) (id : Nat) :
    account.Books c [] ⟨⟨devices, c.registry.pools.modify id
      fun s => { s with holders := s.holders + 1 }, c.registry.made⟩, c.tenancies⟩ := by
  have hpools := Registry.pool_retained c.registry.pools id
  refine books_same (fun horderly j hj => ?_) (funext fun j => estate?_congr (hpools j) rfl)
  obtain ⟨hgone, hidle⟩ := horderly j hj
  have hnone := hpools j
  rw [hgone] at hnone
  exact ⟨Option.map_eq_none_iff.mp hnone, hidle⟩

theorem letGo_books (hvacant : c.Vacant id) (hlt : ∀ g, account.charge c g < 2 ^ 63)
    (devices : Std.TreeMap Nat Device) :
    (Registry.letGo id).Leaves { c.registry with devices := devices } fun _ es r =>
      account.Books c es { c with registry := r } := by
  simp only [Registry.letGo, leaves_bind, leaves_get]
  cases hs : c.registry.pools[id]? with
  | none => exact books_same (fun horderly => horderly) rfl
  | some s =>
    simp only [leaves_ite, leaves_bind, leaves_set, leaves_emit, List.nil_append]
    refine ⟨fun _ => books_holders hs devices _, fun hlast => ?_⟩
    have hother : ∀ j ≠ id, (c.registry.pools.erase id)[j]? = c.registry.pools[j]? := fun j hj => by
      rw [getElem?_dropped, if_neg hj]
    intro hc
    refine books_entry id (fun horderly j hj => ?_) (fun j hj => ?_) ?_ hc
    · obtain ⟨hnone, hidle⟩ := horderly j hj
      refine ⟨?_, hidle⟩
      show (c.registry.pools.erase id)[j]? = none
      rw [getElem?_dropped, hnone, ite_self]
    · refine estate?_congr ?_ rfl
      rw [Registry.pool?, Registry.pool?, hother j hj]
    · rw [estate?_of_pools hs, estate?_eq_none (c := ⟨_, _⟩) Std.TreeMap.getElem?_erase_self]
      refine Estate.closes (hvacant s hs (Nat.not_lt.mp hlast)).1 fun g => ?_
      exact Nat.lt_of_le_of_lt (Kind.charge_le_table hc.1.1 (estate?_of_pools hs) g) (hlt g)

/-! ### Devices -/

theorem books_failed (c : Commons) (h : Estate.account.optional.Books none es none) :
    account.Books c es c := fun hc => by
  have hnone := estate?_eq_none (hc.2 _ (Nat.le_refl _)).1
  refine books_entry c.registry.made id (fun _ _ => rfl) ?_ hc
  rw [hnone]
  exact h

theorem openDevice_traces [Host] (c : Commons) (device : Nat) (config : PoolConfig) :
    Traces account.Books (onRegistry (Registry.openDevice device config)) c := by
  refine (leaves_focus ..).mpr ?_
  simp only [Registry.openDevice, leaves_bind, leaves_get]
  cases hd : c.registry.devices[device]? with
  | some d =>
    simp only [Registry.retain, leaves_bind, leaves_set, leaves_note, leaves_modify, leaves_pure,
      List.nil_append, List.append_nil]
    exact account.path.trans (.note account c _) (books_retain c _ d.pool)
  | none =>
    simp only [leaves_bind, leaves_make]
    refine (Estate.new_books config).imp fun r es _ hbooks => ?_
    cases r with
    | error fault => exact books_failed c hbooks
    | ok p =>
      have hmade : account.Books c es
          ⟨⟨c.registry.devices.insert device ⟨c.registry.made, 1⟩,
            c.registry.pools.insert c.registry.made ⟨p, 2⟩, c.registry.made + 1⟩,
            Function.update c.tenancies c.registry.made .empty⟩ := fun hc => by
        refine books_insert rfl (Nat.le_succ _) (Nat.lt_succ_self _) ?_ hc
        rw [estate?_eq_none (hc.2 _ (Nat.le_refl _)).1]
        exact hbooks
      show account.Books c (es ++ [.note (.deviceOpened device)]) ⟨_, c.tenancies⟩
      intro hc
      rw [← (hc.2 _ (Nat.le_refl _)).2, Function.update_eq_self] at hmade
      exact account.path.trans hmade (.note account _ _) hc

/-- The registry is one of the holders of a pool as long as its device is open. -/
theorem closeDevice_traces {device : Nat}
    (hvacant : ∀ d ∈ c.registry.devices[device]?, d.refs ≤ 1 → c.Vacant d.pool)
    (hlt : ∀ g, account.charge c g < 2 ^ 63) :
    Traces account.Books (onRegistry (Registry.closeDevice device)) c := by
  refine (leaves_focus ..).mpr ?_
  simp only [Registry.closeDevice, leaves_bind, leaves_get]
  cases hd : c.registry.devices[device]? with
  | none => exact .note account c _
  | some d =>
    simp only [leaves_ite, leaves_bind, leaves_set, leaves_note, leaves_pure, List.nil_append,
      List.append_nil]
    refine ⟨fun _ => books_same (fun horderly => horderly) rfl, fun hlast => ?_⟩
    have hletGo := letGo_books (hvacant d hd (Nat.not_lt.mp hlast)) hlt
      (c.registry.devices.erase device)
    refine hletGo.imp fun r es registry hbooks => ?_
    cases r with
    | error fault => exact hbooks
    | ok _ => exact account.path.trans hbooks (.note account _ _)

/-! ### Deeds -/

theorem use_traces [Host] {what : Estate.Use} (hpermits : ∀ e ∈ c.estate? id, e.Permits what) :
    Traces account.Books (use id what.act) c := by
  refine traces_get_bind ((leaves_bind ..).mpr ((leaves_focus ..).mpr ?_))
  cases hs : c.registry.pools[id]? with
  | none =>
    rw [Leaves, Registry.run_onPool_none hs]
    exact account.path.refl c
  | some s =>
    rw [Leaves, Registry.run_onPool_some hs]
    have hbooks := Estate.use_traces (hpermits _ (estate?_of_pools hs))
    show account.Books c ((what.act.run ((c.tenancies id).within s.pool)).events ++ ([] ++ [])) _
    rw [List.append_nil, List.append_nil]
    exact books_stay hs rfl rfl hbooks

theorem perform_traces [Host] {d : Deed} (hadmits : c.Admits d)
    (hlt : ∀ g, account.charge c g < 2 ^ 63) : Traces account.Books (perform d) c := by
  cases d with
  | openDevice device config => exact openDevice_traces c device config
  | closeDevice device => exact closeDevice_traces hadmits hlt
  | hold id => exact books_retain c c.registry.devices id
  | letGo id => exact letGo_books hadmits hlt c.registry.devices
  | use id what => exact use_traces hadmits

end Commons

end SlotArena
