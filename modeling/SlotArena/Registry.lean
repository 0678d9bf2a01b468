import SlotArena.Pool

/-!
The registry of devices.  Opening a device the first time makes a pool for it; opening it again
shares that pool.  The registry lets go of a pool when its device was closed as often as it was
opened, and the pool itself is given up when nobody holds it any more: neither the registry nor one
of those who opened the device.
-/

namespace SlotArena

structure Device where
  /-- Which of the pools is its own. -/
  pool : Nat
  /-- Opens that no close has answered yet. -/
  refs : Nat
  deriving DecidableEq, Repr, Inhabited

/-- A pool and the number of its holders. -/
structure SharedPool where
  pool : Pool
  holders : Nat

structure Registry where
  devices : Std.TreeMap Nat Device
  pools : Std.TreeMap Nat SharedPool
  /-- Pools made so far; the next one gets this number. -/
  made : Nat

namespace Registry

variable [Host]

def empty : Registry := ⟨∅, ∅, 0⟩

def openDevices (r : Registry) : List Nat := r.devices.keys

def pool? (r : Registry) (id : Nat) : Option Pool := r.pools[id]?.map SharedPool.pool

def retain (id : Nat) : Act Registry Unit := Act.modify fun r =>
  { r with pools := r.pools.modify id fun s => { s with holders := s.holders + 1 } }

/-- One holder less for a pool; without holders it is given up. -/
def letGo (id : Nat) : Act Registry Unit := do
  let r ← Act.get
  match r.pools[id]? with
  | none => return
  | some s =>
      if 1 < s.holders then
        Act.set { r with pools := r.pools.insert id { s with holders := s.holders - 1 } }
      else
        Act.set { r with pools := r.pools.erase id }
        Act.emit s.pool.closing

/-- Opens a device; the caller becomes a holder of the pool whose number is answered.  The
configuration counts only where a pool has to be made. -/
def openDevice (device : Nat) (config : PoolConfig) : Act Registry Nat := do
  let r ← Act.get
  match r.devices[device]? with
  | some d =>
      Act.set { r with devices := r.devices.insert device { d with refs := d.refs + 1 } }
      Act.note (.deviceReopened device (d.refs + 1))
      retain d.pool
      return d.pool
  | none =>
      let pool ← Act.make (Pool.create config)
      -- Two holders: the registry and the caller.
      Act.set {
        devices := r.devices.insert device ⟨r.made, 1⟩
        pools := r.pools.insert r.made ⟨pool, 2⟩
        made := r.made + 1 }
      Act.note (.deviceOpened device)
      return r.made

/-- Closes a device once; answers whether the registry let go of its pool. -/
def closeDevice (device : Nat) : Act Registry Bool := do
  let r ← Act.get
  match r.devices[device]? with
  | none =>
      Act.note (.deviceUnknown device)
      return false
  | some d =>
      if 1 < d.refs then
        Act.set { r with devices := r.devices.insert device { d with refs := d.refs - 1 } }
        return false
      else
        Act.set { r with devices := r.devices.erase device }
        letGo d.pool
        Act.note (.deviceClosed device)
        return true

/-- An operation on one of the pools; on a pool that is gone it does nothing. -/
def onPool {α : Type} (id : Nat) (x : Act Pool α) : Act Registry (Option α) := fun r =>
  match r.pools[id]? with
  | none => ⟨.ok none, r, []⟩
  | some s =>
      let o := x s.pool
      ⟨o.result.map some, { r with pools := r.pools.insert id { s with pool := o.state } },
        o.events⟩

end Registry

end SlotArena
