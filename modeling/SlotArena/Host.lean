import SlotArena.Fault

/-!
The host's address space. What the host answers is not the allocator's to decide: a `Host` is any
answers at all, so that whatever is said of an operation holds however often the host lets it down.
What the allocator checks before it asks is here as well.

`Host.Generous` is a host that grants what is whole pages and shorter than its address space, and
`Host.plain` one that looks at nothing but that.
-/

namespace SlotArena

/-- What the host has against a request; nothing where it grants it. The owner is whose window the
request is for. -/
class Host where
  /-- Sets `size` bytes of address space aside. -/
  reserving (owner : Purpose) (size : Nat) : Option HostCause
  /-- Addresses of programs lie in the lower half of what a word can express. -/
  reserving_lt {owner : Purpose} {size : Nat} : reserving owner size = none → size < 2 ^ 63
  /-- Makes `size` bytes of a reservation usable from position `start` on. -/
  committing (owner : Purpose) (start size : Nat) : Option HostCause
  /-- Creates a shared backing without bytes. -/
  creating (owner : Purpose) : Option HostCause
  /-- Makes a shared backing `size` bytes long. -/
  sizing (owner : Purpose) (size : Nat) : Option HostCause
  /-- Shows `size` bytes of a shared backing from position `start` on. -/
  showing (owner : Purpose) (start size : Nat) : Option HostCause

namespace Host

/-- The span of user address space; one mapping is always shorter. -/
def addressSpan : Nat := 2 ^ 47

/-- The least position that a signed file offset cannot express. -/
def fileSpan : Nat := 2 ^ 63

/-- A request that the host had `objection?` against, if anything. -/
def asked (wrap : HostCause → HostError) (objection? : Option HostCause) : Except HostError Unit :=
  match objection? with
  | some cause => .error (wrap cause)
  | none => .ok ()

theorem asked_eq_ok {wrap : HostCause → HostError} {objection? : Option HostCause} :
    asked wrap objection? = .ok () ↔ objection? = none := by
  cases objection? <;> simp [asked]

section

variable [Host]

def reserve (owner : Purpose) (size : Nat) : Except HostError Unit :=
  asked .reservation (reserving owner size)

def commit (owner : Purpose) (start size : Nat) : Except HostError Unit :=
  asked .commit (committing owner start size)

def makeBacking (owner : Purpose) (size : Nat) : Except HostError Unit := do
  asked .reservation (creating owner)
  if fileSpan ≤ size then .error (.initialization s!"backing size {size} overflows off_t")
  asked .reservation (sizing owner size)

def showView (owner : Purpose) (start size : Nat) : Except HostError Unit := do
  if fileSpan ≤ start then .error (.commit (.other "mapping offset overflows off_t"))
  asked .commit (showing owner start size)

/-- What a host granted is not so long that a file offset could not span it. -/
theorem reserve_lt {owner : Purpose} {size : Nat} (h : reserve owner size = .ok ()) :
    size < fileSpan :=
  reserving_lt (asked_eq_ok.mp h)

theorem makeBacking_lt {owner : Purpose} {size : Nat} (h : makeBacking owner size = .ok ()) :
    size < fileSpan := by
  refine Nat.lt_of_not_le fun hle => ?_
  rw [makeBacking, if_pos hle] at h
  cases hcreated : asked .reservation (creating owner) <;> rw [hcreated] at h <;> cases h

end

/-! ### Hosts that are not short of anything -/

/-- A host that grants what is whole pages and shorter than its address space. -/
class Generous [Host] : Prop where
  reserving (owner : Purpose) {size : Nat} (pos : 0 < size) (small : size < addressSpan) :
    reserving owner size = none
  committing (owner : Purpose) {start : Nat} (size : Nat) (whole : pageSize ∣ start) :
    committing owner start size = none
  creating (owner : Purpose) : creating owner = none
  sizing (owner : Purpose) {size : Nat} (small : size < fileSpan) : sizing owner size = none
  showing (owner : Purpose) {start size : Nat} (whole : pageSize ∣ start) (pos : 0 < size)
    (small : size < addressSpan) : showing owner start size = none

/-- Why a mapping of `size` bytes in one piece cannot be had. -/
def objection? (size : Nat) : Option HostCause :=
  if size = 0 then some .invalidArgument
  else if addressSpan ≤ size then some .outOfMemory
  else none

theorem lt_of_objection?_eq_none {size : Nat} (h : objection? size = none) :
    size < addressSpan := by
  grind [objection?, addressSpan]

/-- Only sizes and alignments decide. -/
@[reducible]
def plain : Host where
  reserving _ size := objection? size
  reserving_lt h := Nat.lt_trans (lt_of_objection?_eq_none h) (by decide)
  committing _ start _ := if pageSize ∣ start then none else some .invalidArgument
  creating _ := none
  sizing _ _ := none
  showing _ start size := if pageSize ∣ start then objection? size else some .invalidArgument

theorem objection?_eq_none {size : Nat} (pos : 0 < size) (small : size < addressSpan) :
    objection? size = none := by
  simp [objection?, Nat.ne_of_gt pos, Nat.not_le.mpr small]

instance : @Generous plain :=
  @Generous.mk plain (fun _ _ => objection?_eq_none) (fun _ _ _ whole => if_pos whole)
    (fun _ => rfl) (fun _ _ _ => rfl) fun _ _ _ whole pos small =>
      (if_pos whole).trans (objection?_eq_none pos small)

section

variable [Host] [Generous] (owner : Purpose)

theorem reserve_ok {size : Nat} (pos : 0 < size) (small : size < addressSpan) :
    reserve owner size = .ok () := by
  rw [reserve, Generous.reserving owner pos small, asked]

theorem commit_ok {start : Nat} (size : Nat) (whole : pageSize ∣ start) :
    commit owner start size = .ok () := by
  rw [commit, Generous.committing owner size whole, asked]

theorem makeBacking_ok {size : Nat} (small : size < fileSpan) :
    makeBacking owner size = .ok () := by
  rw [makeBacking, Generous.creating owner, Generous.sizing owner small,
    if_neg (Nat.not_le.mpr small)]
  rfl

theorem showView_ok {start size : Nat} (small_start : start < fileSpan) (whole : pageSize ∣ start)
    (pos : 0 < size) (small : size < addressSpan) : showView owner start size = .ok () := by
  rw [showView, Generous.showing owner whole pos small, if_neg (Nat.not_le.mpr small_start)]
  rfl

end

end Host

end SlotArena
