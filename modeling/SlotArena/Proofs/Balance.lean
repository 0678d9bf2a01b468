import SlotArena.Proofs.Traces

/-!
Gauges and what they count. An event raises or lowers a gauge, and what a run of them comes to is
their `net` change. Counters wrap and clamp, but neither shows: as long as no single change is
absurdly large and the sum stays inside half a word, a gauge that took in some events reads what it
read before and their net change (`Gauges.raw_absorb`), whatever it read in between.

An `Account` says what an object charges to each gauge while it exists. An operation is `Booked` if
its events come to just the difference between what the object charged before and after it, whatever
became of the operation.
-/

namespace SlotArena

open Act

/-! ### What events come to -/

namespace Event

def change (g : Gauge) : Event → Int
  | .raise which n => if which = g then n else 0
  | .lower which n => if which = g then -n else 0
  | .note _ => 0

def net (g : Gauge) : List Event → Int
  | [] => 0
  | e :: es => e.change g + net g es

/-- The event changes a gauge by no more than what a counter takes at a time. -/
def Modest : Event → Prop
  | .raise _ n | .lower _ n => n ≤ Counter.largestDelta
  | .note _ => True

@[simp] theorem modest_raise (which : Gauge) (n : Nat) :
    (raise which n).Modest ↔ n ≤ Counter.largestDelta := Iff.rfl

@[simp] theorem modest_lower (which : Gauge) (n : Nat) :
    (lower which n).Modest ↔ n ≤ Counter.largestDelta := Iff.rfl

@[simp] theorem modest_note (n : Note) : (note n).Modest := trivial

@[simp] theorem net_nil (g : Gauge) : net g [] = 0 := rfl

@[simp] theorem net_cons (g : Gauge) (e : Event) (es : List Event) :
    net g (e :: es) = e.change g + net g es := rfl

@[simp] theorem net_append (g : Gauge) (es fs : List Event) :
    net g (es ++ fs) = net g es + net g fs := by
  induction es with
  | nil => exact (Int.zero_add _).symm
  | cons e es ih => rw [List.cons_append, net_cons, net_cons, ih, Int.add_assoc]

@[simp] theorem change_raise (g which : Gauge) (n : Nat) :
    (raise which n).change g = if which = g then (n : Int) else 0 := rfl

@[simp] theorem change_lower (g which : Gauge) (n : Nat) :
    (lower which n).change g = if which = g then -(n : Int) else 0 := rfl

@[simp] theorem change_note (g : Gauge) (n : Note) : (note n).change g = 0 := rfl

end Event

namespace Gauges

theorem raw_apply (g : Gauges) {e : Event} (h : e.Modest) (k : Gauge)
    (hword : Int.bmod (g.counter k).raw word64 = (g.counter k).raw) :
    ((e.apply g).counter k).raw = Int.bmod ((g.counter k).raw + e.change k) word64 := by
  cases e with
  | raise which n =>
    by_cases hk : which = k
    · subst hk
      rw [Event.apply, counter_update_same, Counter.add, Counter.delta_of_le h, Event.change_raise,
        if_pos rfl]
    · rw [Event.apply, counter_update_of_ne _ (Ne.symm hk), Event.change_raise, if_neg hk,
        Int.add_zero, hword]
  | lower which n =>
    by_cases hk : which = k
    · subst hk
      rw [Event.apply, counter_update_same, Counter.sub, Counter.delta_of_le h, Event.change_lower,
        if_pos rfl, Int.sub_eq_add_neg]
    · rw [Event.apply, counter_update_of_ne _ (Ne.symm hk), Event.change_lower, if_neg hk,
        Int.add_zero, hword]
  | note n => rw [Event.apply, Event.change_note, Int.add_zero, hword]

theorem raw_absorb_bmod (g : Gauges) {es : List Event} (h : ∀ e ∈ es, e.Modest) (k : Gauge)
    (hword : Int.bmod (g.counter k).raw word64 = (g.counter k).raw) :
    ((g.absorb es).counter k).raw = Int.bmod ((g.counter k).raw + Event.net k es) word64 := by
  induction es generalizing g with
  | nil => rw [absorb_nil, Event.net_nil, Int.add_zero, hword]
  | cons e es ih =>
    obtain ⟨he, hes⟩ := List.forall_mem_cons.mp h
    have happly := raw_apply g he k hword
    have hword' : Int.bmod ((e.apply g).counter k).raw word64 = ((e.apply g).counter k).raw := by
      rw [happly, Int.bmod_bmod]
    show (((e.apply g).absorb es).counter k).raw = _
    rw [ih (e.apply g) hes hword', happly, Int.bmod_add_bmod, Event.net_cons, Int.add_assoc]

/-- Where the sum stays inside half a word, neither wrapping nor clamping shows. -/
theorem raw_absorb (g : Gauges) {es : List Event} (h : ∀ e ∈ es, e.Modest) {k : Gauge}
    (hbefore : 0 ≤ (g.counter k).raw ∧ (g.counter k).raw < 2 ^ 63)
    (hafter : 0 ≤ (g.counter k).raw + Event.net k es ∧
      (g.counter k).raw + Event.net k es < 2 ^ 63) :
    ((g.absorb es).counter k).raw = (g.counter k).raw + Event.net k es := by
  have hword : ∀ n : Int, 0 ≤ n → n < 2 ^ 63 → Int.bmod n word64 = n := fun n hn hn' => by
    rw [Int.bmod_eq_of_le]
    · simp only [word64]
      omega
    · simp only [word64]
      omega
  rw [raw_absorb_bmod g h k (hword _ hbefore.1 hbefore.2), hword _ hafter.1 hafter.2]

theorem absorb_of_net_zero {g : Gauges} {es : List Event}
    (hword : ∀ k, Int.bmod (g.counter k).raw word64 = (g.counter k).raw)
    (hnet : ∀ k, Event.net k es = 0) (hmodest : ∀ e ∈ es, e.Modest) : g.absorb es = g := by
  have hcounter : ∀ k, (g.absorb es).counter k = g.counter k := fun k => by
    have hraw := raw_absorb_bmod g hmodest k (hword k)
    rw [hnet k, Int.add_zero, hword k] at hraw
    exact congrArg Counter.mk hraw
  rcases hafter : g.absorb es with ⟨c₁, c₂, c₃, c₄, c₅, c₆, c₇⟩
  rw [hafter] at hcounter
  rcases g with ⟨d₁, d₂, d₃, d₄, d₅, d₆, d₇⟩
  congr 1
  · exact hcounter .reserved
  · exact hcounter .committed
  · exact hcounter .arenas
  · exact hcounter .rosters
  · exact hcounter .retired
  · exact hcounter .live
  · exact hcounter .streamBlocks

end Gauges

/-! ### Accounts -/

/-- What an object charges to each gauge, and what is true of all objects that are charged for. -/
structure Account (σ : Type) where
  keeps : σ → Prop
  charge : σ → Gauge → Nat

namespace Account

variable {σ τ α β : Type} {A : Account σ} {s t : σ}

/-- The events come to the difference between what the two objects charge. -/
def Books (A : Account σ) (s : σ) (es : List Event) (t : σ) : Prop :=
  A.keeps s → A.keeps t ∧ (∀ g, (A.charge t g : Int) = A.charge s g + Event.net g es) ∧
    ∀ e ∈ es, e.Modest

theorem path (A : Account σ) : Path A.Books where
  refl s hs := ⟨hs, fun g => (Int.add_zero _).symm, fun e he => absurd he List.not_mem_nil⟩
  trans hst htu hs := by
    obtain ⟨ht, hcharge, hes⟩ := hst hs
    obtain ⟨hu, hcharge', hfs⟩ := htu ht
    refine ⟨hu, fun g => ?_, fun e he => (List.mem_append.mp he).elim (hes e) (hfs e)⟩
    rw [hcharge' g, hcharge g, Event.net_append, Int.add_assoc]

theorem Books.silent (hkeeps : A.keeps s → A.keeps t) (hcharge : ∀ g, A.charge t g = A.charge s g) :
    A.Books s [] t := fun hs =>
  ⟨hkeeps hs, fun g => by rw [hcharge g, Event.net_nil, Int.add_zero],
    fun e he => absurd he List.not_mem_nil⟩

theorem Books.note (A : Account σ) (s : σ) (n : Note) : A.Books s [.note n] s := fun hs =>
  ⟨hs, fun g => by simp, fun e he => by
    obtain rfl := List.mem_singleton.mp he
    trivial⟩

theorem Books.part {B : Account τ} {b b' : τ} {es : List Event} (h : B.Books b es b')
    (hin : A.keeps s → B.keeps b) (hout : A.keeps s → B.keeps b' → A.keeps t)
    (hcharge : A.keeps s → ∀ g, A.charge t g + B.charge b g = A.charge s g + B.charge b' g) :
    A.Books s es t := fun hs => by
  obtain ⟨hb, hnet, hmodest⟩ := h (hin hs)
  refine ⟨hout hs hb, fun g => ?_, hmodest⟩
  have hsum := hcharge hs g
  have hpart := hnet g
  omega

def on (A : Account τ) (part : σ → τ) : Account σ := ⟨fun s => A.keeps (part s),
  fun s => A.charge (part s)⟩

def beside (A B : Account σ) : Account σ where
  keeps s := A.keeps s ∧ B.keeps s
  charge s g := A.charge s g + B.charge s g

/-- What happens to what the first of two charges for; a bound on both is one on it. -/
theorem Books.beside_left {B : Account σ} {es : List Event} {n : Nat}
    (hlt : ∀ g, (A.beside B).charge s g < n) (h : (∀ g, A.charge s g < n) → A.Books s es t)
    (hkeeps : B.keeps s → B.keeps t) (hcharge : ∀ g, B.charge t g = B.charge s g) :
    (A.beside B).Books s es t := by
  refine (h fun g => ?_).part And.left (fun hs ht => ⟨ht, hkeeps hs.2⟩) fun _ g => ?_
  · exact Nat.lt_of_le_of_lt (Nat.le_add_right ..) (hlt g)
  · show A.charge t g + B.charge t g + A.charge s g = A.charge s g + B.charge s g + A.charge t g
    rw [hcharge]
    omega

theorem Books.beside_right {B : Account σ} {es : List Event} {n : Nat}
    (hlt : ∀ g, (A.beside B).charge s g < n) (h : (∀ g, B.charge s g < n) → B.Books s es t)
    (hkeeps : A.keeps s → A.keeps t) (hcharge : ∀ g, A.charge t g = A.charge s g) :
    (A.beside B).Books s es t := by
  refine (h fun g => ?_).part And.right (fun hs ht => ⟨hkeeps hs.1, ht⟩) fun _ g => ?_
  · exact Nat.lt_of_le_of_lt (Nat.le_add_left ..) (hlt g)
  · show A.charge t g + B.charge t g + B.charge s g = A.charge s g + B.charge s g + B.charge t g
    rw [hcharge]
    omega

def optional (A : Account σ) : Account (Option σ) where
  keeps o := ∀ s ∈ o, A.keeps s
  charge o g := o.elim 0 (A.charge · g)

theorem keeps_none (A : Account σ) : A.optional.keeps none := fun s hs =>
  absurd hs (Option.not_mem_none s)

/-- Making an object charges what the object will charge, or nothing if it is not made. -/
def Opens (A : Account σ) (x : Act Unit σ) : Prop :=
  x.Leaves () fun r es _ => A.optional.Books none es r.toOption

/-- Giving an object up takes all back that it charges. -/
def Closes (A : Account σ) (closing : σ → List Event) : Prop :=
  ∀ s, (∀ g, A.charge s g < 2 ^ 63) → A.optional.Books (some s) (closing s) none

theorem Opens.ensure_bind {c : Prop} [Decidable c] {what : Violation} {f : Unit → Act Unit σ}
    (h : c → A.Opens (f ())) : A.Opens (Act.ensure c what >>= f) := by
  simp only [Opens, leaves_bind, leaves_ensure, List.nil_append]
  exact ⟨h, fun _ => A.optional.path.refl none⟩

theorem Opens.bind_pure {B : Account τ} {x : Act Unit τ} (h : B.Opens x) {part : σ → τ}
    {whole : τ → σ} (hpart : ∀ t, part (whole t) = t) :
    (B.on part).Opens (do return whole (← x)) := by
  refine (leaves_bind ..).mpr (Leaves.imp h fun r es _ hbooks => ?_)
  obtain ⟨hkeeps, hcharge, hmodest⟩ := hbooks B.keeps_none
  rcases r with fault | t
  · exact fun _ => ⟨(B.on part).keeps_none, hcharge, hmodest⟩
  · show (B.on part).optional.Books none (es ++ []) (some (whole t))
    rw [List.append_nil]
    refine fun _ => ⟨?_, fun g => ?_, hmodest⟩
    · rintro _ ⟨⟩
      show B.keeps _
      rw [hpart]
      exact hkeeps t rfl
    · show (B.charge (part (whole t)) g : Int) = _
      rw [hpart]
      exact hcharge g

theorem Books.failed {es : List Event} (hnet : ∀ g, Event.net g es = 0)
    (hmodest : ∀ e ∈ es, e.Modest) : A.optional.Books none es none := fun _ =>
  ⟨A.keeps_none, fun g => by rw [hnet g, Int.add_zero], hmodest⟩

theorem Books.made {es : List Event} (hkeeps : A.keeps s)
    (hnet : ∀ g, Event.net g es = A.charge s g) (hmodest : ∀ e ∈ es, e.Modest) :
    A.optional.Books none es (some s) := fun _ => by
  refine ⟨?_, fun g => ?_, hmodest⟩
  · rintro _ ⟨⟩
    exact hkeeps
  · rw [hnet g]
    exact (Int.zero_add _).symm

theorem Closes.net {closing : σ → List Event} (h : A.Closes closing) (hs : A.keeps s)
    (hlt : ∀ g, A.charge s g < 2 ^ 63) :
    (∀ g, Event.net g (closing s) = -(A.charge s g : Int)) ∧ ∀ e ∈ closing s, e.Modest := by
  obtain ⟨-, hcharge, hmodest⟩ := h s hlt (by
    rintro _ ⟨⟩
    exact hs)
  refine ⟨fun g => ?_, hmodest⟩
  have hg : (0 : Int) = A.charge s g + Event.net g (closing s) := hcharge g
  omega

theorem Opens.net {x : Act Unit σ} (h : A.Opens x) {es : List Event}
    (hrun : x.run () = ⟨.ok s, (), es⟩) :
    A.keeps s ∧ (∀ g, Event.net g es = A.charge s g) ∧ ∀ e ∈ es, e.Modest := by
  unfold Opens Leaves at h
  rw [hrun] at h
  obtain ⟨hkeeps, hcharge, hmodest⟩ := h A.keeps_none
  refine ⟨hkeeps s rfl, fun g => ?_, hmodest⟩
  have hg : (A.charge s g : Int) = 0 + Event.net g es := hcharge g
  omega

theorem Opens.net_error {x : Act Unit σ} (h : A.Opens x) {es : List Event} {fault : Fault}
    (hrun : x.run () = ⟨.error fault, (), es⟩) :
    (∀ g, Event.net g es = 0) ∧ ∀ e ∈ es, e.Modest := by
  unfold Opens Leaves at h
  rw [hrun] at h
  obtain ⟨-, hcharge, hmodest⟩ := h A.keeps_none
  refine ⟨fun g => ?_, hmodest⟩
  have hg : (0 : Int) = 0 + Event.net g es := hcharge g
  omega

theorem Closes.on {B : Account τ} {closing : τ → List Event} (h : B.Closes closing) (part : σ → τ) :
    (B.on part).Closes fun s => closing (part s) := fun s hlt hs => by
  obtain ⟨-, hcharge, hmodest⟩ := h (part s) hlt (by
    rintro _ ⟨⟩
    exact hs s rfl)
  exact ⟨(B.on part).keeps_none, hcharge, hmodest⟩

end Account

namespace Act

variable {σ τ α β : Type} {A : Account σ} {B : Account τ}

/-- Whatever becomes of `x`, its events come to the difference that it makes. -/
def Booked (A : Account σ) (x : Act σ α) : Prop := ∀ s, Traces A.Books x s

theorem booked_pure (a : α) : Booked A (pure a : Act σ α) := fun _ => traces_pure A.path a

theorem booked_fail (e : Fault) : Booked A (fail e : Act σ α) := fun _ => traces_fail A.path e

theorem booked_get : Booked A (get : Act σ σ) := fun s => A.path.refl s

theorem booked_ensure (c : Prop) [Decidable c] (what : Violation) :
    Booked A (ensure c what : Act σ Unit) := fun _ => traces_ensure A.path c what

theorem booked_note (n : Note) : Booked A (note n : Act σ Unit) := fun s => .note A s n

theorem booked_modify {f : σ → σ} (h : ∀ s, A.Books s [] (f s)) : Booked A (modify f) := h

theorem booked_ite {c : Prop} [Decidable c] {x y : Act σ α} (hx : Booked A x) (hy : Booked A y) :
    Booked A (if c then x else y) := fun s => traces_ite (hx s) (hy s)

theorem Booked.bind {x : Act σ α} {f : α → Act σ β} (h : Booked A x) (hf : ∀ a, Booked A (f a)) :
    Booked A (x >>= f) := fun s => (h s).bind A.path hf

theorem booked_checked (c : Prop) [Decidable c] (what : Violation) (a : α) :
    Booked A (do ensure c what; return a : Act σ α) :=
  (booked_ensure c what).bind fun _ => booked_pure a

theorem Booked.map {x : Act σ α} (h : Booked A x) (f : α → β) : Booked A (f <$> x) := h

theorem Booked.attempt {x : Act σ α} (h : Booked A x) : Booked A x.attempt := h

theorem booked_get_bind {f : σ → Act σ α} (h : ∀ s, Booked A (f s)) : Booked A (get >>= f) :=
  booked_get.bind h

theorem booked_sweep {f : Nat → Act σ Unit} (h : ∀ i, Booked A (f i)) (first count : Nat) :
    Booked A (sweep first count f) := by
  induction count generalizing first with
  | zero => exact booked_pure ()
  | succ n ih =>
    rw [sweep_succ]
    exact (h first).bind fun _ => ih (first + 1)

theorem Booked.focus {part : σ → τ} {replace : σ → τ → σ} {x : Act τ α} (h : Booked B x)
    (hin : ∀ s, A.keeps s → B.keeps (part s))
    (hout : ∀ s t, A.keeps s → B.keeps t → A.keeps (replace s t))
    (hcharge : ∀ s t g,
      A.charge (replace s t) g + B.charge (part s) g = A.charge s g + B.charge t g) :
    Booked A (focus part replace x) := fun s =>
  (h (part s)).part (hin s) (hout s _) fun _ => hcharge s _

theorem Booked.on {part : σ → τ} {replace : σ → τ → σ} {x : Act τ α} (h : Booked B x)
    (hpart : ∀ s t, part (replace s t) = t) : Booked (B.on part) (Act.focus part replace x) := by
  refine h.focus (fun _ => id) (fun s t _ ht => ?_) fun s t g => ?_
  · show B.keeps _
    rwa [hpart]
  · show B.charge (part (replace s t)) g + _ = _
    rw [hpart, Nat.add_comm]
    rfl

/-- Where `x` answers, its events come to the difference that it makes. -/
def Settled (A : Account σ) (x : Act σ α) : Prop :=
  ∀ s, x.Leaves s fun r es t => ∀ a, r = .ok a → A.Books s es t

theorem Booked.settled {x : Act σ α} (h : Booked A x) : Settled A x := fun s =>
  Leaves.imp (h s) fun _ _ _ hes _ _ => hes

theorem Settled.bind {x : Act σ α} {f : α → Act σ β} (h : Settled A x)
    (hf : ∀ a, Settled A (f a)) : Settled A (x >>= f) := fun s => by
  refine (leaves_bind ..).mpr ((h s).imp fun r es t hes => ?_)
  cases r with
  | error fault => exact fun b hb => by cases hb
  | ok a => exact (hf a t).imp fun _ _ _ hfs b hb => A.path.trans (hes a rfl) (hfs b hb)

theorem settled_ite {c : Prop} [Decidable c] {x y : Act σ α} (hx : c → Settled A x)
    (hy : ¬ c → Settled A y) : Settled A (if c then x else y) := by
  split
  · exact hx ‹_›
  · exact hy ‹_›

theorem booked_beside {part : σ → τ} {replace : σ → τ → σ} {x : Act τ α}
    (hquiet : ∀ s, (x.run s).events = []) (hsilent : ∀ s t, A.Books s [] (replace s t)) :
    Booked A (focus part replace x) := fun s => by
  rw [Traces, leaves_focus, Leaves, hquiet]
  exact hsilent s _

end Act

end SlotArena
