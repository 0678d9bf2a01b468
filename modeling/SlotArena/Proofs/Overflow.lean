import SlotArena.Proofs.Roster
import SlotArena.Proofs.Shape

/-!
When a claim overflows its cursor. The addition is done before anybody checks whether there is
space, so it is the size of the requests that has to keep the lower half of a cursor from
overflowing. That is not quite enough (`claims_overflow_iff`): an arena of the largest extent with
all of a half used overflows on a block as large as that half, and a roster overflows on any count
that takes its length to 2^32. Everything else is answered, or refused with the cursor as it was.
-/

namespace SlotArena

open Act

/-- From `s` on, `x` overflows a cursor exactly where `c` holds; otherwise it answers, or it refuses
as `refused` says. -/
def Act.OverflowsIff {σ α : Type} (x : Act σ α) (s : σ) (c : Prop) (refused : Refusal → σ → Prop) :
    Prop :=
  ((x.run s).result = .error (.violated .cursorOverflow) ↔ c) ∧
    (¬ c → (∃ a, (x.run s).result = .ok a) ∨
      ∃ why, (x.run s).result = .error (.refused why) ∧ refused why (x.run s).state)

section

variable {σ α : Type} {x : Act σ α} {s : σ} {c : Prop} {refused : Refusal → σ → Prop}

theorem overflowsIff_of_meets
    (hover : c → x.Meets s (fun _ _ => False) fun e _ => e = .violated .cursorOverflow)
    (hmeets : ¬ c → x.Meets s (fun _ _ => True) (refusing refused)) :
    x.OverflowsIff s c refused := by
  unfold OverflowsIff
  cases hresult : (x.run s).result with
  | ok a =>
    have hc : ¬ c := fun hc => (hover hc).of_ok hresult
    exact ⟨⟨nofun, fun h => absurd h hc⟩, fun _ => Or.inl ⟨a, rfl⟩⟩
  | error fault =>
    by_cases hc : c
    · obtain rfl := (hover hc).of_error hresult
      exact ⟨⟨fun _ => hc, fun _ => rfl⟩, fun h => absurd hc h⟩
    · obtain ⟨why, rfl, hrefused⟩ := exists_refusal ((hmeets hc).of_error hresult)
      exact ⟨⟨nofun, fun h => absurd h hc⟩, fun _ => Or.inr ⟨why, rfl, hrefused⟩⟩

/-- A claim that takes the cursor past its lower half is broken off, whatever could be grown. -/
theorem Cursor.claim_overflows {part : σ → Cursor} {replace : σ → Cursor → σ} {grow : Act σ Nat}
    {amount : Nat} (h : word32 ≤ (part s).next + amount) :
    (claim part replace grow amount).Meets s (fun _ _ => False)
      fun e _ => e = .violated .cursorOverflow := by
  simp only [claim, reserve, meets_bind, meets_focus, meets_get, meets_set, meets_ensure]
  exact ⟨fun hlt => absurd hlt (Nat.not_lt.mpr h), fun _ => trivial⟩

end

/-! ### Arenas -/

namespace Arena

variable {config : ArenaConfig} {log : List Call} {a : Arena} {side : Side} {n : Nat}

theorem serve_overflows [Host] (hn : AdmitsBlock n) (h : word32 ≤ (a.cursor side).next + n) :
    (serve side n).Meets a (fun _ _ => False) fun e _ => e = .violated .cursorOverflow := by
  have hclaim : (Cursor.claim (·.cursor side) (withCursor side) (grow side) n).Meets a
      (fun _ _ => False) fun e _ => e = .violated .cursorOverflow := Cursor.claim_overflows h
  rw [serve_eq, claim, meets_bind, meets_bind, meets_ensure]
  exact ⟨fun _ => hclaim.imp fun _ _ => False.elim, fun h => absurd hn h⟩

theorem serve_meets_word [Host] (h : a.Sound) (hn : AdmitsBlock n)
    (hword : (a.cursor side).next + n < word32) :
    (serve side n).Meets a (fun _ _ => True) (refusing (a.Refused True)) := by
  cases side with
  | front => exact (alloc_meets h hn hword).mono (fun _ _ _ => trivial) fun _ _ => id
  | back => exact (allocBack_meets h hn hword).mono (fun _ _ _ => trivial) fun _ _ => id

/-- Two halves fill a word only if both of them are full. -/
theorem Counted.overflowsIff [Host] (h : Counted config log a) (hn : AdmitsBlock n) :
    (serve side n).OverflowsIff a
      (config.extent = largestExtent ∧ (a.cursor side).used = 2 ^ 31 ∧ n = 2 ^ 31)
      (a.Refused True) := by
  have hused : (a.cursor side).used = (a.cursor side).next := Nat.min_eq_left (h.sound.next_le side)
  have hhalf : (a.cursor side).next ≤ config.extent / 2 :=
    Nat.le_trans (h.sound.next_le_reach side) (h.reach_le_half side)
  have hextent : config.extent ≤ largestExtent := h.admits.2.2
  have hblock : n ≤ largestExtent / 2 := hn.2
  have hfull : word32 ≤ (a.cursor side).next + n ↔
      config.extent = largestExtent ∧ (a.cursor side).used = 2 ^ 31 ∧ n = 2 ^ 31 := by
    rw [hused]
    simp only [largestExtent, word32] at hextent hblock ⊢
    omega
  rw [← hfull]
  exact overflowsIff_of_meets (serve_overflows hn) fun hword =>
    serve_meets_word h.sound hn (Nat.not_le.mp hword)

end Arena

/-! ### Rosters -/

namespace Roster

/-- The rosters that additions lead to. None of them broke a contract; any may have been refused. -/
inductive History (initial capacity : Nat) (strategy : Strategy) : Roster → Prop
  | created [Host] {r : Roster} (h : ((create initial capacity strategy).run ()).result = .ok r) :
      History initial capacity strategy r
  | called [Host] {r : Roster} (before : History initial capacity strategy r) (count : Nat)
      (keeps : ∀ what, ((add count).run r).result ≠ .error (.violated what)) :
      History initial capacity strategy ((add count).run r).state

variable {r : Roster} {count : Nat}

theorem add_overflows [Host] (hcount : 0 < count) (h : word32 ≤ r.cursor.next + count) :
    (add count).Meets r (fun _ _ => False) fun e _ => e = .violated .cursorOverflow := by
  rw [add, meets_bind, meets_ensure]
  refine ⟨fun _ => (meets_bind ..).mpr ?_, fun h => absurd hcount h⟩
  exact (Cursor.claim_overflows h).imp fun _ _ => False.elim

theorem Sound.overflowsIff [Host] (h : r.Sound) (hcount : 0 < count) :
    (add count).OverflowsIff r (word32 ≤ r.length + count) (r.Refused (r.length + count)) := by
  refine overflowsIff_of_meets (fun hword => add_overflows hcount (h.length_eq ▸ hword)) ?_
  intro hword
  exact (add_meets h hcount (Nat.not_le.mp hword)).mono (fun _ _ _ => trivial) fun _ _ => id

/-- Whatever is added, a roster stays sound unless a contract was broken. -/
theorem add_meets_any [Host] (h : r.Sound) (count : Nat) :
    (add count).Meets r (fun _ r' => r'.Sound)
      fun e r' => (∃ what, e = .violated what) ∨ r'.Sound := by
  by_cases hcount : 0 < count
  · by_cases hword : r.length + count < word32
    · refine (add_meets h hcount hword).weaken (fun _ _ hr => hr.2.sound) fun e r' hr => ?_
      obtain ⟨why, -, hrefused⟩ := exists_refusal hr
      exact Or.inr (hrefused.sound h)
    · refine (add_overflows hcount ?_).weaken (fun _ _ => False.elim) fun e _ he => Or.inl ⟨_, he⟩
      exact h.length_eq ▸ Nat.not_lt.mp hword
  · rw [add, meets_bind, meets_ensure]
    exact ⟨fun h => absurd h hcount, fun _ => Or.inl ⟨_, rfl⟩⟩

theorem History.sound {initial capacity : Nat} {strategy : Strategy}
    (h : History initial capacity strategy r) : r.Sound := by
  induction h with
  | created h => exact ((create_meets ..).of_ok h).1
  | @called _ r _ count keeps ih =>
    have hadd := add_meets_any ih count
    cases hresult : ((add count).run r).result with
    | ok first => exact hadd.of_ok hresult
    | error fault =>
      rcases hadd.of_error hresult with ⟨what, rfl⟩ | hsound
      · exact absurd hresult (keeps what)
      · exact hsound

end Roster

/-- A claim of `n` bytes that an arena admits overflows a cursor only where they and what their side
has used are halves of the largest extent, and a claim of `n` records overflows it only where they
take the length past a word. Everything else is answered, or it is refused: for want of space with
nothing changed, and by the host with no more than a piece committed for nothing. The host of the
claim need not be the one that the arena was `made` with. -/
theorem claims_overflow_iff [made : Host] [Host] (n : Nat) :
    (∀ config log a side, @Arena.History made config log a → Arena.AdmitsBlock n →
      (Arena.serve side n).OverflowsIff a
        (config.extent = Arena.largestExtent ∧ (a.cursor side).used = 2 ^ 31 ∧ n = 2 ^ 31)
        (a.Refused True)) ∧
    ∀ initial capacity strategy r, Roster.History initial capacity strategy r → 0 < n →
      (Roster.add n).OverflowsIff r (word32 ≤ r.length + n) (r.Refused (r.length + n)) := by
  refine ⟨?_, ?_⟩
  · intro config log a side h hn
    exact h.counted.overflowsIff hn
  · intro initial capacity strategy r h hn
    exact h.sound.overflowsIff hn

section

attribute [local instance] Host.plain

/-- A front that is full to its half of the largest extent. -/
theorem Arena.exists_full : ∃ log a, Arena.History ⟨2 ^ 31, 2 ^ 32, .remap⟩ log a ∧
    a.frontUsed = 2 ^ 31 := by
  have hrun : ∃ a₀ a₁, ((create ⟨2 ^ 31, 2 ^ 32, .remap⟩).run ()).result = .ok a₀ ∧
      a₁ = ((serve .front (2 ^ 31)).run a₀).state ∧
      ((serve .front (2 ^ 31)).run a₀).result = .ok 0 ∧ a₁.frontUsed = 2 ^ 31 := by
    refine ⟨_, _, rfl, rfl, ?_⟩
    decide +kernel
  obtain ⟨a₀, a₁, hcreate, ha₁, h₁, hused⟩ := hrun
  exact ⟨_, a₁, (History.created hcreate).answered h₁ ha₁ (by simp), hused⟩

theorem Roster.exists_of_one : ∃ r, Roster.History 1 4 .pinned r ∧ r.length = 1 := by
  have hrun : ∃ r₀ r₁, ((create 1 4 .pinned).run ()).result = .ok r₀ ∧
      r₁ = ((add 1).run r₀).state ∧ ((add 1).run r₀).result = .ok 0 ∧ r₁.length = 1 := by
    refine ⟨_, _, rfl, rfl, ?_⟩
    decide +kernel
  obtain ⟨r₀, r₁, hcreate, hr₁, h₁, hlength⟩ := hrun
  refine ⟨r₁, ?_, hlength⟩
  rw [hr₁]
  exact .called (.created hcreate) 1 (by simp [h₁])

/-- The full front overflows on one more half but not on a byte less, and the roster on the largest
count there is but not on a record less. -/
theorem claims_overflow_iff_of_full :
    (∃ log a, Arena.History ⟨2 ^ 31, 2 ^ 32, .remap⟩ log a ∧
      ((Arena.serve .front (2 ^ 31)).run a).result = .error (.violated .cursorOverflow) ∧
      ((Arena.serve .front (2 ^ 31 - 1)).run a).result ≠ .error (.violated .cursorOverflow)) ∧
    ∃ r, Roster.History 1 4 .pinned r ∧
      ((Roster.add (2 ^ 32 - 1)).run r).result = .error (.violated .cursorOverflow) ∧
      ((Roster.add (2 ^ 32 - 2)).run r).result ≠ .error (.violated .cursorOverflow) := by
  refine ⟨?_, ?_⟩
  · obtain ⟨log, a, hhistory, hused⟩ := Arena.exists_full
    have hat := ((claims_overflow_iff (2 ^ 31)).1 _ log a .front hhistory (by decide)).1
    have hbelow := ((claims_overflow_iff (2 ^ 31 - 1)).1 _ log a .front hhistory (by decide)).1
    exact ⟨log, a, hhistory, hat.mpr ⟨rfl, hused, rfl⟩,
      fun hover => absurd (hbelow.mp hover).2.2 (by decide)⟩
  · obtain ⟨r, hhistory, hlength⟩ := Roster.exists_of_one
    have hat := ((claims_overflow_iff (2 ^ 32 - 1)).2 _ _ _ r hhistory (by decide)).1
    have hbelow := ((claims_overflow_iff (2 ^ 32 - 2)).2 _ _ _ r hhistory (by decide)).1
    rw [hlength] at hat hbelow
    exact ⟨r, hhistory, hat.mpr (by decide), fun hover => absurd (hbelow.mp hover) (by decide)⟩

/-- A block that an arena admits and records that a roster has no room for, neither of which is
refused. -/
theorem overflows_on_admitted :
    (∃ log a, Arena.History ⟨2 ^ 31, 2 ^ 32, .remap⟩ log a ∧ Arena.AdmitsBlock (2 ^ 31) ∧
      ((Arena.alloc (2 ^ 31)).run a).result = .error (.violated .cursorOverflow)) ∧
    ∃ r, Roster.History 1 4 .pinned r ∧
      ((Roster.add (2 ^ 32 - 1)).run r).result = .error (.violated .cursorOverflow) := by
  refine ⟨?_, ?_⟩
  · obtain ⟨log, a, hhistory, hused⟩ := Arena.exists_full
    have hadmits : Arena.AdmitsBlock (2 ^ 31) := by decide
    have hover : (Arena.serve .front (2 ^ 31)).OverflowsIff a _ _ :=
      hhistory.counted.overflowsIff hadmits
    exact ⟨log, a, hhistory, hadmits, hover.1.mpr ⟨rfl, hused, rfl⟩⟩
  · obtain ⟨r, hhistory, hlength⟩ := Roster.exists_of_one
    have hover : (Roster.add (2 ^ 32 - 1)).OverflowsIff r _ _ :=
      hhistory.sound.overflowsIff (by decide)
    exact ⟨r, hhistory, hover.1.mpr (by rw [hlength]; decide)⟩

end

end SlotArena
