import SlotArena.Proofs.Overlook

/-!
Blocks of an arena, counted. Whatever was asked of an arena before, in whatever order and with
whatever success, a block begins where the sizes granted on its side add up to: an arena is two
counters (`blocks_counted`). Neither growth nor a move of the origin, a refusal or the other side
leaves a gap or an overlap, and no block ever leaves the window.
-/

namespace SlotArena.Arena

open Act

/-! ### Calls -/

def serve [Host] : (side : Side) → (size : Nat) → Act Arena Int
  | .front, size => alloc size
  | .back, size => allocBack size

/-- A request for a block, the host as it was then, and what was answered. -/
structure Call where
  host : Host
  side : Side
  size : Nat
  answer : Except Fault Int

def Call.grants (side : Side) (c : Call) : Nat :=
  if c.side = side ∧ c.answer.isOk then c.size else 0

def granted (side : Side) : (log : List Call) → Nat
  | [] => 0
  | c :: log => c.grants side + granted side log

/-- Where a block lies that comes right after `before` bytes on its side. -/
def blockAt : (side : Side) → (before size : Nat) → Int
  | .front, before, _ => before
  | .back, before, size => -((before + size : Nat) : Int)

def callOf [host : Host] (a : Arena) (side : Side) (size : Nat) : Call :=
  ⟨host, side, size, ((serve side size).run a).result⟩

/-- The arenas that a configuration leads to, with the calls that led there, the oldest first. None
of them broke a contract; any of them may have been refused, by the host too. -/
inductive History [made : Host] (config : ArenaConfig) : List Call → Arena → Prop
  | created {a : Arena} (h : ((create config).run ()).result = .ok a) : History config [] a
  | called {log : List Call} {a : Arena} (before : History config log a) [host : Host] (side : Side)
      (size : Nat) (keeps : ∀ what, (a.callOf side size).answer ≠ .error (.violated what)) :
      @History made config (log ++ [a.callOf side size]) ((serve side size).run a).state

@[simp] theorem granted_nil (side : Side) : granted side [] = 0 := rfl

@[simp] theorem granted_cons (side : Side) (c : Call) (log : List Call) :
    granted side (c :: log) = c.grants side + granted side log := rfl

@[simp] theorem granted_append (side : Side) (log log' : List Call) :
    granted side (log ++ log') = granted side log + granted side log' := by
  induction log with
  | nil => exact (Nat.zero_add _).symm
  | cons c log ih => rw [List.cons_append, granted_cons, ih, granted_cons, Nat.add_assoc]

theorem grants_ok {c : Call} {offset : Int} (h : c.answer = .ok offset) (side : Side) :
    c.grants side = if c.side = side then c.size else 0 := by
  rw [Call.grants, h]
  simp [Except.isOk, Except.toBool]

theorem grants_error {c : Call} {fault : Fault} (h : c.answer = .error fault) (side : Side) :
    c.grants side = 0 := by
  rw [Call.grants, h]
  exact if_neg fun hc => Bool.noConfusion hc.2

/-! ### One call -/

section

variable [Host] {a a' : Arena} {side : Side} {n : Nat}

/-- A call is a claim whose distance from the origin is turned into an offset. -/
theorem serve_eq (side : Side) (n : Nat) : serve side n = (do
    let distance ← claim side n
    if FitsSigned (blockAt side distance n) then return blockAt side distance n
    else Act.refuse (.outOfReservedSpace (distance + n) (2 ^ 31 - 1))) := by
  cases side with
  | front => rfl
  | back => rfl

/-- Why a claim has no answer: a contract was broken, or growth was refused, by the host or because
the size that it asks for does not fit one half of the extent. -/
def Unclaimed (a : Arena) (side : Side) (n : Nat) (fault : Fault) (a' : Arena) : Prop :=
  (∃ what, fault = .violated what) ∨
    ∃ why, fault = .refused why ∧ (a.cursor side).next + n < word32 ∧
      (a.cursor side).stop < (a.cursor side).next + n ∧
        a.Refused (a.window.extent.back < (a.asking side n).wanted ∨
          a.window.extent.front < (a.asking side n).wanted) why a'

theorem claim_meets_any (h : a.Sound) (side : Side) (n : Nat) :
    (claim side n).Meets a
      (fun distance a' => distance = (a.cursor side).next ∧ 0 < n ∧ a.Claimed side n a')
      (a.Unclaimed side n) := by
  by_cases hn : AdmitsBlock n
  · by_cases hword : (a.cursor side).next + n < word32
    · refine (claim_meets h side hn hword).on_refusal (fun _ _ hres => ⟨hres.1, hn.1, hres.2⟩) ?_
      exact fun why a' ⟨hover, hrefused⟩ => Or.inr ⟨why, rfl, hword, hover, hrefused⟩
    · simp [claim, Cursor.claim, Cursor.reserve, meets_focus, meets_ensure, hn, hword, Unclaimed]
  · simp [claim, meets_ensure, hn, Unclaimed]

omit [Host] in
theorem Claimed.fits (h : a.Claimed side n a') (hn : 0 < n) :
    FitsSigned (blockAt side (a.cursor side).next n) := by
  have hnext := h.next
  have hhalf := h.sound.next_le_half side
  cases side with
  | front =>
    simp only [blockAt, FitsSigned, signed32]
    omega
  | back =>
    simp only [blockAt, FitsSigned, signed32]
    omega

/-- What a call comes to: the block right after those before it, or what the claim failed with. -/
theorem serve_meets (h : a.Sound) (side : Side) (n : Nat) :
    (serve side n).Meets a
      (fun offset a' => offset = blockAt side (a.cursor side).next n ∧ 0 < n ∧
        a.Claimed side n a')
      (a.Unclaimed side n) := by
  rw [serve_eq, meets_bind]
  apply (claim_meets_any h side n).imp
  intro distance a' hres
  obtain ⟨rfl, hn, hclaimed⟩ := hres
  rw [if_pos (hclaimed.fits hn), meets_pure]
  exact ⟨rfl, hn, hclaimed⟩

end

/-! ### All calls -/

/-- What is known of an arena that some calls led to. -/
structure Counted (config : ArenaConfig) (log : List Call) (a : Arena) : Prop where
  sound : a.Sound
  admits : AdmitsExtent config.extent
  extent : a.window.extent = .centered config.extent
  size : PowerOfTwo a.size
  forward : a.Forward
  next : ∀ side, (a.cursor side).next = granted side log
  block : ∀ earlier c later offset, log = earlier ++ c :: later → c.answer = .ok offset →
    offset = blockAt c.side (granted c.side earlier) c.size

theorem Created.counted {config : ArenaConfig} {a : Arena} (h : Created config a) :
    Counted config [] a where
  sound := h.sound
  admits := h.admits
  extent := h.extent
  size := h.size
  forward := h.forward
  next := h.next
  block earlier c later offset hlog := by simp at hlog

theorem append_singleton_eq {log earlier later : List Call} {c c' : Call}
    (h : log ++ [c] = earlier ++ c' :: later) :
    (later = [] ∧ earlier = log ∧ c' = c) ∨ ∃ rest, log = earlier ++ c' :: rest := by
  rcases List.eq_nil_or_concat later with rfl | ⟨rest, last, rfl⟩
  · obtain ⟨hearlier, hc⟩ := List.append_inj' h rfl
    exact Or.inl ⟨rfl, hearlier.symm, (List.cons.inj hc).1.symm⟩
  · right
    rw [List.concat_eq_append, ← List.cons_append, ← List.append_assoc] at h
    exact ⟨rest, (List.append_inj' h rfl).1⟩

theorem Counted.served {config : ArenaConfig} {log : List Call} {a a' : Arena}
    (h : Counted config log a) {host : Host} {side : Side} {n : Nat} {answer : Except Fault Int}
    {offset : Int} (hanswer : answer = .ok offset)
    (hoffset : offset = blockAt side (a.cursor side).next n) (hclaimed : a.Claimed side n a') :
    Counted config (log ++ [⟨host, side, n, answer⟩]) a' where
  sound := hclaimed.sound
  admits := h.admits
  extent := hclaimed.extends_window.extent.trans h.extent
  size := by
    obtain ⟨k, hk⟩ := hclaimed.doubled
    obtain ⟨j, hj⟩ := powerOfTwo_iff.mp h.size
    rw [hk, hj, ← Nat.pow_add]
    exact powerOfTwo_pow _
  forward := hclaimed.forward h.forward
  next other := by
    have hcall : granted other [⟨host, side, n, answer⟩] = if side = other then n else 0 :=
      (Nat.add_zero _).trans (grants_ok hanswer other)
    rw [granted_append, hcall, ← h.next other]
    by_cases hsame : side = other
    · subst hsame
      rw [if_pos rfl, hclaimed.next]
    · rw [if_neg hsame, Nat.add_zero, hclaimed.other other (Ne.symm hsame)]
  block earlier c later offset' hlog hc := by
    rcases append_singleton_eq hlog with ⟨-, rfl, rfl⟩ | ⟨rest, hrest⟩
    · obtain rfl : offset = offset' := Except.ok.inj (hanswer.symm.trans hc)
      rw [← h.next]
      exact hoffset
    · exact h.block earlier c rest offset' hrest hc

theorem Counted.refused {config : ArenaConfig} {log : List Call} {a a' : Arena}
    (h : Counted config log a) {c : Call} {fault : Fault} (hanswer : c.answer = .error fault)
    (hnear : a.Near a') : Counted config (log ++ [c]) a' := by
  have hsound := hnear.sound h.sound
  have hnext : ∀ other, (a'.cursor other).next = granted other (log ++ [c]) := by
    intro other
    have hcall : granted other [c] = 0 := (Nat.add_zero _).trans (grants_error hanswer other)
    rw [granted_append, hcall, ← hnear.cursor other]
    exact h.next other
  obtain ⟨⟨-⟩⟩ := hnear
  refine ⟨hsound, h.admits, h.extent, h.size, h.forward, hnext,
    fun earlier c' later offset hlog hc => ?_⟩
  rcases append_singleton_eq hlog with ⟨-, -, rfl⟩ | ⟨rest, hrest⟩
  · exact absurd (hanswer.symm.trans hc) (by simp)
  · exact h.block earlier c' rest offset hrest hc

theorem History.counted {made : Host} {config : ArenaConfig} {log : List Call} {a : Arena}
    (h : History config log a) : Counted config log a := by
  induction h with
  | created h => exact ((create_meets config).of_ok h).counted
  | @called log a _ _ side n keeps ih =>
    have hserve := serve_meets ih.sound side n
    cases hanswer : (a.callOf side n).answer with
    | ok offset =>
      obtain ⟨hoffset, -, hclaimed⟩ := hserve.of_ok hanswer
      exact ih.served hanswer hoffset hclaimed
    | error fault =>
      rcases hserve.of_error hanswer with ⟨what, rfl⟩ | ⟨why, -, -, -, hrefused⟩
      · exact absurd hanswer (keeps what)
      · exact ih.refused hanswer hrefused.near

theorem History.answered {made : Host} {config : ArenaConfig} {log : List Call} {a a' : Arena}
    (h : History config log a) [host : Host] {side : Side} {n : Nat} {answer : Except Fault Int}
    (hanswer : ((serve side n).run a).result = answer)
    (hstate : a' = ((serve side n).run a).state)
    (hkeeps : ∀ what, answer ≠ .error (.violated what)) :
    @History made config (log ++ [⟨host, side, n, answer⟩]) a' := by
  subst hanswer hstate
  exact @History.called made config log a h host side n hkeeps

theorem Counted.used {config : ArenaConfig} {log : List Call} {a : Arena}
    (h : Counted config log a) (side : Side) : (a.cursor side).used = granted side log := by
  rw [Cursor.used, Nat.min_eq_left (h.sound.next_le side), h.next]

theorem Counted.inside {config : ArenaConfig} {log : List Call} {a : Arena}
    (h : Counted config log a) {c : Call} (hc : c ∈ log) {offset : Int}
    (hanswer : c.answer = .ok offset) :
    -(a.center : Int) ≤ offset ∧ offset + c.size ≤ (a.size : Int) - a.center := by
  obtain ⟨earlier, later, hlog⟩ := List.append_of_mem hc
  have hoffset := h.block earlier c later offset hlog hanswer
  have hgrants := grants_ok hanswer c.side
  rw [if_pos rfl] at hgrants
  have hnext : granted c.side earlier + c.size ≤ (a.cursor c.side).next := by
    have hall := h.next c.side
    rw [hlog, granted_append, granted_cons, hgrants] at hall
    omega
  have hreach := Nat.le_trans hnext (h.sound.next_le_reach c.side)
  have hcenter := h.sound.window.center_le_size
  generalize granted c.side earlier = before at *
  generalize c.size = n at *
  generalize c.side = side at *
  cases side with
  | front =>
    simp only [blockAt] at hoffset
    simp only [reach] at hreach
    simp only [Arena.size, Arena.center] at hreach ⊢
    omega
  | back =>
    simp only [blockAt] at hoffset
    simp only [reach] at hreach
    simp only [Arena.size, Arena.center] at hreach ⊢
    omega

/-- An arena is two counters. Each side has used the sum of what it granted; a block at the front
begins at the sum of the blocks granted there before, one at the back ends at the negative of that
sum; blocks stay inside the window; and a claim that succeeds always has an offset. -/
theorem blocks_counted [Host] {config : ArenaConfig} {log : List Call} {a : Arena}
    (h : History config log a) :
    a.frontUsed = granted .front log ∧ a.backUsed = granted .back log ∧
      (∀ earlier host size later (offset : Int),
        log = earlier ++ ⟨host, .front, size, .ok offset⟩ :: later →
          offset = granted .front earlier) ∧
      (∀ earlier host size later (offset : Int),
        log = earlier ++ ⟨host, .back, size, .ok offset⟩ :: later →
          offset = -((granted .back earlier + size : Nat) : Int)) ∧
      (∀ c ∈ log, ∀ offset, c.answer = .ok offset →
        -(a.center : Int) ≤ offset ∧ offset + c.size ≤ (a.size : Int) - a.center) ∧
      (∀ [Host] size distance, ((claim .front size).run a).result = .ok distance →
        FitsSigned distance) ∧
      (∀ [Host] size distance, ((claim .back size).run a).result = .ok distance →
        FitsSigned (-((distance + size : Nat) : Int))) := by
  have hcounted := h.counted
  have hfits : ∀ [Host] side size distance, ((claim side size).run a).result = .ok distance →
      FitsSigned (blockAt side distance size) := by
    intro _ side size distance hclaim
    obtain ⟨rfl, hsize, hclaimed⟩ := (claim_meets_any hcounted.sound side size).of_ok hclaim
    exact hclaimed.fits hsize
  refine ⟨hcounted.used .front, hcounted.used .back, ?_, ?_, ?_, hfits .front, hfits .back⟩
  · intro earlier host size later offset hlog
    exact hcounted.block earlier _ later offset hlog rfl
  · intro earlier host size later offset hlog
    exact hcounted.block earlier _ later offset hlog rfl
  · intro c hc offset hanswer
    exact hcounted.inside hc hanswer

section

attribute [local instance] Host.plain

/-- Blocks on both sides: the second one moves the origin, the third does not fit, and the fourth
comes right after the first all the same. -/
theorem blocks_counted_of_both_sides : ∃ log a, History ⟨4096, 65536, .remap⟩ log a ∧
    log.map Call.answer = [.ok 0, .ok (-1000), .error (.refused (.outOfReservedSpace 126976 32768)),
      .ok 4096] ∧
    a.frontUsed = 12288 ∧ a.backUsed = 1000 ∧ a.center = 4096 ∧ a.size = 16384 := by
  have hrun : ∃ a₀ a₁ a₂ a₃ a₄, ((create ⟨4096, 65536, .remap⟩).run ()).result = .ok a₀ ∧
      a₁ = ((serve .front 4096).run a₀).state ∧ a₂ = ((serve .back 1000).run a₁).state ∧
      a₃ = ((serve .front 100000).run a₂).state ∧ a₄ = ((serve .front 8192).run a₃).state ∧
      ((serve .front 4096).run a₀).result = .ok 0 ∧
      ((serve .back 1000).run a₁).result = .ok (-1000) ∧
      ((serve .front 100000).run a₂).result =
        .error (.refused (.outOfReservedSpace 126976 32768)) ∧
      ((serve .front 8192).run a₃).result = .ok 4096 ∧ a₄.center = 4096 ∧ a₄.size = 16384 := by
    refine ⟨_, _, _, _, _, rfl, rfl, rfl, rfl, rfl, ?_⟩
    decide +kernel
  obtain ⟨a₀, a₁, a₂, a₃, a₄, hcreate, ha₁, ha₂, ha₃, ha₄, h₁, h₂, h₃, h₄, hcenter, hsize⟩ := hrun
  have hhistory := ((((History.created hcreate).answered h₁ ha₁ (by simp)).answered h₂ ha₂
    (by simp)).answered h₃ ha₃ (by simp)).answered h₄ ha₄ (by simp)
  obtain ⟨hfront, hback, -⟩ := blocks_counted hhistory
  exact ⟨_, a₄, hhistory, rfl, hfront, hback, hcenter, hsize⟩

end

end SlotArena.Arena
