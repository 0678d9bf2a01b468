import SlotArena.Proofs.Meets
import SlotArena.Cursor

/-!
Claims on a cursor by one claimant. Nobody else is there to leave a cursor past its end, so a claim
never waits; and a growth that succeeds reaches the claim, so a claim grows once at most.
-/

namespace SlotArena.Cursor

open Act

variable {σ : Type}

/-- One growth is enough if it reaches the claim. -/
theorem growUntil_meets {grow : Act σ Nat} {next stop : Nat} {s : σ} {good : Nat → σ → Prop}
    {r : Refusal → σ → Prop} (h : stop < next)
    (hgrow : grow.Meets s (fun stop' t => next ≤ stop' ∧ good stop' t) (refusing r)) :
    (growUntil grow next (next + 1) stop).Meets s good (refusing r) := by
  obtain ⟨fuel, rfl⟩ : ∃ fuel, next = fuel + 1 := ⟨next - 1, by omega⟩
  rw [growUntil, if_pos h]
  refine hgrow.bind (fun stop' t ht => ?_) fun _ _ => id
  rw [growUntil, if_neg (Nat.not_lt.mpr ht.1), meets_pure]
  exact ht.2

theorem claim_meets {part : σ → Cursor} {replace : σ → Cursor → σ} {grow : Act σ Nat}
    {amount : Nat} {s : σ} {good : Nat → σ → Prop} {r : Refusal → σ → Prop} {c : Cursor}
    (hc : part s = c) (hle : c.next ≤ c.stop) (hword : c.next + amount < word32)
    (hfits : c.next + amount ≤ c.stop → good c.next (replace s ⟨c.next + amount, c.stop⟩))
    (hgrow : c.stop < c.next + amount →
      grow.Meets (replace s ⟨c.next + amount, c.stop⟩)
        (fun stop t => c.next + amount ≤ stop ∧ good c.next (replace t ⟨c.next + amount, stop⟩))
        (refusing fun why t => r why (replace t c))) :
    (claim part replace grow amount).Meets s good (refusing r) := by
  simp only [claim, reserve, meets_bind, meets_focus_refusing, meets_get, meets_set,
    meets_ensure_refusing, meets_pure, hc, bump_of_lt hword]
  refine ⟨hword, ?_⟩
  by_cases h : c.next + amount ≤ c.stop
  · rw [verdict_eq_fits.mpr ⟨h, rfl⟩]
    exact hfits h
  · rw [Nat.not_le] at h
    rw [verdict_eq_mustGrow.mpr ⟨h, hle, rfl⟩]
    refine (meets_bind ..).mpr (Meets.attempt (growUntil_meets h ?_))
    refine (hgrow h).mono (fun stop t ht => ⟨ht.1, ?_⟩) fun why t ht => ?_
    · simp only [publish, meets_bind, meets_focus_refusing, meets_get, meets_set, meets_pure]
      exact ht.2
    · simp only [publish, meets_bind, meets_focus_refusing, meets_get, meets_set, meets_pure,
        meets_refuse, refusing_refused]
      exact ht

end SlotArena.Cursor
