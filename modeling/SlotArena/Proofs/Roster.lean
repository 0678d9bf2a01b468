import SlotArena.Proofs.Claim
import SlotArena.Proofs.Window
import SlotArena.Roster

/-!
Rosters. `Sound` is what a roster keeps; the records that were added are exactly those below its
cursor, and they lie inside its window (`Sound.filled_inside`). Records are added as long as the
capacity allows and not a single one longer (`add_meets`), and a refused addition leaves the roster
as it was, but for a piece that was committed for nothing (`Refused`).
-/

namespace SlotArena.Roster

open Act

structure Sound (r : Roster) : Prop where
  window : r.window.Sound
  back_eq : r.window.extent.back = 0
  front_eq : r.window.extent.front = roundUp (r.capacity * recordBytes) pageSize
  capacity_lt : r.capacity < noIndex
  next_le : r.cursor.next ≤ r.cursor.stop
  stop_eq : r.cursor.stop = r.mapped
  filled_eq : r.records.filled = r.cursor.next

theorem Sound.length_eq {r : Roster} (h : r.Sound) : r.length = r.cursor.next :=
  Nat.min_eq_left h.next_le

theorem Sound.length_le_capacity {r : Roster} (h : r.Sound) : r.length ≤ r.capacity := by
  have hnext := h.next_le
  rw [h.stop_eq, mapped, recordsIn] at hnext
  rw [h.length_eq]
  omega

theorem Sound.inside {r : Roster} (h : r.Sound) {i : Nat} (hi : i < r.length) :
    (i + 1) * recordBytes ≤ r.window.size := by
  have hnext := h.next_le
  rw [h.stop_eq, mapped, recordsIn] at hnext
  rw [h.length_eq] at hi
  simp only [recordBytes] at hnext ⊢
  omega

/-- The window has room for all records that were started. -/
theorem Sound.filled_inside {r : Roster} (h : r.Sound) :
    r.records.filled * recordBytes ≤ r.window.size := by
  rw [h.filled_eq, ← h.length_eq]
  rcases Nat.eq_zero_or_pos r.length with hzero | hpos
  · rw [hzero, Nat.zero_mul]
    exact Nat.zero_le _
  · have hlast := h.inside (Nat.sub_lt hpos Nat.one_pos)
    rwa [Nat.sub_add_cancel hpos] at hlast

/-! ### Growing -/

/-- What a roster that is refused is left as: as it was where `wanted` records are too many for it,
and with a piece more committed for nothing, at most, where the host declines; it is not asked for
more than the capacity. -/
inductive Refused [Host] (r : Roster) (wanted : Nat) : Refusal → Roster → Prop
  | full (h : r.capacity < wanted) : r.Refused wanted (.outOfTableSpace wanted r.capacity) r
  | host (why : HostError) (mean : ¬ Host.Generous) (room : wanted ≤ r.capacity) {b : Backing}
      (stayed : Window.Stayed r.window.backing b) :
      r.Refused wanted (.growth why) { r with window := { r.window with backing := b } }

theorem widen_meets [Host] {r : Roster} (hw : r.window.Sound) (hcenter : r.window.center = 0)
    {size : Nat} (hpage : pageSize ∣ size) (hroom : size ≤ r.window.extent.front) :
    (widen size).Meets r
      (fun _ r' => ∃ w, r' = { r with window := w } ∧ w.Sound ∧ r.window.Extends w ∧
        w.size = max r.window.size size)
      (refusing fun why r' => ∃ w, r' = { r with window := w } ∧
        r.window.Refused False why w) := by
  simp only [widen, meets_bind, meets_get, meets_ite, meets_pure]
  refine ⟨fun hlt => ?_, fun hge => ⟨r.window, rfl, hw, .refl _, ?_⟩⟩
  · have hcs := hw.center_le_size
    have hexpand := Window.expandRange_meets hw (Nat.le_refl _) (by omega : r.window.center ≤ size)
      (Nat.sub_le_sub_right (Nat.le_of_lt hlt) _) ⟨hw.page_dvd_center, hpage⟩
    simp only [onWindow, meets_focus_refusing, Window.expandTo, meets_bind, meets_get, meets_note]
    refine hexpand.mono ?_ ?_
    · intro _ w hres
      obtain ⟨hw', hext, -, hsize⟩ := hres
      exact ⟨w, rfl, hw', hext, by omega⟩
    · intro why w hrefused
      refine ⟨w, rfl, hrefused.mono ?_⟩
      rintro (h | h)
      · exact absurd hw.center_le_back (Nat.not_le.mpr h)
      · omega
  · rw [Nat.max_eq_left (Nat.not_lt.mp hge)]

/-- A roster with room for all that was claimed answers so, one that is too small for it refuses. -/
theorem settle_meets {r : Roster} (n : Nat) (exhausted : Refusal) :
    (settle (n * recordBytes) exhausted).Meets r
      (fun room r' => r' = r ∧ room = r.mapped ∧ n ≤ room)
      (refusing fun why r' => r' = r ∧ why = exhausted ∧ r.mapped < n) := by
  have hmul : r.mapped * recordBytes < n * recordBytes ↔ r.mapped < n :=
    Nat.mul_lt_mul_right (by decide)
  simp only [settle, meets_bind, meets_get, meets_ite, meets_refuse, refusing_refused, meets_pure,
    hmul, true_and]
  exact ⟨id, Nat.not_lt.mp⟩

/-- Growth of the window, whatever the cursor holds: it reaches what is claimed, unless that is more
than the capacity or the host declines. -/
theorem grow_meets [Host] {r : Roster} (hw : r.window.Sound) (hback : r.window.extent.back = 0)
    (hfront : r.window.extent.front = roundUp (r.capacity * recordBytes) pageSize) :
    grow.Meets r
      (fun room r' => ∃ w, r' = { r with window := w } ∧ w.Sound ∧ r.window.Extends w ∧
        room = r'.mapped ∧ r.cursor.next ≤ room)
      (refusing (r.Refused r.cursor.next)) := by
  have hcenter : r.window.center = 0 := Nat.le_zero.mp (hback ▸ hw.center_le_back)
  have hinside := hw.front_le_front
  have hpage : pageSize ≤ r.window.size := Nat.le_of_dvd hw.size_pos hw.page_dvd_size
  have hreserved : r.capacity * recordBytes ≤ r.window.extent.front :=
    hfront ▸ roundUp_ge _ (by decide)
  have hreserved' : r.window.extent.front < r.capacity * recordBytes + pageSize :=
    hfront ▸ roundUp_lt _ (by decide)
  have hreservedPage : pageSize ∣ r.window.extent.front := hfront ▸ dvd_roundUp _ _
  have hused : r.cursor.next * recordBytes / recordBytes = r.cursor.next :=
    Nat.mul_div_cancel _ (by decide)
  simp only [grow, meets_bind, meets_get, hused]
  split
  · split
    · rename_i hroom hfull
      simp only [meets_bind, meets_note, meets_refuse, refusing_refused]
      refine .full ?_
      simp only [recordBytes] at hfull hreserved
      omega
    · rename_i hroom hfull
      obtain ⟨k, hk⟩ := doublePast_eq (r.cursor.next * recordBytes * 2) r.window.size
      have hdoubled : r.cursor.next * recordBytes * 2 ≤
          doublePast (r.cursor.next * recordBytes * 2) r.window.size := doublePast_ge hw.size_pos
      have htwice : r.window.size * 2 ≤
          doublePast (r.cursor.next * recordBytes * 2) r.window.size := by
        rw [hk]
        exact Nat.mul_le_mul_left _ (Nat.le_self_pow (Nat.succ_ne_zero k) 2)
      have hdoubledPage : pageSize ∣ doublePast (r.cursor.next * recordBytes * 2) r.window.size :=
        hk ▸ Nat.dvd_mul_right_of_dvd hw.page_dvd_size _
      generalize doublePast (r.cursor.next * recordBytes * 2) r.window.size = doubled at *
      have hpageMin : pageSize ∣ min doubled r.window.extent.front := by
        rcases Nat.le_total doubled r.window.extent.front with h | h
        · rwa [Nat.min_eq_left h]
        · rwa [Nat.min_eq_right h]
      -- twice a window that is as large as the records are would be past the reservation
      have hfits : r.cursor.next ≤ r.capacity := by
        simp only [recordBytes, pageSize] at hroom hdoubled hreserved hreserved' hfull hpage
        omega
      refine (widen_meets hw hcenter hpageMin (Nat.min_le_right ..)).bind ?_ ?_
      case refine_2 =>
        rintro why _ ⟨w, rfl, hrefused⟩
        cases hrefused with
        | space hnever => exact hnever.elim
        | host why mean stayed => exact .host why mean hfits stayed
      intro _ _ hres
      obtain ⟨w, rfl, hw', hext, hsize⟩ := hres
      -- a roster that has just been widened is never too small
      have hroom' : r.cursor.next ≤ recordsIn w r.capacity := by
        simp only [recordsIn, recordBytes] at hdoubled hreserved hreserved' hfull ⊢
        omega
      refine (settle_meets r.cursor.next _).mono ?_ ?_
      · intro room _ hres
        obtain ⟨rfl, rfl, hnext⟩ := hres
        exact ⟨w, rfl, hw', hext, rfl, hnext⟩
      · intro why _ hres
        obtain ⟨-, -, hlt⟩ := hres
        exact absurd hroom' (Nat.not_le.mpr hlt)
  · rename_i hroom
    refine (settle_meets r.cursor.next _).mono ?_ ?_
    · intro room _ hres
      obtain ⟨rfl, rfl, hnext⟩ := hres
      exact ⟨_, rfl, hw, .refl _, rfl, hnext⟩
    · intro why _ hres
      obtain ⟨rfl, rfl, hlt⟩ := hres
      refine .full ?_
      simp only [mapped, recordsIn, recordBytes] at hlt hroom
      omega

/-! ### Adding -/

structure Added (r : Roster) (count : Nat) (r' : Roster) : Prop where
  sound : r'.Sound
  capacity : r'.capacity = r.capacity
  extends_window : r.window.Extends r'.window
  length : r'.length = r.length + count
  kept : ∀ i < r.length, r'.record i = r.record i
  fresh : ∀ i, r.length ≤ i → i < r.length + count → r'.record i = .fresh i

theorem added {r : Roster} (h : r.Sound) {count stop : Nat} {w : Window} (hw : w.Sound)
    (hext : r.window.Extends w) (hnext : r.cursor.next + count ≤ stop)
    (hstop : stop = recordsIn w r.capacity) :
    r.Added count { r with
      cursor := ⟨r.cursor.next + count, stop⟩
      window := w
      records := r.records.extend count } := by
  have hfilled := h.filled_eq
  have hlength := h.length_eq
  refine ⟨⟨hw, ?_, ?_, h.capacity_lt, hnext, hstop, ?_⟩, rfl, hext, ?_, ?_, ?_⟩
  · exact hext.extent ▸ h.back_eq
  · exact hext.extent ▸ h.front_eq
  · rw [Records.filled_extend, hfilled]
  · rw [hlength]
    exact Nat.min_eq_left hnext
  · intro i hi
    exact Records.get_extend_of_lt _ _ (by omega)
  · intro i hi hi'
    exact Records.get_extend_of_ge _ _ (by omega) (by omega)

section

variable [Host] {r r' : Roster} {wanted : Nat} {why : Refusal}

theorem Refused.sound (h : r.Refused wanted why r') (hr : r.Sound) : r'.Sound := by
  cases h with
  | full => exact hr
  | host why mean room stayed =>
    exact ⟨hr.window.stayed stayed, hr.back_eq, hr.front_eq, hr.capacity_lt, hr.next_le, hr.stop_eq,
      hr.filled_eq⟩

theorem Refused.why_eq (h : r.Refused wanted why r') :
    (∃ cause, why = .growth cause ∧ ¬ Host.Generous) ∨
      why = .outOfTableSpace wanted r.capacity ∧ r.capacity < wanted := by
  cases h with
  | full hover => exact Or.inr ⟨rfl, hover⟩
  | host cause mean => exact Or.inl ⟨cause, rfl, mean⟩

theorem Refused.of_full (h : r.Refused wanted why r') (hover : r.capacity < wanted) :
    why = .outOfTableSpace wanted r.capacity ∧ r' = r := by
  cases h with
  | full => exact ⟨rfl, rfl⟩
  | host why mean room => exact absurd room (Nat.not_le.mpr hover)

theorem Refused.eq_withWindow (h : r.Refused wanted why r') :
    r' = { r with window := r'.window } := by
  cases h with
  | full => rfl
  | host => rfl

theorem Refused.of_generous [Host.Generous] (h : r.Refused wanted why r') :
    why = .outOfTableSpace wanted r.capacity ∧ r.capacity < wanted ∧ r' = r := by
  cases h with
  | full hfull => exact ⟨rfl, hfull, rfl⟩
  | host why mean => exact absurd ‹Host.Generous› mean

end

theorem add_meets [Host] {r : Roster} (h : r.Sound) {count : Nat} (hcount : 0 < count)
    (hword : r.length + count < word32) :
    (add count).Meets r (fun first r' => first = r.length ∧ r.Added count r')
      (refusing (r.Refused (r.length + count))) := by
  rw [h.length_eq] at hword ⊢
  simp only [add, meets_bind, meets_ensure_refusing, meets_modify, meets_pure]
  refine ⟨hcount, Cursor.claim_meets rfl h.next_le hword (fun hfits => ⟨rfl, ?_⟩) fun _ => ?_⟩
  · exact added h h.window (.refl _) hfits h.stop_eq
  · refine (grow_meets (r := { r with cursor := ⟨r.cursor.next + count, r.cursor.stop⟩ }) h.window
      h.back_eq h.front_eq).mono ?_ ?_
    · intro room _ hres
      obtain ⟨w, rfl, hw, hext, hroom, hnext⟩ := hres
      exact ⟨hnext, rfl, added h hw hext hnext hroom⟩
    · rintro why _ (hfull | ⟨why, mean, room, stayed⟩)
      · exact .full hfull
      · exact @Refused.host _ r _ why mean room _ stayed

/-! ### Making -/

theorem total_lt {capacity : Nat} (hcapacity : capacity < noIndex) :
    (Extent.frontOnly (roundUp (capacity * recordBytes) pageSize)).total < Host.addressSpan := by
  have hreserved : roundUp (capacity * recordBytes) pageSize < capacity * recordBytes + pageSize :=
    roundUp_lt _ (by decide)
  rw [Extent.total_frontOnly]
  simp only [recordBytes, Host.addressSpan, pageSize, noIndex] at hreserved hcapacity ⊢
  omega

theorem create_meets [Host] (initial capacity : Nat) (strategy : Strategy) :
    (create initial capacity strategy).Meets () (fun r _ => r.Sound ∧ r.length = 0)
      fun _ _ => True := by
  simp only [create, meets_bind, meets_ensure, meets_pure, implies_true, and_true]
  intro hadmits
  have hcapacity := hadmits.2.1
  apply (Window.create_sound (total_lt hcapacity)).imp
  intro w _ hres
  obtain ⟨hw, hext, -, -, -⟩ := hres
  exact ⟨{
    window := hw
    back_eq := by rw [hext, Extent.frontOnly]
    front_eq := by rw [hext, Extent.frontOnly]
    capacity_lt := hcapacity
    next_le := Nat.zero_le _
    stop_eq := rfl
    filled_eq := rfl }, Nat.zero_min _⟩

end SlotArena.Roster
