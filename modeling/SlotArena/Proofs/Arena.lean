import SlotArena.Proofs.Claim
import SlotArena.Proofs.SizeClass
import SlotArena.Proofs.Window
import SlotArena.Arena

/-!
Arenas. `Sound` is what an arena keeps: each cursor stays within what is published for it, and that
within the window. One growth reaches whatever the cursors hold (`grow_meets`), so a block comes
right after the blocks claimed before it on its side (`alloc_meets`, `allocBack_meets`); a refused
block leaves the arena as it was, but for pieces that were committed for nothing (`Refused`).
-/

namespace SlotArena.Arena

open Act

structure Sound (a : Arena) : Prop where
  window : a.window.Sound
  back_le : a.window.extent.back ≤ 2 ^ 31
  front_le : a.window.extent.front ≤ 2 ^ 31
  next_le : ∀ side, (a.cursor side).next ≤ (a.cursor side).stop
  stop_le : ∀ side, (a.cursor side).stop ≤ a.reach side

/-! ### Placing the origin -/

theorem placeOrigin_bounds (frontUsed backUsed : Nat) {size frontRequired backRequired : Nat}
    (h : backRequired + frontRequired ≤ size) :
    backRequired ≤ placeOrigin size frontUsed backUsed frontRequired backRequired ∧
      placeOrigin size frontUsed backUsed frontRequired backRequired + frontRequired ≤ size := by
  unfold placeOrigin
  split
  · exact ⟨Nat.le_refl _, h⟩
  · rename_i hback
    have hshare : size * backUsed / (frontUsed + backUsed) / pageSize * pageSize ≤ size := by
      refine Nat.le_trans (Nat.div_mul_le_self ..) ?_
      rw [Nat.mul_comm size]
      exact Nat.div_le_of_le_mul (Nat.mul_le_mul_right _ (Nat.le_add_left ..))
    dsimp only
    split
    · omega
    · omega

theorem page_dvd_placeOrigin (frontUsed backUsed : Nat) {size frontRequired backRequired : Nat}
    (hsize : pageSize ∣ size) (hfront : pageSize ∣ frontRequired)
    (hback : pageSize ∣ backRequired) :
    pageSize ∣ placeOrigin size frontUsed backUsed frontRequired backRequired := by
  unfold placeOrigin
  split
  · exact hback
  · dsimp only
    split
    · exact Nat.dvd_sub hsize hfront
    · rcases Nat.le_total (size * backUsed / (frontUsed + backUsed) / pageSize * pageSize)
        backRequired with h | h
      · rwa [Nat.max_eq_right h]
      · rw [Nat.max_eq_left h]
        exact Nat.dvd_mul_left ..

theorem dvd_max {d m n : Nat} (hm : d ∣ m) (hn : d ∣ n) : d ∣ max m n := by
  rcases Nat.le_total m n with h | h
  · rwa [Nat.max_eq_right h]
  · rwa [Nat.max_eq_left h]

/-! ### Growing -/

theorem reach_mono {a : Arena} {w : Window} (hext : a.window.Extends w) (side : Side) :
    a.reach side ≤ ({ a with window := w } : Arena).reach side := by
  cases side with
  | front => exact hext.front_le
  | back => exact hext.center_le

theorem reach_lt_word32 {a : Arena} {w : Window} (hext : a.window.Extends w) (hw : w.Sound)
    (hback : a.window.extent.back ≤ 2 ^ 31) (hfront : a.window.extent.front ≤ 2 ^ 31)
    (side : Side) : ({ a with window := w } : Arena).reach side < word32 := by
  have hb := hw.center_le_back
  have hf := hw.front_le_front
  rw [hext.extent] at hb hf
  cases side with
  | front => exact Nat.lt_of_le_of_lt (Nat.le_trans hf hfront) (by decide)
  | back => exact Nat.lt_of_le_of_lt (Nat.le_trans hb hback) (by decide)

/-- The size that growth asks for: what both sides require, and twice the window at least. -/
def wanted (a : Arena) : Nat :=
  doublePast (max (roundUp a.back.next pageSize) a.center +
    max (roundUp a.front.next pageSize) (a.size - a.center)) a.size

/-- What an arena that is refused is left as. -/
def Refused [Host] (a : Arena) (cramped : Prop) (why : Refusal) (a' : Arena) : Prop :=
  ∃ w, a' = { a with window := w } ∧ a.window.Refused cramped why w

theorem Refused.mono [Host] {a a' : Arena} {cramped cramped' : Prop} {why : Refusal}
    (h : a.Refused cramped why a') (himp : cramped → cramped') : a.Refused cramped' why a' := by
  obtain ⟨w, rfl, hw⟩ := h
  exact ⟨w, rfl, hw.mono himp⟩

/-- Growth of the window, whatever the cursors hold: it reaches what `side` claims, or it is
refused, and then for want of space only if the size that it asks for does not fit one half of the
extent. -/
theorem grow_meets [Host] {a : Arena} (hw : a.window.Sound) (hback : a.window.extent.back ≤ 2 ^ 31)
    (hfront : a.window.extent.front ≤ 2 ^ 31) (side : Side) (hclaims : 0 < (a.cursor side).next) :
    (grow side).Meets a
      (fun stop a' => ∃ w, a' = { a with window := w } ∧ w.Sound ∧ a.window.Extends w ∧
        stop = a'.reach side ∧ (a.cursor side).next ≤ stop ∧
        (w = a.window ∨ w.size = a.wanted ∧ (a.back.next = 0 → w.center = a.center)))
      (refusing (a.Refused (a.window.extent.back < a.wanted ∨ a.window.extent.front < a.wanted))) :=
    by
  have hbackUsed : a.back.next ≤ roundUp a.back.next pageSize := roundUp_ge _ (by decide)
  have hbackNone : a.back.next = 0 → roundUp a.back.next pageSize = 0 := fun h => by rw [h]; rfl
  have hfrontUsed : a.front.next ≤ roundUp a.front.next pageSize := roundUp_ge _ (by decide)
  have hbackPage : pageSize ∣ max (roundUp a.back.next pageSize) a.center :=
    dvd_max (dvd_roundUp ..) hw.page_dvd_center
  have hfrontPage : pageSize ∣ max (roundUp a.front.next pageSize) (a.size - a.center) :=
    dvd_max (dvd_roundUp ..) (Nat.dvd_sub hw.page_dvd_size hw.page_dvd_center)
  have hclaimed : side = .front ∨ 0 < roundUp a.back.next pageSize := by
    cases side with
    | front => exact Or.inl rfl
    | back => exact Or.inr (Nat.lt_of_lt_of_le hclaims hbackUsed)
  simp only [grow, cursorBytes, meets_bind, meets_get, meets_ite, meets_ensure_refusing, meets_pure,
    wanted]
  generalize roundUp a.back.next pageSize = backUsed at *
  generalize roundUp a.front.next pageSize = frontUsed at *
  generalize hbackReq : max backUsed a.center = backRequired at *
  generalize hfrontReq : max frontUsed (a.size - a.center) = frontRequired at *
  refine ⟨hw.size_pos, hclaimed, fun _ => ?_, fun hroom => ?_⟩
  · -- the window grows, and both sides get at least what they require
    have hsize : backRequired + frontRequired ≤ doublePast (backRequired + frontRequired) a.size :=
      doublePast_ge hw.size_pos
    obtain ⟨k, hk⟩ := doublePast_eq (backRequired + frontRequired) a.size
    have hsizePage : pageSize ∣ doublePast (backRequired + frontRequired) a.size :=
      hk ▸ Nat.dvd_mul_right_of_dvd hw.page_dvd_size _
    generalize doublePast (backRequired + frontRequired) a.size = size at *
    have hbounds := placeOrigin_bounds frontUsed backUsed hsize
    have hcenterPage := page_dvd_placeOrigin frontUsed backUsed hsizePage hfrontPage hbackPage
    have hcenterNone : backUsed = 0 →
        placeOrigin size frontUsed backUsed frontRequired backRequired = backRequired :=
      fun h => if_pos h
    generalize placeOrigin size frontUsed backUsed frontRequired backRequired = center at *
    simp only [onWindow, meets_focus_refusing, meets_note]
    refine (Window.expandRange_meets hw ?_ ?_ ?_ ⟨hcenterPage, hsizePage⟩).mono ?_ ?_
    · simp only [Arena.center] at hbackReq
      omega
    · omega
    · simp only [Arena.size, Arena.center] at hfrontReq
      simp only [Window.front]
      omega
    · intro _ w hres
      obtain ⟨hw', hext, rfl, rfl⟩ := hres
      have hlt := reach_lt_word32 hext hw' hback hfront
      refine ⟨hlt side, w, rfl, hw', hext, trivial, ?_, Or.inr ⟨rfl, fun hnone => ?_⟩⟩
      · cases side with
        | front =>
          simp only [cursor, reach, Arena.size, Arena.center]
          omega
        | back =>
          simp only [cursor, reach, Arena.center]
          omega
      · have hstays := hcenterNone (hbackNone hnone)
        have hnoneUsed := hbackNone hnone
        omega
    · exact fun why w hrefused => ⟨w, rfl, hrefused.mono fun hover => by omega⟩
  · -- both sides have twice their usage already
    have hext := Window.Extends.refl a.window
    refine ⟨reach_lt_word32 hext hw hback hfront side, a.window, rfl, hw, hext, trivial, ?_,
      Or.inl rfl⟩
    cases side with
    | front =>
      simp only [cursor, reach]
      omega
    | back =>
      simp only [cursor, reach]
      omega

/-! ### Blocks -/

/-- While nothing is claimed below the origin, all of the window lies above it and is published. -/
def Forward (a : Arena) : Prop := a.back.next = 0 → a.center = 0 ∧ a.front.stop = a.size

/-- The arena while a claim of `n` bytes on `side` waits for growth. -/
def asking (a : Arena) (side : Side) (n : Nat) : Arena :=
  withCursor side a ⟨(a.cursor side).next + n, (a.cursor side).stop⟩

@[simp] theorem asking_window (a : Arena) (side : Side) (n : Nat) :
    (a.asking side n).window = a.window := by
  cases side <;> rfl

@[simp] theorem asking_next (a : Arena) (side : Side) (n : Nat) :
    ((a.asking side n).cursor side).next = (a.cursor side).next + n := by
  cases side <;> rfl

@[simp] theorem asking_size (a : Arena) (side : Side) (n : Nat) :
    (a.asking side n).size = a.size := by
  rw [size, asking_window, size]

@[simp] theorem asking_center (a : Arena) (side : Side) (n : Nat) :
    (a.asking side n).center = a.center := by
  rw [center, asking_window, center]

structure Claimed (a : Arena) (side : Side) (n : Nat) (a' : Arena) : Prop where
  sound : a'.Sound
  extends_window : a.window.Extends a'.window
  next : (a'.cursor side).next = (a.cursor side).next + n
  other : ∀ other, other ≠ side → a'.cursor other = a.cursor other
  /-- The window is as before, or it was doubled. -/
  doubled : ∃ k, a'.size = a.size * 2 ^ k
  forward : a.Forward → a'.Forward

theorem Sound.reach_le {a : Arena} (h : a.Sound) (side : Side) : a.reach side ≤ 2 ^ 31 := by
  cases side with
  | front => exact Nat.le_trans h.window.front_le_front h.front_le
  | back => exact Nat.le_trans h.window.center_le_back h.back_le

theorem Sound.next_le_half {a : Arena} (h : a.Sound) (side : Side) :
    (a.cursor side).next ≤ 2 ^ 31 :=
  Nat.le_trans (h.next_le side) (Nat.le_trans (h.stop_le side) (h.reach_le side))

theorem Sound.next_le_reach {a : Arena} (h : a.Sound) (side : Side) :
    (a.cursor side).next ≤ a.reach side :=
  Nat.le_trans (h.next_le side) (h.stop_le side)

theorem claimed {a : Arena} (h : a.Sound) {side : Side} {n stop : Nat} {w : Window} (hn : 0 < n)
    (hw : w.Sound) (hext : a.window.Extends w) (hnext : (a.cursor side).next + n ≤ stop)
    (hstop : stop ≤ ({ a with window := w } : Arena).reach side)
    (hgrown : (w = a.window ∧ stop = (a.cursor side).stop) ∨
      (w = a.window ∨ w.size = (a.asking side n).wanted ∧
        ((a.asking side n).back.next = 0 → w.center = a.center)) ∧
          stop = ({ a with window := w } : Arena).reach side) :
    a.Claimed side n (withCursor side { a with window := w } ⟨(a.cursor side).next + n, stop⟩) := by
  have hfront := Nat.le_trans (h.stop_le .front) (reach_mono hext .front)
  have hback := Nat.le_trans (h.stop_le .back) (reach_mono hext .back)
  have hdoubled : ∃ k, w.size = a.size * 2 ^ k := by
    have hsame : w = a.window → ∃ k, w.size = a.size * 2 ^ k := fun hw => ⟨0, by simp [hw, size]⟩
    rcases hgrown with ⟨hw, -⟩ | ⟨hw | ⟨hsize, -⟩, -⟩
    · exact hsame hw
    · exact hsame hw
    · obtain ⟨k, hk⟩ := doublePast_eq (max (roundUp (a.asking side n).back.next pageSize)
        (a.asking side n).center + max (roundUp (a.asking side n).front.next pageSize)
          ((a.asking side n).size - (a.asking side n).center)) (a.asking side n).size
      exact ⟨k + 1, hsize.trans (hk.trans (by rw [asking_size]))⟩
  cases side with
  | front =>
    refine ⟨⟨hw, ?_, ?_, ?_, ?_⟩, hext, rfl, ?_, hdoubled, fun hforward hnone => ?_⟩
    · exact hext.extent ▸ h.back_le
    · exact hext.extent ▸ h.front_le
    · rintro (_ | _)
      · exact hnext
      · exact h.next_le .back
    · rintro (_ | _)
      · exact hstop
      · exact hback
    · rintro (_ | _) hne
      · exact absurd rfl hne
      · rfl
    · obtain ⟨hcenter, hall⟩ := hforward hnone
      rcases hgrown with ⟨rfl, rfl⟩ | ⟨rfl | ⟨-, hstays⟩, rfl⟩
      · exact ⟨hcenter, hall⟩
      · refine ⟨hcenter, ?_⟩
        show a.size - a.center = a.size
        rw [hcenter, Nat.sub_zero]
      · have hcenter' : w.center = 0 := (hstays hnone).trans hcenter
        refine ⟨hcenter', ?_⟩
        show w.size - w.center = w.size
        rw [hcenter', Nat.sub_zero]
  | back =>
    refine ⟨⟨hw, ?_, ?_, ?_, ?_⟩, hext, rfl, ?_, hdoubled, fun _ hnone => ?_⟩
    · exact hext.extent ▸ h.back_le
    · exact hext.extent ▸ h.front_le
    · rintro (_ | _)
      · exact h.next_le .front
      · exact hnext
    · rintro (_ | _)
      · exact hfront
      · exact hstop
    · rintro (_ | _) hne
      · rfl
      · exact absurd rfl hne
    · have hclaims : (a.cursor .back).next + n = 0 := hnone
      omega

theorem Refused.sound [Host] {a a' : Arena} {cramped : Prop} {why : Refusal}
    (h : a.Refused cramped why a') (ha : a.Sound) : a'.Sound := by
  obtain ⟨w, rfl, hw⟩ := h
  have hext := hw.extends_window ha.window
  exact ⟨hw.sound ha.window, hext.extent ▸ ha.back_le, hext.extent ▸ ha.front_le, ha.next_le,
    fun side => Nat.le_trans (ha.stop_le side) (reach_mono hext side)⟩

theorem Refused.of_space [Host] {a a' : Arena} {cramped : Prop} {why : Refusal}
    {requested reserved : Nat} (h : a.Refused cramped why a')
    (hwhy : why = .outOfReservedSpace requested reserved) : cramped := by
  obtain ⟨w, -, hw⟩ := h
  exact hw.of_space hwhy

theorem Refused.of_generous [Host] [Host.Generous] {a a' : Arena} {cramped : Prop} {why : Refusal}
    (h : a.Refused cramped why a') : cramped ∧ a' = a := by
  obtain ⟨w, rfl, hw⟩ := h
  obtain ⟨hcramped, rfl⟩ := hw.of_generous
  exact ⟨hcramped, rfl⟩

theorem Refused.extends_window [Host] {a a' : Arena} {cramped : Prop} {why : Refusal}
    (h : a.Refused cramped why a') (ha : a.Sound) : a.window.Extends a'.window := by
  obtain ⟨w, rfl, hw⟩ := h
  exact hw.extends_window ha.window

theorem claim_meets [Host] {a : Arena} (h : a.Sound) (side : Side) {n : Nat} (hn : AdmitsBlock n)
    (hword : (a.cursor side).next + n < word32) :
    (claim side n).Meets a
      (fun offset a' => offset = (a.cursor side).next ∧ a.Claimed side n a')
      (refusing fun why a' => (a.cursor side).stop < (a.cursor side).next + n ∧
        a.Refused (a.window.extent.back < (a.asking side n).wanted ∨
          a.window.extent.front < (a.asking side n).wanted) why a') := by
  simp only [claim, meets_bind, meets_ensure_refusing]
  refine ⟨hn, Cursor.claim_meets rfl (h.next_le side) hword (fun hfits => ⟨rfl, ?_⟩)
    fun hover => ?_⟩
  · exact claimed h hn.1 h.window (.refl _) hfits (h.stop_le side) (Or.inl ⟨rfl, rfl⟩)
  · show (grow side).Meets (a.asking side n) _ _
    have hundo : ∀ w, withCursor side { a.asking side n with window := w } (a.cursor side) =
        { a with window := w } := by
      cases side <;> exact fun _ => rfl
    have hagain : ∀ w stop,
        withCursor side { a.asking side n with window := w } ⟨(a.cursor side).next + n, stop⟩ =
          withCursor side { a with window := w } ⟨(a.cursor side).next + n, stop⟩ := by
      cases side <;> exact fun _ _ => rfl
    have hreach : ∀ w, ({ a.asking side n with window := w } : Arena).reach side =
        ({ a with window := w } : Arena).reach side := by
      cases side <;> exact fun _ => rfl
    refine (grow_meets (a := a.asking side n) (asking_window a side n ▸ h.window)
      (asking_window a side n ▸ h.back_le) (asking_window a side n ▸ h.front_le) side
      (asking_next a side n ▸ Nat.add_pos_right _ hn.1)).mono ?_ ?_
    · intro stop _ hres
      obtain ⟨w, rfl, hw, hext, hstop, hnext, hgrown⟩ := hres
      rw [asking_window] at hext hgrown
      rw [asking_center] at hgrown
      rw [asking_next] at hnext
      rw [hreach] at hstop
      refine ⟨hnext, rfl, ?_⟩
      rw [hagain]
      exact claimed h hn.1 hw hext hnext (Nat.le_of_eq hstop) (Or.inr ⟨hgrown, hstop⟩)
    · intro why _ hres
      obtain ⟨w, rfl, hw⟩ := hres
      rw [asking_window] at hw
      exact ⟨hover, w, hundo w, hw⟩

theorem alloc_meets [Host] {a : Arena} (h : a.Sound) {n : Nat} (hn : AdmitsBlock n)
    (hword : (a.cursor .front).next + n < word32) :
    (alloc n).Meets a (fun offset a' => offset = a.front.next ∧ a.Claimed .front n a')
      (refusing (a.Refused True)) := by
  refine (claim_meets h .front hn hword).bind ?_ fun _ _ hr => hr.2.mono fun _ => trivial
  intro offset a' h'
  have hoffset := h'.1
  have ha' := h'.2
  have hnext := ha'.next
  have hle := ha'.sound.next_le_half .front
  have hfits : FitsSigned (offset : Int) := by
    simp only [AdmitsBlock] at hn
    simp only [FitsSigned, signed32]
    omega
  rw [if_pos hfits]
  exact ⟨by rw [hoffset]; rfl, ha'⟩

theorem allocBack_meets [Host] {a : Arena} (h : a.Sound) {n : Nat} (hn : AdmitsBlock n)
    (hword : (a.cursor .back).next + n < word32) :
    (allocBack n).Meets a
      (fun offset a' => offset = -((a.back.next + n : Nat) : Int) ∧ a.Claimed .back n a')
      (refusing (a.Refused True)) := by
  refine (claim_meets h .back hn hword).bind ?_ fun _ _ hr => hr.2.mono fun _ => trivial
  intro distance a' hres
  obtain ⟨rfl, ha'⟩ := hres
  have hnext := ha'.next
  have hle := ha'.sound.next_le_half .back
  have hfits : FitsSigned (-(((a.cursor .back).next + n : Nat) : Int)) := by
    simp only [AdmitsBlock] at hn
    simp only [FitsSigned, signed32]
    omega
  dsimp only
  rw [if_pos hfits]
  exact ⟨rfl, ha'⟩

theorem place_meets {a : Arena} (h : a.Sound) {offset : Int}
    (hoffset : -(a.back.next : Int) ≤ offset) :
    (place offset).Meets a (fun p a' => p = a.window.place offset ∧ a' = a) Never := by
  have hback := h.next_le_reach .back
  simp only [cursor, reach] at hback
  simp only [place, meets_bind, meets_get, meets_ensure_never, meets_pure, and_true]
  omega

/-! ### Making -/

def initialSize (config : ArenaConfig) : Nat := ceilPow2 (max config.initial pageSize)

theorem powerOfTwo_initialSize (config : ArenaConfig) : PowerOfTwo (initialSize config) :=
  powerOfTwo_ceilPow2 _

theorem page_dvd_initialSize (config : ArenaConfig) : pageSize ∣ initialSize config :=
  (powerOfTwo_pow 12).dvd_of_le (powerOfTwo_initialSize config)
    (Nat.le_trans (Nat.le_max_right ..) (ceilPow2_ge _))

theorem roundUp_initialSize (config : ArenaConfig) :
    roundUp (initialSize config) pageSize = initialSize config :=
  Nat.le_antisymm (roundUp_le (by decide) (page_dvd_initialSize config) (Nat.le_refl _))
    (roundUp_ge _ (by decide))

structure Created (config : ArenaConfig) (a : Arena) : Prop where
  sound : a.Sound
  admits : AdmitsExtent config.extent
  extent : a.window.extent = .centered config.extent
  next : ∀ side, (a.cursor side).next = 0
  forward : a.Forward
  size : PowerOfTwo a.size
  blank : a.window.memory = .blank

theorem AdmitsExtent.total_lt {n : Nat} (h : AdmitsExtent n) :
    (Extent.centered n).total < Host.addressSpan := by
  rw [Extent.total_centered]
  exact Nat.lt_of_le_of_lt h.2.2 (by decide)

theorem create_meets [Host] (config : ArenaConfig) :
    (create config).Meets () (fun a _ => Created config a) fun _ _ => True := by
  simp only [create, roundToPow2, meets_bind, meets_ensure, meets_pure, implies_true, and_true]
  intro hextent _
  have hle : config.extent ≤ 2 ^ 32 := hextent.2.2
  apply (Window.create_sound hextent.total_lt).imp
  intro w _ hres
  obtain ⟨hw, hext, hcenter, hsize, hmem⟩ := hres
  have hsize' : w.size = initialSize config := hsize.trans (roundUp_initialSize config)
  refine ⟨⟨hw, ?_, ?_, ?_, ?_⟩, hextent, hext, ?_, fun _ => ⟨hcenter, hsize'.symm⟩, ?_, hmem⟩
  · rw [hext, Extent.centered]
    dsimp only
    omega
  · rw [hext, Extent.centered]
    have hhalf := hextent.1.two_mul_half (Nat.lt_of_lt_of_le (by decide) hextent.2.1)
    dsimp only
    omega
  · rintro (_ | _)
    · exact Nat.zero_le _
    · exact Nat.le_refl _
  · rintro (_ | _)
    · show _ ≤ w.size - w.center
      rw [hcenter, hsize']
      exact Nat.le_refl _
    · exact Nat.zero_le _
  · rintro (_ | _)
    · rfl
    · rfl
  · show PowerOfTwo w.size
    rw [hsize']
    exact powerOfTwo_initialSize config

end SlotArena.Arena
