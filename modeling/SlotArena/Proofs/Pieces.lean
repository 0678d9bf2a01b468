import SlotArena.Proofs.Aliasing
import SlotArena.Proofs.Charges

/-!
What growth of a window comes to, whatever is asked for, with hosts that commit what is whole pages.
Either the window is afterwards the one that was asked for, or nothing at all has happened; which of
the two is decided by the request, the extent, and for views by the host (`Accepts`), which does not
turn a view down that is shorter than its address space. A window of either kind has no holes: the
pieces that a pinned backing commits lie side by side and fill it (`Pieced`), and a view shows all
of it.

Main statement: this holds after any course of growth and stores, and counts of pieces and of views
tell how often the window has grown (`growth_exact`).
-/

namespace SlotArena

open Act

/-! ### Pieces side by side -/

namespace Backing

/-- Committed pieces of a backing that are not empty, lie beside each other and fill the positions
`[lo, hi)`. -/
structure Pieced (pieces : List (Nat × Nat)) (lo hi : Nat) : Prop where
  nonempty : ∀ k ∈ pieces, k.1 < k.2
  apart : pieces.Pairwise fun k l => k.2 ≤ l.1 ∨ l.2 ≤ k.1
  covers : ∀ n, (∃ k ∈ pieces, k.1 ≤ n ∧ n < k.2) ↔ lo ≤ n ∧ n < hi

def withPiece (start stop : Nat) (pieces : List (Nat × Nat)) : List (Nat × Nat) :=
  if stop ≤ start then pieces else (start, stop) :: pieces

namespace Pieced

variable {pieces : List (Nat × Nat)} {lo hi start stop : Nat}

theorem within (h : Pieced pieces lo hi) {k : Nat × Nat} (hk : k ∈ pieces) :
    lo ≤ k.1 ∧ k.2 ≤ hi := by
  have hlt := h.nonempty k hk
  have hfirst := (h.covers k.1).mp ⟨k, hk, Nat.le_refl _, hlt⟩
  have hlast := (h.covers (k.2 - 1)).mp ⟨k, hk, by omega, by omega⟩
  omega

theorem cons (h : Pieced pieces lo hi) (hlt : start < stop)
    (hnext : ∀ k ∈ pieces, stop ≤ k.1 ∨ k.2 ≤ start) {lo' hi' : Nat}
    (hcovers : ∀ n, lo' ≤ n ∧ n < hi' ↔ (start ≤ n ∧ n < stop) ∨ lo ≤ n ∧ n < hi) :
    Pieced ((start, stop) :: pieces) lo' hi' where
  nonempty k hk := by
    rcases List.mem_cons.mp hk with rfl | hk
    · exact hlt
    · exact h.nonempty k hk
  apart := List.pairwise_cons.mpr ⟨hnext, h.apart⟩
  covers n := by
    rw [hcovers, ← h.covers]
    simp

theorem below (h : Pieced pieces lo hi) (hle : lo ≤ hi) (hstart : start ≤ lo) :
    Pieced (withPiece start lo pieces) start hi := by
  rw [withPiece]
  split
  · obtain rfl : start = lo := by omega
    exact h
  · refine h.cons (by omega) (fun k hk => Or.inl (h.within hk).1) fun n => ?_
    omega

theorem above (h : Pieced pieces lo hi) (hle : lo ≤ hi) (hstop : hi ≤ stop) :
    Pieced (withPiece hi stop pieces) lo stop := by
  rw [withPiece]
  split
  · obtain rfl : stop = hi := by omega
    exact h
  · refine h.cons (by omega) (fun k hk => Or.inr (h.within hk).2) fun n => ?_
    omega

theorem first (hlt : start < stop) : Pieced (withPiece start stop []) start stop := by
  rw [withPiece, if_neg (Nat.not_le.mpr hlt)]
  exact ⟨by simp [hlt], List.pairwise_singleton _ _, by simp⟩

end Pieced

/-! ### How a backing follows a window -/

variable {owner : Purpose} {e : Extent} {center size lo hi : Nat} {pieces : List (Nat × Nat)}
    {views : List View}

theorem run_commitPiece [Host] [Host.Generous] {start : Nat} (h : pageSize ∣ start)
    (stop lo hi : Nat) (pieces : List (Nat × Nat)) :
    (commitPiece owner start stop).run (.pinned lo hi pieces) =
      ⟨.ok (.ok ()), .pinned lo hi (withPiece start stop pieces), []⟩ := by
  rw [commitPiece, withPiece, Host.commit_ok owner _ h]
  split
  · rfl
  · rfl

theorem run_expand_first [Host] [Host.Generous] (halign : pageSize ∣ e.back - center)
    (hlo : e.back - center ≤ lo) (hstop : lo ≤ e.back - center + size) :
    (expand owner e center size).run (.pinned lo lo pieces) =
      ⟨.ok (.ok ()), .pinned (e.back - center) (e.back - center + size)
        (withPiece (e.back - center) (e.back - center + size) pieces), []⟩ := by
  simp [expand, run_bind, run_ensure, run_commitPiece halign, hlo, hstop, Except.map]

theorem run_expand_pinned [Host] [Host.Generous] (halign : pageSize ∣ e.back - center)
    (hpage : pageSize ∣ hi) (hne : lo ≠ hi) (hlo : e.back - center ≤ lo)
    (hstop : hi ≤ e.back - center + size) :
    (expand owner e center size).run (.pinned lo hi pieces) =
      ⟨.ok (.ok ()), .pinned (e.back - center) (e.back - center + size)
        (withPiece hi (e.back - center + size) (withPiece (e.back - center) lo pieces)), []⟩ := by
  simp [expand, run_bind, run_ensure, run_commitPiece halign, run_commitPiece hpage, hne, hlo,
    hstop, Except.map]

theorem run_expand_remap [Host] (hfile : e.total < Host.fileSpan)
    (hinside : e.back - center + size ≤ e.total) :
    (expand owner e center size).run (.remap views) =
      match Host.showing owner (e.back - center) size with
      | none => ⟨.ok (.ok ()), .remap (⟨e.back - center, size, center⟩ :: views),
          if views.isEmpty then [] else [.raise .retired 1]⟩
      | some cause => ⟨.ok (.error (.commit cause)), .remap views, []⟩ := by
  have hstart : ¬ Host.fileSpan ≤ e.back - center := by omega
  have hview : Host.showView owner (e.back - center) size =
      Host.asked .commit (Host.showing owner (e.back - center) size) := by
    rw [Host.showView, if_neg hstart]
  cases hshowing : Host.showing owner (e.back - center) size with
  | none => simp [expand, run_bind, run_ensure, hinside, hview, hshowing, Host.asked, Except.map]
  | some cause =>
    simp [expand, run_bind, run_ensure, hinside, hview, hshowing, Host.asked, Except.map]

end Backing

namespace Window

/-! ### One growth -/

/-- What a window keeps, whatever its extent: whole pages inside it, a backing that agrees with
them, and no holes. -/
structure Regular (w : Window) : Prop extends w.Anchored where
  aligned : w.extent.Aligned
  file : w.extent.total < Host.fileSpan
  front_le_front : w.size - w.center ≤ w.extent.front
  center_le_size : w.center ≤ w.size
  size_pos : 0 < w.size
  page_dvd_center : pageSize ∣ w.center
  page_dvd_size : pageSize ∣ w.size
  pieced : ∀ lo hi pieces, w.backing = .pinned lo hi pieces → Backing.Pieced pieces lo hi

/-- Growth on both sides by whole pages, inside the extent. -/
structure Fits (w : Window) (center size : Nat) : Prop where
  center_le : w.center ≤ center
  le_size : center ≤ size
  front_le : w.front ≤ size - center
  pages : pageSize ∣ center ∧ pageSize ∣ size
  back : center ≤ w.extent.back
  front : size - center ≤ w.extent.front

/-- What may be asked of a window, and where it is made of views, what the host shows. -/
structure Accepts [Host] (w : Window) (center size : Nat) : Prop extends w.Fits center size where
  shown : w.strategy = .remap →
    Host.showing w.purpose (w.extent.back - center) size = none

variable {w : Window} {center size : Nat}

theorem Regular.size_pos_of_fits (h : w.Regular) (hask : w.Fits center size) : 0 < size := by
  have hpos := h.size_pos
  have hle := h.center_le_size
  have hfront := hask.front_le
  have hback := hask.center_le
  have hsize := hask.le_size
  simp only [Window.front] at hfront
  omega

/-- A host that commits whole pages shows what is shorter than its address space. -/
theorem Regular.accepts_of_lt [Host] [Host.Generous] (h : w.Regular) (hask : w.Fits center size)
    (hsmall : w.strategy = .remap → size < Host.addressSpan) : w.Accepts center size where
  toFits := hask
  shown hremap := Host.Generous.showing w.purpose (Nat.dvd_sub h.aligned.1 hask.pages.1)
    (h.size_pos_of_fits hask) (hsmall hremap)

theorem Regular.grown (h : w.Regular) (hask : w.Fits center size) {b : Backing}
    (hb : Followed w.extent center size w.backing b)
    (hpieced : ∀ lo hi pieces, b = .pinned lo hi pieces → Backing.Pieced pieces lo hi) :
    (w.grown center size b).Regular where
  toAnchored := (h.toAnchored.grown hask.center_le hask.le_size hask.front_le hask.back hb).1
  aligned := h.aligned
  file := h.file
  front_le_front := hask.front
  center_le_size := hask.le_size
  size_pos := h.size_pos_of_fits hask
  page_dvd_center := hask.pages.1
  page_dvd_size := hask.pages.2
  pieced := hpieced

theorem Regular.backing_follows [Host] [Host.Generous] (h : w.Regular)
    (hask : w.Accepts center size) :
    ∃ b es, (Backing.expand w.purpose w.extent center size).run w.backing = ⟨.ok (.ok ()), b, es⟩ ∧
      Followed w.extent center size w.backing b ∧
      ∀ lo hi pieces, b = .pinned lo hi pieces → Backing.Pieced pieces lo hi := by
  have hcenter := h.center_le_back
  have hpos := h.size_pos
  have hbacked := h.backed
  have hle := h.center_le_size
  have halign : pageSize ∣ w.extent.back - center := Nat.dvd_sub h.aligned.1 hask.pages.1
  obtain ⟨⟨hback, hsize, hfront, -, hbackRoom, hfrontRoom⟩, hshown⟩ := hask
  simp only [front] at hfront
  cases hw : w.backing with
  | remap views =>
    have hinside : w.extent.back - center + size ≤ w.extent.total := by
      rw [Extent.total]
      omega
    rw [Backing.run_expand_remap h.file hinside, hshown (by rw [strategy, hw]; rfl)]
    exact ⟨_, _, rfl, rfl, fun _ _ _ hpinned => Backing.noConfusion hpinned⟩
  | pinned lo hi pieces =>
    simp only [Backed, hw] at hbacked
    obtain ⟨rfl, rfl⟩ := hbacked
    have hpage : pageSize ∣ w.extent.back - w.center + w.size :=
      Nat.dvd_add (Nat.dvd_sub h.aligned.1 h.page_dvd_center) h.page_dvd_size
    rw [Backing.run_expand_pinned halign hpage (by omega) (by omega) (by omega)]
    refine ⟨_, _, rfl, ⟨_, rfl⟩, ?_⟩
    rintro _ _ _ ⟨⟩
    exact ((h.pieced _ _ _ hw).below (by omega) (by omega)).above (by omega) (by omega)

theorem Regular.grows [Host] [Host.Generous] (h : w.Regular) (hask : w.Accepts center size) :
    (expandRange center size).Leaves w fun r _ w' => r = .ok () ∧
      ∃ b, w' = w.grown center size b ∧ Followed w.extent center size w.backing b ∧
        w'.Regular := by
  obtain ⟨b, es, hrun, hfollowed, hpieced⟩ := h.backing_follows hask
  have hregular := h.grown hask.toFits hfollowed hpieced
  simp only [expandRange, leaves_bind, leaves_get, leaves_ensure, leaves_ite, leaves_refuse]
  refine ⟨fun _ => ⟨fun _ => ⟨fun _ => ⟨fun hover => ?_, fun _ => ⟨fun hover => ?_, fun _ => ?_⟩⟩,
    fun hnot => absurd hask.pages hnot⟩, fun hnot => absurd hask.front_le hnot⟩,
    fun hnot => absurd ⟨hask.center_le, hask.le_size⟩ hnot⟩
  · exact absurd hask.back (Nat.not_le.mpr hover)
  · exact absurd hask.front (Nat.not_le.mpr hover)
  · simp only [onBacking, Leaves, run_focus, hrun, run_bind, run_emit, note, run_modify]
    exact ⟨trivial, b, rfl, hfollowed, hregular⟩

/-- A host that does not show a view leaves all as it was. -/
theorem Regular.not_shown [Host] (h : w.Regular) (hfits : w.Fits center size)
    (hask : ¬ w.Accepts center size) :
    ∃ why, (Backing.expand w.purpose w.extent center size).run w.backing =
      ⟨.ok (.error why), w.backing, []⟩ := by
  have hinside : w.extent.back - center + size ≤ w.extent.total := by
    have hback := hfits.back
    have hfront := hfits.front
    have hsize := hfits.le_size
    rw [Extent.total]
    omega
  cases hw : w.backing with
  | remap views =>
    rw [Backing.run_expand_remap h.file hinside]
    cases hshowing : Host.showing w.purpose (w.extent.back - center) size with
    | none => exact absurd ⟨hfits, fun _ => hshowing⟩ hask
    | some cause => exact ⟨_, rfl⟩
  | pinned lo hi pieces =>
    refine absurd ⟨hfits, fun hremap => ?_⟩ hask
    rw [strategy, hw] at hremap
    cases hremap

/-- What may not be asked of a window changes nothing and counts nothing. -/
theorem Regular.stays [Host] (h : w.Regular) (hask : ¬ w.Accepts center size) :
    (expandRange center size).Leaves w fun r es w' => (∃ fault, r = .error fault) ∧ w' = w ∧
      ∀ ev ∈ es, ∃ n, ev = .note n := by
  simp only [expandRange, leaves_bind, leaves_get, leaves_ensure, leaves_ite, leaves_refuse]
  refine ⟨fun hback => ⟨fun hfront => ⟨fun hpages => ⟨fun _ => by simp, fun hbackRoom =>
    ⟨fun _ => by simp, fun hfrontRoom => ?_⟩⟩, fun _ => by simp⟩, fun _ => by simp⟩,
    fun _ => by simp⟩
  obtain ⟨why, hrun⟩ := h.not_shown ⟨hback.1, hback.2, hfront, hpages, Nat.not_lt.mp hbackRoom,
    Nat.not_lt.mp hfrontRoom⟩ hask
  simp [onBacking, Leaves, run_focus, hrun, run_bind, note, refuse]

/-! ### Courses of deeds -/

namespace Deed

def grows : Deed → Bool
  | .expandTo _ | .expandRange .. => true
  | .fill .. | .copy .. => false

def growths : Window → List Round → Nat
  | _, [] => 0
  | w, ⟨_, d⟩ :: rounds => (if d.grows ∧ (d.act.run w).result = .ok () then 1 else 0) +
      growths (d.act.run w).state rounds

end Deed

theorem Regular.expandRange [Host] [Host.Generous] (h : w.Regular) (center size : Nat) :
    (Window.expandRange center size).Leaves w fun r _ w' => w'.Regular ∧
      (w.strategy = .remap →
        w'.backing.retired = w.backing.retired + if r = .ok () then 1 else 0) := by
  by_cases hask : w.Accepts center size
  · refine (h.grows hask).imp fun r es w' hres => ?_
    obtain ⟨rfl, b, rfl, hfollowed, hregular⟩ := hres
    refine ⟨hregular, fun hremap => ?_⟩
    have hbacked := h.backed
    cases hw : w.backing with
    | remap views =>
      simp only [Followed, hw] at hfollowed
      simp only [Backed, hw] at hbacked
      subst hfollowed
      cases views with
      | nil => simp at hbacked
      | cons v views => rfl
    | pinned lo hi pieces =>
      rw [strategy, hw] at hremap
      cases hremap
  · refine (h.stays hask).imp fun r es w' hres => ?_
    obtain ⟨⟨fault, rfl⟩, rfl, -⟩ := hres
    exact ⟨h, fun _ => rfl⟩

theorem Deed.regular [Host] [Host.Generous] {d : Deed} (h : w.Regular) (hd : d.Allowed w) :
    (d.act.run w).state.Regular ∧ (w.strategy = .remap → (d.act.run w).state.backing.retired =
      w.backing.retired + if d.grows ∧ (d.act.run w).result = .ok () then 1 else 0) := by
  have hlater := Deed.later h.toAnchored hd
  cases d with
  | expandTo size =>
    obtain ⟨hregular, hcount⟩ := h.expandRange w.center size
    refine ⟨hregular, fun hremap => ?_⟩
    simp only [grows, true_and]
    exact hcount hremap
  | expandRange center size =>
    obtain ⟨hregular, hcount⟩ := h.expandRange center size
    refine ⟨hregular, fun hremap => ?_⟩
    simp only [grows, true_and]
    exact hcount hremap
  | fill p size byte => exact ⟨{ h with toAnchored := hlater.anchored }, fun _ => rfl⟩
  | copy p source => exact ⟨{ h with toAnchored := hlater.anchored }, fun _ => rfl⟩

theorem Course.regular {w w' : Window} {rounds : List Round} (h : w.Regular)
    (hrun : Course w rounds w') (hhosts : ∀ r ∈ rounds, r.host.Generous) : w'.Regular ∧
      (w.strategy = .remap → w'.backing.retired = w.backing.retired + Deed.growths w rounds) := by
  induction hrun with
  | nil w => exact ⟨h, fun _ => rfl⟩
  | @cons host w w' d rounds allowed _ ih =>
    have hgenerous : Host.Generous := hhosts ⟨host, d⟩ List.mem_cons_self
    obtain ⟨hnext, hcount⟩ := Deed.regular h allowed
    obtain ⟨hlast, hcounts⟩ := ih hnext fun r hr => hhosts r (List.mem_cons_of_mem _ hr)
    have hstrategy := (Deed.later h.toAnchored allowed).strategy
    refine ⟨hlast, fun hremap => ?_⟩
    rw [hcounts (hstrategy.trans hremap), hcount hremap, Deed.growths, Nat.add_assoc]

/-! ### Making -/

/-- The first window of a new backing has no holes either, and supersedes no view. -/
theorem first_follows [Host] [Host.Generous] (owner : Purpose) {e : Extent} {size : Nat}
    {b : Backing} (halign : e.Aligned) (hfile : e.total < Host.fileSpan) (hroom : size ≤ e.front)
    (hpos : 0 < size) (hb : Bare e b) :
    (Backing.expand owner e 0 size).Meets b
      (fun answer b' => answer = .ok () → b'.strategy = b.strategy ∧ b'.retired = 0 ∧
        (∀ purpose, (⟨purpose, e, 0, size, b', .blank⟩ : Window).Backed) ∧
        ∀ lo hi pieces, b' = .pinned lo hi pieces → Backing.Pieced pieces lo hi) Never := by
  have hpage : pageSize ∣ e.back - 0 := halign.1
  rcases hb with rfl | rfl
  · have hinside : e.back - 0 + size ≤ e.total := by
      rw [Extent.total]
      omega
    rw [Meets, Backing.run_expand_remap hfile hinside]
    cases Host.showing owner (e.back - 0) size with
    | none =>
      refine fun _ => ⟨rfl, rfl, fun _ => ⟨rfl, fun v hv => ?_⟩, fun _ _ _ hpinned =>
        Backing.noConfusion hpinned⟩
      rw [List.mem_singleton.mp hv]
      rfl
    | some cause => rintro ⟨⟩
  · rw [Meets, Backing.run_expand_first hpage (by omega) (by omega)]
    refine fun _ => ⟨rfl, rfl, fun _ => ⟨rfl, rfl⟩, ?_⟩
    rintro _ _ _ ⟨⟩
    exact .first (by omega)

theorem create_regular [Host] [Host.Generous] (purpose : Purpose) (initial : Nat) (e : Extent)
    (strategy : Strategy) :
    (create purpose initial e strategy).Meets ()
      (fun w _ => w.Regular ∧ w.extent = e ∧ w.strategy = strategy ∧ w.backing.retired = 0)
      fun _ _ => True := by
  simp only [create, meets_bind, meets_ensure, meets_ite, meets_refuse, implies_true, and_true,
    true_and]
  intro halign hinitial _ hfront
  have hpos : 0 < roundUp initial pageSize :=
    Nat.lt_of_lt_of_le hinitial (roundUp_ge _ (by decide))
  have hspan : (Backing.create purpose e strategy).Meets () (fun _ _ => e.total < Host.fileSpan)
      fun _ _ => True := by
    unfold Meets
    split
    · exact ((backing_create_leaves purpose e strategy).2 _ ‹_›).1
    · trivial
  refine (hspan.and_answers (backing_create_meets purpose e strategy)).imp fun b _ hb => ?_
  obtain ⟨hfile, hbare, rfl⟩ := hb
  have hfollows := first_follows purpose halign hfile (Nat.not_lt.mp hfront) hpos hbare
  unfold Meets at hfollows
  rcases hrun : (Backing.expand purpose e 0 (roundUp initial pageSize)).run b with
    ⟨fault | why | u, b', es⟩
  · trivial
  · trivial
  · rw [hrun] at hfollows
    obtain ⟨hstrategy, hretired, hbacked, hpieced⟩ := hfollows rfl
    simp only [meets_bind, meets_emit, meets_pure, true_and]
    exact ⟨⟨⟨Nat.zero_le _, hbacked purpose⟩, halign, hfile, Nat.not_lt.mp hfront, Nat.zero_le _,
      hpos, Nat.dvd_zero _, dvd_roundUp _ _, hpieced⟩, hstrategy, hretired⟩

/-! ### What growth comes to -/

theorem Regular.shows_place_iff (h : w.Regular) {x : Int} {n : Nat} :
    w.Shows (w.place x) n ↔ w.lo ≤ x ∧ x + n ≤ w.hi := by
  refine ⟨fun hshows => ?_, fun hinside => h.toAnchored.shows_place hinside.1 hinside.2⟩
  have hbacked := h.backed
  have hcenter := h.center_le_back
  unfold Backed at hbacked
  unfold Shows at hshows
  simp only [lo, hi]
  split at hbacked
  · rename_i views hviews
    simp only [hviews] at hshows
    obtain ⟨v, hv, hlo, hhi⟩ := hshows
    obtain ⟨rest, rfl⟩ := List.head?_eq_some_iff.mp hbacked.1
    have hnewest : w.newestView = rest.length := by
      rw [newestView, hviews]
      rfl
    obtain rfl : (⟨w.extent.back - w.center, w.size, w.center⟩ : View) = v := by
      simpa [place, hnewest] using hv
    exact ⟨hlo, hhi⟩
  · rename_i lo hi pieces hpinned
    simp only [hpinned, place] at hshows
    omega

/-- The pieces of a pinned window, by offsets: each of its bytes lies in a piece, and no other one
does. -/
theorem Regular.pieces_cover (h : w.Regular) {lo hi : Nat} {pieces : List (Nat × Nat)}
    (hw : w.backing = .pinned lo hi pieces) (x : Int) :
    (∃ k ∈ pieces, (k.1 : Int) ≤ w.extent.back + x ∧ w.extent.back + x < k.2) ↔
      w.lo ≤ x ∧ x < w.hi := by
  have hbacked := h.backed
  have hcenter := h.center_le_back
  have hpieced := h.pieced lo hi pieces hw
  simp only [Backed, hw] at hbacked
  simp only [Window.lo, Window.hi]
  refine ⟨?_, fun hx => ?_⟩
  · rintro ⟨k, hk, hlo, hhi⟩
    have hwithin := hpieced.within hk
    omega
  · obtain ⟨k, hk, hlo, hhi⟩ := (hpieced.covers (w.extent.back + x).toNat).mpr (by omega)
    exact ⟨k, hk, by omega, by omega⟩

theorem Regular.pinned (h : w.Regular) (hw : w.strategy = .pinned) :
    ∃ pieces, w.backing = .pinned (w.extent.back - w.center)
      (w.extent.back - w.center + w.size) pieces := by
  have hbacked := h.backed
  unfold strategy at hw
  unfold Backed at hbacked
  split at hbacked
  · rename_i views hviews
    rw [hviews] at hw
    cases hw
  · rename_i lo hi pieces hpinned
    obtain ⟨rfl, rfl⟩ := hbacked
    exact ⟨pieces, hpinned⟩

theorem Regular.segments_remap (h : w.Regular) (hw : w.strategy = .remap) :
    w.backing.segments = 1 := by
  have hbacked := h.backed
  unfold strategy at hw
  unfold Backed at hbacked
  split at hbacked
  · rename_i views hviews
    obtain ⟨rest, rfl⟩ := List.head?_eq_some_iff.mp hbacked.1
    rw [hviews]
    exact Nat.min_eq_right (Nat.succ_le_succ (Nat.zero_le _))
  · rename_i lo hi pieces hpinned
    rw [hpinned] at hw
    cases hw

/-- Whatever growth was asked for before, and whatever was stored, as long as the hosts commit what
is whole pages: a window that may grow as it is asked to shows exactly what was asked for, and
otherwise nothing at all changes and nothing is counted; growth that fits is turned down only where
a view would be as long as the address space. The window lies inside its extent, and neither side
ever shrinks. Without views it is made of pieces beside each other, as many as are counted; with
views it has superseded one for each growth that succeeded. -/
theorem growth_exact [Host] [Host.Generous] {purpose : Purpose} {initial : Nat} {e : Extent}
    {strategy : Strategy} {w w₁ w₂ : Window} {rounds more : List Round}
    (hcreate : ((create purpose initial e strategy).run ()).result = .ok w)
    (hrounds : Course w rounds w₁) (hhosts : ∀ r ∈ rounds, r.host.Generous)
    (hmore : Course w₁ more w₂) :
    (∀ [Host] [Host.Generous] center size, w₁.Accepts center size →
      (expandRange center size).Leaves w₁ fun r _ w' =>
        r = .ok () ∧ w'.center = center ∧ w'.size = size ∧
          ∀ (x : Int) (n : Nat), w'.Shows (w'.place x) n ↔
            -(center : Int) ≤ x ∧ x + n ≤ (size : Int) - center) ∧
    (∀ [Host] center size, ¬ w₁.Accepts center size →
      (expandRange center size).Leaves w₁ fun r es w' =>
        (∃ fault, r = .error fault) ∧ w' = w₁ ∧ ∀ ev ∈ es, ∃ n, ev = .note n) ∧
    (∀ [Host] [Host.Generous] center size, w₁.Fits center size →
      (strategy = .remap → size < Host.addressSpan) → w₁.Accepts center size) ∧
    (∀ [Host] size, (expandTo size).run w₁ = (expandRange w₁.center size).run w₁) ∧
    (-(e.back : Int) ≤ w₁.lo ∧ w₁.hi ≤ e.front) ∧
    (w₂.lo ≤ w₁.lo ∧ w₁.hi ≤ w₂.hi) ∧
    (strategy = .pinned → ∃ pieces,
      w₁.backing = .pinned (e.back - w₁.center) (e.back - w₁.center + w₁.size) pieces ∧
      (∀ k ∈ pieces, k.1 < k.2) ∧ (pieces.Pairwise fun k l => k.2 ≤ l.1 ∨ l.2 ≤ k.1) ∧
      (∀ x : Int, (∃ k ∈ pieces, (k.1 : Int) ≤ e.back + x ∧ e.back + x < k.2) ↔
        w₁.lo ≤ x ∧ x < w₁.hi) ∧
      w₁.backing.segments = pieces.length) ∧
    (strategy = .remap →
      w₁.backing.segments = 1 ∧ w₁.backing.retired = Deed.growths w rounds) := by
  obtain ⟨hfirst, rfl, rfl, hnone⟩ := (create_regular purpose initial e strategy).of_ok hcreate
  obtain ⟨h, hretired⟩ := hrounds.regular hfirst hhosts
  have hlater := hrounds.later hfirst.toAnchored
  have hmoreLater := hmore.later h.toAnchored
  have hcenter := h.center_le_back
  have hfront := h.front_le_front
  rw [hlater.extent] at hcenter hfront
  refine ⟨fun center size hask => ?_, fun center size => h.stays,
    fun center size hfits hsmall => h.accepts_of_lt hfits fun hremap =>
      hsmall (hlater.strategy.symm.trans hremap), fun size => rfl, ?_,
      ⟨hmoreLater.lo_le, hmoreLater.le_hi⟩, fun hpinned => ?_, fun hremap => ?_⟩
  · refine (h.grows hask).imp fun r es w' hres => ?_
    obtain ⟨hr, b, rfl, -, hregular⟩ := hres
    exact ⟨hr, rfl, rfl, fun x n => hregular.shows_place_iff⟩
  · simp only [lo, hi]
    omega
  · obtain ⟨pieces, hw⟩ := h.pinned (hlater.strategy.trans hpinned)
    have hpieced := h.pieced _ _ _ hw
    have hcover := h.pieces_cover hw
    rw [hlater.extent] at hw hcover
    exact ⟨pieces, hw, hpieced.nonempty, hpieced.apart, hcover, by rw [hw]; rfl⟩
  · rw [hretired hremap, hnone, Nat.zero_add]
    exact ⟨h.segments_remap (hlater.strategy.trans hremap), rfl⟩

section

attribute [local instance] Host.plain

/-- A window that has grown at the front and then on both sides at once, with a request in between
that shrinks it and one that leaves the extent: four pieces without a hole. -/
theorem growth_exact_of_four : ∃ w w₁ : Window,
    ((create .arena 1 ⟨8192, 16384⟩ .pinned).run ()).result = .ok w ∧
    Course w (plainly [.expandTo 8192, .expandTo 4096, .expandRange 4096 16384,
      .expandRange 12288 24576]) w₁ ∧
    w₁.lo = -4096 ∧ w₁.hi = 12288 ∧ w₁.backing.segments = 4 ∧
    ∃ pieces, w₁.backing = .pinned 4096 20480 pieces ∧ pieces.length = 4 ∧
      ∀ x : Int, (∃ k ∈ pieces, (k.1 : Int) ≤ 8192 + x ∧ 8192 + x < k.2) ↔
        -4096 ≤ x ∧ x < 12288 := by
  have hrun : ∃ w w₁ : Window, ((create .arena 1 ⟨8192, 16384⟩ .pinned).run ()).result = .ok w ∧
      Course w (plainly [.expandTo 8192, .expandTo 4096, .expandRange 4096 16384,
        .expandRange 12288 24576]) w₁ ∧
      w₁.center = 4096 ∧ w₁.size = 16384 ∧ w₁.backing.segments = 4 :=
    ⟨_, _, rfl, .cons trivial <| .cons trivial <| .cons trivial <| .cons trivial <| .nil _,
      rfl, rfl, rfl⟩
  obtain ⟨w, w₁, hcreate, hdeeds, hcenter, hsize, hsegments⟩ := hrun
  obtain ⟨-, -, -, -, -, -, hpinned, -⟩ :=
    growth_exact hcreate hdeeds (generous_of_plainly _) (.nil w₁)
  obtain ⟨pieces, hw, -, -, hcover, hcount⟩ := hpinned rfl
  have hlo : w₁.lo = -4096 := by rw [lo, hcenter]; rfl
  have hhi : w₁.hi = 12288 := by rw [hi, hcenter, hsize]; rfl
  rw [hcenter, hsize] at hw
  rw [hlo, hhi] at hcover
  exact ⟨w, w₁, hcreate, hdeeds, hlo, hhi, hsegments, pieces, hw, hcount ▸ hsegments, hcover⟩

end

end Window

end SlotArena
