import SlotArena.Proofs.Charges
import SlotArena.Proofs.Estate

/-!
What pools charge. A pool charges what its arena and its roster do, and its live slots. Whatever it
is asked for, and whatever becomes of that, is booked (`alloc_booked`, `free_booked`): a slot counts
from the moment its record is marked, whether or not it reaches whoever asked for it, and a slot
that is taken back counts until its record is found to agree. A pool that cannot be made comes to
nothing, for the arena that it had by then is given up (`opens`), and a pool that is given up takes
its live slots with it (`closes`).
-/

namespace SlotArena

open Act

namespace Pool

def charge (p : Pool) (g : Gauge) : Nat :=
  p.arena.window.charge g + p.roster.window.charge g + if g = .live then p.liveCount else 0

/-- No more records are known to be handed out than are counted. -/
def account : Account Pool where
  keeps p := Window.account.keeps p.arena.window ∧ Window.account.keeps p.roster.window ∧
    p.live.size ≤ p.liveCount
  charge := charge

variable {p q : Pool} {α : Type}

theorem books_same (harena : q.arena = p.arena) (hroster : q.roster = p.roster)
    (hlive : q.live = p.live) (hcount : q.liveCount = p.liveCount) : account.Books p [] q := by
  refine .silent (fun hp => ?_) fun g => ?_
  · show _ ∧ _ ∧ _
    rw [harena, hroster, hlive, hcount]
    exact hp
  · show q.charge g = p.charge g
    rw [charge, charge, harena, hroster, hcount]

/-! ### Parts -/

theorem onArena_booked {x : Act Arena α} (h : Booked Arena.account x) :
    Booked account (onArena x) :=
  h.focus (fun _ hp => hp.1) (fun _ _ hp ha => ⟨ha, hp.2⟩) fun p a g => by
    show a.window.charge g + p.roster.window.charge g + _ + p.arena.window.charge g =
      p.arena.window.charge g + p.roster.window.charge g + _ + a.window.charge g
    dsimp only
    omega

theorem onRoster_booked {x : Act Roster α} (h : Booked Roster.account x) :
    Booked account (onRoster x) :=
  h.focus (fun _ hp => hp.2.1) (fun _ _ hp hr => ⟨hp.1, hr, hp.2.2⟩) fun p r g => by
    show p.arena.window.charge g + r.window.charge g + _ + p.roster.window.charge g =
      p.arena.window.charge g + p.roster.window.charge g + _ + r.window.charge g
    dsimp only
    omega

theorem onWindow_booked {x : Act Window α} (h : Booked Window.account x) :
    Booked account (onWindow x) := onArena_booked (Arena.onWindow_booked h)

theorem onCarve_booked (c : SizeClass) {x : Act Cursor α} (h : ∀ s, (x.run s).events = []) :
    Booked account (onCarve c x) := booked_beside h fun _ _ => books_same rfl rfl rfl rfl

theorem holding_booked {σ : Type} {A : Account σ} (size : Nat) :
    Booked A (SizeClass.holding size : Act σ SizeClass) := by
  refine (booked_checked _ _ _).bind fun _ => ?_
  split
  · exact booked_pure _
  · exact booked_fail _

theorem pushFree_booked (c : SizeClass) (first count : Nat) :
    Booked account (pushFree c first count) :=
  booked_get_bind fun _ => (onRoster_booked (Chain.push_booked _ _ _)).bind fun _ =>
    booked_modify fun _ => books_same rfl rfl rfl rfl

theorem popFree_booked (c : SizeClass) : Booked account (popFree c) :=
  booked_get_bind fun _ => booked_ite (booked_pure _) <| booked_get_bind fun _ =>
    (onRoster_booked (Chain.pop_booked _)).bind fun _ =>
      Booked.bind (booked_modify fun _ => books_same rfl rfl rfl rfl) fun _ => booked_pure _

theorem pushBack_booked (i : Nat) : Booked account (pushBack i) :=
  booked_get_bind fun _ => (onRoster_booked (Chain.push_booked _ _ _)).bind fun _ =>
    booked_modify fun _ => books_same rfl rfl rfl rfl

theorem popBack_booked : Booked account popBack :=
  booked_get_bind fun _ => (onRoster_booked (Chain.pop_booked _)).bind fun _ =>
    Booked.bind (booked_modify fun _ => books_same rfl rfl rfl rfl) fun _ => booked_pure _

theorem slotAt_booked (i : Nat) : Booked account (slotAt i) :=
  (onRoster_booked (Roster.get_booked i)).bind fun _ =>
    (onArena_booked (Arena.place_booked _)).bind fun _ => booked_pure _

/-! ### Slots -/

theorem books_handing (p : Pool) (i : Nat) : account.Books p [.raise .live 1] (p.handing i) :=
  fun hp => by
    refine ⟨⟨hp.1, hp.2.1, ?_⟩, fun g => ?_, ?_⟩
    · exact Std.TreeSet.size_insert_le.trans (Nat.add_le_add_right hp.2.2 1)
    · by_cases hg : g = .live
      · subst hg
        simp [account, charge, handing, Int.add_assoc]
      · simp [account, charge, handing, hg, Ne.symm hg]
    · rintro e he
      obtain rfl := List.mem_singleton.mp he
      exact (by decide : 1 ≤ Counter.largestDelta)

theorem handOut_booked (i : Nat) : Booked account (handOut i) := by
  intro p
  refine traces_get_bind (traces_ensure_bind account.path ?_)
  simp only [Traces, leaves_bind, leaves_modify, leaves_emit, List.nil_append]
  exact Leaves.imp (slotAt_booked i (p.handing i)) fun _ _ _ h =>
    account.path.trans (books_handing p i) h

theorem live_pos {i : Nat} (hi : p.live.contains i) : 0 < p.live.size := by
  refine Nat.pos_of_ne_zero fun hzero => ?_
  have hempty : p.live.isEmpty := by
    rw [Std.TreeSet.isEmpty_eq_size_eq_zero, hzero, beq_self_eq_true]
  rw [Std.TreeSet.contains_of_isEmpty hempty] at hi
  exact Bool.noConfusion hi

theorem books_taken {i : Nat} (hi : p.live.contains i) :
    account.Books p [.lower .live 1]
      { p with live := p.live.erase i, liveCount := p.liveCount - 1 } := fun hp => by
  have hsize : (p.live.erase i).size = p.live.size - 1 := by
    rw [Std.TreeSet.size_erase, if_pos hi]
  have hpos := live_pos hi
  have hcount := hp.2.2
  refine ⟨⟨hp.1, hp.2.1, ?_⟩, fun g => ?_, ?_⟩
  · show (p.live.erase i).size ≤ p.liveCount - 1
    omega
  · by_cases hg : g = .live
    · subst hg
      simp only [account, charge, if_true, Event.net_cons, Event.net_nil, Event.change_lower]
      omega
    · simp [account, charge, hg, Ne.symm hg]
  · rintro e he
    obtain rfl := List.mem_singleton.mp he
    exact (by decide : 1 ≤ Counter.largestDelta)

/-- Until its record is found to agree, a slot that is taken back is charged for. -/
theorem books_erased (p : Pool) (i : Nat) : account.Books p [] { p with live := p.live.erase i } :=
  .silent (fun hp => ⟨hp.1, hp.2.1, Nat.le_trans Std.TreeSet.size_erase_le hp.2.2⟩) fun _ => rfl

theorem free_booked (slot : Slot) : Booked account (free slot) := by
  refine booked_ite (booked_pure _) fun p => traces_get_bind (traces_ensure_bind account.path ?_)
  have herased := books_erased p slot.idx
  simp only [Traces, leaves_bind, leaves_ensure, leaves_modify, leaves_emit, onRoster, leaves_focus,
    Roster.get, leaves_get, leaves_pure, List.nil_append]
  refine ⟨fun hcontains => ⟨fun _ => ⟨fun _ => ⟨fun _ => ?_, fun _ => herased⟩, fun _ => herased⟩,
    fun _ => herased⟩, fun _ => account.path.refl p⟩
  have hback : Booked account (do
      Act.ensure (slot.size = p.blockSize) (.disagreement .backSlotSize slot.size p.blockSize)
      pushBack slot.idx) := (booked_ensure _ _).bind fun _ => pushBack_booked _
  have hfront : Booked account (do pushFree (← SizeClass.holding slot.size) slot.idx 1) :=
    (holding_booked _).bind fun _ => pushFree_booked _ _ _
  exact Leaves.imp (booked_ite hback hfront _) fun _ _ _ hbooks =>
    account.path.trans (books_taken hcontains) hbooks

/-! ### Memory -/

theorem leak_booked (bytes : Nat) (offset : Int) : Booked account (leak bytes offset) :=
  Booked.bind (booked_modify fun _ => books_same rfl rfl rfl rfl) fun _ => booked_note _

theorem returnBlocks_booked [Host] (offset : Int) (count size : Nat) :
    Booked account (returnBlocks offset count size) := by
  refine booked_ite (booked_pure _) <| (booked_ensure _ _).bind fun _ => booked_get_bind fun _ =>
    (booked_ensure _ _).bind fun _ => (onRoster_booked (Roster.add_booked count)).bind fun _ => ?_
  refine (booked_sweep (fun i => ?_) _ _).bind fun _ => (holding_booked _).bind fun _ =>
    pushFree_booked _ _ _
  exact (booked_checked _ _ _).bind fun _ => (booked_checked _ _ _).bind fun _ =>
    onRoster_booked (Roster.edit_booked _ _)

theorem peel_booked [Host] (offset : Int) (remaining size : Nat) :
    Booked account (peel offset remaining size) := by
  refine booked_ite (booked_pure _) <| (booked_checked _ _ _).bind fun _ =>
    (returnBlocks_booked _ _ _).attempt.bind fun answer => ?_
  rcases answer with (why | _ | _) | _
  · exact (leak_booked _ _).bind fun _ => booked_fail _
  · exact booked_fail _
  · exact booked_fail _
  · exact booked_pure _

theorem peelDown_booked [Host] (offset : Int) (fuel size remaining : Nat) :
    Booked account (peelDown offset fuel size remaining) := by
  induction fuel generalizing size remaining with
  | zero => exact booked_pure _
  | succ fuel ih =>
    exact booked_ite ((peel_booked _ _ _).bind fun rest => ih _ rest) (booked_pure _)

theorem splitChunk_booked [Host] (offset : Int) (size : Nat) (cap : Option Nat) :
    Booked account (splitChunk offset size cap) :=
  (booked_ensure _ _).bind fun _ => booked_get_bind fun _ => (peel_booked _ _ _).bind fun _ =>
    (peelDown_booked _ _ _ _).bind fun _ => booked_ite (leak_booked _ _) (booked_pure _)

/-! ### Requests -/

theorem popFirst_booked (classes : List SizeClass) : Booked account (popFirst classes) := by
  refine booked_get_bind fun p => ?_
  cases p.firstFree classes with
  | none => exact booked_pure _
  | some c => exact (popFree_booked c).bind fun _ => booked_pure _

theorem shrink_booked [Host] (larger : SizeClass) (i size : Nat) :
    Booked account (shrink larger i size) := by
  refine (onRoster_booked (Roster.get_booked i)).bind fun _ => (booked_ensure _ _).bind fun _ =>
    (onRoster_booked (Roster.edit_booked _ _)).bind fun _ => (booked_checked _ _ _).bind fun _ =>
      (splitChunk_booked _ _ _).attempt.bind fun answer => ?_
  rcases answer with (why | _ | _) | _
  · exact booked_note _
  · exact booked_fail _
  · exact booked_fail _
  · exact booked_pure _

theorem publish_booked (c : SizeClass) (cur : Cursor) :
    Booked account (onCarve c (Cursor.publish cur)) :=
  onCarve_booked c fun _ => rfl

theorem carve_booked [Host] (c : SizeClass) : Booked account (carve c) := by
  refine booked_get_bind fun _ => booked_ite (onArena_booked (Arena.alloc_booked _)) ?_
  refine (onCarve_booked c fun s => by rw [Cursor.run_reserve]).bind fun verdict => ?_
  cases verdict with
  | fits offset => exact booked_pure _
  | wait before => exact booked_fail _
  | mustGrow before =>
    refine (onArena_booked (Arena.alloc_booked _)).attempt.bind fun answer => ?_
    rcases answer with (why | _ | _) | block
    · exact (publish_booked c before).bind fun _ => booked_fail _
    · exact booked_fail _
    · exact booked_fail _
    · exact (booked_checked _ _ _).bind fun _ => (booked_checked _ _ _).bind fun _ =>
        (publish_booked c _).bind fun _ => booked_pure _

theorem enroll_booked [Host] (offset : Int) (size : Nat) : Booked account (enroll offset size) := by
  refine (onRoster_booked (Roster.add_booked 1)).attempt.bind fun answer => ?_
  rcases answer with (why | _ | _) | i
  · exact Booked.bind (booked_modify fun _ => books_same rfl rfl rfl rfl) fun _ => booked_fail _
  · exact booked_fail _
  · exact booked_fail _
  · exact (onRoster_booked (Roster.edit_booked _ _)).bind fun _ => booked_pure _

theorem alloc_booked [Host] (size align : Nat) : Booked account (alloc size align) := by
  refine booked_ite (booked_pure _) <| booked_get_bind fun _ => (booked_ensure _ _).bind fun _ =>
    (booked_ensure _ _).bind fun _ => (holding_booked _).bind fun c =>
      (popFree_booked c).bind fun top => ?_
  cases top with
  | some i => exact handOut_booked i
  | none =>
    refine (popFirst_booked _).bind fun found => ?_
    cases found with
    | some found => exact (shrink_booked _ _ _).bind fun _ => handOut_booked _
    | none =>
      exact (carve_booked c).bind fun _ => (enroll_booked _ _).bind fun _ => handOut_booked _

theorem allocBack_booked [Host] : Booked account allocBack := by
  refine popBack_booked.bind fun top => ?_
  cases top with
  | some i => exact handOut_booked i
  | none =>
    exact booked_get_bind fun _ => (onArena_booked (Arena.allocBack_booked _)).bind fun _ =>
      (enroll_booked _ _).bind fun _ => handOut_booked _

/-! ### Making and giving up -/

/-- A pool without a roster comes to nothing, and the arena that it has by then is given up. -/
theorem opens [Host] (config : PoolConfig) : account.Opens (create config) := by
  refine .ensure_bind fun _ => ?_
  have harena := Arena.opens config.arena
  rcases hmade : (Arena.create config.arena).run () with ⟨_ | arena, _, es⟩
  · obtain ⟨hnet, hmodest⟩ := harena.net_error hmade
    rw [Account.Opens, Leaves, run_bind_error hmade]
    exact .failed hnet hmodest
  obtain ⟨hkeeps, hnet, hmodest⟩ := harena.net hmade
  have hroster := Roster.opens (min config.capacity 1024) config.capacity config.arena.strategy
  rcases hmade' : (Roster.create (min config.capacity 1024) config.capacity
    config.arena.strategy).run () with ⟨fault | roster, _, fs⟩
  · obtain ⟨hnet', hmodest'⟩ := hroster.net_error hmade'
    obtain ⟨hback, hmodest''⟩ :=
      Arena.closes.net hkeeps (Arena.charge_lt_of_create (congrArg Outcome.result hmade))
    have hattempt : ((Roster.create (min config.capacity 1024) config.capacity
        config.arena.strategy).attempt).run () = ⟨.ok (.error fault), (), fs⟩ := by
      rw [run_attempt, hmade']
    rw [Account.Opens, Leaves, run_bind_ok hmade, run_bind_ok hattempt]
    show account.optional.Books none (es ++ (fs ++ (arena.closing ++ []))) none
    rw [List.append_nil]
    refine .failed (fun g => ?_) ?_
    · rw [Event.net_append, Event.net_append, hnet, hnet', hback]
      omega
    · exact List.forall_mem_append.mpr ⟨hmodest, List.forall_mem_append.mpr ⟨hmodest', hmodest''⟩⟩
  · obtain ⟨hkeeps', hnet', hmodest'⟩ := hroster.net hmade'
    have hattempt : ((Roster.create (min config.capacity 1024) config.capacity
        config.arena.strategy).attempt).run () = ⟨.ok (.ok roster), (), fs⟩ := by
      rw [run_attempt, hmade']
    rw [Account.Opens, Leaves, run_bind_ok hmade, run_bind_ok hattempt]
    refine .made ⟨hkeeps, hkeeps', Nat.le_refl _⟩ (fun g => ?_) ?_
    · show Event.net g (es ++ (fs ++ ([.note _] ++ []))) =
        (arena.window.charge g + roster.window.charge g + if g = .live then 0 else 0 : Nat)
      have harena' : Event.net g es = arena.window.charge g := hnet g
      have hroster' : Event.net g fs = roster.window.charge g := hnet' g
      simp [harena', hroster']
    · refine List.forall_mem_append.mpr ⟨hmodest, List.forall_mem_append.mpr ⟨hmodest', ?_⟩⟩
      exact fun e he => List.mem_singleton.mp he ▸ Event.modest_note _

theorem net_dropped (p : Pool) (g : Gauge) :
    Event.net g (if 0 < p.liveCount then
      [.note (.poolDropped p.liveCount), .lower .live p.liveCount] else []) =
      -((if g = .live then p.liveCount else 0 : Nat) : Int) := by
  by_cases hzero : p.liveCount = 0
  · simp [hzero]
  · by_cases hg : g = .live
    · simp [hg, Nat.pos_of_ne_zero hzero]
    · simp [hg, Ne.symm hg, Nat.pos_of_ne_zero hzero]

theorem net_closing (p : Pool) (g : Gauge) : Event.net g p.closing = -(p.charge g : Int) := by
  have harena : Event.net g p.arena.closing = -(p.arena.window.charge g : Int) :=
    Window.net_closing p.arena.window g
  have hroster : Event.net g p.roster.closing = -(p.roster.window.charge g : Int) :=
    Window.net_closing p.roster.window g
  rw [closing, Event.net_append, Event.net_append, net_dropped, harena, hroster, charge]
  omega

theorem closes : account.Closes closing := by
  intro p hlt hp
  obtain ⟨hkeeps, hkeeps', -⟩ := hp p rfl
  have hsum : ∀ g, p.arena.window.charge g + p.roster.window.charge g +
      (if g = .live then p.liveCount else 0) < 2 ^ 63 := hlt
  have harena : ∀ g, p.arena.window.charge g < 2 ^ 63 := fun g => by
    have hg := hsum g
    omega
  have hroster : ∀ g, p.roster.window.charge g < 2 ^ 63 := fun g => by
    have hg := hsum g
    omega
  have hlive : p.liveCount < 2 ^ 63 := by
    have hg := hsum .live
    rw [if_pos rfl] at hg
    omega
  obtain ⟨-, hmodest⟩ := Arena.closes.net hkeeps harena
  obtain ⟨-, hmodest'⟩ := Roster.closes.net hkeeps' hroster
  refine ⟨account.keeps_none, fun g => ?_, ?_⟩
  · show (0 : Int) = (p.charge g : Int) + Event.net g p.closing
    rw [net_closing]
    omega
  · refine List.forall_mem_append.mpr ⟨List.forall_mem_append.mpr ⟨?_, hmodest⟩, hmodest'⟩
    split
    · have hmost : p.liveCount ≤ Counter.largestDelta := Nat.le_sub_one_of_lt hlive
      simpa using hmost
    · simp

end Pool

end SlotArena
