import SlotArena.Proofs.Together

/-!
What a refused block leaves behind. A claim adds to its cursor before it knows whether there is
space, and growth then reads the cursors of both sides; so a refusal has to put the very cursor back
that the claim found, also where its end lags behind the window because the other side has grown.
Growth finds out that there is no space before it changes anything, and the window moves its bounds
only after the host has granted all that it was asked for. What it asks for is enough, so it is
never refused after it has succeeded once.

Main statement: in whatever state an arena is, and whoever refuses, a block that is refused leaves
all as it was but for pieces that the host committed for nothing, no gauge reads anything else, and
whatever is asked later is answered as if the block had never been asked for (`refused_unfelt`).
-/

namespace SlotArena

open Act

/-! ### What is told of a refusal -/

/-- What is told before a refusal: nothing where space is short, and where the host declines no more
than that it did. -/
def Refusal.Told : Refusal → List Event → Prop
  | .growth _, es => ∀ ev ∈ es, ∃ n, ev = .note n
  | _, es => es = []

theorem Refusal.Told.notes {why : Refusal} {es : List Event} (h : why.Told es) :
    ∀ ev ∈ es, ∃ n, ev = .note n := by
  cases why with
  | growth why => exact h
  | _ =>
    obtain rfl : es = [] := h
    exact fun ev hev => absurd hev List.not_mem_nil

theorem Gauges.absorb_notes (g : Gauges) {es : List Event} (h : ∀ ev ∈ es, ∃ n, ev = .note n) :
    g.absorb es = g := by
  induction es with
  | nil => rfl
  | cons ev es ih =>
    obtain ⟨n, rfl⟩ := h ev List.mem_cons_self
    exact ih fun ev hev => h ev (List.mem_cons_of_mem _ hev)

/-- Whoever is refused was told no more than it may be. -/
def Act.Mute {σ α : Type} (x : Act σ α) (s : σ) : Prop :=
  x.Leaves s fun r es _ => ∀ why, r = .error (.refused why) → why.Told es

/-- What never refuses adds nothing to what is told before a refusal. -/
theorem Act.Mute.bind {σ α β : Type} {s : σ} {x : Act σ α} {f : α → Act σ β} (h : x.Mute s)
    (hf : ∀ a t, (x.run s).result = .ok a →
      (f a).Leaves t fun r _ _ => ∀ why, r ≠ .error (.refused why)) : (x >>= f).Mute s := by
  rw [Mute, leaves_bind]
  unfold Mute Leaves at *
  cases hanswer : (x.run s).result with
  | error fault =>
    rw [hanswer] at h
    simpa using h
  | ok a => exact fun _ hrefused => absurd hrefused (hf a _ hanswer _)

theorem Window.expandRange_mute [Host] (center size : Nat) (w : Window) :
    (expandRange center size).Mute w := by
  simp only [Mute, expandRange, leaves_bind, leaves_get, leaves_ensure, leaves_ite, leaves_refuse]
  refine ⟨fun _ => ⟨fun _ => ⟨fun _ => ⟨fun _ => ?_, fun _ => ⟨fun _ => ?_, fun _ => ?_⟩⟩, by simp⟩,
    by simp⟩, by simp⟩
  · rintro _ ⟨⟩
    rfl
  · rintro _ ⟨⟩
    rfl
  · simp only [onBacking, leaves_focus]
    refine (Backing.expand_leaves w.purpose w.extent center size w.backing).imp fun r es b h => ?_
    obtain ⟨-, -, hquiet⟩ := h
    rcases r with fault | why | _
    · rintro why ⟨⟩
      exact (hquiet.1 why rfl).elim
    · obtain rfl := hquiet.2 why rfl
      simp only [leaves_bind, leaves_note, leaves_refuse]
      rintro _ ⟨⟩
      exact fun ev hev => ⟨_, List.mem_singleton.mp hev⟩
    · simp only [leaves_bind, leaves_emit, leaves_note, leaves_modify]
      rintro _ ⟨⟩

/-- Growth that is enough is not asked for again, so nothing was told before it was refused. -/
theorem Cursor.growUntil_mute {σ : Type} {grow : Act σ Nat} {next stop : Nat} {s : σ}
    (hshort : stop < next) (henough : ∀ stop', (grow.run s).result = .ok stop' → next ≤ stop')
    (hgrow : grow.Mute s) : (growUntil grow next (next + 1) stop).Mute s := by
  obtain ⟨fuel, rfl⟩ : ∃ fuel, next = fuel + 1 := Nat.exists_eq_add_one_of_ne_zero (by omega)
  rw [Mute, growUntil, if_pos hshort, leaves_bind]
  unfold Mute Leaves at *
  cases hanswer : (grow.run s).result with
  | error fault =>
    rw [hanswer] at hgrow
    exact hgrow
  | ok stop' =>
    dsimp only
    rw [growUntil, if_neg (Nat.not_lt.mpr (henough stop' hanswer))]
    simp

theorem Cursor.claim_mute {σ : Type} {part : σ → Cursor} {replace : σ → Cursor → σ}
    {grow : Act σ Nat} {amount : Nat} {s : σ}
    (henough : ∀ stop,
      (grow.run (replace s ⟨(part s).next + amount, (part s).stop⟩)).result = .ok stop →
        (part s).next + amount ≤ stop)
    (hgrow : grow.Mute (replace s ⟨(part s).next + amount, (part s).stop⟩)) :
    (claim part replace grow amount).Mute s := by
  simp only [Mute, claim, reserve, leaves_bind, leaves_focus, leaves_get, leaves_set, leaves_ensure,
    leaves_pure]
  refine ⟨fun hword => ?_, fun _ => by simp⟩
  rw [bump_of_lt hword]
  cases hverdict : (part s).verdict amount with
  | fits offset => simp
  | wait before => simp
  | mustGrow before =>
    obtain ⟨hshort, -, rfl⟩ := verdict_eq_mustGrow.mp hverdict
    refine (leaves_bind ..).mpr ((leaves_attempt _).mpr
      ((growUntil_mute hshort henough hgrow).imp fun r es t h => ?_))
    cases r with
    | ok stop =>
      simp only [publish, leaves_bind, leaves_focus, leaves_get, leaves_set, leaves_pure]
      rintro _ ⟨⟩
    | error fault =>
      cases fault with
      | refused why =>
        simp only [publish, leaves_bind, leaves_focus, leaves_get, leaves_set, leaves_pure,
          leaves_refuse, List.nil_append, List.append_nil]
        exact h
      | violated what => simp
      | stuck => simp

namespace Arena

/-- An arena that grows is refused by its window, or not at all. -/
theorem grow_mute [Host] (a : Arena) (side : Side) : (grow side).Mute a := by
  have hanswer : ∀ a, (do cursorBytes ((← Act.get).reach side) : Act Arena Nat).Leaves a
      fun r _ _ => ∀ why, r ≠ .error (.refused why) := by
    intro a
    simp only [cursorBytes, leaves_bind, leaves_get, leaves_ensure, leaves_pure]
    exact ⟨fun _ => by simp, fun _ => by simp⟩
  have hquiet : ∀ {x : Act Arena Nat}, (x.Leaves a fun r _ _ => ∀ why, r ≠ .error (.refused why)) →
      x.Mute a := fun hx => hx.imp fun _ _ _ hr _ hrefused => absurd hrefused (hr _)
  have hwindow : ∀ center size, (onWindow (Window.expandRange center size)).Mute a :=
    fun center size => Window.expandRange_mute center size a.window
  unfold grow
  simp only [Mute, leaves_bind, leaves_get, leaves_ensure, List.nil_append]
  refine ⟨fun _ => ⟨fun _ => ?_, by simp⟩, by simp⟩
  show Mute (if _ then _ else _) a
  split
  · exact (hwindow _ _).bind fun _ t _ => (leaves_bind ..).mpr (hanswer t)
  · exact hquiet (hanswer a)

theorem serve_mute [Host] {a : Arena} (h : a.Sound) (side : Side) (n : Nat) :
    (serve side n).Mute a := by
  have hclaim : (claim side n).Mute a := by
    simp only [claim, Mute, leaves_bind, leaves_ensure, List.nil_append]
    refine ⟨fun hn => ?_, by simp⟩
    have hwindow : (a.asking side n).window.Sound := asking_window a side n ▸ h.window
    refine Cursor.claim_mute (fun stop hstop => ?_) (grow_mute _ side)
    have hgrow := grow_meets hwindow (asking_window a side n ▸ h.back_le)
      (asking_window a side n ▸ h.front_le) side
      (asking_next a side n ▸ Nat.add_pos_right _ hn.1)
    obtain ⟨w, -, -, -, -, hnext, -⟩ := hgrow.of_ok hstop
    rwa [asking_next] at hnext
  rw [serve_eq]
  refine hclaim.bind fun distance t hdistance => ?_
  obtain ⟨rfl, hn, hclaimed⟩ := (claim_meets_any h side n).of_ok hdistance
  rw [if_pos (hclaimed.fits hn), leaves_pure]
  simp

/-- A block that is refused has moved nothing: neither a cursor nor the window. -/
theorem serve_refused [Host] {a : Arena} (h : a.Sound) {side : Side} {n : Nat} {why : Refusal}
    (hrefused : ((serve side n).run a).result = .error (.refused why)) :
    a.Refused True why ((serve side n).run a).state ∧ why.Told ((serve side n).run a).events := by
  refine ⟨?_, serve_mute h side n why hrefused⟩
  rcases (serve_meets h side n).of_error hrefused with ⟨what, hviolated⟩ | ⟨why', hwhy, -, -, hno⟩
  · cases hviolated
  · obtain rfl := Fault.refused.inj hwhy
    exact hno.mono fun _ => trivial

/-! ### Clients -/

inductive Request
  | block (side : Side) (size : Nat)
  | place (offset : Int)
  | load (p : Place) (size : Nat)
  | fill (p : Place) (size : Nat) (byte : UInt8)
  | copy (p : Place) (source : Array UInt8)

inductive Reply
  | block (offset : Int)
  | place (p : Place)
  | bytes (bytes : List UInt8)
  | done
  deriving DecidableEq

def Request.act [Host] : Request → Act Arena Reply
  | .block side size => .block <$> serve side size
  | .place offset => .place <$> Arena.place offset
  | .load p size => (fun a => .bytes (a.window.load p size)) <$> Act.get
  | .fill p size byte => (fun _ => .done) <$> onWindow (Window.fill p size byte)
  | .copy p source => (fun _ => .done) <$> onWindow (Window.copy p source)

structure Round where
  host : Host
  request : Request

def ask : List Round → Act Arena (List (Except Fault Reply))
  | [] => pure []
  | ⟨_, q⟩ :: rounds => do
      let answer ← q.act.attempt
      let answers ← ask rounds
      return answer :: answers

/-- The arenas that a configuration leads to: clients ask for blocks, read and write, one at a time
or any number of them at once, and break no contract. Any of the blocks may have been refused, by
the host too, and the host may be another each time. -/
inductive Reached (config : ArenaConfig) : Arena → Prop
  | created [Host] {a : Arena} (h : ((create config).run ()).result = .ok a) : Reached config a
  | asked [Host] {a : Arena} (before : Reached config a) (q : Request)
      (keeps : ∀ what, (q.act.run a).result ≠ .error (.violated what)) :
      Reached config (q.act.run a).state
  | shared {a : Arena} {hosts : Host → Prop} (before : Reached config a)
      {m : Claimants Arena Side Nat} (run : Claimants.Reachable (claimable hosts) a m)
      (idle : ∀ t, m.claimant t = .idle) : Reached config m.object

theorem Sound.withMemory {a : Arena} (h : a.Sound) (memory : Memory) :
    Sound { a with window := { a.window with memory := memory } } where
  window := h.window.withMemory memory
  back_le := h.back_le
  front_le := h.front_le
  next_le := h.next_le
  stop_le side := by
    cases side with
    | front => exact h.stop_le .front
    | back => exact h.stop_le .back

theorem Sound.asked [Host] {a : Arena} (h : a.Sound) {q : Request}
    (hkeeps : ∀ what, (q.act.run a).result ≠ .error (.violated what)) :
    (q.act.run a).state.Sound := by
  cases q with
  | block side n =>
    have hserve := serve_meets h side n
    have hstate : ((Request.block side n).act.run a).state = ((serve side n).run a).state := rfl
    rw [hstate]
    cases hanswer : ((serve side n).run a).result with
    | ok offset => exact (hserve.of_ok hanswer).2.2.sound
    | error fault =>
      rcases hserve.of_error hanswer with ⟨what, rfl⟩ | ⟨why, -, -, -, hrefused⟩
      · refine absurd ?_ (hkeeps what)
        rw [Request.act, run_map, hanswer]
        rfl
      · exact hrefused.sound h
  | place offset =>
    have hstate : ((Request.place offset).act.run a).state = a := by
      have hplace : (place offset).Meets a (fun _ a' => a' = a) fun _ a' => a' = a := by
        simp only [place, meets_bind, meets_get, meets_ensure, meets_pure]
        exact ⟨fun _ => trivial, fun _ => trivial⟩
      exact hplace.state
    rw [hstate]
    exact h
  | load p size => exact h
  | fill p size byte => exact h.withMemory _
  | copy p source => exact h.withMemory _

/-- When all who claimed at once are done, each cursor is within its end again. -/
theorem sound_of_idle {a : Arena} (h : a.Sound) {hosts : Host → Prop} {m : Claimants Arena Side Nat}
    (hrun : Claimants.Reachable (claimable hosts) a m) (hidle : ∀ t, m.claimant t = .idle) :
    m.object.Sound := by
  have hsteady := steady_of_reachable h hrun
  refine ⟨hsteady.window, hsteady.back_le, hsteady.front_le, fun side => ?_, hsteady.stop_le⟩
  cases orderly_of_reachable h hrun side with
  | quiet none le tiles => exact le
  | @grown t amount before owned =>
    have hgrows := owned.phase
    have hphase : (m.view (claimable hosts) side).phase t = .idle := by
      show (m.claimant t).phase side = .idle
      rw [hidle t, Claimant.phase]
    rw [hphase] at hgrows
    cases hgrows

theorem Reached.sound {config : ArenaConfig} {a : Arena} (h : Reached config a) : a.Sound := by
  induction h with
  | created h => exact ((create_meets config).of_ok h).sound
  | asked before q keeps ih => exact ih.asked keeps
  | shared before run idle ih => exact sound_of_idle ih run idle

theorem Reached.answered [Host] {config : ArenaConfig} {a a' : Arena} (h : Reached config a)
    (q : Request) {reply : Reply} (hanswer : (q.act.run a).result = .ok reply)
    (hstate : a' = (q.act.run a).state) : Reached config a' := by
  subst hstate
  exact .asked h q (by simp [hanswer])

/-! ### What a refusal does not change -/

theorem serve_overlooks [Host] (side : Side) (n : Nat) : (serve side n).Overlooks Near := by
  rw [serve_eq]
  exact (claim_overlooks side n).bind fun _ => .ite (.of_pure _) (.of_fail _)

/-- No request can tell which pieces are committed. -/
theorem Request.act_overlooks [Host] (q : Request) : q.act.Overlooks Near := by
  have hposition : ∀ {a a' : Arena}, a.Near a' → ∀ p : Place,
      a.window.position p = a'.window.position p := by
    rintro a _ ⟨⟨hb⟩⟩ p
    exact (hb.position_eq p).symm
  cases q with
  | block side n => exact (serve_overlooks side n).map _
  | place offset =>
    refine Overlooks.map
      (.get_bind ?_ fun a => (Overlooks.of_ensure _ _).bind fun _ => .of_pure _) _
    rintro a _ ⟨⟨hb⟩⟩
    simp only [Window.place, Window.newestView, hb.retired]
    rfl
  | load p size =>
    rintro a a' h
    have hload : a.window.load p size = a'.window.load p size := by
      have hat := hposition h p
      obtain ⟨⟨hb⟩⟩ := h
      rw [Window.load, Window.load, hat]
    exact ⟨congrArg (Except.ok ∘ Reply.bytes) hload, rfl, h⟩
  | fill p size byte =>
    refine (onWindow_overlooks (.of_modify ?_)).map _
    rintro w _ ⟨hb⟩
    rw [hb.position_eq p]
    exact ⟨hb⟩
  | copy p source =>
    refine (onWindow_overlooks (.of_modify ?_)).map _
    rintro w _ ⟨hb⟩
    rw [hb.position_eq p]
    exact ⟨hb⟩

theorem ask_overlooks (rounds : List Round) : (ask rounds).Overlooks Near := by
  induction rounds with
  | nil => exact .of_pure []
  | cons round rounds ih =>
    obtain ⟨host, q⟩ := round
    exact (Request.act_overlooks q).attempt.bind fun _ => ih.bind fun _ => .of_pure _

/-- Whatever was asked of an arena before, by however many clients and with whatever success, a
block that is refused moves nothing: the cursors with their ends, the window with its views and the
contents stay as they were. If space is short all of the arena does, and nothing is told; only a
host that declines may have committed a piece before. No gauge reads anything else, and whatever is
asked later, whichever hosts it meets, is answered as if the block had never been asked for. -/
theorem refused_unfelt {config : ArenaConfig} {a : Arena} (h : Reached config a) [host : Host]
    {side : Side} {n : Nat} {why : Refusal}
    (hrefused : ((serve side n).run a).result = .error (.refused why)) :
    a.Near ((serve side n).run a).state ∧
      ((∃ requested reserved, why = .outOfReservedSpace requested reserved) ∧
          (serve side n).run a = ⟨.error (.refused why), a, []⟩ ∨
        (∃ cause, why = .growth cause) ∧ ¬ Host.Generous) ∧
      (∀ g : Gauges, g.absorb ((serve side n).run a).events = g) ∧
      ∀ later,
        ((ask (⟨host, .block side n⟩ :: later)).run a).result =
            ((ask later).run a).result.map (.error (.refused why) :: ·) ∧
          ((ask (⟨host, .block side n⟩ :: later)).run a).events =
            ((serve side n).run a).events ++ ((ask later).run a).events ∧
          ((ask later).run a).state.Near ((ask (⟨host, .block side n⟩ :: later)).run a).state := by
  obtain ⟨hno, htold⟩ := serve_refused h.sound hrefused
  rcases hrun : (serve side n).run a with ⟨result, a', es⟩
  rw [hrun] at hrefused hno htold
  dsimp only at hrefused hno htold ⊢
  subst hrefused
  have hnear := hno.near
  refine ⟨hnear, ?_, fun g => g.absorb_notes htold.notes, fun later => ?_⟩
  · obtain ⟨w, rfl, hw⟩ := hno
    cases hw with
    | space _ requested reserved =>
      obtain rfl : es = [] := htold
      exact Or.inl ⟨⟨requested, reserved, rfl⟩, rfl⟩
    | host cause mean => exact Or.inr ⟨⟨cause, rfl⟩, mean⟩
  · have hask : (Request.block side n).act.attempt.run a =
        ⟨.ok (.error (.refused why)), a', es⟩ := by
      rw [run_attempt, Request.act, run_map, hrun]
      rfl
    obtain ⟨hresult, hevents, hstate⟩ := ask_overlooks later a a' hnear
    rw [ask, run_bind_ok hask, ← map_eq_bind, run_map]
    exact ⟨congrArg (Except.map _) hresult.symm, congrArg (es ++ ·) hevents.symm, hstate⟩

section

attribute [local instance] Host.plain

/-- A host that commits nothing from position `limit` on. -/
@[reducible]
def upTo (limit : Nat) : Host :=
  { Host.plain with
    committing := fun _ start _ => if start < limit then none else some .outOfMemory }

/-- The end of the back lags behind the window, since the front has grown after it. A block that is
too large for the back is refused, and a smaller one comes right after the first. And where the host
grants what is new below the origin, but not what is new above it, the block is refused with a piece
committed for nothing, and comes where it would have come as soon as the host grants all of it. -/
theorem refused_unfelt_of_lagging :
    (∃ a, Reached ⟨4096, 131072, .remap⟩ a ∧ a.back = ⟨5000, 12288⟩ ∧ a.center = 16384 ∧
      (serve .back 70000).run a = ⟨.error (.refused (.outOfReservedSpace 114688 65536)), a, []⟩ ∧
      ((ask [⟨.plain, .block .back 70000⟩, ⟨.plain, .block .back 5000⟩,
          ⟨.plain, .load ⟨0, -5000⟩ 2⟩]).run a).result =
        .ok [.error (.refused (.outOfReservedSpace 114688 65536)), .ok (.block (-10000)),
          .ok (.bytes [7, 7])]) ∧
    ∃ a, Reached ⟨4096, 131072, .pinned⟩ a ∧ a.window.backing.segments = 1 ∧
      ((@serve (upTo 65536) .back 5000).run a).state.window.backing.segments = 2 ∧
      ((ask [⟨upTo 65536, .block .back 5000⟩, ⟨.plain, .block .back 5000⟩]).run a).result =
        .ok [.error (.refused (.growth (.commit .outOfMemory))), .ok (.block (-5000))] := by
  refine ⟨?_, ?_⟩
  · have hrun : ∃ a₀ a₁ a₂ a₃, ((create ⟨4096, 131072, .remap⟩).run ()).result = .ok a₀ ∧
        a₁ = ((Request.block .back 5000).act.run a₀).state ∧
        a₂ = ((Request.block .front 5000).act.run a₁).state ∧
        a₃ = ((Request.fill ⟨0, -5000⟩ 5000 7).act.run a₂).state ∧
        ((Request.block .back 5000).act.run a₀).result = .ok (.block (-5000)) ∧
        ((Request.block .front 5000).act.run a₁).result = .ok (.block 0) ∧
        ((Request.fill ⟨0, -5000⟩ 5000 7).act.run a₂).result = .ok .done ∧
        a₃.back = ⟨5000, 12288⟩ ∧ a₃.center = 16384 ∧
        ((serve .back 70000).run a₃).result =
          .error (.refused (.outOfReservedSpace 114688 65536)) ∧
        ((ask [⟨.plain, .block .back 5000⟩, ⟨.plain, .load ⟨0, -5000⟩ 2⟩]).run a₃).result =
          .ok [.ok (.block (-10000)), .ok (.bytes [7, 7])] := by
      refine ⟨_, _, _, _, rfl, rfl, rfl, rfl, ?_⟩
      decide +kernel
    obtain ⟨a₀, a₁, a₂, a₃, hcreate, ha₁, ha₂, ha₃, h₁, h₂, h₃, hback, hcenter, hrefused,
      hlater⟩ := hrun
    have hsecond := ((Reached.created hcreate).answered _ h₁ ha₁).answered _ h₂ ha₂
    have hreached := hsecond.answered _ h₃ ha₃
    obtain ⟨-, ⟨-, hsame⟩ | ⟨⟨cause, hcause⟩, -⟩, -, hask⟩ := refused_unfelt hreached hrefused
    · refine ⟨a₃, hreached, hback, hcenter, hsame, ?_⟩
      rw [(hask _).1, hlater]
      rfl
    · cases hcause
  · have hrun : ∃ a₀ a₁, ((create ⟨4096, 131072, .pinned⟩).run ()).result = .ok a₀ ∧
        a₁ = ((Request.block .front 4096).act.run a₀).state ∧
        ((Request.block .front 4096).act.run a₀).result = .ok (.block 0) ∧
        a₁.window.backing.segments = 1 ∧
        ((@serve (upTo 65536) .back 5000).run a₁).state.window.backing.segments = 2 ∧
        ((@serve (upTo 65536) .back 5000).run a₁).result =
          .error (.refused (.growth (.commit .outOfMemory))) ∧
        ((ask [⟨.plain, .block .back 5000⟩]).run a₁).result = .ok [.ok (.block (-5000))] := by
      refine ⟨_, _, rfl, rfl, ?_⟩
      decide +kernel
    obtain ⟨a₀, a₁, hcreate, ha₁, h₁, hbefore, hafter, hrefused, hlater⟩ := hrun
    have hreached := (Reached.created hcreate).answered _ h₁ ha₁
    obtain ⟨-, -, -, hask⟩ := @refused_unfelt _ _ hreached (upTo 65536) _ _ _ hrefused
    refine ⟨a₁, hreached, hbefore, hafter, ?_⟩
    rw [(hask _).1, hlater]
    rfl

end

end Arena

end SlotArena
