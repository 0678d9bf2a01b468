import SlotArena.Proofs.Alike
import SlotArena.Proofs.World

/-!
Records added one run after the other. Three bounds meet when a roster grows: the capacity, the
reservation, which is the capacity in whole pages and so may have room for more records, and the
doubled window, which is cut off where the reservation ends. None but the capacity is ever felt: a
roster that its configuration admits can be made, and it takes records up to the capacity and not a
single one longer, whatever was done with its records before. Only a host that is short of something
can keep it from that, and then no record notices.

Main statement: an addition that the capacity allows succeeds on a generous host, starts the records
that it adds and changes no other; and where the capacity does not allow it, it changes nothing,
whatever the host (`adds_exact`).
-/

namespace SlotArena

open Act

theorem Records.get_extend_of_above (r : Records) (count : Nat) {i : Nat}
    (h : r.filled + count ≤ i) : (r.extend count).get i = r.get i := by
  have hbefore : ¬ i < r.filled := by omega
  have hafter : ¬ i < r.filled + count := by omega
  rw [get, get, filled_extend, if_neg hbefore, if_neg hafter]
  rfl

theorem Window.create_sure [Host] [Host.Generous] (purpose : Purpose) {initial : Nat} {e : Extent}
    (strategy : Strategy) (halign : e.Aligned) (hsmall : e.total < Host.addressSpan)
    (hinitial : 0 < initial) (hfront : roundUp initial pageSize ≤ e.front) :
    (create purpose initial e strategy).Meets () (fun _ _ => True) Never := by
  have hpos : 0 < roundUp initial pageSize :=
    Nat.lt_of_lt_of_le hinitial (roundUp_ge _ (by decide))
  have htotal : e.front ≤ e.total := Nat.le_add_left ..
  have hword : roundUp initial pageSize < word64 :=
    Nat.lt_of_le_of_lt (Nat.le_trans hfront htotal) (Nat.lt_trans hsmall (by decide))
  have hmade : (Backing.create purpose e strategy).Meets () (fun b _ => Bare e b) Never := by
    obtain ⟨b, hb, hbare⟩ := backing_create_run purpose
      (Nat.lt_of_lt_of_le hpos (Nat.le_trans hfront htotal)) hsmall strategy
    rw [Meets, hb]
    exact hbare
  simp only [create, meets_bind, meets_ensure_never, meets_ite]
  refine ⟨halign, hinitial, hword, fun h => absurd hfront (Nat.not_le.mpr h), fun _ => ?_⟩
  refine hmade.imp fun b _ hbare => ?_
  obtain ⟨_, b', es, hrun, rfl, -⟩ :=
    (hbare.expand_granted purpose halign hsmall hfront hpos).exists_ok
  rw [hrun]
  simp only [meets_bind, meets_emit, meets_pure]

namespace Roster

/-- A roster that its configuration admits can be made, if the host is not short of anything. -/
theorem create_sure [Host] [Host.Generous] {initial capacity : Nat} (h : Admits initial capacity)
    (strategy : Strategy) :
    (create initial capacity strategy).Meets () (fun r _ => r.Sound ∧ r.length = 0) Never := by
  have hreserved : pageSize ∣ roundUp (capacity * recordBytes) pageSize := dvd_roundUp ..
  have hpos : 0 < roundUp (capacity * recordBytes) pageSize :=
    Nat.lt_of_lt_of_le (Nat.mul_pos h.1 (by decide)) (roundUp_ge _ (by decide))
  have hsmall := total_lt h.2.1
  have hmade : (create initial capacity strategy).Meets () (fun _ _ => True) Never := by
    simp only [create, meets_bind, meets_ensure_never, meets_pure]
    generalize roundUp (capacity * recordBytes) pageSize = reserved at *
    generalize hmax : max (ceilPow2 (max initial 1 * recordBytes)) pageSize = wanted
    have hwanted : 0 < wanted := hmax ▸ Nat.lt_of_lt_of_le (by decide) (Nat.le_max_right ..)
    refine ⟨h, (Window.create_sure .roster strategy ?_ hsmall (Nat.lt_min.mpr ⟨hwanted, hpos⟩)
      ?_).imp fun _ _ _ => trivial⟩
    · exact ⟨Nat.dvd_zero _, hreserved⟩
    · exact roundUp_le (by decide) hreserved (Nat.min_le_right ..)
  exact ((create_meets initial capacity strategy).and_answers hmade).imp fun _ _ hr => hr.1

theorem create_capacity [Host] (initial capacity : Nat) (strategy : Strategy) :
    (create initial capacity strategy).Meets () (fun r _ => r.capacity = capacity)
      fun _ _ => True := by
  simp only [create, meets_bind, meets_ensure, meets_pure, implies_true, and_true]
  exact fun _ => .of_always (fun _ _ => trivial) fun _ _ => trivial

/-! ### Adding -/

theorem add_records [Host] {r : Roster} (h : r.Sound) {count : Nat} (hcount : 0 < count)
    (hword : r.length + count < word32) :
    (add count).Meets r (fun _ r' => r'.records = r.records.extend count)
      (refusing fun _ _ => True) := by
  rw [h.length_eq] at hword
  simp only [add, meets_bind, meets_ensure_refusing, meets_modify, meets_pure]
  refine ⟨hcount, Cursor.claim_meets rfl h.next_le hword (fun _ => rfl) fun _ => ?_⟩
  refine (grow_meets (r := { r with cursor := ⟨r.cursor.next + count, r.cursor.stop⟩ }) h.window
    h.back_eq h.front_eq).mono ?_ fun _ _ _ => trivial
  intro room _ hres
  obtain ⟨w, rfl, -, -, -, hnext⟩ := hres
  exact ⟨hnext, rfl⟩

/-- An addition that the capacity allows changes no record but those that it adds; only a host that
is short of something refuses it, and then no record changes at all. -/
theorem add_allowed [Host] {r : Roster} (h : r.Sound) {count : Nat} (hcount : 0 < count)
    (hword : r.length + count < word32) (hroom : r.length + count ≤ r.capacity) :
    (∃ r' es, (add count).run r = ⟨.ok r.length, r', es⟩ ∧ r.Added count r' ∧
      ∀ i, r.length + count ≤ i → r'.record i = r.record i) ∨
    ¬ Host.Generous ∧ ∃ cause r' es,
      (add count).run r = ⟨.error (.refused (.growth cause)), r', es⟩ ∧
        r.Refused (r.length + count) (.growth cause) r' := by
  have hadd := add_meets h hcount hword
  rcases hrun : (add count).run r with ⟨fault | first, r', es⟩
  · obtain ⟨why, rfl, hrefused⟩ := exists_refusal (hadd.of_error (congrArg Outcome.result hrun))
    rw [hrun] at hrefused
    obtain ⟨cause, rfl, mean⟩ | ⟨-, hover⟩ := hrefused.why_eq
    · exact Or.inr ⟨mean, cause, r', es, rfl, hrefused⟩
    · exact absurd hroom (Nat.not_le.mpr hover)
  · obtain ⟨hrecords, rfl, hadded⟩ :=
      ((add_records h hcount hword).and_answers hadd).of_ok (congrArg Outcome.result hrun)
    rw [hrun] at hrecords hadded
    refine Or.inl ⟨r', es, rfl, hadded, fun i hi => ?_⟩
    have hi : r.records.filled + count ≤ i := by rwa [h.filled_eq, ← h.length_eq]
    rw [record, record, hrecords, Records.get_extend_of_above _ _ hi]

theorem add_refused [Host] {r : Roster} (h : r.Sound) {count : Nat} (hcount : 0 < count)
    (hword : r.length + count < word32) (hfull : r.capacity < r.length + count) :
    ((add count).run r).result =
        .error (.refused (.outOfTableSpace (r.length + count) r.capacity)) ∧
      ((add count).run r).state = r := by
  have hadd := add_meets h hcount hword
  cases hanswer : ((add count).run r).result with
  | ok first =>
    obtain ⟨-, hadded⟩ := hadd.of_ok hanswer
    have hle := hadded.sound.length_le_capacity
    rw [hadded.length, hadded.capacity] at hle
    exact absurd hle (Nat.not_le.mpr hfull)
  | error fault =>
    obtain ⟨why, rfl, hrefused⟩ := exists_refusal (hadd.of_error hanswer)
    obtain ⟨rfl, hsame⟩ := hrefused.of_full hfull
    exact ⟨rfl, hsame⟩

theorem Refused.unseen [Host] {r r' : Roster} {wanted : Nat} {why : Refusal}
    (h : r.Refused wanted why r') : r'.capacity = r.capacity ∧ r'.length = r.length ∧
      r'.mapped = r.mapped ∧ ∀ i, r'.record i = r.record i := by
  cases h with
  | full => exact ⟨rfl, rfl, rfl, fun _ => rfl⟩
  | host => exact ⟨rfl, rfl, rfl, fun _ => rfl⟩

/-! ### Rosters in use -/

/-- What a use asks of the client: records are added in runs, and no more of them than a cursor
counts. -/
def Admissible (r : Roster) : Use → Prop
  | .add count => 0 < count ∧ r.length + count < word32
  | _ => True

/-- The rosters that a configuration leads to. Records may be changed and chained in any way while
others are added, any of these uses may fail, and the host may answer differently at each. -/
inductive Reached (plan : Plan) : Roster → Prop
  | created {r : Roster} [host : Host]
      (h : ((create plan.initial plan.capacity plan.strategy).run ()).result = .ok r) :
      Reached plan r
  | used {r : Roster} [host : Host] (before : Reached plan r) (u : Use) (h : r.Admissible u) :
      Reached plan (u.act.run r).state

theorem edited_edit (idx : Nat) (f : Record → Record) (r : Roster) :
    r.Edited ((edit idx f).run r).state {idx} := by
  have hedit : (edit idx f).Meets r (fun _ r' => r.Edited r' {idx})
      fun _ r' => r.Edited r' {idx} := by
    simp only [edit, get, meets_bind, meets_get, meets_ensure, meets_pure, meets_modify]
    refine ⟨fun _ => ⟨rfl, rfl, rfl, Records.filled_set .., fun j hj => ?_⟩, fun _ => .refl r _⟩
    exact (Records.get_set ..).trans (if_neg fun hij => hj hij.symm)
  exact hedit.state

theorem edited_push (c : Chain) (first count : Nat) (r : Roster) :
    r.Edited ((c.push first count : Act Roster Chain).run r).state (run first count) := by
  have hrun : ∀ {r' : Roster}, LawfulLinks.Rethreaded r r' (List.range' first count) →
      r.Edited r' (run first count) := fun h =>
    (relinked_of h).toEdited.mono fun i hi => List.mem_range'_1.mp hi
  exact ((Chain.push_meets r c first count).weaken (fun _ _ h => hrun h.2.2.rethreaded)
    fun _ _ h => hrun h.2).state

theorem state_pop (c : Chain) (r : Roster) : ((c.pop : Act Roster _).run r).state = r := by
  have hpop : (c.pop : Act Roster _).Meets r (fun _ r' => r' = r) fun _ r' => r' = r := by
    simp only [Chain.pop, meets_bind, meets_ite, meets_pure]
    exact ⟨fun _ => trivial, fun _ => (LawfulLinks.link_meets r c.head).weaken
      (fun _ _ h => h.2.2) fun _ _ h => h.2⟩
  exact hpop.state

theorem Sound.used [Host] {r : Roster} (h : r.Sound) (u : Use) (hu : r.Admissible u) :
    (u.act.run r).state.Sound ∧ (u.act.run r).state.capacity = r.capacity := by
  have hedited : ∀ {r' : Roster} {changed : Set Nat}, r.Edited r' changed →
      r'.Sound ∧ r'.capacity = r.capacity := fun he => ⟨he.sound h, he.capacity⟩
  cases u with
  | add count =>
    have hadd : (add count).Meets r (fun _ r' => r'.Sound ∧ r'.capacity = r.capacity)
        fun _ r' => r'.Sound ∧ r'.capacity = r.capacity := by
      refine (add_meets h hu.1 hu.2).weaken (fun _ r' hr => ?_) fun _ r' hr => ?_
      · exact ⟨hr.2.sound, hr.2.capacity⟩
      · obtain ⟨why, -, hrefused⟩ := exists_refusal hr
        exact ⟨hrefused.sound h, hrefused.unseen.1⟩
    exact hadd.state
  | assign idx offset size => exact hedited (edited_edit idx _ r)
  | resize idx size => exact hedited (edited_edit idx _ r)
  | push c first count => exact hedited (edited_push c first count r)
  | pop c =>
    have hsame : ((Use.pop c).act.run r).state = r := state_pop c r
    rw [hsame]
    exact ⟨h, rfl⟩

theorem Reached.sound {plan : Plan} {r : Roster} (h : Reached plan r) :
    r.Sound ∧ r.capacity = plan.capacity := by
  induction h with
  | created h => exact ⟨((create_meets ..).of_ok h).1, (create_capacity ..).of_ok h⟩
  | used before u hu ih =>
    obtain ⟨hsound, hcapacity⟩ := ih.1.used u hu
    exact ⟨hsound, hcapacity.trans ih.2⟩

/-- A generous host makes any roster that its configuration admits, and it is empty. From then on,
whatever was added, whatever else was done with the records and whatever the host, an addition that
the capacity allows succeeds, unless the host is short of something: the records that it adds begin
where those before them end and start out with their own indices and nothing else, and no other
record changes. Where the host declines, nothing changes that the roster shows. Where the capacity
does not allow it, the refusal says how many records there would have been, and the roster stays as
it was. -/
theorem adds_exact {plan : Plan} (hadmits : Admits plan.initial plan.capacity) :
    (∀ [Host] [Host.Generous], ∃ r es,
      (create plan.initial plan.capacity plan.strategy).run () = ⟨.ok r, (), es⟩ ∧
        r.length = 0) ∧
    ∀ r, Reached plan r → ∀ [Host] count, 0 < count → r.length + count < word32 →
      (r.length + count ≤ plan.capacity →
        (∃ r' es, (add count).run r = ⟨.ok r.length, r', es⟩ ∧ r'.length = r.length + count ∧
          (∀ i, r.length ≤ i → i < r.length + count → r'.record i = .fresh i) ∧
          ∀ i, i < r.length ∨ r.length + count ≤ i → r'.record i = r.record i) ∨
        ¬ Host.Generous ∧ ∃ cause r' es,
          (add count).run r = ⟨.error (.refused (.growth cause)), r', es⟩ ∧
            r'.length = r.length ∧ r'.mapped = r.mapped ∧ ∀ i, r'.record i = r.record i) ∧
      (plan.capacity < r.length + count →
        ((add count).run r).result =
            .error (.refused (.outOfTableSpace (r.length + count) plan.capacity)) ∧
          ((add count).run r).state = r) := by
  refine ⟨?_, fun r hr _ count hcount hword => ?_⟩
  · intro _ _
    obtain ⟨r, ⟨⟩, es, hrun, -, hlength⟩ := (create_sure hadmits plan.strategy).exists_ok
    exact ⟨r, es, hrun, hlength⟩
  · obtain ⟨hsound, hcapacity⟩ := hr.sound
    rw [← hcapacity]
    refine ⟨fun hroom => ?_, add_refused hsound hcount hword⟩
    obtain ⟨r', es, hrun, hadded, habove⟩ | ⟨mean, cause, r', es, hrun, hrefused⟩ :=
      add_allowed hsound hcount hword hroom
    · refine Or.inl ⟨r', es, hrun, hadded.length, hadded.fresh, fun i hi => ?_⟩
      rcases hi with hi | hi
      · exact hadded.kept i hi
      · exact habove i hi
    · exact Or.inr ⟨mean, cause, r', es, hrun, hrefused.unseen.2⟩

section

attribute [local instance] Host.plain

/-- A capacity that is no power of two and fills no page: the last record that it allows is added,
and the next one is refused. -/
theorem adds_exact_of_full : ∃ r r' es, Reached ⟨1, 300, .remap⟩ r ∧ r.length = 200 ∧
    (add 100).run r = ⟨.ok 200, r', es⟩ ∧ r'.length = 300 ∧ r'.record 299 = .fresh 299 ∧
    r'.record 7 = ⟨noIndex, 7, -4096, 64⟩ ∧
    ((add 1).run r').result = .error (.refused (.outOfTableSpace 301 300)) ∧
    ((add 1).run r').state = r' := by
  have hrun : ∃ r₀ r₁ r₂, ((create 1 300 .remap).run ()).result = .ok r₀ ∧
      r₁ = ((Use.add 200).act.run r₀).state ∧
      r₂ = ((Use.assign 7 (-4096) 64).act.run r₁).state ∧
      r₀.length = 0 ∧ r₂.length = 200 ∧ r₂.record 7 = ⟨noIndex, 7, -4096, 64⟩ := by
    refine ⟨_, _, _, rfl, rfl, rfl, ?_⟩
    decide +kernel
  obtain ⟨r₀, r₁, r₂, hcreate, rfl, rfl, hempty, hlength, hrecord⟩ := hrun
  have hadmits : Admits 1 300 := by decide
  have hnew : Reached ⟨1, 300, .remap⟩ r₀ := .created hcreate
  have hadded := hnew.used (.add 200) ⟨by decide, by rw [hempty]; decide⟩
  have hassigned := hadded.used (.assign 7 (-4096) 64) trivial
  obtain ⟨-, hexact⟩ := @adds_exact ⟨1, 300, .remap⟩ hadmits
  generalize ((Use.assign 7 (-4096) 64).act.run _).state = r at *
  obtain ⟨r', es, hadd, hlength', hfresh, hkept⟩ :=
    ((hexact r hassigned 100 (by decide) (by rw [hlength]; decide)).1
      (by rw [hlength])).resolve_right fun hmean => hmean.1 inferInstance
  rw [hlength] at hadd hlength' hfresh hkept
  have hfull : Reached ⟨1, 300, .remap⟩ r' := by
    have hused := hassigned.used (.add 100) ⟨by decide, by rw [hlength]; decide⟩
    rwa [Use.act, run_map, hadd] at hused
  obtain ⟨hrefused, hsame⟩ :=
    (hexact r' hfull 1 (by decide) (by rw [hlength']; decide)).2 (by rw [hlength']; decide)
  rw [hlength'] at hrefused
  exact ⟨r, r', es, hassigned, hlength, hadd, hlength', hfresh 299 (by decide) (by decide),
    (hkept 7 (by decide)).trans hrecord, hrefused, hsame⟩

end

end Roster

end SlotArena
