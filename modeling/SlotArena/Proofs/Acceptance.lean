import SlotArena.Proofs.Tenure

/-!
What an allotment accepts. It keeps no account of what is out of it: whatever agrees with a record
of the pool and has the right size is accepted, be it a slot that came straight from the pool or one
that was put back before (`accepted_twice`). What is not accepted changes nothing. So it is for
those who use an allotment to put back only what is out of it; where they do, whatever else they
offer, the chain has no more slots than were set aside and none of them twice, no slot comes out
that is out, and the allotment can be given up (`accepts_records`).
-/

namespace SlotArena

open Act

namespace Estate

variable {e e₀ : Estate} {keeper : Nat → Keeper} {k count size : Nat} {a : Allotment}
  {aside spares : List Nat} {out : List Slot} {others : Set Nat}

theorem Holds.spares_le (h : e.Holds k size a aside spares out others) :
    spares.length ≤ aside.length := Nat.le.intro h.length

/-- No more records are kept for an allotment than were set aside. -/
theorem Holds.kept_le (h : e.Holds k size a aside spares out others) (hsound : e.Sound keeper) :
    (e.pool.keptBy keeper (.allotment k)).ncard ≤ a.count := by
  have hkept := (hsound.content (.allotment k)).2 a h.here
  have hsame : e.pool.keptBy keeper (.allotment k) = ↑spares.toFinset :=
    (hkept.chained.unique h.chained.sound.chained).trans (List.coe_toFinset spares).symm
  rw [hsame, Set.ncard_coe_finset, List.toFinset_card_of_nodup h.chained.nodup, h.count_eq]
  exact h.spares_le

theorem Holds.drawn_new [Host] (h : e.Holds k size a aside spares out others)
    (hsound : e.Sound keeper)
    {slot : Slot} (hslot : ((perform (.draw k)).run e).result = .ok (some slot)) :
    slot.idx ∉ out.map Slot.idx := by
  obtain ⟨hanswer, -⟩ := (draw_meets h hsound).of_ok hslot
  obtain ⟨i, hi, rfl⟩ := Option.map_eq_some_iff.mp hanswer.symm
  exact h.not_out (List.mem_of_mem_head? hi)

/-- An allotment that has what was set aside for it can be given up, and tells nothing of it that
could not be told. -/
theorem Holds.release_quiet [Host] (h : e.Holds k size a aside spares out others)
    (hsound : e.Sound keeper) :
    Event.firstFlaw? ((perform (.release k)).run e).events = none := by
  refine List.findSome?_eq_none_iff.mpr (perform_worded hsound (.release k) fun n b hn hb => ?_)
  obtain rfl := Step.release.inj hn
  obtain rfl : a = b := Option.some.inj (h.here.symm.trans hb)
  exact h.kept_le hsound

/-- Whatever is offered to an allotment, it accepts what agrees with a record of its pool and has
its size, and turns down anything else with a word of complaint and no change. And as long as
nothing is accepted that is not out of it, the chain has no slot twice and no more of them than were
set aside, a slot that is out is not handed out again, and the allotment is given up without
complaint. -/
theorem accepts_records {creator : Host} {config : PoolConfig} {p : Pool} {uses : List Occasion}
    (hp : ((Pool.create config).run ()).result = .ok p) (hcourse : Course (new p) uses e₀)
    [maker : Host] (hk : e₀.allotments k = none) (count size : Nat) :
    (∀ (a : Allotment) (q : Pool) (slot : Slot),
      (((Allotment.free slot).run (a, q)).result.isOk → a.Takes q slot) ∧
      ∀ fault, ((Allotment.free slot).run (a, q)).result = .error fault →
        ((Allotment.free slot).run (a, q)).state = (a, q) ∧
        (slot.idx ≤ noIndex → ¬ a.Takes q slot ∧
          (fault = .violated (.notOfAllotment slot) ∨
            fault = .violated (.recordMismatch slot)))) ∧
    ∀ e out others, Tenure maker e₀ k count size e out others →
      ∃ a spares, e.allotments k = some a ∧
        Chain.Threads e.pool.roster.link a.spare.head spares ∧
        spares.Nodup ∧ spares.length ≤ count ∧
        (∀ slot, ((perform (.draw k)).run e).result = .ok (some slot) →
          slot.idx ∉ out.map Slot.idx) ∧
        ((perform (.release k)).run e).result = .ok none ∧
        Event.firstFlaw? ((perform (.release k)).run e).events = none := by
  refine ⟨fun a q slot => ⟨fun hok => ?_, fun fault hfault => ?_⟩, fun e out others ht => ?_⟩
  · exact (Allotment.free_judges a q slot).of_isOk hok
  · exact (Allotment.free_judges a q slot).of_error hfault
  · obtain ⟨aside, hlength, -, hholds⟩ := exists_holds hp hcourse hk ht.served
    obtain ⟨⟨keeper, hsound⟩, a, spares, h⟩ := hholds e out others ht
    exact ⟨a, spares, h.here, h.chained.threads, h.chained.nodup, hlength ▸ h.spares_le,
      fun slot hslot => h.drawn_new hsound hslot, (h.release hsound).1, h.release_quiet hsound⟩

section

attribute [local instance] Host.plain

/-- A slot that came straight from the pool and is larger than those of the allotment is turned
down; the allotment does not notice. -/
theorem accepts_records_of_larger : ∃ p e a slot others,
    ((Pool.create {}).run ()).result = .ok p ∧ Tenure .plain (new p) 0 1 64 e [] others ∧
    slot ∈ e.held ∧ slot.size = 256 ∧
    ((Allotment.free slot).run (a, e.pool)).result = .error (.violated (.notOfAllotment slot)) ∧
    ((Allotment.free slot).run (a, e.pool)).state = (a, e.pool) ∧ ¬ a.Takes e.pool slot ∧
    e.allotments 0 = some a ∧ (∃ spares : List Nat,
      Chain.Threads e.pool.roster.link a.spare.head spares ∧ spares.Nodup ∧ spares.length ≤ 1) ∧
    Event.firstFlaw? ((perform (.release 0)).run e).events = none := by
  have hrun : ∃ p e a slot, ((Pool.create {}).run ()).result = .ok p ∧
      e = ((new p).next (.reserve 0 1 64)).next (.alloc 256 64) ∧
      a = (e.allotments 0).getD default ∧
      ((perform (.reserve 0 1 64)).run (new p)).result.isOk ∧ slot ∈ e.held ∧ slot.size = 256 ∧
      ((Allotment.free slot).run (a, e.pool)).result = .error (.violated (.notOfAllotment slot)) ∧
      slot.idx ≤ noIndex := by
    refine ⟨_, _, _, ⟨4096, 256, some ⟨0, 4096⟩, 1⟩, rfl, rfl, rfl, ?_⟩
    decide +kernel
  obtain ⟨p, e, a, slot, hp, rfl, ha, hok, hheld, hsize, hrefused, hword⟩ := hrun
  have hpermits : ((new p).next (.reserve 0 1 64)).Permits (.step (.alloc 256 64)) :=
    ⟨trivial, trivial⟩
  have ht := (Tenure.made hok).use hpermits trivial
  rw [after_step] at ht
  have hnone : (new p).allotments 0 = none := rfl
  obtain ⟨hjudges, hkeeps⟩ := accepts_records hp (.nil (new p)) hnone 1 64
  obtain ⟨b, spares, hb, hthreads, hnodup, hlength, -, -, hquiet⟩ := hkeeps _ _ _ ht
  obtain rfl : b = a := by rw [ha, hb, Option.getD_some]
  obtain ⟨hsame, hnot⟩ := (hjudges b _ slot).2 _ hrefused
  exact ⟨p, _, b, slot, _, hp, ht, hheld, hsize, hrefused, hsame, (hnot hword).1, hb,
    ⟨spares, hthreads, hnodup, hlength⟩, hquiet⟩

/-- An allotment of one slot that is drawn and put back accepts the slot once more, though nothing
is out of it. After that it hands the slot out twice, or it cannot be given up. -/
theorem accepted_twice : ∃ p e slot others,
    ((Pool.create {}).run ()).result = .ok p ∧ Tenure .plain (new p) 0 1 64 e [] others ∧
    ((perform (.putBack 0 slot)).run e).result = .ok none ∧
    ((perform (.draw 0)).run (e.next (.putBack 0 slot))).result = .ok (some slot) ∧
    ((perform (.draw 0)).run ((e.next (.putBack 0 slot)).next (.draw 0))).result =
      .ok (some slot) ∧
    ((perform (.release 0)).run (e.next (.putBack 0 slot))).result =
      .error (.violated (.doubleFree slot.idx slot.offset)) := by
  have hrun : ∃ p e₁ e₂ slot, ((Pool.create {}).run ()).result = .ok p ∧
      e₁ = (new p).next (.reserve 0 1 64) ∧ e₂ = e₁.next (.draw 0) ∧
      ((perform (.draw 0)).run e₁).result = .ok (some slot) ∧
      ((perform (.reserve 0 1 64)).run (new p)).result.isOk ∧
      ((perform (.putBack 0 slot)).run (e₂.next (.putBack 0 slot))).result = .ok none ∧
      ((perform (.draw 0)).run ((e₂.next (.putBack 0 slot)).next (.putBack 0 slot))).result =
        .ok (some slot) ∧
      ((perform (.draw 0)).run (((e₂.next (.putBack 0 slot)).next (.putBack 0 slot)).next
        (.draw 0))).result = .ok (some slot) ∧
      ((perform (.release 0)).run ((e₂.next (.putBack 0 slot)).next (.putBack 0 slot))).result =
        .error (.violated (.doubleFree slot.idx slot.offset)) := by
    refine ⟨_, _, _, ⟨0, 64, some ⟨0, 0⟩, 0⟩, rfl, rfl, rfl, ?_⟩
    decide +kernel
  obtain ⟨p, e₁, e₂, slot, hp, rfl, rfl, hslot, hok, hagain, hfirst, hsecond, hreleased⟩ := hrun
  have ht := ((Tenure.made hok).draw hslot).putBack List.mem_cons_self
  change Tenure _ (new p) 0 1 64 _ ([slot].erase slot) _ at ht
  rw [List.erase_cons_head] at ht
  exact ⟨p, _, slot, _, hp, ht, hagain, hfirst, hsecond, hreleased⟩

end

end Estate

end SlotArena
