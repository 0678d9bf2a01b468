import SlotArena.Proofs.Recall

/-!
Allotments that are filled and given up, slot by slot. `Chained` says which records wait on the
chain of an allotment, top first; a slot that is put back comes on top and one that is taken comes
off there. While an allotment is filled, what it has set aside so far is `Filled`, and where the
pool has nothing more to give, exactly that much is on the chain (`gather_fills`). Giving an
allotment up returns what is on the chain and nothing else (`release_recalls`), so an allotment that
could not be filled leaves every slot that it got on the shelf of its class (`create_fills`).
-/

namespace SlotArena

open Act

namespace Pool

def OnShelf (p : Pool) (i : Nat) : Prop :=
  ∃ c records, (p.roster.record i).size = c.bytes ∧
    Chain.Threads p.roster.link (p.bucket c).free.head records ∧ i ∈ records

end Pool

namespace Allotment

/-- The slots of the records `spares` wait on the chain of an allotment, top first. -/
structure Chained (a : Allotment) (p : Pool) (spares : List Nat) : Prop where
  threads : Chain.Threads p.roster.link a.spare.head spares
  live : ∀ i ∈ spares, i ∈ p.live
  sized : ∀ i ∈ spares, (p.roster.record i).size = a.slotSize
  front : ∀ i ∈ spares, 0 ≤ (p.roster.record i).offset

variable {a : Allotment} {p p' : Pool} {loose : Finset Int} {spares : List Nat} {moved : Set Nat}

theorem Chained.nodup (h : a.Chained p spares) : spares.Nodup := h.threads.nodup

theorem Chained.sound (h : a.Chained p spares) : a.Sound p {i | i ∈ spares} :=
  ⟨⟨spares, h.threads, fun _ => Iff.rfl⟩, h.live, h.sized⟩

/-- An allotment does not notice what passes its chain by. -/
theorem Chained.congr (h : a.Chained p spares)
    (hsame : ∀ i ∈ spares, i ∈ p'.live ∧ p'.roster.record i = p.roster.record i) :
    a.Chained p' spares where
  threads := h.threads.congr fun i hi => by rw [Roster.link, Roster.link, (hsame i hi).2]
  live i hi := (hsame i hi).1
  sized i hi := by
    rw [(hsame i hi).2]
    exact h.sized i hi
  front i hi := by
    rw [(hsame i hi).2]
    exact h.front i hi

theorem Chained.passed (h : a.Chained p spares) (hpassed : p.Passed p' moved)
    (hout : ∀ i ∈ spares, i ∉ moved) : a.Chained p' spares :=
  h.congr fun i hi => ⟨(hpassed.live i (hout i hi)).mpr (h.live i hi),
    hpassed.records i (hout i hi) (h.live i hi)⟩

theorem chained_empty (size slotSize : Nat) :
    (⟨.empty, size, slotSize, 0⟩ : Allotment).Chained p [] :=
  ⟨rfl, fun _ hi => absurd hi List.not_mem_nil, fun _ hi => absurd hi List.not_mem_nil,
    fun _ hi => absurd hi List.not_mem_nil⟩

/-! ### The chain -/

theorem popFree_top (h : a.Chained p spares) (hp : p.Valid loose) :
    popFree.Meets (a, p) (fun top t => t.2 = p ∧ top = spares.head? ∧
      (∃ chain, t.1 = { a with spare := chain }) ∧ t.1.Chained p spares.tail) Never := by
  have hknown : ∀ i ∈ spares, LawfulLinks.knows (LawfulLinks.rest p.roster) i := fun i hi =>
    decide_eq_true (hp.roster.lt_stop (hp.lt_length (h.live i hi)))
  simp only [popFree, meets_bind, meets_get, onPool, onAllotment, meets_focus, meets_modify,
    meets_pure, Pool.onRoster]
  refine (Chain.pop_meets p.roster a.spare h.threads hknown).imp ?_
  rintro ⟨top, chain⟩ _ ⟨rfl, rfl, hthreads⟩
  have htail : ∀ i ∈ spares.tail, i ∈ spares := fun i hi => List.mem_of_mem_tail hi
  exact ⟨rfl, rfl, ⟨chain, rfl⟩, hthreads, fun i hi => h.live i (htail i hi),
    fun i hi => h.sized i (htail i hi), fun i hi => h.front i (htail i hi)⟩

theorem pushFree_top (h : a.Chained p spares) (hp : p.Valid loose) {i : Nat} (hi : i ∈ p.live)
    (hnew : i ∉ spares) (hsize : (p.roster.record i).size = a.slotSize)
    (hfront : 0 ≤ (p.roster.record i).offset) :
    (pushFree i).Meets (a, p) (fun _ t => (∃ chain, t.1 = { a with spare := chain }) ∧
      t.2.Valid loose ∧ p.Passed t.2 {i} ∧ t.1.Chained t.2 (i :: spares)) Never := by
  have htakes := hp.roster.takes Nat.one_pos (hp.lt_length hi)
  simp only [pushFree, meets_bind, meets_get, onPool, onAllotment, meets_focus, meets_modify,
    Pool.onRoster]
  refine (Chain.push_meets p.roster a.spare i 1).weaken ?_ fun _ _ hres => hres.1 htakes
  rintro chain r ⟨-, rfl, hlinked⟩
  have hrelinked := Roster.relinked_of hlinked.rethreaded
  obtain ⟨hvalid, hpassed⟩ := hp.relinked hi
    (hrelinked.mono fun j hj => List.mem_range'_1.mp hj)
  have hthreads := hlinked.threads htakes h.threads fun j hj hmem =>
    hnew (List.mem_singleton.mp hmem ▸ hj)
  refine ⟨⟨_, rfl⟩, hvalid, hpassed, hthreads, ?_, ?_, ?_⟩
  · exact List.forall_mem_cons.mpr ⟨hi, h.live⟩
  · refine List.forall_mem_cons.mpr ⟨(hrelinked.size i).trans hsize, fun j hj => ?_⟩
    exact (hrelinked.size j).trans (h.sized j hj)
  · refine List.forall_mem_cons.mpr ⟨?_, fun j hj => ?_⟩
    · rw [hrelinked.offset]
      exact hfront
    · rw [hrelinked.offset]
      exact h.front j hj

theorem alloc_top (h : a.Chained p spares) (hp : p.Valid loose) :
    alloc.Meets (a, p) (fun answer t => t.2 = p ∧ answer = spares.head?.map p.slotOf ∧
      (∃ chain, t.1 = { a with spare := chain }) ∧ t.1.Chained p spares.tail) Never := by
  simp only [alloc, meets_bind]
  apply (popFree_top h hp).imp
  rintro _ ⟨b, q⟩ ⟨rfl, rfl, hrest⟩
  cases spares with
  | nil => exact ⟨rfl, rfl, hrest⟩
  | cons i spares =>
    have hi := h.live i List.mem_cons_self
    simp only [List.head?_cons, onPool, meets_bind, meets_focus, meets_pure]
    apply (hp.slotAt_meets hi).imp
    rintro _ _ ⟨rfl, rfl⟩
    exact ⟨rfl, rfl, hrest⟩

/-! ### Putting back -/

/-- What is asked of a slot that is put back: it agrees with a record and has the size of the
allotment. -/
structure Takes (a : Allotment) (p : Pool) (slot : Slot) : Prop where
  named : slot.idx ≠ noIndex
  born : slot.idx < p.roster.length
  fits : slot.size = a.slotSize
  offset : (p.roster.record slot.idx).offset = slot.offset
  size : (p.roster.record slot.idx).size = slot.size

/-- Whatever is put back, and whatever the allotment and its pool are like: what is accepted is what
is asked for, and what is not accepted changes nothing. An index is a word of 32 bits, the last of
which names no record. -/
theorem free_judges (a : Allotment) (p : Pool) (slot : Slot) :
    (free slot).Meets (a, p) (fun _ _ => a.Takes p slot)
      fun fault t => t = (a, p) ∧ (slot.idx ≤ noIndex → ¬ a.Takes p slot ∧
        (fault = .violated (.notOfAllotment slot) ∨ fault = .violated (.recordMismatch slot))) := by
  simp only [free, meets_bind, meets_get, meets_ensure, onPool, meets_focus, Pool.onRoster,
    Roster.get, meets_pure]
  refine ⟨fun hmine => ⟨fun hstop => ⟨fun hrecord => ?_, fun hrecord => ⟨trivial, fun _ =>
    ⟨fun htakes => hrecord ⟨htakes.offset, htakes.size⟩, ?_⟩⟩⟩, fun hstop => absurd ?_ hstop⟩,
    fun hmine => ⟨trivial, fun _ => ⟨fun htakes => hmine ?_, ?_⟩⟩⟩
  · obtain ⟨hnamed, hborn, hfits⟩ := hmine
    simp only [pushFree, meets_bind, meets_get, onPool, onAllotment, meets_focus, meets_modify,
      Pool.onRoster]
    refine (Chain.push_one_meets p.roster a.spare slot.idx).weaken ?_ ?_
    · exact fun _ _ _ => ⟨hnamed, hborn, hfits, hrecord.1, hrecord.2⟩
    · rintro _ _ ⟨rfl, hrun⟩
      refine ⟨rfl, fun hword => absurd ⟨Nat.one_pos, by omega, fun i hi => ?_⟩ hrun⟩
      exact decide_eq_true (List.mem_singleton.mp hi ▸ hstop)
  · exact Or.inr trivial
  · exact Nat.lt_of_lt_of_le hmine.2.1 (Nat.min_le_right _ _)
  · exact ⟨htakes.named, htakes.born, htakes.fits⟩
  · exact Or.inl trivial

theorem free_top (h : a.Chained p spares) (hp : p.Valid loose) {slot : Slot} (hlent : p.Lent slot)
    (hnew : slot.idx ∉ spares) (hsize : slot.size = a.slotSize) (hfront : 0 ≤ slot.offset) :
    (free slot).Meets (a, p) (fun _ t => (∃ chain, t.1 = { a with spare := chain }) ∧
      p.Passed t.2 {slot.idx} ∧ t.1.Chained t.2 (slot.idx :: spares)) Never := by
  have hmine : slot.idx ≠ noIndex ∧ slot.idx < p.roster.length ∧ slot.size = a.slotSize :=
    ⟨hp.ne_noIndex hlent.live, hp.lt_length hlent.live, hsize⟩
  simp only [free, meets_bind, meets_get, meets_ensure, onPool, meets_focus, Pool.onRoster]
  refine ⟨fun _ => ?_, fun hother => hother hmine⟩
  apply (Roster.get_meets hp.roster hmine.2.1).sure
  rintro _ _ ⟨rfl, rfl⟩
  refine ⟨fun _ => ?_, fun hother => hother ⟨hlent.offset, hlent.size⟩⟩
  refine (pushFree_top h hp hlent.live hnew (hlent.size.trans hsize) ?_).imp ?_
  · exact hlent.offset.symm ▸ hfront
  · rintro _ _ ⟨hchain, -, hpassed, hmore⟩
    exact ⟨hchain, hpassed, hmore⟩

/-! ### Filling -/

def setAside [Host] : Act (Allotment × Pool) Unit := do
  let a := (← Act.get).1
  let slot ← onPool (Pool.alloc a.size (min 64 (ceilPow2 a.size)))
  Act.ensure (slot.size = a.slotSize) (.disagreement .allottedSize slot.size a.slotSize)
  pushFree slot.idx
  onAllotment (Act.modify fun a => { a with count := a.count + 1 })

theorem gather_succ [Host] (n : Nat) : gather (n + 1) = (do setAside; gather n) := by
  simp only [gather, setAside, bind_assoc]

/-- The allotment has set the records of `aside` aside, all of which are spare. Nobody had them in
`p₀`, and nobody has noticed. -/
structure Filled (p₀ : Pool) (loose : Finset Int) (aside : List Nat) (a : Allotment) (p : Pool) :
    Prop extends a.Chained p aside where
  valid : p.Valid loose
  passed : p₀.Passed p {i | i ∈ aside}
  new : ∀ i ∈ aside, i ∉ p₀.live
  count_eq : a.count = aside.length
  pos : 0 < a.size
  slotSize_eq : a.slotSize = ceilPow2 (max a.size SizeClass.least)

/-- The request that an allotment makes of its pool for each of its slots. -/
def request [Host] (a : Allotment) : Act Pool Slot := Pool.alloc a.size (min 64 (ceilPow2 a.size))

variable {p₀ : Pool} {aside : List Nat}

/-- One slot more comes on top of the chain, or the pool has no more of them. -/
theorem setAside_meets [Host] (h : Filled p₀ loose aside a p) :
    setAside.Meets (a, p)
      (fun _ t => t.1.size = a.size ∧ ∃ i, Filled p₀ loose (i :: aside) t.1 t.2)
      (fun fault t => (a.size ≤ SizeClass.largest → fault.IsRefusal) ∧
        t.2.Valid loose ∧ p.Passed t.2 ∅ ∧ t.1 = a ∧
        ∃ es, a.request.run p = ⟨.error fault, t.2, es⟩) := by
  simp only [setAside, meets_bind, meets_get, onPool, meets_focus]
  refine (Pool.alloc_meets_any h.valid a.size _).traced.weaken ?_ ?_
  · rintro slot q ⟨⟨hzero, -⟩ | ⟨-, hissued, hfront, hserved⟩, -⟩
    · exact absurd hzero (Nat.ne_of_gt h.pos)
    · have hlent := hissued.lent
      have hsize : slot.size = a.slotSize := by rw [hserved, servedSize_eq, h.slotSize_eq]
      have hnew : slot.idx ∉ aside := fun hmem => hissued.new (h.live _ hmem)
      have hchained : a.Chained q aside := h.toChained.passed hissued.passed fun i hi hidx =>
        hnew (Set.mem_singleton_iff.mp hidx ▸ hi)
      simp only [hsize, meets_ensure, true_implies, not_true_eq_false, false_implies, and_true]
      refine (pushFree_top hchained hissued.valid hissued.live hnew (hlent.size.trans hsize)
        (hlent.offset.symm ▸ hfront)).sure ?_
      rintro _ ⟨_, q'⟩ ⟨⟨chain, rfl⟩, hvalid, hpassed, hmore⟩
      simp only [onAllotment, meets_focus, meets_modify]
      refine ⟨trivial, slot.idx, ⟨hmore.threads, hmore.live, hmore.sized, hmore.front⟩, hvalid, ?_,
        ?_, congrArg (· + 1) h.count_eq, h.pos, h.slotSize_eq⟩
      · refine (h.passed.mono fun i hi => List.mem_cons_of_mem _ hi).trans
          ((hissued.passed.trans hpassed).mono ?_)
        rintro i rfl
        exact List.mem_cons_self
      · refine List.forall_mem_cons.mpr ⟨fun hlive => ?_, h.new⟩
        exact hissued.new ((h.passed.live _ hnew).mpr hlive)
  · rintro fault q ⟨⟨⟨hvalid, hpassed⟩, hrefusal⟩, hrun⟩
    exact ⟨fun hsize => hrefusal (accepts_gathered h.valid hsize), hvalid, hpassed, trivial, hrun⟩

/-- Where filling stops after some slots, these are on the chain, and the next request is refused.
-/
structure Stopped [Host] (p₀ : Pool) (loose : Finset Int) (aside : List Nat) (a : Allotment)
    (p : Pool) (n : Nat) (fault : Fault) (t : Allotment × Pool) : Prop where
  refusal : a.size ≤ SizeClass.largest → fault.IsRefusal
  gathered : ∃ m < n, ∃ more b q es, more.length = m ∧
    (gather m).run (a, p) = ⟨.ok (), (b, q), es⟩ ∧ b.size = a.size ∧
    Filled p₀ loose (more ++ aside) b q ∧ (b.request.run q).result = .error fault ∧
    t.1 = b ∧ t.2.Valid loose ∧ q.Passed t.2 ∅

/-- Slots are set aside one by one, as many as the pool supplies. -/
theorem gather_fills [Host] (h : Filled p₀ loose aside a p) (n : Nat) :
    (gather n).Meets (a, p)
      (fun _ t => ∃ more, more.length = n ∧ t.1.size = a.size ∧
        Filled p₀ loose (more ++ aside) t.1 t.2)
      (Stopped p₀ loose aside a p n) := by
  induction n generalizing a p aside with
  | zero => exact ⟨[], rfl, rfl, h⟩
  | succ n ih =>
    rw [gather_succ, meets_bind]
    -- the run is kept along, since where filling stops the slots before that are to be named
    refine (setAside_meets h).traced.weaken ?_ ?_
    · rintro _ ⟨b, q⟩ ⟨⟨hsize, i, hfilled⟩, es, hrun⟩
      refine (ih hfilled).weaken ?_ ?_
      · rintro _ t ⟨more, hlength, hsize', hmore⟩
        refine ⟨more ++ [i], ?_, hsize'.trans hsize, ?_⟩
        · rw [List.length_append, hlength, List.length_singleton]
        · rw [List.append_assoc]
          exact hmore
      · rintro fault t ⟨hrefusal, m, hm, more, c, r, fs, hlength, hrun', hsize', hmore, hrest⟩
        dsimp only at hsize hrefusal hsize'
        refine ⟨hsize ▸ hrefusal, m + 1, Nat.succ_lt_succ hm, more ++ [i], c, r, es ++ fs, ?_, ?_,
          hsize'.trans hsize, ?_, hrest⟩
        · rw [List.length_append, hlength, List.length_singleton]
        · rw [gather_succ, run_bind_ok hrun, hrun']
        · rw [List.append_assoc]
          exact hmore
    · rintro fault ⟨b, q⟩ ⟨⟨hrefusal, hvalid, hpassed, rfl, es, hrun⟩, -⟩
      exact ⟨hrefusal, 0, Nat.succ_pos n, [], b, p, [], rfl, rfl, rfl, h,
        congrArg Outcome.result hrun, rfl, hvalid, hpassed⟩

/-! ### Giving up -/

/-- What is on the chain goes back from the top on, and is counted. -/
theorem returnFree_recalls (h : a.Chained p spares) (hp : p.Valid loose) {fuel : Nat}
    (hfuel : spares.length < fuel) (returned : Nat) :
    (returnFree fuel returned).Meets (a, p)
      (fun count t => count = returned + spares.length ∧ t.2.Valid loose ∧
        p.Passed t.2 {i | i ∈ spares} ∧ p.Recalls (spares.map p.slotOf) t.2) Never := by
  induction spares generalizing a p fuel returned with
  | nil =>
    obtain ⟨fuel, rfl⟩ := Nat.exists_eq_add_one_of_ne_zero (Nat.ne_zero_of_lt hfuel)
    simp only [returnFree, meets_bind]
    apply (popFree_top h hp).imp
    rintro _ ⟨b, q⟩ ⟨rfl, rfl, -, -⟩
    exact ⟨rfl, hp, .refl _ _, .nil _⟩
  | cons i spares ih =>
    obtain ⟨fuel, rfl⟩ := Nat.exists_eq_add_one_of_ne_zero (Nat.ne_zero_of_lt hfuel)
    obtain ⟨hi, hlive⟩ := List.forall_mem_cons.mp h.live
    obtain ⟨hfront, -⟩ := List.forall_mem_cons.mp h.front
    obtain ⟨hout, -⟩ := List.nodup_cons.mp h.nodup
    have hlent := hp.lent_slotOf hi
    simp only [returnFree, meets_bind]
    apply (popFree_top h hp).imp
    rintro _ ⟨b, q⟩ ⟨rfl, rfl, -, hrest⟩
    dsimp only at h hp hi hfront hlent hrest
    simp only [List.head?_cons, onPool, meets_bind, meets_focus]
    apply (hp.slotAt_meets hi).imp
    rintro _ p ⟨rfl, rfl⟩
    apply ((hp.free_meets hlent).and_answers (hlent.matches.free_meets hp)).imp
    rintro _ q ⟨⟨hvalid, hpassed, -⟩, hreclaims⟩
    -- the record that went back has a new link word, but it is off the chain by now
    have hrest' : b.Chained q spares := hrest.passed hpassed <| by
      rintro _ hmem rfl
      exact hout hmem
    have hsame : spares.map q.slotOf = spares.map p.slotOf := by
      refine List.map_congr_left fun j hj => ?_
      have hji : j ≠ i := fun hji => hout (hji ▸ hj)
      rw [Pool.slotOf, Pool.slotOf, hreclaims.kept j hji, hreclaims.arena]
    refine (ih hrest' hvalid (Nat.lt_of_succ_lt_succ hfuel) (returned + 1)).imp ?_
    rintro _ t ⟨rfl, hvalid', hpassed', hrecalls⟩
    refine ⟨?_, hvalid', ?_, .cons hreclaims hlent.matches hfront ?_ (hsame ▸ hrecalls)⟩
    · rw [List.length_cons, Nat.add_right_comm, Nat.add_assoc]
    · refine (hpassed.mono ?_).trans (hpassed'.mono fun j hj => List.mem_cons_of_mem i hj)
      rintro _ rfl
      exact List.mem_cons_self
    · exact Nat.ne_of_gt (hp.size_pos hi)

theorem release_recalls (h : a.Chained p spares) (hp : p.Valid loose) :
    release.Meets (a, p) (fun _ t => t.2.Valid loose ∧ p.Passed t.2 {i | i ∈ spares} ∧
      p.Recalls (spares.map p.slotOf) t.2) Never := by
  simp only [release, meets_bind, meets_get]
  refine (returnFree_recalls h hp (h.sound.fuel spares h.nodup fun _ => id) 0).imp
    fun returned t ht => ?_
  simp only [meets_ite, meets_note, meets_pure]
  exact ⟨fun _ => ht.2, fun _ => ht.2⟩

/-! ### Making -/

def nothing (size : Nat) : Allotment := ⟨.empty, size, ceilPow2 (max size SizeClass.least), 0⟩

theorem slotSize_lt {size : Nat} (hsize : size ≤ SizeClass.largest) :
    ceilPow2 (max size SizeClass.least) < word32 := by
  have hleast : SizeClass.least ≤ SizeClass.largest := by decide
  have hlargest : max size SizeClass.least ≤ 2 ^ 21 := Nat.max_le.mpr ⟨hsize, hleast⟩
  exact Nat.lt_of_le_of_lt (ceilPow2_le hlargest) (by decide)

theorem filled_nothing (hp : p.Valid loose) {size : Nat} (hpos : 0 < size) :
    Filled p loose [] (nothing size) p where
  toChained := chained_empty _ _
  valid := hp
  passed := .refl _ _
  new _ hi := absurd hi List.not_mem_nil
  count_eq := rfl
  pos := hpos
  slotSize_eq := rfl

/-- What is left of an allotment that could not be filled: nothing. The pool refused a request, all
that it had supplied before is back on the shelves, and no other record came or went. -/
structure Unfilled [Host] (p : Pool) (count size : Nat) (fault : Fault) (p' : Pool) : Prop where
  refusal : fault.IsRefusal
  live : ∀ i, i ∈ p'.live ↔ i ∈ p.live
  liveCount : p'.liveCount = p.liveCount
  back : ∃ m < count, ∃ a q es obtained, (gather m).run (nothing size, p) = ⟨.ok (), (a, q), es⟩ ∧
    (a.request.run q).result = .error fault ∧
    Chain.Threads q.roster.link a.spare.head obtained ∧ obtained.length = m ∧
    ∀ i ∈ obtained, i ∉ p.live ∧ p'.OnShelf i

/-- What an allotment returns that is given up lies on the shelves afterwards. -/
theorem release_shelves (h : a.Chained p spares) (hp : p.Valid loose)
    (hrecalls : p.Recalls (spares.map p.slotOf) p') : ∀ i ∈ spares, i ∉ p'.live ∧ p'.OnShelf i := by
  have hlent : ∀ slot ∈ spares.map p.slotOf, p.Lent slot :=
    List.forall_mem_map.mpr fun i hi => hp.lent_slotOf (h.live i hi)
  have hfront : ∀ slot ∈ spares.map p.slotOf, 0 ≤ slot.offset :=
    List.forall_mem_map.mpr fun i hi => h.front i hi
  intro i hi
  obtain ⟨hpiece, c, records, hsize, hrecords, hmem⟩ :=
    hrecalls.shelved hp hlent hfront (List.mem_map_of_mem hi)
  refine ⟨fun hlive => ((hrecalls.live i).mp hlive).2 ?_, c, records, ?_, hrecords, hmem⟩
  · exact List.mem_map_of_mem (List.mem_map_of_mem hi)
  · exact (congrArg Piece.size hpiece).trans hsize

/-- An allotment is filled, or, if it is for slots of a size that pools serve, all that it got goes
back. -/
theorem create_fills [Host] (hp : p.Valid loose) (count size : Nat) :
    (create count size).Meets p
      (fun a p' => a.size = size ∧ ∃ aside, aside.length = count ∧ Filled p loose aside a p')
      fun fault p' => 0 < size → size ≤ SizeClass.largest → Unfilled p count size fault p' := by
  refine (meets_bind _ _).mpr ((meets_ensure _ _).mpr
    ⟨fun hpos => ?_, fun hzero hpos => absurd hpos hzero⟩)
  refine (meets_bind _ _).mpr ?_
  simp only [roundToPow2, meets_bind, meets_ensure, meets_pure]
  refine ⟨fun _ => ?_, fun hover _ hsize => absurd (slotSize_lt hsize) hover⟩
  refine (meets_beside _ _).mpr ((meets_bind _ _).mpr ((meets_attempt _).mpr ?_))
  refine (gather_fills (filled_nothing hp hpos) count).weaken ?_ ?_
  · rintro _ t ⟨aside, hlength, hasked, hfilled⟩
    exact ⟨hasked, aside, hlength, List.append_nil aside ▸ hfilled⟩
  · rintro fault ⟨b, r⟩ ⟨hrefusal, m, hm, obtained, a, q, es, hlength, hrun, hasked, hfilled,
      hrefused, rfl, hvalid, hpassed⟩
    rw [List.append_nil] at hfilled
    have hchained := hfilled.toChained.passed hpassed fun i _ => Set.notMem_empty i
    apply (release_recalls hchained hvalid).bind_sure
    rintro _ ⟨_, p'⟩ ⟨hvalid', hpassed', hrecalls⟩
    have hback := release_shelves hchained hvalid hrecalls
    have hundone : p.Passed p' ∅ :=
      ((hfilled.passed.trans (hpassed.mono fun i hi => absurd hi (Set.notMem_empty i))).trans
        hpassed').forget hfilled.new fun i hi => (hback i hi).1
    intro _ hsize
    exact ⟨hrefusal hsize, fun i => hundone.live i (Set.notMem_empty i),
      hvalid'.liveCount_eq hp fun i => hundone.live i (Set.notMem_empty i), m, hm, b, q, es,
      obtained, hrun, hrefused, hfilled.threads, hlength,
      fun i hi => ⟨hfilled.new i hi, (hback i hi).2⟩⟩

end Allotment

end SlotArena
