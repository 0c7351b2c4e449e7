import TracingHeap.Proofs.Makings

/-! A collection as the program sees it. Whatever the roots led to is there afterwards, at its old place or at that of its
copy; the heap is between collections again, and what the roots lead to now is what the next collection can trace. -/

namespace TracingHeap

open List Memory Work

theorem Spaces.copying_iff {s : Spaces} {id : SpaceId} :
    (∃ x, s.space id = .copying x) ↔ id = .first ∨ id = .second ∧ s.plan = .semispace := by
  unfold Spaces.plan
  cases id with
  | first => simp [Spaces.space]
  | immortal => simp [Spaces.space]
  | large => simp [Spaces.space]
  | second => cases second : s.second <;> simp [Spaces.space, second]

theorem Spaces.Evacuates.copying {s : Spaces} {id : SpaceId} (moves : s.Evacuates id) : ∃ x, s.space id = .copying x := by
  unfold Spaces.Evacuates at moves
  cases space : s.space id with
  | copying x => exact ⟨x, rfl⟩
  | markSweep x => rw [space] at moves; exact moves.elim
  | immortal x => rw [space] at moves; exact moves.elim
  | large x => rw [space] at moves; exact moves.elim

/-- A collection from one heap between collections to the next: `h₁` is the heap that the closure started from, and `h` the one
in which it has ended. -/
structure Heap.Cycle (h₀ h₁ h h' : Heap) (cs₀ cs cs' : List Collector) (pieces₀ known pieces kept : List Piece) (full : Bool) :
    Prop where
  quiet : Quiet h₀ cs₀ pieces₀
  knows : Knows h₀ pieces₀ known
  traced : h₀.Traced h₁ h cs₀ cs pieces₀ known pieces full
  released : h.Released h' cs cs'
  sifted : h.Sifted pieces₀ known pieces kept

namespace Heap.Cycle

variable {h₀ h₁ h h' : Heap} {cs₀ cs cs' : List Collector} {pieces₀ known pieces kept : List Piece} {full : Bool}
  {o p : Piece} {a b : Address} {i : Nat}

theorem freed (cycle : Cycle h₀ h₁ h h' cs₀ cs cs' pieces₀ known pieces kept full) :
    h.spaces.Freed h'.spaces h.memory h'.memory h.lastFull kept (cs'.flatMap Collector.buffers ++ h'.buffers)
      (cs'.flatMap Collector.keys ++ h'.keys) :=
  cycle.traced.freed cycle.quiet cycle.released cycle.sifted.fewer cycle.sifted.retained

/-- The heap is between collections again. -/
theorem settled (cycle : Cycle h₀ h₁ h h' cs₀ cs cs' pieces₀ known pieces kept full) : Quiet h' cs' kept :=
  cycle.traced.quiet cycle.quiet cycle.released cycle.sifted.fewer cycle.sifted.retained cycle.sifted.complete

theorem plan (cycle : Cycle h₀ h₁ h h' cs₀ cs cs' pieces₀ known pieces kept full) : h'.plan = h₀.plan :=
  cycle.freed.plan.trans cycle.traced.plan

theorem mutators (cycle : Cycle h₀ h₁ h h' cs₀ cs cs' pieces₀ known pieces kept full) :
    h'.program.mutators.size = h₀.program.mutators.size := by
  obtain ⟨_, opened⟩ := cycle.traced.opened
  obtain ⟨_, _, _, released⟩ := cycle.released.heap
  rw [released, Array.size_map, cycle.traced.laboured.mutators.1, opened.mutators, Array.size_map]

/-! ### What was known -/

/-- Every object that the collection is done with is somewhere afterwards. -/
theorem image_ne_null (cycle : Cycle h₀ h₁ h h' cs₀ cs cs' pieces₀ known pieces kept full) (member : o ∈ known) (done : h.Done o) :
    h.spaces.image o ≠ .null := by
  intro null
  obtain ⟨r, inside, start, -, -, ⟨rfl, -⟩ | ⟨-, home, -⟩⟩ := cycle.sifted.images o member done
  · exact (cycle.knows.known r member).2.2 (start.trans null)
  · have small : r.home ≠ .large := fun large => by
      obtain ⟨x, bad⟩ | ⟨x, bad, -⟩ := h.destination_cases <;> rw [← home, large] at bad <;> cases bad
    have positive := cycle.settled.held.estate.laid.positive r.home small
    have low := (cycle.settled.held.inside inside).1
    rw [start, null] at low
    exact Nat.lt_irrefl 0 (Nat.lt_of_lt_of_le positive low)

/-- An object that the collection is done with is the same object afterwards. -/
theorem alike (cycle : Cycle h₀ h₁ h h' cs₀ cs cs' pieces₀ known pieces kept full) (member : o ∈ known) (done : h.Done o) :
    Alike h₀.memory h'.memory o.start (h.spaces.image o) o.bytes := by
  obtain ⟨_, opened⟩ := cycle.traced.opened
  have moved := cycle.traced.closing.kept.content o member
  obtain ⟨r, inside, start, bytes, -⟩ := cycle.sifted.images o member done
  have held := cycle.settled.held
  have placed := held.placed r inside
  obtain ⟨stays, -⟩ := alike_of_agree (cycle.freed.agree r inside) placed.aligned placed.low (held.whole inside).1 placed.high placed.room
  rw [start, bytes] at stays
  change Alike h₁.memory _ _ _ _ at moved
  rw [opened.set.memory] at moved
  exact moved.trans stays

/-- Its fields are brought up to date. -/
theorem field (cycle : Cycle h₀ h₁ h h' cs₀ cs cs' pieces₀ known pieces kept full) (member : o ∈ known) (done : h.Done o)
    (small : i < h₀.memory.fields o.start) :
    Settled known h (h₀.memory.field o.start i) (h'.memory.field (h.spaces.image o) i) := by
  obtain ⟨_, opened⟩ := cycle.traced.opened
  have same : h₁.memory = h₀.memory := opened.set.memory
  have target : Outset.target ⟨h₁, pieces₀, known⟩ o i = h₀.memory.field o.start i := by rw [Outset.target, same]
  have count : Outset.count ⟨h₁, pieces₀, known⟩ o = h₀.memory.fields o.start := by rw [Outset.count, same]
  obtain ⟨r, inside, start, bytes, -⟩ := cycle.sifted.images o member done
  have fits := (cycle.knows.shaped o member).2
  have kept := (cycle.settled.held.read_agree inside (cycle.freed.agree r inside)).2.2 i (by omega)
  rw [start] at kept
  rw [kept, ← target]
  rcases cycle.traced.closing.owes.fields o member (.inl done) with ⟨-, bad⟩ | bad | all
  · exact bad.elim
  · exact bad.elim
  · exact (all i (count.symm ▸ small)).resolve_right id

/-- So are the roots. -/
theorem roots (cycle : Cycle h₀ h₁ h h' cs₀ cs cs' pieces₀ known pieces kept full) :
    h'.program.roots.size = h₀.program.roots.size ∧
      ∀ (i : Nat) a b, h₀.program.roots[i]? = some a → h'.program.roots[i]? = some b → Settled known h a b := by
  obtain ⟨_, opened⟩ := cycle.traced.opened
  obtain ⟨_, _, _, released⟩ := cycle.released.heap
  have same : h'.program.roots = h.program.roots := by rw [released]
  have before : h₁.program.roots = h₀.program.roots := opened.set.roots
  rw [same, ← before]
  exact ⟨cycle.traced.closing.kept.rootCount, fun i a b before now =>
    (cycle.traced.closing.owes.roots i a b before now).resolve_right id⟩

/-- Whatever the roots led to before they lead to now, at the place where it is now. -/
theorem leads_image (cycle : Cycle h₀ h₁ h h' cs₀ cs cs' pieces₀ known pieces kept full) (leads : h₀.Leads a) :
    ∃ o ∈ known, o.start = a ∧ h.Done o ∧ h'.Leads (h.spaces.image o) := by
  induction leads with
  | @root a member proper =>
    obtain ⟨i, inside, rfl⟩ := Array.mem_iff_getElem.mp member
    obtain ⟨size, each⟩ := cycle.roots
    have inside' : i < h'.program.roots.size := size.symm ▸ inside
    rcases each i _ _ (Array.getElem?_eq_getElem inside) (Array.getElem?_eq_getElem inside') with ⟨absent, -⟩ | ⟨q, known, same, done, image⟩
    · exact absurd absent proper
    · exact ⟨q, known, same.symm, done, .root (image ▸ Array.getElem_mem inside') (cycle.image_ne_null known done)⟩
  | @field _ a i source inside holds proper ih =>
    obtain ⟨o, known, rfl, done, leads⟩ := ih
    have settled := cycle.field known done inside
    rw [holds] at settled
    rcases settled with ⟨absent, -⟩ | ⟨q, known', same, done', image⟩
    · exact absurd absent proper
    · have inside' : i < h'.memory.fields (h.spaces.image o) := by rwa [(cycle.alike known done).fields]
      exact ⟨q, known', same.symm, done', .field leads inside' image (cycle.image_ne_null known' done')⟩

/-- The collection is done with everything that the roots led to. -/
theorem done_of_leads (cycle : Cycle h₀ h₁ h h' cs₀ cs cs' pieces₀ known pieces kept full) (leads : h₀.Leads a) :
    ∃ o ∈ known, o.start = a ∧ h.Done o := by
  obtain ⟨o, known, start, done, -⟩ := cycle.leads_image leads
  exact ⟨o, known, start, done⟩

/-- Whatever the roots lead to now is an object that they led to before, at the place where it is now. -/
theorem origin_of_leads (cycle : Cycle h₀ h₁ h h' cs₀ cs cs' pieces₀ known pieces kept full) (leads : h'.Leads a) :
    ∃ o ∈ known, h₀.Leads o.start ∧ h.Done o ∧ h.spaces.image o = a := by
  induction leads with
  | @root a member proper =>
    obtain ⟨i, inside, rfl⟩ := Array.mem_iff_getElem.mp member
    obtain ⟨size, each⟩ := cycle.roots
    have inside' : i < h₀.program.roots.size := size ▸ inside
    rcases each i _ _ (Array.getElem?_eq_getElem inside') (Array.getElem?_eq_getElem inside) with ⟨-, absent⟩ | ⟨q, member, same, done, image⟩
    · exact absurd absent proper
    · exact ⟨q, member, .root (same ▸ Array.getElem_mem inside') (cycle.knows.known q member).2.2, done, image.symm⟩
  | @field _ a i source inside holds proper ih =>
    obtain ⟨o, member, leads, done, rfl⟩ := ih
    rw [(cycle.alike member done).fields] at inside
    have settled := cycle.field member done inside
    rw [holds] at settled
    rcases settled with ⟨-, absent⟩ | ⟨q, member, same, done, image⟩
    · exact absurd absent proper
    · exact ⟨q, member, .field leads inside same (cycle.knows.known q member).2.2, done, image.symm⟩

/-! ### What is known afterwards -/

/-- Nothing is recorded. -/
theorem recorded (cycle : Cycle h₀ h₁ h h' cs₀ cs cs' pieces₀ known pieces kept full) : h'.recorded = [] := by
  obtain ⟨_, opened⟩ := cycle.traced.opened
  obtain ⟨_, _, _, same⟩ := cycle.released.heap
  rw [same, Heap.recorded]
  change (h.program.mutators.map _).toList.flatMap _ ++ h.backlog.remembered.flatMap Array.toList = []
  rw [cycle.traced.spent.remembered, cycle.traced.laboured.mutators.1, opened.mutators, Array.toList_map, Array.toList_map, flatMap_map,
    flatMap_map]
  exact append_eq_nil_iff.mpr ⟨flatMap_eq_nil_iff.mpr fun m _ => rfl, rfl⟩

/-- Immortal objects are marked, whether the collection covered them or not. -/
theorem immortal (cycle : Cycle h₀ h₁ h h' cs₀ cs cs' pieces₀ known pieces kept full) (member : o ∈ known)
    (home : o.home = .immortal) (done : h.Done o) :
    h'.spaces.immortal.marks.entryByte o.start = h'.spaces.immortal.current := by
  obtain ⟨_, opened⟩ := cycle.traced.opened
  have marked : h.spaces.Reached o := by
    by_cases covered : h.Covered o
    · exact done covered
    · have before := mt (cycle.traced.closing.kept.covered o).mpr covered
      change ¬ h₁.Covered o at before
      rw [opened.set.covered (fun there => by rw [home] at there; cases there) fun there => by rw [home] at there; cases there] at before
      have young : h₀.plan = .generational ∧ full = false := by simpa [home] using before
      refine cycle.traced.closing.kept.reached o (cycle.knows.known o member).1 ?_
      change h₁.spaces.Reached o
      unfold Spaces.Reached
      rw [home]
      change h₁.spaces.immortal.marks.entryByte _ = h₁.spaces.immortal.current
      rw [opened.set.immortal_space, if_pos young]
      exact cycle.knows.immortal o member home
  rw [cycle.freed.immortal.1]
  unfold Spaces.Reached at marked
  rwa [home] at marked

/-- An object that stayed is old in a generational heap. -/
theorem aged (cycle : Cycle h₀ h₁ h h' cs₀ cs cs' pieces₀ known pieces kept full) (generational : h₀.plan = .generational)
    (member : o ∈ known) (done : h.Done o) (inside : p ∈ kept) (start : p.start = h.spaces.image o) : h'.Aged p := by
  obtain ⟨r, inside', start', -, -, either⟩ := cycle.sifted.images o member done
  obtain rfl := cycle.settled.held.start_inj inside inside' (start.trans start'.symm)
  have plan : h.plan = .generational := cycle.traced.plan.trans generational
  rcases either with ⟨rfl, stays⟩ | ⟨-, home, -⟩
  · refine ⟨fun first => stays ((cycle.traced.evacuates p.home).mpr ?_), fun large => ?_⟩
    · rw [h.emptied_eq, plan, first]
    · have reached := done (by rw [covered_iff, large]; trivial)
      unfold Spaces.Reached at reached
      rw [large] at reached
      rw [cycle.freed.large]
      exact reached
  · rw [destination, plan] at home
    exact ⟨(fun first => by rw [home] at first; cases first), fun large => by rw [home] at large; cases large⟩

open Classical in
/-- What the roots lead to is what the next collection can trace. -/
theorem knows_next (cycle : Cycle h₀ h₁ h h' cs₀ cs cs' pieces₀ known pieces kept full) :
    ∃ objects, Knows h' kept objects ∧ ∀ a, h'.Leads a ↔ ∃ o ∈ objects, o.start = a := by
  have origin : ∀ a, h'.Leads a → ∃ o ∈ known, h.Done o ∧ h.spaces.image o = a ∧ ∃ r ∈ kept, r.start = a ∧ r.bytes = o.bytes ∧
      r.isObject = true ∧ (r = o ∧ ¬ h.spaces.Evacuates o.home ∨ r ∉ pieces₀ ∧ r.home = h.destination ∧ h.spaces.Evacuates o.home) := by
    intro a leads
    obtain ⟨o, member, -, done, rfl⟩ := cycle.origin_of_leads leads
    exact ⟨o, member, done, rfl, cycle.sifted.images o member done⟩
  have objects : ∀ r, r ∈ kept.filter (fun r => decide (h'.Leads r.start)) ↔ r ∈ kept ∧ h'.Leads r.start := fun r => by
    rw [mem_filter, decide_eq_true_iff]
  have named : ∀ a, h'.Leads a → ∃ r ∈ kept.filter (fun r => decide (h'.Leads r.start)), r.start = a := by
    intro a leads
    obtain ⟨o, -, -, -, r, inside, rfl, -⟩ := origin a leads
    exact ⟨r, (objects r).mpr ⟨inside, leads⟩, rfl⟩
  refine ⟨kept.filter fun r => decide (h'.Leads r.start), ?_, fun a => ⟨named a, ?_⟩⟩
  swap
  · rintro ⟨r, member, rfl⟩
    exact ((objects r).mp member).2
  -- Every object that is known now was known before, and is read as it was then.
  have each : ∀ r ∈ kept.filter (fun r => decide (h'.Leads r.start)), h'.Leads r.start ∧ ∃ o ∈ known, h.Done o ∧
      h.spaces.image o = r.start ∧ r.bytes = o.bytes ∧ r.isObject = true ∧ Alike h₀.memory h'.memory o.start r.start o.bytes ∧
      (r = o ∨ r.home = h.destination ∧ h.spaces.Evacuates o.home) := by
    intro r member
    obtain ⟨inside, leads⟩ := (objects r).mp member
    obtain ⟨o, known, done, image, r', inside', start, bytes, object, either⟩ := origin _ leads
    obtain rfl := cycle.settled.held.start_inj inside' inside start
    exact ⟨leads, o, known, done, image, bytes, object, image ▸ cycle.alike known done,
      either.imp And.left fun moved => moved.2⟩
  have field : ∀ r ∈ kept.filter (fun r => decide (h'.Leads r.start)), ∀ i < h'.memory.fields r.start,
      h'.memory.field r.start i = .null ∨
        ∃ q ∈ kept.filter (fun r => decide (h'.Leads r.start)), h'.memory.field r.start i = q.start := by
    intro r member i small
    by_cases proper : h'.memory.field r.start i = .null
    · exact .inl proper
    · obtain ⟨q, there, start⟩ := named _ (.field ((objects r).mp member).2 small rfl proper)
      exact .inr ⟨q, there, start.symm⟩
  refine ⟨fun r member => ?_, fun r member => ?_, fun r member x space => ?_, field, fun a root => ?_, fun r member home => ?_,
    fun a noted => ?_, fun generational r member _ => .inr fun i small => (field r member i small).imp_right ?_⟩
  · obtain ⟨leads, o, known, -, -, -, object, -⟩ := each r member
    refine ⟨((objects r).mp member).1, object, ?_⟩
    cases leads with
    | root _ proper => exact proper
    | field _ _ _ proper => exact proper
  · obtain ⟨-, o, known, -, -, bytes, -, alike, -⟩ := each r member
    rw [bytes, alike.fields]
    exact cycle.knows.shaped o known
  · obtain ⟨-, o, known, -, -, bytes, -, alike, either⟩ := each r member
    have copying : ∃ y, h₀.spaces.space o.home = .copying y := by
      refine Spaces.copying_iff.mpr ?_
      rcases either with rfl | ⟨-, moves⟩
      · have kind := Spaces.copying_iff.mp ⟨x, space⟩
        rwa [show h'.spaces.plan = h₀.spaces.plan from cycle.plan] at kind
      · have kind := Spaces.copying_iff.mp moves.copying
        rwa [show h.spaces.plan = h₀.spaces.plan from cycle.traced.plan] at kind
    obtain ⟨y, space₀⟩ := copying
    have size : (h'.memory.header r.start).size = (h₀.memory.header o.start).size := congrArg Prod.fst alike.shape
    rw [size, bytes]
    exact cycle.knows.movable o known y space₀
  · by_cases proper : a = .null
    · exact .inl proper
    · obtain ⟨q, there, start⟩ := named a (.root root proper)
      exact .inr ⟨q, there, start.symm⟩
  · obtain ⟨-, o, known, done, -, -, -, -, rfl | ⟨elsewhere, -⟩⟩ := each r member
    · exact cycle.immortal known home done
    · rw [home, destination] at elsewhere
      revert elsewhere
      cases h.plan with
      | generational =>
        intro same
        cases same
      | semispace =>
        rw [current]
        cases h.plan <;> cases h.scope.flipped <;> intro same <;> cases same
  · rw [cycle.recorded] at noted
    cases noted
  · rintro ⟨q, there, holds⟩
    obtain ⟨-, o, known, done, image, -⟩ := each q there
    exact ⟨q, there, holds, cycle.aged (cycle.plan.symm.trans generational) known done ((objects q).mp there).1 image.symm⟩

/-- Copies are as small as their originals. -/
theorem modest (cycle : Cycle h₀ h₁ h h' cs₀ cs cs' pieces₀ known pieces kept full)
    (before : ∀ q ∈ pieces₀, ∀ x, h₀.spaces.space q.home = .copying x → q.bytes ≤ 8192) (inside : p ∈ kept) {x : CopySpace}
    (space : h'.spaces.space p.home = .copying x) : p.bytes ≤ 8192 := by
  obtain ⟨q, there, fate⟩ := (cycle.sifted.tenants _).mp ⟨p, inside, rfl⟩
  have member := cycle.traced.closing.kept.base q there
  by_cases moves : h.spaces.Evacuates q.home
  · obtain ⟨-, same⟩ := (cycle.traced.fate_of_moved member moves).mp fate
    have kind := Spaces.copying_iff.mp moves.copying
    rw [show h.spaces.plan = h₀.spaces.plan from cycle.traced.plan] at kind
    obtain ⟨y, space₀⟩ := Spaces.copying_iff.mpr kind
    exact (congrArg Tenant.bytes same).trans_le (before q there y space₀)
  · obtain ⟨-, same⟩ := (cycle.traced.fate_of_still member moves).mp fate
    have kind := Spaces.copying_iff.mp ⟨x, space⟩
    rw [show h'.spaces.plan = h₀.spaces.plan from cycle.plan, show p.home = q.home from congrArg Tenant.home same] at kind
    obtain ⟨y, space₀⟩ := Spaces.copying_iff.mpr kind
    exact (congrArg Tenant.bytes same).trans_le (before q there y space₀)

/-! ### The accounts -/

/-- What was there before and is retained stays. -/
theorem kept_of_retains (cycle : Cycle h₀ h₁ h h' cs₀ cs cs' pieces₀ known pieces kept full) (member : p ∈ pieces₀)
    (retains : h.Retains p) : p ∈ kept := by
  have there := cycle.traced.closing.kept.base p member
  obtain ⟨q, inside, same⟩ := (cycle.sifted.tenants p.tenant).mpr
    ⟨p, member, (cycle.traced.fate_of_still there retains.1).mpr ⟨retains, rfl⟩⟩
  have start : q.start = p.start := congrArg Tenant.start same
  exact cycle.traced.shared.held.start_inj (cycle.sifted.fewer.subset inside) there start ▸ inside

/-- A collection leaves the accounts as they were. -/
theorem level (cycle : Cycle h₀ h₁ h h' cs₀ cs cs' pieces₀ known pieces kept full) : h'.spaces.excess = h₀.spaces.excess := by
  obtain ⟨_, opened⟩ := cycle.traced.opened
  exact cycle.freed.level.trans (cycle.traced.closing.kept.steady.level.trans (Spaces.Alike.excess opened.set.alike))

/-- If every live run was the room of a piece, then it is that of one that was kept: the runs of the others were given back. -/
theorem occupied (cycle : Cycle h₀ h₁ h h' cs₀ cs cs' pieces₀ known pieces kept full)
    (occupied : h₀.spaces.Occupied (pieces₀.map Piece.held)) : h'.spaces.Occupied (kept.map Piece.held) := by
  obtain ⟨_, opened⟩ := cycle.traced.opened
  have held := cycle.traced.shared.held
  have tracked := cycle.traced.shared.tracked.large
  have pages : h.spaces.large.pages = h₀.spaces.large.pages := by
    have alike : h₁.spaces.large.pages = h₀.spaces.large.pages := opened.set.alike .large
    exact cycle.traced.closing.kept.steady.large.trans alike
  intro run live
  obtain ⟨before, undead⟩ := cycle.freed.runs run live
  have span : h'.spaces.large.pages.spanOf run = h₀.spaces.large.pages.spanOf run := by
    rw [Pages.Runs.spanOf, Pages.Runs.spanOf, cycle.freed.extent, pages]
  obtain ⟨p, member, room⟩ := mem_map.mp (occupied run (pages ▸ before))
  have home : p.home = .large := congrArg Prod.fst room
  have whole : p.span = h.spaces.large.pages.spanOf run := (congrArg Prod.snd room).trans (by rw [pages])
  have there := cycle.traced.closing.kept.base p member
  have still : ¬ h.spaces.Evacuates p.home := by rw [home]; exact id
  rw [span, ← room]
  refine mem_map_of_mem (cycle.kept_of_retains member ⟨still, fun _ => ?_⟩)
  by_cases object : p.isObject = true
  · refine .inr (.inr ?_)
    unfold Spaces.Reached
    rw [home]
    -- The run of the piece is on its page, so it would be gone if the object were dead.
    have page : run.first = h.spaces.large.page p.start := by
      obtain ⟨low, -⟩ := held.inside there
      have placed := held.placed p there
      have near := placed.near
      have start := placed.low
      rw [whole] at near start
      rw [home] at low
      simp only [Pages.Runs.spanOf, Spaces.space, Space.extent, Extent.span, Span.ofBytes] at near start low
      rw [LargeSpace.page]
      omega
    rcases tracked.complete p there home object with fresh | survivor | young | old
    · exact absurd fresh (cycle.traced.shared.old _)
    · exact survivor
    · exact absurd page (undead _ (.inl young))
    · cases whole : h.lastFull with
      | true => exact absurd page (undead _ (.inr ⟨whole, old⟩))
      | false => exact absurd old (cycle.traced.old_empty whole _)
  · exact .inr (.inl ⟨home, by simpa using object⟩)

/-- The barrier starts over. -/
theorem logged_next (cycle : Cycle h₀ h₁ h h' cs₀ cs cs' pieces₀ known pieces kept full) : Logged h' kept where
  stamped p member object := by
    obtain ⟨_, opened⟩ := cycle.traced.opened
    obtain ⟨unlogged, stamped, watched⟩ := cycle.traced.closing.owes.watched p (cycle.sifted.fewer.subset member) object
    have mark := (cycle.settled.held.read_agree member (cycle.freed.agree p member)).2.1
    refine ⟨unlogged, mark.trans stamped, ?_⟩
    rw [cycle.recorded, cycle.plan, and_iff_left not_mem_nil]
    rw [show Heap.plan _ = h₀.plan from opened.set.plan] at watched
    cases watches : h₀.plan.watches p.home with
    | true => simpa [watches] using watched
    | false => simpa [watches] using watched
  single := by
    rw [cycle.recorded]
    exact nodup_nil

end Heap.Cycle

/-! ### A program after a collection -/

theorem Spaces.Freed.extents {s s' : Spaces} {m m' : Memory} {full : Bool} {kept : List Piece} {buffers : List (SpaceId × Span)}
    {keys : List (Nat × Address)} (freed : s.Freed s' m m' full kept buffers keys) (id : SpaceId) :
    (s'.space id).extent = (s.space id).extent := by
  have copying : ∀ {y}, s'.space id = .copying y → (Space.copying y).extent = (s.space id).extent := by
    intro y space
    obtain ⟨-, x, space', extent⟩ := freed.copying id y space
    rw [space', Space.extent, Space.extent, extent]
  cases id with
  | first => exact copying rfl
  | second =>
    cases second : s'.second with
    | twin y =>
      have space : s'.space .second = .copying y := by rw [Spaces.space, second]
      rw [space]
      exact copying space
    | mature y =>
      obtain ⟨-, x, second', extent, -⟩ := freed.mature y second
      simp only [Spaces.space, second, second', Space.extent, extent]
  | immortal =>
    simp only [Spaces.space, Space.extent]
    rw [freed.immortal.1]
  | large => exact freed.extent

theorem Crew.Run.size {s t : Crew × Heap} (run : Run s t) : t.1.workers.size = s.1.workers.size := by
  induction run with
  | refl => rfl
  | step before took calm ih =>
    obtain ⟨-, ⟨-, same, -⟩ | ⟨_, _, _, -, same⟩⟩ := stepOf_ok took calm
    · rw [same]
      exact ih
    · rw [same]
      exact (Array.size_setIfInBounds ..).trans ih

/-- Resuming the threads is a matter of the books. -/
theorem Heap.resumed_eq (h : Heap) (c : Crew) : ∃ tally demand disabled resumes, h.resumed c = { h with
    tally, demand, disabled
    collectors := some c.collectors
    program := { h.program with resumes } } := by
  unfold resumed
  cases c.outcome <;> exact ⟨_, _, _, _, rfl⟩

section

variable {w : World} {pieces objects : List Piece} {group : Array Collector} {c c' : Crew} {h h' : Heap}

/-- Stopping the threads is, too. -/
theorem World.Sound.stopped (sound : w.Sound pieces objects) :
    Quiet w.heap.stopped w.heap.team pieces ∧ Knows w.heap.stopped pieces objects ∧ Logged w.heap.stopped pieces :=
  ⟨sound.quiet.carry (.refl _) rfl sound.quiet.held sound.quiet.tracked sound.quiet.mutators sound.quiet.collectors sound.quiet.half fun _ => rfl,
    sound.knows.carry (.refl _) (fun o member => (sound.knows.known o member).1) (fun _ _ => rfl) (fun _ _ _ _ => rfl) rfl
      fun _ => .rfl,
    sound.logged.carry rfl (fun _ member _ => ⟨member, rfl⟩) (.refl _)⟩

/-- A crew sets out from a program at work, and whenever it comes to the closure, that can start. -/
theorem World.Sound.sets_out (sound : w.Sound pieces objects) (there : w.heap.collectors = some group) :
    (∀ h cs pieces', Crew.Begun 0 w.heap.stopped w.heap.team pieces objects 4 h cs pieces' → Crew.Opens objects h cs pieces') ∧
      Crew.Carries 0 w.heap.stopped w.heap.team pieces objects (.ofCollectors group) w.heap.stopped pieces 0 := by
  obtain ⟨some, threads, numbered⟩ := sound.manned group there
  obtain ⟨quiet, knows, logged⟩ := sound.stopped
  have team : w.heap.team = group.toList := by rw [Heap.team, there, Option.getD_some]
  refine ⟨fun _ _ _ begun => begun.opens quiet knows logged ?_, ?_⟩
  · rw [team, Array.length_toList]
    exact threads
  · rw [team]
    exact .of_collectors some numbered

/-- Where a crew is that set out from a program at work. -/
theorem World.Sound.carries (sound : w.Sound pieces objects) (there : w.heap.collectors = some group)
    (run : Crew.Run (.ofCollectors group, w.heap.stopped) (c, h)) :
    (∀ h cs pieces', Crew.Begun 0 w.heap.stopped w.heap.team pieces objects 4 h cs pieces' → Crew.Opens objects h cs pieces') ∧
      ∃ k pieces', Crew.Carries 0 w.heap.stopped w.heap.team pieces objects c h pieces' k := by
  obtain ⟨opens, start⟩ := sound.sets_out there
  obtain ⟨k, pieces', -, carries⟩ := start.run run opens
  exact ⟨opens, k, pieces', carries⟩

/-- Every collection that completes was between its closure and its release at some time. -/
theorem World.Sound.passes (sound : w.Sound pieces objects) (there : w.heap.collectors = some group)
    (run : Crew.Run (.ofCollectors group, w.heap.stopped) (c', h')) (complete : c'.isOver = true) :
    ∃ c h, c.HasTraced ∧ Crew.Run (.ofCollectors group, w.heap.stopped) (c, h) ∧ Crew.Run (c, h) (c', h') := by
  obtain ⟨opens, start⟩ := sound.sets_out there
  obtain ⟨k, pieces', carries, passed⟩ := start.passes run opens (by omega)
  obtain rfl : k = 8 := carries.last complete
  exact passed (by omega)

/-- The closure is over. -/
theorem World.Sound.traced (sound : w.Sound pieces objects) (there : w.heap.collectors = some group)
    (closure : Crew.Run (.ofCollectors group, w.heap.stopped) (c, h)) (traced : c.HasTraced) :
    ∃ h₁ pieces' full, w.heap.stopped.Traced h₁ h w.heap.team (Team.collectors c.team) pieces objects pieces' full ∧
      Crew.Carries 5 h (Team.collectors c.team) pieces' objects c h pieces' 5 := by
  obtain ⟨-, k, pieces', carries⟩ := sound.carries there closure
  obtain ⟨begun, rest⟩ := carries.middle traced
  obtain ⟨h₁, full, traced⟩ := begun.traced
  exact ⟨h₁, pieces', full, traced, rest⟩

/-- The collection is over. -/
theorem World.Sound.cycle (sound : w.Sound pieces objects) (there : w.heap.collectors = some group)
    (closure : Crew.Run (.ofCollectors group, w.heap.stopped) (c, h)) (traced : c.HasTraced) (rest : Crew.Run (c, h) (c', h'))
    (complete : c'.isOver = true) : ∃ h₁ pieces' kept full, Heap.Cycle w.heap.stopped h₁ h h' w.heap.team (Team.collectors c.team)
      (Team.collectors c'.team) pieces objects pieces' kept full ∧ c'.Numbered := by
  obtain ⟨quiet, knows, -⟩ := sound.stopped
  obtain ⟨h₁, pieces', full, traced, carries⟩ := sound.traced there closure traced
  obtain ⟨k, _, -, carries⟩ := carries.run rest fun _ _ _ begun => absurd begun.le (by omega)
  obtain ⟨kept, sifted⟩ := traced.sifted
  exact ⟨h₁, pieces', kept, full, ⟨quiet, knows, traced, (carries.to_end complete).releases, sifted⟩, carries.numbered⟩

/-- A collection leaves a program at work, with the pieces that it has kept. -/
theorem World.Sound.renewed {h₁ : Heap} {pieces' kept : List Piece} {full : Bool} (sound : w.Sound pieces objects)
    (there : w.heap.collectors = some group) (closure : Crew.Run (.ofCollectors group, w.heap.stopped) (c, h))
    (rest : Crew.Run (c, h) (c', h')) (cycle : Heap.Cycle w.heap.stopped h₁ h h' w.heap.team (Team.collectors c.team)
      (Team.collectors c'.team) pieces objects pieces' kept full) (numbered : c'.Numbered) :
    ∃ objects', World.Sound ⟨h'.resumed c', {t | ∃ s ∈ w.tenants, h.fate s = some t}, {a | h'.Leads a}, ∅⟩ kept objects' := by
  obtain ⟨objects', knows, named⟩ := cycle.knows_next
  have quiet := cycle.settled
  have logged := cycle.logged_next
  obtain ⟨_, opened⟩ := cycle.traced.opened
  obtain ⟨_, _, _, _, _, _, _, _, laboured⟩ := cycle.traced.laboured
  obtain ⟨_, _, _, released⟩ := cycle.released.heap
  have settings : h'.settings = w.heap.settings := by
    rw [released, laboured]
    exact opened.settings
  have layout : h'.layout = w.heap.layout := by
    rw [released, laboured]
    exact opened.layout
  have extent : ∀ id, (h'.spaces.space id).extent = (w.heap.spaces.space id).extent := fun id =>
    (cycle.freed.extents id).trans ((cycle.traced.closing.kept.steady.extent id).trans (Spaces.Alike.extent (opened.set.alike id)))
  obtain ⟨tally, demand, disabled, resumes, resumed⟩ := h'.resumed_eq c'
  have team : (h'.resumed c').team = Team.collectors c'.team := by
    rw [resumed, Heap.team]
    exact Array.toList_map
  refine ⟨objects', ?_, ?_, ?_, ?_, ?_, ?_, ?_, fun t => ?_, named, fun p _ _ _ => ?_, ?_, ?_⟩
  · change Quiet (h'.resumed c') (h'.resumed c').team kept
    rw [team, resumed]
    exact quiet.carry (.refl _) rfl quiet.held quiet.tracked quiet.mutators quiet.collectors quiet.half fun _ => rfl
  · change Knows (h'.resumed c') kept objects'
    rw [resumed]
    exact knows.carry (.refl _) (fun o member => (knows.known o member).1) (fun _ _ => rfl) (fun _ _ _ _ => rfl) rfl fun _ => .rfl
  · change Logged (h'.resumed c') kept
    rw [resumed]
    exact logged.carry rfl (fun _ member _ => ⟨member, rfl⟩) (.refl _)
  · change (h'.resumed c').Manned
    rw [resumed]
    rintro group' here
    cases here
    obtain ⟨some, threads, -⟩ := sound.manned group there
    have size : c'.collectors.size = group.size := by
      rw [Crew.collectors, Array.size_map, (rest.size.trans closure.size : c'.workers.size = _), Crew.ofCollectors, Array.size_map]
    refine ⟨size ▸ some, ?_, fun i inside => ?_⟩
    · rw [size, ← threads, ← settings]
    · simp only [Crew.collectors, Array.getElem_map]
      exact numbered i (by simpa [Crew.collectors] using inside)
  · change (h'.resumed c').spaces.Charted (h'.resumed c').layout
    rw [resumed]
    simp only [Spaces.Charted, layout, extent]
    exact sound.charted
  · intro id
    change ((h'.resumed c').spaces.space id).extent.tag = _
    rw [resumed, extent]
    exact sound.tags id
  · intro p inside x space
    change (h'.resumed c').spaces.space p.home = _ at space
    rw [resumed] at space
    exact cycle.modest sound.modest inside space
  · change (∃ s ∈ w.tenants, h.fate s = some t) ↔ _
    rw [cycle.sifted.tenants t]
    constructor
    · rintro ⟨s, had, fate⟩
      obtain ⟨p, inside, rfl⟩ := (sound.tenants s).mp had
      exact ⟨p, inside, fate⟩
    · rintro ⟨p, inside, fate⟩
      exact ⟨_, (sound.tenants _).mpr ⟨p, inside, rfl⟩, fate⟩
  · change p.start ∈ (h'.resumed c').spaces.large.treadmill.fresh ↔ _
    rw [resumed, cycle.freed.large]
    exact iff_of_false (cycle.traced.shared.old _) (Set.notMem_empty _)
  · change (h'.resumed c').spaces.excess = _
    rw [resumed]
    exact cycle.level.trans sound.exact
  · change (h'.resumed c').spaces.Occupied _
    rw [resumed]
    exact cycle.occupied sound.occupied

theorem World.Sound.collected (sound : w.Sound pieces objects) (there : w.heap.collectors = some group)
    (closure : Crew.Run (.ofCollectors group, w.heap.stopped) (c, h)) (traced : c.HasTraced) (rest : Crew.Run (c, h) (c', h'))
    (complete : c'.isOver = true) : ∃ pieces' objects', World.Sound ⟨h'.resumed c', {t | ∃ s ∈ w.tenants, h.fate s = some t},
      {a | h'.Leads a}, ∅⟩ pieces' objects' := by
  obtain ⟨_, _, _, _, cycle, numbered⟩ := sound.cycle there closure traced rest complete
  exact ⟨_, sound.renewed there closure rest cycle numbered⟩

end

/-! ### Programs at work -/

/-- Whatever a program does, it stays in order. -/
theorem World.Step.sound {w w' : World} {pieces objects : List Piece} (step : Step w w') (sound : w.Sound pieces objects) :
    ∃ pieces' objects', w'.Sound pieces' objects' := by
  cases step with
  | start ok => exact ⟨_, _, sound.start ok⟩
  | bind thread ok => exact ⟨_, _, sound.bind ok⟩
  | destroy inside ok => exact ⟨_, _, sound.destroy inside ok⟩
  | flush inside ok => exact ⟨_, _, sound.flush inside ok⟩
  | served inside routed bound ok =>
    obtain ⟨room, sound⟩ := sound.served inside routed bound ok
    exact ⟨_, _, sound⟩
  | refused inside routed ok => exact ⟨_, _, sound.refused inside routed ok⟩
  | made inside member raw proper size needs fits ok =>
    obtain ⟨_, -, -, -, -, sound⟩ := sound.made member raw proper size needs fits ok
    exact ⟨_, _, sound⟩
  | stored inside source goal ok => exact ⟨_, _, sound.stored inside source goal ok⟩
  | filled member exposed => exact ⟨_, _, sound.filled member exposed⟩
  | rooted named => exact ⟨_, _, sound.rooted named⟩
  | noted => exact ⟨_, _, sound.noted⟩
  | collected there closure traced rest complete => exact sound.collected there closure traced rest complete

/-- Every program at work is in order. -/
theorem World.Reachable.sound {w : World} (reachable : w.Reachable) : ∃ pieces objects, w.Sound pieces objects := by
  induction reachable with
  | created ok => exact ⟨[], [], (Heap.create_ok ok).sound⟩
  | step _ step ih =>
    obtain ⟨pieces, objects, sound⟩ := ih
    exact step.sound sound

end TracingHeap
