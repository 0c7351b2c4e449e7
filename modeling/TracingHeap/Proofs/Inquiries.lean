import TracingHeap.Proofs.Vacancies

/-! What the program is told between collections when it asks whether an object is live. The spaces answer out of what they
noted in the last collection. Of an object that was made since then, copying and immortal spaces say that it is live as well;
the space of large objects does not, and neither does the mature store if the last collection has marked it. -/

namespace TracingHeap

open List Memory

namespace Spaces

variable {s s' : Spaces} {m : Memory} {pieces owners : List Piece} {buffers : List (SpaceId × Span)} {keys : List (Nat × Address)}
  {p : Piece}

/-- The same spaces are evacuated, and the marks of the mature store are as they were. -/
structure SameNotes (s s' : Spaces) : Prop where
  plan : s'.plan = s.plan
  evacuates : ∀ id, s'.Evacuates id ↔ s.Evacuates id
  mature : ∀ y, s'.second = .mature y →
    ∃ x, s.second = .mature x ∧ y.marks = x.marks ∧ y.current = x.current ∧ y.pages.extent = x.pages.extent

theorem SameNotes.refl (s : Spaces) : s.SameNotes s := ⟨rfl, fun _ => .rfl, fun y second => ⟨y, second, rfl, rfl, rfl⟩⟩

theorem Restocked.sameNotes (same : s.Restocked s') : s.SameNotes s' where
  plan := same.plan
  evacuates := same.evacuates
  mature y second' := by
    have extent := same.extent .second
    rcases same.second with ⟨x, p, _, _, _, _, second, found, -⟩ | ⟨x, p, -, found⟩
    · rw [second'] at found
      cases found
      simp only [space, second, second', Space.extent] at extent
      exact ⟨x, second, rfl, rfl, extent⟩
    · rw [second'] at found
      cases found

/-- The mature store notes nothing of a new object. -/
theorem sameNotes_adopted (s : Spaces) (object : Address) (id : SpaceId) : s.SameNotes (s.adopted object id) := by
  cases id with
  | first | second => exact .refl s
  | immortal | large =>
    refine ⟨rfl, fun id => ?_, fun y second => ⟨y, second, rfl, rfl, rfl⟩⟩
    cases id <;> exact .rfl

theorem SameNotes.reached (same : s.SameNotes s') (generational : s.plan = .generational) (home : p.home = .second) :
    s'.Reached p ↔ s.Reached p := by
  obtain ⟨y, second'⟩ := generational_iff.mp (same.plan.trans generational)
  obtain ⟨x, second, marks, current, -⟩ := same.mature y second'
  simp only [Reached, home, space, second, second', marks, current]

/-- If all marked cells are those of some objects, whatever is marked is one of these. -/
theorem Held.owned_of_reached {x : MarkSweepSpace} (held : s.Held m pieces buffers keys) (tracked : x.Tracked)
    (second : s.second = .mature x) (owned : x.Owned owners) (fewer : ∀ q ∈ owners, q ∈ pieces) (member : p ∈ pieces)
    (home : p.home = .second) (reached : s.Reached p) : p ∈ owners ∧ p.isObject = true := by
  have extent : (s.space .second).extent = x.pages.extent := by simp only [space, second, Space.extent]
  simp only [Reached, home, space, second] at reached
  obtain ⟨cell, start, marked⟩ := reached
  obtain ⟨low, high⟩ := held.within member
  rw [home, extent] at low high
  have placed := held.placed p member
  have above := placed.low
  have room := placed.room
  obtain ⟨q, inside, home', object, cell', start', index⟩ := owned cell (start ▸ low) (by omega) marked
  have same : q = p := Classical.byContradiction fun differ =>
    held.cell_index_ne (extent ▸ tracked.table) (fewer q inside) member home' home differ start' start index
  exact same ▸ ⟨inside, object⟩

end Spaces

/-! ### What the heap can still tell -/

/-- The heap knows its pieces as the last collection has left them: new pieces lie in a space that is not evacuated, and if the
mature store was collected, its marked cells are those of the objects that were there then. -/
structure Informed (h : Heap) (recent : Set Address) (pieces : List Piece) : Prop where
  settled : ¬ h.spaces.Evacuates h.current
  marked : h.plan = .generational → h.scope.full = true → ∀ p ∈ pieces, p.home = .second →
    (h.spaces.Reached p ↔ p.isObject = true ∧ p.start ∉ recent)
  owned : h.scope.full = true → ∀ x, h.spaces.second = .mature x → x.Owned pieces

namespace Informed

variable {h h' : Heap} {recent : Set Address} {pieces : List Piece} {buffers : List (SpaceId × Span)} {keys : List (Nat × Address)}
  {p : Piece}

theorem carry (informed : Informed h recent pieces) (same : h.spaces.SameNotes h'.spaces)
    (flipped : h'.scope.flipped = h.scope.flipped) (full : h'.scope.full = h.scope.full) : Informed h' recent pieces where
  settled := by
    rw [Heap.current_congr same.plan flipped, same.evacuates]
    exact informed.settled
  marked generational whole p member home := by
    have before : h.plan = .generational := same.plan.symm.trans generational
    rw [same.reached before home]
    exact informed.marked before (full.symm.trans whole) p member home
  owned whole y second' := by
    obtain ⟨x, second, marks, current, extent⟩ := same.mature y second'
    have owned := informed.owned (full.symm.trans whole) x second
    unfold MarkSweepSpace.Owned at owned ⊢
    rwa [marks, current, extent]

/-- The cell of a new piece is not marked, for it was nobody's. -/
theorem add (informed : Informed h recent pieces) (held : h.spaces.Held h.memory (p :: pieces) buffers keys)
    (tracked : h.spaces.Tracked pieces) (raw : p.isObject = false) : Informed h recent (p :: pieces) where
  settled := informed.settled
  marked generational whole := by
    refine forall_mem_cons.mpr ⟨fun home => iff_of_false (fun reached => ?_) (fun ⟨object, _⟩ => ?_),
      informed.marked generational whole⟩
    · obtain ⟨x, second⟩ := Spaces.generational_iff.mp generational
      obtain ⟨-, object⟩ := held.owned_of_reached (tracked.mature x second) second (informed.owned whole x second)
        (fun q inside => mem_cons_of_mem _ inside) mem_cons_self home reached
      rw [raw] at object
      cases object
    · rw [raw] at object
      cases object
  owned whole x second := (informed.owned whole x second).mono fun _ => mem_cons_of_mem _

/-- Making an object of a piece marks nothing. -/
theorem made (informed : Informed h recent pieces) (member : p ∈ pieces) (raw : p.isObject = false)
    (differ : ∀ q ∈ pieces.erase p, q.start ≠ p.start) : Informed h (insert p.start recent) (p.made :: pieces.erase p) where
  settled := informed.settled
  marked generational whole := by
    refine forall_mem_cons.mpr ⟨fun home => iff_of_false (fun reached => ?_) fun ⟨_, old⟩ => old (Set.mem_insert _ _),
      fun q inside home => ?_⟩
    · have object := ((informed.marked generational whole p member home).mp reached).1
      rw [raw] at object
      cases object
    · rw [informed.marked generational whole q (mem_of_mem_erase inside) home, Set.mem_insert_iff,
        or_iff_right (differ q inside)]
  owned whole x second a low high value := by
    obtain ⟨q, inside, home, object, cell⟩ := informed.owned whole x second a low high value
    exact ⟨q, Spaces.mem_made raw inside object, home, object, cell⟩

end Informed

namespace Heap.Cycle

variable {h₀ h₁ h h' : Heap} {cs₀ cs cs' : List Collector} {pieces₀ known pieces kept : List Piece} {full : Bool} {p : Piece}

/-- What a collection has reached where it is was kept. -/
theorem kept_of_reached (cycle : Cycle h₀ h₁ h h' cs₀ cs cs' pieces₀ known pieces kept full) (member : p ∈ pieces)
    (still : ¬ h.spaces.Evacuates p.home) (reached : h.spaces.Reached p) : p ∈ kept := by
  by_cases old : p ∈ pieces₀
  · exact cycle.kept_of_retains old ⟨still, fun _ => .inr (.inr reached)⟩
  · obtain ⟨o, source, -, done, image⟩ := cycle.traced.closing.kept.origins p member old
    obtain ⟨r, inside, start, -⟩ := cycle.sifted.images o source done
    exact cycle.traced.shared.held.start_inj (cycle.sifted.fewer.subset inside) member (start.trans image) ▸ inside

/-- Releasing does not change what the collection was of. -/
theorem full_released (cycle : Cycle h₀ h₁ h h' cs₀ cs cs' pieces₀ known pieces kept full) : h'.scope.full = h.scope.full := by
  obtain ⟨_, _, _, released⟩ := cycle.released.heap
  rw [released]

/-- A collection of the whole heap has marked cells of objects only, for the mature store does not move. -/
theorem owned_mature {x : MarkSweepSpace} (cycle : Cycle h₀ h₁ h h' cs₀ cs cs' pieces₀ known pieces kept full)
    (second : h.spaces.second = .mature x) (whole : h.scope.full = true) : x.Owned pieces := by
  have generational : h.plan = .generational := Spaces.generational_iff.mpr ⟨x, second⟩
  have engaged := cycle.traced.engaged cycle.quiet .second
  simp only [Spaces.space, second, Space.region, Spaces.engages, lastFull, generational, whole] at engaged
  exact cycle.traced.shared.tracked.owned x second engaged

/-- What is left of the mature store after a collection of the whole heap is objects, and all of it is marked. -/
theorem marked_kept (cycle : Cycle h₀ h₁ h h' cs₀ cs cs' pieces₀ known pieces kept full) (generational : h.plan = .generational)
    (whole : h.scope.full = true) (inside : p ∈ kept) (home : p.home = .second) : h'.spaces.Reached p ∧ p.isObject = true := by
  obtain ⟨x, second⟩ := Spaces.generational_iff.mp generational
  have lastFull : h.lastFull = true := by rw [lastFull, generational, whole]
  refine ⟨cycle.freed.marked lastFull p inside home generational, ?_⟩
  have covered : h.Covered p := by simp only [Covered, home, Spaces.space, second, whole]
  have reached := (cycle.sifted.retained p inside).2 covered
  simp only [home, reduceCtorEq, false_and, false_or] at reached
  exact (cycle.traced.shared.held.owned_of_reached (cycle.traced.shared.tracked.mature x second) second
    (cycle.owned_mature second whole) (fun _ => id) (cycle.sifted.fewer.subset inside) home reached).2

/-- The cells that are marked after a collection of the whole heap are those of the objects that it has kept. -/
theorem owned_kept {y : MarkSweepSpace} (cycle : Cycle h₀ h₁ h h' cs₀ cs cs' pieces₀ known pieces kept full)
    (second' : h'.spaces.second = .mature y) (whole : h.scope.full = true) : y.Owned kept := by
  intro a low high value
  obtain ⟨notes, x, second, extent, -⟩ := cycle.freed.mature y second'
  have lastFull : h.lastFull = true := by rw [lastFull, show h.plan = .generational from Spaces.generational_iff.mpr ⟨x, second⟩, whole]
  rw [extent] at low high
  have marked := cycle.freed.noted lastFull x y second second' a low value
  obtain ⟨q, member, home, object, cell, start, index⟩ := cycle.owned_mature second whole a low high marked
  have entry : x.marks.entryByte cell = x.marks.entryByte a := by
    rw [SideTable.entryByte, SideTable.entryByte, SideTable.entry, SideTable.entry, index]
  have reached : h.spaces.Reached q := by
    simp only [Spaces.Reached, home, Spaces.space, second]
    exact ⟨cell, start, entry.trans marked⟩
  have still : ¬ h.spaces.Evacuates q.home := by simp only [Spaces.Evacuates, home, Spaces.space, second, not_false_eq_true]
  refine ⟨q, cycle.kept_of_reached member still reached, home, object, cell, start, ?_⟩
  -- The tables of marks before and after lie over the same extent, so that places share an entry in one as in the other.
  have within := (cycle.traced.shared.held.within member).1
  simp only [home, Spaces.space, second, Space.extent] at within
  have above : x.pages.extent.start.toNat ≤ cell.toNat := start ▸ within
  have before := (cycle.traced.shared.tracked.mature x second).table
  have after := notes.table
  rw [extent] at after
  rw [after.index_eq (k := 4) rfl (by decide) above, after.index_eq (k := 4) rfl (by decide) low,
    ← before.index_eq (k := 4) rfl (by decide) above, ← before.index_eq (k := 4) rfl (by decide) low, index]

/-- After a collection, nothing that is there was made since. -/
theorem informed (cycle : Cycle h₀ h₁ h h' cs₀ cs cs' pieces₀ known pieces kept full) : Informed h' ∅ kept where
  settled := cycle.freed.settled _
  marked generational whole p inside home := by
    have before : h.plan = .generational := cycle.freed.plan.symm.trans generational
    obtain ⟨reached, object⟩ := cycle.marked_kept before (cycle.full_released.symm.trans whole) inside home
    exact iff_of_true reached ⟨object, id⟩
  owned whole y second' := cycle.owned_kept second' (cycle.full_released.symm.trans whole)

end Heap.Cycle

theorem Heap.Founded.informed {h : Heap} {settings : Settings} (founded : h.Founded settings) : Informed h ∅ [] := by
  have young : h.scope.full = false := by rw [founded.scope]
  refine ⟨fun moves => ?_, fun _ whole => ?_, fun whole => ?_⟩
  · have current : h.current = .first := by
      rw [current, founded.scope]
      cases h.plan <;> rfl
    rw [current] at moves
    exact Bool.false_ne_true (founded.spaces.first.evacuating.symm.trans moves)
  · exact absurd (young.symm.trans whole) Bool.false_ne_true
  · exact absurd (young.symm.trans whole) Bool.false_ne_true

/-- Between collections a large object was made since the last one, or that has reached it. -/
theorem Quiet.fresh_iff {h : Heap} {cs : List Collector} {pieces : List Piece} {p : Piece} (quiet : Quiet h cs pieces) (member : p ∈ pieces)
    (object : p.isObject = true) (home : p.home = .large) : p.start ∈ h.spaces.large.treadmill.fresh ↔ ¬ h.spaces.Reached p := by
  have notes := quiet.tracked.large
  have reached : h.spaces.Reached p ↔ p.start ∈ h.spaces.large.treadmill.survivors := by
    unfold Spaces.Reached
    rw [home]
    rfl
  rw [reached]
  constructor
  · intro fresh survivor
    have mark := (notes.fresh _ fresh).symm.trans (notes.survivors _ survivor)
    rcases notes.current with current | current <;> rw [current] at mark <;> exact absurd mark (by decide)
  · intro missed
    obtain ⟨young, old⟩ := quiet.settled p.start
    exact (notes.complete p member home object).resolve_right fun other => other.elim missed fun listed => listed.elim young old

/-- A store with its barrier changes no space. -/
theorem Heap.writeSlot_leaves {h h' : Heap} {u : Unit} {i : Nat} {object target : Address} {index : Word}
    (inside : i < h.program.mutators.size) (ok : writeSlot i object index target h = .ok u h') :
    h'.spaces = h.spaces ∧ h'.scope = h.scope := by
  obtain ⟨-, m, -, ⟨-, remembered⟩ | ⟨-, rfl⟩⟩ := writeSlot_ok ok
  · rcases remember_ok (h := { h with memory := m }) inside remembered with ⟨-, rfl⟩ | ⟨-, records, -⟩
    · exact ⟨rfl, rfl⟩
    · obtain ⟨_, _, rfl⟩ := records.heap
      exact ⟨rfl, rfl⟩
  · exact ⟨rfl, rfl⟩

namespace World

variable {w w' : World} {pieces objects : List Piece} {a : Address}

/-- Whatever a program does, the heap knows its pieces as the last collection has left them. -/
theorem Step.informed (step : Step w w') (sound : w.Sound pieces objects) (informed : Informed w.heap w.recent pieces) :
    ∃ pieces' objects', w'.Sound pieces' objects' ∧ Informed w'.heap w'.recent pieces' := by
  cases step with
  | start ok =>
    refine ⟨_, _, sound.start ok, ?_⟩
    obtain ⟨-, group, -, rfl⟩ := Heap.start_ok ok
    exact informed.carry (.refl _) rfl rfl
  | bind thread ok =>
    refine ⟨_, _, sound.bind ok, ?_⟩
    rw [Heap.bindMutator_ok ok]
    exact informed.carry (.refl _) rfl rfl
  | destroy inside ok =>
    refine ⟨_, _, sound.destroy inside ok, ?_⟩
    obtain ⟨_, _, rfl, -⟩ := Heap.destroyMutator_ok inside ok
    exact informed.carry (.refl _) rfl rfl
  | flush inside ok =>
    refine ⟨_, _, sound.flush inside ok, ?_⟩
    obtain ⟨_, _, rfl⟩ := (Heap.flush_records inside ok).1.heap
    exact informed.carry (.refl _) rfl rfl
  | @served h i r semantics selector id a inside routed bound ok =>
    obtain ⟨room, sound'⟩ := sound.served inside routed bound ok
    obtain ⟨asked, -, -⟩ := Heap.attempt_ok sound.quiet sound.occupied inside routed bound ok
    have carried : Informed h w.recent pieces := informed.carry asked.restocked.sameNotes asked.continues.flipped asked.full
    exact ⟨_, _, sound', carried.add sound'.quiet.held (asked.restocked.tracked sound.quiet.tracked) rfl⟩
  | refused inside routed ok =>
    refine ⟨_, _, sound.refused inside routed ok, ?_⟩
    obtain ⟨large, -, rfl⟩ := Heap.route_ok routed
    obtain ⟨id, bound⟩ := Mutator.selector_bound w.heap.current w.heap.plan (if large then .large else _)
    obtain ⟨asked, -, -⟩ := Heap.attempt_ok sound.quiet sound.occupied inside routed bound ok
    exact informed.carry asked.restocked.sameNotes asked.continues.flipped asked.full
  | @made h i t bytes slots least inside member raw proper size needs fits ok =>
    obtain ⟨p, there, rfl, spaces, scope, sound'⟩ := sound.made member raw proper size needs fits ok
    have same : w.heap.spaces.SameNotes h.spaces := spaces ▸ Spaces.sameNotes_adopted _ _ _
    have carried : Informed h w.recent pieces := informed.carry same (by rw [scope]) (by rw [scope])
    refine ⟨_, _, sound', carried.made there raw fun q inside same => ?_⟩
    have held := sound.quiet.held
    have differ := (held.of_perm (perm_cons_erase there).symm (.refl _) (.refl _)).fresh inside
    exact differ (held.start_inj (mem_of_mem_erase inside) there same)
  | stored inside source goal ok =>
    refine ⟨_, _, sound.stored inside source goal ok, ?_⟩
    obtain ⟨spaces, scope⟩ := Heap.writeSlot_leaves inside ok
    exact informed.carry (spaces ▸ .refl _) (by rw [scope]) (by rw [scope])
  | filled member exposed => exact ⟨_, _, sound.filled member exposed, informed.carry (.refl _) rfl rfl⟩
  | rooted named => exact ⟨_, _, sound.rooted named, informed.carry (.refl _) rfl rfl⟩
  | noted => exact ⟨_, _, sound.noted, informed.carry (.refl _) rfl rfl⟩
  | @collected group c c' h h' there closure traced rest complete =>
    obtain ⟨_, _, kept, _, cycle, numbered⟩ := sound.cycle there closure traced rest complete
    obtain ⟨objects', sound'⟩ := sound.renewed there closure rest cycle numbered
    obtain ⟨_, _, _, _, resumed⟩ := h'.resumed_eq c'
    refine ⟨kept, objects', sound', ?_⟩
    change Informed (h'.resumed c') ∅ kept
    rw [resumed]
    exact cycle.informed.carry (.refl _) rfl rfl

theorem Reachable.informed (reachable : w.Reachable) :
    ∃ pieces objects, w.Sound pieces objects ∧ Informed w.heap w.recent pieces := by
  induction reachable with
  | created ok => exact ⟨[], [], (Heap.create_ok ok).sound, (Heap.create_ok ok).informed⟩
  | step _ step ih =>
    obtain ⟨pieces, objects, sound, informed⟩ := ih
    exact step.informed sound informed

/-- Between collections, the program is told that an object that its roots lead to is live, unless it made the object since the
last collection, and either in the space of large objects or, if that collection was one of the whole heap, in the mature store
of a generational heap. -/
theorem Reachable.is_live_iff (reachable : w.Reachable) (leads : w.heap.Leads a) :
    ∃ id b, w.heap.spaces.holding? a = some id ∧ w.heap.isLive a = .ok b ∧
      (b = false ↔ a ∈ w.recent ∧
        (id = .large ∨ id = .second ∧ w.heap.plan = .generational ∧ w.heap.lastFull = true)) := by
  obtain ⟨pieces, objects, sound, informed⟩ := reachable.informed
  obtain ⟨o, known, rfl⟩ := sound.knows.of_leads leads
  obtain ⟨member, object, -⟩ := sound.knows.known o known
  have held := sound.quiet.held
  have tracked := sound.quiet.tracked
  obtain ⟨b, answer, live⟩ := Heap.isLive_ok held tracked member fun _ => object
  refine ⟨o.home, b, held.holding member, answer, ?_⟩
  rw [← Bool.not_eq_true, live]
  unfold Heap.Done Heap.Covered
  cases space : w.heap.spaces.space o.home with
  | copying x =>
    have home := sound.quiet.home_current member space
    have settled : ¬ x.evacuating = true := fun moves => informed.settled (by rwa [Spaces.Evacuates, ← home, space])
    refine iff_of_false (not_not.mpr (.inr fun covered => absurd covered settled)) ?_
    rintro ⟨-, large | ⟨second, generational, -⟩⟩
    · rw [large] at space
      cases space
    · obtain first | ⟨-, semispace⟩ := Spaces.copying_iff.mp ⟨x, space⟩
      · cases second.symm.trans first
      · cases generational.symm.trans semispace
  | markSweep x =>
    obtain ⟨home, second⟩ := Spaces.second_of_markSweep space
    have generational : w.heap.plan = .generational := Spaces.generational_iff.mpr ⟨x, second⟩
    have full : w.heap.lastFull = w.heap.scope.full := by rw [Heap.lastFull, generational]
    rw [full, home]
    cases whole : w.heap.scope.full with
    | false => simp
    | true =>
      have marked := informed.marked generational whole o member home
      simp [generational, marked, object]
  | immortal x =>
    have home := Spaces.home_of_immortal space
    simp [home]
  | large x =>
    obtain ⟨home, -⟩ := Spaces.home_of_large space
    have recent := sound.recent o member object home
    have reached := sound.quiet.fresh_iff member object home
    simp [home, ← recent, reached]

/-- So it is not told that of everything that its roots lead to: the large object of the first program is a root. -/
theorem recent_large_denied : ¬ ∀ w : World, w.Reachable → ∀ a, w.heap.Leads a → w.heap.isLive a = .ok true := by
  intro always
  have told := always sample sample_reachable largeAt (.root (by decide +kernel) (by decide))
  have answer : sample.heap.isLive largeAt = .ok false := by decide +kernel
  cases answer.symm.trans told

/-- The first program made all its objects since the last collection. Of the large one it is told that it is not live, and of the
young one that it is. -/
theorem sample_is_live_iff : sample.heap.Leads largeAt ∧ sample.heap.Leads youngAt ∧
    sample.heap.isLive largeAt = .ok false ∧ sample.heap.isLive youngAt = .ok true := by
  have root : sample.heap.Leads largeAt := .root (by decide +kernel) (by decide)
  have young : sample.heap.Leads youngAt :=
    .field (i := 0) root (by decide +kernel) (by decide +kernel) (by decide)
  have large_there : sample.heap.spaces.holding? largeAt = some .large := by decide +kernel
  have young_there : sample.heap.spaces.holding? youngAt = some .first := by decide +kernel
  obtain ⟨_, b, there, denied, iff⟩ := sample_reachable.is_live_iff root
  obtain ⟨_, b', there', told, iff'⟩ := sample_reachable.is_live_iff young
  cases large_there.symm.trans there
  cases young_there.symm.trans there'
  have recent : largeAt ∈ sample.recent := Set.mem_insert _ _
  obtain rfl : b = false := iff.mpr ⟨recent, .inl rfl⟩
  obtain rfl : b' = true := eq_true_of_ne_false fun bad => by simpa using (iff'.mp bad).2
  exact ⟨root, young, denied, told⟩

end World

end TracingHeap
