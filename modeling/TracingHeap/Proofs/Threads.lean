import TracingHeap.Proofs.Servings

/-! The threads of a program, and its collectors. New ones hold no memory, one that ends gives up what it holds, and
what a mutator has recorded is only handed on, never lost. -/

namespace TracingHeap

open List Memory

/-! ### New allocators -/

section Unused

variable {spaces : Spaces} {s : AllocatorSet} {current : SpaceId} {plan : Plan}

theorem Mutator.bind_ok {unbound : SpaceId → Fault}
    (ok : AllocatorSet.bind spaces unbound (bindings current spaces.plan) = .ok s) : s = unused current spaces.plan := by
  cases second : spaces.second with
  | mature x =>
    have plan : spaces.plan = .generational := by rw [Spaces.plan, second]
    rw [plan] at ok ⊢
    have space : spaces.space .second = .markSweep x := by rw [Spaces.space, second]
    simp only [bindings, AllocatorSet.bind, foldlM_cons, foldlM_nil, AllocatorSet.bindOne, space] at ok
    exact (Except.ok.inj ok).symm
  | twin x =>
    have plan : spaces.plan = .semispace := by rw [Spaces.plan, second]
    rw [plan] at ok ⊢
    exact (Except.ok.inj ok).symm

theorem CopyContext.create_ok {c : CopyContext} (ok : create spaces (bindings current spaces.plan) = .ok c) :
    c = ⟨unused current spaces.plan, bindings current spaces.plan⟩ := by
  cases second : spaces.second with
  | mature x =>
    have plan : spaces.plan = .generational := by rw [Spaces.plan, second]
    rw [plan] at ok ⊢
    have space : spaces.space .second = .markSweep x := by rw [Spaces.space, second]
    simp only [create, bindings, AllocatorSet.bind, foldlM_cons, foldlM_nil, AllocatorSet.bindOne, space] at ok
    exact (Except.ok.inj ok).symm
  | twin x =>
    have plan : spaces.plan = .semispace := by rw [Spaces.plan, second]
    rw [plan] at ok ⊢
    exact (Except.ok.inj ok).symm

/-- An allocator set that was bound to its spaces and never used. -/
structure AllocatorSet.Vacant (s : AllocatorSet) (spaces : Spaces) : Prop where
  formed : s.Formed spaces
  buffers : s.buffers = []
  keys : ∀ key ∈ s.keys, key.2 = .null

theorem Mutator.unused_vacant (bumpable : spaces.Bumpable current) : (unused current plan).Vacant spaces := by
  have bumps : ∀ b ∈ (unused current plan).bumps, b.space = current ∨ b.space = .immortal := by
    intro b member
    cases plan <;> simp only [unused, List.mem_toArray, mem_cons, not_mem_nil, or_false] at member <;>
      rcases member with rfl | rfl
    · exact .inl rfl
    · exact .inr rfl
    · exact .inl rfl
    · exact .inr rfl
  have cells : ∀ c ∈ (unused current plan).cells, c = .new := by
    intro c member
    cases plan with
    | generational => simpa [unused] using member
    | semispace => simp [unused] at member
  refine ⟨⟨fun b member => ?_, fun c member => ?_⟩, ?_, fun key member => ?_⟩
  · rcases bumps b member with same | same <;> rw [same]
    · exact bumpable
    · trivial
  · rw [cells c member]
    rfl
  · cases plan <;> rfl
  · obtain ⟨c, member, here⟩ := mem_flatMap.mp member
    rw [cells c (Array.mem_toList_iff.mp member)] at here
    exact AllocatorSet.new_keys here

theorem CopyContext.unused_vacant (bumpable : spaces.Bumpable current) : (unused current plan).Vacant spaces := by
  cases plan with
  | generational =>
    refine ⟨⟨nofun, fun c member => ?_⟩, rfl, fun key member => ?_⟩
    · obtain rfl : c = .new := by simpa [unused] using member
      rfl
    · obtain ⟨c, member, here⟩ := mem_flatMap.mp member
      obtain rfl : c = .new := by simpa [unused] using member
      exact AllocatorSet.new_keys here
  | semispace =>
    refine ⟨⟨fun b member => ?_, nofun⟩, rfl, nofun⟩
    obtain rfl : b = .new current := by simpa [unused] using member
    exact bumpable

end Unused

/-- Ordinary objects are allocated in a space that bump allocators can cut. -/
theorem Heap.current_bumpable (h : Heap) : h.spaces.Bumpable h.current := by
  rw [Spaces.bumpable_iff, current]
  cases plan : h.plan with
  | generational => exact .inl rfl
  | semispace =>
    dsimp only
    split
    · exact .inr (.inr ⟨rfl, plan⟩)
    · exact .inl rfl

/-! ### Coming and going -/

namespace Heap

variable {h h' : Heap} {u : Unit} {i : Nat}

theorem bindMutator_ok {thread : Address} (ok : bindMutator thread h = .ok u h') : h' = { h with
    program := { h.program with mutators := h.program.mutators.push ⟨thread, Mutator.unused h.current h.plan, #[]⟩ } } := by
  simp only [bindMutator, Step.bind_ok, Step.ask_ok, Step.modify_ok] at ok
  obtain ⟨m, _, ⟨made, rfl⟩, rfl⟩ := ok
  obtain ⟨s, bound, made⟩ := except_bind_ok.mp made
  rw [Mutator.bind_ok bound] at made
  rw [← except_pure_ok.mp made]
  rfl

theorem newCollector_ok {n : Nat} {c : Collector} (ok : h.newCollector n = .ok c) :
    c = .new n ⟨CopyContext.unused h.current h.plan, CopyContext.bindings h.current h.plan⟩ := by
  obtain ⟨copies, made, same⟩ := except_bind_ok.mp ok
  rw [← except_pure_ok.mp same, CopyContext.create_ok made]
  rfl

theorem newCollectors_ok {count : Nat} {group : Array Collector} (ok : h.newCollectors count = .ok group) :
    0 < count ∧ group.size = count ∧ ∀ i, (inside : i < group.size) →
      group[i] = .new i ⟨CopyContext.unused h.current h.plan, CopyContext.bindings h.current h.plan⟩ := by
  unfold newCollectors at ok
  by_cases none : count = 0
  · rw [if_pos none] at ok
    cases ok
  · rw [if_neg none] at ok
    change Array.mapM h.newCollector (Array.range count) = .ok group at ok
    rw [Array.mapM_eq_mapM_toList, Array.toList_range] at ok
    obtain ⟨cs, made, rfl⟩ := except_map_ok.mp ok
    obtain ⟨length, each⟩ := forall₂_iff_get.mp (except_mapM_ok made)
    rw [length_range] at length
    refine ⟨Nat.pos_of_ne_zero none, length.symm, fun i inside => ?_⟩
    have here := each i (by rw [length_range, length]; exact inside) inside
    simp only [get_eq_getElem, getElem_range] at here
    exact newCollector_ok here

/-- What enables collections: there were no collectors before, and now there are as many as the settings say. -/
theorem start_ok (ok : start h = .ok u h') : h.collectors = none ∧ ∃ group, h.newCollectors h.settings.threads.toNat = .ok group ∧
    h' = { h with armed := true, collectors := some group, demand := { h.demand with started := true } } := by
  simp only [start, Step.get_bind, Step.bind_ok, Step.ensure_ok, Step.modify_bind, Step.ask_ok] at ok
  obtain ⟨_, _, ⟨-, rfl⟩, group, _, ⟨made, rfl⟩, _, h₁, put, ok⟩ := ok
  obtain rfl := Step.modify_ok.mp ok
  simp only [setCollectors, Step.get_bind, Step.bind_ok, Step.ensure_ok] at put
  obtain ⟨_, _, ⟨-, rfl⟩, put⟩ := put
  cases there : h.collectors with
  | none =>
    simp only [there, Option.isSome_none, Bool.false_eq_true, ↓reduceIte] at put
    exact ⟨rfl, group, made, by rw [← Step.modify_ok.mp put]⟩
  | some group => simp [there] at put

/-- The heaps differ only in who has recorded what. -/
structure Records (h h' : Heap) : Prop where
  heap : ∃ mutators remembered, h' = { h with
    program := { h.program with mutators }
    backlog := { h.backlog with remembered } }
  allocators : h'.program.mutators.toList.map (·.allocators) = h.program.mutators.toList.map (·.allocators)

theorem Records.refl (h : Heap) : h.Records h := ⟨⟨_, _, rfl⟩, rfl⟩

theorem Records.buffers (records : h.Records h') : h'.buffers = h.buffers := by
  have same := congrArg (List.flatMap AllocatorSet.buffers) records.allocators
  rwa [flatMap_map, flatMap_map] at same

theorem Records.keys (records : h.Records h') : h'.keys = h.keys := by
  have same := congrArg (List.flatMap AllocatorSet.keys) records.allocators
  rwa [flatMap_map, flatMap_map] at same

theorem Records.mutator (records : h.Records h') {m : Mutator} (member : m ∈ h'.program.mutators) :
    ∃ n ∈ h.program.mutators, n.allocators = m.allocators := by
  have here : m.allocators ∈ h'.program.mutators.toList.map (·.allocators) := mem_map_of_mem (Array.mem_toList_iff.mpr member)
  rw [records.allocators] at here
  obtain ⟨n, there, same⟩ := mem_map.mp here
  exact ⟨n, Array.mem_toList_iff.mp there, same⟩

/-- What a mutator has recorded may as well have been handed over. -/
theorem recorded_perm (inside : i < h.program.mutators.size) : h.recorded ~
    (h.program.mutators.toList.eraseIdx i).flatMap (·.remembered.toList) ++
      (h.backlog.remembered.flatMap Array.toList ++ h.program.mutators[i].remembered.toList) := by
  refine ((shares_perm inside (·.remembered.toList) default).1.append_right _).trans ?_
  rw [append_assoc, ← append_assoc _ (h.backlog.remembered.flatMap Array.toList)]
  exact perm_append_comm

/-- The allocators of a mutator do not change when what it has recorded does. -/
theorem allocators_set (inside : i < h.program.mutators.size) {m : Mutator}
    (same : m.allocators = h.program.mutators[i].allocators) :
    (h.program.mutators.setIfInBounds i m).toList.map (·.allocators) = h.program.mutators.toList.map (·.allocators) := by
  have inside' : i < (h.program.mutators.toList.map (·.allocators)).length := by simpa using inside
  have here : (h.program.mutators.toList.map (·.allocators))[i] = m.allocators := by simp [same]
  rw [Array.toList_setIfInBounds, map_set, ← here]
  exact set_getElem_self _

theorem flush_records (inside : i < h.program.mutators.size) (ok : flush i h = .ok u h') :
    h.Records h' ∧ h'.recorded ~ h.recorded := by
  obtain ⟨remembered, rfl, content⟩ := flush_ok inside ok
  refine ⟨⟨⟨_, _, rfl⟩, allocators_set inside rfl⟩, ?_⟩
  refine Perm.trans ?_ (recorded_perm inside).symm
  simp only [Heap.recorded, content]
  exact (shares_perm inside (·.remembered.toList) _).2.append_right _

theorem destroyMutator_ok (inside : i < h.program.mutators.size) (ok : destroyMutator i h = .ok u h') :
    ∃ remembered mutators, h' = { h with
        program := { h.program with mutators }
        backlog := { h.backlog with remembered } } ∧
      mutators.toList = h.program.mutators.toList.eraseIdx i ∧
      remembered.flatMap Array.toList =
        h.backlog.remembered.flatMap Array.toList ++ h.program.mutators[i].remembered.toList := by
  simp only [destroyMutator, Step.bind_ok, Step.modify_ok] at ok
  obtain ⟨_, h₁, flushed, rfl⟩ := ok
  obtain ⟨remembered, rfl, content⟩ := flush_ok inside flushed
  refine ⟨remembered, _, rfl, ?_, content⟩
  rw [Array.toList_eraseIdxIfInBounds, Array.toList_setIfInBounds, eraseIdx_set_eq]

end Heap

namespace World.Sound

variable {w : World} {h' : Heap} {pieces objects : List Piece} {i : Nat}

/-- Memory and spaces are left alone: only those who hold memory have changed, and who has recorded what. -/
theorem staffed (sound : w.Sound pieces objects) (spaces : h'.spaces = w.heap.spaces) (memory : h'.memory = w.heap.memory)
    (flipped : h'.scope.flipped = w.heap.scope.flipped) (layout : h'.layout = w.heap.layout)
    (roots : h'.program.roots = w.heap.program.roots) (recorded : h'.recorded ~ w.heap.recorded)
    (held : w.heap.spaces.Held w.heap.memory pieces (h'.team.flatMap Collector.buffers ++ h'.buffers)
      (h'.team.flatMap Collector.keys ++ h'.keys))
    (mutators : ∀ m ∈ h'.program.mutators, m.allocators.Formed w.heap.spaces ∧
      (Mutator.unused w.heap.current w.heap.plan).BoundAlike m.allocators)
    (collectors : ∀ c ∈ h'.team, c.copies.Aimed w.heap ∧ c.Idle) (manned : h'.Manned) :
    World.Sound { w with heap := h' } pieces objects where
  quiet := by
    refine sound.quiet.carry (spaces ▸ .refl _) flipped ?_ (spaces ▸ sound.quiet.tracked) (spaces ▸ mutators) collectors
      sound.quiet.half fun _ => by rw [spaces]
    rw [spaces, memory]
    exact held
  knows := by
    refine sound.knows.carry (spaces ▸ .refl _) (fun o member => (sound.knows.known o member).1) ?_ ?_
      roots fun a => recorded.mem_iff
    · exact fun o _ => by rw [memory]
    · exact fun o _ i _ => by rw [memory]
  logged := by
    refine sound.logged.carry (by rw [Heap.plan, spaces]; rfl) (fun p member _ => ⟨member, ?_⟩) recorded
    rw [memory]
  manned := manned
  charted := by
    change h'.spaces.Charted h'.layout
    rw [spaces, layout]
    exact sound.charted
  tags := spaces ▸ sound.tags
  modest := spaces ▸ sound.modest
  tenants := sound.tenants
  named := sound.named
  recent := spaces ▸ sound.recent
  exact := spaces ▸ sound.exact
  occupied := spaces ▸ sound.occupied

theorem bind {thread : Address} (sound : w.Sound pieces objects) (ok : Heap.bindMutator thread w.heap = .ok () h') :
    World.Sound { w with heap := h' } pieces objects := by
  rw [Heap.bindMutator_ok ok]
  have vacant : (Mutator.unused w.heap.current w.heap.plan).Vacant w.heap.spaces :=
    Mutator.unused_vacant w.heap.current_bumpable
  refine sound.staffed rfl rfl rfl rfl rfl ?_ ?_ (fun m member => ?_) sound.quiet.collectors sound.manned
  · simp [Heap.recorded, Array.toList_push]
  · have held := sound.quiet.held.shed (.refl _) (.refl _) vacant.keys
    have buffers : (w.heap.program.mutators.push ⟨thread, Mutator.unused w.heap.current w.heap.plan, #[]⟩).toList.flatMap
        (·.allocators.buffers) = w.heap.buffers := by
      rw [Array.toList_push, flatMap_append, flatMap_singleton, vacant.buffers, append_nil]
      rfl
    have keys : (w.heap.program.mutators.push ⟨thread, Mutator.unused w.heap.current w.heap.plan, #[]⟩).toList.flatMap
        (·.allocators.keys) = w.heap.keys ++ (Mutator.unused w.heap.current w.heap.plan).keys := by
      rw [Array.toList_push, flatMap_append, flatMap_singleton]
      rfl
    rw [append_assoc] at held
    simp only [Heap.buffers, Heap.keys, buffers, keys]
    exact held
  · rcases Array.mem_push.mp member with member | rfl
    · exact sound.quiet.mutators m member
    · exact ⟨vacant.formed, .refl _⟩

theorem start (sound : w.Sound pieces objects) (ok : Heap.start w.heap = .ok () h') :
    World.Sound { w with heap := h' } pieces objects := by
  obtain ⟨unmanned, group, made, rfl⟩ := Heap.start_ok ok
  obtain ⟨some, size, each⟩ := Heap.newCollectors_ok made
  have vacant : (CopyContext.unused w.heap.current w.heap.plan).Vacant w.heap.spaces :=
    CopyContext.unused_vacant w.heap.current_bumpable
  have alike : ∀ c ∈ group.toList, c.copies =
      ⟨CopyContext.unused w.heap.current w.heap.plan, CopyContext.bindings w.heap.current w.heap.plan⟩ ∧ c.Idle := by
    intro c member
    obtain ⟨i, inside, rfl⟩ := Array.getElem_of_mem (Array.mem_toList_iff.mp member)
    rw [each i inside]
    exact ⟨rfl, .inl rfl⟩
  have nobody : w.heap.team = [] := by rw [Heap.team, unmanned]; rfl
  refine sound.staffed rfl rfl rfl rfl rfl (.refl _) ?_ sound.quiet.mutators (fun c member => ?_) ?_
  · have buffers : group.toList.flatMap Collector.buffers = [] := by
      refine flatMap_eq_nil_iff.mpr fun c member => ?_
      rw [Collector.buffers, (alike c member).1]
      exact vacant.buffers
    have nulls : ∀ key ∈ group.toList.flatMap Collector.keys, key.2 = .null := by
      intro key member
      obtain ⟨c, here, inside⟩ := mem_flatMap.mp member
      rw [Collector.keys, (alike c here).1] at inside
      exact vacant.keys key inside
    have held := sound.quiet.held.shed (.refl _) (.refl _) nulls
    rw [nobody] at held
    refine held.of_perm (.refl _) ?_ perm_append_comm
    change group.toList.flatMap Collector.buffers ++ w.heap.buffers ~ [] ++ w.heap.buffers
    rw [buffers]
  · refine ⟨?_, (alike c member).2⟩
    rw [(alike c member).1]
    exact ⟨vacant.formed, rfl, .refl _⟩
  · rintro _ ⟨⟩
    exact ⟨size ▸ some, size.symm, fun i inside => by rw [each i inside]; rfl⟩

theorem flush (sound : w.Sound pieces objects) (inside : i < w.heap.program.mutators.size)
    (ok : Heap.flush i w.heap = .ok () h') : World.Sound { w with heap := h' } pieces objects := by
  obtain ⟨records, recorded⟩ := Heap.flush_records inside ok
  obtain ⟨mutators, remembered, rfl⟩ := records.heap
  refine sound.staffed rfl rfl rfl rfl rfl recorded ?_ (fun m member => ?_) sound.quiet.collectors sound.manned
  · rw [records.buffers, records.keys]
    exact sound.quiet.held
  · obtain ⟨n, there, same⟩ := records.mutator member
    exact same ▸ sound.quiet.mutators n there

/-- A mutator that ends gives up its memory, but not what it has recorded. -/
theorem destroy (sound : w.Sound pieces objects) (inside : i < w.heap.program.mutators.size)
    (ok : Heap.destroyMutator i w.heap = .ok () h') : World.Sound { w with heap := h' } pieces objects := by
  obtain ⟨remembered, mutators, rfl, rest, content⟩ := Heap.destroyMutator_ok inside ok
  have fewer : mutators.toList <+ w.heap.program.mutators.toList := rest ▸ eraseIdx_sublist _ _
  refine sound.staffed rfl rfl rfl rfl rfl ?_ ?_ (fun m member => ?_) sound.quiet.collectors sound.manned
  · refine Perm.trans ?_ (Heap.recorded_perm inside).symm
    simp only [Heap.recorded, content, rest]
    exact .refl _
  · have held := sound.quiet.held.shed ((Sublist.refl _).append (fewer.flatMap (·.allocators.buffers)))
      ((Sublist.refl _).append (fewer.flatMap (·.allocators.keys))) fun key (member : key ∈ []) => absurd member not_mem_nil
    rw [append_nil] at held
    exact held
  · exact sound.quiet.mutators m (Array.mem_toList_iff.mp (fewer.subset (Array.mem_toList_iff.mpr member)))

/-- The program changes its roots to references that it has. -/
theorem rooted {roots : Array Address} (sound : w.Sound pieces objects) (named : ∀ a ∈ roots, a = .null ∨ a ∈ w.named) :
    World.Sound { w with heap := { w.heap with program := { w.heap.program with roots } } } pieces objects :=
  { sound with
    quiet := sound.quiet.carry (.refl _) rfl sound.quiet.held sound.quiet.tracked sound.quiet.mutators sound.quiet.collectors
      sound.quiet.half fun _ => rfl
    knows := { sound.knows with
      roots := fun a member => (named a member).imp_right fun known => by
        obtain ⟨q, known, same⟩ := (sound.named a).mp known
        exact ⟨q, known, same.symm⟩ }
    logged := { sound.logged with } }

theorem noted {demand : Demand} {nextFull disabled : Bool} {shortages : Array Shortage} (sound : w.Sound pieces objects) :
    World.Sound { w with heap := { w.heap with
      demand, disabled
      scope := { w.heap.scope with nextFull }
      program := { w.heap.program with shortages } } } pieces objects :=
  sound.staffed rfl rfl rfl rfl rfl (.refl _) sound.quiet.held sound.quiet.mutators sound.quiet.collectors sound.manned

end World.Sound

end TracingHeap
