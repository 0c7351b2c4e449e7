import TracingHeap.Proofs.Frames

/-! A mutator asks for memory. Whether or not the request is served, all that was handed out before stays as it is; what
is handed out now is a piece of its own, in the space that the request was routed to. -/

namespace TracingHeap

open List Memory

namespace Mutator

theorem unused_spaceOf {current id : SpaceId} {plan : Plan} {selector : AllocatorSelector}
    (member : (selector, id) ∈ bindings current plan) : (unused current plan).spaceOf selector = .ok id := by
  cases plan <;> simp only [bindings, mem_cons, Prod.mk.injEq, not_mem_nil, or_false] at member
  · rcases member with ⟨rfl, rfl⟩ | ⟨rfl, rfl⟩ | ⟨rfl, rfl⟩ | ⟨rfl, rfl⟩ <;> rfl
  · rcases member with ⟨rfl, rfl⟩ | ⟨rfl, rfl⟩ | ⟨rfl, rfl⟩ <;> rfl

theorem selector_bound (current : SpaceId) (plan : Plan) (semantics : AllocSemantics) :
    ∃ id, (selector plan semantics, id) ∈ bindings current plan := by
  cases plan <;> cases semantics <;> simp [selector, bindings]

/-- Large requests go to the space of large objects. -/
theorem selector_large {current id : SpaceId} {plan : Plan} (member : (selector plan .large, id) ∈ bindings current plan) :
    id = .large := by
  cases plan <;> simpa [bindings, selector] using member

theorem home_ne_other {current id : SpaceId} {plan : Plan} {selector : AllocatorSelector}
    (member : (selector, id) ∈ bindings current plan) (semispace : plan = .semispace) :
    id = current ∨ id = .immortal ∨ id = .large := by
  subst semispace
  simp only [bindings, mem_cons, Prod.mk.injEq, not_mem_nil, or_false] at member
  exact member.imp And.right (Or.imp And.right And.right)

end Mutator

namespace Request

variable {r : Request}

/-- Unless the bytes are close to the end of all numbers, a request takes as many as it asks for. -/
theorem size_fits (small : r.bytes.toNat + 7 < 2 ^ 64) : r.bytes.toNat ≤ r.size ∧ 16 ≤ r.size :=
  ⟨(Padding.allocationSize_fits small).1, (Padding.allocationSize_fits small).2.1⟩

/-- A request so large that its padding wraps is not served: it takes no page, or its alignment cannot be added. -/
theorem small_of_served {large : Bool} (judged : r.isLarge = .ok large)
    (taken : large = true → 0 < r.size + Padding.slack r.align) : r.bytes.toNat + 7 < 2 ^ 64 := by
  by_contra wraps
  obtain ⟨size, padded, verdict⟩ := except_bind_ok.mp judged
  have verdict := except_pure_ok.mp verdict
  have least := Padding.maxAlignedSize_le padded
  have islarge : large = true := by
    rw [← verdict, decide_eq_true_eq, UInt64.lt_iff_toNat_lt]
    have limit : sharedLimit.toNat = 8192 := rfl
    omega
  have room := taken islarge
  have none : r.size = 0 := by
    rw [Request.size, Padding.allocationSize_wrap (Nat.not_lt.mp wraps)]
    rfl
  unfold Padding.slack at room
  unfold Padding.maxAlignedSize Padding.Scheme.maxAlignedSize at padded
  split at room
  · omega
  · rename_i beyond
    have outside : ¬ r.align ≤ Padding.standard.least := beyond
    rw [if_neg outside] at padded
    obtain ⟨sum, added, -⟩ := except_bind_ok.mp padded
    have total := Word.toNat_sum added
    have bound := sum.toNat_lt
    have more := mt UInt64.le_iff_toNat_le.mpr beyond
    have unit : Padding.minAlignment.toNat = 8 := rfl
    omega

end Request

namespace Heap

variable {h h' : Heap} {cs : List Collector} {pieces : List Piece} {i : Nat} {r : Request} {selector : AllocatorSelector}
  {answer : Option Address} {semantics : AllocSemantics} {id : SpaceId}

theorem route_ok (routed : h.route r semantics = .ok selector) :
    ∃ large, r.isLarge = .ok large ∧ selector = Mutator.selector h.plan (if large then .large else semantics) := by
  obtain ⟨large, judged, same⟩ := except_bind_ok.mp routed
  exact ⟨large, judged, (except_pure_ok.mp same).symm⟩

/-- The heap while one mutator is busy. -/
def without (h : Heap) (i : Nat) : Heap :=
  { h with program := { h.program with mutators := h.program.mutators.setIfInBounds i default } }

/-- The heap with the allocators of one mutator replaced. -/
def withSet (h : Heap) (i : Nat) (m : Mutator) (s : AllocatorSet) : Heap :=
  { h with program := { h.program with mutators := h.program.mutators.setIfInBounds i { m with allocators := s } } }

theorem withAllocators_ok {α : Type} {a : α} {step : Step (AllocatorSet × Heap) α}
    (inside : i < h.program.mutators.size) (ok : withAllocators i step h = .ok a h') :
    ∃ s h₁, step (h.program.mutators[i].allocators, h.without i) = .ok a (s, h₁) ∧ h' = h₁.withSet i h.program.mutators[i] s := by
  have here : (mutatorPart i).get h = h.program.mutators[i] := by
    change h.program.mutators[i]?.getD default = _
    rw [Array.getElem?_eq_getElem inside, Option.getD_some]
  have absent : (mutatorPart i).set h default = h.without i := rfl
  unfold withAllocators at ok
  dsimp only at ok
  rw [here, absent] at ok
  cases ran : step (h.program.mutators[i].allocators, h.without i) with
  | error e t =>
    rw [ran] at ok
    cases ok
  | ok b t =>
    obtain ⟨s, h₁⟩ := t
    rw [ran] at ok
    cases ok
    exact ⟨s, h₁, rfl, rfl⟩

/-- The allocators of one mutator, and those of the others. -/
theorem shares_perm {β : Type} (inside : i < h.program.mutators.size) (f : Mutator → List β) (m : Mutator) :
    h.program.mutators.toList.flatMap f ~ f h.program.mutators[i] ++ (h.program.mutators.toList.eraseIdx i).flatMap f ∧
      (h.program.mutators.setIfInBounds i m).toList.flatMap f ~ f m ++ (h.program.mutators.toList.eraseIdx i).flatMap f := by
  have := @perm_at _ _ h.program.mutators.toList i (by simpa using inside) f m
  rwa [Array.getElem_toList, ← Array.toList_setIfInBounds] at this

/-- Nobody else notices that a mutator asks for memory. -/
structure Asked (h h' : Heap) (pieces : List Piece) : Prop where
  continues : h.Continues h'
  restocked : h.spaces.Restocked h'.spaces
  full : h'.scope.full = h.scope.full
  recorded : h'.recorded ~ h.recorded
  roots : h'.program.roots = h.program.roots
  memory : ∀ p ∈ pieces, AgreeOn h.memory h'.memory p.span
  fresh : h'.spaces.large.treadmill.fresh = h.spaces.large.treadmill.fresh
  mutators : h'.program.mutators.size = h.program.mutators.size

/-- A request either changes nothing that matters, or one more piece was handed out, in the space that the request was
routed to. -/
theorem attempt_ok (quiet : Quiet h cs pieces) (occupied : h.spaces.Occupied (pieces.map Piece.held))
    (inside : i < h.program.mutators.size) (routed : h.route r semantics = .ok selector)
    (bound : (selector, id) ∈ Mutator.bindings h.current h.plan)
    (ok : withAllocators i (AllocatorSet.alloc selector r) h = .ok answer h') :
    h.Asked h' pieces ∧ (answer = none → Quiet h' cs pieces ∧ h'.spaces.Occupied (pieces.map Piece.held)) ∧
      ∀ a, answer = some a → r.bytes.toNat + 7 < 2 ^ 64 ∧ ∃ room, Allotted h' r a room ∧
        Quiet h' cs (⟨a, r.bytes.toNat, id, room, false⟩ :: pieces) ∧
        h'.spaces.Occupied ((id, room) :: pieces.map Piece.held) := by
  obtain ⟨s, h₁, served, rfl⟩ := withAllocators_ok inside ok
  obtain ⟨formed, alike⟩ := quiet.mutators _ (Array.getElem_mem inside)
  obtain ⟨buffers, without_buffers⟩ := shares_perm inside (·.allocators.buffers) default
  obtain ⟨keys, without_keys⟩ := shares_perm inside (·.allocators.keys) default
  have estate : (h.without i).spaces.Estate (h.without i).memory (pieces.map Piece.held)
      (h.program.mutators[i].allocators.buffers ++ (cs.flatMap Collector.buffers ++ (h.without i).buffers))
      (h.program.mutators[i].allocators.keys ++ (cs.flatMap Collector.keys ++ (h.without i).keys)) := by
    refine quiet.held.estate.of_perm (.refl _) ?_ ?_
    · refine (perm_append_comm_assoc _ _ _).trans ((Perm.refl _).append ?_)
      exact ((Perm.refl _).append without_buffers).trans buffers.symm
    · refine (perm_append_comm_assoc _ _ _).trans ((Perm.refl _).append ?_)
      exact ((Perm.refl _).append without_keys).trans keys.symm
  obtain ⟨id', found, formed', alike', ⟨provided, elsewhere⟩, agree, none₁, some₁⟩ :=
    AllocatorSet.alloc_ok (h := h.without i) formed estate served
  obtain rfl : id = id' := Except.ok.inj ((alike.spaceOf (Mutator.unused_spaceOf bound)).symm.trans found)
  have away : h.plan = .semispace → id ≠ h.other := fun semispace => by
    rcases Mutator.home_ne_other bound semispace with rfl | rfl | rfl
    · exact h.current_ne_other semispace
    · rcases h.other_half with half | half <;> rw [half] <;> nofun
    · rcases h.other_half with half | half <;> rw [half] <;> nofun
  -- Of the heap, serving the request has changed memory, the supply of the spaces, and the books.
  obtain ⟨spaces, memory, demand, nextFull, shortages, rfl⟩ := provided.served
  have restocked : h.spaces.Restocked spaces := provided.restocked
  have level : spaces.excess = h.spaces.excess := provided.level
  have mutators : (h.program.mutators.setIfInBounds i default).setIfInBounds i { h.program.mutators[i] with allocators := s } =
      h.program.mutators.setIfInBounds i { h.program.mutators[i] with allocators := s } := Array.setIfInBounds_setIfInBounds _
  have back : ∀ {p : List Piece}, spaces.Held memory p (s.buffers ++ (cs.flatMap Collector.buffers ++ (h.without i).buffers))
      (s.keys ++ (cs.flatMap Collector.keys ++ (h.without i).keys)) → spaces.Held memory p
      (cs.flatMap Collector.buffers ++ (h.program.mutators.setIfInBounds i
        { h.program.mutators[i] with allocators := s }).toList.flatMap (·.allocators.buffers))
      (cs.flatMap Collector.keys ++ (h.program.mutators.setIfInBounds i
        { h.program.mutators[i] with allocators := s }).toList.flatMap (·.allocators.keys)) := by
    intro p held
    refine held.of_perm (.refl _) ?_ ?_
    · refine ((Perm.refl _).append (shares_perm inside (·.allocators.buffers) _).2).trans ?_
      refine (perm_append_comm_assoc _ _ _).trans ((Perm.refl _).append ((Perm.refl _).append ?_))
      exact without_buffers.symm
    · refine ((Perm.refl _).append (shares_perm inside (·.allocators.keys) _).2).trans ?_
      refine (perm_append_comm_assoc _ _ _).trans ((Perm.refl _).append ((Perm.refl _).append ?_))
      exact without_keys.symm
  have again : ∀ m ∈ h.program.mutators.setIfInBounds i { h.program.mutators[i] with allocators := s },
      m.allocators.Formed spaces ∧ (Mutator.unused h.current h.plan).BoundAlike m.allocators := by
    intro m member
    rcases Array.mem_or_eq_of_mem_setIfInBounds member with member | rfl
    · exact (quiet.mutators m member).imp_left fun formed => formed.restocked restocked
    · exact ⟨formed', alike.trans alike'⟩
  refine ⟨⟨⟨restocked.retains level, rfl, rfl, rfl, rfl⟩, restocked, rfl, ?_, rfl, fun p member => agree _ (mem_map_of_mem member), ?_, ?_⟩,
    fun same => ?_, fun a same => ?_⟩
  · refine Perm.append ?_ (.refl _)
    change ((h.program.mutators.setIfInBounds i default).setIfInBounds i _).toList.flatMap _ ~ _
    rw [mutators]
    exact (shares_perm inside (·.remembered.toList) _).2.trans (shares_perm inside (·.remembered.toList) default).1.symm
  · obtain ⟨_, large⟩ := restocked.large
    change spaces.large.treadmill.fresh = _
    rw [large]
  · change ((h.program.mutators.setIfInBounds i default).setIfInBounds i _).size = _
    rw [mutators, Array.size_setIfInBounds]
  · refine ⟨quiet.carry (restocked.retains level) rfl (by
      change spaces.Held memory pieces (_ ++ ((h.program.mutators.setIfInBounds i default).setIfInBounds i _).toList.flatMap _)
        (_ ++ ((h.program.mutators.setIfInBounds i default).setIfInBounds i _).toList.flatMap _)
      rw [mutators]
      exact back ⟨(none₁ same).1, quiet.held.placed⟩) (restocked.tracked quiet.tracked) (by
      change ∀ m ∈ (h.program.mutators.setIfInBounds i default).setIfInBounds i _, _
      rw [mutators]
      exact again) quiet.collectors quiet.half fun semispace => elsewhere _ (away semispace).symm, (none₁ same).2 occupied⟩
  · obtain ⟨taken, room, allotted, estate', occupied'⟩ := some₁ a same
    obtain ⟨large, judged, chosen⟩ := route_ok routed
    have small : r.bytes.toNat + 7 < 2 ^ 64 := Request.small_of_served judged fun islarge => by
      rw [chosen, if_pos islarge] at bound
      exact taken (Mutator.selector_large bound)
    obtain ⟨fits, least⟩ := Request.size_fits small
    have placed : (⟨a, r.bytes.toNat, id, room, false⟩ : Piece).Placed := by
      refine ⟨allotted.aligns.1, allotted.low, allotted.near, ?_, ?_⟩
      · exact (Nat.add_le_add_left fits _).trans allotted.high
      · exact (Nat.add_le_add_left least _).trans allotted.high
    refine ⟨small, room, ⟨allotted.aligns, allotted.low, allotted.near, allotted.high, allotted.zero⟩, ?_,
      occupied' occupied⟩
    refine quiet.carry (restocked.retains level) rfl (by
      change spaces.Held memory _ (_ ++ ((h.program.mutators.setIfInBounds i default).setIfInBounds i _).toList.flatMap _)
        (_ ++ ((h.program.mutators.setIfInBounds i default).setIfInBounds i _).toList.flatMap _)
      rw [mutators]
      exact back (.add estate' quiet.held.placed placed rfl rfl)) ((restocked.tracked quiet.tracked).add fun _ => rfl) (by
      change ∀ m ∈ (h.program.mutators.setIfInBounds i default).setIfInBounds i _, _
      rw [mutators]
      exact again) quiet.collectors (fun semispace => forall_mem_cons.mpr ⟨away semispace, quiet.half semispace⟩)
      fun semispace => elsewhere _ (away semispace).symm

end Heap

namespace World.Sound

variable {w : World} {h' : Heap} {pieces pieces' objects : List Piece} {tenants : Set Tenant} {i : Nat} {r : Request}
  {semantics : AllocSemantics} {selector : AllocatorSelector} {id : SpaceId} {a : Address}

/-- Memory that was asked for does not touch what is there. -/
theorem asked (sound : w.Sound pieces objects) (asked : w.heap.Asked h' pieces) (quiet : Quiet h' w.heap.team pieces')
    (more : ∀ p ∈ pieces, p ∈ pieces') (raw : ∀ p ∈ pieces', p ∈ pieces ∨ p.isObject = false)
    (modest : ∀ p ∈ pieces', ∀ x, w.heap.spaces.space p.home = .copying x → p.bytes ≤ 8192)
    (had : ∀ t, t ∈ tenants ↔ ∃ p ∈ pieces', p.tenant = t) (occupied : h'.spaces.Occupied (pieces'.map Piece.held)) :
    World.Sound ⟨h', tenants, w.named, w.recent⟩ pieces' objects := by
  have continues := asked.continues
  have there : ∀ o ∈ objects, o ∈ pieces := fun o member => (sound.knows.known o member).1
  refine sound.continued continues (continues.team ▸ quiet) ?_ ?_ modest had sound.named (fun p member object => ?_) occupied
  · exact sound.knows.carry continues.retains (fun o member => more o (there o member))
      (fun o member => (sound.knows.read sound.quiet.held member (asked.memory o (there o member))).1)
      (fun o member => (sound.knows.read sound.quiet.held member (asked.memory o (there o member))).2) asked.roots
      (fun a => asked.recorded.mem_iff)
  · refine sound.logged.carry continues.plan (fun p member object => ?_) asked.recorded
    have old := (raw p member).resolve_right (by rw [object]; nofun)
    exact ⟨old, (quiet.held.read_agree member (asked.memory p old)).2.1⟩
  · rw [asked.fresh]
    exact sound.recent p ((raw p member).resolve_right (by rw [object]; nofun)) object

theorem refused (sound : w.Sound pieces objects) (inside : i < w.heap.program.mutators.size)
    (routed : w.heap.route r semantics = .ok selector)
    (ok : Heap.withAllocators i (AllocatorSet.alloc selector r) w.heap = .ok none h') :
    World.Sound { w with heap := h' } pieces objects := by
  obtain ⟨large, judged, rfl⟩ := Heap.route_ok routed
  obtain ⟨id, bound⟩ := Mutator.selector_bound w.heap.current w.heap.plan (if large then .large else semantics)
  obtain ⟨asked, none₁, -⟩ := Heap.attempt_ok sound.quiet sound.occupied inside routed bound ok
  obtain ⟨quiet, occupied⟩ := none₁ rfl
  exact sound.asked asked quiet (fun p member => member) (fun p member => .inl member) sound.modest sound.tenants occupied

/-- A request that was served is one more piece. -/
theorem served (sound : w.Sound pieces objects) (inside : i < w.heap.program.mutators.size)
    (routed : w.heap.route r semantics = .ok selector) (bound : (selector, id) ∈ Mutator.bindings w.heap.current w.heap.plan)
    (ok : Heap.withAllocators i (AllocatorSet.alloc selector r) w.heap = .ok (some a) h') :
    ∃ room, World.Sound ⟨h', insert ⟨a, r.bytes.toNat, id, false⟩ w.tenants, w.named, w.recent⟩
      (⟨a, r.bytes.toNat, id, room, false⟩ :: pieces) objects := by
  obtain ⟨asked, -, some₁⟩ := Heap.attempt_ok sound.quiet sound.occupied inside routed bound ok
  obtain ⟨small, room, allotted, quiet, occupied⟩ := some₁ a rfl
  refine ⟨room, sound.asked asked quiet (fun p member => mem_cons_of_mem _ member) ?_ ?_ (fun t => ?_) occupied⟩
  · intro p member
    rcases mem_cons.mp member with rfl | member
    · exact .inr rfl
    · exact .inl member
  · intro p member x space
    rcases mem_cons.mp member with rfl | member
    · -- Larger requests go to the space of large objects, which does not copy.
      obtain ⟨large, judged, chosen⟩ := Heap.route_ok routed
      cases large with
      | false => exact Request.small_of_shared judged
      | true =>
        rw [chosen] at bound
        obtain rfl := Mutator.selector_large bound
        cases space
    · exact sound.modest p member x space
  · rw [Set.mem_insert_iff, sound.tenants t, exists_mem_cons_iff]
    exact or_congr eq_comm .rfl

end World.Sound

end TracingHeap
