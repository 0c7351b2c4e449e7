import TracingHeap.Proofs.Worlds

/-! Where every program starts. In a heap as it is laid out nothing is handed out, nothing was noted and nobody knows
an object, so all that a program at work relies on holds. -/

namespace TracingHeap

open List Memory

namespace Spaces.Pristine

variable {s : Spaces} {plan : Plan} {m : Memory}

/-- Copying spaces were never used, whichever they are. -/
theorem copying (pristine : s.Pristine plan) {id : SpaceId} {x : CopySpace} (space : s.space id = .copying x) :
    ∃ logged evacuating, x.Pristine logged evacuating := by
  cases id with
  | first =>
    cases space
    exact ⟨_, _, pristine.first⟩
  | second =>
    cases second : s.second with
    | mature y => simp [Spaces.space, second] at space
    | twin y =>
      simp only [Spaces.space, second, Space.copying.injEq] at space
      subst space
      exact ⟨_, _, pristine.twin y second⟩
  | immortal => cases space
  | large => cases space

theorem supplied (pristine : s.Pristine plan) (m : Memory) : s.Supplied m := by
  intro id
  have placed := pristine.laid.placed id
  cases space : s.space id with
  | copying x =>
    obtain ⟨_, _, blank⟩ := pristine.copying space
    rw [space] at placed
    have := Pages.Frontier.new_sound x.pages.extent placed m
    rwa [← blank.pages] at this
  | markSweep x =>
    have := Pages.Runs.new_sound x.pages.extent
    rwa [← (pristine.mature x (second_of_markSweep space).2).pages] at this
  | immortal x =>
    obtain rfl : id = .immortal := home_of_immortal space
    cases space
    have := Pages.Frontier.new_sound s.immortal.pages.extent placed m
    rwa [← pristine.immortal.pages] at this
  | large x =>
    obtain ⟨rfl, rfl⟩ := home_of_large space
    have := Pages.Runs.new_sound s.large.pages.extent
    rwa [← pristine.large.pages] at this

/-- Nobody holds anything. -/
theorem held (pristine : s.Pristine plan) (m : Memory) : s.Held m [] [] [] := by
  refine ⟨⟨pristine.laid, pristine.supplied m, fun x second => ?_, [], ⟨.nil, nofun, nofun, nofun⟩, ?_⟩, nofun⟩
  · have blank := pristine.mature x second
    refine ⟨?_, ?_, ?_, ?_, blank.blockStarts.beside, blank.blockClasses.beside, ?_⟩
    · rw [blank.blocks]
      nofun
    · rw [blank.blocks]
      nofun
    · rw [blank.blocks]
      exact .nil
    · rw [blank.blocks]
      nofun
    · intro heads member head inside
      rw [blank.available, Array.mem_replicate] at member
      rw [member.2] at inside
      cases inside
  · rw [stock]
    split
    · rename_i x second
      rw [(pristine.mature x second).available]
      exact .refl _
    · exact .refl _

theorem clean (pristine : s.Pristine plan) {id : SpaceId} {x : CopySpace} (space : s.space id = .copying x) : x.Clean := by
  obtain ⟨_, _, blank⟩ := pristine.copying space
  exact ⟨blank.states.beside, blank.copies.beside, fun a _ _ => by rw [SideTable.entryByte, blank.states.zero]; rfl,
    fun a _ _ => blank.copies.zero a⟩

theorem rested (pristine : s.Pristine plan) (id : SpaceId) : (s.space id).region.prepared = false := by
  cases id with
  | first => exact pristine.first.prepared
  | second =>
    cases second : s.second with
    | mature x =>
      simp only [Spaces.space, second]
      exact (pristine.mature x second).prepared
    | twin x =>
      simp only [Spaces.space, second]
      exact (pristine.twin x second).prepared
  | immortal => exact pristine.immortal.prepared
  | large => exact pristine.large.prepared

theorem tracked (pristine : s.Pristine plan) : s.Tracked [] := by
  refine ⟨fun id x space => (pristine.clean space).tracked id [], fun x second => ?_, fun x second prepared => ?_, ?_, ?_⟩
  · have blank := pristine.mature x second
    exact ⟨blank.marks.beside, .inl blank.current, fun a _ _ => .inl (by rw [SideTable.entryByte, blank.marks.zero]; rfl)⟩
  · rw [(pristine.mature x second).prepared] at prepared
    cases prepared
  · exact ⟨pristine.immortal.marks.beside, .inl pristine.immortal.current⟩
  · have none_there : ∀ o : Address, o ∉ (∅ : Std.TreeSet Address) := fun o => Std.TreeSet.not_mem_emptyc
    have empty := pristine.large.treadmill
    refine ⟨pristine.large.marks.beside, .inl pristine.large.current, ?_, ?_, ?_, ?_, ?_, fun p member => absurd member not_mem_nil⟩ <;> rw [empty] <;> intro o member
    · exact (none_there o member).elim
    · exact (none_there o member).elim
    · exact (none_there o member).elim
    · exact (none_there o member).elim
    · rcases member with member | member | member | member <;> exact (none_there o member).elim

theorem stamping (pristine : s.Pristine plan) : s.Stamping := by
  intro id
  have tag := pristine.tags id
  have kind := pristine.kind
  cases id with
  | first =>
    change Object.Mark.fresh s.first.pages.extent.tag false = _
    change s.first.pages.extent.tag = _ at tag
    rw [tag]
    cases plan : s.plan <;> rfl
  | second =>
    cases second : s.second with
    | mature x =>
      simp only [Spaces.space, second, Space.extent, Space.freshMark, MarkSweepSpace.freshMark, Spaces.plan] at tag ⊢
      rw [tag, (pristine.mature x second).logged]
      rfl
    | twin x =>
      simp only [Spaces.space, second, Space.extent, Space.freshMark, CopySpace.freshMark, Spaces.plan] at tag ⊢
      rw [tag]
      rfl
  | immortal =>
    change Object.Mark.fresh s.immortal.pages.extent.tag s.immortal.region.logged = _
    change s.immortal.pages.extent.tag = _ at tag
    rw [tag, pristine.immortal.logged, ← kind]
    cases plan : s.plan <;> rfl
  | large =>
    change Object.Mark.fresh s.large.pages.extent.tag s.large.region.logged = _
    change s.large.pages.extent.tag = _ at tag
    rw [tag, pristine.large.logged, ← kind]
    cases plan : s.plan <;> rfl

/-- Nothing is live, and nothing is counted. -/
theorem excess (pristine : s.Pristine plan) : s.excess = (0, 0) := by
  unfold Spaces.excess
  rw [pristine.large.pages, Pages.Runs.new_excess]
  split
  · rename_i x second
    have none_there : x.excess = Pages.Runs.excess (.new x.pages.extent) := by
      rw [MarkSweepSpace.excess, (pristine.mature x second).pages, (pristine.mature x second).blocks]
      rfl
    rw [none_there, Pages.Runs.new_excess]
  · rfl

theorem occupied (pristine : s.Pristine plan) : s.Occupied [] := by
  unfold Occupied
  rw [pristine.large.pages]
  nofun

end Spaces.Pristine

namespace Heap.Founded

variable {h : Heap} {settings : Settings}

theorem quiet (founded : h.Founded settings) : Quiet h [] [] := by
  have pristine := founded.spaces
  refine ⟨?_, pristine.tracked, ?_, nofun, fun id x space => (pristine.clean space).unclaimed, pristine.rested, ?_, nofun,
    fun _ x space => ?_, pristine.stamping⟩
  · rw [Heap.buffers, Heap.keys, founded.mutators]
    exact pristine.held h.memory
  · rw [founded.mutators]
    intro m member
    cases member.val
  · rw [pristine.large.treadmill]
    exact fun o => ⟨Std.TreeSet.not_mem_emptyc, Std.TreeSet.not_mem_emptyc⟩
  · obtain ⟨_, _, blank⟩ := pristine.copying space
    exact blank.pages

theorem recorded (founded : h.Founded settings) : h.recorded = [] := by
  rw [Heap.recorded, founded.mutators, founded.backlog]
  rfl

/-- What a program starts from. -/
theorem sound (founded : h.Founded settings) : World.Sound ⟨h, ∅, ∅, ∅⟩ [] [] where
  quiet := by
    rw [show (⟨h, ∅, ∅, ∅⟩ : World).heap.team = [] from by rw [team, founded.collectors]; rfl]
    exact founded.quiet
  knows := by
    refine ⟨nofun, nofun, nofun, nofun, ?_, nofun, ?_, nofun⟩
    · rw [founded.roots]
      intro a member
      cases member.val
    · rw [founded.recorded]
      nofun
  logged := ⟨nofun, by rw [founded.recorded]; exact .nil⟩
  manned group there := by
    rw [founded.collectors] at there
    cases there
  charted := founded.charted
  tags := founded.spaces.tags
  modest := nofun
  tenants t := by simp
  named a := by simp
  recent := nofun
  exact := founded.spaces.excess
  occupied := founded.spaces.occupied

end Heap.Founded

end TracingHeap
