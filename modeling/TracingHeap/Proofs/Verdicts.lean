import TracingHeap.Proofs.Cycles

/-! Who is live, as the program sees it. After a closure and before the release a heap can be asked about any object that
the collection covers, and it counts the object as live exactly if the program could get to it when the collection started:
from the roots, or in a collection of young objects from a recorded object as well, through objects that are covered. -/

namespace TracingHeap

open List Memory Work

/-! ### Where references lead -/

namespace World

/-- A collection covers the object there. One of the whole heap leaves nothing out; one of young objects covers the
nursery and the large objects that were made since the last collection. -/
def Covers (w : World) (full : Bool) (a : Address) : Prop :=
  full = true ∨ (w.heap.spaces.space .first).extent.holds a = true ∨
    (w.heap.spaces.space .large).extent.holds a = true ∧ a ∈ w.recent

/-- What references lead a collection to: from the roots, from recorded objects if it is one of young objects, and from
what it covers itself. -/
inductive Finds (w : World) (full : Bool) : Address → Prop where
  | root {a : Address} (member : a ∈ w.heap.program.roots) (proper : a ≠ .null) : Finds w full a
  | recorded {o a : Address} {i : Nat} (young : full = false) (noted : o ∈ w.heap.recorded) (inside : i < w.heap.memory.fields o)
    (holds : w.heap.memory.field o i = a) (proper : a ≠ .null) : Finds w full a
  | field {o a : Address} {i : Nat} (source : Finds w full o) (covered : w.Covers full o) (inside : i < w.heap.memory.fields o)
    (holds : w.heap.memory.field o i = a) (proper : a ≠ .null) : Finds w full a

/-- A collection of the whole heap finds what the roots lead to. -/
theorem finds_full {w : World} {a : Address} : w.Finds true a ↔ w.heap.Leads a := by
  constructor
  · intro found
    induction found with
    | root member proper => exact .root member proper
    | recorded young => cases young
    | field _ _ inside holds proper ih => exact .field ih inside holds proper
  · intro leads
    induction leads with
    | root member proper => exact .root member proper
    | field _ inside holds proper ih => exact .field ih (.inl rfl) inside holds proper

end World

/-! ### A closure that is over -/

namespace Heap.Traced

variable {h₀ h₁ h : Heap} {cs₀ cs : List Collector} {pieces₀ known pieces : List Piece} {full : Bool} {o p : Piece} {a : Address}

/-- The collection is one of the whole heap. -/
theorem lastFull_iff (traced : h₀.Traced h₁ h cs₀ cs pieces₀ known pieces full) :
    h.lastFull = true ↔ (h₀.plan = .generational → full = true) := by
  unfold lastFull
  rw [traced.plan]
  cases plan : h₀.plan with
  | generational => simp [traced.scope_full (traced.plan.trans plan)]
  | semispace => simp

/-- The closure is done with what the roots refer to. -/
theorem done_root (traced : h₀.Traced h₁ h cs₀ cs pieces₀ known pieces full) (member : a ∈ h₀.program.roots) (proper : a ≠ .null) :
    ∃ o ∈ known, o.start = a ∧ h.Done o := by
  obtain ⟨_, opened⟩ := traced.opened
  obtain ⟨i, inside, rfl⟩ := Array.mem_iff_getElem.mp member
  have size := traced.closing.kept.rootCount
  have before : h₁.program.roots[i]? = some h₀.program.roots[i] := by
    rw [opened.set.roots, Array.getElem?_eq_getElem inside]
  have inside' : i < h.program.roots.size := by
    rw [size]
    exact (Array.getElem?_eq_some_iff.mp before).1
  rcases traced.closing.owes.roots i _ _ before (Array.getElem?_eq_getElem inside') with settled | owed
  · rcases settled with ⟨absent, -⟩ | ⟨q, there, same, done, -⟩
    · exact absurd absent proper
    · exact ⟨q, there, same.symm, done⟩
  · exact owed.elim

/-- The closure is done with what the objects refer to that it has seen to. -/
theorem done_field (traced : h₀.Traced h₁ h cs₀ cs pieces₀ known pieces full) {i : Nat} (member : o ∈ known)
    (tends : Outset.Tends ⟨h₁, pieces₀, known⟩ h o) (inside : i < h₀.memory.fields o.start)
    (proper : h₀.memory.field o.start i ≠ .null) : ∃ q ∈ known, q.start = h₀.memory.field o.start i ∧ h.Done q := by
  obtain ⟨_, opened⟩ := traced.opened
  have count : Outset.count ⟨h₁, pieces₀, known⟩ o = h₀.memory.fields o.start := by rw [Outset.count, opened.set.memory]
  have target : Outset.target ⟨h₁, pieces₀, known⟩ o i = h₀.memory.field o.start i := by rw [Outset.target, opened.set.memory]
  rcases traced.closing.owes.fields o member tends with ⟨-, owed⟩ | owed | each
  · exact owed.elim
  · exact owed.elim
  · rcases each i (count ▸ inside) with settled | owed
    · rw [target] at settled
      rcases settled with ⟨absent, -⟩ | ⟨q, there, same, done, -⟩
      · exact absurd absent proper
      · exact ⟨q, there, same.symm, done⟩
    · exact owed.elim

end Heap.Traced

/-! ### What a collection finds is live -/

namespace World

variable {w : World} {pieces₀ objects pieces : List Piece} {h₁ h : Heap} {cs : List Collector} {full : Bool} {o p : Piece} {a : Address}

/-- The objects that a collection covers are those that it is not done with before it starts. -/
theorem Sound.covers_of_open (sound : w.Sound pieces₀ objects)
    (traced : w.heap.stopped.Traced h₁ h w.heap.team cs pieces₀ objects pieces full) (member : p ∈ pieces₀)
    (object : p.isObject = true) (undone : ¬ h₁.Done p) : w.Covers h.lastFull p.start := by
  obtain ⟨_, opened⟩ := traced.opened
  obtain ⟨quiet, -, -⟩ := sound.stopped
  by_cases whole : h.lastFull = true
  · exact .inl whole
  obtain ⟨generational, young⟩ := Classical.not_imp.mp (mt traced.lastFull_iff.mpr whole)
  obtain rfl := Bool.eq_false_iff.mpr young
  rw [opened.set.done_iff_aged quiet member generational, Heap.Aged, not_and_or, not_not, Classical.not_imp] at undone
  have inside := quiet.held.inside member
  rcases undone with home | ⟨home, missing⟩
  · exact .inr (.inl (Extent.holds_iff.mpr (home ▸ inside)))
  · refine .inr (.inr ⟨Extent.holds_iff.mpr (home ▸ inside), (sound.recent p member object home).mp ?_⟩)
    rcases quiet.tracked.large.complete p member home object with fresh | on | on | on
    · exact fresh
    · exact absurd on missing
    · exact absurd on (quiet.settled _).1
    · exact absurd on (quiet.settled _).2

/-- Of what a collection covers nothing counts as reached before it starts, but for immortal objects. -/
theorem Sound.open_of_covers (sound : w.Sound pieces₀ objects)
    (traced : w.heap.stopped.Traced h₁ h w.heap.team cs pieces₀ objects pieces full) (member : p ∈ pieces₀)
    (object : p.isObject = true) (ordinary : p.home ≠ .immortal) (covered : w.Covers h.lastFull p.start) :
    h₁.Covered p ∧ ¬ h₁.spaces.Reached p := by
  obtain ⟨_, opened⟩ := traced.opened
  obtain ⟨quiet, -, -⟩ := sound.stopped
  obtain ⟨half, half'⟩ := Heap.Set.home_current quiet member
  have covered_iff := opened.set.covered half' half
  by_cases whole : h.lastFull = true
  · have whole := traced.lastFull_iff.mp whole
    exact ⟨covered_iff.mpr fun generational _ => whole generational, opened.set.unreached_ordinary quiet member ordinary whole⟩
  obtain ⟨generational, young⟩ := Classical.not_imp.mp (mt traced.lastFull_iff.mpr whole)
  obtain rfl := Bool.eq_false_iff.mpr young
  obtain ⟨low, high⟩ := quiet.held.inside member
  have aged := opened.set.done_iff_aged quiet member generational
  have young : (p.home = .first ∨ p.home = .large) ∧ ¬ w.heap.stopped.Aged p := by
    rcases covered with bad | nursery | ⟨large, recent⟩
    · exact absurd bad whole
    · obtain home := quiet.held.estate.laid.unique nursery low high
      exact ⟨.inl home.symm, fun old => old.1 home.symm⟩
    · obtain home := quiet.held.estate.laid.unique large low high
      refine ⟨.inr home.symm, fun old => ?_⟩
      -- A mark cannot tell of both lists.
      have fresh := quiet.tracked.large.fresh _ ((sound.recent p member object home.symm).mpr recent)
      have survivor := quiet.tracked.large.survivors _ (old.2 home.symm)
      rw [fresh] at survivor
      rcases quiet.tracked.large.current with current | current
      all_goals
        rw [current] at survivor
        exact absurd survivor (by decide)
  have within : h₁.Covered p := covered_iff.mpr fun _ home => by
    rcases young.1 with here | here <;> rw [here] at home <;> simp at home
  exact ⟨within, fun reached => young.2 (aged.mp fun _ => reached)⟩

/-- The closure is done with whatever the collection finds. -/
theorem Sound.done_of_finds (sound : w.Sound pieces₀ objects)
    (traced : w.heap.stopped.Traced h₁ h w.heap.team cs pieces₀ objects pieces full) (found : w.Finds h.lastFull a) :
    ∃ o ∈ objects, o.start = a ∧ h.Done o := by
  obtain ⟨_, opened⟩ := traced.opened
  induction found with
  | root member proper => exact traced.done_root member proper
  | @recorded _ a i young noted inside holds proper =>
    obtain ⟨o, member, rfl, -⟩ := sound.knows.recorded _ noted
    subst holds
    obtain ⟨generational, partial_⟩ := Classical.not_imp.mp (mt traced.lastFull_iff.mpr (Bool.eq_false_iff.mp young))
    have nurseryOnly : h₁.nurseryOnly = true := by
      rw [opened.set.nurseryOnly, generational, Bool.eq_false_iff.mpr partial_]
      rfl
    exact traced.done_field member (.inr ⟨(opened.remembered _).mpr noted, nurseryOnly⟩) inside proper
  | @field _ a i _ _ inside holds proper ih =>
    obtain ⟨o, member, rfl, done⟩ := ih
    subst holds
    exact traced.done_field member (.inl done) inside proper

/-- Whatever the closure has found the collection finds. -/
theorem Sound.finds_of_found (sound : w.Sound pieces₀ objects)
    (traced : w.heap.stopped.Traced h₁ h w.heap.team cs pieces₀ objects pieces full)
    (found : Outset.Found ⟨h₁, pieces₀, objects⟩ o) : w.Finds h.lastFull o.start := by
  obtain ⟨_, opened⟩ := traced.opened
  have same : h₁.memory = w.heap.memory := opened.set.memory
  induction found with
  | root known holds =>
    rw [opened.set.roots] at holds
    exact .root (Array.mem_of_getElem? holds) (sound.knows.known _ known).2.2
  | @remembered o q i _ noted young inside known holds =>
    have partial_ : h.lastFull = false := by
      rw [opened.set.nurseryOnly, Bool.and_eq_true, beq_iff_eq, Bool.not_eq_true'] at young
      refine Bool.eq_false_iff.mpr fun whole => ?_
      rw [traced.lastFull_iff.mp whole young.1] at young
      exact absurd young.2 Bool.noConfusion
    simp only [Outset.count, Outset.target, same] at inside holds
    exact .recorded partial_ ((opened.remembered _).mp noted) inside holds (sound.knows.known q known).2.2
  | @field o q i source _ undone inside known holds ih =>
    simp only [Outset.count, Outset.target, same] at inside holds
    obtain ⟨member, object, -⟩ := sound.knows.known o source
    exact .field ih (sound.covers_of_open traced member object undone) inside holds (sound.knows.known q known).2.2

/-- After the closure of any collection, with any number of collectors and in any order of their steps: an object that the
collection covers counts as live exactly if the collection finds it in the graph that it started with. -/
theorem Reachable.live_iff_finds {group : Array Collector} {c : Crew} {t : Tenant} (reachable : w.Reachable)
    (there : w.heap.collectors = some group) (closure : Crew.Run (.ofCollectors group, w.heap.stopped) (c, h)) (traced : c.HasTraced)
    (member : t ∈ w.tenants) (object : t.isObject = true)
    (ordinary : (w.heap.spaces.space .immortal).extent.holds t.start = false) (covered : w.Covers h.lastFull t.start) :
    ∃ b, h.isLive t.start = .ok b ∧ (b = true ↔ w.Finds h.lastFull t.start) := by
  obtain ⟨pieces₀, objects, sound⟩ := reachable.sound
  obtain ⟨p, there₀, rfl⟩ := (sound.tenants t).mp member
  obtain ⟨h₁, pieces, full, ended, -⟩ := sound.traced there closure traced
  have kept := ended.closing.kept
  have home : p.home ≠ .immortal := fun home => by
    have inside := sound.quiet.held.inside there₀
    rw [home] at inside
    exact absurd ((Extent.holds_iff.mpr inside).symm.trans ordinary) Bool.noConfusion
  obtain ⟨within, unreached⟩ := sound.open_of_covers ended there₀ object home covered
  obtain ⟨b, answer, live⟩ := Heap.isLive_ok ended.shared.held ended.shared.tracked (kept.base p there₀) fun _ => object
  refine ⟨b, answer, live.trans ⟨fun either => ?_, fun found => .inr ?_⟩⟩
  · have reached := (either.resolve_left home) ((kept.covered p).mpr within)
    rcases kept.found p there₀ reached with bad | ⟨-, found⟩
    · exact absurd bad unreached
    · exact sound.finds_of_found ended found
  · obtain ⟨o, known, start, done⟩ := sound.done_of_finds ended found
    obtain rfl := sound.quiet.held.start_inj (sound.knows.known o known).1 there₀ start
    exact done

/-- Of the two young objects of the first program, the one that the large object refers to is live. -/
theorem sample_live_iff_finds : (sample.rounds 19).2.isLive youngAt = .ok true ∧ (sample.rounds 19).2.isLive deadAt = .ok false ∧
    sample.Finds (sample.rounds 19).2.lastFull youngAt ∧ ¬ sample.Finds (sample.rounds 19).2.lastFull deadAt := by
  have live : (sample.rounds 19).2.isLive youngAt = .ok true := by decide +kernel
  have dead : (sample.rounds 19).2.isLive deadAt = .ok false := by decide +kernel
  obtain ⟨b, same, iff⟩ := sample_reachable.live_iff_finds (t := ⟨youngAt, 1024, .first, true⟩) sample_manned sample_closes
    sample_traced (by simp [sample_tenants]) rfl (by decide +kernel) (.inr (.inl (by decide +kernel)))
  obtain ⟨b', same', iff'⟩ := sample_reachable.live_iff_finds (t := ⟨deadAt, 16, .first, true⟩) sample_manned sample_closes
    sample_traced (by simp [sample_tenants]) rfl (by decide +kernel) (.inr (.inl (by decide +kernel)))
  cases live.symm.trans same
  cases dead.symm.trans same'
  exact ⟨live, dead, iff.mp rfl, fun found => absurd (iff'.mpr found) Bool.false_ne_true⟩

end World

end TracingHeap
