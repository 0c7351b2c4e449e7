import TracingHeap.Proofs.Cycles

/-! Requests as the program makes them. A request may have to be tried again after a collection, and all that happens
meanwhile is what a program at work may do anyway. The memory that it gets in the end is its own. -/

namespace TracingHeap

open List Memory Relation

/-! ### Collections that the heap carries out itself -/

theorem Crew.outcome_ok {c : Crew} (ok : c.outcome = .ok ()) : c.fault = none ∧ c.isOver = true := by
  unfold outcome at ok
  cases fault : c.fault with
  | some e => simp only [fault, reduceCtorEq] at ok
  | none =>
    simp only [fault] at ok
    split at ok
    · exact ⟨rfl, ‹_›⟩
    · cases ok

namespace Heap

variable {h h' : Heap} {group : Array Collector} {i : Nat} {r : Request} {semantics : AllocSemantics} {a : Address}

/-- A collection that the heap carries out is one in which the collectors take turns in some order. -/
theorem runCollection_ok (ok : runCollection group h = .ok () h') :
    ∃ c h₁, Crew.Run (.ofCollectors group, h.stopped) (c, h₁) ∧ c.isOver = true ∧ h' = h₁.resumed c := by
  simp only [runCollection, Step.bind_ok, Step.ask_ok, Step.modify_ok] at ok
  obtain ⟨_, _, ⟨-, rfl⟩, _, _, rfl, ⟨collectors, ended⟩, h₁, collected, ok⟩ := ok
  obtain ⟨⟨c, h₂⟩, ran, moves⟩ := run_moves Collector.enoughSteps (.ofCollectors group, h.stopped)
  have same : collectWith group h.stopped = .ok (c.collectors, c.outcome) h₂ := by rw [collectWith, ran]
  cases same.symm.trans collected
  obtain ⟨_, _, rfl, ok⟩ := ok
  unfold resumed
  cases outcome : c.outcome with
  | error e =>
    rw [outcome] at ok
    exact (Step.throw_ok.mp ok).elim
  | ok _ =>
    obtain ⟨calm, complete⟩ := Crew.outcome_ok outcome
    rw [outcome] at ok
    refine ⟨c, h₁, .of_moves moves calm, complete, ?_⟩
    simp only [Step.get_bind, Step.modify_ok] at ok
    simp only [outcome]
    exact ok.symm

theorem collect_ok (ok : collect h = .ok () h') :
    h' = h ∨ h' = { h with demand := h.demand.dropped } ∨ ∃ group, h.collectors = some group ∧ ∃ c h₁,
      Crew.Run (.ofCollectors group, h.stopped) (c, h₁) ∧ c.isOver = true ∧ h' = h₁.resumed c := by
  simp only [collect, Step.get_bind, Step.bind_ok, Step.ensure_ok, Step.ite_step] at ok
  obtain ⟨_, _, ⟨-, rfl⟩, ok⟩ := ok
  split at ok
  · obtain ⟨-, rfl⟩ := Step.pure_ok.mp ok
    exact .inl rfl
  · cases there : h.collectors with
    | none =>
      rw [there] at ok
      rw [← there]
      exact .inr (.inl (Step.modify_ok.mp ok).symm)
    | some group =>
      rw [there] at ok
      exact .inr (.inr ⟨group, rfl, runCollection_ok (Step.onFault_ok.mp ok)⟩)

/-- A request that is served was served by its first attempt, or else refused and tried again after a collection. -/
theorem allocWith_ok {selector : AllocatorSelector} {more : Nat} {again : Bool}
    (ok : allocWith i selector r more again h = .ok (some a) h') :
    withAllocators i (AllocatorSet.alloc selector r) h = .ok (some a) h' ∨
      ∃ fewer emergency h₁ h₂, more = fewer + 1 ∧ withAllocators i (AllocatorSet.alloc selector r) h = .ok none h₁ ∧
        collect { h₁ with demand.emergency := emergency } = .ok () h₂ ∧
        allocWith i selector r fewer true h₂ = .ok (some a) h' := by
  unfold allocWith at ok
  obtain ⟨answer, h₁, attempted, ok⟩ := Step.bind_ok.mp ok
  cases answer with
  | some start =>
    obtain ⟨same, rfl⟩ := Step.pure_ok.mp ok
    exact .inl (same ▸ attempted)
  | none =>
    simp only [Step.get_bind, Step.ite_step] at ok
    split at ok
    · cases (Step.pure_ok.mp ok).1
    · cases more with
      | zero =>
        simp only [giveUp, Step.modify_bind, Step.bind_ok, Step.pure_ok, reduceCtorEq, false_and, and_false, exists_false] at ok
      | succ fewer =>
        simp only at ok
        split at ok
        · simp only [setEmergency, Step.modify_bind] at ok
          obtain ⟨_, h₂, collected, ok⟩ := Step.bind_ok.mp ok
          exact .inr ⟨fewer, true, h₁, h₂, rfl, attempted, collected, ok⟩
        · obtain ⟨_, h₂, collected, ok⟩ := Step.bind_ok.mp ok
          exact .inr ⟨fewer, h₁.demand.emergency, h₁, h₂, rfl, attempted, collected, ok⟩

end Heap

namespace World

/-- A program at work goes on, with the mutators that it had. -/
structure Continues (w v : World) : Prop where
  path : ReflTransGen Step w v
  mutators : v.heap.program.mutators.size = w.heap.program.mutators.size
  plan : v.heap.plan = w.heap.plan

variable {w v u : World} {h' : Heap} {i : Nat} {r : Request} {semantics : AllocSemantics} {selector : AllocatorSelector}
  {a : Address}

theorem Continues.refl (w : World) : w.Continues w := ⟨.refl, rfl, rfl⟩

theorem Continues.trans (first : w.Continues v) (second : v.Continues u) : w.Continues u :=
  ⟨first.path.trans second.path, second.mutators.trans first.mutators, second.plan.trans first.plan⟩

theorem Continues.routes (continues : w.Continues v) (routed : w.heap.route r semantics = .ok selector) :
    v.heap.route r semantics = .ok selector := by
  rwa [Heap.route, continues.plan]

theorem Continues.reachable (continues : w.Continues v) (reachable : w.Reachable) : v.Reachable := by
  obtain ⟨path, -, -⟩ := continues
  induction path with
  | refl => exact reachable
  | tail _ step ih => exact .step ih step

theorem Reachable.collects (reachable : w.Reachable) (ok : Heap.collect w.heap = .ok () h') :
    ∃ v, w.Continues v ∧ v.heap = h' := by
  rcases Heap.collect_ok ok with rfl | rfl | ⟨group, there, c', h₁, run, complete, rfl⟩
  · exact ⟨w, .refl w, rfl⟩
  · exact ⟨_, ⟨.single (.noted w.heap.demand.dropped w.heap.scope.nextFull w.heap.disabled w.heap.program.shortages), rfl, rfl⟩, rfl⟩
  · obtain ⟨pieces, objects, sound⟩ := reachable.sound
    obtain ⟨c, h, traced, closure, rest⟩ := sound.passes there run complete
    obtain ⟨_, _, _, _, cycle, -⟩ := sound.cycle there closure traced rest complete
    obtain ⟨_, _, _, _, resumed⟩ := h₁.resumed_eq c'
    refine ⟨_, ⟨.single (.collected there closure traced rest complete), ?_, ?_⟩, rfl⟩
    · rw [resumed]
      exact cycle.mutators
    · rw [resumed]
      exact cycle.plan

/-- Between one attempt and the next, a request was refused and there may have been a collection. -/
theorem Reachable.retries {h₁ : Heap} {emergency : Bool} (reachable : w.Reachable) (inside : i < w.heap.program.mutators.size)
    (routed : w.heap.route r semantics = .ok selector)
    (refused : Heap.withAllocators i (AllocatorSet.alloc selector r) w.heap = .ok none h₁)
    (collected : Heap.collect { h₁ with demand.emergency := emergency } = .ok () h') : ∃ v, w.Continues v ∧ v.heap = h' := by
  obtain ⟨pieces, objects, sound⟩ := reachable.sound
  obtain ⟨large, judged, chosen⟩ := Heap.route_ok routed
  obtain ⟨id, bound⟩ := Mutator.selector_bound w.heap.current w.heap.plan (if large then .large else semantics)
  obtain ⟨asked, -⟩ := Heap.attempt_ok sound.quiet sound.occupied inside routed (chosen ▸ bound) refused
  have noted : w.Continues { w with heap := { h₁ with demand.emergency := emergency } } := by
    refine ⟨.tail (.single (.refused inside routed refused)) ?_, asked.mutators, asked.continues.plan⟩
    exact .noted { h₁.demand with emergency } h₁.scope.nextFull h₁.disabled h₁.program.shortages
  obtain ⟨v, continues, same⟩ := (noted.reachable reachable).collects collected
  exact ⟨v, noted.trans continues, same⟩

/-- However often it is tried, a request is served in a world that the program gets to. -/
theorem Reachable.serves {more : Nat} {again : Bool} (reachable : w.Reachable) (inside : i < w.heap.program.mutators.size)
    (routed : w.heap.route r semantics = .ok selector)
    (ok : Heap.allocWith i selector r more again w.heap = .ok (some a) h') :
    ∃ v, w.Continues v ∧ Heap.withAllocators i (AllocatorSet.alloc selector r) v.heap = .ok (some a) h' := by
  induction more generalizing w again with
  | zero =>
    rcases Heap.allocWith_ok ok with served | ⟨_, _, _, _, bad, -⟩
    · exact ⟨w, .refl w, served⟩
    · cases bad
  | succ more ih =>
    rcases Heap.allocWith_ok ok with served | ⟨fewer, emergency, h₁, h₂, same, refused, collected, ok⟩
    · exact ⟨w, .refl w, served⟩
    · cases same
      obtain ⟨v, continues, rfl⟩ := reachable.retries inside routed refused collected
      obtain ⟨u, continues', served⟩ := ih (continues.reachable reachable) (continues.mutators.symm ▸ inside)
        (continues.routes routed) ok
      exact ⟨u, continues.trans continues', served⟩

/-- Memory that a request can be given: it is aligned as asked, in the space `id`, zero, and no part of it is in use. -/
structure Grants (w : World) (h : Heap) (r : Request) (id : SpaceId) (a : Address) : Prop where
  aligned : (a.toNat + r.offset.toNat) % r.align.toNat = 0
  inside : (h.spaces.space id).extent.span.lo ≤ a.toNat ∧ a.toNat + r.bytes.toNat ≤ (h.spaces.space id).extent.span.hi
  zero : ∀ n, a.toNat ≤ n → n < a.toNat + r.bytes.toNat → h.memory.byte n = 0
  apart : ∀ t ∈ w.tenants, t.start.toNat + t.bytes ≤ a.toNat ∨ a.toNat + r.bytes.toNat ≤ t.start.toNat

theorem Sound.grants {pieces objects : List Piece} {id : SpaceId} (sound : w.Sound pieces objects)
    (inside : i < w.heap.program.mutators.size) (routed : w.heap.route r semantics = .ok selector)
    (bound : (selector, id) ∈ Mutator.bindings w.heap.current w.heap.plan)
    (served : Heap.withAllocators i (AllocatorSet.alloc selector r) w.heap = .ok (some a) h') : w.Grants h' r id a := by
  obtain ⟨-, -, some₁⟩ := Heap.attempt_ok sound.quiet sound.occupied inside routed bound served
  obtain ⟨small, room, allotted, quiet, -⟩ := some₁ a rfl
  obtain ⟨fits, -⟩ := Request.size_fits small
  have held := quiet.held
  have within := held.within mem_cons_self
  have placed := held.placed _ mem_cons_self
  have low := placed.low
  have high := placed.high
  refine ⟨allotted.aligns.2, ⟨within.1.trans low, high.trans within.2⟩, fun n above below => ?_, fun t had => ?_⟩
  · have zero : h'.memory.word (n / 8) = 0 := allotted.zero _ (by have := allotted.aligns.1; dsimp only; omega) (by dsimp only; omega)
    simp [byte, zero]
  · obtain ⟨p, member, rfl⟩ := (sound.tenants t).mp had
    have apart := held.apart mem_cons_self (mem_cons_of_mem _ member) (held.fresh member).symm
    have placed' := held.placed p (mem_cons_of_mem _ member)
    have low' := placed'.low
    have high' := placed'.high
    unfold Span.Apart at apart
    dsimp only [Piece.tenant] at *
    omega

/-- A request of the program that is answered with memory, after as many collections as it took: the memory is in the one
space that the request was routed to, and free in the world that the program had come to. -/
theorem Reachable.granted (reachable : w.Reachable) (inside : i < w.heap.program.mutators.size)
    (ok : Heap.alloc i r semantics w.heap = .ok (some a) h') :
    ∃ (v : World) (selector : AllocatorSelector) (id : SpaceId), ReflTransGen Step w v ∧
      Step v ⟨h', insert ⟨a, r.bytes.toNat, id, false⟩ v.tenants, v.named, v.recent⟩ ∧
      w.heap.route r semantics = .ok selector ∧ (selector, id) ∈ Mutator.bindings v.heap.current v.heap.plan ∧
      v.Grants h' r id a := by
  obtain ⟨selector, _, asked, ok⟩ := Step.bind_ok.mp ok
  obtain ⟨routed, rfl⟩ := Step.ask_ok.mp asked
  rw [Step.get_bind] at ok
  obtain ⟨v, continues, served⟩ := reachable.serves inside routed ok
  obtain ⟨pieces, objects, sound⟩ := (continues.reachable reachable).sound
  have inside' := continues.mutators.symm ▸ inside
  have routed' := continues.routes routed
  obtain ⟨large, -, chosen⟩ := Heap.route_ok routed'
  obtain ⟨id, bound⟩ := Mutator.selector_bound v.heap.current v.heap.plan (if large then .large else semantics)
  rw [← chosen] at bound
  exact ⟨v, selector, id, continues.path, .served inside' routed' bound served, routed, bound,
    sound.grants inside' routed' bound served⟩

/-- The first program gets memory behind its young objects. -/
theorem sample_granted : ∃ (v : World) (id : SpaceId), ReflTransGen Step sample v ∧
    v.Grants ((Heap.alloc 0 ⟨1024, 16, 8⟩ .ordinary).left sample.heap) ⟨1024, 16, 8⟩ id ⟨139637955757080⟩ := by
  have served : Heap.alloc 0 ⟨1024, 16, 8⟩ .ordinary sample.heap =
      .ok (some ⟨139637955757080⟩) ((Heap.alloc 0 ⟨1024, 16, 8⟩ .ordinary).left sample.heap) :=
    Step.answer_ok (by decide +kernel)
  obtain ⟨v, _, id, path, -, -, -, grants⟩ := sample_reachable.granted (by decide +kernel) served
  exact ⟨v, id, path, grants⟩

end World

end TracingHeap
