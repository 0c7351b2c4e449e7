import Mathlib.Logic.Relation
import TracingHeap.Object.Create
import TracingHeap.Proofs.Budgets
import TracingHeap.Proofs.Conduct
import TracingHeap.Proofs.Layouts

/-! Heaps that can be reached. A heap is laid out from any settings; then come operations of the program and its
threads, and collections in which the collectors take their steps in any order. An operation or a collector may
break off at any point, and the heap that it leaves is reached as well. -/

namespace TracingHeap

open Step

namespace Heap

/-- What the program and its threads have the heap do. -/
inductive Operation where
  | start
  | bind (thread : Address)
  | destroy (mutator : Nat)
  | flush (mutator : Nat)
  /-- An allocator is tried once. -/
  | attempt (mutator : Nat) (selector : AllocatorSelector) (r : Request)
  /-- The program is told that collections make no room. -/
  | giveUp
  | adopt (mutator : Nat) (object : Address)
  | store (mutator : Nat) (object place target : Address)
  /-- The program changes its roots, and what its objects hold. -/
  | write (memory : Memory) (roots : Array Address)
  | demand (space : Option SpaceId) (spaceFull byUser : Bool)
  | drop
  | poll (spaceFull : Bool) (space : Option SpaceId)
  | requireFull
  | setEmergency (on : Bool)
  /-- There will be no other collection. -/
  | disable

/-- Carries out an operation. -/
def Operation.step : Operation → Step Heap Unit
  | start => Heap.start
  | bind thread => bindMutator thread
  | destroy mutator => destroyMutator mutator
  | flush mutator => Heap.flush mutator
  | attempt mutator selector r => discard (withAllocators mutator (AllocatorSet.alloc selector r))
  | giveUp => discard Heap.giveUp
  | adopt mutator object => adoptAllocated mutator object
  | store mutator object place target => Heap.store mutator object place target
  | write memory roots => modify fun h => { h with memory, program.roots := roots }
  | demand space spaceFull byUser => demandCollection space spaceFull byUser
  | drop => modify fun h => { h with demand := h.demand.dropped }
  | poll spaceFull space => discard (Heap.poll spaceFull space)
  | requireFull => Heap.requireFull
  | setEmergency on => Heap.setEmergency on
  | disable => modify fun h => { h with disabled := true }

/-- The threads of the program are stopped for a collection. -/
def stopped (h : Heap) : Heap :=
  { h with demand.collecting := true, program.stops := h.program.stops + 1, collectors := none }

/-- The threads are resumed, unless a collector has broken off. -/
def resumed (h : Heap) (c : Crew) : Heap :=
  let h := { h with collectors := some c.collectors }
  match c.outcome with
  | .ok () =>
    { h with
      tally := h.tally.finished h.lastFull 0
      demand := { h.demand.met h.lastFull with collecting := false }
      program.resumes := h.program.resumes + 1 }
  | .error _ => { h with disabled := true }

/-- One collector takes a step. -/
def Moves (s t : Crew × Heap) : Prop := ∃ index, t = (Crew.stepOf index).left s

/-- The heaps that can be reached. -/
inductive Reachable : Heap → Prop where
  | created {settings : Settings} {breaksOff : Bool} {h : Heap} (ok : create settings breaksOff = .ok (.ok h)) : Reachable h
  | operated {h : Heap} (before : Reachable h) (op : Operation) : Reachable (op.step.left h)
  /-- In the midst of a collection. -/
  | collecting {h h' : Heap} {group : Array Collector} {c : Crew} (before : Reachable h) (there : h.collectors = some group)
    (steps : Relation.ReflTransGen Moves (.ofCollectors group, h.stopped) (c, h')) : Reachable h'
  /-- After a collection. -/
  | collected {h h' : Heap} {group : Array Collector} {c : Crew} (before : Reachable h) (there : h.collectors = some group)
    (steps : Relation.ReflTransGen Moves (.ofCollectors group, h.stopped) (c, h')) : Reachable (h'.resumed c)

theorem giveUp_keeps : Keeps InOrder giveUp :=
  keeps_bind (keeps_modify fun _ ordered => ordered.congr rfl rfl rfl) fun _ => keeps_bind (report_keeps _) fun _ => keeps_pure _

theorem withAllocators_keeps {α : Type} {I : Heap → Prop} (index : Nat) {x : Step (AllocatorSet × Heap) α}
    (mutators : ∀ h mutators, I h → I { h with program.mutators := mutators }) (inner : Keeps (fun s => I s.2) x) :
    Keeps I (withAllocators index x) := by
  intro h holds
  have kept := inner (((mutatorPart index).get h).allocators, (mutatorPart index).set h default) (mutators _ _ holds)
  simp only [left, withAllocators] at kept ⊢
  cases ran : x (((mutatorPart index).get h).allocators, (mutatorPart index).set h default) with
  | ok a t => simp only [ran] at kept; exact mutators _ _ kept
  | error e t => simp only [ran] at kept; exact mutators _ _ kept

theorem start_keeps : Keeps InOrder start := by
  -- Spaces may ask for collections before these are enabled.
  have armed : Keeps (fun h : Heap => h.InOrder ∧ h.armed = true) (do
      let group ← Step.ask fun h => h.newCollectors h.settings.threads.toNat
      setCollectors group
      modify fun h => { h with demand.started := true }) := by
    refine keeps_bind (keeps_ask _) fun group => keeps_bind ?_ fun _ =>
      keeps_modify fun h holds => ⟨⟨holds.1.spaces, fun _ => holds.2⟩, holds.2⟩
    refine keeps_get_bind fun h => keeps_bind (keeps_ensure _ _) fun _ => ?_
    have set : Keeps (fun h : Heap => h.InOrder ∧ h.armed = true) (modify fun h : Heap => { h with collectors := some group }) :=
      keeps_modify fun h holds => ⟨holds.1.congr rfl rfl rfl, holds.2⟩
    exact keeps_ite (keeps_bind (keeps_modify fun h holds => ⟨holds.1.congr rfl rfl rfl, holds.2⟩) fun _ =>
      keeps_bind (keeps_throw _) fun _ => set) set
  refine keeps_get_bind fun h => keeps_bind (keeps_ensure _ _) fun _ h ordered => ?_
  exact (armed { h with armed := true } ⟨⟨ordered.spaces, fun _ => rfl⟩, rfl⟩).1

theorem store_keeps (index : Nat) (object place target : Address) : Keeps InOrder (Heap.store index object place target) := by
  refine keeps_bind (keeps_modify fun _ ordered => ordered.congr rfl rfl rfl) fun _ => keeps_get_bind fun h => ?_
  split
  · refine keeps_get_bind fun h => keeps_ite ?_ (keeps_pure _)
    exact keeps_bind (keeps_modify fun _ ordered => ordered.congr rfl rfl rfl) fun _ =>
      keeps_bind (keeps_onMutator _ _) fun _ => keeps_get_bind fun h => keeps_ite (flush_keeps _) (keeps_pure _)
  · exact keeps_pure _

theorem Operation.keeps (op : Operation) : Keeps InOrder op.step := by
  cases op with
  | start => exact start_keeps
  | bind thread => exact keeps_bind (keeps_ask _) fun _ => keeps_modify fun _ ordered => ordered.congr rfl rfl rfl
  | destroy mutator => exact keeps_bind (flush_keeps mutator) fun _ => keeps_modify fun _ ordered => ordered.congr rfl rfl rfl
  | flush mutator => exact flush_keeps mutator
  | attempt mutator selector r => exact keeps_map (withAllocators_keeps mutator (fun _ _ ordered => ordered.congr rfl rfl rfl)
      (AllocatorSet.alloc_keeps inOrder_lasting selector r))
  | giveUp => exact keeps_map giveUp_keeps
  | adopt mutator object =>
    refine keeps_get_bind fun h => ?_
    dsimp only
    split
    · exact adoptNew_keeps _ object
    · exact keeps_throw _
  | store mutator object place target => exact store_keeps mutator object place target
  | write memory roots => exact keeps_modify fun _ ordered => ordered.congr rfl rfl rfl
  | demand space spaceFull byUser => exact demandCollection_keeps space spaceFull byUser
  | drop => exact keeps_modify fun _ ordered => ordered.congr rfl rfl rfl
  | poll spaceFull space => exact keeps_map (poll_keeps spaceFull space)
  | requireFull => exact requireFull_keeps
  | setEmergency on => exact setEmergency_keeps on
  | disable => exact keeps_modify fun _ ordered => ordered.congr rfl rfl rfl

/-- A collector that breaks off does not stop the crew. -/
theorem stepOf_moves (index : Nat) (s : Crew × Heap) : ∃ b t, Crew.stepOf index s = .ok b t ∧ Moves s t := by
  obtain ⟨c, h⟩ := s
  have total : ∃ b t, Crew.stepOf index (c, h) = .ok b t := by
    unfold Crew.stepOf
    dsimp only
    cases Worker.step ((Crew.workerPart index).get c, ((Crew.workerPart index).set c default).rendezvous, h) with
    | ok b t => exact ⟨_, _, rfl⟩
    | error e t => exact ⟨_, _, rfl⟩
  obtain ⟨b, t, ok⟩ := total
  exact ⟨b, t, ok, index, (left_ok ok).symm⟩

theorem stepFirst_moves (indices : List Nat) (s : Crew × Heap) :
    ∃ b t, Crew.stepFirst indices s = .ok b t ∧ Relation.ReflTransGen Moves s t := by
  induction indices generalizing s with
  | nil => exact ⟨false, s, rfl, .refl⟩
  | cons index rest ih =>
    obtain ⟨b, t, ok, move⟩ := stepOf_moves index s
    cases b with
    | true => exact ⟨true, t, bind_ok.mpr ⟨true, t, ok, rfl⟩, .single move⟩
    | false =>
      obtain ⟨b', t', ok', moves⟩ := ih t
      exact ⟨b', t', bind_ok.mpr ⟨false, t, ok, ok'⟩, .head move moves⟩

theorem run_moves (fuel : Nat) (s : Crew × Heap) : ∃ t, Crew.run fuel s = .ok () t ∧ Relation.ReflTransGen Moves s t := by
  induction fuel generalizing s with
  | zero => exact ⟨s, rfl, .refl⟩
  | succ fuel ih =>
    obtain ⟨b, t, ok, moves⟩ := stepFirst_moves (List.range s.1.workers.size) s
    cases b with
    | true =>
      obtain ⟨t', ok', moves'⟩ := ih t
      exact ⟨t', bind_ok.mpr ⟨s, s, rfl, bind_ok.mpr ⟨true, t, ok, ok'⟩⟩, moves.trans moves'⟩
    | false => exact ⟨t, bind_ok.mpr ⟨s, s, rfl, bind_ok.mpr ⟨false, t, ok, rfl⟩⟩, moves⟩

theorem Reachable.operation (op : Operation) : Keeps Reachable op.step := fun _ before => before.operated op

theorem left_map {σ α β : Type} {x : Step σ α} {f : α → β} {s : σ} : (f <$> x).left s = x.left s := by
  have mapped : (f <$> x) s = EStateM.map f x s := rfl
  rw [left, left, mapped, EStateM.map]
  cases x s with
  | ok a t => rfl
  | error e t => rfl

/-- An operation whose answer is left out. -/
theorem Reachable.discarded {α : Type} {x : Step Heap α} (keeps : Keeps Reachable (discard x)) : Keeps Reachable x :=
  fun h before => left_map (f := fun _ => PUnit.unit) ▸ keeps h before

/-- A collection is run by its crew, and ends as the crew does. -/
theorem runCollection_left (h : Heap) (group : Array Collector) :
    ((runCollection group).onFault fun h => { h with disabled := true }).left h = { h with disabled := true } ∨
      ∃ c h', Relation.ReflTransGen Moves (.ofCollectors group, h.stopped) (c, h') ∧
        ((runCollection group).onFault fun h => { h with disabled := true }).left h = h'.resumed c := by
  cases counted : h.pagesUsed with
  | error e =>
    left
    simp only [left, Step.onFault, runCollection, ask, counted, bind, EStateM.bind]
  | ok used =>
    right
    obtain ⟨⟨c, h'⟩, ran, moves⟩ := run_moves Collector.enoughSteps (.ofCollectors group, h.stopped)
    refine ⟨c, h', moves, ?_⟩
    have collected : collectWith group h.stopped = .ok (c.collectors, c.outcome) h' := by rw [collectWith, ran]
    have asked : ask pagesUsed h = .ok used h := by simp only [ask, counted]
    have stops : ∀ g : Heap → Heap, (modify g : Step Heap PUnit) h = .ok ⟨⟩ (g h) := fun _ => rfl
    unfold stopped at collected
    unfold resumed
    simp only [left, Step.onFault, runCollection, asked, stops, bind, EStateM.bind, collected]
    cases c.outcome with
    | ok _ => rfl
    | error e => rfl

/-- A collection in the order in which the heap has the collectors take their steps. -/
theorem Reachable.collect : Keeps Reachable collect := by
  refine keeps_get_bind_of fun h before => ?_
  cases disabled : h.disabled with
  | true => exact before
  | false =>
    cases wanted : h.demand.wanted with
    | false => exact before
    | true =>
      cases there : h.collectors with
      | none => exact before.operated .drop
      | some group =>
        rcases runCollection_left h group with same | ⟨c, h', moves, same⟩
        · change Reachable (((runCollection group).onFault fun h => { h with disabled := true }).left h)
          rw [same]
          exact before.operated .disable
        · change Reachable (((runCollection group).onFault fun h => { h with disabled := true }).left h)
          rw [same]
          exact before.collected there moves

theorem Reachable.allocWith (index : Nat) (selector : AllocatorSelector) (r : Request) (limit : Nat) (again : Bool) :
    Keeps Reachable (allocWith index selector r limit again) := by
  have attempt : Keeps Reachable (withAllocators index (AllocatorSet.alloc selector r)) :=
    .discarded (.operation (.attempt index selector r))
  induction limit generalizing again with
  | zero =>
    unfold Heap.allocWith
    refine keeps_bind attempt fun start => ?_
    split
    · exact keeps_pure _
    · exact keeps_get_bind fun _ => keeps_ite (keeps_pure _) (.discarded (.operation .giveUp))
  | succ limit ih =>
    unfold Heap.allocWith
    refine keeps_bind attempt fun start => ?_
    split
    · exact keeps_pure _
    · refine keeps_get_bind fun _ => keeps_ite (keeps_pure _) ?_
      exact keeps_ite (keeps_bind (.operation (.setEmergency true)) fun _ => keeps_bind .collect fun _ => ih true)
        (keeps_bind .collect fun _ => ih true)

theorem Reachable.alloc (index : Nat) (r : Request) (semantics : AllocSemantics) : Keeps Reachable (alloc index r semantics) :=
  keeps_bind (keeps_ask _) fun _ => keeps_get_bind fun _ => .allocWith _ _ _ _ _

/-- The program changes what its objects hold. -/
theorem Reachable.written {h : Heap} (before : Reachable h) (m : Memory) : Reachable { h with memory := m } :=
  before.operated (.write m h.program.roots)

/-- What allocates an object, as the program does it. -/
theorem Reachable.newObject (mutator : Nat) (bytes slots : Word) (semantics : AllocSemantics) :
    Keeps Reachable (newObject mutator bytes slots semantics) := by
  refine keeps_bind (keeps_lift _) fun _ => keeps_bind (keeps_ensure _ _) fun _ => keeps_bind (.alloc _ _ _) fun object => ?_
  split
  · exact keeps_pure _
  · exact keeps_bind (keeps_modify fun h before => before.written _) fun _ =>
      keeps_bind (.operation (.adopt mutator _)) fun _ => keeps_pure _

theorem Reachable.writeSlot (mutator : Nat) (object : Address) (index : Word) (target : Address) :
    Keeps Reachable (writeSlot mutator object index target) :=
  keeps_bind (keeps_ask _) fun place => .operation (.store mutator object place target)

theorem Reachable.requestCollection : Keeps Reachable requestCollection :=
  keeps_get_bind fun _ => keeps_ite (keeps_pure _) (keeps_bind (.operation (.demand none false true)) fun _ => .collect)

/-- A heap of the initial settings, as it is laid out. -/
def firstHeap : Heap :=
  match create (.initial 1) false with
  | .ok (.ok h) => h
  | _ => default

theorem firstHeap_created : create (.initial 1) false = .ok (.ok firstHeap) := rfl

/-- The same heap, with collections enabled. -/
def firstStarted : Heap := Operation.start.step.left firstHeap

end Heap

end TracingHeap
