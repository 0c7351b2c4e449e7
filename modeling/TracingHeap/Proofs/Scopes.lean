import TracingHeap.Proofs.Cycles
import TracingHeap.Proofs.Incidents

/-! What collections cover. In a generational heap it is decided at the start of a collection whether it covers the whole heap
or the nursery alone, from what has happened since the collection before it and from how much room that one left. -/

namespace TracingHeap

open Incident

variable {w w' : World} {pieces objects : List Piece} {group : Array Collector} {c c' : Crew} {h h' : Heap} {short : Bool}
  {es : List Incident}

/-- A run ends without a fault if it starts without one. -/
theorem Crew.Run.calm {s t : Crew × Heap} (run : Run s t) (calm : s.1.fault = none) : t.1.fault = none := by
  cases run with
  | refl => exact calm
  | step _ _ calm => exact calm

/-- A collection covers what the heap wants at its start; at its end it is decided whether there is room for a nursery. -/
theorem World.Sound.covers (sound : w.Sound pieces objects) (generational : w.heap.plan = .generational)
    (there : w.heap.collectors = some group) (closure : Crew.Run (.ofCollectors group, w.heap.stopped) (c, h))
    (traced : c.HasTraced) (rest : Crew.Run (c, h) (c', h')) (complete : c'.isOver = true) :
    w.heap.wantsFull = .ok h'.lastFull ∧ ∃ available nursery, h'.pagesAvailable = .ok available ∧
      h'.settings.maxNurseryPages = .ok nursery ∧ h'.scope.nextFull = decide (available < nursery) := by
  obtain ⟨h₁, pieces', kept, full, cycle, -⟩ := sound.cycle there closure traced rest complete
  obtain ⟨cs₁, opened⟩ := cycle.traced.opened
  have plan : h.plan = .generational := cycle.traced.plan.trans generational
  have covered : h'.lastFull = full := by
    rw [Heap.lastFull, cycle.plan.trans generational, ← cycle.traced.scope_full plan]
    obtain ⟨spaces, memory, nextFull, rfl⟩ := cycle.released.heap
    rfl
  refine ⟨?_, cycle.released.room plan⟩
  rw [covered]
  exact opened.kind generational

/-- Resuming the threads after a collection that succeeded meets every demand. -/
theorem Heap.resumed_met (calm : c.fault = none) (complete : c.isOver = true) :
    (h.resumed c).demand = { h.demand.met h.lastFull with collecting := false } ∧ (h.resumed c).scope = h.scope := by
  have ended : c.outcome = .ok () := by
    rw [Crew.outcome, calm]
    exact if_pos complete
  unfold resumed
  rw [ended]
  exact ⟨rfl, rfl⟩

namespace World

/-- A program at work, with what has happened since the last collection; `short` says whether this one left too little room
for a nursery. -/
inductive Recalls : World → Bool → List Incident → Prop where
  | created {settings : Settings} {breaksOff : Bool} {h : Heap} (ok : Heap.create settings breaksOff = .ok (.ok h)) :
    Recalls ⟨h, ∅, ∅, ∅⟩ false []
  | acts {w w' : World} {short : Bool} {es es' : List Incident} (before : Recalls w short es) (step : Step w w')
    (notes : w.heap.Notes es' w'.heap) : Recalls w' short (es ++ es')
  | collected {w : World} {short : Bool} {es : List Incident} {group : Array Collector} {c c' : Crew} {h h' : Heap}
    {available nursery : Word} (before : Recalls w short es) (generational : w.heap.plan = .generational)
    (there : w.heap.collectors = some group) (closure : Crew.Run (.ofCollectors group, w.heap.stopped) (c, h))
    (traced : c.HasTraced) (rest : Crew.Run (c, h) (c', h')) (complete : c'.isOver = true)
    (left : h'.pagesAvailable = .ok available) (limit : h'.settings.maxNurseryPages = .ok nursery) :
    Recalls ⟨h'.resumed c', {t | ∃ s ∈ w.tenants, h.fate s = some t}, {a | h'.Leads a}, ∅⟩ (decide (available < nursery)) []

theorem Recalls.reachable (recalls : w.Recalls short es) : w.Reachable := by
  induction recalls with
  | created ok => exact .created ok
  | acts _ step _ ih => exact ih.step step
  | collected _ _ there closure traced rest complete _ _ ih => exact ih.step (.collected there closure traced rest complete)

/-- What an operation does can be recalled. -/
theorem Recalls.operated {op : Heap.Operation} (recalls : w.Recalls short es) (step : Step w w')
    (did : w'.heap = op.step.left w.heap) : ∃ es', w'.Recalls short (es ++ es') := by
  obtain ⟨es', notes⟩ := op.noted w.heap ⟨[], .start⟩
  exact ⟨es', recalls.acts step (did ▸ notes)⟩

/-- The program may ask at any time whether a collection is due. -/
theorem Recalls.polled (recalls : w.Recalls short es) (spaceFull : Bool) (space : Option SpaceId) :
    Recalls { w with heap := (Heap.poll spaceFull space).left w.heap } short (es ++ [w.heap.polling spaceFull space]) := by
  refine recalls.acts ?_ (Heap.Notes.start.polled spaceFull space)
  rw [Heap.poll_left]
  exact .noted _ _ w.heap.disabled w.heap.program.shortages

/-- It may ask for a collection as well. -/
theorem Recalls.demanded (recalls : w.Recalls short es) (space : Option SpaceId) (spaceFull byUser : Bool) :
    Recalls { w with heap := (Heap.demandCollection space spaceFull byUser).left w.heap } short
      (es ++ [.demanded space spaceFull byUser]) :=
  recalls.acts (.noted _ w.heap.scope.nextFull w.heap.disabled w.heap.program.shortages) (Heap.Notes.start.demanded space spaceFull byUser)

/-- A collection starts over. -/
theorem Recalls.starts_over (recalls : w.Recalls short es) (generational : w.heap.plan = .generational)
    (there : w.heap.collectors = some group) (closure : Crew.Run (.ofCollectors group, w.heap.stopped) (c, h))
    (traced : c.HasTraced) (rest : Crew.Run (c, h) (c', h')) (complete : c'.isOver = true) :
    ∃ short', Recalls ⟨h'.resumed c', {t | ∃ s ∈ w.tenants, h.fate s = some t}, {a | h'.Leads a}, ∅⟩ short' [] := by
  obtain ⟨pieces, objects, sound⟩ := recalls.reachable.sound
  obtain ⟨-, available, nursery, left, limit, -⟩ := sound.covers generational there closure traced rest complete
  exact ⟨_, recalls.collected generational there closure traced rest complete left limit⟩

/-- The heap knows what has happened since the last collection. -/
theorem Recalls.heeds (recalls : w.Recalls short es) : w.heap.Heeds short es := by
  induction recalls with
  | created ok =>
    have founded := Heap.create_ok ok
    refine ⟨?_, ?_, fun _ _ first => (by cases first), ?_, ?_, ?_⟩
    all_goals simp only [founded.demand, founded.scope]
    all_goals rfl
  | acts _ _ notes ih => exact notes.heeds ih
  | collected before generational there closure traced rest complete left limit _ =>
    obtain ⟨pieces, objects, sound⟩ := before.reachable.sound
    obtain ⟨-, _, _, left', limit', next⟩ := sound.covers generational there closure traced rest complete
    cases left.symm.trans left'
    cases limit.symm.trans limit'
    obtain ⟨met, scope⟩ := Heap.resumed_met (rest.calm (closure.calm rfl)) complete
    refine ⟨?_, ?_, fun _ _ first => (by cases first), ?_, ?_, ?_⟩
    · rw [met]; rfl
    · rw [met]; rfl
    · rw [met]; rfl
    · rw [met]; rfl
    · rw [scope, next, List.any_nil, Bool.or_false]

/-- A collection covers the whole heap just if the program asked for that, or collections have failed to make room, or the last
collection left too little, or something has happened since then that forces it, or the first demand that stands is for a full
space other than the nursery, or no page is left. -/
theorem Recalls.covers_iff (recalls : w.Recalls short es) (generational : w.heap.plan = .generational)
    (there : w.heap.collectors = some group) (run : Crew.Run (.ofCollectors group, w.heap.stopped) (c', h'))
    (complete : c'.isOver = true) : h'.lastFull = true ↔ w.heap.Reason short es := by
  obtain ⟨pieces, objects, sound⟩ := recalls.reachable.sound
  obtain ⟨c, h, traced, closure, rest⟩ := sound.passes there run complete
  exact recalls.heeds.full_iff (sound.covers generational there closure traced rest complete).1

end World

end TracingHeap
