import Mathlib.Data.Set.Insert
import TracingHeap.Proofs.Reaches
import TracingHeap.Proofs.Survivors

/-! Programs at work. A world is a heap with what its program has of it: the memory that it was given and that no
collection has reclaimed, and the objects that it may name. A program names what it made since the last collection,
and what its roots led to after that; it stores references through the barrier, and otherwise writes only into
payloads and into memory that is no object yet. Collections take place at any point, with the collectors in any
order. -/

namespace TracingHeap

open Memory Relation

namespace Heap

/-- The objects that the roots lead to. -/
inductive Leads (h : Heap) : Address → Prop where
  | root {a : Address} (member : a ∈ h.program.roots) (proper : a ≠ .null) : Leads h a
  | field {o a : Address} {i : Nat} (source : Leads h o) (inside : i < h.memory.fields o) (holds : h.memory.field o i = a)
    (proper : a ≠ .null) : Leads h a

/-- A heap in whose memory an object was laid out, with every field null. -/
def shaped (h : Heap) (object : Address) (bytes slots : Word) : Heap :=
  { h with memory := clearSlots (h.memory.setHeader object bytes slots) object slots.toNat }

end Heap

/-- A byte that the program may write to as it likes: one of memory that no object was made of, or one of a payload. -/
def Tenant.Exposes (t : Tenant) (m : Memory) (n : Nat) : Prop :=
  (if t.isObject then t.start.toNat + 8 + 8 * m.fields t.start else t.start.toNat) ≤ n ∧ n < t.start.toNat + t.bytes

/-- A heap, the memory in use, the objects that the program may name, and those that it made since the last collection. -/
structure World where
  heap : Heap
  tenants : Set Tenant
  named : Set Address
  recent : Set Address

namespace World

/-- What the program and its threads do, and collections. -/
inductive Step : World → World → Prop where
  | start {w : World} {h : Heap} (ok : Heap.start w.heap = .ok () h) : Step w { w with heap := h }
  | bind {w : World} {h : Heap} (thread : Address) (ok : Heap.bindMutator thread w.heap = .ok () h) :
    Step w { w with heap := h }
  | destroy {w : World} {h : Heap} {i : Nat} (inside : i < w.heap.program.mutators.size)
    (ok : Heap.destroyMutator i w.heap = .ok () h) : Step w { w with heap := h }
  | flush {w : World} {h : Heap} {i : Nat} (inside : i < w.heap.program.mutators.size)
    (ok : Heap.flush i w.heap = .ok () h) : Step w { w with heap := h }
  /-- A request is served. -/
  | served {w : World} {h : Heap} {i : Nat} {r : Request} {semantics : AllocSemantics} {selector : AllocatorSelector}
    {id : SpaceId} {a : Address} (inside : i < w.heap.program.mutators.size)
    (routed : w.heap.route r semantics = .ok selector)
    (bound : (selector, id) ∈ Mutator.bindings w.heap.current w.heap.plan)
    (ok : Heap.withAllocators i (AllocatorSet.alloc selector r) w.heap = .ok (some a) h) :
    Step w { w with heap := h, tenants := insert ⟨a, r.bytes.toNat, id, false⟩ w.tenants }
  | refused {w : World} {h : Heap} {i : Nat} {r : Request} {semantics : AllocSemantics} {selector : AllocatorSelector}
    (inside : i < w.heap.program.mutators.size) (routed : w.heap.route r semantics = .ok selector)
    (ok : Heap.withAllocators i (AllocatorSet.alloc selector r) w.heap = .ok none h) : Step w { w with heap := h }
  /-- An object is made of memory that the program was given. -/
  | made {w : World} {h : Heap} {i : Nat} {t : Tenant} {bytes slots least : Word}
    (inside : i < w.heap.program.mutators.size) (member : t ∈ w.tenants) (raw : t.isObject = false)
    (proper : t.start ≠ .null) (size : bytes.toNat = t.bytes) (needs : Object.bytesFor slots = .ok least)
    (fits : least ≤ bytes) (ok : Heap.adoptAllocated i t.start (w.heap.shaped t.start bytes slots) = .ok () h) :
    Step w ⟨h, insert { t with isObject := true } (w.tenants \ {t}), insert t.start w.named, insert t.start w.recent⟩
  /-- A reference is stored through the barrier. -/
  | stored {w : World} {h : Heap} {i : Nat} {object target : Address} {index : Word}
    (inside : i < w.heap.program.mutators.size) (source : object ∈ w.named) (goal : target = .null ∨ target ∈ w.named)
    (ok : Heap.writeSlot i object index target w.heap = .ok () h) : Step w { w with heap := h }
  | filled {w : World} {m : Memory} {t : Tenant} (member : t ∈ w.tenants)
    (exposed : ∀ n, m.byte n ≠ w.heap.memory.byte n → t.Exposes w.heap.memory n) :
    Step w { w with heap := { w.heap with memory := m } }
  | rooted {w : World} {roots : Array Address} (named : ∀ a ∈ roots, a = .null ∨ a ∈ w.named) :
    Step w { w with heap := { w.heap with program.roots := roots } }
  /-- Collections are asked for, shortages reported, and so on. -/
  | noted {w : World} (demand : Demand) (nextFull disabled : Bool) (shortages : Array Shortage) :
    Step w { w with heap := { w.heap with demand, disabled, scope.nextFull := nextFull, program.shortages := shortages } }
  /-- A collection completes: as the closure is over, it is decided what becomes of memory. -/
  | collected {w : World} {group : Array Collector} {c c' : Crew} {h h' : Heap} (there : w.heap.collectors = some group)
    (closure : Crew.Run (.ofCollectors group, w.heap.stopped) (c, h)) (traced : c.HasTraced)
    (rest : Crew.Run (c, h) (c', h')) (complete : c'.isOver = true) :
    Step w ⟨h'.resumed c', {t | ∃ s ∈ w.tenants, h.fate s = some t}, {a | h'.Leads a}, ∅⟩

/-- The worlds that a program can get to. -/
inductive Reachable : World → Prop where
  | created {settings : Settings} {breaksOff : Bool} {h : Heap} (ok : Heap.create settings breaksOff = .ok (.ok h)) :
    Reachable ⟨h, ∅, ∅, ∅⟩
  | step {w w' : World} (before : Reachable w) (step : Step w w') : Reachable w'

end World

namespace Heap

/-- The collectors of the heap, if there are any. -/
def team (h : Heap) : List Collector := (h.collectors.getD #[]).toList

/-- Collections can be carried out: there are as many collectors as the settings say, and each knows its number. -/
def Manned (h : Heap) : Prop :=
  ∀ group, h.collectors = some group → 0 < group.size ∧ h.settings.threads.toNat = group.size ∧
    ∀ i, (inside : i < group.size) → group[i].ordinal = i

end Heap

/-- The invariant of a program at work: every piece of memory in use has its place in the heap, and what the program
names are objects that the next collection can trace. -/
structure World.Sound (w : World) (pieces objects : List Piece) : Prop where
  quiet : Quiet w.heap w.heap.team pieces
  knows : Knows w.heap pieces objects
  logged : Logged w.heap pieces
  manned : w.heap.Manned
  charted : w.heap.spaces.Charted w.heap.layout
  tags : ∀ id, (w.heap.spaces.space id).extent.tag = id.tag
  modest : ∀ p ∈ pieces, ∀ x, w.heap.spaces.space p.home = .copying x → p.bytes ≤ 8192
  tenants : ∀ t, t ∈ w.tenants ↔ ∃ p ∈ pieces, p.tenant = t
  named : ∀ a, a ∈ w.named ↔ ∃ o ∈ objects, o.start = a
  recent : ∀ p ∈ pieces, p.isObject = true → p.home = .large →
    (p.start ∈ w.heap.spaces.large.treadmill.fresh ↔ p.start ∈ w.recent)
  exact : w.heap.spaces.excess = (0, 0)
  occupied : w.heap.spaces.Occupied (pieces.map Piece.held)

/-- Steps of a crew in which nobody has broken off. -/
theorem Crew.Run.of_moves {s t : Crew × Heap} (moves : ReflTransGen Heap.Moves s t) (calm : t.1.fault = none) : Crew.Run s t := by
  induction moves with
  | refl => exact .refl _
  | @tail t _ _ move ih =>
    obtain ⟨index, rfl⟩ := move
    obtain ⟨b, u, ok, -⟩ := Heap.stepOf_moves index t
    rw [Step.left_ok ok] at calm ⊢
    exact .step (ih (Crew.stepOf_ok ok calm).1) ok calm

/-! ### A first program

A thread in a heap of the initial settings. It has allocated two objects of the nursery, one of the mature store and a large
one. The large one refers to the first of the nursery and is the only root. -/

namespace World

/-- A request that is served is followed by the object that is made of its memory. -/
theorem Reachable.allocated {w : World} {h h' : Heap} {i : Nat} {r : Request} {semantics : AllocSemantics}
    {selector : AllocatorSelector} {id : SpaceId} {a : Address} {slots least : Word} (reachable : w.Reachable)
    (inside : i < w.heap.program.mutators.size) (routed : w.heap.route r semantics = .ok selector)
    (bound : (selector, id) ∈ Mutator.bindings w.heap.current w.heap.plan)
    (served : Heap.withAllocators i (AllocatorSet.alloc selector r) w.heap = .ok (some a) h)
    (inside' : i < h.program.mutators.size) (proper : a ≠ .null) (needs : Object.bytesFor slots = .ok least)
    (fits : least ≤ r.bytes) (adopted : Heap.adoptAllocated i a (h.shaped a r.bytes slots) = .ok () h') :
    Reachable ⟨h', insert ⟨a, r.bytes.toNat, id, true⟩ (insert ⟨a, r.bytes.toNat, id, false⟩ w.tenants \ {⟨a, r.bytes.toNat, id, false⟩}),
      insert a w.named, insert a w.recent⟩ := by
  have given : Reachable ⟨h, insert ⟨a, r.bytes.toNat, id, false⟩ w.tenants, w.named, w.recent⟩ :=
    reachable.step (.served inside routed bound served)
  exact given.step (@Step.made ⟨h, insert ⟨a, r.bytes.toNat, id, false⟩ w.tenants, w.named, w.recent⟩ h' i
    ⟨a, r.bytes.toNat, id, false⟩ r.bytes slots least inside' (Set.mem_insert _ _) rfl proper rfl needs fits adopted)

/-- The world in which a thread has allocated an object and laid it out. -/
def allotting (w : World) (i : Nat) (r : Request) (selector : AllocatorSelector) (id : SpaceId) (a : Address) (slots : Word) : World :=
  ⟨(Heap.adoptAllocated i a).left (((Heap.withAllocators i (AllocatorSet.alloc selector r)).left w.heap).shaped a r.bytes slots),
    insert ⟨a, r.bytes.toNat, id, true⟩ (insert ⟨a, r.bytes.toNat, id, false⟩ w.tenants \ {⟨a, r.bytes.toNat, id, false⟩}),
    insert a w.named, insert a w.recent⟩

theorem allotting_tenants (w : World) (i : Nat) (r : Request) (selector : AllocatorSelector) (id : SpaceId) (a : Address) (slots : Word)
    (bytes : Nat) (size : r.bytes.toNat = bytes) (made : ∀ t ∈ w.tenants, t.isObject = true) :
    (w.allotting i r selector id a slots).tenants = insert ⟨a, bytes, id, true⟩ w.tenants := by
  subst size
  refine Set.ext fun t => or_congr_right ⟨fun ⟨member, other⟩ => member.resolve_left other, fun member => ⟨.inr member, ?_⟩⟩
  rintro rfl
  exact Bool.noConfusion (made _ member)

theorem Reachable.allots {w : World} {i : Nat} {r : Request} {selector : AllocatorSelector} {id : SpaceId} {a : Address} {slots least : Word}
    {large : Bool} (reachable : w.Reachable) (semantics : AllocSemantics) (inside : i < w.heap.program.mutators.size)
    (judged : r.isLarge = .ok large) (chosen : Mutator.selector w.heap.plan (if large then .large else semantics) = selector)
    (bound : (selector, id) ∈ Mutator.bindings w.heap.current w.heap.plan)
    (served : (Heap.withAllocators i (AllocatorSet.alloc selector r)).answer w.heap = some (some a))
    (inside' : i < ((Heap.withAllocators i (AllocatorSet.alloc selector r)).left w.heap).program.mutators.size)
    (proper : a ≠ .null) (needs : Object.bytesFor slots = .ok least) (fits : least ≤ r.bytes)
    (adopted : (Heap.adoptAllocated i a).answer
      (((Heap.withAllocators i (AllocatorSet.alloc selector r)).left w.heap).shaped a r.bytes slots) = some ()) :
    (w.allotting i r selector id a slots).Reachable := by
  have routed : w.heap.route r semantics = .ok selector := by
    rw [Heap.route, judged, ← chosen]
    rfl
  exact reachable.allocated inside routed bound (Step.answer_ok served) inside' proper needs fits (Step.answer_ok adopted)

/-- Where the objects of the first program are. -/
def youngAt : Address := ⟨139637955756032⟩
def deadAt : Address := ⟨139637955757056⟩
def matureAt : Address := ⟨139637884452864⟩
def largeAt : Address := ⟨139637804761088⟩

/-- The program before it has allocated anything. -/
def bound : World := ⟨(Heap.bindMutator ⟨8⟩).left Heap.firstStarted, ∅, ∅, ∅⟩

def withYoung : World := bound.allotting 0 ⟨1024, 8, 0⟩ (.bump 0) .first youngAt 1
def withDead : World := withYoung.allotting 0 ⟨16, 8, 0⟩ (.bump 0) .first deadAt 0
def withMature : World := withDead.allotting 0 ⟨1024, 8, 0⟩ (.cells 0) .second matureAt 1
def withLarge : World := withMature.allotting 0 ⟨12288, 8, 0⟩ (.large 0) .large largeAt 1

/-- The program once the large object refers to the young one. -/
def linked : World := { withLarge with heap := (Heap.writeSlot 0 largeAt 0 youngAt).left withLarge.heap }

/-- The first program. -/
def sample : World := { linked with heap := { linked.heap with program.roots := #[largeAt, .null] } }

theorem sample_reachable : sample.Reachable := by
  have started := (Reachable.created Heap.firstHeap_created).step (.start (Step.answer_ok (a := ()) (by decide +kernel)))
  have bound : bound.Reachable := started.step (.bind ⟨8⟩ (Step.answer_ok (a := ()) (by decide +kernel)))
  have young : withYoung.Reachable := bound.allots .ordinary (by decide +kernel) rfl (by decide +kernel)
    (by decide +kernel) (by decide +kernel) (by decide +kernel) (by decide) rfl (by decide) (by decide +kernel)
  have dead : withDead.Reachable := young.allots .ordinary (by decide +kernel) rfl (by decide +kernel)
    (by decide +kernel) (by decide +kernel) (by decide +kernel) (by decide) rfl (by decide) (by decide +kernel)
  have mature : withMature.Reachable := dead.allots .mature (by decide +kernel) rfl (by decide +kernel)
    (by decide +kernel) (by decide +kernel) (by decide +kernel) (by decide) rfl (by decide) (by decide +kernel)
  have large : withLarge.Reachable := mature.allots .large (by decide +kernel) rfl (by decide +kernel)
    (by decide +kernel) (by decide +kernel) (by decide +kernel) (by decide) rfl (by decide) (by decide +kernel)
  have stored : linked.Reachable := large.step (.stored (by decide +kernel) (Set.mem_insert _ _)
    (.inr (by simp [withLarge, withMature, withDead, withYoung, allotting])) (Step.answer_ok (by decide +kernel)))
  refine stored.step (.rooted fun a member => ?_)
  rcases (by simpa using member : a = largeAt ∨ a = .null) with rfl | rfl
  · exact .inr (Set.mem_insert _ _)
  · exact .inl rfl

/-- What the first program has allocated. -/
theorem sample_tenants : sample.tenants = {⟨largeAt, 12288, .large, true⟩, ⟨matureAt, 1024, .second, true⟩,
    ⟨deadAt, 16, .first, true⟩, ⟨youngAt, 1024, .first, true⟩} := by
  have young : withYoung.tenants = {⟨youngAt, 1024, .first, true⟩} :=
    (allotting_tenants bound _ _ _ _ _ _ 1024 (by decide) (by simp [bound])).trans (by simp [bound])
  have dead : withDead.tenants = {⟨deadAt, 16, .first, true⟩, ⟨youngAt, 1024, .first, true⟩} :=
    (allotting_tenants withYoung _ _ _ _ _ _ 16 (by decide) (by simp [young])).trans (by rw [young])
  have mature : withMature.tenants = {⟨matureAt, 1024, .second, true⟩, ⟨deadAt, 16, .first, true⟩, ⟨youngAt, 1024, .first, true⟩} :=
    (allotting_tenants withDead _ _ _ _ _ _ 1024 (by decide) (by simp [dead])).trans (by rw [dead])
  have large : withLarge.tenants = insert ⟨largeAt, 12288, .large, true⟩ withMature.tenants :=
    allotting_tenants withMature 0 ⟨12288, 8, 0⟩ (.large 0) .large largeAt 1 12288 rfl (by simp [mature])
  change withLarge.tenants = _
  rw [large, mature]
/-! The only collector of the first program takes one step after the other. -/

/-- A collection after a number of rounds. -/
def rounds (w : World) (n : Nat) : Crew × Heap := (Crew.run n).left (.ofCollectors (w.heap.collectors.getD #[]), w.heap.stopped)

theorem rounds_run (w : World) (n : Nat) (calm : (w.rounds n).1.fault = none) :
    Crew.Run (.ofCollectors (w.heap.collectors.getD #[]), w.heap.stopped) (w.rounds n) := by
  obtain ⟨t, ran, moves⟩ := Heap.run_moves n (.ofCollectors (w.heap.collectors.getD #[]), w.heap.stopped)
  have same : w.rounds n = t := Step.left_ok ran
  rw [same] at calm ⊢
  exact .of_moves moves calm

/-- The collection is carried out: the closure starts after five steps and is over after nineteen, the collection after
twenty-two. One object is copied and one is marked. -/
theorem sample_collects : sample.heap.collectors.isSome = true ∧
    (sample.rounds 19).1.fault.isNone = true ∧
    ((sample.rounds 19).1.workers.all fun w => w.phases == phasesFrom 5 &&
      match w.activity with
      | .starting => true
      | _ => false) = true ∧
    (sample.rounds 22).1.fault.isNone = true ∧ (sample.rounds 22).1.isOver = true ∧
    (sample.rounds 5).1.fault.isNone = true ∧ (sample.rounds 5).1.workers.toList.map Worker.share? = [some .new] ∧
    (sample.rounds 19).2.tally = ⟨0, 0, 1, 1024, 1, 0⟩ ∧ sample.heap.tally = .empty := by decide +kernel

theorem sample_manned : sample.heap.collectors = some (sample.heap.collectors.getD #[]) := by
  obtain ⟨group, there⟩ := Option.isSome_iff_exists.mp sample_collects.1
  rw [there, Option.getD_some]

theorem sample_closes : Crew.Run (.ofCollectors (sample.heap.collectors.getD #[]), sample.heap.stopped) (sample.rounds 19) :=
  sample.rounds_run 19 (Option.isNone_iff_eq_none.mp sample_collects.2.1)

theorem sample_traced : (sample.rounds 19).1.HasTraced := by
  intro w member
  obtain ⟨i, inside, rfl⟩ := Array.mem_iff_getElem.mp member
  have here := Array.all_eq_true.mp sample_collects.2.2.1 i inside
  rw [Bool.and_eq_true, beq_iff_eq] at here
  refine .inr ⟨here.1, ?_⟩
  cases activity : (sample.rounds 19).1.workers[i].activity with
  | starting => rfl
  | _ => simp [activity] at here

theorem sample_run : Crew.Run (.ofCollectors (sample.heap.collectors.getD #[]), sample.heap.stopped) (sample.rounds 22) :=
  sample.rounds_run 22 (Option.isNone_iff_eq_none.mp sample_collects.2.2.2.1)

theorem sample_opens : Crew.Run (.ofCollectors (sample.heap.collectors.getD #[]), sample.heap.stopped) (sample.rounds 5) :=
  sample.rounds_run 5 (Option.isNone_iff_eq_none.mp sample_collects.2.2.2.2.2.1)

/-- The only collector has just begun the closure. -/
theorem sample_shares : (sample.rounds 5).1.workers.toList.map Worker.share? = [some .new] := sample_collects.2.2.2.2.2.2.1

theorem sample_tally : (sample.rounds 19).2.tally = ⟨0, 0, 1, 1024, 1, 0⟩ ∧ sample.heap.tally = .empty :=
  sample_collects.2.2.2.2.2.2.2

theorem sample_over : (sample.rounds 22).1.isOver = true := sample_collects.2.2.2.2.1

end World

end TracingHeap
