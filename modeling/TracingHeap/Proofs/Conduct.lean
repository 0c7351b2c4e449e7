import TracingHeap.Proofs.Maintenance

/-! The conduct of a heap: whatever the program, its threads and the collectors do, the sources of pages stay in
order, and collections are enabled only once spaces may ask for them. -/

namespace TracingHeap

open Pages Step

variable {α β : Type}

namespace Heap

/-- The sources of pages are in order, and spaces may ask for collections once these are enabled. -/
structure InOrder (h : Heap) : Prop where
  spaces : h.spaces.InOrder
  armed : h.demand.started = true → h.armed = true

variable {id : SpaceId}

/-- What does not touch the spaces and does not enable collections. -/
theorem InOrder.congr {h h' : Heap} (ordered : h.InOrder) (spaces : h'.spaces = h.spaces)
    (started : h'.demand.started = h.demand.started) (armed : h'.armed = h.armed) : h'.InOrder :=
  ⟨spaces ▸ ordered.spaces, fun now => armed ▸ ordered.armed (started ▸ now)⟩

theorem keeps_onSpaces {x : Step (Spaces × Memory) α} (inner : Keeps (fun s => s.1.InOrder) x) : Keeps InOrder (onSpaces x) :=
  keeps_onBoth inner (fun _ ordered => ordered.spaces) fun _ _ _ ordered kept => ⟨kept, ordered.armed⟩

theorem keeps_onCopying {x : Step (CopySpace × Memory) α} (inner : Keeps (fun s => s.1.pages.InOrder) x) :
    Keeps InOrder (onCopying id x) := keeps_onSpaces (Spaces.keeps_onCopying inner)

theorem keeps_onMature {x : Step (MarkSweepSpace × Memory) α} (inner : Keeps (fun s => s.1.pages.InOrder) x) :
    Keeps InOrder (onMature x) := keeps_onSpaces (Spaces.keeps_second (Spaces.keeps_onMature inner))

theorem keeps_onImmortal {x : Step (ImmortalSpace × Memory) α} (inner : Keeps (fun s => s.1.pages.InOrder) x) :
    Keeps InOrder (onImmortal x) :=
  keeps_onBoth inner (fun _ ordered => ordered.spaces.immortal) fun _ _ _ ordered kept =>
    ⟨{ ordered.spaces with immortal := kept }, ordered.armed⟩

theorem keeps_onLarge {x : Step (LargeSpace × Memory) α} (inner : Keeps (fun s => s.1.pages.InOrder) x) :
    Keeps InOrder (onLarge x) :=
  keeps_onBoth inner (fun _ ordered => ordered.spaces.large) fun _ _ _ ordered kept =>
    ⟨{ ordered.spaces with large := kept }, ordered.armed⟩

theorem keeps_onBacklog (x : Step (Work.Backlog Slot Address) α) : Keeps InOrder (Step.on backlogPart x) :=
  keeps_on_any x fun _ _ ordered => ordered.congr rfl rfl rfl

theorem keeps_onMutator (index : Nat) (x : Step Mutator α) : Keeps InOrder (onMutator index x) :=
  keeps_on_any x fun _ _ ordered => ordered.congr rfl rfl rfl

/-! ### Allocation -/

theorem report_keeps (shortage : Shortage) : Keeps InOrder (report shortage) :=
  keeps_bind (keeps_modify fun _ ordered => ordered.congr rfl rfl rfl) fun _ => keeps_get_bind fun _ => keeps_ensure _ _

theorem demandCollection_keeps (space : Option SpaceId) (spaceFull byUser : Bool) :
    Keeps InOrder (demandCollection space spaceFull byUser) := by
  refine keeps_modify fun h ordered => ordered.congr rfl ?_ rfl
  unfold Demand.request
  cases h.demand.wanted <;> cases byUser <;> rfl

theorem requireFull_keeps : Keeps InOrder requireFull := keeps_modify fun _ ordered => ordered.congr rfl rfl rfl

theorem setEmergency_keeps (on : Bool) : Keeps InOrder (setEmergency on) := keeps_modify fun _ ordered => ordered.congr rfl rfl rfl

theorem collectionDue_keeps (spaceFull : Bool) (space : Option SpaceId) : Keeps InOrder (collectionDue spaceFull space) := by
  have exceeded : Keeps InOrder (do let exceeded ← Step.ask overBudget; return spaceFull || exceeded) :=
    keeps_bind (keeps_ask _) fun _ => keeps_pure _
  refine keeps_get_bind fun h => ?_
  dsimp only
  split
  · refine keeps_bind (keeps_lift _) fun _ => keeps_ite (keeps_pure _) ?_
    exact keeps_ite (keeps_bind requireFull_keeps fun _ => exceeded) exceeded
  · exact exceeded

theorem poll_keeps (spaceFull : Bool) (space : Option SpaceId) : Keeps InOrder (poll spaceFull space) := by
  refine keeps_get_bind fun h => keeps_ite (keeps_pure _) (keeps_bind (collectionDue_keeps _ _) fun due => ?_)
  exact keeps_ite (keeps_bind (demandCollection_keeps _ _ _) fun _ => keeps_pure _) (keeps_pure _)

/-- What lasts through requests for memory, whatever they come to. -/
structure Lasting (I : Heap → Prop) : Prop where
  memory : ∀ h m, I h → I { h with memory := m }
  ledger : ∀ id x, Keeps I (onSpaces (Spaces.onLedger id x : Step (Spaces × Memory) Unit))
  take : ∀ id pages bytes, Keeps I (onSpaces (Spaces.take id pages bytes))
  available : ∀ sizeClass, Keeps I (onMature (Step.on Focus.fst (MarkSweepSpace.takeAvailable sizeClass)))
  install : ∀ start sizeClass, Keeps I (onMature (MarkSweepSpace.install start sizeClass))
  poll : ∀ spaceFull space, Keeps I (poll spaceFull space)
  report : ∀ shortage, Keeps I (report shortage)

theorem inOrder_lasting : Lasting InOrder where
  memory _ _ ordered := ordered.congr rfl rfl rfl
  ledger _ x := keeps_onSpaces (Spaces.keeps_onLedger x)
  take _ _ _ := keeps_onSpaces (Spaces.keeps_take _ _)
  available _ := keeps_onMature (keeps_fst (MarkSweepSpace.takeAvailable_keeps _))
  install _ _ := keeps_onMature (MarkSweepSpace.install_keeps _ _)
  poll := poll_keeps
  report := report_keeps

variable {I : Heap → Prop}

theorem Lasting.acquire (lasting : Lasting I) (id : SpaceId) (bytes : Word) : Keeps I (acquire id bytes) := by
  refine keeps_get_bind fun h => keeps_ite (keeps_bind (lasting.report _) fun _ => keeps_pure _) ?_
  refine keeps_bind (keeps_lift _) fun pages => keeps_bind (lasting.ledger id _) fun _ => keeps_bind (lasting.poll _ _) fun due =>
    keeps_ite (keeps_bind (lasting.ledger id _) fun _ => keeps_pure _) ?_
  refine keeps_bind (lasting.take id pages bytes) fun answer => ?_
  split
  · exact keeps_pure _
  · exact keeps_bind (lasting.poll _ _) fun _ => keeps_ite (keeps_pure _) (keeps_bind (lasting.report _) fun _ => keeps_pure _)
  · exact keeps_bind (lasting.report _) fun _ => keeps_pure _

theorem Lasting.acquireCells (lasting : Lasting I) (sizeClass : Nat) : Keeps I (acquireCells sizeClass) := by
  refine keeps_bind (lasting.available sizeClass) fun head => ?_
  split
  · exact keeps_pure _
  · refine keeps_bind (lasting.acquire _ _) fun start => ?_
    split
    · exact keeps_pure _
    · exact keeps_bind (lasting.install _ _) fun _ => keeps_pure _

/-- A step that uses the memory beside something else. -/
theorem Lasting.withMemory {σ : Type} [Inhabited σ] (lasting : Lasting I) (x : Step (σ × Memory) α) :
    Keeps (fun s : σ × Heap => I s.2) (Step.onBoth Focus.fst (Focus.snd.comp Heap.memoryPart) x) :=
  keeps_onBoth_any x fun _ _ m holds => lasting.memory _ m (lasting.memory _ default holds)

end Heap

variable {I : Heap → Prop}

namespace BumpAllocator

theorem allocFresh_keeps (lasting : Heap.Lasting I) (r : Request) : Keeps (fun s => I s.2) (allocFresh r) := by
  have refilled : Keeps (fun s : BumpAllocator × Heap => I s.2) (refill r) := by
    refine keeps_bind (keeps_lift _) fun room => keeps_get_bind fun _ =>
      keeps_bind (keeps_snd (lasting.acquire _ _)) fun start => ?_
    split
    · exact keeps_pure _
    · exact keeps_bind (keeps_modify fun _ holds => holds) fun _ => keeps_bind (keeps_lift _) fun _ =>
        keeps_bind (keeps_modify fun _ holds => holds) fun _ => keeps_pure _
  exact keeps_bind refilled fun _ => keeps_ite (lasting.withMemory _) (keeps_pure _)

theorem alloc_keeps (lasting : Heap.Lasting I) (r : Request) : Keeps (fun s => I s.2) (alloc r) := by
  refine keeps_bind (lasting.withMemory _) fun start => ?_
  split
  · exact keeps_pure _
  · exact allocFresh_keeps lasting r

end BumpAllocator

namespace CellAllocator

theorem alloc_keeps (lasting : Heap.Lasting I) (r : Request) : Keeps (fun s => I s.2) (alloc r) := by
  have popped : ∀ sizeClass, Keeps (fun s : CellAllocator × Heap => I s.2) (do return some (← popInHeap r sizeClass)) :=
    fun sizeClass => keeps_bind (lasting.withMemory _) fun _ => keeps_pure _
  have fresh : Keeps (fun s : CellAllocator × Heap => I s.2) (allocFresh r) := by
    refine keeps_get_bind fun s => keeps_bind (keeps_lift _) fun sizeClass =>
      keeps_bind (keeps_snd (lasting.acquireCells _)) fun head => ?_
    split
    · exact keeps_pure _
    · exact keeps_bind (keeps_modify fun _ holds => holds) fun _ => popped sizeClass
  exact keeps_get_bind fun s => keeps_bind (keeps_lift _) fun sizeClass => keeps_ite fresh (popped sizeClass)

end CellAllocator

theorem LargeAllocator.alloc_keeps (lasting : Heap.Lasting I) (r : Request) : Keeps I (alloc r) := by
  refine keeps_bind (keeps_bind (keeps_lift _) fun _ => keeps_bind (keeps_lift _) fun _ => lasting.acquire _ _) fun cell => ?_
  split
  · exact keeps_pure _
  · exact keeps_bind (keeps_on_any _ fun _ m holds => lasting.memory _ m (lasting.memory _ default holds)) fun _ => keeps_pure _

theorem AllocatorSet.alloc_keeps (lasting : Heap.Lasting I) (selector : AllocatorSelector) (r : Request) :
    Keeps (fun s => I s.2) (alloc selector r) := by
  refine keeps_bind (keeps_ask _) fun _ => ?_
  cases selector with
  | bump index => exact keeps_onBoth (BumpAllocator.alloc_keeps lasting r) (fun _ holds => holds) fun _ _ _ _ kept => kept
  | cells index => exact keeps_onBoth (CellAllocator.alloc_keeps lasting r) (fun _ holds => holds) fun _ _ _ _ kept => kept
  | large index => exact keeps_snd (LargeAllocator.alloc_keeps lasting r)
  | none => exact keeps_fail _

/-! ### Tracing -/

/-- The heap is in order, whatever stands beside it. -/
abbrev Beside {σ : Type} (s : σ × Heap) : Prop := s.2.InOrder

namespace Heap

theorem adoptCopy_keeps (id : SpaceId) (object : Address) : Keeps InOrder (adoptCopy id object) := by
  refine keeps_get_bind fun h => ?_
  split
  · exact keeps_onCopying (keeps_modify fun _ ordered => ordered)
  · exact keeps_onMature (MarkSweepSpace.adoptCopy_keeps object)
  · exact keeps_fail _
  · exact keeps_onLarge (LargeSpace.adopt_keeps object false)

theorem adoptNew_keeps (id : SpaceId) (object : Address) : Keeps InOrder (adoptNew id object) := by
  refine keeps_get_bind fun h => ?_
  split
  · exact keeps_onCopying (keeps_modify fun _ ordered => ordered)
  · exact keeps_onMature (keeps_modify fun _ ordered => ordered)
  · exact keeps_onImmortal (ImmortalSpace.adopt_keeps object)
  · exact keeps_onLarge (LargeSpace.adopt_keeps object true)

end Heap

namespace CopyContext

theorem alloc_keeps (object : Address) (r : Request) (semantics : CopySemantics) : Keeps Beside (alloc object r semantics) := by
  refine keeps_bind (keeps_lift _) fun _ => keeps_get_bind fun _ =>
    keeps_bind (keeps_onBoth (AllocatorSet.alloc_keeps Heap.inOrder_lasting _ r) (fun _ ordered => ordered) fun _ _ _ _ kept => kept) fun place => ?_
  split
  · exact keeps_pure _
  · exact keeps_get_bind fun _ => keeps_bind (keeps_lift _) fun _ => keeps_throw _

theorem adopt_keeps (copy : Address) : Keeps Beside (adopt copy) := by
  refine keeps_get_bind fun s => ?_
  dsimp only
  split
  · exact keeps_snd (Heap.adoptCopy_keeps _ copy)
  · exact keeps_throw _

theorem copy_keeps (object : Address) (semantics : CopySemantics) : Keeps Beside (copy object semantics) :=
  keeps_get_bind fun _ => keeps_bind (alloc_keeps _ _ _) fun place =>
    keeps_bind (keeps_on_any _ fun _ _ ordered => ordered.congr rfl rfl rfl) fun _ =>
      keeps_bind (adopt_keeps place) fun _ => keeps_pure _

end CopyContext

namespace Collector

theorem keeps_onQueue (x : Step (Work.Buffer Address × Work.Packets Address) α) : Keeps Beside (onQueue x) :=
  keeps_onBoth_any x fun _ _ _ ordered => ordered.congr rfl rfl rfl

theorem reached_keeps (object : Address) : Keeps Beside (reached object) :=
  keeps_bind (keeps_modify fun _ ordered => ordered.congr rfl rfl rfl) fun _ => keeps_onQueue _

theorem evacuate_keeps (id : SpaceId) (object : Address) (semantics : CopySemantics) :
    Keeps Beside (evacuate id object semantics) :=
  keeps_bind (keeps_onBoth (CopyContext.copy_keeps _ _) (fun _ ordered => ordered) fun _ _ _ _ kept => kept) fun _ =>
    keeps_bind (keeps_snd (Heap.keeps_onCopying (keeps_bind (keeps_on_any _ fun _ _ ordered => ordered) fun _ =>
      keeps_modify fun _ ordered => ordered))) fun _ =>
    keeps_bind (keeps_modify fun _ ordered => ordered.congr rfl rfl rfl) fun _ => keeps_bind (keeps_onQueue _) fun _ => keeps_pure _

theorem traceCopying_keeps (id : SpaceId) (object : Address) (semantics : CopySemantics) :
    Keeps Beside (traceCopying id object semantics) := by
  refine keeps_bind (keeps_snd (Heap.keeps_onCopying ?_)) fun claimed => ?_
  · exact keeps_get_bind fun _ => keeps_ite (keeps_pure _)
      (keeps_bind (keeps_on_any _ fun _ _ ordered => ordered) fun _ => keeps_pure _)
  · split
    · exact keeps_pure _
    · exact keeps_ite (keeps_snd (Heap.keeps_onCopying (keeps_ask _)))
        (keeps_bind (evacuate_keeps _ _ _) fun _ => keeps_pure _)

theorem traceLarge_keeps (object : Address) : Keeps Beside (traceLarge object) := by
  refine keeps_bind (keeps_snd (Heap.keeps_onLarge (keeps_fst (LargeSpace.claim_keeps object)))) fun young => ?_
  split
  · exact keeps_pure _
  · exact keeps_bind (keeps_modify fun _ ordered => ordered.congr rfl rfl rfl) fun _ =>
      keeps_bind (keeps_snd (Heap.keeps_onLarge (keeps_on_any _ fun _ _ ordered => ordered))) fun _ => keeps_onQueue _

theorem traceIn_keeps (id : SpaceId) (object : Address) (semantics : CopySemantics) : Keeps Beside (traceIn id object semantics) := by
  refine keeps_get_bind fun s => ?_
  split
  · exact traceCopying_keeps id object semantics
  · refine keeps_bind (keeps_bind (keeps_snd (Heap.keeps_onMature
      (keeps_fst (MarkSweepSpace.claim_keeps object)))) fun _ => ?_) fun _ => keeps_pure _
    exact keeps_ite (reached_keeps object) (keeps_pure _)
  · refine keeps_bind (keeps_bind (keeps_snd (Heap.keeps_onImmortal
      (keeps_fst (ImmortalSpace.claim_keeps object)))) fun _ => ?_) fun _ => keeps_pure _
    exact keeps_ite (reached_keeps object) (keeps_pure _)
  · exact keeps_bind (traceLarge_keeps object) fun _ => keeps_pure _

theorem trace_keeps (object : Address) : Keeps Beside (trace object) := by
  have covered : Keeps Beside (traceObject object) := by
    refine keeps_get_bind fun s => ?_
    dsimp only
    split
    · exact keeps_throw _
    · exact keeps_ite (traceIn_keeps _ _ _) (keeps_pure _)
  refine keeps_ite (keeps_pure _) (keeps_get_bind fun s => ?_)
  dsimp only
  split
  · exact covered
  · exact covered
  · exact keeps_throw _

end Collector

namespace Share

/-- A step of the backlog beside a collector. -/
theorem keeps_onBacklog {σ : Type} (x : Step (Work.Backlog Slot Address) α) :
    Keeps (Beside (σ := σ)) (Step.on (Focus.snd.comp Heap.backlogPart) x) :=
  keeps_on_any x fun _ _ ordered => ordered.congr rfl rfl rfl

theorem step_keeps (s : Share) : Keeps Beside s.step := by
  have process : ∀ slot, Keeps Beside (processSlot slot) := by
    intro slot
    refine keeps_get_bind fun _ => keeps_bind (Collector.trace_keeps _) fun moved => ?_
    split
    · exact keeps_pure _
    · refine keeps_ite (keeps_pure _) (keeps_bind (keeps_modify fun s ordered => ?_) fun _ => keeps_pure _)
      cases slot <;> exact ordered.congr rfl rfl rfl
  have take : ∀ object, Keeps Beside (takeRemembered object) := fun object =>
    keeps_bind (keeps_modify fun _ ordered => ordered.congr rfl rfl rfl) fun _ => keeps_get_bind fun _ => keeps_pure _
  have item : ∀ found, Keeps Beside (ofItem found) := by
    intro found
    cases found with
    | item object => exact keeps_get_bind fun _ => keeps_pure _
    | nothing => exact keeps_pure _
    | wait => exact keeps_pure _
  have next : ∀ stage, Keeps Beside (proceed stage) := by
    intro stage
    cases stage with
    | roots => exact keeps_bind (keeps_onBacklog _) fun found => by split <;> exact keeps_pure _
    | remembered => exact keeps_bind (keeps_onBacklog _) fun found => by split <;> exact keeps_pure _
    | objects => exact keeps_bind (Collector.keeps_onQueue _) item
    | waiting => exact keeps_bind (Collector.keeps_onQueue _) item
    | finished => exact keeps_pure _
  unfold step
  split
  · exact keeps_bind (process _) fun _ => keeps_ite (keeps_pure _) (keeps_pure _)
  · exact keeps_bind (take _) fun _ => keeps_pure _
  · exact keeps_bind (next _) fun _ => keeps_ite (keeps_pure _) (keeps_pure _)

theorem run_keeps (s : Share) (fuel : Nat) : Keeps Beside (s.run fuel) := by
  induction fuel generalizing s with
  | zero => exact keeps_throw _
  | succ fuel ih =>
    refine keeps_ite (keeps_pure _) (keeps_bind s.step_keeps fun next => ?_)
    split
    · exact ih _
    · exact keeps_throw _

end Share

/-! ### Phases -/

namespace Heap

theorem prepareCommon_keeps (full : Bool) : Keeps InOrder (prepareCommon full) := by
  have large : Keeps InOrder (onLarge (Step.on Focus.fst (LargeSpace.prepare full))) :=
    keeps_onLarge (keeps_fst (LargeSpace.prepare_keeps full))
  refine keeps_bind (keeps_modify fun _ ordered => ordered.congr rfl rfl rfl) fun _ => ?_
  exact keeps_ite (keeps_bind (keeps_onImmortal (keeps_fst ImmortalSpace.prepare_keeps)) fun _ => large) large

theorem releaseCommon_keeps (full : Bool) : Keeps InOrder (releaseCommon full) :=
  keeps_bind (keeps_onLarge (LargeSpace.release_keeps full)) fun _ =>
    keeps_ite (keeps_onImmortal (keeps_fst ImmortalSpace.release_keeps)) (keeps_pure _)

theorem prepare_keeps : Keeps InOrder prepare := by
  have backlog : Keeps InOrder (do
      let threads := (← get).settings.threads
      Step.on backlogPart (Work.Backlog.prepare threads)) := keeps_get_bind fun _ => keeps_onBacklog _
  refine keeps_get_bind fun h => ?_
  dsimp only
  split
  · have first : Keeps InOrder (onFirst (Step.on Focus.fst (CopySpace.prepare true))) :=
      keeps_onCopying (keeps_fst (CopySpace.prepare_keeps true))
    refine keeps_bind (keeps_ask _) fun full => keeps_bind (keeps_modify fun _ ordered => ordered.congr rfl rfl rfl) fun _ =>
      keeps_bind (prepareCommon_keeps full) fun _ => ?_
    exact keeps_ite (keeps_bind (keeps_onMature (keeps_fst MarkSweepSpace.prepare_keeps)) fun _ => keeps_bind first fun _ => backlog)
      (keeps_bind first fun _ => backlog)
  · exact keeps_bind (prepareCommon_keeps true) fun _ => keeps_bind (keeps_modify fun _ ordered => ordered.congr rfl rfl rfl) fun _ =>
      keeps_get_bind fun _ => keeps_bind (keeps_onCopying (keeps_fst (CopySpace.prepare_keeps _))) fun _ =>
        keeps_bind (keeps_onCopying (keeps_fst (CopySpace.prepare_keeps _))) fun _ => backlog

theorem release_keeps : Keeps InOrder release := by
  refine keeps_get_bind fun h => ?_
  split
  · have rest : Keeps InOrder (do
        Step.on backlogPart Work.Backlog.release
        let available ← Step.ask pagesAvailable
        let nursery ← Step.ask fun h => h.settings.maxNurseryPages
        modify fun h => { h with scope.nextFull := decide (available < nursery) }) :=
      keeps_bind (keeps_onBacklog _) fun _ => keeps_bind (keeps_ask _) fun _ => keeps_bind (keeps_ask _) fun _ =>
        keeps_modify fun _ ordered => ordered.congr rfl rfl rfl
    refine keeps_get_bind fun h => keeps_bind (keeps_onCopying CopySpace.release_keeps) fun _ =>
      keeps_bind (releaseCommon_keeps _) fun _ => ?_
    exact keeps_ite (keeps_bind (keeps_onMature MarkSweepSpace.release_keeps) fun _ => rest) rest
  · exact keeps_bind (releaseCommon_keeps true) fun _ => keeps_get_bind fun _ =>
      keeps_bind (keeps_onCopying CopySpace.release_keeps) fun _ => keeps_onBacklog _

theorem globalPhase_keeps (phase : Phase) : Keeps InOrder (globalPhase phase) := by
  cases phase with
  | prepare => exact prepare_keeps
  | release => exact release_keeps
  | roots => exact keeps_throw _
  | closure => exact keeps_throw _

theorem flush_keeps (index : Nat) : Keeps InOrder (flush index) :=
  keeps_bind (keeps_onMutator index _) fun _ => keeps_onBacklog _

theorem mutatorPhase_keeps (phase : Phase) : Keeps InOrder (mutatorPhase phase) := by
  refine keeps_get_bind fun h => keeps_forM _ fun index => ?_
  cases phase with
  | prepare =>
    refine keeps_bind (flush_keeps index) fun _ => keeps_get_bind fun h => ?_
    split
    · exact keeps_ite (keeps_pure _) (keeps_onMutator index _)
    · exact keeps_pure _
  | release => exact keeps_get_bind fun h => keeps_onMutator index _
  | roots => exact keeps_throw _
  | closure => exact keeps_throw _

end Heap

namespace Collector

theorem beginClosure_keeps : Keeps Beside beginClosure := by
  refine keeps_get_bind fun s => ?_
  dsimp only
  split
  · exact keeps_modify fun _ ordered => ordered
  · exact keeps_modify fun _ ordered => ordered
  · exact keeps_throw _

theorem prepare_keeps : Keeps Beside prepare := by
  refine keeps_get_bind fun s => ?_
  dsimp only
  cases s.2.plan with
  | generational =>
    split
    · exact keeps_bind (keeps_modify fun _ ordered => ordered) fun _ => keeps_pure _
    · exact keeps_bind (keeps_modify fun _ ordered => ordered) fun _ => keeps_pure _
    · exact keeps_bind (keeps_throw _) fun _ => keeps_pure _
  | semispace =>
    have rebind {f : CopyContext → Collector × Heap → Collector × Heap} (kept : ∀ copies s, Beside s → Beside (f copies s)) :
        Keeps Beside (liftM (s.1.copies.rebind 0 s.2.current) >>= fun copies => modify (f copies)) :=
      keeps_bind (keeps_lift _) fun copies => keeps_modify (kept copies)
    split
    · exact keeps_bind (keeps_modify fun _ ordered => ordered) fun _ => rebind fun _ _ ordered => ordered
    · exact keeps_bind (keeps_modify fun _ ordered => ordered) fun _ => rebind fun _ _ ordered => ordered
    · exact keeps_bind (keeps_throw _) fun _ => rebind fun _ _ ordered => ordered

theorem findRoots_keeps : Keeps Beside findRoots := by
  refine keeps_get_bind fun s => ?_
  have push : Keeps (Beside (σ := Collector)) (if s.1.isPrimary = true then
      (packets rootPacket s.2.rootSlots.length s.2.rootSlots).forM fun packet =>
        Step.on (Focus.snd.comp Heap.backlogPart) (Work.Backlog.pushRoots packet)
      else pure ()) :=
    keeps_ite (keeps_forM _ fun _ => Share.keeps_onBacklog _) (keeps_pure _)
  exact keeps_ite push (keeps_bind (keeps_throw _) fun _ => push)

theorem release_keeps : Keeps Beside release := by
  refine keeps_get_bind fun s => keeps_ite (keeps_bind (keeps_modify fun _ ordered => ordered) fun _ => ?_) ?_
  · exact keeps_get_bind fun _ => keeps_unless fun _ => keeps_unless fun _ => keeps_modify fun _ ordered => ordered
  · exact keeps_get_bind fun _ => keeps_unless fun _ => keeps_unless fun _ => keeps_modify fun _ ordered => ordered

theorem phase_keeps (phase : Phase) : Keeps Beside (Collector.phase phase) := by
  cases phase with
  | prepare => exact prepare_keeps
  | roots => exact findRoots_keeps
  | closure => exact keeps_bind beginClosure_keeps fun _ => Share.run_keeps _ _
  | release => exact release_keeps

end Collector

/-! ### Crews -/

namespace Worker

/-- The heap of a worker is in order. -/
abbrev Ordered (s : Worker × Shared) : Prop := s.2.2.InOrder

theorem keeps_onCollector {x : Step (Collector × Heap) α} (inner : Keeps Beside x) : Keeps Ordered (onCollector x) :=
  keeps_onBoth inner (fun _ ordered => ordered) fun _ _ _ _ kept => kept

theorem keeps_onHeap {x : Step Heap α} (inner : Keeps Heap.InOrder x) : Keeps Ordered (Step.on (Focus.snd.comp Focus.snd) x) :=
  keeps_on inner (fun _ ordered => ordered) fun _ _ _ kept => kept

theorem endPhase_keeps : Keeps Ordered endPhase :=
  keeps_bind (keeps_on_any _ fun _ _ ordered => ordered) fun _ => keeps_modify fun _ ordered => ordered

theorem startPhase_keeps (schedule : Schedule) (phase : Phase) : Keeps Ordered (startPhase schedule phase) := by
  refine keeps_get_bind fun s => ?_
  dsimp only
  split
  · exact keeps_ite (keeps_bind (keeps_onHeap (Heap.globalPhase_keeps _)) fun _ => endPhase_keeps) endPhase_keeps
  · exact keeps_ite (keeps_bind (keeps_onHeap (Heap.mutatorPhase_keeps _)) fun _ => endPhase_keeps) endPhase_keeps
  · exact keeps_bind (keeps_onCollector Collector.beginClosure_keeps) fun _ => keeps_modify fun _ ordered => ordered
  · exact keeps_bind (keeps_onCollector (Collector.phase_keeps _)) fun _ => endPhase_keeps

theorem step_keeps : Keeps Ordered step := by
  refine keeps_get_bind fun s => ?_
  dsimp only
  split
  · exact keeps_bind (startPhase_keeps _ _) fun _ => keeps_pure _
  · refine keeps_ite (keeps_bind endPhase_keeps fun _ => keeps_pure _)
      (keeps_bind (keeps_onCollector (Share.step_keeps _)) fun next => ?_)
    split
    · exact keeps_bind (keeps_modify fun _ ordered => ordered) fun _ => keeps_pure _
    · exact keeps_pure _
  · exact keeps_bind (keeps_on_any _ fun _ _ ordered => ordered) fun _ =>
      keeps_ite (keeps_bind (keeps_modify fun _ ordered => ordered) fun _ => keeps_pure _) (keeps_pure _)
  · exact keeps_pure _

end Worker

end TracingHeap
