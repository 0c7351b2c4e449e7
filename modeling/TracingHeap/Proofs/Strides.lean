import TracingHeap.Proofs.Gains

/-! What one step of a share does with objects. It traces the reference in a slot, and either the object was reached before and
nothing is gained, or it is reached now, counted, and left to be scanned; or the share has no slot at hand, and then there is
less work to be done than before. -/

namespace TracingHeap

open List Memory Work Collector

variable {g : Outset} {known : List Piece} {h h' h'' : Heap} {pieces : List Piece} {buffers : List (SpaceId × Span)}
  {keys : List (Nat × Address)} {s : Share} {slots : Slot → Prop} {objects remembered : Address → Prop} {c c' : Collector}
  {slot : Slot} {left : List Slot} {a b : Address}

/-- The objects that the collection is done with stay so, and stay where they are. -/
def Heap.Settles (h h' : Heap) (known : List Piece) : Prop :=
  ∀ o ∈ known, h.Done o → h'.Done o ∧ h'.spaces.image o = h.spaces.image o

theorem Heap.settles_congr (spaces : h'.spaces = h.spaces) (scope : h.SameScope h') : h.Settles h' known := fun o _ done => by
  refine ⟨fun covered => ?_, by rw [spaces]⟩
  rw [spaces]
  exact done ((covered_congr (spaces ▸ .refl _) scope o).mp covered)

theorem Heap.Settles.trans (one : h.Settles h' known) (two : h'.Settles h'' known) : h.Settles h'' known := fun o member done => by
  obtain ⟨done', image'⟩ := one o member done
  obtain ⟨done'', image''⟩ := two o member done'
  exact ⟨done'', image''.trans image'⟩

namespace Collector

variable {p : Piece} {answer : Option Address}

/-- Nothing to do: the answer is where the object is, and the books stay as they are. -/
theorem Passed.settles (passed : Passed c h c' h' pieces buffers keys) (inside : ∀ o ∈ known, o ∈ pieces) :
    h.Settles h' known := fun o member done => by
  have scope : h.SameScope h' := by
    rw [passed.heap]
    exact ⟨rfl, rfl, rfl⟩
  refine ⟨fun covered => (passed.untouched.reached o (inside o member)).mpr
    (done ((Heap.covered_congr passed.untouched.steady scope o).mp covered)), passed.untouched.image o (inside o member)⟩

theorem Gained.settles {pieces' : List Piece} (gained : Gained c h c' h' pieces pieces' buffers keys p a)
    (missed : ¬ h.Done p) (inside : ∀ o ∈ known, o ∈ pieces) : h.Settles h' known := fun o member done => by
  have other : o ≠ p := fun same => missed (same ▸ done)
  have untouched := gained.untouched
  refine ⟨fun covered => (untouched.reached o ⟨inside o member, other⟩).mpr
    (done ((Heap.covered_congr untouched.steady gained.worked.scope o).mp covered)), untouched.image o ⟨inside o member, other⟩⟩

end Collector

/-- What the tally becomes when a collector has gained an object. -/
inductive Tally.Counts (t : Tally) : Gain → Tally → Prop where
  | copy (bytes : Word) : Counts t .copy (t.copied bytes)
  | mark : Counts t .mark t.marked

/-- What tracing a reference comes to, as far as the known objects are concerned. -/
inductive Collector.Visits (known : List Piece) (c : Collector) (h : Heap) (a : Address) : Address → Collector → Heap → Prop where
  | null (nothing : a = .null) : Visits known c h a .null c h
  /-- The object was reached before, and the reference is the old one or the new one. -/
  | again {o : Piece} {h' : Heap} (member : o ∈ known) (done : h.Done o) (there : a = o.start ∨ a = h.spaces.image o)
    (passed : h' = { h with spaces := h'.spaces }) (settles : h.Settles h' known) (idle : h.gain? a = none) :
    Visits known c h a (h.spaces.image o) c h'
  /-- The object is reached for the first time. -/
  | first {o : Piece} {c' : Collector} {h' : Heap} {gain : Gain} (member : o ∈ known) (here : a = o.start)
    (missed : ¬ h.Done o) (done : h'.Done o) (settles : h.Settles h' known) (gained : h.gain? a = some gain)
    (counted : h.tally.Counts gain h'.tally)
    (queued : items c'.buffer h'.backlog.objects ~ h'.spaces.image o :: items c.buffer h.backlog.objects) :
    Visits known c h a (h'.spaces.image o) c' h'

namespace Share

/-- What a slot at hand refers to: nothing, an object that the program knows, or the copy of one. -/
theorem Going.bearer (going : Going g c h s pieces buffers keys slots objects remembered) (sound : g.Sound)
    (hand : s.slots = slot :: left) : h.refOf slot = .null ∨ ∃ o ∈ g.known, g.Found o ∧ ∃ r ∈ pieces,
      r.start = h.refOf slot ∧ r.isObject = true ∧ r.start ≠ .null ∧
      (r = o ∨ r ∉ g.pieces ∧ h.Done o ∧ h.refOf slot = h.spaces.image o) := by
  have due : s.slotsDue h slots slot := .inl (by rw [hand]; exact mem_cons_self)
  obtain ⟨v, origin, value, -⟩ := going.closing.due_slot sound going.ready.held due
  rcases origin with rfl | ⟨o, member, rfl, found⟩
  · rcases value with same | ⟨-, now⟩ | ⟨o, member, null, -⟩
    · exact .inl same
    · exact .inl now
    · exact absurd null.symm (sound.known o member).2.2
  · exact .inr ⟨o, member, found, going.closing.kept.bearer sound going.ready.held member value⟩

/-- Tracing what is in a slot at hand. -/
theorem Going.visits {answer : Option Address} (going : Going g c h s pieces buffers keys slots objects remembered)
    (sound : g.Sound) (hand : s.slots = slot :: left) (ok : trace (h.refOf slot) (c, h) = .ok answer (c', h')) :
    ∃ b, answer = some b ∧ Visits g.known c h (h.refOf slot) b c' h' := by
  have kept := going.closing.kept
  have ready := going.ready
  have inside : ∀ o ∈ g.known, o ∈ pieces := fun o => kept.known sound
  rcases going.bearer sound hand with null | ⟨o, member, -, r, inner, start, object, proper, which⟩
  · rw [null] at ok ⊢
    have stop : trace .null (c, h) = .ok (some .null) (c, h) := rfl
    rw [stop] at ok
    cases ok
    exact ⟨.null, rfl, .null rfl⟩
  · rw [← start] at ok ⊢
    have traced := Collector.trace_ok ready inner object proper (fun evacuates missed => by
      rcases which with rfl | ⟨copy, -⟩
      · have movable := sound.movable r member ((kept.evacuates _).mp evacuates)
        have shape := (kept.content r member).shape
        rw [Spaces.image_of_not_reached missed] at shape
        have size : (h.memory.header r.start).size = (g.heap.memory.header r.start).size := congrArg Prod.fst shape
        rw [size]
        exact movable
      · rw [(kept.copies r inner copy).2.2.1] at evacuates
        exact absurd evacuates ready.still) ok
    cases traced with
    | passed passed done =>
      have idle : h.gain? r.start = none := by
        rcases ready.gain_cases inner object proper with ⟨-, none⟩ | ⟨missed, -⟩ | ⟨missed, -⟩
        · exact none
        · exact absurd done missed
        · exact absurd done missed
      have settles := passed.settles inside
      cases passed.collector
      rcases which with rfl | ⟨copy, finished, image⟩
      · exact ⟨_, rfl, .again member done (.inl rfl) passed.heap settles idle⟩
      · have stays : ¬ h.spaces.Evacuates r.home := by
          rw [(kept.copies r inner copy).2.2.1]
          exact ready.still
        have same : h.spaces.image r = h.spaces.image o := by
          rw [ready.tracked.image_eq ready.held inner stays, start, image]
        rw [same]
        exact ⟨_, rfl, .again member finished (.inr (start.trans image)) passed.heap settles idle⟩
    | gained covered missed pieces' a gained =>
      have undone : ¬ h.Done r := not_done_iff.mpr ⟨covered, missed⟩
      rcases which with rfl | ⟨copy, -⟩
      · have settles := gained.settles undone inside
        have done : h'.Done r := fun _ => gained.reached
        have image := gained.image
        subst image
        refine ⟨_, rfl, ?_⟩
        rcases ready.gain_cases inner object proper with ⟨done, -⟩ | ⟨-, moves, gain⟩ | ⟨-, stays, gain⟩
        · exact absurd done undone
        · rcases gained.counted with ⟨⟨bytes, tally⟩, -⟩ | ⟨-, stays⟩
          · exact .first member rfl undone done settles gain (tally ▸ .copy bytes) gained.queued
          · exact absurd moves stays
        · rcases gained.counted with ⟨-, moves⟩ | ⟨tally, -⟩
          · exact absurd moves stays
          · exact .first member rfl undone done settles gain (tally ▸ .mark) gained.queued
      · exact absurd (kept.copies r inner copy).2.1 undone

end Share

/-- Neither the spaces nor the books have changed. -/
structure Heap.Level (h h' : Heap) : Prop where
  spaces : h'.spaces = h.spaces
  scope : h.SameScope h'
  tally : h'.tally = h.tally

theorem Heap.Level.settles (level : h.Level h') : h.Settles h' known := Heap.settles_congr level.spaces level.scope

theorem Heap.level_setRef (h : Heap) (slot : Slot) (w : Address) : h.Level (h.setRef slot w) := by
  cases slot <;> exact ⟨rfl, ⟨rfl, rfl, rfl⟩, rfl⟩

theorem Heap.backlog_setRef (h : Heap) (slot : Slot) (w : Address) : (h.setRef slot w).backlog = h.backlog := by
  cases slot <;> rfl

/-- How far a stage is from the last one. -/
def Stage.rank : Stage → Nat
  | .roots => 4
  | .remembered => 3
  | .objects => 2
  | .waiting => 1
  | .finished => 0

theorem Stage.rank_objects : Stage.objects.rank = 2 := rfl

theorem Stage.rank_finished : Stage.finished.rank = 0 := rfl

namespace Share

/-- The work that a share has before it, but for the slots at hand. An object to be scanned weighs more than one who waits for
it. -/
def toDo (s : Share) (c : Collector) (h : Heap) : Nat :=
  s.stage.rank + h.backlog.roots.length + s.remembered.length + (h.backlog.remembered.map fun packet => packet.size + 1).sum +
    2 * (items c.buffer h.backlog.objects).length

/-- What one step of a share comes to: it traces what is in a slot, or it turns to what comes next. -/
inductive Stride (known : List Piece) (s : Share) (c : Collector) (h : Heap) : Option Share → Collector → Heap → Prop where
  | traces {slot : Slot} {left : List Slot} {b : Address} {c' : Collector} {h₁ h' : Heap} (hand : s.slots = slot :: left)
    (traced : trace (h.refOf slot) (c, h) = .ok (some b) (c', h₁)) (visits : Visits known c h (h.refOf slot) b c' h₁)
    (level : h₁.Level h') (backlog : h'.backlog = h₁.backlog) (packets : h'.backlog.roots = h.backlog.roots ∧
      h'.backlog.remembered = h.backlog.remembered) : Stride known s c h (some { s with slots := left }) c' h'
  | turns {answer : Option Share} {c' : Collector} {h' : Heap} (idle : s.slots = []) (level : h.Level h')
    (fewer : ∃ taken, items c.buffer h.backlog.objects ~ taken ++ items c'.buffer h'.backlog.objects)
    (less : ∀ next, answer = some next → next.toDo c' h' < s.toDo c h)
    (stuck : answer = none → s.stage = .waiting) : Stride known s c h answer c' h'

/-- A share that turns to an item, or to none, has less to do, unless it waits again. -/
theorem ofItem_turns {item : Buffer.Item Address} {next : Share} {b : Buffer Address} {q : Packets Address}
    (idle : s.slots = [] ∧ s.remembered = []) (stages : s.stage = .objects ∨ s.stage = .waiting)
    (found : Buffer.Found c.buffer (s.rejoin h.backlog.objects) item b q)
    (ok : ofItem item ({ c with buffer := b }, { h with backlog := { h.backlog with objects := q } }) = .ok next (c', h')) :
    h.Level h' ∧ (∃ taken, items c.buffer h.backlog.objects ~ taken ++ items c'.buffer h'.backlog.objects) ∧
      (next.toDo c' h' < s.toDo c h ∨ s.stage = .waiting ∧ next.stage = .waiting) := by
  obtain ⟨stack, -⟩ := s.rejoin_stack h.backlog.objects
  have same : items c.buffer (s.rejoin h.backlog.objects) = items c.buffer h.backlog.objects := by rw [items, items, stack]
  have rank : 0 < s.stage.rank ∧ s.stage.rank ≤ 2 := by
    rcases stages with stage | stage
    all_goals
      rw [stage]
      decide
  have level : ∀ q, h.Level { h with backlog := { h.backlog with objects := q } } := fun q => ⟨rfl, ⟨rfl, rfl, rfl⟩, rfl⟩
  cases found with
  | item a b q restacked moved =>
    simp only [ofItem, Step.get_bind, Step.pure_ok, Prod.mk.injEq] at ok
    obtain ⟨rfl, rfl, rfl⟩ := ok
    rw [same] at moved
    refine ⟨level q, ⟨[a], moved⟩, .inl ?_⟩
    have length := moved.length_eq
    simp only [toDo, idle.2, length, length_cons, length_nil, Stage.rank_objects]
    omega
  | drained empty ended none_left =>
    simp only [ofItem, Step.pure_ok, Prod.mk.injEq] at ok
    obtain ⟨rfl, rfl, rfl⟩ := ok
    refine ⟨level _, ⟨[], by rw [← same]; exact .refl _⟩, .inl ?_⟩
    simp only [toDo, idle.2, same, length_nil, Stage.rank_finished]
    omega
  | last empty none_left alone =>
    simp only [ofItem, Step.pure_ok, Prod.mk.injEq] at ok
    obtain ⟨rfl, rfl, rfl⟩ := ok
    refine ⟨level _, ⟨[], by rw [← same]; exact .refl _⟩, .inl ?_⟩
    have kept : items c.buffer { s.rejoin h.backlog.objects with drained := true } = items c.buffer h.backlog.objects := same
    simp only [toDo, idle.2, kept, length_nil, Stage.rank_finished]
    omega
  | wait empty none_left active others =>
    simp only [ofItem, Step.pure_ok, Prod.mk.injEq] at ok
    obtain ⟨rfl, rfl, rfl⟩ := ok
    refine ⟨level _, ⟨[], by rw [← same]; exact .refl _⟩, ?_⟩
    rcases stages with objects | waiting
    · refine .inl ?_
      have kept : items c.buffer { s.rejoin h.backlog.objects with idle := (s.rejoin h.backlog.objects).idle + 1 } =
        items c.buffer h.backlog.objects := same
      simp only [toDo, idle.2, objects, kept, length_nil, Stage.rank]
      omega
    · exact .inr ⟨waiting, rfl⟩

theorem proceed_turns {next : Share} (packed : h.backlog.objects.Packed) (idle : s.slots = [] ∧ s.remembered = [])
    (calm : s.stage = .waiting → c.buffer = #[]) (unfinished : s.stage ≠ .finished)
    (ok : proceed s.stage (c, h) = .ok next (c', h')) :
    h.Level h' ∧ (∃ taken, items c.buffer h.backlog.objects ~ taken ++ items c'.buffer h'.backlog.objects) ∧
      (next.toDo c' h' < s.toDo c h ∨ s.stage = .waiting ∧ next.stage = .waiting) := by
  have level : ∀ backlog, h.Level { h with backlog } := fun backlog => ⟨rfl, ⟨rfl, rfl, rfl⟩, rfl⟩
  cases stage : s.stage with
  | roots =>
    simp only [stage, proceed, Step.bind_ok, Step.on_ok, Focus.comp, Focus.snd, Heap.backlogPart, Backlog.popRoots,
      Step.get_bind] at ok
    obtain ⟨answer, _, ⟨backlog, popped, rfl⟩, ok⟩ := ok
    cases packets : h.backlog.roots with
    | nil =>
      simp only [packets, Step.pure_ok] at popped
      obtain ⟨rfl, rfl⟩ := popped
      obtain ⟨rfl, same⟩ := Step.pure_ok.mp ok
      cases same
      refine ⟨level _, ⟨[], .refl _⟩, .inl ?_⟩
      simp only [toDo, stage, idle.2, length_nil, Stage.rank]
      omega
    | cons packet left =>
      simp only [packets, Step.modify_bind, Step.pure_ok] at popped
      obtain ⟨rfl, rfl⟩ := popped
      obtain ⟨rfl, same⟩ := Step.pure_ok.mp ok
      cases same
      refine ⟨level _, ⟨[], .refl _⟩, .inl ?_⟩
      simp only [toDo, stage, idle.2, packets, length_nil, length_cons, Stage.rank]
      omega
  | remembered =>
    simp only [stage, proceed, Step.bind_ok, Step.on_ok, Focus.comp, Focus.snd, Heap.backlogPart, Backlog.popRemembered,
      Step.get_bind] at ok
    obtain ⟨answer, _, ⟨backlog, popped, rfl⟩, ok⟩ := ok
    cases packets : h.backlog.remembered with
    | nil =>
      simp only [packets, Step.pure_ok] at popped
      obtain ⟨rfl, rfl⟩ := popped
      obtain ⟨rfl, same⟩ := Step.pure_ok.mp ok
      cases same
      refine ⟨level _, ⟨[], .refl _⟩, .inl ?_⟩
      simp only [toDo, stage, idle.2, length_nil, Stage.rank]
      omega
    | cons packet left =>
      simp only [packets, Step.modify_bind, Step.pure_ok] at popped
      obtain ⟨rfl, rfl⟩ := popped
      obtain ⟨rfl, same⟩ := Step.pure_ok.mp ok
      cases same
      refine ⟨level _, ⟨[], .refl _⟩, .inl ?_⟩
      simp only [toDo, stage, idle.2, packets, length_nil, Array.length_toList, map_cons, sum_cons, Stage.rank]
      omega
  | objects =>
    have same : s.rejoin h.backlog.objects = h.backlog.objects := by rw [rejoin, if_neg (by rw [stage]; exact Stage.noConfusion)]
    simp only [stage, proceed, Step.bind_ok, onQueue, Step.onBoth_ok, Focus.comp, Focus.fst, Focus.snd, bufferPart,
      Heap.backlogPart, Backlog.objectsPart] at ok
    obtain ⟨item, _, ⟨b, q, dequeued, rfl⟩, ok⟩ := ok
    have found := Buffer.dequeue_ok packed dequeued
    rw [← same] at found
    rw [← stage]
    exact ofItem_turns idle (.inl stage) found ok
  | waiting =>
    have same : s.rejoin h.backlog.objects = { h.backlog.objects with idle := h.backlog.objects.idle - 1 } := by
      rw [rejoin, if_pos stage]
    simp only [stage, proceed, Step.bind_ok, onQueue, Step.onBoth_ok, Focus.comp, Focus.fst, Focus.snd, bufferPart,
      Heap.backlogPart, Backlog.objectsPart] at ok
    obtain ⟨item, _, ⟨b, q, resumed, rfl⟩, ok⟩ := ok
    have empty := calm stage
    rw [empty] at resumed
    have found := Buffer.resume_ok packed resumed
    rw [← same, ← empty] at found
    exact stage ▸ ofItem_turns idle (.inr stage) found ok
  | finished => exact absurd stage unfinished

/-- Every step of a share is one of these. -/
theorem Going.strides {answer : Option Share} (going : Going g c h s pieces buffers keys slots objects remembered) (sound : g.Sound)
    (calm : s.stage = .waiting → s.Idle c) (unfinished : s.stage ≠ .finished) (ok : s.step (c, h) = .ok answer (c', h')) :
    Stride g.known s c h answer c' h' := by
  unfold step at ok
  cases hand : s.slots with
  | cons slot left =>
    simp only [hand, Step.bind_ok, Step.ite_step] at ok
    obtain ⟨done, ⟨c₁, h₁⟩, processed, ok⟩ := ok
    obtain ⟨-, -, -, packets, -⟩ := processSlot_ok going sound hand processed
    simp only [processSlot, Step.get_bind, Step.bind_ok] at processed
    obtain ⟨found, ⟨c₂, h₂⟩, traced, rest⟩ := processed
    obtain ⟨b, rfl, visits⟩ := going.visits sound hand traced
    by_cases same : b = h.refOf slot
    · simp only [same, if_true, Step.pure_ok, Prod.mk.injEq] at rest
      obtain ⟨rfl, rfl, rfl⟩ := rest
      simp only [if_true, Step.pure_ok, Prod.mk.injEq] at ok
      obtain ⟨rfl, rfl, rfl⟩ := ok
      exact .traces hand traced visits ⟨rfl, ⟨rfl, rfl, rfl⟩, rfl⟩ rfl packets
    · simp only [same, if_false, Step.modify_bind, Step.pure_ok, Prod.mk.injEq] at rest
      obtain ⟨rfl, rfl, rfl⟩ := rest
      simp only [if_true, Step.pure_ok, Prod.mk.injEq] at ok
      obtain ⟨rfl, rfl, rfl⟩ := ok
      exact .traces hand traced visits (h₂.level_setRef slot b) (h₂.backlog_setRef slot b) packets
  | nil =>
    cases marked : s.remembered with
    | cons object left =>
      have busy : s.stage ≠ .waiting := fun waiting => by
        have idle := (calm waiting).2.1
        rw [marked] at idle
        cases idle
      simp only [hand, marked, takeRemembered, Step.modify_bind, Step.get_bind, Step.bind_ok, Step.pure_ok] at ok
      obtain ⟨taken, _, ⟨rfl, rfl⟩, rfl, rfl, rfl⟩ := ok
      refine .turns hand ⟨rfl, ⟨rfl, rfl, rfl⟩, rfl⟩ ⟨[], .refl _⟩ (fun next same => ?_) fun none => by cases none
      cases same
      simp only [toDo, marked, length_cons]
      omega
    | nil =>
      simp only [hand, marked, Step.bind_ok, Step.ite_step] at ok
      obtain ⟨next, ⟨c₁, h₁⟩, proceeded, ok⟩ := ok
      obtain ⟨level, fewer, less⟩ := proceed_turns going.packed ⟨hand, marked⟩ (fun waiting => (calm waiting).2.2) unfinished proceeded
      by_cases stuck : s.stage = .waiting ∧ next.stage = .waiting
      · rw [if_pos stuck] at ok
        obtain ⟨rfl, same⟩ := Step.pure_ok.mp ok
        cases same
        exact .turns hand level fewer (fun next none => by cases none) fun _ => stuck.1
      · rw [if_neg stuck] at ok
        obtain ⟨rfl, same⟩ := Step.pure_ok.mp ok
        cases same
        refine .turns hand level fewer (fun next' same => ?_) fun none => by cases none
        cases same
        exact less.resolve_right stuck

end Share

/-! ### Nothing breaks off but copying -/

/-- What breaks off in its first part breaks off. -/
theorem Step.error_bind {σ α β : Type} {x : Step σ α} {f : α → Step σ β} {s t : σ} {e : Fault} (broken : x s = .error e t) :
    (x >>= f) s = .error e t := by
  change EStateM.bind x f s = _
  rw [EStateM.bind, broken]

/-- What comes to an end in its first part goes on with the second. -/
theorem Step.ok_bind {σ α β : Type} {x : Step σ α} {f : α → Step σ β} {s t : σ} {a : α} (ok : x s = .ok a t) :
    (x >>= f) s = f a t := by
  change EStateM.bind x f s = _
  rw [EStateM.bind, ok]

namespace Work.Backlog

variable {σ α : Type}

theorem popRoots_total (b : Backlog σ α) : ∃ packet b', popRoots b = .ok packet b' := by
  rw [popRoots, Step.get_bind]
  cases b.roots with
  | nil => exact ⟨_, _, rfl⟩
  | cons packet left => exact ⟨_, _, rfl⟩

theorem popRemembered_total (b : Backlog σ α) : ∃ packet b', popRemembered b = .ok packet b' := by
  rw [popRemembered, Step.get_bind]
  cases b.remembered with
  | nil => exact ⟨_, _, rfl⟩
  | cons packet left => exact ⟨_, _, rfl⟩

end Work.Backlog

namespace Share

/-- Tracing what is in a slot at hand comes to an end, unless an object has to be copied. -/
theorem Going.trace_total (going : Going g c h s pieces buffers keys slots objects remembered) (sound : g.Sound)
    (closing : c.state = .closing) (hand : s.slots = slot :: left) (whole : h.backlog.objects.poisoned = false)
    (active : h.backlog.objects.drained = false) (uncopied : h.gain? (h.refOf slot) ≠ some .copy) :
    ∃ answer t, trace (h.refOf slot) (c, h) = .ok answer t := by
  have ready := going.ready
  rcases going.bearer sound hand with null | ⟨o, -, -, r, inner, start, object, proper, -⟩
  · rw [null]
    exact ⟨_, _, rfl⟩
  · rw [← start] at uncopied ⊢
    rcases ready.gain_cases inner object proper with ⟨done, -⟩ | ⟨-, -, copy⟩ | ⟨missed, stays, -⟩
    · obtain ⟨t, -, traced⟩ := ready.trace_done closing inner object proper done
      exact ⟨_, _, traced⟩
    · exact absurd copy uncopied
    · exact ready.trace_marks closing inner object proper missed stays whole active

theorem proceed_total (whole : h.backlog.objects.poisoned = false) (calm : h.backlog.objects.aborted = false) (stage : Stage) :
    ∃ next t, proceed stage (c, h) = .ok next t := by
  have pursue : ∀ {x : Step (Buffer Address × Packets Address) (Buffer.Item Address)} {item : Buffer.Item Address} {b q},
      x (c.buffer, h.backlog.objects) = .ok item (b, q) → ∃ next t, (onQueue x >>= ofItem) (c, h) = .ok next t := by
    intro x item b q found
    obtain ⟨next, t, asked⟩ : ∃ next t,
        ofItem item ({ c with buffer := b }, { h with backlog := { h.backlog with objects := q } }) = .ok next t := by
      cases item <;> exact ⟨_, _, rfl⟩
    exact ⟨next, t, Step.bind_ok.mpr ⟨item, _, Step.onBoth_ok.mpr ⟨b, q, found, rfl⟩, asked⟩⟩
  cases stage with
  | roots =>
    obtain ⟨packet, b, popped⟩ := h.backlog.popRoots_total
    have taken : Step.on (Focus.snd.comp Heap.backlogPart) Backlog.popRoots (c, h) = .ok packet (c, { h with backlog := b }) :=
      Step.on_ok.mpr ⟨b, popped, rfl⟩
    cases packet with
    | none => exact ⟨⟨.remembered, [], []⟩, _, Step.bind_ok.mpr ⟨_, _, taken, rfl⟩⟩
    | some packet => exact ⟨⟨.roots, packet.toList, []⟩, _, Step.bind_ok.mpr ⟨_, _, taken, rfl⟩⟩
  | remembered =>
    obtain ⟨packet, b, popped⟩ := h.backlog.popRemembered_total
    have taken : Step.on (Focus.snd.comp Heap.backlogPart) Backlog.popRemembered (c, h) =
        .ok packet (c, { h with backlog := b }) := Step.on_ok.mpr ⟨b, popped, rfl⟩
    cases packet with
    | none => exact ⟨⟨.objects, [], []⟩, _, Step.bind_ok.mpr ⟨_, _, taken, rfl⟩⟩
    | some packet => exact ⟨⟨.remembered, [], packet.toList⟩, _, Step.bind_ok.mpr ⟨_, _, taken, rfl⟩⟩
  | objects =>
    obtain ⟨item, b, q, found⟩ := Buffer.dequeue_total (b := c.buffer) whole calm
    exact pursue found
  | waiting =>
    obtain ⟨item, b, q, found⟩ := Buffer.resume_total (b := c.buffer) whole calm
    exact pursue found
  | finished => exact ⟨_, _, rfl⟩

/-- A step of a share comes to an end, or it breaks off copying an object. -/
theorem Going.step_total (going : Going g c h s pieces buffers keys slots objects remembered) (sound : g.Sound)
    (closing : c.state = .closing) (whole : h.backlog.objects.poisoned = false) (calm : h.backlog.objects.aborted = false)
    (active : s.slots ≠ [] → h.backlog.objects.drained = false) : (∃ answer t, s.step (c, h) = .ok answer t) ∨
      ∃ slot left e t, s.slots = slot :: left ∧ h.gain? (h.refOf slot) = some .copy ∧
        trace (h.refOf slot) (c, h) = .error e t ∧ s.step (c, h) = .error e t := by
  unfold step
  cases hand : s.slots with
  | cons slot left =>
    have open_ := active (by rw [hand]; exact cons_ne_nil slot left)
    cases traced : trace (h.refOf slot) (c, h) with
    | ok found t =>
      obtain ⟨c₁, h₁⟩ := t
      obtain ⟨b, rfl, -⟩ := going.visits sound hand traced
      obtain ⟨t, processed⟩ : ∃ t, processSlot slot (c, h) = .ok true t := by
        rw [processSlot, Step.get_bind]
        by_cases same : b = h.refOf slot
        · exact ⟨_, Step.bind_ok.mpr ⟨_, _, traced, by simp only [same, if_true]; rfl⟩⟩
        · exact ⟨_, Step.bind_ok.mpr ⟨_, _, traced, by simp only [same, if_false]; rfl⟩⟩
      exact .inl ⟨some { s with slots := left }, t, Step.bind_ok.mpr ⟨true, t, processed, rfl⟩⟩
    | error e t =>
      refine .inr ⟨slot, left, e, t, rfl, ?_, traced, Step.error_bind ?_⟩
      · by_contra uncopied
        obtain ⟨answer, t', total⟩ := going.trace_total sound closing hand whole open_ uncopied
        rw [traced] at total
        cases total
      · rw [processSlot, Step.get_bind]
        exact Step.error_bind traced
  | nil =>
    refine .inl ?_
    cases marked : s.remembered with
    | cons object left => exact ⟨_, _, rfl⟩
    | nil =>
      obtain ⟨next, t, proceeded⟩ := proceed_total (c := c) whole calm s.stage
      by_cases stuck : s.stage = .waiting ∧ next.stage = .waiting
      · exact ⟨none, t, Step.bind_ok.mpr ⟨next, t, proceeded, by rw [if_pos stuck]; rfl⟩⟩
      · exact ⟨some next, t, Step.bind_ok.mpr ⟨next, t, proceeded, by rw [if_neg stuck]; rfl⟩⟩

end Share

end TracingHeap
