import TracingHeap.Collector.Closure
import TracingHeap.Proofs.Copies
import TracingHeap.Proofs.Queues

/-! What a collector does with a reference. Either there is nothing to do for the object, or the collector
is the first to reach it: then the object is marked where it is, or copied, and left to be scanned. -/

namespace TracingHeap

open List Memory Work

variable {h h' h'' : Heap} {c c' c'' : Collector} {pieces pieces' : List Piece} {buffers : List (SpaceId × Span)}
  {keys : List (Nat × Address)} {p q : Piece} {a : Address}

namespace Heap

/-- The collection looks for the object of the piece: its space is evacuated, or marked. -/
def Covered (h : Heap) (p : Piece) : Prop :=
  match h.spaces.space p.home with
  | .copying x => x.evacuating = true
  | .markSweep _ => h.scope.full = true
  | .immortal _ => h.scope.tracesImmortal = true
  | .large _ => True

/-- The collection has nothing more to do for the object than to scan it. -/
def Done (h : Heap) (p : Piece) : Prop := h.Covered p → h.spaces.Reached p

/-- The object stays where it is now for the rest of the collection. -/
def Fixed (h : Heap) (p : Piece) : Prop := h.Done p ∨ ¬ h.spaces.Evacuates p.home

/-- What the work of collectors changes in a heap. -/
def Worked (h h' : Heap) : Prop :=
  ∃ spaces memory demand tally nextFull shortages objects,
    h' = { h with
      spaces, memory, demand, tally
      scope := { h.scope with nextFull }
      program := { h.program with shortages }
      backlog := { h.backlog with objects } }

theorem Worked.refl (h : Heap) : Worked h h := ⟨_, _, _, _, _, _, _, rfl⟩

theorem Worked.trans (one : Worked h h') (two : Worked h' h'') : Worked h h'' := by
  obtain ⟨_, _, _, _, _, _, _, rfl⟩ := one
  obtain ⟨_, _, _, _, _, _, _, rfl⟩ := two
  exact ⟨_, _, _, _, _, _, _, rfl⟩

theorem Served.worked (served : Served h h') : Worked h h' := by
  obtain ⟨_, _, _, _, _, rfl⟩ := served
  exact ⟨_, _, _, _, _, _, h.backlog.objects, rfl⟩

theorem worked_spaces (h : Heap) (spaces : Spaces) : Worked h { h with spaces } := ⟨_, _, _, _, _, _, _, rfl⟩

end Heap

namespace Collector

/-- A collector and the heap it works on, in a collection that traces. -/
structure Ready (c : Collector) (h : Heap) (pieces : List Piece) (buffers : List (SpaceId × Span))
    (keys : List (Nat × Address)) : Prop where
  held : h.spaces.Held h.memory pieces (c.copies.allocators.buffers ++ buffers) (c.copies.allocators.keys ++ keys)
  tracked : h.spaces.Tracked pieces
  aimed : c.copies.Aimed h
  published : ∀ p ∈ pieces, ¬ h.spaces.Claimed p
  still : ¬ h.spaces.Evacuates h.destination
  old : ∀ o, o ∉ h.spaces.large.treadmill.fresh

/-- There was nothing to do. -/
structure Passed (c : Collector) (h : Heap) (c' : Collector) (h' : Heap) (pieces : List Piece)
    (buffers : List (SpaceId × Span)) (keys : List (Nat × Address)) : Prop where
  ready : Ready c' h' pieces buffers keys
  collector : c' = c
  heap : h' = { h with spaces := h'.spaces }
  untouched : h.spaces.Untouched h'.spaces fun q => q ∈ pieces

/-- One object was reached, and is left to be scanned at the place `a`. -/
structure Gained (c : Collector) (h : Heap) (c' : Collector) (h' : Heap) (pieces pieces' : List Piece)
    (buffers : List (SpaceId × Span)) (keys : List (Nat × Address)) (p : Piece) (a : Address) : Prop where
  ready : Ready c' h' pieces' buffers keys
  collector : c' = { c with buffer := c'.buffer, copies := c'.copies }
  worked : h.Worked h'
  untouched : h.spaces.Untouched h'.spaces fun q => q ∈ pieces ∧ q ≠ p
  reached : h'.spaces.Reached p
  image : h'.spaces.image p = a
  memory : ∀ q ∈ pieces, AgreeOn h.memory h'.memory q.span
  restacked : h.backlog.objects.Restacked h'.backlog.objects
  queued : items c'.buffer h'.backlog.objects ~ a :: items c.buffer h.backlog.objects
  counted : (∃ bytes, h'.tally = h.tally.copied bytes) ∧ h.spaces.Evacuates p.home ∨
    h'.tally = h.tally.marked ∧ ¬ h.spaces.Evacuates p.home
  place : ¬ h.spaces.Evacuates p.home ∧ pieces' = pieces ∧ a = p.start ∨
    h.spaces.Evacuates p.home ∧ ∃ q, pieces' = q :: pieces ∧ q.start = a ∧ CopyOf h h' p q

/-- Nothing else is pending that was not. -/
theorem Gained.pending (gained : Gained c h c' h' pieces pieces' buffers keys p a) (x : Address) :
    Pending c'.buffer h'.backlog.objects x ↔ x = a ∨ Pending c.buffer h.backlog.objects x := pending_cons gained.queued

theorem enqueue_ok {u : Unit} (ok : enqueue a (c, h) = .ok u (c', h')) :
    ∃ buffer objects, c' = { c with buffer } ∧ h' = { h with backlog := { h.backlog with objects } } ∧
      h.backlog.objects.Restacked objects ∧ items buffer objects ~ a :: items c.buffer h.backlog.objects := by
  simp only [enqueue, onQueue, Step.onBoth_ok, Focus.comp, Focus.fst, Focus.snd, bufferPart, Heap.backlogPart,
    Backlog.objectsPart, Prod.mk.injEq] at ok
  obtain ⟨buffer, objects, queued, rfl, rfl⟩ := ok
  obtain ⟨restacked, same⟩ := Buffer.enqueue_ok queued
  exact ⟨buffer, objects, rfl, rfl, restacked, same⟩

/-- The readiness of a collector depends on its allocators and on the spaces alone. -/
theorem Ready.carry (ready : Ready c h pieces buffers keys) (copies : c'.copies = c.copies)
    (spaces : h'.spaces = h.spaces) (memory : h'.memory = h.memory) (half : h'.scope.flipped = h.scope.flipped) :
    Ready c' h' pieces buffers keys := by
  have plan : h'.plan = h.plan := by rw [Heap.plan, spaces]; rfl
  refine ⟨?_, ?_, ?_, ?_, ?_, ?_⟩
  · rw [spaces, memory, copies]
    exact ready.held
  · rw [spaces]
    exact ready.tracked
  · rw [copies]
    exact ready.aimed.carry plan half
  · rw [spaces]
    exact ready.published
  · rw [spaces, Heap.destination_congr plan half]
    exact ready.still
  · rw [spaces]
    exact ready.old

/-- What was noted in place leaves the collector ready. -/
theorem Ready.marked {s : Spaces} (ready : Ready c h pieces buffers keys)
    (marked : Spaces.Marked h.spaces s h.memory pieces (c.copies.allocators.buffers ++ buffers)
      (c.copies.allocators.keys ++ keys) p) : Ready c { h with spaces := s } pieces buffers keys := by
  have plan : Heap.plan { h with spaces := s } = h.plan := marked.steady.plan
  refine ⟨marked.held, marked.tracked, ready.aimed.carry plan rfl, fun q member => ?_, ?_, fun o => ?_⟩
  · rw [marked.claimed]
    exact ready.published q member
  · rw [Heap.destination_congr plan rfl, marked.steady.evacuates]
    exact ready.still
  · rw [marked.steady.fresh]
    exact ready.old o

/-- An object that was marked where it is, counted and left to be scanned. -/
theorem Gained.of_marked {s : Spaces} {u : Unit} (ready : Ready c h pieces buffers keys)
    (member : p ∈ pieces) (stays : ¬ h.spaces.Evacuates p.home)
    (marked : Spaces.Marked h.spaces s h.memory pieces (c.copies.allocators.buffers ++ buffers)
      (c.copies.allocators.keys ++ keys) p)
    (ok : enqueue p.start (c, { h with spaces := s, tally := h.tally.marked }) = .ok u (c', h')) :
    Gained c h c' h' pieces pieces buffers keys p p.start := by
  obtain ⟨buffer, objects, rfl, rfl, restacked, queued⟩ := enqueue_ok ok
  refine ⟨(ready.marked marked).carry rfl rfl rfl rfl, rfl, ⟨_, _, _, _, _, _, _, rfl⟩, marked.untouched,
    (marked.reached p member).mpr (.inr rfl), ?_, fun q _ => .refl _ _, restacked, queued, .inr ⟨rfl, stays⟩,
    .inl ⟨stays, rfl, rfl⟩⟩
  exact (marked.image p).trans (ready.tracked.image_eq ready.held member stays)

theorem Passed.refl (ready : Ready c h pieces buffers keys) : Passed c h c h pieces buffers keys :=
  ⟨ready, rfl, rfl, .refl _, fun _ _ => Iff.rfl, fun _ _ => rfl, fun _ _ => Iff.rfl⟩

/-! ### Objects that are marked in place -/

/-- What tracing an object that stays where it is comes to. -/
def Settles (c : Collector) (h : Heap) (c' : Collector) (h' : Heap) (pieces : List Piece)
    (buffers : List (SpaceId × Span)) (keys : List (Nat × Address)) (p : Piece) : Prop :=
  Passed c h c' h' pieces buffers keys ∧ h.spaces.Reached p ∨
    ¬ h.spaces.Reached p ∧ Gained c h c' h' pieces pieces buffers keys p p.start

theorem reached_ok {u : Unit} (ok : reached a (c, h) = .ok u (c', h')) :
    enqueue a (c, { h with tally := h.tally.marked }) = .ok u (c', h') := by
  simpa only [reached, Step.modify_bind] using ok

theorem traceMature_ok {u : Unit} {x : MarkSweepSpace} (ready : Ready c h pieces buffers keys) (member : p ∈ pieces)
    (object : p.isObject = true) (home : p.home = .second) (second : h.spaces.second = .mature x)
    (ok : traceMature p.start (c, h) = .ok u (c', h')) : Settles c h c' h' pieces buffers keys p := by
  have stays : ¬ h.spaces.Evacuates p.home := by simp only [home, Spaces.Evacuates, Spaces.space, second, not_false_eq_true]
  simp only [traceMature, Step.bind_ok, Step.on_ok, Focus.fst, Focus.snd, Heap.onMature_ok, Prod.mk.injEq] at ok
  obtain ⟨won, _, ⟨_, ⟨x', y, m, same, ⟨z, claimed, rfl, rfl⟩, rfl⟩, rfl⟩, ok⟩ := ok
  rw [second] at same
  injection same with same
  subst same
  obtain ⟨cell, found, claim⟩ := MarkSweepSpace.claim_ok claimed
  obtain ⟨cell', found', start⟩ := ready.held.cellOf member home second
  cases found.symm.trans found'
  have reached : h.spaces.Reached p ↔ x.marks.entryByte cell = x.current := by
    simp only [Spaces.Reached, home, Spaces.space, second]
    refine ⟨?_, fun marked => ⟨cell, start, marked⟩⟩
    rintro ⟨c, place, marked⟩
    rwa [Address.toNat_inj.mp (start.trans place.symm)]
  rcases claim with ⟨marked, rfl, unchanged⟩ | ⟨fresh, rfl, rfl⟩
  · left
    simp only [Bool.false_eq_true, if_false, Step.pure_ok, Prod.mk.injEq] at ok
    obtain ⟨-, rfl, rfl⟩ := ok
    have same : { h with spaces := { h.spaces with second := .mature z }, memory := h.memory } = h := by
      rw [unchanged, ← second]
    rw [same]
    exact ⟨.refl ready, reached.mpr marked⟩
  · right
    simp only [if_true] at ok
    exact ⟨fun marked => fresh (reached.mp marked), .of_marked ready member stays
      (Spaces.Marked.of_mature ready.held ready.tracked member object home second start) (reached_ok ok)⟩

theorem traceImmortal_ok {u : Unit} (ready : Ready c h pieces buffers keys) (member : p ∈ pieces)
    (home : p.home = .immortal) (ok : traceImmortal p.start (c, h) = .ok u (c', h')) :
    Settles c h c' h' pieces buffers keys p := by
  have stays : ¬ h.spaces.Evacuates p.home := by simp only [home, Spaces.Evacuates, Spaces.space, not_false_eq_true]
  simp only [traceImmortal, Step.bind_ok, Step.on_ok, Focus.fst, Focus.snd, Heap.onImmortal_ok, Prod.mk.injEq] at ok
  obtain ⟨won, _, ⟨_, ⟨x, m, ⟨y, claimed, rfl, rfl⟩, rfl⟩, rfl⟩, ok⟩ := ok
  obtain ⟨rfl, rfl⟩ := ImmortalSpace.claim_ok claimed
  have seen := Spaces.Marked.of_immortal ready.held ready.tracked member home
  have reached : h.spaces.Reached p ↔ h.spaces.immortal.marks.entryByte p.start = h.spaces.immortal.current := by
    simp only [Spaces.Reached, home, Spaces.space]
  by_cases marked : h.spaces.Reached p
  · left
    rw [reached.mp marked] at ok
    simp only [bne_self_eq_false, Bool.false_eq_true, if_false, Step.pure_ok, Prod.mk.injEq] at ok
    obtain ⟨-, rfl, rfl⟩ := ok
    refine ⟨⟨ready.marked seen, rfl, rfl, seen.steady, fun q inside => ?_, fun q _ => seen.image q,
      fun q _ => seen.claimed q⟩, marked⟩
    rw [seen.reached q inside]
    exact ⟨fun h => h.elim id fun same => same ▸ marked, .inl⟩
  · right
    have fresh : (h.spaces.immortal.marks.entryByte p.start != h.spaces.immortal.current) = true := by
      rw [bne_iff_ne]
      exact fun same => marked (reached.mpr same)
    simp only [fresh, if_true] at ok
    exact ⟨marked, .of_marked ready member stays seen (reached_ok ok)⟩

theorem traceLarge_ok {u : Unit} (ready : Ready c h pieces buffers keys) (member : p ∈ pieces)
    (object : p.isObject = true) (home : p.home = .large) (ok : traceLarge p.start (c, h) = .ok u (c', h')) :
    Settles c h c' h' pieces buffers keys p := by
  have stays : ¬ h.spaces.Evacuates p.home := by simp only [home, Spaces.Evacuates, Spaces.space, not_false_eq_true]
  have reached : h.spaces.Reached p ↔ p.start ∈ h.spaces.large.treadmill.survivors := by
    simp only [Spaces.Reached, home, Spaces.space]
  simp only [traceLarge, Step.bind_ok, Step.on_ok, Focus.fst, Focus.snd, Heap.onLarge_ok, Prod.mk.injEq] at ok
  obtain ⟨answer, _, ⟨_, ⟨x, m, ⟨y, claimed, rfl, rfl⟩, rfl⟩, rfl⟩, ok⟩ := ok
  have tracked := ready.tracked.large
  rcases tracked.claim_ok (ready.old p.start) (tracked.complete p member home object) claimed with
    ⟨survivor, rfl, rfl⟩ | ⟨missed, young, rfl, on, rfl⟩
  · left
    obtain ⟨-, same⟩ := Step.pure_ok.mp ok
    cases same
    exact ⟨.refl ready, reached.mpr survivor⟩
  · right
    simp only [Step.modify_bind, Step.bind_ok, Step.on_ok, Focus.comp, Heap.onLarge_ok, LargeSpace.treadmillPart,
      Prod.mk.injEq] at ok
    obtain ⟨_, _, ⟨_, ⟨z, m, ⟨t, saved, rfl, rfl⟩, rfl⟩, rfl⟩, ok⟩ := ok
    have lists := LargeSpace.save_ok saved
    have seen := Spaces.Marked.of_large ready.held ready.tracked member home object ready.old on
    refine ⟨fun marked => missed (reached.mp marked), ?_⟩
    rw [lists] at ok
    exact .of_marked ready member stays seen ok

end Collector

/-- Only objects of an evacuated space are claimed. -/
theorem Spaces.Tracked.claimed_evacuates {s : Spaces} {m : Memory} (tracked : s.Tracked pieces)
    (held : s.Held m pieces buffers keys) (member : p ∈ pieces) (claimed : s.Claimed p) : s.Evacuates p.home := by
  have inside := held.inside member
  unfold Spaces.Claimed at claimed
  unfold Spaces.Evacuates
  cases space : s.space p.home with
  | copying x =>
    simp only [space] at claimed inside ⊢
    rcases (tracked.copying _ x space).entries p.start inside.1 inside.2 with clear | ⟨evacuating, -⟩
    · rw [clear] at claimed
      cases claimed
    · exact evacuating
  | markSweep x => rw [space] at claimed; exact claimed
  | immortal x => rw [space] at claimed; exact claimed
  | large x => rw [space] at claimed; exact claimed

theorem Heap.Served.backlog (served : h.Served h') : h'.backlog = h.backlog := by
  obtain ⟨_, _, _, _, _, rfl⟩ := served
  rfl

theorem Heap.Served.tally (served : h.Served h') : h'.tally = h.tally := by
  obtain ⟨_, _, _, _, _, rfl⟩ := served
  rfl

namespace Collector

/-! ### Objects that are copied -/

/-- A claimed object is copied and the place of its copy published. -/
theorem evacuate_ok {x : CopySpace} {copies : SideTable} {copied : Word} (ready : Ready c h pieces buffers keys)
    (member : p ∈ pieces) (object : p.isObject = true) (space : h.spaces.space p.home = .copying x)
    (evacuating : x.evacuating = true) (beside : copies.Beside x.pages.extent .word 4)
    (others : ∀ a : Address, x.pages.extent.span.lo ≤ a.toNat →
      x.forwarding.states.index p.start ≠ x.forwarding.states.index a → copies.entry a = x.forwarding.copies.entry a)
    (size : (h.memory.header p.start).size.toNat = p.bytes) (small : p.bytes ≤ 8192)
    (ok : evacuate p.home p.start (promotion h.plan)
      (c, { h with spaces := h.spaces.setCopying p.home (x.noted p.start 2 copies copied) }) = .ok a (c', h')) :
    ∃ q, Gained c h c' h' pieces (q :: pieces) buffers keys p a := by
  have evacuates : h.spaces.Evacuates p.home := by simpa only [Spaces.Evacuates, space] using evacuating
  -- The object is claimed.
  obtain ⟨h₁, same₁⟩ : ∃ h₁, h₁ = { h with
      spaces := h.spaces.setCopying p.home (x.noted p.start 2 copies copied) } := ⟨_, rfl⟩
  have spaces₁ : h₁.spaces = h.spaces.setCopying p.home (x.noted p.start 2 copies copied) := by rw [same₁]
  have memory₁ : h₁.memory = h.memory := by rw [same₁]
  have half₁ : h₁.scope.flipped = h.scope.flipped := by rw [same₁]
  have worked₁ : h.Worked h₁ := same₁ ▸ h.worked_spaces _
  have backlog₁ : h₁.backlog = h.backlog := by rw [same₁]
  have tally₁ : h₁.tally = h.tally := by rw [same₁]
  rw [← same₁] at ok
  have held₁ := ready.held.alike (Spaces.setCopying_alike (y := x.noted p.start 2 copies copied) space rfl)
  have tracked₁ := ready.tracked.noted (n := copied) member object space evacuating (.inl rfl) beside others
  have untouched₁ := @Spaces.noted_untouched _ _ _ _ _ _ _ 2 _ copied ready.tracked ready.held member space others
  rw [← spaces₁] at held₁ tracked₁ untouched₁
  rw [← memory₁] at held₁
  have plan₁ : h₁.plan = h.plan := untouched₁.steady.plan
  -- The copy is made.
  simp only [evacuate, Step.bind_ok, Step.onBoth_ok, Step.on_ok, Focus.comp, Focus.fst, Focus.snd, copiesPart,
    Heap.onCopying_ok, CopySpace.forwardingPart, Step.modify_ok, Step.pure_ok, Prod.mk.injEq] at ok
  obtain ⟨place, _, ⟨copies', h₂, copying, rfl⟩, _, _, ⟨_, ⟨y, z, m, space₂, ⟨_, _, ⟨f, published, rfl⟩, rfl, rfl⟩, rfl⟩,
    rfl⟩, _, _, rfl, _, _, queued, rfl, rfl⟩ := ok
  rw [← plan₁] at copying
  obtain ⟨q, rfl, made, aimed₂, held₂⟩ := CopyContext.copy_ok (ready.aimed.carry plan₁ half₁) held₁ tracked₁ member
    (by rw [memory₁]; exact size) small copying
  have differ : p ≠ q := held₂.fresh member
  have inner := mem_cons_of_mem q member
  -- The place of the copy is published.
  obtain rfl := Forwarding.publish_ok published
  have evacuates₂ : h₂.spaces.Evacuates p.home :=
    (made.untouched.steady.evacuates _).mpr ((untouched₁.steady.evacuates _).mpr evacuates)
  have evacuating₂ : y.evacuating = true := by simpa only [Spaces.Evacuates, space₂] using evacuates₂
  have table₂ := made.tracked.copying _ y space₂
  have inside₂ := held₂.inside inner
  rw [space₂] at inside₂
  have others₃ : ∀ a : Address, y.pages.extent.span.lo ≤ a.toNat →
      y.forwarding.states.index p.start ≠ y.forwarding.states.index a →
        (y.forwarding.copies.put p.start q.start.word).entry a = y.forwarding.copies.entry a := fun a low other => by
    rw [SideTable.entry_put, table₂.index_eq inside₂.1, table₂.index_eq low, if_neg other]
  have tracked₃ := made.tracked.noted (n := y.copied + 1) inner object space₂ evacuating₂ (.inr rfl)
    (table₂.copies.put p.start q.start.word) others₃
  have untouched₃ := @Spaces.noted_untouched _ _ _ _ _ _ _ 3 (y.forwarding.copies.put p.start q.start.word)
    (y.copied + 1) made.tracked held₂ inner space₂ others₃
  have reached₃ := (@Spaces.noted_reached _ _ _ _ 3 (y.forwarding.copies.put p.start q.start.word)
    (y.copied + 1) made.tracked space₂).mpr rfl
  have image₃ := @Spaces.noted_image _ _ _ _ 3 (y.forwarding.copies.put p.start q.start.word)
    (y.copied + 1) made.tracked space₂ rfl
  rw [SideTable.entry_put, if_pos rfl, table₂.copies.wide] at image₃
  have claimed₃ := @Spaces.noted_claimed _ _ _ _ 3 (y.forwarding.copies.put p.start q.start.word)
    (y.copied + 1) made.tracked space₂
  have held₃ := held₂.alike (Spaces.setCopying_alike
    (y := y.noted p.start 3 (y.forwarding.copies.put p.start q.start.word) (y.copied + 1)) space₂ rfl)
  obtain ⟨s, spaces₃⟩ : ∃ s, s = h₂.spaces.setCopying p.home
      (y.noted p.start 3 (y.forwarding.copies.put p.start q.start.word) (y.copied + 1)) := ⟨_, rfl⟩
  obtain ⟨buffer, objects, rfl, rfl, restacked, queued⟩ := enqueue_ok queued
  change items buffer objects ~ q.start :: items c.buffer h₂.backlog.objects at queued
  change h₂.backlog.objects.Restacked objects at restacked
  rw [made.served.backlog, backlog₁] at queued restacked
  rw [← spaces₃] at held₃ tracked₃ untouched₃ reached₃ image₃ claimed₃
  have steady := untouched₁.steady.trans (made.untouched.steady.trans untouched₃.steady)
  have half₃ : h₂.scope.flipped = h.scope.flipped := made.served.flipped.trans half₁
  have still : ¬ s.Evacuates h.destination := fun bad => ready.still ((steady.evacuates _).mp bad)
  have copy : CopyOf h { h₂ with spaces := s } p q := by
    refine ⟨made.copy.bytes, made.copy.object, made.copy.home.trans (Heap.destination_congr plan₁ half₁), ?_, ?_,
      fun w second => ?_⟩
    · have content := made.copy.content
      rw [memory₁] at content
      exact content
    · rw [untouched₃.steady.freshMark]
      exact made.copy.mark
    · have reached := made.copy.mature w (Spaces.setCopying_mature space₂ (spaces₃ ▸ second))
      exact (untouched₃.reached q ⟨mem_cons_self, Ne.symm differ⟩).mpr reached
  have home : q.home = h.destination := copy.home
  have published : ∀ r ∈ q :: pieces, ¬ s.Claimed r := by
    intro r inside claimed
    rcases mem_cons.mp inside with rfl | inside
    · have bad := tracked₃.claimed_evacuates held₃ mem_cons_self claimed
      rw [home] at bad
      exact still bad
    · by_cases same : r = p
      · rw [same, claimed₃] at claimed
        revert claimed
        decide
      · rw [untouched₃.claimed r ⟨mem_cons_of_mem _ inside, same⟩, made.untouched.claimed r inside,
          untouched₁.claimed r ⟨inside, same⟩] at claimed
        exact ready.published r inside claimed
  have plan₃ : Heap.plan { h₂ with spaces := s } = h.plan := steady.plan
  have ready₃ : Ready { c with copies := copies' } { h₂ with spaces := s } (q :: pieces) buffers keys := by
    refine ⟨held₃, tracked₃, aimed₂.carry untouched₃.steady.plan rfl, published, ?_, fun o => ?_⟩
    · rw [Heap.destination_congr plan₃ half₃]
      exact still
    · rw [steady.fresh]
      exact ready.old o
  have worked : h.Worked { h₂ with spaces := s } := worked₁.trans (made.served.worked.trans (h₂.worked_spaces s))
  have untouched : h.spaces.Untouched s fun r => r ∈ pieces ∧ r ≠ p :=
    untouched₁.trans ((made.untouched.mono fun r inside => inside.1).trans
      (untouched₃.mono fun r inside => ⟨mem_cons_of_mem _ inside.1, inside.2⟩))
  subst spaces₃
  refine ⟨q, ready₃.carry rfl rfl rfl rfl, rfl, worked.trans ⟨_, _, _, _, _, _, _, rfl⟩, untouched, reached₃, image₃,
    fun r inside => ?_, restacked, queued, .inl ⟨⟨_, by rw [← tally₁, ← made.served.tally]⟩, evacuates⟩,
    .inr ⟨evacuates, q, rfl, rfl, ?_⟩⟩
  · have same := made.memory r inside
    rw [memory₁] at same
    exact same
  · exact ⟨copy.bytes, copy.object, copy.home, copy.content, copy.mark, copy.mature⟩

/-- What tracing an object comes to: there was nothing to do, and the answer is where the object is now; or
the object is reached, and the answer is where it is from now on. -/
inductive Traced (c : Collector) (h : Heap) (c' : Collector) (h' : Heap) (pieces : List Piece)
    (buffers : List (SpaceId × Span)) (keys : List (Nat × Address)) (p : Piece) : Option Address → Prop where
  | passed (passed : Passed c h c' h' pieces buffers keys) (done : h.Done p) :
    Traced c h c' h' pieces buffers keys p (some (h.spaces.image p))
  | gained (covered : h.Covered p) (missed : ¬ h.spaces.Reached p) (pieces' : List Piece) (a : Address)
    (gained : Gained c h c' h' pieces pieces' buffers keys p a) : Traced c h c' h' pieces buffers keys p (some a)

theorem traceCopying_ok {x : CopySpace} {answer : Option Address} (ready : Ready c h pieces buffers keys)
    (member : p ∈ pieces) (object : p.isObject = true) (space : h.spaces.space p.home = .copying x)
    (size : h.spaces.Evacuates p.home → ¬ h.spaces.Reached p →
      (h.memory.header p.start).size.toNat = p.bytes ∧ p.bytes ≤ 8192)
    (ok : traceCopying p.home p.start (promotion h.plan) (c, h) = .ok answer (c', h')) :
    Traced c h c' h' pieces buffers keys p answer := by
  have covered : h.Covered p ↔ x.evacuating = true := by simp only [Heap.Covered, space]
  have evacuates : h.spaces.Evacuates p.home ↔ x.evacuating = true := by simp only [Spaces.Evacuates, space]
  have reached : h.spaces.Reached p ↔ x.forwarding.states.entryByte p.start = 3 := by
    simp only [Spaces.Reached, space]
  have table := ready.tracked.copying _ x space
  have inside := ready.held.inside member
  rw [space] at inside
  have same : { h with spaces := h.spaces.setCopying p.home x, memory := h.memory } = h := by
    rw [Spaces.setCopying_self space]
  simp only [traceCopying, Step.bind_ok, Step.on_ok, Focus.snd, Heap.onCopying_ok, Step.get_bind, Step.ite_step] at ok
  obtain ⟨claim, _, ⟨_, ⟨x', y, m, space', claimed, rfl⟩, rfl⟩, ok⟩ := ok
  rw [space] at space'
  injection space' with space'
  subst space'
  by_cases evacuating : x.evacuating = true
  · rw [if_neg (by rw [evacuating]; decide)] at claimed
    simp only [Step.bind_ok, Step.on_ok, Focus.comp, Focus.fst, CopySpace.forwardingPart, Step.pure_ok] at claimed
    obtain ⟨state, _, ⟨f, claimed, rfl⟩, rfl, rfl, rfl⟩ := claimed
    obtain ⟨rfl, claimed⟩ := Forwarding.claim_ok claimed
    rcases claimed with ⟨taken, rfl⟩ | ⟨fresh, rfl⟩
    · -- The object was claimed before, and its copy is published.
      have state : x.forwarding.states.entryByte p.start = 3 := by
        rcases table.entries p.start inside.1 inside.2 with clear | ⟨-, pending | published, -⟩
        · exact absurd clear taken
        · refine absurd ?_ (ready.published p member)
          simp only [Spaces.Claimed, space]
          exact pending
        · exact published
      rw [same, state] at ok
      have published : ForwardingState.isTaken 3 = true := by decide
      simp only [published, if_true, Step.on_ok, Heap.onCopying_ok, Step.ask_ok, Prod.mk.injEq] at ok
      obtain ⟨_, ⟨x', _, _, space', ⟨looked, rfl, rfl⟩, rfl⟩, rfl, rfl⟩ := ok
      rw [space] at space'
      injection space' with space'
      subst space'
      have answer := Forwarding.look_ok looked
      rw [same]
      have image : h.spaces.image p = ⟨x.forwarding.copies.entry p.start⟩ := by
        simp only [Spaces.image, space, state, if_true]
      rw [answer, ← image]
      exact .passed (.refl ready) fun _ => reached.mpr state
    · rw [fresh] at ok
      have unclaimed : ForwardingState.isTaken 0 = false := by decide
      simp only [unclaimed, Bool.false_eq_true, if_false, Step.bind_ok, Step.pure_ok] at ok
      obtain ⟨a, _, evacuated, rfl, rfl⟩ := ok
      have missed : ¬ h.spaces.Reached p := by
        intro bad
        rw [reached, fresh] at bad
        cases bad
      obtain ⟨fits, small⟩ := size (evacuates.mpr evacuating) missed
      obtain ⟨q, gained⟩ := @evacuate_ok _ _ _ _ _ _ _ _ _ _ _ x.copied ready member object space evacuating table.copies
        (fun _ _ _ => rfl) fits small evacuated
      exact .gained (covered.mpr evacuating) missed _ _ gained
  · rw [if_pos (by rw [Bool.eq_false_iff.mpr evacuating]; rfl)] at claimed
    simp only [Step.pure_ok, Prod.mk.injEq] at claimed
    obtain ⟨rfl, rfl, rfl⟩ := claimed
    rw [same] at ok
    simp only [Step.pure_ok, Prod.mk.injEq] at ok
    obtain ⟨rfl, rfl, rfl⟩ := ok
    rw [← ready.tracked.image_eq ready.held member (fun bad => evacuating (evacuates.mp bad))]
    exact .passed (.refl ready) fun bad => absurd (covered.mp bad) evacuating

/-- Does the collection cover the space of the piece? -/
theorem covers_of_covered (covered : h.Covered p) : covers h p.home = true := by
  unfold Heap.Covered at covered
  unfold covers
  cases home : p.home with
  | first => rfl
  | large => rfl
  | immortal =>
    rw [home] at covered
    exact covered
  | second =>
    rw [home] at covered
    cases second : h.spaces.second with
    | mature x =>
      simp only [Spaces.space, second] at covered
      simp only [Heap.plan, Spaces.plan, second, covered]
    | twin x => simp only [Heap.plan, Spaces.plan, second]

theorem Settles.traced (settles : Settles c h c' h' pieces buffers keys p) (ready : Ready c h pieces buffers keys)
    (member : p ∈ pieces) (covered : h.Covered p) (stays : ¬ h.spaces.Evacuates p.home) :
    Traced c h c' h' pieces buffers keys p (some p.start) := by
  rcases settles with ⟨passed, reached⟩ | ⟨missed, gained⟩
  · rw [← ready.tracked.image_eq ready.held member stays]
    exact .passed passed fun _ => reached
  · exact .gained covered missed pieces p.start gained

/-- Tracing never waits: the copies of all claimed objects are published. -/
theorem trace_ok {answer : Option Address} (ready : Ready c h pieces buffers keys) (member : p ∈ pieces)
    (object : p.isObject = true) (proper : p.start ≠ .null)
    (size : h.spaces.Evacuates p.home → ¬ h.spaces.Reached p →
      (h.memory.header p.start).size.toNat = p.bytes ∧ p.bytes ≤ 8192)
    (ok : trace p.start (c, h) = .ok answer (c', h')) : Traced c h c' h' pieces buffers keys p answer := by
  have ran : traceObject p.start (c, h) = .ok answer (c', h') := by
    unfold trace at ok
    rw [Step.ite_step, if_neg fun null => proper (Address.isNull_iff.mp null), Step.get_bind] at ok
    cases state : c.state with
    | prepared => simpa only [state] using ok
    | closing => simpa only [state] using ok
    | unused => simp only [state, Step.throw_ok] at ok
    | released => simp only [state, Step.throw_ok] at ok
  simp only [traceObject, Step.get_bind, ready.held.holding member] at ran
  rw [Step.ite_step] at ran
  by_cases covers : covers h p.home = true
  · rw [if_pos covers, traceIn, Step.get_bind] at ran
    cases space : h.spaces.space p.home with
    | copying x =>
      simp only [space] at ran
      exact traceCopying_ok ready member object space size ran
    | markSweep x =>
      obtain ⟨home, second⟩ := Spaces.second_of_markSweep space
      simp only [space, Step.bind_ok, Step.pure_ok] at ran
      obtain ⟨_, _, traced, rfl, rfl⟩ := ran
      have full : h.Covered p := by
        simp only [Heap.Covered, space]
        simpa only [Collector.covers, home, Heap.plan, Spaces.plan, second] using covers
      exact (traceMature_ok ready member object home second traced).traced ready member full (by simp only [Spaces.Evacuates, space, not_false_eq_true])
    | immortal x =>
      have home : p.home = .immortal := by
        cases home : p.home with
        | immortal => rfl
        | first => rw [home] at space; cases space
        | large => rw [home] at space; cases space
        | second =>
          rw [home] at space
          cases second : h.spaces.second <;> simp only [Spaces.space, second] at space <;> cases space
      simp only [space, Step.bind_ok, Step.pure_ok] at ran
      obtain ⟨_, _, traced, rfl, rfl⟩ := ran
      have full : h.Covered p := by
        simp only [Heap.Covered, space]
        simpa only [Collector.covers, home] using covers
      exact (traceImmortal_ok ready member home traced).traced ready member full (by simp only [Spaces.Evacuates, space, not_false_eq_true])
    | large x =>
      have home : p.home = .large := by
        cases home : p.home with
        | large => rfl
        | first => rw [home] at space; cases space
        | immortal => rw [home] at space; cases space
        | second =>
          rw [home] at space
          cases second : h.spaces.second <;> simp only [Spaces.space, second] at space <;> cases space
      simp only [space, Step.bind_ok, Step.pure_ok] at ran
      obtain ⟨_, _, traced, rfl, rfl⟩ := ran
      have full : h.Covered p := by simp only [Heap.Covered, space]
      exact (traceLarge_ok ready member object home traced).traced ready member full (by simp only [Spaces.Evacuates, space, not_false_eq_true])
  · rw [if_neg covers] at ran
    simp only [Step.pure_ok, Prod.mk.injEq] at ran
    obtain ⟨rfl, rfl, rfl⟩ := ran
    have done : ¬ h.Covered p := fun bad => covers (covers_of_covered bad)
    rw [← ready.tracked.image_eq ready.held member fun bad => done (by
      unfold Spaces.Evacuates at bad
      unfold Heap.Covered
      cases space : h.spaces.space p.home with
      | copying x => simpa only [space] using bad
      | markSweep x => simp only [space] at bad
      | immortal x => simp only [space] at bad
      | large x => trivial)]
    exact .passed (.refl ready) fun bad => absurd bad done

end Collector

end TracingHeap
