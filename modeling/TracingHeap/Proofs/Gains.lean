import TracingHeap.Proofs.Keeping
import TracingHeap.Proofs.Markings
import TracingHeap.Proofs.Shares

/-! What a collector gains by tracing an object. It claims the object, and if it wins, it copies or marks it; that happens
once for each object that the collection covers. Tracing an object that was won before comes to an end: it answers the place
where the object is, and leaves everything as it is. -/

namespace TracingHeap

open List Memory Work

/-- What a collector does with an object that it has won. -/
inductive Gain where
  | copy
  | mark
  deriving DecidableEq

/-- What a collector that claims an object in the space would do with it, if it won it. -/
def Space.gain? (o : Address) : Space → Option Gain
  | .copying x =>
    if x.evacuating = true ∧ (Forwarding.claim o).answer x.forwarding = some ForwardingState.unclaimed then some .copy else none
  | .markSweep x => if (MarkSweepSpace.claim o).answer x = some true then some .mark else none
  | .immortal x => if (ImmortalSpace.claim o).answer x = some true then some .mark else none
  | .large x => if ((LargeSpace.claim o).answer x).join.isSome = true then some .mark else none

/-- What a collector does with an object that it comes to now, if that is the first time. -/
def Heap.gain? (h : Heap) (o : Address) : Option Gain :=
  if o.isNull then none
  else (h.spaces.holding? o).bind fun id => if Collector.covers h id then (h.spaces.space id).gain? o else none

theorem Step.answer_of_ok {σ α : Type} {x : Step σ α} {s t : σ} {a : α} (ok : x s = .ok a t) : x.answer s = some a := by
  rw [Step.answer, ok]

/-! ### Claims come to an end -/

theorem SideTable.loadByte_of_load {t : SideTable} {a : Address} (loaded : t.load a = .ok (t.entry a)) :
    t.loadByte a = .ok (t.entryByte a) := by
  rw [SideTable.loadByte, loaded]
  rfl

theorem MarkSweepSpace.claim_total {x : MarkSweepSpace} {o cell : Address} (found : x.cellOf o = .ok cell)
    (loaded : x.marks.load cell = .ok (x.marks.entry cell)) : ∃ won y, claim o x = .ok won y := by
  obtain ⟨t, stored⟩ := SideTable.store_total loaded x.current.toUInt64
  have byte := SideTable.loadByte_of_load loaded
  by_cases marked : (x.marks.entryByte cell == x.current) = true
  · refine ⟨false, x, ?_⟩
    simp only [claim, Step.get_bind, Step.bind_ok, Step.lift_ok]
    exact ⟨cell, x, ⟨found, rfl⟩, _, x, ⟨byte, rfl⟩, by rw [if_pos marked]; rfl⟩
  · refine ⟨true, { x with marks := t }, ?_⟩
    simp only [claim, Step.get_bind, Step.bind_ok, Step.lift_ok]
    refine ⟨cell, x, ⟨found, rfl⟩, _, x, ⟨byte, rfl⟩, ?_⟩
    rw [if_neg marked]
    exact Step.bind_ok.mpr ⟨(), _, Step.on_ok.mpr ⟨t, stored, rfl⟩, rfl⟩

theorem ImmortalSpace.claim_total {x : ImmortalSpace} {o : Address} (loaded : x.marks.load o = .ok (x.marks.entry o)) :
    ∃ won y, claim o x = .ok won y := by
  obtain ⟨t, stored⟩ := SideTable.store_total loaded x.current.toUInt64
  refine ⟨x.marks.entryByte o != x.current, { x with marks := t }, ?_⟩
  simp only [claim, Step.get_bind, Step.bind_ok, Step.lift_ok]
  exact ⟨_, x, ⟨SideTable.loadByte_of_load loaded, rfl⟩, (), _, Step.on_ok.mpr ⟨t, stored, rfl⟩, rfl⟩

theorem LargeSpace.mark_total {x : LargeSpace} {o : Address} (loaded : x.marks.load o = .ok (x.marks.entry o)) (value : UInt8) :
    ∃ won y, LargeSpace.mark o value x = .ok won y := by
  have byte := SideTable.loadByte_of_load loaded
  by_cases marked : (x.marks.entryByte o &&& (if x.youngOnly = true then markMask else reachedBit) == value) = true
  · refine ⟨false, x, ?_⟩
    simp only [LargeSpace.mark, Step.get_bind, Step.bind_ok, Step.lift_ok]
    exact ⟨_, x, ⟨byte, rfl⟩, by rw [Step.ite_step, if_pos marked]; rfl⟩
  · obtain ⟨t, stored⟩ := SideTable.store_total loaded ((x.marks.entryByte o &&& ~~~markMask) ||| value).toUInt64
    refine ⟨true, { x with marks := t }, ?_⟩
    simp only [LargeSpace.mark, Step.get_bind, Step.bind_ok, Step.lift_ok]
    refine ⟨_, x, ⟨byte, rfl⟩, ?_⟩
    rw [Step.ite_step, if_neg marked]
    exact Step.bind_ok.mpr ⟨(), _, Step.on_ok.mpr ⟨t, stored, rfl⟩, rfl⟩

theorem LargeSpace.claim_total {x : LargeSpace} {o : Address} (loaded : x.marks.load o = .ok (x.marks.entry o)) :
    ∃ answer y, claim o x = .ok answer y := by
  obtain ⟨won, y, marked⟩ := mark_total loaded x.current
  have young : x.isYoung o = .ok (x.marks.entryByte o &&& youngBit == youngBit) := by
    rw [isYoung, SideTable.loadByte_of_load loaded]
    rfl
  simp only [claim, Step.get_bind, Step.bind_ok, Step.lift_ok]
  by_cases skipped : (x.youngOnly && !(x.marks.entryByte o &&& youngBit == youngBit)) = true
  · exact ⟨none, x, _, x, ⟨young, rfl⟩, by rw [Step.ite_step, if_pos skipped]; rfl⟩
  · cases won with
    | true => exact ⟨_, y, _, x, ⟨young, rfl⟩, by
        rw [Step.ite_step, if_neg skipped]
        exact Step.bind_ok.mpr ⟨true, y, marked, rfl⟩⟩
    | false => exact ⟨_, y, _, x, ⟨young, rfl⟩, by
        rw [Step.ite_step, if_neg skipped]
        exact Step.bind_ok.mpr ⟨false, y, marked, rfl⟩⟩

theorem Forwarding.claim_total {f : Forwarding} {o : Address} (loaded : f.states.load o = .ok (f.states.entry o)) :
    ∃ f', claim o f = .ok (f.states.entryByte o) f' := by
  have state : f.stateOf o = .ok (f.states.entryByte o) := SideTable.loadByte_of_load loaded
  by_cases clear : (f.states.entryByte o == ForwardingState.unclaimed) = true
  · obtain ⟨t, stored⟩ := SideTable.store_total loaded ForwardingState.claimed.toUInt64
    refine ⟨{ f with states := t }, ?_⟩
    simp only [claim, Step.bind_ok, Step.ask_ok]
    refine ⟨_, f, ⟨state, rfl⟩, ?_⟩
    rw [if_pos clear]
    exact Step.bind_ok.mpr ⟨(), _, Step.on_ok.mpr ⟨t, stored, rfl⟩, rfl⟩
  · refine ⟨f, ?_⟩
    simp only [claim, Step.bind_ok, Step.ask_ok]
    exact ⟨_, f, ⟨state, rfl⟩, by rw [if_neg clear]; rfl⟩

/-! ### Objects of a collection -/

/-- The table holds the same values, however it keeps them. -/
structure SideTable.Same (t t' : SideTable) : Prop where
  frame : t' = { t with entries := t'.entries }
  bytes : ∀ a, t'.entryByte a = t.entryByte a

theorem SideTable.Same.refl (t : SideTable) : t.Same t := ⟨rfl, fun _ => rfl⟩

/-- Storing what is there changes nothing. -/
theorem SideTable.Same.put {t : SideTable} {a : Address} {value : UInt8} (wide : t.width = .byte)
    (there : t.entryByte a = value) : t.Same (t.put a value.toUInt64) := by
  refine ⟨rfl, fun b => ?_⟩
  rw [entryByte_put wide]
  split
  · rename_i same
    rw [← there, entryByte, entryByte, entry, entry, same]
  · rfl

variable {h h' : Heap} {c c' : Collector} {pieces pieces' : List Piece} {buffers : List (SpaceId × Span)}
  {keys : List (Nat × Address)} {p : Piece}

/-- The heap with another table of immortal marks. -/
def Heap.remarked (h : Heap) (t : SideTable) : Heap :=
  { h with spaces := { h.spaces with immortal := { h.spaces.immortal with marks := t } } }

namespace Collector

/-- The object of a copying space can be claimed. -/
theorem Ready.claims_copying {x : CopySpace} (ready : Ready c h pieces buffers keys) (member : p ∈ pieces)
    (space : h.spaces.space p.home = .copying x) :
    ∃ f, Forwarding.claim p.start x.forwarding = .ok (x.forwarding.states.entryByte p.start) f := by
  have placed := ready.held.estate.laid.placed p.home
  have inside := ready.held.inside member
  rw [space] at placed inside
  exact Forwarding.claim_total
    ((ready.tracked.copying _ x space).states.load_total placed rfl (by decide) inside.1 inside.2)

/-- The object of a space that marks can be claimed, and is won unless it was reached before. -/
theorem Ready.claims_mature {x : MarkSweepSpace} (ready : Ready c h pieces buffers keys) (member : p ∈ pieces)
    (object : p.isObject = true) (home : p.home = .second) (second : h.spaces.second = .mature x) :
    ∃ won y, MarkSweepSpace.claim p.start x = .ok won y ∧ (won = true ↔ ¬ h.spaces.Reached p) ∧ (won = false → y = x) := by
  have arena := ready.held.mature_arena ready.tracked second
  have known : Spaces.objectsOf pieces .second p.start := ⟨p, member, home, object, rfl⟩
  obtain ⟨won, y, claimed⟩ := MarkSweepSpace.claim_total (arena.known _ known) (arena.load arena.table known).1
  obtain ⟨cell, found, claim⟩ := MarkSweepSpace.claim_ok claimed
  obtain ⟨cell', found', start⟩ := ready.held.cellOf member home second
  cases found.symm.trans found'
  have reached : h.spaces.Reached p ↔ x.marks.entryByte cell = x.current := by
    simp only [Spaces.Reached, home, Spaces.space, second]
    refine ⟨?_, fun marked => ⟨cell, start, marked⟩⟩
    rintro ⟨c, place, marked⟩
    rwa [Address.toNat_inj.mp (start.trans place.symm)]
  refine ⟨won, y, claimed, ?_⟩
  rw [reached]
  rcases claim with ⟨marked, rfl, rfl⟩ | ⟨fresh, rfl, rfl⟩
  · exact ⟨⟨fun won => (by cases won), fun missed => absurd marked missed⟩, fun _ => rfl⟩
  · exact ⟨⟨fun _ => fresh, fun _ => rfl⟩, fun lost => by cases lost⟩

theorem Ready.claims_immortal (ready : Ready c h pieces buffers keys) (member : p ∈ pieces) (home : p.home = .immortal) :
    ∃ won y, ImmortalSpace.claim p.start h.spaces.immortal = .ok won y ∧ (won = true ↔ ¬ h.spaces.Reached p) ∧
      (won = false → ∃ t, h.spaces.immortal.marks.Same t ∧ y = { h.spaces.immortal with marks := t }) := by
  have inside := ready.held.inside member
  rw [home] at inside
  obtain ⟨won, y, claimed⟩ := ImmortalSpace.claim_total
    (ready.tracked.immortal.table.load_total (ready.held.estate.laid.placed .immortal) rfl (by decide) inside.1 inside.2)
  obtain ⟨rfl, rfl⟩ := ImmortalSpace.claim_ok claimed
  have reached : h.spaces.Reached p ↔ h.spaces.immortal.marks.entryByte p.start = h.spaces.immortal.current := by
    simp only [Spaces.Reached, home, Spaces.space]
  refine ⟨_, _, claimed, by rw [reached, bne_iff_ne], fun lost => ⟨_, ?_, rfl⟩⟩
  exact .put ready.tracked.immortal.table.wide (Decidable.byContradiction fun other => by
    rw [bne_iff_ne.mpr other] at lost
    cases lost)

theorem Ready.claims_large (ready : Ready c h pieces buffers keys) (member : p ∈ pieces) (object : p.isObject = true)
    (home : p.home = .large) :
    ∃ answer y, LargeSpace.claim p.start h.spaces.large = .ok answer y ∧ (answer.isSome = true ↔ ¬ h.spaces.Reached p) ∧
      (answer = none → y = h.spaces.large) := by
  have inside := ready.held.inside member
  rw [home] at inside
  have tracked := ready.tracked.large
  obtain ⟨answer, y, claimed⟩ := LargeSpace.claim_total
    (tracked.table.load_total (ready.held.estate.laid.placed .large) rfl (Nat.le_refl 12) inside.1 inside.2)
  have reached : h.spaces.Reached p ↔ p.start ∈ h.spaces.large.treadmill.survivors := by
    simp only [Spaces.Reached, home, Spaces.space]
  refine ⟨answer, y, claimed, ?_⟩
  rw [reached]
  rcases tracked.claim_ok (ready.old p.start) (tracked.complete p member home object) claimed with
    ⟨survivor, rfl, rfl⟩ | ⟨missed, young, rfl, -, -⟩
  · exact ⟨⟨fun won => (by cases won), fun missed => absurd survivor missed⟩, fun _ => rfl⟩
  · exact ⟨⟨fun _ => missed, fun _ => rfl⟩, fun lost => by cases lost⟩

/-- A space that marks is covered as a whole, and its objects stay. -/
theorem marks_of_covers {space : Space} (covers : covers h p.home = true) (here : h.spaces.space p.home = space)
    (marks : ∀ x, space ≠ .copying x) : h.Covered p ∧ ¬ h.spaces.Evacuates p.home := by
  unfold Heap.Covered Spaces.Evacuates
  rw [here]
  cases space with
  | copying x => exact absurd rfl (marks x)
  | markSweep x =>
    obtain ⟨home, second⟩ := Spaces.second_of_markSweep here
    exact ⟨by simpa only [Collector.covers, home, Heap.plan, Spaces.plan, second] using covers, id⟩
  | immortal x =>
    have home := Spaces.home_of_immortal here
    exact ⟨by simpa only [Collector.covers, home] using covers, id⟩
  | large x => exact ⟨trivial, id⟩

/-- Objects that move are covered. -/
theorem covered_of_evacuates (moves : h.spaces.Evacuates p.home) : h.Covered p := by
  unfold Heap.Covered
  unfold Spaces.Evacuates at moves
  cases space : h.spaces.space p.home with
  | copying x => simpa only [space] using moves
  | markSweep x => simp only [space] at moves
  | immortal x => simp only [space] at moves
  | large x => trivial

theorem not_done_iff : ¬ h.Done p ↔ h.Covered p ∧ ¬ h.spaces.Reached p := by
  rw [Heap.Done, Classical.not_imp]

/-- The space of the piece, when the collection covers it. -/
theorem Ready.gain_eq (ready : Ready c h pieces buffers keys) (member : p ∈ pieces) (proper : p.start ≠ .null) :
    h.gain? p.start = if covers h p.home then (h.spaces.space p.home).gain? p.start else none := by
  rw [Heap.gain?, if_neg (fun null => proper (Address.isNull_iff.mp null)), ready.held.holding member]
  rfl

/-- A collector gains every object that the collection covers and has not reached, and no other one. -/
theorem Ready.gain_cases (ready : Ready c h pieces buffers keys) (member : p ∈ pieces) (object : p.isObject = true)
    (proper : p.start ≠ .null) : h.Done p ∧ h.gain? p.start = none ∨
      ¬ h.Done p ∧ h.spaces.Evacuates p.home ∧ h.gain? p.start = some .copy ∨
      ¬ h.Done p ∧ ¬ h.spaces.Evacuates p.home ∧ h.gain? p.start = some .mark := by
  rw [ready.gain_eq member proper]
  by_cases covers : covers h p.home = true
  · rw [if_pos covers]
    cases space : h.spaces.space p.home with
    | copying x =>
      obtain ⟨f, claimed⟩ := ready.claims_copying member space
      have covered : h.Covered p ↔ x.evacuating = true := by simp only [Heap.Covered, space]
      have evacuates : h.spaces.Evacuates p.home ↔ x.evacuating = true := by simp only [Spaces.Evacuates, space]
      have reached : h.spaces.Reached p ↔ x.forwarding.states.entryByte p.start = 3 := by simp only [Spaces.Reached, space]
      have claimed' : h.spaces.Claimed p ↔ x.forwarding.states.entryByte p.start = 2 := by simp only [Spaces.Claimed, space]
      rw [not_done_iff, Heap.Done, covered, evacuates, reached, Space.gain?, Step.answer_of_ok claimed]
      have inside := ready.held.inside member
      rw [space] at inside
      rcases (ready.tracked.copying _ x space).entries p.start inside.1 inside.2 with clear | ⟨evacuating, pending | published, -⟩
      · rw [clear]
        by_cases evacuating : x.evacuating = true
        · exact .inr (.inl ⟨⟨evacuating, by decide⟩, evacuating, if_pos ⟨evacuating, rfl⟩⟩)
        · exact .inl ⟨fun bad => absurd bad evacuating, if_neg fun bad => evacuating bad.1⟩
      · exact absurd (claimed'.mpr pending) (ready.published p member)
      · rw [published]
        exact .inl ⟨fun _ => rfl, if_neg fun bad => absurd (Option.some.inj bad.2) (by decide)⟩
    | markSweep x =>
      obtain ⟨covered, stays⟩ := marks_of_covers covers space fun _ => Space.noConfusion
      obtain ⟨home, second⟩ := Spaces.second_of_markSweep space
      obtain ⟨won, y, claimed, iff, -⟩ := ready.claims_mature member object home second
      rw [Space.gain?, Step.answer_of_ok claimed]
      by_cases reached : h.spaces.Reached p
      · exact .inl ⟨fun _ => reached, if_neg fun bad => iff.mp (Option.some.inj bad) reached⟩
      · exact .inr (.inr ⟨not_done_iff.mpr ⟨covered, reached⟩, stays, if_pos (congrArg some (iff.mpr reached))⟩)
    | immortal x =>
      obtain ⟨covered, stays⟩ := marks_of_covers covers space fun _ => Space.noConfusion
      have home := Spaces.home_of_immortal space
      obtain ⟨won, y, claimed, iff, -⟩ := ready.claims_immortal member home
      rw [home] at space
      cases space
      rw [Space.gain?, Step.answer_of_ok claimed]
      by_cases reached : h.spaces.Reached p
      · exact .inl ⟨fun _ => reached, if_neg fun bad => iff.mp (Option.some.inj bad) reached⟩
      · exact .inr (.inr ⟨not_done_iff.mpr ⟨covered, reached⟩, stays, if_pos (congrArg some (iff.mpr reached))⟩)
    | large x =>
      obtain ⟨covered, stays⟩ := marks_of_covers covers space fun _ => Space.noConfusion
      obtain ⟨home, rfl⟩ := Spaces.home_of_large space
      obtain ⟨answer, y, claimed, iff, -⟩ := ready.claims_large member object home
      simp only [Space.gain?, Step.answer_of_ok claimed, Option.join_some]
      by_cases reached : h.spaces.Reached p
      · exact .inl ⟨fun _ => reached, if_neg fun bad => iff.mp bad reached⟩
      · exact .inr (.inr ⟨not_done_iff.mpr ⟨covered, reached⟩, stays, if_pos (iff.mpr reached)⟩)
  · rw [if_neg covers]
    exact .inl ⟨fun covered => absurd (covers_of_covered covered) covers, rfl⟩

/-! ### Tracing comes to an end -/

/-- In a closure, tracing a piece is a matter of its space. -/
theorem Ready.trace_eq (ready : Ready c h pieces buffers keys) (closing : c.state = .closing) (member : p ∈ pieces)
    (proper : p.start ≠ .null) : trace p.start (c, h) =
      if covers h p.home then traceIn p.home p.start (promotion h.plan) (c, h) else .ok (some p.start) (c, h) := by
  have start : trace p.start (c, h) = traceObject p.start (c, h) := by
    rw [trace, Step.ite_step, if_neg fun null => proper (Address.isNull_iff.mp null), Step.get_bind]
    simp only [closing]
  rw [start, traceObject, Step.get_bind]
  simp only [ready.held.holding member]
  exact Step.ite_step

/-- An object that was copied before is found at its new place. -/
theorem Ready.forwards {x : CopySpace} (ready : Ready c h pieces buffers keys) (member : p ∈ pieces)
    (space : h.spaces.space p.home = .copying x) (reached : h.spaces.Reached p) :
    Forwarding.claim p.start x.forwarding = .ok 3 x.forwarding ∧
      x.forwarding.look p.start 3 = .ok (some (h.spaces.image p)) := by
  have state : x.forwarding.states.entryByte p.start = 3 := by simpa only [Spaces.Reached, space] using reached
  have image : h.spaces.image p = ⟨x.forwarding.copies.entry p.start⟩ := by
    simp only [Spaces.image, space, state, if_true]
  constructor
  · obtain ⟨f, claimed⟩ := ready.claims_copying member space
    have unchanged : f = x.forwarding := by
      rcases (Forwarding.claim_ok claimed).2 with ⟨-, same⟩ | ⟨clear, -⟩
      · exact same
      · rw [state] at clear
        exact absurd clear (by decide)
    rwa [state, unchanged] at claimed
  · have placed := ready.held.estate.laid.placed p.home
    have inside := ready.held.inside member
    rw [space] at placed inside
    have table := ready.tracked.copying _ x space
    have known : x.forwarding.stateOf p.start = .ok 3 :=
      state ▸ table.states.loadByte_total placed rfl (by decide) inside.1 inside.2
    have copy := table.copies.load_total placed rfl (by decide) inside.1 inside.2
    have forwarded : x.forwarding.isForwarded p.start = .ok true := by
      rw [Forwarding.isForwarded, known]
      rfl
    have found : x.forwarding.copyOf p.start = .ok (h.spaces.image p) := by
      rw [image]
      exact except_bind_ok.mpr ⟨true, forwarded, except_bind_ok.mpr ⟨_, copy, rfl⟩⟩
    exact except_bind_ok.mpr ⟨3, rfl, except_bind_ok.mpr ⟨_, found, rfl⟩⟩

/-- In a copying space, tracing an object that the collection is done with changes nothing. -/
theorem Ready.traceCopying_done {x : CopySpace} (ready : Ready c h pieces buffers keys) (member : p ∈ pieces)
    (space : h.spaces.space p.home = .copying x) (done : h.Done p) (semantics : CopySemantics) :
    traceCopying p.home p.start semantics (c, h) = .ok (some (h.spaces.image p)) (c, h) := by
  have same : { h with spaces := h.spaces.setCopying p.home x, memory := h.memory } = h := by
    rw [Spaces.setCopying_self space]
  simp only [traceCopying, Step.bind_ok, Step.on_ok, Focus.snd, Heap.onCopying_ok, Step.get_bind, Step.ite_step]
  by_cases evacuating : x.evacuating = true
  · have reached := done (by simpa only [Heap.Covered, space] using evacuating)
    obtain ⟨claimed, looked⟩ := ready.forwards member space reached
    refine ⟨some 3, (c, h), ⟨h, ⟨x, x, h.memory, space, ?_, same⟩, rfl⟩, ?_⟩
    · rw [if_neg (by rw [evacuating]; decide)]
      exact Step.bind_ok.mpr ⟨3, (x, h.memory), Step.on_ok.mpr ⟨_, claimed, rfl⟩, rfl⟩
    · have published : ForwardingState.isTaken 3 = true := by decide
      simp only [published, if_true, Step.on_ok, Heap.onCopying_ok, Step.ask_ok]
      exact ⟨h, ⟨x, x, h.memory, space, ⟨looked, rfl⟩, same⟩, rfl⟩
  · refine ⟨none, (c, h), ⟨h, ⟨x, x, h.memory, space, ?_, same⟩, rfl⟩, ?_⟩
    · rw [if_pos (by rw [Bool.eq_false_iff.mpr evacuating]; rfl)]
      rfl
    · rw [ready.tracked.image_eq ready.held member (by simpa only [Spaces.Evacuates, space] using evacuating)]
      rfl

/-- An object that the collection is done with is found where it is now. Nothing changes; but a mark that is there already may be
stored again. -/
theorem Ready.trace_done (ready : Ready c h pieces buffers keys) (closing : c.state = .closing) (member : p ∈ pieces)
    (object : p.isObject = true) (proper : p.start ≠ .null) (done : h.Done p) :
    ∃ t, h.spaces.immortal.marks.Same t ∧ trace p.start (c, h) = .ok (some (h.spaces.image p)) (c, h.remarked t) := by
  rw [ready.trace_eq closing member proper]
  have image : ¬ h.spaces.Evacuates p.home → h.spaces.image p = p.start := ready.tracked.image_eq ready.held member
  by_cases covers : covers h p.home = true
  · rw [if_pos covers, traceIn, Step.get_bind]
    cases space : h.spaces.space p.home with
    | copying x =>
      exact ⟨_, .refl _, ready.traceCopying_done member space done _⟩
    | markSweep x =>
      refine ⟨_, .refl _, ?_⟩
      obtain ⟨covered, stays⟩ := marks_of_covers covers space fun _ => Space.noConfusion
      obtain ⟨home, second⟩ := Spaces.second_of_markSweep space
      obtain ⟨won, y, claimed, iff, unchanged⟩ := ready.claims_mature member object home second
      have lost : won = false := Bool.eq_false_iff.mpr fun won => iff.mp won (done covered)
      cases lost
      cases unchanged rfl
      have same : { h with spaces := { h.spaces with second := .mature x }, memory := h.memory } = h := by rw [← second]
      rw [image stays]
      refine Step.bind_ok.mpr ⟨(), (c, h), Step.bind_ok.mpr ⟨false, (c, h), Step.on_ok.mpr ⟨h, ?_, rfl⟩, rfl⟩, rfl⟩
      exact Heap.onMature_ok.mpr ⟨x, x, h.memory, second, Step.on_ok.mpr ⟨x, claimed, rfl⟩, same⟩
    | immortal x =>
      obtain ⟨covered, stays⟩ := marks_of_covers covers space fun _ => Space.noConfusion
      obtain ⟨won, y, claimed, iff, unchanged⟩ := ready.claims_immortal member (Spaces.home_of_immortal space)
      have lost : won = false := Bool.eq_false_iff.mpr fun won => iff.mp won (done covered)
      cases lost
      obtain ⟨t, same, rfl⟩ := unchanged rfl
      rw [image stays]
      refine ⟨t, same, Step.bind_ok.mpr ⟨(), (c, h.remarked t), Step.bind_ok.mpr ⟨false, (c, h.remarked t),
        Step.on_ok.mpr ⟨h.remarked t, ?_, rfl⟩, rfl⟩, rfl⟩⟩
      exact Heap.onImmortal_ok.mpr ⟨_, h.memory, Step.on_ok.mpr ⟨_, claimed, rfl⟩, rfl⟩
    | large x =>
      refine ⟨_, .refl _, ?_⟩
      obtain ⟨covered, stays⟩ := marks_of_covers covers space fun _ => Space.noConfusion
      obtain ⟨home, -⟩ := Spaces.home_of_large space
      obtain ⟨answer, y, claimed, iff, unchanged⟩ := ready.claims_large member object home
      have lost : answer = none := Option.not_isSome_iff_eq_none.mp fun won => iff.mp won (done covered)
      cases lost
      cases unchanged rfl
      rw [image stays]
      refine Step.bind_ok.mpr ⟨(), (c, h), Step.bind_ok.mpr ⟨none, (c, h), Step.on_ok.mpr ⟨h, ?_, rfl⟩, rfl⟩, rfl⟩
      exact Heap.onLarge_ok.mpr ⟨_, h.memory, Step.on_ok.mpr ⟨_, claimed, rfl⟩, rfl⟩
  · rw [if_neg covers, image fun moves => covers (covers_of_covered (covered_of_evacuates moves))]
    exact ⟨_, .refl _, rfl⟩

theorem enqueue_total (sound : h.backlog.objects.poisoned = false) (active : h.backlog.objects.drained = false) (a : Address) :
    ∃ t, enqueue a (c, h) = .ok () t := by
  obtain ⟨b, q, queued⟩ := Buffer.enqueue_total (a := a) (b := c.buffer) sound active
  exact ⟨_, Step.onBoth_ok.mpr ⟨b, q, queued, rfl⟩⟩

/-- An object that stays where it is can be marked. -/
theorem Ready.trace_marks (ready : Ready c h pieces buffers keys) (closing : c.state = .closing) (member : p ∈ pieces)
    (object : p.isObject = true) (proper : p.start ≠ .null) (missed : ¬ h.Done p) (stays : ¬ h.spaces.Evacuates p.home)
    (sound : h.backlog.objects.poisoned = false) (active : h.backlog.objects.drained = false) :
    ∃ answer t, trace p.start (c, h) = .ok answer t := by
  obtain ⟨covered, missed⟩ := not_done_iff.mp missed
  rw [ready.trace_eq closing member proper, if_pos (covers_of_covered covered), traceIn, Step.get_bind]
  cases space : h.spaces.space p.home with
  | copying x =>
    refine absurd ?_ stays
    simpa only [Heap.Covered, Spaces.Evacuates, space] using covered
  | markSweep x =>
    obtain ⟨home, second⟩ := Spaces.second_of_markSweep space
    obtain ⟨won, y, claimed, iff, -⟩ := ready.claims_mature member object home second
    cases iff.mpr missed
    obtain ⟨h₁, marked⟩ : ∃ h₁, h₁ = { h with spaces := { h.spaces with second := .mature y } } := ⟨_, rfl⟩
    obtain ⟨t, queued⟩ := enqueue_total (c := c) (h := { h₁ with tally := h₁.tally.marked }) (marked ▸ sound) (marked ▸ active)
      p.start
    refine ⟨_, t, Step.bind_ok.mpr ⟨(), t, Step.bind_ok.mpr ⟨true, (c, h₁), Step.on_ok.mpr ⟨h₁, ?_, rfl⟩, queued⟩, rfl⟩⟩
    rw [marked]
    exact Heap.onMature_ok.mpr ⟨x, y, h.memory, second, Step.on_ok.mpr ⟨y, claimed, rfl⟩, rfl⟩
  | immortal x =>
    obtain ⟨won, y, claimed, iff, -⟩ := ready.claims_immortal member (Spaces.home_of_immortal space)
    cases iff.mpr missed
    obtain ⟨h₁, marked⟩ : ∃ h₁, h₁ = { h with spaces := { h.spaces with immortal := y } } := ⟨_, rfl⟩
    obtain ⟨t, queued⟩ := enqueue_total (c := c) (h := { h₁ with tally := h₁.tally.marked }) (marked ▸ sound) (marked ▸ active)
      p.start
    refine ⟨_, t, Step.bind_ok.mpr ⟨(), t, Step.bind_ok.mpr ⟨true, (c, h₁), Step.on_ok.mpr ⟨h₁, ?_, rfl⟩, queued⟩, rfl⟩⟩
    rw [marked]
    exact Heap.onImmortal_ok.mpr ⟨y, h.memory, Step.on_ok.mpr ⟨y, claimed, rfl⟩, rfl⟩
  | large x =>
    obtain ⟨home, -⟩ := Spaces.home_of_large space
    obtain ⟨answer, y, claimed, iff, -⟩ := ready.claims_large member object home
    have tracked := ready.tracked.large
    rcases tracked.claim_ok (ready.old p.start) (tracked.complete p member home object) claimed with
      ⟨-, rfl, -⟩ | ⟨-, young, rfl, listed, same⟩
    · exact absurd (iff.mpr missed) (by decide)
    · have treadmill : y.treadmill = h.spaces.large.treadmill := by rw [same]
      have waits : y.treadmill.collects p.start young = true := by
        rw [treadmill]
        rcases listed with ⟨rfl, member⟩ | ⟨rfl, member⟩
        · exact Std.TreeSet.mem_iff_contains.mp member
        · exact Std.TreeSet.mem_iff_contains.mp member
      obtain ⟨lists, saved⟩ := Treadmill.save_total waits
      obtain ⟨h₁, won⟩ : ∃ h₁, h₁ = { h with spaces := { h.spaces with large := y } } := ⟨_, rfl⟩
      obtain ⟨h₂, kept⟩ : ∃ h₂, h₂ = { h₁ with
        spaces := { h₁.spaces with large := { y with treadmill := lists } }, tally := h₁.tally.marked } := ⟨_, rfl⟩
      have backlog : h₂.backlog = h.backlog := by rw [kept, won]
      obtain ⟨t, queued⟩ := enqueue_total (c := c) (h := h₂) (backlog ▸ sound) (backlog ▸ active) p.start
      refine ⟨_, t, Step.bind_ok.mpr ⟨(), t, Step.bind_ok.mpr ⟨some young, (c, h₁), Step.on_ok.mpr ⟨h₁, ?_, rfl⟩, ?_⟩, rfl⟩⟩
      · rw [won]
        exact Heap.onLarge_ok.mpr ⟨y, h.memory, Step.on_ok.mpr ⟨y, claimed, rfl⟩, rfl⟩
      · refine Step.modify_bind.trans (Step.bind_ok.mpr ⟨(), (c, h₂), Step.on_ok.mpr ⟨h₂, ?_, rfl⟩, queued⟩)
        rw [kept, won]
        exact Heap.onLarge_ok.mpr ⟨_, h.memory, Step.on_ok.mpr ⟨lists, saved, rfl⟩, rfl⟩

end Collector

end TracingHeap
