import TracingHeap.Proofs.Idleness

/-! What the phases before a closure do: the spaces change what counts as marked, the mutators hand over what
they remember, the collectors drop what they have left of the last collection, and the roots go into packets.
Nothing in memory changes. -/

namespace TracingHeap

open List Memory Work

/-- A region that entered a collection. -/
def Region.entered (r : Region) : Region := { r with prepared := true }

theorem Region.enter_ok {r r' : Region} {u : Unit} (ok : enter r = .ok u r') : r' = r.entered := by
  simp only [enter, Step.get_bind, Step.set_bind, Step.ensure_ok] at ok
  exact ok.2.symm

/-- A copying space at the start of a collection. -/
def CopySpace.readied (x : CopySpace) (evacuate : Bool) : CopySpace :=
  { x with
    region := if evacuate then x.region.entered else x.region
    evacuating := evacuate }

/-- A mature store at the start of a collection of the whole heap. -/
def MarkSweepSpace.readied (x : MarkSweepSpace) : MarkSweepSpace :=
  { x with
    region := x.region.entered
    current := 3 - x.current }

/-- An immortal space at the start of a collection of the whole heap. -/
def ImmortalSpace.readied (x : ImmortalSpace) : ImmortalSpace :=
  { x with
    region := x.region.entered
    current := 1 - x.current }

/-- A large object space at the start of a collection. -/
def LargeSpace.readied (x : LargeSpace) (full : Bool) : LargeSpace :=
  { x with
    region := x.region.entered
    current := if full then 1 - x.current else x.current
    treadmill := x.treadmill.turn full
    youngOnly := !full }

theorem CopySpace.prepare_ok {x y : CopySpace} {evacuate : Bool} {u : Unit} (ok : prepare evacuate x = .ok u y) :
    y = x.readied evacuate := by
  cases evacuate with
  | false =>
    simp only [prepare, Bool.false_eq_true, if_false, Step.modify_ok] at ok
    exact ok.symm
  | true =>
    simp only [prepare, if_true, Step.bind_ok, Step.on_ok, regionPart, Step.modify_ok] at ok
    obtain ⟨_, _, ⟨r, entered, rfl⟩, rfl⟩ := ok
    rw [Region.enter_ok entered]
    rfl

theorem MarkSweepSpace.prepare_ok {x y : MarkSweepSpace} {u : Unit} (ok : prepare x = .ok u y) : y = x.readied := by
  simp only [prepare, Step.bind_ok, Step.on_ok, regionPart, Step.modify_ok] at ok
  obtain ⟨_, _, ⟨r, entered, rfl⟩, rfl⟩ := ok
  rw [Region.enter_ok entered]
  rfl

theorem ImmortalSpace.prepare_ok {x y : ImmortalSpace} {u : Unit} (ok : prepare x = .ok u y) : y = x.readied := by
  simp only [prepare, Step.bind_ok, Step.on_ok, regionPart, Step.modify_ok] at ok
  obtain ⟨_, _, ⟨r, entered, rfl⟩, rfl⟩ := ok
  rw [Region.enter_ok entered]
  rfl

theorem LargeSpace.prepare_ok {x y : LargeSpace} {full : Bool} {u : Unit} (ok : prepare full x = .ok u y) :
    y = x.readied full := by
  simp only [prepare, Step.bind_ok, Step.on_ok, regionPart, Step.modify_ok] at ok
  obtain ⟨_, _, ⟨r, entered, rfl⟩, rfl⟩ := ok
  rw [Region.enter_ok entered]
  cases full <;> rfl

namespace Work.Backlog

/-- A backlog at the start of a collection. -/
def readied {σ α : Type} (b : Backlog σ α) (participants : Word) : Backlog σ α :=
  { b with
    roots := []
    objects := { b.objects with stack := [], participants, idle := 0, drained := false, aborted := false } }

theorem prepare_ok {σ α : Type} [Inhabited σ] {b b' : Backlog σ α} {participants : Word} {u : Unit}
    (ok : prepare participants b = .ok u b') : b' = b.readied participants := by
  simp only [prepare, Step.bind_ok, Step.on_ok, objectsPart, Packets.reset, Packets.enter, Step.get_bind, Step.ensure_ok,
    Step.modify_ok] at ok
  obtain ⟨_, _, ⟨q, ⟨_, _, ⟨-, rfl⟩, rfl⟩, rfl⟩, rfl⟩ := ok
  rfl

end Work.Backlog

/-- Spaces at the start of a collection; `full` is for a generational heap and `flipped` for two halves. -/
def Spaces.readied (s : Spaces) (full flipped : Bool) : Spaces :=
  match s.second with
  | .mature x =>
    { first := s.first.readied true
      second := .mature (if full then x.readied else x)
      immortal := if full then s.immortal.readied else s.immortal
      large := s.large.readied full }
  | .twin x =>
    { first := s.first.readied flipped
      second := .twin (x.readied !flipped)
      immortal := s.immortal.readied
      large := s.large.readied true }

/-- The scope of a collection. -/
def Heap.nextScope (h : Heap) (full : Bool) : Scope :=
  match h.plan with
  | .generational => { h.scope with full, tracesImmortal := full }
  | .semispace => { h.scope with tracesImmortal := true, flipped := !h.scope.flipped }

/-- A heap at the start of a collection. -/
def Heap.readied (h : Heap) (full : Bool) : Heap :=
  { h with
    scope := h.nextScope full
    spaces := h.spaces.readied full (!h.scope.flipped)
    backlog := h.backlog.readied h.settings.threads }

namespace Heap

variable {h h' : Heap} {u : Unit} {full : Bool}

theorem onFst_ok {σ τ α : Type} [Inhabited σ] {step : Step σ α} {x y : σ} {m m' : τ} {a : α}
    (ok : (Step.on Focus.fst step : Step (σ × τ) α) (x, m) = .ok a (y, m')) : step x = .ok a y ∧ m' = m := by
  simp only [Step.on_ok, Focus.fst, Prod.mk.injEq] at ok
  obtain ⟨_, ran, rfl, rfl⟩ := ok
  exact ⟨ran, rfl⟩

theorem prepareCommon_ok (ok : prepareCommon full h = .ok u h') :
    h' = { h with
      scope := { h.scope with tracesImmortal := full }
      spaces := { h.spaces with
        immortal := if full then h.spaces.immortal.readied else h.spaces.immortal
        large := h.spaces.large.readied full } } := by
  rw [prepareCommon, Step.modify_bind] at ok
  cases full with
  | false =>
    simp only [Bool.false_eq_true, if_false, onLarge_ok] at ok
    obtain ⟨x, m, ran, rfl⟩ := ok
    obtain ⟨prepared, rfl⟩ := onFst_ok ran
    rw [LargeSpace.prepare_ok prepared]
    rfl
  | true =>
    simp only [if_true, Step.bind_ok, onImmortal_ok, onLarge_ok] at ok
    obtain ⟨_, _, ⟨x, m, ran, rfl⟩, y, m', ran', rfl⟩ := ok
    obtain ⟨prepared, rfl⟩ := onFst_ok ran
    obtain ⟨prepared', rfl⟩ := onFst_ok ran'
    rw [ImmortalSpace.prepare_ok prepared, LargeSpace.prepare_ok prepared']
    rfl

/-- How a collection starts. -/
theorem prepare_ok (ok : prepare h = .ok u h') :
    ∃ full, (h.plan = .generational → h.wantsFull = .ok full) ∧ h' = h.readied full := by
  have last : ∀ {h₁ : Heap}, (do
      let threads := (← get).settings.threads
      Step.on backlogPart (Backlog.prepare threads) : Step Heap Unit) h₁ = .ok u h' →
      h' = { h₁ with backlog := h₁.backlog.readied h₁.settings.threads } := by
    intro h₁ ok
    simp only [Step.get_bind, Step.on_ok, backlogPart] at ok
    obtain ⟨b, prepared, rfl⟩ := ok
    rw [Backlog.prepare_ok prepared]
  rw [prepare, Step.get_bind] at ok
  cases second : h.spaces.second with
  | mature x =>
    have plan : h.plan = .generational := by rw [Heap.plan, Spaces.plan, second]
    simp only [plan, Step.bind_ok, Step.ask_ok, Step.modify_bind] at ok
    obtain ⟨full, _, ⟨kind, rfl⟩, _, h₁, common, ok⟩ := ok
    have common := prepareCommon_ok common
    refine ⟨full, fun _ => kind, ?_⟩
    have first : ∀ {h₁ : Heap}, (do
        onFirst (Step.on Focus.fst (CopySpace.prepare true))
        let threads := (← get).settings.threads
        Step.on backlogPart (Backlog.prepare threads) : Step Heap Unit) h₁ = .ok u h' →
        h' = { h₁ with
          spaces := { h₁.spaces with first := h₁.spaces.first.readied true }
          backlog := h₁.backlog.readied h₁.settings.threads } := by
      intro h₁ ok
      obtain ⟨_, h₂, prepared, ok⟩ := Step.bind_ok.mp ok
      obtain ⟨y, z, m, space, ran, rfl⟩ := onCopying_ok.mp prepared
      obtain ⟨readied, rfl⟩ := onFst_ok ran
      injection space with space
      rw [last ok, CopySpace.prepare_ok readied, ← space]
      rfl
    cases full with
    | false =>
      have ok := first ok
      rw [ok, common, readied, Spaces.readied, nextScope, plan, second]
      simp only [Bool.false_eq_true, if_false, second]
    | true =>
      obtain ⟨_, h₂, prepared, ok⟩ := Step.bind_ok.mp ok
      obtain ⟨y, z, m, space, ran, rfl⟩ := onMature_ok.mp prepared
      obtain ⟨ready, rfl⟩ := onFst_ok ran
      have ok := first ok
      rw [common] at space
      simp only [second, SecondSpace.mature.injEq] at space
      rw [ok, common, readied, Spaces.readied, nextScope, plan, second, MarkSweepSpace.prepare_ok ready, ← space]
      rfl
  | twin x =>
    have plan : h.plan = .semispace := by rw [Heap.plan, Spaces.plan, second]
    simp only [plan, Step.bind_ok, Step.modify_bind, Step.get_bind, onCopying_ok] at ok
    obtain ⟨_, h₁, common, _, h₂, ⟨y, z, m, space, ran, rfl⟩, _, h₃, ⟨y', z', m', space', ran', rfl⟩, ok⟩ := ok
    obtain ⟨ready, rfl⟩ := onFst_ok ran
    obtain ⟨ready', rfl⟩ := onFst_ok ran'
    have ok := last ok
    refine ⟨true, fun generational => (by cases plan.symm.trans generational), ?_⟩
    rw [prepareCommon_ok common] at ok space space' ready ready'
    simp only [Spaces.space, Spaces.setCopying, second, Space.copying.injEq] at space space'
    rw [ok, readied, Spaces.readied, nextScope, plan, second, CopySpace.prepare_ok ready, CopySpace.prepare_ok ready', ← space,
      ← space']
    rfl

end Heap

/-- A mutator at the start of a collection, with its free cells dropped if they are about to be swept. -/
def Mutator.readied (m : Mutator) (sweep : Bool) : Mutator :=
  { m with
    remembered := #[]
    allocators := if sweep then m.allocators.resetCells else m.allocators }

namespace Heap

variable {h h' : Heap} {u : Unit} {i : Nat}

/-- Does the collection sweep the mature store? -/
def sweeps (h : Heap) : Bool := h.plan == .generational && !h.nurseryOnly

theorem onMutator_ok {α : Type} {a : α} {step : Step Mutator α} (inside : i < h.program.mutators.size)
    (ok : onMutator i step h = .ok a h') :
    ∃ m, step h.program.mutators[i] = .ok a m ∧
      h' = { h with program := { h.program with mutators := h.program.mutators.setIfInBounds i m } } := by
  simp only [onMutator, Step.on_ok, mutatorPart, Array.getElem?_eq_getElem inside, Option.getD_some] at ok
  obtain ⟨m, ran, rfl⟩ := ok
  exact ⟨m, ran, by simp only [Array.setIfInBounds_setIfInBounds]⟩

/-- What a mutator remembers is handed to the collectors. -/
theorem flush_ok (inside : i < h.program.mutators.size) (ok : flush i h = .ok u h') :
    ∃ remembered, h' = { h with
        program := { h.program with
          mutators := h.program.mutators.setIfInBounds i { h.program.mutators[i] with remembered := #[] } }
        backlog := { h.backlog with remembered } } ∧
      remembered.flatMap Array.toList =
        h.backlog.remembered.flatMap Array.toList ++ h.program.mutators[i].remembered.toList := by
  simp only [flush, Step.bind_ok] at ok
  obtain ⟨objects, _, taken, ok⟩ := ok
  obtain ⟨m, took, rfl⟩ := onMutator_ok inside taken
  simp only [Step.modifyGet_ok, Prod.mk.injEq] at took
  obtain ⟨rfl, rfl⟩ := took
  simp only [Step.on_ok, backlogPart, Backlog.pushRemembered] at ok
  obtain ⟨b, pushed, rfl⟩ := ok
  by_cases empty : h.program.mutators[i].remembered.isEmpty = true
  · rw [if_pos empty] at pushed
    obtain ⟨-, rfl⟩ := Step.pure_ok.mp pushed
    refine ⟨_, rfl, ?_⟩
    rw [Array.isEmpty_iff.mp empty, Array.toList_empty, append_nil]
  · rw [if_neg empty] at pushed
    obtain rfl := Step.modify_ok.mp pushed
    exact ⟨_, rfl, by rw [flatMap_append, flatMap_singleton]⟩

theorem prepareMutator_ok (inside : i < h.program.mutators.size) (ok : prepareMutator i h = .ok u h') :
    ∃ remembered, h' = { h with
        program := { h.program with
          mutators := h.program.mutators.setIfInBounds i (h.program.mutators[i].readied h.sweeps) }
        backlog := { h.backlog with remembered } } ∧
      ∀ x, (∃ packet ∈ remembered, x ∈ packet) ↔
        (∃ packet ∈ h.backlog.remembered, x ∈ packet) ∨ x ∈ h.program.mutators[i].remembered := by
  rw [prepareMutator] at ok
  obtain ⟨_, _, flushed, ok⟩ := Step.bind_ok.mp ok
  obtain ⟨remembered, rfl, content⟩ := flush_ok inside flushed
  have same : ∀ x, (∃ packet ∈ remembered, x ∈ packet) ↔
      (∃ packet ∈ h.backlog.remembered, x ∈ packet) ∨ x ∈ h.program.mutators[i].remembered := fun x => by
    have here := congrArg (x ∈ ·) content
    simpa only [mem_append, mem_flatMap, Array.mem_toList_iff, eq_iff_iff] using here
  refine ⟨remembered, ?_, same⟩
  obtain ⟨h₁, here, plan, young, mutators⟩ : ∃ h₁ : Heap, h₁ = { h with
      program := { h.program with
        mutators := h.program.mutators.setIfInBounds i { h.program.mutators[i] with remembered := #[] } }
      backlog := { h.backlog with remembered } } ∧ h₁.plan = h.plan ∧ h₁.nurseryOnly = h.nurseryOnly ∧
      h₁.program.mutators = h.program.mutators.setIfInBounds i { h.program.mutators[i] with remembered := #[] } := by
    refine ⟨_, rfl, ?_, ?_, ?_⟩
    all_goals rfl
  rw [← here] at ok
  rw [Step.get_bind] at ok
  have untouched : h.sweeps = false → h' = h₁ → h' = { h with
      program := { h.program with
        mutators := h.program.mutators.setIfInBounds i (h.program.mutators[i].readied h.sweeps) }
      backlog := { h.backlog with remembered } } := by
    rintro calm rfl
    rw [here, calm]
    rfl
  cases gen : h.plan with
  | semispace =>
    simp only [plan, gen] at ok
    obtain ⟨-, same⟩ := Step.pure_ok.mp ok
    exact untouched (by rw [sweeps, gen]; rfl) same.symm
  | generational =>
    simp only [plan, gen, young] at ok
    by_cases nursery : h.nurseryOnly = true
    · rw [if_pos nursery] at ok
      obtain ⟨-, same⟩ := Step.pure_ok.mp ok
      exact untouched (by rw [sweeps, nursery, Bool.not_true, Bool.and_false]) same.symm
    · rw [if_neg nursery] at ok
      have inside' : i < h₁.program.mutators.size := by rw [mutators, Array.size_setIfInBounds]; exact inside
      obtain ⟨m, reset, rfl⟩ := onMutator_ok inside' ok
      obtain rfl := Step.modify_ok.mp reset
      have sweeps : h.sweeps = true := by rw [sweeps, gen, Bool.eq_false_iff.mpr nursery]; rfl
      simp only [mutators, Array.getElem_setIfInBounds_self, Array.setIfInBounds_setIfInBounds, sweeps, Mutator.readied, if_true]
      rw [here]

/-- What the mutators do before a collection. -/
theorem mutatorsPrepare_ok (ok : mutatorPhase .prepare h = .ok u h') :
    ∃ remembered, h' = { h with
        program := { h.program with mutators := h.program.mutators.map (·.readied h.sweeps) }
        backlog := { h.backlog with remembered } } ∧
      ∀ x, (∃ packet ∈ remembered, x ∈ packet) ↔ x ∈ h.recorded := by
  let holds := fun k (h₁ : Heap) => ∃ ms remembered, h₁ = { h with
      program := { h.program with mutators := ms }
      backlog := { h.backlog with remembered } } ∧ ms.size = h.program.mutators.size ∧
    (∀ j, (small : j < ms.size) → (small' : j < h.program.mutators.size) →
      ms[j] = if j < k then h.program.mutators[j].readied h.sweeps else h.program.mutators[j]) ∧
    ∀ x, (∃ packet ∈ remembered, x ∈ packet) ↔ (∃ packet ∈ h.backlog.remembered, x ∈ packet) ∨
      ∃ j, ∃ small : j < h.program.mutators.size, j < k ∧ x ∈ h.program.mutators[j].remembered
  have start : holds 0 h := ⟨_, _, rfl, rfl, fun j small small' => (if_neg (Nat.not_lt_zero j)).symm, fun x => by
    simp only [Nat.not_lt_zero, false_and, exists_const, exists_false, or_false]⟩
  have next : ∀ k < h.program.mutators.size, ∀ h₁ h₂ b, holds k h₁ → phaseOfMutator .prepare k h₁ = .ok b h₂ →
      holds (k + 1) h₂ := by
    rintro k small h₁ h₂ b ⟨ms, remembered, rfl, size, each, content⟩ took
    have inside : k < ms.size := size ▸ small
    obtain ⟨remembered', rfl, content'⟩ := prepareMutator_ok inside took
    have mine : ms[k] = h.program.mutators[k] := by rw [each k inside small, if_neg (Nat.lt_irrefl k)]
    refine ⟨_, remembered', rfl, by rw [Array.size_setIfInBounds, size], fun j small' small'' => ?_, fun x => ?_⟩
    · have small₁ : j < ms.size := by rw [size]; exact small''
      rw [Array.getElem_setIfInBounds small₁]
      by_cases here : k = j
      · subst here
        rw [if_pos rfl, if_pos (Nat.lt_succ_self k)]
        simp only [mine]
        rfl
      · rw [if_neg here, each j small₁ small'']
        by_cases before : j < k
        · rw [if_pos before, if_pos (by omega)]
        · rw [if_neg before, if_neg (by omega)]
    · rw [content' x, content x, or_assoc]
      refine or_congr_right ?_
      simp only [mine]
      constructor
      · rintro (⟨j, small', before, inner⟩ | inner)
        · exact ⟨j, small', by omega, inner⟩
        · exact ⟨k, small, by omega, inner⟩
      · rintro ⟨j, small', before, inner⟩
        by_cases here : j = k
        · subst here
          exact .inr inner
        · exact .inl ⟨j, small', by omega, inner⟩
  rw [mutatorPhase, Step.get_bind] at ok
  obtain ⟨ms, remembered, heap, size, each, content⟩ := @Step.forM_range_ok _ _ holds _ _ _ _ start next ok
  refine ⟨remembered, ?_, fun x => (content x).trans (Iff.trans (or_congr_right ?_) mem_recorded.symm)⟩
  · have same : ms = h.program.mutators.map (·.readied h.sweeps) := by
      refine Array.ext (size.trans (Array.size_map).symm) fun j small _ => ?_
      have small' : j < h.program.mutators.size := size ▸ small
      rw [each j small small', if_pos small', Array.getElem_map]
    rw [heap, same]
  · constructor
    · rintro ⟨j, small, -, inner⟩
      exact ⟨_, Array.getElem_mem small, inner⟩
    · rintro ⟨m, member, inner⟩
      obtain ⟨j, small, rfl⟩ := Array.mem_iff_getElem.mp member
      exact ⟨j, small, small, inner⟩

end Heap

end TracingHeap
