import TracingHeap.Heap.Acquire
import TracingHeap.Proofs.Supply

/-! Acquisition of memory by an allocator. Besides the pages themselves a request can only leave a demand
for a collection, or a report that memory is short. -/

namespace TracingHeap.Heap

open Spaces

variable {h h' : Heap} {α : Type} {a : α}

@[simp] theorem onSpaces_ok {step : Step (Spaces × Memory) α} :
    onSpaces step h = .ok a h' ↔ ∃ s m, step (h.spaces, h.memory) = .ok a (s, m) ∧
      { h with spaces := s, memory := m } = h' := by
  simp only [onSpaces, Step.onBoth_ok, spacesPart, memoryPart]

@[simp] theorem onMature_ok {step : Step (MarkSweepSpace × Memory) α} :
    onMature step h = .ok a h' ↔ ∃ x y m, h.spaces.second = .mature x ∧
      step (x, h.memory) = .ok a (y, m) ∧
      { h with spaces := { h.spaces with second := .mature y }, memory := m } = h' := by
  simp only [onMature, onSpaces_ok, Step.onBoth_ok, Focus.comp, Focus.fst, Focus.snd, secondPart,
    Spaces.onMature_ok, Prod.mk.injEq]
  constructor
  · rintro ⟨_, _, ⟨_, m, ⟨x, y, second, ran, rfl⟩, rfl, rfl⟩, rfl⟩
    exact ⟨x, y, m, second, ran, rfl⟩
  · rintro ⟨x, y, m, second, ran, rfl⟩
    exact ⟨_, _, ⟨_, m, ⟨x, y, second, ran, rfl⟩, rfl, rfl⟩, rfl⟩

@[simp] theorem onImmortal_ok {step : Step (ImmortalSpace × Memory) α} :
    onImmortal step h = .ok a h' ↔ ∃ x m, step (h.spaces.immortal, h.memory) = .ok a (x, m) ∧
      { h with spaces := { h.spaces with immortal := x }, memory := m } = h' := by
  simp only [onImmortal, Step.onBoth_ok, Focus.comp, spacesPart, memoryPart, immortalPart]

@[simp] theorem onLarge_ok {step : Step (LargeSpace × Memory) α} :
    onLarge step h = .ok a h' ↔ ∃ x m, step (h.spaces.large, h.memory) = .ok a (x, m) ∧
      { h with spaces := { h.spaces with large := x }, memory := m } = h' := by
  simp only [onLarge, Step.onBoth_ok, Focus.comp, spacesPart, memoryPart, largePart]

/-- The heaps differ in nothing but what a request for memory may change. -/
def Served (h h' : Heap) : Prop :=
  ∃ spaces memory demand nextFull shortages,
    h' = { h with
      spaces, memory, demand
      scope := { h.scope with nextFull }
      program := { h.program with shortages } }

theorem Served.trans {h'' : Heap} (one : Served h h') (two : Served h' h'') : Served h h'' := by
  obtain ⟨_, _, _, _, _, rfl⟩ := one
  obtain ⟨s, m, d, n, l, rfl⟩ := two
  exact ⟨s, m, d, n, l, rfl⟩

theorem served_pages (h : Heap) (spaces : Spaces) (memory : Memory) : Served h { h with spaces, memory } :=
  ⟨spaces, memory, h.demand, h.scope.nextFull, h.program.shortages, rfl⟩

theorem served_demand (h : Heap) (demand : Demand) (nextFull : Bool) :
    Served h { h with demand, scope := { h.scope with nextFull } } :=
  ⟨h.spaces, h.memory, demand, nextFull, h.program.shortages, rfl⟩

theorem served_report (h : Heap) (shortages : Array Shortage) :
    Served h { h with program := { h.program with shortages } } :=
  ⟨h.spaces, h.memory, h.demand, h.scope.nextFull, shortages, rfl⟩

/-- A request that memory was taken out of, or not. -/
structure Acquired (h h' : Heap) (id : SpaceId) (bytes : Word) (r : Option Address) : Prop where
  served : Served h h'
  granted : Granted h.spaces h'.spaces h.memory h'.memory id bytes r

/-- Nothing was taken, and nothing was written. -/
private theorem acquired_none (supplied : h.spaces.Supplied h.memory) (served : Served h h')
    (spaces : h'.spaces = h.spaces) (memory : h'.memory = h.memory) (id : SpaceId) (bytes : Word) :
    Acquired h h' id bytes none := by
  refine ⟨served, ?_⟩
  rw [spaces, memory]
  refine ⟨.refl _, supplied, fun _ _ => ⟨rfl, fun _ _ => Iff.rfl⟩, fun _ answer => (by cases answer), ?_,
    .inl rfl, fun _ _ answer => by cases answer⟩
  intro x second
  exact ⟨x.pages, second, .inl rfl, fun _ _ answer => by cases answer⟩

private theorem Acquired.trans {h'' : Heap} {id : SpaceId} {bytes : Word} {r : Option Address}
    (one : Acquired h h' id bytes none) (two : Acquired h' h'' id bytes r) : Acquired h h'' id bytes r :=
  ⟨one.served.trans two.served, one.granted.trans two.granted⟩

theorem report_ok {shortage : Shortage} {u : Unit} (ok : report shortage h = .ok u h') :
    h' = { h with program.shortages := h.program.shortages.push shortage } := by
  simp only [report, Step.modify_bind, Step.get_bind, Step.ensure_ok] at ok
  exact ok.2.symm

private theorem collectionDue_ok {spaceFull due : Bool} {space : Option SpaceId}
    (ok : collectionDue spaceFull space h = .ok due h') :
    ∃ nextFull, h' = { h with scope.nextFull := nextFull } := by
  unfold collectionDue at ok
  rw [Step.get_bind] at ok
  cases plan : h.plan with
  | semispace =>
    simp only [plan, Step.bind_ok, Step.ask_ok, Step.pure_ok] at ok
    obtain ⟨_, _, ⟨-, rfl⟩, -, rfl⟩ := ok
    exact ⟨h.scope.nextFull, rfl⟩
  | generational =>
    simp only [plan, Step.bind_ok, Step.lift_ok, Step.ite_step] at ok
    obtain ⟨limit, _, ⟨-, rfl⟩, ok⟩ := ok
    split at ok
    · obtain ⟨-, rfl⟩ := Step.pure_ok.mp ok
      exact ⟨h.scope.nextFull, rfl⟩
    · split at ok
      · obtain ⟨_, h₁, required, ok⟩ := Step.bind_ok.mp ok
        have := Step.modify_ok.mp required
        subst this
        simp only [Step.bind_ok, Step.ask_ok, Step.pure_ok] at ok
        obtain ⟨_, _, ⟨-, rfl⟩, -, rfl⟩ := ok
        exact ⟨true, rfl⟩
      · simp only [Step.bind_ok, Step.ask_ok, Step.pure_ok] at ok
        obtain ⟨_, _, ⟨-, rfl⟩, -, rfl⟩ := ok
        exact ⟨h.scope.nextFull, rfl⟩

/-- Asking whether a collection is due changes only the demand, and whether the next one is full. -/
theorem poll_ok {spaceFull due : Bool} {space : Option SpaceId} (ok : poll spaceFull space h = .ok due h') :
    ∃ demand nextFull, h' = { h with demand, scope := { h.scope with nextFull } } := by
  unfold poll at ok
  rw [Step.get_bind] at ok
  split at ok
  · obtain ⟨-, rfl⟩ := Step.pure_ok.mp ok
    exact ⟨h.demand, h.scope.nextFull, rfl⟩
  · obtain ⟨found, h₁, decided, ok⟩ := Step.bind_ok.mp ok
    obtain ⟨nextFull, rfl⟩ := collectionDue_ok decided
    rw [Step.ite_step] at ok
    split at ok
    · simp only [demandCollection, Step.modify_bind, Step.pure_ok] at ok
      obtain ⟨-, rfl⟩ := ok
      exact ⟨_, nextFull, rfl⟩
    · obtain ⟨-, rfl⟩ := Step.pure_ok.mp ok
      exact ⟨_, nextFull, rfl⟩

/-- A space answers with fresh memory or with nothing. -/
theorem acquire_ok {id : SpaceId} {bytes : Word} {r : Option Address} (laid : h.spaces.LaidOut)
    (supplied : h.spaces.Supplied h.memory)
    (ok : acquire id bytes h = .ok r h') : Acquired h h' id bytes r := by
  -- Reports and polls in between touch no memory.
  have reports : ∀ {g g' : Heap} {shortage : Shortage} {u : Unit}, g.spaces.Supplied g.memory →
      report shortage g = .ok u g' → Acquired g g' id bytes none := by
    intro g g' shortage u supplied reported
    rw [report_ok reported]
    exact acquired_none supplied (served_report g (g.program.shortages.push shortage)) rfl rfl id bytes
  have polls : ∀ {g g' : Heap} {full due : Bool}, g.spaces.Supplied g.memory →
      poll full (some id) g = .ok due g' → Acquired g g' id bytes none := by
    intro g g' full due supplied polled
    obtain ⟨demand, nextFull, rfl⟩ := poll_ok polled
    exact acquired_none supplied (served_demand g demand nextFull) rfl rfl id bytes
  unfold acquire at ok
  rw [Step.get_bind, Step.ite_step] at ok
  split at ok
  · obtain ⟨_, h₁, reported, ok⟩ := Step.bind_ok.mp ok
    obtain ⟨rfl, rfl⟩ := Step.pure_ok.mp ok
    exact reports supplied reported
  · simp only [Step.bind_ok, Step.lift_ok] at ok
    obtain ⟨pages, _, ⟨-, rfl⟩, _, h₁, reserved, due, h₂, polled, ok⟩ := ok
    obtain ⟨s₁, m₁, promised, rfl⟩ := onSpaces_ok.mp reserved
    have acquired₁ : Acquired h { h with spaces := s₁, memory := m₁ } id bytes none :=
      ⟨served_pages h s₁ m₁, onLedger_ok supplied promised bytes⟩
    have acquired₂ := acquired₁.trans (polls acquired₁.granted.supplied polled)
    have supplied₂ := acquired₂.granted.supplied
    rw [Step.ite_step] at ok
    split at ok
    · simp only [Step.bind_ok, onSpaces_ok, Step.pure_ok] at ok
      obtain ⟨_, _, ⟨s₂, m₂, withdrawn, rfl⟩, rfl, rfl⟩ := ok
      exact acquired₂.trans ⟨served_pages h₂ s₂ m₂, onLedger_ok supplied₂ withdrawn bytes⟩
    · obtain ⟨answer, h₃, tried, ok⟩ := Step.bind_ok.mp ok
      obtain ⟨s₂, m₂, taken, rfl⟩ := onSpaces_ok.mp tried
      have took := take_ok (acquired₂.granted.repaged.laidOut laid) supplied₂ taken
      cases answer with
      | ok start =>
        obtain ⟨rfl, rfl⟩ := Step.pure_ok.mp ok
        exact acquired₂.trans ⟨served_pages h₂ s₂ m₂, took⟩
      | error denial =>
        have acquired₃ := acquired₂.trans ⟨served_pages h₂ s₂ m₂, granted_none took id bytes⟩
        cases denial with
        | exhausted =>
          obtain ⟨due, h₄, polled, ok⟩ := Step.bind_ok.mp ok
          have acquired₄ := acquired₃.trans (polls took.supplied polled)
          rw [Step.ite_step] at ok
          split at ok
          · obtain ⟨rfl, rfl⟩ := Step.pure_ok.mp ok
            exact acquired₄
          · obtain ⟨_, h₅, reported, ok⟩ := Step.bind_ok.mp ok
            obtain ⟨rfl, rfl⟩ := Step.pure_ok.mp ok
            exact acquired₄.trans (reports acquired₄.granted.supplied reported)
        | uncommitted cause =>
          obtain ⟨_, h₅, reported, ok⟩ := Step.bind_ok.mp ok
          obtain ⟨rfl, rfl⟩ := Step.pure_ok.mp ok
          exact acquired₃.trans (reports took.supplied reported)

end TracingHeap.Heap
