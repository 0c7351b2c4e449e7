import TracingHeap.Proofs.Budgets

/-! The accounts of sources of runs. The page counter of such a source is compared with the pages of its live runs; the
difference is what requests under way have been promised, so no request changes it in the end, however it comes out. -/

namespace TracingHeap

open Pages

namespace Pages.Runs

variable {r r' : Runs} {m m' : Memory}

/-- The number of pages of the live runs. -/
def livePages (r : Runs) : Nat := (r.map.live.map (·.pages)).sum

/-- How many more pages the ledger counts than are live. -/
def excess (r : Runs) : Word := r.ledger.reserved - UInt64.ofNat r.livePages

/-- The ledger counts the live pages and no others. -/
theorem excess_eq_zero : r.excess = 0 ↔ r.ledger.reserved = UInt64.ofNat r.livePages := by
  unfold excess
  exact ⟨fun none => by grind, fun same => by grind⟩

/-- At first nothing is live, and nothing is counted. -/
theorem new_excess (e : Extent) : (new e).excess = 0 := excess_eq_zero.mpr rfl

/-- What a request writes into the ledger. -/
theorem take_ledger {pending bytes : Word} {res : Except Denial Address} (ok : take pending bytes (r, m) = .ok res (r', m')) :
    (∀ e, res = .error e → r'.ledger.reserved = r.ledger.reserved - pending) ∧
      ∀ a, res = .ok a → ∃ pages, bytes.pagesUp = .ok pages ∧ r'.ledger.reserved = r.ledger.reserved - pending + pages := by
  obtain ⟨-, pages, limit, counted, -, serves⟩ := takeUnless_iff.mp ok
  cases serves with
  | exhausted => exact ⟨fun _ _ => rfl, fun _ other => by cases other⟩
  | refused => exact ⟨fun _ _ => rfl, fun _ other => by cases other⟩
  | granted => exact ⟨fun _ other => (by cases other), fun _ _ => ⟨pages, counted, rfl⟩⟩

/-- However a request comes out, its promise is settled. -/
theorem take_excess {pending bytes : Word} {res : Except Denial Address} (placed : r.extent.Placed) (sound : r.Sound)
    (ok : take pending bytes (r, m) = .ok res (r', m')) : r'.excess = r.excess - pending := by
  obtain ⟨-, -, refused, served⟩ := take_ok placed sound ok
  obtain ⟨withdrawn, replaced⟩ := take_ledger ok
  unfold excess livePages
  cases res with
  | error e =>
    rw [withdrawn e rfl, (refused e rfl).1]
    grind
  | ok a =>
    obtain ⟨run, live, length, -⟩ := served a rfl
    obtain ⟨pages, counted, reserved⟩ := replaced a rfl
    rw [← Word.toNat_pagesUp counted] at length
    rw [reserved, live, List.map_cons, List.sum_cons, length, UInt64.ofNat_add, UInt64.ofNat_toNat]
    grind

/-- A request leaves no trace in the accounts if just what it settles was promised for it. -/
theorem take_promised {pages bytes : Word} {res : Except Denial Address} (placed : r.extent.Placed) (sound : r.Sound)
    (ok : take pages bytes ({ r with ledger := r.ledger.promised pages }, m) = .ok res (r', m')) : r'.excess = r.excess := by
  have settled := take_excess (r := { r with ledger := r.ledger.promised pages }) placed sound ok
  have promised : excess { r with ledger := r.ledger.promised pages } = r.excess + pages := by
    simp only [excess, livePages, Ledger.promised]
    grind
  rw [settled, promised]
  grind

/-- What a run that is taken back writes into the ledger. -/
theorem release_ledger {start : Address} {pages : Word} (ok : release start (r, m) = .ok pages (r', m')) :
    r'.ledger.reserved = r.ledger.reserved - pages := by
  obtain ⟨_, _, -, -, -, -, -, rfl⟩ := release_parts ok
  rfl

/-- A run that is taken back is written off. -/
theorem release_excess {start : Address} {pages : Word} (placed : r.extent.Placed) (sound : r.Sound)
    (ok : release start (r, m) = .ok pages (r', m')) : r'.excess = r.excess := by
  obtain ⟨run, -, -, -, length, -, -, live, -⟩ := release_ok placed sound ok
  have reserved := release_ledger ok
  have sum := (live.map (·.pages)).sum_nat
  unfold excess livePages
  rw [reserved, sum, List.map_cons, List.sum_cons, ← length, UInt64.ofNat_add, UInt64.ofNat_toNat]
  grind

end Pages.Runs

/-! ### Requests -/

namespace Heap

variable {h h' : Heap} {id : SpaceId} {bytes : Word} {r : Option Address}

/-- What a request for memory does to the spaces: nothing, or they are asked for memory that they have promised. -/
theorem acquire_cases (ok : acquire id bytes h = .ok r h') :
    (r = none ∧ h'.spaces = h.spaces ∧ h'.memory = h.memory) ∨ ∃ pages answer, r = answer.toOption ∧
      Spaces.take id pages bytes ((h.promising id pages).spaces, h.memory) = .ok answer (h'.spaces, h'.memory) := by
  unfold acquire at ok
  rw [Step.get_bind, Step.ite_step] at ok
  split at ok
  · obtain ⟨_, h₁, reported, ok⟩ := Step.bind_ok.mp ok
    obtain ⟨rfl, rfl⟩ := Step.pure_ok.mp ok
    rw [report_ok reported]
    exact .inl ⟨rfl, rfl, rfl⟩
  · simp only [Step.bind_ok, Step.lift_ok] at ok
    obtain ⟨pages, _, ⟨-, rfl⟩, _, h₁, reserved, due, h₂, polled, ok⟩ := ok
    obtain rfl := reserve_ok reserved
    obtain ⟨demand, nextFull, rfl⟩ := poll_ok polled
    rw [Step.ite_step] at ok
    split at ok
    · simp only [Step.bind_ok, Step.pure_ok] at ok
      obtain ⟨_, h₃, withdrawn, rfl, rfl⟩ := ok
      rw [withdraw_ok withdrawn]
      exact .inl ⟨rfl, promising_withdrawn, rfl⟩
    · obtain ⟨answer, h₃, tried, ok⟩ := Step.bind_ok.mp ok
      obtain ⟨s, m, taken, rfl⟩ := onSpaces_ok.mp tried
      refine .inr ⟨pages, answer, ?_⟩
      cases answer with
      | ok start =>
        obtain ⟨rfl, rfl⟩ := Step.pure_ok.mp ok
        exact ⟨rfl, taken⟩
      | error denial =>
        cases denial with
        | exhausted =>
          obtain ⟨due, h₄, polled, ok⟩ := Step.bind_ok.mp ok
          obtain ⟨demand, nextFull, rfl⟩ := poll_ok polled
          rw [Step.ite_step] at ok
          split at ok
          · obtain ⟨rfl, rfl⟩ := Step.pure_ok.mp ok
            exact ⟨rfl, taken⟩
          · obtain ⟨_, h₅, reported, ok⟩ := Step.bind_ok.mp ok
            obtain ⟨rfl, rfl⟩ := Step.pure_ok.mp ok
            rw [report_ok reported]
            exact ⟨rfl, taken⟩
        | uncommitted cause =>
          obtain ⟨_, h₅, reported, ok⟩ := Step.bind_ok.mp ok
          obtain ⟨rfl, rfl⟩ := Step.pure_ok.mp ok
          rw [report_ok reported]
          exact ⟨rfl, taken⟩

end Heap

namespace Spaces

/-- The spaces differ in one of them at most. -/
def AgreeBut (s s' : Spaces) (id : SpaceId) : Prop := ∀ id' ≠ id, s'.space id' = s.space id'

theorem AgreeBut.trans {s s' s'' : Spaces} {id : SpaceId} (one : s.AgreeBut s' id) (two : s'.AgreeBut s'' id) :
    s.AgreeBut s'' id := fun id' other => (two id' other).trans (one id' other)

theorem AgreeBut.large {s s' : Spaces} {id : SpaceId} (same : s.AgreeBut s' id) (other : id ≠ .large) : s'.large = s.large :=
  Space.large.inj (same .large other.symm)

variable {s s' : Spaces} {m m' : Memory} {id id' : SpaceId} {l : Ledger} {pending bytes : Word} {r : Except Denial Address}

theorem space_setLedger_ne (other : id' ≠ id) : (s.setLedger id l).space id' = s.space id' := by
  unfold setLedger space
  cases id <;> cases id' <;> first | contradiction | rfl

/-- A request to one space is no concern of the others. -/
theorem take_elsewhere (ok : take id pending bytes (s, m) = .ok r (s', m')) (other : id' ≠ id) :
    s'.space id' = s.space id' := by
  unfold take at ok
  rcases onPages_cases ok with ⟨p, rfl, rfl, -⟩ | ⟨x, p, rfl, -, rfl, -⟩ | ⟨x, p, rfl, -, rfl, -⟩ | ⟨p, rfl, rfl, -⟩ |
    ⟨p, rfl, rfl, -⟩
  all_goals cases id' <;> first | contradiction | rfl

end Spaces

namespace Heap

variable {h h' : Heap} {id id' : SpaceId} {bytes : Word} {r : Option Address}

/-- A request to one space is no concern of the others. -/
theorem acquire_elsewhere (ok : acquire id bytes h = .ok r h') : h.spaces.AgreeBut h'.spaces id := by
  intro id' other
  rcases acquire_cases ok with ⟨-, same, -⟩ | ⟨pages, answer, -, taken⟩
  · rw [same]
  · exact (Spaces.take_elsewhere taken other).trans (Spaces.space_setLedger_ne other)

variable (laid : h.spaces.LaidOut) (supplied : h.spaces.Supplied h.memory) (ok : acquire id bytes h = .ok r h')
include laid supplied ok

/-- A request leaves the accounts of the large objects as they were. -/
theorem acquire_excess_large : h'.spaces.large.pages.excess = h.spaces.large.pages.excess := by
  by_cases other : id ≠ .large
  · rw [(acquire_elsewhere ok).large other]
  · obtain rfl := not_not.mp other
    rcases acquire_cases ok with ⟨-, same, -⟩ | ⟨pages, answer, -, taken⟩
    · rw [same]
    · unfold Spaces.take at taken
      rcases Spaces.onPages_cases taken with ⟨_, same, -⟩ | ⟨_, _, same, -⟩ | ⟨_, _, same, -⟩ | ⟨_, same, -⟩ | ⟨p, -, same, took⟩
      · cases same
      · cases same
      · cases same
      · cases same
      · rw [same]
        exact Runs.take_promised (laid.placed .large) (supplied .large) took

/-- A request leaves the accounts of the mature store as they were. -/
theorem acquire_excess_mature {x : MarkSweepSpace} (second : h.spaces.second = .mature x) :
    ∃ p, h'.spaces.second = .mature { x with pages := p } ∧ p.excess = x.pages.excess := by
  by_cases other : id ≠ .second
  · have same := acquire_elsewhere ok .second other.symm
    refine ⟨x.pages, ?_, rfl⟩
    simp only [Spaces.space, second] at same
    cases second' : h'.spaces.second with
    | mature y =>
      simp only [second', Space.markSweep.injEq] at same
      rw [same]
    | twin y =>
      simp only [second', reduceCtorEq] at same
  · obtain rfl := not_not.mp other
    rcases acquire_cases ok with ⟨-, same, -⟩ | ⟨pages, answer, -, taken⟩
    · exact ⟨x.pages, same ▸ second, rfl⟩
    · have promised : (h.promising .second pages).spaces.second =
          .mature { x with pages := { x.pages with ledger := x.pages.ledger.promised pages } } := by
        simp only [promising, Spaces.setLedger, SecondSpace.setLedger, Spaces.ledgerOf, Spaces.space, Space.ledger, second]
      have sound := supplied .second
      have placed := laid.placed .second
      simp only [Spaces.space, second] at sound placed
      unfold Spaces.take at taken
      rcases Spaces.onPages_cases taken with ⟨_, same, -⟩ | ⟨_, _, -, twin, -⟩ | ⟨y, p, -, mature, same, took⟩ | ⟨_, same, -⟩ |
        ⟨_, same, -⟩
      · cases same
      · rw [promised] at twin
        cases twin
      · rw [promised] at mature
        cases mature
        exact ⟨p, by rw [same], Runs.take_promised placed sound took⟩
      · cases same
      · cases same

end Heap

/-! ### The accounts of all spaces -/

/-- How many more pages the ledger counts than the blocks have. -/
def MarkSweepSpace.excess (x : MarkSweepSpace) : Word := x.pages.ledger.reserved - UInt64.ofNat (16 * x.blocks.length)

namespace Spaces

/-- How many more pages are counted than are in use: for large objects, and for the blocks of the mature store. -/
def excess (s : Spaces) : Word × Word :=
  (s.large.pages.excess, match s.second with
    | .mature x => x.excess
    | .twin _ => 0)

/-- Every live run of the large object space is one of the rooms. -/
def Occupied (s : Spaces) (rooms : List (SpaceId × Span)) : Prop :=
  ∀ run ∈ s.large.pages.map.live, (SpaceId.large, s.large.pages.spanOf run) ∈ rooms

theorem Occupied.mono {s : Spaces} {rooms rooms' : List (SpaceId × Span)} (occupied : s.Occupied rooms) (more : rooms ⊆ rooms') :
    s.Occupied rooms' := fun run live => more (occupied run live)

end Spaces

namespace Heap

variable {h h' : Heap} {id : SpaceId} {bytes : Word} {r : Option Address}

/-- A request leaves all accounts as they were, unless a block was taken that is still to be entered. -/
theorem acquire_excess (laid : h.spaces.LaidOut) (supplied : h.spaces.Supplied h.memory) (ok : acquire id bytes h = .ok r h')
    (plain : r = none ∨ id ≠ .second ∨ h.spaces.plan = .semispace) : h'.spaces.excess = h.spaces.excess := by
  have got := acquire_ok laid supplied ok
  unfold Spaces.excess
  rw [acquire_excess_large laid supplied ok]
  cases second : h.spaces.second with
  | twin x =>
    have plan := got.granted.repaged.plan
    simp only [Spaces.plan, second] at plan
    cases second' : h'.spaces.second with
    | twin y => rfl
    | mature y => simp only [second', reduceCtorEq] at plan
  | mature x =>
    obtain ⟨p, second', level⟩ := acquire_excess_mature laid supplied ok second
    obtain ⟨q, third, kept | ⟨a, rfl, answer, -⟩, -⟩ := got.granted.mature x second
    · have same : p = q := by
        rw [second'] at third
        injection third with third
        exact congrArg MarkSweepSpace.pages third
      have live : p.livePages = x.pages.livePages := by
        rw [Runs.livePages, same, kept]
        rfl
      simp only [second', Prod.mk.injEq, true_and, MarkSweepSpace.excess]
      unfold Runs.excess at level
      rw [live] at level
      grind
    · rcases plain with rfl | other | semispace
      · cases answer
      · exact absurd rfl other
      · rw [Spaces.plan, second] at semispace
        cases semispace

/-- A block is counted when it is taken. -/
theorem acquire_block {a : Address} {x : MarkSweepSpace} (laid : h.spaces.LaidOut) (supplied : h.spaces.Supplied h.memory)
    (ok : acquire .second SizeClass.blockBytes h = .ok (some a) h') (second : h.spaces.second = .mature x) :
    ∃ p, h'.spaces.second = .mature { x with pages := p } ∧ p.ledger.reserved = x.pages.ledger.reserved + 16 := by
  obtain ⟨p, second', level⟩ := acquire_excess_mature laid supplied ok second
  obtain ⟨q, third, -, served⟩ := (acquire_ok laid supplied ok).granted.mature x second
  obtain ⟨run, live, length, -⟩ := served a rfl rfl
  have same : p = q := by
    rw [second'] at third
    injection third with third
    exact congrArg MarkSweepSpace.pages third
  subst same
  have sixteen : run.pages = 16 := length
  refine ⟨p, second', ?_⟩
  unfold Runs.excess Runs.livePages at level
  rw [live, List.map_cons, List.sum_cons, sixteen, UInt64.ofNat_add] at level
  have number : UInt64.ofNat 16 = 16 := rfl
  rw [number] at level
  grind

end Heap

end TracingHeap
