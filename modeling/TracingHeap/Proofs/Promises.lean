import TracingHeap.Proofs.Supply
import TracingHeap.Proofs.Upkeep

/-! Promises of pages, space by space. A promise is an entry in the ledger of one space, so promises can be written
down and withdrawn without a trace anywhere else. -/

namespace TracingHeap

open Pages Step

/-- The second space with other page counters. -/
def SecondSpace.setLedger (l : Ledger) : SecondSpace → SecondSpace
  | .mature x => .mature { x with pages := { x.pages with ledger := l } }
  | .twin x => .twin { x with pages := { x.pages with ledger := l } }

/-- The source of pages of the second space is in order. -/
def SecondSpace.InOrder : SecondSpace → Prop
  | .mature x => x.pages.InOrder
  | .twin x => x.pages.InOrder

namespace Spaces

/-- The spaces with other page counters for one of them. -/
def setLedger (s : Spaces) (id : SpaceId) (l : Ledger) : Spaces :=
  match id with
  | .first => { s with first := { s.first with pages := { s.first.pages with ledger := l } } }
  | .second => { s with second := s.second.setLedger l }
  | .immortal => { s with immortal := { s.immortal with pages := { s.immortal.pages with ledger := l } } }
  | .large => { s with large := { s.large with pages := { s.large.pages with ledger := l } } }

/-- Every source of pages is in order. -/
structure InOrder (s : Spaces) : Prop where
  first : s.first.pages.InOrder
  second : s.second.InOrder
  immortal : s.immortal.pages.InOrder
  large : s.large.pages.InOrder

variable {s s' : Spaces} {m m' : Memory} {id id' : SpaceId} {l l' : Ledger}

@[simp] theorem setLedger_setLedger : (s.setLedger id l).setLedger id l' = s.setLedger id l' := by
  unfold setLedger
  cases id with
  | second => cases second : s.second <;> simp [SecondSpace.setLedger]
  | _ => rfl

@[simp] theorem setLedger_self (s : Spaces) (id : SpaceId) : s.setLedger id (s.ledgerOf id) = s := by
  unfold setLedger ledgerOf space
  cases id with
  | second =>
    obtain ⟨first, second, immortal, large⟩ := s
    cases second <;> rfl
  | _ => rfl

@[simp] theorem ledgerOf_setLedger : (s.setLedger id l).ledgerOf id = l := by
  unfold setLedger ledgerOf space
  cases id with
  | second => cases second : s.second <;> rfl
  | _ => rfl

@[simp] theorem plan_setLedger : (s.setLedger id l).plan = s.plan := by
  unfold setLedger plan
  cases id with
  | second => cases second : s.second <;> rfl
  | _ => rfl

theorem InOrder.setLedger (ordered : s.InOrder) : (s.setLedger id l).InOrder := by
  unfold Spaces.setLedger
  cases id with
  | first => exact { ordered with first := ordered.first.of_ledger l }
  | second =>
    refine { ordered with second := ?_ }
    have second := ordered.second
    cases space : s.second with
    | mature x => exact (space ▸ second : SecondSpace.InOrder (.mature x)).of_ledger l
    | twin x => exact (space ▸ second : SecondSpace.InOrder (.twin x)).of_ledger l
  | immortal => exact { ordered with immortal := ordered.immortal.of_ledger l }
  | large => exact { ordered with large := ordered.large.of_ledger l }

/-- A step of the page counters of a space changes these and nothing else. -/
theorem onLedger_eq {α : Type} {step : Step Ledger α} {a : α} (ok : onLedger id step (s, m) = .ok a (s', m')) :
    ∃ l, step (s.ledgerOf id) = .ok a l ∧ s' = s.setLedger id l ∧ m' = m := by
  unfold onLedger at ok
  obtain ⟨first, second, immortal, large⟩ := s
  rcases onPages_cases ok with ⟨p, rfl, rfl, ran⟩ | ⟨x, p, rfl, rfl, rfl, ran⟩ | ⟨x, p, rfl, rfl, rfl, ran⟩ |
    ⟨p, rfl, rfl, ran⟩ | ⟨p, rfl, rfl, ran⟩
  all_goals
    obtain ⟨l, counted, same⟩ := on_ok.mp ran
    cases same
    exact ⟨l, counted, rfl, rfl⟩

end Spaces

end TracingHeap
