import TracingHeap.Proofs.Acquisition
import TracingHeap.Proofs.Promises

/-! The page budget. A request is promised its pages before it is asked whether a collection is due, so an answer
stays within the budget: the pages that it takes are among those that were counted. A request without an answer
leaves all page counters, and all that was handed out, as they were. -/

namespace TracingHeap

open Pages

/-- Smaller sums fit as well. -/
theorem Word.sum_mono {a b c a' b' : Word} (ok : a.sum b = .ok c) (le : a'.toNat ≤ a.toNat) (le' : b'.toNat ≤ b.toNat) :
    ∃ c', a'.sum b' = .ok c' ∧ c'.toNat ≤ c.toNat := by
  obtain ⟨fits, rfl⟩ := Word.sum_ok.mp ok
  have fits' : a'.toNat + b'.toNat < 2 ^ 64 := by omega
  have ok' := Word.sum_ok.mpr ⟨fits', rfl⟩
  refine ⟨_, ok', ?_⟩
  rw [Word.toNat_sum ok', Word.toNat_sum ok]
  omega

namespace Heap

variable {h h' : Heap} {id : SpaceId} {pages bytes : Word}

/-- No space has promised more pages than in another heap of the same plan. -/
structure Spends (h' h : Heap) : Prop where
  plan : h'.plan = h.plan
  flipped : h'.scope.flipped = h.scope.flipped
  settings : h'.settings = h.settings
  less : ∀ id, (h'.reservedBy id).toNat ≤ (h.reservedBy id).toNat

theorem Spends.current_eq (less : h'.Spends h) : h'.current = h.current := by
  unfold Heap.current
  rw [less.plan, less.flipped]

/-- A heap that has promised less uses less. -/
theorem Spends.pagesUsed {used : Word} (less : h'.Spends h) (ok : h.pagesUsed = .ok used) :
    ∃ used', h'.pagesUsed = .ok used' ∧ used'.toNat ≤ used.toNat := by
  unfold Heap.pagesUsed at ok ⊢
  rw [less.plan]
  cases plan : h.plan with
  | generational =>
    simp only [plan, except_bind_ok] at ok ⊢
    obtain ⟨objects, counted, rest, others, sum⟩ := ok
    obtain ⟨objects', counted', le⟩ := Word.sum_mono counted (less.less .first) (less.less .second)
    obtain ⟨rest', others', le'⟩ := Word.sum_mono others (less.less .immortal) (less.less .large)
    obtain ⟨used', sum', le''⟩ := Word.sum_mono sum le le'
    exact ⟨used', ⟨objects', counted', rest', others', sum'⟩, le''⟩
  | semispace =>
    simp only [plan, except_bind_ok, Except.ok.injEq, exists_eq_left'] at ok ⊢
    obtain ⟨rest, others, sum⟩ := ok
    obtain ⟨rest', others', le'⟩ := Word.sum_mono others (less.less .immortal) (less.less .large)
    obtain ⟨used', sum', le''⟩ := Word.sum_mono sum (less.less h.current) le'
    exact ⟨used', ⟨rest', others', less.current_eq ▸ sum'⟩, le''⟩

/-- A heap that has promised less has less in use and held back. -/
theorem Spends.pagesReserved {reserved : Word} (less : h'.Spends h) (ok : h.pagesReserved = .ok reserved) :
    ∃ reserved', h'.pagesReserved = .ok reserved' ∧ reserved' ≤ reserved := by
  simp only [Heap.pagesReserved, collectionReserve, except_bind_ok] at ok ⊢
  obtain ⟨used, counted, total⟩ := ok
  obtain ⟨used', counted', le⟩ := less.pagesUsed counted
  obtain ⟨total', sum', le'⟩ := Word.sum_mono total le (less.less h.current)
  exact ⟨total', ⟨used', counted', less.current_eq ▸ sum'⟩, UInt64.le_iff_toNat_le.mpr le'⟩

/-- The heap once pages of a space are promised. -/
def promising (h : Heap) (id : SpaceId) (pages : Word) : Heap :=
  { h with spaces := h.spaces.setLedger id ((h.spaces.ledgerOf id).promised pages) }

theorem reserve_ok {u : Unit} (ok : onSpaces (Spaces.onLedger id (Ledger.reserve pages)) h = .ok u h') :
    h' = h.promising id pages := by
  obtain ⟨s, m, counted, rfl⟩ := onSpaces_ok.mp ok
  obtain ⟨l, written, rfl, rfl⟩ := Spaces.onLedger_eq counted
  cases Ledger.reserve_ok.mp written
  rfl

theorem withdraw_ok {u : Unit} (ok : onSpaces (Spaces.onLedger id (Ledger.withdraw pages)) h = .ok u h') :
    h' = { h with spaces := h.spaces.setLedger id ((h.spaces.ledgerOf id).withdrawn pages) } := by
  obtain ⟨s, m, counted, rfl⟩ := onSpaces_ok.mp ok
  obtain ⟨l, written, rfl, rfl⟩ := Spaces.onLedger_eq counted
  obtain ⟨-, rfl⟩ := Ledger.withdraw_ok.mp written
  rfl

/-- A promise that is withdrawn leaves no trace. -/
theorem promising_withdrawn : (h.promising id pages).spaces.setLedger id
    (((h.promising id pages).spaces.ledgerOf id).withdrawn pages) = h.spaces := by
  simp only [promising, Spaces.ledgerOf_setLedger, Ledger.withdrawn_promised, Spaces.setLedger_setLedger, Spaces.setLedger_self]

end Heap

end TracingHeap
