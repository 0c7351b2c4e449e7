import TracingHeap.Proofs.Words

/-! Page ledgers as numbers. The pages that are backed are counted exactly, since there is never more memory than a word can
count. Promises can be made without limit, and the counter of promised pages wraps with them. -/

namespace TracingHeap.Pages.Ledger

/-- The ledger once pages are promised. -/
def promised (l : Ledger) (pages : Word) : Ledger := { l with reserved := l.reserved + pages }

/-- The ledger once a promise is withdrawn. -/
def withdrawn (l : Ledger) (pages : Word) : Ledger := { l with reserved := l.reserved - pages }

/-- The ledger once pages are backed by memory. -/
def backed (l : Ledger) (pages : Word) : Ledger := ⟨l.reserved + pages, l.committed + pages⟩

/-- The ledger once pages are given back. -/
def released (l : Ledger) (pages : Word) : Ledger := ⟨l.reserved - pages, l.committed - pages⟩

/-- So many pages are backed, and so many more are promised for requests that are not settled yet. -/
structure Counts (l : Ledger) (held owed : Nat) : Prop where
  committed : l.committed.toNat = held
  reserved : l.reserved.toNat = (held + owed) % 2 ^ 64

variable {l : Ledger} {pages : Word} {held owed : Nat}

@[simp] theorem withdrawn_promised (l : Ledger) (pages : Word) : (l.promised pages).withdrawn pages = l := by
  simp only [promised, withdrawn, UInt64.add_sub_cancel]

theorem empty_counts : empty.Counts 0 0 := ⟨rfl, rfl⟩

theorem Counts.promised (counts : l.Counts held owed) : (l.promised pages).Counts held (owed + pages.toNat) := by
  refine ⟨counts.committed, ?_⟩
  simp only [Ledger.promised, UInt64.toNat_add, counts.reserved]
  omega

theorem Counts.withdrawn (counts : l.Counts held owed) (owes : pages.toNat ≤ owed) :
    (l.withdrawn pages).Counts held (owed - pages.toNat) := by
  have bound := pages.toNat_lt
  refine ⟨counts.committed, ?_⟩
  simp only [Ledger.withdrawn, UInt64.toNat_sub, counts.reserved]
  omega

theorem Counts.backed (counts : l.Counts held owed) (fits : held + pages.toNat < 2 ^ 64) :
    (l.backed pages).Counts (held + pages.toNat) owed := by
  constructor
  · simp only [Ledger.backed, UInt64.toNat_add, counts.committed, Nat.mod_eq_of_lt fits]
  · simp only [Ledger.backed, UInt64.toNat_add, counts.reserved]
    omega

theorem Counts.released (counts : l.Counts (held + pages.toNat) owed) : (l.released pages).Counts held owed := by
  have bound := pages.toNat_lt
  have committed := counts.committed
  have small := l.committed.toNat_lt
  constructor
  · simp only [Ledger.released, UInt64.toNat_sub]
    omega
  · simp only [Ledger.released, UInt64.toNat_sub, counts.reserved]
    omega

end TracingHeap.Pages.Ledger
