import TracingHeap.Checked
import TracingHeap.Memory

/-!
Page ledgers: how many pages a space has promised and how many of them are backed by memory. A request
is written down before it is tried, and withdrawn or replaced afterwards. The counters wrap, and a
withdrawal of more than was promised is noticed only after it was made.
-/

namespace TracingHeap.Pages

/-- The page counters of one space. -/
structure Ledger where
  /-- Pages promised, requests under way included. -/
  reserved : Word
  /-- Pages backed by memory. -/
  committed : Word
  deriving DecidableEq, Inhabited

namespace Ledger

/-- A ledger without pages. -/
def empty : Ledger := ⟨0, 0⟩

/-- Writes down a request that is about to be tried. -/
def reserve (pages : Word) : Step Ledger Unit :=
  modify fun l => { l with reserved := l.reserved + pages }

/-- Withdraws a request. -/
def withdraw (pages : Word) : Step Ledger Unit := do
  let before := (← get).reserved
  modify fun l => { l with reserved := l.reserved - pages }
  Step.ensure (pages ≤ before) (.overWithdrawn pages before)

/-- Writes down pages that were backed by memory. -/
def commit (pages : Word) : Step Ledger Unit :=
  modify fun l => ⟨l.reserved + pages, l.committed + pages⟩

/-- Writes off pages that were given back. -/
def release (pages : Word) : Step Ledger Unit := do
  let before ← get
  set (⟨before.reserved - pages, before.committed - pages⟩ : Ledger)
  Step.ensure (pages ≤ before.reserved && pages ≤ before.committed) .overReleased

/-- Writes off everything. -/
def reset : Step Ledger Unit := set empty

end Ledger

/-- Why a source of pages gave none. -/
inductive Denial where
  /-- The extent has no room left. -/
  | exhausted
  /-- The system did not back the pages. -/
  | uncommitted (cause : Refusal)
  deriving DecidableEq

/-- The name of the kind of a denial. -/
def Denial.kind : Denial → String
  | .exhausted => "Exhausted"
  | .uncommitted _ => "Mmap"

/-- A denial in words. -/
def Denial.message : Denial → String
  | .exhausted => "space exhausted"
  | .uncommitted cause => "failed to commit memory: " ++ cause.message

end TracingHeap.Pages
