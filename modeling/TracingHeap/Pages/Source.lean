import TracingHeap.Pages.Frontier
import TracingHeap.Pages.Runs

/-!
Sources of pages: what the two kinds have in common. Pages are promised in the source's ledger before
memory is taken, and a request that is served or refused withdraws its promise.
-/

namespace TracingHeap.Pages

/-- A source of pages out of one extent. -/
class Source (κ : Type) extends Inhabited κ where
  /-- The addresses that it hands out. -/
  extent : κ → Extent
  /-- Its page counters. -/
  ledger : Focus κ Ledger
  /-- The pages of the extent that are not promised. -/
  available : κ → Except Fault Word
  /-- Takes bytes for which pages were promised. -/
  take : Word → Word → Step (κ × Memory) (Except Denial Address)

instance : Source Frontier := ⟨(·.extent), Frontier.ledgerPart, (·.available), Frontier.take⟩

instance : Source Runs := ⟨(·.extent), Runs.ledgerPart, (·.available), Runs.take⟩

namespace Source

variable {κ α : Type} [Source κ]

/-- Runs a step of the page counters of a source. -/
def onLedger (step : Step Ledger α) : Step (κ × Memory) α := Step.on (Focus.fst.comp ledger) step

end Source

end TracingHeap.Pages
