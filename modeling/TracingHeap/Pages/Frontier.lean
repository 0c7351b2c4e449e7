import TracingHeap.Layout
import TracingHeap.Pages.Ledger

/-!
Frontiers: sources of memory that serve requests from the bottom of an extent upward. Memory is backed
a page at a time as the frontier moves, and nothing comes back until the whole extent is given back.
-/

namespace TracingHeap.Pages

/-- A source that hands out an extent from the bottom. -/
structure Frontier where
  extent : Extent
  ledger : Ledger
  /-- Where the next request starts. -/
  cursor : Address
  /-- Everything below this is backed by memory. -/
  limit : Address
  deriving DecidableEq, Inhabited

namespace Frontier

/-- A source that has handed out nothing. -/
def new (extent : Extent) : Frontier := ⟨extent, .empty, extent.start, extent.start⟩

/-- The ledger as a part of the source. -/
@[inline] def ledgerPart : Focus Frontier Ledger := ⟨(·.ledger), fun f l => { f with ledger := l }⟩

/-- Backs memory up to the page that `cursor` ends in, if it is not backed already and the system does not refuse. -/
def grow (refusal : Option Refusal) (cursor : Address) : Step (Frontier × Memory) (Except Refusal Unit) := do
  let (f, m) ← get
  if cursor ≤ f.limit then return .ok ()
  let limit := cursor.alignUp Word.pageBytes
  let growth ← limit.distance f.limit
  match m.commitUnless refusal f.limit growth with
  | .error cause => return .error cause
  | .ok m =>
    let pages ← growth.pagesUp
    set (f, m)
    Step.on (Focus.fst.comp ledgerPart) (Ledger.commit pages)
    modify fun (f, m) => ({ f with limit }, m)
    return .ok ()

/-- Hands out `bytes` of zeroed memory, unless the system refuses to back it. The `pending` pages written down for the
request are withdrawn whether or not it succeeds, and replaced by the pages that were backed. -/
def takeUnless (refusal : Option Refusal) (pending bytes : Word) : Step (Frontier × Memory) (Except Denial Address) := do
  Step.ensure (bytes % 16 == 0) (.unalignedRequest bytes)
  Step.on (Focus.fst.comp ledgerPart) (Ledger.withdraw pending)
  let (f, _) ← get
  let start := f.cursor
  let cursor ← start.above bytes
  let stop ← f.extent.stop
  if stop < cursor then return .error .exhausted
  match ← grow refusal cursor with
  | .error cause => return .error (.uncommitted cause)
  | .ok () =>
    modify fun (f, m) => ({ f with cursor }, m)
    return .ok start

/-- Hands out `bytes` of zeroed memory, which the system does not refuse. -/
def take (pending bytes : Word) : Step (Frontier × Memory) (Except Denial Address) := takeUnless none pending bytes

/-- Gives all memory back and starts again from the bottom. Answers the range that was handed out. -/
def reset : Step (Frontier × Memory) (Address × Word) := do
  let (f, _) ← get
  let start := f.extent.start
  let used ← f.cursor.distance start
  let backed ← f.limit.distance start
  modify fun (f, m) =>
    ({ f with cursor := start, limit := start, ledger := .empty }, m.giveBack start backed)
  return (start, used)

/-- The bytes handed out since the last reset. -/
def used (f : Frontier) : Word := f.cursor.word - f.extent.start.word

/-- The pages of the extent that are not promised. -/
def available (f : Frontier) : Except Fault Word := do
  return (← f.extent.bytes.pagesUp).minusOrZero f.ledger.reserved

end Frontier

end TracingHeap.Pages
