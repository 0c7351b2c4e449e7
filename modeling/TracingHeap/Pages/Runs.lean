import TracingHeap.Layout
import TracingHeap.Pages.Ledger

/-!
Page runs: sources of memory that hand out runs of whole pages and take them back one by one. Free runs
are kept apart in address order, a request takes the first one that is long enough, and only when there
is none does the high-water mark rise. A run that comes back is joined with its free neighbours.
-/

namespace TracingHeap.Pages

/-- A row of pages of one extent. -/
structure Run where
  /-- The index of the first page. -/
  first : Nat
  /-- The number of pages. -/
  pages : Nat
  deriving DecidableEq, Inhabited

/-- Which pages of an extent are free and which are handed out. -/
structure RunMap where
  /-- Free runs below the high-water mark, in the order of their first pages. -/
  free : List Run
  /-- Runs handed out. -/
  live : List Run
  /-- Pages from this index on were never handed out, or have come back. -/
  highWater : Nat
  deriving DecidableEq, Inhabited

namespace RunMap

/-- Nothing was handed out yet. -/
def empty : RunMap := ⟨[], [], 0⟩

/-- The list without its run that starts at a page. -/
def without (first : Nat) (runs : List Run) : List Run := runs.filter (·.first != first)

/-- The run of the list that starts at a page. -/
def startingAt? (first : Nat) (runs : List Run) : Option Run := runs.find? (·.first == first)

/-- The list in the order of first pages with one more run, which replaces one that starts with it. -/
def insert (run : Run) : List Run → List Run
  | [] => [run]
  | head :: rest =>
    if run.first < head.first then run :: head :: rest
    else if run.first = head.first then run :: rest
    else head :: insert run rest

/-- The free runs once `pages` pages are cut off the front of one of them. -/
def cut (run : Run) (pages : Nat) (free : List Run) : List Run :=
  let rest := without run.first free
  if pages < run.pages then insert ⟨run.first + pages, run.pages - pages⟩ rest else rest

/-- Hands out the first free run that is long enough, or else pages at the high-water mark as far as
`limit`. Answers the index of the first page. -/
def take (m : RunMap) (pages limit : Nat) : Option (Nat × RunMap) :=
  match m.free.find? fun run => pages ≤ run.pages with
  | some run =>
    some (run.first,
      { m with
        free := cut run pages m.free
        live := ⟨run.first, pages⟩ :: without run.first m.live })
  | none =>
    if m.highWater + pages ≤ limit then
      some (m.highWater,
        { m with
          live := ⟨m.highWater, pages⟩ :: without m.highWater m.live
          highWater := m.highWater + pages })
    else none

/-- The run joined with the free run that ends where it starts, and the free runs left. -/
def joinBelow (run : Run) (free : List Run) : Run × List Run :=
  match (free.filter (·.first < run.first)).getLast? with
  | some below =>
    if below.first + below.pages = run.first then
      (⟨below.first, run.pages + below.pages⟩, without below.first free)
    else (run, free)
  | none => (run, free)

/-- The run joined with the free run that starts where it ends, and the free runs left. -/
def joinAbove (run : Run) (free : List Run) : Run × List Run :=
  match startingAt? (run.first + run.pages) free with
  | some above => (⟨run.first, run.pages + above.pages⟩, without above.first free)
  | none => (run, free)

/-- Takes a run back: it is joined with its neighbours, and lowers the high-water mark if it ends there. -/
def giveBack (m : RunMap) (run : Run) : RunMap :=
  let (run, free) := joinBelow run m.free
  let (run, free) := joinAbove run free
  if run.first + run.pages = m.highWater then { m with free, highWater := run.first }
  else { m with free := insert run free }

/-- The live run that starts at a page. -/
def liveAt? (m : RunMap) (first : Nat) : Option Run := startingAt? first m.live

/-- The map without the live run that starts at a page. -/
def forget (m : RunMap) (first : Nat) : RunMap := { m with live := without first m.live }

end RunMap

/-- A source that hands out runs of pages of an extent. -/
structure Runs where
  extent : Extent
  ledger : Ledger
  map : RunMap
  deriving DecidableEq, Inhabited

namespace Runs

/-- A source that has handed out nothing. -/
def new (extent : Extent) : Runs := ⟨extent, .empty, .empty⟩

/-- The ledger as a part of the source. -/
@[inline] def ledgerPart : Focus Runs Ledger := ⟨(·.ledger), fun r l => { r with ledger := l }⟩

/-- The index of the page that an address of the extent lies in. -/
def pageOf (r : Runs) (a : Address) : Except Fault Nat := do
  return ((← a.distance r.extent.start) >>> Word.logPage).toNat

/-- The first address of a page. -/
def addressOf (r : Runs) (page : Nat) : Except Fault Address :=
  r.extent.start.above (Word.ofPages (UInt64.ofNat page))

/-- Hands out a run of zeroed pages that holds `bytes`, unless the system refuses to back it. The `pending` pages written
down for the request are withdrawn whether or not it succeeds, and replaced by the pages of the run. -/
def takeUnless (refusal : Option Refusal) (pending bytes : Word) : Step (Runs × Memory) (Except Denial Address) := do
  Step.on (Focus.fst.comp ledgerPart) (Ledger.withdraw pending)
  let pages ← bytes.pagesUp
  let (r, _) ← get
  let limit ← r.extent.bytes.pagesUp
  match r.map.take pages.toNat limit.toNat with
  | none => return .error .exhausted
  | some (first, map) =>
    modify fun (r, m) => ({ r with map }, m)
    let start ← r.addressOf first
    let (_, m) ← get
    match m.commitUnless refusal start (Word.ofPages pages) with
    | .error cause =>
      modify fun (r, m) => ({ r with map := (r.map.forget first).giveBack ⟨first, pages.toNat⟩ }, m)
      return .error (.uncommitted cause)
    | .ok m =>
      modify fun (r, _) => (r, m)
      Step.on (Focus.fst.comp ledgerPart) (Ledger.commit pages)
      return .ok start

/-- Hands out a run of zeroed pages that holds `bytes`, which the system does not refuse to back. -/
def take (pending bytes : Word) : Step (Runs × Memory) (Except Denial Address) := takeUnless none pending bytes

/-- Takes the run back that starts at an address, and answers its number of pages. -/
def release (start : Address) : Step (Runs × Memory) Word := do
  let (r, _) ← get
  let first ← r.pageOf start
  match r.map.liveAt? first with
  | none => Step.fail (.pagesNotLive start)
  | some run =>
    let pages : Word := UInt64.ofNat run.pages
    modify fun (r, m) =>
      ({ r with map := r.map.forget first }, m.giveBack start (Word.ofPages pages))
    Step.on (Focus.fst.comp ledgerPart) (Ledger.release pages)
    modify fun (r, m) => ({ r with map := r.map.giveBack ⟨first, run.pages⟩ }, m)
    return pages

/-- The number of pages of the live run that starts at an address. -/
def pagesAt (r : Runs) (start : Address) : Except Fault (Option Nat) := do
  return (r.map.liveAt? (← r.pageOf start)).map (·.pages)

/-- The pages of the extent that are not promised. -/
def available (r : Runs) : Except Fault Word := do
  return (← r.extent.bytes.pagesUp).minusOrZero r.ledger.reserved

end Runs

end TracingHeap.Pages
