import TracingHeap.Pages.Source
import TracingHeap.Settings
import TracingHeap.Space.Copying
import TracingHeap.Space.Immortal
import TracingHeap.Space.Large
import TracingHeap.Space.MarkSweep

/-!
The spaces of a heap. Every heap has a copying space, an immortal space and a large object space; its
plan decides whether the second space is a mature store or the other half. `Space` is the view of one
space in which the kinds are told apart only where they differ.
-/

namespace TracingHeap

/-- A space by its role; the roles are in the order in which the spaces are laid out. -/
inductive SpaceId where
  /-- The nursery, or the half that is in use first. -/
  | first
  /-- The mature store, or the other half. -/
  | second
  | immortal
  | large
  deriving DecidableEq, Inhabited

namespace SpaceId

/-- The tag of a space. -/
def tag : SpaceId → SpaceTag
  | first => ⟨1⟩
  | second => ⟨2⟩
  | immortal => ⟨3⟩
  | large => ⟨4⟩

/-- The spaces in the order in which they are listed. -/
def all : List SpaceId := [immortal, large, first, second]

end SpaceId

/-- One space of whatever kind. -/
inductive Space where
  | copying (space : CopySpace)
  | markSweep (space : MarkSweepSpace)
  | immortal (space : ImmortalSpace)
  | large (space : LargeSpace)

namespace Space

/-- What every space has besides its pages. -/
def region : Space → Region
  | copying s => s.region
  | markSweep s => s.region
  | immortal s => s.region
  | large s => s.region

/-- The addresses of a space. -/
def extent : Space → Extent
  | copying s => s.pages.extent
  | markSweep s => s.pages.extent
  | immortal s => s.pages.extent
  | large s => s.pages.extent

/-- The page counters of a space. -/
def ledger : Space → Pages.Ledger
  | copying s => s.pages.ledger
  | markSweep s => s.pages.ledger
  | immortal s => s.pages.ledger
  | large s => s.pages.ledger

/-- The pages of a space that are not promised. -/
def available : Space → Except Fault Word
  | copying s => s.pages.available
  | markSweep s => s.pages.available
  | immortal s => s.pages.available
  | large s => s.pages.available

/-- May a collection move the objects of a space? -/
def isMovable : Space → Bool
  | copying _ => true
  | _ => false

/-- Is an object of the space live, as far as the last or present collection knows? -/
def isLive (object : Address) : Space → Except Fault Bool
  | copying s => s.isLive object
  | markSweep s => s.isMarked object
  | immortal _ => .ok true
  | large s => s.isLive object

/-- Will an object of the space stay where it is for the rest of the collection? -/
def willNotMove (object : Address) : Space → Except Fault Bool
  | copying s => s.willNotMove object
  | _ => .ok true

end Space

/-- The space that depends on the plan. -/
inductive SecondSpace where
  | mature (space : MarkSweepSpace)
  | twin (space : CopySpace)
  deriving Inhabited

/-- The spaces of a heap. -/
structure Spaces where
  first : CopySpace
  second : SecondSpace
  immortal : ImmortalSpace
  large : LargeSpace
  deriving Inhabited

namespace Spaces

/-- The plan of a heap with these spaces. -/
def plan (s : Spaces) : Plan :=
  match s.second with
  | .mature _ => .generational
  | .twin _ => .semispace

/-- One of the spaces. -/
def space (s : Spaces) : SpaceId → Space
  | .first => .copying s.first
  | .second =>
    match s.second with
    | .mature space => .markSweep space
    | .twin space => .copying space
  | .immortal => .immortal s.immortal
  | .large => .large s.large

/-- The name of a space. -/
def nameOf (s : Spaces) (id : SpaceId) : String := (s.space id).region.name

/-- The page counters of a space. -/
def ledgerOf (s : Spaces) (id : SpaceId) : Pages.Ledger := (s.space id).ledger

/-- The space of a name. -/
def ofName? (s : Spaces) (name : String) : Option SpaceId :=
  SpaceId.all.find? fun id => s.nameOf id == name

/-- The space that holds an address. -/
def holding? (s : Spaces) (a : Address) : Option SpaceId :=
  SpaceId.all.find? fun id => (s.space id).extent.holds a

/-- The first space as a part of the spaces. -/
@[inline] def firstPart : Focus Spaces CopySpace := ⟨(·.first), fun s c => { s with first := c }⟩

/-- The second space as a part of the spaces. -/
@[inline] def secondPart : Focus Spaces SecondSpace := ⟨(·.second), fun s c => { s with second := c }⟩

/-- The immortal space as a part of the spaces. -/
@[inline] def immortalPart : Focus Spaces ImmortalSpace :=
  ⟨(·.immortal), fun s c => { s with immortal := c }⟩

/-- The large object space as a part of the spaces. -/
@[inline] def largePart : Focus Spaces LargeSpace := ⟨(·.large), fun s c => { s with large := c }⟩

variable {α : Type}

/-- Runs a step of the mature store, if there is one. -/
def onMature (step : Step (MarkSweepSpace × Memory) α) : Step (SecondSpace × Memory) α
  | (.mature space, m) =>
    match step (space, m) with
    | .ok a (space, m) => .ok a (.mature space, m)
    | .error e (space, m) => .error e (.mature space, m)
  | (.twin space, m) => .error (.notMarkSweep space.region.name) (.twin space, m)

/-- Runs a step of the second half, if there is one. -/
def onTwin (step : Step (CopySpace × Memory) α) : Step (SecondSpace × Memory) α
  | (.twin space, m) =>
    match step (space, m) with
    | .ok a (space, m) => .ok a (.twin space, m)
    | .error e (space, m) => .error e (.twin space, m)
  | (.mature space, m) => .error (.notCopying space.region.name) (.mature space, m)

/-- Runs a step of one of the copying spaces. -/
def onCopying (id : SpaceId) (step : Step (CopySpace × Memory) α) : Step (Spaces × Memory) α :=
  match id with
  | .first => Step.onBoth (Focus.fst.comp firstPart) Focus.snd step
  | .second => Step.onBoth (Focus.fst.comp secondPart) Focus.snd (onTwin step)
  | .immortal | .large => do Step.fail (.notCopying ((← get).1.nameOf id))

/-- Runs a step of the source of pages of a space, whatever its kind. -/
def onPages (id : SpaceId) (step : {κ : Type} → [Pages.Source κ] → Step (κ × Memory) α) :
    Step (Spaces × Memory) α :=
  let inCopying : Step (CopySpace × Memory) α :=
    Step.onBoth (Focus.fst.comp CopySpace.pagesPart) Focus.snd step
  match id with
  | .first => Step.onBoth (Focus.fst.comp firstPart) Focus.snd inCopying
  | .second => Step.onBoth (Focus.fst.comp secondPart) Focus.snd fun
    | (.mature space, m) =>
      onMature (Step.onBoth (Focus.fst.comp MarkSweepSpace.pagesPart) Focus.snd step)
        (.mature space, m)
    | (.twin space, m) => onTwin inCopying (.twin space, m)
  | .immortal =>
    Step.onBoth (Focus.fst.comp (immortalPart.comp ImmortalSpace.pagesPart)) Focus.snd step
  | .large => Step.onBoth (Focus.fst.comp (largePart.comp LargeSpace.pagesPart)) Focus.snd step

/-- Runs a step of the page counters of a space. -/
def onLedger (id : SpaceId) (step : Step Pages.Ledger α) : Step (Spaces × Memory) α :=
  onPages id (Pages.Source.onLedger step)

/-- Takes memory out of a space, see `Pages.Frontier.take` and `Pages.Runs.take`. -/
def take (id : SpaceId) (pending bytes : Word) :
    Step (Spaces × Memory) (Except Pages.Denial Address) :=
  onPages id (Pages.Source.take pending bytes)

end Spaces

end TracingHeap
