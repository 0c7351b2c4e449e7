import TracingHeap.Checked
import TracingHeap.Numeral

/-!
Settings of a heap: its plan, its sizes and its habits. A setting is changed by name and text. A name
that is unknown, a text that does not read as a value of the setting, and a value out of its range are
refused and change nothing.
-/

namespace TracingHeap

/-- How a heap is organised. -/
inductive Plan where
  /-- A copying nursery in front of a mark-sweep mature store. -/
  | generational
  /-- Two halves, of which one is in use. -/
  | semispace
  deriving DecidableEq, Inhabited

namespace Plan

/-- The name of a plan. -/
def name : Plan → String
  | .generational => "GenCopyMS"
  | .semispace => "SemiSpace"

/-- The plan of a name. -/
def ofName? (text : String) : Option Plan := [generational, semispace].find? (·.name == text)

end Plan

/-- What can be set. -/
inductive Setting where
  | plan
  | heapSize
  | threads
  | nurserySize
  | maxNursery
  | immortalSize
  | bumpChunkSize
  | maxCollectionAttempts
  | fullOnRequest
  | ignoreRequests
  deriving DecidableEq

namespace Setting

/-- Every setting. -/
def all : List Setting :=
  [plan, heapSize, threads, nurserySize, maxNursery, immortalSize, bumpChunkSize,
    maxCollectionAttempts, fullOnRequest, ignoreRequests]

/-- The name by which a setting is changed. -/
def name : Setting → String
  | plan => "plan"
  | heapSize => "heap_size"
  | threads => "threads"
  | nurserySize => "nursery_size"
  | maxNursery => "max_nursery"
  | immortalSize => "immortal_size"
  | bumpChunkSize => "bump_chunk_size"
  | maxCollectionAttempts => "max_collection_attempts"
  | fullOnRequest => "full_heap_system_gc"
  | ignoreRequests => "ignore_system_gc"

/-- The setting of a name. -/
def ofName? (text : String) : Option Setting := all.find? (·.name == text)

end Setting

/-- The settings of a heap. -/
structure Settings where
  plan : Plan
  /-- Pages in use beyond this many bytes ask for a collection. -/
  heapSize : Word
  /-- The number of collectors. -/
  threads : Word
  /-- Bytes of address space for the nursery. -/
  nurserySize : Word
  /-- A nursery that has promised more bytes than this asks for a collection. -/
  maxNursery : Word
  /-- Bytes of address space for the immortal space. -/
  immortalSize : Word
  /-- Bytes that a bump allocator takes at a time. -/
  bumpChunkSize : Word
  /-- Collections tried for one allocation before memory counts as exhausted. -/
  maxCollectionAttempts : Word
  /-- Does a collection asked for by the program cover the whole heap? -/
  fullOnRequest : Bool
  /-- Are collections asked for by the program left out? -/
  ignoreRequests : Bool
  deriving DecidableEq, Inhabited

namespace Settings

/-- The settings before anything is changed, for a number of collectors. -/
def initial (threads : Word) : Settings where
  plan := .generational
  heapSize := 67108864
  threads := threads
  nurserySize := 16777216
  maxNursery := 8388608
  immortalSize := 4194304
  bumpChunkSize := 32768
  maxCollectionAttempts := 3
  fullOnRequest := false
  ignoreRequests := false

/-- The value of a yes-or-no setting. -/
def flag? (text : String) : Option Bool :=
  if text == "true" then some true else if text == "false" then some false else none

/-- A number that the setting admits. -/
def number? (admits : Word → Bool) (text : String) : Option Word :=
  (Numeral.word? text).filter admits

/-- The least heap is one chunk. -/
def admitsHeapSize (v : Word) : Bool := Word.chunkBytes ≤ v

/-- The least extent is one page. -/
def admitsExtent (v : Word) : Bool := Word.pageBytes ≤ v

/-- A count of at least one. -/
def admitsCount (v : Word) : Bool := 0 < v

/-- A power of two that holds the least object. -/
def admitsBumpChunk (v : Word) : Bool := 16 ≤ v && v.isPowerOfTwo

/-- The settings with one of them read from a text, or nothing if the text is refused. -/
def change? (s : Settings) (text : String) : Setting → Option Settings
  | .plan => (Plan.ofName? text).map fun v => { s with plan := v }
  | .heapSize => (number? admitsHeapSize text).map fun v => { s with heapSize := v }
  | .threads => (number? admitsCount text).map fun v => { s with threads := v }
  | .nurserySize => (number? admitsExtent text).map fun v => { s with nurserySize := v }
  | .maxNursery => (number? admitsExtent text).map fun v => { s with maxNursery := v }
  | .immortalSize => (number? admitsExtent text).map fun v => { s with immortalSize := v }
  | .bumpChunkSize => (number? admitsBumpChunk text).map fun v => { s with bumpChunkSize := v }
  | .maxCollectionAttempts =>
    (number? admitsCount text).map fun v => { s with maxCollectionAttempts := v }
  | .fullOnRequest => (flag? text).map fun v => { s with fullOnRequest := v }
  | .ignoreRequests => (flag? text).map fun v => { s with ignoreRequests := v }

/-- The settings changed by name, or nothing if the change is refused. -/
def set? (s : Settings) (name text : String) : Option Settings :=
  (Setting.ofName? name).bind (s.change? text)

/-- The settings after a change by name that may be refused. -/
def set (s : Settings) (name text : String) : Settings := (s.set? name text).getD s

/-- The small letter of a letter, as far as it is one of the 26. Besides the 26 capitals only the
kelvin sign has one. -/
def smallLetter (c : Char) : Char := if c.toNat = 0x212A then 'k' else c.toLower

/-- The setting that a variable of the environment stands for: `MMTK_` and a name in any case. -/
def ofVariable? (key : String) : Option Setting :=
  match key.toList with
  | 'M' :: 'M' :: 'T' :: 'K' :: '_' :: rest => Setting.ofName? (String.ofList (rest.map smallLetter))
  | _ => none

/-- Assigns a variable of an environment: one that is there keeps its place, a new one comes last. -/
def assign (key text : String) : List (String × String) → List (String × String)
  | [] => [(key, text)]
  | (other, old) :: rest =>
    if other = key then (key, text) :: rest else (other, old) :: assign key text rest

/-- The variables of an environment after assignments. -/
def environment (assignments : List (String × String)) : List (String × String) :=
  assignments.foldl (fun entries (key, text) => assign key text entries) []

/-- The settings after the variables of an environment, in order. -/
def ofEnvironment (s : Settings) (entries : List (String × String)) : Settings :=
  entries.foldl (fun s (key, text) =>
    match ofVariable? key with
    | some setting => (s.change? text setting).getD s
    | none => s) s

/-- The pages of a nursery at its largest. -/
def maxNurseryPages (s : Settings) : Except Fault Word := s.maxNursery.pagesUp

end Settings

end TracingHeap
