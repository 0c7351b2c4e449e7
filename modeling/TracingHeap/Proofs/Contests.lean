import Mathlib.Logic.Function.Basic
import Mathlib.Logic.Relation
import TracingHeap.Proofs.Markings

/-! Contests for a mark. Collectors that trace the same object read and write its mark one access at a time, so their
accesses mix in every way. Whoever turns the mark into the present one has won the object: it alone moves it on the
treadmill and leaves it to be scanned. -/

namespace TracingHeap

open List Function

/-! ### Collectors and what they have done -/

/-- What a collector does next with an object that it traces. -/
inductive Marker where
  | idle
  /-- It finds out whether the collection covers the object. -/
  | looking (object : Address)
  /-- It reads the mark, or swaps it. -/
  | loading (object : Address) (young : Bool)
  /-- It exchanges the mark that it read, unless that has changed. -/
  | exchanging (object : Address) (young : Bool) (mark : UInt8)
  /-- It has won the object, and moves it on the treadmill. -/
  | saving (object : Address) (young : Bool)
  /-- It leaves the object to be scanned. -/
  | queueing (object : Address)
  | brokenOff (fault : Fault)

namespace Marker

/-- The object that a collector traces. -/
def object? : Marker → Option Address
  | idle | brokenOff _ => none
  | looking o | loading o _ | exchanging o _ _ | saving o _ | queueing o => some o

/-- It has won the object, and still has to leave it to be scanned. -/
def Owes (o : Address) : Marker → Prop
  | saving p _ | queueing p => p = o
  | _ => False

theorem Owes.object {m : Marker} {o : Address} (owes : m.Owes o) : m.object? = some o := by
  cases m with
  | saving => exact congrArg some owes
  | queueing => exact congrArg some owes
  | _ => exact owes.elim

end Marker

/-- What has been done about an object, and by whom. -/
structure Record (ι : Type) where
  /-- Who set about tracing it. -/
  begun : List ι
  /-- Who was told that it won the object. -/
  won : List ι
  /-- Who was told that it did not. -/
  lost : List ι
  /-- Who moved it from one of the collected lists, the one of young objects if so, to the survivors. -/
  saves : List (ι × Bool)
  /-- Who left it to be scanned. -/
  queued : List ι

/-- Nothing has been done about the object. -/
def Record.blank {ι : Type} : Record ι := ⟨[], [], [], [], []⟩

/-- Collectors that trace objects of one space. -/
structure Contest (ι : Type) where
  marks : SideTable
  treadmill : Treadmill
  collectors : ι → Marker
  records : Address → Record ι

namespace Contest

open Marking

variable {ι : Type} {x : Marking} {objects : Address → Prop} {s s' : Contest ι} {i : ι} {o : Address} {m : Marker} {young : Bool}
  {mark : UInt8}

/-! ### What is known of one object -/

/-- What there is to know about one object. -/
@[ext] structure View (ι : Type) where
  mark : UInt8
  record : Record ι
  collects : Bool → Bool
  survives : Bool

/-- The view of an object. -/
def view (x : Marking) (s : Contest ι) (o : Address) : View ι :=
  ⟨s.marks.entryByte (x.place o), s.records o, s.treadmill.collects o, s.treadmill.survivors.contains o⟩

/-- The fates of an object, by whether it is to be claimed and what its mark was. -/
inductive View.Sound (x : Marking) (before : UInt8) : Option Bool → View ι → Prop
  /-- Nobody wins an object that is claimed already, or that the collection does not cover. -/
  | spared {v : View ι} (mark : v.mark = before) (won : v.record.won = []) (saves : v.record.saves = [])
    (queued : v.record.queued = []) : Sound x before none v
  | waiting {v : View ι} {young : Bool} (mark : v.mark = before) (won : v.record.won = []) (lost : v.record.lost = [])
    (saves : v.record.saves = []) (queued : v.record.queued = []) (listed : x.isLarge = true → v.collects young = true) :
    Sound x before (some young) v
  | won {v : View ι} {young : Bool} {owner : ι} (mark : v.mark = x.current) (won : v.record.won = [owner])
    (saves : v.record.saves = []) (queued : v.record.queued = []) (listed : x.isLarge = true → v.collects young = true) :
    Sound x before (some young) v
  | kept {v : View ι} {young : Bool} {owner : ι} (mark : v.mark = x.current) (won : v.record.won = [owner])
    (saves : v.record.saves = savings owner young x) (queued : v.record.queued = [] ∨ v.record.queued = [owner])
    (survives : x.isLarge = true → v.survives = true) : Sound x before (some young) v

/-- What a collector knows that is about to do something. -/
def Fits (x : Marking) (objects : Address → Prop) (v : Address → View ι) (i : ι) : Marker → Prop
  | .idle => True
  | .looking o => objects o
  | .loading o young => objects o ∧ (x.awaits o = some young ∨ x.claims (v o).mark = true)
  | .exchanging o young mark =>
    objects o ∧ (x.awaits o = some young ∨ x.claims (v o).mark = true) ∧ x.claims mark = false
  | .saving o young =>
    objects o ∧ x.awaits o = some young ∧ (v o).record.won = [i] ∧ (v o).record.saves = [] ∧ (v o).record.queued = [] ∧
      (x.isLarge = true → (v o).collects young = true)
  | .queueing o =>
    objects o ∧ ∃ young, x.awaits o = some young ∧ (v o).record.won = [i] ∧ (v o).record.saves = savings i young x ∧
      (v o).record.queued = [] ∧ (x.isLarge = true → (v o).survives = true)
  | .brokenOff _ => False

/-- What one collector may do to an object: once claimed it stays so, and what another one has won is left to that one. -/
structure View.Turned (x : Marking) (i : ι) (v v' : View ι) : Prop where
  mark : x.claims v.mark = true → v'.mark = v.mark
  owned : ∀ j, j ≠ i → v.record.won = [j] → v'.record.won = v.record.won ∧ v'.record.saves = v.record.saves ∧
    v'.record.queued = v.record.queued ∧ v'.collects = v.collects ∧ v'.survives = v.survives

theorem View.Turned.refl (x : Marking) (i : ι) (v : View ι) : v.Turned x i v :=
  ⟨fun _ => rfl, fun _ _ _ => ⟨rfl, rfl, rfl, rfl, rfl⟩⟩

/-- What a collector knows stays true while others act. -/
theorem Fits.other {v v' : Address → View ι} {j : ι} {m : Marker} (fits : Fits x objects v j m) (other : j ≠ i)
    (turned : ∀ o, objects o → (v o).Turned x i (v' o)) : Fits x objects v' j m := by
  have claimed : ∀ o, objects o → x.claims (v o).mark = true → x.claims (v' o).mark = true := fun o object claimed =>
    ((turned o object).mark claimed).symm ▸ claimed
  cases m with
  | idle => trivial
  | looking o => exact fits
  | loading o young => exact ⟨fits.1, fits.2.imp_right (claimed o fits.1)⟩
  | exchanging o young mark => exact ⟨fits.1, fits.2.1.imp_right (claimed o fits.1), fits.2.2⟩
  | saving o young =>
    obtain ⟨object, awaits, won, saves, queued, listed⟩ := fits
    obtain ⟨won', saves', queued', collects', -⟩ := (turned o object).owned j other won
    exact ⟨object, awaits, won'.trans won, saves'.trans saves, queued'.trans queued, fun large => collects' ▸ listed large⟩
  | queueing o =>
    obtain ⟨object, young, awaits, won, saves, queued, survives⟩ := fits
    obtain ⟨won', saves', queued', -, survives'⟩ := (turned o object).owned j other won
    exact ⟨object, young, awaits, won'.trans won, saves'.trans saves, queued'.trans queued, fun large => survives' ▸ survives large⟩
  | brokenOff fault => exact fits

theorem Fits.object {v : Address → View ι} {m : Marker} {o : Address} (fits : Fits x objects v i m)
    (traced : m.object? = some o) : objects o := by
  cases m <;> cases traced
  case looking => exact fits
  all_goals exact fits.1

/-- Everyone who set about tracing an object is still at it as long as nobody has won it, and whoever won it is at it until
it is left to be scanned. -/
structure Orderly (x : Marking) (objects : Address → Prop) (s : Contest ι) : Prop where
  table : s.marks.Beside x.extent .byte x.grain
  sound : ∀ o, objects o → (s.view x o).Sound x (x.before o) (x.awaits o)
  fits : ∀ i, Fits x objects (s.view x) i (s.collectors i)
  busy : ∀ o, objects o → x.awaits o ≠ none → (s.records o).won = [] →
    ∀ i ∈ (s.records o).begun, (s.collectors i).object? = some o
  owed : ∀ o, objects o → ∀ owner, (s.records o).won = [owner] → (s.records o).queued = [] → (s.collectors owner).Owes o

/-- Nobody traces anything yet. -/
def start (x : Marking) : Contest ι := ⟨x.marks, x.treadmill, fun _ => .idle, fun _ => .blank⟩

theorem start_orderly (arena : x.Arena objects) : (start x : Contest ι).Orderly x objects where
  table := arena.table
  sound o object := by
    cases awaits : x.awaits o with
    | none => exact .spared rfl rfl rfl rfl
    | some young => exact .waiting rfl rfl rfl rfl rfl (arena.listed o object young awaits)
  fits _ := trivial
  busy _ _ _ _ _ member := absurd member not_mem_nil
  owed _ _ _ won := by cases won

/-- A mark that was read is the one that the object has. -/
theorem Orderly.read (arena : x.Arena objects) (orderly : s.Orderly x objects) (object : objects o) {p : Address}
    (place : x.placeOf o = .ok p) (seen : s.marks.loadByte p = .ok mark) : p = x.place o ∧ mark = (s.view x o).mark := by
  have here := place.symm.trans (arena.known o object)
  cases here
  exact ⟨rfl, (Except.ok.inj ((arena.load orderly.table object).2.symm.trans seen)).symm⟩

/-- An object that is waited for is not claimed as long as its mark tells so. -/
theorem View.Sound.of_unclaimed {v : View ι} {before : UInt8} (arena : x.Arena objects) (sound : v.Sound x before (some young))
    (unclaimed : x.claims v.mark = false) : v.mark = before ∧ v.record.won = [] ∧ v.record.saves = [] ∧ v.record.queued = [] ∧
      (x.isLarge = true → v.collects young = true) := by
  cases sound with
  | waiting mark won lost saves queued listed => exact ⟨mark, won, saves, queued, listed⟩
  | won mark =>
    rw [mark, arena.proper] at unclaimed
    cases unclaimed
  | kept mark =>
    rw [mark, arena.proper] at unclaimed
    cases unclaimed

/-- Only a winner writes a mark. -/
theorem View.Sound.mark_of_unclaimed {v : View ι} {before : UInt8} {awaits : Option Bool} (arena : x.Arena objects)
    (sound : v.Sound x before awaits) (unclaimed : x.claims v.mark = false) : v.mark = before := by
  cases awaits with
  | none =>
    cases sound with
    | spared mark => exact mark
  | some young => exact (sound.of_unclaimed arena unclaimed).1

/-- An object that was won has the present mark. -/
theorem View.Sound.mark_of_won {v : View ι} {before : UInt8} {owner : ι} (sound : v.Sound x before (some young))
    (won : v.record.won = [owner]) : v.mark = x.current := by
  cases sound with
  | waiting _ none_won => cases none_won.symm.trans won
  | won mark => exact mark
  | kept mark => exact mark

/-- Someone has won an object whose mark tells that it is claimed. -/
theorem View.Sound.won_of_claimed {v : View ι} (sound : v.Sound x (x.before o) (x.awaits o)) (covered : x.awaits o ≠ none)
    (claimed : x.claims v.mark = true) : v.record.won ≠ [] := by
  intro none_won
  cases awaits : x.awaits o with
  | none => exact covered awaits
  | some young =>
    rw [awaits] at sound
    cases sound with
    | waiting mark =>
      rw [mark, (awaits_some awaits).1] at claimed
      cases claimed
    | won mark won => cases won.symm.trans none_won
    | kept mark won => cases won.symm.trans none_won

/-- One more collector comes to an object. -/
theorem View.Sound.begin {v : View ι} {before : UInt8} {awaits : Option Bool} (sound : v.Sound x before awaits) (begun : List ι) :
    View.Sound x before awaits { v with record := { v.record with begun } } := by
  cases sound with
  | spared mark won saves queued => exact .spared mark won saves queued
  | waiting mark won lost saves queued listed => exact .waiting mark won lost saves queued listed
  | won mark won saves queued listed => exact .won mark won saves queued listed
  | kept mark won saves queued survives => exact .kept mark won saves queued survives

/-- One more collector comes too late for an object. -/
theorem View.Sound.lose {v : View ι} (sound : v.Sound x (x.before o) (x.awaits o)) (claimed : x.claims v.mark = true)
    (lost : List ι) : View.Sound x (x.before o) (x.awaits o) { v with record := { v.record with lost } } := by
  cases awaits : x.awaits o with
  | none =>
    rw [awaits] at sound
    cases sound with
    | spared mark won saves queued => exact .spared mark won saves queued
  | some young =>
    rw [awaits] at sound
    cases sound with
    | waiting mark =>
      rw [mark, (awaits_some awaits).1] at claimed
      cases claimed
    | won mark won saves queued listed => exact .won mark won saves queued listed
    | kept mark won saves queued survives => exact .kept mark won saves queued survives

/-! ### What collectors do -/

variable [DecidableEq ι]

/-- One collector goes on to what it does next. -/
def move (s : Contest ι) (i : ι) (m : Marker) : Contest ι := { s with collectors := update s.collectors i m }

theorem collectors_move (s : Contest ι) (i : ι) (m : Marker) : (s.move i m).collectors i = m := update_self ..

/-- Something was done about an object. -/
def note (s : Contest ι) (o : Address) (r : Record ι) : Contest ι := { s with records := update s.records o r }

/-- A collector is told that it did not win the object, and is done with it. -/
def lose (s : Contest ι) (i : ι) (o : Address) : Contest ι :=
  (s.move i .idle).note o { s.records o with lost := (s.records o).lost ++ [i] }

/-- A collector is told that it won the object. -/
def win (s : Contest ι) (i : ι) (o : Address) (young : Bool) (marks : SideTable) : Contest ι :=
  { (s.move i (.saving o young)).note o { s.records o with won := (s.records o).won ++ [i] } with marks }

/-- A collector has read the mark: the object is claimed, or it goes for it. -/
def judge (x : Marking) (s : Contest ι) (i : ι) (o : Address) (young : Bool) (mark : UInt8) : Contest ι :=
  if x.claims mark then s.lose i o else s.move i (.exchanging o young mark)

/-- One access of a collector to a mark, or to the lists, or to the queue. An exchange may fail for no reason. -/
inductive Acts (x : Marking) (objects : Address → Prop) (s : Contest ι) (i : ι) : Contest ι → Prop where
  | begins {o : Address} (idle : s.collectors i = .idle) (object : objects o) :
    Acts x objects s i ((s.move i (.looking o)).note o { s.records o with begun := (s.records o).begun ++ [i] })
  | looks {o : Address} {covered : Option Bool} (now : s.collectors i = .looking o) (seen : x.look s.marks o = .ok covered) :
    Acts x objects s i (s.move i (covered.elim .idle (.loading o)))
  | loads {o p : Address} {young : Bool} {mark : UInt8} (now : s.collectors i = .loading o young) (reads : x.swaps = false)
    (place : x.placeOf o = .ok p) (seen : s.marks.loadByte p = .ok mark) : Acts x objects s i (s.judge x i o young mark)
  | exchanges {o p : Address} {young : Bool} {mark : UInt8} {marks : SideTable}
    (now : s.collectors i = .exchanging o young mark) (place : x.placeOf o = .ok p) (seen : s.marks.loadByte p = .ok mark)
    (stored : SideTable.store p (x.claimed mark).toUInt64 s.marks = .ok () marks) : Acts x objects s i (s.win i o young marks)
  | misses {o p : Address} {young : Bool} {mark mark' : UInt8} (now : s.collectors i = .exchanging o young mark)
    (place : x.placeOf o = .ok p) (seen : s.marks.loadByte p = .ok mark') : Acts x objects s i (s.judge x i o young mark')
  | swaps {o p : Address} {young : Bool} {mark : UInt8} {marks : SideTable} (now : s.collectors i = .loading o young)
    (atOnce : x.swaps = true) (place : x.placeOf o = .ok p) (seen : s.marks.loadByte p = .ok mark)
    (stored : SideTable.store p x.current.toUInt64 s.marks = .ok () marks) :
    Acts x objects s i (if x.claims mark then { s.lose i o with marks } else s.win i o young marks)
  | keeps {o : Address} {young : Bool} {treadmill : Treadmill} (now : s.collectors i = .saving o young)
    (kept : x.keep o young s.treadmill = .ok () treadmill) :
    Acts x objects s i { (s.move i (.queueing o)).note o
      { s.records o with saves := (s.records o).saves ++ savings i young x } with treadmill }
  | falls {o : Address} {young : Bool} {fault : Fault} {treadmill : Treadmill} (now : s.collectors i = .saving o young)
    (fell : x.keep o young s.treadmill = .error fault treadmill) :
    Acts x objects s i { s.move i (.brokenOff fault) with treadmill }
  | enqueues {o : Address} (now : s.collectors i = .queueing o) :
    Acts x objects s i ((s.move i .idle).note o { s.records o with queued := (s.records o).queued ++ [i] })
  /-- The object has no mark. -/
  | strays {o : Address} {fault : Fault} (now : (s.collectors i).object? = some o)
    (outside : x.look s.marks o = .error fault ∨ x.placeOf o = .error fault ∨
      ∃ p, x.placeOf o = .ok p ∧ s.marks.loadByte p = .error fault) :
    Acts x objects s i (s.move i (.brokenOff fault))

/-- What collectors can come to that trace some objects of a space where nobody traces anything. -/
inductive Reachable (x : Marking) (objects : Address → Prop) : Contest ι → Prop where
  | start : Reachable x objects (start x)
  | step {s s' : Contest ι} {i : ι} (before : Reachable x objects s) (acts : Acts x objects s i s') : Reachable x objects s'

/-- One collector acted: the contest goes on in order. -/
structure Next (x : Marking) (objects : Address → Prop) (i : ι) (s s' : Contest ι) : Prop where
  orderly : s'.Orderly x objects
  turned : ∀ o, objects o → (s.view x o).Turned x i (s'.view x o)

/-- A collector that traces an object, or begins to, changes what there is to know about it, and goes on. -/
theorem Orderly.change (v : View ι) (orderly : s.Orderly x objects) (only : ∀ p, (s.collectors i).object? = some p → p = o)
    (table : s'.marks.Beside x.extent .byte x.grain) (collectors : s'.collectors = update s.collectors i m)
    (views : ∀ p, objects p → s'.view x p = if p = o then v else s.view x p) (sound : v.Sound x (x.before o) (x.awaits o))
    (turned : (s.view x o).Turned x i v) (fits : Fits x objects (s'.view x) i m)
    (busy : x.awaits o ≠ none → v.record.won = [] → m.object? = some o ∧ (s.records o).won = [] ∧
      ∀ j ∈ v.record.begun, j ≠ i → j ∈ (s.records o).begun)
    (owed : ∀ owner, v.record.won = [owner] → v.record.queued = [] →
      owner = i ∧ m.Owes o ∨ (s.records o).won = [owner] ∧ (s.records o).queued = [] ∧ ¬ (s.collectors i).Owes o) :
    Next x objects i s s' := by
  have turned' : ∀ p, objects p → (s.view x p).Turned x i (s'.view x p) := by
    intro p object
    rw [views p object]
    by_cases same : p = o
    · rw [if_pos same, same]
      exact turned
    · rw [if_neg same]
      exact .refl x i _
  have records : ∀ p, objects p → s'.records p = if p = o then v.record else s.records p := by
    intro p object
    refine (congrArg View.record (views p object)).trans ?_
    split <;> rfl
  refine ⟨⟨table, fun p object => ?_, fun j => ?_, fun p object awaits won j begun => ?_, fun p object owner won queued => ?_⟩, turned'⟩
  · rw [views p object]
    by_cases same : p = o
    · rw [if_pos same, same]
      exact sound
    · rw [if_neg same]
      exact orderly.sound p object
  · rw [collectors]
    by_cases same : j = i
    · subst same
      rw [update_self]
      exact fits
    · rw [update_of_ne same]
      exact (orderly.fits j).other same turned'
  · rw [records p object] at won begun
    rw [collectors]
    by_cases here : p = o
    · subst here
      rw [if_pos rfl] at won begun
      obtain ⟨at_it, won', old⟩ := busy awaits won
      by_cases same : j = i
      · rw [same, update_self]
        exact at_it
      · rw [update_of_ne same]
        exact orderly.busy p object awaits won' j (old j begun same)
    · rw [if_neg here] at won begun
      have at_it := orderly.busy p object awaits won j begun
      by_cases same : j = i
      · exact absurd (only p (same ▸ at_it)) here
      · rwa [update_of_ne same]
  · rw [records p object] at won queued
    rw [collectors]
    by_cases here : p = o
    · subst here
      rw [if_pos rfl] at won queued
      rcases owed owner won queued with ⟨rfl, owes⟩ | ⟨won', queued', other⟩
      · rw [update_self]
        exact owes
      · have owes := orderly.owed p object owner won' queued'
        by_cases same : owner = i
        · exact absurd (same ▸ owes) other
        · rwa [update_of_ne same]
    · rw [if_neg here] at won queued
      have owes := orderly.owed p object owner won queued
      by_cases same : owner = i
      · exact absurd (only p (same ▸ owes.object)) here
      · rwa [update_of_ne same]

section Acts

variable (orderly : s.Orderly x objects) (object : objects o)
include orderly object

/-- A collector that has looked at an object, and has not won it, goes on, or is done with it when someone else has won it. -/
theorem Orderly.pass (traced : (s.collectors i).object? = some o) (unowed : ¬ (s.collectors i).Owes o)
    (fits : Fits x objects (s.view x) i m) (goes : x.awaits o ≠ none → (s.records o).won = [] → m.object? = some o) :
    Next x objects i s (s.move i m) := by
  refine orderly.change (s.view x o) (fun p same => Option.some.inj (same.symm.trans traced)) orderly.table rfl (fun p _ => ?_)
    (orderly.sound o object) (.refl x i _) fits (fun awaits won => ⟨goes awaits won, won, fun j begun _ => begun⟩)
    fun owner won queued => .inr ⟨won, queued, unowed⟩
  by_cases same : p = o
  · rw [if_pos same, same]
    rfl
  · rw [if_neg same]
    rfl

/-- A collector comes too late. -/
theorem Orderly.lose (traced : (s.collectors i).object? = some o) (unowed : ¬ (s.collectors i).Owes o)
    (claimed : x.claims (s.view x o).mark = true) {marks : SideTable} (table : marks.Beside x.extent .byte x.grain)
    (alike : ∀ p, objects p → marks.entryByte (x.place p) = s.marks.entryByte (x.place p)) :
    Next x objects i s { s.lose i o with marks } := by
  have sound := orderly.sound o object
  refine orderly.change (m := .idle) { s.view x o with record := { s.records o with lost := (s.records o).lost ++ [i] } }
    (fun p same => Option.some.inj (same.symm.trans traced)) table rfl (fun p object' => ?_) (sound.lose claimed _)
    ⟨fun _ => rfl, fun _ _ _ => ⟨rfl, rfl, rfl, rfl, rfl⟩⟩ trivial
    (fun covered won => absurd won (sound.won_of_claimed covered claimed)) fun owner won queued => .inr ⟨won, queued, unowed⟩
  by_cases same : p = o
  · subst same
    rw [if_pos rfl]
    exact View.ext (alike p object') (update_self ..) rfl rfl
  · rw [if_neg same]
    exact View.ext (alike p object') (update_of_ne same ..) rfl rfl

/-- A collector acts upon the mark that it has read. -/
theorem Orderly.judge (traced : (s.collectors i).object? = some o) (unowed : ¬ (s.collectors i).Owes o)
    (due : x.awaits o = some young ∨ x.claims (s.view x o).mark = true) :
    Next x objects i s (s.judge x i o young (s.view x o).mark) := by
  unfold Contest.judge
  cases claimed : x.claims (s.view x o).mark with
  | true => exact orderly.lose object traced unowed claimed orderly.table fun _ _ => rfl
  | false =>
    rw [if_neg Bool.false_ne_true]
    exact orderly.pass object traced unowed ⟨object, due, claimed⟩ fun _ _ => rfl

/-- A collector puts the present mark in place of one that tells that the object is unclaimed. -/
theorem Orderly.win (arena : x.Arena objects) (traced : (s.collectors i).object? = some o) (awaits : x.awaits o = some young)
    (unclaimed : x.claims (s.view x o).mark = false) :
    Next x objects i s (s.win i o young (s.marks.put (x.place o) x.current.toUInt64)) := by
  have sound := orderly.sound o object
  rw [awaits] at sound
  obtain ⟨mark, won, saves, queued, listed⟩ := sound.of_unclaimed arena unclaimed
  have views : ∀ p, objects p → (s.win i o young (s.marks.put (x.place o) x.current.toUInt64)).view x p =
      if p = o then { s.view x o with mark := x.current, record := { s.records o with won := [i] } } else s.view x p := by
    intro p object'
    have put := arena.put orderly.table object object' x.current
    by_cases same : p = o
    · subst same
      rw [if_pos rfl] at put ⊢
      refine View.ext put ((update_self ..).trans ?_) rfl rfl
      exact congrArg (fun won => { s.records p with won }) (congrArg (· ++ [i]) won)
    · rw [if_neg same] at put ⊢
      exact View.ext put (update_of_ne same ..) rfl rfl
  refine orderly.change (m := .saving o young) { s.view x o with mark := x.current, record := { s.records o with won := [i] } }
    (fun p same => Option.some.inj (same.symm.trans traced)) (orderly.table.put ..) rfl views
    (awaits ▸ .won rfl rfl saves queued listed) ⟨fun claimed => ?_, fun j _ owned => ?_⟩ ?_ (fun _ won' => by cases won')
    fun owner won' _ => .inl ⟨(singleton_inj.mp won').symm, rfl⟩
  · rw [unclaimed] at claimed
    cases claimed
  · rw [won] at owned
    cases owned
  · rw [Fits, views o object, if_pos rfl]
    exact ⟨object, awaits, rfl, saves, queued, listed⟩

/-- A collector sets about an object. -/
theorem Orderly.begin (idle : s.collectors i = .idle) : Next x objects i s
    ((s.move i (.looking o)).note o { s.records o with begun := (s.records o).begun ++ [i] }) := by
  have unowed : ¬ (s.collectors i).Owes o := by rw [idle]; exact id
  refine orderly.change (m := .looking o)
    { s.view x o with record := { s.records o with begun := (s.records o).begun ++ [i] } } (fun p traced => ?_) orderly.table rfl
    (fun p _ => ?_) ((orderly.sound o object).begin _) ⟨fun _ => rfl, fun _ _ _ => ⟨rfl, rfl, rfl, rfl, rfl⟩⟩ object
    (fun _ won => ⟨rfl, won, fun j begun other => ?_⟩) fun owner won queued => .inr ⟨won, queued, unowed⟩
  · rw [idle] at traced
    cases traced
  · by_cases same : p = o
    · subst same
      rw [if_pos rfl]
      exact View.ext rfl (update_self ..) rfl rfl
    · rw [if_neg same]
      exact View.ext rfl (update_of_ne same ..) rfl rfl
  · rcases mem_append.mp begun with old | new
    · exact old
    · exact absurd (mem_singleton.mp new) other

/-- A collector leaves an object alone that the collection does not cover, or that someone else has won meanwhile. -/
theorem Orderly.look (arena : x.Arena objects) (traced : (s.collectors i).object? = some o) (unowed : ¬ (s.collectors i).Owes o) :
    Next x objects i s (s.move i ((x.sight (s.view x o).mark).elim .idle (.loading o))) := by
  have sound := orderly.sound o object
  -- What the mark tells now it told in the beginning, unless it tells that the object is claimed.
  have told : x.claims (s.view x o).mark = true ∨ x.sight (s.view x o).mark = x.awaits o := by
    cases claimed : x.claims (s.view x o).mark with
    | true => exact .inl rfl
    | false =>
      have old := sound.mark_of_unclaimed arena claimed
      rw [old] at claimed ⊢
      exact .inr (by rw [Marking.awaits, if_neg (by rw [claimed]; exact Bool.false_ne_true)])
  cases sees : x.sight (s.view x o).mark with
  | none =>
    refine orderly.pass object traced unowed trivial fun covered won => ?_
    rcases told with claimed | same
    · exact absurd won (sound.won_of_claimed covered claimed)
    · exact absurd (same.symm.trans sees) covered
  | some young =>
    refine orderly.pass object traced unowed ⟨object, ?_⟩ fun _ _ => rfl
    exact told.symm.imp_left fun same => same.symm.trans sees

end Acts

/-- The winner moves the object on the treadmill. -/
theorem Orderly.keep (orderly : s.Orderly x objects) (now : s.collectors i = .saving o young) {treadmill : Treadmill}
    (kept : x.keep o young s.treadmill = .ok () treadmill) : Next x objects i s { (s.move i (.queueing o)).note o
      { s.records o with saves := (s.records o).saves ++ savings i young x } with treadmill } := by
  have fits := orderly.fits i
  rw [now] at fits
  obtain ⟨object, awaits, won, saves, queued, listed⟩ := fits
  obtain ⟨survives, others⟩ := keep_moves kept
  have sound := orderly.sound o object
  rw [awaits] at sound
  have views : ∀ p, objects p → view x { (s.move i (.queueing o)).note o
      { s.records o with saves := (s.records o).saves ++ savings i young x } with treadmill } p =
        if p = o then ⟨(s.view x o).mark, { s.records o with saves := savings i young x }, treadmill.collects o,
          treadmill.survivors.contains o⟩ else s.view x p := by
    intro p _
    by_cases same : p = o
    · subst same
      rw [if_pos rfl]
      refine View.ext rfl ((update_self ..).trans ?_) rfl rfl
      exact congrArg (fun saves => { s.records p with saves }) (congrArg (· ++ savings i young x) saves)
    · rw [if_neg same]
      exact View.ext rfl (update_of_ne same ..) (others p same).1 (others p same).2
  refine orderly.change (m := .queueing o) _ (fun p traced => ?_) orderly.table rfl views
    (awaits ▸ .kept (sound.mark_of_won won) won rfl (.inl queued) survives) ⟨fun _ => rfl, fun j other owned => ?_⟩ ?_
    (fun _ none_won => by cases none_won.symm.trans won) fun owner won' _ => .inl ⟨?_, rfl⟩
  · rw [now] at traced
    exact (Option.some.inj traced).symm
  · exact absurd (singleton_inj.mp (owned.symm.trans won)) other
  · rw [Fits, views o object, if_pos rfl]
    exact ⟨object, young, awaits, won, rfl, queued, survives⟩
  · exact singleton_inj.mp (won'.symm.trans won)

/-- The winner leaves the object to be scanned. -/
theorem Orderly.enqueue (orderly : s.Orderly x objects) (now : s.collectors i = .queueing o) : Next x objects i s
    ((s.move i .idle).note o { s.records o with queued := (s.records o).queued ++ [i] }) := by
  have fits := orderly.fits i
  rw [now] at fits
  obtain ⟨object, young, awaits, won, saves, queued, survives⟩ := fits
  have sound := orderly.sound o object
  rw [awaits] at sound
  have views : ∀ p, objects p →
      ((s.move i .idle).note o { s.records o with queued := (s.records o).queued ++ [i] }).view x p =
        if p = o then { s.view x o with record := { s.records o with queued := [i] } } else s.view x p := by
    intro p _
    by_cases same : p = o
    · subst same
      rw [if_pos rfl]
      refine View.ext rfl ((update_self ..).trans ?_) rfl rfl
      exact congrArg (fun queued => { s.records p with queued }) (congrArg (· ++ [i]) queued)
    · rw [if_neg same]
      exact View.ext rfl (update_of_ne same ..) rfl rfl
  refine orderly.change (m := .idle) _ (fun p traced => ?_) orderly.table rfl views
    (awaits ▸ .kept (sound.mark_of_won won) won saves (.inr rfl) survives) ⟨fun _ => rfl, fun j other owned => ?_⟩ trivial
    (fun _ none_won => by cases none_won.symm.trans won) fun owner _ none_queued => by cases none_queued
  · rw [now] at traced
    exact (Option.some.inj traced).symm
  · exact absurd (singleton_inj.mp (owned.symm.trans won)) other

/-- Every act keeps the contest in order. -/
theorem Acts.next (acts : Acts x objects s i s') (arena : x.Arena objects) (orderly : s.Orderly x objects) :
    Next x objects i s s' := by
  have fits := orderly.fits i
  cases acts with
  | begins idle object => exact orderly.begin object idle
  | @looks o covered now seen =>
    rw [now] at fits
    have object : objects o := fits
    obtain rfl := Except.ok.inj ((arena.look orderly.table object).symm.trans seen)
    exact orderly.look object arena (by rw [now]; rfl) (by rw [now]; exact id)
  | @loads o p young mark now reads place seen =>
    rw [now] at fits
    obtain ⟨-, rfl⟩ := orderly.read arena fits.1 place seen
    exact orderly.judge fits.1 (by rw [now]; rfl) (by rw [now]; exact id) fits.2
  | @exchanges o p young mark marks now place seen stored =>
    rw [now] at fits
    obtain ⟨object, due, unclaimed⟩ := fits
    obtain ⟨rfl, rfl⟩ := orderly.read arena object place seen
    obtain ⟨-, -, rfl⟩ := SideTable.store_ok stored
    have awaits := due.resolve_right (by rw [unclaimed]; exact Bool.false_ne_true)
    have sound := orderly.sound o object
    rw [awaits] at sound
    have exact : x.claimed (s.view x o).mark = x.current := by
      rw [(sound.of_unclaimed arena unclaimed).1]
      exact arena.exact o object
    rw [exact]
    exact orderly.win object arena (by rw [now]; rfl) awaits unclaimed
  | @misses o p young mark mark' now place seen =>
    rw [now] at fits
    obtain ⟨-, rfl⟩ := orderly.read arena fits.1 place seen
    exact orderly.judge fits.1 (by rw [now]; rfl) (by rw [now]; exact id) fits.2.1
  | @swaps o p young mark marks now atOnce place seen stored =>
    have traced : (s.collectors i).object? = some o := by rw [now]; rfl
    have unowed : ¬ (s.collectors i).Owes o := by rw [now]; exact id
    rw [now] at fits
    obtain ⟨object, due⟩ := fits
    obtain ⟨rfl, rfl⟩ := orderly.read arena object place seen
    obtain ⟨-, -, rfl⟩ := SideTable.store_ok stored
    cases claimed : x.claims (s.view x o).mark with
    | true =>
      refine orderly.lose object traced unowed claimed (orderly.table.put ..) fun p object' => ?_
      rw [arena.put orderly.table object object']
      split
      next same =>
        subst same
        exact (swaps_claimed atOnce claimed).symm
      next => rfl
    | false =>
      rw [if_neg Bool.false_ne_true]
      exact orderly.win object arena traced (due.resolve_right (by rw [claimed]; exact Bool.false_ne_true)) claimed
  | keeps now kept => exact orderly.keep now kept
  | @falls o young fault treadmill now fell =>
    rw [now] at fits
    obtain ⟨-, -, -, -, -, listed⟩ := fits
    obtain ⟨t, kept⟩ := keep_total listed
    cases kept.symm.trans fell
  | enqueues now => exact orderly.enqueue now
  | @strays o fault now outside =>
    have object := fits.object now
    rcases outside with outside | outside | ⟨p, place, outside⟩
    · cases outside.symm.trans (arena.look orderly.table object)
    · cases outside.symm.trans (arena.known o object)
    · cases place.symm.trans (arena.known o object)
      cases outside.symm.trans (arena.load orderly.table object).2

theorem Reachable.orderly (reachable : Reachable x objects s) (arena : x.Arena objects) : s.Orderly x objects := by
  induction reachable with
  | start => exact start_orderly arena
  | step _ acts ih => exact (acts.next arena ih).orderly

/-- A collector that traces an object is never stuck. -/
theorem Orderly.acts (orderly : s.Orderly x objects) (arena : x.Arena objects) (traced : (s.collectors i).object? = some o) :
    ∃ s', Acts x objects s i s' := by
  have fits := orderly.fits i
  have object := fits.object traced
  have known := arena.known o object
  have loaded := (arena.load orderly.table object).2
  cases now : s.collectors i with
  | idle => rw [now] at traced; cases traced
  | brokenOff fault => rw [now] at traced; cases traced
  | looking p =>
    rw [now] at traced
    cases traced
    exact ⟨_, .looks now (arena.look orderly.table object)⟩
  | loading p young =>
    rw [now] at traced
    cases traced
    cases atOnce : x.swaps with
    | true =>
      obtain ⟨t, stored⟩ := SideTable.store_total (arena.load orderly.table object).1 x.current.toUInt64
      exact ⟨_, .swaps now atOnce known loaded stored⟩
    | false => exact ⟨_, .loads now atOnce known loaded⟩
  | exchanging p young mark =>
    rw [now] at traced
    cases traced
    exact ⟨_, .misses now known loaded⟩
  | saving p young =>
    rw [now] at fits
    obtain ⟨-, -, -, -, -, listed⟩ := fits
    obtain ⟨t, kept⟩ := keep_total listed
    exact ⟨_, .keeps now kept⟩
  | queueing p => exact ⟨_, .enqueues now⟩

/-- Collectors that trace objects of a space that marks them, access by access in any order. Nobody breaks off or gets stuck;
so a large object that was won is always on the list that it is to be moved from. Nobody wins an object that is claimed
already or not covered. Any other object is untouched until one collector wins it; then its mark is the present one, nobody
else wins it, and the winner moves it from the list that it was on and leaves it to be scanned, once. Once nobody traces the
object, and someone has traced it, all of this is done. -/
theorem claimed_once (arena : x.Arena objects) (reachable : Reachable x objects s) :
    (∀ i fault, s.collectors i ≠ .brokenOff fault) ∧
    (∀ i o, (s.collectors i).object? = some o → ∃ s', Acts x objects s i s') ∧
    ∀ o, objects o →
      (x.awaits o = none → s.marks.entryByte (x.place o) = x.before o ∧ (s.records o).won = [] ∧ (s.records o).saves = [] ∧
        (s.records o).queued = []) ∧
      ∀ young, x.awaits o = some young →
        s.marks.entryByte (x.place o) = x.before o ∧ (s.records o).won = [] ∧ (s.records o).lost = [] ∧
            (s.records o).saves = [] ∧ (s.records o).queued = [] ∧
            (x.isLarge = true → s.treadmill.collects o young = true) ∧
            (∀ i ∈ (s.records o).begun, (s.collectors i).object? = some o) ∨
          ∃ owner, s.marks.entryByte (x.place o) = x.current ∧ (s.records o).won = [owner] ∧
            ((s.collectors owner).object? = some o ∧ (s.records o).queued = [] ∧
                ((s.records o).saves = [] ∧ (x.isLarge = true → s.treadmill.collects o young = true) ∨
                  (s.records o).saves = savings owner young x) ∨
              (s.records o).saves = savings owner young x ∧ (s.records o).queued = [owner] ∧
                (x.isLarge = true → s.treadmill.survivors.contains o = true)) := by
  have orderly := reachable.orderly arena
  refine ⟨fun i fault broken => ?_, fun i o traced => orderly.acts arena traced, fun o object => ⟨fun awaits => ?_,
    fun young awaits => ?_⟩⟩
  · have fits := orderly.fits i
    rw [broken] at fits
    exact fits
  · have sound := orderly.sound o object
    rw [awaits] at sound
    cases sound with
    | spared mark won saves queued => exact ⟨mark, won, saves, queued⟩
  · have sound := orderly.sound o object
    have owed := orderly.owed o object
    rw [awaits] at sound
    cases sound with
    | waiting mark won lost saves queued listed =>
      exact .inl ⟨mark, won, lost, saves, queued, listed, orderly.busy o object (by rw [awaits]; exact Option.some_ne_none _) won⟩
    | @won _ _ owner mark won saves queued listed =>
      exact .inr ⟨owner, mark, won, .inl ⟨(owed owner won queued).object, queued, .inl ⟨saves, listed⟩⟩⟩
    | @kept _ _ owner mark won saves queued survives =>
      refine .inr ⟨owner, mark, won, ?_⟩
      rcases queued with none_queued | done
      · exact .inl ⟨(owed owner won none_queued).object, none_queued, .inr saves⟩
      · exact .inr ⟨saves, done, survives⟩

/-- A page for one large object, which is a young one, in a collection that leaves old objects alone. -/
def youngLarge : LargeSpace where
  region := { Region.new "los" true with prepared := true }
  pages := .new ⟨⟨4⟩, ⟨4096⟩, 4096⟩
  marks := (⟨⟨4096⟩, 4096, 12, .byte, 1, .empty⟩ : SideTable).put ⟨4104⟩ 2
  current := 0
  youngOnly := true
  treadmill := { Treadmill.empty with young := (∅ : Std.TreeSet Address).insert ⟨4104⟩ }

theorem youngLarge_arena : (Marking.large youngLarge).Arena (· = ⟨4104⟩) where
  placed := ⟨by decide, by decide, by decide⟩
  table := ⟨rfl, rfl, rfl, rfl, by decide⟩
  known _ _ := rfl
  inside := by
    rintro o rfl
    decide
  apart := by
    rintro o p rfl rfl differ
    exact absurd rfl differ
  proper := by decide
  exact := by
    rintro o rfl
    decide
  listed := by
    rintro o rfl young awaits -
    cases young with
    | true => decide
    | false => exact absurd awaits (by decide)

/-- Two collectors have read the mark. One of them exchanges it, and the other one finds that it comes too late. -/
theorem claimed_once_of_two : ∃ s : Contest Bool, (Marking.large youngLarge).Arena (· = ⟨4104⟩) ∧
    Reachable (.large youngLarge) (· = ⟨4104⟩) s ∧ (s.records ⟨4104⟩).lost = [false] ∧
    (∀ i fault, s.collectors i ≠ .brokenOff fault) ∧
    ∃ owner, s.marks.entryByte ⟨4104⟩ = 0 ∧ (s.records ⟨4104⟩).won = [owner] ∧ (s.records ⟨4104⟩).saves = [(owner, true)] ∧
      (s.records ⟨4104⟩).queued = [owner] := by
  have looked : (Marking.large youngLarge).look youngLarge.marks ⟨4104⟩ = .ok (some true) := rfl
  have seen : youngLarge.marks.loadByte ⟨4104⟩ = .ok 2 := rfl
  have stored : SideTable.store ⟨4104⟩ (0 : UInt8).toUInt64 youngLarge.marks = .ok () (youngLarge.marks.put ⟨4104⟩ 0) := rfl
  have late : (youngLarge.marks.put ⟨4104⟩ 0).loadByte ⟨4104⟩ = .ok 0 := rfl
  obtain ⟨l, saved⟩ : ∃ l, Treadmill.save ⟨4104⟩ true youngLarge.treadmill = .ok () l := Treadmill.save_total (by decide)
  have first : Reachable (.large youngLarge) (· = ⟨4104⟩) (start (.large youngLarge) : Contest Bool) := .start
  have reachable := (((((((((first.step (.begins (i := true) rfl rfl)).step (.begins (i := false) rfl rfl)).step
    (.looks (i := true) rfl looked)).step (.looks (i := false) rfl looked)).step (.loads (i := true) rfl rfl rfl seen)).step
    (.loads (i := false) rfl rfl rfl seen)).step (.exchanges (i := true) rfl rfl seen stored)).step
    (.misses (i := false) rfl rfl late)).step (.keeps (i := true) rfl saved)).step (.enqueues (i := true) rfl)
  obtain ⟨well, -, fates⟩ := claimed_once youngLarge_arena reachable
  refine ⟨_, youngLarge_arena, reachable, rfl, well, ?_⟩
  rcases (fates ⟨4104⟩ rfl).2 true rfl with ⟨-, none_won, -⟩ | ⟨owner, mark, won, ⟨-, none_queued, -⟩ | ⟨saves, queued, -⟩⟩
  · cases none_won
  · cases none_queued
  · exact ⟨owner, mark, won, saves, queued⟩

/-! ### The steps of a collector that nobody interrupts -/

open Relation

/-- A collector that reads the mark and exchanges it at one go wins the object, unless it is claimed. -/
theorem exchange_acts {p : Address} (x : Marking) (objects : Address → Prop) (marks : SideTable) (now : s.collectors i = .loading o young) (reads : x.swaps = false)
    (place : x.placeOf o = .ok p) (seen : s.marks.loadByte p = .ok mark)
    (stored : x.claims mark = false → SideTable.store p (x.claimed mark).toUInt64 s.marks = .ok () marks) :
    ReflTransGen (Acts x objects · i ·) s (if x.claims mark then s.lose i o else s.win i o young marks) := by
  have first : Acts x objects s i _ := .loads now reads place seen
  unfold judge at first
  cases claimed : x.claims mark with
  | true =>
    rw [claimed] at first
    exact .single first
  | false =>
    rw [claimed] at first
    have second : Acts x objects (s.move i (.exchanging o young mark)) i _ :=
      .exchanges (s.collectors_move i _) place seen (stored claimed)
    have same : (s.move i (.exchanging o young mark)).win i o young marks = s.win i o young marks := by
      unfold win move note
      simp only [update_idem]
    exact same ▸ (ReflTransGen.single first).tail second

/-- The mature store claims objects so. -/
theorem mature_acts {y y' : MarkSweepSpace} {won : Bool} (now : s.collectors i = .loading o young)
    (ok : MarkSweepSpace.claim o { y with marks := s.marks } = .ok won y') :
    ReflTransGen (Acts (.mature y) objects · i ·) s (if won then s.win i o young y'.marks else s.lose i o) := by
  simp only [MarkSweepSpace.claim, Step.get_bind, Step.bind_ok, Step.lift_ok, Step.ite_step] at ok
  obtain ⟨cell, _, ⟨place, rfl⟩, mark, _, ⟨seen, rfl⟩, ok⟩ := ok
  have acts := fun marks => exchange_acts (.mature y) objects marks now rfl place seen
  split at ok
  next same =>
    obtain ⟨rfl, rfl⟩ := Step.pure_ok.mp ok
    have claimed : (Marking.mature y).claims mark = true := same
    rw [claimed] at acts
    exact acts s.marks fun unclaimed => by cases unclaimed
  next other =>
    simp only [Step.bind_ok, Step.on_ok, MarkSweepSpace.marksPart, Step.pure_ok] at ok
    obtain ⟨_, _, ⟨t, stored, rfl⟩, rfl, rfl⟩ := ok
    have unclaimed : (Marking.mature y).claims mark = false := Bool.eq_false_iff.mpr other
    rw [unclaimed] at acts
    exact acts t fun _ => stored

/-- The immortal space claims objects so. -/
theorem immortal_acts {y y' : ImmortalSpace} {won : Bool} (now : s.collectors i = .loading o young)
    (ok : ImmortalSpace.claim o { y with marks := s.marks } = .ok won y') : Acts (.immortal y) objects s i
      (if won then s.win i o young y'.marks else { s.lose i o with marks := y'.marks }) := by
  simp only [ImmortalSpace.claim, Step.get_bind, Step.bind_ok, Step.lift_ok, Step.on_ok, ImmortalSpace.marksPart, Step.pure_ok] at ok
  obtain ⟨mark, _, ⟨seen, rfl⟩, _, _, ⟨t, stored, rfl⟩, rfl, rfl⟩ := ok
  have acts : Acts (.immortal y) objects s i _ := .swaps now rfl rfl seen stored
  cases same : mark == y.current with
  | true =>
    have claimed : (Marking.immortal y).claims mark = true := same
    rw [claimed] at acts
    rw [bne, same]
    exact acts
  | false =>
    have unclaimed : (Marking.immortal y).claims mark = false := same
    rw [unclaimed] at acts
    rw [bne, same]
    exact acts

/-- The space of large objects claims objects so, unless the collection does not cover them. -/
theorem large_acts {y y' : LargeSpace} {answer : Option Bool} (now : s.collectors i = .looking o)
    (ok : LargeSpace.claim o { y with marks := s.marks } = .ok answer y') :
    ∃ s', ReflTransGen (Acts (.large y) objects · i ·) s s' ∧ s'.marks = y'.marks ∧ s'.treadmill = s.treadmill ∧
      s'.collectors i = answer.elim .idle (.saving o) := by
  simp only [LargeSpace.claim, Step.get_bind, Step.bind_ok, Step.lift_ok, Step.ite_step] at ok
  obtain ⟨isYoung, _, ⟨young, rfl⟩, ok⟩ := ok
  have looked : (Marking.large y).look s.marks o = .ok (if y.youngOnly && !isYoung then none else some isYoung) := by
    rw [Marking.look, young]
    rfl
  have first : Acts (.large y) objects s i _ := .looks now looked
  split at ok
  next skipped =>
    obtain ⟨rfl, rfl⟩ := Step.pure_ok.mp ok
    rw [if_pos skipped] at first
    exact ⟨_, .single first, rfl, rfl, s.collectors_move i _⟩
  next covered =>
    rw [if_neg covered] at first
    simp only [LargeSpace.mark, Step.get_bind, Step.bind_ok, Step.lift_ok, Step.ite_step] at ok
    obtain ⟨won, z, ⟨mark, _, ⟨seen, rfl⟩, ok⟩, answered⟩ := ok
    have acts := fun marks => exchange_acts (.large y) objects marks (s.collectors_move i (.loading o isYoung)) rfl rfl seen
    have judged : ((mark &&& if y.youngOnly = true then LargeSpace.markMask else LargeSpace.reachedBit) == y.current) =
      (Marking.large y).claims mark := rfl
    rw [judged] at ok
    cases claimed : (Marking.large y).claims mark with
    | true =>
      rw [claimed, if_pos rfl] at ok
      obtain ⟨rfl, rfl⟩ := Step.pure_ok.mp ok
      obtain ⟨rfl, rfl⟩ := Step.pure_ok.mp answered
      rw [claimed] at acts
      exact ⟨_, .head first (acts s.marks fun unclaimed => by cases unclaimed), rfl, rfl, update_self ..⟩
    | false =>
      rw [claimed, if_neg Bool.false_ne_true] at ok
      simp only [Step.bind_ok, Step.on_ok, LargeSpace.marksPart, Step.pure_ok] at ok
      obtain ⟨_, _, ⟨t, stored, rfl⟩, rfl, rfl⟩ := ok
      obtain ⟨rfl, rfl⟩ := Step.pure_ok.mp answered
      rw [claimed] at acts
      exact ⟨_, .head first (acts t fun _ => stored), rfl, rfl, update_self ..⟩

end Contest

end TracingHeap
