import TracingHeap.Collection.Run
import TracingHeap.Mutator.Barrier
import TracingHeap.Proofs.Promises

/-! Every operation of a heap, and every step of a collector, leaves the sources of pages in order, whether it ends
or breaks off. Only a few of them have to do with pages at all; the others are passed through here so that none
is left out. -/

namespace TracingHeap

open Pages Step

variable {α β : Type}

/-! ### Spaces -/

namespace Spaces

/-- The spaces are in order, whatever the memory holds. -/
abbrev Ordered (s : Spaces × Memory) : Prop := s.1.InOrder

variable {id : SpaceId}

theorem keeps_onMature {x : Step (MarkSweepSpace × Memory) α} (inner : Keeps (fun s => s.1.pages.InOrder) x) :
    Keeps (fun s : SecondSpace × Memory => s.1.InOrder) (onMature x) := by
  rintro ⟨second, m⟩ ordered
  cases second with
  | twin y => exact ordered
  | mature y =>
    have kept := inner (y, m) ordered
    simp only [left, onMature] at kept ⊢
    cases ran : x (y, m) with
    | ok a t => simp only [ran] at kept; exact kept
    | error e t => simp only [ran] at kept; exact kept

theorem keeps_onTwin {x : Step (CopySpace × Memory) α} (inner : Keeps (fun s => s.1.pages.InOrder) x) :
    Keeps (fun s : SecondSpace × Memory => s.1.InOrder) (onTwin x) := by
  rintro ⟨second, m⟩ ordered
  cases second with
  | mature y => exact ordered
  | twin y =>
    have kept := inner (y, m) ordered
    simp only [left, onTwin] at kept ⊢
    cases ran : x (y, m) with
    | ok a t => simp only [ran] at kept; exact kept
    | error e t => simp only [ran] at kept; exact kept

/-- A step of the second space. -/
theorem keeps_second {x : Step (SecondSpace × Memory) α} (inner : Keeps (fun s => s.1.InOrder) x) :
    Keeps Ordered (onBoth (Focus.fst.comp secondPart) Focus.snd x) :=
  keeps_onBoth inner (fun _ ordered => ordered.second) fun _ _ _ ordered kept => { ordered with second := kept }

theorem keeps_first {x : Step (CopySpace × Memory) α} (inner : Keeps (fun s => s.1.pages.InOrder) x) :
    Keeps Ordered (onBoth (Focus.fst.comp firstPart) Focus.snd x) :=
  keeps_onBoth inner (fun _ ordered => ordered.first) fun _ _ _ ordered kept => { ordered with first := kept }

theorem keeps_onCopying {x : Step (CopySpace × Memory) α} (inner : Keeps (fun s => s.1.pages.InOrder) x) :
    Keeps Ordered (onCopying id x) := by
  cases id with
  | first => exact keeps_first inner
  | second => exact keeps_second (keeps_onTwin inner)
  | immortal => exact keeps_get_bind fun _ => keeps_fail _
  | large => exact keeps_get_bind fun _ => keeps_fail _

/-- A step of the source of pages of a space. -/
theorem keeps_onPages {step : {κ : Type} → [Source κ] → Step (κ × Memory) α}
    (frontier : Keeps (fun s : Frontier × Memory => s.1.InOrder) step) (runs : Keeps (fun s : Runs × Memory => s.1.InOrder) step) :
    Keeps Ordered (onPages id step) := by
  have copying : Keeps (fun s : CopySpace × Memory => s.1.pages.InOrder)
      (onBoth (Focus.fst.comp CopySpace.pagesPart) Focus.snd (@step Frontier _)) :=
    keeps_onBoth frontier (fun _ ordered => ordered) fun _ _ _ _ kept => kept
  have mature : Keeps (fun s : MarkSweepSpace × Memory => s.1.pages.InOrder)
      (onBoth (Focus.fst.comp MarkSweepSpace.pagesPart) Focus.snd (@step Runs _)) :=
    keeps_onBoth runs (fun _ ordered => ordered) fun _ _ _ _ kept => kept
  unfold onPages
  cases id with
  | first => exact keeps_first copying
  | second =>
    refine keeps_second ?_
    rintro ⟨second, m⟩ ordered
    cases second with
    | mature y => exact keeps_onMature mature (.mature y, m) ordered
    | twin y => exact keeps_onTwin copying (.twin y, m) ordered
  | immortal => exact keeps_onBoth frontier (fun _ ordered => ordered.immortal) fun _ _ _ ordered kept => { ordered with immortal := kept }
  | large => exact keeps_onBoth runs (fun _ ordered => ordered.large) fun _ _ _ ordered kept => { ordered with large := kept }

theorem keeps_onLedger (step : Step Ledger α) : Keeps Ordered (onLedger id step) :=
  keeps_onPages (Frontier.keeps_ledger step) (Runs.keeps_ledger step)

theorem keeps_take (pending bytes : Word) : Keeps Ordered (take id pending bytes) :=
  keeps_onPages (Frontier.take_keeps none pending bytes) (Runs.take_keeps none pending bytes)

end Spaces

/-! ### What the spaces do in a collection -/

namespace CopySpace

theorem prepare_keeps (evacuate : Bool) : Keeps (fun s : CopySpace => s.pages.InOrder) (prepare evacuate) := by
  have set : Keeps (fun s : CopySpace => s.pages.InOrder) (modify fun s => { s with evacuating := evacuate }) :=
    keeps_modify fun _ ordered => ordered
  unfold prepare
  exact keeps_ite (keeps_bind (keeps_on_any _ fun _ _ ordered => ordered) fun _ => set) set

theorem release_keeps : Keeps (fun s : CopySpace × Memory => s.1.pages.InOrder) release :=
  keeps_bind (keeps_on_any _ fun _ _ ordered => ordered) fun _ =>
    keeps_bind (keeps_onBoth Frontier.reset_keeps (fun _ ordered => ordered) fun _ _ _ _ kept => kept) fun _ =>
      keeps_bind (keeps_on_any _ fun _ _ ordered => ordered) fun _ => keeps_modify fun _ ordered => ordered

end CopySpace

namespace ImmortalSpace

theorem prepare_keeps : Keeps (fun s : ImmortalSpace => s.pages.InOrder) prepare :=
  keeps_bind (keeps_on_any _ fun _ _ ordered => ordered) fun _ => keeps_modify fun _ ordered => ordered

theorem release_keeps : Keeps (fun s : ImmortalSpace => s.pages.InOrder) release := keeps_on_any _ fun _ _ ordered => ordered

theorem claim_keeps (object : Address) : Keeps (fun s : ImmortalSpace => s.pages.InOrder) (claim object) :=
  keeps_get_bind fun _ => keeps_bind (keeps_lift _) fun _ =>
    keeps_bind (keeps_on_any _ fun _ _ ordered => ordered) fun _ => keeps_pure _

theorem adopt_keeps (object : Address) : Keeps (fun s : ImmortalSpace × Memory => s.1.pages.InOrder) (adopt object) :=
  keeps_get_bind fun _ => keeps_bind (keeps_on_any _ fun _ _ ordered => ordered) fun _ => keeps_modify fun _ ordered => ordered

end ImmortalSpace

namespace LargeSpace

theorem prepare_keeps (full : Bool) : Keeps (fun s : LargeSpace => s.pages.InOrder) (prepare full) :=
  keeps_bind (keeps_on_any _ fun _ _ ordered => ordered) fun _ => keeps_modify fun _ ordered => ordered

theorem reclaim_keeps (object : Address) : Keeps (fun s : LargeSpace × Memory => s.1.pages.InOrder) (reclaim object) :=
  keeps_bind (keeps_onBoth (Runs.release_keeps _) (fun _ ordered => ordered) fun _ _ _ _ kept => kept) fun _ =>
    keeps_on_any _ fun _ _ ordered => ordered

theorem release_keeps (full : Bool) : Keeps (fun s : LargeSpace × Memory => s.1.pages.InOrder) (release full) := by
  refine keeps_bind (keeps_on_any _ fun _ _ ordered => ordered) fun _ =>
    keeps_bind (keeps_on_any _ fun _ _ ordered => ordered) fun young => keeps_bind (keeps_forM young reclaim_keeps) fun _ => ?_
  exact keeps_ite (keeps_bind (keeps_on_any _ fun _ _ ordered => ordered) fun old => keeps_forM old reclaim_keeps) (keeps_pure _)

theorem mark_keeps (object : Address) (value : UInt8) : Keeps (fun s : LargeSpace => s.pages.InOrder) (mark object value) :=
  keeps_get_bind fun _ => keeps_bind (keeps_lift _) fun _ => keeps_ite (keeps_pure _)
    (keeps_bind (keeps_on_any _ fun _ _ ordered => ordered) fun _ => keeps_pure _)

theorem claim_keeps (object : Address) : Keeps (fun s : LargeSpace => s.pages.InOrder) (claim object) :=
  keeps_get_bind fun _ => keeps_bind (keeps_lift _) fun _ => keeps_ite (keeps_pure _)
    (keeps_bind (mark_keeps _ _) fun _ => keeps_ite (keeps_pure _) (keeps_pure _))

theorem adopt_keeps (object : Address) (allocated : Bool) :
    Keeps (fun s : LargeSpace × Memory => s.1.pages.InOrder) (adopt object allocated) :=
  keeps_get_bind fun _ => keeps_bind (keeps_on_any _ fun _ _ ordered => ordered) fun _ => keeps_modify fun _ ordered => ordered

end LargeSpace

namespace MarkSweepSpace

theorem prepare_keeps : Keeps (fun s : MarkSweepSpace => s.pages.InOrder) prepare :=
  keeps_bind (keeps_on_any _ fun _ _ ordered => ordered) fun _ => keeps_modify fun _ ordered => ordered

theorem enterLists_keeps : Keeps (fun s : MarkSweepSpace => s.pages.InOrder) enterLists :=
  keeps_get_bind fun _ => keeps_ensure _ _

theorem claim_keeps (object : Address) : Keeps (fun s : MarkSweepSpace => s.pages.InOrder) (claim object) :=
  keeps_get_bind fun _ => keeps_bind (keeps_lift _) fun _ => keeps_bind (keeps_lift _) fun _ => keeps_ite (keeps_pure _)
    (keeps_bind (keeps_on_any _ fun _ _ ordered => ordered) fun _ => keeps_pure _)

theorem adoptCopy_keeps (object : Address) : Keeps (fun s : MarkSweepSpace × Memory => s.1.pages.InOrder) (adoptCopy object) :=
  keeps_get_bind fun _ => keeps_bind (keeps_lift _) fun _ =>
    keeps_bind (keeps_on_any _ fun _ _ ordered => ordered) fun _ => keeps_modify fun _ ordered => ordered

theorem takeAvailable_keeps (sizeClass : Nat) : Keeps (fun s : MarkSweepSpace => s.pages.InOrder) (takeAvailable sizeClass) := by
  refine keeps_bind enterLists_keeps fun _ => keeps_get_bind_of fun s ordered => ?_
  split
  · exact ordered
  · exact ordered
  · exact ordered

theorem mapPages_keeps (start : Address) (sizeClass : Nat) (pages : List Nat) :
    Keeps (fun s : MarkSweepSpace => s.pages.InOrder) (mapPages start sizeClass pages) := by
  induction pages with
  | nil => exact keeps_pure _
  | cons page rest ih =>
    exact keeps_bind (keeps_on_any _ fun _ _ ordered => ordered) fun _ =>
      keeps_bind (keeps_on_any _ fun _ _ ordered => ordered) fun _ => ih

theorem install_keeps (start : Address) (sizeClass : Nat) :
    Keeps (fun s : MarkSweepSpace × Memory => s.1.pages.InOrder) (install start sizeClass) :=
  keeps_bind (keeps_lift _) fun _ => keeps_bind (keeps_modify fun _ ordered => ordered) fun _ =>
    keeps_bind (keeps_fst (mapPages_keeps _ _ _)) fun _ => keeps_bind (keeps_fst enterLists_keeps) fun _ =>
      keeps_modify fun _ ordered => ordered

theorem sweepCells_keeps (start : Address) (size : Word) (head : Address) (live count : Nat) :
    Keeps (fun s : MarkSweepSpace × Memory => s.1.pages.InOrder) (sweepCells start size head live count) := by
  induction count generalizing head live with
  | zero => exact keeps_pure _
  | succ count ih =>
    refine keeps_get_bind fun _ => keeps_bind (keeps_lift _) fun _ => keeps_ite (ih _ _) ?_
    exact keeps_bind (keeps_on_any _ fun _ _ ordered => ordered) fun _ =>
      keeps_bind (keeps_modify fun _ ordered => ordered) fun _ => ih _ _

theorem discard_keeps (start : Address) : Keeps (fun s : MarkSweepSpace × Memory => s.1.pages.InOrder) (discard start) :=
  keeps_bind (keeps_on_any _ fun _ _ ordered => ordered) fun _ =>
    keeps_bind (keeps_on_any _ fun _ _ ordered => ordered) fun _ =>
      keeps_bind (keeps_on_any _ fun _ _ ordered => ordered) fun _ =>
        keeps_bind (keeps_onBoth (Runs.release_keeps _) (fun _ ordered => ordered) fun _ _ _ _ kept => kept) fun _ => keeps_pure _

theorem sweepBlock_keeps (block : Block) : Keeps (fun s : MarkSweepSpace × Memory => s.1.pages.InOrder) (sweepBlock block) := by
  refine keeps_bind (keeps_lift _) fun _ => keeps_bind (sweepCells_keeps _ _ _ _ _) fun _ =>
    keeps_ite (keeps_bind (discard_keeps _) fun _ => keeps_pure _) ?_
  exact keeps_ite (keeps_pure _) (keeps_bind (keeps_modify fun _ ordered => ordered) fun _ => keeps_pure _)

theorem release_keeps : Keeps (fun s : MarkSweepSpace × Memory => s.1.pages.InOrder) release :=
  keeps_bind (keeps_on_any _ fun _ _ ordered => ordered) fun _ => keeps_bind (keeps_fst enterLists_keeps) fun _ =>
    keeps_get_bind fun _ => keeps_bind (keeps_modify fun _ ordered => ordered) fun _ =>
      keeps_bind (keeps_onFault (keeps_filterM _ sweepBlock_keeps) fun _ ordered => ordered) fun _ =>
        keeps_modify fun _ ordered => ordered

end MarkSweepSpace

end TracingHeap
