import TracingHeap.Proofs.Conduct
import TracingHeap.Proofs.Reaches

/-! Two faults say that a heap has lost track of its own memory: an object is saved that is on no collected list, or
pages are given back that no live run starts with. Others say that a collection does things out of turn: a space or a
collector is not where the protocol of the phases wants it to be. Everything else that an operation can break off with
is something that the program, its settings or the system can bring about. Here every operation is passed through, and
all but the few that use the treadmill, give runs back or enter and leave a collection are found to raise none of
these faults, in whatever state they are carried out. -/

namespace TracingHeap

open Step

variable {α β γ : Type}

namespace Fault

/-- The fault says that the heap has lost track of its large objects or of its page runs. -/
def isAstray : Fault → Bool
  | notOnCollectedList _ | pagesNotLive _ => true
  | _ => false

/-- The fault says that a space, a collector or the work that is left is not at the point of a collection where it
has to be. -/
def isOutOfTurn : Fault → Bool
  | workLeftOver | preparedTwice _ | notPrepared _ | prepareOutOfTurn .. | rootsOutOfTurn .. | closureOutOfTurn .. |
    releaseOutOfTurn .. | tracingOutOfTurn .. | releasedWithWork => true
  | _ => false

/-- The fault says that the heap or a collection has lost its way. -/
def isLapse (e : Fault) : Bool := e.isAstray || e.isOutOfTurn

theorem isLapse_false {e : Fault} : e.isLapse = false ↔ e.isAstray = false ∧ e.isOutOfTurn = false := Bool.or_eq_false_iff

/-- An answer that is no lapse: if it is a fault, then another one. -/
def Sure (x : Except Fault α) : Prop := ∀ e, x = .error e → e.isLapse = false

theorem sure_ok (a : α) : Sure (.ok a : Except Fault α) := by
  intro e same
  cases same

theorem sure_pure (a : α) : Sure (pure a : Except Fault α) := sure_ok a

theorem sure_error {e : Fault} (plain : e.isLapse = false) : Sure (.error e : Except Fault α) := by
  intro e' same
  cases same
  exact plain

theorem sure_throw {e : Fault} (plain : e.isLapse = false) : Sure (throw e : Except Fault α) := sure_error plain

theorem sure_bind {x : Except Fault α} {f : α → Except Fault β} (first : Sure x) (next : ∀ a, Sure (f a)) :
    Sure (x >>= f) := by
  intro e same
  cases x with
  | ok a => exact next a e same
  | error e' => exact first e (by cases same; rfl)

theorem sure_map {x : Except Fault α} {f : α → β} (first : Sure x) : Sure (x.map f) := by
  intro e same
  cases x with
  | ok a => cases same
  | error e' => exact first e (by cases same; rfl)

theorem sure_ite {c : Prop} [Decidable c] {x y : Except Fault α} (yes : Sure x) (no : Sure y) : Sure (if c then x else y) := by
  split
  · exact yes
  · exact no

/-- What is asked for is checked before anything else is done. -/
theorem sure_unless {c : Prop} [Decidable c] {e : Fault} {rest : PUnit → Except Fault α} (plain : e.isLapse = false)
    (next : ∀ u, Sure (rest u)) : Sure (if c then rest ⟨⟩ else throw e >>= rest) :=
  sure_ite (next _) (sure_bind (sure_throw plain) next)

theorem sure_foldlM {f : β → γ → Except Fault β} (each : ∀ b c, Sure (f b c)) (items : List γ) (b : β) :
    Sure (items.foldlM f b) := by
  induction items generalizing b with
  | nil => exact sure_pure b
  | cons c rest ih => exact sure_bind (each b c) fun b => ih b

theorem sure_mapM {f : β → Except Fault γ} (each : ∀ b, Sure (f b)) (items : Array β) : Sure (items.mapM f) := by
  rw [Array.mapM_eq_foldlM, ← Array.foldlM_toList]
  exact sure_foldlM (fun _ _ => sure_bind (each _) fun _ => sure_pure _) _ _

end Fault

namespace Step

variable {σ τ ρ : Type}

/-- From this state, the step does not break off with a lapse. -/
def SureAt (x : Step σ α) (s : σ) : Prop := ∀ e t, x s = .error e t → e.isLapse = false

/-- The step never breaks off with a lapse. -/
def Sure (x : Step σ α) : Prop := ∀ s, SureAt x s

theorem sure_pure (a : α) : Sure (pure a : Step σ α) := by
  intro s e t h
  cases h

theorem sure_get : Sure (get : Step σ σ) := by
  intro s e t h
  cases h

theorem sure_modify (f : σ → σ) : Sure (modify f : Step σ PUnit) := by
  intro s e t h
  cases h

theorem sure_modifyGet (f : σ → α × σ) : Sure (modifyGet f : Step σ α) := by
  intro s e t h
  cases h

theorem sure_set (t : σ) : Sure (set t : Step σ PUnit) := by
  intro s e t h
  cases h

theorem sure_throw {e : Fault} (plain : e.isLapse = false) : Sure (throw e : Step σ α) := by
  intro s e' t h
  cases h
  exact plain

theorem sure_fail {e : Fault} (plain : e.isLapse = false) : Sure (fail e : Step σ α) := sure_throw plain

theorem sure_ensure {c : Bool} {e : Fault} (plain : e.isLapse = false) : Sure (ensure c e : Step σ Unit) := by
  cases c with
  | true => exact sure_pure _
  | false => exact sure_throw plain

theorem sure_lift {x : Except Fault α} (inner : Fault.Sure x) : Sure (liftM x : Step σ α) := by
  intro s e t h
  cases x with
  | ok a => cases h
  | error e' => cases h; exact inner e rfl

theorem sure_ask {f : σ → Except Fault α} (inner : ∀ s, Fault.Sure (f s)) : Sure (ask f) := by
  intro s e t h
  unfold ask at h
  split at h
  · cases h
  · rename_i same
    cases h
    exact inner s e same

/-- The second of two steps is carried out from where the first one led. -/
theorem SureAt.bind {x : Step σ α} {f : α → Step σ β} {s : σ} (first : SureAt x s)
    (next : ∀ a t, x s = .ok a t → SureAt (f a) t) : SureAt (x >>= f) s := by
  intro e t h
  change EStateM.bind x f s = _ at h
  unfold EStateM.bind at h
  cases ran : x s with
  | ok a r =>
    rw [ran] at h
    exact next a r ran e t h
  | error e' r =>
    rw [ran] at h
    cases h
    exact first e t ran

theorem SureAt.get_bind {f : σ → Step σ α} {s : σ} (next : SureAt (f s) s) : SureAt (get >>= f) s :=
  SureAt.bind (sure_get s) fun _ _ same => by
    cases same
    exact next

theorem sure_bind {x : Step σ α} {f : α → Step σ β} (first : Sure x) (next : ∀ a, Sure (f a)) : Sure (x >>= f) :=
  fun s => (first s).bind fun a t _ => next a t

theorem sure_map {x : Step σ α} {f : α → β} (first : Sure x) : Sure (f <$> x) := sure_bind first fun _ => sure_pure _

theorem sure_discard {x : Step σ α} (first : Sure x) : Sure (discard x) := sure_map first

theorem sure_ite {c : Prop} [Decidable c] {x y : Step σ α} (yes : Sure x) (no : Sure y) : Sure (if c then x else y) := by
  split
  · exact yes
  · exact no

theorem SureAt.on [Inhabited τ] {part : Focus σ τ} {x : Step τ α} {s : σ} (inner : SureAt x (part.get s)) :
    SureAt (on part x) s := by
  intro e t h
  simp only [Step.on] at h
  cases ran : x (part.get s) with
  | ok a r => rw [ran] at h; cases h
  | error e' r => rw [ran] at h; cases h; exact inner e r ran

theorem SureAt.onBoth [Inhabited τ] [Inhabited ρ] {first : Focus σ τ} {second : Focus σ ρ} {x : Step (τ × ρ) α} {s : σ}
    (inner : SureAt x (first.get s, second.get s)) : SureAt (onBoth first second x) s := by
  intro e t h
  simp only [Step.onBoth] at h
  cases ran : x (first.get s, second.get s) with
  | ok a r => rw [ran] at h; cases h
  | error e' r => rw [ran] at h; cases h; exact inner e r ran

theorem sure_on [Inhabited τ] {part : Focus σ τ} {x : Step τ α} (inner : Sure x) : Sure (on part x) :=
  fun s => (inner (part.get s)).on

theorem sure_onBoth [Inhabited τ] [Inhabited ρ] {first : Focus σ τ} {second : Focus σ ρ} {x : Step (τ × ρ) α}
    (inner : Sure x) : Sure (onBoth first second x) :=
  fun s => (inner (first.get s, second.get s)).onBoth

theorem SureAt.onFault {x : Step σ α} {mend : σ → σ} {s : σ} (inner : SureAt x s) : SureAt (x.onFault mend) s := by
  intro e t h
  simp only [Step.onFault] at h
  cases ran : x s with
  | ok a r => rw [ran] at h; cases h
  | error e' r => rw [ran] at h; cases h; exact inner e r ran

/-- A list is worked off; `holds` says what is true of the items that are left. -/
theorem SureAt.filterM {f : β → Step σ Bool} {holds : List β → σ → Prop} {items : List β} {s : σ} (start : holds items s)
    (next : ∀ b rest r, holds (b :: rest) r → SureAt (f b) r ∧ ∀ keep r', f b r = .ok keep r' → holds rest r') :
    SureAt (items.filterM f : Step σ (List β)) s := by
  have rounds : ∀ (items kept : List β) (r : σ), holds items r →
      SureAt (List.filterAuxM f items kept : Step σ (List β)) r := by
    intro items
    induction items with
    | nil => exact fun kept r _ => sure_pure _ _
    | cons b rest ih =>
      intro kept r before
      obtain ⟨sure, after⟩ := next b rest r before
      exact sure.bind fun keep r' ok => ih _ r' (after keep r' ok)
  exact (rounds items [] s start).bind fun _ _ _ => sure_pure _ _

theorem sure_forM {f : β → Step σ PUnit} {items : List β} (each : ∀ b, Sure (f b)) : Sure (items.forM f) := by
  induction items with
  | nil => exact sure_pure _
  | cons b rest ih => exact sure_bind (each b) fun _ => ih

end Step

/-! ### Arithmetic, tables and sources of pages -/

namespace Word

theorem sum_sure (a b : Word) : Fault.Sure (sum a b) :=
  Fault.sure_ite (Fault.sure_ok _) (Fault.sure_error rfl)

theorem difference_sure (a b : Word) : Fault.Sure (difference a b) :=
  Fault.sure_ite (Fault.sure_ok _) (Fault.sure_error rfl)

theorem product_sure (a b : Word) : Fault.Sure (product a b) :=
  Fault.sure_ite (Fault.sure_ok _) (Fault.sure_error rfl)

theorem shiftRight_sure (a b : Word) : Fault.Sure (shiftRight a b) :=
  Fault.sure_ite (Fault.sure_ok _) (Fault.sure_error rfl)

theorem pagesUp_sure (a : Word) : Fault.Sure (pagesUp a) :=
  Fault.sure_bind (sum_sure a _) fun _ => Fault.sure_pure _

end Word

namespace Address

theorem above_sure (a : Address) (n : Word) : Fault.Sure (a.above n) := Fault.sure_map (Word.sum_sure a.word n)

theorem distance_sure (a b : Address) : Fault.Sure (a.distance b) :=
  Fault.sure_ite (Fault.sure_ok _) (Fault.sure_error rfl)

end Address

namespace Padding

theorem alignedStart_sure (a : Address) (alignment offset : Word) : Fault.Sure (alignedStart a alignment offset) := by
  unfold alignedStart Scheme.alignedStart
  exact Fault.sure_unless rfl fun _ => Fault.sure_unless rfl fun _ => Fault.sure_unless rfl fun _ =>
    Fault.sure_ite (Fault.sure_pure _) (Address.above_sure _ _)

theorem maxAlignedSize_sure (a b : Word) : Fault.Sure (maxAlignedSize a b) :=
  Fault.sure_ite (Fault.sure_pure _) (Fault.sure_bind (Word.sum_sure a b) fun _ => Word.difference_sure _ _)

theorem align_sure (a : Address) (alignment offset : Word) : Sure (align a alignment offset) :=
  sure_bind (sure_lift (alignedStart_sure a alignment offset)) fun _ => sure_bind (sure_modify _) fun _ => sure_pure _

end Padding

namespace SideTable

theorem slotOf_sure (t : SideTable) (a : Address) : Fault.Sure (t.slotOf a) := by
  have covers : Fault.Sure (t.covers a) := Fault.sure_ite (Fault.sure_map (Address.above_sure _ _)) (Fault.sure_ok _)
  refine Fault.sure_bind covers fun inside => ?_
  cases inside with
  | true => exact Word.shiftRight_sure _ _
  | false => exact Fault.sure_bind (Address.above_sure _ _) fun _ => Fault.sure_error rfl

theorem checkSlot_sure (t : SideTable) (slot : Word) : Fault.Sure (t.checkSlot slot) :=
  Fault.sure_bind (Word.product_sure slot _) fun _ => Fault.sure_ite (Fault.sure_ok _) (Fault.sure_error rfl)

theorem load_sure (t : SideTable) (a : Address) : Fault.Sure (t.load a) :=
  Fault.sure_bind (slotOf_sure t a) fun slot => Fault.sure_bind (checkSlot_sure t slot) fun _ => Fault.sure_pure _

theorem loadByte_sure (t : SideTable) (a : Address) : Fault.Sure (t.loadByte a) :=
  Fault.sure_map (load_sure t a)

theorem store_sure (a : Address) (v : Word) : Sure (store a v) :=
  sure_bind (sure_ask fun t => Fault.sure_bind (slotOf_sure t a) fun slot => checkSlot_sure t slot) fun _ => sure_modify _

theorem clear_sure (a : Address) (v : Word) : Sure (clear a v) := by
  unfold clear
  split
  · exact sure_pure _
  · exact sure_bind (sure_ask fun t => slotOf_sure t a) fun _ =>
      sure_bind (sure_ask fun t => Fault.sure_bind (Address.above_sure a _) fun last => slotOf_sure t last) fun _ => sure_modify _

end SideTable

namespace Forwarding

theorem stateOf_sure (f : Forwarding) (a : Address) : Fault.Sure (f.stateOf a) :=
  SideTable.loadByte_sure f.states a

theorem look_sure (f : Forwarding) (a : Address) (state : UInt8) : Fault.Sure (f.look a state) := by
  have known := Fault.sure_map (f := (· == ForwardingState.forwarded)) (stateOf_sure f a)
  have place := SideTable.load_sure f.copies a
  have copy : Fault.Sure (f.copyOf a) := by
    unfold copyOf isForwarded
    refine Fault.sure_bind known fun b => ?_
    cases b with
    | true => exact Fault.sure_bind place fun _ => Fault.sure_pure _
    | false => exact Fault.sure_bind (Fault.sure_throw rfl) fun _ => Fault.sure_bind place fun _ => Fault.sure_pure _
  have rest : ∀ state, Fault.Sure (do
      if ForwardingState.isClaimed state then return none
      unless state == ForwardingState.forwarded do throw (.corruptForwarding state a)
      return some (← f.copyOf a)) := by
    intro state
    dsimp only
    split
    · exact Fault.sure_pure _
    · have found := Fault.sure_bind copy fun b => Fault.sure_pure (some b)
      split
      · exact found
      · exact Fault.sure_bind (Fault.sure_throw rfl) fun _ => found
  unfold look
  split
  · exact Fault.sure_bind (stateOf_sure f a) rest
  · exact Fault.sure_bind (Fault.sure_pure _) rest

theorem claim_sure (a : Address) : Sure (claim a) := by
  refine sure_bind (sure_ask fun f => stateOf_sure f a) fun state => ?_
  dsimp only
  split
  · exact sure_bind (sure_on (SideTable.store_sure a _)) fun _ => sure_pure _
  · exact sure_pure _

theorem publish_sure (a b : Address) : Sure (publish a b) :=
  sure_bind (sure_ask fun f => stateOf_sure f a) fun _ => sure_bind (sure_ensure rfl) fun _ =>
    sure_bind (sure_on (SideTable.store_sure a _)) fun _ => sure_on (SideTable.store_sure a _)

theorem clear_sure (a : Address) (n : Word) : Sure (clear a n) :=
  sure_bind (sure_on (SideTable.clear_sure a n)) fun _ => sure_on (SideTable.clear_sure a n)

end Forwarding

namespace Pages

namespace Ledger

theorem reserve_sure (n : Word) : Sure (reserve n) := sure_modify _

theorem withdraw_sure (n : Word) : Sure (withdraw n) :=
  sure_bind sure_get fun _ => sure_bind (sure_modify _) fun _ => sure_ensure rfl

theorem commit_sure (n : Word) : Sure (commit n) := sure_modify _

theorem release_sure (n : Word) : Sure (release n) :=
  sure_bind sure_get fun _ => sure_bind (sure_set _) fun _ => sure_ensure rfl

end Ledger

namespace Frontier

theorem grow_sure (refusal : Option Refusal) (a : Address) : Sure (grow refusal a) := by
  refine sure_bind sure_get fun s => ?_
  dsimp only
  split
  · exact sure_pure _
  · refine sure_bind (sure_lift (Address.distance_sure _ _)) fun growth => ?_
    split
    · exact sure_pure _
    · exact sure_bind (sure_lift (Word.pagesUp_sure _)) fun _ => sure_bind (sure_set _) fun _ =>
        sure_bind (sure_on (Ledger.commit_sure _)) fun _ => sure_bind (sure_modify _) fun _ => sure_pure _

theorem take_sure (a b : Word) : Sure (take a b) := by
  refine sure_bind (sure_ensure rfl) fun _ => sure_bind (sure_on (Ledger.withdraw_sure a)) fun _ => sure_bind sure_get fun s =>
    sure_bind (sure_lift (Address.above_sure _ b)) fun cursor => sure_bind (sure_lift (Address.above_sure _ _)) fun stop => ?_
  split
  · exact sure_pure _
  · refine sure_bind (grow_sure none cursor) fun backed => ?_
    split
    · exact sure_pure _
    · exact sure_bind (sure_modify _) fun _ => sure_pure _

theorem reset_sure : Sure reset :=
  sure_bind sure_get fun _ => sure_bind (sure_lift (Address.distance_sure _ _)) fun _ =>
    sure_bind (sure_lift (Address.distance_sure _ _)) fun _ => sure_bind (sure_modify _) fun _ => sure_pure _

end Frontier

namespace Runs

theorem pageOf_sure (r : Runs) (a : Address) : Fault.Sure (r.pageOf a) :=
  Fault.sure_bind (Address.distance_sure a r.extent.start) fun _ => Fault.sure_pure _

theorem addressOf_sure (r : Runs) (n : Nat) : Fault.Sure (r.addressOf n) :=
  Address.above_sure _ _

theorem take_sure (a b : Word) : Sure (take a b) := by
  refine sure_bind (sure_on (Ledger.withdraw_sure a)) fun _ => sure_bind (sure_lift (Word.pagesUp_sure b)) fun pages =>
    sure_bind sure_get fun s => sure_bind (sure_lift (Word.pagesUp_sure _)) fun limit => ?_
  dsimp only
  split
  · exact sure_pure _
  · refine sure_bind (sure_modify _) fun _ => sure_bind (sure_lift (addressOf_sure _ _)) fun start => sure_bind sure_get fun s => ?_
    split
    · exact sure_bind (sure_modify _) fun _ => sure_pure _
    · exact sure_bind (sure_modify _) fun _ => sure_bind (sure_on (Ledger.commit_sure _)) fun _ => sure_pure _

end Runs

end Pages

/-! ### Spaces -/

namespace Region

variable {r : Region}

/-- A space enters a collection that it is not in. -/
theorem enter_sureAt (idle : r.prepared = false) : SureAt enter r := by
  refine SureAt.get_bind (SureAt.bind (sure_set _ _) fun _ t _ => ?_)
  rw [idle]
  exact sure_pure _ t

/-- A space leaves a collection that it is in. -/
theorem leave_sureAt (prepared : r.prepared = true) : SureAt leave r := by
  refine SureAt.get_bind (SureAt.bind (sure_set _ _) fun _ t _ => ?_)
  rw [prepared]
  exact sure_pure _ t

end Region

namespace CopySpace

variable {x : CopySpace} {m : Memory}

theorem prepare_sureAt {evacuate : Bool} (idle : evacuate = true → x.region.prepared = false) : SureAt (prepare evacuate) x := by
  cases evacuate with
  | false => exact sure_modify _ x
  | true => exact SureAt.bind (SureAt.on (Region.enter_sureAt (idle rfl))) fun _ t _ => sure_modify _ t

theorem release_sureAt (prepared : x.region.prepared = true) : SureAt release (x, m) := by
  refine SureAt.bind (SureAt.on (Region.leave_sureAt prepared)) fun _ t _ => ?_
  exact sure_bind (sure_onBoth Pages.Frontier.reset_sure) (fun _ => sure_bind (sure_on (Forwarding.clear_sure _ _)) fun _ =>
    sure_modify _) t

end CopySpace

namespace ImmortalSpace

variable {x : ImmortalSpace}

theorem prepare_sureAt (idle : x.region.prepared = false) : SureAt prepare x :=
  SureAt.bind (SureAt.on (Region.enter_sureAt idle)) fun _ t _ => sure_modify _ t

theorem release_sureAt (prepared : x.region.prepared = true) : SureAt release x := SureAt.on (Region.leave_sureAt prepared)

theorem claim_sure (a : Address) : Sure (claim a) :=
  sure_bind sure_get fun s => sure_bind (sure_lift (SideTable.loadByte_sure s.marks a)) fun _ =>
    sure_bind (sure_on (SideTable.store_sure a _)) fun _ => sure_pure _

theorem adopt_sure (a : Address) : Sure (adopt a) :=
  sure_bind sure_get fun _ => sure_bind (sure_on (SideTable.store_sure a _)) fun _ => sure_modify _

end ImmortalSpace

namespace LargeSpace

theorem prepare_sureAt {x : LargeSpace} {full : Bool} (idle : x.region.prepared = false) : SureAt (prepare full) x :=
  SureAt.bind (SureAt.on (Region.enter_sureAt idle)) fun _ t _ => sure_modify _ t

theorem mark_sure (a : Address) (v : UInt8) : Sure (mark a v) := by
  refine sure_bind sure_get fun s => sure_bind (sure_lift (SideTable.loadByte_sure s.marks a)) fun before => sure_ite (sure_pure _) ?_
  exact sure_bind (sure_on (SideTable.store_sure a _)) fun _ => sure_pure _

theorem claim_sure (a : Address) : Sure (claim a) := by
  refine sure_bind sure_get fun s => sure_bind (sure_lift (Fault.sure_map (SideTable.loadByte_sure s.marks a))) fun young =>
    sure_ite (sure_pure _) (sure_bind (mark_sure a _) fun won => ?_)
  exact sure_ite (sure_pure _) (sure_pure _)

theorem adopt_sure (a : Address) (b : Bool) : Sure (adopt a b) :=
  sure_bind sure_get fun _ => sure_bind (sure_on (SideTable.store_sure a _)) fun _ => sure_modify _

end LargeSpace

namespace MarkSweepSpace

theorem prepare_sureAt {x : MarkSweepSpace} (idle : x.region.prepared = false) : SureAt prepare x :=
  SureAt.bind (SureAt.on (Region.enter_sureAt idle)) fun _ t _ => sure_modify _ t

theorem enterLists_sure : Sure enterLists := sure_bind sure_get fun _ => sure_ensure rfl

theorem cellSize_sure (k : Nat) : Fault.Sure (cellSize k) := by
  unfold cellSize
  split
  · exact Fault.sure_ok _
  · exact Fault.sure_error rfl

theorem cellOf_sure (s : MarkSweepSpace) (a : Address) : Fault.Sure (s.cellOf a) := by
  refine Fault.sure_bind (SideTable.load_sure s.blockStarts a) fun block => ?_
  have rest := Fault.sure_bind (SideTable.load_sure s.blockClasses a) fun k => Fault.sure_bind (cellSize_sure k.toNat) fun size =>
    Fault.sure_bind (Address.distance_sure a ⟨block⟩) fun inside => Fault.sure_pure (⟨block + inside / size * size⟩ : Address)
  exact Fault.sure_ite (Fault.sure_bind (Fault.sure_throw rfl) fun _ => rest) rest

theorem claim_sure (a : Address) : Sure (claim a) := by
  refine sure_bind sure_get fun s => sure_bind (sure_lift (cellOf_sure s a)) fun cell =>
    sure_bind (sure_lift (SideTable.loadByte_sure s.marks cell)) fun before => sure_ite (sure_pure _) ?_
  exact sure_bind (sure_on (SideTable.store_sure cell _)) fun _ => sure_pure _

theorem adoptCopy_sure (a : Address) : Sure (adoptCopy a) :=
  sure_bind sure_get fun s => sure_bind (sure_lift (cellOf_sure s.1 a)) fun cell =>
    sure_bind (sure_on (SideTable.store_sure cell _)) fun _ => sure_modify _

theorem takeAvailable_sure (k : Nat) : Sure (takeAvailable k) := by
  refine sure_bind enterLists_sure fun _ => sure_bind sure_get fun s => ?_
  split
  · exact sure_bind (sure_set _) fun _ => sure_throw rfl
  · exact sure_pure _
  · exact sure_bind (sure_set _) fun _ => sure_pure _

theorem mapPages_sure (start : Address) (k : Nat) (pages : List Nat) : Sure (mapPages start k pages) := by
  induction pages with
  | nil => exact sure_pure _
  | cons page rest ih =>
    exact sure_bind (sure_on (SideTable.store_sure _ _)) fun _ => sure_bind (sure_on (SideTable.store_sure _ _)) fun _ => ih

theorem install_sure (start : Address) (k : Nat) : Sure (install start k) :=
  sure_bind (sure_lift (cellSize_sure k)) fun _ => sure_bind (sure_modify _) fun _ =>
    sure_bind (sure_on (mapPages_sure start k _)) fun _ => sure_bind (sure_on enterLists_sure) fun _ => sure_modify _

theorem sweepCells_sure (start : Address) (size : Word) (head : Address) (live count : Nat) :
    Sure (sweepCells start size head live count) := by
  induction count generalizing head live with
  | zero => exact sure_pure _
  | succ count ih =>
    refine sure_bind sure_get fun s => sure_bind (sure_lift (SideTable.loadByte_sure s.1.marks _)) fun before => sure_ite (ih _ _) ?_
    exact sure_bind (sure_on (SideTable.store_sure _ _)) fun _ => sure_bind (sure_modify _) fun _ => ih _ _

end MarkSweepSpace

/-! ### Steps of one space as steps of the heap -/

namespace Spaces

theorem onMature_sureAt {x : Step (MarkSweepSpace × Memory) α} {s : SecondSpace × Memory}
    (inner : ∀ y, s.1 = .mature y → SureAt x (y, s.2)) : SureAt (onMature x) s := by
  obtain ⟨second, m⟩ := s
  intro e t h
  cases second with
  | twin y => cases h; rfl
  | mature y =>
    simp only [onMature] at h
    cases ran : x (y, m) with
    | ok a r => rw [ran] at h; cases h
    | error e' r => rw [ran] at h; cases h; exact inner y rfl e r ran

theorem onTwin_sureAt {x : Step (CopySpace × Memory) α} {s : SecondSpace × Memory}
    (inner : ∀ y, s.1 = .twin y → SureAt x (y, s.2)) : SureAt (onTwin x) s := by
  obtain ⟨second, m⟩ := s
  intro e t h
  cases second with
  | mature y => cases h; rfl
  | twin y =>
    simp only [onTwin] at h
    cases ran : x (y, m) with
    | ok a r => rw [ran] at h; cases h
    | error e' r => rw [ran] at h; cases h; exact inner y rfl e r ran

theorem onTwin_sure {x : Step (CopySpace × Memory) α} (inner : Sure x) : Sure (onTwin x) :=
  fun _ => onTwin_sureAt fun _ _ => inner _

theorem onMature_sure {x : Step (MarkSweepSpace × Memory) α} (inner : Sure x) : Sure (onMature x) :=
  fun _ => onMature_sureAt fun _ _ => inner _

theorem onCopying_sure {id : SpaceId} {x : Step (CopySpace × Memory) α} (inner : Sure x) : Sure (onCopying id x) := by
  cases id with
  | first => exact sure_onBoth inner
  | second => exact sure_onBoth (onTwin_sure inner)
  | immortal => exact sure_bind sure_get fun _ => sure_fail rfl
  | large => exact sure_bind sure_get fun _ => sure_fail rfl

/-- A step of the source of pages of a space, whatever its kind. -/
theorem onPages_sure {id : SpaceId} {step : {κ : Type} → [Pages.Source κ] → Step (κ × Memory) α}
    (frontier : Sure (step : Step (Pages.Frontier × Memory) α)) (runs : Sure (step : Step (Pages.Runs × Memory) α)) :
    Sure (onPages id step) := by
  unfold onPages
  cases id with
  | first => exact sure_onBoth (sure_onBoth frontier)
  | second =>
    refine sure_onBoth ?_
    rintro ⟨second, m⟩
    cases second with
    | mature y => exact onMature_sure (sure_onBoth runs) _
    | twin y => exact onTwin_sure (sure_onBoth frontier) _
  | immortal => exact sure_onBoth frontier
  | large => exact sure_onBoth runs

theorem onLedger_sure {id : SpaceId} {x : Step Pages.Ledger α} (inner : Sure x) : Sure (onLedger id x) :=
  onPages_sure (sure_on inner) (sure_on inner)

theorem take_sure (id : SpaceId) (pending bytes : Word) : Sure (take id pending bytes) :=
  onPages_sure (Pages.Frontier.take_sure pending bytes) (Pages.Runs.take_sure pending bytes)

end Spaces

namespace Heap

theorem onSpaces_sure {x : Step (Spaces × Memory) α} (inner : Sure x) : Sure (onSpaces x) := sure_onBoth inner

theorem onCopying_sure {id : SpaceId} {x : Step (CopySpace × Memory) α} (inner : Sure x) : Sure (onCopying id x) :=
  onSpaces_sure (Spaces.onCopying_sure inner)

theorem onMature_sure {x : Step (MarkSweepSpace × Memory) α} (inner : Sure x) : Sure (onMature x) :=
  onSpaces_sure (sure_onBoth (Spaces.onMature_sure inner))

theorem onImmortal_sure {x : Step (ImmortalSpace × Memory) α} (inner : Sure x) : Sure (onImmortal x) :=
  sure_onBoth inner

theorem onLarge_sure {x : Step (LargeSpace × Memory) α} (inner : Sure x) : Sure (onLarge x) := sure_onBoth inner

theorem onMutator_sure {index : Nat} {x : Step Mutator α} (inner : Sure x) : Sure (onMutator index x) := sure_on inner

end Heap

/-! ### Allocation -/

namespace Heap

theorem pagesUsed_sure (h : Heap) : Fault.Sure h.pagesUsed := by
  have common (objects : Word) : Fault.Sure (do objects.sum (← (h.reservedBy .immortal).sum (h.reservedBy .large))) :=
    Fault.sure_bind (Word.sum_sure _ _) fun _ => Word.sum_sure _ _
  unfold pagesUsed
  cases h.plan with
  | generational => exact Fault.sure_bind (Word.sum_sure _ _) common
  | semispace => exact Fault.sure_bind (Fault.sure_ok _) common

theorem pagesReserved_sure (h : Heap) : Fault.Sure h.pagesReserved :=
  Fault.sure_bind h.pagesUsed_sure fun _ => Word.sum_sure _ _

theorem pagesTotal_sure (h : Heap) : Fault.Sure h.pagesTotal := Word.pagesUp_sure _

theorem pagesAvailable_sure (h : Heap) : Fault.Sure h.pagesAvailable :=
  Fault.sure_bind h.pagesTotal_sure fun _ => Fault.sure_bind h.pagesReserved_sure fun _ => Fault.sure_pure _

theorem overBudget_sure (h : Heap) : Fault.Sure h.overBudget :=
  Fault.sure_bind h.pagesTotal_sure fun _ => Fault.sure_bind h.pagesReserved_sure fun _ => Fault.sure_pure _

theorem maxNurseryPages_sure (s : Settings) : Fault.Sure s.maxNurseryPages := Word.pagesUp_sure _

theorem report_sure (shortage : Shortage) : Sure (report shortage) :=
  sure_bind (sure_modify _) fun _ => sure_bind sure_get fun _ => sure_ensure rfl

theorem collectionDue_sure (b : Bool) (id : Option SpaceId) : Sure (collectionDue b id) := by
  have answer : Sure (do let exceeded ← ask overBudget; return b || exceeded) :=
    sure_bind (sure_ask overBudget_sure) fun _ => sure_pure _
  refine sure_bind sure_get fun h => ?_
  cases h.plan with
  | semispace => exact answer
  | generational =>
    refine sure_bind (sure_lift (maxNurseryPages_sure _)) fun nursery => sure_ite (sure_pure _) ?_
    exact sure_ite (sure_bind (sure_modify _) fun _ => answer) answer

theorem poll_sure (b : Bool) (id : Option SpaceId) : Sure (poll b id) := by
  refine sure_bind sure_get fun h => ?_
  dsimp only
  split
  · exact sure_pure _
  · refine sure_bind (collectionDue_sure b id) fun due => ?_
    split
    · exact sure_bind (sure_modify _) fun _ => sure_pure _
    · exact sure_pure _

theorem acquire_sure (id : SpaceId) (n : Word) : Sure (acquire id n) := by
  have refused : ∀ shortage, Sure (do report shortage; return (none : Option Address)) :=
    fun shortage => sure_bind (report_sure shortage) fun _ => sure_pure _
  refine sure_bind sure_get fun h => ?_
  split
  · exact refused .heap
  · refine sure_bind (sure_lift (Word.pagesUp_sure n)) fun pages =>
      sure_bind (onSpaces_sure (Spaces.onLedger_sure (Pages.Ledger.reserve_sure pages))) fun _ =>
      sure_bind (poll_sure false (some id)) fun due => ?_
    split
    · exact sure_bind (onSpaces_sure (Spaces.onLedger_sure (Pages.Ledger.withdraw_sure pages))) fun _ => sure_pure _
    · refine sure_bind (onSpaces_sure (Spaces.take_sure id pages n)) fun answer => ?_
      split
      · exact sure_pure _
      · refine sure_bind (poll_sure true (some id)) fun due => ?_
        split
        · exact sure_pure _
        · exact refused .heap
      · exact refused .commit

theorem acquireCells_sure (k : Nat) : Sure (acquireCells k) := by
  refine sure_bind (onMature_sure (sure_on (MarkSweepSpace.takeAvailable_sure k))) fun head => ?_
  cases head with
  | some head => exact sure_pure _
  | none =>
    refine sure_bind (acquire_sure .second _) fun start => ?_
    cases start with
    | none => exact sure_pure _
    | some start => exact sure_bind (onMature_sure (MarkSweepSpace.install_sure start k)) fun _ => sure_pure _

end Heap

namespace Request

theorem room_sure (r : Request) : Fault.Sure r.room :=
  Padding.maxAlignedSize_sure _ _

theorem isLarge_sure (r : Request) : Fault.Sure r.isLarge :=
  Fault.sure_bind (Padding.maxAlignedSize_sure _ _) fun _ => Fault.sure_pure _

end Request

namespace BumpAllocator

theorem carveInHeap_sure (r : Request) : Sure (carveInHeap r) := by
  refine sure_onBoth (sure_bind sure_get fun s => sure_bind (sure_lift (Padding.alignedStart_sure _ _ _)) fun start =>
    sure_bind (sure_lift (Address.above_sure _ _)) fun stop => ?_)
  split
  · exact sure_pure _
  · exact sure_bind (sure_modify _) fun _ => sure_pure _

theorem refill_sure (r : Request) : Sure (refill r) := by
  refine sure_bind (sure_lift r.room_sure) fun room => sure_bind sure_get fun s =>
    sure_bind (sure_on (Heap.acquire_sure _ _)) fun answer => ?_
  cases answer with
  | none => exact sure_pure _
  | some start =>
    exact sure_bind (sure_modify _) fun _ => sure_bind (sure_lift (Address.above_sure _ _)) fun _ =>
      sure_bind (sure_modify _) fun _ => sure_pure _

theorem alloc_sure (r : Request) : Sure (alloc r) := by
  refine sure_bind (carveInHeap_sure r) fun answer => ?_
  cases answer with
  | some start => exact sure_pure _
  | none =>
    refine sure_bind (refill_sure r) fun filled => ?_
    split
    · exact carveInHeap_sure r
    · exact sure_pure _

end BumpAllocator

namespace CellAllocator

theorem classOf_sure (h : Heap) (r : Request) : Fault.Sure (classOf h r) := by
  refine Fault.sure_bind r.room_sure fun room => ?_
  split
  · exact Fault.sure_pure _
  · exact Fault.sure_throw rfl

theorem popInHeap_sure (r : Request) (k : Nat) : Sure (popInHeap r k) :=
  sure_onBoth (sure_bind sure_get fun _ => sure_bind (sure_modify _) fun _ => sure_on (Padding.align_sure _ _ _))

theorem allocFresh_sure (r : Request) : Sure (allocFresh r) := by
  refine sure_bind sure_get fun s => sure_bind (sure_lift (classOf_sure s.2 r)) fun k =>
    sure_bind (sure_on (Heap.acquireCells_sure k)) fun head => ?_
  cases head with
  | none => exact sure_pure _
  | some head => exact sure_bind (sure_modify _) fun _ => sure_bind (popInHeap_sure r k) fun _ => sure_pure _

theorem alloc_sure (r : Request) : Sure (alloc r) := by
  refine sure_bind sure_get fun s => sure_bind (sure_lift (classOf_sure s.2 r)) fun k => ?_
  split
  · exact allocFresh_sure r
  · exact sure_bind (popInHeap_sure r k) fun _ => sure_pure _

end CellAllocator

namespace LargeAllocator

theorem alloc_sure (r : Request) : Sure (alloc r) := by
  refine sure_bind (sure_bind (sure_lift r.room_sure) fun _ => sure_bind (sure_lift (Word.pagesUp_sure _)) fun _ =>
    Heap.acquire_sure .large _) fun cell => ?_
  cases cell with
  | none => exact sure_pure _
  | some cell => exact sure_bind (sure_on (Padding.align_sure _ _ _)) fun _ => sure_pure _

end LargeAllocator

namespace AllocatorSet

theorem spaceOf_sure (s : AllocatorSet) (selector : AllocatorSelector) : Fault.Sure (s.spaceOf selector) := by
  unfold spaceOf
  split
  · split
    · exact Fault.sure_ok _
    · exact Fault.sure_error rfl
  · exact Fault.sure_ite (Fault.sure_ok _) (Fault.sure_error rfl)
  · exact Fault.sure_ite (Fault.sure_ok _) (Fault.sure_error rfl)
  · exact Fault.sure_error rfl

theorem alloc_sure (selector : AllocatorSelector) (r : Request) : Sure (alloc selector r) := by
  refine sure_bind (sure_ask fun s => spaceOf_sure s.1 selector) fun _ => ?_
  cases selector with
  | bump index => exact sure_onBoth (BumpAllocator.alloc_sure r)
  | cells index => exact sure_onBoth (CellAllocator.alloc_sure r)
  | large index => exact sure_on (LargeAllocator.alloc_sure r)
  | none => exact sure_fail rfl

end AllocatorSet

/-! ### Tracing -/

namespace Heap

theorem adoptCopy_sure (id : SpaceId) (a : Address) : Sure (adoptCopy id a) := by
  refine sure_bind sure_get fun h => ?_
  dsimp only
  split
  · exact onCopying_sure (sure_modify _)
  · exact onMature_sure (MarkSweepSpace.adoptCopy_sure a)
  · exact sure_fail rfl
  · exact onLarge_sure (LargeSpace.adopt_sure a false)

theorem adoptNew_sure (id : SpaceId) (a : Address) : Sure (adoptNew id a) := by
  refine sure_bind sure_get fun h => ?_
  dsimp only
  split
  · exact onCopying_sure (sure_modify _)
  · exact onMature_sure (sure_modify _)
  · exact onImmortal_sure (ImmortalSpace.adopt_sure a)
  · exact onLarge_sure (LargeSpace.adopt_sure a true)

end Heap

namespace CopyContext

theorem alloc_sure (a : Address) (r : Request) (semantics : CopySemantics) : Sure (alloc a r semantics) := by
  refine sure_bind (sure_lift r.isLarge_sure) fun large => sure_bind sure_get fun s =>
    sure_bind (sure_onBoth (AllocatorSet.alloc_sure _ r)) fun place => ?_
  cases place with
  | some place => exact sure_pure _
  | none => exact sure_bind sure_get fun t => sure_bind (sure_lift (AllocatorSet.spaceOf_sure _ _)) fun id => sure_throw rfl

theorem adopt_sure (a : Address) : Sure (adopt a) := by
  refine sure_bind sure_get fun s => ?_
  dsimp only
  split
  · exact sure_on (Heap.adoptCopy_sure _ a)
  · exact sure_throw rfl

theorem copy_sure (a : Address) (semantics : CopySemantics) : Sure (copy a semantics) :=
  sure_bind sure_get fun _ => sure_bind (alloc_sure a _ semantics) fun place => sure_bind (sure_on (sure_modify _)) fun _ =>
    sure_bind (adopt_sure place) fun _ => sure_pure _

theorem rebind_sure (c : CopyContext) (index : Nat) (id : SpaceId) : Fault.Sure (c.rebind index id) :=
  Fault.sure_ite (Fault.sure_error rfl) (Fault.sure_ok _)

end CopyContext

namespace Work

namespace Packets

theorem enter_sure {α : Type} : Sure (enter : Step (Packets α) Unit) :=
  sure_bind sure_get fun _ => sure_ensure rfl

theorem reset_sure {α : Type} (n : Word) : Sure (reset n : Step (Packets α) Unit) :=
  sure_bind enter_sure fun _ => sure_modify _

theorem breakOff_sure {α β : Type} {e : Fault} (plain : e.isLapse = false) : Sure (breakOff e : Step (Packets α) β) :=
  sure_bind (sure_modify _) fun _ => sure_throw plain

theorem push_sure {α : Type} (items : Array α) : Sure (push items) :=
  sure_ite (sure_pure _) <| sure_bind enter_sure fun _ => sure_bind sure_get fun _ =>
    sure_ite (sure_bind (breakOff_sure rfl) fun _ => sure_modify _) (sure_modify _)

theorem look_sure {α : Type} : Sure (look : Step (Packets α) (Taken α)) := by
  have told (q : Packets α) (answer : Taken α) : Sure (do set q; return answer) := sure_bind (sure_set q) fun _ => sure_pure _
  refine sure_bind sure_get fun q => ?_
  cases q.stack with
  | cons items rest => exact sure_ite (sure_bind (breakOff_sure rfl) fun _ => told _ _) (told _ _)
  | nil =>
    exact sure_ite (sure_bind (breakOff_sure rfl) fun _ => sure_ite (sure_pure _) (sure_ite (told _ _) (told _ _)))
      (sure_ite (sure_pure _) (sure_ite (told _ _) (told _ _)))

theorem pop_sure {α : Type} : Sure (pop : Step (Packets α) (Taken α)) := sure_bind enter_sure fun _ => look_sure

theorem resume_sure {α : Type} : Sure (resume : Step (Packets α) (Taken α)) :=
  sure_bind enter_sure fun _ => sure_bind (sure_modify _) fun _ => look_sure

theorem isEmpty_sure {α : Type} : Sure (isEmpty : Step (Packets α) Bool) :=
  sure_bind enter_sure fun _ => sure_bind sure_get fun _ => sure_pure _

end Packets

namespace Buffer

theorem flush_sure {α : Type} : Sure (flush : Step (Buffer α × Packets α) Unit) :=
  sure_bind sure_get fun _ => sure_ite (sure_pure _) <| sure_bind (sure_modify _) fun _ => sure_on (Packets.push_sure _)

theorem enqueue_sure {α : Type} (item : α) : Sure (enqueue item) :=
  sure_bind sure_get fun _ => sure_ite (sure_bind flush_sure fun _ => sure_modify _) (sure_modify _)

theorem unpack_sure {α : Type} (taken : Taken α) : Sure (unpack taken) := by
  cases taken with
  | nothing => exact sure_pure _
  | wait => exact sure_pure _
  | packet items =>
    refine sure_bind (sure_modify _) fun _ => ?_
    split
    · exact sure_pure _
    · exact sure_pure _

theorem dequeue_sure {α : Type} : Sure (dequeue : Step (Buffer α × Packets α) (Item α)) := by
  refine sure_bind sure_get fun s => ?_
  split
  · exact sure_bind (sure_modify _) fun _ => sure_pure _
  · exact sure_bind (sure_on Packets.pop_sure) unpack_sure

theorem resume_sure {α : Type} : Sure (resume : Step (Buffer α × Packets α) (Item α)) :=
  sure_bind (sure_on Packets.resume_sure) unpack_sure

end Buffer

namespace Backlog

theorem prepare_sure {σ α : Type} (n : Word) : Sure (prepare n : Step (Backlog σ α) Unit) :=
  sure_bind (sure_on (Packets.reset_sure n)) fun _ => sure_modify _

/-- Nothing is left when a backlog without work is released. -/
theorem release_sureAt {σ α : Type} [Inhabited σ] {b : Backlog σ α} (roots : b.roots = []) (stack : b.objects.stack = []) :
    SureAt release b := by
  refine SureAt.bind (sure_on Packets.isEmpty_sure _) fun done t ok => ?_
  simp only [Step.on_ok, objectsPart, Packets.isEmpty, Packets.enter, Step.bind_ok, Step.get_bind, Step.ensure_ok,
    Step.pure_ok] at ok
  obtain ⟨_, ⟨_, _, ⟨-, rfl⟩, rfl, rfl⟩, rfl⟩ := ok
  refine SureAt.get_bind ?_
  simp only [roots, stack, List.isEmpty_nil, Bool.and_self]
  exact sure_pure _ _

theorem pushRoots_sure {σ α : Type} (slots : Array σ) : Sure (pushRoots slots : Step (Backlog σ α) Unit) :=
  sure_ite (sure_pure _) (sure_modify _)

theorem popRoots_sure {σ α : Type} : Sure (popRoots : Step (Backlog σ α) (Option (Array σ))) := by
  refine sure_bind sure_get fun b => ?_
  split
  · exact sure_pure _
  · exact sure_bind (sure_modify _) fun _ => sure_pure _

theorem pushRemembered_sure {σ α : Type} (objects : Array α) : Sure (pushRemembered objects : Step (Backlog σ α) Unit) :=
  sure_ite (sure_pure _) (sure_modify _)

theorem popRemembered_sure {σ α : Type} : Sure (popRemembered : Step (Backlog σ α) (Option (Array α))) := by
  refine sure_bind sure_get fun b => ?_
  split
  · exact sure_pure _
  · exact sure_bind (sure_modify _) fun _ => sure_pure _

end Backlog

end Work

namespace Collector

theorem onQueue_sure {x : Step (Work.Buffer Address × Work.Packets Address) α} (inner : Sure x) : Sure (onQueue x) := sure_onBoth inner

theorem enqueue_sure (a : Address) : Sure (enqueue a) :=
  onQueue_sure (Work.Buffer.enqueue_sure a)

theorem reached_sure (a : Address) : Sure (reached a) :=
  sure_bind (sure_modify _) fun _ => enqueue_sure a

theorem evacuate_sure (id : SpaceId) (a : Address) (semantics : CopySemantics) : Sure (evacuate id a semantics) :=
  sure_bind (sure_onBoth (CopyContext.copy_sure a semantics)) fun copy =>
    sure_bind (sure_on (Heap.onCopying_sure (sure_bind (sure_on (Forwarding.publish_sure a copy)) fun _ => sure_modify _)))
      fun _ => sure_bind (sure_modify _) fun _ => sure_bind (enqueue_sure copy) fun _ => sure_pure _

theorem traceCopying_sure (id : SpaceId) (a : Address) (semantics : CopySemantics) : Sure (traceCopying id a semantics) := by
  have claim : Sure (do
      if !(← get).1.evacuating then return none
      return some (← Step.on (Focus.fst.comp CopySpace.forwardingPart) (Forwarding.claim a)) :
        Step (CopySpace × Memory) (Option UInt8)) :=
    sure_bind sure_get fun s => sure_ite (sure_pure _) <| sure_bind (sure_on (Forwarding.claim_sure a)) fun _ => sure_pure _
  refine sure_bind (sure_on (Heap.onCopying_sure claim)) fun answer => ?_
  cases answer with
  | none => exact sure_pure _
  | some state =>
    exact sure_ite (sure_on (Heap.onCopying_sure (sure_ask fun s => Forwarding.look_sure s.1.forwarding a state)))
      (sure_bind (evacuate_sure id a semantics) fun _ => sure_pure _)

theorem traceMature_sure (a : Address) : Sure (traceMature a) :=
  sure_bind (sure_on (Heap.onMature_sure (sure_on (MarkSweepSpace.claim_sure a)))) fun _ =>
    sure_ite (reached_sure a) (sure_pure _)

theorem traceImmortal_sure (a : Address) : Sure (traceImmortal a) :=
  sure_bind (sure_on (Heap.onImmortal_sure (sure_on (ImmortalSpace.claim_sure a)))) fun _ =>
    sure_ite (reached_sure a) (sure_pure _)

end Collector

namespace Share

theorem takeRemembered_sure (a : Address) : Sure (takeRemembered a) :=
  sure_bind (sure_modify _) fun _ => sure_bind sure_get fun _ => sure_pure _

theorem ofItem_sure (item : Work.Buffer.Item Address) : Sure (ofItem item) := by
  cases item with
  | item object => exact sure_bind sure_get fun _ => sure_pure _
  | nothing => exact sure_pure _
  | wait => exact sure_pure _

theorem proceed_sure (stage : Stage) : Sure (proceed stage) := by
  cases stage with
  | roots =>
    refine sure_bind (sure_on Work.Backlog.popRoots_sure) fun slots => ?_
    cases slots with
    | some slots => exact sure_pure _
    | none => exact sure_pure _
  | remembered =>
    refine sure_bind (sure_on Work.Backlog.popRemembered_sure) fun objects => ?_
    cases objects with
    | some objects => exact sure_pure _
    | none => exact sure_pure _
  | objects => exact sure_bind (Collector.onQueue_sure Work.Buffer.dequeue_sure) ofItem_sure
  | waiting => exact sure_bind (Collector.onQueue_sure Work.Buffer.resume_sure) ofItem_sure
  | finished => exact sure_pure _

end Share

/-! ### Phases -/

namespace Heap

theorem wantsFull_sure (h : Heap) : Fault.Sure h.wantsFull := by
  have last : Fault.Sure (do return (← h.pagesTotal) ≤ (← h.pagesReserved) : Except Fault Bool) :=
    Fault.sure_bind h.pagesTotal_sure fun _ => Fault.sure_bind h.pagesReserved_sure fun _ => Fault.sure_pure _
  exact Fault.sure_ite (Fault.sure_pure _) <| Fault.sure_ite (Fault.sure_pure _) <| Fault.sure_ite (Fault.sure_pure _) last

theorem flush_sure (index : Nat) : Sure (flush index) :=
  sure_bind (onMutator_sure (sure_modifyGet _)) fun _ => sure_on (Work.Backlog.pushRemembered_sure _)

theorem phaseOfMutator_sure (phase : Phase) (index : Nat) : Sure (phaseOfMutator phase index) := by
  cases phase with
  | prepare =>
    refine sure_bind (flush_sure index) fun _ => sure_bind sure_get fun h => ?_
    split
    · exact sure_ite (sure_pure _) (onMutator_sure (sure_modify _))
    · exact sure_pure _
  | release => exact sure_bind sure_get fun _ => onMutator_sure (sure_modify _)
  | roots => exact sure_throw rfl
  | closure => exact sure_throw rfl

theorem mutatorPhase_sure (phase : Phase) : Sure (mutatorPhase phase) :=
  sure_bind sure_get fun _ => sure_forM fun index => phaseOfMutator_sure phase index

end Heap

namespace Collector

variable {c : Collector} {h : Heap}

/-- A collector that is outside of collections can be prepared. -/
theorem prepare_sureAt (idle : c.state = .unused ∨ c.state = .released) : SureAt prepare (c, h) := by
  refine SureAt.get_bind ?_
  rcases idle with state | state
  all_goals
    simp only [state]
    refine SureAt.bind (sure_modify _ _) fun _ t _ => ?_
    cases h.plan with
    | generational => exact sure_pure _ t
    | semispace => exact sure_bind (sure_lift (CopyContext.rebind_sure _ _ _)) (fun _ => sure_modify _) t

/-- One that was prepared can look for roots. -/
theorem findRoots_sureAt (prepared : c.state = .prepared) : SureAt findRoots (c, h) := by
  refine SureAt.get_bind ?_
  simp only [prepared, if_true]
  split
  · exact sure_forM (fun packet => sure_on (Work.Backlog.pushRoots_sure packet)) _
  · exact sure_pure _ _

/-- It can begin a closure too. -/
theorem beginClosure_sureAt (prepared : c.state = .prepared) : SureAt beginClosure (c, h) := by
  refine SureAt.get_bind ?_
  simp only [prepared]
  exact sure_modify _ _

/-- One that has ended a closure, with nothing left to scan, can be released. -/
theorem release_sureAt (closing : c.state = .closing) (empty : c.buffer = #[]) : SureAt release (c, h) := by
  refine SureAt.get_bind ?_
  dsimp only
  split
  · refine SureAt.bind (sure_modify _ _) fun _ t same => ?_
    cases same
    refine SureAt.get_bind ?_
    simp only [closing, empty, if_true, Array.isEmpty_empty]
    exact sure_modify _ _
  · refine SureAt.get_bind ?_
    simp only [closing, empty, if_true, Array.isEmpty_empty]
    exact sure_modify _ _

end Collector

/-! ### Operations of the program and its threads -/

namespace AllocatorSet

theorem bindOne_sure (spaces : Spaces) {unbound : Fault} (plain : unbound.isLapse = false) (s : AllocatorSet)
    (selector : AllocatorSelector) (id : SpaceId) : Fault.Sure (bindOne spaces unbound s selector id) := by
  have order (index : UInt8) (bound : Nat) : Fault.Sure (checkOrder index bound) :=
    Fault.sure_ite (Fault.sure_ok _) (Fault.sure_error rfl)
  cases selector with
  | bump index => exact Fault.sure_bind (order _ _) fun _ => Fault.sure_pure _
  | cells index =>
    refine Fault.sure_bind (order _ _) fun _ => ?_
    split
    · exact Fault.sure_pure _
    · exact Fault.sure_throw rfl
  | large index =>
    refine Fault.sure_bind (order _ _) fun _ => ?_
    split
    · exact Fault.sure_pure _
    · exact Fault.sure_throw rfl
  | none => exact Fault.sure_throw plain

theorem bind_sure (spaces : Spaces) {unbound : SpaceId → Fault} (plain : ∀ id, (unbound id).isLapse = false)
    (entries : List (AllocatorSelector × SpaceId)) : Fault.Sure (bind spaces unbound entries) :=
  Fault.sure_foldlM (fun s _ => bindOne_sure spaces (plain _) s _ _) entries _

end AllocatorSet

namespace Heap

theorem newMutator_sure (h : Heap) (thread : Address) : Fault.Sure (h.newMutator thread) :=
  Fault.sure_bind (AllocatorSet.bind_sure _ (fun _ => rfl) _) fun _ => Fault.sure_pure _

theorem newCollectors_sure (h : Heap) (count : Nat) : Fault.Sure (h.newCollectors count) := by
  have each : ∀ ordinal, Fault.Sure (h.newCollector ordinal) := fun ordinal =>
    Fault.sure_bind (Fault.sure_bind (AllocatorSet.bind_sure _ (fun _ => rfl) _) fun _ => Fault.sure_pure _) fun _ =>
      Fault.sure_pure _
  have all := Fault.sure_mapM each (Array.range count)
  exact Fault.sure_ite (Fault.sure_bind (Fault.sure_throw rfl) fun _ => all) all

theorem setCollectors_sure (group : Array Collector) : Sure (setCollectors group) :=
  sure_bind sure_get fun _ => sure_bind (sure_ensure rfl) fun _ =>
    sure_ite (sure_bind (sure_modify _) fun _ => sure_bind (sure_throw rfl) fun _ => sure_modify _) (sure_modify _)

theorem start_sure : Sure start :=
  sure_bind sure_get fun _ => sure_bind (sure_ensure rfl) fun _ => sure_bind (sure_modify _) fun _ =>
    sure_bind (sure_ask fun h => newCollectors_sure h h.settings.threads.toNat) fun group =>
      sure_bind (setCollectors_sure group) fun _ => sure_modify _

theorem withAllocators_sure {x : Step (AllocatorSet × Heap) α} (inner : Sure x) (index : Nat) : Sure (withAllocators index x) := by
  intro h e t same
  simp only [withAllocators] at same
  split at same
  · cases same
  · rename_i ran
    cases same
    exact inner _ _ _ ran

theorem store_sure (index : Nat) (object place target : Address) : Sure (Heap.store index object place target) := by
  have remembered : Sure (remember index object) := by
    refine sure_bind sure_get fun h => sure_ite ?_ (sure_pure _)
    exact sure_bind (sure_modify _) fun _ => sure_bind (onMutator_sure (sure_modify _)) fun _ => sure_bind sure_get fun _ =>
      sure_ite (flush_sure index) (sure_pure _)
  refine sure_bind (sure_modify _) fun _ => sure_bind sure_get fun h => ?_
  split
  · exact remembered
  · exact sure_pure _

/-- No operation of the program or its threads breaks off because the heap has lost its way. -/
theorem Operation.step_plain (op : Operation) : Sure op.step := by
  cases op with
  | start => exact start_sure
  | bind thread => exact sure_bind (sure_ask fun h => newMutator_sure h thread) fun _ => sure_modify _
  | destroy index => exact sure_bind (flush_sure index) fun _ => sure_modify _
  | flush index => exact flush_sure index
  | attempt index selector r => exact sure_discard (withAllocators_sure (AllocatorSet.alloc_sure selector r) index)
  | giveUp => exact sure_discard (sure_bind (sure_modify _) fun _ => sure_bind (report_sure _) fun _ => sure_pure _)
  | adopt index object =>
    refine sure_bind sure_get fun h => ?_
    dsimp only
    split
    · exact adoptNew_sure _ object
    · exact sure_throw rfl
  | store index object place target => exact store_sure index object place target
  | write memory roots => exact sure_modify _
  | demand space spaceFull byUser => exact sure_modify _
  | drop => exact sure_modify _
  | poll spaceFull space => exact sure_discard (poll_sure spaceFull space)
  | requireFull => exact sure_modify _
  | setEmergency on => exact sure_modify _
  | disable => exact sure_modify _

/-- No operation of the program or its threads breaks off because something was lost track of. -/
theorem Operation.step_sure (op : Operation) (h : Heap) (e : Fault) (h' : Heap) (broken : op.step h = .error e h') :
    e.isAstray = false := (Fault.isLapse_false.mp (op.step_plain h e h' broken)).1

end Heap

end TracingHeap
