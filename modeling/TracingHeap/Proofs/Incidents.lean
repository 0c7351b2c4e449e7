import TracingHeap.Proofs.Reaches

/-! What happens between two collections and bears on the kind of the second one. Demands for a collection, and
reasons for it to cover the whole heap, come from polls and from the program itself; whatever else the program
does leaves them alone. So a heap knows, of all that has happened, just what the next collection asks for. -/

namespace TracingHeap

open Step

/-- Something that bears on the kind of the next collection. -/
inductive Incident where
  /-- A poll for a space or for none, with the nursery within its limit or not. One that breaks off has no answer. -/
  | polled (spaceFull : Bool) (space : Option SpaceId) (roomy : Bool) (answer : Option Bool)
  | demanded (space : Option SpaceId) (spaceFull byUser : Bool)
  /-- No collection is wanted any more, though none took place. -/
  | dropped
  /-- The program requires that the whole heap be covered. -/
  | required
  /-- Collections have failed to make room, or no longer do. -/
  | emergency (on : Bool)
  deriving DecidableEq

namespace Incident

/-- The space for which a collection is wanted, if it is for one, and whether that is full. -/
def demand? : Incident → Option (Option SpaceId × Bool)
  | polled spaceFull space _ (some true) => some (space, spaceFull)
  | demanded space spaceFull _ => some (space, spaceFull)
  | _ => none

/-- Did the program ask for a collection? -/
def isUsers : Incident → Bool
  | demanded _ _ byUser => byUser
  | _ => false

/-- Whatever is wanted, will the next collection cover the whole heap? A poll sees to that if a space other than the
nursery is full, unless it finds the nursery beyond its limit. -/
def forces : Incident → Bool
  | polled spaceFull space roomy answer => spaceFull && space != some .first && roomy && answer != some false
  | required => true
  | _ => false

/-- What it says about collections that failed. -/
def emergency? : Incident → Option Bool
  | emergency on => some on
  | _ => none

/-- What has happened since demands were dropped. -/
def standing (es : List Incident) : List Incident := (es.reverse.takeWhile (· ≠ dropped)).reverse

/-- The first demand that stands. -/
def pending (es : List Incident) : Option (Option SpaceId × Bool) := (standing es).findSome? demand?

/-- Is it said that collections have failed? -/
def failing (es : List Incident) : Bool := (es.reverse.findSome? emergency?).getD false

theorem standing_dropped (es : List Incident) : standing (es ++ [dropped]) = [] := by
  simp [standing]

theorem standing_append {e : Incident} (stays : e ≠ dropped) (es : List Incident) : standing (es ++ [e]) = standing es ++ [e] := by
  simp [standing, stays]

theorem mem_of_standing {e : Incident} {es : List Incident} (member : e ∈ standing es) : e ∈ es :=
  List.mem_reverse.mp ((List.takeWhile_sublist _).subset (List.mem_reverse.mp member))

/-- The first demand that stands was made. -/
theorem made_of_pending {es : List Incident} {demand : Option SpaceId × Bool} (first : pending es = some demand) :
    ∃ e ∈ es, e.demand? = some demand := by
  obtain ⟨e, member, asks⟩ := List.exists_of_findSome?_eq_some first
  exact ⟨e, mem_of_standing member, asks⟩

theorem failing_append (es : List Incident) (e : Incident) : failing (es ++ [e]) = e.emergency?.getD (failing es) := by
  cases said : e.emergency? with
  | none => simp [failing, said]
  | some on => simp [failing, said]

/-- No poll that finds the nursery beyond its limit or breaks off, and no demand of the program for a space. -/
def Plain : Incident → Prop
  | polled _ _ roomy answer => roomy = true ∧ answer ≠ none
  | demanded space _ _ => space = none
  | _ => True

theorem Plain.forces_iff {e : Incident} (plain : e.Plain) : e.forces = true ↔
    (∃ space, space ≠ some .first ∧ e = .polled true space true (some true)) ∨ e = .required := by
  cases e with
  | polled spaceFull space roomy answer =>
    obtain ⟨rfl, answered⟩ := plain
    obtain ⟨due, rfl⟩ := Option.ne_none_iff_exists'.mp answered
    cases due <;> simp [forces, and_comm]
  | required => simp [forces]
  | demanded => simp [forces]
  | dropped => simp [forces]
  | emergency => simp [forces]

/-- A plain demand for a full space was made by a poll. -/
theorem Plain.forces_of_demand {e : Incident} {space : SpaceId} (plain : e.Plain) (other : space ≠ .first)
    (asks : e.demand? = some (some space, true)) : e.forces = true := by
  cases e with
  | polled spaceFull space' roomy answer =>
    obtain ⟨rfl, answered⟩ := plain
    obtain ⟨due, rfl⟩ := Option.ne_none_iff_exists'.mp answered
    cases due with
    | false => cases asks
    | true =>
      cases asks
      simp [forces, other]
  | demanded space' spaceFull byUser =>
    cases plain
    cases asks
  | required => cases asks
  | dropped => cases asks
  | emergency => cases asks

/-- A demand for collections after an incident that drops none. What was wanted first stays the cause. -/
def enter (e : Incident) (d : Demand) : Demand :=
  let asked := match e.demand? with
    | some (space, spaceFull) => d.request (space.map SpaceId.tag) spaceFull false
    | none => d
  { asked with byUser := d.byUser || e.isUsers, emergency := e.emergency?.getD d.emergency }

/-- Unless nothing is due, a poll forces what its space and the nursery are reasons for. -/
theorem forces_polled {spaceFull roomy : Bool} {space : Option SpaceId} {answer : Option Bool} (due : answer ≠ some false) :
    (polled spaceFull space roomy answer).forces = (spaceFull && space != some .first && roomy) := by
  rw [forces, bne_iff_ne.mpr due, Bool.and_true]

/-- A poll that finds the nursery beyond its limit says no more than that a collection is due. -/
example : (polled true none false (some true)).forces = false := rfl

/-- A poll demands a collection if one is due. -/
theorem enter_polled {spaceFull roomy : Bool} {space : Option SpaceId} {answer : Option Bool} (d : Demand) :
    (polled spaceFull space roomy answer).enter d =
      if answer = some true then d.request (space.map SpaceId.tag) spaceFull false else d := by
  cases answer with
  | none => simp [enter, demand?, isUsers, emergency?]
  | some due =>
    cases due with
    | false => simp [enter, demand?, isUsers, emergency?]
    | true =>
      simp only [enter, demand?, isUsers, emergency?, Bool.or_false, Option.getD_none, Demand.request, if_true]
      cases d.wanted <;> rfl

end Incident

open Incident

namespace Heap

/-- The nursery is within its limit. -/
def roomy (h : Heap) : Bool :=
  match h.plan, h.settings.maxNurseryPages with
  | .generational, .ok most => h.reservedBy .first ≤ most
  | _, _ => false

/-- A poll as an incident. -/
def polling (h : Heap) (spaceFull : Bool) (space : Option SpaceId) : Incident :=
  .polled spaceFull space h.roomy ((poll spaceFull space).answer h)

/-- From one heap to another there were these incidents, in this order. -/
inductive Notes (h₀ : Heap) : List Incident → Heap → Prop where
  | start : Notes h₀ [] h₀
  /-- Nothing is demanded or dropped, though collections may be enabled. -/
  | quiet {es : List Incident} {h h' : Heap} (notes : Notes h₀ es h)
    (demand : { h'.demand with started := h.demand.started } = h.demand) (nextFull : h'.scope.nextFull = h.scope.nextFull) :
    Notes h₀ es h'
  | polled {es : List Incident} {h : Heap} (notes : Notes h₀ es h) (spaceFull : Bool) (space : Option SpaceId) :
    Notes h₀ (es ++ [h.polling spaceFull space]) ((poll spaceFull space).left h)
  | demanded {es : List Incident} {h : Heap} (notes : Notes h₀ es h) (space : Option SpaceId) (spaceFull byUser : Bool) :
    Notes h₀ (es ++ [.demanded space spaceFull byUser]) ((demandCollection space spaceFull byUser).left h)
  | dropped {es : List Incident} {h : Heap} (notes : Notes h₀ es h) :
    Notes h₀ (es ++ [.dropped]) { h with demand := h.demand.dropped }
  | required {es : List Incident} {h : Heap} (notes : Notes h₀ es h) : Notes h₀ (es ++ [.required]) (requireFull.left h)
  | emergency {es : List Incident} {h : Heap} (notes : Notes h₀ es h) (on : Bool) :
    Notes h₀ (es ++ [.emergency on]) ((setEmergency on).left h)

/-! ### Operations -/

/-- There were some incidents from one heap to another. -/
def Noted (h₀ h : Heap) : Prop := ∃ es, Notes h₀ es h

variable {h₀ h h' : Heap} {α : Type}

theorem Noted.quiet (noted : Noted h₀ h) (demand : { h'.demand with started := h.demand.started } = h.demand)
    (nextFull : h'.scope.nextFull = h.scope.nextFull) : Noted h₀ h' := by
  obtain ⟨es, notes⟩ := noted
  exact ⟨es, notes.quiet demand nextFull⟩

theorem noted_poll (spaceFull : Bool) (space : Option SpaceId) : Keeps (Noted h₀) (poll spaceFull space) := by
  rintro h ⟨es, notes⟩
  exact ⟨_, notes.polled spaceFull space⟩

theorem noted_report (shortage : Shortage) : Keeps (Noted h₀) (report shortage) :=
  keeps_bind (keeps_modify fun _ noted => noted.quiet rfl rfl) fun _ => keeps_get_bind fun _ => keeps_ensure _ _

theorem noted_dropped (noted : Noted h₀ h) : Noted h₀ { h with demand := h.demand.dropped } := by
  obtain ⟨es, notes⟩ := noted
  exact ⟨_, notes.dropped⟩

theorem noted_onSpaces (x : Step (Spaces × Memory) α) : Keeps (Noted h₀) (onSpaces x) :=
  keeps_onBoth_any x fun _ _ _ noted => noted.quiet rfl rfl

/-- Requests for memory ask whether a collection is due, and do nothing else about it. -/
theorem noted_lasting : Lasting (Noted h₀) where
  memory _ _ noted := noted.quiet rfl rfl
  ledger _ _ := noted_onSpaces _
  take _ _ _ := noted_onSpaces _
  available _ := noted_onSpaces _
  install _ _ := noted_onSpaces _
  poll := noted_poll
  report := noted_report

theorem noted_flush (index : Nat) : Keeps (Noted h₀) (flush index) :=
  keeps_bind (keeps_on_any _ fun _ _ noted => noted.quiet rfl rfl) fun _ => keeps_on_any _ fun _ _ noted => noted.quiet rfl rfl

theorem noted_start : Keeps (Noted h₀) start := by
  refine keeps_get_bind fun h => keeps_bind (keeps_ensure _ _) fun _ => keeps_bind (keeps_modify fun _ noted => noted.quiet rfl rfl)
    fun _ => keeps_bind (keeps_ask _) fun group => keeps_bind ?_ fun _ => keeps_modify fun _ noted => noted.quiet rfl rfl
  refine keeps_get_bind fun h => keeps_bind (keeps_ensure _ _) fun _ => ?_
  have set : Keeps (Noted h₀) (modify fun h : Heap => { h with collectors := some group }) :=
    keeps_modify fun _ noted => noted.quiet rfl rfl
  exact keeps_ite (keeps_bind (keeps_modify fun _ noted => noted.quiet rfl rfl) fun _ => keeps_bind (keeps_throw _) fun _ => set) set

theorem noted_adopt (index : Nat) (object : Address) : Keeps (Noted h₀) (adoptAllocated index object) := by
  refine keeps_get_bind fun h => ?_
  dsimp only
  split
  · refine keeps_get_bind fun h => ?_
    split
    · exact noted_onSpaces _
    · exact noted_onSpaces _
    · exact keeps_onBoth_any _ fun _ _ _ noted => noted.quiet rfl rfl
    · exact keeps_onBoth_any _ fun _ _ _ noted => noted.quiet rfl rfl
  · exact keeps_throw _

theorem noted_store (index : Nat) (object place target : Address) : Keeps (Noted h₀) (Heap.store index object place target) := by
  refine keeps_bind (keeps_modify fun _ noted => noted.quiet rfl rfl) fun _ => keeps_get_bind fun h => ?_
  split
  · refine keeps_get_bind fun h => keeps_ite (keeps_bind (keeps_modify fun _ noted => noted.quiet rfl rfl) fun _ =>
      keeps_bind (keeps_on_any _ fun _ _ noted => noted.quiet rfl rfl) fun _ => keeps_get_bind fun h => ?_) (keeps_pure _)
    exact keeps_ite (noted_flush _) (keeps_pure _)
  · exact keeps_pure _

/-- Whatever an operation comes to, there were incidents that tell what it did to the demand for collections. -/
theorem Operation.noted (op : Operation) : Keeps (Noted h₀) op.step := by
  cases op with
  | start => exact noted_start
  | bind thread => exact keeps_bind (keeps_ask _) fun _ => keeps_modify fun _ noted => noted.quiet rfl rfl
  | destroy mutator => exact keeps_bind (noted_flush mutator) fun _ => keeps_modify fun _ noted => noted.quiet rfl rfl
  | flush mutator => exact noted_flush mutator
  | attempt mutator selector r =>
    exact keeps_map (withAllocators_keeps mutator (fun _ _ noted => noted.quiet rfl rfl) (AllocatorSet.alloc_keeps noted_lasting _ _))
  | giveUp =>
    exact keeps_map (keeps_bind (keeps_modify fun _ noted => noted_dropped noted) fun _ => keeps_bind (noted_report _) fun _ => keeps_pure _)
  | adopt mutator object => exact noted_adopt mutator object
  | store mutator object place target => exact noted_store mutator object place target
  | write memory roots => exact keeps_modify fun _ noted => noted.quiet rfl rfl
  | demand space spaceFull byUser =>
    rintro h ⟨es, notes⟩
    exact ⟨_, notes.demanded space spaceFull byUser⟩
  | drop => exact keeps_modify fun _ noted => noted_dropped noted
  | poll spaceFull space => exact keeps_map (noted_poll spaceFull space)
  | requireFull =>
    rintro h ⟨es, notes⟩
    exact ⟨_, notes.required⟩
  | setEmergency on =>
    rintro h ⟨es, notes⟩
    exact ⟨_, notes.emergency on⟩
  | disable => exact keeps_modify fun _ noted => noted.quiet rfl rfl

/-! ### What the heap knows of them -/

/-- What a heap knows of the incidents since a collection; `short` says that this left too little room. -/
structure Heeds (h : Heap) (short : Bool) (es : List Incident) : Prop where
  wanted : h.demand.wanted = (pending es).isSome
  cause : h.demand.cause = (((pending es).bind Prod.fst).map SpaceId.tag).getD .none
  spaceFull : ∀ space spaceFull, pending es = some (space, spaceFull) → h.demand.spaceFull = spaceFull
  byUser : h.demand.byUser = (standing es).any isUsers
  emergency : h.demand.emergency = failing es
  nextFull : h.scope.nextFull = (short || es.any forces)

variable {short : Bool} {es : List Incident}

theorem Heeds.quiet (heeds : h.Heeds short es) (demand : { h'.demand with started := h.demand.started } = h.demand)
    (nextFull : h'.scope.nextFull = h.scope.nextFull) : h'.Heeds short es where
  wanted := (congrArg Demand.wanted demand).trans heeds.wanted
  cause := (congrArg Demand.cause demand).trans heeds.cause
  spaceFull space spaceFull first := (congrArg Demand.spaceFull demand).trans (heeds.spaceFull space spaceFull first)
  byUser := (congrArg Demand.byUser demand).trans heeds.byUser
  emergency := (congrArg Demand.emergency demand).trans heeds.emergency
  nextFull := nextFull.trans heeds.nextFull

/-- An incident that drops no demand. -/
theorem Heeds.append {e : Incident} (heeds : h.Heeds short es) (stays : e ≠ .dropped)
    (demand : h'.demand = e.enter h.demand) (nextFull : h'.scope.nextFull = (h.scope.nextFull || e.forces)) :
    h'.Heeds short (es ++ [e]) := by
  have single : [e].findSome? demand? = e.demand? := by
    cases asks : e.demand? <;> simp [asks]
  have first : pending (es ++ [e]) = (pending es).or e.demand? := by
    rw [pending, standing_append stays, List.findSome?_append, single, pending]
  have byUser : h'.demand.byUser = (standing (es ++ [e])).any isUsers := by
    rw [demand, standing_append stays, List.any_append, ← heeds.byUser, List.any_cons, List.any_nil, Bool.or_false]
    rfl
  have emergency : h'.demand.emergency = failing (es ++ [e]) := by
    rw [demand, failing_append, ← heeds.emergency]
    rfl
  have nextFull : h'.scope.nextFull = (short || (es ++ [e]).any forces) := by
    rw [nextFull, heeds.nextFull, List.any_append, List.any_cons, List.any_nil, Bool.or_false, Bool.or_assoc]
  cases before : pending es with
  | some pair =>
    -- What is wanted already stays the reason.
    have wanted : h.demand.wanted = true := by rw [heeds.wanted, before]; rfl
    have same : e.enter h.demand = { h.demand with
        byUser := h.demand.byUser || e.isUsers, emergency := e.emergency?.getD h.demand.emergency } := by
      rw [enter]
      cases e.demand? with
      | none => rfl
      | some pair => simp [Demand.request, wanted]
    rw [before, Option.some_or] at first
    refine ⟨?_, ?_, ?_, byUser, emergency, nextFull⟩
    · rw [demand, same, first]
      exact wanted
    · rw [demand, same, first, ← before]
      exact heeds.cause
    · intro space spaceFull found
      rw [demand, same]
      exact heeds.spaceFull space spaceFull (before.trans (first.symm.trans found))
  | none =>
    have unwanted : h.demand.wanted = false := by rw [heeds.wanted, before]; rfl
    have none : h.demand.cause = .none := by rw [heeds.cause, before]; rfl
    rw [before, Option.none_or] at first
    refine ⟨?_, ?_, fun space spaceFull found => ?_, byUser, emergency, nextFull⟩
    · rw [first, demand, enter]
      cases e.demand? <;> simp [Demand.request, unwanted]
    · rw [first, demand, enter]
      cases e.demand? <;> simp [Demand.request, unwanted, none]
    · rw [demand, enter, first.symm.trans found]
      simp [Demand.request, unwanted]

theorem Heeds.dropped (heeds : h.Heeds short es) : Heeds { h with demand := h.demand.dropped } short (es ++ [.dropped]) := by
  refine ⟨?_, ?_, ?_, ?_, ?_, ?_⟩
  · simp [pending, standing_dropped, Demand.dropped]
  · simp [pending, standing_dropped, Demand.dropped]
  · simp [pending, standing_dropped]
  · simp [standing_dropped, Demand.dropped]
  · rw [failing_append, ← heeds.emergency]
    rfl
  · rw [List.any_append, List.any_cons, List.any_nil, Bool.or_false, ← Bool.or_assoc, ← heeds.nextFull]
    simp [forces]

/-- The heap once a poll has seen to it that the next collection covers all of it, if it does. -/
def warned (h : Heap) (spaceFull : Bool) (space : Option SpaceId) : Heap :=
  { h with scope.nextFull := h.scope.nextFull || (spaceFull && space != some .first && h.roomy) }

/-- A full space is a reason for a collection, and for one of the whole heap. -/
theorem collectionDue_eq (h : Heap) (spaceFull : Bool) (space : Option SpaceId) :
    (∃ e, collectionDue spaceFull space h = .error e (h.warned spaceFull space)) ∨
      ∃ due, collectionDue spaceFull space h = .ok due (h.warned spaceFull space) ∧ (spaceFull = true → due = true) := by
  have exceeded : ∀ g : Heap, (∃ e, (do let exceeded ← Step.ask overBudget; return spaceFull || exceeded : Step Heap Bool) g = .error e g) ∨
      ∃ due, (do let exceeded ← Step.ask overBudget; return spaceFull || exceeded : Step Heap Bool) g = .ok due g ∧
        (spaceFull = true → due = true) := by
    intro g
    cases beyond : g.overBudget with
    | error e => exact .inl ⟨e, by simp only [bind, EStateM.bind, Step.ask, beyond]⟩
    | ok b =>
      refine .inr ⟨spaceFull || b, by simp only [bind, EStateM.bind, Step.ask, beyond]; rfl, fun full => ?_⟩
      rw [full, Bool.true_or]
  have same : h.roomy = false → h.warned spaceFull space = h := fun crowded => by
    rw [warned, crowded, Bool.and_false, Bool.or_false]
  rw [collectionDue, Step.get_bind]
  cases plan : h.plan with
  | semispace =>
    rw [same (by rw [roomy, plan])]
    exact exceeded h
  | generational =>
    cases limit : h.settings.maxNurseryPages with
    | error e =>
      rw [same (by rw [roomy, plan, limit])]
      exact .inl ⟨e, rfl⟩
    | ok most =>
      have read : ∀ f : Word → Step Heap Bool, (liftM (Except.ok most : Except Fault Word) >>= f) h = f most h := fun _ => rfl
      have room : h.roomy = decide (h.reservedBy .first ≤ most) := by rw [roomy, plan, limit]
      simp only [read]
      by_cases crowded : most < h.reservedBy .first
      · rw [if_pos crowded, same (room.trans (decide_eq_false (UInt64.not_le.mpr crowded)))]
        exact .inr ⟨true, rfl, fun _ => rfl⟩
      · rw [if_neg crowded]
        have roomy : h.roomy = true := room.trans (decide_eq_true (UInt64.not_lt.mp crowded))
        rw [warned, roomy, Bool.and_true]
        cases full : spaceFull && space != some .first with
        | false =>
          rw [if_neg Bool.false_ne_true, Bool.or_false]
          exact exceeded h
        | true =>
          rw [if_pos rfl, Bool.or_true]
          exact exceeded { h with scope.nextFull := true }

/-- What a poll does. -/
theorem poll_left (h : Heap) (spaceFull : Bool) (space : Option SpaceId) : (poll spaceFull space).left h = { h with
    demand := (h.polling spaceFull space).enter h.demand
    scope.nextFull := h.scope.nextFull || (h.polling spaceFull space).forces } := by
  cases asks : !h.armed || !h.demand.enabled with
  | true =>
    have silent : poll spaceFull space h = .ok false h := by
      rw [poll, Step.get_bind, if_pos asks]
      rfl
    rw [left_ok silent, polling, answer, silent]
    simp [enter_polled, forces]
  | false =>
    have asked : poll spaceFull space h = (collectionDue spaceFull space >>= fun due => do
        if due then demandCollection space spaceFull false
        return due) h := by
      rw [poll, Step.get_bind, if_neg (by rw [asks]; exact Bool.false_ne_true)]
    rcases collectionDue_eq h spaceFull space with ⟨e, broke⟩ | ⟨due, decided, full⟩
    · have broke : poll spaceFull space h = .error e (h.warned spaceFull space) := by
        rw [asked]
        simp only [bind, EStateM.bind, broke]
      rw [left_error broke, polling, answer, broke]
      simp [enter_polled, forces_polled, warned]
    · cases due with
      | false =>
        obtain rfl : spaceFull = false := by
          cases spaceFull with
          | false => rfl
          | true => exact (full rfl).symm
        have answered : poll false space h = .ok false (h.warned false space) := by
          rw [asked]
          simp only [bind, EStateM.bind, decided]
          rfl
        rw [left_ok answered, polling, answer, answered]
        simp [enter_polled, warned, forces]
      | true =>
        have answered : poll spaceFull space h = .ok true { h.warned spaceFull space with
            demand := h.demand.request (space.map SpaceId.tag) spaceFull false } := by
          rw [asked]
          simp only [bind, EStateM.bind, decided]
          rfl
        rw [left_ok answered, polling, answer, answered]
        simp [enter_polled, forces_polled, warned]

/-- A heap knows of every incident that there was. -/
theorem Notes.heeds {earlier : List Incident} (notes : Notes h₀ es h) (before : h₀.Heeds short earlier) :
    h.Heeds short (earlier ++ es) := by
  induction notes with
  | start => rwa [List.append_nil]
  | quiet _ demand nextFull ih => exact ih.quiet demand nextFull
  | @polled _ h _ spaceFull space ih =>
    rw [← List.append_assoc]
    refine ih.append (fun bad => by cases bad) ?_ ?_
    · rw [poll_left]
    · rw [poll_left]
  | @demanded _ h _ space spaceFull byUser ih =>
    rw [← List.append_assoc]
    refine ih.append (fun bad => by cases bad) ?_ (Bool.or_false _).symm
    change h.demand.request _ spaceFull byUser = _
    simp only [enter, demand?, isUsers, emergency?, Option.getD_none, Demand.request]
    cases h.demand.wanted <;> cases byUser <;> simp
  | dropped _ ih =>
    rw [← List.append_assoc]
    exact ih.dropped
  | @required _ h _ ih =>
    rw [← List.append_assoc]
    refine ih.append (fun bad => by cases bad) ?_ (Bool.or_true _).symm
    change h.demand = _
    simp [enter, demand?, isUsers, emergency?]
  | @emergency _ h _ on ih =>
    rw [← List.append_assoc]
    refine ih.append (fun bad => by cases bad) ?_ (Bool.or_false _).symm
    change { h.demand with emergency := on } = _
    simp [enter, demand?, isUsers, emergency?]

/-- No page is left beside those in use and held back. -/
def Exhausted (h : Heap) : Prop :=
  ∃ total reserved, h.pagesTotal = .ok total ∧ h.pagesReserved = .ok reserved ∧ total ≤ reserved

/-- Why the next collection covers the whole heap. -/
inductive Reason (h : Heap) (short : Bool) (es : List Incident) : Prop where
  /-- The program asked for it, and the settings have such collections cover the whole heap. -/
  | asked {e : Incident} (setting : h.settings.fullOnRequest = true) (member : e ∈ standing es) (users : e.isUsers = true)
  | failing (on : Incident.failing es = true)
  /-- The last collection left too little room. -/
  | short (left : short = true)
  | forced {e : Incident} (member : e ∈ es) (forces : e.forces = true)
  /-- The first demand that stands is for a full space other than the nursery. -/
  | pending {space : SpaceId} (other : space ≠ .first) (first : Incident.pending es = some (some space, true))
  /-- Not everything in the nursery could be promoted. -/
  | exhausted (most : h.Exhausted)

theorem wantsFull_iff {full : Bool} (ok : h.wantsFull = .ok full) : full = true ↔
    h.demand.byUser = true ∧ h.settings.fullOnRequest = true ∨ h.scope.nextFull = true ∨ h.demand.emergency = true ∨
      h.demand.spaceFull = true ∧ h.demand.causeOf.any (· != SpaceId.first.tag) = true ∨ h.Exhausted := by
  simp only [Exhausted, ← Bool.and_eq_true, ← or_assoc (a := h.scope.nextFull = true), ← Bool.or_eq_true]
  unfold wantsFull at ok
  split at ok
  · rename_i asked
    cases ok
    exact iff_of_true rfl (.inl asked)
  rename_i unasked
  split at ok
  · rename_i due
    cases ok
    exact iff_of_true rfl (.inr (.inl due))
  rename_i undue
  split at ok
  · rename_i cramped
    cases ok
    exact iff_of_true rfl (.inr (.inr (.inl cramped)))
  rename_i roomy
  rw [or_iff_right unasked, or_iff_right undue, or_iff_right roomy]
  cases size : h.pagesTotal with
  | error e => rw [size] at ok; cases ok
  | ok total =>
    cases taken : h.pagesReserved with
    | error e => rw [size, taken] at ok; cases ok
    | ok reserved =>
      rw [size, taken] at ok
      cases ok
      simp only [decide_eq_true_eq]
      constructor
      · exact fun most => ⟨total, reserved, rfl, rfl, most⟩
      · rintro ⟨_, _, same, same', most⟩
        cases same
        cases same'
        exact most

/-- The space that a demand is for, as its tag tells it. -/
theorem causeOf_iff {d : Demand} {space : Option SpaceId} (cause : d.cause = (space.map SpaceId.tag).getD .none) :
    d.causeOf.any (· != SpaceId.first.tag) = true ↔ ∃ id, space = some id ∧ id ≠ .first := by
  unfold Demand.causeOf
  rw [cause]
  cases space with
  | none => exact iff_of_false (by decide) (by simp)
  | some id =>
    have same : (∃ id', some id = some id' ∧ id' ≠ .first) ↔ id ≠ .first := by simp
    rw [same]
    cases id <;> decide

/-- What a heap knows decides whether the next collection covers all of it. -/
theorem Heeds.full_iff {full : Bool} (heeds : h.Heeds short es) (ok : h.wantsFull = .ok full) : full = true ↔ h.Reason short es := by
  rw [wantsFull_iff ok, heeds.byUser, heeds.nextFull, heeds.emergency, causeOf_iff heeds.cause]
  constructor
  · rintro (⟨users, setting⟩ | next | failing | ⟨full, id, first, other⟩ | most)
    · obtain ⟨e, member, users⟩ := List.any_eq_true.mp users
      exact .asked setting member users
    · rcases Bool.or_eq_true_iff.mp next with left | forced
      · exact .short left
      · obtain ⟨e, member, forces⟩ := List.any_eq_true.mp forced
        exact .forced member forces
    · exact .failing failing
    · obtain ⟨⟨space, spaceFull⟩, pends, rfl⟩ := Option.bind_eq_some_iff.mp first
      obtain rfl : h.demand.spaceFull = spaceFull := heeds.spaceFull _ _ pends
      rw [full] at pends
      exact .pending other pends
    · exact .exhausted most
  · intro reason
    cases reason with
    | asked setting member users => exact .inl ⟨List.any_eq_true.mpr ⟨_, member, users⟩, setting⟩
    | failing on => exact .inr (.inr (.inl on))
    | short left => exact .inr (.inl (by rw [left, Bool.true_or]))
    | forced member forces => exact .inr (.inl (by rw [List.any_eq_true.mpr ⟨_, member, forces⟩, Bool.or_true]))
    | @pending space other first =>
      exact .inr (.inr (.inr (.inl ⟨heeds.spaceFull _ _ first, space, by rw [first]; rfl, other⟩)))
    | exhausted most => exact .inr (.inr (.inr (.inr most)))

/-- As long as every incident is plain, a poll that is due because of a full space other than the nursery is a reason. -/
theorem reason_iff_of_plain (plain : ∀ e ∈ es, e.Plain) : h.Reason short es ↔
    (h.settings.fullOnRequest = true ∧ ∃ e ∈ standing es, e.isUsers = true) ∨ Incident.failing es = true ∨ short = true ∨
      (∃ space, space ≠ some .first ∧ .polled true space true (some true) ∈ es) ∨ .required ∈ es ∨ h.Exhausted := by
  have forced : ∀ e ∈ es, e.forces = true →
      (∃ space, space ≠ some .first ∧ .polled true space true (some true) ∈ es) ∨ .required ∈ es := by
    intro e member forces
    rcases (plain e member).forces_iff.mp forces with ⟨space, other, rfl⟩ | rfl
    · exact .inl ⟨space, other, member⟩
    · exact .inr member
  constructor
  · intro reason
    cases reason with
    | asked setting member users => exact .inl ⟨setting, _, member, users⟩
    | failing on => exact .inr (.inl on)
    | short left => exact .inr (.inr (.inl left))
    | forced member forces => exact .inr (.inr (.inr ((forced _ member forces).imp_right .inl)))
    | pending other first =>
      obtain ⟨e, member, asks⟩ := made_of_pending first
      exact .inr (.inr (.inr ((forced e member ((plain e member).forces_of_demand other asks)).imp_right .inl)))
    | exhausted most => exact .inr (.inr (.inr (.inr (.inr most))))
  · rintro (⟨setting, e, member, users⟩ | on | left | ⟨space, other, member⟩ | member | most)
    · exact .asked setting member users
    · exact .failing on
    · exact .short left
    · exact .forced member ((plain _ member).forces_iff.mpr (.inl ⟨space, other, rfl⟩))
    · exact .forced member rfl
    · exact .exhausted most

end Heap

end TracingHeap
