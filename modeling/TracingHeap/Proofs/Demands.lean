import Mathlib.Data.List.Induction
import TracingHeap.Heap.Budget

/-! Demands for collections in the long run. What is wanted at any time is what was asked for since a collection met all
demands, or since they were dropped, and the first to ask says why. A collection leaves nothing of a demand. One that is
dropped leaves behind whether the space that asked first was full, and whether collections had failed. -/

namespace TracingHeap.Demand

/-! ### Calls -/

/-- What is done about collections. -/
inductive Call where
  | request (cause : Option SpaceTag) (spaceFull byUser : Bool)
  | emergency (on : Bool)
  | met (full : Bool)
  | dropped
  deriving DecidableEq

namespace Call

/-- The demand afterwards. -/
def perform (d : Demand) : Call → Demand
  | request cause spaceFull byUser => d.request cause spaceFull byUser
  | emergency on => { d with emergency := on }
  | met full => d.met full
  | dropped => d.dropped

/-- Is nothing wanted any more? -/
def settles : Call → Bool
  | met _ => true
  | dropped => true
  | _ => false

/-- Was it a collection? -/
def isMet : Call → Bool
  | met _ => true
  | _ => false

/-- The space that asks, if one does, and whether it is full. -/
def asks? : Call → Option (Option SpaceTag × Bool)
  | request cause spaceFull _ => some (cause, spaceFull)
  | _ => none

/-- Does the program ask? -/
def isUsers : Call → Bool
  | request _ _ byUser => byUser
  | _ => false

/-- What it says about collections that failed. One that took place has not. -/
def emergency? : Call → Option Bool
  | emergency on => some on
  | met _ => some false
  | _ => none

/-- Whether a collection covered the whole heap. -/
def covers? : Call → Option Bool
  | met full => some full
  | _ => none

/-- What was done since nothing was wanted. -/
def standing (calls : List Call) : List Call := (calls.reverse.takeWhile (!·.settles)).reverse

/-- What was asked for first since then. -/
def pending (calls : List Call) : Option (Option SpaceTag × Bool) := (standing calls).findSome? asks?

/-- The last that was said about something. -/
def latest (tells : Call → Option Bool) (calls : List Call) : Bool := (calls.reverse.findSome? tells).getD false

variable {call : Call} (calls : List Call)

theorem standing_settled (settles : call.settles = true) : standing (calls ++ [call]) = [] := by
  simp [standing, settles]

theorem standing_append (stays : call.settles = false) : standing (calls ++ [call]) = standing calls ++ [call] := by
  simp [standing, stays]

theorem pending_settled (settles : call.settles = true) : pending (calls ++ [call]) = none := by
  rw [pending, standing_settled calls settles, List.findSome?_nil]

theorem pending_append (stays : call.settles = false) : pending (calls ++ [call]) = (pending calls).or call.asks? := by
  rw [pending, standing_append calls stays, List.findSome?_append, List.findSome?_singleton, pending]

theorem any_standing_append (stays : call.settles = false) :
    (standing (calls ++ [call])).any isUsers = ((standing calls).any isUsers || call.isUsers) := by
  rw [standing_append calls stays, List.any_append, List.any_cons, List.any_nil, Bool.or_false]

theorem latest_append (tells : Call → Option Bool) (call : Call) :
    latest tells (calls ++ [call]) = (tells call).getD (latest tells calls) := by
  cases told : tells call with
  | none => simp [latest, told]
  | some on => simp [latest, told]

end Call

open Call

variable {calls : List Call} {d : Demand} {cause : Option SpaceTag} {spaceFull byUser on full : Bool}

/-- The demand after some calls. -/
def after (d : Demand) (calls : List Call) : Demand := calls.foldl perform d

theorem after_append (d : Demand) (calls : List Call) (call : Call) :
    after d (calls ++ [call]) = perform (after d calls) call := by
  rw [after, List.foldl_append, List.foldl_cons, List.foldl_nil, after]

/-- A heap whose program says that collections have failed, or no longer do, makes this call. -/
theorem setEmergency_eq (h : Heap) :
    Heap.setEmergency on h = .ok () { h with demand := perform h.demand (.emergency on) } := rfl

theorem request_eq (d : Demand) : d.request cause spaceFull byUser = { d with
    wanted := true
    cause := if d.wanted then d.cause else cause.getD .none
    spaceFull := if d.wanted then d.spaceFull else spaceFull
    byUser := d.byUser || byUser } := by
  cases d with
  | mk started collecting wanted =>
    cases wanted <;> cases byUser <;> simp [Demand.request]

/-! ### What a demand tells -/

/-- What is known of a demand from the calls that led to it. -/
structure Tells (calls : List Call) (d : Demand) : Prop where
  wanted : d.wanted = (pending calls).isSome
  cause : d.cause = ((pending calls).bind Prod.fst).getD .none
  spaceFull : ∀ asked, pending calls = some asked → d.spaceFull = asked.2
  byUser : d.byUser = (standing calls).any isUsers
  emergency : d.emergency = latest emergency? calls
  count : d.count = UInt64.ofNat (calls.countP isMet)
  lastFull : d.lastFull = latest covers? calls
  started : d.started = false
  collecting : d.collecting = false

/-- The space that is named as the reason is the one that asked first, if its tag can stand for a space. -/
theorem Tells.causeOf_eq (tells : Tells calls d) :
    d.causeOf = ((pending calls).bind Prod.fst).bind fun tag => SpaceTag.ofNumber? tag.number := by
  rw [causeOf, tells.cause]
  cases (pending calls).bind Prod.fst <;> rfl

theorem tells_initial : Tells [] initial where
  wanted := rfl
  cause := rfl
  spaceFull := nofun
  byUser := rfl
  emergency := rfl
  count := rfl
  lastFull := rfl
  started := rfl
  collecting := rfl

/-- Only the first to ask is remembered. -/
theorem Tells.request (tells : Tells calls d) :
    Tells (calls ++ [.request cause spaceFull byUser]) (d.request cause spaceFull byUser) := by
  have first : pending (calls ++ [.request cause spaceFull byUser]) = (pending calls).or (some (cause, spaceFull)) :=
    pending_append calls rfl
  rw [request_eq]
  refine ⟨?_, ?_, fun asked found => ?_, ?_, ?_, ?_, ?_, tells.started, tells.collecting⟩
  · rw [first, Option.isSome_or, Option.isSome_some, Bool.or_true]
  · rw [first, tells.wanted, tells.cause]
    cases pending calls <;> rfl
  · rw [first] at found
    rw [tells.wanted]
    cases earlier : pending calls with
    | none =>
      rw [earlier] at found
      exact congrArg Prod.snd (Option.some.inj found)
    | some _ =>
      rw [earlier] at found
      exact tells.spaceFull asked (earlier.trans found)
  · rw [any_standing_append calls rfl, tells.byUser]
    rfl
  · rw [latest_append]
    exact tells.emergency
  · rw [List.countP_append]
    exact tells.count
  · rw [latest_append]
    exact tells.lastFull

theorem Tells.said (tells : Tells calls d) : Tells (calls ++ [.emergency on]) { d with emergency := on } := by
  have same : pending (calls ++ [.emergency on]) = pending calls := (pending_append calls rfl).trans (Option.or_none ..)
  refine ⟨?_, ?_, fun asked found => tells.spaceFull asked (same.symm.trans found), ?_, ?_, ?_, ?_, tells.started,
    tells.collecting⟩
  · rw [same]
    exact tells.wanted
  · rw [same]
    exact tells.cause
  · rw [any_standing_append calls rfl]
    exact tells.byUser.trans (Bool.or_false _).symm
  · rw [latest_append]
    rfl
  · rw [List.countP_append]
    exact tells.count
  · rw [latest_append]
    exact tells.lastFull

/-- A collection leaves nothing of a demand but that it took place. -/
theorem Tells.met_eq (tells : Tells calls d) (full : Bool) : d.met full =
    { initial with lastFull := full, count := UInt64.ofNat (calls.countP isMet + 1) } := by
  rw [UInt64.ofNat_add, ← tells.count]
  simp only [Demand.met, tells.started, tells.collecting]
  rfl

/-- A demand that is dropped leaves behind what it said of the space that asked first, and of collections that failed. -/
theorem Tells.dropped_eq (tells : Tells calls d) : d.dropped =
    { initial with spaceFull := d.spaceFull, emergency := d.emergency, count := d.count, lastFull := d.lastFull } := by
  simp only [Demand.dropped, tells.started, tells.collecting]
  rfl

/-- Nothing is known of what was asked for before. -/
theorem tells_settled {call : Call} {count : Word} {emergency lastFull : Bool} (settles : call.settles = true)
    (failing : emergency = latest emergency? (calls ++ [call])) (met : count = UInt64.ofNat ((calls ++ [call]).countP isMet))
    (covered : lastFull = latest covers? (calls ++ [call])) :
    Tells (calls ++ [call]) { initial with spaceFull, emergency, count, lastFull } where
  wanted := by
    rw [pending_settled calls settles]
    rfl
  cause := by
    rw [pending_settled calls settles]
    rfl
  spaceFull _ found := nomatch (pending_settled calls settles).symm.trans found
  byUser := by
    rw [standing_settled calls settles]
    rfl
  emergency := failing
  count := met
  lastFull := covered
  started := rfl
  collecting := rfl

theorem Tells.met (tells : Tells calls d) : Tells (calls ++ [.met full]) (d.met full) := by
  rw [tells.met_eq]
  refine tells_settled rfl ?_ ?_ ?_
  · rw [latest_append]
    rfl
  · rw [List.countP_append]
    rfl
  · rw [latest_append]
    rfl

theorem Tells.dropped (tells : Tells calls d) : Tells (calls ++ [.dropped]) d.dropped := by
  rw [tells.dropped_eq]
  refine tells_settled rfl ?_ ?_ ?_
  · rw [latest_append]
    exact tells.emergency
  · rw [List.countP_append]
    exact tells.count
  · rw [latest_append]
    exact tells.lastFull

/-- Whatever was called, the demand tells what was asked for first since nothing was wanted, and whether the program asked. -/
theorem tells_after (calls : List Call) : Tells calls (after initial calls) := by
  induction calls using List.reverseRecOn with
  | nil => exact tells_initial
  | append_singleton calls call tells =>
    rw [after_append]
    cases call with
    | request => exact tells.request
    | emergency => exact tells.said
    | met => exact tells.met
    | dropped => exact tells.dropped

/-- After a collection it is as if nothing had been asked for since the start. -/
theorem after_met (calls : List Call) (full : Bool) : after initial (calls ++ [.met full]) =
    { initial with lastFull := full, count := UInt64.ofNat (calls.countP isMet + 1) } := by
  rw [after_append]
  exact (tells_after calls).met_eq full

/-- After a demand was dropped that is so just if the space that asked first was not full and collections had not failed. -/
theorem after_dropped_iff (calls : List Call) : after initial (calls ++ [.dropped]) =
      { initial with lastFull := latest covers? calls, count := UInt64.ofNat (calls.countP isMet) } ↔
    (after initial calls).spaceFull = false ∧ latest emergency? calls = false := by
  have tells := tells_after calls
  rw [after_append, perform, tells.dropped_eq, ← tells.emergency, ← tells.count, ← tells.lastFull]
  simp [initial, and_comm]

/-- The space that asked first was full, and collections had failed. -/
example : after initial [.request (some ⟨2⟩) true true, .emergency true, .dropped] =
    { initial with spaceFull := true, emergency := true } := by decide

end TracingHeap.Demand
