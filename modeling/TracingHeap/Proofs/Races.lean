import Mathlib.Logic.Function.Basic
import Mathlib.Logic.Relation
import TracingHeap.Proofs.Claims

/-! Races for an object. Collectors that trace the same object read and write its entry in the forwarding table
one access at a time, so their accesses mix in every way. Whoever swaps the state of the object from unclaimed to
claimed owns it until the copy is published; everyone else waits and finds that copy. -/

namespace TracingHeap

/-! ### Cleared tables -/

/-- A wiped range holds zeros. -/
theorem SideTable.Beside.entry_wipe {t : SideTable} {e : Extent} {width : EntryWidth} (beside : t.Beside e width 4)
    {first last a : Address} (start : e.start.toNat ≤ first.toNat) (low : first.toNat ≤ a.toNat)
    (high : a.toNat ≤ last.toNat) : (t.wipe first last).entry a = 0 := by
  have index : ∀ b : Address, e.start.toNat ≤ b.toNat → t.index b = (b.toNat - e.start.toNat) / 2 ^ 4 :=
    fun b above => beside.index_eq rfl (by decide) above
  rw [SideTable.entry_wipe, if_pos]
  rw [index first start, index a (by omega), index last (by omega)]
  omega

theorem Forwarding.clear_ok {f f' : Forwarding} {e : Extent} {first : Address} {bytes : Word} {u : Unit}
    (states : f.states.Beside e .byte 4) (copies : f.copies.Beside e .word 4) (ok : clear first bytes f = .ok u f') :
    f'.states.Beside e .byte 4 ∧ f'.copies.Beside e .word 4 ∧
      ∀ a : Address, first.toNat ≤ a.toNat → a.toNat < first.toNat + bytes.toNat → f'.states.entryByte a = 0 := by
  simp only [clear, Step.bind_ok, Step.on_ok, statesPart, copiesPart] at ok
  obtain ⟨_, _, ⟨t, cleared, rfl⟩, t', cleared', rfl⟩ := ok
  have copies' : t'.Beside e .word 4 := by
    rcases SideTable.clear_ok cleared' with ⟨-, rfl⟩ | ⟨-, -, -, -, rfl⟩
    · exact copies
    · exact copies.wipe ..
  rcases SideTable.clear_ok cleared with ⟨none, rfl⟩ | ⟨some, above, fits, -, rfl⟩
  · refine ⟨states, copies', fun a low high => ?_⟩
    rw [none, UInt64.toNat_zero] at high
    omega
  · refine ⟨states.wipe .., copies', fun a low high => ?_⟩
    have one : (1 : Word) ≤ bytes := by
      rw [UInt64.le_iff_toNat_le]
      exact Nat.pos_of_ne_zero fun zero => some (UInt64.toNat_inj.mp zero)
    have less : (bytes - 1).toNat = bytes.toNat - 1 := UInt64.toNat_sub_of_le _ _ one
    have last : (first.plus (bytes - 1)).toNat = first.toNat + (bytes.toNat - 1) := by
      rw [Address.toNat_plus (by rw [less]; exact fits), less]
    rw [states.origin] at above
    rw [SideTable.entryByte, states.entry_wipe above low (by omega)]
    rfl

/-! ### Collectors and their objects -/

/-- What a collector does next with an object that it traces. -/
inductive Tracer where
  | idle
  /-- It reads the state in order to claim the object. -/
  | claiming (object : Address)
  /-- It saw that the object is unclaimed, and swaps the state unless it has changed. -/
  | swapping (object : Address)
  /-- It has claimed the object, and copies it. -/
  | copying (object : Address)
  /-- It has made the copy, and makes sure that the object is claimed. -/
  | checking (object copy : Address)
  /-- It writes the place of the copy. -/
  | placing (object copy : Address)
  /-- It writes the state that publishes the copy. -/
  | publishing (object copy : Address)
  /-- It saw that the object is taken, and looks at the state that it saw. -/
  | spinning (object : Address) (state : UInt8)
  /-- It saw that the object is forwarded, and makes sure of that. -/
  | confirming (object : Address)
  /-- It reads the place of the copy. -/
  | reading (object : Address)
  | brokenOff (fault : Fault)

/-- The object that a collector traces. -/
def Tracer.object? : Tracer → Option Address
  | idle | brokenOff _ => none
  | claiming o | swapping o | copying o | checking o _ | placing o _ | publishing o _ | spinning o _ | confirming o
  | reading o => some o

/-- Collectors that trace objects of one space, and what has happened to every object. -/
structure Race (ι : Type) where
  table : Forwarding
  tracers : ι → Tracer
  /-- Who was answered that the object is unclaimed. -/
  claims : Address → List ι
  /-- Who made copies, and where. -/
  copies : Address → List (ι × Address)
  /-- Who traced the object to the end, and what the answer was. -/
  answers : Address → List (ι × Address)

namespace Race

open Function ForwardingState

variable {ι : Type} {objects : Address → Prop} {s s' : Race ι} {i : ι} {e : Extent}

/-! ### What is known of one object -/

/-- What has happened to one object. -/
@[ext] structure View (ι : Type) where
  state : UInt8
  place : Address
  claims : List ι
  copies : List (ι × Address)
  answers : List (ι × Address)

/-- The view of an object. -/
def view (s : Race ι) (o : Address) : View ι :=
  ⟨s.table.states.entryByte o, ⟨s.table.copies.entry o⟩, s.claims o, s.copies o, s.answers o⟩

/-- The fates of an object. -/
inductive View.Sound : View ι → Prop where
  | unclaimed (place : Address) : Sound ⟨0, place, [], [], []⟩
  | claimed (owner : ι) (place : Address) (copies : List (ι × Address))
    (made : copies = [] ∨ ∃ copy, copy ≠ .null ∧ copies = [(owner, copy)]) : Sound ⟨2, place, [owner], copies, []⟩
  | forwarded (owner : ι) (copy : Address) (answers : List (ι × Address)) (proper : copy ≠ .null)
    (alike : ∀ answer ∈ answers, answer.2 = copy) : Sound ⟨3, copy, [owner], [(owner, copy)], answers⟩

/-- What a collector knows that is about to do something. -/
def Fits (objects : Address → Prop) (v : Address → View ι) (i : ι) : Tracer → Prop
  | .idle => True
  | .claiming o | .swapping o => objects o
  | .copying o => objects o ∧ (v o).state = 2 ∧ (v o).claims = [i] ∧ (v o).copies = []
  | .checking o copy | .placing o copy =>
    objects o ∧ (v o).state = 2 ∧ (v o).claims = [i] ∧ (v o).copies = [(i, copy)] ∧ copy ≠ .null
  | .publishing o copy =>
    objects o ∧ (v o).state = 2 ∧ (v o).claims = [i] ∧ (v o).copies = [(i, copy)] ∧ copy ≠ .null ∧ (v o).place = copy
  | .spinning o state => objects o ∧ (state = 2 ∧ (v o).state ≠ 0 ∨ state = 3 ∧ (v o).state = 3)
  | .confirming o | .reading o => objects o ∧ (v o).state = 3
  | .brokenOff _ => False

/-- What one collector may do to an object: its state goes one way, and what another one owns stays as it is. -/
structure View.Turned (i : ι) (v v' : View ι) : Prop where
  state : v'.state = v.state ∨ v.state = 0 ∧ v'.state = 2 ∨ v.state = 2 ∧ v'.state = 3
  owned : ∀ j, j ≠ i → v.claims = [j] → v.state = 2 → v' = v

theorem View.Turned.refl (i : ι) (v : View ι) : v.Turned i v := ⟨.inl rfl, fun _ _ _ _ => rfl⟩

theorem View.Turned.taken {v v' : View ι} (turned : v.Turned i v') (taken : v.state ≠ 0) : v'.state ≠ 0 := by
  rcases turned.state with same | ⟨clear, -⟩ | ⟨-, now⟩
  · rwa [same]
  · exact absurd clear taken
  · rw [now]
    decide

theorem View.Turned.forwarded {v v' : View ι} (turned : v.Turned i v') (forwarded : v.state = 3) : v'.state = 3 := by
  rcases turned.state with same | ⟨clear, -⟩ | ⟨-, now⟩
  · rwa [same]
  · rw [forwarded] at clear
    cases clear
  · exact now

theorem View.Sound.cases {v : View ι} (sound : v.Sound) : v.state = 0 ∨ v.state = 2 ∨ v.state = 3 := by
  cases sound with
  | unclaimed => exact .inl rfl
  | claimed => exact .inr (.inl rfl)
  | forwarded => exact .inr (.inr rfl)

/-- Nothing has happened to an unclaimed object. -/
theorem View.Sound.of_unclaimed {v : View ι} (sound : v.Sound) (clear : v.state = 0) :
    v.claims = [] ∧ v.copies = [] ∧ v.answers = [] := by
  cases sound with
  | unclaimed => exact ⟨rfl, rfl, rfl⟩
  | claimed => cases clear
  | forwarded => cases clear

theorem View.Sound.of_claimed {v : View ι} (sound : v.Sound) (claimed : v.state = 2) : v.answers = [] := by
  cases sound with
  | unclaimed => rfl
  | claimed => rfl
  | forwarded => cases claimed

/-- There is one copy of a forwarded object, and everyone is answered its place. -/
theorem View.Sound.of_forwarded {v : View ι} (sound : v.Sound) (forwarded : v.state = 3) :
    ∃ owner, v.claims = [owner] ∧ v.copies = [(owner, v.place)] ∧ v.place ≠ .null ∧
      ∀ answer ∈ v.answers, answer.2 = v.place := by
  cases sound with
  | unclaimed => cases forwarded
  | claimed => cases forwarded
  | forwarded owner copy answers proper alike => exact ⟨owner, rfl, rfl, proper, alike⟩

/-- One more is answered the place of the copy. -/
theorem View.Sound.answered {v : View ι} (sound : v.Sound) (i : ι) (forwarded : v.state = 3) :
    View.Sound { v with answers := v.answers ++ [(i, v.place)] } := by
  cases sound with
  | unclaimed => cases forwarded
  | claimed => cases forwarded
  | forwarded owner copy answers proper alike =>
    refine .forwarded owner copy _ proper fun answer member => ?_
    rcases List.mem_append.mp member with old | new
    · exact alike answer old
    · rw [List.mem_singleton.mp new]

/-- What can have happened to an object. -/
theorem View.Sound.fate {v : View ι} (sound : v.Sound) :
    v.state = ForwardingState.unclaimed ∧ v.claims = [] ∧ v.copies = [] ∧ v.answers = [] ∨
    ∃ owner, v.claims = [owner] ∧
      (v.state = ForwardingState.claimed ∧ (v.copies = [] ∨ ∃ copy, v.copies = [(owner, copy)]) ∧ v.answers = [] ∨
        v.state = ForwardingState.forwarded ∧ ∃ copy, copy ≠ .null ∧ v.copies = [(owner, copy)] ∧
          ∀ answer ∈ v.answers, answer.2 = copy) := by
  cases sound with
  | unclaimed => exact .inl ⟨rfl, rfl, rfl, rfl⟩
  | claimed owner place copies made =>
    exact .inr ⟨owner, rfl, .inl ⟨rfl, made.imp_right fun ⟨copy, _, same⟩ => ⟨copy, same⟩, rfl⟩⟩
  | forwarded owner copy answers proper alike => exact .inr ⟨owner, rfl, .inr ⟨rfl, copy, proper, rfl, alike⟩⟩

/-- What a collector knows stays true while others act. -/
theorem Fits.other {v v' : Address → View ι} {j : ι} {t : Tracer} (fits : Fits objects v j t) (other : j ≠ i)
    (turned : ∀ o, objects o → (v o).Turned i (v' o)) : Fits objects v' j t := by
  cases t with
  | idle => trivial
  | claiming o => exact fits
  | swapping o => exact fits
  | copying o =>
    obtain ⟨object, state, claims, rest⟩ := fits
    rw [Fits, (turned o object).owned j other claims state]
    exact ⟨object, state, claims, rest⟩
  | checking o copy =>
    obtain ⟨object, state, claims, rest⟩ := fits
    rw [Fits, (turned o object).owned j other claims state]
    exact ⟨object, state, claims, rest⟩
  | placing o copy =>
    obtain ⟨object, state, claims, rest⟩ := fits
    rw [Fits, (turned o object).owned j other claims state]
    exact ⟨object, state, claims, rest⟩
  | publishing o copy =>
    obtain ⟨object, state, claims, rest⟩ := fits
    rw [Fits, (turned o object).owned j other claims state]
    exact ⟨object, state, claims, rest⟩
  | spinning o state =>
    obtain ⟨object, seen⟩ := fits
    exact ⟨object, seen.imp (And.imp_right (turned o object).taken) (And.imp_right (turned o object).forwarded)⟩
  | confirming o => exact ⟨fits.1, (turned o fits.1).forwarded fits.2⟩
  | reading o => exact ⟨fits.1, (turned o fits.1).forwarded fits.2⟩
  | brokenOff fault => exact fits

/-- A collector that is about to do something with an object knows the object. -/
theorem Fits.object {v : Address → View ι} {t : Tracer} {o : Address} (fits : Fits objects v i t)
    (traced : t.object? = some o) : objects o := by
  cases t <;> cases traced
  case claiming => exact fits
  case swapping => exact fits
  all_goals exact fits.1

/-- Objects of one space. They are at least a granule apart, so that each has an entry of its own. -/
structure Arena (e : Extent) (objects : Address → Prop) : Prop where
  placed : e.Placed
  inside : ∀ o, objects o → e.span.lo ≤ o.toNat ∧ o.toNat < e.span.hi
  apart : ∀ o p, objects o → objects p → o ≠ p → o.toNat + 16 ≤ p.toNat ∨ p.toNat + 16 ≤ o.toNat

/-- The table covers the space, and every object has come to one of its fates. -/
structure Orderly (e : Extent) (objects : Address → Prop) (s : Race ι) : Prop where
  states : s.table.states.Beside e .byte 4
  copies : s.table.copies.Beside e .word 4
  sound : ∀ o, objects o → (s.view o).Sound
  fits : ∀ i, Fits objects s.view i (s.tracers i)

theorem Arena.index_ne {t : SideTable} {width : EntryWidth} {o p : Address} (arena : Arena e objects)
    (beside : t.Beside e width 4) (object : objects o) (object' : objects p) (differ : p ≠ o) :
    t.index o ≠ t.index p :=
  beside.index_ne (arena.inside o object).1 (arena.inside p object').1
    (arena.apart o p object object' (Ne.symm differ))

/-- A state is written. -/
theorem Orderly.put_state {o p : Address} (orderly : s.Orderly e objects) (arena : Arena e objects) (object : objects o)
    (object' : objects p) (state : UInt8) :
    (s.table.states.put o state.toUInt64).entryByte p = if p = o then state else (s.view p).state := by
  rw [SideTable.entryByte_put orderly.states.wide]
  by_cases same : p = o
  · rw [if_pos same, if_pos (by rw [same])]
  · rw [if_neg same, if_neg (arena.index_ne orderly.states object object' same)]
    rfl

/-- A place is written. -/
theorem Orderly.put_place {o p : Address} (orderly : s.Orderly e objects) (arena : Arena e objects) (object : objects o)
    (object' : objects p) (copy : Address) :
    (⟨(s.table.copies.put o copy.word).entry p⟩ : Address) = if p = o then copy else (s.view p).place := by
  rw [SideTable.entry_put, orderly.copies.wide]
  by_cases same : p = o
  · rw [if_pos same, if_pos (by rw [same])]
    rfl
  · rw [if_neg same, if_neg (arena.index_ne orderly.copies object object' same)]
    rfl

theorem Orderly.stateOf (orderly : s.Orderly e objects) (arena : Arena e objects) {o : Address} (object : objects o) :
    s.table.stateOf o = .ok (s.view o).state := by
  obtain ⟨low, high⟩ := arena.inside o object
  exact orderly.states.loadByte_total arena.placed rfl (by decide) low high

/-- Nobody traces anything yet. -/
def start (table : Forwarding) : Race ι := ⟨table, fun _ => .idle, fun _ => [], fun _ => [], fun _ => []⟩

theorem start_orderly {f : Forwarding} (states : f.states.Beside e .byte 4) (copies : f.copies.Beside e .word 4)
    (clear : ∀ o, objects o → f.states.entryByte o = 0) : (start f : Race ι).Orderly e objects where
  states := states
  copies := copies
  sound o object := by
    have same : (start f : Race ι).view o = ⟨0, ⟨f.copies.entry o⟩, [], [], []⟩ :=
      View.ext (clear o object) rfl rfl rfl rfl
    rw [same]
    exact .unclaimed _
  fits _ := trivial

/-! ### What collectors do -/

variable [DecidableEq ι]

/-- One collector goes on to what it does next. -/
def move (s : Race ι) (i : ι) (t : Tracer) : Race ι := { s with tracers := update s.tracers i t }

theorem tracers_move (s : Race ι) (i : ι) (t : Tracer) : (s.move i t).tracers i = t := update_self ..

/-- One access of a collector to the table, or its copying. The swap may fail for no reason. Copies are not at
the null address. -/
inductive Acts (objects : Address → Prop) (s : Race ι) (i : ι) : Race ι → Prop where
  | begins {o : Address} (idle : s.tracers i = .idle) (object : objects o) : Acts objects s i (s.move i (.claiming o))
  | sees {o : Address} {state : UInt8} (now : s.tracers i = .claiming o) (seen : s.table.stateOf o = .ok state) :
    Acts objects s i (s.move i (if isTaken state then .spinning o state else .swapping o))
  | swaps {o : Address} {states : SideTable} (now : s.tracers i = .swapping o)
    (seen : s.table.stateOf o = .ok unclaimed)
    (stored : SideTable.store o claimed.toUInt64 s.table.states = .ok () states) :
    Acts objects s i { s.move i (.copying o) with
      table := { s.table with states }, claims := update s.claims o (s.claims o ++ [i]) }
  | misses {o : Address} (now : s.tracers i = .swapping o) : Acts objects s i (s.move i (.claiming o))
  | makes {o copy : Address} (now : s.tracers i = .copying o) (proper : copy ≠ .null) :
    Acts objects s i { s.move i (.checking o copy) with copies := update s.copies o (s.copies o ++ [(i, copy)]) }
  | checks {o copy : Address} {state : UInt8} (now : s.tracers i = .checking o copy)
    (seen : s.table.stateOf o = .ok state) :
    Acts objects s i (s.move i (if isClaimed state then .placing o copy else .brokenOff (.notClaimed o)))
  | places {o copy : Address} {copies : SideTable} (now : s.tracers i = .placing o copy)
    (stored : SideTable.store o copy.word s.table.copies = .ok () copies) :
    Acts objects s i { s.move i (.publishing o copy) with table := { s.table with copies } }
  | publishes {o copy : Address} {states : SideTable} (now : s.tracers i = .publishing o copy)
    (stored : SideTable.store o forwarded.toUInt64 s.table.states = .ok () states) :
    Acts objects s i { s.move i .idle with
      table := { s.table with states }, answers := update s.answers o (s.answers o ++ [(i, copy)]) }
  | looks {o : Address} {state state' : UInt8} (now : s.tracers i = .spinning o state) (wait : isClaimed state = true)
    (seen : s.table.stateOf o = .ok state') : Acts objects s i (s.move i (.spinning o state'))
  | leaves {o : Address} {state : UInt8} (now : s.tracers i = .spinning o state) (ended : isClaimed state = false) :
    Acts objects s i
      (s.move i (if state == forwarded then .confirming o else .brokenOff (.corruptForwarding state o)))
  | confirms {o : Address} {state : UInt8} (now : s.tracers i = .confirming o) (seen : s.table.stateOf o = .ok state) :
    Acts objects s i (s.move i (if state == forwarded then .reading o else .brokenOff (.notForwarded o)))
  | reads {o : Address} {place : Word} (now : s.tracers i = .reading o) (loaded : s.table.copies.load o = .ok place) :
    Acts objects s i { s.move i .idle with answers := update s.answers o (s.answers o ++ [(i, ⟨place⟩)]) }
  /-- The table has no entry for the object. -/
  | strays {o : Address} {fault : Fault} (now : (s.tracers i).object? = some o)
    (outside : s.table.states.load o = .error fault ∨ s.table.copies.load o = .error fault) :
    Acts objects s i (s.move i (.brokenOff fault))

/-- What collectors can come to that trace some objects, from a table where nobody traces anything. -/
inductive Reachable (objects : Address → Prop) (table : Forwarding) : Race ι → Prop where
  | start : Reachable objects table (start table)
  | step {s s' : Race ι} {i : ι} (before : Reachable objects table s) (acts : Acts objects s i s') :
    Reachable objects table s'

/-- One collector acted: the race goes on in order. -/
structure Next (e : Extent) (objects : Address → Prop) (i : ι) (s s' : Race ι) : Prop where
  orderly : s'.Orderly e objects
  turned : ∀ o, objects o → (s.view o).Turned i (s'.view o)

/-- A collector that only looked goes on. -/
theorem Orderly.move {t : Tracer} (orderly : s.Orderly e objects) (fits : Fits objects s.view i t) :
    Next e objects i s (s.move i t) where
  turned o _ := .refl i _
  orderly := by
    refine ⟨orderly.states, orderly.copies, orderly.sound, fun j => ?_⟩
    change Fits objects s.view j (update s.tracers i t j)
    by_cases same : j = i
    · subst same
      rw [update_self]
      exact fits
    · rw [update_of_ne same]
      exact orderly.fits j

/-- A collector changed one object and goes on. -/
theorem Orderly.change {t : Tracer} {o : Address} (v : View ι) (orderly : s.Orderly e objects)
    (states : s'.table.states.Beside e .byte 4) (copies : s'.table.copies.Beside e .word 4)
    (tracers : s'.tracers = update s.tracers i t)
    (views : ∀ p, objects p → s'.view p = if p = o then v else s.view p) (sound : v.Sound)
    (turned : (s.view o).Turned i v) (fits : Fits objects s'.view i t) : Next e objects i s s' := by
  have turned' : ∀ p, objects p → (s.view p).Turned i (s'.view p) := by
    intro p object
    rw [views p object]
    by_cases same : p = o
    · rw [if_pos same, same]
      exact turned
    · rw [if_neg same]
      exact .refl i _
  refine ⟨⟨states, copies, fun p object => ?_, fun j => ?_⟩, turned'⟩
  · rw [views p object]
    by_cases same : p = o
    · rw [if_pos same]
      exact sound
    · rw [if_neg same]
      exact orderly.sound p object
  · rw [tracers]
    by_cases same : j = i
    · subst same
      rw [update_self]
      exact fits
    · rw [update_of_ne same]
      exact (orderly.fits j).other same turned'

/-- Every act keeps the race in order. -/
theorem Acts.next (acts : Acts objects s i s') (arena : Arena e objects) (orderly : s.Orderly e objects) :
    Next e objects i s s' := by
  have fits := orderly.fits i
  cases acts with
  | begins idle object => exact orderly.move object
  | @sees o state now seen =>
    rw [now] at fits
    obtain ⟨-, -, same⟩ := SideTable.loadByte_ok seen
    change state = (s.view o).state at same
    refine orderly.move ?_
    rcases (orderly.sound o fits).cases with found | found | found
    · rw [same, found]
      exact fits
    · rw [same, found]
      exact ⟨fits, .inl ⟨rfl, by rw [found]; decide⟩⟩
    · rw [same, found]
      exact ⟨fits, .inr ⟨rfl, found⟩⟩
  | @swaps o states now seen stored =>
    rw [now] at fits
    obtain ⟨-, -, clear⟩ := SideTable.loadByte_ok seen
    have clear : (s.view o).state = 0 := clear.symm
    obtain ⟨-, -, rfl⟩ := SideTable.store_ok stored
    obtain ⟨claims, copies, answers⟩ := (orderly.sound o fits).of_unclaimed clear
    have views : ∀ p, objects p → view { s.move i (.copying o) with
        table := { s.table with states := s.table.states.put o claimed.toUInt64 }
        claims := update s.claims o (s.claims o ++ [i]) } p =
          if p = o then ⟨2, (s.view o).place, [i], [], []⟩ else s.view p := by
      intro p object
      have state := orderly.put_state arena fits object claimed
      by_cases same : p = o
      · subst same
        rw [if_pos rfl] at state ⊢
        refine View.ext state rfl ((update_self ..).trans ?_) copies answers
        exact congrArg (· ++ [i]) claims
      · rw [if_neg same] at state ⊢
        exact View.ext state rfl (update_of_ne same ..) rfl rfl
    refine orderly.change ⟨2, (s.view o).place, [i], [], []⟩ (orderly.states.put ..) orderly.copies rfl views
      (.claimed i _ [] (.inl rfl)) ⟨.inr (.inl ⟨clear, rfl⟩), fun j _ owned => ?_⟩ ?_
    · rw [claims] at owned
      cases owned
    · rw [Fits, views o fits, if_pos rfl]
      exact ⟨fits, rfl, rfl, rfl⟩
  | misses now =>
    rw [now] at fits
    exact orderly.move fits
  | @makes o copy now proper =>
    rw [now] at fits
    obtain ⟨object, state, claims, copies⟩ := fits
    have answers := (orderly.sound o object).of_claimed state
    have views : ∀ p, objects p → view { s.move i (.checking o copy) with
        copies := update s.copies o (s.copies o ++ [(i, copy)]) } p =
          if p = o then ⟨2, (s.view o).place, [i], [(i, copy)], []⟩ else s.view p := by
      intro p _
      by_cases same : p = o
      · subst same
        rw [if_pos rfl]
        refine View.ext state rfl claims ((update_self ..).trans ?_) answers
        exact congrArg (· ++ [(i, copy)]) copies
      · rw [if_neg same]
        exact View.ext rfl rfl rfl (update_of_ne same ..) rfl
    refine orderly.change ⟨2, (s.view o).place, [i], [(i, copy)], []⟩ orderly.states orderly.copies rfl views
      (.claimed i _ _ (.inr ⟨copy, proper, rfl⟩)) ⟨.inl state.symm, fun j other owned => ?_⟩ ?_
    · rw [claims] at owned
      cases owned
      exact absurd rfl other
    · rw [Fits, views o object, if_pos rfl]
      exact ⟨object, rfl, rfl, rfl, proper⟩
  | @checks o copy state now seen =>
    rw [now] at fits
    obtain ⟨-, -, same⟩ := SideTable.loadByte_ok seen
    have found : state = 2 := same.trans fits.2.1
    rw [found]
    exact orderly.move fits
  | @places o copy copies now stored =>
    rw [now] at fits
    obtain ⟨object, state, claims, made, proper⟩ := fits
    have answers := (orderly.sound o object).of_claimed state
    obtain ⟨-, -, rfl⟩ := SideTable.store_ok stored
    have views : ∀ p, objects p → view { s.move i (.publishing o copy) with
        table := { s.table with copies := s.table.copies.put o copy.word } } p =
          if p = o then ⟨2, copy, [i], [(i, copy)], []⟩ else s.view p := by
      intro p object'
      have place := orderly.put_place arena object object' copy
      by_cases same : p = o
      · subst same
        rw [if_pos rfl] at place ⊢
        exact View.ext state place claims made answers
      · rw [if_neg same] at place ⊢
        exact View.ext rfl place rfl rfl rfl
    refine orderly.change ⟨2, copy, [i], [(i, copy)], []⟩ orderly.states (orderly.copies.put ..) rfl views
      (.claimed i _ _ (.inr ⟨copy, proper, rfl⟩)) ⟨.inl state.symm, fun j other owned => ?_⟩ ?_
    · rw [claims] at owned
      cases owned
      exact absurd rfl other
    · rw [Fits, views o object, if_pos rfl]
      exact ⟨object, rfl, rfl, rfl, proper, rfl⟩
  | @publishes o copy states now stored =>
    rw [now] at fits
    obtain ⟨object, state, claims, made, proper, place⟩ := fits
    have answers := (orderly.sound o object).of_claimed state
    obtain ⟨-, -, rfl⟩ := SideTable.store_ok stored
    have views : ∀ p, objects p → view { s.move i .idle with
        table := { s.table with states := s.table.states.put o forwarded.toUInt64 }
        answers := update s.answers o (s.answers o ++ [(i, copy)]) } p =
          if p = o then ⟨3, copy, [i], [(i, copy)], [(i, copy)]⟩ else s.view p := by
      intro p object'
      have published := orderly.put_state arena object object' forwarded
      by_cases same : p = o
      · subst same
        rw [if_pos rfl] at published ⊢
        refine View.ext published place claims made ((update_self ..).trans ?_)
        exact congrArg (· ++ [(i, copy)]) answers
      · rw [if_neg same] at published ⊢
        exact View.ext published rfl rfl rfl (update_of_ne same ..)
    refine orderly.change ⟨3, copy, [i], [(i, copy)], [(i, copy)]⟩ (orderly.states.put ..) orderly.copies rfl views
      (.forwarded i copy _ proper ?_) ⟨.inr (.inr ⟨state, rfl⟩), fun j other owned => ?_⟩ trivial
    · intro answer member
      rw [List.mem_singleton.mp member]
    · rw [claims] at owned
      cases owned
      exact absurd rfl other
  | @looks o state state' now wait seen =>
    rw [now] at fits
    obtain ⟨object, known⟩ := fits
    obtain ⟨-, -, same⟩ := SideTable.loadByte_ok seen
    change state' = (s.view o).state at same
    refine orderly.move ⟨object, ?_⟩
    rw [same]
    rcases (orderly.sound o object).cases with found | found | found
    · rcases known with ⟨-, taken⟩ | ⟨-, forwarded⟩
      · exact absurd found taken
      · rw [found] at forwarded
        cases forwarded
    · exact .inl ⟨found, by rw [found]; decide⟩
    · exact .inr ⟨found, found⟩
  | @leaves o state now ended =>
    rw [now] at fits
    obtain ⟨object, ⟨rfl, -⟩ | ⟨rfl, found⟩⟩ := fits
    · cases ended
    · exact orderly.move ⟨object, found⟩
  | @confirms o state now seen =>
    rw [now] at fits
    obtain ⟨-, -, same⟩ := SideTable.loadByte_ok seen
    have found : state = 3 := same.trans fits.2
    rw [found]
    exact orderly.move fits
  | @reads o place now loaded =>
    rw [now] at fits
    obtain ⟨object, state⟩ := fits
    obtain ⟨-, -, same⟩ := SideTable.load_ok loaded
    have found : (⟨place⟩ : Address) = (s.view o).place := by rw [same]; rfl
    rw [found]
    refine orderly.change { s.view o with answers := (s.view o).answers ++ [(i, (s.view o).place)] } orderly.states
      orderly.copies rfl (fun p _ => ?_) ((orderly.sound o object).answered i state) ⟨.inl rfl, fun j _ _ claimed => ?_⟩ trivial
    · by_cases here : p = o
      · subst here
        rw [if_pos rfl]
        exact View.ext rfl rfl rfl rfl (update_self ..)
      · rw [if_neg here]
        exact View.ext rfl rfl rfl rfl (update_of_ne here ..)
    · rw [state] at claimed
      cases claimed
  | @strays o fault now outside =>
    have object := fits.object now
    obtain ⟨low, high⟩ := arena.inside o object
    have states := orderly.states.load_total arena.placed rfl (by decide) low high
    have copies := orderly.copies.load_total arena.placed rfl (by decide) low high
    rcases outside with outside | outside
    · rw [states] at outside
      cases outside
    · rw [copies] at outside
      cases outside

theorem Reachable.orderly {f : Forwarding} (reachable : Reachable objects f s) (arena : Arena e objects)
    (first : (Race.start f : Race ι).Orderly e objects) : s.Orderly e objects := by
  induction reachable with
  | start => exact first
  | step _ acts ih => exact (acts.next arena ih).orderly

/-- A collector that traces an object is never stuck. -/
theorem Orderly.acts (orderly : s.Orderly e objects) (arena : Arena e objects) {o : Address}
    (traced : (s.tracers i).object? = some o) : ∃ s', Acts objects s i s' := by
  have object := (orderly.fits i).object traced
  obtain ⟨low, high⟩ := arena.inside o object
  have state := orderly.stateOf arena object
  have loaded := orderly.states.load_total arena.placed rfl (by decide) low high
  have loaded' := orderly.copies.load_total arena.placed rfl (by decide) low high
  cases now : s.tracers i with
  | idle => rw [now] at traced; cases traced
  | brokenOff fault => rw [now] at traced; cases traced
  | claiming p =>
    rw [now] at traced
    cases traced
    exact ⟨_, .sees now state⟩
  | swapping p => exact ⟨_, .misses now⟩
  | copying p =>
    have proper : (⟨1⟩ : Address) ≠ .null := by decide
    exact ⟨_, .makes now proper⟩
  | checking p copy =>
    rw [now] at traced
    cases traced
    exact ⟨_, .checks now state⟩
  | placing p copy =>
    rw [now] at traced
    cases traced
    obtain ⟨t, stored⟩ := SideTable.store_total loaded' copy.word
    exact ⟨_, .places now stored⟩
  | publishing p copy =>
    rw [now] at traced
    cases traced
    obtain ⟨t, stored⟩ := SideTable.store_total loaded forwarded.toUInt64
    exact ⟨_, .publishes now stored⟩
  | spinning p seen =>
    rw [now] at traced
    cases traced
    cases wait : isClaimed seen with
    | true => exact ⟨_, .looks now wait state⟩
    | false => exact ⟨_, .leaves now wait⟩
  | confirming p =>
    rw [now] at traced
    cases traced
    exact ⟨_, .confirms now state⟩
  | reading p =>
    rw [now] at traced
    cases traced
    exact ⟨_, .reads now loaded'⟩

/-- Collectors that trace objects of a cleared range at the same time, access by access in any order. Nobody
breaks off or gets stuck. An object is unclaimed and nothing has happened to it; or one collector alone was
answered that it is unclaimed, nobody else copies it, and once it is forwarded there is one copy, which is what
everyone is answered. The state of an object changes from unclaimed to claimed to forwarded and in no other way. -/
theorem copied_once {f₀ f : Forwarding} {first : Address} {bytes : Word} (arena : Arena e objects)
    (states : f₀.states.Beside e .byte 4) (copies : f₀.copies.Beside e .word 4)
    (cleared : Forwarding.clear first bytes f₀ = .ok () f)
    (range : ∀ o, objects o → first.toNat ≤ o.toNat ∧ o.toNat < first.toNat + bytes.toNat)
    (reachable : Reachable objects f s) :
    (∀ i fault, s.tracers i ≠ .brokenOff fault) ∧
    (∀ i o, (s.tracers i).object? = some o → ∃ s', Acts objects s i s') ∧
    (∀ o, objects o →
      s.table.stateOf o = .ok unclaimed ∧ s.claims o = [] ∧ s.copies o = [] ∧ s.answers o = [] ∨
      ∃ owner, s.claims o = [owner] ∧
        (s.table.stateOf o = .ok claimed ∧ (s.copies o = [] ∨ ∃ copy, s.copies o = [(owner, copy)]) ∧
            s.answers o = [] ∨
          s.table.stateOf o = .ok forwarded ∧ ∃ copy, copy ≠ .null ∧ s.copies o = [(owner, copy)] ∧
            ∀ answer ∈ s.answers o, answer.2 = copy)) ∧
    ∀ i s', Acts objects s i s' → ∀ o, objects o → ∃ state state', s.table.stateOf o = .ok state ∧
      s'.table.stateOf o = .ok state' ∧
      (state' = state ∨ state = unclaimed ∧ state' = claimed ∨ state = claimed ∧ state' = forwarded) := by
  obtain ⟨states', copies', clear⟩ := Forwarding.clear_ok states copies cleared
  have orderly := reachable.orderly arena (start_orderly states' copies' fun o object =>
    clear o (range o object).1 (range o object).2)
  refine ⟨fun i fault broken => ?_, fun i o traced => orderly.acts arena traced, fun o object => ?_,
    fun i s' acts o object => ?_⟩
  · have fits := orderly.fits i
    rw [broken] at fits
    exact fits
  · rw [orderly.stateOf arena object]
    simp only [Except.ok.injEq]
    exact (orderly.sound o object).fate
  · have next := acts.next arena orderly
    exact ⟨_, _, orderly.stateOf arena object, next.orderly.stateOf arena object, (next.turned o object).state⟩

/-- The table of a space of one page. -/
def onePage : Forwarding := ⟨⟨⟨4096⟩, 4096, 4, .byte, 256, .empty⟩, ⟨⟨4096⟩, 4096, 4, .word, 2048, .empty⟩⟩

/-- Two collectors see that an object is unclaimed. One of them claims and copies it, and the other one has to
start over. -/
theorem copied_once_of_two : ∃ (f : Forwarding) (s : Race Bool),
    Arena ⟨⟨1⟩, ⟨4096⟩, 4096⟩ (· = ⟨4112⟩) ∧ Forwarding.clear ⟨4096⟩ 4096 onePage = .ok () f ∧
      Reachable (· = ⟨4112⟩) f s ∧ s.tracers true = .checking ⟨4112⟩ ⟨65536⟩ ∧ s.tracers false = .claiming ⟨4112⟩ ∧
      s.copies ⟨4112⟩ = [(true, ⟨65536⟩)] ∧ (∃ owner, s.claims ⟨4112⟩ = [owner]) ∧
      (∀ i fault, s.tracers i ≠ .brokenOff fault) ∧ ∃ s', Acts (· = ⟨4112⟩) s false s' := by
  have arena : Arena ⟨⟨1⟩, ⟨4096⟩, 4096⟩ (· = ⟨4112⟩) := by
    refine ⟨⟨by decide, by decide, by decide⟩, ?_, ?_⟩
    · rintro o rfl
      decide
    · rintro o p rfl rfl differ
      exact absurd rfl differ
  have states : onePage.states.Beside ⟨⟨1⟩, ⟨4096⟩, 4096⟩ .byte 4 := ⟨rfl, rfl, rfl, rfl, by decide⟩
  have copies : onePage.copies.Beside ⟨⟨1⟩, ⟨4096⟩, 4096⟩ .word 4 := ⟨rfl, rfl, rfl, rfl, by decide⟩
  obtain ⟨f, cleared⟩ : ∃ f, Forwarding.clear ⟨4096⟩ 4096 onePage = .ok () f := ⟨_, rfl⟩
  obtain ⟨states', copies', clear⟩ := Forwarding.clear_ok states copies cleared
  have seen : f.stateOf ⟨4112⟩ = .ok unclaimed := by
    rw [Forwarding.stateOf, states'.loadByte_total arena.placed rfl (by decide) (by decide) (by decide),
      clear ⟨4112⟩ (by decide) (by decide)]
    rfl
  have loaded : f.states.load ⟨4112⟩ = .ok (f.states.entry ⟨4112⟩) :=
    states'.load_total arena.placed rfl (by decide) (by decide) (by decide)
  obtain ⟨t, stored⟩ := SideTable.store_total loaded claimed.toUInt64
  have proper : (⟨65536⟩ : Address) ≠ .null := by decide
  have first : Reachable (· = ⟨4112⟩) f (start f : Race Bool) := .start
  have reachable := ((((((first.step
    (.begins (i := true) rfl rfl)).step (.begins (i := false) rfl rfl)).step (.sees (i := true) rfl seen)).step
    (.sees (i := false) rfl seen)).step (.swaps (i := true) rfl seen stored)).step (.misses (i := false) rfl)).step
    (.makes (i := true) rfl proper)
  obtain ⟨well, able, fates, -⟩ := copied_once arena states copies cleared (by rintro o rfl; decide) reachable
  refine ⟨f, _, arena, cleared, reachable, rfl, rfl, rfl, ?_, well, able false ⟨4112⟩ rfl⟩
  rcases fates ⟨4112⟩ rfl with ⟨-, none, -⟩ | ⟨owner, claims, -⟩
  · cases none
  · exact ⟨owner, claims⟩

/-! ### The steps of a collector that nobody interrupts -/

open Relation

/-- A collector that claims an object at one go reads the state and swaps it. -/
theorem claim_acts {o : Address} {state : UInt8} {f : Forwarding} (now : s.tracers i = .claiming o)
    (ok : Forwarding.claim o s.table = .ok state f) :
    ∃ s', ReflTransGen (Acts objects · i ·) s s' ∧ s'.table = f ∧
      s'.tracers i = if isTaken state then .spinning o state else .copying o := by
  simp only [Forwarding.claim, Step.bind_ok, Step.ask_ok, Step.ite_step] at ok
  obtain ⟨seen, _, ⟨found, rfl⟩, ok⟩ := ok
  have first : Acts objects s i _ := .sees now found
  by_cases clear : (seen == unclaimed) = true
  · rw [if_pos clear] at ok
    simp only [Step.bind_ok, Step.on_ok, Forwarding.statesPart, Step.pure_ok] at ok
    obtain ⟨_, _, ⟨states, stored, rfl⟩, rfl, rfl⟩ := ok
    rw [beq_iff_eq.mp clear] at found first ⊢
    exact ⟨_, (ReflTransGen.single first).tail (.swaps (s.tracers_move i _) found stored), rfl, update_self ..⟩
  · rw [if_neg clear] at ok
    obtain ⟨rfl, rfl⟩ := Step.pure_ok.mp ok
    have taken : isTaken seen = true := by simpa [isTaken] using clear
    rw [if_pos taken] at first ⊢
    exact ⟨_, .single first, rfl, update_self ..⟩

/-- A collector that publishes a copy at one go writes its place, then the state. -/
theorem publish_acts {o copy : Address} {f : Forwarding} (now : s.tracers i = .checking o copy)
    (ok : Forwarding.publish o copy s.table = .ok () f) :
    ∃ s', ReflTransGen (Acts objects · i ·) s s' ∧ s'.table = f ∧ s'.tracers i = .idle ∧
      s'.answers o = s.answers o ++ [(i, copy)] := by
  simp only [Forwarding.publish, Step.bind_ok, Step.ask_ok, Step.ensure_ok, Step.on_ok, Forwarding.copiesPart,
    Forwarding.statesPart] at ok
  obtain ⟨state, _, ⟨found, rfl⟩, _, _, ⟨claimed, rfl⟩, _, _, ⟨copies, placed, rfl⟩, states, stored, rfl⟩ := ok
  have first : Acts objects s i _ := .checks now found
  rw [if_pos claimed] at first
  have second : Acts objects _ i _ := .places (s.tracers_move i _) placed
  have last : Acts objects { (s.move i (.placing o copy)).move i (.publishing o copy) with
      table := { s.table with copies } } i _ :=
    .publishes ((s.move i (.placing o copy)).tracers_move i (.publishing o copy)) stored
  exact ⟨_, ((ReflTransGen.single first).tail second).tail last, rfl, update_self .., update_self ..⟩

/-- A collector that looks at a claimed object at one go finds the copy, or it has to look again. -/
theorem look_acts {o : Address} {state : UInt8} {answer : Option Address} (now : s.tracers i = .spinning o state)
    (ok : s.table.look o state = .ok answer) :
    ∃ s', ReflTransGen (Acts objects · i ·) s s' ∧ s'.table = s.table ∧
      match answer with
      | some copy => s'.tracers i = .idle ∧ s'.answers o = s.answers o ++ [(i, copy)]
      | none => s'.tracers i = .spinning o claimed := by
  obtain ⟨seen, found, answered⟩ := Forwarding.look_seen ok
  -- It reads the state again if it has only seen that the object is claimed.
  have looked : ∃ r : Race ι, ReflTransGen (Acts objects · i ·) s r ∧ r.table = s.table ∧ r.answers = s.answers ∧
      r.tracers i = .spinning o seen := by
    by_cases wait : isClaimed state = true
    · rw [if_pos wait] at found
      exact ⟨_, .single (.looks now wait found), rfl, rfl, s.tracers_move i _⟩
    · rw [if_neg wait] at found
      cases found
      exact ⟨s, .refl, rfl, rfl, now⟩
  obtain ⟨r, before, table, answers, spinning⟩ := looked
  by_cases wait : isClaimed seen = true
  · rw [if_pos wait] at answered
    subst answered
    refine ⟨r, before, table, ?_⟩
    rw [spinning, beq_iff_eq.mp wait]
  · rw [if_neg wait] at answered
    obtain ⟨rfl, copy, read, rfl⟩ := answered
    obtain ⟨state', loaded⟩ := Forwarding.copyOf_ok read
    rw [← table] at state' loaded
    have first : Acts objects r i _ := .leaves spinning rfl
    have second : Acts objects _ i _ := .confirms (r.tracers_move i (.confirming o)) state'
    have last : Acts objects _ i _ := .reads ((r.move i (.confirming o)).tracers_move i (.reading o)) loaded
    refine ⟨_, ((before.tail first).tail second).tail last, table, update_self .., ?_⟩
    rw [← answers]
    exact update_self ..

end Race

end TracingHeap
