import Mathlib.Data.List.Perm.Basic
import TracingHeap.Proofs.Markings
import TracingHeap.Proofs.Treadmills

/-! Treadmills over whole runs. Objects come between collections and, as copies, during them; a collection turns the lists,
saves what it reaches, and gives back what is left on the lists that it collects. No object is lost or listed twice on the
way, in whatever order collections of both kinds follow each other. -/

namespace TracingHeap

open List

/-! ### Sets as lists -/

section Sets

variable {s : Std.TreeSet Address} {o : Address}

theorem nodup_toList (s : Std.TreeSet Address) : s.toList.Nodup :=
  Std.TreeSet.distinct_toList.imp fun differ same => differ (Std.compare_eq_iff_eq.mpr same)

theorem toList_insert_perm (absent : o ∉ s) : (s.insert o).toList ~ o :: s.toList := by
  refine (perm_ext_iff_of_nodup (nodup_toList _) ?_).mpr fun p => ?_
  · exact nodup_cons.mpr ⟨fun member => absent (Std.TreeSet.mem_toList.mp member), nodup_toList s⟩
  · rw [Std.TreeSet.mem_toList, mem_insert_address, mem_cons, Std.TreeSet.mem_toList]

theorem toList_erase_perm (present : o ∈ s) : o :: (s.erase o).toList ~ s.toList := by
  refine (perm_ext_iff_of_nodup ?_ (nodup_toList s)).mpr fun p => ?_
  · refine nodup_cons.mpr ⟨fun member => ?_, nodup_toList _⟩
    exact (mem_erase_address.mp (Std.TreeSet.mem_toList.mp member)).1 rfl
  · rw [mem_cons, Std.TreeSet.mem_toList, Std.TreeSet.mem_toList, mem_erase_address]
    by_cases same : p = o
    · subst same
      simp [present]
    · simp [same]

end Sets

namespace Treadmill

variable {t t' : Treadmill} {o : Address} {full allocated isYoung : Bool}

/-! ### The four lists as one -/

/-- The objects of the four lists, one list after the other. -/
def objects (t : Treadmill) : List Address := t.old.toList ++ t.survivors.toList ++ t.young.toList ++ t.fresh.toList

instance (t : Treadmill) (o : Address) : Decidable (t.Lists o) :=
  inferInstanceAs (Decidable (o ∈ t.fresh ∨ o ∈ t.survivors ∨ o ∈ t.young ∨ o ∈ t.old))

theorem mem_objects : o ∈ t.objects ↔ t.Lists o := by
  simp only [objects, mem_append, Std.TreeSet.mem_toList, Lists]
  tauto

/-- On how many of the four lists an object is. -/
def places (t : Treadmill) (o : Address) : Nat := [t.old, t.survivors, t.young, t.fresh].countP (·.contains o)

theorem count_objects (t : Treadmill) (o : Address) : t.objects.count o = t.places o := by
  have single : ∀ s : Std.TreeSet Address, s.toList.count o = if s.contains o then 1 else 0 := fun s => by
    rw [(nodup_toList s).count]
    simp only [Std.TreeSet.mem_toList, Std.TreeSet.mem_iff_contains]
  simp only [objects, places, count_append, single, countP_cons, countP_nil]
  omega

theorem length_objects (t : Treadmill) : t.objects.length = t.size := by
  simp only [objects, length_append, Std.TreeSet.length_toList, size]

theorem objects_add (absent : ¬ t.Lists o) : (t.add o allocated).objects ~ o :: t.objects := by
  obtain ⟨fresh, survivors⟩ : o ∉ t.fresh ∧ o ∉ t.survivors :=
    ⟨fun member => absent (.inl member), fun member => absent (.inr (.inl member))⟩
  refine perm_iff_count.mpr fun p => ?_
  cases allocated with
  | true =>
    have grown := (toList_insert_perm fresh).count_eq p
    simp only [add, objects, if_true, count_append, count_cons] at grown ⊢
    omega
  | false =>
    have grown := (toList_insert_perm survivors).count_eq p
    simp only [add, objects, Bool.false_eq_true, if_false, count_append, count_cons] at grown ⊢
    omega

/-- An object that is to be collected has not been saved. -/
theorem unsaved (distinct : t.objects.Nodup) (listed : o ∈ t.young ∨ o ∈ t.old) : o ∉ t.survivors := by
  intro saved
  have once := nodup_iff_count_le_one.mp distinct o
  simp only [objects, count_append] at once
  have positive := count_pos_iff.mpr (Std.TreeSet.mem_toList.mpr saved)
  rcases listed with young | old
  · have twice := count_pos_iff.mpr (Std.TreeSet.mem_toList.mpr young)
    omega
  · have twice := count_pos_iff.mpr (Std.TreeSet.mem_toList.mpr old)
    omega

theorem listed_of_collects (listed : t.collects o isYoung = true) : o ∈ t.young ∨ o ∈ t.old := by
  cases isYoung with
  | true => exact .inl (Std.TreeSet.mem_iff_contains.mpr listed)
  | false => exact .inr (Std.TreeSet.mem_iff_contains.mpr listed)

theorem objects_save {u : Unit} (distinct : t.objects.Nodup) (listed : t.collects o isYoung = true)
    (ok : save o isYoung t = .ok u t') : t'.objects ~ t.objects := by
  have saved := toList_insert_perm (unsaved distinct (listed_of_collects listed))
  refine perm_iff_count.mpr fun p => ?_
  have grown := saved.count_eq p
  rw [LargeSpace.save_ok ok]
  cases isYoung with
  | true =>
    have fewer := (toList_erase_perm (Std.TreeSet.mem_iff_contains.mpr listed)).count_eq p
    simp only [objects, if_true, count_append, count_cons] at grown fewer ⊢
    omega
  | false =>
    have fewer := (toList_erase_perm (Std.TreeSet.mem_iff_contains.mpr listed)).count_eq p
    simp only [objects, Bool.false_eq_true, if_false, count_append, count_cons] at grown fewer ⊢
    omega

theorem toList_empty : (∅ : Std.TreeSet Address).toList = [] :=
  eq_nil_iff_forall_not_mem.mpr fun _ member => Std.TreeSet.not_mem_emptyc (Std.TreeSet.mem_toList.mp member)

theorem objects_turn (young : t.young.toList = []) (old : full = true → t.old.toList = []) :
    (t.turn full).objects ~ t.objects := by
  refine perm_iff_count.mpr fun p => ?_
  cases full with
  | true =>
    simp only [turn, objects, if_true, toList_empty, young, old rfl, count_append, count_nil]
    omega
  | false =>
    simp only [turn, objects, Bool.false_eq_true, if_false, toList_empty, young, count_append, count_nil]
    omega

theorem objects_takeYoung (t : Treadmill) : t.objects ~ t.takeYoung.1 ++ t.takeYoung.2.objects := by
  refine perm_iff_count.mpr fun p => ?_
  simp only [takeYoung, objects, toList_empty, count_append, count_nil]
  omega

theorem objects_takeOld (t : Treadmill) : t.objects ~ t.takeOld.1 ++ t.takeOld.2.objects := by
  refine perm_iff_count.mpr fun p => ?_
  simp only [takeOld, objects, toList_empty, count_append, count_nil]
  omega

/-! ### Runs -/

/-- What is asked of a treadmill. -/
inductive Call where
  | add (object : Address) (allocated : Bool)
  | turn (full : Bool)
  | save (object : Address) (isYoung : Bool)
  | takeYoung
  | takeOld
  deriving DecidableEq

/-- What a treadmill does when it is asked, and the objects that it gives back. -/
def Call.perform : Call → Step Treadmill (List Address)
  | add object allocated => do
    modify (·.add object allocated)
    return []
  | turn full => do
    modify (·.turn full)
    return []
  | save object isYoung => do
    Treadmill.save object isYoung
    return []
  | takeYoung => modifyGet Treadmill.takeYoung
  | takeOld => modifyGet Treadmill.takeOld

/-- A call, and the objects that were given back. -/
structure Event where
  call : Call
  given : List Address

/-- The objects that were added. -/
def added (events : List Event) : List Address :=
  events.filterMap fun e => match e.call with
    | .add object _ => some object
    | _ => none

/-- The objects that were saved. -/
def saved (events : List Event) : List Address :=
  events.filterMap fun e => match e.call with
    | .save object _ => some object
    | _ => none

/-- The objects that were given back. -/
def returned (events : List Event) : List Address := events.flatMap Event.given

/-- How far a collection has come. -/
inductive Stage where
  | resting
  | collecting (full : Bool)
  /-- Young objects were given back, and old ones are next. -/
  | sweeping
  deriving DecidableEq

/-- What may be asked of a treadmill before the lists turn again, and how far the collection has come then. -/
inductive Permits (t : Treadmill) : Stage → Call → Stage → Prop
  /-- Between collections objects come that are not on the lists. -/
  | add {o : Address} {allocated : Bool} (absent : ¬ t.Lists o) : Permits t .resting (.add o allocated) .resting
  /-- During a collection copies come. -/
  | adopt {full : Bool} {o : Address} (absent : ¬ t.Lists o) : Permits t (.collecting full) (.add o false) (.collecting full)
  /-- An object that was reached is on the list being collected. -/
  | save {full isYoung : Bool} {o : Address} (listed : t.collects o isYoung = true) :
    Permits t (.collecting full) (.save o isYoung) (.collecting full)
  /-- A collection of the young is over then. -/
  | takeYoung {full : Bool} : Permits t (.collecting full) .takeYoung (if full then .sweeping else .resting)
  | takeOld : Permits t .sweeping .takeOld .resting

/-- What happened before the lists turned last, and since; how far the collection has come; and the treadmill then. -/
inductive Run : List Event → List Event → Stage → Treadmill → Prop
  | start : Run [] [] .resting .empty
  | turn {past cycle : List Event} {t t' : Treadmill} {given : List Address} (before : Run past cycle .resting t) (full : Bool)
      (ran : (Call.turn full).perform t = .ok given t') : Run (past ++ cycle) [⟨.turn full, given⟩] (.collecting full) t'
  | call {past cycle : List Event} {stage stage' : Stage} {t t' : Treadmill} {call : Call} {given : List Address}
      (before : Run past cycle stage t) (permits : t.Permits stage call stage') (ran : call.perform t = .ok given t') :
      Run past (cycle ++ [⟨call, given⟩]) stage' t'

variable {past cycle events : List Event} {stage stage' : Stage} {call : Call} {given : List Address} {e : Event}

theorem added_append (events rest : List Event) : added (events ++ rest) = added events ++ added rest := filterMap_append

theorem saved_append (events rest : List Event) : saved (events ++ rest) = saved events ++ saved rest := filterMap_append

theorem returned_append (events rest : List Event) : returned (events ++ rest) = returned events ++ returned rest :=
  flatMap_append

theorem returned_singleton (e : Event) : returned [e] = e.given := flatMap_singleton ..

/-- A call succeeds if it is permitted. -/
theorem Permits.perform (permits : t.Permits stage call stage') : ∃ given t', call.perform t = .ok given t' := by
  cases permits with
  | add => exact ⟨_, _, rfl⟩
  | adopt => exact ⟨_, _, rfl⟩
  | save listed =>
    obtain ⟨t', saved⟩ := save_total listed
    exact ⟨_, t', Step.bind_ok.mpr ⟨(), t', saved, rfl⟩⟩
  | takeYoung => exact ⟨_, _, rfl⟩
  | takeOld => exact ⟨_, _, rfl⟩

/-! ### What a call moves -/

/-- What a call other than a turn does to the lists. -/
structure Moves (t : Treadmill) (e : Event) (t' : Treadmill) : Prop where
  plain : ∀ full, e.call ≠ .turn full
  objects : added [e] ++ t.objects ~ e.given ++ t'.objects
  distinct : t.objects.Nodup → t'.objects.Nodup
  survivors : ∀ o ∈ t.survivors, o ∈ t'.survivors
  safe : ∀ o ∈ saved [e], o ∈ t'.survivors
  given : ∀ o ∈ e.given, o ∈ t.young ∨ o ∈ t.old
  collected : ∀ o, o ∈ t.young ∨ o ∈ t.old → o ∈ saved [e] ∨ o ∈ e.given ∨ o ∈ t'.young ∨ o ∈ t'.old

theorem moves_add (absent : ¬ t.Lists o) : t.Moves ⟨.add o allocated, []⟩ (t.add o allocated) where
  plain := nofun
  objects := (objects_add absent).symm
  distinct distinct :=
    (objects_add absent).nodup_iff.mpr (nodup_cons.mpr ⟨fun member => absent (mem_objects.mp member), distinct⟩)
  survivors p member := by
    unfold add
    split
    · exact member
    · exact mem_insert_address.mpr (.inr member)
  safe := nofun
  given := nofun
  collected p member := by
    unfold add
    split <;> exact .inr (.inr member)

theorem moves_save {u : Unit} (distinct : t.objects.Nodup) (listed : t.collects o isYoung = true)
    (ok : save o isYoung t = .ok u t') : t.Moves ⟨.save o isYoung, []⟩ t' where
  plain := nofun
  objects := (objects_save distinct listed ok).symm
  distinct := (objects_save distinct listed ok).nodup_iff.mpr
  survivors p member := by
    rw [LargeSpace.save_ok ok]
    cases isYoung <;> exact mem_insert_address.mpr (.inr member)
  safe p member := by
    obtain rfl : p = o := mem_singleton.mp member
    rw [LargeSpace.save_ok ok]
    cases isYoung <;> exact mem_insert_address.mpr (.inl rfl)
  given := nofun
  collected p member := by
    by_cases same : p = o
    · exact .inl (mem_singleton.mpr same)
    · rw [LargeSpace.save_ok ok]
      cases isYoung with
      | true => exact .inr (.inr (member.imp_left fun young => mem_erase_address.mpr ⟨same, young⟩))
      | false => exact .inr (.inr (member.imp_right fun old => mem_erase_address.mpr ⟨same, old⟩))

theorem moves_takeYoung (t : Treadmill) : t.Moves ⟨.takeYoung, t.young.toList⟩ t.takeYoung.2 where
  plain := nofun
  objects := objects_takeYoung t
  distinct distinct := (nodup_append.mp ((objects_takeYoung t).nodup_iff.mp distinct)).2.1
  survivors _ member := member
  safe := nofun
  given _ member := .inl (Std.TreeSet.mem_toList.mp member)
  collected _ member := .inr (member.imp Std.TreeSet.mem_toList.mpr .inr)

theorem moves_takeOld (t : Treadmill) : t.Moves ⟨.takeOld, t.old.toList⟩ t.takeOld.2 where
  plain := nofun
  objects := objects_takeOld t
  distinct distinct := (nodup_append.mp ((objects_takeOld t).nodup_iff.mp distinct)).2.1
  survivors _ member := member
  safe := nofun
  given _ member := .inr (Std.TreeSet.mem_toList.mp member)
  collected _ member := .inr (member.symm.imp Std.TreeSet.mem_toList.mpr .inl)

/-! ### What always holds -/

/-- The collected lists that are empty at a stage. -/
def Stage.Settles (t : Treadmill) : Stage → Prop
  | resting => t.young.toList = [] ∧ t.old.toList = []
  | collecting full => full = false → t.old.toList = []
  | sweeping => t.young.toList = []

theorem settles_add (settles : stage.Settles t) : stage.Settles (t.add o allocated) := by
  cases allocated <;> cases stage <;> exact settles

theorem settles_save {u : Unit} (settles : (Stage.collecting full).Settles t) (listed : t.collects o isYoung = true)
    (ok : save o isYoung t = .ok u t') : (Stage.collecting full).Settles t' := by
  intro young
  have none := settles young
  rw [LargeSpace.save_ok ok]
  cases isYoung with
  | true => exact none
  | false =>
    have old := Std.TreeSet.mem_toList.mpr (Std.TreeSet.mem_iff_contains.mpr listed)
    rw [none] at old
    exact absurd old not_mem_nil

/-- What the lists hold is what was added and not given back. What was saved since the lists turned survives, and what a
collection of the whole heap found on the lists has been saved or given back, or is still to be judged. -/
structure Sound (past cycle : List Event) (stage : Stage) (t : Treadmill) : Prop where
  distinct : t.objects.Nodup
  balance : added (past ++ cycle) ~ returned (past ++ cycle) ++ t.objects
  settles : stage.Settles t
  safe : ∀ o ∈ saved cycle, o ∈ t.survivors
  apart : (saved cycle).Disjoint (returned cycle)
  unreturned : ∀ full, stage = .collecting full → returned cycle = []
  judged : .turn true ∈ cycle.map Event.call → ∀ o, (returned past).count o < (added past).count o →
    o ∈ saved cycle ∨ o ∈ returned cycle ∨ o ∈ t.young ∨ o ∈ t.old

theorem sound_empty : Sound [] [] .resting .empty where
  distinct := by
    simp only [objects, empty, toList_empty]
    exact nodup_nil
  balance := by
    simp only [objects, empty, toList_empty]
    exact Perm.nil
  settles := ⟨toList_empty, toList_empty⟩
  safe := nofun
  apart := disjoint_nil_left _
  unreturned := nofun
  judged := nofun

theorem Sound.turns (sound : Sound past cycle .resting t) (full : Bool) :
    Sound (past ++ cycle) [⟨.turn full, []⟩] (.collecting full) (t.turn full) where
  distinct := (objects_turn sound.settles.1 fun _ => sound.settles.2).nodup_iff.mpr sound.distinct
  balance := by
    rw [added_append, returned_append]
    simpa [added, returned] using sound.balance.trans ((objects_turn sound.settles.1 fun _ => sound.settles.2).symm.append_left _)
  settles young := by
    subst young
    exact sound.settles.2
  safe := nofun
  apart := disjoint_nil_left _
  unreturned _ _ := rfl
  judged covers o pending := by
    obtain rfl : full = true := (Call.turn.inj (mem_singleton.mp covers)).symm
    have counts := sound.balance.count_eq o
    rw [count_append] at counts
    have listed := mem_objects.mp (count_pos_iff.mp (show 0 < t.objects.count o by omega))
    rcases listed with fresh | survived | young | old
    · exact .inr (.inr (.inl fresh))
    · exact .inr (.inr (.inr survived))
    · exact absurd (Std.TreeSet.mem_toList.mpr young) (by rw [sound.settles.1]; exact not_mem_nil)
    · exact absurd (Std.TreeSet.mem_toList.mpr old) (by rw [sound.settles.2]; exact not_mem_nil)

theorem Sound.calls (sound : Sound past cycle stage t) (moves : t.Moves e t') (settles : stage'.Settles t')
    (saves : saved [e] = [] ∨ returned (cycle ++ [e]) = [])
    (unreturned : ∀ full, stage' = .collecting full → returned (cycle ++ [e]) = []) :
    Sound past (cycle ++ [e]) stage' t' where
  distinct := moves.distinct sound.distinct
  balance := by
    refine perm_iff_count.mpr fun o => ?_
    have before := sound.balance.count_eq o
    have moved := moves.objects.count_eq o
    simp only [← append_assoc, added_append _ [e], returned_append _ [e], returned_singleton, count_append] at before moved ⊢
    omega
  settles := settles
  safe o member := by
    rw [saved_append, mem_append] at member
    exact member.elim (fun before => moves.survivors o (sound.safe o before)) (moves.safe o)
  apart o saved' given := by
    rcases saves with none | none
    · rw [saved_append, none, append_nil] at saved'
      rw [returned_append, returned_singleton, mem_append] at given
      rcases given with before | now
      · exact sound.apart saved' before
      · exact unsaved sound.distinct (moves.given o now) (sound.safe o saved')
    · rw [none] at given
      exact not_mem_nil given
  unreturned := unreturned
  judged covers o pending := by
    have covers : .turn true ∈ cycle.map Event.call := by
      rw [map_append, mem_append] at covers
      exact covers.resolve_right fun turned => moves.plain true (mem_singleton.mp turned).symm
    rw [saved_append, returned_append, returned_singleton, mem_append, mem_append]
    rcases sound.judged covers o pending with before | before | listed
    · exact .inl (.inl before)
    · exact .inr (.inl (.inl before))
    · rcases moves.collected o listed with now | now | waits
      · exact .inl (.inr now)
      · exact .inr (.inl (.inr now))
      · exact .inr (.inr waits)

/-- What holds of a treadmill after any run. -/
theorem Run.sound (run : Run past cycle stage t) : Sound past cycle stage t := by
  induction run with
  | start => exact sound_empty
  | turn before full ran sound =>
    cases ran
    exact sound.turns full
  | @call past cycle _ _ t _ _ _ before permits ran sound =>
    cases permits with
    | add absent =>
      cases ran
      exact sound.calls (moves_add absent) (settles_add sound.settles) (.inl rfl) nofun
    | @adopt full o absent =>
      cases ran
      refine sound.calls (moves_add absent) (settles_add sound.settles) (.inl rfl) fun _ _ => ?_
      rw [returned_append, sound.unreturned full rfl]
      rfl
    | @save full isYoung o listed =>
      obtain ⟨_, t', saved, last⟩ := Step.bind_ok.mp ran
      cases last
      have unreturned : returned (cycle ++ [⟨.save o isYoung, []⟩]) = [] := by
        rw [returned_append, sound.unreturned full rfl]
        rfl
      exact sound.calls (moves_save sound.distinct listed saved) (settles_save sound.settles listed saved) (.inr unreturned)
        fun _ _ => unreturned
    | @takeYoung full =>
      cases ran
      cases full with
      | true => exact sound.calls (moves_takeYoung _) toList_empty (.inl rfl) nofun
      | false => exact sound.calls (moves_takeYoung _) ⟨toList_empty, sound.settles rfl⟩ (.inl rfl) nofun
    | takeOld =>
      cases ran
      exact sound.calls (moves_takeOld _) ⟨sound.settles, toList_empty⟩ (.inl rfl) nofun

/-- No run loses an object. Each is on one list for as long as it was added more often than it was given back, so that it is
given back once for each time that it was added. What is saved in a cycle is not given back in it, and what was there when the
lists turned for a collection of the whole heap and was not saved has been given back when the collection is over. Nobody ever
finds that an object is not on the list that it is to be taken from. -/
theorem Run.conserves (run : Run past cycle stage t) :
    (∀ o, (added (past ++ cycle)).count o = (returned (past ++ cycle)).count o + t.places o ∧ t.places o ≤ 1) ∧
      t.size + (returned (past ++ cycle)).length = (added (past ++ cycle)).length ∧ (saved cycle).Disjoint (returned cycle) ∧
      (stage = .resting → .turn true ∈ cycle.map Event.call → ∀ o, (returned past).count o < (added past).count o →
        o ∉ saved cycle → o ∈ returned cycle) ∧
      ∀ call stage', t.Permits stage call stage' → ∃ given t', call.perform t = .ok given t' := by
  have sound := run.sound
  refine ⟨fun o => ⟨?_, ?_⟩, ?_, sound.apart, ?_, fun _ _ permits => permits.perform⟩
  · rw [← count_objects, ← count_append]
    exact sound.balance.count_eq o
  · rw [← count_objects]
    exact nodup_iff_count_le_one.mp sound.distinct o
  · rw [sound.balance.length_eq, length_append, length_objects, Nat.add_comm]
  · rintro rfl covers o pending unsaved
    rcases sound.judged covers o pending with survived | given | young | old
    · exact absurd survived unsaved
    · exact given
    · exact absurd (Std.TreeSet.mem_toList.mpr young) (by rw [sound.settles.1]; exact not_mem_nil)
    · exact absurd (Std.TreeSet.mem_toList.mpr old) (by rw [sound.settles.2]; exact not_mem_nil)

/-- Two objects are allocated and one is copied. The second one is dead when the young are collected, and its place is taken
by another one. -/
def firstRound : List Event :=
  [⟨.add ⟨4096⟩ true, []⟩, ⟨.add ⟨8192⟩ true, []⟩, ⟨.turn false, []⟩, ⟨.save ⟨4096⟩ true, []⟩, ⟨.add ⟨12288⟩ false, []⟩,
    ⟨.takeYoung, [⟨8192⟩]⟩, ⟨.add ⟨8192⟩ true, []⟩, ⟨.add ⟨16384⟩ true, []⟩]

/-- Then the whole heap is collected, and only the copy and the last object are reached. -/
def secondRound : List Event :=
  [⟨.turn true, []⟩, ⟨.save ⟨12288⟩ false, []⟩, ⟨.save ⟨16384⟩ true, []⟩, ⟨.takeYoung, [⟨8192⟩]⟩, ⟨.takeOld, [⟨4096⟩]⟩]

theorem secondRound_run : ∃ t, Run firstRound secondRound .resting t := by
  have first := Run.start.call (@Permits.add _ ⟨4096⟩ true (by decide)) rfl
  have second := first.call (@Permits.add _ ⟨8192⟩ true (by decide)) rfl
  have turned := second.turn false rfl
  have saved := turned.call (@Permits.save _ _ true ⟨4096⟩ (by decide)) rfl
  have copied := saved.call (@Permits.adopt _ _ ⟨12288⟩ (by decide)) rfl
  have swept := copied.call .takeYoung rfl
  have third := swept.call (@Permits.add _ ⟨8192⟩ true (by decide)) rfl
  have fourth := third.call (@Permits.add _ ⟨16384⟩ true (by decide)) rfl
  have turned := fourth.turn true rfl
  have saved := turned.call (@Permits.save _ _ false ⟨12288⟩ (by decide)) rfl
  have saved := saved.call (@Permits.save _ _ true ⟨16384⟩ (by decide)) rfl
  have swept := saved.call .takeYoung rfl
  exact ⟨_, swept.call .takeOld rfl⟩

/-- Two of the five objects are left, and the one that was copied in the first round went in the second. -/
theorem secondRound_conserves : ∃ t, Run firstRound secondRound .resting t ∧ t.size = 2 ∧ t.places ⟨12288⟩ = 1 ∧
    t.places ⟨8192⟩ = 0 ∧ ⟨4096⟩ ∈ returned secondRound ∧ (saved secondRound).Disjoint (returned secondRound) := by
  obtain ⟨t, run⟩ := secondRound_run
  obtain ⟨counts, size, apart, completes, -⟩ := run.conserves
  have copy := (counts ⟨12288⟩).1
  have dead := (counts ⟨8192⟩).1
  rw [show (added (firstRound ++ secondRound)).count ⟨12288⟩ = 1 by decide,
    show (returned (firstRound ++ secondRound)).count ⟨12288⟩ = 0 by decide] at copy
  rw [show (added (firstRound ++ secondRound)).count ⟨8192⟩ = 2 by decide,
    show (returned (firstRound ++ secondRound)).count ⟨8192⟩ = 2 by decide] at dead
  rw [show (returned (firstRound ++ secondRound)).length = 3 by decide,
    show (added (firstRound ++ secondRound)).length = 5 by decide] at size
  exact ⟨t, run, by omega, by omega, by omega, completes rfl (by decide) ⟨4096⟩ (by decide) (by decide), apart⟩

end Treadmill

end TracingHeap
