import TracingHeap.Proofs.Crews
import TracingHeap.Proofs.Shares

/-! A crew in a closure. What it owes is what all its workers have at hand and what lies in packets. Once
the queue is drained every worker waits or has finished, so a closure that all have ended owes nothing. -/

namespace TracingHeap

open List Memory Work Collector

/-- The memory that the mutators have taken and not handed on. -/
def Heap.buffers (h : Heap) : List (SpaceId × Span) := h.program.mutators.toList.flatMap (·.allocators.buffers)

/-- The free cells that the mutators have taken. -/
def Heap.keys (h : Heap) : List (Nat × Address) := h.program.mutators.toList.flatMap (·.allocators.keys)

namespace Worker

/-- The share that the worker works off. -/
def share? (w : Worker) : Option Share :=
  match w.activity with
  | .closing s => some s
  | _ => none

/-- Does the worker wait for others to leave objects to be scanned? -/
def isIdle (w : Worker) : Bool := w.share?.any (·.stage == .waiting)

/-- Is the worker done with the closure? -/
def isDone (turn : Turn) (w : Worker) : Bool := w.hasEnded turn || w.share?.any (·.stage == .finished)

/-- Where the collector of the worker stands during the closure. -/
def closureState (turn : Turn) (w : Worker) : TraceState :=
  if w.hasEnded turn || w.share?.isSome then .closing else .prepared

end Worker

namespace Collector

/-- The memory that the collector has taken for copies. -/
def buffers (c : Collector) : List (SpaceId × Span) := c.copies.allocators.buffers

/-- The free cells that the collector has taken for copies. -/
def keys (c : Collector) : List (Nat × Address) := c.copies.allocators.keys

end Collector

/-- The collectors of a team. -/
abbrev Team.collectors (team : List Worker) : List Collector := team.map (·.collector)

namespace Team

/-- Slots that workers have at hand. -/
def slots (team : List Worker) (x : Slot) : Prop := ∃ w ∈ team, ∃ s, w.share? = some s ∧ x ∈ s.slots

/-- Remembered objects that workers have at hand. -/
def remembered (team : List Worker) (x : Address) : Prop := ∃ w ∈ team, ∃ s, w.share? = some s ∧ x ∈ s.remembered

/-- Objects that workers have left in their buffers. -/
def objects (team : List Worker) (x : Address) : Prop := ∃ w ∈ team, x ∈ w.collector.buffer

/-- What every collector of a closure relies on. -/
structure Shared (cs : List Collector) (h : Heap) (pieces : List Piece) : Prop where
  held : h.spaces.Held h.memory pieces (cs.flatMap Collector.buffers ++ h.buffers) (cs.flatMap Collector.keys ++ h.keys)
  tracked : h.spaces.Tracked pieces
  aimed : ∀ c ∈ cs, c.copies.Aimed h
  published : ∀ p ∈ pieces, ¬ h.spaces.Claimed p
  still : ¬ h.spaces.Evacuates h.destination
  old : ∀ o, o ∉ h.spaces.large.treadmill.fresh

/-- A closure is over: there are no packets, and the collectors have nothing at hand. -/
structure Spent (cs : List Collector) (h : Heap) : Prop where
  roots : h.backlog.roots = []
  remembered : h.backlog.remembered = []
  stack : h.backlog.objects.stack = []
  collectors : ∀ c ∈ cs, c.state = .closing ∧ c.buffer = #[]

/-- What a team in a closure owes. -/
def Owing (g : Outset) (team : List Worker) (h : Heap) (pieces : List Piece) : Prop :=
  Closing g h pieces (fun x => slots team x ∨ ∃ packet ∈ h.backlog.roots, x ∈ packet)
    (fun x => objects team x ∨ ∃ packet ∈ h.backlog.objects.stack, x ∈ packet)
    (fun x => remembered team x ∨ ∃ packet ∈ h.backlog.remembered, x ∈ packet)

/-- A team in the middle of a closure. -/
structure Labours (g : Outset) (turn : Turn) (team : List Worker) (h : Heap) (pieces : List Piece) : Prop where
  laboured : g.heap.Laboured h
  shared : Shared (collectors team) h pieces
  owing : Owing g team h pieces
  packed : h.backlog.objects.Packed
  few : team.length < 2 ^ 64
  participants : h.backlog.objects.participants.toNat = team.length
  idle : h.backlog.objects.idle.toNat = team.countP Worker.isIdle
  calm : ∀ w ∈ team, ∀ s, w.share? = some s → (s.stage = .waiting ∨ s.stage = .finished → s.Idle w.collector) ∧ s.Cleared h
  done : ∀ w ∈ team, w.isDone turn = true → h.backlog.objects.drained = true ∧ w.collector.buffer = #[]
  drained : h.backlog.objects.drained = true → h.backlog.objects.stack = [] ∧
    ∀ w ∈ team, w.isDone turn = true ∨ w.isIdle = true
  states : ∀ w ∈ team, w.collector.state = w.closureState turn

variable {g : Outset} {turn : Turn} {team team' others : List Worker} {w w' : Worker} {h h' : Heap}
  {pieces pieces' : List Piece} {s next : Share} {c : Collector} {cs cs' : List Collector}

theorem Shared.of_perm (shared : Shared cs h pieces) (same : cs' ~ cs) : Shared cs' h pieces where
  held := shared.held.of_perm (.refl _) ((same.flatMap_right _).append_right _) ((same.flatMap_right _).append_right _)
  tracked := shared.tracked
  aimed c member := shared.aimed c (same.mem_iff.mp member)
  published := shared.published
  still := shared.still
  old := shared.old

theorem Labours.of_perm (labours : Labours g turn team h pieces) (same : team' ~ team) :
    Labours g turn team' h pieces where
  laboured := labours.laboured
  shared := labours.shared.of_perm (same.map _)
  owing := labours.owing.congr
    (fun _ => or_congr_left (exists_congr fun _ => and_congr_left fun _ => same.mem_iff))
    (fun _ => or_congr_left (exists_congr fun _ => and_congr_left fun _ => same.mem_iff))
    (fun _ => or_congr_left (exists_congr fun _ => and_congr_left fun _ => same.mem_iff))
  packed := labours.packed
  few := same.length_eq ▸ labours.few
  participants := labours.participants.trans same.length_eq.symm
  idle := labours.idle.trans (same.countP_eq _).symm
  calm w member := labours.calm w (same.mem_iff.mp member)
  done w member := labours.done w (same.mem_iff.mp member)
  drained ended := ⟨(labours.drained ended).1, fun w member => (labours.drained ended).2 w (same.mem_iff.mp member)⟩
  states w member := labours.states w (same.mem_iff.mp member)

/-- What one collector shares with the others. -/
theorem Shared.ready (shared : Shared (c :: cs) h pieces) :
    Ready c h pieces (cs.flatMap Collector.buffers ++ h.buffers) (cs.flatMap Collector.keys ++ h.keys) where
  held := shared.held.of_perm (.refl _) (by rw [flatMap_cons, append_assoc]; rfl) (by rw [flatMap_cons, append_assoc]; rfl)
  tracked := shared.tracked
  aimed := shared.aimed c mem_cons_self
  published := shared.published
  still := shared.still
  old := shared.old

theorem Shared.of_ready {buffers : List (SpaceId × Span)} {keys : List (Nat × Address)}
    (ready : Ready c h pieces (cs.flatMap Collector.buffers ++ buffers) (cs.flatMap Collector.keys ++ keys))
    (same : h.buffers = buffers) (sameKeys : h.keys = keys) (aimed : ∀ d ∈ cs, d.copies.Aimed h) :
    Shared (c :: cs) h pieces where
  held := ready.held.of_perm (.refl _) (by rw [flatMap_cons, append_assoc, same]; rfl)
    (by rw [flatMap_cons, append_assoc, sameKeys]; rfl)
  tracked := ready.tracked
  aimed d member := by
    rcases mem_cons.mp member with rfl | other
    · exact ready.aimed
    · exact aimed d other
  published := ready.published
  still := ready.still
  old := ready.old

theorem slots_cons (share : w.share? = some s) (x : Slot) : slots (w :: others) x ↔ x ∈ s.slots ∨ slots others x := by
  simp only [slots, mem_cons, exists_eq_or_imp, share, Option.some.injEq, exists_eq_left']

theorem remembered_cons (share : w.share? = some s) (x : Address) :
    remembered (w :: others) x ↔ x ∈ s.remembered ∨ remembered others x := by
  simp only [remembered, mem_cons, exists_eq_or_imp, share, Option.some.injEq, exists_eq_left']

theorem objects_cons (x : Address) : objects (w :: others) x ↔ x ∈ w.collector.buffer ∨ objects others x := by
  simp only [objects, mem_cons, exists_eq_or_imp]

/-- One worker's view of what a team owes. -/
theorem Owing.iff_view (share : w.share? = some s) : Owing g (w :: others) h pieces ↔
    Closing g h pieces (s.slotsDue h (slots others)) (Share.objectsDue w.collector h (objects others))
      (s.rememberedDue h (remembered others)) := by
  have one : ∀ x, s.slotsDue h (slots others) x ↔ slots (w :: others) x ∨ ∃ packet ∈ h.backlog.roots, x ∈ packet := by
    intro x
    rw [slots_cons share, Share.slotsDue, or_assoc, or_comm (a := slots others x)]
  have two : ∀ x, Share.objectsDue w.collector h (objects others) x ↔
      objects (w :: others) x ∨ ∃ packet ∈ h.backlog.objects.stack, x ∈ packet := by
    intro x
    rw [objects_cons, Share.objectsDue, Pending, or_assoc, or_assoc, or_comm (a := objects others x)]
  have three : ∀ x, s.rememberedDue h (remembered others) x ↔
      remembered (w :: others) x ∨ ∃ packet ∈ h.backlog.remembered, x ∈ packet := by
    intro x
    rw [remembered_cons share, Share.rememberedDue, or_assoc, or_comm (a := remembered others x)]
  exact ⟨fun owing => Closing.congr owing one two three,
    fun closing => closing.congr (fun x => (one x).symm) (fun x => (two x).symm) fun x => (three x).symm⟩

theorem isIdle_iff (share : w.share? = some s) : w.isIdle = true ↔ s.stage = .waiting := by
  simp only [Worker.isIdle, share, Option.any_some, beq_iff_eq]

theorem isDone_iff (share : w.share? = some s) : w.isDone turn = true ↔ s.stage = .finished := by
  have ended : w.hasEnded turn = false := by
    unfold Worker.share? at share
    cases activity : w.activity with
    | closing s' => exact Crew.not_ended_of_closing activity
    | starting => rw [activity] at share; cases share
    | waiting t => rw [activity] at share; cases share
    | finished => rw [activity] at share; cases share
    | brokenOff => rw [activity] at share; cases share
  simp only [Worker.isDone, ended, Bool.false_or, share, Option.any_some, beq_iff_eq]

theorem closureState_eq (share : w.share? = some s) : w.closureState turn = .closing := by
  rw [Worker.closureState, share, Option.isSome_some, Bool.or_true, if_pos rfl]

theorem closureState_of_ended (ended : w.hasEnded turn = true) : w.closureState turn = .closing := by
  rw [Worker.closureState, ended, Bool.true_or, if_pos rfl]

theorem closureState_of_fresh (unended : w.hasEnded turn = false) (unshared : w.share? = none) :
    w.closureState turn = .prepared := by
  rw [Worker.closureState, unended, unshared]
  rfl

theorem rejoin_idle {q : Packets Address} {count : Nat} (few : count < 2 ^ 64)
    (idle : q.idle.toNat = count + if s.stage = .waiting then 1 else 0) : (s.rejoin q).idle.toNat = count := by
  unfold Share.rejoin
  by_cases waiting : s.stage = .waiting
  · rw [if_pos waiting] at idle ⊢
    have one : (1 : UInt64).toNat = 1 := rfl
    have least : (1 : UInt64) ≤ q.idle := by
      rw [UInt64.le_iff_toNat_le, one]
      omega
    simp only [UInt64.toNat_sub_of_le _ _ least, one]
    omega
  · rw [if_neg waiting] at idle ⊢
    omega

theorem toNat_succ {n : Word} (small : n.toNat + 1 < 2 ^ 64) : (n + 1).toNat = n.toNat + 1 := by
  rw [UInt64.toNat_add]
  exact Nat.mod_eq_of_lt small

end Team

theorem Heap.Laboured.mutators {h h' : Heap} (laboured : h.Laboured h') :
    h'.program.mutators = h.program.mutators ∧ h'.scope.flipped = h.scope.flipped := by
  obtain ⟨_, _, _, _, _, _, _, _, rfl⟩ := laboured
  exact ⟨rfl, rfl⟩

namespace Team

variable {g : Outset} {turn : Turn} {team team' others : List Worker} {w w' : Worker} {h h' : Heap}
  {pieces pieces' : List Piece} {s next : Share}

/-- What a step does to those who wait and to the queue. -/
theorem Labours.queue {q' : Packets Address} (labours : Labours g turn (w :: others) h pieces)
    (share : w.share? = some s) (share' : w'.share? = some next) (unfinished : s.stage ≠ .finished)
    (moved : s.Moved h.backlog.objects next w'.collector q') :
    q'.participants.toNat = (w' :: others).length ∧ q'.idle.toNat = (w' :: others).countP Worker.isIdle ∧
      (w'.isDone turn = true → q'.drained = true ∧ w'.collector.buffer = #[]) ∧
      (h.backlog.objects.drained = true → q'.drained = true) ∧
      (q'.drained = true → q'.stack = [] ∧ ∀ v ∈ w' :: others, v.isDone turn = true ∨ v.isIdle = true) ∧
      (next.stage = .waiting ∨ next.stage = .finished → next.Idle w'.collector) := by
  obtain ⟨stack, drained, participants⟩ := s.rejoin_stack h.backlog.objects
  have few := labours.few
  rw [length_cons] at few
  have most := countP_le_length (p := Worker.isIdle) (l := others)
  have idle := labours.idle
  have here : w.isIdle = decide (s.stage = .waiting) := Bool.eq_iff_iff.mpr (by rw [isIdle_iff share, decide_eq_true_iff])
  rw [countP_cons, here] at idle
  simp only [decide_eq_true_eq] at idle
  have count := rejoin_idle (by omega) idle
  have total := labours.participants
  rw [length_cons] at total
  rw [length_cons, countP_cons]
  cases moved with
  | works active restacked woken =>
    have same := restacked.same
    have awake : w'.isIdle = false := Bool.eq_false_iff.mpr fun bad => active.1 ((isIdle_iff share').mp bad)
    have flag : q'.drained = h.backlog.objects.drained := by rw [same]; exact drained
    refine ⟨?_, ?_, fun bad => absurd ((isDone_iff share').mp bad) active.2, fun ended => flag.trans ended, fun ended => ?_,
      fun bad => (bad.elim active.1 active.2).elim⟩
    · rw [same]
      exact (congrArg UInt64.toNat participants).trans total
    · rw [same, awake]
      simpa using count
    · rw [flag] at ended
      obtain ⟨none_left, all⟩ := labours.drained ended
      rcases all w mem_cons_self with ended | waiting
      · exact absurd ((isDone_iff share).mp ended) unfinished
      · exact absurd none_left (woken ((isIdle_iff share).mp waiting))
  | ends finished empty none_left how =>
    have ended : w'.isDone turn = true := (isDone_iff share').mpr (by rw [finished])
    have awake : w'.isIdle = false := Bool.eq_false_iff.mpr fun bad => by
      have waiting := (isIdle_iff share').mp bad
      rw [finished] at waiting
      cases waiting
    have quiet : next.Idle w'.collector := by
      rw [finished]
      exact ⟨rfl, rfl, empty⟩
    rcases how with ⟨ended, same⟩ | ⟨alone, same⟩
    · have flag : q'.drained = true := by rw [same, drained, ended]
      refine ⟨?_, ?_, fun _ => ⟨flag, empty⟩, fun _ => flag, fun _ => ⟨by rw [same, stack, none_left], fun v member => ?_⟩,
        fun _ => quiet⟩
      · rw [same, participants, total]
      · rw [same, awake]
        simpa using count
      · rcases mem_cons.mp member with rfl | other
        · exact .inl ended
        · exact (labours.drained ended).2 v (mem_cons_of_mem _ other)
    · have flag : q'.drained = true := by rw [same]
      have all : others.countP Worker.isIdle = others.length := by
        have sum := congrArg UInt64.toNat alone
        rw [toNat_succ (by omega), count, total] at sum
        omega
      refine ⟨?_, ?_, fun _ => ⟨flag, empty⟩, fun _ => flag, fun _ => ⟨?_, fun v member => ?_⟩, fun _ => quiet⟩
      · rw [same]
        exact (congrArg UInt64.toNat participants).trans total
      · rw [same, awake]
        simpa using count
      · rw [same]
        exact stack.trans none_left
      · rcases mem_cons.mp member with rfl | other
        · exact .inl ended
        · exact .inr (countP_eq_length.mp all v other)
  | waits waiting empty none_left open_ others' heap =>
    have resting : w'.isIdle = true := (isIdle_iff share').mpr (by rw [waiting])
    have flag : q'.drained = false := by rw [heap]; exact drained.trans open_
    refine ⟨?_, ?_, fun bad => ?_, fun bad => ?_, fun bad => ?_, fun _ => ?_⟩
    · rw [heap]
      exact (congrArg UInt64.toNat participants).trans total
    · rw [heap, resting, if_pos rfl]
      simp only
      rw [toNat_succ (by omega), count]
    · have ended := (isDone_iff share').mp bad
      rw [waiting] at ended
      cases ended
    · rw [open_] at bad
      cases bad
    · rw [flag] at bad
      cases bad
    · rw [waiting]
      exact ⟨rfl, rfl, empty⟩

/-- A worker that works off its share, and what the others have to do. -/
theorem Labours.going (labours : Labours g turn (w :: others) h pieces) (share : w.share? = some s) :
    Share.Going g w.collector h s pieces ((collectors others).flatMap Collector.buffers ++ h.buffers)
      ((collectors others).flatMap Collector.keys ++ h.keys) (slots others) (objects others) (remembered others) :=
  ⟨labours.shared.ready, (Owing.iff_view share).mp labours.owing, labours.packed⟩

/-- One worker of a team takes a step of its share. -/
theorem Labours.works {answer : Option Share} {c' : Collector} (labours : Labours g turn (w :: others) h pieces)
    (sound : g.Sound) (share : w.share? = some s) (unfinished : s.stage ≠ .finished)
    (ok : s.step (w.collector, h) = .ok answer (c', h')) (same : w'.collector = c')
    (share' : w'.share? = some (answer.getD s)) :
    ∃ pieces', (∀ p ∈ pieces, p ∈ pieces') ∧ Labours g turn (w' :: others) h' pieces' ∧
      w'.collector.ordinal = w.collector.ordinal := by
  subst same
  obtain ⟨calm, cleared⟩ := labours.calm w mem_cons_self s share
  obtain ⟨pieces', more, stepped⟩ := Share.step_ok (labours.going share) sound (fun waiting => calm (.inl waiting)) unfinished ok
  obtain ⟨mutators, flipped⟩ := stepped.labour.heap.mutators
  have plan : h'.plan = h.plan := stepped.going.closing.kept.plan.trans (Closing.kept labours.owing).plan.symm
  obtain ⟨participants, idle, concludes, still, drained, quiet⟩ := labours.queue share share' unfinished stepped.moved
  have ordinal : w'.collector.ordinal = w.collector.ordinal := by rw [stepped.labour.collector]
  refine ⟨pieces', more, ⟨labours.laboured.trans stepped.labour.heap, ?_,
    (Owing.iff_view share').mpr stepped.going.closing, stepped.going.packed, labours.few,
    participants, idle, fun v member t found => ?_, fun v member ended => ?_, drained, forall_mem_cons.mpr ⟨?_, fun v other =>
    labours.states v (mem_cons_of_mem _ other)⟩⟩, ordinal⟩
  · refine Shared.of_ready stepped.going.ready ?_ ?_
      fun d member => (labours.shared.aimed d (mem_cons_of_mem _ member)).carry plan flipped
    · rw [Heap.buffers, Heap.buffers, mutators]
    · rw [Heap.keys, Heap.keys, mutators]
  · rcases mem_cons.mp member with rfl | other
    · rw [share'] at found
      cases found
      exact ⟨quiet, stepped.cleared cleared⟩
    · obtain ⟨rest, passed⟩ := labours.calm v (mem_cons_of_mem _ other) t found
      exact ⟨rest, fun stage => stepped.roots (passed.roots stage),
        fun one two => stepped.rememberedLeft (passed.remembered one two)⟩
  · rcases mem_cons.mp member with rfl | other
    · exact concludes ended
    · obtain ⟨flag, empty⟩ := labours.done v (mem_cons_of_mem _ other) ended
      exact ⟨still flag, empty⟩
  · rw [closureState_eq share', stepped.labour.collector]
    exact (labours.states w mem_cons_self).trans (closureState_eq share)

/-- A worker without anything at hand begins its share, or ends the phase. -/
theorem Labours.replace (labours : Labours g turn (w :: others) h pieces) (w' : Worker)
    (buffer : w'.collector.buffer = w.collector.buffer) (copies : w'.collector.copies = w.collector.copies)
    (hand : ∀ s, w.share? = some s → s.slots = [] ∧ s.remembered = []) (fresh : ∀ s, w'.share? = some s → s = .new)
    (awake : w.isIdle = false) (done : w'.isDone turn = w.isDone turn) (state : w'.collector.state = w'.closureState turn) :
    Labours g turn (w' :: others) h pieces := by
  have awake' : w'.isIdle = false := by
    cases share : w'.share? with
    | none => rw [Worker.isIdle, share, Option.any_none]
    | some s => rw [Worker.isIdle, share, fresh s share]; rfl
  have slots' : ∀ x, slots (w' :: others) x ↔ slots (w :: others) x := by
    intro x
    simp only [slots, mem_cons, exists_eq_or_imp]
    refine or_congr_left ⟨fun ⟨s, share, inner⟩ => ?_, fun ⟨s, share, inner⟩ => ?_⟩
    · rw [fresh s share] at inner
      cases inner
    · rw [(hand s share).1] at inner
      cases inner
  have remembered' : ∀ x, remembered (w' :: others) x ↔ remembered (w :: others) x := by
    intro x
    simp only [remembered, mem_cons, exists_eq_or_imp]
    refine or_congr_left ⟨fun ⟨s, share, inner⟩ => ?_, fun ⟨s, share, inner⟩ => ?_⟩
    · rw [fresh s share] at inner
      cases inner
    · rw [(hand s share).2] at inner
      cases inner
  have objects' : ∀ x, objects (w' :: others) x ↔ objects (w :: others) x := by
    intro x
    rw [objects_cons, objects_cons, buffer]
  refine ⟨labours.laboured, Shared.of_ready (labours.shared.ready.carry copies rfl rfl rfl) rfl rfl fun v member =>
    labours.shared.aimed v (mem_cons_of_mem _ member),
    labours.owing.congr (fun x => or_congr_left (slots' x)) (fun x => or_congr_left (objects' x))
      (fun x => or_congr_left (remembered' x)), labours.packed, labours.few, labours.participants, ?_,
    fun v member t found => ?_, fun v member ended => ?_, fun ended => ?_, forall_mem_cons.mpr ⟨state, fun v other =>
    labours.states v (mem_cons_of_mem _ other)⟩⟩
  · rw [labours.idle, countP_cons, countP_cons, awake, awake']
  · rcases mem_cons.mp member with rfl | other
    · rw [fresh t found]
      exact ⟨fun bad => absurd bad (by decide), fun bad => absurd rfl bad, fun bad => absurd rfl bad⟩
    · exact labours.calm v (mem_cons_of_mem _ other) t found
  · rcases mem_cons.mp member with rfl | other
    · rw [buffer]
      exact labours.done w mem_cons_self (done ▸ ended)
    · exact labours.done v (mem_cons_of_mem _ other) ended
  · obtain ⟨stack, all⟩ := labours.drained ended
    refine ⟨stack, fun v member => ?_⟩
    rcases mem_cons.mp member with rfl | other
    · rw [done, awake', ← awake]
      exact all w mem_cons_self
    · exact all v (mem_cons_of_mem _ other)

/-- When all have ended the closure, nothing is owed, and nothing is left. -/
theorem Labours.ended (labours : Labours g turn (w :: others) h pieces) (share : w.share? = some s)
    (finished : s.stage = .finished) (all : ∀ v ∈ others, v.hasEnded turn = true) :
    Closing g h pieces (fun _ => False) (fun _ => False) (fun _ => False) ∧ Spent (collectors (w :: others)) h := by
  obtain ⟨calm, cleared⟩ := labours.calm w mem_cons_self s share
  obtain ⟨slots_, remembered_, -⟩ := calm (.inr finished)
  have unshared : ∀ v ∈ others, v.share? = none := by
    intro v member
    have ended := all v member
    unfold Worker.hasEnded at ended
    unfold Worker.share?
    cases activity : v.activity with
    | closing s' => rw [activity] at ended; cases ended
    | starting => rfl
    | waiting t => rfl
    | finished => rfl
    | brokenOff => rfl
  have ended : ∀ v ∈ w :: others, v.isDone turn = true := by
    intro v member
    rcases mem_cons.mp member with rfl | other
    · exact (isDone_iff share).mpr finished
    · rw [Worker.isDone, all v other, Bool.true_or]
  have flag := (labours.done w mem_cons_self (ended w mem_cons_self)).1
  have taken := cleared.remembered (by rw [finished]; exact Stage.noConfusion) (by rw [finished]; exact Stage.noConfusion)
  have rooted := cleared.roots (by rw [finished]; exact Stage.noConfusion)
  refine ⟨labours.owing.congr (fun x => ?_) (fun x => ?_) fun x => ?_, rooted, taken, (labours.drained flag).1, fun c member => ?_⟩
  · refine iff_of_false id ?_
    rintro (⟨v, member, t, found, inner⟩ | ⟨packet, member, -⟩)
    · rcases mem_cons.mp member with rfl | other
      · rw [share] at found
        cases found
        rw [slots_] at inner
        cases inner
      · rw [unshared v other] at found
        cases found
    · rw [rooted] at member
      cases member
  · refine iff_of_false id ?_
    rintro (⟨v, member, inner⟩ | ⟨packet, member, -⟩)
    · rw [(labours.done v member (ended v member)).2] at inner
      exact Array.not_mem_empty x inner
    · rw [(labours.drained flag).1] at member
      cases member
  · refine iff_of_false id ?_
    rintro (⟨v, member, t, found, inner⟩ | ⟨packet, member, -⟩)
    · rcases mem_cons.mp member with rfl | other
      · rw [share] at found
        cases found
        rw [remembered_] at inner
        cases inner
      · rw [unshared v other] at found
        cases found
    · rw [taken] at member
      cases member
  · obtain ⟨v, inside, rfl⟩ := mem_map.mp member
    refine ⟨(labours.states v inside).trans ?_, (labours.done v inside (ended v inside)).2⟩
    rcases mem_cons.mp inside with rfl | other
    · exact closureState_eq share
    · exact closureState_of_ended (all v other)

/-- A team about to start a closure. -/
theorem Labours.start (laboured : g.heap.Laboured h) (shared : Shared (collectors team) h pieces)
    (closing : Closing g h pieces (fun x => ∃ packet ∈ h.backlog.roots, x ∈ packet) (fun _ => False)
      fun x => ∃ packet ∈ h.backlog.remembered, x ∈ packet)
    (stack : h.backlog.objects.stack = []) (idle : h.backlog.objects.idle = 0) (open_ : h.backlog.objects.drained = false)
    (few : team.length < 2 ^ 64) (participants : h.backlog.objects.participants.toNat = team.length)
    (collectors_ : ∀ w ∈ team, w.collector.state = .prepared ∧ w.collector.buffer = #[]) (unshared : ∀ w ∈ team, w.share? = none)
    (unended : ∀ w ∈ team, w.hasEnded turn = false) : Labours g turn team h pieces := by
  have asleep : ∀ w ∈ team, w.isIdle = false := fun w member => by
    rw [Worker.isIdle, unshared w member, Option.any_none]
  refine ⟨laboured, shared, closing.congr (fun x => ?_) (fun x => ?_) (fun x => ?_), fun packet member => ?_, few, participants,
    ?_, fun w member s share => ?_, fun w member ended => ?_, fun ended => ?_, fun w member => ?_⟩
  · refine or_iff_right ?_
    rintro ⟨w, member, s, share, -⟩
    rw [unshared w member] at share
    cases share
  · refine iff_of_false ?_ id
    rintro (⟨w, member, inner⟩ | ⟨packet, member, -⟩)
    · rw [(collectors_ w member).2] at inner
      exact Array.not_mem_empty x inner
    · rw [stack] at member
      cases member
  · refine or_iff_right ?_
    rintro ⟨w, member, s, share, -⟩
    rw [unshared w member] at share
    cases share
  · rw [stack] at member
    cases member
  · rw [idle, countP_eq_zero.mpr fun w member bad => by rw [asleep w member] at bad; cases bad]
    rfl
  · rw [unshared w member] at share
    cases share
  · rw [Worker.isDone, unended w member, unshared w member] at ended
    cases ended
  · rw [open_] at ended
    cases ended
  · exact (collectors_ w member).1.trans (closureState_of_fresh (unended w member) (unshared w member)).symm

end Team

end TracingHeap
