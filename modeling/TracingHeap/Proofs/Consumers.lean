import Mathlib.Data.Fintype.Card
import Mathlib.Data.Finset.Card
import Mathlib.Data.List.FinRange
import Mathlib.Logic.Function.Basic
import Mathlib.Logic.Relation
import TracingHeap.Proofs.Queues

/-! Consumers: participants that share a packet queue, each with a buffer of its own in front of it, and take
their steps in any order. One that finds neither work of its own nor a packet waits until it is notified, but may
also wake up for no reason and ask again. As long as the queue is not drained somebody works, and once one of
them is told that no work is left there is none anywhere, and never will be. -/

namespace TracingHeap.Work

open List

variable {α : Type}

/-- What a participant does between two steps. -/
inductive Activity where
  | working
  /-- It waits for a packet, and may have been notified that there is one. -/
  | waiting (notified : Bool)
  /-- It was told that no work is left. -/
  | finished

namespace Activity

/-- It waits, notified or not. -/
def Waits (activity : Activity) : Prop := ∃ notified, activity = .waiting notified

theorem not_waits_working : ¬ working.Waits := fun ⟨_, same⟩ => nomatch same

theorem not_waits_finished : ¬ finished.Waits := fun ⟨_, same⟩ => nomatch same

instance : DecidablePred Waits
  | .waiting notified => .isTrue ⟨notified, rfl⟩
  | .working => .isFalse not_waits_working
  | .finished => .isFalse not_waits_finished

/-- It was notified, if it waits. -/
def notify : Activity → Activity
  | .waiting _ => .waiting true
  | activity => activity

/-- How it asks for an item: again, if it waits. -/
def ask : Activity → Step (Buffer α × Packets α) (Buffer.Item α)
  | .waiting _ => Buffer.resume
  | _ => Buffer.dequeue

/-- The queue with this participant no longer counted as waiting. -/
def rejoin : Activity → Packets α → Packets α
  | .waiting _, q => { q with idle := q.idle - 1 }
  | _, q => q

/-- What it does with an answer. -/
def answered : Buffer.Item α → Activity
  | .item _ => .working
  | .nothing => .finished
  | .wait => .waiting false

end Activity

/-- The item of an answer. -/
def Buffer.Item.toList : Buffer.Item α → List α
  | .item a => [a]
  | _ => []

/-- Participants and what they share. -/
structure Consumers (α : Type) (n : Nat) where
  queue : Packets α
  buffers : Fin n → Buffer α
  activity : Fin n → Activity
  /-- What was ever added, the last item first. -/
  added : List α
  /-- What was ever taken, the last item first. -/
  taken : List α

/-- Who is notified by a step inside the queue: one of those who wait, if it added a packet, and everyone, if it
drained the queue. -/
inductive Told {n : Nat} (q q' : Packets α) (before : Fin n → Activity) : (Fin n → Activity) → Prop where
  | one (i : Fin n) (more : q.stack.length < q'.stack.length) (asleep : before i = .waiting false) :
    Told q q' before (Function.update before i (.waiting true))
  | nobody (more : q.stack.length < q'.stack.length) (awake : ∀ i, before i ≠ .waiting false) : Told q q' before before
  | everyone (active : q.drained = false) (ended : q'.drained = true) : Told q q' before fun i => (before i).notify
  | silent (fewer : q'.stack.length ≤ q.stack.length) (same : q'.drained = q.drained) : Told q q' before before

namespace Consumers

open Activity

variable {n : Nat} {s s' : Consumers α n} {i j : Fin n} {a : α} {b : Buffer α} {q : Packets α}
  {activity : Fin n → Activity} {item : Buffer.Item α}

/-- Everyone at work, with nothing in front of the queue. -/
def new (n : Nat) (q : Packets α) : Consumers α n := ⟨q, fun _ => #[], fun _ => .working, [], []⟩

/-- What was added and not yet taken: the items in the buffers and in the packets. -/
def held (s : Consumers α n) : List α :=
  (finRange n).flatMap (fun i => (s.buffers i).toList) ++ s.queue.stack.flatMap Array.toList

/-- Participant `i` has asked for an item. -/
def asked (s : Consumers α n) (i : Fin n) (item : Buffer.Item α) (b : Buffer α) (q : Packets α)
    (activity : Fin n → Activity) : Consumers α n where
  queue := q
  buffers := Function.update s.buffers i b
  activity := Function.update activity i (.answered item)
  added := s.added
  taken := item.toList ++ s.taken

/-- One participant takes a step. One that works may add an item; one that does not wait may flush its buffer; and
everyone may ask for an item. -/
inductive Moves (s : Consumers α n) : Consumers α n → Prop where
  | adds (i : Fin n) (a : α) {b : Buffer α} {q : Packets α} {activity : Fin n → Activity}
    (working : s.activity i = .working) (done : Buffer.enqueue a (s.buffers i, s.queue) = .ok () (b, q))
    (told : Told s.queue q s.activity activity) :
    Moves s { s with queue := q, buffers := Function.update s.buffers i b, activity, added := a :: s.added }
  | flushes (i : Fin n) {b : Buffer α} {q : Packets α} {activity : Fin n → Activity}
    (awake : ¬ (s.activity i).Waits) (done : Buffer.flush (s.buffers i, s.queue) = .ok () (b, q))
    (told : Told s.queue q s.activity activity) :
    Moves s { s with queue := q, buffers := Function.update s.buffers i b, activity }
  | asks (i : Fin n) {item : Buffer.Item α} {b : Buffer α} {q : Packets α} {activity : Fin n → Activity}
    (done : (s.activity i).ask (s.buffers i, s.queue) = .ok item (b, q)) (told : Told s.queue q s.activity activity) :
    Moves s (s.asked i item b q activity)

/-- What the participants of a queue that was reset for them come to. -/
inductive Reachable (participants : Word) : Consumers α participants.toNat → Prop where
  | start {q q' : Packets α} (reset : Packets.reset participants q = .ok () q') :
    Reachable participants (new participants.toNat q')
  | step {s s' : Consumers α participants.toNat} (before : Reachable participants s) (moves : Moves s s') :
    Reachable participants s'

/-! ### What a step does to the items -/

/-- The items of one participant and of the queue, and those of the others. -/
theorem held_split (s : Consumers α n) (i : Fin n) : ∃ others : List α,
    s.held.Perm (items (s.buffers i) s.queue ++ others) ∧
    ∀ s' : Consumers α n, (∀ j, j ≠ i → s'.buffers j = s.buffers j) →
      s'.held.Perm (items (s'.buffers i) s'.queue ++ others) := by
  have split : ∀ s' : Consumers α n, (∀ j, j ≠ i → s'.buffers j = s.buffers j) →
      s'.held.Perm (items (s'.buffers i) s'.queue ++ ((finRange n).erase i).flatMap fun j => (s.buffers j).toList) := by
    intro s' same
    have rest : ((finRange n).erase i).flatMap (fun j => (s'.buffers j).toList) =
        ((finRange n).erase i).flatMap fun j => (s.buffers j).toList := by
      refine flatMap_congr fun j member => ?_
      rw [same j fun equal => (nodup_finRange n).not_mem_erase (equal ▸ member)]
    have first := ((perm_cons_erase (mem_finRange i)).flatMap_right fun j => (s'.buffers j).toList)
    rw [flatMap_cons, rest] at first
    refine (first.append_right _).trans ?_
    simp only [items, append_assoc]
    exact perm_append_comm.append_left _
  exact ⟨_, split s fun _ _ => rfl, split⟩

/-! ### Who is notified -/

/-- A notified participant waits on. -/
theorem told_cases {q q' : Packets α} {before after : Fin n → Activity} (told : Told q q' before after) (i : Fin n) :
    after i = before i ∨ (before i).Waits ∧ after i = .waiting true := by
  cases told with
  | one k more asleep =>
    by_cases same : i = k
    · subst same
      exact .inr ⟨⟨false, asleep⟩, Function.update_self ..⟩
    · exact .inl (Function.update_of_ne same ..)
  | nobody _ _ => exact .inl rfl
  | everyone _ _ =>
    dsimp only
    cases before i with
    | waiting notified => exact .inr ⟨⟨notified, rfl⟩, rfl⟩
    | working => exact .inl rfl
    | finished => exact .inl rfl
  | silent _ _ => exact .inl rfl

theorem told_waits {q q' : Packets α} {before after : Fin n → Activity} (told : Told q q' before after) (i : Fin n) :
    (after i).Waits ↔ (before i).Waits := by
  rcases told_cases told i with same | ⟨waits, now⟩
  · rw [same]
  · exact ⟨fun _ => waits, fun _ => ⟨true, now⟩⟩

theorem told_eq {q q' : Packets α} {before after : Fin n → Activity} (told : Told q q' before after) {x : Activity}
    (awake : ¬ x.Waits) (i : Fin n) : after i = x ↔ before i = x := by
  rcases told_cases told i with same | ⟨waits, now⟩
  · rw [same]
  · constructor
    · rintro rfl
      exact absurd ⟨true, now⟩ awake
    · rintro rfl
      exact absurd waits awake

/-- Once a queue is drained, nobody sleeps through it. -/
theorem told_over {q q' : Packets α} {before after : Fin n → Activity} (told : Told q q' before after)
    (fewer : q'.stack.length ≤ q.stack.length) (ended : q'.drained = true)
    (awake : q.drained = true → before i ≠ .waiting false) : after i ≠ .waiting false := by
  cases told with
  | one _ more _ => exact absurd more (Nat.not_lt.mpr fewer)
  | nobody more _ => exact absurd more (Nat.not_lt.mpr fewer)
  | everyone _ _ =>
    dsimp only
    cases before i with
    | waiting notified => exact fun same => nomatch same
    | working => exact Activity.noConfusion
    | finished => exact Activity.noConfusion
  | silent _ same => exact awake (same ▸ ended)

/-- Those who wait. -/
def waiting (activity : Fin n → Activity) : Finset (Fin n) := Finset.univ.filter fun i => (activity i).Waits

theorem mem_waiting {activity : Fin n → Activity} : i ∈ waiting activity ↔ (activity i).Waits := by
  rw [waiting, Finset.mem_filter, and_iff_right (Finset.mem_univ i)]

theorem told_waiting {q q' : Packets α} {before after : Fin n → Activity} (told : Told q q' before after) :
    waiting after = waiting before := by
  ext i
  rw [mem_waiting, mem_waiting, told_waits told]

theorem waiting_erase (i : Fin n) (x : Activity) :
    (waiting (Function.update activity i x)).erase i = (waiting activity).erase i := by
  ext j
  simp only [Finset.mem_erase, mem_waiting]
  exact and_congr_right fun other => by rw [Function.update_of_ne other]

/-- One who does not wait is not counted. -/
theorem card_waiting_of_not {x : Activity} (awake : ¬ x.Waits) :
    (waiting (Function.update activity i x)).card = ((waiting activity).erase i).card := by
  rw [← waiting_erase i x, Finset.erase_eq_of_notMem]
  rw [mem_waiting, Function.update_self]
  exact awake

theorem card_waiting_of {x : Activity} (waits : x.Waits) :
    (waiting (Function.update activity i x)).card = ((waiting activity).erase i).card + 1 := by
  rw [← waiting_erase i x, Finset.card_erase_add_one]
  rw [mem_waiting, Function.update_self]
  exact waits

theorem card_others_lt (activity : Fin n → Activity) (i : Fin n) : ((waiting activity).erase i).card < n := by
  have few := Finset.card_le_card (Finset.erase_subset_erase i (Finset.subset_univ (waiting activity)))
  rw [Finset.card_erase_of_mem (Finset.mem_univ i), Finset.card_univ, Fintype.card_fin] at few
  have := i.pos
  omega

/-- If all but one wait, then so does everyone else. -/
theorem others_wait (all : ((waiting activity).erase i).card + 1 = n) (other : j ≠ i) : (activity j).Waits := by
  have whole : (waiting activity).erase i = Finset.univ.erase i := by
    refine Finset.eq_of_subset_of_card_le (Finset.erase_subset_erase i (Finset.subset_univ _)) ?_
    rw [Finset.card_erase_of_mem (Finset.mem_univ i), Finset.card_univ, Fintype.card_fin]
    omega
  have member := Finset.mem_erase.mpr ⟨other, Finset.mem_univ j⟩
  rw [← whole, Finset.mem_erase, mem_waiting] at member
  exact member.2

/-- Otherwise someone else does not. -/
theorem other_awake (few : ((waiting activity).erase i).card + 1 ≠ n) : ∃ j, j ≠ i ∧ ¬ (activity j).Waits := by
  by_contra none
  refine few ?_
  have whole : (waiting activity).erase i = Finset.univ.erase i := by
    ext j
    simp only [Finset.mem_erase, mem_waiting, Finset.mem_univ, and_true]
    refine ⟨And.left, fun other => ⟨other, ?_⟩⟩
    by_contra awake
    exact none ⟨j, other, awake⟩
  have some := i.pos
  rw [whole, Finset.card_erase_of_mem (Finset.mem_univ i), Finset.card_univ, Fintype.card_fin]
  omega

/-! ### What every step preserves -/

/-- No work is left, and none of the others will bring more: they wait, or were told so. -/
structure Spent (s : Consumers α n) (i : Fin n) : Prop where
  packets : s.queue.stack = []
  buffers : ∀ j, s.buffers j = #[]
  others : ∀ j, j ≠ i → s.activity j ≠ .working

/-- What holds between two steps. -/
structure Orderly (s : Consumers α n) : Prop where
  participants : s.queue.participants.toNat = n
  calm : s.queue.aborted = false
  sound : s.queue.poisoned = false
  packed : s.queue.Packed
  idle : s.queue.idle.toNat = (waiting s.activity).card
  /-- Only those who work have items. -/
  resting : ∀ i, s.activity i ≠ .working → s.buffers i = #[]
  active : s.queue.drained = false → (∃ i, s.activity i = .working) ∧ ∀ i, s.activity i ≠ .finished
  ended : s.queue.drained = true →
    s.queue.stack = [] ∧ ∀ i, s.activity i ≠ .working ∧ s.activity i ≠ .waiting false
  balance : s.added.Perm (s.taken ++ s.held)

theorem new_orderly {participants : Word} {q q' : Packets α} (some : 0 < participants.toNat)
    (reset : Packets.reset participants q = .ok () q') : (new participants.toNat q').Orderly := by
  simp only [Packets.reset, Packets.enter, Step.bind_ok, Step.get_bind, Step.ensure_ok, Step.modify_ok] at reset
  obtain ⟨_, _, ⟨sound, rfl⟩, rfl⟩ := reset
  refine ⟨rfl, rfl, (Bool.not_eq_true' q.poisoned).mp sound, ?_, ?_, fun _ _ => rfl, fun _ => ⟨⟨⟨0, some⟩, rfl⟩, ?_⟩, ?_, ?_⟩
  · rintro packet ⟨⟩
  · refine (Finset.card_eq_zero.mpr (Finset.filter_eq_empty_iff.mpr ?_)).symm
    rintro i - ⟨_, same⟩
    cases same
  · rintro i ⟨⟩
  · rintro ⟨⟩
  · simp only [new, held, Array.toList_empty, flatMap_nil, append_nil, nil_append]
    rw [flatMap_eq_nil_iff.mpr fun _ _ => rfl]

/-- Nobody works on a drained queue. -/
theorem Orderly.undrained (orderly : s.Orderly) (working : s.activity i = .working) : s.queue.drained = false := by
  refine Bool.eq_false_iff.mpr fun drained => ?_
  exact ((orderly.ended drained).2 i).1 working

/-- Items that one participant adds, or hands on. -/
theorem Orderly.stored {added : List α} (orderly : s.Orderly) (restacked : s.queue.Restacked q)
    (told : Told s.queue q s.activity activity) (items_added : ∃ more, added = more ++ s.added ∧
      (items b q).Perm (more ++ items (s.buffers i) s.queue))
    (rest : s.activity i ≠ .working → b = #[]) :
    Orderly { s with queue := q, buffers := Function.update s.buffers i b, activity, added } := by
  obtain ⟨participants, idle, flag, aborted, poisoned⟩ := restacked.fields
  have working := told_eq told not_waits_working
  have finished := told_eq told not_waits_finished
  refine ⟨participants ▸ orderly.participants, aborted.trans orderly.calm, poisoned.trans orderly.sound,
    restacked.packed orderly.packed, ?_, fun j idle => ?_, fun active => ?_, fun ended => ?_, ?_⟩
  · simp only [idle, told_waiting told]
    exact orderly.idle
  · have idle' := fun now => idle ((working j).mpr now)
    dsimp only
    by_cases mine : j = i
    · subst mine
      rw [Function.update_self]
      exact rest idle'
    · rw [Function.update_of_ne mine]
      exact orderly.resting j idle'
  · obtain ⟨⟨k, busy⟩, none⟩ := orderly.active (flag ▸ active)
    exact ⟨⟨k, (working k).mpr busy⟩, fun j now => none j ((finished j).mp now)⟩
  · obtain ⟨empty, none⟩ := orderly.ended (flag ▸ ended)
    refine ⟨restacked.drained (flag ▸ ended) empty, fun j => ?_⟩
    dsimp only
    rcases told_cases told j with now | ⟨-, now⟩
    · rw [now]
      exact none j
    · rw [now]
      exact ⟨Activity.noConfusion, fun other => nomatch other⟩
  · obtain ⟨more, rfl, moved⟩ := items_added
    obtain ⟨others, before, after⟩ := s.held_split i
    have now := after { s with queue := q, buffers := Function.update s.buffers i b, activity, added := more ++ s.added }
      fun j other => Function.update_of_ne other ..
    simp only [Function.update_self] at now
    calc more ++ s.added
      _ ~ more ++ (s.taken ++ (items (s.buffers i) s.queue ++ others)) :=
        (orderly.balance.trans (before.append_left _)).append_left _
      _ ~ s.taken ++ (more ++ items (s.buffers i) s.queue ++ others) := by
        rw [append_assoc]
        exact perm_append_comm_assoc ..
      _ ~ s.taken ++ (items b q ++ others) := (moved.symm.append_right _).append_left _
      _ ~ _ := now.symm.append_left _

/-- Asking for an item neither makes up nor loses one. -/
theorem found_items {b b' : Buffer α} {q q' : Packets α} (found : Buffer.Found b q item b' q') :
    (items b q).Perm (item.toList ++ items b' q') := by
  cases found with
  | item a b' q' restacked moved => exact moved
  | drained _ _ _ => exact .refl _
  | last _ _ _ => exact .refl _
  | wait _ _ _ _ => exact .refl _

theorem rejoin_same (x : Activity) (q : Packets α) : x.rejoin q = { q with idle := (x.rejoin q).idle } := by
  cases x <;> rfl

/-- Without the one who asks, those count as waiting who wait. -/
theorem Orderly.rejoin_idle (orderly : s.Orderly) (i : Fin n) :
    ((s.activity i).rejoin s.queue).idle.toNat = ((waiting s.activity).erase i).card := by
  have idle := orderly.idle
  by_cases waits : (s.activity i).Waits
  · have member := mem_waiting.mpr waits
    obtain ⟨notified, same⟩ := waits
    have some := Finset.card_pos.mpr ⟨i, member⟩
    rw [Finset.card_erase_of_mem member, ← idle]
    rw [same]
    exact UInt64.toNat_sub_of_le s.queue.idle 1 (UInt64.le_iff_toNat_le.mpr (by
      rw [idle]
      exact some))
  · rw [Finset.erase_eq_of_notMem (mt mem_waiting.mp waits), ← idle]
    cases mine : s.activity i with
    | waiting notified => exact absurd ⟨notified, mine⟩ waits
    | working => rfl
    | finished => rfl

/-- One more than these is still a word. -/
theorem Orderly.rejoin_next (orderly : s.Orderly) (i : Fin n) :
    (((s.activity i).rejoin s.queue).idle + 1).toNat = ((waiting s.activity).erase i).card + 1 := by
  have bound := s.queue.participants.toNat_lt
  have few := card_others_lt s.activity i
  rw [orderly.participants] at bound
  rw [UInt64.toNat_add, orderly.rejoin_idle i]
  exact Nat.mod_eq_of_lt (by
    rw [show (1 : UInt64).toNat = 1 from rfl]
    omega)

theorem Orderly.ask_ok (orderly : s.Orderly)
    (done : (s.activity i).ask (s.buffers i, s.queue) = .ok item (b, q)) :
    Buffer.Found (s.buffers i) ((s.activity i).rejoin s.queue) item b q := by
  cases mine : s.activity i with
  | waiting notified =>
    have empty := orderly.resting i (by rw [mine]; exact Activity.noConfusion)
    rw [mine, empty] at done
    rw [empty]
    exact Buffer.resume_ok orderly.packed done
  | working =>
    rw [mine] at done
    exact Buffer.dequeue_ok orderly.packed done
  | finished =>
    rw [mine] at done
    exact Buffer.dequeue_ok orderly.packed done

/-- A drained queue leaves no work to anybody. -/
theorem Orderly.spent (orderly : s.Orderly) (ended : s.queue.drained = true) (i : Fin n) : s.Spent i := by
  obtain ⟨empty, none⟩ := orderly.ended ended
  exact ⟨empty, fun j => orderly.resting j (none j).1, fun j _ => (none j).1⟩

theorem Spent.items_nil (spent : s.Spent i) : items (s.buffers i) s.queue = [] := by
  simp only [items, spent.packets, spent.buffers i, Array.toList_empty, flatMap_nil, append_nil]

/-- One who finds an item finds the queue undrained. -/
theorem Orderly.active_of_item (orderly : s.Orderly)
    (found : Buffer.Found (s.buffers i) ((s.activity i).rejoin s.queue) (.item a) b q) : s.queue.drained = false := by
  refine Bool.eq_false_iff.mpr fun ended => ?_
  have moved := found_items found
  rw [rejoin_same] at moved
  exact absurd ((orderly.spent ended i).items_nil ▸ moved.symm).eq_nil (cons_ne_nil a _)

/-- One who is told that there is nothing left finds all packets gone, all buffers empty and nobody else at work. -/
theorem Orderly.spent_of_nothing (orderly : s.Orderly)
    (found : Buffer.Found (s.buffers i) ((s.activity i).rejoin s.queue) .nothing b q) :
    s.Spent i ∧ b = #[] ∧ q = { (s.activity i).rejoin s.queue with drained := true } := by
  generalize rejoined : (s.activity i).rejoin s.queue = r at found
  have same := rejoin_same (s.activity i) s.queue
  rw [rejoined] at same
  cases found with
  | drained empty ended none_left =>
    refine ⟨orderly.spent (by rw [same] at ended; exact ended) i, empty, ?_⟩
    rw [← ended]
  | last empty none_left alone =>
    have all : ((waiting s.activity).erase i).card + 1 = n := by
      rw [← orderly.rejoin_next i, rejoined, alone, congrArg Packets.participants same]
      exact orderly.participants
    have wait : ∀ j, j ≠ i → s.activity j ≠ .working := by
      intro j other working
      obtain ⟨_, waits⟩ := others_wait all other
      rw [working] at waits
      cases waits
    refine ⟨⟨by rw [same] at none_left; exact none_left, fun j => ?_, wait⟩, empty, rfl⟩
    by_cases mine : j = i
    · rw [mine]
      exact empty
    · exact orderly.resting j (wait j mine)

theorem Orderly.asked_balance (orderly : s.Orderly) (activity : Fin n → Activity)
    (found : Buffer.Found (s.buffers i) ((s.activity i).rejoin s.queue) item b q) :
    s.added.Perm ((s.asked i item b q activity).taken ++ (s.asked i item b q activity).held) := by
  obtain ⟨others, before, after⟩ := s.held_split i
  have now := after (s.asked i item b q activity) fun j other => Function.update_of_ne other ..
  have moved := found_items found
  rw [rejoin_same] at moved
  simp only [asked, Function.update_self] at now ⊢
  calc s.added
    _ ~ s.taken ++ (items (s.buffers i) s.queue ++ others) := orderly.balance.trans (before.append_left _)
    _ ~ s.taken ++ (item.toList ++ items b q ++ others) := (moved.append_right _).append_left _
    _ ~ item.toList ++ s.taken ++ (items b q ++ others) := by
      rw [append_assoc, append_assoc]
      exact perm_append_comm_assoc ..
    _ ~ _ := now.symm.append_left _

/-- Whoever asked, the others do what they did. -/
theorem asked_activity (told : Told s.queue q s.activity activity) (other : j ≠ i) {x : Activity} (awake : ¬ x.Waits) :
    (s.asked i item b q activity).activity j = x ↔ s.activity j = x := by
  simp only [asked, Function.update_of_ne other]
  exact told_eq told awake j

/-- What a participant that asks leaves behind, whatever the answer. -/
theorem Orderly.asked (orderly : s.Orderly) (told : Told s.queue q s.activity activity)
    (found : Buffer.Found (s.buffers i) ((s.activity i).rejoin s.queue) item b q)
    (same : q = { s.queue with stack := q.stack, idle := q.idle, drained := q.drained }) (packed : q.Packed)
    (idle : q.idle.toNat = ((waiting s.activity).erase i).card + if (Activity.answered item).Waits then 1 else 0)
    (empty : Activity.answered item ≠ .working → b = #[])
    (active : q.drained = false → (∃ j, (s.asked i item b q activity).activity j = .working) ∧
      s.queue.drained = false ∧ Activity.answered item ≠ .finished)
    (ended : q.drained = true → q.stack = [] ∧ (∀ j, j ≠ i → s.activity j ≠ .working ∧ activity j ≠ .waiting false) ∧
      item = .nothing) :
    (s.asked i item b q activity).Orderly := by
  refine ⟨?_, ?_, ?_, packed, ?_, fun j rests => ?_, fun now => ?_, fun now => ?_, orderly.asked_balance activity found⟩
  · exact (congrArg Packets.participants same) ▸ orderly.participants
  · exact (congrArg Packets.aborted same).trans orderly.calm
  · exact (congrArg Packets.poisoned same).trans orderly.sound
  · simp only [Consumers.asked]
    rw [idle, ← told_waiting told]
    split
    · rename_i waits
      exact (card_waiting_of waits).symm
    · rename_i awake
      exact (card_waiting_of_not awake).symm
  · by_cases mine : j = i
    · subst mine
      simp only [Consumers.asked, Function.update_self] at rests ⊢
      exact empty rests
    · have kept := mt (asked_activity told mine not_waits_working).mpr rests
      simp only [Consumers.asked, Function.update_of_ne mine]
      exact orderly.resting j kept
  · obtain ⟨busy, before, unfinished⟩ := active now
    refine ⟨busy, fun j done => ?_⟩
    by_cases mine : j = i
    · subst mine
      simp only [Consumers.asked, Function.update_self] at done
      exact unfinished done
    · exact (orderly.active before).2 j ((asked_activity told mine not_waits_finished).mp done)
  · obtain ⟨none_left, others, rfl⟩ := ended now
    refine ⟨none_left, fun j => ?_⟩
    by_cases mine : j = i
    · subst mine
      simp only [Consumers.asked, Function.update_self]
      exact ⟨Activity.noConfusion, Activity.noConfusion⟩
    · refine ⟨mt (asked_activity told mine not_waits_working).mp (others j mine).1, ?_⟩
      simp only [Consumers.asked, Function.update_of_ne mine]
      exact (others j mine).2

theorem Orderly.asked_item (orderly : s.Orderly) (told : Told s.queue q s.activity activity)
    (found : Buffer.Found (s.buffers i) ((s.activity i).rejoin s.queue) (.item a) b q) :
    (s.asked i (.item a) b q activity).Orderly := by
  have active := orderly.active_of_item found
  have idle := orderly.rejoin_idle i
  have same := rejoin_same (s.activity i) s.queue
  have whole := found
  generalize (s.activity i).rejoin s.queue = r at found idle same
  cases found with
  | item a b q restacked moved =>
    obtain ⟨participants, idle', drained, aborted, poisoned⟩ := restacked.fields
    rw [congrArg Packets.drained same] at drained
    refine orderly.asked told whole ?_ (restacked.packed ?_) ?_ ?_ (fun _ => ⟨⟨i, ?_⟩, active, Activity.noConfusion⟩)
      fun ended => ?_
    · rw [restacked.same, same]
    · rw [same]
      exact orderly.packed
    · rw [idle', idle]
      exact (if_neg not_waits_working).symm ▸ rfl
    · exact fun other => absurd rfl other
    · exact Function.update_self ..
    · rw [drained, active] at ended
      cases ended

theorem Orderly.asked_nothing (orderly : s.Orderly) (told : Told s.queue q s.activity activity)
    (found : Buffer.Found (s.buffers i) ((s.activity i).rejoin s.queue) .nothing b q) :
    (s.asked i .nothing b q activity).Orderly := by
  obtain ⟨spent, rfl, same⟩ := orderly.spent_of_nothing found
  rw [rejoin_same] at same
  have stack : q.stack = s.queue.stack := by rw [same]
  have ended : q.drained = true := by rw [same]
  refine orderly.asked told found ?_ ?_ ?_ (fun _ => rfl) (fun active => ?_) fun _ => ⟨?_, fun j other => ?_, rfl⟩
  · rw [same]
  · rw [Packets.Packed, stack]
    exact orderly.packed
  · simp only [same, orderly.rejoin_idle i]
    exact (if_neg not_waits_finished).symm ▸ rfl
  · rw [ended] at active
    cases active
  · rw [stack, spent.packets]
  · refine ⟨spent.others j other, told_over told ?_ ended fun drained => ((orderly.ended drained).2 j).2⟩
    rw [stack]

theorem Orderly.asked_wait (orderly : s.Orderly) (told : Told s.queue q s.activity activity)
    (found : Buffer.Found (s.buffers i) ((s.activity i).rejoin s.queue) .wait b q) :
    (s.asked i .wait b q activity).Orderly := by
  have next := orderly.rejoin_next i
  have same := rejoin_same (s.activity i) s.queue
  have whole := found
  generalize (s.activity i).rejoin s.queue = r at found next same
  cases found with
  | wait empty none_left active others =>
    have undrained : s.queue.drained = false := by
      rw [same] at active
      exact active
    -- One who waits leaves somebody else at work.
    have busy : ∃ j, j ≠ i ∧ s.activity j = .working := by
      obtain ⟨j, other, awake⟩ := other_awake fun all : ((waiting s.activity).erase i).card + 1 = n => others (by
        rw [← UInt64.toNat_inj, next, all, congrArg Packets.participants same]
        exact orderly.participants.symm)
      refine ⟨j, other, ?_⟩
      cases doing : s.activity j with
      | working => rfl
      | waiting notified => exact absurd ⟨notified, doing⟩ awake
      | finished => exact absurd doing ((orderly.active undrained).2 j)
    obtain ⟨j, other, working⟩ := busy
    refine orderly.asked told whole ?_ ?_ ?_ (fun _ => empty)
      (fun _ => ⟨⟨j, ?_⟩, undrained, Activity.noConfusion⟩) fun ended => ?_
    · rw [same]
    · rw [same]
      exact orderly.packed
    · rw [if_pos ⟨false, rfl⟩]
      exact next
    · exact (asked_activity told other not_waits_working).mpr working
    · exact absurd (active.symm.trans ended) Bool.false_ne_true

/-- Every step keeps order. -/
theorem Orderly.moves (orderly : s.Orderly) (moves : Moves s s') : s'.Orderly := by
  cases moves with
  | adds i a working done told =>
    obtain ⟨restacked, more⟩ := Buffer.enqueue_ok done
    exact orderly.stored restacked told ⟨[a], rfl, more⟩ fun rests => absurd working rests
  | flushes i awake done told =>
    obtain ⟨empty, restacked, same⟩ := Buffer.flush_ok done
    exact orderly.stored restacked told ⟨[], rfl, same⟩ fun _ => empty
  | @asks i item b q activity done told =>
    have found := orderly.ask_ok done
    cases item with
    | item a => exact orderly.asked_item told found
    | nothing => exact orderly.asked_nothing told found
    | wait => exact orderly.asked_wait told found

theorem Reachable.orderly {participants : Word} {s : Consumers α participants.toNat} (some : 0 < participants.toNat)
    (reachable : Reachable participants s) : s.Orderly := by
  induction reachable with
  | start reset => exact new_orderly some reset
  | step _ moves ih => exact ih.moves moves

/-! ### The end of the work -/

/-- Nothing happens to a drained queue any more. -/
theorem Orderly.moves_drained (orderly : s.Orderly) (ended : s.queue.drained = true) (moves : Moves s s') :
    s'.queue.drained = true ∧ s'.added = s.added ∧ s'.taken = s.taken := by
  cases moves with
  | adds i a working _ _ => exact absurd working ((orderly.ended ended).2 i).1
  | flushes i _ done _ =>
    obtain ⟨-, restacked, -⟩ := Buffer.flush_ok done
    exact ⟨restacked.fields.2.2.1.trans ended, rfl, rfl⟩
  | @asks i item b q activity done _ =>
    have found := orderly.ask_ok done
    cases item with
    | item a => exact absurd (ended.symm.trans (orderly.active_of_item found)) Bool.false_ne_true.symm
    | nothing =>
      obtain ⟨-, -, same⟩ := orderly.spent_of_nothing found
      refine ⟨?_, rfl, rfl⟩
      simp only [Consumers.asked, same]
    | wait =>
      have same := rejoin_same (s.activity i) s.queue
      generalize (s.activity i).rejoin s.queue = r at found same
      cases found with
      | wait _ _ active _ =>
        rw [same] at active
        exact absurd (ended.symm.trans active) Bool.false_ne_true.symm

theorem Orderly.held_of_drained (orderly : s.Orderly) (ended : s.queue.drained = true) : s.held = [] := by
  obtain ⟨empty, none⟩ := orderly.ended ended
  have buffers : ∀ i ∈ finRange n, (s.buffers i).toList = [] := by
    intro i _
    rw [orderly.resting i (none i).1]
  rw [held, flatMap_eq_nil_iff.mpr buffers, empty]
  rfl

theorem Orderly.runs_drained (orderly : s.Orderly) (ended : s.queue.drained = true)
    (run : Relation.ReflTransGen Moves s s') : s'.added = s.added ∧ s'.taken = s.taken ∧ s'.held = [] := by
  suffices s'.Orderly ∧ s'.queue.drained = true ∧ s'.added = s.added ∧ s'.taken = s.taken by
    obtain ⟨orderly', ended', added, taken⟩ := this
    exact ⟨added, taken, orderly'.held_of_drained ended'⟩
  induction run with
  | refl => exact ⟨orderly, ended, rfl, rfl⟩
  | tail _ moves ih =>
    obtain ⟨orderly', ended', added, taken⟩ := ih
    obtain ⟨ended'', added', taken'⟩ := orderly'.moves_drained ended' moves
    exact ⟨orderly'.moves moves, ended'', added'.trans added, taken'.trans taken⟩

/-- Whatever a participant does in its place, it does not break off. -/
theorem Orderly.steps (orderly : s.Orderly) (i : Fin n) :
    (s.activity i = .working → ∀ a, ∃ b q, Buffer.enqueue a (s.buffers i, s.queue) = .ok () (b, q)) ∧
    (∃ b q, Buffer.flush (s.buffers i, s.queue) = .ok () (b, q)) ∧
    ∃ item b q, (s.activity i).ask (s.buffers i, s.queue) = .ok item (b, q) := by
  refine ⟨fun working a => Buffer.enqueue_total orderly.sound (orderly.undrained working), ?_, ?_⟩
  · refine Buffer.flush_total orderly.sound ?_
    by_cases drained : s.queue.drained = true
    · exact .inl ((orderly.spent drained i).buffers i)
    · exact .inr (Bool.eq_false_iff.mpr drained)
  · cases s.activity i with
    | waiting notified => exact Buffer.resume_total orderly.sound orderly.calm
    | working => exact Buffer.dequeue_total orderly.sound orderly.calm
    | finished => exact Buffer.dequeue_total orderly.sound orderly.calm

/-- Participants that share a queue which was reset for them, in any order of their steps. Every item that was
added was taken once, or is once in a buffer or in a packet. One is told that nothing is left only if there is no
packet, every buffer is empty and all the others wait or were told so; after that nobody adds or takes anything,
whatever they do. No step breaks off, and as long as the queue is not drained somebody works; once it is, nobody
waits without having been notified. -/
theorem drained_only_when_spent {participants : Word} {s : Consumers α participants.toNat}
    (some : 0 < participants.toNat) (reachable : Reachable participants s) :
    s.added.Perm (s.taken ++ s.held) ∧
    (∀ i b q, (s.activity i).ask (s.buffers i, s.queue) = .ok .nothing (b, q) →
      s.queue.stack = [] ∧ (∀ j, s.buffers j = #[]) ∧ ∀ j, j ≠ i → (s.activity j).Waits ∨ s.activity j = .finished) ∧
    ((∃ i, s.activity i = .finished) →
      ∀ s', Relation.ReflTransGen Moves s s' → s'.added = s.added ∧ s'.taken = s.taken ∧ s'.held = []) ∧
    (∀ i, (s.activity i = .working → ∀ a, ∃ b q, Buffer.enqueue a (s.buffers i, s.queue) = .ok () (b, q)) ∧
      (∃ b q, Buffer.flush (s.buffers i, s.queue) = .ok () (b, q)) ∧
      ∃ item b q, (s.activity i).ask (s.buffers i, s.queue) = .ok item (b, q)) ∧
    (s.queue.drained = false → ∃ i, s.activity i = .working) ∧
    (s.queue.drained = true → ∀ i, s.activity i ≠ .waiting false) := by
  have orderly := reachable.orderly some
  refine ⟨orderly.balance, fun i b q done => ?_, ?_, orderly.steps, fun active => (orderly.active active).1,
    fun ended i => ((orderly.ended ended).2 i).2⟩
  · obtain ⟨spent, -, -⟩ := orderly.spent_of_nothing (orderly.ask_ok done)
    refine ⟨spent.packets, spent.buffers, fun j other => ?_⟩
    cases doing : s.activity j with
    | working => exact absurd doing (spent.others j other)
    | waiting notified => exact .inl ⟨notified, rfl⟩
    | finished => exact .inr rfl
  · rintro ⟨i, done⟩ s' run
    have ended : s.queue.drained = true := by
      refine (Bool.eq_false_or_eq_true _).resolve_right fun active => ?_
      exact (orderly.active active).2 i done
    exact orderly.runs_drained ended run

/-- One participant hands an item over to another; then both run out of work. -/
theorem handed_over_then_drained :
    0 < (2 : Word).toNat ∧ ∃ s : Consumers Nat (2 : Word).toNat, Reachable 2 s ∧ s.taken = [7] ∧
      s.activity (0 : Fin 2) = .finished ∧ s.activity (1 : Fin 2) = .waiting true ∧ s.added.Perm (s.taken ++ s.held) ∧
      ∀ s', Relation.ReflTransGen Moves s s' → s'.taken = [7] ∧ s'.held = [] := by
  have awake : ∀ i : Fin 2, Activity.working ≠ .waiting false := fun _ => Activity.noConfusion
  have start : Reachable 2 (new (α := Nat) (2 : Word).toNat _) := .start (q := .empty) rfl
  have added := start.step (.adds (0 : Fin 2) 7 rfl rfl (.silent (Nat.le_refl _) rfl))
  have flushed := added.step (.flushes (0 : Fin 2) (fun ⟨_, same⟩ => nomatch same) rfl (.nobody (by decide) awake))
  have taken := flushed.step (.asks (1 : Fin 2) rfl (.silent (by decide) rfl))
  have waiting := taken.step (.asks (1 : Fin 2) rfl (.silent (by decide) rfl))
  have drained := waiting.step (.asks (0 : Fin 2) rfl (.everyone rfl rfl))
  obtain ⟨balance, -, final, -⟩ := drained_only_when_spent (by decide) drained
  exact ⟨by decide, _, drained, rfl, rfl, rfl, balance, fun s' run => (final ⟨(0 : Fin 2), rfl⟩ s' run).2⟩

end Consumers

end TracingHeap.Work
