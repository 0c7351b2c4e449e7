import TracingHeap.Proofs.Cycles
import TracingHeap.Proofs.Journals

/-! Chronicles of collections. A crew takes its steps in any order, and a journal is kept of what is done in the shares of its
workers. Whatever the order, no object is in the journal twice, and by the end of the closure everything that was left to be
scanned was taken up. -/

namespace TracingHeap

open List Memory Work Collector

/-- Nobody has broken off. -/
structure Work.Packets.Whole {α : Type} (q : Packets α) : Prop where
  sound : q.poisoned = false
  calm : q.aborted = false

/-- What is left to be scanned, with those of a team or in packets. -/
def Team.pending (team : List Worker) (h : Heap) : Multiset Address :=
  ↑(team.flatMap fun w => w.collector.buffer.toList) + ↑(h.backlog.objects.stack.flatMap Array.toList)

/-- A step of one worker is added to a journal, if the worker has a share. -/
def Journal.follow (j : Journal) (i : Nat) (s t : Crew × Heap) : Journal :=
  match (s.1.workers[i]?).bind Worker.share? with
  | some share => j.note share ((Crew.workerPart i).get s.1).collector s.2 ((Crew.workerPart i).get t.1).collector t.2
  | none => j

/-- A crew takes steps, in any order and without a fault, and a journal is kept. -/
inductive Crew.Journaled : Crew × Heap → Journal → Crew × Heap → Prop where
  | refl (s : Crew × Heap) : Journaled s .empty s
  | step {s : Crew × Heap} {j : Journal} {c c' : Crew} {h h' : Heap} {i : Nat} {b : Bool} (before : Journaled s j (c, h))
    (took : stepOf i (c, h) = .ok b (c', h')) (calm : c'.fault = none) :
    Journaled s (j.follow i (c, h) (c', h')) (c', h')

variable {k₀ k i : Nat} {h₀ h h' : Heap} {cs₀ cs : List Collector} {pieces₀ known pieces pieces' : List Piece} {c c' : Crew}
  {s t : Crew × Heap} {j : Journal} {w w' : Worker} {r' : Rendezvous} {t₀ : Tally} {team team' others : List Worker}

namespace Crew

theorem Journaled.run (journaled : Journaled s j t) : Run s t := by
  induction journaled with
  | refl => exact .refl _
  | step _ took calm ih => exact ih.step took calm

/-- A journal can be kept of every run. -/
theorem Run.journaled (run : Run s t) : ∃ j, Journaled s j t := by
  induction run with
  | refl => exact ⟨_, .refl _⟩
  | step _ took calm ih =>
    obtain ⟨j, journaled⟩ := ih
    exact ⟨_, journaled.step took calm⟩

/-! ### Steps that are not in a journal -/

/-- Apart from closures, nothing that a crew does is counted. -/
theorem Ran.tally (ran : Ran k h h') : h'.tally = h.tally := by
  unfold Ran at ran
  split at ran
  · obtain ⟨full, -, rfl⟩ := Heap.prepare_ok ran
    rfl
  · obtain ⟨remembered, rfl, -⟩ := Heap.mutatorsPrepare_ok ran
    rfl
  · obtain ⟨roots, rfl, -⟩ := ran
    rfl
  · rw [Heap.mutatorsRelease_ok ran]
  · obtain ⟨_, _, _, -, rfl, -⟩ := Heap.release_ok ran
    rfl
  · exact ran.elim

theorem Goes.tally {inside : i < c.workers.size} (goes : c.Goes i k inside h w' r' h') (other : k ≠ 4) : h'.tally = h.tally := by
  cases goes with
  | rests _ _ _ heap => rw [heap]
  | leaves _ _ _ _ heap => rw [heap]
  | performs _ head performed =>
    rcases performs_cases head performed with ⟨-, -, ⟨-, ran⟩ | ⟨-, same⟩⟩ | ⟨-, same, -⟩
    · exact ran.tally
    · rw [same]
    · rw [same]
  | begins phase => exact absurd phase other
  | works phase => exact absurd phase other
  | ends phase => exact absurd phase other

/-- Shares are worked off in closures only. -/
theorem Rallied.unshared (rallied : c.Rallied k) (other : k ≠ 4) (member : w ∈ c.workers) : w.share? = none := by
  cases rallied.stands w member with
  | late _ _ waiting => exact share_of_waiting waiting
  | starting _ starting => exact share_of_starting starting
  | closing _ phase => exact absurd phase other
  | ended _ waiting => exact share_of_waiting waiting
  | finished _ finished => rw [Worker.share?, finished]

theorem share_of_resting (resting : ∀ share, w.activity ≠ .closing share) : w.share? = none := by
  unfold Worker.share?
  split
  next share closing => exact absurd closing (resting share)
  next => rfl

theorem Arrives.same {collector : Collector} (arrives : c.Arrives i k collector w' r') :
    w'.collector = collector := by
  cases arrives with
  | wait same => exact same
  | all same => exact same

theorem follow_unshared (inside : i < c.workers.size) (unshared : c.workers[i].share? = none) :
    j.follow i (c, h) (c', h') = j := by
  rw [Journal.follow, Array.getElem?_eq_getElem inside, Option.bind_some, unshared]

theorem follow_shared {share : Share} (inside : i < c.workers.size) (shared : c.workers[i].share? = some share) :
    j.follow i (c, h) (c.after i w' r', h') = j.note share c.workers[i].collector h w'.collector h' := by
  have before : (workerPart i).get c = c.workers[i] := by
    simp only [workerPart, Array.getElem?_eq_getElem inside, Option.getD_some]
  have after : (workerPart i).get (c.after i w' r') = w' := by
    simp only [workerPart, workers_after inside, Array.getElem?_set_self inside, Option.getD_some]
  rw [Journal.follow, Array.getElem?_eq_getElem inside, Option.bind_some, shared]
  simp only [before, after]

end Crew

/-! ### What is pending -/

namespace Team

theorem pending_cons (w : Worker) (others : List Worker) (h : Heap) :
    pending (w :: others) h = w.collector.pending h + ↑(others.flatMap fun v => v.collector.buffer.toList) := by
  rw [pending, flatMap_cons, Collector.pending, items, ← Multiset.coe_add, ← Multiset.coe_add]
  exact add_right_comm ..

theorem pending_of_perm (same : team' ~ team) (h : Heap) : pending team' h = pending team h := by
  rw [pending, pending, Multiset.coe_eq_coe.mpr (same.flatMap_right _)]

theorem pending_of_spent (spent : Spent (collectors team) h) : pending team h = 0 := by
  have empty : (team.flatMap fun w => w.collector.buffer.toList) = [] := flatMap_eq_nil_iff.mpr fun w member => by
    rw [(spent.collectors _ (mem_map_of_mem member)).2]
  rw [pending, empty, spent.stack]
  rfl

end Team

/-! ### Whole queues -/

namespace Work.Packets

variable {q q' : Packets Address}

theorem Restacked.whole (restacked : q.Restacked q') (whole : q.Whole) : q'.Whole := by
  obtain ⟨-, -, -, aborted, poisoned⟩ := restacked.fields
  exact ⟨poisoned.trans whole.sound, aborted.trans whole.calm⟩

end Work.Packets

namespace Share

variable {q q' : Packets Address} {sh next : Share} {d : Collector}

theorem rejoin_whole (sh : Share) (whole : q.Whole) : (sh.rejoin q).Whole := by
  unfold rejoin
  split
  · exact ⟨whole.sound, whole.calm⟩
  · exact whole

theorem Moved.whole (moved : Moved sh q next d q') (whole : q.Whole) : q'.Whole := by
  have back := sh.rejoin_whole whole
  cases moved with
  | works _ restacked => exact restacked.whole back
  | ends _ _ _ how =>
    rcases how with ⟨-, rfl⟩ | ⟨-, rfl⟩
    · exact back
    · exact ⟨back.sound, back.calm⟩
  | waits _ _ _ _ _ heap =>
    rw [heap]
    exact ⟨back.sound, back.calm⟩

end Share

/-- A collection does not start with a queue in which somebody broke off, and it forgets who broke off elsewhere. -/
theorem Heap.prepare_whole {u : Unit} (ok : prepare h = .ok u h') : h'.backlog.objects.Whole := by
  have last : ∀ {h₁ : Heap}, (do
      let threads := (← get).settings.threads
      Step.on backlogPart (Backlog.prepare threads) : Step Heap Unit) h₁ = .ok u h' → h'.backlog.objects.Whole := by
    intro h₁ ok
    simp only [Step.get_bind, Step.on_ok, backlogPart, Backlog.prepare, Step.bind_ok, Backlog.objectsPart, Packets.reset, Packets.enter,
      Step.ensure_ok, Step.modify_ok, Bool.not_eq_true'] at ok
    obtain ⟨_, ⟨_, _, ⟨_, ⟨_, _, ⟨whole, rfl⟩, rfl⟩, rfl⟩, rfl⟩, rfl⟩ := ok
    exact ⟨whole, rfl⟩
  rw [prepare, Step.get_bind] at ok
  cases plan : h.plan with
  | generational =>
    simp only [plan, Step.bind_ok, Step.ask_ok, Step.modify_bind] at ok
    obtain ⟨full, _, -, _, _, -, ok⟩ := ok
    cases full with
    | false =>
      obtain ⟨_, _, -, ok⟩ := Step.bind_ok.mp ok
      exact last ok
    | true =>
      obtain ⟨_, _, -, ok⟩ := Step.bind_ok.mp ok
      obtain ⟨_, _, -, ok⟩ := Step.bind_ok.mp ok
      exact last ok
  | semispace =>
    simp only [plan, Step.bind_ok, Step.modify_bind, Step.get_bind] at ok
    obtain ⟨_, _, -, _, _, -, _, _, -, ok⟩ := ok
    exact last ok

/-- The queue of a collection is whole when the closure starts. -/
theorem Crew.Begun.whole (begun : Begun 0 h₀ cs₀ pieces₀ known k h cs pieces) (prepared : 0 < k) (early : k ≤ 4) :
    h.backlog.objects.Whole := by
  induction begun with
  | start => omega
  | @once k h h' cs pieces begun ran ih =>
    have before : 0 < k → h.backlog.objects.Whole := fun later => ih later (by omega)
    unfold Ran at ran
    split at ran
    · exact Heap.prepare_whole ran
    · obtain ⟨remembered, rfl, -⟩ := Heap.mutatorsPrepare_ok ran
      exact before (by omega)
    · obtain ⟨roots, rfl, -⟩ := ran
      exact before (by omega)
    · omega
    · omega
    · exact ran.elim
  | each _ two _ ih => exact ih (by omega) (by omega)
  | closed => omega

/-! ### The places of the objects -/

/-- Objects and the places that they have got are told apart by their addresses. -/
structure Heap.Places (h : Heap) (known : List Piece) : Prop where
  proper : ∀ o ∈ known, o.start ≠ .null
  distinct : Piece.Distinct known
  injective : ∀ o ∈ known, ∀ p ∈ known, h.spaces.image o = h.spaces.image p → o = p
  apart : ∀ o ∈ known, ∀ p ∈ known, p.start = h.spaces.image o → p = o

theorem Kept.distinct {g : Outset} {s : Spaces} {buffers : List (SpaceId × Span)} {keys : List (Nat × Address)}
    (kept : Kept g h pieces) (sound : g.Sound) (held : s.Held h.memory pieces buffers keys) : Piece.Distinct g.known :=
  fun _ member _ member' same => held.start_inj (kept.known sound member) (kept.known sound member') same

/-- No object is known at the address of a copy. -/
theorem Kept.places {g : Outset} {s : Spaces} {buffers : List (SpaceId × Span)} {keys : List (Nat × Address)}
    (kept : Kept g h pieces) (sound : g.Sound) (held : s.Held h.memory pieces buffers keys) : h.Places g.known where
  proper o member := (sound.known o member).2.2
  distinct := kept.distinct sound held
  injective := kept.injective
  apart o member p member' same := by
    obtain ⟨r, inner, start, -, ⟨rfl, -⟩ | copy⟩ := kept.bodies o member
    · exact kept.distinct sound held p member' r member (same.trans start.symm)
    · have here := held.start_inj inner (kept.known sound member') (start.trans same.symm)
      exact absurd (here ▸ (sound.known p member').1) copy

/-- A journal that agrees on where the objects are: every answer is the place of the object, that place is answered when the
object is traced there, and every object was gained once and left to be scanned once. -/
structure Journal.Agrees (j : Journal) (place : Address → Address) : Prop where
  answers : ∀ e ∈ j.traced, e.2 = some (place e.1)
  again : ∀ e ∈ j.traced, place (place e.1) = place e.1
  once : j.gained.Nodup
  enqueued : j.enqueued = ↑(j.gained.map place)
  scannedOnce : j.enqueued.Nodup

theorem Journal.agrees_empty : Journal.empty.Agrees id where
  answers e member := by cases member
  again e member := by cases member
  once := nodup_nil
  enqueued := rfl
  scannedOnce := Multiset.nodup_zero

theorem Heap.Places.place_null (places : h.Places known) : h.place known .null = .null := by
  have none : known.find? (·.start = .null) = none :=
    find?_eq_none.mpr fun o member => by simpa only [decide_eq_true_eq] using places.proper o member
  rw [place, none]
  rfl

theorem Heap.Places.place_image (places : h.Places known) {o : Piece} (member : o ∈ known) :
    h.place known (h.spaces.image o) = h.spaces.image o := by
  rw [place]
  cases found : known.find? (·.start = h.spaces.image o) with
  | none => rfl
  | some p =>
    have same : p.start = h.spaces.image o := by simpa only [decide_eq_true_eq] using find?_some found
    rw [places.apart o member p (mem_of_find?_eq_some found) same]
    rfl

theorem Journal.Tells.agrees (tells : j.Tells known h) (places : h.Places known) : j.Agrees (h.place known) := by
  have answer : ∀ e ∈ j.traced, ∃ b, e.2 = some b ∧ h.place known e.1 = b ∧ h.place known b = b := by
    intro e member
    rcases tells.answers e member with rfl | ⟨o, inside, -, there, answer⟩
    · exact ⟨.null, rfl, places.place_null, places.place_null⟩
    · refine ⟨_, answer, ?_, places.place_image inside⟩
      rcases there with there | there
      · rw [there, Heap.place_start places.distinct inside]
      · rw [there, places.place_image inside]
  refine ⟨fun e member => ?_, fun e member => ?_, tells.once, tells.enqueued, ?_⟩
  · obtain ⟨b, same, rfl, -⟩ := answer e member
    exact same
  · obtain ⟨b, -, rfl, again⟩ := answer e member
    exact again
  · rw [tells.enqueued, Multiset.coe_nodup]
    refine tells.once.map_on fun a member b member' same => ?_
    obtain ⟨o, inside, -, rfl⟩ := tells.gains a member
    obtain ⟨p, inside', -, rfl⟩ := tells.gains b member'
    rw [Heap.place_start places.distinct inside, Heap.place_start places.distinct inside'] at same
    rw [places.injective o inside p inside' same]

/-! ### The course of a collection -/

/-- A journal in the middle of a closure. What is pending was left to be scanned and not taken up. -/
structure Journal.Follows (j : Journal) (known : List Piece) (t₀ : Tally) (team : List Worker) (h : Heap) : Prop where
  tells : j.Tells known h
  counted : j.Counted t₀ h.tally
  balance : j.enqueued = j.dequeued + Team.pending team h
  whole : h.backlog.objects.Whole

/-- A journal in phase `k` of a collection. -/
inductive Journal.Fits (j : Journal) (known : List Piece) (t₀ : Tally) (c : Crew) (h : Heap) (k : Nat) : Prop where
  | before (early : k < 4) (none : j = .empty) (tally : h.tally = t₀)
  | during (closure : k = 4) (follows : j.Follows known t₀ c.team h)
  | after (late : 4 < k) (place : Address → Address) (agrees : j.Agrees place) (counted : j.Counted t₀ h.tally)
    (even : j.enqueued = j.dequeued)

namespace Journal

/-- A journal follows as long as what is pending and the books stay the same. -/
theorem Follows.congr (follows : j.Follows known t₀ team h) (pending : Team.pending team' h = Team.pending team h) :
    j.Follows known t₀ team' h :=
  ⟨follows.tells, follows.counted, pending ▸ follows.balance, follows.whole⟩

/-- A journal follows a worker that takes a step of its share. -/
theorem Follows.works {g : Outset} {turn : Turn} {share : Share} {answer : Option Share}
    (follows : j.Follows g.known t₀ (w :: others) h) (labours : Team.Labours g turn (w :: others) h pieces) (sound : g.Sound)
    (shared : w.share? = some share) (unfinished : share.stage ≠ .finished)
    (ok : share.step (w.collector, h) = .ok answer (w'.collector, h')) :
    (j.note share w.collector h w'.collector h').Follows g.known t₀ (w' :: others) h' := by
  have going := labours.going shared
  obtain ⟨calm, -⟩ := labours.calm w mem_cons_self share shared
  have stride := going.strides sound (fun waiting => calm (.inl waiting)) unfinished ok
  have distinct := going.closing.kept.distinct sound going.ready.held
  obtain ⟨tells, counted⟩ := noted follows.tells follows.counted distinct stride
  obtain ⟨_, -, stepped⟩ := Share.step_ok going sound (fun waiting => calm (.inl waiting)) unfinished ok
  refine ⟨tells, counted, ?_, stepped.moved.whole follows.whole⟩
  have balance := j.note_balance share w.collector w'.collector h h'
  have before := follows.balance
  rw [Team.pending_cons] at before ⊢
  refine add_right_cancel (b := j.dequeued + w.collector.pending h) (balance.trans ?_)
  rw [before]
  ac_rfl

theorem Follows.step {g : Outset} (follows : j.Follows g.known t₀ c.team h) (sound : g.Sound)
    (labours : Team.Labours g c.rendezvous.current c.team h pieces) {inside : i < c.workers.size}
    (goes : c.Goes i 4 inside h w' r' h') :
    (j.follow i (c, h) (c.after i w' r', h')).Follows g.known t₀ (c.after i w' r').team h' := by
  obtain ⟨perm', perm⟩ := Crew.team_after w' r' inside
  have same : w'.collector.buffer = c.workers[i].collector.buffer →
      Team.pending (c.after i w' r').team h = Team.pending c.team h := fun same => by
    rw [Team.pending_of_perm perm', Team.pending_of_perm perm, Team.pending_cons, Team.pending_cons, Collector.pending, same]
    rfl
  have unshared : c.workers[i].share? = none → h' = h → w'.collector.buffer = c.workers[i].collector.buffer →
      (j.follow i (c, h) (c.after i w' r', h')).Follows g.known t₀ (c.after i w' r').team h' := fun unshared heap buffer => by
    rw [Crew.follow_unshared inside unshared, heap]
    exact follows.congr (same buffer)
  cases goes with
  | rests resting worker rendezvous heap =>
    exact unshared (Crew.share_of_resting resting) heap (by rw [worker])
  | leaves late alike started rendezvous heap rallied => exact unshared (Crew.share_of_waiting late) heap (by rw [alike])
  | performs starting head performed arrives =>
    rcases Crew.performs_cases head performed with ⟨single, -⟩ | ⟨two, -⟩
    all_goals omega
  | begins phase starting begins alike closing rendezvous rallied =>
    obtain ⟨heap, collector⟩ := Collector.beginClosure_ok begins
    exact unshared (Crew.share_of_starting starting) heap (by rw [alike, collector])
  | works phase closing unfinished worked alike next rendezvous rallied =>
    have shared := Crew.share_of_closing closing
    rw [Crew.follow_shared inside shared]
    have mine := (follows.congr (Team.pending_of_perm perm.symm h)).works (labours.of_perm perm.symm) sound shared
      (fun finished => by
        rw [Share.isFinished, finished] at unfinished
        cases unfinished) (alike ▸ worked)
    exact mine.congr (Team.pending_of_perm perm' h')
  | @ends share phase closing finished heap arrives =>
    have shared := Crew.share_of_closing closing
    have collector := arrives.same
    obtain ⟨calm, -⟩ := (labours.of_perm perm.symm).calm _ mem_cons_self share shared
    have nothing : j.note share c.workers[i].collector h w'.collector h' = j :=
      note_of_nothing (calm (.inr (beq_iff_eq.mp finished))).1 (by rw [heap, collector])
    rw [Crew.follow_shared inside shared, nothing, heap]
    exact follows.congr (same (by rw [collector]))

/-- A journal fits a collection at its start, and whenever it has been followed. -/
theorem Fits.start (c : Crew) (h : Heap) : empty.Fits known h.tally c h 0 := .before (by omega) rfl rfl

/-- A closure that starts has an empty journal, and nothing is pending. -/
theorem Follows.start (begun : Crew.Begun 0 h₀ cs₀ pieces₀ known 4 h (Team.collectors team) pieces)
    (opens : Crew.Opens known h (Team.collectors team) pieces) : empty.Follows known h.tally team h where
  tells := tells_empty known h
  counted := counted_empty h.tally
  balance := by
    have empty : (team.flatMap fun w => w.collector.buffer.toList) = [] := flatMap_eq_nil_iff.mpr fun w member => by
      rw [(opens.collectors _ (mem_map_of_mem member)).2]
    rw [Team.pending, empty, opens.stack]
    rfl
  whole := begun.whole (by omega) (by omega)

/-- When the closure is over, everything that was left to be scanned was taken up. -/
theorem Follows.ended (follows : j.Follows known t₀ team h)
    (begun : Crew.Begun 0 h₀ cs₀ pieces₀ known 5 h (Team.collectors team) pieces) :
    (∃ place, j.Agrees place) ∧ j.enqueued = j.dequeued := by
  cases begun with
  | once _ ran => exact ran.elim
  | each _ two => omega
  | closed _ same sound _ shared closing spent =>
    subst same
    have balance := follows.balance
    rw [Team.pending_of_spent spent, add_zero] at balance
    exact ⟨⟨_, follows.tells.agrees (closing.kept.places sound shared.held)⟩, balance⟩

/-- The journal fits the collection step by step. -/
theorem Fits.step {b : Bool} (fits : j.Fits known t₀ c h k) (carries : Crew.Carries 0 h₀ cs₀ pieces₀ known c h pieces k)
    (opens : ∀ h cs pieces, Crew.Begun 0 h₀ cs₀ pieces₀ known 4 h cs pieces → Crew.Opens known h cs pieces)
    (took : Crew.stepOf i (c, h) = .ok b (c', h')) (calm : c'.fault = none) :
    ∃ k' pieces', Crew.Carries 0 h₀ cs₀ pieces₀ known c' h' pieces' k' ∧ (j.follow i (c, h) (c', h')).Fits known t₀ c' h' k' := by
  obtain ⟨-, k', pieces', next, -, carries'⟩ := carries.step opens took calm
  obtain ⟨-, ⟨outside, rfl, rfl⟩ | ⟨inside, w', r', steps, rfl⟩⟩ := Crew.stepOf_ok took calm
  · refine ⟨k, pieces, carries, ?_⟩
    rw [follow, Array.getElem?_eq_none outside]
    exact fits
  have goes := carries.rallied.goes inside steps
  have skipped : k ≠ 4 → j.follow i (c, h) (c.after i w' r', h') = j ∧ h'.tally = h.tally := fun other =>
    ⟨Crew.follow_unshared inside (carries.rallied.unshared other (Array.getElem_mem inside)), goes.tally other⟩
  refine ⟨k', pieces', carries', ?_⟩
  cases fits with
  | before early none tally =>
    obtain ⟨same, books⟩ := skipped (by omega)
    rw [same]
    rcases next with rfl | ⟨rfl, fresh⟩
    · exact .before early none (books.trans tally)
    · by_cases more : k + 1 < 4
      · exact .before more none (books.trans tally)
      · obtain rfl : k = 3 := by omega
        have begun := carries'.entered fresh
        subst none
        exact .during rfl ((books.trans tally) ▸ .start begun (opens _ _ _ begun))
  | during closure follows =>
    subst closure
    cases carries.round with
    | closing same sound begun labours untouched =>
      subst same
      have later := follows.step sound labours goes
      rcases next with rfl | ⟨rfl, fresh⟩
      · exact .during rfl later
      · obtain ⟨⟨place, agrees⟩, even⟩ := later.ended (carries'.entered fresh)
        exact .after (by omega) place agrees later.counted even
    | once single => omega
    | each two => omega
  | after late place agrees counted even =>
    obtain ⟨same, books⟩ := skipped (by omega)
    rw [same]
    refine .after ?_ place agrees (books ▸ counted) even
    rcases next with rfl | ⟨rfl, -⟩
    · exact late
    · omega

/-- The journal of a collection fits it all the time. -/
theorem Fits.of_journaled (journaled : Crew.Journaled s j t) (fits : empty.Fits known t₀ s.1 s.2 k)
    (carries : Crew.Carries 0 h₀ cs₀ pieces₀ known s.1 s.2 pieces k)
    (opens : ∀ h cs pieces, Crew.Begun 0 h₀ cs₀ pieces₀ known 4 h cs pieces → Crew.Opens known h cs pieces) :
    ∃ k' pieces', Crew.Carries 0 h₀ cs₀ pieces₀ known t.1 t.2 pieces' k' ∧ j.Fits known t₀ t.1 t.2 k' := by
  induction journaled with
  | refl => exact ⟨k, pieces, carries, fits⟩
  | step before took calm ih =>
    obtain ⟨k', pieces', carries', fits'⟩ := ih
    exact fits'.step carries' opens took calm

end Journal

end TracingHeap
