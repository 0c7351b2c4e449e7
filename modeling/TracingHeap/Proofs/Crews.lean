import TracingHeap.Collection.Crew
import TracingHeap.Proofs.Outcome

/-! How a crew moves through the phases. All collectors are in the same phase, up to those that have ended
it and wait, and those that have not left the rendezvous before it yet. This does not depend on the order
in which they take their steps. -/

namespace TracingHeap

open List

namespace Rendezvous

variable (r : Rendezvous) (turn : Turn) (count : Nat)

@[simp] theorem setArrivals_current : (r.setArrivals turn count).current = r.current := by cases turn <;> rfl

@[simp] theorem setArrivals_parties : (r.setArrivals turn count).parties = r.parties := by cases turn <;> rfl

@[simp] theorem setArrivals_aborted : (r.setArrivals turn count).aborted = r.aborted := by cases turn <;> rfl

theorem arrivals_setArrivals (other : Turn) :
    (r.setArrivals turn count).arrivals other = if other = turn then count else r.arrivals other := by
  cases turn <;> cases other <;> rfl

variable {r} {r' : Rendezvous} {turn}

/-- What the rendezvous is after one more has arrived. -/
def joined (r : Rendezvous) : Rendezvous := r.setArrivals r.current (r.arrivals r.current + 1)

/-- What the rendezvous is after the last one has arrived. -/
def turned (r : Rendezvous) : Rendezvous := { r.joined.setArrivals (!r.current) 0 with current := !r.current }

theorem joined_fields (r : Rendezvous) : r.joined.parties = r.parties ∧ r.joined.aborted = r.aborted ∧
    r.joined.current = r.current ∧ r.joined.arrivals r.current = r.arrivals r.current + 1 ∧
    r.joined.arrivals (!r.current) = r.arrivals (!r.current) := by
  refine ⟨setArrivals_parties .., setArrivals_aborted .., setArrivals_current .., ?_, ?_⟩
  · rw [joined, arrivals_setArrivals, if_pos rfl]
  · rw [joined, arrivals_setArrivals, if_neg (by cases r.current <;> decide)]

theorem turned_fields (r : Rendezvous) : r.turned.parties = r.parties ∧ r.turned.aborted = r.aborted ∧
    r.turned.current = !r.current ∧ r.turned.arrivals r.current = r.arrivals r.current + 1 ∧
    r.turned.arrivals (!r.current) = 0 := by
  obtain ⟨parties, aborted, -, mine, -⟩ := joined_fields r
  have kept : ∀ turn, r.turned.arrivals turn = (r.joined.setArrivals (!r.current) 0).arrivals turn := by
    intro turn
    cases turn <;> rfl
  refine ⟨(setArrivals_parties ..).trans parties, (setArrivals_aborted ..).trans aborted, rfl, ?_, ?_⟩
  · rw [kept, arrivals_setArrivals, if_neg (by cases r.current <;> decide), mine]
  · rw [kept, arrivals_setArrivals, if_pos rfl]

theorem arrive_ok {arrival : Arrival} (ok : arrive r = .ok arrival r') :
    r.aborted = false ∧ arrival.order = r.arrivals r.current ∧
      (r.arrivals r.current + 1 = r.parties ∧ arrival.waitFor = none ∧ r' = r.turned ∨
        r.arrivals r.current + 1 ≠ r.parties ∧ arrival.waitFor = some r.current ∧ r' = r.joined) := by
  rw [arrive, Step.get_bind] at ok
  by_cases aborted : r.aborted = true
  · rw [if_pos aborted] at ok
    simp only [Step.bind_ok, Step.throw_ok, false_and, exists_false] at ok
  · rw [if_neg aborted] at ok
    simp only [Step.set_bind, Step.ite_step] at ok
    refine ⟨Bool.eq_false_iff.mpr aborted, ?_⟩
    by_cases everyone : r.arrivals r.current + 1 = r.parties
    · rw [if_pos everyone] at ok
      simp only [Step.modify_bind, Step.pure_ok, setArrivals_current] at ok
      obtain ⟨rfl, rfl⟩ := ok
      exact ⟨rfl, .inl ⟨everyone, rfl, rfl⟩⟩
    · rw [if_neg everyone] at ok
      simp only [Step.pure_ok] at ok
      obtain ⟨rfl, rfl⟩ := ok
      exact ⟨rfl, .inr ⟨everyone, rfl, rfl⟩⟩

/-- As long as nobody has broken off, everyone who arrives is admitted. -/
theorem arrive_total (calm : r.aborted = false) : ∃ arrival r', arrive r = .ok arrival r' := by
  rw [arrive, Step.get_bind, if_neg (by rw [calm]; exact Bool.false_ne_true)]
  simp only [Step.set_bind, Step.ite_step]
  split
  · exact ⟨_, _, rfl⟩
  · exact ⟨_, _, rfl⟩

theorem mayPass_total (calm : r.aborted = false) : mayPass turn r = .ok (decide (r.parties ≤ r.arrivals turn)) r := by
  rw [mayPass, Step.get_bind, if_neg (by rw [calm]; exact Bool.false_ne_true)]
  rfl

theorem mayPass_ok {pass : Bool} (ok : mayPass turn r = .ok pass r') :
    r.aborted = false ∧ pass = decide (r.parties ≤ r.arrivals turn) ∧ r' = r := by
  rw [mayPass, Step.get_bind] at ok
  by_cases aborted : r.aborted = true
  · rw [if_pos aborted] at ok
    simp only [Step.bind_ok, Step.throw_ok, false_and, exists_false] at ok
  · rw [if_neg aborted] at ok
    obtain ⟨rfl, rfl⟩ := Step.pure_ok.mp ok
    exact ⟨Bool.eq_false_iff.mpr aborted, rfl, rfl⟩

end Rendezvous

/-- What ending a phase does to a worker and to the rendezvous. -/
inductive Worker.Ends (w : Worker) (r : Rendezvous) : Worker → Rendezvous → Prop where
  | last (everyone : r.arrivals r.current + 1 = r.parties) :
    Ends w r w.advance { (r.setArrivals r.current (r.arrivals r.current + 1)).setArrivals (!r.current) 0 with
      current := !r.current }
  | wait (others : r.arrivals r.current + 1 ≠ r.parties) :
    Ends w r { w with activity := .waiting r.current } (r.setArrivals r.current (r.arrivals r.current + 1))

/-- What a worker does when it starts a phase that is no closure. -/
def Worker.Performs (w : Worker) (h : Heap) (schedule : Schedule) (phase : Phase) (c' : Collector) (h' : Heap) : Prop :=
  match schedule with
  | .globally => c' = w.collector ∧
    (w.collector.isPrimary = true ∧ Heap.globalPhase phase h = .ok () h' ∨ w.collector.isPrimary = false ∧ h' = h)
  | .mutators => c' = w.collector ∧
    (w.collector.isPrimary = true ∧ Heap.mutatorPhase phase h = .ok () h' ∨ w.collector.isPrimary = false ∧ h' = h)
  | .collectors => phase ≠ .closure ∧ Collector.phase phase (w.collector, h) = .ok () (c', h')

/-- The steps of a worker. -/
inductive Worker.Steps (w : Worker) (r : Rendezvous) (h : Heap) : Worker → Rendezvous → Heap → Prop where
  | rests (resting : ∀ share, w.activity ≠ .closing share) : Steps w r h w r h
  | performs {schedule : Schedule} {phase : Phase} {rest : List (Schedule × Phase)} {c' : Collector} {w' : Worker}
    {r' : Rendezvous} {h' : Heap} (starting : w.activity = .starting) (phases : w.phases = (schedule, phase) :: rest)
    (performed : w.Performs h schedule phase c' h') (ended : Ends { w with collector := c' } r w' r') : Steps w r h w' r' h'
  | begins {rest : List (Schedule × Phase)} {c' : Collector} {h' : Heap} (starting : w.activity = .starting)
    (phases : w.phases = (.collectors, .closure) :: rest)
    (begun : Collector.beginClosure (w.collector, h) = .ok () (c', h')) :
    Steps w r h { w with collector := c', activity := .closing .new } r h'
  | ends {share : Share} {w' : Worker} {r' : Rendezvous} (closing : w.activity = .closing share)
    (finished : share.isFinished = true) (ended : Ends w r w' r') : Steps w r h w' r' h
  | works {share : Share} {answer : Option Share} {c' : Collector} {h' : Heap} (closing : w.activity = .closing share)
    (unfinished : share.isFinished = false) (worked : share.step (w.collector, h) = .ok answer (c', h')) :
    Steps w r h { w with collector := c', activity := .closing (answer.getD share) } r h'
  | passes {turn : Turn} (waiting : w.activity = .waiting turn) (free : r.parties ≤ r.arrivals turn) :
    Steps w r h w.advance r h

namespace Worker

variable {w w' : Worker} {r r' : Rendezvous} {h h' : Heap} {b : Bool} {u : Unit}

theorem endPhase_ok (ok : endPhase (w, r, h) = .ok u (w', r', h')) : Ends w r w' r' ∧ h' = h := by
  simp only [endPhase, Step.bind_ok, Step.on_ok, Focus.comp, Focus.fst, Focus.snd, Step.modify_ok, Prod.mk.injEq] at ok
  obtain ⟨⟨order, waitFor⟩, _, ⟨r₁, arrived, rfl⟩, rfl, rfl, rfl⟩ := ok
  obtain ⟨-, -, ⟨everyone, rfl, rfl⟩ | ⟨others, rfl, rfl⟩⟩ := Rendezvous.arrive_ok arrived
  · exact ⟨.last everyone, rfl⟩
  · exact ⟨.wait others, rfl⟩

theorem onCollector_ok {α : Type} {a : α} {step : Step (Collector × Heap) α}
    (ok : onCollector step (w, r, h) = .ok a (w', r', h')) :
    ∃ c', step (w.collector, h) = .ok a (c', h') ∧ w' = { w with collector := c' } ∧ r' = r := by
  simp only [onCollector, Step.onBoth_ok, Focus.comp, Focus.fst, Focus.snd, Prod.mk.injEq] at ok
  obtain ⟨c', _, ran, rfl, rfl, rfl⟩ := ok
  exact ⟨c', ran, rfl, rfl⟩

theorem startPhase_ok {schedule : Schedule} {phase : Phase} {rest : List (Schedule × Phase)}
    (starting : w.activity = .starting) (phases : w.phases = (schedule, phase) :: rest)
    (ok : startPhase schedule phase (w, r, h) = .ok u (w', r', h')) : Steps w r h w' r' h' := by
  rw [startPhase, Step.get_bind] at ok
  cases schedule with
  | globally =>
    by_cases primary : w.collector.isPrimary = true
    · simp only [primary, if_true, Step.bind_ok, Step.on_ok, Focus.comp, Focus.snd] at ok
      obtain ⟨_, _, ⟨h₁, ran, rfl⟩, last⟩ := ok
      obtain ⟨ended, rfl⟩ := endPhase_ok last
      exact .performs starting phases ⟨rfl, .inl ⟨primary, ran⟩⟩ ended
    · simp only [primary, Bool.false_eq_true, if_false] at ok
      obtain ⟨ended, rfl⟩ := endPhase_ok ok
      exact .performs starting phases ⟨rfl, .inr ⟨Bool.eq_false_iff.mpr primary, rfl⟩⟩ ended
  | mutators =>
    by_cases primary : w.collector.isPrimary = true
    · simp only [primary, if_true, Step.bind_ok, Step.on_ok, Focus.comp, Focus.snd] at ok
      obtain ⟨_, _, ⟨h₁, ran, rfl⟩, last⟩ := ok
      obtain ⟨ended, rfl⟩ := endPhase_ok last
      exact .performs starting phases ⟨rfl, .inl ⟨primary, ran⟩⟩ ended
    · simp only [primary, Bool.false_eq_true, if_false] at ok
      obtain ⟨ended, rfl⟩ := endPhase_ok ok
      exact .performs starting phases ⟨rfl, .inr ⟨Bool.eq_false_iff.mpr primary, rfl⟩⟩ ended
  | collectors =>
    have plain : phase ≠ .closure → ((do onCollector (Collector.phase phase); endPhase) : Step (Worker × Shared) Unit)
        (w, r, h) = .ok u (w', r', h') → Steps w r h w' r' h' := by
      intro other ok
      simp only [Step.bind_ok] at ok
      obtain ⟨_, ⟨w₁, r₁, h₁⟩, ran, last⟩ := ok
      obtain ⟨c', inner, rfl, rfl⟩ := onCollector_ok ran
      obtain ⟨ended, rfl⟩ := endPhase_ok last
      exact .performs starting phases ⟨other, inner⟩ ended
    cases phase with
    | closure =>
      simp only [Step.bind_ok, Step.modify_ok] at ok
      obtain ⟨_, ⟨w₁, r₁, h₁⟩, begun, ok⟩ := ok
      obtain ⟨c', inner, rfl, rfl⟩ := onCollector_ok begun
      cases ok
      exact .begins starting phases inner
    | prepare => exact plain Phase.noConfusion ok
    | roots => exact plain Phase.noConfusion ok
    | release => exact plain Phase.noConfusion ok

/-- Every step of a worker is one of these. -/
theorem step_ok (ok : step (w, r, h) = .ok b (w', r', h')) : Steps w r h w' r' h' := by
  have rests : ∀ {b : Bool}, (∀ share, w.activity ≠ .closing share) →
      (pure false : Step (Worker × Shared) Bool) (w, r, h) = .ok b (w', r', h') → Steps w r h w' r' h' := by
    intro b resting ok
    obtain ⟨-, same⟩ := Step.pure_ok.mp ok
    cases same
    exact .rests resting
  rw [step, Step.get_bind] at ok
  cases activity : w.activity with
  | starting =>
    cases phases : w.phases with
    | nil =>
      simp only [activity, phases] at ok
      exact rests (fun share other => by rw [activity] at other; cases other) ok
    | cons head rest =>
      simp only [activity, phases, Step.bind_ok, Step.pure_ok] at ok
      obtain ⟨_, _, started, -, rfl⟩ := ok
      exact startPhase_ok activity phases started
  | closing share =>
    simp only [activity, Step.ite_step] at ok
    by_cases finished : share.isFinished = true
    · rw [if_pos finished] at ok
      simp only [Step.bind_ok, Step.pure_ok] at ok
      obtain ⟨_, _, last, -, rfl⟩ := ok
      obtain ⟨ended, rfl⟩ := endPhase_ok last
      exact .ends activity finished ended
    · rw [if_neg finished] at ok
      simp only [Step.bind_ok] at ok
      obtain ⟨answer, ⟨w₁, r₁, h₁⟩, ran, ok⟩ := ok
      obtain ⟨c', inner, rfl, rfl⟩ := onCollector_ok ran
      have next := Steps.works activity (Bool.eq_false_iff.mpr finished) inner (r := r₁)
      cases answer with
      | some share' =>
        simp only [Step.modify_bind, Step.pure_ok] at ok
        obtain ⟨-, same⟩ := ok
        cases same
        exact next
      | none =>
        obtain ⟨-, same⟩ := Step.pure_ok.mp ok
        cases same
        have same : { w with collector := c', activity := .closing share } = { w with collector := c' } := by
          rw [← activity]
        rw [Option.getD_none, same] at next
        exact next
  | waiting turn =>
    simp only [activity, Step.bind_ok, Step.on_ok, Focus.comp, Focus.fst, Focus.snd] at ok
    obtain ⟨pass, _, ⟨r₁, looked, rfl⟩, ok⟩ := ok
    obtain ⟨-, rfl, rfl⟩ := Rendezvous.mayPass_ok looked
    by_cases free : r₁.parties ≤ r₁.arrivals turn
    · simp only [free, decide_true, if_true, Step.modify_bind, Step.pure_ok] at ok
      obtain ⟨-, same⟩ := ok
      cases same
      exact .passes activity free
    · simp only [free, decide_false, Bool.false_eq_true, if_false] at ok
      exact rests (fun share other => by rw [activity] at other; cases other) ok
  | finished =>
    simp only [activity] at ok
    exact rests (fun share other => by rw [activity] at other; cases other) ok
  | brokenOff =>
    simp only [activity] at ok
    exact rests (fun share other => by rw [activity] at other; cases other) ok

end Worker

/-! ### The phases of a crew -/

/-- The phases from the one of a number on. -/
def phasesFrom (k : Nat) : List (Schedule × Phase) := collectionPhases.drop k

/-- Where a worker stands while the crew is in phase `k`. -/
inductive Worker.Stands (r : Rendezvous) (k : Nat) (w : Worker) : Prop where
  /-- It has not left the rendezvous before the phase. -/
  | late (before : 0 < k) (most : k ≤ 8) (waiting : w.activity = .waiting (!r.current)) (phases : w.phases = phasesFrom (k - 1))
  | starting (more : k < 8) (starting : w.activity = .starting) (phases : w.phases = phasesFrom k)
  | closing (share : Share) (phase : k = 4) (closing : w.activity = .closing share) (phases : w.phases = phasesFrom k)
  | ended (more : k < 8) (waiting : w.activity = .waiting r.current) (phases : w.phases = phasesFrom k)
  | finished (ended : k = 8) (finished : w.activity = .finished)

theorem Worker.Stands.congr {r r' : Rendezvous} {k : Nat} {w : Worker} (stands : w.Stands r k)
    (turn : r'.current = r.current) : w.Stands r' k := by
  cases stands with
  | late before most waiting phases => exact .late before most (by rw [turn]; exact waiting) phases
  | starting more starting phases => exact .starting more starting phases
  | closing share phase closing phases => exact .closing share phase closing phases
  | ended more waiting phases => exact .ended more (by rw [turn]; exact waiting) phases
  | finished ended finished => exact .finished ended finished

/-- Has the worker ended the present phase? -/
def Worker.hasEnded (turn : Turn) (w : Worker) : Bool :=
  match w.activity with
  | .waiting t => t == turn
  | _ => false

namespace Crew

/-- The crew is in phase `k`: some have ended it, and nobody has gone further. -/
structure Rallied (c : Crew) (k : Nat) : Prop where
  size : c.workers.size = c.rendezvous.parties
  stands : ∀ w ∈ c.workers, w.Stands c.rendezvous k
  count : c.rendezvous.arrivals c.rendezvous.current = c.workers.countP (·.hasEnded c.rendezvous.current)
  going : c.rendezvous.arrivals c.rendezvous.current < c.rendezvous.parties

/-- The crew after one worker took a step. -/
def after (c : Crew) (i : Nat) (w : Worker) (r : Rendezvous) : Crew :=
  { c with workers := c.workers.setIfInBounds i w, rendezvous := r }

variable {c c' : Crew} {h h' : Heap} {i k : Nat} {b : Bool}

/-- A step without a fault is a step of one worker. -/
theorem stepOf_ok (ok : stepOf i (c, h) = .ok b (c', h')) (calm : c'.fault = none) :
    c.fault = none ∧ (c.workers.size ≤ i ∧ c' = c ∧ h' = h ∨ ∃ (inside : i < c.workers.size) (w' : Worker) (r' : Rendezvous),
      Worker.Steps c.workers[i] c.rendezvous h w' r' h' ∧ c' = c.after i w' r') := by
  rw [stepOf] at ok
  cases ran : Worker.step ((workerPart i).get c, ((workerPart i).set c default).rendezvous, h) with
  | error e t =>
    obtain ⟨w', r', h₁⟩ := t
    simp only [ran, breakOff, Step.bind_ok, Step.on_ok, Step.modify_ok, Step.pure_ok, Focus.comp, Focus.fst,
      Focus.snd, Rendezvous.abort, Work.Packets.abort] at ok
    obtain ⟨_, _, ⟨_, _, ⟨_, rfl, rfl⟩, _, _, rfl, _, _, ⟨_, rfl, rfl⟩, _, rfl, rfl⟩, -, rfl, -⟩ := ok
    simp only [rendezvousPart, workerPart] at calm
    cases found : c.fault <;> rw [found] at calm <;> cases calm
  | ok d t =>
    obtain ⟨w', r', h₁⟩ := t
    simp only [ran] at ok
    cases ok
    have steps := Worker.step_ok ran
    refine ⟨calm, ?_⟩
    by_cases inside : i < c.workers.size
    · right
      have here : (workerPart i).get c = c.workers[i] := by
        simp only [workerPart, Array.getElem?_eq_getElem inside, Option.getD_some]
      rw [here] at steps
      refine ⟨inside, w', r', steps, ?_⟩
      simp only [workerPart, rendezvousPart, after, Array.setIfInBounds_setIfInBounds]
    · left
      have missing : (workerPart i).get c = default := by
        simp only [workerPart, Array.getElem?_eq_none (Nat.le_of_not_lt inside), Option.getD_none]
      have outside : ∀ w, c.workers.setIfInBounds i w = c.workers := fun w =>
        Array.setIfInBounds_eq_of_size_le (Nat.le_of_not_lt inside)
      rw [missing] at steps
      have same : r' = c.rendezvous ∧ h' = h := by
        cases steps with
        | rests => exact ⟨rfl, rfl⟩
        | performs starting phases => cases phases
        | begins starting phases => cases phases
        | ends closing => cases closing
        | works closing => cases closing
        | passes waiting => cases waiting
      obtain ⟨rfl, rfl⟩ := same
      refine ⟨Nat.le_of_not_lt inside, ?_, rfl⟩
      simp only [workerPart, rendezvousPart, outside]

/-- A crew takes steps, in any order and without a fault. -/
inductive Run : Crew × Heap → Crew × Heap → Prop where
  | refl (s : Crew × Heap) : Run s s
  | step {s : Crew × Heap} {c c' : Crew} {h h' : Heap} {i : Nat} {b : Bool} (before : Run s (c, h))
    (took : stepOf i (c, h) = .ok b (c', h')) (calm : c'.fault = none) : Run s (c', h')

theorem workers_after (inside : i < c.workers.size) (w : Worker) (r : Rendezvous) :
    (c.after i w r).workers = c.workers.set i w inside := by
  simp only [after, Array.setIfInBounds, inside, dite_true]

theorem mem_after {w v : Worker} {r : Rendezvous} (member : v ∈ (c.after i w r).workers) : v ∈ c.workers ∨ v = w :=
  Array.mem_or_eq_of_mem_setIfInBounds member

/-- The number of those who have ended the phase, after one worker took a step. -/
theorem count_after (inside : i < c.workers.size) (turn : Turn) (w : Worker) (r : Rendezvous)
    (before : c.workers[i].hasEnded turn = false) :
    (c.after i w r).workers.countP (·.hasEnded turn) =
      c.workers.countP (·.hasEnded turn) + if w.hasEnded turn then 1 else 0 := by
  rw [workers_after inside, Array.countP_set inside]
  simp only [before, Bool.false_eq_true, if_false, Nat.sub_zero]

/-- If all but one have ended the phase, every other one has. -/
theorem others_ended (inside : i < c.workers.size) {turn : Turn} (before : c.workers[i].hasEnded turn = false)
    (count : c.workers.countP (·.hasEnded turn) + 1 = c.workers.size) (j : Nat) (small : j < c.workers.size)
    (other : j ≠ i) : c.workers[j].activity = .waiting turn := by
  have all := count_after inside turn { c.workers[i] with activity := .waiting turn } c.rendezvous before
  have mine : ({ c.workers[i] with activity := .waiting turn } : Worker).hasEnded turn = true := beq_self_eq_true turn
  rw [mine, if_pos rfl, count, workers_after inside, ← Array.size_set inside, Array.countP_eq_size] at all
  have here := all (c.workers[j]) (by
    rw [← Array.getElem_set_ne inside small (Ne.symm other)]
    exact Array.getElem_mem _)
  unfold Worker.hasEnded at here
  cases activity : c.workers[j].activity with
  | waiting t =>
    rw [activity] at here
    rw [beq_iff_eq.mp here]
  | starting => rw [activity] at here; cases here
  | closing share => rw [activity] at here; cases here
  | finished => rw [activity] at here; cases here
  | brokenOff => rw [activity] at here; cases here

/-- One worker ends phase `k`: it waits for the others, or is the last one and all go on. -/
inductive Arrives (c : Crew) (i k : Nat) (collector : Collector) (w' : Worker) (r' : Rendezvous) : Prop where
  | wait (same : w'.collector = collector) (ended : w'.activity = .waiting r'.current)
    (turn : r'.current = c.rendezvous.current) (rallied : (c.after i w' r').Rallied k)
  | all (same : w'.collector = collector)
    (others : ∀ j, (small : j < c.workers.size) → j ≠ i → c.workers[j].activity = .waiting c.rendezvous.current)
    (started : w'.activity = .starting ∨ w'.activity = .finished) (turn : r'.current = !c.rendezvous.current)
    (rallied : (c.after i w' r').Rallied (k + 1))

theorem phasesFrom_succ {k : Nat} (more : k < 8) : ∃ head, phasesFrom k = head :: phasesFrom (k + 1) := by
  have cases : k = 0 ∨ k = 1 ∨ k = 2 ∨ k = 3 ∨ k = 4 ∨ k = 5 ∨ k = 6 ∨ k = 7 := by omega
  rcases cases with rfl | rfl | rfl | rfl | rfl | rfl | rfl | rfl
  all_goals exact ⟨_, rfl⟩

/-- Going on from phase `k`. -/
theorem advance_stands {w : Worker} {r : Rendezvous} (more : k < 8) (phases : w.phases = phasesFrom k) :
    w.advance.Stands r (k + 1) ∧ w.advance.collector = w.collector ∧
      (w.advance.activity = .starting ∨ w.advance.activity = .finished) := by
  obtain ⟨head, split⟩ := phasesFrom_succ more
  unfold Worker.advance
  rw [phases, split]
  by_cases last : k + 1 < 8
  · obtain ⟨next, split'⟩ := phasesFrom_succ last
    rw [split']
    exact ⟨.starting last rfl split'.symm, rfl, .inl rfl⟩
  · have ended : k + 1 = 8 := by omega
    rw [ended]
    exact ⟨.finished rfl rfl, rfl, .inr rfl⟩

theorem Rallied.arrives {w w' : Worker} {r' : Rendezvous} (rallied : c.Rallied k) (inside : i < c.workers.size)
    (more : k < 8) (busy : c.workers[i].hasEnded c.rendezvous.current = false) (phases : w.phases = phasesFrom k)
    (ends : w.Ends c.rendezvous w' r') : c.Arrives i k w.collector w' r' := by
  have count := rallied.count
  have size := rallied.size
  cases ends with
  | last everyone =>
    obtain ⟨stands, collector, started⟩ := advance_stands (w := w) (r := { (c.rendezvous.setArrivals c.rendezvous.current
      (c.rendezvous.arrivals c.rendezvous.current + 1)).setArrivals (!c.rendezvous.current) 0 with
        current := !c.rendezvous.current }) more phases
    have others := others_ended inside busy (by omega)
    refine .all collector others started rfl ⟨?_, fun v member => ?_, ?_, ?_⟩
    · rw [workers_after inside, Array.size_set]
      simp only [after, Rendezvous.setArrivals_parties]
      exact size
    · obtain ⟨j, small, same⟩ := Array.mem_iff_getElem.mp member
      have small' := small
      rw [workers_after inside, Array.size_set] at small'
      by_cases mine : j = i
      · subst mine
        simp only [workers_after inside, Array.getElem_set_self] at same
        rw [← same]
        exact stands
      · simp only [workers_after inside, Array.getElem_set_ne inside small' (Ne.symm mine)] at same
        have waiting := others j small' mine
        rw [same] at waiting
        have before := rallied.stands v (by rw [← same]; exact Array.getElem_mem small')
        refine .late (Nat.succ_pos k) more ?_ ?_
        · simp only [after, Bool.not_not]
          exact waiting
        · cases before with
          | late _ _ other =>
            rw [waiting] at other
            injection other with other
            exact absurd other (by cases c.rendezvous.current <;> decide)
          | starting _ other => rw [waiting] at other; cases other
          | closing _ _ other => rw [waiting] at other; cases other
          | ended _ _ phases => exact phases
          | finished _ other => rw [waiting] at other; cases other
    · refine Eq.trans ?_ (Array.countP_eq_zero.mpr fun v member ended => ?_).symm
      · simp only [after, Rendezvous.arrivals, Rendezvous.setArrivals]
        cases c.rendezvous.current <;> rfl
      · obtain ⟨j, small, same⟩ := Array.mem_iff_getElem.mp member
        have small' := small
        rw [workers_after inside, Array.size_set] at small'
        by_cases mine : j = i
        · subst mine
          simp only [workers_after inside, Array.getElem_set_self] at same
          rw [← same] at ended
          unfold Worker.hasEnded at ended
          rcases started with activity | activity
          all_goals
            rw [activity] at ended
            cases ended
        · simp only [workers_after inside, Array.getElem_set_ne inside small' (Ne.symm mine)] at same
          have waiting := others j small' mine
          rw [same] at waiting
          unfold Worker.hasEnded at ended
          rw [waiting] at ended
          simp only [after] at ended
          revert ended
          cases c.rendezvous.current <;> decide
    · have positive := rallied.going
      have empty : (c.after i w.advance { (c.rendezvous.setArrivals c.rendezvous.current
          (c.rendezvous.arrivals c.rendezvous.current + 1)).setArrivals (!c.rendezvous.current) 0 with
            current := !c.rendezvous.current }).rendezvous.arrivals (!c.rendezvous.current) = 0 := by
        simp only [after, Rendezvous.arrivals, Rendezvous.setArrivals]
        cases c.rendezvous.current <;> rfl
      have parties : (c.after i w.advance { (c.rendezvous.setArrivals c.rendezvous.current
          (c.rendezvous.arrivals c.rendezvous.current + 1)).setArrivals (!c.rendezvous.current) 0 with
            current := !c.rendezvous.current }).rendezvous.parties = c.rendezvous.parties := by
        simp only [after, Rendezvous.setArrivals_parties]
      rw [parties]
      refine Nat.lt_of_le_of_lt (Nat.le_of_eq empty) ?_
      omega
  | wait others =>
    have turn : (c.rendezvous.setArrivals c.rendezvous.current (c.rendezvous.arrivals c.rendezvous.current + 1)).current =
        c.rendezvous.current := Rendezvous.setArrivals_current ..
    have arrivals := Rendezvous.arrivals_setArrivals c.rendezvous c.rendezvous.current
      (c.rendezvous.arrivals c.rendezvous.current + 1) c.rendezvous.current
    rw [if_pos rfl] at arrivals
    have positive := rallied.going
    refine .wait rfl (by rw [turn]) turn ⟨?_, fun v member => ?_, ?_, ?_⟩
    · rw [workers_after inside, Array.size_set]
      simp only [after, Rendezvous.setArrivals_parties]
      exact size
    · rcases mem_after member with old | rfl
      · exact (rallied.stands v old).congr turn
      · exact .ended more (by simp only [after, turn]) phases
    · simp only [after] at turn ⊢
      rw [turn, arrivals]
      have here := count_after inside c.rendezvous.current { w with activity := .waiting c.rendezvous.current }
        (c.rendezvous.setArrivals c.rendezvous.current (c.rendezvous.arrivals c.rendezvous.current + 1)) busy
      have mine : ({ w with activity := .waiting c.rendezvous.current } : Worker).hasEnded c.rendezvous.current = true :=
        beq_self_eq_true c.rendezvous.current
      rw [mine, if_pos rfl, ← count] at here
      exact here.symm
    · simp only [after] at turn ⊢
      rw [turn, arrivals, Rendezvous.setArrivals_parties]
      omega

/-- A worker that has not ended the phase is replaced by one that has not either. -/
theorem Rallied.replace {w' : Worker} (rallied : c.Rallied k) (inside : i < c.workers.size)
    (busy : c.workers[i].hasEnded c.rendezvous.current = false) (stands : w'.Stands c.rendezvous k)
    (still : w'.hasEnded c.rendezvous.current = false) : (c.after i w' c.rendezvous).Rallied k := by
  refine ⟨?_, fun v member => ?_, ?_, rallied.going⟩
  · rw [workers_after inside, Array.size_set]
    exact rallied.size
  · rcases mem_after member with old | rfl
    · exact rallied.stands v old
    · exact stands
  · have count := count_after inside c.rendezvous.current w' c.rendezvous busy
    rw [still, if_neg Bool.false_ne_true, Nat.add_zero, ← rallied.count] at count
    exact count.symm

theorem after_self (inside : i < c.workers.size) : c.after i c.workers[i] c.rendezvous = c := by
  simp only [after, Array.setIfInBounds, inside, dite_true, Array.set_getElem_self]

/-- What one worker does while the crew is in phase `k`. -/
inductive Goes (c : Crew) (i k : Nat) (inside : i < c.workers.size) (h : Heap) (w' : Worker) (r' : Rendezvous)
    (h' : Heap) : Prop where
  | rests (resting : ∀ share, c.workers[i].activity ≠ .closing share) (worker : w' = c.workers[i])
    (rendezvous : r' = c.rendezvous) (heap : h' = h)
  | leaves (late : c.workers[i].activity = .waiting (!c.rendezvous.current))
    (collector : w'.collector = c.workers[i].collector) (started : w'.activity = .starting ∨ w'.activity = .finished)
    (rendezvous : r' = c.rendezvous) (heap : h' = h) (rallied : (c.after i w' r').Rallied k)
  | performs {schedule : Schedule} {phase : Phase} {rest : List (Schedule × Phase)} {collector : Collector}
    (starting : c.workers[i].activity = .starting) (head : phasesFrom k = (schedule, phase) :: rest)
    (performed : c.workers[i].Performs h schedule phase collector h') (arrives : c.Arrives i k collector w' r')
  | begins {collector : Collector} (phase : k = 4) (starting : c.workers[i].activity = .starting)
    (begun : Collector.beginClosure (c.workers[i].collector, h) = .ok () (collector, h'))
    (same : w'.collector = collector) (closing : w'.activity = .closing .new) (rendezvous : r' = c.rendezvous)
    (rallied : (c.after i w' r').Rallied k)
  | works {share : Share} {answer : Option Share} {collector : Collector} (phase : k = 4)
    (closing : c.workers[i].activity = .closing share) (unfinished : share.isFinished = false)
    (worked : share.step (c.workers[i].collector, h) = .ok answer (collector, h')) (same : w'.collector = collector)
    (next : w'.activity = .closing (answer.getD share)) (rendezvous : r' = c.rendezvous)
    (rallied : (c.after i w' r').Rallied k)
  | ends {share : Share} (phase : k = 4) (closing : c.workers[i].activity = .closing share)
    (finished : share.isFinished = true) (heap : h' = h) (arrives : c.Arrives i k c.workers[i].collector w' r')

theorem not_ended_of_closing {w : Worker} {share : Share} {turn : Turn} (closing : w.activity = .closing share) :
    w.hasEnded turn = false := by
  rw [Worker.hasEnded, closing]

theorem not_ended_of_starting {w : Worker} {turn : Turn} (starting : w.activity = .starting) :
    w.hasEnded turn = false := by
  rw [Worker.hasEnded, starting]

theorem not_ended_of_late {w : Worker} {turn : Turn} (late : w.activity = .waiting (!turn)) :
    w.hasEnded turn = false := by
  rw [Worker.hasEnded, late]
  cases turn <;> rfl

theorem phasesFrom_four {k : Nat} {rest : List (Schedule × Phase)} (more : k < 8)
    (head : phasesFrom k = (.collectors, .closure) :: rest) : k = 4 := by
  have cases : k = 0 ∨ k = 1 ∨ k = 2 ∨ k = 3 ∨ k = 4 ∨ k = 5 ∨ k = 6 ∨ k = 7 := by omega
  rcases cases with rfl | rfl | rfl | rfl | rfl | rfl | rfl | rfl
  case inr.inr.inr.inr.inl => rfl
  all_goals cases head

/-- A step of a worker, seen from the crew. -/
theorem Rallied.goes {w' : Worker} {r' : Rendezvous} (rallied : c.Rallied k) (inside : i < c.workers.size)
    (steps : c.workers[i].Steps c.rendezvous h w' r' h') : c.Goes i k inside h w' r' h' := by
  have stands := rallied.stands c.workers[i] (Array.getElem_mem inside)
  have turns : c.rendezvous.current ≠ !c.rendezvous.current := by cases c.rendezvous.current <;> decide
  cases steps with
  | rests resting => exact .rests resting rfl rfl rfl
  | performs starting phases performed ended =>
    cases stands with
    | starting more _ place =>
      have busy := @not_ended_of_starting _ c.rendezvous.current starting
      exact .performs starting (place.symm.trans phases) performed
        (rallied.arrives (w := { c.workers[i] with collector := _ }) inside more busy place ended)
    | late _ _ other => rw [starting] at other; cases other
    | closing _ _ other => rw [starting] at other; cases other
    | ended _ other => rw [starting] at other; cases other
    | finished _ other => rw [starting] at other; cases other
  | begins starting phases begun =>
    cases stands with
    | starting more _ place =>
      have here := phasesFrom_four more (place.symm.trans phases)
      exact .begins here starting begun rfl rfl rfl (rallied.replace inside (not_ended_of_starting starting)
        (.closing .new here rfl place) (not_ended_of_closing rfl))
    | late _ _ other => rw [starting] at other; cases other
    | closing _ _ other => rw [starting] at other; cases other
    | ended _ other => rw [starting] at other; cases other
    | finished _ other => rw [starting] at other; cases other
  | ends closing finished ended =>
    cases stands with
    | closing _ here _ place =>
      have busy := @not_ended_of_closing _ _ c.rendezvous.current closing
      exact .ends here closing finished rfl (rallied.arrives inside (by omega) busy place ended)
    | late _ _ other => rw [closing] at other; cases other
    | starting _ other => rw [closing] at other; cases other
    | ended _ other => rw [closing] at other; cases other
    | finished _ other => rw [closing] at other; cases other
  | works closing unfinished worked =>
    cases stands with
    | closing _ here _ place =>
      exact .works here closing unfinished worked rfl rfl rfl (rallied.replace inside (not_ended_of_closing closing)
        (.closing _ here rfl place) (not_ended_of_closing rfl))
    | late _ _ other => rw [closing] at other; cases other
    | starting _ other => rw [closing] at other; cases other
    | ended _ other => rw [closing] at other; cases other
    | finished _ other => rw [closing] at other; cases other
  | passes waiting free =>
    cases stands with
    | late before most other place =>
      obtain ⟨next, same, started⟩ := advance_stands (w := c.workers[i]) (r := c.rendezvous) (k := k - 1)
        (by omega) place
      rw [Nat.sub_add_cancel before] at next
      refine .leaves other same started rfl rfl (rallied.replace inside (not_ended_of_late other) next ?_)
      rcases started with activity | activity
      all_goals rw [Worker.hasEnded, activity]
    | starting _ other => rw [waiting] at other; cases other
    | closing _ _ other => rw [waiting] at other; cases other
    | ended _ other =>
      rw [waiting] at other
      injection other with other
      have going := rallied.going
      rw [other] at free
      omega
    | finished _ other => rw [waiting] at other; cases other

end Crew

end TracingHeap
