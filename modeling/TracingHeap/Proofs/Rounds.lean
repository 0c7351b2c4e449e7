import TracingHeap.Proofs.Teams

/-! How a collection goes through its phases, whatever the order of the steps. What is done once is done by
the first collector, and everyone else waits for it; so a phase that all have ended was carried out in full
on the heap and the collectors that the phase before it left. -/

namespace TracingHeap

open List Memory Work

namespace Collector

variable {c c' : Collector} {h h' : Heap} {u : Unit}

theorem mem_packets {α : Type} {size : Nat} (positive : 0 < size) {x : α} {fuel : Nat} {items : List α}
    (enough : items.length ≤ fuel) : (∃ packet ∈ packets size fuel items, x ∈ packet) ↔ x ∈ items := by
  induction fuel generalizing items with
  | zero =>
    obtain rfl := length_eq_zero_iff.mp (Nat.le_zero.mp enough)
    simp [packets]
  | succ fuel ih =>
    cases items with
    | nil => simp [packets]
    | cons first rest =>
      have shorter : ((first :: rest).drop size).length ≤ fuel := by
        rw [length_drop, length_cons]
        rw [length_cons] at enough
        omega
      have unfolded : packets size (fuel + 1) (first :: rest) =
        ((first :: rest).take size).toArray :: packets size fuel ((first :: rest).drop size) := rfl
      simp only [unfolded, mem_cons (b := List.toArray _), exists_eq_or_imp, ih shorter, List.mem_toArray]
      rw [← mem_append, take_append_drop]

theorem pushRoots_ok {b : Backlog Slot Address} {packets : List (Array Slot)}
    (ok : (packets.forM fun packet => Step.on (Focus.snd.comp Heap.backlogPart) (Backlog.pushRoots packet)) (c, h) =
      .ok u (c', h')) (before : h.backlog = b) :
    c' = c ∧ ∃ roots, h' = { h with backlog := { b with roots } } ∧
      ∀ x, (∃ packet ∈ roots, x ∈ packet) ↔ (∃ packet ∈ b.roots, x ∈ packet) ∨ ∃ packet ∈ packets, x ∈ packet := by
  subst before
  induction packets generalizing h with
  | nil =>
    cases Step.forM_nil_ok.mp ok
    exact ⟨rfl, _, rfl, fun x => by simp⟩
  | cons packet rest ih =>
    simp only [Step.forM_cons_ok, Step.on_ok, Focus.comp, Focus.snd, Heap.backlogPart] at ok
    obtain ⟨_, _, ⟨b, pushed, rfl⟩, ok⟩ := ok
    obtain ⟨same, roots, heap, content⟩ := ih ok
    refine ⟨same, roots, ?_, fun x => ?_⟩
    · rw [heap]
      by_cases empty : packet.isEmpty = true
      · rw [Backlog.pushRoots, if_pos empty] at pushed
        obtain ⟨-, rfl⟩ := Step.pure_ok.mp pushed
        rfl
      · rw [Backlog.pushRoots, if_neg empty] at pushed
        obtain rfl := Step.modify_ok.mp pushed
        rfl
    · rw [content x]
      by_cases empty : packet.isEmpty = true
      · rw [Backlog.pushRoots, if_pos empty] at pushed
        obtain ⟨-, rfl⟩ := Step.pure_ok.mp pushed
        have none_in : x ∉ packet := by
          rw [Array.isEmpty_iff] at empty
          rw [empty]
          exact Array.not_mem_empty x
        simp only [mem_cons, exists_eq_or_imp, none_in, false_or]
      · rw [Backlog.pushRoots, if_neg empty] at pushed
        obtain rfl := Step.modify_ok.mp pushed
        simp only [mem_append, mem_cons, not_mem_nil, or_false, or_and_right, exists_or, exists_eq_left, or_assoc]

end Collector

/-- The root slots were put into packets. -/
def Heap.Rooted (h h' : Heap) : Prop :=
  ∃ roots, h' = { h with backlog := { h.backlog with roots } } ∧
    ∀ x, (∃ packet ∈ roots, x ∈ packet) ↔ (∃ packet ∈ h.backlog.roots, x ∈ packet) ∨ x ∈ h.rootSlots

theorem Collector.findRoots_ok {c c' : Collector} {h h' : Heap} {u : Unit} (ok : findRoots (c, h) = .ok u (c', h')) :
    c' = c ∧ (c.isPrimary = true ∧ h.Rooted h' ∨ c.isPrimary = false ∧ h' = h) := by
  rw [findRoots, Step.get_bind] at ok
  by_cases prepared : c.state = .prepared
  · simp only [prepared, if_true] at ok
    by_cases primary : c.isPrimary = true
    · simp only [primary, if_true] at ok
      obtain ⟨same, roots, heap, content⟩ := pushRoots_ok ok rfl
      refine ⟨same, .inl ⟨primary, roots, heap, fun x => ?_⟩⟩
      rw [content x, mem_packets (by decide) (Nat.le_refl _)]
    · simp only [primary, Bool.false_eq_true, if_false] at ok
      obtain ⟨-, same⟩ := Step.pure_ok.mp ok
      cases same
      exact ⟨rfl, .inr ⟨Bool.eq_false_iff.mpr primary, rfl⟩⟩
  · simp only [prepared, if_false, Step.bind_ok, Step.throw_ok, false_and, exists_false] at ok

/-- A collector that was prepared. -/
def Collector.readied (c : Collector) (copies : CopyContext) : Collector :=
  { c with buffer := #[], state := .prepared, copies }

theorem Collector.prepare_ok {c c' : Collector} {h h' : Heap} {u : Unit} (ok : prepare (c, h) = .ok u (c', h')) :
    h' = h ∧ ∃ copies, c' = c.readied copies ∧
      (h.plan = .generational ∧ copies = c.copies ∨ h.plan = .semispace ∧ c.copies.rebind 0 h.current = .ok copies) := by
  rw [prepare, Step.get_bind] at ok
  cases state : c.state with
  | unused | released =>
    simp only [state, Step.modify_bind] at ok
    cases plan : h.plan with
    | generational =>
      simp only [plan] at ok
      obtain ⟨-, same⟩ := Step.pure_ok.mp ok
      cases same
      exact ⟨rfl, c.copies, rfl, .inl ⟨rfl, rfl⟩⟩
    | semispace =>
      simp only [plan, Step.bind_ok, Step.lift_ok, Step.modify_ok] at ok
      obtain ⟨copies, _, ⟨moved, rfl⟩, same⟩ := ok
      cases same
      exact ⟨rfl, copies, rfl, .inr ⟨rfl, moved⟩⟩
  | prepared | closing => simp only [state, Step.bind_ok, Step.throw_ok, false_and, exists_false] at ok

theorem Collector.release_ok {c c' : Collector} {h h' : Heap} {u : Unit} (ok : release (c, h) = .ok u (c', h')) :
    h' = h ∧ c' = { c with
      state := .released
      copies := if h.plan = .generational ∧ h.scope.full = true then c.copies.resetCells else c.copies } := by
  rw [release, Step.get_bind] at ok
  by_cases full : h.plan = .generational ∧ h.scope.full = true
  · simp only [full.1, full.2, and_self, if_true, Step.modify_bind, Step.get_bind, Step.ite_step] at ok
    rw [if_pos full]
    split at ok
    · split at ok
      · cases Step.modify_ok.mp ok
        exact ⟨rfl, rfl⟩
      · cases ok
    · cases ok
  · simp only [if_neg full, Step.get_bind, Step.ite_step] at ok
    rw [if_neg full]
    split at ok
    · split at ok
      · cases Step.modify_ok.mp ok
        exact ⟨rfl, rfl⟩
      · cases ok
    · cases ok

theorem Collector.beginClosure_ok {c c' : Collector} {h h' : Heap} {u : Unit} (ok : beginClosure (c, h) = .ok u (c', h')) :
    h' = h ∧ c' = { c with state := .closing } := by
  rw [beginClosure, Step.get_bind] at ok
  cases state : c.state with
  | prepared =>
    simp only [state, Step.modify_ok] at ok
    cases ok
    exact ⟨rfl, rfl⟩
  | closing =>
    simp only [state, Step.modify_ok] at ok
    cases ok
    exact ⟨rfl, rfl⟩
  | unused => simp only [state, Step.throw_ok] at ok
  | released => simp only [state, Step.throw_ok] at ok

namespace Crew

/-- What the first collector does in phase `k` for all. -/
def Ran (k : Nat) (h h' : Heap) : Prop :=
  match k with
  | 0 => Heap.prepare h = .ok () h'
  | 1 => Heap.mutatorPhase .prepare h = .ok () h'
  | 3 => h.Rooted h'
  | 6 => Heap.mutatorPhase .release h = .ok () h'
  | 7 => Heap.release h = .ok () h'
  | _ => False

/-- What every collector does in phase `k` by itself. -/
def Turned (k : Nat) (h : Heap) (c c' : Collector) : Prop :=
  match k with
  | 2 => Collector.prepare (c, h) = .ok () (c', h)
  | 5 => Collector.release (c, h) = .ok () (c', h)
  | _ => False

/-- Carrying out a phase that is no closure. -/
theorem performs_cases {k : Nat} {w : Worker} {h h' : Heap} {schedule : Schedule} {phase : Phase} {c' : Collector}
    {rest : List (Schedule × Phase)} (head : phasesFrom k = (schedule, phase) :: rest)
    (performed : w.Performs h schedule phase c' h') :
    (k = 0 ∨ k = 1 ∨ k = 3 ∨ k = 6 ∨ k = 7) ∧ c' = w.collector ∧
        (w.collector.isPrimary = true ∧ Ran k h h' ∨ w.collector.isPrimary = false ∧ h' = h) ∨
      (k = 2 ∨ k = 5) ∧ h' = h ∧ Turned k h w.collector c' := by
  have cases : k = 0 ∨ k = 1 ∨ k = 2 ∨ k = 3 ∨ k = 4 ∨ k = 5 ∨ k = 6 ∨ k = 7 ∨ 8 ≤ k := by omega
  rcases cases with rfl | rfl | rfl | rfl | rfl | rfl | rfl | rfl | past
  · cases head
    exact .inl ⟨by decide, performed⟩
  · cases head
    exact .inl ⟨by decide, performed⟩
  · cases head
    obtain ⟨rfl, -⟩ := Collector.prepare_ok performed.2
    exact .inr ⟨by decide, rfl, performed.2⟩
  · cases head
    exact .inl ⟨by decide, Collector.findRoots_ok performed.2⟩
  · cases head
    exact absurd rfl performed.1
  · cases head
    obtain ⟨rfl, -⟩ := Collector.release_ok performed.2
    exact .inr ⟨by decide, rfl, performed.2⟩
  · cases head
    exact .inl ⟨by decide, performed⟩
  · cases head
    exact .inl ⟨by decide, performed⟩
  · rw [phasesFrom, drop_eq_nil_of_le (show collectionPhases.length ≤ k from past)] at head
    cases head

theorem Turned.ordinal {k : Nat} {h : Heap} {c c' : Collector} (turned : Turned k h c c') : c'.ordinal = c.ordinal := by
  unfold Turned at turned
  split at turned
  · obtain ⟨-, copies, rfl, -⟩ := Collector.prepare_ok turned
    rfl
  · obtain ⟨-, rfl⟩ := Collector.release_ok turned
    rfl
  · exact turned.elim

/-- The workers of the crew, in order. -/
abbrev team (c : Crew) : List Worker := c.workers.toList

/-- Has the worker of a number ended the present phase? -/
def ended (c : Crew) (i : Nat) : Bool := c.workers[i]?.any (·.hasEnded c.rendezvous.current)

/-- The ordinal of every collector is its place in the crew. -/
def Numbered (c : Crew) : Prop := ∀ i, (inside : i < c.workers.size) → c.workers[i].collector.ordinal = i

section After

variable {c : Crew} {i : Nat} {w' : Worker} {r' : Rendezvous} {turn : Turn}

theorem ended_here (inside : i < c.workers.size) : c.ended i = c.workers[i].hasEnded c.rendezvous.current := by
  rw [ended, Array.getElem?_eq_getElem inside, Option.any_some]

theorem ended_after_self (inside : i < c.workers.size) : (c.after i w' r').ended i = w'.hasEnded r'.current := by
  rw [ended, workers_after inside, Array.getElem?_set_self inside, Option.any_some]
  rfl

theorem ended_after_other (inside : i < c.workers.size) (turn : r'.current = c.rendezvous.current) {j : Nat}
    (other : j ≠ i) : (c.after i w' r').ended j = c.ended j := by
  rw [ended, ended, workers_after inside, Array.getElem?_set_ne inside (Ne.symm other)]
  simp only [after, turn]

theorem team_after (w' : Worker) (r' : Rendezvous) (inside : i < c.workers.size) :
    (c.after i w' r').team ~ w' :: c.team.eraseIdx i ∧ c.team ~ c.workers[i] :: c.team.eraseIdx i := by
  have inside' : i < c.team.length := by simpa using inside
  constructor
  · rw [team, workers_after inside, Array.toList_set]
    exact set_perm_cons_eraseIdx inside' w'
  · exact (getElem_cons_eraseIdx_perm inside').symm

theorem collectors_after (inside : i < c.workers.size) :
    Team.collectors (c.after i w' r').team = (Team.collectors c.team).set i w'.collector := by
  rw [Team.collectors, team, workers_after inside, Array.toList_set, map_set]

theorem collectors_same (inside : i < c.workers.size) (same : w'.collector = c.workers[i].collector) :
    Team.collectors (c.after i w' r').team = Team.collectors c.team := by
  have inside' : i < (Team.collectors c.team).length := by simpa using inside
  have here : w'.collector = (Team.collectors c.team)[i] := by
    rw [same, getElem_map]
    rfl
  rw [collectors_after inside, here, set_getElem_self]

theorem Numbered.after (numbered : c.Numbered) (inside : i < c.workers.size)
    (same : w'.collector.ordinal = c.workers[i].collector.ordinal) : (c.after i w' r').Numbered := by
  intro j small
  have small' := small
  rw [workers_after inside, Array.size_set] at small'
  by_cases mine : j = i
  · subst mine
    simp only [workers_after inside, Array.getElem_set_self]
    rw [same, numbered j inside]
  · simp only [workers_after inside, Array.getElem_set_ne inside small' (Ne.symm mine)]
    exact numbered j small'

end After

/-- At the start of phase `k` with the heap and the collectors that the phases before it left; the crew set out at
the start of phase `k₀`. -/
inductive Begun (k₀ : Nat) (h₀ : Heap) (cs₀ : List Collector) (pieces₀ known : List Piece) :
    Nat → Heap → List Collector → List Piece → Prop where
  | start : Begun k₀ h₀ cs₀ pieces₀ known k₀ h₀ cs₀ pieces₀
  | once {k : Nat} {h h' : Heap} {cs : List Collector} {pieces : List Piece}
    (begun : Begun k₀ h₀ cs₀ pieces₀ known k h cs pieces) (ran : Ran k h h') : Begun k₀ h₀ cs₀ pieces₀ known (k + 1) h' cs pieces
  | each {k : Nat} {h : Heap} {cs cs' : List Collector} {pieces : List Piece}
    (begun : Begun k₀ h₀ cs₀ pieces₀ known k h cs pieces) (two : k = 2 ∨ k = 5) (turned : Forall₂ (Turned k h) cs cs') :
    Begun k₀ h₀ cs₀ pieces₀ known (k + 1) h cs' pieces
  | closed {g : Outset} {cs cs' : List Collector} {h' : Heap} {pieces' : List Piece}
    (begun : Begun k₀ h₀ cs₀ pieces₀ known 4 g.heap cs g.pieces) (same : g.known = known) (sound : g.Sound)
    (laboured : g.heap.Laboured h') (shared : Team.Shared cs' h' pieces')
    (closing : Closing g h' pieces' (fun _ => False) (fun _ => False) fun _ => False)
    (spent : Team.Spent cs' h') :
    Begun k₀ h₀ cs₀ pieces₀ known 5 h' cs' pieces'

/-- A closure can start. -/
structure Opens (known : List Piece) (h : Heap) (cs : List Collector) (pieces : List Piece) : Prop where
  sound : Outset.Sound ⟨h, pieces, known⟩
  shared : Team.Shared cs h pieces
  closing : Closing ⟨h, pieces, known⟩ h pieces (fun x => ∃ packet ∈ h.backlog.roots, x ∈ packet) (fun _ => False)
    fun x => ∃ packet ∈ h.backlog.remembered, x ∈ packet
  stack : h.backlog.objects.stack = []
  idle : h.backlog.objects.idle = 0
  undrained : h.backlog.objects.drained = false
  few : cs.length < 2 ^ 64
  participants : h.backlog.objects.participants.toNat = cs.length
  collectors : ∀ c ∈ cs, c.state = .prepared ∧ c.buffer = #[]

/-- Nobody has started the phase. -/
def Fresh (c : Crew) : Prop := ∀ w ∈ c.workers, w.hasEnded c.rendezvous.current = false ∧ w.share? = none

/-- In the middle of phase `k` of a collection. -/
inductive InRound (k₀ : Nat) (h₀ : Heap) (cs₀ : List Collector) (pieces₀ known : List Piece) (c : Crew) (h : Heap)
    (pieces : List Piece) : Nat → Prop where
  | once {k : Nat} {before : Heap} (single : k = 0 ∨ k = 1 ∨ k = 3 ∨ k = 6 ∨ k = 7)
    (begun : Begun k₀ h₀ cs₀ pieces₀ known k before (Team.collectors c.team) pieces)
    (ended : c.ended 0 = true → Ran k before h) (unended : c.ended 0 = false → h = before) :
    InRound k₀ h₀ cs₀ pieces₀ known c h pieces k
  | each {k : Nat} {cs : List Collector} (two : k = 2 ∨ k = 5) (begun : Begun k₀ h₀ cs₀ pieces₀ known k h cs pieces)
    (length : cs.length = c.workers.size)
    (progress : ∀ i, (inside : i < c.workers.size) → (inside' : i < cs.length) →
      (c.ended i = true → Turned k h cs[i] c.workers[i].collector) ∧ (c.ended i = false → c.workers[i].collector = cs[i])) :
    InRound k₀ h₀ cs₀ pieces₀ known c h pieces k
  | closing {g : Outset} {cs : List Collector} (same : g.known = known) (sound : g.Sound)
    (begun : Begun k₀ h₀ cs₀ pieces₀ known 4 g.heap cs g.pieces)
    (labours : Team.Labours g c.rendezvous.current c.team h pieces)
    (untouched : c.Fresh → Begun k₀ h₀ cs₀ pieces₀ known 4 h (Team.collectors c.team) pieces) :
    InRound k₀ h₀ cs₀ pieces₀ known c h pieces 4
  | finished (begun : Begun k₀ h₀ cs₀ pieces₀ known 8 h (Team.collectors c.team) pieces) :
    InRound k₀ h₀ cs₀ pieces₀ known c h pieces 8

variable {k₀ : Nat} {h₀ h h' : Heap} {cs₀ cs : List Collector} {pieces₀ known pieces : List Piece} {c : Crew} {i k : Nat}
  {w' : Worker} {r' : Rendezvous}

theorem share_of_waiting {w : Worker} {turn : Turn} (waiting : w.activity = .waiting turn) : w.share? = none := by
  rw [Worker.share?, waiting]

theorem share_of_starting {w : Worker} (starting : w.activity = .starting) : w.share? = none := by
  rw [Worker.share?, starting]

theorem share_of_closing {w : Worker} {s : Share} (closing : w.activity = .closing s) : w.share? = some s := by
  rw [Worker.share?, closing]

/-- After a step the crew is still in the phase, or everyone has just gone on to the next one. -/
def Follows (c : Crew) (k k' : Nat) : Prop := k' = k ∨ k' = k + 1 ∧ c.Fresh

/-- All enter the next phase. -/
theorem InRound.enter (begun : Begun k₀ h₀ cs₀ pieces₀ known k h (Team.collectors c.team) pieces) (most : k ≤ 8)
    (opens : k = 4 → Opens known h (Team.collectors c.team) pieces) (fresh : c.Fresh) :
    InRound k₀ h₀ cs₀ pieces₀ known c h pieces k := by
  have unended : ∀ i, c.ended i = false := fun i => by
    unfold ended
    cases found : c.workers[i]? with
    | none => rfl
    | some w => exact (fresh w (Array.mem_of_getElem? found)).1
  have cases : (k = 0 ∨ k = 1 ∨ k = 3 ∨ k = 6 ∨ k = 7) ∨ (k = 2 ∨ k = 5) ∨ k = 4 ∨ k = 8 := by omega
  rcases cases with single | two | rfl | rfl
  · refine .once single begun (fun bad => ?_) fun _ => rfl
    rw [unended 0] at bad
    cases bad
  · refine .each two begun (by simp) fun i inside inside' => ⟨fun bad => ?_, fun _ => ?_⟩
    · rw [unended i] at bad
      cases bad
    · simp
  · have opens := opens rfl
    have size : (Team.collectors c.team).length = c.team.length := length_map _
    refine .closing (g := ⟨h, pieces, known⟩) rfl opens.sound begun (Team.Labours.start (.refl h) opens.shared opens.closing
      opens.stack opens.idle opens.undrained (size ▸ opens.few) (size ▸ opens.participants) (fun w member => ?_)
      (fun w member => (fresh w (Array.mem_toList_iff.mp member)).2) fun w member => (fresh w (Array.mem_toList_iff.mp member)).1) fun _ => begun
    exact opens.collectors w.collector (mem_map_of_mem member)
  · exact .finished begun

theorem ended_of_waiting {w : Worker} {turn : Turn} (waiting : w.activity = .waiting turn) : w.hasEnded turn = true := by
  rw [Worker.hasEnded, waiting]
  exact beq_self_eq_true turn

theorem not_ended_of_started {w : Worker} {turn : Turn} (started : w.activity = .starting ∨ w.activity = .finished) :
    w.hasEnded turn = false ∧ w.share? = none := by
  rcases started with activity | activity
  all_goals exact ⟨by rw [Worker.hasEnded, activity], by rw [Worker.share?, activity]⟩

/-- When all go on, nobody has started the next phase. -/
theorem fresh_after (inside : i < c.workers.size)
    (others : ∀ j, (small : j < c.workers.size) → j ≠ i → c.workers[j].activity = .waiting c.rendezvous.current)
    (started : w'.activity = .starting ∨ w'.activity = .finished) (turn : r'.current = !c.rendezvous.current) :
    (c.after i w' r').Fresh := by
  intro v member
  obtain ⟨j, small, same⟩ := Array.mem_iff_getElem.mp member
  have small' := small
  rw [workers_after inside, Array.size_set] at small'
  simp only [after, turn]
  by_cases mine : j = i
  · subst mine
    simp only [workers_after inside, Array.getElem_set_self] at same
    rw [← same]
    exact not_ended_of_started started
  · simp only [workers_after inside, Array.getElem_set_ne inside small' (Ne.symm mine)] at same
    have waiting := others j small' mine
    rw [same] at waiting
    refine ⟨@not_ended_of_late _ (!c.rendezvous.current) ?_, share_of_waiting waiting⟩
    rw [Bool.not_not]
    exact waiting

/-- Leaving a rendezvous changes nothing that a phase is about. -/
theorem ended_after_leaves (inside : i < c.workers.size)
    (late : c.workers[i].activity = .waiting (!c.rendezvous.current))
    (started : w'.activity = .starting ∨ w'.activity = .finished) (j : Nat) :
    (c.after i w' c.rendezvous).ended j = c.ended j := by
  by_cases mine : j = i
  · subst mine
    rw [ended_after_self inside, ended_here inside, (not_ended_of_started started).1, not_ended_of_late late]
  · exact ended_after_other inside rfl mine

theorem self_after (inside : i < c.workers.size) : w' ∈ (c.after i w' r').workers := by
  rw [workers_after inside]
  exact Array.mem_set inside

/-- If nobody has started the phase when one has left the rendezvous before it, nobody had started it before. -/
theorem fresh_before_leaves (inside : i < c.workers.size) (late : c.workers[i].activity = .waiting (!c.rendezvous.current))
    (fresh : (c.after i w' c.rendezvous).Fresh) : c.Fresh := by
  intro v member
  obtain ⟨j, small, rfl⟩ := Array.mem_iff_getElem.mp member
  by_cases mine : j = i
  · subst mine
    exact ⟨not_ended_of_late late, share_of_waiting late⟩
  · refine fresh _ ?_
    rw [workers_after inside, ← Array.getElem_set_ne inside small (Ne.symm mine)]
    exact Array.getElem_mem _

variable (k₀ h₀ cs₀ pieces₀ known) in
/-- A crew in phase `k` of a collection. -/
structure Carries (c : Crew) (h : Heap) (pieces : List Piece) (k : Nat) : Prop where
  rallied : c.Rallied k
  numbered : c.Numbered
  round : InRound k₀ h₀ cs₀ pieces₀ known c h pieces k

/-- A step in a phase that the first collector carries out for all. -/
theorem Carries.once {before : Heap} (carries : Carries k₀ h₀ cs₀ pieces₀ known c h pieces k)
    (opens : ∀ h cs pieces, Begun k₀ h₀ cs₀ pieces₀ known 4 h cs pieces → Opens known h cs pieces)
    (single : k = 0 ∨ k = 1 ∨ k = 3 ∨ k = 6 ∨ k = 7)
    (begun : Begun k₀ h₀ cs₀ pieces₀ known k before (Team.collectors c.team) pieces)
    (ended : c.ended 0 = true → Ran k before h) (unended : c.ended 0 = false → h = before) (inside : i < c.workers.size)
    (goes : c.Goes i k inside h w' r' h') :
    ∃ k', (c.after i w' r').Follows k k' ∧ Carries k₀ h₀ cs₀ pieces₀ known (c.after i w' r') h' pieces k' := by
  cases goes with
  | rests resting worker rendezvous heap =>
    subst worker rendezvous heap
    rw [after_self]
    exact ⟨k, .inl rfl, carries⟩
  | leaves late same started rendezvous heap rallied =>
    subst rendezvous heap
    have idle := ended_after_leaves inside late started 0
    exact ⟨k, .inl rfl, rallied, carries.numbered.after inside (by rw [same]), .once single (by rw [collectors_same inside same]; exact begun)
      (fun now => ended (idle ▸ now)) fun todo => unended (idle ▸ todo)⟩
  | begins phase => omega
  | works phase => omega
  | ends phase => omega
  | performs starting head performed arrives =>
    rcases performs_cases head performed with ⟨-, rfl, did⟩ | ⟨two, -⟩
    case inr => omega
    have mine := carries.numbered i inside
    have ran : i = 0 → Ran k before h' := fun first => by
      subst first
      have todo := unended (by rw [ended_here inside, not_ended_of_starting starting])
      rcases did with ⟨-, ran⟩ | ⟨other, -⟩
      · exact todo ▸ ran
      · simp only [Collector.isPrimary, mine, beq_self_eq_true, Bool.true_eq_false] at other
    have rest : i ≠ 0 → h' = h := fun other => by
      rcases did with ⟨primary, -⟩ | ⟨-, same⟩
      · simp only [Collector.isPrimary, mine, beq_iff_eq] at primary
        exact absurd primary other
      · exact same
    cases arrives with
    | wait same waiting turn rallied =>
      refine ⟨k, .inl rfl, rallied, carries.numbered.after inside (by rw [same]), .once single (by rw [collectors_same inside same]; exact begun)
        (fun now => ?_) fun todo => ?_⟩
      · by_cases first : i = 0
        · exact ran first
        · rw [rest first]
          exact ended ((ended_after_other inside turn (Ne.symm first)) ▸ now)
      · by_cases first : i = 0
        · subst first
          rw [ended_after_self inside, ended_of_waiting waiting] at todo
          cases todo
        · rw [rest first]
          exact unended ((ended_after_other inside turn (Ne.symm first)) ▸ todo)
    | all same others started turn rallied =>
      have whole : Ran k before h' := by
        by_cases first : i = 0
        · exact ran first
        · rw [rest first]
          refine ended ?_
          have small : 0 < c.workers.size := Nat.lt_of_le_of_lt (Nat.zero_le i) inside
          rw [ended_here small]
          exact ended_of_waiting (others 0 small (Ne.symm first))
      have next : Begun k₀ h₀ cs₀ pieces₀ known (k + 1) h' (Team.collectors (c.after i w' r').team) pieces := by
        rw [collectors_same inside same]
        exact begun.once whole
      have fresh := fresh_after inside others started turn
      exact ⟨k + 1, .inr ⟨rfl, fresh⟩, rallied, carries.numbered.after inside (by rw [same]), .enter next (by omega)
        (fun four => opens _ _ _ (four ▸ next)) fresh⟩

/-- A step in a phase that every collector carries out by itself. -/
theorem Carries.each (carries : Carries k₀ h₀ cs₀ pieces₀ known c h pieces k) (two : k = 2 ∨ k = 5)
    (begun : Begun k₀ h₀ cs₀ pieces₀ known k h cs pieces) (length : cs.length = c.workers.size)
    (progress : ∀ i, (inside : i < c.workers.size) → (inside' : i < cs.length) →
      (c.ended i = true → Turned k h cs[i] c.workers[i].collector) ∧ (c.ended i = false → c.workers[i].collector = cs[i]))
    (inside : i < c.workers.size) (goes : c.Goes i k inside h w' r' h') :
    ∃ k', (c.after i w' r').Follows k k' ∧ Carries k₀ h₀ cs₀ pieces₀ known (c.after i w' r') h' pieces k' := by
  have size : (c.after i w' r').workers.size = c.workers.size := by rw [workers_after inside, Array.size_set]
  cases goes with
  | rests resting worker rendezvous heap =>
    subst worker rendezvous heap
    rw [after_self]
    exact ⟨k, .inl rfl, carries⟩
  | leaves late same started rendezvous heap rallied =>
    subst rendezvous heap
    refine ⟨k, .inl rfl, rallied, carries.numbered.after inside (by rw [same]), .each two begun (length.trans size.symm) fun j small small' => ?_⟩
    rw [ended_after_leaves inside late started j]
    rw [size] at small
    have before := progress j small small'
    by_cases mine : j = i
    · subst mine
      simp only [workers_after inside, Array.getElem_set_self, same]
      exact before
    · simp only [workers_after inside, Array.getElem_set_ne inside small (Ne.symm mine)]
      exact before
  | begins phase => omega
  | works phase => omega
  | ends phase => omega
  | performs starting head performed arrives =>
    rcases performs_cases head performed with ⟨single, -⟩ | ⟨-, rfl, turned⟩
    case inl => omega
    have inside' : i < cs.length := length ▸ inside
    have mine := (progress i inside inside').2 (by rw [ended_here inside, not_ended_of_starting starting])
    rw [mine] at turned
    have ordinal := turned.ordinal
    cases arrives with
    | wait same waiting turn rallied =>
      refine ⟨k, .inl rfl, rallied, carries.numbered.after inside (by rw [same, mine, ordinal]), .each two begun (length.trans size.symm)
        fun j small small' => ?_⟩
      rw [size] at small
      by_cases here : j = i
      · subst here
        simp only [workers_after inside, Array.getElem_set_self, ended_after_self inside, ended_of_waiting waiting]
        exact ⟨fun _ => same ▸ turned, fun bad => by cases bad⟩
      · simp only [workers_after inside, Array.getElem_set_ne inside small (Ne.symm here), ended_after_other inside turn here]
        exact progress j small small'
    | all same others started turn rallied =>
      have next : Begun k₀ h₀ cs₀ pieces₀ known (k + 1) h' (Team.collectors (c.after i w' r').team) pieces := by
        refine begun.each two (forall₂_iff_get.mpr ⟨?_, fun j small small' => ?_⟩)
        · simp only [collectors_after inside, length_set, length_map, Array.length_toList, length]
        · have known' : j < c.workers.size := length ▸ small
          simp only [get_eq_getElem, collectors_after inside]
          by_cases here : j = i
          · subst here
            rw [getElem_set_self, same]
            exact turned
          · rw [getElem_set_ne (Ne.symm here), getElem_map]
            exact (progress j known' small).1 (by rw [ended_here known']; exact ended_of_waiting (others j known' here))
      have fresh := fresh_after inside others started turn
      exact ⟨k + 1, .inr ⟨rfl, fresh⟩, rallied, carries.numbered.after inside (by rw [same, mine, ordinal]), .enter next (by omega)
        (fun four => by omega) fresh⟩

theorem late_idle {w : Worker} {turn : Turn} (late : w.activity = .waiting turn) : w.isIdle = false := by
  rw [Worker.isIdle, share_of_waiting late, Option.any_none]

/-- A step in a closure. -/
theorem Carries.closing {g : Outset} (carries : Carries k₀ h₀ cs₀ pieces₀ known c h pieces 4) (same : g.known = known)
    (sound : g.Sound) (begun : Begun k₀ h₀ cs₀ pieces₀ known 4 g.heap cs g.pieces)
    (labours : Team.Labours g c.rendezvous.current c.team h pieces)
    (untouched : c.Fresh → Begun k₀ h₀ cs₀ pieces₀ known 4 h (Team.collectors c.team) pieces) (inside : i < c.workers.size)
    (goes : c.Goes i 4 inside h w' r' h') :
    ∃ k' pieces', (c.after i w' r').Follows 4 k' ∧ (∀ p ∈ pieces, p ∈ pieces') ∧
      Carries k₀ h₀ cs₀ pieces₀ known (c.after i w' r') h' pieces' k' := by
  obtain ⟨perm', perm⟩ := team_after w' r' inside
  have mine := labours.of_perm perm.symm
  cases goes with
  | rests resting worker rendezvous heap =>
    subst worker rendezvous heap
    rw [after_self]
    exact ⟨4, pieces, .inl rfl, fun _ => id, carries⟩
  | leaves late alike started rendezvous heap rallied =>
    subst rendezvous heap
    obtain ⟨unended, unshared⟩ := @not_ended_of_started _ c.rendezvous.current started
    refine ⟨4, pieces, .inl rfl, fun _ => id, rallied, carries.numbered.after inside (by rw [alike]),
      .closing same sound begun ?_ fun fresh => ?_⟩
    case refine_2 =>
      rw [collectors_same inside alike]
      exact untouched (fresh_before_leaves inside late fresh)
    refine (mine.replace w' (by rw [alike]) (by rw [alike]) (fun s share => ?_) (fun s share => ?_) (late_idle late)
      ?_ ?_).of_perm perm'
    · rw [share_of_waiting late] at share
      cases share
    · rw [unshared] at share
      cases share
    · rw [Worker.isDone, Worker.isDone, unended, unshared, not_ended_of_late late, share_of_waiting late]
    · rw [Team.closureState_of_fresh unended unshared, alike]
      exact (mine.states _ mem_cons_self).trans (Team.closureState_of_fresh (not_ended_of_late late) (share_of_waiting late))
  | performs starting head performed arrives =>
    rcases performs_cases head performed with ⟨single, -⟩ | ⟨two, -⟩
    all_goals omega
  | begins phase starting begins alike closing rendezvous rallied =>
    obtain ⟨rfl, rfl⟩ := Collector.beginClosure_ok begins
    subst rendezvous
    refine ⟨4, pieces, .inl rfl, fun _ => id, rallied, carries.numbered.after inside (by rw [alike]), .closing same sound begun ?_
      fun fresh => absurd ((fresh w' (self_after inside)).2.symm.trans (share_of_closing closing)) (by simp only [reduceCtorEq, not_false_eq_true])⟩
    refine (mine.replace w' (by rw [alike]) (by rw [alike]) (fun s share => ?_) (fun s share => ?_) ?_ ?_
      (by rw [Team.closureState_eq (share_of_closing closing), alike])).of_perm perm'
    · rw [share_of_starting starting] at share
      cases share
    · rw [share_of_closing closing] at share
      injection share with share
      exact share.symm
    · rw [Worker.isIdle, share_of_starting starting, Option.any_none]
    · rw [Worker.isDone, Worker.isDone, not_ended_of_closing closing, share_of_closing closing,
        not_ended_of_starting starting, share_of_starting starting]
      rfl
  | works phase closing unfinished worked alike next rendezvous rallied =>
    subst rendezvous
    obtain ⟨pieces', more, labours', ordinal⟩ := mine.works sound (share_of_closing closing) (fun finished => by
      rw [Share.isFinished, finished] at unfinished
      cases unfinished) worked alike (share_of_closing next)
    exact ⟨4, pieces', .inl rfl, more, rallied, carries.numbered.after inside ordinal, .closing same sound begun (labours'.of_perm perm')
      fun fresh => absurd ((fresh w' (self_after inside)).2.symm.trans (share_of_closing next)) (by simp only [reduceCtorEq, not_false_eq_true])⟩
  | ends phase closing finished heap arrives =>
    subst heap
    have stage := beq_iff_eq.mp finished
    cases arrives with
    | wait alike waiting turn rallied =>
      refine ⟨4, pieces, .inl rfl, fun _ => id, rallied, carries.numbered.after inside (by rw [alike]), .closing same sound begun ?_
        fun fresh => absurd ((fresh w' (self_after inside)).1.symm.trans (ended_of_waiting waiting)) Bool.false_ne_true⟩
      have next := mine.replace w' (by rw [alike]) (by rw [alike]) (fun s share => ?_) (fun s share => ?_) ?_ ?_ ?_
      · simp only [after, turn]
        exact next.of_perm perm'
      · obtain ⟨calm, -⟩ := mine.calm c.workers[i] mem_cons_self s share
        rw [share_of_closing closing] at share
        cases share
        exact ⟨(calm (.inr stage)).1, (calm (.inr stage)).2.1⟩
      · rw [share_of_waiting waiting] at share
        cases share
      · rw [Worker.isIdle, share_of_closing closing, Option.any_some, stage]
        rfl
      · rw [← turn, Worker.isDone, ended_of_waiting waiting, (Team.isDone_iff (share_of_closing closing)).mpr stage]
        rfl
      · rw [← turn, Team.closureState_of_ended (ended_of_waiting waiting), alike]
        exact (mine.states _ mem_cons_self).trans (Team.closureState_eq (share_of_closing closing))
    | all alike others started turn rallied =>
      have ended := mine.ended (share_of_closing closing) stage fun v member => by
        obtain ⟨j, small, rfl⟩ := mem_iff_getElem.mp member
        rw [getElem_eraseIdx]
        split
        next below => exact ended_of_waiting (others j (by omega) (by omega))
        next above =>
          rw [length_eraseIdx] at small
          split at small
          next inner =>
            have size : c.team.length = c.workers.size := Array.length_toList
            exact ended_of_waiting (others (j + 1) (by omega) (by omega))
          next outer => exact absurd (Array.length_toList.symm ▸ inside) outer
      have next : Begun k₀ h₀ cs₀ pieces₀ known 5 h' (Team.collectors (c.after i w' r').team) pieces := by
        rw [collectors_same inside alike]
        exact .closed begun same sound labours.laboured labours.shared ended.1
          ⟨ended.2.roots, ended.2.remembered, ended.2.stack, fun c member => ended.2.collectors c ((perm.map _).mem_iff.mp member)⟩
      have fresh := fresh_after inside others started turn
      exact ⟨5, pieces, .inr ⟨rfl, fresh⟩, fun _ => id, rallied, carries.numbered.after inside (by rw [alike]), .enter next (by omega)
        (fun four => by omega) fresh⟩

/-- Every step of a crew keeps a collection on its way, and no piece is lost before the end. -/
theorem Carries.step {c' : Crew} {b : Bool} (carries : Carries k₀ h₀ cs₀ pieces₀ known c h pieces k)
    (opens : ∀ h cs pieces, Begun k₀ h₀ cs₀ pieces₀ known 4 h cs pieces → Opens known h cs pieces)
    (ok : stepOf i (c, h) = .ok b (c', h')) (calm : c'.fault = none) :
    c.fault = none ∧ ∃ k' pieces', c'.Follows k k' ∧ (∀ p ∈ pieces, p ∈ pieces') ∧
      Carries k₀ h₀ cs₀ pieces₀ known c' h' pieces' k' := by
  obtain ⟨before, ⟨-, rfl, rfl⟩ | ⟨inside, w', r', steps, rfl⟩⟩ := stepOf_ok ok calm
  · exact ⟨before, k, pieces, .inl rfl, fun _ => id, carries⟩
  refine ⟨before, ?_⟩
  have goes := carries.rallied.goes inside steps
  cases carries.round with
  | once single begun ended unended =>
    obtain ⟨k', follows, next⟩ := carries.once opens single begun ended unended inside goes
    exact ⟨k', pieces, follows, fun _ => id, next⟩
  | each two begun length progress =>
    obtain ⟨k', follows, next⟩ := carries.each two begun length progress inside goes
    exact ⟨k', pieces, follows, fun _ => id, next⟩
  | closing same sound begun labours untouched => exact carries.closing same sound begun labours untouched inside goes
  | finished begun =>
    cases goes with
    | rests resting worker rendezvous heap =>
      subst worker rendezvous heap
      rw [after_self]
      exact ⟨8, pieces, .inl rfl, fun _ => id, carries⟩
    | leaves late alike started rendezvous heap rallied =>
      subst rendezvous heap
      exact ⟨8, pieces, .inl rfl, fun _ => id, rallied, carries.numbered.after inside (by rw [alike]), .finished (by
        rw [collectors_same inside alike]
        exact begun)⟩
    | performs starting head => cases head
    | begins phase => omega
    | works phase => omega
    | ends phase => omega

/-- A run keeps a collection on its way. -/
theorem Carries.run {s t : Crew × Heap} (run : Run s t)
    (opens : ∀ h cs pieces, Begun k₀ h₀ cs₀ pieces₀ known 4 h cs pieces → Opens known h cs pieces)
    (carries : Carries k₀ h₀ cs₀ pieces₀ known s.1 s.2 pieces k) :
    ∃ k' pieces', (∀ p ∈ pieces, p ∈ pieces') ∧ Carries k₀ h₀ cs₀ pieces₀ known t.1 t.2 pieces' k' := by
  induction run with
  | refl => exact ⟨k, pieces, fun _ => id, carries⟩
  | step _ took calm ih =>
    obtain ⟨k₁, pieces₁, more, middle⟩ := ih
    obtain ⟨-, k', pieces', -, more', next⟩ := middle.step opens took calm
    exact ⟨k', pieces', fun p member => more' p (more p member), next⟩

end Crew

end TracingHeap
