import TracingHeap.Proofs.Chronicles

/-! Traversals end. A collector that works off its share alone gains an object, or has less work before it than before, or has
fewer slots at hand; and there are finitely many objects to gain. So it comes to an end of its share, with everything taken up
that was left to be scanned, unless it finds no memory for the copy of an object. -/

namespace TracingHeap

open List Memory Work Collector

variable {known : List Piece} {h h' : Heap} {c c' : Collector} {s next : Share} {o : Piece} {pieces : List Piece} {j : Journal}
  {t₀ : Tally} {w : Worker}

open Classical in
/-- The number of objects that the collection is not done with. -/
noncomputable def Heap.undone (h : Heap) (known : List Piece) : Nat := known.countP fun o => ¬ h.Done o

theorem Heap.Settles.undone_le (settles : h.Settles h' known) : h'.undone known ≤ h.undone known := by
  refine countP_mono_left fun o member missed => ?_
  simp only [decide_eq_true_eq] at missed ⊢
  exact fun done => missed (settles o member done).1

theorem Heap.Settles.undone_lt (settles : h.Settles h' known) (member : o ∈ known) (missed : ¬ h.Done o) (done : h'.Done o) :
    h'.undone known < h.undone known := by
  obtain ⟨before, after, rfl⟩ := append_of_mem member
  have first : h'.undone before ≤ h.undone before :=
    Settles.undone_le fun p inside => settles p (mem_append_left _ inside)
  have last : h'.undone after ≤ h.undone after :=
    Settles.undone_le fun p inside => settles p (mem_append_right _ (mem_cons_of_mem _ inside))
  simp only [undone, countP_append, countP_cons, missed, done, not_true_eq_false, not_false_eq_true, decide_true, decide_false,
    Bool.false_eq_true, if_true, if_false] at first last ⊢
  omega

namespace Share

/-- One step further: fewer objects to gain, or less work, or fewer slots at hand. -/
def Nearer (known : List Piece) (s next : Share) (c c' : Collector) (h h' : Heap) : Prop :=
  Prod.Lex (· < ·) (Prod.Lex (· < ·) (· < ·)) (h'.undone known, next.toDo c' h', next.slots.length)
    (h.undone known, s.toDo c h, s.slots.length)

theorem nearer_of_le (fewer : h'.undone known ≤ h.undone known)
    (less : next.toDo c' h' < s.toDo c h ∨ next.toDo c' h' = s.toDo c h ∧ next.slots.length < s.slots.length) :
    Nearer known s next c c' h h' := by
  rcases Nat.lt_or_eq_of_le fewer with fewer | same
  · exact .left _ _ fewer
  · rw [Nearer, same]
    rcases less with less | ⟨same, less⟩
    · exact .right _ (.left _ _ less)
    · rw [same]
      exact .right _ (.right _ less)

/-- Every step of a share, but for one that has to wait, brings it nearer to its end. -/
theorem Stride.nearer (stride : Stride known s c h (some next) c' h') : Nearer known s next c c' h h' := by
  cases stride with
  | @traces slot left b c' h₁ h' hand traced visits level backlog packets =>
    have same : items c'.buffer h₁.backlog.objects = items c.buffer h.backlog.objects →
        ({ s with slots := left } : Share).toDo c' h' = s.toDo c h := fun same => by
      simp only [toDo, packets.1, packets.2]
      rw [backlog, same]
    have shorter : left.length < s.slots.length := by
      rw [hand, length_cons]
      exact Nat.lt_succ_self _
    cases visits with
    | null => exact nearer_of_le level.settles.undone_le (.inr ⟨same rfl, shorter⟩)
    | again _ _ _ passed settles =>
      exact nearer_of_le (settles.trans level.settles).undone_le (.inr ⟨same (by rw [passed]), shorter⟩)
    | first member _ missed done settles =>
      exact .left _ _ ((settles.trans level.settles).undone_lt member missed (level.settles _ member done).1)
  | turns idle level fewer less => exact nearer_of_le level.settles.undone_le (.inl (less next rfl))

end Share

/-! ### A collector alone -/

/-- The journal of a collector that works off a share, as `Share.run` does. -/
def Journal.through (j : Journal) (s : Share) : Nat → Collector × Heap → Journal
  | 0, _ => j
  | fuel + 1, (c, h) =>
    if s.isFinished then j
    else
      match s.step (c, h) with
      | .ok (some next) (c', h') => (j.note s c h c' h').through next fuel (c', h')
      | _ => j

/-- From `n` steps on the share is worked off, whatever the limit is. Everything that was left to be scanned was taken up, once,
and counted. -/
def Share.Completes (s : Share) (c : Collector) (h : Heap) (j : Journal) (t₀ : Tally) (n : Nat) : Prop :=
  ∃ j' c' h', (∀ fuel, n ≤ fuel → s.run fuel (c, h) = .ok () (c', h') ∧ j.through s fuel (c, h) = j') ∧
    (∃ place, j'.Agrees place) ∧ j'.Counted t₀ h'.tally ∧ j'.enqueued = j'.dequeued ∧ c'.pending h' = 0

/-- From `n` steps on the share is given up: an object that was to be copied could not be copied. -/
def Share.BreaksOff (s : Share) (c : Collector) (h : Heap) (n : Nat) : Prop :=
  ∃ e t, (∀ fuel, n ≤ fuel → s.run fuel (c, h) = .error e t) ∧
    ∃ c₁ h₁ a, Heap.gain? h₁ a = some .copy ∧ trace a (c₁, h₁) = .error e t

namespace Share

theorem run_succ (unfinished : s.isFinished = false) (ok : s.step (c, h) = .ok (some next) (c', h')) (fuel : Nat) :
    s.run (fuel + 1) (c, h) = next.run fuel (c', h') ∧
      j.through s (fuel + 1) (c, h) = (j.note s c h c' h').through next fuel (c', h') := by
  refine ⟨?_, ?_⟩
  · rw [run]
    simp only [unfinished, Bool.false_eq_true, if_false]
    rw [Step.ok_bind ok]
  · simp only [Journal.through, unfinished, ok, Bool.false_eq_true, if_false]

theorem Completes.before {n : Nat} (unfinished : s.isFinished = false) (ok : s.step (c, h) = .ok (some next) (c', h'))
    (completes : next.Completes c' h' (j.note s c h c' h') t₀ n) : s.Completes c h j t₀ (n + 1) := by
  obtain ⟨j', c₁, h₁, run, rest⟩ := completes
  refine ⟨j', c₁, h₁, fun fuel enough => ?_, rest⟩
  obtain ⟨fuel, rfl⟩ := Nat.exists_eq_add_of_le' (Nat.lt_of_lt_of_le (Nat.succ_pos n) enough)
  obtain ⟨ran, noted⟩ := run_succ unfinished ok fuel (j := j)
  rw [ran, noted]
  exact run fuel (Nat.le_of_succ_le_succ enough)

theorem BreaksOff.before {n : Nat} (unfinished : s.isFinished = false) (ok : s.step (c, h) = .ok (some next) (c', h'))
    (breaksOff : next.BreaksOff c' h' n) : s.BreaksOff c h (n + 1) := by
  obtain ⟨e, t, run, rest⟩ := breaksOff
  refine ⟨e, t, fun fuel enough => ?_, rest⟩
  obtain ⟨fuel, rfl⟩ := Nat.exists_eq_add_of_le' (Nat.lt_of_lt_of_le (Nat.succ_pos n) enough)
  rw [(run_succ unfinished ok fuel (j := .empty)).1]
  exact run fuel (Nat.le_of_succ_le_succ enough)

end Share

namespace Team

variable {g : Outset} {turn : Turn}

/-- There is nobody for whom a collector alone could wait. -/
theorem Labours.never_waits (labours : Labours g turn [w] h pieces) (sound : g.Sound) (shared : w.share? = some s)
    (unfinished : s.stage ≠ .finished) : s.step (w.collector, h) ≠ .ok none (c', h') := by
  intro ok
  have going := labours.going shared
  obtain ⟨calm, -⟩ := labours.calm w mem_cons_self s shared
  have waiting : s.stage = .waiting := by
    cases going.strides sound (fun waiting => calm (.inl waiting)) unfinished ok with
    | turns _ _ _ _ stuck => exact stuck rfl
  obtain ⟨_, -, stepped⟩ := Share.step_ok going sound (fun waiting => calm (.inl waiting)) unfinished ok
  have idle : h.backlog.objects.idle.toNat = 0 + if s.stage = .waiting then 1 else 0 := by
    rw [labours.idle, if_pos waiting, countP_singleton, (isIdle_iff shared).mpr waiting]
    rfl
  cases stepped.moved with
  | works active => exact active.1 waiting
  | ends finished =>
    rw [Option.getD_none] at finished
    rw [finished] at unfinished
    exact unfinished rfl
  | waits _ _ _ _ others =>
    have few : (s.rejoin h.backlog.objects).idle.toNat + 1 < 2 ^ 64 := by
      rw [rejoin_idle (by decide) idle]
      decide
    refine others (UInt64.toNat_inj.mp ?_)
    rw [toNat_succ few, rejoin_idle (by decide) idle, labours.participants]
    rfl

/-- As long as a worker has slots at hand, the queue is not drained. -/
theorem Labours.undrained {others : List Worker} (labours : Labours g turn (w :: others) h pieces) (shared : w.share? = some s)
    (hand : s.slots ≠ []) : h.backlog.objects.drained = false := by
  obtain ⟨calm, -⟩ := labours.calm w mem_cons_self s shared
  refine Bool.eq_false_iff.mpr fun drained => hand ?_
  rcases (labours.drained drained).2 w mem_cons_self with done | idle
  · exact (calm (.inr ((isDone_iff shared).mp done))).1
  · exact (calm (.inl ((isIdle_iff shared).mp idle))).1

end Team

/-- A collector that works off its share alone comes to an end of it, or breaks off as it copies an object. -/
theorem Journal.Follows.ends {g : Outset} {turn : Turn} {j : Journal} {w : Worker} {h : Heap} {pieces : List Piece} {s : Share}
    (follows : j.Follows g.known t₀ [w] h)
    (labours : Team.Labours g turn [w] h pieces) (sound : g.Sound) (shared : w.share? = some s) :
    ∃ n, s.Completes w.collector h j t₀ n ∨ s.BreaksOff w.collector h n := by
  have going := labours.going shared
  obtain ⟨calm, -⟩ := labours.calm w mem_cons_self s shared
  by_cases finished : s.stage = .finished
  · obtain ⟨drained, buffer⟩ := labours.done w mem_cons_self ((Team.isDone_iff shared).mpr finished)
    have nothing : w.collector.pending h = 0 := by
      rw [Collector.pending, items, buffer, (labours.drained drained).1]
      rfl
    have balance := follows.balance
    rw [Team.pending_cons, nothing, flatMap_nil, Multiset.coe_nil, add_zero, add_zero] at balance
    refine ⟨1, .inl ⟨j, w.collector, h, fun fuel enough => ?_, ⟨_, follows.tells.agrees (going.closing.kept.places sound
      going.ready.held)⟩, follows.counted, balance, nothing⟩⟩
    obtain ⟨fuel, rfl⟩ := Nat.exists_eq_add_of_le' enough
    have done : s.isFinished = true := beq_iff_eq.mpr finished
    rw [Share.run, Journal.through]
    simp only [done, if_true]
    exact ⟨rfl, trivial⟩
  have unfinished : s.isFinished = false := beq_eq_false_iff_ne.mpr finished
  have closing : w.collector.state = .closing := (labours.states w mem_cons_self).trans (Team.closureState_eq shared)
  rcases going.step_total sound closing follows.whole.sound follows.whole.calm (labours.undrained shared) with
    ⟨answer, ⟨c', h'⟩, ok⟩ | ⟨slot, left, e, t, hand, gain, traced, broken⟩
  · cases answer with
    | none => exact absurd ok (labours.never_waits sound shared finished)
    | some next =>
      obtain ⟨w', new⟩ : ∃ w' : Worker, w' = { w with collector := c', activity := .closing next } := ⟨_, rfl⟩
      have collector : w'.collector = c' := by rw [new]
      have shared' : w'.share? = some next := by
        rw [new]
        rfl
      obtain ⟨pieces', -, labours', -⟩ := labours.works sound shared finished ok collector shared'
      rw [← collector] at ok
      have nearer := (going.strides sound (fun waiting => calm (.inl waiting)) finished ok).nearer
      obtain ⟨n, completes | breaksOff⟩ := (follows.works labours sound shared finished ok).ends labours' sound shared'
      · exact ⟨n + 1, .inl (completes.before unfinished ok)⟩
      · exact ⟨n + 1, .inr (breaksOff.before unfinished ok)⟩
  · refine ⟨1, .inr ⟨e, t, fun fuel enough => ?_, w.collector, h, h.refOf slot, gain, traced⟩⟩
    obtain ⟨fuel, rfl⟩ := Nat.exists_eq_add_of_le' enough
    rw [Share.run]
    simp only [unfinished, Bool.false_eq_true, if_false]
    exact Step.error_bind broken
termination_by (h.undone g.known, s.toDo w.collector h, s.slots.length)
decreasing_by exact nearer

/-! ### Tracing again -/

/-- Tracing from this state answers the place `b` and changes nothing; but a mark that is there already may be stored again. -/
def Collector.Stays (c : Collector) (h : Heap) (a b : Address) : Prop :=
  ∃ t, h.spaces.immortal.marks.Same t ∧ trace a (c, h) = .ok (some b) (c, h.remarked t)

theorem Collector.stays_null (c : Collector) (h : Heap) : c.Stays h .null .null := ⟨_, .refl _, rfl⟩

/-- An object that the collection is done with is not touched again, whether it is traced at its old place or at its new one. -/
theorem Share.Going.stays {g : Outset} {buffers : List (SpaceId × Span)} {keys : List (Nat × Address)} {slots : Slot → Prop}
    {objects remembered : Address → Prop} {a : Address} (going : Going g c h s pieces buffers keys slots objects remembered)
    (sound : g.Sound) (closing : c.state = .closing) (member : o ∈ g.known) (done : h.Done o)
    (there : a = o.start ∨ a = h.spaces.image o) : c.Stays h a (h.spaces.image o) := by
  have kept := going.closing.kept
  have ready := going.ready
  obtain ⟨-, object, proper⟩ := sound.known o member
  have here := ready.trace_done closing (kept.known sound member) object proper done
  rcases there with rfl | rfl
  · exact here
  · obtain ⟨r, inner, start, -, ⟨rfl, -⟩ | copy⟩ := kept.bodies o member
    · rw [← start] at here ⊢
      exact here
    · obtain ⟨object', done', home, -⟩ := kept.copies r inner copy
      have unmoved : h.spaces.image r = r.start := ready.tracked.image_eq ready.held inner (by rw [home]; exact ready.still)
      have again := ready.trace_done closing inner object' (kept.copy_proper ready.held inner copy) done'
      rw [unmoved] at again
      rw [← start]
      exact again

theorem Journal.Follows.stays {g : Outset} {turn : Turn} {others : List Worker} {e : Address × Option Address} {a : Address}
    (follows : j.Follows g.known t₀ (w :: others) h) (labours : Team.Labours g turn (w :: others) h pieces) (sound : g.Sound)
    (shared : w.share? = some s) (listed : e ∈ j.traced) (there : a = e.1 ∨ a = h.place g.known e.1) :
    w.collector.Stays h a (h.place g.known e.1) := by
  have going := labours.going shared
  have closing : w.collector.state = .closing := (labours.states w mem_cons_self).trans (Team.closureState_eq shared)
  have places := going.closing.kept.places sound going.ready.held
  rcases follows.tells.answers e listed with rfl | ⟨o, member, done, from_, -⟩
  · simp only [places.place_null, or_self] at there ⊢
    exact there ▸ w.collector.stays_null h
  · have place : h.place g.known e.1 = h.spaces.image o := by
      rcases from_ with same | same
      · rw [same, Heap.place_start places.distinct member]
      · rw [same, places.place_image member]
    rw [place] at there ⊢
    refine going.stays sound closing member done ?_
    rcases there with rfl | rfl
    · exact from_
    · exact .inr rfl

namespace World

variable {u : World} {group : Array Collector} {crew : Crew}

/-- Each object is processed once, and the closure ends. At any time of a collection of a program at work, the journal of what the
collectors did agrees on the places of the objects, and says that each object was gained, and left to be scanned, at most once;
the counters have grown by the numbers of objects that were copied and marked. A collector that traces a reference again, or what
it was answered, gets the same answer, and nothing changes. When the closure is over, what was left to be scanned is what was
taken up. A collector alone ends its share, unless there is an object that it cannot copy. -/
theorem Reachable.traces_once (reachable : u.Reachable) (there : u.heap.collectors = some group)
    (journaled : Crew.Journaled (.ofCollectors group, u.heap.stopped) j (crew, h)) :
    (∃ place, j.Agrees place ∧ ∀ w ∈ crew.workers, ∀ s, w.share? = some s →
      ∀ e ∈ j.traced, ∀ a, a = e.1 ∨ a = place e.1 → w.collector.Stays h a (place e.1)) ∧
    j.Counted u.heap.tally h.tally ∧
    (crew.HasTraced ∨ crew.isOver = true → j.enqueued = j.dequeued) ∧
    ∀ w s, crew.workers = #[w] → w.share? = some s →
      ∃ n, s.Completes w.collector h j u.heap.tally n ∨ s.BreaksOff w.collector h n := by
  obtain ⟨pieces, objects, sound⟩ := reachable.sound
  obtain ⟨opens, start⟩ := sound.sets_out there
  obtain ⟨k, pieces', carries, fits⟩ := Journal.Fits.of_journaled journaled (.start _ _) start opens
  have late : crew.HasTraced ∨ crew.isOver = true → 4 < k := by
    rintro (traced | complete)
    · obtain ⟨rfl, -⟩ := carries.rallied.of_traced traced
      decide
    · rw [carries.last complete]
      decide
  have unshared : k ≠ 4 → ∀ w ∈ crew.workers, w.share? = none := fun other w member => carries.rallied.unshared other member
  cases fits with
  | before early none tally =>
    subst none
    have idle := unshared (by omega)
    refine ⟨⟨id, Journal.agrees_empty, fun w member s shared => ?_⟩, ?_, fun _ => rfl, fun w s alone shared => ?_⟩
    · rw [idle w member] at shared
      cases shared
    · rw [tally]
      exact Journal.counted_empty _
    · rw [idle w (by rw [alone]; exact Array.mem_singleton.mpr rfl)] at shared
      cases shared
  | during closure follows =>
    subst closure
    cases carries.round with
    | once single => omega
    | each two => omega
    | closing same sound' begun labours untouched =>
      subst same
      have places := labours.owing.kept.places sound' labours.shared.held
      refine ⟨⟨_, follows.tells.agrees places, fun w member s shared e listed a there => ?_⟩, follows.counted,
        fun passed => absurd (late passed) (by omega), fun w s alone shared => ?_⟩
      · obtain ⟨i, inside, rfl⟩ := Array.mem_iff_getElem.mp member
        obtain ⟨-, perm⟩ := Crew.team_after crew.workers[i] crew.rendezvous inside
        exact (follows.congr (Team.pending_of_perm perm.symm h)).stays (labours.of_perm perm.symm) sound' shared listed there
      · have team : crew.team = [w] := by rw [Crew.team, alone]
        rw [team] at follows labours
        exact follows.ends labours sound' shared
  | after later place agrees counted even =>
    have idle := unshared (by omega)
    refine ⟨⟨place, agrees, fun w member s shared => ?_⟩, counted, fun _ => even, fun w s alone shared => ?_⟩
    · rw [idle w member] at shared
      cases shared
    · rw [idle w (by rw [alone]; exact Array.mem_singleton.mpr rfl)] at shared
      cases shared

/-- The collectors of a program at the start of a collection. -/
def mustered (u : World) : Crew × Heap := (.ofCollectors (u.heap.collectors.getD #[]), u.heap.stopped)

/-- In the collection of the first program one object is copied and one is marked, and both are scanned. Its collector, which is
alone, comes to an end of its share. -/
theorem sample_traces_once :
    (∃ j, Crew.Journaled sample.mustered j (sample.rounds 19) ∧ j.gained.Nodup ∧ UInt64.ofNat j.copied.length = 1 ∧
      UInt64.ofNat j.marked.length = 1 ∧ j.enqueued = j.dequeued) ∧
    ∃ j n c, Crew.Journaled sample.mustered j (sample.rounds 5) ∧
      (Share.new.Completes c (sample.rounds 5).2 j .empty n ∨ Share.new.BreaksOff c (sample.rounds 5).2 n) := by
  obtain ⟨books, none⟩ := sample_tally
  have closed : ∀ t : Crew × Heap, Crew.Run sample.mustered t → t.1.HasTraced → t.2.tally = ⟨0, 0, 1, 1024, 1, 0⟩ →
      ∃ j, Crew.Journaled sample.mustered j t ∧ j.gained.Nodup ∧ UInt64.ofNat j.copied.length = 1 ∧
        UInt64.ofNat j.marked.length = 1 ∧ j.enqueued = j.dequeued := by
    rintro ⟨c, h⟩ run traced tally
    obtain ⟨j, journaled⟩ := run.journaled
    obtain ⟨⟨_, agrees, -⟩, ⟨copies, marks⟩, even, -⟩ := sample_reachable.traces_once sample_manned journaled
    rw [tally, none] at copies marks
    exact ⟨j, journaled, agrees.once, (UInt64.zero_add _).symm.trans copies.symm, (UInt64.zero_add _).symm.trans marks.symm,
      even (.inl traced)⟩
  have opened : ∀ t : Crew × Heap, Crew.Run sample.mustered t → t.1.workers.toList.map Worker.share? = [some .new] →
      ∃ j n c, Crew.Journaled sample.mustered j t ∧ (Share.new.Completes c t.2 j .empty n ∨ Share.new.BreaksOff c t.2 n) := by
    rintro ⟨c, h⟩ run shares
    obtain ⟨j, journaled⟩ := run.journaled
    obtain ⟨w, rest, workers, shared, nobody⟩ := map_eq_cons_iff.mp shares
    rw [map_eq_nil_iff.mp nobody] at workers
    obtain ⟨-, -, -, ends⟩ := sample_reachable.traces_once sample_manned journaled
    obtain ⟨n, ended⟩ := ends w .new (Array.toList_inj.mp workers) shared
    exact ⟨j, n, w.collector, journaled, none ▸ ended⟩
  exact ⟨closed _ sample_closes sample_traced books, opened _ sample_opens sample_shares⟩

end World

end TracingHeap
