import TracingHeap.Proofs.Cycles

/-! The moments of a program at work: those between collections, and those in the midst of a collection up to the release
of the spaces. At all of them the memory in use has its place, and what is at hand with the mutators and the collectors
is apart from it. Allocators lose memory on the way, but none ever gets memory that it was not given. -/

namespace TracingHeap

open List Memory Work

/-! ### Losing free lists -/

/-- The free lists that have cells. -/
def liveKeys (keys : List (Nat × Address)) : List (Nat × Address) := keys.filter fun key => decide (key.2 ≠ .null)

theorem liveKeys_append (keys keys' : List (Nat × Address)) : liveKeys (keys ++ keys') = liveKeys keys ++ liveKeys keys' :=
  filter_append ..

theorem liveKeys_flatMap {α : Type} (xs : List α) (f : α → List (Nat × Address)) :
    liveKeys (xs.flatMap f) = xs.flatMap fun x => liveKeys (f x) := by
  rw [liveKeys, filter_flatMap]
  rfl

theorem liveKeys_of_null {keys : List (Nat × Address)} (empty : ∀ key ∈ keys, key.2 = .null) : liveKeys keys = [] :=
  filter_eq_nil_iff.mpr fun key member => by simp [empty key member]

/-- Free lists may be dropped, and there are always ones without cells. -/
theorem Spaces.Held.fewer {s : Spaces} {m : Memory} {pieces : List Piece} {buffers buffers' : List (SpaceId × Span)}
    {keys keys' : List (Nat × Address)} (held : s.Held m pieces buffers keys) (fewer : buffers' <+ buffers)
    (lists : liveKeys keys' <+ liveKeys keys) : s.Held m pieces buffers' keys' := by
  have split : keys' ~ liveKeys keys' ++ keys'.filter fun key => !decide (key.2 ≠ .null) := (filter_append_perm _ _).symm
  refine (held.shed fewer (lists.trans filter_sublist) fun key member => ?_).of_perm (.refl _) (.refl _) split
  simpa using (mem_filter.mp member).2

/-- The collector has nothing at hand that it did not have before. -/
def Collector.Sheds (c c' : Collector) : Prop := c'.buffers <+ c.buffers ∧ liveKeys c'.keys <+ liveKeys c.keys

theorem Collector.Sheds.refl (c : Collector) : c.Sheds c := ⟨.refl _, .refl _⟩

theorem Collector.sheds_all {cs cs' : List Collector} (each : Forall₂ Collector.Sheds cs cs') :
    cs'.flatMap Collector.buffers <+ cs.flatMap Collector.buffers ∧
      liveKeys (cs'.flatMap Collector.keys) <+ liveKeys (cs.flatMap Collector.keys) := by
  induction each with
  | nil => exact ⟨.refl _, .refl _⟩
  | cons one _ ih =>
    simp only [flatMap_cons, liveKeys_append]
    exact ⟨one.1.append ih.1, one.2.append ih.2⟩

theorem Collector.sheds_resetCells {c c' : Collector} {drops : Prop} [Decidable drops]
    (copies : c'.copies = if drops then c.copies.resetCells else c.copies) : c.Sheds c' := by
  unfold Sheds buffers keys
  rw [copies]
  split
  · refine ⟨.refl _, ?_⟩
    rw [show liveKeys c.copies.resetCells.allocators.keys = [] from liveKeys_of_null fun _ => AllocatorSet.resetCells_keys]
    exact nil_sublist _
  · exact ⟨.refl _, .refl _⟩

/-- What a collector does by itself costs it memory at most. -/
theorem Crew.Turned.sheds {k : Nat} {h : Heap} {c c' : Collector} (two : k = 2 ∨ k = 5) (turned : Crew.Turned k h c c') :
    c.Sheds c' := by
  rcases two with rfl | rfl
  · obtain ⟨-, copies, rfl, ⟨-, rfl⟩ | ⟨-, rebound⟩⟩ := Collector.prepare_ok turned
    · exact .refl c
    · rw [CopyContext.rebind] at rebound
      split at rebound
      · cases rebound
      · obtain rfl := Except.ok.inj rebound
        exact ⟨AllocatorSet.rebindBump_buffers _ 0 _, .refl _⟩
  · obtain ⟨-, rfl⟩ := Collector.release_ok turned
    exact Collector.sheds_resetCells rfl

/-! ### Custody -/

/-- The memory in use in the midst of a collection that set out with `pieces₀`: each of these still has its place, and so
has every copy. -/
structure Heap.Custody (h : Heap) (cs : List Collector) (pieces₀ pieces : List Piece) : Prop where
  held : h.spaces.Held h.memory pieces (cs.flatMap Collector.buffers ++ h.buffers) (cs.flatMap Collector.keys ++ h.keys)
  tracked : h.spaces.Tracked pieces
  base : ∀ p ∈ pieces₀, p ∈ pieces
  copies : ∀ p ∈ pieces₀, h.spaces.Evacuates p.home → h.spaces.Reached p →
    ∃ r ∈ pieces, r.tenant = ⟨h.spaces.image p, p.bytes, h.destination, p.isObject⟩

/-- A closure keeps the copy of every object that it has moved. -/
theorem Kept.copied {g : Outset} {h : Heap} {pieces : List Piece} {p : Piece} (kept : Kept g h pieces) (sound : g.Sound)
    (member : p ∈ g.pieces) (moves : h.spaces.Evacuates p.home) (reached : h.spaces.Reached p) :
    ∃ r ∈ pieces, r.tenant = ⟨h.spaces.image p, p.bytes, h.destination, p.isObject⟩ := by
  rcases kept.found p member reached with early | ⟨known, -⟩
  · exact absurd early (sound.unmoved p member ((kept.evacuates _).mp moves))
  · obtain ⟨r, inside, start, bytes, ⟨-, unmoved⟩ | new⟩ := kept.bodies p known
    · exact absurd reached (unmoved moves)
    · obtain ⟨object, -, home, -⟩ := kept.copies r inside new
      refine ⟨r, inside, ?_⟩
      rw [Piece.tenant, start, bytes, home, object, (sound.known p known).2.1]

namespace Heap.Custody

variable {h h' : Heap} {cs cs' : List Collector} {pieces₀ known pieces : List Piece} {k : Nat}

/-- Losing memory at hand does no harm. -/
theorem shed (custody : h.Custody cs pieces₀ pieces) (spaces : h'.spaces = h.spaces) (memory : h'.memory = h.memory)
    (destination : h'.destination = h.destination) (buffers : h'.buffers <+ h.buffers) (keys : liveKeys h'.keys <+ liveKeys h.keys)
    (each : Forall₂ Collector.Sheds cs cs') : h'.Custody cs' pieces₀ pieces := by
  obtain ⟨buffers', keys'⟩ := Collector.sheds_all each
  refine ⟨?_, ?_, custody.base, ?_⟩
  · rw [spaces, memory]
    refine custody.held.fewer (buffers'.append buffers) ?_
    rw [liveKeys_append, liveKeys_append]
    exact keys'.append keys
  · rw [spaces]
    exact custody.tracked
  · rw [spaces, destination]
    exact custody.copies

/-- Between collections nothing has moved. -/
theorem of_quiet (quiet : Quiet h cs pieces) : h.Custody cs pieces pieces := by
  refine ⟨quiet.held, quiet.tracked, fun _ => id, fun p member moves reached => ?_⟩
  obtain ⟨x, space⟩ := moves.copying
  obtain ⟨low, high⟩ := quiet.held.inside member
  simp only [Spaces.Reached, space] at reached low high
  rw [quiet.unforwarded _ x space _ low high] at reached
  exact absurd reached (by decide)

/-- When the spaces have been prepared, nothing has moved either. -/
theorem of_set (full : Bool) (set : h.Set h' full) (quiet : Quiet h cs pieces) (program : h'.program = h.program) :
    h'.Custody cs pieces pieces := by
  refine ⟨?_, set.tracked quiet, fun _ => id, fun p member moves reached => absurd reached (set.unreached_copying quiet member moves)⟩
  rw [set.memory, Heap.buffers, Heap.keys, program]
  exact quiet.held.alike set.alike

theorem of_kept {g : Outset} (shared : Team.Shared cs h pieces) (kept : Kept g h pieces) (sound : g.Sound) :
    h.Custody cs g.pieces pieces :=
  ⟨shared.held, shared.tracked, kept.base, fun _ => kept.copied sound⟩

/-- The heap changes in a phase that is carried out once. -/
theorem ran (custody : h.Custody cs pieces₀ pieces) (ran : Crew.Ran k h h') (later : k ≠ 0) (unreleased : k ≠ 7) :
    h'.Custody cs pieces₀ pieces := by
  have same : Forall₂ Collector.Sheds cs cs := forall₂_same.mpr fun c _ => .refl c
  match k with
  | 0 => exact absurd rfl later
  | 1 =>
    obtain ⟨_, rfl, -⟩ := Heap.mutatorsPrepare_ok ran
    refine custody.shed rfl rfl rfl ?_ ?_ same
    · rw [Heap.buffers, Heap.buffers, Array.toList_map, flatMap_map]
      refine Sublist.flatMap_right _ fun m _ => ?_
      unfold Mutator.readied
      cases h.sweeps <;> exact .refl _
    · rw [Heap.keys, Heap.keys, Array.toList_map, flatMap_map, liveKeys_flatMap, liveKeys_flatMap]
      refine Sublist.flatMap_right _ fun m _ => ?_
      unfold Mutator.readied
      cases h.sweeps with
      | false => exact .refl _
      | true =>
        simp only [if_true, liveKeys_of_null fun _ => AllocatorSet.resetCells_keys]
        exact nil_sublist _
  | 3 =>
    obtain ⟨_, rfl, -⟩ := ran
    exact custody.shed rfl rfl rfl (.refl _) (.refl _) same
  | 6 =>
    obtain rfl := Heap.mutatorsRelease_ok ran
    refine custody.shed rfl rfl rfl ?_ ?_ same
    · rw [Heap.buffers, Heap.buffers, Array.toList_map, flatMap_map]
      exact Sublist.flatMap_right _ fun m _ => AllocatorSet.rebindBump_buffers _ 0 _
    · rw [Heap.keys, Heap.keys, Array.toList_map, flatMap_map]
      exact .refl _
  | 7 => exact absurd rfl unreleased
  | 2 | 4 | 5 | _ + 8 => exact ran.elim

end Heap.Custody

namespace Crew

variable {h₀ h : Heap} {cs₀ cs : List Collector} {pieces₀ known pieces : List Piece} {c : Crew} {k : Nat}

/-- At the start of every phase up to the release of the spaces, everything has its place. -/
theorem Begun.custody (begun : Begun 0 h₀ cs₀ pieces₀ known k h cs pieces) (quiet : Quiet h₀ cs₀ pieces₀) (unreleased : k ≤ 7) :
    h.Custody cs pieces₀ pieces := by
  induction begun with
  | start => exact .of_quiet quiet
  | @once k _ _ _ _ begun ran ih =>
    by_cases first : k = 0
    · subst first
      cases begun
      obtain ⟨full, -, rfl⟩ := Heap.prepare_ok ran
      exact .of_set full ⟨rfl, rfl, rfl, rfl⟩ quiet rfl
    · exact (ih (by omega)).ran ran first (by omega)
  | each _ two turned ih => exact (ih (by omega)).shed rfl rfl rfl (.refl _) (.refl _) (turned.imp fun _ _ => Turned.sheds two)
  | closed begun _ sound _ shared closing _ =>
    obtain ⟨same, -⟩ := begun.opened
    exact same ▸ .of_kept shared closing.kept sound

end Crew

/-- The worker has not come to the end of the last phase, in which the spaces are released. -/
def Worker.Holds (w : Worker) : Prop := w.activity = .starting ∨ 2 ≤ w.phases.length ∧ w.activity ≠ .finished

/-- Nothing was taken back yet. -/
def Crew.Holds (c : Crew) : Prop := ∀ w ∈ c.workers, w.collector.isPrimary = true → w.Holds

/-- The closure comes before the release. -/
theorem Crew.HasTraced.holds {c : Crew} (traced : c.HasTraced) : c.Holds := fun w member _ =>
  match traced w member with
  | .inl ⟨phases, turn, waiting⟩ => .inr ⟨by rw [phases]; decide, by rw [waiting]; nofun⟩
  | .inr ⟨_, starting⟩ => .inl starting

theorem Worker.Stands.before_release {r : Rendezvous} {k : Nat} {w : Worker} (stands : w.Stands r k) (holds : w.Holds) :
    k < 8 ∧ (k = 7 → w.hasEnded r.current = false) := by
  have phases : ∀ j, (phasesFrom j).length = 8 - j := fun j => length_drop
  cases stands with
  | late before most waiting same =>
    have many := (holds.resolve_left fun same => by cases waiting.symm.trans same).1
    rw [same, phases] at many
    refine ⟨by omega, fun _ => ?_⟩
    rw [hasEnded, waiting]
    cases r.current <;> rfl
  | starting more starting => exact ⟨more, fun _ => by rw [hasEnded, starting]⟩
  | closing share phase => exact ⟨by omega, fun bad => by omega⟩
  | ended more waiting same =>
    have many := (holds.resolve_left fun same => by cases waiting.symm.trans same).1
    rw [same, phases] at many
    exact ⟨more, fun bad => by omega⟩
  | finished _ finished => exact absurd finished (holds.resolve_left fun same => by cases finished.symm.trans same).2

namespace Crew

variable {h₀ h : Heap} {cs₀ cs : List Collector} {pieces₀ known pieces : List Piece} {c : Crew} {k : Nat}

/-- At every moment up to the release of the spaces, everything has its place. -/
theorem Carries.custody (carries : Carries 0 h₀ cs₀ pieces₀ known c h pieces k) (quiet : Quiet h₀ cs₀ pieces₀) (holds : c.Holds)
    (several : 0 < c.workers.size) : h.Custody (Team.collectors c.team) pieces₀ pieces := by
  have primary : c.workers[0].collector.isPrimary = true := by rw [Collector.isPrimary, carries.numbered 0 several]; rfl
  obtain ⟨early, last⟩ := (carries.rallied.stands _ (Array.getElem_mem several)).before_release
    (holds _ (Array.getElem_mem several) primary)
  cases carries.round with
  | @once k before single begun ended unended =>
    cases atEnd : c.ended 0 with
    | false =>
      obtain rfl := unended atEnd
      exact begun.custody quiet (by omega)
    | true =>
      refine (begun.once (ended atEnd)).custody quiet ?_
      have unended : k ≠ 7 := fun bad => Bool.false_ne_true ((last bad).symm.trans ((ended_here several).symm.trans atEnd))
      omega
  | @each k cs two begun length progress =>
    refine (begun.custody quiet (by omega)).shed rfl rfl rfl (.refl _) (.refl _) (forall₂_iff_get.mpr ⟨?_, fun i small small' => ?_⟩)
    · rw [length, length_map, Array.length_toList]
    · have inside : i < c.workers.size := length ▸ small
      simp only [get_eq_getElem, getElem_map, Array.getElem_toList]
      obtain ⟨atEnd, unended⟩ := progress i inside small
      cases ended : c.ended i with
      | true => exact (atEnd ended).sheds two
      | false =>
        rw [unended ended]
        exact .refl _
  | closing same sound begun labours _ =>
    obtain ⟨same, -⟩ := begun.opened
    exact same ▸ .of_kept labours.shared labours.owing.kept sound
  | finished => omega

end Crew

/-! ### The moments of a program -/

namespace World

/-- The moments of a program at work: the heap, the collectors and the memory in use. In the midst of a collection
there are the copies that were made so far as well. -/
inductive Moment (w : World) : Heap → List Collector → Set Tenant → Prop where
  | between : Moment w w.heap w.heap.team w.tenants
  | during {group : Array Collector} {c : Crew} {h : Heap} (there : w.heap.collectors = some group)
    (run : Crew.Run (.ofCollectors group, w.heap.stopped) (c, h)) (holds : c.Holds) :
    Moment w h (Team.collectors c.team) (w.tenants ∪ {t | ∃ s ∈ w.tenants, h.spaces.Evacuates s.home ∧ h.fate s = some t})

variable {w : World} {pieces objects : List Piece} {h : Heap} {cs : List Collector} {tenants : Set Tenant}

/-- At every moment the memory in use has its place. -/
theorem Sound.moment (sound : w.Sound pieces objects) (moment : w.Moment h cs tenants) :
    ∃ pieces', h.Custody cs pieces pieces' ∧ ∀ t ∈ tenants, ∃ p ∈ pieces', p.tenant = t := by
  cases moment with
  | between => exact ⟨pieces, .of_quiet sound.quiet, fun t => (sound.tenants t).mp⟩
  | @during group c _ there run holds =>
    obtain ⟨quiet, -, -⟩ := sound.stopped
    obtain ⟨-, _, pieces', carries⟩ := sound.carries there run
    have several : 0 < c.workers.size := by
      rw [run.size, Crew.ofCollectors, Array.size_map]
      exact (sound.manned group there).1
    have custody := carries.custody quiet holds several
    refine ⟨pieces', custody, ?_⟩
    rintro t (used | ⟨s, used, moves, copied⟩)
    · obtain ⟨p, member, rfl⟩ := (sound.tenants t).mp used
      exact ⟨p, custody.base p member, rfl⟩
    · obtain ⟨p, member, rfl⟩ := (sound.tenants s).mp used
      obtain ⟨reached, rfl⟩ := (Heap.fate_evacuated custody.held custody.tracked (custody.base p member) moves).mp copied
      exact custody.copies p member moves reached

end World

end TracingHeap
