import TracingHeap.Proofs.Acquisition
import TracingHeap.Proofs.Holdings

/-! How holdings change hands. Fresh memory becomes a buffer or a room, a buffer is cut into a room and
what is left of it, a free cell becomes a room, and whatever an allocator drops is nobody's. -/

namespace TracingHeap.Spaces

open List Memory

variable {s s' : Spaces} {m m' : Memory} {id : SpaceId} {bytes : Word}
  {rooms rooms' buffers buffers' : List (SpaceId × Span)} {keys keys' : List (Nat × Address)}
  {lists lists' : List FreeList}

/-! ### Requests -/

theorem Taken.kept {r : Except Pages.Denial Address} (taken : Taken s s' m m' id bytes r) {id' : SpaceId}
    {q : Span} (issued : s.Issued id' q) : s'.Issued id' q ∧ AgreeOn m m' q := by
  cases r with
  | error e =>
    obtain ⟨rfl, same⟩ := taken.refused e rfl
    exact ⟨(same id' q).mpr issued, AgreeOn.refl _ _⟩
  | ok a => exact (taken.served a rfl).kept id' q issued

theorem Taken.houses {r : Except Pages.Denial Address} (taken : Taken s s' m m' id bytes r)
    (gridded : s.Gridded) {id' : SpaceId} {q : Span} (housed : s.Houses id' q) : s'.Houses id' q := by
  have issued := (taken.kept (housed.issued gridded)).1
  have extent := taken.repaged.extent id'
  unfold Houses at *
  unfold Issued at issued
  cases id' with
  | first => exact ⟨issued, housed.2⟩
  | immortal => exact ⟨issued, housed.2⟩
  | large =>
    obtain ⟨run, live, rfl⟩ := housed
    simp only [space, Space.extent] at extent
    have spans : s'.large.pages.spanOf run = s.large.pages.spanOf run := by
      rw [Pages.Runs.spanOf, Pages.Runs.spanOf, extent]
    refine ⟨run, ?_, spans.symm⟩
    rcases taken.large.1 with same | ⟨a, -, -, run', live', -⟩
    · rw [same]
      exact live
    · rw [live']
      exact mem_cons_of_mem _ live
  | second =>
    rcases taken.repaged.second with ⟨x, p, second, second'⟩ | ⟨x, p, second, second'⟩
    · simp only [space, second, second'] at housed ⊢
      exact housed
    · simp only [space, second, second'] at housed issued ⊢
      exact ⟨issued, housed.2⟩

theorem Taken.gridded {r : Except Pages.Denial Address} (taken : Taken s s' m m' id bytes r)
    (gridded : s.Gridded) : s'.Gridded := by
  intro y mature
  rcases taken.repaged.second with ⟨x, -, second, -⟩ | ⟨x, p, second, second'⟩
  · obtain ⟨p, second', live, -⟩ := taken.mature x second
    rw [second'] at mature
    cases mature
    have old := gridded x second
    have extent : p.extent = x.pages.extent := by
      have := taken.repaged.extent .second
      simp only [space, second, second'] at this
      exact this
    have spans : ∀ run, p.spanOf run = x.pages.spanOf run := fun run => by
      rw [Pages.Runs.spanOf, Pages.Runs.spanOf, extent]
    have more : ∀ run ∈ x.pages.map.live, run ∈ p.map.live := by
      intro run member
      rcases live with same | ⟨a, -, -, run', live', -⟩
      · rw [same]
        exact member
      · rw [live']
        exact mem_cons_of_mem _ member
    refine ⟨old.classes, ?_, old.distinct, old.tables, ?_, ?_, old.heads⟩
    · intro b member
      obtain ⟨run, live, pages, start⟩ := old.live b member
      exact ⟨run, more run live, pages, by rw [start, spans]⟩
    · simpa only [extent] using old.starts
    · simpa only [extent] using old.classNumbers
  · rw [second'] at mature
    cases mature

theorem Repaged.bumpable (same : s.Repaged s') (id : SpaceId) : s'.Bumpable id ↔ s.Bumpable id := by
  unfold Bumpable
  cases id with
  | second =>
    rcases same.second with ⟨x, p, second, second'⟩ | ⟨x, p, second, second'⟩
    · simp only [space, second, second']
    · simp only [space, second, second']
  | first => exact Iff.rfl
  | immortal => exact Iff.rfl
  | large => exact Iff.rfl

theorem Repaged.stock (same : s.Repaged s') : s'.stock = s.stock := by
  unfold Spaces.stock
  rcases same.second with ⟨x, p, second, second'⟩ | ⟨x, p, second, second'⟩
  · rw [second, second']
  · rw [second, second']

/-- A cell of the mature store stays one. -/
theorem Repaged.cuts (same : s.Repaged s') {l : FreeList} (cuts : s.Cuts l) : s'.Cuts l := by
  refine cuts.imp fun x second => ?_
  rcases same.second with ⟨y, p, second', second''⟩ | ⟨y, p, second', second''⟩
  · rw [second] at second'
    cases second'
    exact ⟨_, second'', fun _ listed _ => listed⟩
  · rw [second] at second'
    cases second'

/-! ### Reordering and dropping -/

/-- Nothing depends on the order in which holdings are listed. -/
theorem Estate.of_perm (estate : s.Estate m rooms buffers keys) (sameRooms : rooms' ~ rooms)
    (sameBuffers : buffers' ~ buffers) (sameKeys : keys' ~ keys) : s.Estate m rooms' buffers' keys' := by
  obtain ⟨laid, supplied, gridded, lists, stocked, owned⟩ := estate
  refine ⟨laid, supplied, gridded, lists, ⟨?_, ?_, ?_, stocked.free⟩, ?_⟩
  · exact (((sameRooms.append sameBuffers).append_right _).symm).pairwise stocked.apart fun h => h.symm
  · exact fun h member => stocked.housed h (sameRooms.mem_iff.mp member)
  · exact fun h member => stocked.ready h (sameBuffers.mem_iff.mp member)
  · exact owned.trans (sameKeys.symm.append_left _)

theorem Estate.drop_room {room : SpaceId × Span} (estate : s.Estate m (room :: rooms) buffers keys) :
    s.Estate m rooms buffers keys := by
  obtain ⟨laid, supplied, gridded, lists, stocked, owned⟩ := estate
  exact ⟨laid, supplied, gridded, lists, ⟨(pairwise_cons.mp stocked.apart).2,
    fun h member => stocked.housed h (mem_cons_of_mem _ member), stocked.ready, stocked.free⟩, owned⟩

theorem Estate.drop_buffer {buffer : SpaceId × Span} (estate : s.Estate m rooms (buffer :: buffers) keys) :
    s.Estate m rooms buffers keys := by
  obtain ⟨laid, supplied, gridded, lists, stocked, owned⟩ := estate
  have front : rooms ++ buffer :: buffers ++ lists.flatMap (·.spans) ~
      buffer :: (rooms ++ buffers ++ lists.flatMap (·.spans)) := perm_middle.append_right _
  exact ⟨laid, supplied, gridded, lists, ⟨(pairwise_cons.mp (front.pairwise stocked.apart fun h => h.symm)).2,
    stocked.housed, fun h member => stocked.ready h (mem_cons_of_mem _ member), stocked.free⟩, owned⟩

/-- One list can be picked by its key. -/
theorem pick_list {key : Nat × Address} (owned : lists.map FreeList.key ~ s.stock ++ key :: keys) :
    ∃ l rest, lists ~ l :: rest ∧ l.key = key ∧ rest.map FreeList.key ~ s.stock ++ keys := by
  have member : key ∈ lists.map FreeList.key := owned.mem_iff.mpr (by simp)
  obtain ⟨l, inside, rfl⟩ := mem_map.mp member
  have split := perm_cons_erase inside
  refine ⟨l, lists.erase l, split, rfl, ?_⟩
  have all : l.key :: (lists.erase l).map FreeList.key ~ l.key :: (s.stock ++ keys) :=
    ((split.map FreeList.key).symm.trans owned).trans perm_middle
  exact all.cons_inv

theorem Stocked.of_lists (stocked : s.Stocked m rooms buffers lists) (same : lists' ~ lists) :
    s.Stocked m rooms buffers lists' where
  apart := ((same.flatMap_right _).append_left _).symm.pairwise stocked.apart fun h => h.symm
  housed := stocked.housed
  ready := stocked.ready
  free l member := stocked.free l (same.mem_iff.mp member)

theorem Estate.drop_key {key : Nat × Address} (estate : s.Estate m rooms buffers (key :: keys)) :
    s.Estate m rooms buffers keys := by
  obtain ⟨laid, supplied, gridded, lists, stocked, owned⟩ := estate
  obtain ⟨l, rest, split, -, owned⟩ := pick_list owned
  have stocked := stocked.of_lists split.symm
  refine ⟨laid, supplied, gridded, rest, ⟨?_, stocked.housed, stocked.ready,
    fun l member => stocked.free l (mem_cons_of_mem _ member)⟩, owned⟩
  have apart := stocked.apart
  rw [flatMap_cons] at apart
  exact apart.sublist (.append_left (sublist_append_right ..) _)

/-- A list without cells is always there. -/
theorem Estate.null_key (estate : s.Estate m rooms buffers keys) (sizeClass : Nat) :
    s.Estate m rooms buffers ((sizeClass, .null) :: keys) := by
  obtain ⟨laid, supplied, gridded, lists, stocked, owned⟩ := estate
  refine ⟨laid, supplied, gridded, ⟨sizeClass, .null, []⟩ :: lists, ⟨stocked.apart, stocked.housed, stocked.ready, ?_⟩, ?_⟩
  · intro l member
    rcases mem_cons.mp member with rfl | member
    · exact ⟨rfl, .inl rfl⟩
    · exact stocked.free l member
  · exact (owned.cons _).trans perm_middle.symm

/-! ### Fresh memory -/

/-- Memory that changes only where nothing is held leaves the holdings as they are. -/
theorem Stocked.carry (laid : s.LaidOut) (gridded : s.Gridded) (stocked : s.Stocked m rooms buffers lists)
    (bumpable : ∀ id, s.Bumpable id → s'.Bumpable id) (houses : ∀ id r, s.Houses id r → s'.Houses id r)
    (grid : ∀ l, s.Cuts l → s'.Cuts l)
    (agree : ∀ id r, s.Houses id r → AgreeOn m m' r) : s'.Stocked m' rooms buffers lists where
  apart := stocked.apart
  housed h member := houses _ _ (stocked.housed h member)
  ready h member := by
    obtain ⟨handed, housed, zero⟩ := stocked.ready h member
    exact ⟨bumpable _ handed, houses _ _ housed, zero.of_agree (agree _ _ housed)⟩
  free l member := by
    obtain ⟨chain, cuts⟩ := stocked.free l member
    refine ⟨chain.frame fun cell inside => ?_, grid l cuts⟩
    obtain ⟨x, second, grid⟩ := cuts.cell inside
    have placed := laid.placed .second
    simp only [space, second] at placed
    have housed : s.Houses .second (l.spanOf cell) := by
      simp only [Houses, space, second]
      exact ⟨_, grid⟩
    obtain ⟨⟨low, -, -⟩, known, -⟩ := cell_whole (gridded x second) placed grid
    have positive := (SizeClass.bytesOf_facts known).1
    simp only [FreeList.spanOf] at low
    apply agree _ _ housed
    · simp only [FreeList.spanOf]
      omega
    · simp only [FreeList.spanOf]
      omega

/-- Whatever a request was answered, what is held stays held. -/
theorem Taken.stocked {r : Except Pages.Denial Address} (taken : Taken s s' m m' id bytes r)
    (laid : s.LaidOut) (gridded : s.Gridded) (stocked : s.Stocked m rooms buffers lists) :
    s'.Stocked m' rooms buffers lists :=
  stocked.carry laid gridded (fun _ => (taken.repaged.bumpable _).mpr) (fun _ _ => taken.houses gridded)
    (fun _ => taken.repaged.cuts) fun _ _ housed => (taken.kept (housed.issued gridded)).2

theorem Estate.refused (estate : s.Estate m rooms buffers keys)
    (granted : Granted s s' m m' id bytes none) : s'.Estate m' rooms buffers keys := by
  obtain ⟨laid, supplied, gridded, lists, stocked, owned⟩ := estate
  refine ⟨granted.repaged.laidOut laid, granted.supplied, granted.gridded gridded, lists,
    granted.stocked laid gridded stocked, ?_⟩
  · rw [granted.repaged.stock]
    exact owned

/-- Everything that is held was handed out. -/
theorem Stocked.issued (gridded : s.Gridded) (stocked : s.Stocked m rooms buffers lists) :
    ∀ h ∈ rooms ++ buffers ++ lists.flatMap (·.spans), s.Issued h.1 h.2 := by
  intro h member
  rcases mem_append.mp member with member | member
  · rcases mem_append.mp member with member | member
    · exact (stocked.housed h member).issued gridded
    · exact (stocked.ready h member).2.1.issued gridded
  · obtain ⟨l, inside, member⟩ := mem_flatMap.mp member
    obtain ⟨cell, inside', rfl⟩ := mem_map.mp member
    obtain ⟨x, second, grid⟩ := (stocked.free l inside).2.cell inside'
    simp only [Issued, space, second]
    exact cell_issued (gridded x second) grid

/-- What was granted is held by no one else. -/
theorem Granted.estate {a : Address} (granted : Granted s s' m m' id bytes (some a))
    (estate : s.Estate m rooms buffers keys) :
    s'.Estate m' rooms buffers keys ∧ (∀ h ∈ rooms, AgreeOn m m' h.2) ∧
      ∀ lists, Stocked s m rooms buffers lists →
        ∀ h ∈ rooms ++ buffers ++ lists.flatMap (·.spans), (Span.ofBytes a bytes).Apart h.2 := by
  obtain ⟨laid, supplied, gridded, lists, stocked, owned⟩ := estate
  refine ⟨⟨granted.repaged.laidOut laid, granted.supplied, granted.gridded gridded, lists,
    granted.stocked laid gridded stocked, ?_⟩, ?_, ?_⟩
  · rw [granted.repaged.stock]
    exact owned
  · exact fun h member => (granted.kept ((stocked.housed h member).issued gridded)).2
  · exact fun lists stocked h member =>
      ((granted.served a rfl).apart _ _ (stocked.issued gridded h member)).symm

/-- Fresh memory becomes the buffer of a bump allocator. -/
theorem Estate.add_buffer {a : Address} (estate : s.Estate m rooms buffers keys) (bumpable : s.Bumpable id)
    (granted : Granted s s' m m' id bytes (some a)) (words : bytes.toNat % 8 = 0) :
    s'.Estate m' rooms ((id, .ofBytes a bytes) :: buffers) keys ∧ ∀ h ∈ rooms, AgreeOn m m' h.2 := by
  obtain ⟨lists, stocked, owned⟩ := estate.stocked
  obtain ⟨estate', agree, fresh⟩ := granted.estate estate
  have apart := fresh lists stocked
  obtain ⟨issued, aligned, zero, -, -⟩ := granted.served a rfl
  have whole : (Span.ofBytes a bytes).Whole := by
    simp only [Span.Whole, Span.ofBytes] at aligned ⊢
    omega
  have housed : s'.Houses id (.ofBytes a bytes) := by
    unfold Bumpable at bumpable
    unfold Issued at issued
    unfold Houses
    have bumpable' := (granted.repaged.bumpable id).mpr (by unfold Bumpable; exact bumpable)
    unfold Bumpable at bumpable'
    cases space : s'.space id with
    | copying x =>
      simp only [space] at issued ⊢
      exact ⟨issued, whole⟩
    | immortal x =>
      simp only [space] at issued ⊢
      exact ⟨issued, whole⟩
    | large x => simp only [space] at bumpable'
    | markSweep x => simp only [space] at bumpable'
  have stocked' := granted.stocked estate.laid estate.gridded stocked
  refine ⟨⟨estate'.laid, estate'.supplied, estate'.gridded, lists, ⟨?_, stocked'.housed, ?_, stocked'.free⟩, ?_⟩, agree⟩
  · have front : rooms ++ (id, Span.ofBytes a bytes) :: buffers ++ lists.flatMap (·.spans) ~
        (id, Span.ofBytes a bytes) :: (rooms ++ buffers ++ lists.flatMap (·.spans)) := perm_middle.append_right _
    exact front.symm.pairwise (pairwise_cons.mpr ⟨apart, stocked.apart⟩) fun h => h.symm
  · intro h member
    rcases mem_cons.mp member with rfl | member
    · exact ⟨(granted.repaged.bumpable id).mpr bumpable, housed, zero⟩
    · exact stocked'.ready h member
  · rw [granted.repaged.stock]
    exact owned

/-- A fresh run of pages becomes the room of a large object. -/
theorem Estate.add_large {a : Address} (estate : s.Estate m rooms buffers keys)
    (granted : Granted s s' m m' .large bytes (some a)) (pages : bytes.toNat % 4096 = 0) :
    s'.Estate m' ((.large, .ofBytes a bytes) :: rooms) buffers keys ∧ m'.ZeroOn (.ofBytes a bytes) ∧
      ∀ h ∈ rooms, AgreeOn m m' h.2 := by
  obtain ⟨lists, stocked, owned⟩ := estate.stocked
  obtain ⟨estate', agree, fresh⟩ := granted.estate estate
  have apart := fresh lists stocked
  have zero := (granted.served a rfl).zero
  have housed : s'.Houses .large (.ofBytes a bytes) := by
    obtain ⟨run, live, count, start⟩ := granted.large.2 a rfl rfl
    have extent : s'.large.pages.extent = s.large.pages.extent := granted.repaged.extent .large
    refine ⟨run, by rw [live]; exact mem_cons_self, ?_⟩
    simp only [Span.ofBytes, Pages.Runs.spanOf, Span.mk.injEq, extent] at start ⊢
    omega
  have stocked' := granted.stocked estate.laid estate.gridded stocked
  refine ⟨⟨estate'.laid, estate'.supplied, estate'.gridded, lists,
    ⟨pairwise_cons.mpr ⟨apart, stocked.apart⟩, ?_, stocked'.ready, stocked'.free⟩, ?_⟩, zero, agree⟩
  · intro h member
    rcases mem_cons.mp member with rfl | member
    · exact housed
    · exact stocked'.housed h member
  · rw [granted.repaged.stock]
    exact owned

/-! ### Memory that is handed on -/

/-- A write inside one held span is not noticed in the others. -/
theorem Stocked.write {held : SpaceId × Span} (laid : s.LaidOut)
    (gridded : s.Gridded) (apart : ∀ h ∈ rooms ++ buffers ++ lists.flatMap (·.spans), held.2.Apart h.2)
    (stocked : s.Stocked m rooms buffers lists) (agree : AgreeOff m m' held.2) :
    s.Stocked m' rooms buffers lists where
  apart := stocked.apart
  housed := stocked.housed
  ready h member := by
    obtain ⟨bumpable, housed, zero⟩ := stocked.ready h member
    exact ⟨bumpable, housed, zero.of_agree
      (agree.agreeOn (apart h (mem_append_left _ (mem_append_right _ member))))⟩
  free l member := by
    obtain ⟨chain, cuts⟩ := stocked.free l member
    refine ⟨chain.frame fun cell inside => ?_, cuts⟩
    obtain ⟨x, second, grid⟩ := cuts.cell inside
    have placed := laid.placed .second
    simp only [space, second] at placed
    obtain ⟨⟨low, -, -⟩, known, -⟩ := cell_whole (gridded x second) placed grid
    have positive := (SizeClass.bytesOf_facts known).1
    have away : held.2.Apart (l.spanOf cell) :=
      apart (.second, l.spanOf cell)
        (mem_append_right _ (mem_flatMap.mpr ⟨l, member, mem_map.mpr ⟨cell, inside, rfl⟩⟩))
    apply agree.agreeOn away
    · simp only [FreeList.spanOf] at low ⊢
      omega
    · simp only [FreeList.spanOf] at low ⊢
      omega

/-- Memory that was not handed out is not written to by those who hold the rest. -/
theorem Supplied.write {q : Span} (laid : s.LaidOut) (supplied : s.Supplied m) (issued : s.Issued id q)
    (agree : AgreeOff m m' q) : s.Supplied m' := by
  intro id'
  have sound := supplied id'
  have within := supplied.issued_within issued
  have other : id ≠ id' → q.Apart (s.space id').extent.span := fun differ =>
    (laid.apart id id' differ).mono within (.refl _)
  unfold Issued at issued
  -- The zeros ahead of a cursor are apart from what was handed out, of this space or of another.
  by_cases same : id = id'
  · subst same
    cases space : s.space id with
    | copying x =>
      simp only [space] at sound issued ⊢
      exact sound.frame (agree.agreeOn (.inl issued.2))
    | immortal x =>
      simp only [space] at sound issued ⊢
      exact sound.frame (agree.agreeOn (.inl issued.2))
    | markSweep x =>
      rw [space] at sound
      exact sound
    | large x =>
      rw [space] at sound
      exact sound
  · have away := other same
    cases space : s.space id' with
    | copying x =>
      rw [space] at sound away
      exact sound.frame (agree.agreeOn (away.mono (.refl _) ⟨sound.low, sound.stop⟩))
    | immortal x =>
      rw [space] at sound away
      exact sound.frame (agree.agreeOn (away.mono (.refl _) ⟨sound.low, sound.stop⟩))
    | markSweep x =>
      rw [space] at sound
      exact sound
    | large x =>
      rw [space] at sound
      exact sound

/-- Part of a buffer can be held by itself. -/
theorem Houses.part {r r' : Span} (bumpable : s.Bumpable id) (housed : s.Houses id r) (inner : r'.Within r)
    (whole : r'.Whole) : s.Houses id r' := by
  unfold Bumpable at bumpable
  unfold Houses at *
  cases space : s.space id with
  | copying x =>
    simp only [space] at housed ⊢
    exact ⟨⟨Nat.le_trans housed.1.1 inner.1, Nat.le_trans inner.2 housed.1.2⟩, whole⟩
  | immortal x =>
    simp only [space] at housed ⊢
    exact ⟨⟨Nat.le_trans housed.1.1 inner.1, Nat.le_trans inner.2 housed.1.2⟩, whole⟩
  | markSweep x => simp only [space] at bumpable
  | large x => simp only [space] at bumpable

/-- A buffer is cut: the gap in front may be filled, a room follows, and the rest stays a buffer. -/
theorem Estate.carve {whole start stop : Span} (estate : s.Estate m rooms ((id, whole) :: buffers) keys)
    (room : start.hi = stop.lo) (first : whole.lo ≤ start.lo) (last : stop.hi = whole.hi)
    (words : start.Whole) (words' : stop.lo ≤ stop.hi) (agree : AgreeOff m m' ⟨whole.lo, start.lo⟩) :
    s.Estate m' ((id, start) :: rooms) ((id, stop) :: buffers) keys ∧ m'.ZeroOn start ∧
      ∀ h ∈ rooms, AgreeOn m m' h.2 := by
  obtain ⟨laid, supplied, gridded, lists, stocked, owned⟩ := estate
  have front : rooms ++ (id, whole) :: buffers ++ lists.flatMap (·.spans) ~
      (id, whole) :: (rooms ++ buffers ++ lists.flatMap (·.spans)) := perm_middle.append_right _
  obtain ⟨away, apart⟩ := pairwise_cons.mp (front.pairwise stocked.apart fun h => h.symm)
  obtain ⟨bumpable, housed, zero⟩ := stocked.ready (id, whole) mem_cons_self
  have housed_whole := housed.whole laid gridded
  simp only [Span.Whole] at words housed_whole
  have inner : start.Within whole := ⟨first, by omega⟩
  have inner' : stop.Within whole := ⟨by omega, Nat.le_of_eq last⟩
  have agree' : AgreeOff m m' whole := agree.mono ⟨Nat.le_refl _, by simp only; omega⟩
  have rest : s.Stocked m rooms buffers lists :=
    ⟨apart, stocked.housed, fun h member => stocked.ready h (mem_cons_of_mem _ member), stocked.free⟩
  have rest' := @Stocked.write _ _ _ _ _ _ (id, whole) laid gridded away rest agree'
  have start_housed := housed.part bumpable inner words
  have stop_housed := housed.part bumpable inner' ⟨by omega, by omega, words'⟩
  have zero_on : ∀ r : Span, r.Within whole → start.lo ≤ r.lo → m'.ZeroOn r := fun r within ahead =>
    (zero.mono within).of_agree (agree.agreeOn (.inl ahead))
  have kept : ∀ h ∈ rooms, AgreeOn m m' h.2 := fun h member =>
    agree'.agreeOn (away h (mem_append_left _ (mem_append_left _ member)))
  refine ⟨⟨laid, supplied.write laid (housed.issued gridded) agree', gridded, lists, ⟨?_, ?_, ?_, rest'.free⟩,
    owned⟩, zero_on start inner (Nat.le_refl _), kept⟩
  · have split : (id, start) :: rooms ++ (id, stop) :: buffers ++ lists.flatMap (·.spans) ~
        (id, start) :: (id, stop) :: (rooms ++ buffers ++ lists.flatMap (·.spans)) :=
      (perm_middle.append_right _).cons _
    refine split.symm.pairwise (pairwise_cons.mpr ⟨?_, pairwise_cons.mpr ⟨?_, apart⟩⟩) fun h => h.symm
    · intro h member
      rcases mem_cons.mp member with rfl | member
      · exact .inl (Nat.le_of_eq room)
      · exact (away h member).mono inner (.refl _)
    · exact fun h member => (away h member).mono inner' (.refl _)
  · intro h member
    rcases mem_cons.mp member with rfl | member
    · exact start_housed
    · exact rest'.housed h member
  · intro h member
    rcases mem_cons.mp member with rfl | member
    · exact ⟨bumpable, stop_housed, zero_on stop inner' (by omega)⟩
    · exact rest'.ready h member

/-- The first cell of a free list becomes a room, and the rest of the list stays. -/
theorem Estate.pop {sizeClass : Nat} {head : Address}
    (estate : s.Estate m rooms buffers ((sizeClass, head) :: keys)) (found : head ≠ .null)
    (agree : AgreeOff m m' ⟨head.toNat, head.toNat + SizeClass.bytesOf sizeClass⟩) :
    s.Estate m' ((.second, ⟨head.toNat, head.toNat + SizeClass.bytesOf sizeClass⟩) :: rooms) buffers
        ((sizeClass, ⟨m.word (head.toNat / 8)⟩) :: keys) ∧ ∀ h ∈ rooms, AgreeOn m m' h.2 := by
  obtain ⟨laid, supplied, gridded, lists, stocked, owned⟩ := estate
  obtain ⟨l, rest, split, key, remaining⟩ := pick_list owned
  have stocked := stocked.of_lists split.symm
  obtain ⟨chain, cuts⟩ := stocked.free l mem_cons_self
  obtain ⟨class', head', list⟩ := l
  simp only [FreeList.key, Prod.mk.injEq] at key chain
  obtain ⟨rfl, rfl⟩ := key
  cases list with
  | nil => exact absurd chain found
  | cons cell list =>
    obtain ⟨rfl, -, chain⟩ := chain
    have front : rooms ++ buffers ++ (FreeList.mk class' head' (head' :: list) :: rest).flatMap (·.spans) ~
        (.second, ⟨head'.toNat, head'.toNat + SizeClass.bytesOf class'⟩) ::
          (rooms ++ buffers ++ (FreeList.mk class' ⟨m.word (head'.toNat / 8)⟩ list :: rest).flatMap (·.spans)) :=
      perm_middle
    obtain ⟨away, apart⟩ := pairwise_cons.mp (front.pairwise stocked.apart fun h => h.symm)
    obtain ⟨x, second, grid⟩ := cuts.cell (mem_cons_self : head' ∈ head' :: list)
    have housed : s.Houses .second ⟨head'.toNat, head'.toNat + SizeClass.bytesOf class'⟩ := by
      simp only [Houses, space, second]
      exact ⟨_, grid⟩
    have tail : s.Stocked m rooms buffers (⟨class', ⟨m.word (head'.toNat / 8)⟩, list⟩ :: rest) := by
      refine ⟨apart, stocked.housed, stocked.ready, fun l member => ?_⟩
      rcases mem_cons.mp member with rfl | member
      · exact ⟨chain, cuts.fewer (subset_cons_self _ _)⟩
      · exact stocked.free l (mem_cons_of_mem _ member)
    have tail' := @Stocked.write _ _ _ _ _ _ (.second, _) laid gridded away tail agree
    refine ⟨⟨laid, supplied.write laid (housed.issued gridded) agree, gridded, _,
      ⟨pairwise_cons.mpr ⟨away, apart⟩, ?_, tail'.ready, tail'.free⟩, ?_⟩, ?_⟩
    · intro h member
      rcases mem_cons.mp member with rfl | member
      · exact housed
      · exact tail'.housed h member
    · exact (remaining.cons _).trans perm_middle.symm
    · exact fun h member => agree.agreeOn (away h (mem_append_left _ (mem_append_left _ member)))

/-- What is written in a room is not noticed by anyone else. -/
theorem Estate.write {room : SpaceId × Span} (estate : s.Estate m (room :: rooms) buffers keys)
    (agree : AgreeOff m m' room.2) :
    s.Estate m' (room :: rooms) buffers keys ∧ ∀ h ∈ rooms, AgreeOn m m' h.2 := by
  obtain ⟨laid, supplied, gridded, lists, stocked, owned⟩ := estate
  obtain ⟨away, apart⟩ := pairwise_cons.mp stocked.apart
  have housed := stocked.housed room mem_cons_self
  have rest : s.Stocked m rooms buffers lists :=
    ⟨apart, fun h member => stocked.housed h (mem_cons_of_mem _ member), stocked.ready, stocked.free⟩
  have rest' := @Stocked.write _ _ _ _ _ _ room laid gridded away rest agree
  exact ⟨⟨laid, supplied.write laid (housed.issued gridded) agree, gridded, lists,
    ⟨stocked.apart, stocked.housed, rest'.ready, rest'.free⟩, owned⟩,
    fun h member => agree.agreeOn (away h (mem_append_left _ (mem_append_left _ member)))⟩

end TracingHeap.Spaces
