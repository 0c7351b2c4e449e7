import TracingHeap.Proofs.Writes

/-! Where objects come from. The program lays an object out in memory that it was given, with every field null, and the
space that the memory is in takes it over: the object gets its collector's byte, and counts as one that was allocated
since the last collection. -/

namespace TracingHeap

open List Memory

/-! ### Laying an object out -/

theorem Object.bytesFor_ok {slots least : Word} (ok : bytesFor slots = .ok least) :
    16 ≤ least.toNat ∧ 8 + 8 * slots.toNat ≤ least.toNat := by
  obtain ⟨slotBytes, product, ok⟩ := except_bind_ok.mp ok
  obtain ⟨sum, added, same⟩ := except_bind_ok.mp ok
  obtain rfl := except_pure_ok.mp same
  have total := Word.toNat_sum added
  rw [Word.toNat_product product] at total
  change _ = 8 + slots.toNat * 8 at total
  change 16 ≤ (if sum ≤ 16 then (16 : Word) else sum).toNat ∧ _ ≤ (if sum ≤ 16 then (16 : Word) else sum).toNat
  split
  · rename_i few
    have := UInt64.le_iff_toNat_le.mp few
    change sum.toNat ≤ 16 at this
    change 16 ≤ 16 ∧ _ ≤ 16
    omega
  · rename_i many
    have := mt UInt64.le_iff_toNat_le.mpr many
    change ¬ sum.toNat ≤ 16 at this
    omega

namespace Memory

variable {m : Memory} {o : Address} {count : Nat}

/-- The fields are null afterwards, and nothing else was written. -/
theorem word_clearSlots (fits : o.toNat + 8 + 8 * count < 2 ^ 63) (aligned : o.toNat % 8 = 0) (i : Nat) :
    (Heap.clearSlots m o count).word i = if o.toNat / 8 + 1 ≤ i ∧ i < o.toNat / 8 + 1 + count then 0 else m.word i := by
  induction count generalizing m with
  | zero =>
    rw [Heap.clearSlots, if_neg (by omega)]
  | succ count ih =>
    have place : (Object.slotAt o (UInt64.ofNat count)).toNat = o.toNat + 8 + 8 * count := toNat_slotAt_of_fits (by omega)
    rw [Heap.clearSlots, ih (by omega), word_store, place]
    by_cases here : i = o.toNat / 8 + 1 + count
    · rw [if_neg (by omega), if_pos (by omega), if_pos (by omega)]
    · rw [if_neg (c := (o.toNat + 8 + 8 * count) / 8 = i) (by omega)]
      congr 1
      exact propext ⟨fun ⟨low, high⟩ => ⟨low, by omega⟩, fun ⟨low, high⟩ => ⟨low, by omega⟩⟩

end Memory

/-- The piece, with an object in it. -/
def Piece.made (p : Piece) : Piece := { p with isObject := true }

theorem Piece.Placed.made {p : Piece} (placed : p.Placed) : p.made.Placed :=
  ⟨placed.aligned, placed.low, placed.near, placed.high, placed.room⟩

/-- The memory of an object that was laid out: the header says what the object was made with, and all fields are null. -/
structure Piece.LaidOut (p : Piece) (m m' : Memory) (bytes slots : Word) : Prop where
  agree : AgreeOff m m' p.span
  shape : m'.shape p.start = (bytes.toUInt32, slots.toUInt16)
  field : ∀ i < m'.fields p.start, m'.field p.start i = .null
  fits : 16 ≤ p.bytes ∧ 8 + 8 * m'.fields p.start ≤ p.bytes

/-- The collector's byte can be replaced. -/
theorem Piece.LaidOut.setMark {p : Piece} {m m' : Memory} {bytes slots : Word} (laidOut : p.LaidOut m m' bytes slots)
    (placed : p.Placed) (bound : p.span.hi < 2 ^ 63) (mark : Object.Mark) : p.LaidOut m (m'.setMark p.start mark) bytes slots := by
  have low := placed.low
  have room := placed.room
  obtain ⟨alike, field⟩ : Alike m' (m'.setMark p.start mark) p.start p.start p.bytes ∧ _ :=
    alike_setMark mark placed.aligned (by omega)
  refine ⟨laidOut.agree.trans ((setMark_agree m' mark (by omega) placed.aligned).mono ⟨low, by dsimp only; omega⟩),
    alike.shape.trans laidOut.shape, fun i inside => ?_, ?_⟩
  · rw [field]
    exact laidOut.field i (alike.fields ▸ inside)
  · rw [alike.fields]
    exact laidOut.fits

theorem Heap.shaped_ok {h : Heap} {p : Piece} {bytes slots least : Word} (placed : p.Placed) (bound : p.span.hi < 2 ^ 63)
    (size : bytes.toNat = p.bytes) (needs : Object.bytesFor slots = .ok least) (fits : least ≤ bytes) :
    p.LaidOut h.memory (h.shaped p.start bytes slots).memory bytes slots := by
  obtain ⟨least_, slots_⟩ := Object.bytesFor_ok needs
  have fits := UInt64.le_iff_toNat_le.mp fits
  have aligned := placed.aligned
  have low := placed.low
  have high := placed.high
  have cleared : ∀ i, (clearSlots (h.memory.setHeader p.start bytes slots) p.start slots.toNat).word i = _ :=
    word_clearSlots (by omega) aligned
  have shape : (h.shaped p.start bytes slots).memory.shape p.start = (bytes.toUInt32, slots.toUInt16) := by
    rw [← shape_setHeader h.memory bytes slots aligned, shape_eq _ _ aligned, shape_eq _ _ aligned]
    rw [shaped, cleared, if_neg (by omega)]
  have few : (h.shaped p.start bytes slots).memory.fields p.start ≤ slots.toNat := by
    rw [fields, shape]
    change slots.toUInt16.toNat ≤ _
    rw [UInt64.toNat_toUInt16]
    exact Nat.mod_le _ _
  refine ⟨fun i off => ?_, shape, fun i inside => ?_, by omega, by omega⟩
  · change (clearSlots _ _ _).word i = _
    rw [cleared, if_neg (by omega), setHeader_agree h.memory bytes slots aligned i (by dsimp only; omega)]
  · change Address.mk ((clearSlots _ _ _).word _) = _
    rw [cleared, if_pos (by omega)]
    rfl

/-! ### Taking an object over -/

/-- The spaces after a new object was taken over. -/
def Spaces.adopted (s : Spaces) (object : Address) : SpaceId → Spaces
  | .immortal => { s with immortal := { s.immortal with marks := s.immortal.marks.put object s.immortal.current.toUInt64 } }
  | .large => { s with large := { s.large with
      marks := s.large.marks.put object (s.large.current ||| LargeSpace.youngBit).toUInt64
      treadmill := s.large.treadmill.add object true } }
  | _ => s

theorem Heap.adoptNew_ok {h h' : Heap} {id : SpaceId} {object : Address} {u : Unit} (ok : adoptNew id object h = .ok u h') :
    h' = { h with
      spaces := h.spaces.adopted object id
      memory := h.memory.setMark object (h.spaces.space id).freshMark } := by
  rw [adoptNew, Step.get_bind] at ok
  cases space : h.spaces.space id with
  | copying x =>
    simp only [space, onCopying_ok, Step.modify_ok, Prod.mk.injEq] at ok
    obtain ⟨y, _, _, same, ⟨rfl, rfl⟩, rfl⟩ := ok
    cases same
    rw [Spaces.setCopying_self space]
    cases id with
    | first => rfl
    | second => rfl
    | immortal => cases space
    | large => cases space
  | markSweep x =>
    obtain ⟨rfl, second⟩ := Spaces.second_of_markSweep space
    simp only [space, onMature_ok, Step.modify_ok, Prod.mk.injEq] at ok
    obtain ⟨y, _, _, same, ⟨rfl, rfl⟩, rfl⟩ := ok
    cases second.symm.trans same
    rw [← second]
    rfl
  | immortal x =>
    obtain rfl := Spaces.home_of_immortal space
    simp only [space, onImmortal_ok] at ok
    obtain ⟨y, m, took, rfl⟩ := ok
    obtain ⟨rfl, rfl⟩ := ImmortalSpace.adopt_ok took
    cases space
    rfl
  | large x =>
    obtain ⟨rfl, rfl⟩ := Spaces.home_of_large space
    simp only [space, onLarge_ok] at ok
    obtain ⟨y, m, took, rfl⟩ := ok
    obtain ⟨rfl, rfl⟩ := LargeSpace.adopt_ok took
    rfl

theorem Heap.adoptAllocated_ok {h h' : Heap} {i : Nat} {object : Address} {u : Unit}
    (ok : adoptAllocated i object h = .ok u h') :
    ∃ id, (h.spaces.space id).extent.holds object = true ∧ adoptNew id object h = .ok u h' := by
  simp only [adoptAllocated, Step.get_bind] at ok
  cases found : ((mutatorPart i).get h).allocators.spaces.find? fun id => (h.spaces.space id).extent.holds object with
  | some id =>
    rw [found] at ok
    exact ⟨id, find?_some (p := fun id => (h.spaces.space id).extent.holds object) found, ok⟩
  | none =>
    rw [found] at ok
    cases ok

namespace Spaces

variable {s : Spaces} {m : Memory} {pieces : List Piece} {buffers : List (SpaceId × Span)} {keys : List (Nat × Address)}
  {p : Piece}

theorem Held.adopted (held : s.Held m pieces buffers keys) (object : Address) (id : SpaceId) :
    (s.adopted object id).Held m pieces buffers keys := by
  cases id with
  | first => exact held
  | second => exact held
  | immortal => exact held.alike fun id => Spaces.immortal_alike (s := s) (y := (s.adopted object .immortal).immortal) rfl id
  | large => exact held.alike fun id => large_alike (s := s) (y := (s.adopted object .large).large) rfl id

/-- A copying space does not note that there is a new object. -/
theorem adopted_copying (object : Address) (id : SpaceId) {half : SpaceId} (copying : half = .first ∨ half = .second) :
    (s.adopted object id).space half = s.space half := by
  rcases copying with rfl | rfl <;> cases id <;> rfl

/-- Only the immortal space and that of large objects note that there is a new object. -/
theorem Tracked.adopted_retains (tracked : s.Tracked pieces) (object : Address) (id : SpaceId) :
    s.Retains (s.adopted object id) := by
  cases id with
  | first => exact .refl s
  | second => exact .refl s
  | immortal =>
    refine ⟨rfl, fun id => ?_, fun id => ?_, fun id y space => ?_, fun id => ?_, fun a mark => ?_, rfl, rfl, rfl, rfl⟩
    · cases id <;> rfl
    · cases id <;> rfl
    · cases id with
      | first => exact ⟨y, space, rfl⟩
      | second => exact ⟨y, space, rfl⟩
      | immortal => cases space
      | large => cases space
    · cases id <;> rfl
    · refine (SideTable.entryByte_put tracked.immortal.table.wide _ _ _).trans ?_
      split
      · rfl
      · exact mark
  | large =>
    refine ⟨rfl, fun id => ?_, fun id => ?_, fun id y space => ?_, fun id => ?_, fun a mark => mark, rfl, rfl, rfl, rfl⟩
    · cases id <;> rfl
    · cases id <;> rfl
    · cases id with
      | first => exact ⟨y, space, rfl⟩
      | second => exact ⟨y, space, rfl⟩
      | immortal => cases space
      | large => cases space
    · cases id <;> rfl

/-- What is an object already is another piece. -/
theorem mem_made {q : Piece} (raw : p.isObject = false) (member : q ∈ pieces) (object : q.isObject = true) :
    q ∈ p.made :: pieces.erase p :=
  mem_cons_of_mem _ ((mem_erase_of_ne fun same => by rw [same, raw] at object; cases object).mpr member)

theorem Tracked.adopted (tracked : s.Tracked pieces) (held : s.Held m pieces buffers keys) (member : p ∈ pieces)
    (raw : p.isObject = false) : (s.adopted p.start p.home).Tracked (p.made :: pieces.erase p) := by
  have retains := tracked.adopted_retains p.start p.home
  have copying : ∀ id x, s.space id = .copying x → x.Tracked id (p.made :: pieces.erase p) := by
    intro id x space
    have old := tracked.copying id x space
    refine ⟨old.states, old.copies, fun a low high => (old.entries a low high).imp_right ?_, old.blank⟩
    rintro ⟨evacuating, state, q, inside, home, object, index⟩
    exact ⟨evacuating, state, q, mem_made raw inside object, home, object, index⟩
  have owned : ∀ x, s.second = .mature x → x.region.prepared = true → x.Owned (p.made :: pieces.erase p) := by
    intro x second prepared a low high marked
    obtain ⟨q, inside, home, object, cell⟩ := tracked.owned x second prepared a low high marked
    exact ⟨q, mem_made raw inside object, home, object, cell⟩
  -- A large object that was there before is on the list that it was on.
  have old := tracked.large
  have listed : ∀ o, (∃ q ∈ pieces, q.home = .large ∧ q.isObject = true ∧ q.start = o) →
      ∃ q ∈ p.made :: pieces.erase p, q.home = .large ∧ q.isObject = true ∧ q.start = o :=
    fun o ⟨q, inside, home, object, start⟩ => ⟨q, mem_made raw inside object, home, object, start⟩
  have unlisted : p.home ≠ .large → s.large.Tracked (p.made :: pieces.erase p) := fun other =>
    ⟨old.table, old.current, old.fresh, old.survivors, old.young, old.old, fun o on => listed o (old.listed o on),
      fun q inside home object => by
        rcases mem_cons.mp inside with rfl | inside
        · exact absurd home other
        · exact old.complete q (mem_of_mem_erase inside) home object⟩
  cases home : p.home with
  | first => exact ⟨copying, tracked.mature, owned, tracked.immortal, unlisted (by rw [home]; nofun)⟩
  | second => exact ⟨copying, tracked.mature, owned, tracked.immortal, unlisted (by rw [home]; nofun)⟩
  | immortal =>
    refine ⟨fun id x space => ?_, tracked.mature, owned, ⟨tracked.immortal.table.put _ _, tracked.immortal.current⟩,
      unlisted (by rw [home]; nofun)⟩
    cases id with
    | first => exact copying .first x space
    | second => exact copying .second x space
    | immortal => cases space
    | large => cases space
  | large =>
    have other : ∀ o, (∃ q ∈ pieces, q.home = .large ∧ q.isObject = true ∧ q.start = o) → o ≠ p.start ∧
        (s.large.marks.put p.start (s.large.current ||| LargeSpace.youngBit).toUInt64).entryByte o = s.large.marks.entryByte o := by
      rintro o ⟨q, inside, there, object, rfl⟩
      have differ : q.start ≠ p.start := fun same => by
        rw [held.start_inj inside member same, raw] at object
        cases object
      refine ⟨differ, ?_⟩
      rw [SideTable.entryByte_put old.table.wide, if_neg (held.large_index_ne old.table member inside home there differ.symm)]
    have fresh : ∀ o, o ∈ (s.large.treadmill.add p.start true).fresh ↔ o = p.start ∨ o ∈ s.large.treadmill.fresh :=
      fun o => mem_insert_address
    refine ⟨fun id x space => ?_, tracked.mature, owned, tracked.immortal, old.table.put _ _, old.current, fun o on => ?_, fun o on => ?_,
      fun o on => ?_, fun o on => ?_, fun o on => ?_, fun q inside there object => ?_⟩
    · cases id with
      | first => exact copying .first x space
      | second => exact copying .second x space
      | immortal => cases space
      | large => cases space
    · rcases (fresh o).mp on with rfl | on
      · exact (SideTable.entryByte_put old.table.wide _ _ _).trans (if_pos rfl)
      · exact (other o (old.listed o (.inl on))).2.trans (old.fresh o on)
    · exact (other o (old.listed o (.inr (.inl on)))).2.trans (old.survivors o on)
    · exact (other o (old.listed o (.inr (.inr (.inl on))))).2.trans (old.young o on)
    · obtain ⟨full, mark⟩ := old.old o on
      exact ⟨full, (other o (old.listed o (.inr (.inr (.inr on))))).2.trans mark⟩
    · by_cases same : o = p.start
      · exact ⟨_, mem_cons_self, home, rfl, same.symm⟩
      · exact listed o (old.listed o (on.imp_left fun on => ((fresh o).mp on).resolve_left same))
    · rcases mem_cons.mp inside with rfl | inside
      · exact .inl ((fresh _).mpr (.inl rfl))
      · exact (old.complete q (mem_of_mem_erase inside) there object).imp_left fun on => (fresh _).mpr (.inr on)

theorem occupied_adopted {object : Address} {id : SpaceId} {rooms : List (SpaceId × Span)} :
    (s.adopted object id).Occupied rooms ↔ s.Occupied rooms := by
  cases id <;> exact .rfl

/-- Large objects that were made since the last collection are listed as such. -/
theorem mem_adopted_fresh {object a : Address} {id : SpaceId} : a ∈ (s.adopted object id).large.treadmill.fresh ↔
    id = .large ∧ a = object ∨ a ∈ s.large.treadmill.fresh := by
  cases id with
  | first => simp [Spaces.adopted]
  | second => simp [Spaces.adopted]
  | immortal => simp [Spaces.adopted]
  | large => exact mem_insert_address.trans (or_congr_left (and_iff_right rfl).symm)

end Spaces

/-! ### What the program knows then -/

section

variable {h : Heap} {pieces objects : List Piece} {p : Piece}

/-- An object with null fields is one more that the program knows. -/
theorem Knows.add (knows : Knows h pieces objects) (member : p ∈ pieces) (object : p.isObject = true) (proper : p.start ≠ .null)
    (fits : 16 ≤ p.bytes ∧ 8 + 8 * h.memory.fields p.start ≤ p.bytes)
    (movable : ∀ x, h.spaces.space p.home = .copying x → (h.memory.header p.start).size.toNat = p.bytes ∧ p.bytes ≤ 8192)
    (field : ∀ i < h.memory.fields p.start, h.memory.field p.start i = .null)
    (marked : p.home = .immortal → h.spaces.immortal.marks.entryByte p.start = h.spaces.immortal.current) :
    Knows h pieces (p :: objects) where
  known := forall_mem_cons.mpr ⟨⟨member, object, proper⟩, knows.known⟩
  shaped := forall_mem_cons.mpr ⟨fits, knows.shaped⟩
  movable := forall_mem_cons.mpr ⟨movable, knows.movable⟩
  fields := forall_mem_cons.mpr ⟨fun i inside => .inl (field i inside), fun o known i inside =>
    (knows.fields o known i inside).imp_right fun ⟨q, there, holds⟩ => ⟨q, mem_cons_of_mem _ there, holds⟩⟩
  roots a root := (knows.roots a root).imp_right fun ⟨q, there, same⟩ => ⟨q, mem_cons_of_mem _ there, same⟩
  immortal := forall_mem_cons.mpr ⟨marked, knows.immortal⟩
  recorded a noted := by
    obtain ⟨q, there, same⟩ := knows.recorded a noted
    exact ⟨q, mem_cons_of_mem _ there, same⟩
  old generational := forall_mem_cons.mpr ⟨fun _ => .inr fun i inside => .inl (field i inside), fun o known old =>
    (knows.old generational o known old).imp_right fun targets i inside => (targets i inside).imp_right
      fun ⟨q, there, holds, aged⟩ => ⟨q, mem_cons_of_mem _ there, holds, aged⟩⟩

end

namespace World.Sound

variable {w : World} {pieces objects : List Piece} {p : Piece} {m' : Memory} {bytes slots : Word}

/-- An object that was laid out and taken over. -/
theorem taken (sound : w.Sound pieces objects) (member : p ∈ pieces) (raw : p.isObject = false) (proper : p.start ≠ .null)
    (size : bytes.toNat = p.bytes) (laidOut : p.LaidOut w.heap.memory m' bytes slots)
    (stamped : m'.mark p.start = (w.heap.spaces.space p.home).freshMark) :
    World.Sound ⟨{ w.heap with spaces := w.heap.spaces.adopted p.start p.home, memory := m' },
      insert p.made.tenant (w.tenants \ {p.tenant}), insert p.start w.named, insert p.start w.recent⟩ (p.made :: pieces.erase p) (p.made :: objects) := by
  have quiet := sound.quiet
  have retains := quiet.tracked.adopted_retains p.start p.home
  have plan : (w.heap.spaces.adopted p.start p.home).plan = w.heap.spaces.plan := retains.plan
  obtain ⟨held, others⟩ := quiet.held.write member laidOut.agree
  have split : pieces ~ p :: pieces.erase p := perm_cons_erase member
  have away : ∀ q, q ∈ pieces.erase p ↔ q ∈ pieces ∧ q ≠ p := fun q =>
    ⟨fun inside => ⟨mem_of_mem_erase inside, (quiet.held.of_perm split.symm (.refl _) (.refl _)).fresh inside⟩,
      fun ⟨inside, differ⟩ => (mem_erase_of_ne differ).mpr inside⟩
  have other : ∀ q ∈ pieces, q.isObject = true → q ≠ p := fun q _ object same => by
    rw [same, raw] at object
    cases object
  have unknown : ∀ o ∈ objects, o ≠ p := fun o known => other o (sound.knows.known o known).1 (sound.knows.known o known).2.1
  have read : ∀ o ∈ objects, m'.shape o.start = w.heap.memory.shape o.start ∧
      ∀ i < w.heap.memory.fields o.start, m'.field o.start i = w.heap.memory.field o.start i := fun o known =>
    sound.knows.read quiet.held known (others o (sound.knows.known o known).1 (unknown o known))
  have unrecorded : p.start ∉ w.heap.recorded := fun noted => by
    obtain ⟨o, known, same, -⟩ := sound.knows.recorded _ noted
    exact unknown o known (quiet.held.start_inj member (sound.knows.known o known).1 same).symm
  refine sound.continued ⟨retains, rfl, rfl, rfl, rfl⟩ ?_ ?_ ⟨?_, sound.logged.single⟩ ?_ ?_ ?_ ?_ ?_
  · refine quiet.carry retains rfl ?_ (quiet.tracked.adopted quiet.held member raw)
      (fun m inside => (quiet.mutators m inside).imp_left fun formed => formed.of_plan plan) quiet.collectors
      (fun semispace => forall_mem_cons.mpr
        ⟨quiet.half semispace p member, fun q inside => quiet.half semispace q (mem_of_mem_erase inside)⟩)
      fun _ => Spaces.adopted_copying p.start p.home w.heap.other_half
    have held := held.adopted p.start p.home
    exact ⟨held.estate.of_perm (split.symm.map Piece.held) (.refl _) (.refl _), forall_mem_cons.mpr
      ⟨(held.placed p member).made, fun q inside => held.placed q (mem_of_mem_erase inside)⟩⟩
  · refine Knows.add (sound.knows.carry retains (fun o known => ?_) (fun o known => (read o known).1)
      (fun o known => (read o known).2) rfl fun _ => .rfl) mem_cons_self rfl proper laidOut.fits (fun x space => ?_)
      laidOut.field fun home => ?_
    · exact Spaces.mem_made raw (sound.knows.known o known).1 (sound.knows.known o known).2.1
    · obtain ⟨y, before, -⟩ := retains.copying _ x space
      have small := sound.modest p member y before
      refine ⟨?_, small⟩
      change (m'.shape p.start).1.toNat = _
      rw [laidOut.shape, UInt64.toNat_toUInt32, size, Nat.mod_eq_of_lt (by omega), Piece.made]
    · change p.home = _ at home
      rw [home]
      exact (SideTable.entryByte_put quiet.tracked.immortal.table.wide _ _ _).trans (if_pos rfl)
  · refine forall_mem_cons.mpr ⟨fun _ => ⟨_, stamped.trans (quiet.stamping p.home), ?_⟩, fun q inside object => ?_⟩
    · change w.heap.plan.watches p.home = true ↔ Plan.watches (w.heap.spaces.adopted p.start p.home).plan p.home = true ∧ _
      rw [plan]
      exact (and_iff_left unrecorded).symm
    · obtain ⟨there, differ⟩ := (away q).mp inside
      obtain ⟨unlogged, same, iff⟩ := sound.logged.stamped q there object
      refine ⟨unlogged, (quiet.held.read_agree there (others q there differ)).2.1.trans same, ?_⟩
      change _ ↔ Plan.watches (w.heap.spaces.adopted p.start p.home).plan q.home = true ∧ _
      rw [plan]
      exact iff
  · exact forall_mem_cons.mpr ⟨sound.modest p member, fun q inside => sound.modest q (mem_of_mem_erase inside)⟩
  · intro t
    rw [Set.mem_insert_iff, Set.mem_sdiff, sound.tenants t, exists_mem_cons_iff, Set.mem_singleton_iff]
    refine or_congr eq_comm ⟨fun ⟨⟨q, inside, same⟩, differ⟩ => ⟨q, (away q).mpr ⟨inside, fun equal => differ ?_⟩, same⟩,
      fun ⟨q, inside, same⟩ => ⟨⟨q, mem_of_mem_erase inside, same⟩, fun equal => ((away q).mp inside).2 ?_⟩⟩
    · rw [← same, equal]
    · exact quiet.held.start_inj (mem_of_mem_erase inside) member (congrArg Tenant.start (same.trans equal))
  · intro a
    rw [Set.mem_insert_iff, sound.named a, exists_mem_cons_iff]
    exact or_congr eq_comm .rfl
  · change ∀ q ∈ p.made :: pieces.erase p, _ → _ → (q.start ∈ (w.heap.spaces.adopted p.start p.home).large.treadmill.fresh ↔ _)
    refine forall_mem_cons.mpr ⟨fun _ home => ?_, fun q inside object home => ?_⟩
    · exact iff_of_true (Spaces.mem_adopted_fresh.mpr (.inl ⟨home, rfl⟩)) (Set.mem_insert _ _)
    · obtain ⟨there, differ⟩ := (away q).mp inside
      have elsewhere : q.start ≠ p.start := fun same => differ (quiet.held.start_inj there member same)
      rw [Spaces.mem_adopted_fresh, Set.mem_insert_iff, or_iff_right fun bad => elsewhere bad.2, or_iff_right elsewhere]
      exact sound.recent q there object home
  · have occupied : (w.heap.spaces.adopted p.start p.home).Occupied (pieces.map Piece.held) :=
      Spaces.occupied_adopted.mpr sound.occupied
    exact occupied.mono (split.map Piece.held).subset

/-- The program made an object. -/
theorem made {h' : Heap} {i : Nat} {t : Tenant} {least : Word} (sound : w.Sound pieces objects) (member : t ∈ w.tenants)
    (raw : t.isObject = false) (proper : t.start ≠ .null) (size : bytes.toNat = t.bytes)
    (needs : Object.bytesFor slots = .ok least) (fits : least ≤ bytes)
    (ok : Heap.adoptAllocated i t.start (w.heap.shaped t.start bytes slots) = .ok () h') :
    ∃ p ∈ pieces, p.tenant = t ∧ h'.spaces = w.heap.spaces.adopted p.start p.home ∧ h'.scope = w.heap.scope ∧
      World.Sound ⟨h', insert { t with isObject := true } (w.tenants \ {t}), insert t.start w.named, insert t.start w.recent⟩
        (p.made :: pieces.erase p) (p.made :: objects) := by
  obtain ⟨p, there, rfl⟩ := (sound.tenants t).mp member
  have held := sound.quiet.held
  have placed := held.placed p there
  have bound := held.bound there
  obtain ⟨id, holds, took⟩ := Heap.adoptAllocated_ok ok
  obtain rfl : id = p.home := held.estate.laid.unique holds (held.inside there).1 (held.inside there).2
  obtain rfl := Heap.adoptNew_ok took
  have laidOut := Heap.shaped_ok (h := w.heap) placed bound size needs fits
  exact ⟨p, there, rfl, rfl, rfl, sound.taken there raw proper size (laidOut.setMark placed bound _) (mark_setMark _ _ (by
    have : p.start.toNat + 16 ≤ p.span.hi := placed.room
    change p.start.toNat + 8 ≤ _
    omega))⟩

end World.Sound

end TracingHeap
