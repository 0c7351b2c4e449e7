import TracingHeap.Proofs.Threads

/-! What a program writes. Payloads and memory that is no object yet are its own affair. A reference is stored through
the barrier, and afterwards the object is either recorded, or refers to nothing young that it did not refer to before. -/

namespace TracingHeap

open List Memory

variable {m m' : Memory} {p : Piece}

/-! ### Payloads -/

namespace Tenant.Exposes

/-- What the program may write to lies in the room of the piece. -/
theorem inside {n : Nat} (exposes : p.tenant.Exposes m n) : p.start.toNat ≤ n ∧ n < p.start.toNat + p.bytes := by
  obtain ⟨low, high⟩ := exposes
  refine ⟨?_, high⟩
  split at low
  · simp only [Piece.tenant] at low
    omega
  · exact low

theorem beyond {n : Nat} (exposes : p.tenant.Exposes m n) (object : p.isObject = true) :
    p.start.toNat + 8 + 8 * m.fields p.start ≤ n := by
  have low := exposes.1
  rwa [Piece.tenant, if_pos object] at low

end Tenant.Exposes

section Filled

variable (exposed : ∀ n, m'.byte n ≠ m.byte n → p.tenant.Exposes m n)

include exposed

theorem agreeOff_of_exposed (placed : p.Placed) (whole : p.span.Whole) : AgreeOff m m' p.span := by
  intro i outside
  refine word_of_bytes fun k small => ?_
  by_contra differ
  obtain ⟨low, high⟩ := (exposed _ differ).inside
  have bottom := placed.low
  have top := placed.high
  obtain ⟨even, even', -⟩ := whole
  exact outside ⟨by omega, by omega⟩

/-- Header and fields stay as they are. -/
theorem reads_of_exposed (placed : p.Placed) (fits : p.start.toNat < 2 ^ 63) (object : p.isObject = true) :
    m'.shape p.start = m.shape p.start ∧ m'.mark p.start = m.mark p.start ∧
      ∀ i < m.fields p.start, m'.field p.start i = m.field p.start i := by
  have aligned := placed.aligned
  have same : ∀ n, n < p.start.toNat + 8 + 8 * m.fields p.start → m'.byte n = m.byte n := by
    intro n below
    by_contra differ
    have := (exposed n differ).beyond object
    omega
  refine ⟨shape_of_bytes aligned aligned fun k _ => same _ (by omega), ?_, fun i inside => ?_⟩
  · rw [mark_eq _ (by omega), mark_eq _ (by omega), same _ (by omega)]
  · exact congrArg Address.mk (word_of_bytes fun k _ => same _ (by omega))

end Filled

namespace World.Sound

variable {w : World} {pieces objects : List Piece}

/-- Memory was written to in one piece only. -/
theorem written (sound : w.Sound pieces objects) (member : p ∈ pieces) (agree : AgreeOff w.heap.memory m' p.span) :
    Quiet { w.heap with memory := m' } w.heap.team pieces ∧ ∀ q ∈ pieces, q ≠ p → AgreeOn w.heap.memory m' q.span := by
  obtain ⟨held, others⟩ := sound.quiet.held.write member agree
  exact ⟨sound.quiet.carry (.refl _) rfl held sound.quiet.tracked sound.quiet.mutators sound.quiet.collectors sound.quiet.half fun _ => rfl,
    others⟩

theorem filled {t : Tenant} (sound : w.Sound pieces objects) (member : t ∈ w.tenants)
    (exposed : ∀ n, m'.byte n ≠ w.heap.memory.byte n → t.Exposes w.heap.memory n) :
    World.Sound { w with heap := { w.heap with memory := m' } } pieces objects := by
  obtain ⟨p, inside, rfl⟩ := (sound.tenants t).mp member
  have held := sound.quiet.held
  have placed := held.placed p inside
  obtain ⟨quiet, others⟩ := sound.written inside (agreeOff_of_exposed exposed placed (held.whole inside))
  have fits : p.start.toNat < 2 ^ 63 := by
    have := placed.room
    have := held.bound inside
    omega
  have same : ∀ q ∈ pieces, q.isObject = true → m'.mark q.start = w.heap.memory.mark q.start := by
    intro q there object
    by_cases here : q = p
    · exact here ▸ (reads_of_exposed exposed placed fits (here ▸ object)).2.1
    · exact (held.read_agree there (others q there here)).2.1
  have read : ∀ o ∈ objects, m'.shape o.start = w.heap.memory.shape o.start ∧
      ∀ i < w.heap.memory.fields o.start, m'.field o.start i = w.heap.memory.field o.start i := by
    intro o known
    obtain ⟨there, object, -⟩ := sound.knows.known o known
    by_cases here : o = p
    · subst here
      obtain ⟨shape, -, field⟩ := reads_of_exposed exposed placed fits object
      exact ⟨shape, field⟩
    · exact sound.knows.read held known (others o there here)
  refine sound.continued ⟨.refl _, rfl, rfl, rfl, rfl⟩ quiet ?_ ?_ sound.modest sound.tenants sound.named sound.recent
    sound.occupied
  · exact sound.knows.carry (.refl _) (fun o known => (sound.knows.known o known).1)
      (fun o known => (read o known).1) (fun o known => (read o known).2) rfl fun _ => .rfl
  · exact sound.logged.carry rfl (fun q there object => ⟨there, same q there object⟩) (.refl _)

end World.Sound

/-! ### The barrier -/

namespace Heap

variable {h h' : Heap} {u : Unit} {i : Nat} {object target : Address}

/-- An object that is not unlogged is left alone; any other is recorded. -/
theorem remember_ok (inside : i < h.program.mutators.size) (ok : remember i object h = .ok u h') :
    (h.memory.mark object).isUnlogged = false ∧ h' = h ∨ (h.memory.mark object).isUnlogged = true ∧
      Records { h with memory := h.memory.setMark object (h.memory.mark object).logged } h' ∧ h'.recorded ~ object :: h.recorded := by
  simp only [remember, Step.get_bind] at ok
  cases unlogged : (h.memory.mark object).isUnlogged with
  | false =>
    simp only [unlogged, Bool.false_eq_true, ↓reduceIte] at ok
    exact .inl ⟨rfl, (Step.pure_ok.mp ok).2.symm⟩
  | true =>
    simp only [unlogged, ↓reduceIte, Step.modify_bind] at ok
    refine .inr ⟨rfl, ?_⟩
    obtain ⟨_, h₁, pushed, ok⟩ := Step.bind_ok.mp ok
    obtain ⟨n, took, rfl⟩ := (onMutator_ok · pushed) inside
    obtain rfl := Step.modify_ok.mp took
    have inside' : i < (h.program.mutators.setIfInBounds i { h.program.mutators[i] with
        remembered := h.program.mutators[i].remembered.push object }).size := by simpa using inside
    have one : Records { h with memory := h.memory.setMark object (h.memory.mark object).logged } { h with
        memory := h.memory.setMark object (h.memory.mark object).logged
        program := { h.program with
          mutators := h.program.mutators.setIfInBounds i { h.program.mutators[i] with
            remembered := h.program.mutators[i].remembered.push object } } } :=
      ⟨⟨_, _, rfl⟩, allocators_set inside rfl⟩
    have more : Heap.recorded { h with
        memory := h.memory.setMark object (h.memory.mark object).logged
        program := { h.program with
          mutators := h.program.mutators.setIfInBounds i { h.program.mutators[i] with
            remembered := h.program.mutators[i].remembered.push object } } } ~ object :: h.recorded := by
      refine ((shares_perm inside (·.remembered.toList) _).2.append_right _).trans ?_
      rw [Array.toList_push]
      refine Perm.trans ?_ (((shares_perm inside (·.remembered.toList) default).1.append_right _).cons object).symm
      rw [append_assoc, append_assoc, append_assoc, singleton_append]
      exact perm_middle
    rw [Step.get_bind] at ok
    split at ok
    · obtain ⟨records, recorded⟩ := flush_records inside' ok
      obtain ⟨_, _, rfl⟩ := records.heap
      exact ⟨⟨⟨_, _, rfl⟩, records.allocators.trans one.allocators⟩, recorded.trans more⟩
    · obtain ⟨-, rfl⟩ := Step.pure_ok.mp ok
      exact ⟨one, more⟩

theorem writeSlot_ok {index : Word} (ok : writeSlot i object index target h = .ok u h') :
    index.toNat < h.memory.fields object ∧ ∃ m, m = h.memory.store (Object.slotAt object index) target.word ∧
      (h.plan = .generational ∧ remember i object { h with memory := m } = .ok () h' ∨
        h.plan = .semispace ∧ h' = { h with memory := m }) := by
  simp only [writeSlot, Step.bind_ok, Step.ask_ok] at ok
  obtain ⟨place, _, ⟨found, rfl⟩, ok⟩ := ok
  unfold slotIn at found
  split at found
  · rename_i inside
    cases found
    refine ⟨inside, _, rfl, ?_⟩
    simp only [store, Step.modify_bind, Step.get_bind] at ok
    have same : Heap.plan { h with memory := h.memory.store (Object.slotAt object index) target.word } = h.plan := rfl
    cases plan : h.plan with
    | generational =>
      rw [same, plan] at ok
      exact .inl ⟨rfl, ok⟩
    | semispace =>
      rw [same, plan] at ok
      exact .inr ⟨rfl, (Step.pure_ok.mp ok).2.symm⟩
  · cases found

end Heap

namespace World.Sound

variable {w : World} {h' : Heap} {pieces objects : List Piece} {o : Piece}

/-- What the barrier may have recorded: nothing, because the object is recorded or need not be, or the object. -/
def Barred (h h' : Heap) (o : Piece) (m : Memory) : Prop :=
  (h.plan.watches o.home = true → o.start ∈ h.recorded) ∧ h'.recorded ~ h.recorded ∧ m.mark o.start = h.memory.mark o.start ∨
    h.plan.watches o.home = true ∧ o.start ∉ h.recorded ∧ h'.recorded ~ o.start :: h.recorded ∧ o.Stamped m false

/-- A reference was stored into one object, and the barrier has seen it. -/
theorem stored_into (sound : w.Sound pieces objects) (known : o ∈ objects) (agree : AgreeOff w.heap.memory m' o.span)
    (shape : m'.shape o.start = w.heap.memory.shape o.start)
    (field : ∀ i < w.heap.memory.fields o.start, m'.field o.start i = w.heap.memory.field o.start i ∨
      m'.field o.start i = .null ∨ ∃ q ∈ objects, m'.field o.start i = q.start)
    (records : Heap.Records { w.heap with memory := m' } h') (barred : Barred w.heap h' o m') :
    World.Sound { w with heap := h' } pieces objects := by
  obtain ⟨member, object, proper⟩ := sound.knows.known o known
  obtain ⟨quiet, others⟩ := sound.written member agree
  have held := sound.quiet.held
  have there : ∀ {q : Piece}, q ∈ pieces → (q.start = o.start ↔ q = o) := fun inside =>
    ⟨held.start_inj inside member, congrArg _⟩
  have read : ∀ q ∈ objects, q ≠ o → m'.shape q.start = w.heap.memory.shape q.start ∧
      ∀ i < w.heap.memory.fields q.start, m'.field q.start i = w.heap.memory.field q.start i :=
    fun q here other => sound.knows.read held here (others q (sound.knows.known q here).1 other)
  have shapes : ∀ q ∈ objects, m'.shape q.start = w.heap.memory.shape q.start := fun q here => by
    by_cases same : q = o
    · exact same ▸ shape
    · exact (read q here same).1
  have counts : ∀ q ∈ objects, m'.fields q.start = w.heap.memory.fields q.start := fun q here => by
    rw [Memory.fields, Memory.fields, shapes q here]
  have more : ∀ a, a ∈ h'.recorded ↔ a ∈ w.heap.recorded ∨ a = o.start ∧ w.heap.plan.watches o.home = true := by
    intro a
    rcases barred with ⟨already, same, -⟩ | ⟨watches, -, more, -⟩
    · rw [same.mem_iff]
      exact ⟨.inl, fun either => either.elim id fun noted => noted.1 ▸ already noted.2⟩
    · rw [more.mem_iff, mem_cons, or_comm, and_iff_left watches]
  obtain ⟨mutators, remembered, rfl⟩ := records.heap
  refine sound.continued ⟨.refl _, rfl, rfl, rfl, rfl⟩ ?_ ⟨?_, ?_, ?_, ?_, ?_, ?_, ?_, ?_⟩ ⟨?_, ?_⟩ sound.modest sound.tenants
    sound.named sound.recent sound.occupied
  · refine quiet.carry (.refl _) rfl ?_ quiet.tracked (fun m inside => ?_) quiet.collectors quiet.half fun _ => rfl
    · rw [records.buffers, records.keys]
      exact quiet.held
    · obtain ⟨n, there, same⟩ := records.mutator inside
      exact same ▸ quiet.mutators n there
  · exact sound.knows.known
  · intro q here
    exact (counts q here).symm ▸ sound.knows.shaped q here
  · intro q here x space
    have size : (m'.header q.start).size = (w.heap.memory.header q.start).size := congrArg Prod.fst (shapes q here)
    exact size.symm ▸ sound.knows.movable q here x space
  · intro q here i inside
    change i < m'.fields q.start at inside
    rw [counts q here] at inside
    by_cases same : q = o
    · subst same
      rcases field i inside with unchanged | changed
      · change m'.field q.start i = _ ∨ ∃ _, _ ∧ m'.field q.start i = _
        rw [unchanged]
        exact sound.knows.fields q here i inside
      · exact changed
    · change m'.field q.start i = _ ∨ ∃ _, _ ∧ m'.field q.start i = _
      rw [(read q here same).2 i inside]
      exact sound.knows.fields q here i inside
  · exact sound.knows.roots
  · exact sound.knows.immortal
  · intro a noted
    rcases (more a).mp noted with before | ⟨rfl, watches⟩
    · exact sound.knows.recorded a before
    · exact ⟨o, known, rfl, watches⟩
  · intro generational q here old
    by_cases same : q = o
    · exact .inl ((more q.start).mpr (.inr ⟨congrArg _ same, same ▸ Plan.watches_iff.mpr ⟨generational, old⟩⟩))
    · refine (sound.knows.old generational q here old).imp (fun before => (more q.start).mpr (.inl before)) fun targets i inside => ?_
      change i < m'.fields q.start at inside
      rw [counts q here] at inside
      change m'.field q.start i = _ ∨ ∃ _, _ ∧ m'.field q.start i = _ ∧ _
      rw [(read q here same).2 i inside]
      exact targets i inside
  · intro q inside isObject
    obtain ⟨unlogged, stamped, iff⟩ := sound.logged.stamped q inside isObject
    by_cases same : q = o
    · subst same
      rcases barred with ⟨-, noted, mark⟩ | ⟨watches, fresh, noted, stamped'⟩
      · exact ⟨unlogged, mark.trans stamped, by rw [noted.mem_iff]; exact iff⟩
      · exact ⟨false, stamped', by simp [noted.mem_iff]⟩
    · refine ⟨unlogged, (held.read_agree inside (others q inside same)).2.1.trans stamped, ?_⟩
      rw [more, there inside, or_iff_left fun either => same either.1]
      exact iff
  · rcases barred with ⟨-, noted, -⟩ | ⟨-, fresh, noted, -⟩
    · exact noted.nodup_iff.mpr sound.logged.single
    · exact noted.nodup_iff.mpr (nodup_cons.mpr ⟨fresh, sound.logged.single⟩)

theorem stored {i : Nat} {source target : Address} {index : Word} (sound : w.Sound pieces objects)
    (inside : i < w.heap.program.mutators.size) (origin : source ∈ w.named) (goal : target = .null ∨ target ∈ w.named)
    (ok : Heap.writeSlot i source index target w.heap = .ok () h') : World.Sound { w with heap := h' } pieces objects := by
  obtain ⟨o, known, rfl⟩ := (sound.named source).mp origin
  obtain ⟨member, object, proper⟩ := sound.knows.known o known
  have held := sound.quiet.held
  obtain ⟨small, m, stored, barrier⟩ := Heap.writeSlot_ok ok
  have placed := held.placed o member
  have aligned := placed.aligned
  have low := placed.low
  have room := placed.room
  have high := placed.high
  have bound := held.bound member
  have even := (held.whole member).1
  have fits := (sound.knows.shaped o known).2
  have fits' : o.start.toNat < 2 ^ 63 := by omega
  have place : Object.slotAt o.start index = Object.slotAt o.start (UInt64.ofNat index.toNat) := by rw [UInt64.ofNat_toNat]
  have narrow := w.heap.memory.fields_lt o.start
  have where_ := toNat_slotAt (o := o.start) (i := index.toNat) (by omega) fits'
  rw [place] at stored
  obtain ⟨alike, here, elsewhere⟩ := @alike_store w.heap.memory o.start o.bytes _ target.word aligned small fits'
  rw [← stored] at alike here elsewhere
  have mark : m.mark o.start = w.heap.memory.mark o.start := by
    rw [mark_eq _ (by omega), mark_eq _ (by omega), stored]
    exact congrArg _ (byte_store _ _ _ _ (by omega))
  have agree : AgreeOff w.heap.memory m o.span := stored ▸ store_agree _ _ _ even (by omega) (by omega)
  have field : ∀ j < w.heap.memory.fields o.start, m.field o.start j = w.heap.memory.field o.start j ∨
      m.field o.start j = .null ∨ ∃ q ∈ objects, m.field o.start j = q.start := by
    intro j _
    by_cases same : j = index.toNat
    · rw [same, here]
      refine .inr (goal.imp_right fun named => ?_)
      obtain ⟨q, known, rfl⟩ := (sound.named target).mp named
      exact ⟨q, known, rfl⟩
    · exact .inl (elsewhere j same)
  obtain ⟨unlogged, stamped, iff⟩ := sound.logged.stamped o member object
  have bit : (m.mark o.start).isUnlogged = unlogged := by
    rw [mark, stamped, Object.Mark.fresh_isUnlogged]
  rcases barrier with ⟨generational, remembered⟩ | ⟨semispace, rfl⟩
  · rcases (Heap.remember_ok · remembered) inside with ⟨logged, rfl⟩ | ⟨fresh, records, recorded⟩
    · refine sound.stored_into known agree alike.shape field (.refl _) (.inl ⟨fun watches => ?_, .refl _, mark⟩)
      by_contra unrecorded
      have := iff.mpr ⟨watches, unrecorded⟩
      rw [← bit, show (m.mark o.start).isUnlogged = false from logged] at this
      cases this
    · obtain ⟨watches, unrecorded⟩ := iff.mp (bit.symm.trans fresh)
      obtain ⟨alike', same⟩ := @alike_setMark m o.start o.bytes (m.mark o.start).logged aligned fits'
      refine sound.stored_into known (agree.trans ?_) (alike'.shape.trans alike.shape) (fun j less => ?_) records
        (.inr ⟨watches, unrecorded, recorded, ?_⟩)
      · exact (setMark_agree m _ (by omega) aligned).mono ⟨by dsimp only; omega, by dsimp only; omega⟩
      · rw [same]
        exact field j less
      · rw [Piece.Stamped, mark_setMark _ _ (by omega), mark, stamped, Object.Mark.fresh_logged]
  · refine sound.stored_into known agree alike.shape field (.refl _) (.inl ⟨fun watches => ?_, .refl _, mark⟩)
    rw [semispace] at watches
    cases watches

end World.Sound

end TracingHeap
