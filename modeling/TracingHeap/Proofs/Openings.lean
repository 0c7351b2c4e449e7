import TracingHeap.Proofs.Rounds

/-! Where a closure starts. Nothing has been moved yet, so every object is at its old place; what is owed
are the root slots and the remembered objects. -/

namespace TracingHeap

open List Memory Work

variable {g : Outset} {h : Heap} {buffers : List (SpaceId × Span)} {keys : List (Nat × Address)} {o : Piece}
  {S : Slot → Prop} {M : Address → Prop}

/-- At the outset every object is where it was. -/
theorem Outset.Sound.image_eq (sound : g.Sound) (tracked : g.heap.spaces.Tracked g.pieces)
    (held : g.heap.spaces.Held g.heap.memory g.pieces buffers keys) (member : o ∈ g.pieces) :
    g.heap.spaces.image o = o.start := by
  by_cases moves : g.heap.spaces.Evacuates o.home
  · exact Spaces.image_of_not_reached (sound.unmoved o member moves)
  · exact tracked.image_eq held member moves

theorem Outset.Sound.kept (sound : g.Sound) (tracked : g.heap.spaces.Tracked g.pieces)
    (held : g.heap.spaces.Held g.heap.memory g.pieces buffers keys) : Kept g g.heap g.pieces := by
  have image : ∀ o ∈ g.known, g.heap.spaces.image o = o.start := fun o member =>
    sound.image_eq tracked held (sound.known o member).1
  refine ⟨.refl _, fun _ => Iff.rfl, rfl, sound.stamping, fun _ _ => id, fun _ => id,
    fun r inside other => absurd inside other, fun o member => ?_, fun o member o' member' same => ?_, fun o member => ?_,
    fun o member i small => ?_, rfl, fun i a b before now => ?_, fun _ _ marked => .inl marked,
    fun r inside other => absurd inside other⟩
  · exact ⟨o, (sound.known o member).1, (image o member).symm, rfl, .inl ⟨rfl, sound.unmoved o (sound.known o member).1⟩⟩
  · rw [image o member, image o' member'] at same
    exact held.start_inj (sound.known o member).1 (sound.known o' member').1 same
  · rw [image o member]
    exact .refl _ _ _
  · rw [image o member]
    exact .inl rfl
  · rw [before] at now
    exact .inl (Option.some.inj now).symm

/-- A closure that starts owes the root slots and the remembered objects. -/
theorem Outset.Sound.opening (sound : g.Sound) (tracked : g.heap.spaces.Tracked g.pieces)
    (held : g.heap.spaces.Held g.heap.memory g.pieces buffers keys) (slots : ∀ x, S x ↔ x ∈ g.heap.rootSlots)
    (remembered : ∀ x, M x ↔ ∃ packet ∈ g.heap.backlog.remembered, x ∈ packet) :
    Closing g g.heap g.pieces S (fun _ => False) M := by
  have image : ∀ o ∈ g.known, g.heap.spaces.image o = o.start := fun o member =>
    sound.image_eq tracked held (sound.known o member).1
  have root : ∀ i < g.heap.program.roots.size, S (.root i) := fun i inside =>
    (slots _).mpr (mem_map_of_mem (mem_range.mpr inside))
  refine ⟨sound.kept tracked held, fun x due => ?_, fun _ => False.elim, fun x due => ?_, fun i a b before now => ?_,
    fun o member done => ?_, fun p inside object => (sound.watched p inside object).mono fun due => .inl ((remembered _).mpr due)⟩
  · obtain ⟨i, inside, rfl⟩ := mem_map.mp ((slots x).mp due)
    exact .inl ⟨i, mem_range.mp inside, rfl⟩
  · obtain ⟨packet, inside, inner⟩ := (remembered x).mp due
    obtain ⟨o, member, rfl, -⟩ := sound.remembered packet inside x inner
    exact ⟨o, member, ⟨packet, inside, inner⟩, rfl⟩
  · exact .inr (root i (Array.getElem?_eq_some_iff.mp before).1)
  · have tended : g.Remembered o ∧ g.heap.nurseryOnly = true ∨ ∀ i < g.count o, g.target o i = .null ∨
        ∃ q ∈ g.known, g.target o i = q.start ∧ g.heap.Done q := done.elim (sound.old o member) .inl
    rcases tended with ⟨source, young⟩ | settled
    · exact .inl ⟨young, (remembered _).mpr source⟩
    · refine .inr (.inr fun i small => .inl ?_)
      rw [image o member]
      rcases settled i small with null | ⟨q, known, same, ended⟩
      · exact .inl ⟨null, null⟩
      · exact .inr ⟨q, known, same, ended, same.trans (image q known).symm⟩

end TracingHeap
