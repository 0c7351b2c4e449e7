import TracingHeap.Heap.Inquiry
import TracingHeap.Proofs.Endings

/-! What a heap says about who is live. Each space answers out of its own notes, and after a closure all answers
come to the same: an object that the collection covers is live exactly if it was reached. -/

namespace TracingHeap

open List Memory

namespace Heap

variable {h : Heap} {pieces : List Piece} {buffers : List (SpaceId × Span)} {keys : List (Nat × Address)} {p : Piece}

theorem isLive_eq (held : h.spaces.Held h.memory pieces buffers keys) (member : p ∈ pieces) :
    h.isLive p.start = match h.spaces.space p.home with
      | .markSweep s => if h.nurseryOnly then .ok true else s.isMarked p.start
      | space => space.isLive p.start := by
  cases space : h.spaces.space p.home <;> simp only [isLive, held.holding member, space]

/-- A space that marks large objects tells whether the object is among the survivors. -/
theorem large_isLive (held : h.spaces.Held h.memory pieces buffers keys) (tracked : h.spaces.Tracked pieces)
    (member : p ∈ pieces) (home : p.home = .large) (object : p.isObject = true) :
    h.spaces.large.isLive p.start = .ok (decide (p.start ∈ h.spaces.large.treadmill.survivors)) := by
  have notes := tracked.large
  have placed := held.estate.laid.placed p.home
  obtain ⟨low, high⟩ := held.inside member
  rw [home] at placed low high
  rw [LargeSpace.isLive, notes.table.loadByte_total placed rfl (Nat.le_refl 12) low high]
  refine congrArg Except.ok ?_
  rw [Bool.eq_iff_iff, beq_iff_eq, decide_eq_true_eq]
  have reached : p.start ∈ h.spaces.large.treadmill.survivors →
      h.spaces.large.marks.entryByte p.start &&& LargeSpace.markMask = h.spaces.large.current := by
    intro on
    rw [notes.survivors _ on]
    rcases notes.current with zero | one
    · rw [zero]; decide
    · rw [one]; decide
  refine ⟨fun value => ?_, reached⟩
  rcases notes.complete p member home object with fresh | on | young | old
  · rw [notes.fresh _ fresh] at value
    rcases notes.current with zero | one
    · rw [zero] at value
      exact absurd value (by decide)
    · rw [one] at value
      exact absurd value (by decide)
  · exact on
  · rw [notes.young _ young] at value
    rcases notes.current with zero | one
    · rw [zero] at value
      split at value <;> exact absurd value (by decide)
    · rw [one] at value
      split at value <;> exact absurd value (by decide)
  · rw [(notes.old _ old).2] at value
    rcases notes.current with zero | one
    · rw [zero] at value
      exact absurd value (by decide)
    · rw [one] at value
      exact absurd value (by decide)

/-- The answer is whether the present or last collection is done with the object, but for immortal objects, which always count as
live. -/
theorem isLive_ok (held : h.spaces.Held h.memory pieces buffers keys) (tracked : h.spaces.Tracked pieces)
    (member : p ∈ pieces) (object : p.home = .large → p.isObject = true) :
    ∃ b, h.isLive p.start = .ok b ∧ (b = true ↔ p.home = .immortal ∨ h.Done p) := by
  rw [isLive_eq held member]
  obtain ⟨low, high⟩ := held.inside member
  have placed := held.estate.laid.placed p.home
  unfold Done Covered Spaces.Reached
  cases space : h.spaces.space p.home with
  | copying x =>
    have other : p.home ≠ .immortal := fun bad => by rw [bad] at space; cases space
    rw [space] at low high placed
    simp only [Space.isLive, CopySpace.isLive, Forwarding.isForwarded, Forwarding.stateOf, other, false_or]
    cases evacuating : x.evacuating with
    | true =>
      rw [(tracked.copying p.home x space).states.loadByte_total placed rfl (by decide) low high]
      refine ⟨_, rfl, ?_⟩
      simp [ForwardingState.forwarded]
    | false =>
      refine ⟨_, rfl, ?_⟩
      have below := (held.below space member rfl).2
      simpa [Address.lt_iff] using below
  | markSweep x =>
    have other : p.home ≠ .immortal := fun bad => by rw [bad] at space; cases space
    obtain ⟨home, second⟩ := Spaces.second_of_markSweep space
    have plan : h.plan = .generational := by rw [Heap.plan, Spaces.plan, second]
    have young : h.nurseryOnly = !h.scope.full := by rw [nurseryOnly, plan]
    simp only [other, false_or, young]
    cases full : h.scope.full with
    | false => exact ⟨true, rfl, by simp⟩
    | true =>
      obtain ⟨cell, ok, start⟩ := held.cellOf member home second
      have within := (held.within member).1
      have within' := (held.within member).2
      have room := (held.placed p member).room
      have low' := (held.placed p member).low
      rw [space] at placed within within'
      have loaded := (tracked.mature x second).table.loadByte_total placed rfl (by decide)
        (show x.pages.extent.span.lo ≤ cell.toNat from start ▸ within) (show cell.toNat < x.pages.extent.span.hi by
          rw [start]
          exact Nat.lt_of_lt_of_le (by omega) within')
      refine ⟨x.marks.entryByte cell == x.current, ?_, ?_⟩
      · simp only [Bool.not_true, Bool.false_eq_true, if_false, MarkSweepSpace.isMarked, ok]
        change Except.bind (x.marks.loadByte cell) _ = _
        rw [loaded]
        rfl
      · rw [beq_iff_eq]
        refine ⟨fun same _ => ⟨cell, start, same⟩, fun reached => ?_⟩
        obtain ⟨cell', start', same⟩ := reached rfl
        rwa [Address.toNat_inj.mp (start.trans start'.symm)]
  | immortal x => exact ⟨true, rfl, by simp [Spaces.home_of_immortal space]⟩
  | large x =>
    obtain ⟨home, rfl⟩ := Spaces.home_of_large space
    exact ⟨_, large_isLive held tracked member home (object home), by simp [home]⟩

end Heap

end TracingHeap
