import TracingHeap.Proofs.Cycles
import TracingHeap.Proofs.Fittings

/-! Requests that are larger than the space of large objects. As long as their padded bytes can be counted in pages they are
refused at once: the shortage is reported, and nothing else happens. Right below the last of all words the padding or the count
overflows, or the rounding wraps and the request becomes one for nothing. -/

namespace TracingHeap

namespace Word

theorem pagesUp_error {bytes : Word} (wraps : 2 ^ 64 ≤ bytes.toNat + 4096) : bytes.pagesUp = .error .addOverflow := by
  rw [pagesUp, unitsUp, sum_error wraps]
  rfl

end Word

namespace Request

variable {r : Request}

/-- The bytes of the request can be rounded up, padded and counted in pages. -/
def Countable (r : Request) : Prop := r.bytes.toNat + 7 < 2 ^ 64 ∧ r.size + Padding.slack r.align + 4096 < 2 ^ 64

/-- The pages of a request of its own hold what it asks for. -/
theorem Countable.pages (legal : r.Legal) (countable : r.Countable) :
    ∃ room pages, r.room = .ok room ∧ room.pagesUp = .ok pages ∧ r.bytes ≤ Word.ofPages pages := by
  obtain ⟨rounds, counted⟩ := countable
  obtain ⟨least, -, -⟩ := Padding.allocationSize_fits rounds
  have inner : (Padding.allocationSize r.bytes).toNat = r.size := rfl
  obtain ⟨room, padded⟩ := @Padding.maxAlignedSize_total (Padding.allocationSize r.bytes) _ legal.small (by omega)
  have total := Padding.maxAlignedSize_ok padded legal.cases
  obtain ⟨pages, found⟩ := @Word.pagesUp_total room (by omega)
  have count := Word.toNat_pagesUp found
  have bytes := Word.toNat_ofPages_pagesUp found
  exact ⟨room, pages, padded, found, UInt64.le_iff_toNat_le.mpr (by omega)⟩

/-- What cannot be counted breaks off, unless it wraps to nothing. -/
theorem pages_error (legal : r.Legal) (uncountable : ¬ r.Countable) (rounds : r.bytes.toNat + 7 < 2 ^ 64) :
    r.room = .error .addOverflow ∨ ∃ room, r.room = .ok room ∧ room.pagesUp = .error .addOverflow := by
  have exceeds : 2 ^ 64 ≤ r.size + Padding.slack r.align + 4096 := Nat.not_lt.mp fun fits => uncountable ⟨rounds, fits⟩
  have inner : (Padding.allocationSize r.bytes).toNat = r.size := rfl
  rcases Padding.maxAlignedSize_cases (Padding.allocationSize r.bytes) r.align with ⟨room, padded⟩ | ⟨-, broke⟩
  · have total := Padding.maxAlignedSize_ok padded legal.cases
    exact .inr ⟨room, padded, Word.pagesUp_error (by omega)⟩
  · exact .inl broke

/-- A request that is larger than what shares pages has pages to itself, unless its padding overflows. -/
theorem isLarge_cases (legal : r.Legal) (larger : sharedLimit < r.bytes) :
    r.isLarge = .ok true ∨ ¬ r.Countable ∧ r.isLarge = .error .addOverflow := by
  have larger := UInt64.lt_iff_toNat_lt.mp larger
  rcases Padding.maxAlignedSize_cases r.bytes r.align with ⟨size, padded⟩ | ⟨wraps, broke⟩
  · have least := Padding.maxAlignedSize_le padded
    refine .inl (except_bind_ok.mpr ⟨size, padded, ?_⟩)
    rw [decide_eq_true (UInt64.lt_iff_toNat_lt.mpr (by omega))]
    rfl
  · refine .inr ⟨fun ⟨rounds, counted⟩ => ?_, by rw [isLarge, broke]; rfl⟩
    obtain ⟨least, -, -⟩ := Padding.allocationSize_fits rounds
    have inner : (Padding.allocationSize r.bytes).toNat = r.size := rfl
    have most : r.align.toNat ≤ 16 := UInt64.le_iff_toNat_le.mp legal.small
    omega

/-- A request that has pages to itself although it is padded can be rounded up. -/
theorem Legal.rounds_of_padded (legal : r.Legal) (large : r.isLarge = .ok true) (padded : Padding.minAlignment < r.align) :
    r.bytes.toNat + 7 < 2 ^ 64 := by
  obtain ⟨size, found, -⟩ := except_bind_ok.mp large
  have total := Padding.maxAlignedSize_ok found legal.cases
  rw [Padding.slack, if_neg (UInt64.not_le.mpr padded)] at total
  have bound := size.toNat_lt
  omega

/-- If the rounding wraps, the request is one for no bytes, and only a padding that does not fit is noticed. -/
theorem room_wrapped (legal : r.Legal) (wraps : 2 ^ 64 ≤ r.bytes.toNat + 7) :
    r.room = .ok (if r.align ≤ Padding.minAlignment then 0 else 8) := by
  rw [room, Padding.allocationSize_wrap wraps]
  rcases legal.cases with same | same | same | same | same <;> rw [same] <;> rfl

end Request

variable {r : Request} {h : Heap}

namespace Heap

/-- The heap once a shortage was reported. -/
def told (h : Heap) (shortage : Shortage) : Heap := { h with program.shortages := h.program.shortages.push shortage }

/-- A shortage is reported to a program that goes on. -/
theorem report_goes_on (shortage : Shortage) (goesOn : h.program.breaksOff = false) :
    report shortage h = .ok () (h.told shortage) := by
  simp only [report, told, Step.modify_bind, Step.get_bind, Step.ensure_ok, goesOn, Bool.not_false, and_self]

/-- What is more than the whole space is refused at once. -/
theorem acquire_beyond {id : SpaceId} {bytes : Word} (beyond : (h.spaces.space id).extent.bytes < bytes)
    (goesOn : h.program.breaksOff = false) : acquire id bytes h = .ok none (h.told .heap) := by
  unfold acquire
  rw [Step.get_bind, if_pos beyond, Step.bind_of_ok (report_goes_on .heap goesOn)]
  rfl

end Heap

namespace LargeAllocator

/-- A request that can be counted is refused, and that is all. -/
theorem alloc_beyond (legal : r.Legal) (countable : r.Countable) (larger : h.spaces.large.pages.extent.bytes < r.bytes)
    (goesOn : h.program.breaksOff = false) : alloc r h = .ok none (h.told .heap) := by
  obtain ⟨room, pages, padded, counted, holds⟩ := countable.pages legal
  have beyond : (h.spaces.space .large).extent.bytes < Word.ofPages pages := UInt64.lt_of_lt_of_le larger holds
  have fresh : allocFresh r h = .ok none (h.told .heap) :=
    (Step.bind_of_ok (Step.lift_ok.mpr ⟨padded, rfl⟩)).trans
      ((Step.bind_of_ok (Step.lift_ok.mpr ⟨counted, rfl⟩)).trans (Heap.acquire_beyond beyond goesOn))
  exact (Step.bind_of_ok fresh).trans rfl

/-- A request that cannot be counted breaks off before anything has happened. -/
theorem alloc_overflow (broken : r.room = .error .addOverflow ∨ ∃ room, r.room = .ok room ∧ room.pagesUp = .error .addOverflow) :
    alloc r h = .error .addOverflow h := by
  refine Step.bind_of_error ?_
  rcases broken with broken | ⟨room, padded, broken⟩
  · refine Step.bind_of_error ?_
    rw [broken]
    rfl
  · refine (Step.bind_of_ok (Step.lift_ok.mpr ⟨padded, rfl⟩)).trans (Step.bind_of_error ?_)
    rw [broken]
    rfl

end LargeAllocator

namespace Heap

variable {i : Nat} {semantics : AllocSemantics}

/-- A mutator that is as busy as before. -/
theorem without_withSet (inside : i < h.program.mutators.size) :
    (h.without i).withSet i h.program.mutators[i] h.program.mutators[i].allocators = h := by
  have same : (h.program.mutators.setIfInBounds i default).setIfInBounds i h.program.mutators[i] = h.program.mutators := by
    rw [Array.setIfInBounds_setIfInBounds]
    refine Array.ext (by simp) fun j _ _ => ?_
    rw [Array.getElem_setIfInBounds]
    split
    · subst j
      rfl
    · rfl
  rw [without, withSet]
  dsimp only
  rw [same]

/-- A request that has pages to itself is tried with the allocator of large objects, whatever is asked for. -/
theorem alloc_large (large : r.isLarge = .ok true) (i : Nat) (semantics : AllocSemantics) :
    alloc i r semantics h = allocWith i (.large 0) r h.settings.maxCollectionAttempts.toNat false h := by
  have routed : h.route r semantics = .ok (.large 0) := by
    rw [route, large]
    cases h.plan <;> rfl
  exact Step.bind_of_ok (x := Step.ask fun h : Heap => h.route r semantics) (Step.ask_ok.mpr ⟨routed, rfl⟩)

/-- The allocator of large objects leaves the other allocators of its mutator alone. -/
theorem withAllocators_large (inside : i < h.program.mutators.size)
    (known : h.program.mutators[i].allocators.spaceOf (.large 0) = .ok .large) :
    withAllocators i (AllocatorSet.alloc (.large 0) r) h = match LargeAllocator.alloc r (h.without i) with
      | .ok a h₁ => .ok a (h₁.withSet i h.program.mutators[i] h.program.mutators[i].allocators)
      | .error e h₁ => .error e (h₁.withSet i h.program.mutators[i] h.program.mutators[i].allocators) := by
  have here : (mutatorPart i).get h = h.program.mutators[i] := by
    change h.program.mutators[i]?.getD default = _
    rw [Array.getElem?_eq_getElem inside, Option.getD_some]
  have absent : (mutatorPart i).set h default = h.without i := rfl
  have served (s : AllocatorSet) (h₀ : Heap) (known : s.spaceOf (.large 0) = .ok .large) :
      AllocatorSet.alloc (.large 0) r (s, h₀) = Step.on Focus.snd (LargeAllocator.alloc r) (s, h₀) :=
    Step.bind_of_ok (Step.ask_ok.mpr ⟨known, rfl⟩)
  unfold withAllocators
  dsimp only
  rw [here, absent, served _ _ known, Step.on]
  dsimp only [Focus.snd]
  cases LargeAllocator.alloc r (h.without i) <;> rfl

end Heap

open Heap in
/-- A request for more than the space of large objects has, made while no collection is wanted, in a program that goes on after a
shortage. If it can be counted, the program is told that the heap is short of memory, once, and nothing else happens. Else the
request breaks off, unless it needs no padding and is rounded to nothing: then nothing is asked for. -/
theorem World.Reachable.oversized {w : World} {i : Nat} (reachable : w.Reachable) (inside : i < w.heap.program.mutators.size)
    (goesOn : w.heap.program.breaksOff = false) (calm : w.heap.demand.wanted = false) (legal : r.Legal)
    (roomy : Request.sharedLimit ≤ w.heap.spaces.large.pages.extent.bytes)
    (larger : w.heap.spaces.large.pages.extent.bytes < r.bytes) (semantics : AllocSemantics) :
    (r.Countable → alloc i r semantics w.heap = .ok none (w.heap.told .heap)) ∧
      (¬ r.Countable → r.bytes.toNat + 7 < 2 ^ 64 ∨ Padding.minAlignment < r.align →
        alloc i r semantics w.heap = .error .addOverflow w.heap) ∧
      (2 ^ 64 ≤ r.bytes.toNat + 7 → r.align ≤ Padding.minAlignment → ∀ h, LargeAllocator.allocFresh r h = acquire .large 0 h) := by
  obtain ⟨pieces, objects, sound⟩ := reachable.sound
  have known : w.heap.program.mutators[i].allocators.spaceOf (.large 0) = .ok .large := by
    have bound : (.large 0, .large) ∈ Mutator.bindings w.heap.current w.heap.plan := by cases w.heap.plan <;> simp [Mutator.bindings]
    exact (sound.quiet.mutators _ (Array.getElem_mem inside)).2.spaceOf (Mutator.unused_spaceOf bound)
  have large : Request.sharedLimit < r.bytes := UInt64.lt_of_le_of_lt roomy larger
  refine ⟨fun countable => ?_, fun uncountable noticed => ?_, fun wraps simple h => ?_⟩
  · have judged := (Request.isLarge_cases legal large).resolve_right fun overflows => overflows.1 countable
    have refused : withAllocators i (AllocatorSet.alloc (.large 0) r) w.heap = .ok none (w.heap.told .heap) := by
      rw [withAllocators_large inside known, LargeAllocator.alloc_beyond (h := w.heap.without i) legal countable larger goesOn]
      exact congrArg (fun h => EStateM.Result.ok none (Heap.told h .heap)) (without_withSet inside)
    rw [alloc_large judged, allocWith.eq_def]
    refine (Step.bind_of_ok refused).trans ?_
    dsimp only
    rw [Step.get_bind, if_pos (by simp [told, calm])]
    rfl
  · rcases Request.isLarge_cases legal large with judged | ⟨-, broken⟩
    · have rounds : r.bytes.toNat + 7 < 2 ^ 64 := noticed.elim id fun padded => legal.rounds_of_padded judged padded
      have broke : withAllocators i (AllocatorSet.alloc (.large 0) r) w.heap = .error .addOverflow w.heap := by
        rw [withAllocators_large inside known, LargeAllocator.alloc_overflow (Request.pages_error legal uncountable rounds)]
        exact congrArg (EStateM.Result.error _) (without_withSet inside)
      rw [alloc_large judged, allocWith.eq_def]
      exact Step.bind_of_error broke
    · refine Step.bind_of_error (x := Step.ask fun h : Heap => h.route r semantics) ?_
      rw [Step.ask, route, broken]
      rfl
  · have none : r.room = .ok 0 := (Request.room_wrapped legal wraps).trans (congrArg Except.ok (if_pos simple))
    rw [LargeAllocator.allocFresh, none]
    rfl

/-- Nearly all of the words, asked for by the first program. -/
example : Heap.alloc 0 ⟨2 ^ 64 - 8192, 16, 8⟩ .mature World.sample.heap = .ok none (World.sample.heap.told .heap) :=
  (World.sample_reachable.oversized (by decide +kernel) (by decide +kernel) (by decide +kernel) ⟨by decide, by decide, by decide⟩
    (by decide +kernel) (by decide +kernel) .mature).1 ⟨by decide +kernel, by decide +kernel⟩

end TracingHeap
