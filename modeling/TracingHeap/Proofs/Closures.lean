import TracingHeap.Proofs.Traces

/-! What a closure keeps and what it owes. Every object that the program knows can be read at the place
where it is now, and each of its fields holds what it held at the outset or the new place of that. A field
that has not been brought up to date yet belongs to an object that somebody still has to scan. -/

namespace TracingHeap

open List Memory Work

/-- What a closure starts from: the heap once its spaces were prepared, the pieces that were handed out,
and the objects that the program may refer to. -/
structure Outset where
  heap : Heap
  pieces : List Piece
  known : List Piece

namespace Outset

/-- The number of fields of an object at the outset. -/
def count (g : Outset) (o : Piece) : Nat := g.heap.memory.fields o.start

/-- What a field of an object held at the outset. -/
def target (g : Outset) (o : Piece) (i : Nat) : Address := g.heap.memory.field o.start i

/-- A mutator remembered the object since the last collection. -/
def Remembered (g : Outset) (o : Piece) : Prop := ∃ packet ∈ g.heap.backlog.remembered, o.start ∈ packet

/-- The objects that the roots lead to. Remembered objects lead further in a collection of young objects
alone, and so does every object that the collection covers. -/
inductive Found (g : Outset) : Piece → Prop where
  | root {q : Piece} {i : Nat} (known : q ∈ g.known) (holds : g.heap.program.roots[i]? = some q.start) : Found g q
  | remembered {o q : Piece} {i : Nat} (source : o ∈ g.known) (remembered : g.Remembered o)
    (young : g.heap.nurseryOnly = true) (inside : i < g.count o) (known : q ∈ g.known)
    (holds : g.target o i = q.start) : Found g q
  | field {o q : Piece} {i : Nat} (source : o ∈ g.known) (found : Found g o) (open_ : ¬ g.heap.Done o)
    (inside : i < g.count o) (known : q ∈ g.known) (holds : g.target o i = q.start) : Found g q

/-- The closure reads the fields of the object. -/
def Source (g : Outset) (o : Piece) : Prop :=
  g.Remembered o ∧ g.heap.nurseryOnly = true ∨ g.Found o ∧ ¬ g.heap.Done o

theorem Source.found {g : Outset} {o q : Piece} {i : Nat} (source : g.Source o) (member : o ∈ g.known)
    (inside : i < g.count o) (known : q ∈ g.known) (holds : g.target o i = q.start) : g.Found q := by
  rcases source with ⟨remembered, young⟩ | ⟨found, open_⟩
  · exact .remembered member remembered young inside known holds
  · exact .field member found open_ inside known holds

/-- What the program and the last collection have left behind. -/
structure Sound (g : Outset) : Prop where
  known : ∀ o ∈ g.known, o ∈ g.pieces ∧ o.isObject = true ∧ o.start ≠ .null
  shaped : ∀ o ∈ g.known, 16 ≤ o.bytes ∧ 8 + 8 * g.count o ≤ o.bytes
  movable : ∀ o ∈ g.known, g.heap.spaces.Evacuates o.home →
    (g.heap.memory.header o.start).size.toNat = o.bytes ∧ o.bytes ≤ 8192
  fields : ∀ o ∈ g.known, ∀ i < g.count o, g.target o i = .null ∨ ∃ q ∈ g.known, g.target o i = q.start
  roots : ∀ (i : Nat) a, g.heap.program.roots[i]? = some a → a = .null ∨ ∃ q ∈ g.known, a = q.start
  remembered : ∀ packet ∈ g.heap.backlog.remembered, ∀ a ∈ packet,
    ∃ o ∈ g.known, a = o.start ∧ ¬ g.heap.spaces.Evacuates o.home ∧ g.heap.plan.watches o.home = true
  old : ∀ o ∈ g.known, g.heap.Done o → g.Remembered o ∧ g.heap.nurseryOnly = true ∨
    ∀ i < g.count o, g.target o i = .null ∨ ∃ q ∈ g.known, g.target o i = q.start ∧ g.heap.Done q
  unmoved : ∀ p ∈ g.pieces, g.heap.spaces.Evacuates p.home → ¬ g.heap.spaces.Reached p
  watched : ∀ p ∈ g.pieces, p.isObject = true →
    p.Watched g.heap.plan g.heap.memory fun a => ∃ packet ∈ g.heap.backlog.remembered, a ∈ packet
  stamping : g.heap.spaces.Stamping

end Outset

/-- A reference that was brought up to date: null as before, or the place of an object with which the
collection is done. -/
def Settled (known : List Piece) (h : Heap) (before now : Address) : Prop :=
  before = .null ∧ now = .null ∨ ∃ q ∈ known, before = q.start ∧ h.Done q ∧ now = h.spaces.image q

/-- What a closure has kept of the objects. -/
structure Kept (g : Outset) (h : Heap) (pieces : List Piece) : Prop where
  steady : g.heap.spaces.Steady h.spaces
  covered : ∀ p, h.Covered p ↔ g.heap.Covered p
  nursery : h.nurseryOnly = g.heap.nurseryOnly
  stamping : h.spaces.Stamping
  reached : ∀ p ∈ g.pieces, g.heap.spaces.Reached p → h.spaces.Reached p
  base : ∀ p ∈ g.pieces, p ∈ pieces
  copies : ∀ r ∈ pieces, r ∉ g.pieces → r.isObject = true ∧ h.Done r ∧ r.home = h.destination ∧
    ∀ x, h.spaces.second = .mature x → h.spaces.Reached r
  bodies : ∀ o ∈ g.known, ∃ r ∈ pieces, r.start = h.spaces.image o ∧ r.bytes = o.bytes ∧
    (r = o ∧ (h.spaces.Evacuates o.home → ¬ h.spaces.Reached o) ∨ r ∉ g.pieces)
  injective : ∀ o ∈ g.known, ∀ o' ∈ g.known, h.spaces.image o = h.spaces.image o' → o = o'
  content : ∀ o ∈ g.known, Alike g.heap.memory h.memory o.start (h.spaces.image o) o.bytes
  fields : ∀ o ∈ g.known, ∀ i < g.count o, h.memory.field (h.spaces.image o) i = g.target o i ∨
    Settled g.known h (g.target o i) (h.memory.field (h.spaces.image o) i)
  rootCount : h.program.roots.size = g.heap.program.roots.size
  roots : ∀ (i : Nat) a b, g.heap.program.roots[i]? = some a → h.program.roots[i]? = some b → b = a ∨ Settled g.known h a b
  found : ∀ p ∈ g.pieces, h.spaces.Reached p → g.heap.spaces.Reached p ∨ p ∈ g.known ∧ g.Found p
  origins : ∀ r ∈ pieces, r ∉ g.pieces → ∃ o ∈ g.known, g.Found o ∧ h.Done o ∧ h.spaces.image o = r.start

theorem Kept.evacuates {g : Outset} {h : Heap} {pieces : List Piece} (kept : Kept g h pieces) (id : SpaceId) :
    h.spaces.Evacuates id ↔ g.heap.spaces.Evacuates id :=
  kept.steady.evacuates id

theorem Kept.plan {g : Outset} {h : Heap} {pieces : List Piece} (kept : Kept g h pieces) : h.plan = g.heap.plan :=
  kept.steady.plan

/-- The closure has to see to the fields of the object. -/
def Outset.Tends (g : Outset) (h : Heap) (o : Piece) : Prop := h.Done o ∨ g.Remembered o ∧ g.heap.nurseryOnly = true

/-- What is still to be done: slots `S` to be brought up to date, objects `O` to be scanned, and
remembered objects `M` to be taken. -/
structure Owes (g : Outset) (h : Heap) (pieces : List Piece) (S : Slot → Prop) (O M : Address → Prop) : Prop where
  slots : ∀ s, S s → (∃ i < h.program.roots.size, s = .root i) ∨
    ∃ o ∈ g.known, g.Source o ∧ h.Fixed o ∧ ∃ i < g.count o,
      s = .field (Object.slotAt (h.spaces.image o) (UInt64.ofNat i))
  objects : ∀ a, O a → ∃ o ∈ g.known, g.Found o ∧ ¬ g.heap.Done o ∧ h.Done o ∧ a = h.spaces.image o
  remembered : ∀ a, M a → ∃ o ∈ g.known, g.Remembered o ∧ a = o.start
  roots : ∀ (i : Nat) a b, g.heap.program.roots[i]? = some a → h.program.roots[i]? = some b →
    Settled g.known h a b ∨ S (.root i)
  fields : ∀ o ∈ g.known, g.Tends h o → g.heap.nurseryOnly = true ∧ M o.start ∨ O (h.spaces.image o) ∨
    ∀ i < g.count o, Settled g.known h (g.target o i) (h.memory.field (h.spaces.image o) i) ∨
      S (.field (Object.slotAt (h.spaces.image o) (UInt64.ofNat i)))
  watched : ∀ r ∈ pieces, r.isObject = true → r.Watched g.heap.plan h.memory M

variable {h h' : Heap} {pieces pieces' : List Piece} {buffers : List (SpaceId × Span)} {keys : List (Nat × Address)}
  {p q : Piece} {a : Address}

namespace Heap

/-- The plan and the scope of the collection tell what it covers. -/
theorem covered_iff : h.Covered p ↔
    match p.home with
    | .first => h.spaces.Evacuates .first
    | .second => (h.plan = .generational → h.scope.full = true) ∧ (h.plan = .semispace → h.spaces.Evacuates .second)
    | .immortal => h.scope.tracesImmortal = true
    | .large => True := by
  unfold Covered Spaces.Evacuates plan Spaces.plan
  cases p.home with
  | first => simp only [Spaces.space]
  | immortal => simp only [Spaces.space]
  | large => simp only [Spaces.space]
  | second =>
    cases second : h.spaces.second with
    | mature x => simp [Spaces.space, second]
    | twin x => simp [Spaces.space, second]

/-- The parts of the scope that stay the same during a collection. -/
def SameScope (h h' : Heap) : Prop :=
  h'.scope.full = h.scope.full ∧ h'.scope.tracesImmortal = h.scope.tracesImmortal ∧ h'.scope.flipped = h.scope.flipped

theorem Worked.scope (worked : h.Worked h') : h.SameScope h' := by
  obtain ⟨_, _, _, _, _, _, _, rfl⟩ := worked
  exact ⟨rfl, rfl, rfl⟩

theorem Worked.roots (worked : h.Worked h') : h'.program.roots = h.program.roots := by
  obtain ⟨_, _, _, _, _, _, _, rfl⟩ := worked
  rfl

theorem covered_congr (steady : h.spaces.Steady h'.spaces) (scope : h.SameScope h') (p : Piece) :
    h'.Covered p ↔ h.Covered p := by
  have plan : h'.plan = h.plan := steady.plan
  rw [covered_iff, covered_iff, plan, scope.1, scope.2.1, steady.evacuates, steady.evacuates]

theorem nurseryOnly_congr (plan : h'.plan = h.plan) (scope : h.SameScope h') : h'.nurseryOnly = h.nurseryOnly := by
  unfold nurseryOnly
  rw [plan, scope.1]

theorem done_of_not_covered (free : ¬ h.Covered p) : h.Done p := fun covered => absurd covered free

end Heap

/-! ### One more object reached -/

/-- From `h` to `h'` the objects in `new` were reached, and no object changed. -/
structure Advanced (h h' : Heap) (pieces pieces' : List Piece) (new : Piece → Prop) : Prop where
  steady : h.spaces.Steady h'.spaces
  scope : h.SameScope h'
  roots : h'.program.roots = h.program.roots
  reached : ∀ q ∈ pieces, h'.spaces.Reached q ↔ h.spaces.Reached q ∨ new q
  image : ∀ q ∈ pieces, ¬ new q → h'.spaces.image q = h.spaces.image q
  stay : ∀ q ∈ pieces, ¬ h.spaces.Evacuates q.home → h'.spaces.image q = h.spaces.image q
  memory : ∀ q ∈ pieces, AgreeOn h.memory h'.memory q.span
  more : ∀ q ∈ pieces, q ∈ pieces'
  waiting : ∀ q, new q → h.Covered q ∧ ¬ h.spaces.Reached q

variable {g : Outset} {new : Piece → Prop} {m' : Memory}

theorem Advanced.done (advanced : Advanced h h' pieces pieces' new) (member : q ∈ pieces) (done : h.Done q) :
    h'.Done q :=
  fun covered => (advanced.reached q member).mpr
    (.inl (done ((Heap.covered_congr advanced.steady advanced.scope q).mp covered)))

theorem Advanced.image_of_done (advanced : Advanced h h' pieces pieces' new) (member : q ∈ pieces) (done : h.Done q) :
    h'.spaces.image q = h.spaces.image q :=
  advanced.image q member fun fresh => (advanced.waiting q fresh).2 (done (advanced.waiting q fresh).1)

theorem Advanced.fixed (advanced : Advanced h h' pieces pieces' new) (member : q ∈ pieces) (fixed : h.Fixed q) :
    h'.Fixed q ∧ h'.spaces.image q = h.spaces.image q := by
  rcases fixed with done | stays
  · exact ⟨.inl (advanced.done member done), advanced.image_of_done member done⟩
  · exact ⟨.inr fun bad => stays ((advanced.steady.evacuates _).mp bad), advanced.stay q member stays⟩

theorem Advanced.settled (advanced : Advanced h h' pieces pieces' new) (known : ∀ o ∈ g.known, o ∈ pieces)
    {v w : Address} (settled : Settled g.known h v w) : Settled g.known h' v w := by
  rcases settled with null | ⟨q, member, before, done, now⟩
  · exact .inl null
  · exact .inr ⟨q, member, before, advanced.done (known q member) done,
      now.trans (advanced.image_of_done (known q member) done).symm⟩

theorem Kept.known (kept : Kept g h pieces) (sound : g.Sound) {o : Piece} (member : o ∈ g.known) : o ∈ pieces :=
  kept.base o (sound.known o member).1

/-- Remembered objects do not move. -/
theorem Kept.remembered_stays (kept : Kept g h pieces) (sound : g.Sound) {s : Spaces}
    (held : s.Held h.memory pieces buffers keys) {o : Piece} (member : o ∈ g.known) (source : g.Remembered o) :
    ¬ h.spaces.Evacuates o.home := by
  obtain ⟨packet, queued, listed⟩ := source
  obtain ⟨o', member', same, stays, -⟩ := sound.remembered packet queued o.start listed
  rw [held.start_inj (kept.known sound member) (kept.known sound member') same]
  exact fun bad => stays ((kept.evacuates _).mp bad)

/-- What the program reads does not change where the memory of pieces does not. -/
theorem Kept.read (kept : Kept g h pieces) {s : Spaces} (held : s.Held h.memory pieces buffers keys)
    (agree : ∀ r ∈ pieces, AgreeOn h.memory m' r.span) {o : Piece} (member : o ∈ g.known) :
    Alike h.memory m' (h.spaces.image o) (h.spaces.image o) o.bytes ∧
      ∀ i, 16 + 8 * i ≤ o.bytes → m'.field (h.spaces.image o) i = h.memory.field (h.spaces.image o) i := by
  obtain ⟨r, inside, start, bytes, -⟩ := kept.bodies o member
  have placed := held.placed r inside
  rw [← start, ← bytes]
  exact alike_of_agree (agree r inside) placed.aligned placed.low (held.whole inside).1 placed.high placed.room

/-- A step that keeps every object readable keeps the rest. -/
theorem Kept.advance (kept : Kept g h pieces) (sound : g.Sound) (advanced : Advanced h h' pieces pieces' new)
    (copies : ∀ r ∈ pieces', r ∉ pieces → r.isObject = true ∧ h'.Done r ∧ r.home = h.destination ∧
      ∀ x, h'.spaces.second = .mature x → h'.spaces.Reached r)
    (found : ∀ p, new p → p ∈ g.known ∧ g.Found p)
    (origins : ∀ r ∈ pieces', r ∉ pieces → ∃ o ∈ g.known, g.Found o ∧ h'.Done o ∧ h'.spaces.image o = r.start)
    (bodies : ∀ o ∈ g.known, ∃ r ∈ pieces', r.start = h'.spaces.image o ∧ r.bytes = o.bytes ∧
      (r = o ∧ (h'.spaces.Evacuates o.home → ¬ h'.spaces.Reached o) ∨ r ∉ g.pieces))
    (injective : ∀ o ∈ g.known, ∀ o' ∈ g.known, h'.spaces.image o = h'.spaces.image o' → o = o')
    (read : ∀ o ∈ g.known, Alike h.memory h'.memory (h.spaces.image o) (h'.spaces.image o) o.bytes ∧
      ∀ i, 16 + 8 * i ≤ o.bytes → h'.memory.field (h'.spaces.image o) i = h.memory.field (h.spaces.image o) i) :
    Kept g h' pieces' := by
  have known : ∀ o ∈ g.known, o ∈ pieces := fun o member => kept.known sound member
  have plan : h'.plan = h.plan := advanced.steady.plan
  refine ⟨kept.steady.trans advanced.steady, fun p => ?_, ?_, advanced.steady.stamping kept.stamping,
    fun p inside marked => ?_, fun p inside => ?_, fun r inside other => ?_, bodies, injective, fun o member => ?_,
    fun o member i small => ?_, ?_, fun i a b before now => ?_, fun p inside marked => ?_, fun r inside other => ?_⟩
  · exact (Heap.covered_congr advanced.steady advanced.scope p).trans (kept.covered p)
  · exact (Heap.nurseryOnly_congr plan advanced.scope).trans kept.nursery
  · exact (advanced.reached p (kept.base p inside)).mpr (.inl (kept.reached p inside marked))
  · exact advanced.more p (kept.base p inside)
  · rw [Heap.destination_congr plan advanced.scope.2.2]
    by_cases old : r ∈ pieces
    · obtain ⟨object, done, home, mature⟩ := kept.copies r old other
      refine ⟨object, advanced.done old done, home, fun x second => (advanced.reached r old).mpr (.inl ?_)⟩
      have generational : h.plan = .generational := by
        rw [← plan, Heap.plan, Spaces.plan, second]
      obtain ⟨y, second'⟩ := Spaces.generational_iff.mp generational
      exact mature y second'
    · exact copies r inside old
  · exact (kept.content o member).trans (by
      have alike := (read o member).1
      exact alike)
  · have narrow := (sound.shaped o member).2
    rw [(read o member).2 i (by omega)]
    exact (kept.fields o member i small).imp id (advanced.settled known)
  · rw [advanced.roots]
    exact kept.rootCount
  · rw [advanced.roots] at now
    exact (kept.roots i a b before now).imp id (advanced.settled known)
  · rcases (advanced.reached p (kept.base p inside)).mp marked with old | fresh
    · exact kept.found p inside old
    · exact .inr (found p fresh)
  · by_cases old : r ∈ pieces
    · obtain ⟨o, member, source, done, image⟩ := kept.origins r old other
      exact ⟨o, member, source, advanced.done (known o member) done, (advanced.image_of_done (known o member) done).trans image⟩
    · exact origins r inside old

theorem mark_of_agree {m : Memory} {r : Piece} (placed : r.Placed) (whole : r.span.Whole) (bound : r.span.hi < 2 ^ 63)
    (agree : AgreeOn m m' r.span) : m'.mark r.start = m.mark r.start := by
  have aligned := placed.aligned
  have low := placed.low
  have room := placed.room
  have even := whole.1
  rw [mark_eq _ (by omega), mark_eq _ (by omega)]
  congr 1
  exact byte_of_word (agree ((r.start.toNat + 6) / 8) (by omega) (by omega)) rfl

theorem Owes.advance {S : Slot → Prop} {O O' M : Address → Prop} (owes : Owes g h pieces S O M)
    (kept : Kept g h pieces) (sound : g.Sound) (held : h.spaces.Held h.memory pieces buffers keys)
    (advanced : Advanced h h' pieces pieces' new)
    (fresh : ∀ r ∈ pieces', r ∉ pieces → r.Stamped h'.memory (g.heap.plan.watches r.home))
    (found : ∀ p, new p → p ∈ g.known ∧ g.Found p)
    (read : ∀ o ∈ g.known, ∀ i, 16 + 8 * i ≤ o.bytes →
      h'.memory.field (h'.spaces.image o) i = h.memory.field (h.spaces.image o) i)
    (objects : ∀ a, O' a ↔ O a ∨ ∃ p, new p ∧ a = h'.spaces.image p) : Owes g h' pieces' S O' M := by
  have known : ∀ o ∈ g.known, o ∈ pieces := fun o member => kept.known sound member
  refine ⟨fun s member => ?_, fun a member => ?_, owes.remembered, fun i a b before now => ?_, fun o member done => ?_,
    fun r inside object => ?_⟩
  · rw [advanced.roots]
    refine (owes.slots s member).imp id fun ⟨o, inside, source, fixed, i, small, same⟩ => ?_
    obtain ⟨fixed', image⟩ := advanced.fixed (known o inside) fixed
    exact ⟨o, inside, source, fixed', i, small, by rw [image]; exact same⟩
  · rcases (objects a).mp member with member | ⟨p, reached, rfl⟩
    · obtain ⟨o, inside, source, open_, done, same⟩ := owes.objects a member
      exact ⟨o, inside, source, open_, advanced.done (known o inside) done,
        by rw [advanced.image_of_done (known o inside) done]; exact same⟩
    · obtain ⟨inside, source⟩ := found p reached
      obtain ⟨covered, missed⟩ := advanced.waiting p reached
      refine ⟨p, inside, source, fun done => missed ?_, fun _ => ?_, rfl⟩
      · exact kept.reached p (sound.known p inside).1 (done ((kept.covered p).mp covered))
      · exact (advanced.reached p (known p inside)).mpr (.inr reached)
  · rw [advanced.roots] at now
    exact (owes.roots i a b before now).imp (advanced.settled known) id
  · by_cases before : g.Tends h o
    · have image : h'.spaces.image o = h.spaces.image o := before.elim (advanced.image_of_done (known o member))
        fun source => advanced.stay o (known o member) (kept.remembered_stays sound held member source.1)
      rcases owes.fields o member before with remembered | queued | settled
      · exact .inl remembered
      · refine .inr (.inl ((objects _).mpr (.inl ?_)))
        rw [image]
        exact queued
      · refine .inr (.inr fun i small => ?_)
        have narrow := (sound.shaped o member).2
        rw [read o member i (by omega), image]
        exact (settled i small).imp (advanced.settled known) id
    · have done := done.resolve_right fun source => before (.inr source)
      have before : ¬ h.Done o := fun old => before (.inl old)
      refine .inr (.inl ((objects _).mpr (.inr ⟨o, ?_, rfl⟩)))
      have covered : h.Covered o := Classical.byContradiction fun free => before (Heap.done_of_not_covered free)
      have reached := done ((Heap.covered_congr advanced.steady advanced.scope o).mpr covered)
      exact ((advanced.reached o (known o member)).mp reached).resolve_left fun marked => before fun _ => marked
  · by_cases old : r ∈ pieces
    · have same := mark_of_agree (held.placed r old) (held.whole old) (held.bound old) (advanced.memory r old)
      exact (owes.watched r old object).congr same
    · exact .fresh (fresh r inside old)

/-- The state of a closure. -/
structure Closing (g : Outset) (h : Heap) (pieces : List Piece) (S : Slot → Prop) (O M : Address → Prop) : Prop where
  kept : Kept g h pieces
  owes : Owes g h pieces S O M

variable {S : Slot → Prop} {O O' M : Address → Prop} {c c' : Collector}

open Collector in
/-- Nothing had to be done for an object. -/
theorem Closing.passed (closing : Closing g h pieces S O M) (sound : g.Sound) (ready : Ready c h pieces buffers keys)
    (passed : Passed c h c' h' pieces buffers keys) : Closing g h' pieces S O M := by
  have memory : h'.memory = h.memory := by rw [passed.heap]
  have roots : h'.program.roots = h.program.roots := by rw [passed.heap]
  have scope : h.SameScope h' := by
    rw [passed.heap]
    exact ⟨rfl, rfl, rfl⟩
  have advanced : Advanced h h' pieces pieces fun _ => False := by
    refine ⟨passed.untouched.steady, scope, roots, fun q inside => ?_, fun q inside _ => passed.untouched.image q inside,
      fun q inside _ => passed.untouched.image q inside, fun q _ => ?_, fun q inside => inside, fun _ bad => bad.elim⟩
    · rw [passed.untouched.reached q inside, or_false]
    · rw [memory]
      exact .refl _ _
  have image : ∀ o ∈ g.known, h'.spaces.image o = h.spaces.image o := fun o member =>
    passed.untouched.image o (closing.kept.known sound member)
  refine ⟨closing.kept.advance sound advanced (fun r inside other => absurd inside other) (fun _ bad => bad.elim)
    (fun r inside other => absurd inside other)
    (fun o member => ?_) (fun o member o' member' same => ?_) (fun o member => ?_),
    closing.owes.advance closing.kept sound ready.held advanced (fun r inside other => absurd inside other)
      (fun _ bad => bad.elim) (fun o member i _ => ?_) fun a => ?_⟩
  · rw [image o member, passed.untouched.steady.evacuates, passed.untouched.reached o (closing.kept.known sound member)]
    exact closing.kept.bodies o member
  · rw [image o member, image o' member'] at same
    exact closing.kept.injective o member o' member' same
  · rw [image o member, memory]
    exact ⟨.refl _ _ _, fun _ _ => rfl⟩
  · rw [image o member, memory]
  · simp only [false_and, exists_false, or_false]

/-- Copies go to a copying space or to the mature store. -/
theorem Heap.destination_cases (h : Heap) : (∃ x, h.spaces.space h.destination = .copying x) ∨
    ∃ x, h.spaces.space h.destination = .markSweep x ∧ h.spaces.second = .mature x := by
  unfold destination current
  cases second : h.spaces.second with
  | mature x =>
    have plan : h.plan = .generational := by rw [Heap.plan, Spaces.plan, second]
    simp only [plan]
    exact .inr ⟨x, by simp only [Spaces.space, second], rfl⟩
  | twin x =>
    have plan : h.plan = .semispace := by rw [Heap.plan, Spaces.plan, second]
    simp only [plan]
    left
    split
    · exact ⟨x, by simp only [Spaces.space, second]⟩
    · exact ⟨_, rfl⟩

open Collector in
/-- One more object was reached. -/
theorem Closing.gained (O' : Address → Prop) (closing : Closing g h pieces S O M) (sound : g.Sound)
    (ready : Ready c h pieces buffers keys)
    (member : p ∈ g.known) (found : g.Found p) (covered : h.Covered p) (missed : ¬ h.spaces.Reached p)
    (gained : Gained c h c' h' pieces pieces' buffers keys p a) (objects : ∀ x, O' x ↔ O x ∨ x = a) :
    Closing g h' pieces' S O' M := by
  have known : ∀ o ∈ g.known, o ∈ pieces := fun o member => closing.kept.known sound member
  have inside := known p member
  have scope := gained.worked.scope
  have plan : h'.plan = h.plan := gained.untouched.steady.plan
  have before := Spaces.image_of_not_reached missed
  have more : ∀ q ∈ pieces, q ∈ pieces' := by
    rcases gained.place with ⟨-, same, -⟩ | ⟨-, q, same, -⟩
    · rw [same]
      exact fun _ => id
    · rw [same]
      exact fun _ => mem_cons_of_mem _
  have advanced : Advanced h h' pieces pieces' fun q => q = p := by
    refine ⟨gained.untouched.steady, scope, gained.worked.roots, fun q old => ?_,
      fun q old other => gained.untouched.image q ⟨old, other⟩, fun q old stays => ?_, gained.memory, more,
      fun q same => same ▸ ⟨covered, missed⟩⟩
    · by_cases same : q = p
      · rw [same]
        exact ⟨fun _ => .inr rfl, fun _ => gained.reached⟩
      · exact (gained.untouched.reached q ⟨old, same⟩).trans ⟨.inl, fun h => h.resolve_right same⟩
    · by_cases same : q = p
      · rcases gained.place with ⟨-, -, place⟩ | ⟨moves, -⟩
        · rw [same, gained.image, before, place]
        · exact absurd (same ▸ moves) stays
      · exact gained.untouched.image q ⟨old, same⟩
  have others : ∀ o ∈ g.known, o ≠ p → h'.spaces.image o = h.spaces.image o := fun o inner other =>
    gained.untouched.image o ⟨known o inner, other⟩
  have destination : h'.destination = h.destination := Heap.destination_congr plan scope.2.2
  have copies : ∀ r ∈ pieces', r ∉ pieces → r.isObject = true ∧ h'.Done r ∧ r.home = h.destination ∧
      r.Stamped h'.memory (g.heap.plan.watches r.home) ∧ ∀ x, h'.spaces.second = .mature x → h'.spaces.Reached r := by
    intro r inner other
    rcases gained.place with ⟨-, same, -⟩ | ⟨-, q, same, -, copy⟩
    · rw [same] at inner
      exact absurd inner other
    · rw [same] at inner
      obtain rfl := (mem_cons.mp inner).resolve_right other
      have stamped := copy.mark
      rw [gained.untouched.steady.freshMark, closing.kept.stamping r.home] at stamped
      refine ⟨copy.object, fun covered => ?_, copy.home, closing.kept.plan ▸ stamped, copy.mature⟩
      have still := gained.ready.still
      rw [destination, ← copy.home] at still
      rcases h'.destination_cases with ⟨x, space⟩ | ⟨x, -, second⟩
      · rw [destination, ← copy.home] at space
        simp only [Heap.Covered, Spaces.Evacuates, space] at covered still
        exact absurd covered still
      · exact copy.mature x second
  have read : ∀ o ∈ g.known, Alike h.memory h'.memory (h.spaces.image o) (h'.spaces.image o) o.bytes ∧
      ∀ i, 16 + 8 * i ≤ o.bytes → h'.memory.field (h'.spaces.image o) i = h.memory.field (h.spaces.image o) i := by
    intro o inner
    by_cases same : o = p
    · rcases gained.place with ⟨-, -, place⟩ | ⟨-, q, rfl, place, copy⟩
      · have image : h'.spaces.image o = h.spaces.image o := by rw [same, gained.image, before, place]
        rw [image]
        exact closing.kept.read ready.held gained.memory inner
      · have aligned := (ready.held.placed p inside).aligned
        have aligned' := (gained.ready.held.placed q mem_cons_self).aligned
        rw [same, gained.image, before, ← place]
        exact copy.content.alike aligned aligned' (by have := (sound.shaped p member).1; omega)
    · rw [others o inner same]
      exact closing.kept.read ready.held gained.memory inner
  have kept : Kept g h' pieces' := by
    refine closing.kept.advance sound advanced
      (fun r inner other => ?_) (fun q same => same ▸ ⟨member, found⟩) (fun r inner other => ?_) (fun o inner => ?_)
      (fun o inner o' inner' same => ?_) read
    · obtain ⟨object, done, home, -, mature⟩ := copies r inner other
      exact ⟨object, done, home, mature⟩
    · refine ⟨p, member, found, fun _ => gained.reached, gained.image.trans ?_⟩
      rcases gained.place with ⟨-, same, -⟩ | ⟨-, q, same, place, -⟩
      · exact absurd (same ▸ inner) other
      · rw [(mem_cons.mp (same ▸ inner)).resolve_right other, place]
    · by_cases same : o = p
      · rw [same, gained.image]
        rcases gained.place with ⟨stays, -, place⟩ | ⟨-, q, rfl, place, copy⟩
        · exact ⟨p, more p inside, place.symm, rfl, .inl ⟨rfl, fun moves =>
            absurd ((gained.untouched.steady.evacuates _).mp moves) stays⟩⟩
        · exact ⟨q, mem_cons_self, place, copy.bytes, .inr fun old =>
            gained.ready.held.fresh (closing.kept.base q old) rfl⟩
      · rw [others o inner same, gained.untouched.steady.evacuates, gained.untouched.reached o ⟨known o inner, same⟩]
        obtain ⟨r, old, body⟩ := closing.kept.bodies o inner
        exact ⟨r, more r old, body⟩
    · -- The place of a copy is new, so it is the place of no other object.
      have apart : ∀ o ∈ g.known, o ≠ p → h'.spaces.image o ≠ h'.spaces.image p := by
        intro o inner other clash
        rw [others o inner other, gained.image] at clash
        rcases gained.place with ⟨-, -, place⟩ | ⟨-, q, rfl, place, -⟩
        · rw [place, ← before] at clash
          exact other (closing.kept.injective o inner p member clash)
        · obtain ⟨r, old, start, -⟩ := closing.kept.bodies o inner
          have equal := gained.ready.held.start_inj (mem_cons_of_mem q old) mem_cons_self
            ((start.trans clash).trans place.symm)
          exact gained.ready.held.fresh old equal
      by_cases one : o = p
      · by_cases two : o' = p
        · rw [one, two]
        · exact absurd (one ▸ same).symm (apart o' inner' two)
      · by_cases two : o' = p
        · exact absurd (two ▸ same) (apart o inner one)
        · rw [others o inner one, others o' inner' two] at same
          exact closing.kept.injective o inner o' inner' same
  refine ⟨kept, closing.owes.advance closing.kept sound ready.held advanced
    (fun r inner other => (copies r inner other).2.2.2.1) (fun q same => same ▸ ⟨member, found⟩) (fun o inner => (read o inner).2) fun x => ?_⟩
  · rw [objects x]
    refine or_congr_right ⟨fun same => ⟨p, rfl, same.trans gained.image.symm⟩, ?_⟩
    rintro ⟨q, rfl, same⟩
    exact same.trans gained.image

/-! ### Bringing slots up to date -/

theorem Settled.congr {known : List Piece} {v w : Address} (settled : Settled known h v w)
    (spaces : h'.spaces = h.spaces) (scope : h.SameScope h') : Settled known h' v w := by
  have steady : h.spaces.Steady h'.spaces := spaces ▸ .refl _
  rcases settled with null | ⟨q, member, before, done, now⟩
  · exact .inl null
  · refine .inr ⟨q, member, before, fun covered => ?_, by rw [spaces]; exact now⟩
    rw [spaces]
    exact done ((Heap.covered_congr steady scope q).mp covered)

/-- A place in an object that the program knows. -/
theorem Kept.slot_place (kept : Kept g h pieces) (sound : g.Sound) {s : Spaces}
    (held : s.Held h.memory pieces buffers keys) {o : Piece} (member : o ∈ g.known) {i : Nat} (small : i < g.count o) :
    ∃ r ∈ pieces, r.start = h.spaces.image o ∧ r.start.toNat % 8 = 0 ∧ r.start.toNat < 2 ^ 63 ∧ i < 65536 ∧
      (Object.slotAt (h.spaces.image o) (UInt64.ofNat i)).toNat = r.start.toNat + 8 + 8 * i ∧
      r.span.lo ≤ r.start.toNat ∧ r.start.toNat + 16 + 8 * i ≤ r.span.hi := by
  obtain ⟨r, inside, start, bytes, -⟩ := kept.bodies o member
  have placed := held.placed r inside
  have bound := held.bound inside
  have high := placed.high
  have low := placed.low
  have narrow := (sound.shaped o member).2
  have few : g.count o < 65536 := g.heap.memory.fields_lt _
  rw [← start, toNat_slotAt (by omega) (by omega)]
  exact ⟨r, inside, rfl, placed.aligned, by omega, by omega, rfl, low, by omega⟩

/-- No two fields share a place. -/
theorem Kept.slot_inj (kept : Kept g h pieces) (sound : g.Sound) {s : Spaces}
    (held : s.Held h.memory pieces buffers keys) {o o' : Piece} (member : o ∈ g.known) (member' : o' ∈ g.known)
    {i j : Nat} (small : i < g.count o) (small' : j < g.count o')
    (same : Object.slotAt (h.spaces.image o) (UInt64.ofNat i) = Object.slotAt (h.spaces.image o') (UInt64.ofNat j)) :
    o = o' ∧ i = j := by
  obtain ⟨r, inside, start, -, -, -, place, low, high⟩ := kept.slot_place sound held member small
  obtain ⟨r', inside', start', -, -, -, place', low', high'⟩ := kept.slot_place sound held member' small'
  rw [same, place'] at place
  have equal : r = r' := by
    refine Decidable.byContradiction fun differ => ?_
    have apart := held.apart inside inside' differ
    unfold Span.Apart at apart
    omega
  subst equal
  exact ⟨kept.injective o member o' member' (start.symm.trans start'), by omega⟩

/-- What is settled need not be in a slot that somebody still has to do. -/
theorem Owes.settle {S' : Slot → Prop} (owes : Owes g h pieces S O M) (fewer : ∀ s, S' s → S s)
    (roots : ∀ (i : Nat) a b, g.heap.program.roots[i]? = some a → h.program.roots[i]? = some b →
      S (.root i) → Settled g.known h a b ∨ S' (.root i))
    (fields : ∀ o ∈ g.known, ∀ i < g.count o, S (.field (Object.slotAt (h.spaces.image o) (UInt64.ofNat i))) →
      Settled g.known h (g.target o i) (h.memory.field (h.spaces.image o) i) ∨
        S' (.field (Object.slotAt (h.spaces.image o) (UInt64.ofNat i)))) : Owes g h pieces S' O M where
  slots s member := owes.slots s (fewer s member)
  objects := owes.objects
  remembered := owes.remembered
  roots i a b before now := (owes.roots i a b before now).elim .inl (roots i a b before now)
  fields o member done := (owes.fields o member done).imp id fun rest => rest.imp id fun due i small =>
    (due i small).elim .inl (fields o member i small)
  watched := owes.watched

theorem Closing.write_root (closing : Closing g h pieces S O M) {i : Nat} {w : Address}
    (settled : ∀ a, g.heap.program.roots[i]? = some a → Settled g.known h a w) :
    Closing g (h.setRef (.root i) w) pieces S O M := by
  have scope : h.SameScope (h.setRef (.root i) w) := ⟨rfl, rfl, rfl⟩
  have covered : ∀ p, (h.setRef (.root i) w).Covered p ↔ h.Covered p := fun _ => Iff.rfl
  have kept := closing.kept
  have owes := closing.owes
  have roots : ∀ (j : Nat) b, (h.setRef (.root i) w).program.roots[j]? = some b →
      h.program.roots[j]? = some b ∨ j = i ∧ b = w := by
    intro j b now
    simp only [Heap.setRef, Array.getElem?_setIfInBounds] at now
    split at now
    · split at now
      · exact .inr ⟨by omega, (Option.some.inj now).symm⟩
      · cases now
    · exact .inl now
  have carry : ∀ {v w'}, Settled g.known h v w' → Settled g.known (h.setRef (.root i) w) v w' :=
    fun settled => settled.congr rfl scope
  refine ⟨⟨kept.steady, kept.covered, kept.nursery, kept.stamping, kept.reached, kept.base, kept.copies,
    kept.bodies, kept.injective, kept.content, fun o member j small => (kept.fields o member j small).imp id carry, ?_,
    fun j a b before now => ?_, kept.found, kept.origins⟩, ⟨fun s member => ?_, owes.objects, owes.remembered,
    fun j a b before now => ?_, fun o member done => ?_, owes.watched⟩⟩
  · simp only [Heap.setRef, Array.size_setIfInBounds]
    exact kept.rootCount
  · rcases roots j b now with old | ⟨rfl, rfl⟩
    · exact (kept.roots j a b before old).imp id carry
    · exact .inr (carry (settled a before))
  · simp only [Heap.setRef, Array.size_setIfInBounds]
    exact owes.slots s member
  · rcases roots j b now with old | ⟨rfl, rfl⟩
    · exact (owes.roots j a b before old).imp carry id
    · exact .inl (carry (settled a before))
  · exact (owes.fields o member done).imp id fun rest => rest.imp id fun due j small => (due j small).imp carry id

/-- A change of memory that leaves shapes and payloads alone and brings fields up to date. -/
theorem Closing.rewrite (closing : Closing g h pieces S O M)
    (alike : ∀ o ∈ g.known, Alike h.memory m' (h.spaces.image o) (h.spaces.image o) o.bytes)
    (fields : ∀ o ∈ g.known, ∀ i < g.count o,
      m'.field (h.spaces.image o) i = h.memory.field (h.spaces.image o) i ∨
        Settled g.known h (g.target o i) (m'.field (h.spaces.image o) i))
    (marks : ∀ r ∈ pieces, r.isObject = true → r.Watched g.heap.plan h.memory M → r.Watched g.heap.plan m' M) :
    Closing g { h with memory := m' } pieces S O M := by
  have scope : h.SameScope { h with memory := m' } := ⟨rfl, rfl, rfl⟩
  have kept := closing.kept
  have owes := closing.owes
  have carry : ∀ {v w}, Settled g.known h v w → Settled g.known { h with memory := m' } v w :=
    fun settled => settled.congr rfl scope
  refine ⟨⟨kept.steady, kept.covered, kept.nursery, kept.stamping, kept.reached, kept.base, kept.copies,
    kept.bodies, kept.injective, fun o member => (kept.content o member).trans (alike o member),
    fun o member i small => ?_, kept.rootCount, fun i a b before now => (kept.roots i a b before now).imp id carry,
    kept.found, kept.origins⟩, ⟨owes.slots, owes.objects, owes.remembered,
    fun i a b before now => (owes.roots i a b before now).imp carry id, fun o member done => ?_,
    fun r inside object => marks r inside object (owes.watched r inside object)⟩⟩
  · rcases fields o member i small with same | settled
    · rw [same]
      exact (kept.fields o member i small).imp id carry
    · exact .inr (carry settled)
  · refine (owes.fields o member done).imp id fun rest => rest.imp id fun due i small => ?_
    rcases fields o member i small with same | settled
    · rw [same]
      exact (due i small).imp carry id
    · exact .inl (carry settled)

theorem Closing.write_field (closing : Closing g h pieces S O M) (sound : g.Sound) {s : Spaces}
    (held : s.Held h.memory pieces buffers keys) {o : Piece} (member : o ∈ g.known) {i : Nat} (small : i < g.count o)
    {w : Address} (settled : Settled g.known h (g.target o i) w) :
    Closing g (h.setRef (.field (Object.slotAt (h.spaces.image o) (UInt64.ofNat i))) w) pieces S O M ∧
      (h.setRef (.field (Object.slotAt (h.spaces.image o) (UInt64.ofNat i))) w).memory.field (h.spaces.image o) i = w ∧
      ∀ {s : Spaces} {buffers keys}, s.Held h.memory pieces buffers keys →
        s.Held (h.setRef (.field (Object.slotAt (h.spaces.image o) (UInt64.ofNat i))) w).memory pieces buffers keys := by
  obtain ⟨r, inside, start, aligned, fits, narrow, place, low, high⟩ := closing.kept.slot_place sound held member small
  have count : h.memory.fields (h.spaces.image o) = g.count o := (closing.kept.content o member).fields
  have whole := held.whole inside
  obtain ⟨alike, mine, rest⟩ := @alike_store h.memory r.start o.bytes i w.word aligned
    (by rw [start, count]; exact small) fits
  rw [start] at alike mine rest
  have inner : AgreeOff h.memory (h.memory.store (Object.slotAt (h.spaces.image o) (UInt64.ofNat i)) w.word) r.span :=
    store_agree _ _ _ whole.1 (by omega) (by omega)
  have others := (held.write inside inner).2
  refine ⟨closing.rewrite (fun o' member' => ?_) (fun o' member' j small' => ?_) (fun r' inside' _ watched => watched.congr ?_), mine,
    fun held => (held.write inside inner).1⟩
  · by_cases same : o' = o
    · rw [same]
      exact alike
    · obtain ⟨r', inside', start', bytes', -⟩ := closing.kept.bodies o' member'
      have differ : r' ≠ r := fun equal =>
        same (closing.kept.injective o' member' o member (by rw [← start', ← start, equal]))
      have placed := held.placed r' inside'
      rw [← start', ← bytes']
      exact (alike_of_agree (others r' inside' differ) placed.aligned placed.low (held.whole inside').1 placed.high
        placed.room).1
  · by_cases same : o' = o
    · rw [same]
      by_cases index : j = i
      · rw [index, mine]
        exact .inr settled
      · exact .inl (rest j index)
    · obtain ⟨r', inside', start', bytes', -⟩ := closing.kept.bodies o' member'
      have differ : r' ≠ r := fun equal =>
        same (closing.kept.injective o' member' o member (by rw [← start', ← start, equal]))
      have placed := held.placed r' inside'
      have narrow' := (sound.shaped o' member').2
      rw [← start']
      exact .inl ((alike_of_agree (others r' inside' differ) placed.aligned placed.low (held.whole inside').1
        placed.high placed.room).2 j (by omega))
  · by_cases same : r' = r
    · rw [same, mark_eq _ (by omega), mark_eq _ (by omega), byte_store _ _ _ _ (by omega)]
    · exact mark_of_agree (held.placed r' inside') (held.whole inside') (held.bound inside') (others r' inside' same)

/-- A remembered object that is taken may be remembered again. -/
theorem Closing.write_mark (closing : Closing g h pieces S O M) (sound : g.Sound) {s : Spaces}
    (held : s.Held h.memory pieces buffers keys) (inside : p ∈ pieces) (object : p.isObject = true)
    (watching : g.heap.plan.watches p.home = true) :
    Closing g { h with memory := h.memory.setMark p.start (h.memory.mark p.start).unlogged } pieces S O M ∧
      p.Stamped (h.memory.setMark p.start (h.memory.mark p.start).unlogged) (g.heap.plan.watches p.home) ∧
      ∀ {s : Spaces} {buffers keys}, s.Held h.memory pieces buffers keys →
        s.Held (h.memory.setMark p.start (h.memory.mark p.start).unlogged) pieces buffers keys := by
  have placed := held.placed p inside
  have bound := held.bound inside
  have low := placed.low
  have room := placed.room
  have inner : AgreeOff h.memory (h.memory.setMark p.start (h.memory.mark p.start).unlogged) p.span :=
    (setMark_agree _ _ (by omega) placed.aligned).mono ⟨low, by simp only; omega⟩
  have others := (held.write inside inner).2
  have unlogged : p.Stamped (h.memory.setMark p.start (h.memory.mark p.start).unlogged) (g.heap.plan.watches p.home) :=
    (closing.owes.watched p inside object).unlog watching (mark_setMark _ _ (by omega))
  refine ⟨closing.rewrite (fun o member => ?_) (fun o member i small => .inl ?_) (fun r inside' _ old => ?_), unlogged,
    fun held => (held.write inside inner).1⟩
  · obtain ⟨r, inside', start, bytes, -⟩ := closing.kept.bodies o member
    rw [← start, ← bytes]
    by_cases same : r = p
    · rw [same]
      exact (alike_setMark _ placed.aligned (by omega)).1
    · have placed' := held.placed r inside'
      exact (alike_of_agree (others r inside' same) placed'.aligned placed'.low (held.whole inside').1 placed'.high
        placed'.room).1
  · obtain ⟨r, inside', start, bytes, -⟩ := closing.kept.bodies o member
    rw [← start]
    by_cases same : r = p
    · rw [same]
      exact (@alike_setMark _ _ 0 _ placed.aligned (by omega)).2 i
    · have placed' := held.placed r inside'
      have narrow := (sound.shaped o member).2
      exact (alike_of_agree (others r inside' same) placed'.aligned placed'.low (held.whole inside').1 placed'.high
        placed'.room).2 i (by omega)
  · by_cases same : r = p
    · rw [same]
      exact .fresh unlogged
    · exact old.congr
        (mark_of_agree (held.placed r inside') (held.whole inside') (held.bound inside') (others r inside' same))

end TracingHeap
