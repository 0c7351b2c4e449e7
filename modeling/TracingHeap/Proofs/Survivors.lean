import TracingHeap.Proofs.Liveness

/-! What becomes of memory in a collection. As soon as the closure is over, the heap can tell: objects of the space that
was emptied go where their copies are, what the spaces count as live stays, and the rest is reclaimed. -/

namespace TracingHeap

open List Memory

/-- Memory that the program was given or a collector has copied into: where it starts, how much was asked for, the space
that it is in, and whether an object was made of it. -/
structure Tenant where
  start : Address
  bytes : Nat
  home : SpaceId
  isObject : Bool
  deriving DecidableEq

/-- A piece, without the room around it. -/
def Piece.tenant (p : Piece) : Tenant := ⟨p.start, p.bytes, p.home, p.isObject⟩

theorem Forwarding.copyOf_eq {f : Forwarding} {a : Address} {state : UInt8} {copy : Word} (seen : f.stateOf a = .ok state)
    (loaded : f.copies.load a = .ok copy) :
    f.copyOf a = if state = ForwardingState.forwarded then .ok ⟨copy⟩ else .error (.notForwarded a) := by
  rw [copyOf, isForwarded, seen]
  by_cases forwarded : state = ForwardingState.forwarded
  · rw [if_pos forwarded, forwarded]
    change Except.bind (f.copies.load a) _ = _
    rw [loaded]
    rfl
  · rw [if_neg forwarded, Except.map, beq_eq_false_iff_ne.mpr forwarded]
    rfl

namespace Heap

/-- Does the memory stay in use where it is? Large memory is only ever taken back after an object was made of it. -/
def keeps (h : Heap) (t : Tenant) : Bool :=
  if t.home = .large ∧ t.isObject = false then true else (h.isLive t.start).toOption.getD false

/-- What becomes of memory in the collection whose closure has just ended, unless it is reclaimed. -/
def fate (h : Heap) (t : Tenant) : Option Tenant :=
  match h.spaces.space t.home with
  | .copying x =>
    if x.evacuating then
      (x.forwarding.copyOf t.start).toOption.map fun copy => { t with start := copy, home := h.destination }
    else some t
  | _ => if h.keeps t then some t else none

/-- Whatever has a copy is where that is. -/
theorem fate_evacuated {h : Heap} {pieces : List Piece} {buffers : List (SpaceId × Span)} {keys : List (Nat × Address)} {p : Piece}
    {t : Tenant} (held : h.spaces.Held h.memory pieces buffers keys) (tracked : h.spaces.Tracked pieces) (member : p ∈ pieces)
    (moves : h.spaces.Evacuates p.home) : h.fate p.tenant = some t ↔
      h.spaces.Reached p ∧ t = ⟨h.spaces.image p, p.bytes, h.destination, p.isObject⟩ := by
  obtain ⟨low, high⟩ := held.inside member
  have placed := held.estate.laid.placed p.home
  rw [fate]
  change (match h.spaces.space p.home with | .copying x => _ | _ => _) = _ ↔ _
  unfold Spaces.Evacuates at moves
  unfold Spaces.Reached Spaces.image
  cases space : h.spaces.space p.home with
  | markSweep x => rw [space] at moves; exact moves.elim
  | immortal x => rw [space] at moves; exact moves.elim
  | large x => rw [space] at moves; exact moves.elim
  | copying x =>
    rw [space] at moves low high placed
    have tables := tracked.copying p.home x space
    have state := tables.states.loadByte_total placed rfl (by decide) low high
    have copy := tables.copies.load_total placed rfl (by decide) low high
    simp only [moves, if_true, Piece.tenant, Forwarding.copyOf_eq state copy, ForwardingState.forwarded]
    by_cases forwarded : x.forwarding.states.entryByte p.start = 3
    · simp only [forwarded, if_true, Except.toOption, Option.map_some, Option.some.injEq, true_and]
      exact eq_comm
    · simp [forwarded, Except.toOption]

namespace Traced

variable {h₀ h₁ h : Heap} {cs₀ cs : List Collector} {pieces₀ known pieces : List Piece} {full : Bool} {p : Piece} {t : Tenant}

/-- What was copied is where its copy is, and the rest of the space is given up. -/
theorem fate_of_moved (traced : h₀.Traced h₁ h cs₀ cs pieces₀ known pieces full) (member : p ∈ pieces)
    (moves : h.spaces.Evacuates p.home) : h.fate p.tenant = some t ↔
      h.spaces.Reached p ∧ t = ⟨h.spaces.image p, p.bytes, h.destination, p.isObject⟩ :=
  fate_evacuated traced.shared.held traced.shared.tracked member moves

/-- What does not move stays as long as it is retained. -/
theorem fate_of_still (traced : h₀.Traced h₁ h cs₀ cs pieces₀ known pieces full) (member : p ∈ pieces)
    (stays : ¬ h.spaces.Evacuates p.home) : h.fate p.tenant = some t ↔ h.Retains p ∧ t = p.tenant := by
  have keeps : h.keeps p.tenant = true ↔ h.Retains p := by
    rw [Heap.keeps, Retains, and_iff_right stays]
    by_cases raw : p.home = .large ∧ p.isObject = false
    · simp only [Piece.tenant, raw, and_self, if_true, true_or, or_true, implies_true]
    · have object : p.home = .large → p.isObject = true := fun home => by simpa [home] using raw
      obtain ⟨b, live, exact_⟩ := isLive_ok traced.shared.held traced.shared.tracked member object
      simp only [Piece.tenant, raw, if_false, live, Except.toOption, Option.getD_some, exact_, Done, false_or]
      by_cases home : p.home = .immortal <;> simp [home]
  have same : some p.tenant = some t ↔ t = p.tenant := by rw [Option.some.injEq, eq_comm]
  rw [fate]
  change (match h.spaces.space p.home with | .copying x => _ | _ => _) = _ ↔ _
  cases space : h.spaces.space p.home with
  | copying x =>
    have settled : ¬ x.evacuating = true := by
      unfold Spaces.Evacuates at stays
      rwa [space] at stays
    have retained : h.Retains p := by
      refine ⟨stays, fun covered => absurd ?_ settled⟩
      unfold Covered at covered
      rwa [space] at covered
    simp only [if_neg settled, same, retained, true_and]
  | markSweep x => rw [← keeps, Option.ite_none_right_eq_some, same]
  | immortal x => rw [← keeps, Option.ite_none_right_eq_some, same]
  | large x => rw [← keeps, Option.ite_none_right_eq_some, same]

/-- A piece that was not there before the closure is the copy of an object, if one of these is there now. -/
theorem copy_of_known (traced : h₀.Traced h₁ h cs₀ cs pieces₀ known pieces full) {r o : Piece} (member : r ∈ pieces)
    (new : r ∉ pieces₀) (source : o ∈ known) (start : r.start = h.spaces.image o) :
    h.spaces.Evacuates o.home ∧ h.spaces.Reached o ∧ r.bytes = o.bytes := by
  have kept := traced.closing.kept
  have old := (traced.sound.known o source).1
  have there := kept.base o old
  have moved : h.spaces.image o ≠ o.start := fun same =>
    new (traced.shared.held.start_inj member there (start.trans same) ▸ old)
  have evacuates : h.spaces.Evacuates o.home := by
    refine Classical.byContradiction fun stays => moved ?_
    exact traced.shared.tracked.image_eq traced.shared.held there stays
  have reached : h.spaces.Reached o := Classical.byContradiction fun missed => moved (Spaces.image_of_not_reached missed)
  obtain ⟨r', inside, start', bytes, -⟩ := kept.bodies o source
  rw [traced.shared.held.start_inj member inside (start.trans start'.symm)]
  exact ⟨evacuates, reached, bytes⟩

/-- An object that the collection is done with is in a piece that is retained. -/
theorem body_of_done (traced : h₀.Traced h₁ h cs₀ cs pieces₀ known pieces full) {o : Piece} (member : o ∈ known)
    (done : h.Done o) : ∃ r ∈ pieces, h.Retains r ∧ r.start = h.spaces.image o ∧ r.bytes = o.bytes ∧ r.isObject = true ∧
      (r = o ∧ ¬ h.spaces.Evacuates o.home ∨ r ∉ pieces₀ ∧ r.home = h.destination ∧ h.spaces.Evacuates o.home) := by
  have kept := traced.closing.kept
  obtain ⟨old, object, -⟩ := traced.sound.known o member
  by_cases moves : h.spaces.Evacuates o.home
  · have covered : h.Covered o := by
      unfold Spaces.Evacuates at moves
      unfold Covered
      cases space : h.spaces.space o.home <;> rw [space] at moves <;> first | exact moves | exact moves.elim
    obtain ⟨r, inside, start, bytes, ⟨-, bad⟩ | new⟩ := kept.bodies o member
    · exact absurd (done covered) (bad moves)
    · obtain ⟨object', done', home, -⟩ := kept.copies r inside new
      exact ⟨r, inside, ⟨home ▸ traced.shared.still, fun covered => .inr (.inr (done' covered))⟩, start, bytes, object',
        .inr ⟨new, home, moves⟩⟩
  · have there := kept.base o old
    exact ⟨o, there, ⟨moves, fun covered => .inr (.inr (done covered))⟩,
      (traced.shared.tracked.image_eq traced.shared.held there moves).symm, rfl, object, .inl ⟨rfl, moves⟩⟩

end Traced

/-- What is left of the pieces: those that were there before and stay, and the copies of objects that the program knew. -/
structure Sifted (h : Heap) (pieces₀ known pieces kept : List Piece) : Prop where
  fewer : kept <+ pieces
  retained : ∀ p ∈ kept, h.Retains p
  complete : ∀ p ∈ pieces, p.home = .large → p.isObject = true → h.spaces.Reached p → p ∈ kept
  tenants : ∀ t, (∃ p ∈ kept, p.tenant = t) ↔ ∃ p ∈ pieces₀, h.fate p.tenant = some t
  images : ∀ o ∈ known, h.Done o → ∃ r ∈ kept, r.start = h.spaces.image o ∧ r.bytes = o.bytes ∧ r.isObject = true ∧
    (r = o ∧ ¬ h.spaces.Evacuates o.home ∨ r ∉ pieces₀ ∧ r.home = h.destination ∧ h.spaces.Evacuates o.home)

namespace Traced

variable {h₀ h₁ h : Heap} {cs₀ cs : List Collector} {pieces₀ known pieces : List Piece} {full : Bool}

open Classical in
theorem sifted (traced : h₀.Traced h₁ h cs₀ cs pieces₀ known pieces full) :
    ∃ kept, h.Sifted pieces₀ known pieces kept := by
  have kept := traced.closing.kept
  let stays (r : Piece) : Prop := h.Retains r ∧ (r ∈ pieces₀ ∨ ∃ o ∈ known, r.start = h.spaces.image o)
  have inside : ∀ {r}, r ∈ pieces.filter (decide <| stays ·) ↔ r ∈ pieces ∧ stays r := by simp
  refine ⟨pieces.filter (decide <| stays ·), filter_sublist, fun p member => (inside.mp member).2.1, fun p member home object on => ?_,
    fun t => ⟨?_, ?_⟩, fun o member done => ?_⟩
  · have there : p ∈ pieces₀ := by
      refine Classical.byContradiction fun new => ?_
      obtain ⟨-, -, copied, -⟩ := kept.copies p member new
      obtain ⟨x, bad⟩ | ⟨x, bad, -⟩ := h.destination_cases <;> rw [← copied, home] at bad <;> cases bad
    have still : ¬ h.spaces.Evacuates p.home := by rw [home]; exact id
    exact inside.mpr ⟨member, ⟨still, fun _ => .inr (.inr on)⟩, .inl there⟩
  · rintro ⟨p, member, rfl⟩
    obtain ⟨there, retained, old | ⟨o, source, start⟩⟩ := inside.mp member
    · exact ⟨p, old, (traced.fate_of_still there retained.1).mpr ⟨retained, rfl⟩⟩
    · by_cases old : p ∈ pieces₀
      · exact ⟨p, old, (traced.fate_of_still there retained.1).mpr ⟨retained, rfl⟩⟩
      obtain ⟨moves, reached, bytes⟩ := traced.copy_of_known there old source start
      obtain ⟨object, -, home, -⟩ := kept.copies p there old
      obtain ⟨before, object', -⟩ := traced.sound.known o source
      refine ⟨o, before, (traced.fate_of_moved (kept.base o before) moves).mpr ⟨reached, ?_⟩⟩
      rw [Piece.tenant, start, bytes, home, object, object']
  · rintro ⟨p, old, became⟩
    have there := kept.base p old
    by_cases moves : h.spaces.Evacuates p.home
    · obtain ⟨reached, rfl⟩ := (traced.fate_of_moved there moves).mp became
      have source : p ∈ known := by
        rcases kept.found p old reached with before | ⟨source, -⟩
        · exact absurd before (traced.sound.unmoved p old ((kept.evacuates p.home).mp moves))
        · exact source
      obtain ⟨r, place, retained, start, bytes, object, ⟨-, stays⟩ | ⟨-, home, -⟩⟩ :=
        traced.body_of_done source fun _ => reached
      · exact absurd moves stays
      · refine ⟨r, inside.mpr ⟨place, retained, .inr ⟨p, source, start⟩⟩, ?_⟩
        rw [Piece.tenant, start, bytes, home, object, (traced.sound.known p source).2.1]
    · obtain ⟨retained, rfl⟩ := (traced.fate_of_still there moves).mp became
      exact ⟨p, inside.mpr ⟨there, retained, .inl old⟩, rfl⟩
  · obtain ⟨r, there, retained, start, rest⟩ := traced.body_of_done member done
    exact ⟨r, inside.mpr ⟨there, retained, .inr ⟨o, member, start⟩⟩, start, rest⟩

end Traced

end Heap

end TracingHeap
