import Mathlib.Data.List.Nodup
import TracingHeap.Proofs.Cycles

/-! The collector's byte of an object, as it is between collections. It is determined by where the object is and by
whether the write barrier has recorded it; there is nothing else in it. -/

namespace TracingHeap

open List Memory

/-! ### Which space an address is in -/

/-- The layout answers the tag of the space that holds an address. -/
theorem Spaces.Charted.tagOf {s : Spaces} {l : Layout} {id : SpaceId} {a : Address} (charted : s.Charted l) (laid : s.LaidOut)
    (low : (s.space id).extent.span.lo ≤ a.toNat) (high : a.toNat < (s.space id).extent.span.hi) :
    l.tagOf a = .ok (some (s.space id).extent.tag) := by
  have placed : ∀ x ∈ l.spaces.toList, x.2.Placed := fun x member => by
    have there : x.2 ∈ [SpaceId.first, .second, .immortal, .large].map fun id => (s.space id).extent :=
      charted ▸ mem_map_of_mem member
    obtain ⟨id', -, same⟩ := mem_map.mp there
    exact same ▸ laid.placed id'
  have holds : ∀ id', (s.space id').extent.holds a = decide (id' = id) := fun id' => by
    rw [Bool.eq_iff_iff, decide_eq_true_iff]
    exact ⟨fun holds => laid.unique holds low high, fun same => Extent.holds_iff.mpr (same ▸ ⟨low, high⟩)⟩
  have found : (l.spaces.toList.find? fun x => x.2.holds a).map Prod.snd = some (s.space id).extent := by
    rw [show (fun x : String × Extent => x.2.holds a) = (fun e : Extent => e.holds a) ∘ Prod.snd from rfl, ← find?_map, charted,
      find?_map]
    simp only [Function.comp_def, holds]
    cases id <;> rfl
  rw [Layout.tagOf_eq placed]
  have tag := congrArg (Option.map Extent.tag) found
  rw [Option.map_map] at tag
  exact congrArg Except.ok tag

/-! ### What the byte says -/

/-- In every state between collections, whatever the program did before: the collector's byte of an object is the tag of
the one space that holds it, as the layout knows it too, with the unlogged bit where the barrier watches and has not
recorded the object. Nothing is recorded twice, and only objects are. -/
theorem World.Reachable.bytes_tell {w : World} (reachable : w.Reachable) :
    (∀ t ∈ w.tenants, t.isObject = true → ∃ id,
      (∀ id', (w.heap.spaces.space id').extent.holds t.start = true ↔ id' = id) ∧
      w.heap.layout.tagOf t.start = .ok (some (w.heap.spaces.space id).extent.tag) ∧
      (w.heap.memory.mark t.start).tag? = some (w.heap.spaces.space id).extent.tag ∧
      ((w.heap.memory.mark t.start).isUnlogged = true ↔
        w.heap.plan = .generational ∧ id ≠ .first ∧ t.start ∉ w.heap.recorded) ∧
      w.heap.memory.mark t.start =
        .fresh (w.heap.spaces.space id).extent.tag (w.heap.memory.mark t.start).isUnlogged) ∧
    ∀ a ∈ w.heap.recorded, w.heap.recorded.count a = 1 ∧ ∃ t ∈ w.tenants, t.start = a ∧ t.isObject = true := by
  obtain ⟨pieces, objects, sound⟩ := reachable.sound
  have held := sound.quiet.held
  refine ⟨fun t had object => ?_, fun a noted => ⟨count_eq_one_of_mem sound.logged.single noted, ?_⟩⟩
  · obtain ⟨p, member, rfl⟩ := (sound.tenants t).mp had
    obtain ⟨low, high⟩ := held.inside member
    obtain ⟨unlogged, stamped, iff⟩ := sound.logged.stamped p member object
    have stamped : w.heap.memory.mark p.start = .fresh p.home.tag unlogged := stamped
    refine ⟨p.home, fun id' => ⟨fun holds => held.estate.laid.unique holds low high, fun same => ?_⟩,
      sound.charted.tagOf held.estate.laid low high, ?_, ?_, ?_⟩
    · exact Extent.holds_iff.mpr (same ▸ ⟨low, high⟩)
    · rw [sound.tags, Piece.tenant, stamped, Object.Mark.fresh_tag]
    · rw [Piece.tenant, stamped, Object.Mark.fresh_isUnlogged, iff, Plan.watches_iff, and_assoc]
    · rw [sound.tags, Piece.tenant, stamped, Object.Mark.fresh_isUnlogged]
  · obtain ⟨o, known, rfl, -⟩ := sound.knows.recorded a noted
    obtain ⟨member, object, -⟩ := sound.knows.known o known
    exact ⟨o.tenant, (sound.tenants _).mpr ⟨o, member, rfl⟩, rfl, object⟩

/-- The first program has stored a reference into its large object and none into its mature one. -/
theorem World.sample_bytes_tell : sample.heap.recorded = [largeAt] ∧ sample.heap.memory.mark largeAt = .fresh SpaceId.large.tag false ∧
    sample.heap.memory.mark matureAt = .fresh SpaceId.second.tag true := by
  have recorded : sample.heap.recorded = [largeAt] := by decide +kernel
  have marked := sample_reachable.bytes_tell.1
  obtain ⟨id, here, -, -, unlogged, mark⟩ := marked ⟨largeAt, 12288, .large, true⟩ (by simp [sample_tenants]) rfl
  obtain ⟨id', here', -, -, unlogged', mark'⟩ := marked ⟨matureAt, 1024, .second, true⟩ (by simp [sample_tenants]) rfl
  obtain rfl := (here .large).mp (by decide +kernel)
  obtain rfl := (here' .second).mp (by decide +kernel)
  refine ⟨recorded, mark.trans ?_, mark'.trans ?_⟩
  · rw [Bool.eq_false_iff.mpr fun bad => (unlogged.mp bad).2.2 (recorded ▸ List.mem_singleton_self _)]
    decide +kernel
  · rw [unlogged'.mpr ⟨by decide +kernel, by decide, by rw [recorded]; decide⟩]
    decide +kernel

end TracingHeap
