import Mathlib.Data.Set.Function
import TracingHeap.Proofs.Intact

/-! Large objects between collections. The lists of the treadmill, the marks and the live runs of pages are three records
of the same objects. Allocations and collections change them at different times and in different ways, and they agree
whenever every run that was handed out has been made an object. -/

namespace TracingHeap

open List Memory Relation

/-- The object is on one of the lists. -/
def Treadmill.Lists (t : Treadmill) (o : Address) : Prop := o ∈ t.fresh ∨ o ∈ t.survivors ∨ o ∈ t.young ∨ o ∈ t.old

namespace Pages.Runs

variable {r : Runs}

/-- Where the live runs start. -/
def starts (r : Runs) : Set Address := {a | ∃ run ∈ r.map.live, r.addressOf run.first = .ok a}

theorem mem_starts {a : Address} (placed : r.extent.Placed) (sound : r.Sound) : a ∈ r.starts ↔ r.Begins a := by
  refine exists_congr fun run => and_congr_right fun live => ?_
  have inside := sound.spanOf_within live
  have fits := placed.fits
  simp only [Span.Within, spanOf, Extent.span, Span.ofBytes] at inside
  have number : (UInt64.ofNat run.first).toNat = run.first := by
    rw [UInt64.toNat_ofNat']
    exact Nat.mod_eq_of_lt (by omega)
  have bytes : (Word.ofPages (UInt64.ofNat run.first)).toNat = 4096 * run.first := by
    rw [Word.toNat_ofPages (by rw [number]; omega), number, Nat.mul_comm]
  have room : r.extent.start.toNat + (Word.ofPages (UInt64.ofNat run.first)).toNat < 2 ^ 64 := by omega
  rw [addressOf, Address.above_fits room, Except.ok.injEq, ← Address.toNat_inj, Address.toNat_plus room, bytes]
  exact eq_comm

end Pages.Runs

/-- Each piece of large memory has a live run of its own, which starts with the page that it starts in, and if every live run
is the room of a piece, there are no others. -/
theorem Spaces.Held.large_runs {s : Spaces} {m : Memory} {pieces : List Piece} {buffers : List (SpaceId × Span)}
    {keys : List (Nat × Address)} (held : s.Held m pieces buffers keys) (occupied : s.Occupied (pieces.map Piece.held)) :
    Set.BijOn (fun o => o.alignDown Word.pageBytes) {a | ∃ p ∈ pieces, p.home = .large ∧ p.start = a} s.large.pages.starts := by
  have placed := held.estate.laid.placed .large
  have supplied := held.estate.supplied .large
  refine ⟨?_, ?_, ?_⟩
  · rintro _ ⟨p, member, home, rfl⟩
    exact (Pages.Runs.mem_starts placed supplied).mpr (held.runStart member home).2
  · rintro _ ⟨p, member, home, rfl⟩ _ ⟨q, member', home', rfl⟩ same
    rw [held.runStart_inj member member' home home' same]
  · intro a start
    obtain ⟨run, live, first⟩ := (Pages.Runs.mem_starts placed supplied).mp start
    obtain ⟨p, member, room⟩ := mem_map.mp (occupied run live)
    have home : p.home = .large := congrArg Prod.fst room
    have span : p.span = s.large.pages.spanOf run := congrArg Prod.snd room
    refine ⟨p.start, ⟨p, member, home, rfl⟩, Address.toNat_inj.mp ?_⟩
    rw [first, ← span]
    exact (held.runStart member home).1

/-- The large object space is in order, with certain objects. -/
structure LargeSpace.Orderly (x : LargeSpace) (objects : Set Address) : Prop where
  /-- Nothing is left on the collected lists. -/
  settled : ∀ o, o ∉ x.treadmill.young ∧ o ∉ x.treadmill.old
  /-- The objects are the ones on the lists. -/
  listed : ∀ o, x.treadmill.Lists o ↔ o ∈ objects
  /-- Each has a live run of pages of its own, which starts with the page that it starts in, and there are no others. -/
  runs : Set.BijOn (fun o => o.alignDown Word.pageBytes) {o | x.treadmill.Lists o} x.pages.starts
  /-- The mark of an object says whether it is new. -/
  fresh : ∀ o ∈ objects, o ∈ x.treadmill.fresh ↔ x.marks.loadByte o = .ok (x.current ||| LargeSpace.youngBit)
  /-- The mark of an object says whether it has survived a collection. -/
  survivors : ∀ o ∈ objects, o ∈ x.treadmill.survivors ↔ x.marks.loadByte o = .ok x.current

namespace World

variable {w : World} {pieces objects : List Piece}

/-- Where the large objects of a program are. -/
def larges (w : World) : Set Address := {a | ∃ t ∈ w.tenants, t.home = .large ∧ t.start = a}

/-- When every run has been made an object, the large objects are in order. -/
theorem Sound.larges_in_order (sound : w.Sound pieces objects) (made : ∀ t ∈ w.tenants, t.home = .large → t.isObject = true) :
    w.heap.spaces.large.Orderly w.larges := by
  have tracked := sound.quiet.tracked.large
  have held := sound.quiet.held
  have placed := held.estate.laid.placed .large
  have object : ∀ p ∈ pieces, p.home = .large → p.isObject = true := fun p member home =>
    made p.tenant ((sound.tenants _).mpr ⟨p, member, rfl⟩) home
  have piece : ∀ o, w.heap.spaces.large.treadmill.Lists o ↔ ∃ p ∈ pieces, p.home = .large ∧ p.start = o := fun o =>
    ⟨fun lists => (tracked.listed o lists).imp fun p ⟨member, home, _, start⟩ => ⟨member, home, start⟩,
      fun ⟨p, member, home, start⟩ => start ▸ tracked.complete p member home (object p member home)⟩
  have large : ∀ o, o ∈ w.larges ↔ ∃ p ∈ pieces, p.home = .large ∧ p.start = o := by
    refine fun o => ⟨fun ⟨t, member, home, start⟩ => ?_, fun ⟨p, member, home, start⟩ => ?_⟩
    · obtain ⟨p, inside, rfl⟩ := (sound.tenants t).mp member
      exact ⟨p, inside, home, start⟩
    · exact ⟨p.tenant, (sound.tenants _).mpr ⟨p, member, rfl⟩, home, start⟩
  -- Between collections an object is new or has survived one, and its mark says which.
  have marked : ∀ o ∈ w.larges, ∃ mark, w.heap.spaces.large.marks.loadByte o = .ok mark ∧
      (o ∈ w.heap.spaces.large.treadmill.fresh ∧ mark = w.heap.spaces.large.current ||| LargeSpace.youngBit ∨
        o ∈ w.heap.spaces.large.treadmill.survivors ∧ mark = w.heap.spaces.large.current) := by
    intro o member
    obtain ⟨p, inside, home, rfl⟩ := (large o).mp member
    obtain ⟨low, high⟩ := held.inside inside
    rw [home] at low high
    refine ⟨_, tracked.table.loadByte_total placed rfl (Nat.le_refl 12) low high, ?_⟩
    rcases (piece p.start).mpr ⟨p, inside, home, rfl⟩ with new | old | young | waits
    · exact .inl ⟨new, tracked.fresh _ new⟩
    · exact .inr ⟨old, tracked.survivors _ old⟩
    · exact absurd young (sound.quiet.settled _).1
    · exact absurd waits (sound.quiet.settled _).2
  have differ : w.heap.spaces.large.current ||| LargeSpace.youngBit ≠ w.heap.spaces.large.current := by
    rcases tracked.current with current | current <;> rw [current] <;> decide
  refine ⟨sound.quiet.settled, fun o => (piece o).trans (large o).symm, ?_, ?_, ?_⟩
  · rw [show {o | w.heap.spaces.large.treadmill.Lists o} = _ from Set.ext piece]
    exact held.large_runs sound.occupied
  · intro o member
    obtain ⟨mark, load, ⟨new, rfl⟩ | ⟨old, rfl⟩⟩ := marked o member
    · exact ⟨fun _ => load, fun _ => new⟩
    · rw [load, Except.ok.injEq]
      refine ⟨fun new => ?_, fun same => absurd same.symm differ⟩
      exact (tracked.survivors o old).symm.trans (tracked.fresh o new)
  · intro o member
    obtain ⟨mark, load, ⟨new, rfl⟩ | ⟨old, rfl⟩⟩ := marked o member
    · rw [load, Except.ok.injEq]
      refine ⟨fun old => ?_, fun same => absurd same differ⟩
      exact (tracked.fresh o new).symm.trans (tracked.survivors o old)
    · exact ⟨fun _ => load, fun _ => old⟩

/-- Between collections, when every run has been made an object, the large objects of a program are in order. Whatever the
program does next, and in whatever order the collectors of its next collection take their steps, nobody finds that an object
is missing from its list or that a run to be given back is not live. -/
theorem Reachable.large_orderly (reachable : w.Reachable) :
    ((∀ t ∈ w.tenants, t.home = .large → t.isObject = true) → w.heap.spaces.large.Orderly w.larges) ∧
      (∀ (op : Heap.Operation) (e : Fault) (h : Heap), op.step w.heap = .error e h → e.isAstray = false) ∧
      ∀ (group : Array Collector) (c : Crew) (h : Heap), w.heap.collectors = some group →
        ReflTransGen Heap.Moves (.ofCollectors group, w.heap.stopped) (c, h) → ∀ e, c.fault = some e → e.isAstray = false := by
  obtain ⟨pieces, objects, sound⟩ := reachable.sound
  exact ⟨sound.larges_in_order, fun op e h broken => op.step_sure w.heap e h broken,
    fun group c h there steps => sound.collection_sure there steps⟩

/-- The large object of the first program is a new one, and has the only live run of pages. -/
theorem sample_large_orderly : sample.heap.spaces.large.Orderly {largeAt} ∧ largeAt ∈ sample.heap.spaces.large.treadmill.fresh ∧
    sample.heap.spaces.large.pages.starts = {largeAt} := by
  have larges : sample.larges = {largeAt} := by
    refine Set.ext fun a => ?_
    simp [larges, sample_tenants, eq_comm]
  have made : ∀ t ∈ sample.tenants, t.home = .large → t.isObject = true := by simp [sample_tenants]
  have orderly := sample_reachable.large_orderly.1 made
  rw [larges] at orderly
  refine ⟨orderly, (orderly.fresh _ rfl).mpr ?_, ?_⟩
  · decide +kernel
  · rw [← orderly.runs.image_eq]
    simp only [orderly.listed, Set.ofPred_mem_eq, Set.image_singleton]
    rfl

end World

end TracingHeap
