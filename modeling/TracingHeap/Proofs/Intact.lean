import TracingHeap.Proofs.Astray
import TracingHeap.Proofs.Turns

/-! No collection loses its way. It loses track neither of large objects nor of page runs: saving an object and giving runs
back are the only steps that can find something missing. An object is saved when it is reached for the first time, and then
it waits on one of the collected lists; and whatever is given back, a dead large object or a block without a live cell,
starts a live run of its own. And no space, no collector and no work that is left is found at another point of the
collection than it has to be, since whoever starts a phase finds everything in place for it. -/

namespace TracingHeap

open List Memory Work Step

/-! ### Giving runs back -/

namespace Pages.Runs

variable {r r' : Runs} {m m' : Memory} {a b : Address} {pages : Word} {rest : List Address}

/-- A live run starts at the address. -/
def Begins (r : Runs) (a : Address) : Prop := ∃ run ∈ r.map.live, a.toNat = (r.spanOf run).lo

/-- Live runs start at these addresses, so they can be given back one after the other. -/
structure Returnable (r : Runs) (starts : List Address) : Prop where
  placed : r.extent.Placed
  sound : r.Sound
  begins : ∀ a ∈ starts, r.Begins a
  distinct : starts.Nodup

/-- The run that starts at an address is found there. -/
theorem Begins.release_sureAt (begins : r.Begins a) : SureAt (release a) (r, m) := by
  obtain ⟨run, live, start⟩ := begins
  simp only [spanOf] at start
  unfold release
  refine SureAt.bind (sure_get _) fun _ _ same => ?_
  cases same
  refine SureAt.bind (sure_lift (pageOf_sure r a) _) fun first s page => ?_
  rw [Step.lift_ok] at page
  obtain ⟨page, rfl⟩ := page
  have index : first = run.first := by
    simp only [pageOf, except_bind_ok, except_pure_ok] at page
    obtain ⟨inside, away, rfl⟩ := page
    obtain ⟨above, amount⟩ := Address.toNat_distance away
    rw [UInt64.toNat_shiftRight, amount, Nat.shiftRight_eq_div_pow]
    have log : Word.logPage.toNat % 64 = 12 := rfl
    rw [log]
    omega
  have found : ∃ run', r.map.liveAt? first = some run' := by
    rw [index]
    exact Option.isSome_iff_exists.mp (find?_isSome.mpr ⟨run, live, beq_self_eq_true _⟩)
  obtain ⟨run', found⟩ := found
  simp only [found]
  exact (sure_bind (sure_modify _) fun _ => sure_bind (sure_on (Ledger.release_sure _)) fun _ =>
    sure_bind (sure_modify _) fun _ => sure_pure _ : Sure _) _

/-- The other runs stay where they are. -/
theorem Returnable.release (returnable : r.Returnable (a :: rest)) (ok : release a (r, m) = .ok pages (r', m')) :
    r'.Returnable rest := by
  obtain ⟨run, member, above, first, -, extent, sound, live, -⟩ := release_ok returnable.placed returnable.sound ok
  obtain ⟨absent, distinct⟩ := nodup_cons.mp returnable.distinct
  refine ⟨extent ▸ returnable.placed, sound, fun b inside => ?_, distinct⟩
  obtain ⟨own, live', start⟩ := returnable.begins b (mem_cons_of_mem _ inside)
  obtain ⟨mine, -, start'⟩ := returnable.begins a mem_cons_self
  simp only [spanOf] at start start'
  have other : own ≠ run := by
    rintro rfl
    refine absent ((Address.toNat_inj.mp ?_ : a = b) ▸ inside)
    omega
  refine ⟨own, (mem_cons.mp (live.mem_iff.mp live')).resolve_left other, ?_⟩
  simp only [spanOf, extent]
  exact start

end Pages.Runs

namespace LargeSpace

variable {x y : LargeSpace} {m m' : Memory} {objects rest : List Address} {u : Unit}

/-- The first page of an object. -/
def runStart (o : Address) : Address := o.alignDown Word.pageBytes

/-- Dead objects whose runs can be given back one after the other are reclaimed. -/
theorem reclaims_sureAt (returnable : x.pages.Returnable ((objects ++ rest).map runStart)) :
    SureAt (objects.forM reclaim) (x, m) ∧ ∀ u y m', objects.forM reclaim (x, m) = .ok u (y, m') →
      y.pages.Returnable (rest.map runStart) ∧ y.treadmill = x.treadmill := by
  induction objects generalizing x m with
  | nil =>
    refine ⟨sure_pure _ _, fun u y m' ok => ?_⟩
    obtain ⟨-, same⟩ := Step.pure_ok.mp ok
    cases same
    exact ⟨returnable, rfl⟩
  | cons o objects ih =>
    have mine : SureAt (reclaim o) (x, m) :=
      SureAt.bind (SureAt.onBoth (returnable.begins _ mem_cons_self).release_sureAt) fun _ t _ => sure_on (SideTable.clear_sure _ _) t
    -- What is left can be given back after the first object was reclaimed.
    have next : ∀ b y m', reclaim o (x, m) = .ok b (y, m') →
        y.pages.Returnable ((objects ++ rest).map runStart) ∧ y.treadmill = x.treadmill := by
      intro b y m' ok
      simp only [reclaim, Step.bind_ok, Step.on_ok, Step.onBoth_ok, Focus.comp, Focus.fst, Focus.snd, pagesPart, marksPart,
        Prod.exists] at ok
      obtain ⟨pages, x₁, m₁, ⟨runs, m₂, released, same⟩, marks, cleared, same'⟩ := ok
      cases same
      cases same'
      exact ⟨returnable.release released, rfl⟩
    refine ⟨mine.bind fun b t ok => (ih (next b t.1 t.2 ok).1).1, fun u y m' ok => ?_⟩
    obtain ⟨b, ⟨z, m₁⟩, first, ok⟩ := Step.bind_ok.mp ok
    obtain ⟨left, same⟩ := next b z m₁ first
    obtain ⟨left', same'⟩ := (ih left).2 u y m' ok
    exact ⟨left', same'.trans same⟩

/-- A collection ends for the large objects. Its lists of dead objects are emptied one after the other. -/
theorem release_sureAt {full : Bool} (prepared : x.region.prepared = true)
    (returnable : x.pages.Returnable ((x.treadmill.young.toList ++ x.treadmill.old.toList).map runStart)) :
    SureAt (release full) (x, m) := by
  unfold release
  refine SureAt.bind (SureAt.on (Region.leave_sureAt prepared)) fun _ t left => ?_
  simp only [Step.on_ok, Focus.comp, Focus.fst, regionPart] at left
  obtain ⟨region, -, rfl⟩ := left
  refine SureAt.bind (sure_on (sure_modifyGet _) _) fun young t taken => ?_
  simp only [Step.on_ok, Focus.comp, Focus.fst, treadmillPart, Step.modifyGet_ok, Treadmill.takeYoung, Prod.mk.injEq] at taken
  obtain ⟨_, ⟨rfl, rfl⟩, rfl⟩ := taken
  have reclaimed := reclaims_sureAt (x := { x with
    region
    treadmill := { x.treadmill with young := ∅ } }) (m := m) returnable
  refine reclaimed.1.bind fun _ t ok => ?_
  obtain ⟨left, same⟩ := reclaimed.2 _ t.1 t.2 ok
  split
  · refine SureAt.bind (sure_on (sure_modifyGet _) _) fun old t' taken => ?_
    simp only [Step.on_ok, Focus.comp, Focus.fst, treadmillPart, Step.modifyGet_ok, Treadmill.takeOld, Prod.mk.injEq] at taken
    obtain ⟨_, ⟨rfl, rfl⟩, rfl⟩ := taken
    rw [same]
    refine (@reclaims_sureAt _ _ x.treadmill.old.toList [] ?_).1
    rw [append_nil]
    exact left
  · exact sure_pure _ _

end LargeSpace

namespace MarkSweepSpace

variable {x y : MarkSweepSpace} {m m' : Memory} {b : Block} {rest : List Block}

/-- Marks and free lists are no matter of pages. -/
theorem sweepCells_pages {start head head' : Address} {size : Word} {live live' n : Nat}
    (ok : sweepCells start size head live n (x, m) = .ok (head', live') (y, m')) : y.pages = x.pages := by
  induction n generalizing x m head live with
  | zero =>
    obtain ⟨-, same⟩ := Step.pure_ok.mp ok
    cases same
    rfl
  | succ n ih =>
    simp only [sweepCells, Step.get_bind, Step.bind_ok, Step.lift_ok, Step.ite_step] at ok
    obtain ⟨mark, _, ⟨-, rfl⟩, ok⟩ := ok
    split at ok
    · exact ih ok
    · simp only [Step.bind_ok, Step.on_ok, Step.modify_bind, Focus.comp, Focus.fst, marksPart] at ok
      obtain ⟨_, _, ⟨table, -, rfl⟩, ok⟩ := ok
      exact (ih ok).trans rfl

/-- A block that is given back starts a live run of its own. -/
theorem sweepBlock_sureAt (returnable : x.pages.Returnable (b.start :: rest.map Block.start)) :
    SureAt (sweepBlock b) (x, m) ∧ ∀ keep y m', sweepBlock b (x, m) = .ok keep (y, m') →
      y.pages.Returnable (rest.map Block.start) := by
  have others : x.pages.Returnable (rest.map Block.start) :=
    ⟨returnable.placed, returnable.sound, fun a member => returnable.begins a (mem_cons_of_mem _ member),
      (nodup_cons.mp returnable.distinct).2⟩
  constructor
  · unfold sweepBlock
    refine SureAt.bind (sure_lift (cellSize_sure _) _) fun size s sized => ?_
    rw [Step.lift_ok] at sized
    obtain ⟨-, rfl⟩ := sized
    refine SureAt.bind (sweepCells_sure _ _ _ _ _ _) fun ⟨head, live⟩ ⟨y, m₁⟩ swept => ?_
    have pages := sweepCells_pages swept
    dsimp only
    split
    · refine SureAt.bind ?_ fun _ _ _ => sure_pure _ _
      unfold discard
      refine SureAt.bind (sure_on (SideTable.clear_sure _ _) _) fun _ s₁ cleared₁ => ?_
      refine SureAt.bind (sure_on (SideTable.clear_sure _ _) _) fun _ s₂ cleared₂ => ?_
      refine SureAt.bind (sure_on (SideTable.clear_sure _ _) _) fun _ s₃ cleared₃ => ?_
      simp only [Step.on_ok, Focus.comp, Focus.fst, marksPart, blockStartsPart, blockClassesPart]
        at cleared₁ cleared₂ cleared₃
      obtain ⟨_, -, rfl⟩ := cleared₁
      obtain ⟨_, -, rfl⟩ := cleared₂
      obtain ⟨_, -, rfl⟩ := cleared₃
      refine SureAt.bind (SureAt.onBoth ?_) fun _ _ _ => sure_pure _ _
      have begins := returnable.begins b.start mem_cons_self
      rw [← pages] at begins
      exact begins.release_sureAt
    · exact (sure_ite (sure_pure _) (sure_bind (sure_modify _) fun _ => sure_pure _) : Sure _) _
  · intro keep y m' ok
    simp only [sweepBlock, Step.bind_ok, Step.lift_ok, Step.ite_step] at ok
    obtain ⟨size, _, ⟨-, rfl⟩, ⟨head, live⟩, ⟨z, m₁⟩, swept, ok⟩ := ok
    have pages := sweepCells_pages swept
    split at ok
    · simp only [Step.bind_ok, Step.pure_ok] at ok
      obtain ⟨_, ⟨z', m₂⟩, gone, -, same⟩ := ok
      cases same
      obtain ⟨-, -, -, ⟨count, released⟩, -⟩ := discard_ok gone
      rw [pages] at released
      exact returnable.release released
    · split at ok
      · simp only [Step.pure_ok] at ok
        obtain ⟨-, same⟩ := ok
        cases same
        exact pages ▸ others
      · simp only [Step.modify_bind, Step.pure_ok] at ok
        obtain ⟨-, same⟩ := ok
        cases same
        exact pages ▸ others

/-- The store is swept. -/
theorem release_sureAt (prepared : x.region.prepared = true) (returnable : x.pages.Returnable (x.blocks.map Block.start)) :
    SureAt release (x, m) := by
  unfold release
  refine SureAt.bind (SureAt.on (Region.leave_sureAt prepared)) fun _ s₁ left => ?_
  refine SureAt.bind (sure_on enterLists_sure _) fun _ s₂ entered => ?_
  simp only [Step.on_ok, Focus.comp, Focus.fst, regionPart, enterLists, Step.get_bind, Step.ensure_ok] at left entered
  obtain ⟨region, -, rfl⟩ := left
  obtain ⟨_, ⟨-, rfl⟩, rfl⟩ := entered
  refine SureAt.bind (sure_get _) fun s s₃ same => ?_
  cases same
  refine SureAt.bind (sure_modify _ _) fun _ s₄ same => ?_
  cases same
  refine SureAt.bind (SureAt.onFault ?_) fun _ _ _ => sure_modify _ _
  let holds : List Block → MarkSweepSpace × Memory → Prop := fun rest s => s.1.pages.Returnable (rest.map Block.start)
  exact @SureAt.filterM _ _ _ holds _ _ returnable fun b rest r returnable =>
    ⟨(sweepBlock_sureAt returnable).1, fun keep r' ok => (sweepBlock_sureAt returnable).2 keep r'.1 r'.2 ok⟩

end MarkSweepSpace

/-! ### What the spaces give back -/

namespace Spaces

variable {s : Spaces} {m : Memory} {pieces : List Piece} {buffers : List (SpaceId × Span)} {keys : List (Nat × Address)}

/-- A large object lies at the start of its run, up to its alignment. -/
theorem Held.runStart {p : Piece} (held : s.Held m pieces buffers keys) (member : p ∈ pieces) (home : p.home = .large) :
    (LargeSpace.runStart p.start).toNat = p.span.lo ∧ s.large.pages.Begins (LargeSpace.runStart p.start) := by
  obtain ⟨run, live, span, -⟩ := held.large_run member home
  have low := (held.placed p member).low
  have near := (held.placed p member).near
  have page := (held.estate.laid.placed .large).start
  simp only [space, Space.extent] at page
  have start : (LargeSpace.runStart p.start).toNat = p.start.toNat / 4096 * 4096 := Address.toNat_alignDown Word.page_power
  have lo : p.span.lo = s.large.pages.extent.start.toNat + 4096 * run.first := by rw [span, Pages.Runs.spanOf]
  have same : (LargeSpace.runStart p.start).toNat = p.span.lo := by omega
  exact ⟨same, run, live, by rw [same, span]⟩

/-- Different large objects have runs of their own. -/
theorem Held.runStart_inj {p q : Piece} (held : s.Held m pieces buffers keys) (member : p ∈ pieces) (member' : q ∈ pieces)
    (home : p.home = .large) (home' : q.home = .large) (same : LargeSpace.runStart p.start = LargeSpace.runStart q.start) : p = q := by
  refine Decidable.byContradiction fun differ => ?_
  have apart := held.apart member member' differ
  have low := (held.runStart member home).1
  have low' := (held.runStart member' home').1
  have bounds := (held.placed p member).room
  have bounds' := (held.placed q member').room
  have near := (held.placed p member).low
  have near' := (held.placed q member').low
  rw [same] at low
  unfold Span.Apart at apart
  omega

/-- The large objects that were not reached can be given back one after the other. -/
theorem Held.large_returnable (held : s.Held m pieces buffers keys) (tracked : s.large.Tracked pieces) :
    s.large.pages.Returnable
      ((s.large.treadmill.young.toList ++ s.large.treadmill.old.toList).map LargeSpace.runStart) := by
  have listed : ∀ o ∈ s.large.treadmill.young.toList ++ s.large.treadmill.old.toList,
      ∃ p ∈ pieces, p.home = .large ∧ p.start = o := by
    intro o member
    have lists : o ∈ s.large.treadmill.young ∨ o ∈ s.large.treadmill.old :=
      (mem_append.mp member).imp Std.TreeSet.mem_toList.mp Std.TreeSet.mem_toList.mp
    obtain ⟨p, inside, home, -, start⟩ := tracked.listed o (.inr (.inr lists))
    exact ⟨p, inside, home, start⟩
  have once : ∀ t : Std.TreeSet Address, t.toList.Nodup := fun t =>
    t.distinct_toList.imp fun differ same => differ (by rw [same]; exact Std.ReflCmp.compare_self)
  -- The marks tell the young objects from the old ones.
  have disjoint : ∀ a ∈ s.large.treadmill.young.toList, ∀ b ∈ s.large.treadmill.old.toList, a ≠ b := by
    rintro a young b old rfl
    have mark := tracked.young a (Std.TreeSet.mem_toList.mp young)
    obtain ⟨full, mark'⟩ := tracked.old a (Std.TreeSet.mem_toList.mp old)
    rw [mark', full] at mark
    rcases tracked.current with current | current <;> rw [current] at mark <;> exact absurd mark (by decide)
  refine ⟨held.estate.laid.placed .large, held.estate.supplied .large, fun a member => ?_, pairwise_map.mpr ?_⟩
  · obtain ⟨o, inside, rfl⟩ := mem_map.mp member
    obtain ⟨p, there, home, rfl⟩ := listed o inside
    exact (held.runStart there home).2
  · refine (nodup_append.mpr ⟨once _, once _, disjoint⟩).imp_of_mem fun inside inside' differ same => differ ?_
    obtain ⟨p, there, home, rfl⟩ := listed _ inside
    obtain ⟨q, there', home', rfl⟩ := listed _ inside'
    rw [held.runStart_inj there there' home home' same]

/-- So can the blocks of the mature store. -/
theorem Held.mature_returnable {x : MarkSweepSpace} (held : s.Held m pieces buffers keys) (second : s.second = .mature x) :
    x.pages.Returnable (x.blocks.map Block.start) := by
  have gridded := held.estate.gridded x second
  have space : s.space .second = .markSweep x := by rw [Spaces.space, second]
  have placed := held.estate.laid.placed .second
  have sound := held.estate.supplied .second
  rw [space] at placed sound
  refine ⟨placed, sound, fun a member => ?_, pairwise_map.mpr gridded.distinct⟩
  obtain ⟨b, inside, rfl⟩ := mem_map.mp member
  obtain ⟨run, live, -, start⟩ := gridded.live b inside
  exact ⟨run, live, start⟩

end Spaces

namespace Heap

variable {h : Heap} {pieces : List Piece} {buffers : List (SpaceId × Span)} {keys : List (Nat × Address)}

theorem onLarge_sureAt {α : Type} {x : Step (LargeSpace × Memory) α} (inner : SureAt x (h.spaces.large, h.memory)) :
    SureAt (onLarge x) h := SureAt.onBoth inner

theorem onMature_sureAt {α : Type} {x : Step (MarkSweepSpace × Memory) α}
    (inner : ∀ y, h.spaces.second = .mature y → SureAt x (y, h.memory)) : SureAt (onMature x) h :=
  SureAt.onBoth (SureAt.onBoth (Spaces.onMature_sureAt inner))

theorem onImmortal_sureAt {α : Type} {x : Step (ImmortalSpace × Memory) α} (inner : SureAt x (h.spaces.immortal, h.memory)) :
    SureAt (onImmortal x) h := SureAt.onBoth inner

theorem onCopying_sureAt {α : Type} {id : SpaceId} {x : Step (CopySpace × Memory) α}
    (inner : ∀ y, h.spaces.space id = .copying y → SureAt x (y, h.memory)) : SureAt (onCopying id x) h := by
  cases id with
  | first => exact SureAt.onBoth (SureAt.onBoth (inner _ rfl))
  | second =>
    refine SureAt.onBoth (SureAt.onBoth (Spaces.onTwin_sureAt fun y twin => inner y ?_))
    rw [Spaces.space]
    simp only [Focus.comp, Focus.fst, Spaces.secondPart, spacesPart] at twin
    rw [twin]
  | immortal | large => exact SureAt.onBoth (sure_bind sure_get (fun _ => sure_fail rfl) _)

/-! ### How a collection enters and leaves the spaces -/

theorem prepareCommon_sureAt {full : Bool} (rested : ∀ id, (h.spaces.space id).region.prepared = false) :
    SureAt (prepareCommon full) h := by
  have large : ∀ {h₁ : Heap}, h₁.spaces.large = h.spaces.large →
      SureAt (onLarge (Step.on Focus.fst (LargeSpace.prepare full))) h₁ := fun same =>
    onLarge_sureAt (SureAt.on (LargeSpace.prepare_sureAt (same ▸ rested .large)))
  refine SureAt.bind (sure_modify _ _) fun _ _ same => ?_
  cases same
  cases full with
  | false => exact large rfl
  | true =>
    refine SureAt.bind (onImmortal_sureAt (SureAt.on (ImmortalSpace.prepare_sureAt (rested .immortal)))) fun _ h₁ ok => ?_
    obtain ⟨_, _, -, rfl⟩ := onImmortal_ok.mp ok
    exact large rfl

/-- Between collections, every space that a collection enters is outside of any. -/
theorem prepare_sureAt (rested : ∀ id, (h.spaces.space id).region.prepared = false) : SureAt prepare h := by
  have last : Sure (do
      let threads := (← get).settings.threads
      Step.on backlogPart (Backlog.prepare threads) : Step Heap Unit) :=
    sure_bind sure_get fun h => sure_on (Backlog.prepare_sure h.settings.threads)
  unfold prepare
  refine SureAt.get_bind ?_
  cases plan : h.plan with
  | generational =>
    refine SureAt.bind (sure_ask wantsFull_sure _) fun full h₁ asked => ?_
    obtain ⟨-, rfl⟩ := Step.ask_ok.mp asked
    refine SureAt.bind (sure_modify _ _) fun _ _ same => ?_
    cases same
    refine SureAt.bind (prepareCommon_sureAt rested) fun _ h₂ common => ?_
    obtain rfl := prepareCommon_ok common
    have first : ∀ {h₁ : Heap}, h₁.spaces.first = h.spaces.first →
        SureAt (do
          onFirst (Step.on Focus.fst (CopySpace.prepare true))
          let threads := (← get).settings.threads
          Step.on backlogPart (Backlog.prepare threads) : Step Heap Unit) h₁ := by
      intro h₁ same
      refine SureAt.bind (onCopying_sureAt fun y (space : h₁.spaces.space .first = .copying y) =>
        SureAt.on (CopySpace.prepare_sureAt fun _ => ?_)) fun _ h₂ _ => last h₂
      cases space
      exact same ▸ rested .first
    cases full with
    | false => exact first rfl
    | true =>
      refine SureAt.bind (onMature_sureAt fun y second => SureAt.on (MarkSweepSpace.prepare_sureAt ?_)) fun _ h₂ ok => ?_
      · have idle := rested .second
        rw [Spaces.space, show h.spaces.second = .mature y from second] at idle
        exact idle
      · obtain ⟨_, _, _, -, -, rfl⟩ := onMature_ok.mp ok
        exact first rfl
  | semispace =>
    refine SureAt.bind (prepareCommon_sureAt rested) fun _ h₂ common => ?_
    obtain rfl := prepareCommon_ok common
    refine SureAt.bind (sure_modify _ _) fun _ _ same => ?_
    cases same
    refine SureAt.get_bind ?_
    refine SureAt.bind (onCopying_sureAt fun y space => SureAt.on (CopySpace.prepare_sureAt fun _ => ?_)) fun _ h₃ ok => ?_
    · cases space
      exact rested .first
    obtain ⟨y, z, _, space, -, rfl⟩ := onCopying_ok.mp ok
    refine SureAt.bind (onCopying_sureAt fun y space => SureAt.on (CopySpace.prepare_sureAt fun _ => ?_)) fun _ h₂ _ => last h₂
    have idle := rested .second
    cases second : h.spaces.second with
    | mature x =>
      simp only [Spaces.space, Spaces.setCopying, second] at space
      cases space
    | twin x =>
      simp only [Spaces.space, Spaces.setCopying, second] at space idle
      cases space
      exact idle

theorem releaseCommon_sureAt {full : Bool} (large : h.spaces.large.region.prepared = true)
    (immortal : full = true → h.spaces.immortal.region.prepared = true)
    (returnable : h.spaces.large.pages.Returnable
      ((h.spaces.large.treadmill.young.toList ++ h.spaces.large.treadmill.old.toList).map LargeSpace.runStart)) :
    SureAt (releaseCommon full) h := by
  refine SureAt.bind (onLarge_sureAt (LargeSpace.release_sureAt large returnable)) fun _ h₁ ok => ?_
  obtain ⟨_, _, -, rfl⟩ := onLarge_ok.mp ok
  cases full with
  | false => exact sure_pure _ _
  | true => exact onImmortal_sureAt (SureAt.on (ImmortalSpace.release_sureAt (immortal rfl)))

/-- The release of a collection leaves the spaces that the collection has entered, finds every run that it gives back, and
no work that is left. -/
theorem release_sureAt (held : h.spaces.Held h.memory pieces buffers keys) (tracked : h.spaces.Tracked pieces)
    (engaged : ∀ id, (h.spaces.space id).region.prepared = h.spaces.engages h.lastFull h.other id)
    (roots : h.backlog.roots = []) (stack : h.backlog.objects.stack = []) : SureAt release h := by
  have returnable := held.large_returnable tracked.large
  have large := engaged .large
  have immortal : h.lastFull = true → h.spaces.immortal.region.prepared = true := fun full => (engaged .immortal).trans full
  unfold release
  refine SureAt.get_bind ?_
  cases second : h.spaces.second with
  | mature x =>
    have plan : h.plan = .generational := by rw [Heap.plan, Spaces.plan, second]
    have whole : h.lastFull = h.scope.full := by rw [lastFull, plan]
    simp only [plan]
    refine SureAt.get_bind ?_
    refine SureAt.bind (onCopying_sureAt fun y (space : h.spaces.space .first = .copying y) =>
      CopySpace.release_sureAt ?_) fun _ h₁ emptied => ?_
    · have prepared := engaged .first
      rw [space, Spaces.engages, Spaces.emptied, second] at prepared
      exact prepared
    obtain ⟨y, first, m₁, space, emptied, rfl⟩ := onCopying_ok.mp emptied
    refine SureAt.bind (releaseCommon_sureAt large (whole ▸ immortal) returnable) fun _ h₂ common => ?_
    obtain ⟨_, m₂, -, rfl⟩ := releaseCommon_ok common
    have last : ∀ {h₁ : Heap}, h₁.backlog = h.backlog → SureAt (do
        Step.on backlogPart Backlog.release
        let available ← Step.ask pagesAvailable
        let nursery ← Step.ask fun h => h.settings.maxNurseryPages
        modify fun h => { h with scope.nextFull := decide (available < nursery) } : Step Heap Unit) h₁ := by
      intro h₁ same
      have done : SureAt Backlog.release h₁.backlog := Backlog.release_sureAt (same ▸ roots) (same ▸ stack)
      refine SureAt.bind (SureAt.on done) fun _ h₂ _ => ?_
      exact sure_bind (sure_ask pagesAvailable_sure) (fun _ => sure_bind (sure_ask fun h => maxNurseryPages_sure h.settings)
        fun _ => sure_modify _) h₂
    cases full : h.scope.full with
    | false => exact last rfl
    | true =>
      refine SureAt.bind (onMature_sureAt fun y same => ?_) fun _ h₂ ok => ?_
      · obtain rfl : x = y := SecondSpace.mature.inj (second.symm.trans same)
        refine MarkSweepSpace.release_sureAt ?_ (held.mature_returnable second)
        have prepared := engaged .second
        simp only [Spaces.space, second, Spaces.engages] at prepared
        exact prepared.trans (whole.trans full)
      · obtain ⟨_, _, _, -, -, rfl⟩ := onMature_ok.mp ok
        exact last rfl
  | twin x =>
    have plan : h.plan = .semispace := by rw [Heap.plan, Spaces.plan, second]
    have whole : h.lastFull = true := by rw [lastFull, plan]
    simp only [plan]
    refine SureAt.bind (releaseCommon_sureAt large (fun _ => immortal whole) returnable) fun _ h₂ common => ?_
    obtain ⟨_, m₂, -, rfl⟩ := releaseCommon_ok common
    refine SureAt.get_bind ?_
    refine SureAt.bind (onCopying_sureAt fun y space => CopySpace.release_sureAt ?_) fun _ h₂ ok => ?_
    · have prepared := engaged h.other
      have here : h.spaces.engages h.lastFull h.other h.other = true := by
        rcases h.other_half with half | half <;> rw [half, Spaces.engages] <;> simp [Spaces.emptied, second]
      have same : h.spaces.space h.other = .copying y := by
        rw [← space]
        change h.spaces.space h.other = Spaces.space _ h.other
        rcases h.other_half with half | half <;> rw [half] <;> rfl
      rwa [same, here] at prepared
    obtain ⟨_, _, _, -, -, rfl⟩ := onCopying_ok.mp ok
    exact SureAt.on (Backlog.release_sureAt roots stack)

end Heap

/-! ### What is saved -/

/-- An object that waits on a collected list is found there. -/
theorem Treadmill.save_sureAt {t : Treadmill} {o : Address} {young : Bool}
    (waits : young = true ∧ o ∈ t.young ∨ young = false ∧ o ∈ t.old) : SureAt (save o young) t := by
  unfold save
  refine SureAt.bind (sure_get _) fun _ _ same => ?_
  cases same
  rcases waits with ⟨rfl, waits⟩ | ⟨rfl, waits⟩
  · simp only [if_true, Std.TreeSet.contains_iff_mem.mpr waits]
    exact sure_bind (sure_pure _) (fun _ => sure_set _) _
  · simp only [Bool.false_eq_true, if_false, Std.TreeSet.contains_iff_mem.mpr waits]
    exact sure_bind (sure_pure _) (fun _ => sure_set _) _

namespace Collector

variable {c : Collector} {h : Heap} {pieces : List Piece} {buffers : List (SpaceId × Span)} {keys : List (Nat × Address)} {p : Piece}

/-- A large object that is reached for the first time is found on the list that its mark tells. -/
theorem traceLarge_sureAt (ready : Ready c h pieces buffers keys) (member : p ∈ pieces) (object : p.isObject = true)
    (home : p.home = .large) : SureAt (traceLarge p.start) (c, h) := by
  unfold traceLarge
  refine SureAt.bind (sure_on (Heap.onLarge_sure (sure_on (LargeSpace.claim_sure _))) _) fun answer s ok => ?_
  simp only [Step.on_ok, Focus.fst, Focus.snd, Heap.onLarge_ok, Prod.mk.injEq] at ok
  obtain ⟨_, ⟨x, m, ⟨y, claimed, rfl, rfl⟩, rfl⟩, rfl⟩ := ok
  have tracked := ready.tracked.large
  rcases tracked.claim_ok (ready.old p.start) (tracked.complete p member home object) claimed with
    ⟨-, rfl, -⟩ | ⟨-, young, rfl, waits, rfl⟩
  · exact sure_pure _ _
  · refine SureAt.bind (sure_modify _ _) fun _ _ same => ?_
    cases same
    refine SureAt.bind (SureAt.on (Heap.onLarge_sureAt (SureAt.on ?_))) fun _ t _ => enqueue_sure _ t
    exact Treadmill.save_sureAt waits

/-- Whatever object a collector comes to in a closure, it does not find that the object was lost track of. -/
theorem trace_sureAt (ready : Ready c h pieces buffers keys) (closing : c.state = .closing) (member : p ∈ pieces)
    (object : p.isObject = true) : SureAt (trace p.start) (c, h) := by
  have covered : SureAt (traceObject p.start) (c, h) := by
    unfold traceObject
    refine SureAt.bind (sure_get _) fun _ _ same => ?_
    cases same
    simp only [ready.held.holding member]
    split
    · unfold traceIn
      refine SureAt.bind (sure_get _) fun _ _ same => ?_
      cases same
      cases space : h.spaces.space p.home with
      | copying x => exact traceCopying_sure _ _ _ _
      | markSweep x => exact sure_bind (traceMature_sure _) (fun _ => sure_pure _) _
      | immortal x => exact sure_bind (traceImmortal_sure _) (fun _ => sure_pure _) _
      | large x => exact (traceLarge_sureAt ready member object (Spaces.home_of_large space).1).bind fun _ _ _ => sure_pure _ _
    · exact sure_pure _ _
  unfold trace
  split
  · exact sure_pure _ _
  · refine SureAt.bind (sure_get _) fun _ _ same => ?_
    cases same
    simp only [closing]
    exact covered

end Collector

namespace Share

variable {g : Outset} {c : Collector} {h : Heap} {s : Share} {pieces : List Piece} {buffers : List (SpaceId × Span)}
  {keys : List (Nat × Address)} {slots : Slot → Prop} {objects remembered : Address → Prop}

/-- What is in the slots of a share are objects, so bringing one up to date loses track of nothing. -/
theorem processSlot_sureAt {slot : Slot} {left : List Slot}
    (going : Going g c h s pieces buffers keys slots objects remembered) (closing : c.state = .closing) (sound : g.Sound) (hand : s.slots = slot :: left) :
    SureAt (processSlot slot) (c, h) := by
  have due : s.slotsDue h slots slot := .inl (by rw [hand]; exact mem_cons_self)
  obtain ⟨v, origin, value, -⟩ := going.closing.due_slot sound going.ready.held due
  have traced : SureAt (Collector.trace (h.refOf slot)) (c, h) := by
    by_cases null : h.refOf slot = .null
    · rw [null]
      exact sure_pure _ _
    rcases origin with rfl | ⟨q, member, rfl, -⟩
    · -- The slot was null, and is so still.
      rcases value with same | ⟨-, now⟩ | ⟨q, member, before, -⟩
      · exact absurd same null
      · exact absurd now null
      · exact absurd before.symm (sound.known q member).2.2
    · obtain ⟨r, inner, start, object, -⟩ := going.closing.kept.bearer sound going.ready.held member value
      rw [← start]
      exact Collector.trace_sureAt going.ready closing inner object
  unfold processSlot
  refine SureAt.bind (sure_get _) fun _ _ same => ?_
  cases same
  refine traced.bind fun answer t _ => ?_
  cases answer with
  | none => exact sure_pure _ t
  | some moved => exact (sure_ite (sure_pure _) (sure_bind (sure_modify _) fun _ => sure_pure _) : Sure _) t

/-- A step of a share. -/
theorem step_sureAt (going : Going g c h s pieces buffers keys slots objects remembered) (closing : c.state = .closing)
    (sound : g.Sound) : SureAt s.step (c, h) := by
  cases hand : s.slots with
  | cons slot left =>
    simp only [step, hand]
    exact (processSlot_sureAt going closing sound hand).bind fun _ t _ => sure_ite (sure_pure _) (sure_pure _) t
  | nil =>
    cases rest : s.remembered with
    | cons object left =>
      simp only [step, hand, rest]
      exact sure_bind (takeRemembered_sure object) (fun _ => sure_pure _) _
    | nil =>
      simp only [step, hand, rest]
      exact sure_bind (proceed_sure s.stage) (fun _ => sure_ite (sure_pure _) (sure_pure _)) _

end Share

/-! ### Crews -/

namespace Worker

variable {w : Worker} {r : Rendezvous} {h : Heap}

theorem endPhase_sure : Sure endPhase := by
  have arrive : Sure Rendezvous.arrive := by
    unfold Rendezvous.arrive
    refine sure_bind sure_get fun r => ?_
    have last : ∀ order, Sure (do
        set (r.setArrivals r.current (order + 1))
        if order + 1 = r.parties then
          modify fun r => { r.setArrivals (!r.current) 0 with current := !r.current }
          return ⟨order, none⟩
        return ⟨order, some r.current⟩ : Step Rendezvous Rendezvous.Arrival) := fun order =>
      sure_bind (sure_set _) fun _ => sure_ite (sure_bind (sure_modify _) fun _ => sure_pure _) (sure_pure _)
    exact sure_ite (sure_bind (sure_throw rfl) fun _ => last _) (last _)
  exact sure_bind (sure_on arrive) fun _ => sure_modify _

theorem onCollector_sureAt {α : Type} {x : Step (Collector × Heap) α} (inner : SureAt x (w.collector, h)) :
    SureAt (onCollector x) (w, r, h) := SureAt.onBoth inner

/-- What is done once is done by the first collector; the others have nothing to do but to end the phase. -/
theorem globally_sureAt {phase : Phase} (inner : w.collector.isPrimary = true → SureAt (Heap.globalPhase phase) h) :
    SureAt (startPhase .globally phase) (w, r, h) := by
  refine SureAt.get_bind ?_
  dsimp only
  split
  · rename_i primary
    exact SureAt.bind (SureAt.on (inner primary)) fun _ t _ => endPhase_sure t
  · exact endPhase_sure _

theorem mutators_sure (phase : Phase) : Sure (startPhase .mutators phase) := by
  refine sure_bind sure_get fun s => ?_
  dsimp only
  split
  · exact sure_bind (sure_on (Heap.mutatorPhase_sure phase)) fun _ => endPhase_sure
  · exact endPhase_sure

/-- A worker starts a phase that it finds everything in place for. -/
theorem startPhase_sureAt {k : Nat} {schedule : Schedule} {phase : Phase} {rest : List (Schedule × Phase)}
    (head : phasesFrom k = (schedule, phase) :: rest) (due : w.collector.Due k)
    (prepare : k = 0 → w.collector.isPrimary = true → SureAt Heap.prepare h)
    (release : k = 7 → w.collector.isPrimary = true → SureAt Heap.release h) :
    SureAt (startPhase schedule phase) (w, r, h) := by
  have alone : ∀ {x : Step (Collector × Heap) Unit}, SureAt x (w.collector, h) →
      SureAt (do onCollector x; endPhase) (w, r, h) := fun inner =>
    SureAt.bind (onCollector_sureAt inner) fun _ t _ => endPhase_sure t
  match k with
  | 0 =>
    cases head
    exact globally_sureAt (prepare rfl)
  | 1 =>
    cases head
    exact mutators_sure _ _
  | 2 =>
    cases head
    exact alone (Collector.prepare_sureAt due)
  | 3 =>
    cases head
    exact alone (Collector.findRoots_sureAt due)
  | 4 =>
    cases head
    refine SureAt.get_bind ?_
    exact SureAt.bind (onCollector_sureAt (Collector.beginClosure_sureAt due)) fun _ t _ => sure_modify _ t
  | 5 =>
    cases head
    exact alone (Collector.release_sureAt due.1 due.2)
  | 6 =>
    cases head
    exact mutators_sure _ _
  | 7 =>
    cases head
    exact globally_sureAt (release rfl)
  | k + 8 =>
    rw [phasesFrom, drop_eq_nil_of_le (show collectionPhases.length ≤ k + 8 from Nat.le_add_left ..)] at head
    cases head

/-- A step of a worker that is about to start a phase, or to take a step of its share. -/
theorem step_sureAt
    (starts : ∀ schedule phase rest, w.activity = .starting → w.phases = (schedule, phase) :: rest →
      SureAt (startPhase schedule phase) (w, r, h))
    (works : ∀ share, w.activity = .closing share → SureAt share.step (w.collector, h)) : SureAt step (w, r, h) := by
  unfold step
  refine SureAt.bind (sure_get _) fun _ _ same => ?_
  cases same
  dsimp only
  cases activity : w.activity with
  | starting =>
    cases phases : w.phases with
    | nil => exact sure_pure _ _
    | cons head rest => exact SureAt.bind (starts _ _ rest activity phases) fun _ _ _ => sure_pure _ _
  | closing share =>
    dsimp only
    split
    · exact sure_bind endPhase_sure (fun _ => sure_pure _) _
    · refine (onCollector_sureAt (works share activity)).bind fun answer t _ => ?_
      cases answer with
      | some share => exact sure_bind (sure_modify _) (fun _ => sure_pure _) t
      | none => exact sure_pure _ t
  | waiting turn =>
    have passes : Sure (Rendezvous.mayPass turn) :=
      sure_bind sure_get fun r => sure_ite (sure_bind (sure_throw rfl) fun _ => sure_pure _) (sure_pure _)
    exact sure_bind (sure_on passes) (fun _ => sure_ite (sure_bind (sure_modify _) fun _ => sure_pure _) (sure_pure _)) _
  | finished => exact sure_pure _ _
  | brokenOff => exact sure_pure _ _

end Worker

/-- One worker of a team takes a step of its share. -/
theorem Team.Labours.step_sureAt {g : Outset} {turn : Turn} {others : List Worker} {w : Worker} {h : Heap} {pieces : List Piece}
    {share : Share} (labours : Labours g turn (w :: others) h pieces) (sound : g.Sound) (works : w.share? = some share) :
    SureAt share.step (w.collector, h) :=
  Share.step_sureAt (labours.going works) ((labours.states w mem_cons_self).trans (closureState_eq works)) sound

namespace Crew

variable {c : Crew} {h h₀ : Heap} {cs₀ : List Collector} {pieces₀ known pieces : List Piece} {i k : Nat}

/-- The spaces are released once, by the first collector, when nothing is left to do. -/
theorem Begun.release_sureAt {cs : List Collector} (begun : Begun 0 h₀ cs₀ pieces₀ known 7 h cs pieces)
    (quiet : Quiet h₀ cs₀ pieces₀) : SureAt Heap.release h := by
  have custody := begun.custody quiet (Nat.le_refl 7)
  obtain ⟨engaged, roots, stack⟩ := begun.releasing quiet
  exact Heap.release_sureAt custody.held custody.tracked engaged roots stack

/-- Whatever worker takes the next step of a collection, it finds everything where it has to be. -/
theorem Carries.step_sureAt (carries : Carries 0 h₀ cs₀ pieces₀ known c h pieces k) (quiet : Quiet h₀ cs₀ pieces₀)
    (inside : i < c.workers.size) : SureAt Worker.step (c.workers[i], c.rendezvous, h) := by
  refine Worker.step_sureAt (fun schedule phase rest starting phases => ?_) fun share closing => ?_
  · have head : phasesFrom k = (schedule, phase) :: rest := by
      rw [← phases]
      cases carries.rallied.stands _ (Array.getElem_mem inside) with
      | starting _ _ here => exact here.symm
      | late _ _ waiting => rw [starting] at waiting; cases waiting
      | closing _ _ closing => rw [starting] at closing; cases closing
      | ended _ waiting => rw [starting] at waiting; cases waiting
      | finished _ finished => rw [starting] at finished; cases finished
    refine Worker.startPhase_sureAt head (carries.due quiet inside starting) (fun first primary => ?_) fun last primary => ?_
    · subst first
      cases carries.begun (.inl rfl) inside starting primary
      exact Heap.prepare_sureAt quiet.rested
    · subst last
      exact (carries.begun (.inr rfl) inside starting primary).release_sureAt quiet
  · -- Only in the closure there are shares.
    obtain rfl : k = 4 := by
      cases carries.rallied.stands _ (Array.getElem_mem inside) with
      | closing _ phase => exact phase
      | late _ _ waiting => rw [closing] at waiting; cases waiting
      | starting _ starting => rw [closing] at starting; cases starting
      | ended _ waiting => rw [closing] at waiting; cases waiting
      | finished _ finished => rw [closing] at finished; cases finished
    cases carries.round with
    | once single => omega
    | each two => omega
    | closing same sound begun labours _ =>
      have team := (team_after c.workers[i] c.rendezvous inside).2
      exact (labours.of_perm team.symm).step_sureAt sound (share_of_closing closing)

/-- The first fault of a crew is kept. A step adds one only if there was none and the worker breaks off. -/
theorem stepOf_fault (i : Nat) (c : Crew) (h : Heap) {e : Fault} (broken : ((stepOf i).left (c, h)).1.fault = some e) :
    c.fault = some e ∨ c.fault = none ∧
      ∃ inside : i < c.workers.size, ∃ t, Worker.step (c.workers[i], c.rendezvous, h) = .error e t := by
  unfold left stepOf at broken
  cases ran : Worker.step ((workerPart i).get c, ((workerPart i).set c default).rendezvous, h) with
  | ok b t =>
    simp only [ran] at broken
    exact .inl broken
  | error e' t =>
    simp only [ran] at broken
    have kept : c.fault.or (some e') = some e := broken
    cases before : c.fault with
    | some e₀ =>
      rw [before] at kept
      exact .inl kept
    | none =>
      rw [before] at kept
      obtain rfl : e' = e := Option.some.inj kept
      by_cases inside : i < c.workers.size
      · have here : (workerPart i).get c = c.workers[i] := by
          simp only [workerPart, Array.getElem?_eq_getElem inside, Option.getD_some]
        rw [here] at ran
        exact .inr ⟨rfl, inside, t, ran⟩
      · have missing : (workerPart i).get c = default := by
          simp only [workerPart, Array.getElem?_eq_none (Nat.le_of_not_lt inside), Option.getD_none]
        rw [missing] at ran
        cases ran

end Crew

/-- No collection of a program at work breaks off because the heap has lost its way, in whatever order the collectors take
their steps. -/
theorem World.Sound.collection_plain {w : World} {pieces objects : List Piece} {group : Array Collector} {c : Crew} {h : Heap}
    (sound : w.Sound pieces objects) (there : w.heap.collectors = some group)
    (steps : Relation.ReflTransGen Heap.Moves (.ofCollectors group, w.heap.stopped) (c, h)) :
    ∀ e, c.fault = some e → e.isLapse = false := by
  generalize same : (c, h) = t at steps
  induction steps generalizing c h with
  | refl =>
    cases same
    intro e fault
    cases fault
  | @tail s t steps move ih =>
    obtain ⟨c₀, h₀⟩ := s
    obtain ⟨i, took⟩ := move
    intro e fault
    have broken : ((Crew.stepOf i).left (c₀, h₀)).1.fault = some e := by
      rw [← took, ← same]
      exact fault
    rcases Crew.stepOf_fault i c₀ h₀ broken with before | ⟨calm, inside, t', ran⟩
    · exact ih rfl e before
    · obtain ⟨-, k, pieces', carries⟩ := sound.carries there (.of_moves steps calm)
      exact carries.step_sureAt sound.stopped.1 inside e t' ran

/-- Nor because something was lost track of. -/
theorem World.Sound.collection_sure {w : World} {pieces objects : List Piece} {group : Array Collector} {c : Crew} {h : Heap}
    (sound : w.Sound pieces objects) (there : w.heap.collectors = some group)
    (steps : Relation.ReflTransGen Heap.Moves (.ofCollectors group, w.heap.stopped) (c, h)) (e : Fault) (broken : c.fault = some e) :
    e.isAstray = false := (Fault.isLapse_false.mp (sound.collection_plain there steps e broken)).1

namespace World

variable {w : World}

/-- Between collections no space is in one, and no collector is at work. In whatever order the collectors of the next
collection then take their steps, nobody finds a space, a collector or the work that is left out of turn. -/
theorem Reachable.in_turn (reachable : w.Reachable) :
    (∀ id, (w.heap.spaces.space id).region.prepared = false) ∧
      (∀ c ∈ w.heap.team, c.state = .unused ∨ c.state = .released) ∧
      ∀ (group : Array Collector) (c : Crew) (h : Heap), w.heap.collectors = some group →
        Relation.ReflTransGen Heap.Moves (.ofCollectors group, w.heap.stopped) (c, h) →
        ∀ e, c.fault = some e → e.isOutOfTurn = false := by
  obtain ⟨pieces, objects, sound⟩ := reachable.sound
  refine ⟨sound.quiet.rested, fun c member => (sound.quiet.collectors c member).2, fun group c h there steps e broken => ?_⟩
  exact (Fault.isLapse_false.mp (sound.collection_plain there steps e broken)).2

/-- The collector of the first program has not been used, and its collection can be followed for as long as one likes. -/
theorem sample_in_turn : sample.heap.team.map Collector.state = [.unused] ∧
    (∀ id, (sample.heap.spaces.space id).region.prepared = false) ∧
    ∀ n e, (sample.rounds n).1.fault = some e → e.isOutOfTurn = false := by
  obtain ⟨rested, -, turns⟩ := sample_reachable.in_turn
  refine ⟨by decide +kernel, rested, fun n e broken => ?_⟩
  obtain ⟨t, ran, moves⟩ := Heap.run_moves n (.ofCollectors (sample.heap.collectors.getD #[]), sample.heap.stopped)
  have same : sample.rounds n = t := Step.left_ok ran
  rw [same] at broken
  exact turns _ _ _ sample_manned moves e broken

end World

end TracingHeap
