import TracingHeap.Proofs.Coalescing
import TracingHeap.Proofs.Keeping
import TracingHeap.Proofs.Sources

/-! Sources of pages stay in order, however their requests come out; else a request that fails midway would leave
a trace. An answer takes no more pages than were promised for it, a refusal takes back the promise and nothing
else, and a request that breaks off leaves order behind. -/

namespace TracingHeap.Pages

open Memory Step

namespace Frontier

/-- What lies below the cursor is backed, up to the end of a page. -/
structure InOrder (f : Frontier) : Prop where
  placed : f.extent.Placed
  backed : f.cursor.toNat ≤ f.limit.toNat
  page : f.limit.toNat % 4096 = 0

variable {f f' : Frontier} {m m' : Memory} {refusal : Option Refusal}

theorem InOrder.of_ledger (ordered : f.InOrder) (ledger : Ledger) : InOrder { f with ledger } := ⟨ordered.1, ordered.2, ordered.3⟩

/-- A step of the page counters leaves a frontier in order. -/
theorem keeps_ledger {α : Type} (x : Step Ledger α) :
    Keeps (fun s : Frontier × Memory => s.1.InOrder) (Step.on (Focus.fst.comp ledgerPart) x) :=
  keeps_on_any x fun _ t ordered => ordered.of_ledger t

/-- A frontier is still in order if its limit moved up to the page of a cursor above it. -/
theorem InOrder.raise {cursor : Address} {ledger : Ledger} (ordered : f.InOrder) (high : cursor.toNat ≤ f.extent.span.hi)
    (above : f.limit < cursor) : InOrder { f with ledger, limit := cursor.alignUp Word.pageBytes } := by
  have limit := ordered.placed.paged.toNat_alignUp high
  have backed := ordered.backed
  have above := Address.lt_iff.mp above
  refine ⟨ordered.placed, ?_, ?_⟩
  · simp only [limit]
    omega
  · simp only [limit]
    omega

/-- Growing moves the limit at most up to the page that the cursor ends in. -/
theorem grow_leaves (refusal : Option Refusal) (cursor : Address) (f : Frontier) (m : Memory) : ∃ ledger,
    ((grow refusal cursor).left (f, m)).1 = { f with ledger } ∨
      f.limit < cursor ∧ ((grow refusal cursor).left (f, m)).1 = { f with ledger, limit := cursor.alignUp Word.pageBytes } := by
  unfold grow
  simp only [left_get_bind, left_ite, left_pure, left_lift_bind]
  split
  · exact ⟨_, .inl rfl⟩
  · rename_i short
    split
    · split
      · exact ⟨_, .inl rfl⟩
      · simp only [left_lift_bind]
        split
        · exact ⟨_, .inr ⟨UInt64.not_le.mp short, rfl⟩⟩
        · exact ⟨_, .inl rfl⟩
    · exact ⟨_, .inl rfl⟩

theorem grow_inOrder {cursor : Address} (ordered : f.InOrder) (high : cursor.toNat ≤ f.extent.span.hi) :
    ((grow refusal cursor).left (f, m)).1.InOrder := by
  obtain ⟨ledger, same | ⟨above, same⟩⟩ := grow_leaves refusal cursor f m
  · rw [same]
    exact ordered.of_ledger ledger
  · rw [same]
    exact ordered.raise high above

/-- A frontier that grew backs memory up to the cursor, and promises the pages that it took for that. -/
theorem Grows.backs {cursor : Address} (ordered : f.InOrder) (high : cursor.toNat ≤ f.extent.span.hi)
    (grows : Grows refusal cursor f m (.ok ()) f' m') :
    cursor.toNat ≤ f'.limit.toNat ∧ f'.extent = f.extent ∧ ∃ pages : Word, f'.ledger.reserved = f.ledger.reserved + pages ∧
      pages.toNat ≤ (cursor.toNat - f.cursor.toNat + 4095) / 4096 := by
  cases grows with
  | enough below => exact ⟨Address.le_iff.mp below, rfl, 0, (UInt64.add_zero _).symm, Nat.zero_le _⟩
  | raised above missing granted counted =>
    have limit := ordered.placed.paged.toNat_alignUp high
    have amount := (Address.toNat_distance missing).2
    have count := Word.toNat_pagesUp counted
    have backed := ordered.backed
    have page := ordered.page
    refine ⟨?_, rfl, _, rfl, ?_⟩
    · simp only [limit]
      omega
    · omega

/-- A request leaves a frontier in order. -/
theorem take_keeps (refusal : Option Refusal) (pending bytes : Word) :
    Keeps (fun s : Frontier × Memory => s.1.InOrder) (takeUnless refusal pending bytes) := by
  refine keeps_bind (keeps_ensure _ _) fun _ => keeps_bind (keeps_ledger _) fun _ => ?_
  rintro ⟨f, m⟩ ordered
  simp only [left_get_bind, left_lift_bind, left_ite, left_pure]
  split
  · split
    · rename_i cursor above _ stop stopped
      split
      · exact ordered
      · rename_i room
        have high : cursor.toNat ≤ f.extent.span.hi :=
          Extent.stop_ok stopped ▸ Nat.le_of_not_lt (mt Address.lt_iff.mpr room)
        have kept : ((grow refusal cursor).left (f, m)).1.InOrder := grow_inOrder ordered high
        rcases left_bind (x := grow refusal cursor) (s := (f, m)) with ⟨r, ⟨f', m'⟩, ok, same⟩ | ⟨e, t, error, same⟩
        · rw [same]
          rw [left_ok ok] at kept
          cases r with
          | error cause => exact kept
          | ok _ => exact ⟨kept.placed, (Grows.backs ordered high (grow_iff.mp ok)).1, kept.page⟩
        · rw [same]
          exact left_error error ▸ kept
    · exact ordered
  · exact ordered

/-- A frontier starts again from the bottom, in order. -/
theorem reset_keeps : Keeps (fun s : Frontier × Memory => s.1.InOrder) reset := by
  rintro ⟨f, m⟩ ordered
  simp only [reset, left_get_bind, left_lift_bind]
  split
  · split
    · exact ⟨ordered.placed, Nat.le_refl _, ordered.placed.start⟩
    · exact ordered
  · exact ordered

end Frontier

namespace Runs

/-- The runs do not overlap, and the free ones are as long as can be. -/
structure InOrder (r : Runs) : Prop where
  placed : r.extent.Placed
  sound : r.Sound
  coalesced : r.map.Coalesced

variable {r r' : Runs} {m m' : Memory} {refusal : Option Refusal}

theorem InOrder.of_ledger (ordered : r.InOrder) (ledger : Ledger) : InOrder { r with ledger } := ⟨ordered.1, ordered.2, ordered.3⟩

/-- Runs of the same extent are in order with a map that is. -/
theorem InOrder.remap (ordered : r.InOrder) (extent : r'.extent = r.extent) (sound : r'.map.Sound (r.extent.bytes.toNat / 4096))
    (coalesced : r'.map.Coalesced) : r'.InOrder := ⟨extent ▸ ordered.placed, by rwa [Sound, extent], coalesced⟩

/-- A step of the page counters leaves the runs in order. -/
theorem keeps_ledger {α : Type} (x : Step Ledger α) :
    Keeps (fun s : Runs × Memory => s.1.InOrder) (Step.on (Focus.fst.comp ledgerPart) x) :=
  keeps_on_any x fun _ t ordered => ordered.of_ledger t

/-- The number of pages that runs may reach. -/
theorem InOrder.toNat_limit {limit : Word} (ordered : r.InOrder) (counted : r.extent.bytes.pagesUp = .ok limit) :
    limit.toNat = r.extent.bytes.toNat / 4096 := by
  have count := Word.toNat_pagesUp counted
  have whole := ordered.placed.bytes
  omega

/-- A run that was found free has an address. -/
theorem InOrder.addressOf_total {pages first : Nat} {map : RunMap} (ordered : r.InOrder)
    (taken : r.map.take pages (r.extent.bytes.toNat / 4096) = some (first, map)) : ∃ a, r.addressOf first = .ok a := by
  have bounded := ordered.sound.bounded
  have low : first ≤ r.map.highWater := by
    cases ordered.coalesced.take_takes ordered.sound taken with
    | inside lows highs run split room =>
      have := ordered.coalesced.low run (by rw [split]; simp)
      omega
    | top => exact Nat.le_refl _
  have fits := ordered.placed.fits
  exact Runs.addressOf_total (by omega)

/-- A request leaves the runs in order. -/
theorem take_keeps (refusal : Option Refusal) (pending bytes : Word) :
    Keeps (fun s : Runs × Memory => s.1.InOrder) (takeUnless refusal pending bytes) := by
  refine keeps_bind (keeps_ledger _) fun _ => keeps_bind (keeps_lift _) fun pages => ?_
  rintro ⟨r, m⟩ ordered
  simp only [left_get_bind, left_lift_bind]
  split
  · rename_i limit counted
    rw [ordered.toNat_limit counted]
    cases taken : r.map.take pages.toNat (r.extent.bytes.toNat / 4096) with
    | none => exact ordered
    | some found =>
      obtain ⟨first, map⟩ := found
      obtain ⟨start, place⟩ := ordered.addressOf_total taken
      simp only [left_modify_bind, left_lift_bind, left_get_bind]
      rw [show r.addressOf first = .ok start from place]
      dsimp only
      cases backed : m.commitUnless refusal start (Word.ofPages pages) with
      | error cause =>
        have undone := ordered.coalesced.undo ordered.sound taken
        change InOrder { r with map := (map.forget first).giveBack ⟨first, pages.toNat⟩ }
        rw [undone]
        exact ordered
      | ok grown =>
        have sound := (RunMap.take_sound ordered.sound (pos_of_backed backed) taken).1
        have coalesced := ordered.coalesced.take (ordered.coalesced.take_takes ordered.sound taken)
        exact ⟨ordered.placed, sound, coalesced⟩
  · exact ordered

/-- Taking a run back leaves the runs in order. -/
theorem release_keeps (start : Address) : Keeps (fun s : Runs × Memory => s.1.InOrder) (release start) := by
  rintro ⟨r, m⟩ ordered
  simp only [release, left_get_bind, left_lift_bind]
  split
  · rename_i first page
    cases found : r.map.liveAt? first with
    | none => exact ordered
    | some run =>
      obtain ⟨member, rfl⟩ := RunMap.liveAt_ok found
      have sound := (RunMap.release_sound ordered.sound member).1
      have parted : ∀ s ∈ r.map.free, run.Apart s := fun s inside =>
        (List.pairwise_append.mp ordered.sound.apart).2.2 run member s inside
      have proper := ordered.sound.proper run (List.mem_append_left _ member)
      have forgotten : (r.map.forget run.first).Coalesced := ⟨ordered.coalesced.spaced, ordered.coalesced.low⟩
      have coalesced := forgotten.giveBack parted proper.1 proper.2
      have rest : (r.map.forget run.first).Sound (r.extent.bytes.toNat / 4096) := by
        refine ⟨?_, fun s inside => ordered.sound.proper s ?_, ordered.sound.bounded⟩
        · exact ordered.sound.apart.sublist (List.filter_sublist.append_right _)
        · exact (List.filter_sublist.append_right r.map.free).subset inside
      -- The page counters may turn out wrong in between, when the run is neither free nor live.
      have between : Keeps (fun s : Runs × Memory => s.1.extent = r.extent ∧ s.1.map = r.map.forget run.first)
          (Step.on (Focus.fst.comp ledgerPart) (Ledger.release (UInt64.ofNat run.pages))) :=
        keeps_on_any _ fun _ _ same => same
      have kept := between ({ r with map := r.map.forget run.first }, m.giveBack start (Word.ofPages (UInt64.ofNat run.pages)))
        ⟨rfl, rfl⟩
      simp only [left_modify_bind]
      rcases left_bind (x := Step.on (Focus.fst.comp ledgerPart) (Ledger.release (UInt64.ofNat run.pages)))
        (s := ({ r with map := r.map.forget run.first }, m.giveBack start (Word.ofPages (UInt64.ofNat run.pages))))
        with ⟨_, t, ok, same⟩ | ⟨e, t, error, same⟩
      · obtain ⟨extent, map⟩ := left_ok ok ▸ kept
        rw [same]
        simp only [left_modify_bind, left_pure]
        exact ordered.remap extent (by rwa [map]) (by rwa [map])
      · obtain ⟨extent, map⟩ := left_error error ▸ kept
        rw [same]
        exact ordered.remap extent (by rwa [map]) (by rwa [map])
  · exact ordered

end Runs

end TracingHeap.Pages
