import TracingHeap.Proofs.Midway

/-! Memory that is taken back. A copying space is emptied as a whole, and a large object gives the run of its pages
back. Whoever holds other memory does not notice. -/

namespace TracingHeap

open List Memory Pages

namespace Spaces

variable {s s' : Spaces} {m m' : Memory} {id : SpaceId} {pieces pieces' : List Piece} {rooms buffers : List (SpaceId × Span)}
  {keys : List (Nat × Address)} {lists : List FreeList}

theorem LaidOut.congr (laid : s.LaidOut) (extent : ∀ id, (s'.space id).extent = (s.space id).extent) : s'.LaidOut := by
  refine ⟨fun id => ?_, fun id id' other => ?_, fun id other => ?_⟩
  · rw [extent id]
    exact laid.placed id
  · rw [extent id, extent id']
    exact laid.apart id id' other
  · rw [extent id]
    exact laid.positive id other

/-- Pieces may be forgotten. -/
theorem Held.of_sublist (held : s.Held m pieces buffers keys) (fewer : pieces' <+ pieces) : s.Held m pieces' buffers keys := by
  refine ⟨?_, fun p member => held.placed p (fewer.subset member)⟩
  obtain ⟨lost, split⟩ := fewer.exists_perm_append
  have drop : ∀ (lost : List Piece) {rooms}, s.Estate m (lost.map Piece.held ++ rooms) buffers keys →
      s.Estate m rooms buffers keys := by
    intro lost rooms estate
    induction lost with
    | nil => exact estate
    | cons p lost ih => exact ih estate.drop_room
  refine drop lost (held.estate.of_perm ?_ (.refl _) (.refl _))
  rw [← map_append]
  exact (perm_append_comm.trans split.symm).map _

/-- What is held stays held where memory is not written to and the spaces still know it. -/
theorem Stocked.frame (laid : s.LaidOut) (gridded : s.Gridded) (stocked : s.Stocked m rooms buffers lists)
    (agree : ∀ h ∈ rooms ++ buffers ++ lists.flatMap (·.spans), AgreeOn m m' h.2)
    (houses : ∀ h ∈ rooms ++ buffers, s.Houses h.1 h.2 → s'.Houses h.1 h.2)
    (bumpable : ∀ id, s.Bumpable id → s'.Bumpable id)
    (grid : ∀ l ∈ lists, s.Cuts l → s'.Cuts l) : s'.Stocked m' rooms buffers lists where
  apart := stocked.apart
  housed h member := houses h (mem_append_left _ member) (stocked.housed h member)
  ready h member := by
    obtain ⟨handed, housed, zero⟩ := stocked.ready h member
    exact ⟨bumpable _ handed, houses h (mem_append_right _ member) housed,
      zero.of_agree (agree h (mem_append_left _ (mem_append_right _ member)))⟩
  free l member := by
    obtain ⟨chain, cuts⟩ := stocked.free l member
    refine ⟨chain.frame fun cell inside => ?_, grid l member cuts⟩
    obtain ⟨x, second, cell_⟩ := cuts.cell inside
    have placed := laid.placed .second
    simp only [space, second] at placed
    obtain ⟨⟨low, -, -⟩, known, -⟩ := cell_whole (gridded x second) placed cell_
    have positive := (SizeClass.bytesOf_facts known).1
    have same := agree (.second, l.spanOf cell) (mem_append_right _ (mem_flatMap.mpr ⟨l, member, mem_map_of_mem inside⟩))
    simp only [FreeList.spanOf] at low same
    exact same _ (by simp only; omega) (by simp only; omega)

/-- One space took memory back that nobody holds. -/
theorem Estate.replaced (estate : s.Estate m rooms buffers keys) (others : ∀ id', id' ≠ id → s'.space id' = s.space id')
    (extent : (s'.space id).extent = (s.space id).extent) (mature : ∀ x, s'.second = .mature x → s.second = .mature x)
    (mature' : ∀ x, s.second = .mature x → id ≠ .second ∧ s'.second = .mature x)
    (mine : Sourced m' (s'.space id)) (agree : AgreeOff m m' (s.space id).extent.span)
    (handed : ∀ id, s.Bumpable id → s'.Bumpable id)
    (kept : ∀ h ∈ rooms ++ buffers, h.1 = id → s'.Houses h.1 h.2 ∧ AgreeOn m m' h.2) :
    s'.Estate m' rooms buffers keys ∧ ∀ h ∈ rooms, AgreeOn m m' h.2 := by
  obtain ⟨laid, supplied, gridded, lists, stocked, owned⟩ := estate
  have apart : ∀ h ∈ rooms ++ buffers ++ lists.flatMap (·.spans), AgreeOn m m' h.2 := by
    intro h member
    by_cases here : h.1 = id
    · rcases mem_append.mp member with member | member
      · exact (kept h member here).2
      · obtain ⟨l, inside, inner⟩ := mem_flatMap.mp member
        obtain ⟨cell, cell_, rfl⟩ := mem_map.mp inner
        obtain ⟨x, second, -⟩ := (stocked.free l inside).2.cell cell_
        exact absurd here.symm (mature' x second).1
    · exact (supplied.others_kept laid others agree here (stocked.issued gridded h member)).2.1
  refine ⟨⟨laid.congr fun id' => ?_, supplied.step laid others mine agree, fun x second => gridded x (mature x second), lists,
    stocked.frame laid gridded apart (fun h member housed => ?_) handed fun l inside cuts => ?_, ?_⟩,
    fun h member => apart h (mem_append_left _ (mem_append_left _ member))⟩
  · by_cases here : id' = id
    · rw [here, extent]
    · rw [others id' here]
  · by_cases here : h.1 = id
    · exact (kept h member here).1
    · unfold Houses at housed ⊢
      rw [others _ here]
      exact housed
  · exact cuts.imp fun x second => ⟨x, (mature' x second).2, fun _ listed _ => listed⟩
  · have stock : s'.stock = s.stock := by
      unfold Spaces.stock
      cases second : s.second with
      | mature x => rw [(mature' x second).2]
      | twin x =>
        cases second' : s'.second with
        | mature y => rw [mature y second'] at second; cases second
        | twin y => rfl
    rw [stock]
    exact owned

end Spaces

/-! ### Copying spaces -/

/-- A region that left a collection. -/
def Region.left (r : Region) : Region := { r with prepared := false }

theorem Region.leave_ok {r r' : Region} {u : Unit} (ok : leave r = .ok u r') : r' = r.left := by
  simp only [leave, Step.get_bind, Step.set_bind, Step.ensure_ok] at ok
  exact ok.2.symm

namespace SideTable

variable {t : SideTable} {e : Extent} {width : EntryWidth} {log : Word}

theorem Beside.clear {t' : SideTable} {start : Address} {bytes : Word} {u : Unit} (beside : t.Beside e width log)
    (ok : SideTable.clear start bytes t = .ok u t') : t'.Beside e width log := by
  rcases clear_ok ok with ⟨-, rfl⟩ | ⟨-, -, -, -, rfl⟩
  · exact beside
  · exact beside.wipe _ _

/-- The granules of a range that was given back hold zero, and no other one notices. -/
theorem Beside.entry_clear {t' : SideTable} {start a : Address} {bytes : Word} {u : Unit} (beside : t.Beside e width log)
    {k : Nat} (known : log.toNat = k) (narrow : k < 64) (low : e.start.toNat ≤ start.toNat) (above : e.start.toNat ≤ a.toNat)
    (ok : SideTable.clear start bytes t = .ok u t') :
    t'.entry a = if bytes.toNat ≠ 0 ∧ (start.toNat - e.start.toNat) / 2 ^ k ≤ (a.toNat - e.start.toNat) / 2 ^ k ∧
        (a.toNat - e.start.toNat) / 2 ^ k ≤ (start.toNat + (bytes.toNat - 1) - e.start.toNat) / 2 ^ k then 0
      else t.entry a := by
  obtain ⟨entries, rfl, values⟩ := clear_get ok
  rw [← beside.index_eq known narrow low, ← beside.index_eq known narrow above, ← beside.origin, ← known, ← beside.grain]
  exact values (t.index a)

end SideTable

theorem Forwarding.clear_states {f f' : Forwarding} {start : Address} {bytes : Word} {u : Unit}
    (ok : clear start bytes f = .ok u f') :
    SideTable.clear start bytes f.states = .ok () f'.states ∧ SideTable.clear start bytes f.copies = .ok () f'.copies := by
  simp only [clear, Step.bind_ok, Step.on_ok, statesPart, copiesPart] at ok
  obtain ⟨_, _, ⟨states, first, rfl⟩, copies, second, rfl⟩ := ok
  exact ⟨first, second⟩

/-- An emptied space: nothing is handed out, and nothing is claimed or forwarded. -/
structure CopySpace.Emptied (x y : CopySpace) (m m' : Memory) : Prop where
  region : y.region = x.region.left
  settled : y.evacuating = false
  pages : y.pages = .new x.pages.extent
  sound : y.pages.Sound m'
  agree : AgreeOff m m' x.pages.extent.span
  clean : y.Clean

theorem CopySpace.Emptied.extent {x y : CopySpace} {m m' : Memory} (emptied : x.Emptied y m m') :
    y.pages.extent = x.pages.extent := by
  rw [emptied.pages]
  rfl

/-- Whatever it noted, a space that is released has left the collection, and its source starts anew. -/
theorem CopySpace.release_renews {x y : CopySpace} {m m' : Memory} {u : Unit} (ok : CopySpace.release (x, m) = .ok u (y, m')) :
    y.region = x.region.left ∧ y.pages = .new x.pages.extent := by
  simp only [CopySpace.release, Step.bind_ok, Step.on_ok, Step.onBoth_ok, Focus.comp, Focus.fst, Focus.snd, regionPart,
    pagesPart, forwardingPart, Step.modify_ok, Prod.exists] at ok
  obtain ⟨_, x₁, m₁, ⟨region, left, same⟩, start, used, x₂, m₂, ⟨pages, m₃, taken, same₂⟩, _, x₃, m₄, ⟨_, -, same₃⟩, same₄⟩ := ok
  cases same
  cases same₂
  cases same₃
  cases same₄
  exact ⟨Region.leave_ok left, Frontier.reset_new taken⟩

theorem CopySpace.Tracked.release_ok {x y : CopySpace} {m m' : Memory} {id : SpaceId} {pieces : List Piece} {u : Unit}
    (tracked : x.Tracked id pieces) (placed : x.pages.extent.Placed) (sound : x.pages.Sound m)
    (below : ∀ p ∈ pieces, p.home = id → x.pages.extent.start.toNat ≤ p.start.toNat ∧ p.start.toNat < x.pages.cursor.toNat)
    (ok : CopySpace.release (x, m) = .ok u (y, m')) : x.Emptied y m m' := by
  obtain ⟨region', renewed⟩ := release_renews ok
  have extent : y.pages.extent = x.pages.extent := by
    rw [renewed]
    rfl
  simp only [CopySpace.release, Step.bind_ok, Step.on_ok, Step.onBoth_ok, Focus.comp, Focus.fst, Focus.snd, regionPart,
    pagesPart, forwardingPart, Step.modify_ok, Prod.exists] at ok
  obtain ⟨_, x₁, m₁, ⟨region, left, same⟩, start, used, x₂, m₂, ⟨pages, m₃, taken, same₂⟩, _, x₃, m₄, ⟨forwarding, cleared, same₃⟩,
    same₄⟩ := ok
  cases same
  cases same₂
  cases same₃
  cases same₄
  obtain ⟨rfl, amount, sound', agree⟩ := Frontier.reset_ok placed sound taken
  obtain ⟨states, copies⟩ := Forwarding.clear_states cleared
  -- Whatever is not wiped was blank before: only objects were noted, and they lie below the cursor.
  have unclaimed : ∀ a : Address, x.pages.extent.span.lo ≤ a.toNat → a.toNat < x.pages.extent.span.hi →
      ¬ (used.toNat ≠ 0 ∧ (x.pages.extent.start.toNat - x.pages.extent.start.toNat) / 2 ^ 4 ≤
          (a.toNat - x.pages.extent.start.toNat) / 2 ^ 4 ∧ (a.toNat - x.pages.extent.start.toNat) / 2 ^ 4 ≤
          (x.pages.extent.start.toNat + (used.toNat - 1) - x.pages.extent.start.toNat) / 2 ^ 4) →
        x.forwarding.states.entryByte a = 0 := by
    intro a low high outside
    refine (tracked.entries a low high).resolve_right ?_
    rintro ⟨-, -, p, inside, home, -, same⟩
    simp only [Extent.span, Span.ofBytes] at low high
    obtain ⟨above, under⟩ := below p inside home
    rw [tracked.states.index_eq (k := 4) rfl (by decide) above, tracked.states.index_eq (k := 4) rfl (by decide) low] at same
    refine outside ⟨by omega, by omega, ?_⟩
    rw [← same]
    exact Nat.div_le_div_right (by omega)
  refine ⟨region', rfl, renewed, sound', agree, extent ▸ tracked.states.clear states,
    extent ▸ tracked.copies.clear copies, fun a low high => ?_, fun a low high => ?_⟩
  · rw [extent] at low high
    rw [SideTable.entryByte, tracked.states.entry_clear (k := 4) rfl (by decide) (Nat.le_refl _) low states]
    split
    · rfl
    · rename_i outside
      exact unclaimed a low high outside
  · rw [extent] at low high
    rw [tracked.copies.entry_clear (k := 4) rfl (by decide) (Nat.le_refl _) low copies]
    split
    · rfl
    · rename_i outside
      exact tracked.blank a low high (unclaimed a low high outside)

namespace Spaces

variable {s : Spaces} {m m' : Memory} {id : SpaceId} {pieces : List Piece} {buffers : List (SpaceId × Span)}
  {keys : List (Nat × Address)} {x y : CopySpace}

theorem setCopying_second (space : s.space id = .copying x) {z : MarkSweepSpace} (second : s.second = .mature z) :
    id ≠ .second ∧ (s.setCopying id y).second = .mature z := by
  cases id with
  | first => exact ⟨by decide, second⟩
  | second =>
    simp only [Spaces.space, second] at space
    cases space
  | immortal => cases space
  | large => cases space

/-- Whoever holds memory elsewhere does not notice that a space was emptied. -/
theorem Held.emptied (held : s.Held m pieces buffers keys) (space : s.space id = .copying x) (emptied : x.Emptied y m m')
    (none_left : ∀ p ∈ pieces, p.home ≠ id) (unused : ∀ b ∈ buffers, b.1 ≠ id) :
    (s.setCopying id y).Held m' pieces buffers keys ∧ ∀ p ∈ pieces, AgreeOn m m' p.span := by
  have others : ∀ id', id' ≠ id → (s.setCopying id y).space id' = s.space id' := fun id' other => by
    rw [space_setCopying space, if_neg other]
  have here : (s.setCopying id y).space id = .copying y := by rw [space_setCopying space, if_pos rfl]
  have extent : ((s.setCopying id y).space id).extent = (s.space id).extent := by
    rw [here, space]
    exact emptied.extent
  obtain ⟨estate, agree⟩ := held.estate.replaced others extent (fun z => setCopying_mature space)
    (fun z => setCopying_second space)
    (by
      rw [here]
      exact emptied.sound)
    (by
      rw [space]
      exact emptied.agree)
    (fun id' handed => by
      by_cases same : id' = id
      · rw [same, Bumpable, here]
        trivial
      · rw [Bumpable, others id' same]
        exact handed)
    fun h member home => by
      rcases mem_append.mp member with member | member
      · obtain ⟨p, inside, rfl⟩ := mem_map.mp member
        exact absurd home (none_left p inside)
      · exact absurd home (unused h member)
  exact ⟨⟨estate, held.placed⟩, fun p member => agree p.held (mem_map_of_mem member)⟩

end Spaces

/-! ### Large objects -/

namespace LargeSpace

variable {x y z : LargeSpace} {m m' m'' : Memory} {o : Address} {u : Unit} {pieces : List Piece}

/-- The number of the page that an address of the space lies in. -/
def page (x : LargeSpace) (a : Address) : Nat := (a.toNat - x.pages.extent.start.toNat) / 4096

/-- A large object gives back the run of pages that it lies in. -/
theorem reclaim_ok (placed : x.pages.extent.Placed) (sound : x.pages.Sound) (beside : x.marks.Beside x.pages.extent .byte 12)
    (ok : reclaim o (x, m) = .ok u (y, m')) :
    ∃ run ∈ x.pages.map.live, run.first = x.page o ∧
      y = { x with pages := y.pages, marks := y.marks } ∧ y.pages.extent = x.pages.extent ∧ y.pages.Sound ∧
      x.pages.map.live ~ run :: y.pages.map.live ∧ AgreeOff m m' (x.pages.spanOf run) ∧
      y.marks.Beside x.pages.extent .byte 12 ∧
      (∀ a : Address, x.pages.extent.start.toNat ≤ a.toNat → x.page a < run.first ∨ run.first + run.pages ≤ x.page a →
        y.marks.entryByte a = x.marks.entryByte a) ∧ y.pages.excess = x.pages.excess := by
  simp only [page]
  simp only [reclaim, Step.bind_ok, Step.on_ok, Step.onBoth_ok, Focus.comp, Focus.fst, Focus.snd, pagesPart, marksPart,
    Prod.exists] at ok
  obtain ⟨pages, x₁, m₁, ⟨runs, m₂, released, same⟩, marks, cleared, same'⟩ := ok
  cases same
  cases same'
  obtain ⟨run, member, above, first, count, extent, sound', live, agree⟩ := Pages.Runs.release_ok placed sound released
  have start : (o.alignDown Word.pageBytes).toNat = o.toNat / 4096 * 4096 := Address.toNat_alignDown Word.page_power
  have page := placed.start
  have fits := placed.fits
  have proper := sound.proper run (mem_append_left _ member)
  have bounded := sound.bounded
  unfold Pages.Run.Proper at proper
  have size : (Word.ofPages pages).toNat = run.pages * 4096 := by
    rw [Word.toNat_ofPages (by omega), count]
  rw [start] at above first
  refine ⟨run, member, by omega, rfl, extent, sound', live, agree, beside.clear cleared, fun a low outside => ?_,
    Pages.Runs.release_excess placed sound released⟩
  have first : x.pages.extent.start.toNat ≤ (o.alignDown Word.pageBytes).toNat := by omega
  have entry := beside.entry_clear (k := 12) rfl (by decide) first low cleared
  rw [size, start] at entry
  rw [SideTable.entryByte, entry, if_neg]
  · rfl
  · omega

end LargeSpace

namespace Spaces

variable {s : Spaces} {m m' : Memory} {pieces : List Piece} {buffers : List (SpaceId × Span)} {keys : List (Nat × Address)}
  {y : LargeSpace} {u : Unit}

/-- Runs of pages were given back, but none that a piece lies in. -/
structure Thinned (s : Spaces) (y : LargeSpace) (m m' : Memory) (pieces : List Piece) (buffers : List (SpaceId × Span))
    (keys : List (Nat × Address)) : Prop where
  held : Held { s with large := y } m' pieces buffers keys
  agree : ∀ p ∈ pieces, AgreeOn m m' p.span
  same : y = { s.large with pages := y.pages, marks := y.marks }
  extent : y.pages.extent = s.large.pages.extent
  beside : y.marks.Beside s.large.pages.extent .byte 12
  marks : ∀ p ∈ pieces, p.home = .large → y.marks.entryByte p.start = s.large.marks.entryByte p.start
  level : y.pages.excess = s.large.pages.excess
  fewer : ∀ run ∈ y.pages.map.live, run ∈ s.large.pages.map.live

theorem Thinned.refl (held : s.Held m pieces buffers keys) (beside : s.large.marks.Beside s.large.pages.extent .byte 12) :
    s.Thinned s.large m m pieces buffers keys :=
  ⟨held, fun _ _ => .refl _ _, rfl, rfl, beside, fun _ _ _ => rfl, rfl, fun _ live => live⟩

theorem Thinned.trans {z : LargeSpace} {m'' : Memory} (one : s.Thinned y m m' pieces buffers keys)
    (two : Thinned { s with large := y } z m' m'' pieces buffers keys) : s.Thinned z m m'' pieces buffers keys where
  held := two.held
  agree p member := (one.agree p member).trans (two.agree p member)
  same := by
    rw [two.same]
    simp only
    rw [one.same]
  extent := two.extent.trans one.extent
  beside := one.extent ▸ two.beside
  marks p member home := (two.marks p member home).trans (one.marks p member home)
  level := two.level.trans one.level
  fewer run live := one.fewer run (two.fewer run live)

/-- A dead large object is reclaimed; nobody has its page. -/
theorem Held.reclaimed {o : Address} (held : s.Held m pieces buffers keys)
    (beside : s.large.marks.Beside s.large.pages.extent .byte 12)
    (dead : ∀ p ∈ pieces, p.home = .large → s.large.page p.start ≠ s.large.page o)
    (ok : LargeSpace.reclaim o (s.large, m) = .ok u (y, m')) :
    s.Thinned y m m' pieces buffers keys ∧ ∀ run ∈ y.pages.map.live, run.first ≠ s.large.page o := by
  have placed := held.estate.laid.placed .large
  have sound : s.large.pages.Sound := held.estate.supplied .large
  obtain ⟨run, member, first, same, extent, sound', live, agree, beside', marks, level⟩ :=
    LargeSpace.reclaim_ok placed sound beside ok
  -- Every piece of the space has a run of its own, which is not the one that was given back.
  have mine : ∀ p ∈ pieces, p.home = .large → ∃ run' ∈ y.pages.map.live, p.span = s.large.pages.spanOf run' ∧
      run'.Apart run ∧ s.large.pages.extent.start.toNat ≤ p.start.toNat ∧ s.large.page p.start = run'.first := by
    intro p inside home
    obtain ⟨run', live', span, index⟩ := held.large_run inside home
    have low := (held.placed p inside).low
    rw [span, Pages.Runs.spanOf] at low
    have place := index beside
    rw [beside.index_eq (k := 12) rfl (by decide) (by simp only at low; omega)] at place
    have other : run' ≠ run := fun bad => dead p inside home (place.trans (bad ▸ first))
    refine ⟨run', (mem_cons.mp (live.mem_iff.mp live')).resolve_left other, span, ?_, by simp only at low; omega, place⟩
    have : Std.Symm Pages.Run.Apart := ⟨fun _ _ apart => Pages.Run.Apart.symm apart⟩
    exact (sound.apart.sublist (sublist_append_left _ _)).forall live' member other
  have others : ∀ id', id' ≠ .large → Spaces.space { s with large := y } id' = s.space id' := fun id' other => by
    cases id' with
    | large => exact absurd rfl other
    | first | second | immortal => rfl
  have kept : ∀ p ∈ pieces, p.home = .large → AgreeOn m m' p.span := fun p inside home => by
    obtain ⟨run', -, span, apart, -⟩ := mine p inside home
    rw [span]
    exact agree.agreeOn (Pages.Runs.spanOf_apart apart).symm
  obtain ⟨estate, agrees⟩ := held.estate.replaced others extent (fun _ second => second)
    (fun x second => ⟨by decide, second⟩) sound' (agree.mono (sound.spanOf_within member))
    (fun id' handed => by
      cases id' with
      | large => exact handed
      | first | second | immortal => exact handed)
    fun h inside home => by
      rcases mem_append.mp inside with inside | inside
      · obtain ⟨p, piece, rfl⟩ := mem_map.mp inside
        obtain ⟨run', live', span, -⟩ := mine p piece home
        refine ⟨?_, kept p piece home⟩
        simp only [Piece.held] at home ⊢
        rw [home]
        refine ⟨run', live', span.trans ?_⟩
        rw [Pages.Runs.spanOf, Pages.Runs.spanOf, extent]
      · obtain ⟨lists, stocked, -⟩ := held.estate.stocked
        have handed := (stocked.ready h inside).1
        rw [home] at handed
        exact handed.elim
  have old : ∀ run' ∈ y.pages.map.live, run' ∈ s.large.pages.map.live := fun run' inside =>
    live.mem_iff.mpr (mem_cons_of_mem _ inside)
  refine ⟨⟨⟨estate, held.placed⟩, fun p inside => agrees p.held (mem_map_of_mem inside), same, extent, beside',
    fun p inside home => ?_, level, old⟩, fun run' inside => ?_⟩
  · obtain ⟨run', live', -, apart, above, place⟩ := mine p inside home
    have positive := (sound.proper run' (mem_append_left _ (old run' live'))).1
    refine marks p.start above ?_
    unfold Pages.Run.Apart at apart
    omega
  · have apart := (pairwise_cons.mp (live.pairwise (sound.apart.sublist (sublist_append_left _ _)) fun h => h.symm)).1 run' inside
    have positive := (sound.proper run' (mem_append_left _ (old run' inside))).1
    have positive' := (sound.proper run (mem_append_left _ member)).1
    unfold Pages.Run.Apart at apart
    omega

/-- The dead objects on a list are reclaimed one after the other. -/
theorem Held.reclaimed_all {dead : List Address} (held : s.Held m pieces buffers keys)
    (beside : s.large.marks.Beside s.large.pages.extent .byte 12)
    (apart : ∀ o ∈ dead, ∀ p ∈ pieces, p.home = .large → s.large.page p.start ≠ s.large.page o)
    (ok : dead.forM LargeSpace.reclaim (s.large, m) = .ok u (y, m')) :
    s.Thinned y m m' pieces buffers keys ∧ ∀ o ∈ dead, ∀ run ∈ y.pages.map.live, run.first ≠ s.large.page o := by
  induction dead generalizing s m with
  | nil =>
    cases ok
    exact ⟨.refl held beside, nofun⟩
  | cons o rest ih =>
    obtain ⟨_, ⟨x, m₁⟩, first, later⟩ := Step.forM_cons_ok.mp ok
    obtain ⟨one, gone⟩ := held.reclaimed beside (apart o mem_cons_self) first
    have page : ∀ a, x.page a = s.large.page a := fun a => by rw [LargeSpace.page, LargeSpace.page, one.extent]
    obtain ⟨two, rest⟩ := ih (s := { s with large := x }) one.held (one.extent ▸ one.beside) (fun o' member p inside home => by
      rw [page, page]
      exact apart o' (mem_cons_of_mem _ member) p inside home) later
    refine ⟨one.trans two, forall_mem_cons.mpr ⟨fun run live => gone run (two.fewer run live), fun o' member run live => ?_⟩⟩
    rw [← page]
    exact rest o' member run live

/-- Who holds what does not depend on the lists. -/
theorem Thinned.relisted {r : Region} {t : Treadmill}
    (thinned : Thinned { s with large := { s.large with region := r, treadmill := t } } y m m' pieces buffers keys) :
    s.Thinned { y with region := s.large.region, treadmill := s.large.treadmill } m m' pieces buffers keys where
  held := thinned.held.alike (large_alike rfl)
  agree := thinned.agree
  same := by
    rw [thinned.same]
  extent := thinned.extent
  beside := thinned.beside
  marks := thinned.marks
  level := thinned.level
  fewer := thinned.fewer

/-- The dead are gone from the treadmill, and so is their memory. -/
structure Cleaned (s : Spaces) (y : LargeSpace) (m m' : Memory) (full : Bool) (pieces : List Piece)
    (buffers : List (SpaceId × Span)) (keys : List (Nat × Address)) : Prop where
  thinned : s.Thinned { y with region := s.large.region, treadmill := s.large.treadmill } m m' pieces buffers keys
  region : y.region = s.large.region.left
  treadmill : y.treadmill = { s.large.treadmill with
    young := ∅
    old := if full then ∅ else s.large.treadmill.old }
  gone : ∀ o, o ∈ s.large.treadmill.young ∨ full = true ∧ o ∈ s.large.treadmill.old →
    ∀ run ∈ y.pages.map.live, run.first ≠ s.large.page o

/-- A collection ends for the large objects. -/
theorem Held.large_released {full : Bool} (held : s.Held m pieces buffers keys)
    (beside : s.large.marks.Beside s.large.pages.extent .byte 12)
    (apart : ∀ o, o ∈ s.large.treadmill.young ∨ full = true ∧ o ∈ s.large.treadmill.old →
      ∀ p ∈ pieces, p.home = .large → s.large.page p.start ≠ s.large.page o)
    (ok : LargeSpace.release full (s.large, m) = .ok u (y, m')) : s.Cleaned y m m' full pieces buffers keys := by
  have again : ∀ {x z : LargeSpace} {m₁ m₂ : Memory} {r : Region} {t : Treadmill} {dead : List Address} {u : Unit},
      s.Thinned { x with region := s.large.region, treadmill := s.large.treadmill } m m₁ pieces buffers keys →
      (∀ o ∈ dead, ∀ p ∈ pieces, p.home = .large → s.large.page p.start ≠ s.large.page o) →
      dead.forM LargeSpace.reclaim ({ x with region := r, treadmill := t }, m₁) = .ok u (z, m₂) →
      s.Thinned { z with region := s.large.region, treadmill := s.large.treadmill } m m₂ pieces buffers keys ∧
        z.region = r ∧ z.treadmill = t ∧ (∀ run ∈ z.pages.map.live, run ∈ x.pages.map.live) ∧
        ∀ o ∈ dead, ∀ run ∈ z.pages.map.live, run.first ≠ s.large.page o := by
    intro x z m₁ m₂ r t dead u before differ ran
    obtain ⟨next, gone⟩ := Held.reclaimed_all (s := { s with large := { x with region := r, treadmill := t } })
      (before.held.alike (large_alike rfl)) (before.extent ▸ before.beside) (fun o member p inside home => by
        have := differ o member p inside home
        simp only [LargeSpace.page] at this ⊢
        rw [before.extent]
        exact this) ran
    refine ⟨before.trans (Thinned.relisted (r := r) (t := t) next), ?_, ?_, next.fewer, fun o member run live => ?_⟩
    · rw [next.same]
    · rw [next.same]
    · have differ := gone o member run live
      simp only [LargeSpace.page] at differ ⊢
      rw [← before.extent]
      exact differ
  simp only [LargeSpace.release, Step.bind_ok, Step.on_ok, Focus.comp, Focus.fst, LargeSpace.regionPart,
    LargeSpace.treadmillPart, Step.modifyGet_ok, Treadmill.takeYoung, Prod.mk.injEq, Prod.exists] at ok
  obtain ⟨_, x₁, m₁, ⟨region, left, rfl, rfl⟩, young, x₂, m₂, ⟨treadmill, ⟨rfl, rfl⟩, rfl, rfl⟩, _, x₃, m₃, first, second⟩ := ok
  obtain rfl := Region.leave_ok left
  obtain ⟨one, region, treadmill, -, gone⟩ := again (.refl held beside)
    (fun o member => apart o (.inl (Std.TreeSet.mem_toList.mp member))) first
  cases full with
  | false =>
    simp only [Bool.false_eq_true, if_false, Step.pure_ok, Prod.mk.injEq] at second
    obtain ⟨-, rfl, rfl⟩ := second
    refine ⟨one, region, by rw [treadmill]; rfl, fun o dead => ?_⟩
    rcases dead with young | ⟨bad, -⟩
    · exact gone o (Std.TreeSet.mem_toList.mpr young)
    · cases bad
  | true =>
    simp only [if_true, Step.bind_ok, Step.on_ok, Step.modifyGet_ok, Treadmill.takeOld, Prod.mk.injEq, Prod.exists] at second
    obtain ⟨old, x₄, m₄, ⟨treadmill', ⟨rfl, rfl⟩, rfl, rfl⟩, second⟩ := second
    have same : { x₃ with treadmill := { x₃.treadmill with old := ∅ } } =
        { x₃ with region := s.large.region.left, treadmill := { s.large.treadmill with young := ∅, old := ∅ } } := by
      rw [treadmill, show x₃.region = s.large.region.left from region]
    rw [same] at second
    obtain ⟨two, region', treadmill', fewer, gone'⟩ := again one (fun o member => apart o (.inr ⟨rfl, by
      rw [treadmill] at member
      exact Std.TreeSet.mem_toList.mp member⟩)) second
    refine ⟨two, region', treadmill', fun o dead => ?_⟩
    rcases dead with young | ⟨-, old⟩
    · exact fun run live => gone o (Std.TreeSet.mem_toList.mpr young) run (fewer run live)
    · refine gone' o ?_
      rw [treadmill]
      exact Std.TreeSet.mem_toList.mpr old

end Spaces

end TracingHeap
