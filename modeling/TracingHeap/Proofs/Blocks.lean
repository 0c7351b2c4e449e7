import TracingHeap.Proofs.Estates

/-! Blocks of the mature store. A fresh run of pages is cut into cells that form one free list, and the
tables beside the space say of every address in a block which cell it lies in. -/

namespace TracingHeap

open List Memory

namespace MarkSweepSpace

variable {x x' : MarkSweepSpace} {m m' : Memory} {start : Address} {sizeClass : Nat}

theorem cellSize_ok {size : Word} : cellSize sizeClass = .ok size ↔ SizeClass.sizeOf? sizeClass = some size := by
  unfold cellSize
  cases SizeClass.sizeOf? sizeClass with
  | none => simp
  | some found => simp

/-- An address in a cell leads to the start of the cell. -/
theorem Gridded.cellOf (gridded : x.Gridded) {b : Block} (member : b ∈ x.blocks) {k : Nat}
    (inside : k < b.count) {a cell : Address} (low : (b.cell k).lo ≤ a.toNat) (high : a.toNat < (b.cell k).hi)
    (ok : x.cellOf a = .ok cell) : cell.toNat = (b.cell k).lo := by
  have within := b.cell_within inside
  obtain ⟨starts, classes⟩ := gridded.tables b member a (Nat.le_trans within.1 low)
    (Nat.lt_of_lt_of_le high within.2)
  simp only [MarkSweepSpace.cellOf, except_bind_ok] at ok
  obtain ⟨block, loaded, ok⟩ := ok
  have block_eq := (SideTable.load_ok loaded).2.2
  rw [starts] at block_eq
  subst block_eq
  split at ok
  · cases ok
  · simp only [except_bind_ok] at ok
    obtain ⟨number, loaded', size, sized, distance, away, ok⟩ := ok
    have number_eq := (SideTable.load_ok loaded').2.2
    rw [classes] at number_eq
    subst number_eq
    have known := gridded.classes b member
    have index : (UInt64.ofNat b.sizeClass).toNat = b.sizeClass := by
      rw [UInt64.toNat_ofNat']
      exact Nat.mod_eq_of_lt (by omega)
    rw [index] at sized
    obtain ⟨-, bytes⟩ := SizeClass.sizeOf_ok (cellSize_ok.mp sized)
    obtain ⟨below, amount⟩ := Address.toNat_distance away
    simp only [except_pure_ok] at ok
    subst ok
    obtain ⟨positive, -, -⟩ := SizeClass.bytesOf_facts known
    have amount' : distance.toNat = a.toNat - b.start.toNat := amount
    have quotient : distance.toNat / size.toNat = k := by
      simp only [Block.cell] at low high
      rw [amount', bytes]
      apply Nat.div_eq_of_lt_le
      · simp only [Block.bytes] at low
        omega
      · simp only [Block.bytes] at high
        omega
    have product : distance.toNat / size.toNat * size.toNat = k * b.bytes := by rw [quotient, bytes]; rfl
    have bound := a.toNat_lt
    have fits : b.start.toNat + k * b.bytes < 2 ^ 64 := by
      simp only [Block.cell] at low
      omega
    change (b.start.word + distance / size * size).toNat = b.start.toNat + k * b.bytes
    rw [UInt64.toNat_add, UInt64.toNat_mul, UInt64.toNat_div, product]
    change (b.start.toNat + k * b.bytes % 2 ^ 64) % 2 ^ 64 = _
    rw [Nat.mod_eq_of_lt (show k * b.bytes < 2 ^ 64 by omega), Nat.mod_eq_of_lt fits]

/-! ### Cutting a block into cells -/

/-- The starts of a number of cells of a size in a row. -/
def row (start : Address) (size : Word) : Nat → List Address
  | 0 => []
  | count + 1 => start :: row (start.plus size) size count

theorem mem_row {size : Word} {count : Nat} {cell : Address}
    (fits : start.toNat + count * size.toNat < 2 ^ 64) (member : cell ∈ row start size count) :
    ∃ k < count, cell.toNat = start.toNat + k * size.toNat := by
  induction count generalizing start with
  | zero => cases member
  | succ count ih =>
    have step : (count + 1) * size.toNat = count * size.toNat + size.toNat := by rw [Nat.add_mul, Nat.one_mul]
    rcases mem_cons.mp member with rfl | member
    · exact ⟨0, Nat.succ_pos _, by rw [Nat.zero_mul, Nat.add_zero]⟩
    · have next : (start.plus size).toNat = start.toNat + size.toNat := Address.toNat_plus (by omega)
      obtain ⟨k, inside, place⟩ := ih (by omega) member
      refine ⟨k + 1, Nat.succ_lt_succ inside, ?_⟩
      rw [place, next, Nat.add_mul, Nat.one_mul]
      omega

theorem row_apart {size : Word} {count : Nat} (fits : start.toNat + count * size.toNat < 2 ^ 64) :
    (row start size count).Pairwise fun a b => a.toNat + size.toNat ≤ b.toNat := by
  induction count generalizing start with
  | zero => exact .nil
  | succ count ih =>
    have step : (count + 1) * size.toNat = count * size.toNat + size.toNat := by rw [Nat.add_mul, Nat.one_mul]
    have next : (start.plus size).toNat = start.toNat + size.toNat := Address.toNat_plus (by omega)
    refine pairwise_cons.mpr ⟨fun cell member => ?_, ih (by omega)⟩
    obtain ⟨k, -, place⟩ := mem_row (by omega) member
    omega

theorem linkCells_agree {size : Word} {count : Nat} (aligned : start.toNat % 8 = 0) (words : size.toNat % 8 = 0)
    (positive : 0 < size.toNat) (fits : start.toNat + count * size.toNat < 2 ^ 64) :
    AgreeOff m (linkCells m start size count) ⟨start.toNat, start.toNat + count * size.toNat⟩ := by
  induction count generalizing m start with
  | zero => exact AgreeOff.refl m _
  | succ count ih =>
    have step : (count + 1) * size.toNat = count * size.toNat + size.toNat := by rw [Nat.add_mul, Nat.one_mul]
    have next : (start.plus size).toNat = start.toNat + size.toNat := Address.toNat_plus (by omega)
    have first := store_agree (r := ⟨start.toNat, start.toNat + (count + 1) * size.toNat⟩) m start
      (start.word + size) aligned (Nat.le_refl _) (by simp only; omega)
    have rest := @ih (m.store start (start.word + size)) (start.plus size) (by omega) (by omega)
    refine first.trans (rest.mono ?_)
    simp only [Span.Within, next]
    omega

/-- In zeroed memory the cells form a list that ends with the last one. -/
theorem linkCells_threaded {size : Word} {count : Nat} (aligned : start.toNat % 8 = 0)
    (words : size.toNat % 8 = 0) (positive : 8 ≤ size.toNat) (proper : 0 < start.toNat)
    (fits : start.toNat + (count + 1) * size.toNat < 2 ^ 64)
    (zero : m.ZeroOn ⟨start.toNat, start.toNat + (count + 1) * size.toNat⟩) :
    Threaded (linkCells m start size count) start (row start size (count + 1)) := by
  have place : 8 * (start.toNat / 8) = start.toNat := by omega
  induction count generalizing m start with
  | zero =>
    refine ⟨rfl, Address.toNat_pos.mp proper, ?_⟩
    rw [linkCells, zero (start.toNat / 8) (Nat.le_of_eq place.symm) (by simp only; omega)]
    rfl
  | succ count ih =>
    have step : (count + 1 + 1) * size.toNat = (count + 1) * size.toNat + size.toNat := by
      rw [Nat.add_mul, Nat.one_mul]
    have next : (start.plus size).toNat = start.toNat + size.toNat := Address.toNat_plus (by omega)
    have less : count * size.toNat ≤ (count + 1) * size.toNat := Nat.mul_le_mul_right _ (Nat.le_succ _)
    have stored := store_agree (r := ⟨start.toNat, start.toNat + size.toNat⟩) m start (start.word + size) aligned
      (Nat.le_refl _) (by simp only; omega)
    have later := @linkCells_agree (m.store start (start.word + size)) (start.plus size) _
      count (by omega) words (by omega) (by omega)
    refine ⟨rfl, Address.toNat_pos.mp proper, ?_⟩
    have here : (linkCells m start size (count + 1)).word (start.toNat / 8) = start.word + size := by
      rw [linkCells, later _ (by simp only; omega), word_store, if_pos rfl]
    rw [here]
    refine @ih (m.store start (start.word + size)) (start.plus size) (by omega) (by omega) (by omega) ?_
      (by omega)
    intro i lo hi
    simp only [next] at lo hi
    rw [stored i (by simp only; omega)]
    exact zero i (by simp only; omega) (by simp only; omega)

/-! ### Entering a block into the tables -/

/-- The place at which a page of a block is entered. -/
def pagePlace (start : Address) (page : Nat) : Address := start.plus (Word.ofPages (UInt64.ofNat page))

theorem toNat_pagePlace {page : Nat} (small : page < 16) (fits : start.toNat + 65536 < 2 ^ 64) :
    (pagePlace start page).toNat = start.toNat + 4096 * page := by
  have number : (UInt64.ofNat page).toNat = page := by
    rw [UInt64.toNat_ofNat']
    exact Nat.mod_eq_of_lt (by omega)
  have size : (Word.ofPages (UInt64.ofNat page)).toNat = page * 4096 := by
    rw [Word.toNat_ofPages (by rw [number]; omega), number]
  rw [pagePlace, Address.toNat_plus (by omega), size, Nat.mul_comm]

/-- The tables with a value at every page on a list, and unchanged elsewhere. -/
structure Entered (old new : SideTable) (start : Address) (value : Word) (pages : List Nat) : Prop where
  same : new = { old with entries := new.entries }
  entered : ∀ a, (∃ page ∈ pages, old.index (pagePlace start page) = old.index a) → new.entry a = value
  kept : ∀ a, (∀ page ∈ pages, old.index (pagePlace start page) ≠ old.index a) → new.entry a = old.entry a

theorem Entered.cons {old new : SideTable} {value : Word} {page : Nat} {pages : List Nat}
    (fits : old.width.truncate value = value)
    (rest : Entered (old.put (pagePlace start page) value) new start value pages) :
    Entered old new start value (page :: pages) := by
  refine ⟨rest.same, ?_, ?_⟩
  · intro a covered
    by_cases later : ∃ page ∈ pages, old.index (pagePlace start page) = old.index a
    · exact rest.entered a later
    · rw [rest.kept a fun page member same => later ⟨page, member, same⟩, SideTable.entry_put, fits]
      obtain ⟨found, member, same⟩ := covered
      rcases mem_cons.mp member with rfl | member
      · rw [if_pos same]
      · exact absurd ⟨found, member, same⟩ later
  · intro a missed
    rw [rest.kept a fun page member => missed page (mem_cons_of_mem _ member), SideTable.entry_put,
      if_neg (missed page mem_cons_self)]

theorem mapPages_ok {pages : List Nat} {u : Unit} (words : x.blockStarts.width = .word)
    (bytes : x.blockClasses.width = .byte) (known : sizeClass < 19)
    (ok : mapPages start sizeClass pages x = .ok u x') :
    ∃ starts classes, x' = { x with blockStarts := starts, blockClasses := classes } ∧
      Entered x.blockStarts starts start start.word pages ∧
      Entered x.blockClasses classes start (UInt64.ofNat sizeClass) pages := by
  induction pages generalizing x with
  | nil =>
    obtain ⟨-, rfl⟩ := Step.pure_ok.mp ok
    exact ⟨x.blockStarts, x.blockClasses, rfl,
      ⟨rfl, fun a covered => (by obtain ⟨_, member, _⟩ := covered; cases member), fun _ _ => rfl⟩,
      ⟨rfl, fun a covered => (by obtain ⟨_, member, _⟩ := covered; cases member), fun _ _ => rfl⟩⟩
  | cons page pages ih =>
    simp only [mapPages, Step.bind_ok, Step.on_ok, blockStartsPart, blockClassesPart] at ok
    obtain ⟨_, _, ⟨t, stored, rfl⟩, _, _, ⟨t', stored', rfl⟩, rest⟩ := ok
    obtain ⟨-, -, rfl⟩ := SideTable.store_ok stored
    obtain ⟨-, -, rfl⟩ := SideTable.store_ok stored'
    obtain ⟨starts, classes, rfl, entered, entered'⟩ := ih (x := { x with
      blockStarts := x.blockStarts.put (pagePlace start page) start.word
      blockClasses := x.blockClasses.put (pagePlace start page) (UInt64.ofNat sizeClass) }) words bytes rest
    have small : (UInt64.ofNat sizeClass) &&& 255 = UInt64.ofNat sizeClass := by
      apply UInt64.toNat_inj.mp
      rw [UInt64.toNat_and, UInt64.toNat_ofNat', show (255 : Word).toNat = 2 ^ 8 - 1 from rfl,
        Nat.and_two_pow_sub_one_eq_mod]
      omega
    refine ⟨starts, classes, rfl, entered.cons ?_, entered'.cons ?_⟩
    · rw [words]
      rfl
    · rw [bytes]
      exact small

theorem install_ok {u : Unit} (words : x.blockStarts.width = .word) (bytes : x.blockClasses.width = .byte)
    (ok : install start sizeClass (x, m) = .ok u (x', m')) :
    ∃ size starts classes, SizeClass.sizeOf? sizeClass = some size ∧
      m' = linkCells m start size (SizeClass.cells size - 1) ∧
      x' = { x with
        blockStarts := starts
        blockClasses := classes
        blocks := x.blocks ++ [⟨start, sizeClass⟩] } ∧
      Entered x.blockStarts starts start start.word (range SizeClass.blockPages) ∧
      Entered x.blockClasses classes start (UInt64.ofNat sizeClass) (range SizeClass.blockPages) := by
  simp only [install, Step.bind_ok, Step.lift_ok, Step.modify_bind, Step.on_ok, Focus.fst, enterLists,
    Step.get_bind, Step.ensure_ok, Step.modify_ok, Prod.mk.injEq] at ok
  obtain ⟨size, _, ⟨sized, rfl⟩, _, _, ⟨y, mapped, rfl⟩, _, _, ⟨z, ⟨_, rfl⟩, rfl⟩, rfl, rfl⟩ := ok
  have found := cellSize_ok.mp sized
  obtain ⟨starts, classes, rfl, entered, entered'⟩ :=
    mapPages_ok words bytes (SizeClass.sizeOf_ok found).1 mapped
  exact ⟨size, starts, classes, found, rfl, rfl, entered, entered'⟩

/-- The pages of a block are those whose entries a table of pages finds for its addresses. -/
private theorem page_of_block {t : SideTable} {a c : Address} (origin : t.start.toNat ≤ a.toNat)
    (grain : t.logGranule = 12) (page : (a.toNat - t.start.toNat) % 4096 = 0) (fits : a.toNat + 65536 < 2 ^ 64)
    (above : t.start.toNat ≤ c.toNat) :
    (∃ n ∈ range SizeClass.blockPages, t.index (pagePlace a n) = t.index c) ↔
      a.toNat ≤ c.toNat ∧ c.toNat < a.toNat + 65536 := by
  have index : ∀ b : Address, t.start.toNat ≤ b.toNat → t.index b = (b.toNat - t.start.toNat) / 4096 :=
    fun b low => SideTable.index_eq low (k := 12) (by rw [grain]; rfl) (by decide)
  constructor
  · rintro ⟨n, member, same⟩
    have small : n < 16 := mem_range.mp member
    have place := toNat_pagePlace small fits
    rw [index _ (by omega), index _ above, place] at same
    omega
  · rintro ⟨low, high⟩
    refine ⟨(c.toNat - a.toNat) / 4096, mem_range.mpr (show _ < 16 by omega), ?_⟩
    have place := @toNat_pagePlace a ((c.toNat - a.toNat) / 4096) (by omega) fits
    rw [index _ (by omega), index _ above, place]
    omega

/-- A fresh run that was entered into the tables is one more block. -/
theorem Gridded.install {p : Pages.Runs} {a : Address} {starts classes : SideTable} (gridded : x.Gridded)
    (placed : x.pages.extent.Placed) (sound : p.Sound) (extent : p.extent = x.pages.extent)
    (taken : Spaces.RunTaken x.pages p a SizeClass.blockBytes) (known : sizeClass < 19)
    (entered : Entered x.blockStarts starts a a.word (range SizeClass.blockPages))
    (entered' : Entered x.blockClasses classes a (UInt64.ofNat sizeClass) (range SizeClass.blockPages)) :
    Gridded { x with
      pages := p, blockStarts := starts, blockClasses := classes
      blocks := x.blocks ++ [⟨a, sizeClass⟩] } := by
  obtain ⟨run, live, pages, start⟩ := taken
  have pages : run.pages = 16 := pages
  have spans : ∀ r, p.spanOf r = x.pages.spanOf r := fun r => by rw [Pages.Runs.spanOf, Pages.Runs.spanOf, extent]
  have pairs := (pairwise_append.mp sound.apart).1
  rw [live] at pairs
  have member : run ∈ p.map.live := by
    rw [live]
    exact mem_cons_self
  have inside := sound.spanOf_within member
  have fits := placed.fits
  simp only [Span.Within, Extent.span, Span.ofBytes, Pages.Runs.spanOf, extent, pages] at inside
  simp only [Pages.Runs.spanOf] at start
  -- An old block lies on another run, so it shares no page with the new one.
  have away : ∀ b ∈ x.blocks, b.span.hi ≤ a.toNat ∨ a.toNat + 65536 ≤ b.span.lo := by
    intro b member
    obtain ⟨old, oldLive, oldPages, oldStart⟩ := gridded.live b member
    have apart := (pairwise_cons.mp pairs).1 old oldLive
    unfold Pages.Run.Apart at apart
    simp only [Pages.Runs.spanOf] at oldStart
    simp only [Block.span]
    omega
  have above : ∀ b ∈ x.blocks, x.pages.extent.start.toNat ≤ b.span.lo := by
    intro b member
    obtain ⟨old, -, -, oldStart⟩ := gridded.live b member
    simp only [Block.span, oldStart, Pages.Runs.spanOf]
    omega
  refine ⟨?_, ?_, ?_, ?_, ?_, ?_, gridded.heads⟩
  · intro b member
    rcases mem_append.mp member with member | member
    · exact gridded.classes b member
    · rw [mem_singleton.mp member]
      exact known
  · intro b member
    rcases mem_append.mp member with member | member
    · obtain ⟨old, oldLive, oldPages, oldStart⟩ := gridded.live b member
      exact ⟨old, by simp only [live]; exact mem_cons_of_mem _ oldLive, oldPages, by rw [oldStart, spans]⟩
    · rw [mem_singleton.mp member]
      refine ⟨run, by simp only [live]; exact mem_cons_self, pages, ?_⟩
      rw [spans]
      exact start
  · refine pairwise_append.mpr ⟨gridded.distinct, pairwise_singleton .., fun b member c other => ?_⟩
    rw [mem_singleton.mp other]
    intro same
    have clear := away b member
    simp only [Block.span, same] at clear
    omega
  · intro b member c low high
    rcases mem_append.mp member with member | member
    · obtain ⟨old, old'⟩ := gridded.tables b member c low high
      have clear := away b member
      have bottom := above b member
      have missed : ¬ (a.toNat ≤ c.toNat ∧ c.toNat < a.toNat + 65536) := by omega
      have missed₁ := mt (page_of_block (t := x.blockStarts) (a := a) (c := c) (by rw [gridded.starts.origin]; omega)
        gridded.starts.grain (by rw [gridded.starts.origin]; omega) (by omega) (by rw [gridded.starts.origin]; omega)).mp missed
      have missed₂ := mt (page_of_block (t := x.blockClasses) (a := a) (c := c)
        (by rw [gridded.classNumbers.origin]; omega) gridded.classNumbers.grain (by rw [gridded.classNumbers.origin]; omega)
        (by omega) (by rw [gridded.classNumbers.origin]; omega)).mp missed
      refine ⟨(entered.kept c fun n inside same => missed₁ ⟨n, inside, same⟩).trans old,
        (entered'.kept c fun n inside same => missed₂ ⟨n, inside, same⟩).trans old'⟩
    · rw [mem_singleton.mp member] at low high ⊢
      simp only [Block.span] at low high
      exact ⟨entered.entered c ((page_of_block (by rw [gridded.starts.origin]; omega) gridded.starts.grain
          (by rw [gridded.starts.origin]; omega) (by omega) (by rw [gridded.starts.origin]; omega)).mpr ⟨low, high⟩),
        entered'.entered c ((page_of_block (by rw [gridded.classNumbers.origin]; omega) gridded.classNumbers.grain
          (by rw [gridded.classNumbers.origin]; omega) (by omega) (by rw [gridded.classNumbers.origin]; omega)).mpr ⟨low, high⟩)⟩
  · rw [entered.same]
    simp only [extent]
    exact ⟨gridded.starts.origin, gridded.starts.covered, gridded.starts.grain, gridded.starts.wide, gridded.starts.sized⟩
  · rw [entered'.same]
    simp only [extent]
    exact ⟨gridded.classNumbers.origin, gridded.classNumbers.covered, gridded.classNumbers.grain,
      gridded.classNumbers.wide, gridded.classNumbers.sized⟩

end MarkSweepSpace

namespace Spaces

variable {s s' : Spaces} {m m' m'' : Memory} {x y : MarkSweepSpace} {rooms buffers : List (SpaceId × Span)}
  {keys : List (Nat × Address)} {lists : List FreeList} {sizeClass : Nat}

/-! ### Free lists of fresh and of used blocks -/

theorem laidOut_mature (laid : s.LaidOut) (second : s.second = .mature x) (pages : y.pages = x.pages) :
    LaidOut { s with second := .mature y } := by
  have extents : ∀ id, ({ s with second := .mature y }.space id).extent = (s.space id).extent := by
    intro id
    cases id with
    | second =>
      simp only [space, second, Space.extent]
      rw [pages]
    | first => rfl
    | immortal => rfl
    | large => rfl
  exact ⟨fun id => extents id ▸ laid.placed id,
    fun id id' other => by
      rw [extents id, extents id']
      exact laid.apart id id' other,
    fun id other => by
      rw [extents id]
      exact laid.positive id other⟩

theorem supplied_mature (supplied : s.Supplied m) (second : s.second = .mature x) (pages : y.pages = x.pages) :
    Supplied { s with second := .mature y } m := by
  intro id
  have sound := supplied id
  cases id with
  | second =>
    simp only [space, second, Sourced] at sound ⊢
    rw [pages]
    exact sound
  | first => exact sound
  | immortal => exact sound
  | large => exact sound

/-- A block more or less leaves what is held in other spaces as it is. -/
theorem houses_mature {id : SpaceId} {r : Span} (second : s.second = .mature x)
    (more : ∀ b ∈ x.blocks, b ∈ y.blocks) (housed : s.Houses id r) :
    Houses { s with second := .mature y } id r := by
  cases id with
  | second =>
    simp only [Houses, space, second] at housed ⊢
    obtain ⟨sizeClass, b, member, rest⟩ := housed
    exact ⟨sizeClass, b, more b member, rest⟩
  | first => exact housed
  | immortal => exact housed
  | large => exact housed

theorem bumpable_mature {id : SpaceId} (second : s.second = .mature x) (bumpable : s.Bumpable id) :
    Bumpable { s with second := .mature y } id := by
  cases id with
  | second => simp only [Bumpable, space, second] at bumpable
  | first => exact bumpable
  | immortal => exact bumpable
  | large => exact bumpable

theorem flatMap_spans_cons (l : FreeList) (lists : List FreeList) :
    (l :: lists).flatMap (·.spans) = l.spans ++ lists.flatMap (·.spans) := rfl

/-- One more free list, of cells that are held by no one else. -/
theorem Stocked.add_list {l : FreeList} (stocked : s.Stocked m rooms buffers lists)
    (chain : Threaded m l.head l.cells)
    (cuts : s.Cuts l)
    (inner : l.spans.Pairwise fun a b => a.2.Apart b.2)
    (outer : ∀ c ∈ l.spans, ∀ h ∈ rooms ++ buffers ++ lists.flatMap (·.spans), c.2.Apart h.2) :
    s.Stocked m rooms buffers (l :: lists) := by
  refine ⟨?_, stocked.housed, stocked.ready, ?_⟩
  · have front : rooms ++ buffers ++ (l :: lists).flatMap (·.spans) ~
        l.spans ++ (rooms ++ buffers ++ lists.flatMap (·.spans)) := by
      rw [flatMap_spans_cons]
      exact perm_append_comm_assoc ..
    exact front.symm.pairwise (pairwise_append.mpr ⟨inner, stocked.apart, outer⟩) fun h => h.symm
  · intro l' member
    rcases mem_cons.mp member with rfl | member
    · exact ⟨chain, cuts⟩
    · exact stocked.free l' member

/-- A fresh block becomes a free list. -/
theorem Estate.install {a : Address} {u : Unit} (estate : s.Estate m rooms buffers keys)
    (granted : Granted s s' m m' .second SizeClass.blockBytes (some a)) (second : s'.second = .mature x)
    (ok : MarkSweepSpace.install a sizeClass (x, m') = .ok u (y, m'')) :
    Estate { s' with second := .mature y } m'' rooms buffers ((sizeClass, a) :: keys) ∧ a ≠ .null ∧
      ∀ h ∈ rooms, AgreeOn m m'' h.2 := by
  obtain ⟨lists, stocked, owned⟩ := estate.stocked
  have laid' := granted.repaged.laidOut estate.laid
  obtain ⟨x₀, p, second₀, second'⟩ | ⟨x₀, p, second₀, second'⟩ := granted.repaged.second
  case inr =>
    rw [second] at second'
    cases second'
  rw [second] at second'
  cases second'
  have grid := estate.gridded x₀ second₀
  obtain ⟨size, starts, classes, sized, rfl, rfl, entered, entered'⟩ :=
    MarkSweepSpace.install_ok (x := { x₀ with pages := p }) grid.starts.wide grid.classNumbers.wide ok
  obtain ⟨known, bytes⟩ := SizeClass.sizeOf_ok sized
  obtain ⟨least, most, words⟩ := SizeClass.bytesOf_facts known
  obtain ⟨q, second'', -, taken⟩ := granted.mature x₀ second₀
  rw [second] at second''
  cases second''
  have taken := taken a rfl rfl
  have fresh := granted.served a rfl
  have sound := granted.supplied .second
  have placed := estate.laid.placed .second
  have placed' := laid'.placed .second
  have extent := granted.repaged.extent .second
  have positive := laid'.positive .second (by decide)
  simp only [space, second, second₀, Sourced, Space.extent] at sound placed placed' extent positive
  obtain ⟨run, live, pages, start⟩ := taken
  have pages : run.pages = 16 := pages
  have member : run ∈ p.map.live := by
    rw [live]
    exact mem_cons_self
  have inside := sound.spanOf_within member
  have fits := placed.fits
  have page := placed.start
  simp only [Span.Within, Extent.span, Span.ofBytes, Pages.Runs.spanOf, extent, pages] at inside
  simp only [Pages.Runs.spanOf] at start
  rw [extent] at positive
  have block : SizeClass.blockBytes.toNat = 65536 := rfl
  have count : SizeClass.cells size = 65536 / SizeClass.bytesOf sizeClass := by
    rw [SizeClass.cells, UInt64.toNat_div, bytes]
    rfl
  have several : 1 ≤ SizeClass.cells size := by
    rw [count]
    exact Nat.le_div_iff_mul_le (by omega) |>.mpr (by omega)
  have room : SizeClass.cells size * size.toNat ≤ 65536 := by
    rw [count, bytes]
    exact Nat.div_mul_le_self ..
  have number : SizeClass.cells size - 1 + 1 = SizeClass.cells size := Nat.sub_add_cancel several
  have less : (SizeClass.cells size - 1) * size.toNat ≤ SizeClass.cells size * size.toNat :=
    Nat.mul_le_mul_right _ (Nat.sub_le ..)
  have linked : AgreeOff m' (MarkSweepSpace.linkCells m' a size (SizeClass.cells size - 1))
      (.ofBytes a SizeClass.blockBytes) := by
    apply (@MarkSweepSpace.linkCells_agree m' a size
      (SizeClass.cells size - 1) (by omega) (by omega) (by omega) (by omega)).mono
    simp only [Span.Within, Span.ofBytes]
    omega
  have chain : Threaded (MarkSweepSpace.linkCells m' a size (SizeClass.cells size - 1)) a
      (MarkSweepSpace.row a size (SizeClass.cells size)) := by
    have zero : m'.ZeroOn ⟨a.toNat, a.toNat + (SizeClass.cells size - 1 + 1) * size.toNat⟩ := by
      apply fresh.zero.mono
      simp only [Span.Within, Span.ofBytes, number]
      omega
    have chain := @MarkSweepSpace.linkCells_threaded m' a size
      (SizeClass.cells size - 1) (by omega) (by omega) (by omega) (by omega)
      (by rw [number]; omega) zero
    rwa [number] at chain
  have more : ∀ id r, s.Houses id r → Houses { s' with second := .mature { x₀ with
      pages := p, blockStarts := starts, blockClasses := classes
      blocks := x₀.blocks ++ [⟨a, sizeClass⟩] } } id r := fun id r housed =>
    houses_mature second (fun b member => mem_append_left _ member) (granted.houses estate.gridded housed)
  have keep : ∀ id r, s.Houses id r →
      AgreeOn m (MarkSweepSpace.linkCells m' a size (SizeClass.cells size - 1)) r := by
    intro id r housed
    have issued := housed.issued estate.gridded
    exact (fresh.kept id r issued).2.trans (linked.agreeOn (fresh.apart id r issued).symm)
  have carried : Stocked { s' with second := .mature { x₀ with
      pages := p, blockStarts := starts, blockClasses := classes
      blocks := x₀.blocks ++ [⟨a, sizeClass⟩] } }
      (MarkSweepSpace.linkCells m' a size (SizeClass.cells size - 1)) rooms buffers lists :=
    stocked.carry estate.laid estate.gridded
      (fun id bumpable => bumpable_mature second ((granted.repaged.bumpable id).mpr bumpable)) more
      (fun l cuts => cuts.imp fun x found => by
        rw [second₀] at found
        cases found
        exact ⟨_, rfl, fun _ listed _ => mem_append_left _ listed⟩) keep
  have cell_of : ∀ cell ∈ MarkSweepSpace.row a size (SizeClass.cells size),
      ∃ k < SizeClass.cells size, cell.toNat = a.toNat + k * size.toNat :=
    fun cell member => MarkSweepSpace.mem_row (by omega) member
  refine ⟨⟨laidOut_mature laid' second rfl, ?_, ?_,
    ⟨sizeClass, a, MarkSweepSpace.row a size (SizeClass.cells size)⟩ :: lists, ?_, ?_⟩,
    Address.toNat_pos.mp (by omega), fun h member => keep _ _ (stocked.housed h member)⟩
  · exact supplied_mature (granted.supplied.write laid' fresh.issued linked) second rfl
  · intro z mature
    cases mature
    exact grid.install placed sound extent ⟨run, live, pages, start⟩ known entered entered'
  · refine carried.add_list chain ?_ ?_ ?_
    · refine .inr ⟨_, rfl, ⟨a, sizeClass⟩, mem_append_right _ (mem_singleton.mpr rfl), rfl, fun cell member => ?_⟩
      obtain ⟨k, inside, place⟩ := cell_of cell member
      refine ⟨k, ?_, ?_⟩
      · simpa only [Block.count, Block.bytes, ← count] using inside
      · simp only [FreeList.spanOf, Block.cell, Block.bytes, place, bytes, Nat.add_mul, Nat.one_mul, Nat.add_assoc]
    · refine pairwise_map.mpr ((@MarkSweepSpace.row_apart a size
        (SizeClass.cells size) (by omega)).imp ?_)
      intro b c order
      exact .inl (by simp only [FreeList.spanOf, ← bytes]; exact order)
    · intro c member h held
      obtain ⟨cell, inside, rfl⟩ := mem_map.mp member
      obtain ⟨k, small, place⟩ := cell_of cell inside
      have last := Nat.mul_le_mul_right size.toNat (show k + 1 ≤ SizeClass.cells size from small)
      rw [Nat.add_mul, Nat.one_mul] at last
      have apart := fresh.apart _ _ (stocked.issued estate.gridded h held)
      refine (apart.mono (.refl _) ?_).symm
      simp only [FreeList.spanOf, Span.Within, Span.ofBytes, ← bytes]
      omega
  · have stock : stock { s' with second := .mature { x₀ with
        pages := p, blockStarts := starts, blockClasses := classes
        blocks := x₀.blocks ++ [⟨a, sizeClass⟩] } } = s.stock := by
      unfold Spaces.stock
      rw [second₀]
    rw [stock]
    exact (owned.cons _).trans perm_middle.symm

/-- The keys of a list are the head of one row and the keys of the list without it. -/
theorem pop_row {α β : Type} {rows : List (List α)} {g : Nat → α → β} {k : Nat} {head : α} {rest : List α}
    (found : rows[k]? = some (head :: rest)) :
    (rows.mapIdx fun i row => row.map (g i)).flatten ~
      g k head :: ((rows.set k rest).mapIdx fun i row => row.map (g i)).flatten := by
  induction rows generalizing k g with
  | nil => cases found
  | cons row rows ih =>
    cases k with
    | zero =>
      rw [getElem?_cons_zero, Option.some.injEq] at found
      subst found
      simp only [set_cons_zero, mapIdx_cons, flatten_cons, map_cons, cons_append]
      exact .refl _
    | succ k =>
      rw [getElem?_cons_succ] at found
      have later := ih (g := fun i => g (i + 1)) found
      simp only [set_cons_succ, mapIdx_cons, flatten_cons]
      exact (later.append_left _).trans perm_middle

theorem takeAvailable_ok {r : Option Address} (ok : MarkSweepSpace.takeAvailable sizeClass x = .ok r y) :
    (∃ available, y = { x with available }) ∧ (r = none → y = x) ∧
      ∀ head, r = some head → ∃ rest, x.available[sizeClass]? = some (head :: rest) ∧
        y = { x with available := x.available.setIfInBounds sizeClass rest } := by
  simp only [MarkSweepSpace.takeAvailable, MarkSweepSpace.enterLists, Step.bind_ok, Step.get_bind,
    Step.ensure_ok] at ok
  obtain ⟨_, _, ⟨-, rfl⟩, ok⟩ := ok
  cases found : x.available[sizeClass]? with
  | none =>
    rw [found] at ok
    simp at ok
  | some heads =>
    rw [found] at ok
    cases heads with
    | nil =>
      obtain ⟨rfl, rfl⟩ := Step.pure_ok.mp ok
      exact ⟨⟨_, rfl⟩, fun _ => rfl, fun _ other => by cases other⟩
    | cons head rest =>
      simp only [Step.set_bind, Step.pure_ok] at ok
      obtain ⟨rfl, rfl⟩ := ok
      refine ⟨⟨_, rfl⟩, fun other => (by cases other), fun _ same => ?_⟩
      cases same
      exact ⟨rest, rfl, rfl⟩

/-- The free list of a used block changes hands. -/
theorem Estate.take_available {head : Address} (estate : s.Estate m rooms buffers keys)
    (second : s.second = .mature x) (ok : MarkSweepSpace.takeAvailable sizeClass x = .ok (some head) y) :
    Estate { s with second := .mature y } m rooms buffers ((sizeClass, head) :: keys) ∧ head ≠ .null := by
  obtain ⟨-, -, taken⟩ := takeAvailable_ok ok
  obtain ⟨rest, found, rfl⟩ := taken head rfl
  obtain ⟨bound, row⟩ := Array.getElem?_eq_some_iff.mp found
  have grid := estate.gridded x second
  obtain ⟨lists, stocked, owned⟩ := estate.stocked
  have inside : head :: rest ∈ x.available := row ▸ Array.getElem_mem bound
  refine ⟨⟨laidOut_mature estate.laid second rfl, supplied_mature estate.supplied second rfl, ?_, lists, ?_, ?_⟩,
    grid.heads _ inside _ mem_cons_self⟩
  · intro z mature
    cases mature
    refine ⟨grid.classes, grid.live, grid.distinct, grid.tables, grid.starts, grid.classNumbers, ?_⟩
    intro heads member a listed
    rcases Array.mem_or_eq_of_mem_setIfInBounds member with member | same
    · exact grid.heads _ member _ listed
    · rw [same] at listed
      exact grid.heads _ inside _ (mem_cons_of_mem _ listed)
  · exact stocked.carry estate.laid estate.gridded (fun _ => bumpable_mature second)
      (fun _ _ => houses_mature second fun _ => id)
      (fun l cuts => cuts.imp fun z found => by
        rw [second] at found
        cases found
        exact ⟨_, rfl, fun _ listed _ => listed⟩) fun _ _ _ => AgreeOn.refl _ _
  · have stock : s.stock ~ (sizeClass, head) :: stock { s with second := .mature { x with
        available := x.available.setIfInBounds sizeClass rest } } := by
      unfold Spaces.stock
      rw [second]
      simp only [Array.toList_setIfInBounds]
      exact pop_row (g := Prod.mk) (by rw [Array.getElem?_toList]; exact found)
    exact owned.trans ((stock.append_right _).trans perm_middle.symm)

end Spaces

end TracingHeap
