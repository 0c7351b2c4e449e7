import TracingHeap.Proofs.Sources
import TracingHeap.SideTable

/-! What a side table holds for an address, and how stores and clears change it. Two addresses share an
entry exactly if they lie in the same granule. -/

namespace TracingHeap.SideTable

/-- The number of the granule of an address. -/
def index (t : SideTable) (a : Address) : Nat := ((a.word - t.start.word) >>> t.logGranule).toNat

/-- The entry of the granule of an address. -/
def entry (t : SideTable) (a : Address) : Word := t.entries.get (t.index a)

/-- The entry of the granule of an address, in a table of bytes. -/
def entryByte (t : SideTable) (a : Address) : UInt8 := (t.entry a).toUInt8

/-- The table with the entry of the granule of an address replaced. -/
def put (t : SideTable) (a : Address) (value : Word) : SideTable :=
  { t with entries := t.entries.set (t.index a) (t.width.truncate value) }

variable {t t' : SideTable}

theorem slotOf_ok {a : Address} {slot : Word} (ok : t.slotOf a = .ok slot) :
    t.start.toNat ≤ a.toNat ∧ a.toNat < t.start.toNat + t.covered.toNat ∧ t.logGranule.toNat < 64 ∧
      slot.toNat = t.index a := by
  simp only [slotOf, except_bind_ok] at ok
  obtain ⟨covered, covers, ok⟩ := ok
  split at ok
  · rename_i held
    subst held
    unfold SideTable.covers at covers
    split at covers
    · rename_i above
      simp only [except_map_ok, stop, decide_eq_true_eq] at covers
      obtain ⟨stop, found, below⟩ := covers
      obtain ⟨-, -, place⟩ := Address.above_ok found
      have below := Address.lt_iff.mp below
      rw [place] at below
      unfold Word.shiftRight at ok
      split at ok
      · rename_i width
        cases ok
        exact ⟨Address.le_iff.mp above, below, UInt64.lt_iff_toNat_lt.mp width, rfl⟩
      · cases ok
    · cases covers
  · cases stopped : t.stop with
    | ok stop =>
      rw [stopped] at ok
      cases ok
    | error e =>
      rw [stopped] at ok
      cases ok

theorem checkSlot_ok {slot : Word} {i : Nat} (ok : t.checkSlot slot = .ok i) : i = slot.toNat := by
  simp only [checkSlot, except_bind_ok] at ok
  obtain ⟨offset, -, ok⟩ := ok
  split at ok
  · cases ok
    rfl
  · cases ok

theorem load_ok {a : Address} {value : Word} (ok : t.load a = .ok value) :
    t.start.toNat ≤ a.toNat ∧ t.logGranule.toNat < 64 ∧ value = t.entry a := by
  simp only [load, loadSlot, except_bind_ok, except_pure_ok] at ok
  obtain ⟨slot, found, i, checked, rfl⟩ := ok
  obtain ⟨above, -, width, place⟩ := slotOf_ok found
  rw [checkSlot_ok checked, place]
  exact ⟨above, width, rfl⟩

theorem loadByte_ok {a : Address} {value : UInt8} (ok : t.loadByte a = .ok value) :
    t.start.toNat ≤ a.toNat ∧ t.logGranule.toNat < 64 ∧ value = t.entryByte a := by
  obtain ⟨word, loaded, rfl⟩ := except_map_ok.mp ok
  obtain ⟨above, width, rfl⟩ := load_ok loaded
  exact ⟨above, width, rfl⟩

theorem store_ok {a : Address} {value : Word} {u : Unit} (ok : store a value t = .ok u t') :
    t.start.toNat ≤ a.toNat ∧ t.logGranule.toNat < 64 ∧ t' = t.put a value := by
  simp only [store, Step.bind_ok, Step.ask_ok, Step.modify_ok, except_bind_ok] at ok
  obtain ⟨i, s, ⟨⟨slot, found, checked⟩, rfl⟩, rfl⟩ := ok
  obtain ⟨above, -, width, place⟩ := slotOf_ok found
  rw [checkSlot_ok checked, place]
  exact ⟨above, width, rfl⟩

/-- What can be read can be replaced. -/
theorem store_total {a : Address} {value : Word} (loaded : t.load a = .ok value) (value' : Word) :
    ∃ t', store a value' t = .ok () t' := by
  simp only [load, loadSlot, except_bind_ok] at loaded
  obtain ⟨slot, found, i, checked, -⟩ := loaded
  refine ⟨{ t with entries := t.entries.set i (t.width.truncate value') }, ?_⟩
  simp only [store, Step.bind_ok, Step.ask_ok, Step.modify_ok, except_bind_ok]
  exact ⟨i, t, ⟨⟨slot, found, checked⟩, rfl⟩, rfl⟩

theorem index_eq {a : Address} {k : Nat} (above : t.start.toNat ≤ a.toNat) (granule : t.logGranule.toNat = k)
    (width : k < 64) : t.index a = (a.toNat - t.start.toNat) / 2 ^ k := by
  have difference : (a.word - t.start.word).toNat = a.toNat - t.start.toNat :=
    UInt64.toNat_sub_of_le _ _ (UInt64.le_iff_toNat_le.mpr above)
  rw [index, UInt64.toNat_shiftRight, difference, granule, Nat.mod_eq_of_lt width,
    Nat.shiftRight_eq_div_pow]

/-- A granule that was stored is read back, and no other one notices. -/
theorem entry_put (t : SideTable) (a b : Address) (value : Word) :
    (t.put a value).entry b = if t.index a = t.index b then t.width.truncate value else t.entry b := by
  rw [entry, put, entry, WordTable.get_set]
  rfl

theorem entryByte_put (bytes : t.width = .byte) (a b : Address) (value : UInt8) :
    (t.put a value.toUInt64).entryByte b = if t.index a = t.index b then value else t.entryByte b := by
  rw [entryByte, entry_put]
  split
  · rw [bytes]
    apply UInt8.toNat_inj.mp
    rw [EntryWidth.truncate, UInt64.toNat_toUInt8, UInt64.toNat_and, UInt8.toNat_toUInt64,
      show (255 : Word).toNat = 2 ^ 8 - 1 from rfl, Nat.and_two_pow_sub_one_eq_mod, Nat.mod_mod]
    exact Nat.mod_eq_of_lt value.toNat_lt
  · rfl

/-- The table with zeros from the granule of one address to that of another. -/
def wipe (t : SideTable) (first last : Address) : SideTable :=
  { t with entries := t.entries.clear (t.index first) (t.index last) }

theorem entry_wipe (t : SideTable) (first last a : Address) :
    (t.wipe first last).entry a =
      if t.index first ≤ t.index a ∧ t.index a ≤ t.index last then 0 else t.entry a := by
  rw [entry, wipe, entry, WordTable.get_clear]
  rfl

theorem clear_ok {start : Address} {bytes : Word} {u : Unit} (ok : clear start bytes t = .ok u t') :
    bytes = 0 ∧ t' = t ∨
      bytes ≠ 0 ∧ t.start.toNat ≤ start.toNat ∧ start.toNat + (bytes.toNat - 1) < 2 ^ 64 ∧
        t.logGranule.toNat < 64 ∧ t' = t.wipe start (start.plus (bytes - 1)) := by
  unfold clear at ok
  by_cases empty : bytes = 0
  · rw [if_pos empty] at ok
    cases ok
    exact .inl ⟨empty, rfl⟩
  · rw [if_neg empty] at ok
    simp only [Step.bind_ok, Step.ask_ok, Step.modify_ok, except_bind_ok] at ok
    obtain ⟨first, s, ⟨found, rfl⟩, last, s', ⟨⟨place, moved, found'⟩, rfl⟩, rfl⟩ := ok
    obtain ⟨above, -, width, index⟩ := slotOf_ok found
    obtain ⟨-, -, -, index'⟩ := slotOf_ok found'
    obtain ⟨fits, rfl, -⟩ := Address.above_ok moved
    have less : (bytes - 1).toNat = bytes.toNat - 1 := by
      rw [UInt64.toNat_sub_of_le]
      · rfl
      · rw [UInt64.le_iff_toNat_le]
        have := mt UInt64.toNat_inj.mp empty
        simp only [UInt64.toNat_zero] at this
        simp only [UInt64.reduceToNat]
        omega
    rw [less] at fits
    rw [index, index']
    exact .inr ⟨empty, above, fits, width, rfl⟩

@[simp] theorem put_start (t : SideTable) (a : Address) (value : Word) : (t.put a value).start = t.start := rfl

@[simp] theorem put_granule (t : SideTable) (a : Address) (value : Word) :
    (t.put a value).logGranule = t.logGranule := rfl

@[simp] theorem put_width (t : SideTable) (a : Address) (value : Word) : (t.put a value).width = t.width := rfl

@[simp] theorem put_index (t : SideTable) (a b : Address) (value : Word) :
    (t.put a value).index b = t.index b := rfl

@[simp] theorem wipe_start (t : SideTable) (a b : Address) : (t.wipe a b).start = t.start := rfl

@[simp] theorem wipe_granule (t : SideTable) (a b : Address) : (t.wipe a b).logGranule = t.logGranule := rfl

@[simp] theorem wipe_width (t : SideTable) (a b : Address) : (t.wipe a b).width = t.width := rfl

@[simp] theorem wipe_index (t : SideTable) (a b c : Address) : (t.wipe a b).index c = t.index c := rfl

/-! ### Complete tables -/

/-- The addresses that the table is for. -/
def span (t : SideTable) : Span := .ofBytes t.start t.covered

/-- The range of the table ends at an address and is made of whole granules, and the table has an entry for each. -/
structure Complete (t : SideTable) : Prop where
  narrow : t.logGranule.toNat < 64
  fits : t.start.toNat + t.covered.toNat < 2 ^ 64
  whole : 2 ^ t.logGranule.toNat ∣ t.covered.toNat
  sized : t.tableBytes.toNat = max (t.covered.toNat / 2 ^ t.logGranule.toNat) 1 * t.width.bytes.toNat

namespace Complete

variable {a : Address}

theorem slotOf_total (complete : t.Complete) (low : t.span.lo ≤ a.toNat) (high : a.toNat < t.span.hi) :
    t.slotOf a = .ok ((a.word - t.start.word) >>> t.logGranule) := by
  have fits := complete.fits
  simp only [span, Span.ofBytes] at low high
  have stop : t.stop = .ok (t.start.plus t.covered) := Address.above_fits fits
  have covers : t.covers a = .ok true := by
    have below : a < t.start.plus t.covered := Address.lt_iff.mpr (by rw [Address.toNat_plus fits]; exact high)
    unfold SideTable.covers
    rw [if_pos (Address.le_iff.mpr low), stop]
    simp [Except.map, below]
  have narrow : t.logGranule < 64 := UInt64.lt_iff_toNat_lt.mpr complete.narrow
  refine except_bind_ok.mpr ⟨true, covers, ?_⟩
  rw [if_pos rfl, Word.shiftRight, if_pos narrow]

theorem index_lt (complete : t.Complete) (low : t.span.lo ≤ a.toNat) (high : a.toNat < t.span.hi) :
    t.index a < t.covered.toNat / 2 ^ t.logGranule.toNat := by
  simp only [span, Span.ofBytes] at low high
  rw [index_eq low rfl complete.narrow]
  exact Nat.div_lt_div_of_lt_of_dvd complete.whole (by omega)

theorem checkSlot_total (complete : t.Complete) {slot : Word}
    (inside : slot.toNat < t.covered.toNat / 2 ^ t.logGranule.toNat) : t.checkSlot slot = .ok slot.toNat := by
  have sized := complete.sized
  have positive : 0 < t.width.bytes.toNat := by cases t.width <;> decide
  have below : slot.toNat * t.width.bytes.toNat < t.tableBytes.toNat := by
    rw [sized]
    exact Nat.mul_lt_mul_of_pos_right (Nat.lt_of_lt_of_le inside (Nat.le_max_left ..)) positive
  have fits : slot.toNat * t.width.bytes.toNat < 2 ^ 64 := Nat.lt_trans below t.tableBytes.toNat_lt
  rw [checkSlot, Word.product_ok.mpr ⟨fits, rfl⟩]
  have less : slot * t.width.bytes < t.tableBytes := by
    rw [UInt64.lt_iff_toNat_lt, UInt64.toNat_mul, Nat.mod_eq_of_lt fits]
    exact below
  change (if _ < t.tableBytes then _ else _) = _
  rw [if_pos less]

/-- Every address of the range has an entry. -/
theorem load_total (complete : t.Complete) (low : t.span.lo ≤ a.toNat) (high : a.toNat < t.span.hi) :
    t.load a = .ok (t.entry a) := by
  rw [load, complete.slotOf_total low high]
  change t.loadSlot _ = _
  rw [loadSlot, complete.checkSlot_total (complete.index_lt low high)]
  rfl

/-- A part of the range can be cleared. -/
theorem clear_total (complete : t.Complete) {start : Address} {bytes : Word}
    (inner : bytes ≠ 0 → (Span.ofBytes start bytes).Within t.span) : ∃ t', clear start bytes t = .ok () t' := by
  unfold clear
  by_cases none : bytes = 0
  · rw [if_pos none]
    exact ⟨t, rfl⟩
  · obtain ⟨low, high⟩ := inner none
    have fits := complete.fits
    have some : 0 < bytes.toNat := Nat.pos_of_ne_zero fun zero => none (UInt64.toNat_inj.mp zero)
    simp only [span, Span.ofBytes] at low high
    have less : (bytes - 1).toNat = bytes.toNat - 1 := UInt64.toNat_sub_of_le _ _ (UInt64.le_iff_toNat_le.mpr some)
    have reach : start.above (bytes - 1) = .ok (start.plus (bytes - 1)) := Address.above_fits (by omega)
    have last := (Address.above_ok reach).2.2
    have first := complete.slotOf_total (a := start) low (by simp only [span, Span.ofBytes]; omega)
    have final := complete.slotOf_total (a := start.plus (bytes - 1)) (by simp only [span, Span.ofBytes]; omega)
      (by simp only [span, Span.ofBytes]; omega)
    rw [if_neg none]
    simp only [Step.bind_ok, Step.ask_ok, Step.modify_ok]
    exact ⟨_, _, t, ⟨first, rfl⟩, _, t, ⟨by rw [reach]; exact final, rfl⟩, rfl⟩

end Complete

/-- The slots of a range that was cleared hold zero, and no other one notices. -/
theorem clear_get {start : Address} {bytes : Word} {u : Unit} (ok : clear start bytes t = .ok u t') :
    ∃ entries, t' = { t with entries } ∧ ∀ i, entries.get i =
      if bytes.toNat ≠ 0 ∧ t.index start ≤ i ∧ i ≤ (start.toNat + (bytes.toNat - 1) - t.start.toNat) / 2 ^ t.logGranule.toNat
      then 0 else t.entries.get i := by
  rcases clear_ok ok with ⟨rfl, rfl⟩ | ⟨some, above, fits, narrow, rfl⟩
  · exact ⟨t'.entries, rfl, fun i => (if_neg fun bad => bad.1 rfl).symm⟩
  · refine ⟨_, rfl, fun i => ?_⟩
    have positive : bytes.toNat ≠ 0 := fun none => some (UInt64.toNat_inj.mp none)
    have less : (bytes - 1).toNat = bytes.toNat - 1 :=
      UInt64.toNat_sub_of_le _ _ (UInt64.le_iff_toNat_le.mpr (Nat.pos_of_ne_zero positive))
    have last : (start.plus (bytes - 1)).toNat = start.toNat + (bytes.toNat - 1) := by
      rw [Address.toNat_plus (by rw [less]; exact fits), less]
    rw [WordTable.get_clear, index_eq (a := start.plus (bytes - 1)) (by rw [last]; omega) rfl narrow, last]
    simp only [positive, ne_eq, not_false_eq_true, true_and]

/-! ### Tables beside an extent -/

/-- The table has an entry for every granule of the extent. -/
structure Beside (t : SideTable) (e : Extent) (width : EntryWidth) (log : Word) : Prop where
  origin : t.start = e.start
  covered : t.covered = e.bytes
  grain : t.logGranule = log
  wide : t.width = width
  sized : t.tableBytes.toNat = max (e.bytes.toNat / 2 ^ log.toNat) 1 * width.bytes.toNat

variable {e : Extent} {width : EntryWidth} {log : Word}

theorem Beside.put (beside : t.Beside e width log) (a : Address) (value : Word) :
    (t.put a value).Beside e width log :=
  ⟨beside.origin, beside.covered, beside.grain, beside.wide, beside.sized⟩

theorem Beside.wipe (beside : t.Beside e width log) (a b : Address) : (t.wipe a b).Beside e width log :=
  ⟨beside.origin, beside.covered, beside.grain, beside.wide, beside.sized⟩

/-- The number of the granule of an address of the extent. -/
theorem Beside.index_eq (beside : t.Beside e width log) {k : Nat} (known : log.toNat = k) (narrow : k < 64)
    {a : Address} (above : e.start.toNat ≤ a.toNat) : t.index a = (a.toNat - e.start.toNat) / 2 ^ k := by
  rw [SideTable.index_eq (by rw [beside.origin]; exact above) (by rw [beside.grain]; exact known) narrow,
    beside.origin]

theorem Beside.complete (beside : t.Beside e width log) (placed : e.Placed) {k : Nat} (known : log.toNat = k)
    (small : k ≤ 12) : t.Complete where
  narrow := by
    rw [beside.grain, known]
    omega
  fits := by
    have fits := placed.fits
    rw [beside.origin, beside.covered]
    omega
  whole := by
    have pages := placed.bytes
    have split : 2 ^ k * 2 ^ (12 - k) = 4096 := by rw [← Nat.pow_add, show k + (12 - k) = 12 by omega]
    rw [beside.grain, known, beside.covered]
    exact Nat.dvd_trans ⟨_, split.symm⟩ (Nat.dvd_of_mod_eq_zero pages)
  sized := by
    rw [beside.grain, beside.covered, beside.wide]
    exact beside.sized

theorem Beside.span (beside : t.Beside e width log) : t.span = e.span := by
  rw [SideTable.span, beside.origin, beside.covered]
  rfl

/-- Every address of the extent has an entry. -/
theorem Beside.load_total (beside : t.Beside e width log) (placed : e.Placed) {k : Nat} (known : log.toNat = k)
    (small : k ≤ 12) {a : Address} (low : e.span.lo ≤ a.toNat) (high : a.toNat < e.span.hi) :
    t.load a = .ok (t.entry a) := by
  rw [← beside.span] at low high
  exact (beside.complete placed known small).load_total low high

theorem Beside.loadByte_total (beside : t.Beside e width log) (placed : e.Placed) {k : Nat} (known : log.toNat = k)
    (small : k ≤ 12) {a : Address} (low : e.span.lo ≤ a.toNat) (high : a.toNat < e.span.hi) :
    t.loadByte a = .ok (t.entryByte a) := by
  rw [loadByte, beside.load_total placed known small low high]
  rfl

theorem create_ok {start : Address} {bytes : Word} {k : Nat} (known : log.toNat = k) (narrow : k < 64)
    (ok : create width start bytes log = .ok (.ok t)) (tag : SpaceTag) :
    t.Beside ⟨tag, start, bytes⟩ width log ∧ ∀ a, t.entry a = 0 := by
  simp only [create, except_bind_ok] at ok
  obtain ⟨granules, shifted, tableBytes, product, ok⟩ := ok
  split at ok
  · cases except_pure_ok.mp ok
  · cases except_pure_ok.mp ok
    refine ⟨⟨rfl, rfl, rfl, rfl, ?_⟩, fun a => WordTable.get_empty _⟩
    have count : granules.toNat = bytes.toNat / 2 ^ log.toNat := by
      unfold Word.shiftRight at shifted
      split at shifted
      · cases shifted
        rw [UInt64.toNat_shiftRight, known, Nat.mod_eq_of_lt narrow, Nat.shiftRight_eq_div_pow]
      · cases shifted
    have most : (max granules 1).toNat = max granules.toNat 1 := by
      change (if granules ≤ 1 then (1 : Word) else granules).toNat = _
      split
      · rename_i few
        have := UInt64.le_iff_toNat_le.mp few
        simp only [UInt64.toNat_one] at this ⊢
        omega
      · rename_i many
        have := mt UInt64.le_iff_toNat_le.mpr many
        simp only [UInt64.toNat_one] at this
        omega
    change tableBytes.toNat = _
    rw [Word.toNat_product product, most, count]

end TracingHeap.SideTable
