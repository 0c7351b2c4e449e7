import TracingHeap.Proofs.SideTables

/-! Side tables over a whole history of changes. A table is a map from granules to values: it answers for every address of
its range, with what was stored last for an address of the same granule, or with zero if nothing was, or if a range that
meets the granule was cleared since. -/

namespace TracingHeap

namespace Span

/-- The address is one of the span. -/
def Holds (r : Span) (n : Nat) : Prop := r.lo ≤ n ∧ n < r.hi

/-- The spans share an address. -/
def Meets (r s : Span) : Prop := max r.lo s.lo < min r.hi s.hi

instance (r : Span) (n : Nat) : Decidable (r.Holds n) := inferInstanceAs (Decidable (_ ∧ _))

instance (r s : Span) : Decidable (r.Meets s) := inferInstanceAs (Decidable (_ < _))

theorem meets_iff {r s : Span} : r.Meets s ↔ ∃ n, r.Holds n ∧ s.Holds n := by
  unfold Meets Holds
  constructor
  · intro meets
    exact ⟨max r.lo s.lo, by omega⟩
  · rintro ⟨n, held, held'⟩
    omega

end Span

namespace SideTable

variable {t t' : SideTable} {a b start : Address} {bytes : Word} {i : Nat}

/-! ### Granules -/

/-- The addresses of a granule. -/
def grain (t : SideTable) (i : Nat) : Span :=
  ⟨t.start.toNat + i * 2 ^ t.logGranule.toNat, t.start.toNat + (i + 1) * 2 ^ t.logGranule.toNat⟩

/-- The index of an address is the number of the granule that it lies in. -/
theorem grain_holds_iff (narrow : t.logGranule.toNat < 64) (above : t.start.toNat ≤ a.toNat) :
    (t.grain i).Holds a.toNat ↔ t.index a = i := by
  have positive : 0 < 2 ^ t.logGranule.toNat := Nat.two_pow_pos _
  rw [index_eq above rfl narrow, Nat.div_eq_iff positive]
  simp only [Span.Holds, grain, Nat.succ_mul]
  omega

/-- A range meets the granules from that of its first byte to that of its last one. -/
theorem meets_grain_iff (narrow : t.logGranule.toNat < 64) (above : t.start.toNat ≤ start.toNat) :
    (Span.ofBytes start bytes).Meets (t.grain i) ↔ bytes.toNat ≠ 0 ∧ t.index start ≤ i ∧
      i ≤ (start.toNat + (bytes.toNat - 1) - t.start.toNat) / 2 ^ t.logGranule.toNat := by
  have positive : 0 < 2 ^ t.logGranule.toNat := Nat.two_pow_pos _
  rw [index_eq above rfl narrow, ← Nat.lt_succ_iff, Nat.div_lt_iff_lt_mul positive, Nat.le_div_iff_mul_le positive, Span.Meets,
    grain, Span.ofBytes]
  simp only [Nat.succ_mul]
  omega

/-! ### Changes -/

/-- What changes a table. -/
inductive Change where
  | store (a : Address) (value : Word)
  | clear (start : Address) (bytes : Word)

namespace Change

def perform : Change → Step SideTable Unit
  | store a value => SideTable.store a value
  | clear start bytes => SideTable.clear start bytes

/-- The change is about addresses of the span. -/
def Inside (r : Span) : Change → Prop
  | store a _ => r.Holds a.toNat
  | clear start bytes => bytes ≠ 0 → (Span.ofBytes start bytes).Within r

instance (r : Span) (c : Change) : Decidable (c.Inside r) :=
  match c with
  | store a _ => inferInstanceAs (Decidable (r.Holds a.toNat))
  | clear start bytes => inferInstanceAs (Decidable (bytes ≠ 0 → r.lo ≤ start.toNat ∧ start.toNat + bytes.toNat ≤ r.hi))

/-- The value of a granule after a change. -/
def leaves (t : SideTable) (i : Nat) (value : Word) : Change → Word
  | store a new => if (t.grain i).Holds a.toNat then t.width.truncate new else value
  | clear start bytes => if (Span.ofBytes start bytes).Meets (t.grain i) then 0 else value

end Change

/-- Only the values of a table change. -/
theorem Complete.changed (complete : t.Complete) (entries : WordTable) : Complete { t with entries } :=
  ⟨complete.narrow, complete.fits, complete.whole, complete.sized⟩

/-- Clearing a range changes the granules that it meets, and no other slot. -/
theorem clear_leaves {u : Unit} (ok : clear start bytes t = .ok u t') :
    ∃ entries, t' = { t with entries } ∧ ∀ i, entries.get i = (Change.clear start bytes).leaves t i (t.entries.get i) := by
  obtain ⟨entries, same, values⟩ := clear_get ok
  refine ⟨entries, same, fun i => ?_⟩
  rw [values, Change.leaves]
  rcases clear_ok ok with ⟨rfl, -⟩ | ⟨-, above, -, narrow, -⟩
  · rw [if_neg fun bad => bad.1 rfl, if_neg fun meets => ?_]
    obtain ⟨n, held, -⟩ := Span.meets_iff.mp meets
    exact absurd held.2 (Nat.not_lt.mpr held.1)
  · simp only [meets_grain_iff narrow above]

/-- A change inside the range succeeds, and changes the values of its granules. -/
theorem Complete.perform (complete : t.Complete) {c : Change} (inside : c.Inside t.span) :
    ∃ entries, c.perform t = .ok () { t with entries } ∧ ∀ i, entries.get i = c.leaves t i (t.entries.get i) := by
  cases c with
  | store a value =>
    obtain ⟨low, high⟩ := inside
    obtain ⟨t', stored⟩ := store_total (complete.load_total low high) value
    obtain ⟨above, narrow, rfl⟩ := store_ok stored
    refine ⟨_, stored, fun i => ?_⟩
    simp only [Change.leaves, grain_holds_iff narrow above]
    exact WordTable.get_set ..
  | clear start bytes =>
    obtain ⟨t', cleared⟩ := complete.clear_total inside
    obtain ⟨entries, rfl, values⟩ := clear_leaves cleared
    exact ⟨entries, cleared, values⟩

/-- Changes inside the range succeed, one after the other. -/
theorem Complete.perform_all (complete : t.Complete) {changes : List Change} (inside : ∀ c ∈ changes, c.Inside t.span) :
    ∃ entries, changes.forM Change.perform t = .ok () { t with entries } ∧
      ∀ i, entries.get i = changes.foldl (Change.leaves t i) (t.entries.get i) := by
  induction changes generalizing t with
  | nil => exact ⟨t.entries, rfl, fun i => rfl⟩
  | cons c rest ih =>
    obtain ⟨first, ran, values⟩ := complete.perform (inside c List.mem_cons_self)
    obtain ⟨entries, ran', values'⟩ := ih (complete.changed first) fun c member => inside c (List.mem_cons_of_mem _ member)
    refine ⟨entries, Step.forM_cons_ok.mpr ⟨_, _, ran, ran'⟩, fun i => ?_⟩
    rw [values', List.foldl_cons, ← values]
    rfl

/-- A table that was created for whole granules has an entry for each, and all of them hold zero. -/
theorem create_complete {width : EntryWidth} {covered log : Word} (made : create width start covered log = .ok (.ok t))
    (fits : start.toNat + covered.toNat < 2 ^ 64) (whole : 2 ^ log.toNat ∣ covered.toNat) :
    t.Complete ∧ (t.start = start ∧ t.covered = covered ∧ t.logGranule = log ∧ t.width = width) ∧ ∀ i, t.entries.get i = 0 := by
  obtain ⟨narrow, blank⟩ : log.toNat < 64 ∧ t.entries = .empty := by
    have made' := made
    simp only [create, except_bind_ok] at made'
    obtain ⟨granules, shifted, tableBytes, -, ok⟩ := made'
    unfold Word.shiftRight at shifted
    split at shifted
    · rename_i narrow
      refine ⟨UInt64.lt_iff_toNat_lt.mp narrow, ?_⟩
      split at ok
      · cases except_pure_ok.mp ok
      · cases except_pure_ok.mp ok
        rfl
    · cases shifted
  obtain ⟨beside, -⟩ := create_ok rfl narrow made .none
  refine ⟨⟨?_, ?_, ?_, ?_⟩, ⟨beside.origin, beside.covered, beside.grain, beside.wide⟩, ?_⟩
  · rw [beside.grain]
    exact narrow
  · rw [beside.origin, beside.covered]
    exact fits
  · rw [beside.grain, beside.covered]
    exact whole
  · rw [beside.grain, beside.covered, beside.wide]
    exact beside.sized
  · intro i
    rw [blank, WordTable.get_empty]

/-- A table for whole granules is a map from granules to values. The slots of two addresses are the same just if one granule
holds them both. After any changes inside the range every address of it is answered, with the value of its granule, and
clearing a range changes no slot but those of the granules that it meets. -/
theorem maps_granules {width : EntryWidth} {covered log : Word} (made : create width start covered log = .ok (.ok t))
    (fits : start.toNat + covered.toNat < 2 ^ 64) (whole : 2 ^ log.toNat ∣ covered.toNat) :
    (t.start = start ∧ t.covered = covered ∧ t.logGranule = log ∧ t.width = width) ∧
      (∀ a, t.span.Holds a.toNat → ∃ slot, t.slotOf a = .ok slot ∧ (t.grain slot.toNat).Holds a.toNat) ∧
      (∀ a b, t.span.Holds a.toNat → t.span.Holds b.toNat →
        (t.slotOf a = t.slotOf b ↔ ∃ i, (t.grain i).Holds a.toNat ∧ (t.grain i).Holds b.toNat)) ∧
      ∀ changes : List Change, (∀ c ∈ changes, c.Inside t.span) → ∃ t', changes.forM Change.perform t = .ok () t' ∧
        (∀ a i, t.span.Holds a.toNat → (t.grain i).Holds a.toNat → t'.load a = .ok (changes.foldl (Change.leaves t i) 0)) ∧
        ∀ first bytes t'', clear first bytes t' = .ok () t'' → ∀ slot,
          ¬ (Span.ofBytes first bytes).Meets (t.grain slot.toNat) → t''.loadSlot slot = t'.loadSlot slot := by
  obtain ⟨complete, same, blank⟩ := create_complete made fits whole
  have slots : ∀ a, t.span.Holds a.toNat → ∃ slot, t.slotOf a = .ok slot ∧ slot.toNat = t.index a := fun a held =>
    ⟨_, complete.slotOf_total held.1 held.2, rfl⟩
  refine ⟨same, fun a held => ?_, fun a b held held' => ?_, fun changes inside => ?_⟩
  · obtain ⟨slot, found, place⟩ := slots a held
    exact ⟨slot, found, (grain_holds_iff complete.narrow held.1).mpr place.symm⟩
  · obtain ⟨slot, found, place⟩ := slots a held
    obtain ⟨slot', found', place'⟩ := slots b held'
    simp only [found, found', Except.ok.injEq, grain_holds_iff complete.narrow held.1, grain_holds_iff complete.narrow held'.1,
      ← UInt64.toNat_inj, place, place']
    constructor
    · intro alike
      exact ⟨_, rfl, alike.symm⟩
    · rintro ⟨i, here, there⟩
      rw [here, there]
  · obtain ⟨entries, ran, values⟩ := complete.perform_all inside
    refine ⟨_, ran, fun a i held held' => ?_, fun first bytes t'' cleared slot apart => ?_⟩
    · rw [(complete.changed entries).load_total held.1 held.2, ← blank i, ← values i,
        ← (grain_holds_iff complete.narrow held.1).mp held']
      rfl
    · obtain ⟨entries', rfl, values'⟩ := clear_leaves cleared
      unfold loadSlot
      change (t.checkSlot slot >>= fun i => _) = t.checkSlot slot >>= fun i => _
      cases checked : t.checkSlot slot with
      | error e => rfl
      | ok i =>
        rw [checkSlot_ok checked]
        exact congrArg Except.ok ((values' slot.toNat).trans (if_neg apart))

/-- Four granules of sixteen bytes from an odd address on. -/
def fourGranules : SideTable := ⟨⟨1048579⟩, 64, 4, .word, 32, .empty⟩

/-- Each granule gets a value, and then the first one and the third one are cleared in part. -/
def fourChanges : List Change :=
  [.store ⟨1048584⟩ 7, .store ⟨1048599⟩ 9, .clear ⟨1048594⟩ 1, .store ⟨1048642⟩ 11, .store ⟨1048615⟩ 5, .clear ⟨1048619⟩ 8]

/-- The first and the last address of each granule tell the same. -/
theorem fourGranules_mapped : create .word ⟨1048579⟩ 64 4 = .ok (.ok fourGranules) ∧
    (∀ c ∈ fourChanges, c.Inside fourGranules.span) ∧ ∃ t', fourChanges.forM Change.perform fourGranules = .ok () t' ∧
      [1048579, 1048594, 1048595, 1048610, 1048611, 1048626, 1048627, 1048642].map (fun a => t'.load ⟨a⟩) =
        [.ok 0, .ok 0, .ok 9, .ok 9, .ok 0, .ok 0, .ok 11, .ok 11] := by
  have made : create .word ⟨1048579⟩ 64 4 = .ok (.ok fourGranules) := rfl
  have inside : ∀ c ∈ fourChanges, c.Inside fourGranules.span := by decide
  obtain ⟨-, -, -, run⟩ := maps_granules made (by decide) (by decide)
  obtain ⟨t', ran, loads, -⟩ := run fourChanges inside
  refine ⟨made, inside, t', ran, ?_⟩
  simp only [List.map_cons, List.map_nil]
  rw [loads ⟨1048579⟩ 0 (by decide) (by decide), loads ⟨1048594⟩ 0 (by decide) (by decide),
    loads ⟨1048595⟩ 1 (by decide) (by decide), loads ⟨1048610⟩ 1 (by decide) (by decide),
    loads ⟨1048611⟩ 2 (by decide) (by decide), loads ⟨1048626⟩ 2 (by decide) (by decide),
    loads ⟨1048627⟩ 3 (by decide) (by decide), loads ⟨1048642⟩ 3 (by decide) (by decide)]
  rfl

end SideTable

end TracingHeap
