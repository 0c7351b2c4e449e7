import TracingHeap.Proofs.Visits

/-! Marks. Three kinds of spaces leave objects where they are and mark them, each in its own way; what they have in common is
what collectors contend for. At the start of a closure every object of such a space has a mark of its own, and a large
object is on the list that its mark tells. -/

namespace TracingHeap

open List

/-! ### The lists of large objects -/

namespace Treadmill

/-- The list of a treadmill that waits for an object holds it. -/
def collects (t : Treadmill) (o : Address) (young : Bool) : Bool :=
  if young then t.young.contains o else t.old.contains o

variable {t t' : Treadmill} {o p : Address} {young : Bool} {u : Unit}

/-- An object that is on the list moves to the survivors. -/
theorem save_total (listed : t.collects o young = true) : ∃ t', save o young t = .ok () t' := by
  unfold save
  rw [Step.get_bind, Step.ite_step]
  cases young with
  | true => exact ⟨_, Step.bind_ok.mpr ⟨(), t, Step.ensure_ok.mpr ⟨listed, rfl⟩, rfl⟩⟩
  | false => exact ⟨_, Step.bind_ok.mpr ⟨(), t, Step.ensure_ok.mpr ⟨listed, rfl⟩, rfl⟩⟩

theorem contains_insert (list : Std.TreeSet Address) (o p : Address) :
    (list.insert o).contains p = (p == o || list.contains p) := by
  rw [Bool.eq_iff_iff, Bool.or_eq_true, beq_iff_eq, ← Std.TreeSet.mem_iff_contains, ← Std.TreeSet.mem_iff_contains]
  exact mem_insert_address

theorem contains_erase (list : Std.TreeSet Address) (other : p ≠ o) : (list.erase o).contains p = list.contains p := by
  rw [Bool.eq_iff_iff, ← Std.TreeSet.mem_iff_contains, ← Std.TreeSet.mem_iff_contains, mem_erase_address]
  exact and_iff_right other

/-- The object survives, and other objects stay where they are. -/
theorem save_moves (ok : save o young t = .ok u t') : t'.survivors.contains o = true ∧
    ∀ p ≠ o, t'.collects p = t.collects p ∧ t'.survivors.contains p = t.survivors.contains p := by
  have survivors : t'.survivors = t.survivors.insert o := by
    rw [LargeSpace.save_ok ok]
    cases young <;> rfl
  refine ⟨by rw [survivors, contains_insert, beq_self_eq_true, Bool.true_or], fun p other => ⟨?_, ?_⟩⟩
  · funext young'
    rw [LargeSpace.save_ok ok]
    cases young <;> cases young' <;> first | rfl | exact contains_erase _ other
  · rw [survivors, contains_insert, beq_eq_false_iff_ne.mpr other, Bool.false_or]

end Treadmill

/-! ### How spaces mark -/

/-- A space that leaves its objects where they are, and marks them. -/
inductive Marking where
  | mature (space : MarkSweepSpace)
  | immortal (space : ImmortalSpace)
  | large (space : LargeSpace)

namespace Marking

variable {x : Marking} {o p : Address} {t : SideTable} {mark : UInt8} {young : Bool} {ι : Type}

def extent : Marking → Extent
  | mature x => x.pages.extent
  | immortal x => x.pages.extent
  | large x => x.pages.extent

def marks : Marking → SideTable
  | mature x => x.marks
  | immortal x => x.marks
  | large x => x.marks

/-- The mark of a claimed object. -/
def current : Marking → UInt8
  | mature x => x.current
  | immortal x => x.current
  | large x => x.current

/-- The lists of objects, which only large objects have. -/
def treadmill : Marking → Treadmill
  | large x => x.treadmill
  | _ => .empty

def isLarge : Marking → Bool
  | large _ => true
  | _ => false

/-- A mark is shared by so many bytes, as a power of two. -/
def grain : Marking → Word
  | large _ => 12
  | _ => 4

/-- The address that has the mark of an object: that of its cell in the mature store. -/
def placeOf (o : Address) : Marking → Except Fault Address
  | mature x => x.cellOf o
  | _ => .ok o

/-- Is an object with this mark claimed? -/
def claims (mark : UInt8) : Marking → Bool
  | mature x => mark == x.current
  | immortal x => mark == x.current
  | large x => mark &&& (if x.youngOnly then LargeSpace.markMask else LargeSpace.reachedBit) == x.current

/-- The mark that an object gets when it is claimed. -/
def claimed (mark : UInt8) : Marking → UInt8
  | large x => (mark &&& ~~~LargeSpace.markMask) ||| x.current
  | x => x.current

/-- Does a collector put its mark in place of any other, and look afterwards? -/
def swaps : Marking → Bool
  | immortal _ => true
  | _ => false

/-- What a collector finds out before it goes for the mark: whether the collection covers the object, and if so whether the
object is a young one. -/
def look (t : SideTable) (o : Address) : Marking → Except Fault (Option Bool)
  | large x => (LargeSpace.isYoung { x with marks := t } o).map fun young => if x.youngOnly && !young then none else some young
  | _ => .ok (some false)

/-- What becomes of the lists when an object was won. -/
def keep (o : Address) (young : Bool) : Marking → Step Treadmill Unit
  | large _ => Treadmill.save o young
  | _ => pure ()

/-- The moves between the lists that belong to an object that a collector has won. -/
def savings (i : ι) (young : Bool) (x : Marking) : List (ι × Bool) := if x.isLarge then [(i, young)] else []

/-- Where the mark of an object is. -/
def place (x : Marking) (o : Address) : Address := (x.placeOf o).toOption.getD .null

/-- The mark of an object before anyone goes for it. -/
def before (x : Marking) (o : Address) : UInt8 := x.marks.entryByte (x.place o)

/-- What a mark tells about an object. -/
def sight (mark : UInt8) : Marking → Option Bool
  | large x =>
    let young := mark &&& LargeSpace.youngBit == LargeSpace.youngBit
    if x.youngOnly && !young then none else some young
  | _ => some false

/-- Is the object to be claimed in the collection, and if so is it a young one? -/
def awaits (x : Marking) (o : Address) : Option Bool := if x.claims (x.before o) then none else x.sight (x.before o)

/-- Objects of a space at the start of a closure. Each has a mark of its own, which only tells whether the object is claimed
and whether it is young, and a large object is on the list that its mark tells. -/
structure Arena (x : Marking) (objects : Address → Prop) : Prop where
  placed : x.extent.Placed
  table : x.marks.Beside x.extent .byte x.grain
  known : ∀ o, objects o → x.placeOf o = .ok (x.place o)
  inside : ∀ o, objects o → x.extent.span.lo ≤ (x.place o).toNat ∧ (x.place o).toNat < x.extent.span.hi
  apart : ∀ o p, objects o → objects p → o ≠ p → x.marks.index (x.place o) ≠ x.marks.index (x.place p)
  proper : x.claims x.current = true
  exact : ∀ o, objects o → x.claimed (x.before o) = x.current
  listed : ∀ o, objects o → ∀ young, x.awaits o = some young → x.isLarge = true → x.treadmill.collects o young = true

variable {objects : Address → Prop}

theorem grain_le (x : Marking) : x.grain.toNat ≤ 12 := by
  cases x with
  | mature => exact (by decide : 4 ≤ 12)
  | immortal => exact (by decide : 4 ≤ 12)
  | large => exact Nat.le_refl 12

/-- The mark of an object can be read. -/
theorem Arena.load (arena : x.Arena objects) (table : t.Beside x.extent .byte x.grain) (object : objects o) :
    t.load (x.place o) = .ok (t.entry (x.place o)) ∧ t.loadByte (x.place o) = .ok (t.entryByte (x.place o)) := by
  obtain ⟨low, high⟩ := arena.inside o object
  exact ⟨table.load_total arena.placed rfl x.grain_le low high, table.loadByte_total arena.placed rfl x.grain_le low high⟩

/-- What a collector finds out is what the mark tells. -/
theorem Arena.look (arena : x.Arena objects) (table : t.Beside x.extent .byte x.grain) (object : objects o) :
    x.look t o = .ok (x.sight (t.entryByte (x.place o))) := by
  have loaded := (arena.load table object).2
  cases x with
  | mature x => rfl
  | immortal x => rfl
  | large x =>
    change t.loadByte o = _ at loaded
    rw [Marking.look, LargeSpace.isYoung, loaded]
    rfl

theorem index_grain (table : x.marks.Beside x.extent .byte x.grain) (table' : t.Beside x.extent .byte x.grain) (a : Address) :
    t.index a = x.marks.index a := by
  rw [SideTable.index, SideTable.index, table.origin, table'.origin, table.grain, table'.grain]

/-- A mark is written. -/
theorem Arena.put (arena : x.Arena objects) (table : t.Beside x.extent .byte x.grain) (object : objects o) (object' : objects p)
    (mark : UInt8) : (t.put (x.place o) mark.toUInt64).entryByte (x.place p) =
      if p = o then mark else t.entryByte (x.place p) := by
  rw [SideTable.entryByte_put table.wide, index_grain arena.table table, index_grain arena.table table]
  by_cases same : p = o
  · rw [if_pos same, if_pos (by rw [same])]
  · rw [if_neg same, if_neg (arena.apart o p object object' (Ne.symm same))]

/-- A mark that is swapped tells nothing else than whether the object is claimed. -/
theorem swaps_claimed (atOnce : x.swaps = true) (claimed : x.claims mark = true) : mark = x.current := by
  cases x with
  | mature => cases atOnce
  | immortal => exact beq_iff_eq.mp claimed
  | large => cases atOnce

/-- An object that is on its list can be moved. -/
theorem keep_total {l : Treadmill} (listed : x.isLarge = true → l.collects o young = true) : ∃ l', x.keep o young l = .ok () l' := by
  cases x with
  | mature => exact ⟨l, rfl⟩
  | immortal => exact ⟨l, rfl⟩
  | large => exact Treadmill.save_total (listed rfl)

theorem keep_moves {l l' : Treadmill} {u : Unit} (kept : x.keep o young l = .ok u l') :
    (x.isLarge = true → l'.survivors.contains o = true) ∧
      ∀ p ≠ o, l'.collects p = l.collects p ∧ l'.survivors.contains p = l.survivors.contains p := by
  cases x with
  | mature =>
    cases kept
    exact ⟨fun large => (by cases large), fun _ _ => ⟨rfl, rfl⟩⟩
  | immortal =>
    cases kept
    exact ⟨fun large => (by cases large), fun _ _ => ⟨rfl, rfl⟩⟩
  | large =>
    obtain ⟨survives, others⟩ := Treadmill.save_moves kept
    exact ⟨fun _ => survives, others⟩

/-- Only objects that are not claimed are waited for. -/
theorem awaits_some (awaits : x.awaits o = some young) : x.claims (x.before o) = false ∧ x.sight (x.before o) = some young := by
  unfold Marking.awaits at awaits
  cases claimed : x.claims (x.before o) with
  | true =>
    rw [claimed] at awaits
    cases awaits
  | false =>
    rw [claimed] at awaits
    exact ⟨rfl, awaits⟩

end Marking

/-! ### The objects of a collection -/

/-- How a space marks its objects, unless it moves them. -/
def Space.marking? : Space → Option Marking
  | .copying _ => none
  | .markSweep x => some (.mature x)
  | .immortal x => some (.immortal x)
  | .large x => some (.large x)

namespace Spaces

variable {s : Spaces} {m : Memory} {pieces : List Piece} {buffers : List (SpaceId × Span)} {keys : List (Nat × Address)}
  {id : SpaceId} {x : Marking}

/-- The objects of a space are pieces of its. -/
def objectsOf (pieces : List Piece) (id : SpaceId) (o : Address) : Prop :=
  ∃ p ∈ pieces, p.home = id ∧ p.isObject = true ∧ p.start = o

/-- Cells of the mature store have marks of their own. -/
theorem Held.mature_arena {y : MarkSweepSpace} (held : s.Held m pieces buffers keys) (tracked : s.Tracked pieces)
    (second : s.second = .mature y) : (Marking.mature y).Arena (objectsOf pieces .second) := by
  have here : s.space .second = .markSweep y := by simp only [space, second]
  have extent : (s.space .second).extent = y.pages.extent := by rw [here]; rfl
  have placed := held.estate.laid.placed .second
  rw [extent] at placed
  have old := tracked.mature y second
  have cell : ∀ p ∈ pieces, p.home = .second → y.cellOf p.start = .ok ((Marking.mature y).place p.start) ∧
      ((Marking.mature y).place p.start).toNat = p.span.lo := by
    intro p member home
    obtain ⟨cell, found, start⟩ := held.cellOf member home second
    have there : (Marking.mature y).place p.start = cell := by
      change (y.cellOf p.start).toOption.getD .null = cell
      rw [found]
      rfl
    rw [there]
    exact ⟨found, start⟩
  have within : ∀ p ∈ pieces, p.home = .second → p.span.Within y.pages.extent.span := by
    intro p member home
    have within := held.within member
    rwa [home, extent] at within
  refine ⟨placed, old.table, ?_, ?_, ?_, beq_self_eq_true _, fun _ _ => rfl, fun _ _ _ _ large => by cases large⟩
  · rintro o ⟨p, member, home, -, rfl⟩
    exact (cell p member home).1
  · rintro o ⟨p, member, home, -, rfl⟩
    have start := (cell p member home).2
    have room := (held.placed p member).room
    have low := (held.placed p member).low
    have inside := within p member home
    unfold Span.Within at inside
    change y.pages.extent.span.lo ≤ _ ∧ _ < y.pages.extent.span.hi
    omega
  · rintro o o' ⟨p, member, home, -, rfl⟩ ⟨q, member', home', -, rfl⟩ differ
    have beside : y.marks.Beside (s.space .second).extent .byte 4 := by
      rw [extent]
      exact old.table
    exact held.cell_index_ne beside member member' home home' (fun same => differ (by rw [same])) (cell p member home).2
      (cell q member' home').2

/-- Immortal objects are at least a granule apart. -/
theorem Held.immortal_arena (held : s.Held m pieces buffers keys) (tracked : s.Tracked pieces) :
    (Marking.immortal s.immortal).Arena (objectsOf pieces .immortal) := by
  have inside : ∀ p ∈ pieces, p.home = .immortal →
      s.immortal.pages.extent.span.lo ≤ p.start.toNat ∧ p.start.toNat < s.immortal.pages.extent.span.hi := by
    intro p member home
    have inside := held.inside member
    rwa [home] at inside
  refine ⟨held.estate.laid.placed .immortal, tracked.immortal.table, fun _ _ => rfl, ?_, ?_, beq_self_eq_true _, fun _ _ => rfl,
    fun _ _ _ _ large => by cases large⟩
  · rintro o ⟨p, member, home, -, rfl⟩
    exact inside p member home
  · rintro o o' ⟨p, member, home, -, rfl⟩ ⟨q, member', home', -, rfl⟩ differ
    exact tracked.immortal.table.index_ne (inside p member home).1 (inside q member' home').1
      (held.far member member' fun same => differ (by rw [same]))

/-- Large objects have pages of their own, and their marks tell the lists that they are on. -/
theorem Held.large_arena (held : s.Held m pieces buffers keys) (tracked : s.Tracked pieces)
    (fresh : ∀ o, o ∉ s.large.treadmill.fresh) : (Marking.large s.large).Arena (objectsOf pieces .large) := by
  have old := tracked.large
  have told : ∀ o, objectsOf pieces .large o → (s.large.marks.entryByte o = s.large.current ∨
      s.large.marks.entryByte o = (if s.large.youngOnly = true then s.large.current else 1 - s.large.current) ||| 2 ∧
        s.large.treadmill.young.contains o = true ∨
      s.large.youngOnly = false ∧ s.large.marks.entryByte o = 1 - s.large.current ∧
        s.large.treadmill.old.contains o = true) := by
    rintro o ⟨p, member, home, object, rfl⟩
    rcases old.complete p member home object with listed | listed | listed | listed
    · exact absurd listed (fresh _)
    · exact .inl (old.survivors _ listed)
    · exact .inr (.inl ⟨old.young _ listed, Std.TreeSet.mem_iff_contains.mp listed⟩)
    · exact .inr (.inr ⟨(old.old _ listed).1, (old.old _ listed).2, Std.TreeSet.mem_iff_contains.mp listed⟩)
  refine ⟨held.estate.laid.placed .large, old.table, fun _ _ => rfl, ?_, ?_, ?_, fun o object => ?_, fun o object young awaits _ => ?_⟩
  · rintro o ⟨p, member, home, -, rfl⟩
    have inside := held.inside member
    rwa [home] at inside
  · rintro o o' ⟨p, member, home, -, rfl⟩ ⟨q, member', home', -, rfl⟩ differ
    exact held.large_index_ne old.table member member' home home' differ
  · change (s.large.current &&& (if s.large.youngOnly = true then _ else _) == s.large.current) = true
    rcases old.current with zero | one
    · rw [zero]
      cases s.large.youngOnly <;> decide
    · rw [one]
      cases s.large.youngOnly <;> decide
  · change (s.large.marks.entryByte o &&& ~~~LargeSpace.markMask) ||| s.large.current = s.large.current
    rcases told o object with mark | ⟨mark, -⟩ | ⟨-, mark, -⟩ <;> rw [mark] <;>
      rcases old.current with now | now <;> rw [now] <;> cases s.large.youngOnly <;> decide
  · have awaits : (if (s.large.marks.entryByte o &&& (if s.large.youngOnly = true then LargeSpace.markMask
        else LargeSpace.reachedBit) == s.large.current) = true then none
      else if (s.large.youngOnly && !(s.large.marks.entryByte o &&& LargeSpace.youngBit == LargeSpace.youngBit)) = true then none
      else some (s.large.marks.entryByte o &&& LargeSpace.youngBit == LargeSpace.youngBit)) = some young := awaits
    rcases told o object with mark | ⟨mark, listed⟩ | ⟨full, mark, listed⟩
    · rw [mark] at awaits
      rcases old.current with now | now <;> rw [now] at awaits <;> cases only : s.large.youngOnly <;> rw [only] at awaits <;>
        cases awaits
    · have first : young = true := by
        rw [mark] at awaits
        rcases old.current with now | now <;> rw [now] at awaits <;> cases only : s.large.youngOnly <;> rw [only] at awaits <;>
          cases awaits <;> rfl
      rw [first]
      exact listed
    · have second : young = false := by
        rw [mark, full] at awaits
        rcases old.current with now | now <;> rw [now] at awaits <;> cases awaits <;> rfl
      rw [second]
      exact listed

/-- The objects that a collection finds in a space can be contended for. -/
theorem Held.arena (held : s.Held m pieces buffers keys) (tracked : s.Tracked pieces) (fresh : ∀ o, o ∉ s.large.treadmill.fresh)
    (space : (s.space id).marking? = some x) : x.Arena (objectsOf pieces id) := by
  cases here : s.space id with
  | copying y =>
    rw [here] at space
    cases space
  | markSweep y =>
    rw [here] at space
    cases space
    obtain ⟨rfl, second⟩ := second_of_markSweep here
    exact held.mature_arena tracked second
  | immortal y =>
    rw [here] at space
    cases space
    obtain rfl := home_of_immortal here
    cases here
    exact held.immortal_arena tracked
  | large y =>
    rw [here] at space
    cases space
    obtain ⟨rfl, rfl⟩ := home_of_large here
    exact held.large_arena tracked fresh

end Spaces

end TracingHeap
