import TracingHeap.Layout
import TracingHeap.Proofs.Keeping
import TracingHeap.Proofs.Sources

/-! Calls that lay out spaces, whatever the system answers to them. Each comes to one of five things, and only a success
adds an extent. As the system maps memory that is free, the extents share no address, and the tag of an extent is its
place among them; so an address leads to its extent and a tag leads back to it. -/

namespace TracingHeap

open List Memory

namespace System

variable {s : System} {size alignment : Word} {start : Address} {k : Nat}

/-- A range that was cut out starts where the one around it was aligned. -/
theorem reserve_ok (ok : s.reserve size alignment = .ok (.ok start)) : ∃ padded raw, size.sum alignment = .ok padded ∧
    s.map padded = .ok raw ∧ start = raw.alignUp alignment ∧ raw.toNat ≤ start.toNat := by
  obtain ⟨padded, sum, ok⟩ := except_bind_ok.mp ok
  cases mapped : s.map padded with
  | error cause =>
    rw [mapped] at ok
    cases except_pure_ok.mp ok
  | ok raw =>
    rw [mapped] at ok
    obtain ⟨head, away, ok⟩ := except_bind_ok.mp ok
    cases trimmed : s.trim raw head with
    | error cause =>
      rw [trimmed] at ok
      cases except_pure_ok.mp ok
    | ok =>
      rw [trimmed] at ok
      obtain ⟨_, _, ok⟩ := except_bind_ok.mp ok
      obtain ⟨tail, _, ok⟩ := except_bind_ok.mp ok
      obtain ⟨stop, _, ok⟩ := except_bind_ok.mp ok
      have answer := except_pure_ok.mp ok
      cases last : s.trim stop tail with
      | error cause =>
        rw [last] at answer
        cases answer
      | ok =>
        rw [last] at answer
        cases answer
        exact ⟨padded, raw, sum, mapped, rfl, (Address.distance_ok.mp away).1⟩

/-- It lies wholly in the one around it. -/
theorem reserve_within (power : alignment.toNat = 2 ^ k) (ok : s.reserve size alignment = .ok (.ok start)) :
    ∃ padded raw, size.sum alignment = .ok padded ∧ s.map padded = .ok raw ∧ start.toNat % 2 ^ k = 0 ∧
      raw.toNat ≤ start.toNat ∧ start.toNat + size.toNat < raw.toNat + padded.toNat := by
  obtain ⟨padded, raw, sum, mapped, rfl, low⟩ := reserve_ok ok
  have positive : 0 < 2 ^ k := Nat.two_pow_pos k
  have amount := Word.toNat_sum sum
  have fits : raw.toNat + (2 ^ k - 1) < 2 ^ 64 := by
    by_contra wraps
    have zero : (raw.alignUp alignment).toNat = 0 := Word.toNat_alignUp_wrap power (Nat.not_lt.mp wraps)
    have small := alignment.toNat_lt
    omega
  have here := Address.toNat_alignUp power fits
  have most := Nat.div_mul_le_self (raw.toNat + (2 ^ k - 1)) (2 ^ k)
  exact ⟨padded, raw, sum, mapped, by rw [here, Nat.mul_mod_left], low, by omega⟩

end System

namespace Layout

variable {system : System} {name : String} {request : Request} {l l' : Layout} {bytes total : Word} {r : Except Error Extent}

/-! ### What a call comes to -/

/-- The running total of bounded spaces once a request was counted. -/
def Counts (l : Layout) (request : Request) (bytes total : Word) : Prop :=
  request.isUnbounded = true ∧ total = l.boundedBytes ∨
    request.isUnbounded = false ∧ l.boundedBytes.sum bytes = .ok total ∧ total ≤ l.heapBytes

/-- The extent of one more space. -/
def next (l : Layout) (start : Address) (bytes : Word) : Extent := ⟨⟨UInt8.ofNat (l.spaces.size + 1)⟩, start, bytes⟩

/-- What a call comes to that finds room for one more space. The running total stays as it was counted even if the system
refuses. -/
inductive Reserving (system : System) (name : String) (request : Request) (l : Layout) : Except Error Extent → Layout → Prop
  | tooMany (full : l.spaces.size = maxSpaces) : Reserving system name request l (.error (.tooManySpaces name)) l
  | invalid (room : l.spaces.size ≠ maxSpaces) (empty : request.extentIn l.heapBytes = none) :
    Reserving system name request l (.error (.invalidRequest name request)) l
  | tooSmall {bytes requested : Word} (room : l.spaces.size ≠ maxSpaces) (asked : request.extentIn l.heapBytes = some bytes)
    (bounded : request.isUnbounded = false) (sum : l.boundedBytes.sum bytes = .ok requested) (beyond : l.heapBytes < requested) :
    Reserving system name request l (.error (.heapTooSmall name requested l.heapBytes)) l
  | refused {bytes total : Word} {cause : Refusal} (room : l.spaces.size ≠ maxSpaces)
    (asked : request.extentIn l.heapBytes = some bytes) (counts : l.Counts request bytes total)
    (answer : system.reserve (bytes.alignUp Word.chunkBytes) Word.chunkBytes = .ok (.error cause)) :
    Reserving system name request l (.error (.reservationFailed name cause)) { l with boundedBytes := total }
  | granted {bytes total : Word} {start : Address} (room : l.spaces.size ≠ maxSpaces)
    (asked : request.extentIn l.heapBytes = some bytes) (counts : l.Counts request bytes total)
    (answer : system.reserve (bytes.alignUp Word.chunkBytes) Word.chunkBytes = .ok (.ok start)) :
    Reserving system name request l (.ok (l.next start bytes))
      { l with boundedBytes := total, floor := start, spaces := l.spaces.push (name, l.next start bytes) }

theorem reserveFrom_ok (ok : reserveFrom system name request l = .ok r l') : Reserving system name request l r l' := by
  simp only [reserveFrom, Step.get_bind] at ok
  split at ok
  · rename_i full
    obtain ⟨rfl, rfl⟩ := Step.pure_ok.mp ok
    exact .tooMany full
  · rename_i room
    cases asked : request.extentIn l.heapBytes with
    | none =>
      rw [asked] at ok
      obtain ⟨rfl, rfl⟩ := Step.pure_ok.mp ok
      exact .invalid room asked
    | some bytes =>
      rw [asked] at ok
      -- Once the request is counted, the system has the say.
      have settles : ∀ {total : Word} {told : Except _ Address → Step Layout (Except Error Extent)}, l.Counts request bytes total →
          (∀ cause, told (.error cause) = pure (.error (.reservationFailed name cause))) →
          (∀ start, told (.ok start) = do
            modify fun l₂ => { l₂ with floor := start, spaces := l₂.spaces.push (name, l.next start bytes) }
            return .ok (l.next start bytes)) →
          (liftM (system.reserve (bytes.alignUp Word.chunkBytes) Word.chunkBytes) >>= told) { l with boundedBytes := total } = .ok r l' →
          Reserving system name request l r l' := by
        intro total told counts refuses grants ok
        obtain ⟨placed, _, lifted, ok⟩ := Step.bind_ok.mp ok
        obtain ⟨answer, rfl⟩ := Step.lift_ok.mp lifted
        cases placed with
        | error cause =>
          rw [refuses] at ok
          obtain ⟨rfl, rfl⟩ := Step.pure_ok.mp ok
          exact .refused room asked counts answer
        | ok start =>
          rw [grants, Step.modify_bind] at ok
          obtain ⟨rfl, rfl⟩ := Step.pure_ok.mp ok
          exact .granted room asked counts answer
      by_cases free : request.isUnbounded = true
      · simp only [free, ↓reduceIte] at ok
        exact settles (.inl ⟨free, rfl⟩) (fun _ => rfl) (fun _ => rfl) ok
      · simp only [free, Bool.false_eq_true, ↓reduceIte] at ok
        obtain ⟨requested, _, lifted, ok⟩ := Step.bind_ok.mp ok
        obtain ⟨sum, rfl⟩ := Step.lift_ok.mp lifted
        split at ok
        · rename_i beyond
          obtain ⟨rfl, rfl⟩ := Step.pure_ok.mp ok
          exact .tooSmall room asked (Bool.eq_false_iff.mpr free) sum beyond
        · rename_i within
          rw [Step.modify_bind] at ok
          exact settles (.inr ⟨Bool.eq_false_iff.mpr free, sum, UInt64.not_lt.mp within⟩) (fun _ => rfl) (fun _ => rfl) ok

/-- A call that fails changes nothing, unless the system refused a bounded space: its bytes stay counted. -/
theorem failed_leaves {e : Error} (ran : reserveFrom system name request l = .ok (.error e) l') :
    l' = l ∨ ∃ cause bytes total, e = .reservationFailed name cause ∧ request.isUnbounded = false ∧
      request.extentIn l.heapBytes = some bytes ∧ l.boundedBytes.sum bytes = .ok total ∧ l' = { l with boundedBytes := total } := by
  cases reserveFrom_ok ran with
  | tooMany | invalid | tooSmall => exact .inl rfl
  | @refused bytes total cause _ asked counts =>
    rcases counts with ⟨-, rfl⟩ | ⟨bounded, sum, -⟩
    · exact .inl rfl
    · exact .inr ⟨cause, bytes, total, rfl, bounded, asked, sum, rfl⟩

/-! ### Lookups -/

theorem extentIn_whole {heap : Word} (some : request.extentIn heap = some bytes) :
    bytes.toNat % 4096 = 0 := by
  simp only [Request.extentIn, Option.bind_eq_some_iff] at some
  obtain ⟨count, -, some⟩ := some
  split at some
  · cases some
  · cases some
    by_cases fits : count.toNat + (2 ^ 12 - 1) < 2 ^ 64
    · rw [Word.toNat_alignUp Word.page_power fits]
      exact Nat.mul_mod_left _ _
    · rw [Word.toNat_alignUp_wrap Word.page_power (Nat.not_lt.mp fits)]

end Layout

theorem Extent.Placed.contains {e : Extent} (placed : e.Placed) (a : Address) : e.contains a = .ok (e.holds a) := by
  have fits := placed.fits
  have total : e.stop = .ok (e.start.plus e.bytes) := Address.above_fits (by omega)
  have stop := Extent.stop_ok total
  unfold Extent.contains
  split
  · rename_i above
    rw [total]
    change Except.ok _ = _
    congr 1
    rw [Bool.eq_iff_iff, decide_eq_true_iff, holds_iff, Address.lt_iff, stop]
    exact (and_iff_right (Address.le_iff.mp above)).symm
  · rename_i below
    have outside : e.holds a ≠ true := fun holds => below (Address.le_iff.mpr (holds_iff.mp holds).1)
    rw [Bool.eq_false_iff.mpr outside]

theorem except_findM_ok {α : Type} {f : α → Except Fault Bool} {p : α → Bool} {xs : List α} (total : ∀ x ∈ xs, f x = .ok (p x)) :
    xs.findM? f = .ok (xs.find? p) := by
  induction xs with
  | nil => rfl
  | cons x xs ih =>
    rw [List.findM?, total x mem_cons_self]
    cases here : p x with
    | true =>
      rw [find?_cons_of_pos here]
      rfl
    | false =>
      rw [find?_cons_of_neg (by rw [here]; exact Bool.false_ne_true)]
      exact ih fun y member => total y (mem_cons_of_mem _ member)

/-- The tag of an address is that of the first extent that holds it. -/
theorem Layout.tagOf_eq {l : Layout} {a : Address} (placed : ∀ x ∈ l.spaces.toList, x.2.Placed) :
    l.tagOf a = .ok ((l.spaces.toList.find? fun x => x.2.holds a).map fun x => x.2.tag) := by
  rw [tagOf, except_findM_ok fun x member => (placed x member).contains a]
  rfl

namespace Layout

/-! ### Sequences of calls -/

/-- A call that succeeded. -/
structure Grant where
  name : String
  request : Request
  extent : Extent

/-- The bytes of the spaces with a bound of their own. -/
def boundedIn (grants : List Grant) : Nat :=
  ((grants.filter fun g => !g.request.isUnbounded).map fun g => g.extent.bytes.toNat).sum

/-- The system maps nothing in the upper half of all addresses, and nothing that a space has. -/
def Honours (system : System) (l : Layout) : Prop :=
  ∀ bytes raw, system.map bytes = .ok raw → raw.toNat + bytes.toNat ≤ 2 ^ 63 ∧
    ∀ x ∈ l.spaces.toList, (Span.ofBytes raw bytes).Apart x.2.span

/-- The layouts that calls lead to, with the calls that succeeded. Each call is answered by a system of its own, as others
may reserve address space in between; no size leaves the word when it is rounded up. -/
inductive Follows (heapBytes : Word) : List Grant → Layout → Prop
  | empty : Follows heapBytes [] (.empty heapBytes)
  | failed {grants : List Grant} {l l' : Layout} {system : System} {name : String} {request : Request} {e : Error}
    (before : Follows heapBytes grants l) (ran : reserveFrom system name request l = .ok (.error e) l') :
    Follows heapBytes grants l'
  | granted {grants : List Grant} {l l' : Layout} {system : System} {name : String} {request : Request} {extent : Extent}
    (before : Follows heapBytes grants l) (honours : Honours system l)
    (fits : ∀ bytes, request.extentIn l.heapBytes = some bytes → bytes ≤ bytes.alignUp Word.chunkBytes)
    (ran : reserveFrom system name request l = .ok (.ok extent) l') :
    Follows heapBytes (grants ++ [⟨name, request, extent⟩]) l'

/-- What holds of a layout and the calls that succeeded. -/
structure Partitioned (heapBytes : Word) (grants : List Grant) (l : Layout) : Prop where
  heap : l.heapBytes = heapBytes
  listed : l.spaces.toList = grants.map fun g => (g.name, g.extent)
  few : grants.length ≤ maxSpaces
  tags : (grants.map fun g => g.extent.tag.number.toNat) = range' 1 grants.length
  placed : ∀ g ∈ grants, g.extent.Placed ∧ g.extent.start.toNat % 2 ^ 22 = 0
  apart : grants.Pairwise fun g g' => g.extent.span.Apart g'.extent.span
  counted : boundedIn grants ≤ l.boundedBytes.toNat
  within : l.boundedBytes ≤ heapBytes

section

variable {heapBytes : Word} {grants : List Grant} {system : System} {name : String} {request : Request} {l l' : Layout}
  {bytes total : Word} {e : Error} {extent : Extent}

theorem Counts.bounds (counts : l.Counts request bytes total) (within : l.boundedBytes ≤ l.heapBytes) :
    total ≤ l.heapBytes ∧ l.boundedBytes.toNat + (if request.isUnbounded then 0 else bytes.toNat) ≤ total.toNat := by
  rcases counts with ⟨free, rfl⟩ | ⟨bounded, sum, most⟩
  · exact ⟨within, by simp [free]⟩
  · exact ⟨most, by simp [bounded, Word.toNat_sum sum]⟩

theorem Partitioned.size (partitioned : Partitioned heapBytes grants l) : l.spaces.size = grants.length := by
  have same := congrArg length partitioned.listed
  simpa using same

/-- A failed call does not touch the spaces. -/
theorem Partitioned.failed (partitioned : Partitioned heapBytes grants l)
    (ran : reserveFrom system name request l = .ok (.error e) l') : Partitioned heapBytes grants l' := by
  cases reserveFrom_ok ran with
  | tooMany | invalid | tooSmall => exact partitioned
  | refused _ _ counts =>
    obtain ⟨most, least⟩ := counts.bounds (partitioned.heap ▸ partitioned.within)
    exact { partitioned with
      counted := Nat.le_trans partitioned.counted (Nat.le_of_add_right_le least)
      within := partitioned.heap ▸ most }

/-- A call that succeeds adds one extent, apart from the others. -/
theorem Partitioned.enlarged (partitioned : Partitioned heapBytes grants l) (honours : Honours system l)
    (fits : ∀ bytes, request.extentIn l.heapBytes = some bytes → bytes ≤ bytes.alignUp Word.chunkBytes)
    (ran : reserveFrom system name request l = .ok (.ok extent) l') :
    Partitioned heapBytes (grants ++ [⟨name, request, extent⟩]) l' := by
  cases reserveFrom_ok ran with
  | @granted bytes total start room asked counts answer =>
    obtain ⟨padded, raw, sum, mapped, aligned, low, high⟩ := System.reserve_within Word.chunk_power answer
    obtain ⟨half, free⟩ := honours padded raw mapped
    have size := UInt64.le_iff_toNat_le.mp (fits bytes asked)
    obtain ⟨most, least⟩ := counts.bounds (partitioned.heap ▸ partitioned.within)
    have few : grants.length < maxSpaces := Nat.lt_of_le_of_ne partitioned.few (partitioned.size ▸ room)
    have number : (UInt8.ofNat (l.spaces.size + 1)).toNat = grants.length + 1 := by
      rw [partitioned.size, UInt8.toNat_ofNat']
      exact Nat.mod_eq_of_lt (Nat.lt_of_le_of_lt few (by decide))
    have chunks : padded.toNat = (bytes.alignUp Word.chunkBytes).toNat + 2 ^ 22 := by rw [Word.toNat_sum sum, Word.chunk_power]
    have inside : (l.next start bytes).span.Within (.ofBytes raw padded) := by
      simp only [Span.Within, Extent.span, Span.ofBytes, next]
      omega
    have pages := extentIn_whole asked
    refine ⟨partitioned.heap, by simp [partitioned.listed],
      by rw [length_append]; exact few, ?_, fun g member => ?_, ?_, ?_, partitioned.heap ▸ most⟩
    · rw [map_append, partitioned.tags, length_append, length_singleton, range'_1_concat, map_singleton, Nat.add_comm 1, ← number]
      rfl
    · rcases mem_append.mp member with old | new
      · exact partitioned.placed g old
      · obtain rfl := mem_singleton.mp new
        simp only [next]
        exact ⟨⟨by simp only; omega, pages, by simp only; omega⟩, aligned⟩
    · refine pairwise_append.mpr ⟨partitioned.apart, pairwise_singleton .., fun g old g' new => ?_⟩
      obtain rfl := mem_singleton.mp new
      have listed : (g.name, g.extent) ∈ l.spaces.toList := partitioned.listed ▸ mem_map_of_mem old
      exact (free _ listed).symm.mono ⟨Nat.le_refl _, Nat.le_refl _⟩ inside
    · have counted := partitioned.counted
      have whole : boundedIn (grants ++ [⟨name, request, l.next start bytes⟩]) =
          boundedIn grants + if request.isUnbounded then 0 else bytes.toNat := by
        cases unbounded : request.isUnbounded <;> simp [boundedIn, unbounded, next]
      rw [whole]
      exact Nat.le_trans (Nat.add_le_add_right counted _) least

/-- Calls may fail or succeed in any order. -/
theorem Follows.partitioned (follows : Follows heapBytes grants l) : Partitioned heapBytes grants l := by
  induction follows with
  | empty => exact ⟨rfl, rfl, Nat.zero_le _, rfl, nofun, .nil, Nat.le_refl _, UInt64.le_iff_toNat_le.mpr (Nat.zero_le _)⟩
  | failed _ ran ih => exact ih.failed ran
  | granted _ honours fits ran ih => exact ih.enlarged honours fits ran

/-- The tags count the extents. -/
theorem Partitioned.number (partitioned : Partitioned heapBytes grants l) {i : Nat} (inside : i < grants.length) :
    grants[i].extent.tag.number.toNat = i + 1 := by
  have here : (grants.map fun g => g.extent.tag.number.toNat)[i]? = (range' 1 grants.length)[i]? := by rw [partitioned.tags]
  rw [getElem?_map, getElem?_eq_getElem inside, getElem?_range' inside, Option.map_some, Option.some.injEq] at here
  omega

/-- At most one extent holds an address. -/
theorem Partitioned.unique (partitioned : Partitioned heapBytes grants l) {g g' : Grant} {a : Address} (member : g ∈ grants)
    (member' : g' ∈ grants) (holds : g.extent.holds a = true) (holds' : g'.extent.holds a = true) : g = g' := by
  have off : ∀ {e f : Extent}, e.span.Apart f.span → e.holds a = true → f.holds a = true → False := by
    intro e f apart holds holds'
    obtain ⟨low, high⟩ := Extent.holds_iff.mp holds
    obtain ⟨low', high'⟩ := Extent.holds_iff.mp holds'
    unfold Span.Apart at apart
    omega
  obtain ⟨i, inside, rfl⟩ := getElem_of_mem member
  obtain ⟨j, inside', rfl⟩ := getElem_of_mem member'
  have apart := pairwise_iff_getElem.mp partitioned.apart
  rcases Nat.lt_trichotomy i j with less | rfl | more
  · exact (off (apart i j inside inside' less) holds holds').elim
  · rfl
  · exact (off (apart j i inside' inside more) holds' holds).elim

/-- An address leads to the extent that holds it. -/
theorem Partitioned.tagOf (partitioned : Partitioned heapBytes grants l) (a : Address) :
    (∃ g ∈ grants, l.tagOf a = .ok (some g.extent.tag) ∧ g.extent.holds a = true ∧
        ∀ g' ∈ grants, g'.extent.holds a = true → g' = g) ∨
      l.tagOf a = .ok none ∧ ∀ g ∈ grants, g.extent.holds a = false := by
  have placed : ∀ x ∈ l.spaces.toList, x.2.Placed := fun x member => by
    rw [partitioned.listed] at member
    obtain ⟨g, inside, rfl⟩ := mem_map.mp member
    exact (partitioned.placed g inside).1
  rw [tagOf_eq placed, partitioned.listed, find?_map]
  cases found : grants.find? ((fun x : String × Extent => x.2.holds a) ∘ fun g => (g.name, g.extent)) with
  | none => exact .inr ⟨rfl, fun g member => Bool.eq_false_iff.mpr (find?_eq_none.mp found g member)⟩
  | some g =>
    have member := mem_of_find?_eq_some found
    have holds : g.extent.holds a = true := by simpa using find?_some found
    exact .inl ⟨g, member, rfl, holds, fun g' member' holds' => partitioned.unique member' member holds' holds⟩

/-- A tag leads back to its extent. -/
theorem Partitioned.entry (partitioned : Partitioned heapBytes grants l) (tag : SpaceTag) :
    (∃ g ∈ grants, g.extent.tag = tag ∧ l.extentOf? tag = some g.extent ∧ l.nameOf? tag = some g.name) ∨
      (∀ g ∈ grants, g.extent.tag ≠ tag) ∧ l.extentOf? tag = none ∧ l.nameOf? tag = none := by
  have listed : ∀ i, l.spaces[i]? = (grants[i]?).map fun g : Grant => (g.name, g.extent) := fun i => by
    rw [← Array.getElem?_toList, partitioned.listed, getElem?_map]
  unfold extentOf? nameOf? entry?
  by_cases known : ∃ g ∈ grants, g.extent.tag = tag
  · obtain ⟨g, member, rfl⟩ := known
    refine .inl ⟨g, member, rfl, ?_⟩
    obtain ⟨i, inside, rfl⟩ := getElem_of_mem member
    have number := partitioned.number inside
    have some : grants[i].extent.tag.isNone = false := by
      rw [SpaceTag.isNone, beq_eq_false_iff_ne, Ne, ← UInt8.toNat_inj, number]
      exact Nat.succ_ne_zero i
    simp [some, number, listed, inside]
  · refine .inr ⟨fun g member same => known ⟨g, member, same⟩, ?_⟩
    cases absent : tag.isNone with
    | true => exact ⟨rfl, rfl⟩
    | false =>
      have positive : tag.number.toNat ≠ 0 := by
        rw [SpaceTag.isNone, beq_eq_false_iff_ne] at absent
        exact fun zero => absent (UInt8.toNat_inj.mp zero)
      have past : grants.length ≤ tag.number.toNat - 1 := by
        by_contra inside
        have number := partitioned.number (Nat.not_le.mp inside)
        rw [Nat.sub_add_cancel (Nat.pos_of_ne_zero positive)] at number
        exact known ⟨_, getElem_mem (Nat.not_le.mp inside), congrArg SpaceTag.mk (UInt8.toNat_inj.mp number)⟩
      simp [listed, past]

/-- A call is told that there are too many spaces only when there are fifteen. -/
theorem Partitioned.full (partitioned : Partitioned heapBytes grants l) :
    (∃ name' l', reserveFrom system name request l = .ok (.error (.tooManySpaces name')) l') ↔ grants.length = maxSpaces := by
  rw [← partitioned.size]
  constructor
  · rintro ⟨_, _, ran⟩
    cases reserveFrom_ok ran with
    | tooMany full => exact full
  · intro full
    refine ⟨name, l, ?_⟩
    rw [reserveFrom, Step.get_bind]
    exact if_pos full ▸ rfl

end

/-! ### Reservations one below the other -/

/-- No space lies below the last reservation. -/
structure Descending (l : Layout) : Prop where
  low : l.floor.toNat ≤ 2 ^ 63
  above : ∀ x ∈ l.spaces.toList, l.floor.toNat ≤ x.2.start.toNat

theorem empty_descending (heapBytes : Word) : (empty heapBytes).Descending :=
  ⟨show ceiling.toNat ≤ 2 ^ 63 by decide, nofun⟩

theorem reserve_eq {l : Layout} {name : String} {request : Request} :
    reserve name request l = reserveFrom l.system name request l := rfl

theorem system_map {l : Layout} {bytes : Word} {raw : Address} (mapped : l.system.map bytes = .ok raw) :
    raw.toNat + bytes.toNat = l.floor.toNat := by
  simp only [system] at mapped
  split at mapped
  · cases mapped
  · rename_i room
    cases mapped
    have small := UInt64.le_iff_toNat_le.mp (UInt64.not_lt.mp fun less => room (.inr less))
    have raw : (l.floor.word - bytes).toNat = l.floor.toNat - bytes.toNat := UInt64.toNat_sub_of_le _ _ (UInt64.le_iff_toNat_le.mpr small)
    simp only [Address.toNat] at small raw ⊢
    omega

/-- So the system of the layout maps nothing that a space has. -/
theorem Descending.honours {l : Layout} (descending : l.Descending) : Honours l.system l := by
  intro bytes raw mapped
  have low := descending.low
  have below := system_map mapped
  refine ⟨by omega, fun x listed => .inl ?_⟩
  have above := descending.above x listed
  simp only [Span.ofBytes, Extent.span]
  omega

theorem Descending.reserve {l l' : Layout} {name : String} {request : Request} {r : Except Error Extent}
    (descending : l.Descending) (ran : reserve name request l = .ok r l') : l'.Descending := by
  cases reserveFrom_ok (reserve_eq ▸ ran) with
  | tooMany | invalid | tooSmall => exact descending
  | refused => exact ⟨descending.low, descending.above⟩
  | @granted bytes total start _ _ _ answer =>
    obtain ⟨padded, raw, -, mapped, -, -, high⟩ := System.reserve_within Word.chunk_power answer
    have below := system_map mapped
    have low := descending.low
    refine ⟨by simp only; omega, fun x listed => ?_⟩
    rw [Array.toList_push] at listed
    rcases mem_append.mp listed with old | new
    · have above := descending.above x old
      simp only
      omega
    · obtain rfl := mem_singleton.mp new
      exact Nat.le_refl _

/-- A call that reserves below the others. -/
theorem Follows.reserve {heapBytes : Word} {grants : List Grant} {l l' : Layout} {name : String} {request : Request}
    {extent : Extent} (follows : Follows heapBytes grants l) (descending : l.Descending)
    (fits : ∀ bytes, request.extentIn l.heapBytes = some bytes → bytes ≤ bytes.alignUp Word.chunkBytes)
    (ran : reserve name request l = .ok (.ok extent) l') :
    Follows heapBytes (grants ++ [⟨name, request, extent⟩]) l' :=
  .granted follows descending.honours fits (reserve_eq ▸ ran)

/-! ### The whole layout -/

/-- The spaces of a layout, whatever calls succeed or fail and wherever the system places their reservations: they are
numbered in order, and each has whole pages of its own from a chunk boundary on. The bounded ones fit in the heap. -/
theorem Follows.partitions {heapBytes : Word} {grants : List Grant} {l : Layout} (follows : Follows heapBytes grants l) :
    (grants.map fun g => g.extent.tag.number.toNat) = range' 1 grants.length ∧
      (∀ g ∈ grants, g.extent.start.toNat % 2 ^ 22 = 0 ∧ g.extent.bytes.toNat % 4096 = 0) ∧
      (grants.Pairwise fun g g' => g.extent.span.Apart g'.extent.span) ∧
      (∀ a, (∃ g ∈ grants, l.tagOf a = .ok (some g.extent.tag) ∧ g.extent.holds a = true ∧
          ∀ g' ∈ grants, g'.extent.holds a = true → g' = g) ∨
        l.tagOf a = .ok none ∧ ∀ g ∈ grants, g.extent.holds a = false) ∧
      (∀ tag, (∃ g ∈ grants, g.extent.tag = tag ∧ l.extentOf? tag = some g.extent ∧ l.nameOf? tag = some g.name) ∨
        (∀ g ∈ grants, g.extent.tag ≠ tag) ∧ l.extentOf? tag = none ∧ l.nameOf? tag = none) ∧
      boundedIn grants ≤ heapBytes.toNat ∧
      ∀ (system : System) (name : String) (request : Request),
        (∃ name' l', reserveFrom system name request l = .ok (.error (.tooManySpaces name')) l') ↔ grants.length = 15 := by
  have all := follows.partitioned
  exact ⟨all.tags, fun g member => ⟨(all.placed g member).2, (all.placed g member).1.bytes⟩, all.apart, all.tagOf, all.entry,
    Nat.le_trans all.counted (UInt64.le_iff_toNat_le.mp all.within), fun _ _ _ => all.full⟩

/-! A heap of 16 MiB with a space of one, one as large as the heap, and one of a quarter. Before the last one, a call asks
for too much. -/

/-- The layout with the first space. -/
def oneSpace : Layout := (Layout.reserve "a" (.bytes 1048576)).left (.empty 16777216)

/-- The layout with two spaces. -/
def twoSpaces : Layout := (Layout.reserve "b" .unbounded).left oneSpace

/-- The layout with two spaces after the call that fails. -/
def stillTwo : Layout := (Layout.reserve "d" (.bytes 16777216)).left twoSpaces

/-- The layout with all of its spaces. -/
def threeSpaces : Layout := (Layout.reserve "c" (.share (.finite false 8388608 (-25)))).left stillTwo

theorem threeSpaces_partitions : ∃ grants, Follows 16777216 grants threeSpaces ∧ grants.map (·.name) = ["a", "b", "c"] ∧
    (grants.map fun g => g.extent.tag.number.toNat) = [1, 2, 3] ∧ boundedIn grants ≤ 16777216 ∧
    threeSpaces.tagOf ⟨139637947367424⟩ = .ok (some ⟨2⟩) ∧ threeSpaces.nameOf? ⟨2⟩ = some "b" := by
  have ran₁ : Layout.reserve "a" (.bytes 1048576) (.empty 16777216) = .ok (.ok ⟨⟨1⟩, ⟨139637968338944⟩, 1048576⟩) oneSpace :=
    Step.answer_ok (by decide)
  have ran₂ : Layout.reserve "b" .unbounded oneSpace = .ok (.ok ⟨⟨2⟩, ⟨139637947367424⟩, 16777216⟩) twoSpaces :=
    Step.answer_ok (by decide)
  have failed : Layout.reserve "d" (.bytes 16777216) twoSpaces = .ok (.error (.heapTooSmall "d" 17825792 16777216)) stillTwo :=
    Step.answer_ok (by decide)
  have ran₃ : Layout.reserve "c" (.share (.finite false 8388608 (-25))) stillTwo =
      .ok (.ok ⟨⟨3⟩, ⟨139637938978816⟩, 4194304⟩) threeSpaces := Step.answer_ok (by decide)
  have down₁ := (empty_descending 16777216).reserve ran₁
  have down₂ := (down₁.reserve ran₂).reserve failed
  have fits : ∀ {request : Request} {heap asked : Word}, request.extentIn heap = some asked →
      asked ≤ asked.alignUp Word.chunkBytes → ∀ bytes, request.extentIn heap = some bytes → bytes ≤ bytes.alignUp Word.chunkBytes :=
    fun found small bytes asked => Option.some.inj (found.symm.trans asked) ▸ small
  have first := Follows.empty.reserve (empty_descending _) (fits rfl (by decide)) ran₁
  have second := first.reserve down₁ (fits rfl (by decide)) ran₂
  have third := (Follows.failed second (reserve_eq ▸ failed)).reserve down₂ (fits rfl (by decide)) ran₃
  obtain ⟨tags, -, -, -, -, most, -⟩ := third.partitions
  exact ⟨_, third, rfl, tags, most, by decide, by decide⟩

end Layout

end TracingHeap
