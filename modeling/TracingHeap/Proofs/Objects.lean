import TracingHeap.Heap.References
import TracingHeap.Proofs.Headers

/-! Objects as the program sees them: a shape, reference fields and payload bytes. Fields are whole words,
one after the header; the payload is what follows them. -/

namespace TracingHeap

namespace Memory

/-- The number of reference fields of an object. -/
def fields (m : Memory) (o : Address) : Nat := (m.shape o).2.toNat

/-- A reference field of an object. -/
def field (m : Memory) (o : Address) (i : Nat) : Address := ⟨m.word (o.toNat / 8 + 1 + i)⟩

variable {m m' m'' : Memory} {o o' : Address} {bytes : Nat} {r : Span}

theorem fields_lt (m : Memory) (o : Address) : m.fields o < 65536 := (m.shape o).2.toNat_lt

/-- Where a slot is. -/
theorem toNat_slotAt_of_fits {i : Nat} (fits : o.toNat + 8 + 8 * i < 2 ^ 64) :
    (Object.slotAt o (UInt64.ofNat i)).toNat = o.toNat + 8 + 8 * i := by
  have index : (UInt64.ofNat i).toNat = i := by
    rw [UInt64.toNat_ofNat']
    omega
  have offset : (Object.headerBytes + UInt64.ofNat i * Word.wordBytes).toNat = 8 + 8 * i := by
    rw [UInt64.toNat_add, UInt64.toNat_mul, index, show Object.headerBytes.toNat = 8 from rfl,
      show Word.wordBytes.toNat = 8 from rfl]
    omega
  rw [Object.slotAt, Address.toNat_plus (by rw [offset]; omega), offset]
  omega

/-- Where a field is. -/
theorem toNat_slotAt {i : Nat} (small : i < 65536) (fits : o.toNat < 2 ^ 63) :
    (Object.slotAt o (UInt64.ofNat i)).toNat = o.toNat + 8 + 8 * i := toNat_slotAt_of_fits (by omega)

theorem loadAny_slotAt {i : Nat} (aligned : o.toNat % 8 = 0) (small : i < 65536) (fits : o.toNat < 2 ^ 63) :
    m.loadAny (Object.slotAt o (UInt64.ofNat i)) = (m.field o i).word := by
  have place := toNat_slotAt (o := o) small fits
  rw [loadAny_eq _ _ (by rw [place]; omega), field]
  have same : (Object.slotAt o (UInt64.ofNat i)).toNat / 8 = o.toNat / 8 + 1 + i := by omega
  rw [same]

theorem mem_slotsOf {s : Slot} :
    s ∈ m.slotsOf o ↔ ∃ i < m.fields o, s = .field (Object.slotAt o (UInt64.ofNat i)) := by
  unfold slotsOf fields shape
  rw [List.mem_map]
  constructor
  · rintro ⟨i, member, rfl⟩
    exact ⟨i, List.mem_range.mp member, rfl⟩
  · rintro ⟨i, small, rfl⟩
    exact ⟨i, List.mem_range.mpr small, rfl⟩

/-- The two objects have the same shape and the same payload. -/
structure Alike (m m' : Memory) (o o' : Address) (bytes : Nat) : Prop where
  shape : m'.shape o' = m.shape o
  payload : ∀ k, 8 + 8 * m.fields o ≤ k → k < bytes → m'.byte (o'.toNat + k) = m.byte (o.toNat + k)

theorem Alike.refl (m : Memory) (o : Address) (bytes : Nat) : Alike m m o o bytes := ⟨rfl, fun _ _ _ => rfl⟩

theorem Alike.fields (alike : Alike m m' o o' bytes) : m'.fields o' = m.fields o := by
  rw [Memory.fields, Memory.fields, alike.shape]

theorem Alike.trans {o'' : Address} (one : Alike m m' o o' bytes) (two : Alike m' m'' o' o'' bytes) :
    Alike m m'' o o'' bytes where
  shape := two.shape.trans one.shape
  payload k low high := (two.payload k (by rw [one.fields]; exact low) high).trans (one.payload k low high)

/-- An object whose memory was left alone. -/
theorem alike_of_agree (agree : AgreeOn m m' r) (aligned : o.toNat % 8 = 0) (low : r.lo ≤ o.toNat) (whole : r.lo % 8 = 0)
    (high : o.toNat + bytes ≤ r.hi) (room : o.toNat + 16 ≤ r.hi) :
    Alike m m' o o bytes ∧ ∀ i, 16 + 8 * i ≤ bytes → m'.field o i = m.field o i := by
  refine ⟨⟨?_, fun k _ small => ?_⟩, fun i small => ?_⟩
  · rw [shape_eq _ _ aligned, shape_eq _ _ aligned, agree (o.toNat / 8) (by omega) (by omega)]
  · exact byte_of_word (agree ((o.toNat + k) / 8) (by omega) (by omega)) rfl
  · rw [field, field, agree (o.toNat / 8 + 1 + i) (by omega) (by omega)]

/-- A write to a field leaves the shape and the payload alone, and all other fields. -/
theorem alike_store {i : Nat} (value : Word) (aligned : o.toNat % 8 = 0) (small : i < m.fields o) (fits : o.toNat < 2 ^ 63) :
    Alike m (m.store (Object.slotAt o (UInt64.ofNat i)) value) o o bytes ∧
      (m.store (Object.slotAt o (UInt64.ofNat i)) value).field o i = ⟨value⟩ ∧
      ∀ j, j ≠ i → (m.store (Object.slotAt o (UInt64.ofNat i)) value).field o j = m.field o j := by
  have narrow := m.fields_lt o
  have place := toNat_slotAt (o := o) (i := i) (by omega) fits
  have index : (Object.slotAt o (UInt64.ofNat i)).toNat / 8 = o.toNat / 8 + 1 + i := by omega
  refine ⟨⟨?_, fun k low _ => ?_⟩, ?_, fun j other => ?_⟩
  · rw [shape_eq _ _ aligned, shape_eq _ _ aligned, word_store, if_neg (by omega)]
  · exact byte_store _ _ _ _ (by omega)
  · rw [field, word_store, if_pos index]
  · rw [field, word_store, if_neg (by omega), field]

/-- The collector's byte is no part of what the program sees. -/
theorem alike_setMark (mark : Object.Mark) (aligned : o.toNat % 8 = 0) (fits : o.toNat < 2 ^ 63) :
    Alike m (m.setMark o mark) o o bytes ∧ ∀ i, (m.setMark o mark).field o i = m.field o i := by
  refine ⟨⟨shape_setMark m mark (by omega) aligned, fun k low _ => ?_⟩, fun i => ?_⟩
  · rw [byte_setMark _ _ (by omega), if_neg (by omega)]
  · rw [field, word_setMark _ _ (by omega) aligned _ (by omega), field]

/-- The bytes of an object are those of another one, the collector's byte apart. -/
def Copied (m m' : Memory) (object copy : Address) (bytes : Nat) : Prop :=
  ∀ k < bytes, k ≠ 6 → m'.byte (copy.toNat + k) = m.byte (object.toNat + k)

theorem Copied.alike (copied : Copied m m' o o' bytes) (aligned : o.toNat % 8 = 0) (aligned' : o'.toNat % 8 = 0)
    (least : 8 ≤ bytes) :
    Alike m m' o o' bytes ∧ ∀ i, 16 + 8 * i ≤ bytes → m'.field o' i = m.field o i := by
  refine ⟨⟨shape_of_bytes aligned aligned' fun k small => copied k (by omega) (by omega), fun k low high =>
    copied k high (by omega)⟩, fun i small => ?_⟩
  rw [field, field]
  congr 1
  refine word_of_bytes fun k narrow => ?_
  have same := copied (8 + 8 * i + k) (by omega) (by omega)
  rw [show 8 * (o'.toNat / 8 + 1 + i) + k = o'.toNat + (8 + 8 * i + k) by omega,
    show 8 * (o.toNat / 8 + 1 + i) + k = o.toNat + (8 + 8 * i + k) by omega]
  exact same

end Memory

end TracingHeap
