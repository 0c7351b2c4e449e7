import TracingHeap.Proofs.Partitions

/-! How the size of a space is rounded: up to whole pages for its extent, and from there up to whole chunks for the address
space behind it. Only the sum of the bounded spaces is checked to fit in a word; the roundings wrap to zero past their last
multiples. A request is covered just if both of its roundings fit, and each one that does not is granted all the same. -/

namespace TracingHeap

namespace Word

variable {value align : Word} {k : Nat}

/-- Rounding up does not shrink a value just if there is a multiple above it that fits in a word. -/
theorem le_alignUp_iff (power : align.toNat = 2 ^ k) (some : value ≠ 0) :
    value ≤ value.alignUp align ↔ value.toNat ≤ 2 ^ 64 - 2 ^ k := by
  have positive : 0 < 2 ^ k := Nat.two_pow_pos k
  have value_positive : value.toNat ≠ 0 := fun zero => some (UInt64.toNat_inj.mp zero)
  rw [UInt64.le_iff_toNat_le]
  by_cases fits : value.toNat + (2 ^ k - 1) < 2 ^ 64
  · have least := Nat.lt_div_mul_add positive (a := value.toNat + (2 ^ k - 1))
    rw [toNat_alignUp power fits]
    omega
  · rw [toNat_alignUp_wrap power (Nat.not_lt.mp fits)]
    omega

/-- What is rounded up is rounded to less than one unit above. -/
theorem alignUp_lt (power : align.toNat = 2 ^ k) : (value.alignUp align).toNat < value.toNat + 2 ^ k := by
  have positive : 0 < 2 ^ k := Nat.two_pow_pos k
  by_cases fits : value.toNat + (2 ^ k - 1) < 2 ^ 64
  · have most := Nat.div_mul_le_self (value.toNat + (2 ^ k - 1)) (2 ^ k)
    rw [toNat_alignUp power fits]
    omega
  · rw [toNat_alignUp_wrap power (Nat.not_lt.mp fits)]
    omega

end Word

/-- The extent holds as many bytes as were asked for in as few whole pages as do, and none of it lies outside of the bytes
that were reserved. -/
structure Extent.Covers (e : Extent) (asked reserved : Word) : Prop where
  some : e.bytes ≠ 0
  pages : e.bytes.toNat % 4096 = 0
  enough : asked ≤ e.bytes
  tight : e.bytes.toNat < asked.toNat + 4096
  backed : e.bytes ≤ reserved

namespace Layout

variable {system : System} {name : String} {request : Request} {l l' : Layout} {count bytes heap : Word} {e : Extent}

theorem extentIn_eq (asked : request.bytesIn heap = some count) (answer : request.extentIn heap = some bytes) :
    count ≠ 0 ∧ bytes = count.alignUp Word.pageBytes := by
  rw [Request.extentIn, asked, Option.bind_some] at answer
  split at answer
  · cases answer
  · rename_i positive
    cases answer
    exact ⟨positive, rfl⟩

/-- A space that is laid out has its size rounded to pages, and its address space to chunks. -/
theorem granted_rounds (asked : request.bytesIn l.heapBytes = some count)
    (ran : reserveFrom system name request l = .ok (.ok e) l') : count ≠ 0 ∧ e.bytes = count.alignUp Word.pageBytes ∧
      system.reserve (e.bytes.alignUp Word.chunkBytes) Word.chunkBytes = .ok (.ok e.start) := by
  cases reserveFrom_ok ran with
  | granted _ extent _ answer =>
    obtain ⟨some, rounded⟩ := extentIn_eq asked extent
    exact ⟨some, rounded, answer⟩

/-- A space covers what was asked for just if that is no more than the last chunk boundary of all addresses. -/
theorem granted_covers_iff (asked : request.bytesIn l.heapBytes = some count)
    (ran : reserveFrom system name request l = .ok (.ok e) l') :
    e.Covers count (e.bytes.alignUp Word.chunkBytes) ↔ count.toNat ≤ 2 ^ 64 - 2 ^ 22 := by
  obtain ⟨some, rounded, -⟩ := granted_rounds asked ran
  have pages := Word.le_alignUp_iff Word.page_power some
  rw [← rounded] at pages
  constructor
  · intro covers
    have chunks := (Word.le_alignUp_iff Word.chunk_power covers.some).mp covers.backed
    exact Nat.le_trans (UInt64.le_iff_toNat_le.mp covers.enough) chunks
  · intro small
    have fits : count.toNat + (2 ^ 12 - 1) < 2 ^ 64 := by omega
    have value : e.bytes.toNat = (count.toNat + (2 ^ 12 - 1)) / 2 ^ 12 * 2 ^ 12 :=
      rounded ▸ Word.toNat_alignUp Word.page_power fits
    have enough := pages.mpr (by omega)
    have positive : count.toNat ≠ 0 := fun zero => some (UInt64.toNat_inj.mp zero)
    have nonempty : e.bytes ≠ 0 := fun zero => by
      rw [zero, UInt64.le_iff_toNat_le] at enough
      exact positive (Nat.le_zero.mp enough)
    refine ⟨nonempty, by omega, enough, ?_, (Word.le_alignUp_iff Word.chunk_power nonempty).mpr (by omega)⟩
    exact rounded ▸ Word.alignUp_lt Word.page_power

/-- The whole of a space that covers its request lies in address space that the system mapped for it. -/
theorem granted_within (asked : request.bytesIn l.heapBytes = some count)
    (ran : reserveFrom system name request l = .ok (.ok e) l') (small : count.toNat ≤ 2 ^ 64 - 2 ^ 22) :
    ∃ mapped raw, system.map mapped = .ok raw ∧ e.span.Within (.ofBytes raw mapped) := by
  have covers := (granted_covers_iff asked ran).mpr small
  obtain ⟨padded, raw, -, mapped, -, low, high⟩ := System.reserve_within Word.chunk_power (granted_rounds asked ran).2.2
  have backed := UInt64.le_iff_toNat_le.mp covers.backed
  refine ⟨padded, raw, mapped, ?_⟩
  simp only [Span.Within, Extent.span, Span.ofBytes]
  omega

/-- A request past that boundary is granted without any address space; past the last page boundary even its extent is
empty. -/
theorem granted_beyond (asked : request.bytesIn l.heapBytes = some count)
    (ran : reserveFrom system name request l = .ok (.ok e) l') (vast : 2 ^ 64 - 2 ^ 22 < count.toNat) :
    e.bytes.alignUp Word.chunkBytes = 0 ∧ (e.bytes = 0 ↔ 2 ^ 64 - 2 ^ 12 < count.toNat) := by
  obtain ⟨-, rounded, -⟩ := granted_rounds asked ran
  rw [← UInt64.toNat_inj (a := e.bytes.alignUp Word.chunkBytes), ← UInt64.toNat_inj (a := e.bytes)]
  by_cases fits : count.toNat + (2 ^ 12 - 1) < 2 ^ 64
  · have value : e.bytes.toNat = (count.toNat + (2 ^ 12 - 1)) / 2 ^ 12 * 2 ^ 12 :=
      rounded ▸ Word.toNat_alignUp Word.page_power fits
    exact ⟨Word.toNat_alignUp_wrap Word.chunk_power (by omega), by simp only [UInt64.toNat_zero]; omega⟩
  · have value : e.bytes.toNat = 0 := rounded ▸ Word.toNat_alignUp_wrap Word.page_power (Nat.not_lt.mp fits)
    have zero : e.bytes = 0 := UInt64.toNat_inj.mp value
    exact ⟨by rw [zero]; rfl, iff_of_true value (by omega)⟩

/-- In a heap of 64 MiB, a request for all but one of the bytes that a word can count is granted no bytes. -/
example : (reserve "a" (.bytes 18446744073709551615)).answer (.empty 67108864) = some (.ok ⟨⟨1⟩, ⟨139637972533248⟩, 0⟩) := by
  decide

end Layout

end TracingHeap
