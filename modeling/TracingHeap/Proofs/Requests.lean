import TracingHeap.Allocator.Alloc
import TracingHeap.Proofs.Alignments

/-! Requests and their padding. A place that serves a request is aligned as it asks, and lies close enough
to the start of the memory at hand that the padded size of the request still fits. -/

namespace TracingHeap

namespace Padding

/-- The bytes that a request takes are whole words. -/
theorem allocationSize_whole (bytes : Word) : (allocationSize bytes).toNat % 8 = 0 := by
  have power : minAlignment.toNat = 2 ^ 3 := rfl
  by_cases fits : (max bytes minObjectBytes).toNat + (2 ^ 3 - 1) < 2 ^ 64
  · rw [allocationSize, Word.toNat_alignUp power fits]
    exact Nat.mul_mod_left ..
  · rw [allocationSize, Word.toNat_alignUp_wrap power (by omega)]

private theorem toNat_max (bytes : Word) : (max bytes minObjectBytes).toNat = max bytes.toNat 16 := by
  have least : minObjectBytes.toNat = 16 := rfl
  change (if bytes ≤ minObjectBytes then minObjectBytes else bytes).toNat = _
  split
  · rename_i small
    have := UInt64.le_iff_toNat_le.mp small
    omega
  · rename_i big
    have := mt UInt64.le_iff_toNat_le.mpr big
    omega

/-- Unless the rounding wraps, a request takes at least what it asks for. -/
theorem allocationSize_fits {bytes : Word} (small : bytes.toNat + 7 < 2 ^ 64) :
    bytes.toNat ≤ (allocationSize bytes).toNat ∧ 16 ≤ (allocationSize bytes).toNat ∧
      (allocationSize bytes).toNat ≤ max bytes.toNat 16 + 7 := by
  have power : minAlignment.toNat = 2 ^ 3 := rfl
  have size := toNat_max bytes
  rw [allocationSize, Word.toNat_alignUp power (by omega), size]
  omega

/-- If the rounding wraps, the request takes nothing. -/
theorem allocationSize_wrap {bytes : Word} (large : 2 ^ 64 ≤ bytes.toNat + 7) : allocationSize bytes = 0 := by
  have power : minAlignment.toNat = 2 ^ 3 := rfl
  have size := toNat_max bytes
  apply UInt64.toNat_inj.mp
  rw [allocationSize, Word.toNat_alignUp_wrap power (by omega)]
  rfl

/-- How far an aligned start can be from the start of the memory at hand. -/
def slack (alignment : Word) : Nat := if alignment ≤ minAlignment then 0 else 8

theorem slack_cases (alignment : Word) : slack alignment = 0 ∨ slack alignment = 8 := ite_eq_or_eq _ _ _

theorem slack_le (alignment : Word) : slack alignment ≤ 8 := by
  have slack := slack_cases alignment
  omega

/-- The aligned start is close to the start of the memory at hand, and a multiple of the alignment once the
offset is added. -/
theorem alignedStart_ok {region start : Address} {alignment offset : Word} (aligned : region.toNat % 8 = 0)
    (ok : alignedStart region alignment offset = .ok start) :
    start.toNat % 8 = 0 ∧ region.toNat ≤ start.toNat ∧ start.toNat ≤ region.toNat + slack alignment ∧
      (start.toNat + offset.toNat) % alignment.toNat = 0 ∧
      (alignment = 1 ∨ alignment = 2 ∨ alignment = 4 ∨ alignment = 8 ∨ alignment = 16) := by
  obtain ⟨small, checked, steps⟩ := Scheme.alignedStart_keeps (v := standard) ok
  have cases := Word.isPowerOfTwo_cases checked small
  obtain ⟨k, power⟩ := Word.isPowerOfTwo_iff.mp checked
  have whole : standard.least.toNat ∣ region.toNat := Nat.dvd_of_mod_eq_zero aligned
  have steady : standard.least.toNat ∣ offset.toNat :=
    Nat.dvd_of_mod_eq_zero ((UInt64.toNat_mod ..).symm.trans (congrArg UInt64.toNat steps))
  rw [alignedStart, Scheme.alignedStart_eq small checked steps] at ok
  obtain ⟨-, -, place⟩ := Address.above_ok ok
  obtain ⟨units, room⟩ := Scheme.gap_whole power whole steady
  have words := Nat.mod_eq_zero_of_dvd units
  have unit : standard.least.toNat = 8 := rfl
  have most : alignment.toNat ≤ 16 := UInt64.le_iff_toNat_le.mp small
  rw [unit] at words room
  refine ⟨by omega, by omega, ?_, ?_, cases⟩
  · rw [slack, place]
    rcases room with ⟨within, empty⟩ | ⟨beyond, room⟩
    · have within : alignment ≤ minAlignment := within
      rw [if_pos within, empty]
      exact Nat.le_refl _
    · have beyond : ¬ alignment ≤ minAlignment := beyond
      rw [if_neg beyond]
      omega
  · rw [place, Nat.add_right_comm]
    exact Nat.mod_eq_zero_of_dvd (Scheme.dvd_gap power whole steady)

/-- The most that an aligned request takes is what it asks for and the slack. -/
theorem maxAlignedSize_ok {bytes alignment size : Word} (ok : maxAlignedSize bytes alignment = .ok size)
    (cases : alignment = 1 ∨ alignment = 2 ∨ alignment = 4 ∨ alignment = 8 ∨ alignment = 16) :
    size.toNat = bytes.toNat + slack alignment := by
  rcases Scheme.maxAlignedSize_cases standard bytes alignment with ⟨total, found, sum⟩ | ⟨-, broke⟩
  · cases found.symm.trans ok
    rw [sum]
    rcases cases with rfl | rfl | rfl | rfl | rfl <;> rfl
  · cases broke.symm.trans ok

theorem maxAlignedSize_le {bytes alignment size : Word} (ok : maxAlignedSize bytes alignment = .ok size) :
    bytes.toNat ≤ size.toNat := by
  rcases Scheme.maxAlignedSize_cases standard bytes alignment with ⟨total, found, sum⟩ | ⟨-, broke⟩
  · cases found.symm.trans ok
    omega
  · cases broke.symm.trans ok

/-- A start is found in memory that reaches a little further. -/
theorem alignedStart_total {region : Address} {alignment offset : Word} (power : alignment.isPowerOfTwo = true)
    (small : alignment ≤ maxAlignment) (whole : offset % minAlignment = 0) (fits : region.toNat + 16 ≤ 2 ^ 64) :
    ∃ start, alignedStart region alignment offset = .ok start := by
  obtain ⟨k, exact_power⟩ := Word.isPowerOfTwo_iff.mp power
  have short : (standard.gap region alignment offset).toNat < alignment.toNat := Scheme.gap_lt exact_power
  have most : alignment.toNat ≤ 16 := UInt64.le_iff_toNat_le.mp small
  rw [alignedStart, Scheme.alignedStart_eq small power whole]
  exact ⟨_, Address.above_fits (by omega)⟩

/-- Padding is found, or the sum does not fit. -/
theorem maxAlignedSize_cases (bytes alignment : Word) : (∃ size, maxAlignedSize bytes alignment = .ok size) ∨
    2 ^ 64 ≤ bytes.toNat + alignment.toNat ∧ maxAlignedSize bytes alignment = .error .addOverflow :=
  (Scheme.maxAlignedSize_cases standard bytes alignment).imp_left fun ⟨total, found, _⟩ => ⟨total, found⟩

/-- The padding of a request that ends well below the last of all addresses is found. -/
theorem maxAlignedSize_total {bytes alignment : Word} (small : alignment ≤ maxAlignment)
    (fits : bytes.toNat + 16 < 2 ^ 64) : ∃ size, maxAlignedSize bytes alignment = .ok size := by
  have most : alignment.toNat ≤ 16 := UInt64.le_iff_toNat_le.mp small
  exact (maxAlignedSize_cases bytes alignment).resolve_right fun ⟨wraps, _⟩ => by omega

/-- Aligning a start fills the gap in front of it and nothing else. -/
theorem align_ok {region start : Address} {alignment offset : Word} {m m' : Memory} (aligned : region.toNat % 8 = 0)
    (ok : align region alignment offset m = .ok start m') :
    alignedStart region alignment offset = .ok start ∧
      Memory.AgreeOff m m' ⟨region.toNat, start.toNat⟩ := by
  simp only [align, Scheme.align, Step.bind_ok, Step.lift_ok, Step.modify_bind, Step.pure_ok] at ok
  obtain ⟨found, -, ⟨placed, rfl⟩, rfl, rfl⟩ := ok
  exact ⟨placed, Memory.fillGap_agree m region _ aligned (alignedStart_ok aligned placed).1⟩

end Padding

namespace Request

/-- The bytes that a request takes, as a number. -/
def size (r : Request) : Nat := (Padding.allocationSize r.bytes).toNat

/-- The place serves the request: it is a multiple of the alignment once the offset is added. -/
def Aligns (r : Request) (a : Address) : Prop :=
  a.toNat % 8 = 0 ∧ (a.toNat + r.offset.toNat) % r.align.toNat = 0

/-- The alignment is a power of two up to the largest, and the offset is whole words. -/
structure Legal (r : Request) : Prop where
  power : r.align.isPowerOfTwo = true
  small : r.align ≤ Padding.maxAlignment
  whole : r.offset % Padding.minAlignment = 0

theorem Legal.cases {r : Request} (legal : r.Legal) :
    r.align = 1 ∨ r.align = 2 ∨ r.align = 4 ∨ r.align = 8 ∨ r.align = 16 :=
  Word.isPowerOfTwo_cases legal.power legal.small

/-- A legal request can be aligned in memory that holds it with its padding. -/
theorem Legal.aligned_in {r : Request} {room : Word} {start : Address} {bytes : Nat} (legal : r.Legal)
    (padded : r.room = .ok room) (words : start.toNat % 8 = 0) (enough : room.toNat ≤ bytes) (least : 16 ≤ bytes)
    (fits : start.toNat + bytes ≤ 2 ^ 64) :
    ∃ place, Padding.alignedStart start r.align r.offset = .ok place ∧ r.Aligns place ∧
      start.toNat ≤ place.toNat ∧ place.toNat + r.size ≤ start.toNat + bytes := by
  obtain ⟨place, placed⟩ := Padding.alignedStart_total legal.power legal.small legal.whole (by omega : start.toNat + 16 ≤ 2 ^ 64)
  obtain ⟨whole, above, near, multiple, -⟩ := Padding.alignedStart_ok words placed
  have total : room.toNat = r.size + Padding.slack r.align := Padding.maxAlignedSize_ok padded legal.cases
  exact ⟨place, placed, ⟨whole, multiple⟩, above, by omega⟩

/-- A request that shares its pages with others is small. -/
theorem small_of_shared {r : Request} (ok : r.isLarge = .ok false) : r.bytes.toNat ≤ 8192 := by
  obtain ⟨size, padded, same⟩ := except_bind_ok.mp ok
  have small := except_pure_ok.mp same
  have least := Padding.maxAlignedSize_le padded
  have bound := mt UInt64.lt_iff_toNat_lt.mpr (by simpa using small)
  have limit : sharedLimit.toNat = 8192 := rfl
  omega

end Request

end TracingHeap
