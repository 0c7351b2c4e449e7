import Mathlib.Order.Bounds.Defs
import TracingHeap.Proofs.Memory

/-! Where an aligned request starts, for any scheme of alignments. The start is the least place of its region that the offset
moves to a multiple of the alignment, and it is missing only if no address is such a place. Its distance from the region is
within the room that the padded size leaves, and the gap in front of it is what gets filled. -/

namespace TracingHeap

namespace Word

variable {align a b : Word} {j k : Nat}

/-- Of two powers of two the one that is not larger divides the other. -/
theorem dvd_of_le (power : a.toNat = 2 ^ j) (power' : b.toNat = 2 ^ k) (small : a.toNat ≤ b.toNat) : a.toNat ∣ b.toNat := by
  rw [power, power'] at small ⊢
  exact Nat.pow_dvd_pow 2 ((Nat.pow_le_pow_iff_right (by decide)).mp small)

/-- Words wrap at a multiple of any power of two. -/
theorem dvd_size (power : align.toNat = 2 ^ k) : align.toNat ∣ 2 ^ 64 := by
  rw [power]
  exact Nat.pow_dvd_pow 2 (Nat.le_of_lt (low_mask_lt power))

/-- The low bits of a negated sum are what the sum lacks to a multiple, even if the negation wraps. -/
theorem dvd_negated_low (power : align.toNat = 2 ^ k) :
    align.toNat ∣ a.toNat + b.toNat + ((0 - b - a) &&& (align - 1)).toNat := by
  have around : 2 ^ 64 ∣ a.toNat + b.toNat + (0 - b - a : Word).toNat := by
    have bound := a.toNat_lt
    have bound' := b.toNat_lt
    rw [UInt64.toNat_sub, UInt64.toNat_sub, UInt64.toNat_zero]
    omega
  rw [toNat_and_low power, ← power, Nat.dvd_iff_mod_eq_zero, Nat.add_mod_mod]
  exact Nat.mod_eq_zero_of_dvd (Nat.dvd_trans (dvd_size power) around)

end Word

namespace Padding

/-- A place serves a region if it is not below, and a multiple of the alignment once the offset is added; the sum may wrap. -/
def Aligned (region : Address) (alignment offset : Word) (a : Address) : Prop :=
  region ≤ a ∧ alignment.toNat ∣ (a.plus offset).toNat

namespace Scheme

variable {v : Scheme} {region start a : Address} {alignment offset : Word} {fault : Fault} {k : Nat}

theorem least_power (v : Scheme) : ∃ k, v.least.toNat = 2 ^ k := Word.isPowerOfTwo_iff.mp v.power

/-- What is a multiple of the least alignment is whole words. -/
theorem whole_words (v : Scheme) {n : Nat} (whole : v.least.toNat ∣ n) : n % 8 = 0 := by
  obtain ⟨k, power⟩ := v.least_power
  have words : (8 : Word).toNat ∣ v.least.toNat := Word.dvd_of_le (j := 3) rfl power (UInt64.le_iff_toNat_le.mp v.words)
  exact Nat.mod_eq_zero_of_dvd (Nat.dvd_trans words whole)

/-! ### The gap -/

/-- The bytes from the start of a region to the place that serves it. -/
def gap (v : Scheme) (region : Address) (alignment offset : Word) : Word :=
  if alignment ≤ v.least then 0 else (0 - offset - region.word) &&& (alignment - 1)

/-- The start is as far above its region as the gap is long, as long as the request keeps to the scheme. -/
theorem alignedStart_eq (small : alignment ≤ v.most) (power : alignment.isPowerOfTwo = true) (steady : offset % v.least = 0) :
    v.alignedStart region alignment offset = region.above (v.gap region alignment offset) := by
  unfold alignedStart gap
  rw [if_pos small, if_pos power, if_pos steady]
  split
  · have same : region.plus 0 = region := by rw [Address.plus, UInt64.add_zero]
    have fits : region.toNat + (0 : Word).toNat < 2 ^ 64 := region.toNat_lt
    rw [Address.above_fits fits, same]
    rfl
  · rfl

/-- A request that does not keep to the scheme has no start. -/
theorem alignedStart_keeps (ok : v.alignedStart region alignment offset = .ok start) :
    alignment ≤ v.most ∧ alignment.isPowerOfTwo = true ∧ offset % v.least = 0 := by
  unfold alignedStart at ok
  by_cases small : alignment ≤ v.most
  case neg =>
    rw [if_neg small] at ok
    cases ok
  by_cases power : alignment.isPowerOfTwo = true
  case neg =>
    rw [if_pos small, if_neg power] at ok
    cases ok
  by_cases steady : offset % v.least = 0
  case neg =>
    rw [if_pos small, if_pos power, if_neg steady] at ok
    cases ok
  exact ⟨small, power, steady⟩

theorem gap_lt (power : alignment.toNat = 2 ^ k) : (v.gap region alignment offset).toNat < alignment.toNat := by
  have positive : 0 < 2 ^ k := Nat.two_pow_pos k
  rw [gap, power]
  split
  · exact positive
  · rw [Word.toNat_and_low power]
    exact Nat.mod_lt _ positive

/-- The offset wraps at a multiple of the alignment, so it may be added without wrapping. -/
theorem aligned_iff (power : alignment.toNat = 2 ^ k) :
    Aligned region alignment offset a ↔ region.toNat ≤ a.toNat ∧ alignment.toNat ∣ a.toNat + offset.toNat := by
  have wrapped : (a.plus offset).toNat = (a.toNat + offset.toNat) % 2 ^ 64 := UInt64.toNat_add ..
  rw [Aligned, Address.le_iff, wrapped, Nat.dvd_mod_iff (Word.dvd_size power)]

/-! ### The room for it -/

/-- The padded size is found, or the sum with the alignment does not fit. -/
theorem maxAlignedSize_cases (v : Scheme) (bytes alignment : Word) :
    (∃ total, v.maxAlignedSize bytes alignment = .ok total ∧
      total.toNat = bytes.toNat + (if alignment ≤ v.least then 0 else alignment.toNat - v.least.toNat)) ∨
    2 ^ 64 ≤ bytes.toNat + alignment.toNat ∧ v.maxAlignedSize bytes alignment = .error .addOverflow := by
  unfold maxAlignedSize
  split
  · exact .inl ⟨bytes, rfl, rfl⟩
  · rename_i beyond
    have beyond := mt UInt64.le_iff_toNat_le.mpr beyond
    by_cases fits : bytes.toNat + alignment.toNat < 2 ^ 64
    · have sum : bytes.sum alignment = .ok (bytes + alignment) := Word.sum_ok.mpr ⟨fits, rfl⟩
      have value := Word.toNat_sum sum
      have less : (bytes + alignment).difference v.least = .ok (bytes + alignment - v.least) :=
        Word.difference_ok.mpr ⟨by omega, rfl⟩
      have rest := (Word.toNat_difference less).2
      exact .inl ⟨_, except_bind_ok.mpr ⟨_, sum, less⟩, by omega⟩
    · refine .inr ⟨Nat.not_lt.mp fits, ?_⟩
      rw [Word.sum_error (Nat.not_lt.mp fits)]
      rfl

/-! ### The least place -/

section Whole

-- Region and offset are multiples of the least alignment.
variable (power : alignment.toNat = 2 ^ k) (whole : v.least.toNat ∣ region.toNat) (steady : v.least.toNat ∣ offset.toNat)

include power whole steady

/-- The gap is what the sum of region and offset lacks to a multiple of the alignment. -/
theorem dvd_gap : alignment.toNat ∣ region.toNat + offset.toNat + (v.gap region alignment offset).toNat := by
  unfold gap
  split
  · rename_i small
    obtain ⟨j, least⟩ := v.least_power
    have divides := Word.dvd_of_le power least (UInt64.le_iff_toNat_le.mp small)
    exact Nat.dvd_trans divides (Nat.dvd_add (Nat.dvd_add whole steady) (Nat.dvd_zero _))
  · exact Word.dvd_negated_low power

/-- The gap is a multiple of the least alignment too. So it is empty up to that alignment, and leaves one unit of any other. -/
theorem gap_whole : v.least.toNat ∣ (v.gap region alignment offset).toNat ∧
    (alignment ≤ v.least ∧ v.gap region alignment offset = 0 ∨
      ¬ alignment ≤ v.least ∧ (v.gap region alignment offset).toNat + v.least.toNat ≤ alignment.toNat) := by
  by_cases small : alignment ≤ v.least
  · have empty : v.gap region alignment offset = 0 := if_pos small
    rw [empty]
    exact ⟨Nat.dvd_zero _, .inl ⟨small, rfl⟩⟩
  · obtain ⟨j, least⟩ := v.least_power
    have larger := Nat.le_of_lt (Nat.not_le.mp (mt UInt64.le_iff_toNat_le.mpr small))
    have units := Word.dvd_of_le least power larger
    have divides : v.least.toNat ∣ (v.gap region alignment offset).toNat :=
      (Nat.dvd_add_right (Nat.dvd_add whole steady)).mp (Nat.dvd_trans units (dvd_gap power whole steady))
    have short : (v.gap region alignment offset).toNat < alignment.toNat := gap_lt power
    have room := Nat.le_of_dvd (Nat.sub_pos_of_lt short) (Nat.dvd_sub units divides)
    exact ⟨divides, .inr ⟨small, by omega⟩⟩

/-- No place that serves is within the gap: two of them are apart by a multiple of the alignment, and the gap is shorter. -/
theorem le_of_aligned (aligned : Aligned region alignment offset a) :
    region.toNat + (v.gap region alignment offset).toNat ≤ a.toNat := by
  have short : (v.gap region alignment offset).toNat < alignment.toNat := gap_lt power
  obtain ⟨above, multiple⟩ := (aligned_iff power).mp aligned
  by_contra inside
  have between := Nat.le_of_dvd (by omega) (Nat.dvd_sub (dvd_gap power whole steady) multiple)
  omega

/-- The place at the end of the gap is the least that serves. -/
theorem isLeast_of_above (ok : region.above (v.gap region alignment offset) = .ok start) :
    IsLeast {a | Aligned region alignment offset a} start := by
  obtain ⟨-, -, place⟩ := Address.above_ok ok
  constructor
  · refine (aligned_iff power).mpr ⟨by omega, ?_⟩
    rw [place, Nat.add_right_comm]
    exact dvd_gap power whole steady
  · intro a aligned
    rw [Address.le_iff, place]
    exact le_of_aligned power whole steady aligned

/-- If the end of the gap is past all addresses, none of them serves. -/
theorem not_aligned_of_above (broke : region.above (v.gap region alignment offset) = .error fault) :
    fault = .addOverflow ∧ ∀ a, ¬ Aligned region alignment offset a := by
  have wraps : 2 ^ 64 ≤ region.toNat + (v.gap region alignment offset).toNat := by
    by_contra fits
    rw [Address.above_fits (Nat.not_le.mp fits)] at broke
    cases broke
  constructor
  · rw [Address.above, Word.sum_error wraps] at broke
    cases broke
    rfl
  · intro a aligned
    have least := le_of_aligned power whole steady aligned
    have bound := a.toNat_lt
    omega

/-- However many bytes are asked for, their padded size leaves room for the gap. -/
theorem room_of_above (ok : region.above (v.gap region alignment offset) = .ok start) (bytes : Word) :
    (∃ total, v.maxAlignedSize bytes alignment = .ok total ∧
        bytes ≤ total ∧ start.toNat - region.toNat ≤ total.toNat - bytes.toNat) ∨
      2 ^ 64 ≤ bytes.toNat + alignment.toNat ∧ v.maxAlignedSize bytes alignment = .error .addOverflow := by
  obtain ⟨-, -, place⟩ := Address.above_ok ok
  refine (v.maxAlignedSize_cases bytes alignment).imp_left fun ⟨total, padded, sum⟩ => ⟨total, padded, ?_, ?_⟩
  · rw [UInt64.le_iff_toNat_le]
    omega
  · rcases (gap_whole power whole steady).2 with ⟨-, empty⟩ | ⟨beyond, room⟩
    · rw [empty, UInt64.toNat_zero] at place
      omega
    · rw [if_neg beyond] at sum
      omega

end Whole

/-- An aligned request starts at the least place of its region that serves it, and breaks off just if there is none. However
many bytes are asked for, their padded size leaves room for the gap, and filling the gap writes the words up to the start and no
other one. -/
theorem starts_at_least (v : Scheme) (whole : v.least.toNat ∣ region.toNat) (steady : v.least.toNat ∣ offset.toNat)
    (power : alignment.toNat = 2 ^ k) (small : alignment ≤ v.most) :
    (∀ start, v.alignedStart region alignment offset = .ok start ↔ IsLeast {a | Aligned region alignment offset a} start) ∧
      (∀ fault, v.alignedStart region alignment offset = .error fault ↔
        fault = .addOverflow ∧ ∀ a, ¬ Aligned region alignment offset a) ∧
      ∀ start, v.alignedStart region alignment offset = .ok start →
        (∀ bytes, (∃ total, v.maxAlignedSize bytes alignment = .ok total ∧
            bytes ≤ total ∧ start.toNat - region.toNat ≤ total.toNat - bytes.toNat) ∨
          2 ^ 64 ≤ bytes.toNat + alignment.toNat ∧ v.maxAlignedSize bytes alignment = .error .addOverflow) ∧
        ∀ (m : Memory) i, (v.fillGap m region start).word i =
          if region.toNat ≤ 8 * i ∧ 8 * i < start.toNat then v.marker else m.word i := by
  have steps : offset % v.least = 0 := UInt64.toNat_inj.mp ((UInt64.toNat_mod ..).trans (Nat.mod_eq_zero_of_dvd steady))
  rw [alignedStart_eq small (Word.isPowerOfTwo_iff.mpr ⟨k, power⟩) steps]
  refine ⟨fun start => ⟨isLeast_of_above power whole steady, fun least => ?_⟩,
    fun fault => ⟨not_aligned_of_above power whole steady, fun nowhere => ?_⟩,
    fun start ok => ⟨room_of_above power whole steady ok, fun m i => ?_⟩⟩
  · cases found : region.above (v.gap region alignment offset) with
    | ok place =>
      have lowest := isLeast_of_above power whole steady found
      have low := Address.le_iff.mp (lowest.2 least.1)
      have high := Address.le_iff.mp (least.2 lowest.1)
      exact congrArg Except.ok (Address.toNat_inj.mp (Nat.le_antisymm low high))
    | error fault => exact absurd least.1 ((not_aligned_of_above power whole steady found).2 start)
  · cases found : region.above (v.gap region alignment offset) with
    | ok place => exact absurd (isLeast_of_above power whole steady found).1 (nowhere.2 place)
    | error other => rw [nowhere.1, (not_aligned_of_above power whole steady found).1]
  · obtain ⟨-, -, place⟩ := Address.above_ok ok
    have units := (gap_whole power whole steady).1
    refine Memory.word_fillGap_of v m region start (v.whole_words whole) (v.whole_words ?_) i
    rw [place]
    exact Nat.dvd_add whole units

/-- With a least alignment of two words, a multiple of eight words can be up to six words away, as the padded size says. -/
example : (⟨16, 64, 1, by decide, by decide⟩ : Scheme).alignedStart ⟨4112⟩ 64 0 = .ok ⟨4160⟩ ∧
    (⟨16, 64, 1, by decide, by decide⟩ : Scheme).maxAlignedSize 24 64 = .ok 72 := by decide

end Scheme

/-- Before a place that is to be aligned eight bytes below it, a gap of eight bytes is filled, and in the last word of all
addresses no place can be aligned. -/
theorem standard_starts : standard.least.toNat ∣ (⟨4112⟩ : Address).toNat ∧
    standard.least.toNat ∣ (⟨18446744073709551608⟩ : Address).toNat ∧ standard.least.toNat ∣ (18446744073709551608 : Word).toNat ∧
    (16 : Word).toNat = 2 ^ 4 ∧ (16 : Word) ≤ standard.most ∧
    IsLeast {a | Aligned ⟨4112⟩ 16 18446744073709551608 a} ⟨4120⟩ ∧
    (∀ m : Memory, (standard.fillGap m ⟨4112⟩ ⟨4120⟩).word 513 = m.word 513 ∧
      (standard.fillGap m ⟨4112⟩ ⟨4120⟩).word 514 = gapMarker ∧ (standard.fillGap m ⟨4112⟩ ⟨4120⟩).word 515 = m.word 515) ∧
    ∀ a, ¬ Aligned ⟨18446744073709551608⟩ 16 0 a := by
  have whole : standard.least.toNat ∣ (⟨4112⟩ : Address).toNat := by decide
  have whole' : standard.least.toNat ∣ (⟨18446744073709551608⟩ : Address).toNat := by decide
  have steady : standard.least.toNat ∣ (18446744073709551608 : Word).toNat := by decide
  have power : (16 : Word).toNat = 2 ^ 4 := rfl
  have small : (16 : Word) ≤ standard.most := by decide
  have still : standard.least.toNat ∣ (0 : Word).toNat := Nat.dvd_zero _
  obtain ⟨least, -, fills⟩ := Scheme.starts_at_least standard whole steady power small
  obtain ⟨-, breaks, -⟩ := Scheme.starts_at_least standard whole' still power small
  have start : standard.alignedStart ⟨4112⟩ 16 18446744073709551608 = .ok ⟨4120⟩ := rfl
  refine ⟨whole, whole', steady, power, small, (least _).mp start, fun m => ?_, ((breaks .addOverflow).mp rfl).2⟩
  have words := (fills _ start).2 m
  exact ⟨words 513, words 514, words 515⟩

end Padding

end TracingHeap
