import Mathlib.Order.Bounds.Basic
import TracingHeap.Proofs.Words

/-! Rounding of words to multiples of a power of two. Down, it gives the greatest multiple at most the word; up, the least
multiple at least the word, or zero if that one does not fit in a word. The pages that hold a number of bytes are as many bytes
as the number rounded up, so that an extent and the pages counted for it are of one size. -/

namespace TracingHeap.Word

variable {value align unit log : Word} {k n : Nat}

/-! ### Multiples -/

theorem isGreatest_multiple (n m : Nat) : IsGreatest {i | n ∣ i ∧ i ≤ m} (m / n * n) := by
  refine ⟨⟨Nat.dvd_mul_left _ _, Nat.div_mul_le_self _ _⟩, fun i ⟨multiple, below⟩ => ?_⟩
  rw [← Nat.div_mul_cancel multiple]
  exact Nat.mul_le_mul_right n (Nat.div_le_div_right below)

theorem isLeast_multiple (positive : 0 < n) (m : Nat) : IsLeast {i | n ∣ i ∧ m ≤ i} ((m + (n - 1)) / n * n) := by
  refine ⟨⟨Nat.dvd_mul_left _ _, ?_⟩, fun i ⟨multiple, above⟩ => ?_⟩
  · have next := Nat.lt_div_mul_add positive (a := m + (n - 1))
    omega
  · rw [← Nat.div_mul_cancel multiple]
    refine Nat.mul_le_mul_right n (Nat.le_of_lt_succ ((Nat.div_lt_iff_lt_mul positive).mpr ?_))
    rw [Nat.succ_mul, Nat.div_mul_cancel multiple]
    omega

/-! ### Rounding -/

/-- The least multiple that is not below fits in a word just if the sum that rounding up goes through does. -/
theorem multiple_fits_iff (width : k ≤ 64) (m : Nat) : (m + (2 ^ k - 1)) / 2 ^ k * 2 ^ k < 2 ^ 64 ↔ m + (2 ^ k - 1) < 2 ^ 64 := by
  have all : 2 ^ (64 - k) * 2 ^ k = 2 ^ 64 := by rw [← Nat.pow_add, Nat.sub_add_cancel width]
  rw [← all, Nat.mul_lt_mul_right (Nat.two_pow_pos k), Nat.div_lt_iff_lt_mul (Nat.two_pow_pos k)]

/-- Rounding up gives the least multiple, and zero in place of one that does not fit. -/
theorem alignUp_eq_multiple (power : align.toNat = 2 ^ k) : (value.alignUp align).toNat =
    if (value.toNat + (2 ^ k - 1)) / 2 ^ k * 2 ^ k < 2 ^ 64 then (value.toNat + (2 ^ k - 1)) / 2 ^ k * 2 ^ k else 0 := by
  have fits := multiple_fits_iff (Nat.le_of_lt (low_mask_lt power)) value.toNat
  split
  · rename_i within
    exact toNat_alignUp power (fits.mp within)
  · rename_i beyond
    exact toNat_alignUp_wrap power (Nat.not_lt.mp (mt fits.mpr beyond))

/-- A word is aligned just if it is a multiple, and so just if it stays the same when it is rounded. -/
theorem isAligned_iff_rounded (power : align.toNat = 2 ^ k) :
    value.isAligned align = true ↔ value.alignDown align = value ∧ value.alignUp align = value := by
  have positive : 0 < 2 ^ k := Nat.two_pow_pos k
  rw [isAligned_iff power, ← UInt64.toNat_inj, toNat_alignDown power]
  constructor
  · intro multiple
    have down := Nat.div_mul_cancel (Nat.dvd_of_mod_eq_zero multiple)
    have up : (value.toNat + (2 ^ k - 1)) / 2 ^ k * 2 ^ k = value.toNat :=
      (isLeast_multiple positive value.toNat).unique ⟨⟨Nat.dvd_of_mod_eq_zero multiple, Nat.le_refl _⟩, fun i ⟨_, above⟩ => above⟩
    refine ⟨down, UInt64.toNat_inj.mp ?_⟩
    rw [alignUp_eq_multiple power, up, if_pos value.toNat_lt]
  · rintro ⟨down, -⟩
    rw [← down]
    exact Nat.mul_mod_left ..

/-! ### Units -/

/-- Bytes are counted in units as long as a unit more fits in a word. The units are as large as the bytes rounded up. -/
theorem unitsUp_cases (value : Word) (power : unit.toNat = 2 ^ k) (shift : log.toNat = k) :
    (value.toNat + 2 ^ k < 2 ^ 64 ∧ ∃ units, value.unitsUp unit log = .ok units ∧ units <<< log = value.alignUp unit) ∨
      2 ^ 64 ≤ value.toNat + 2 ^ k ∧ value.unitsUp unit log = .error .addOverflow := by
  rcases Nat.lt_or_ge (value.toNat + 2 ^ k) (2 ^ 64) with fits | wraps
  · have sum : value.sum unit = .ok (value + unit) := sum_ok.mpr ⟨by rwa [power], rfl⟩
    have counted : value.unitsUp unit log = .ok ((value + unit - 1) >>> log) := except_bind_ok.mpr ⟨_, sum, rfl⟩
    refine .inl ⟨fits, _, counted, UInt64.toNat_inj.mp ?_⟩
    have bound := Nat.div_mul_le_self (value.toNat + (2 ^ k - 1)) (2 ^ k)
    rw [toNat_alignUp power (by omega), UInt64.toNat_shiftLeft, toNat_unitsUp power shift counted, shift,
      Nat.mod_eq_of_lt (low_mask_lt power), Nat.shiftLeft_eq]
    exact Nat.mod_eq_of_lt (by omega)
  · refine .inr ⟨wraps, ?_⟩
    rw [unitsUp, sum_error (by rwa [power])]
    rfl

/-- Words are rounded down to the greatest multiple and up to the least one, which is replaced with zero if it does not fit, and
those are aligned that both roundings leave alone. Bytes that can be counted in pages are as many pages as they are rounded up to. -/
theorem rounds_to_multiples (value : Word) :
    (∀ (align : Word) (k : Nat), align.toNat = 2 ^ k →
      IsGreatest {n | align.toNat ∣ n ∧ n ≤ value.toNat} (value.alignDown align).toNat ∧
      (∃ n, IsLeast {n | align.toNat ∣ n ∧ value.toNat ≤ n} n ∧ (value.alignUp align).toNat = if n < 2 ^ 64 then n else 0) ∧
      (value.isAligned align = true ↔ value.alignDown align = value ∧ value.alignUp align = value)) ∧
    ((value.toNat + 4096 < 2 ^ 64 ∧ ∃ pages, value.pagesUp = .ok pages ∧ ofPages pages = value.alignUp pageBytes) ∨
      2 ^ 64 ≤ value.toNat + 4096 ∧ value.pagesUp = .error .addOverflow) := by
  refine ⟨fun align k power => ?_, unitsUp_cases value page_power rfl⟩
  have positive : 0 < 2 ^ k := Nat.two_pow_pos k
  rw [toNat_alignDown power, power]
  exact ⟨isGreatest_multiple _ _, ⟨_, isLeast_multiple positive _, alignUp_eq_multiple power⟩, isAligned_iff_rounded power⟩

/-- One byte into the last page of all there is no page boundary above that a word could hold, nor a count of pages. -/
theorem rounds_in_last_page : pageBytes.toNat = 2 ^ 12 ∧
    IsGreatest {n | 4096 ∣ n ∧ n ≤ 18446744073709547521} (alignDown 18446744073709547521 pageBytes).toNat ∧
    (∃ n, IsLeast {n | 4096 ∣ n ∧ 18446744073709547521 ≤ n} n ∧ 2 ^ 64 ≤ n ∧ (alignUp 18446744073709547521 pageBytes).toNat = 0) ∧
    isAligned 18446744073709547521 pageBytes = false ∧ pagesUp 18446744073709547521 = .error .addOverflow := by
  obtain ⟨rounds, counts⟩ := rounds_to_multiples 18446744073709547521
  obtain ⟨down, ⟨n, least, up⟩, aligned⟩ := rounds pageBytes 12 page_power
  have above : 18446744073709547521 ≤ n := least.1.2
  have pages : 4096 ∣ n := least.1.1
  have beyond : 2 ^ 64 ≤ n := by omega
  refine ⟨page_power, down, ⟨n, least, beyond, ?_⟩, ?_, ?_⟩
  · rw [up, if_neg (Nat.not_lt.mpr beyond)]
  · exact Bool.eq_false_iff.mpr fun held => absurd (aligned.mp held).1 (by decide)
  · exact (counts.resolve_left fun fits => absurd fits.1 (by decide)).2

end TracingHeap.Word
