import Mathlib.Algebra.Ring.Nat
import TracingHeap.Checked
import TracingHeap.Pages.Ledger
import TracingHeap.Proofs.Outcome

/-! Words and addresses as numbers. Masks and shifts become division, and checked arithmetic becomes
arithmetic of natural numbers with the bound that was checked. -/

namespace TracingHeap

namespace Word

theorem toNat_low_mask {align : Word} (power : align.toNat = 2 ^ k) :
    (align - 1).toNat = 2 ^ k - 1 := by
  have positive : 0 < 2 ^ k := Nat.two_pow_pos k
  rw [UInt64.toNat_sub_of_le, power]
  · rfl
  · rw [UInt64.le_iff_toNat_le, power]
    exact positive

theorem low_mask_lt {align : Word} (power : align.toNat = 2 ^ k) : k < 64 := by
  have bound := align.toNat_lt
  rw [power] at bound
  exact (Nat.pow_lt_pow_iff_right (by decide)).mp bound

/-- Clearing the bits below a power of two rounds down to a multiple of it. -/
theorem toNat_clear_low {value align : Word} (power : align.toNat = 2 ^ k) :
    (value &&& ~~~(align - 1)).toNat = value.toNat / 2 ^ k * 2 ^ k := by
  have width := low_mask_lt power
  have bound := value.toNat_lt
  apply Nat.eq_of_testBit_eq
  intro i
  rw [UInt64.toNat_and, UInt64.toNat_not, toNat_low_mask power, Nat.testBit_and]
  rw [show UInt64.size - 1 - (2 ^ k - 1) = 2 ^ 64 - ((2 ^ k - 1) + 1) by simp [UInt64.size]]
  rw [Nat.testBit_two_pow_sub_succ (by have := Nat.pow_lt_pow_right (a := 2) (by decide) width; omega)]
  rw [Nat.testBit_two_pow_sub_one, Nat.testBit_mul_two_pow, Nat.testBit_div_two_pow]
  by_cases low : k ≤ i
  · rw [Nat.sub_add_cancel low]
    by_cases high : i < 64
    · simp [low, high, Nat.not_lt.mpr low]
    · have zero : value.toNat.testBit i = false :=
        Nat.testBit_lt_two_pow (Nat.lt_of_lt_of_le bound (Nat.pow_le_pow_right (by decide) (by omega)))
      simp [zero]
  · simp [low]
    omega

theorem toNat_alignDown {value align : Word} (power : align.toNat = 2 ^ k) :
    (value.alignDown align).toNat = value.toNat / 2 ^ k * 2 ^ k :=
  toNat_clear_low power

/-- Rounding up is rounding down after one less than a unit was added, as long as that sum fits. -/
theorem toNat_alignUp {value align : Word} (power : align.toNat = 2 ^ k)
    (fits : value.toNat + (2 ^ k - 1) < 2 ^ 64) :
    (value.alignUp align).toNat = (value.toNat + (2 ^ k - 1)) / 2 ^ k * 2 ^ k := by
  have positive : 0 < 2 ^ k := Nat.two_pow_pos k
  have same : value + align - 1 = value + (align - 1) := by
    rw [UInt64.sub_eq_add_neg, UInt64.sub_eq_add_neg, UInt64.add_assoc]
  rw [alignUp, toNat_clear_low power, same, UInt64.toNat_add, toNat_low_mask power,
    Nat.mod_eq_of_lt fits]

/-- A value that does not fit once rounded up rounds to zero. -/
theorem toNat_alignUp_wrap {value align : Word} (power : align.toNat = 2 ^ k)
    (wraps : 2 ^ 64 ≤ value.toNat + (2 ^ k - 1)) : (value.alignUp align).toNat = 0 := by
  have positive : 0 < 2 ^ k := Nat.two_pow_pos k
  have bound := value.toNat_lt
  have same : value + align - 1 = value + (align - 1) := by
    rw [UInt64.sub_eq_add_neg, UInt64.sub_eq_add_neg, UInt64.add_assoc]
  have width := Nat.pow_lt_pow_right (a := 2) (by decide) (low_mask_lt power)
  rw [alignUp, toNat_clear_low power, same, UInt64.toNat_add, toNat_low_mask power,
    Nat.mod_eq_sub_mod wraps, Nat.mod_eq_of_lt (by omega), Nat.div_eq_of_lt (by omega), Nat.zero_mul]

theorem toNat_and_low {value align : Word} (power : align.toNat = 2 ^ k) :
    (value &&& (align - 1)).toNat = value.toNat % 2 ^ k := by
  rw [UInt64.toNat_and, toNat_low_mask power, Nat.and_two_pow_sub_one_eq_mod]

theorem isAligned_iff {value align : Word} (power : align.toNat = 2 ^ k) :
    value.isAligned align = true ↔ value.toNat % 2 ^ k = 0 := by
  rw [isAligned, beq_iff_eq, ← UInt64.toNat_inj, toNat_and_low power]
  rfl

/-- Of two neighbours with the same highest bit, both have it. -/
theorem isPowerOfTwo_iff {value : Word} : value.isPowerOfTwo = true ↔ ∃ n, value.toNat = 2 ^ n := by
  rw [isPowerOfTwo, Bool.and_eq_true, bne_iff_ne, beq_iff_eq]
  constructor
  · rintro ⟨positive, bits⟩
    have positive : value.toNat ≠ 0 := fun zero => positive (UInt64.toNat_inj.mp zero)
    have bound := value.toNat_lt
    have before : (value - 1).toNat = value.toNat - 1 :=
      UInt64.toNat_sub_of_le _ _ (UInt64.le_iff_toNat_le.mpr (show 1 ≤ value.toNat by omega))
    obtain ⟨least, most⟩ := (Nat.log2_eq_iff positive).mp rfl
    refine ⟨value.toNat.log2, ?_⟩
    by_contra other
    have same : (value.toNat - 1).log2 = value.toNat.log2 := (Nat.log2_eq_iff (by omega)).mpr ⟨by omega, by omega⟩
    have highest : (value &&& (value - 1)).toNat.testBit value.toNat.log2 = true := by
      rw [UInt64.toNat_and, before, Nat.testBit_and, Nat.testBit_log2 positive, Bool.true_and, ← same]
      exact Nat.testBit_log2 (by omega)
    rw [bits] at highest
    exact absurd highest (by simp)
  · rintro ⟨n, power⟩
    have positive := Nat.two_pow_pos n
    refine ⟨fun zero => ?_, UInt64.toNat_inj.mp ?_⟩
    · rw [zero] at power
      exact absurd power.symm (by simp)
    · rw [toNat_and_low power, power, Nat.mod_self]
      rfl

theorem isPowerOfTwo_cases {align : Word} (power : align.isPowerOfTwo = true) (small : align ≤ 16) :
    align = 1 ∨ align = 2 ∨ align = 4 ∨ align = 8 ∨ align = 16 := by
  have bound : align.toNat ≤ 16 := UInt64.le_iff_toNat_le.mp small
  have known : ∀ n : Nat, n ≤ 16 → isPowerOfTwo (UInt64.ofNat n) = true →
      n = 1 ∨ n = 2 ∨ n = 4 ∨ n = 8 ∨ n = 16 := by decide
  have found := known align.toNat bound (by rwa [UInt64.ofNat_toNat])
  rcases found with one | two | four | eight | sixteen
  · exact .inl (UInt64.toNat_inj.mp one)
  · exact .inr (.inl (UInt64.toNat_inj.mp two))
  · exact .inr (.inr (.inl (UInt64.toNat_inj.mp four)))
  · exact .inr (.inr (.inr (.inl (UInt64.toNat_inj.mp eight))))
  · exact .inr (.inr (.inr (.inr (UInt64.toNat_inj.mp sixteen))))

theorem page_power : pageBytes.toNat = 2 ^ 12 := rfl

theorem chunk_power : chunkBytes.toNat = 2 ^ 22 := rfl

theorem sum_ok {a b c : Word} :
    a.sum b = .ok c ↔ a.toNat + b.toNat < 2 ^ 64 ∧ c = a + b := by
  have bound := b.toNat_lt
  unfold sum
  have test : a ≤ a + b ↔ a.toNat + b.toNat < 2 ^ 64 := by
    rw [UInt64.le_iff_toNat_le, UInt64.toNat_add]
    omega
  split
  · rename_i fits
    simp only [Except.ok.injEq, test.mp fits, true_and]
    exact eq_comm
  · rename_i wraps
    simp only [reduceCtorEq, false_iff, not_and]
    exact fun fits => absurd (test.mpr fits) wraps

theorem sum_error {a b : Word} (wraps : 2 ^ 64 ≤ a.toNat + b.toNat) : a.sum b = .error .addOverflow := by
  cases added : a.sum b with
  | ok c => exact absurd (sum_ok.mp added).1 (Nat.not_lt.mpr wraps)
  | error e =>
    unfold sum at added
    split at added
    · cases added
    · cases added
      rfl

theorem toNat_sum {a b c : Word} (ok : a.sum b = .ok c) : c.toNat = a.toNat + b.toNat := by
  obtain ⟨fits, rfl⟩ := sum_ok.mp ok
  rw [UInt64.toNat_add, Nat.mod_eq_of_lt fits]

theorem difference_ok {a b c : Word} :
    a.difference b = .ok c ↔ b.toNat ≤ a.toNat ∧ c = a - b := by
  unfold difference
  split
  · rename_i fits
    simp only [Except.ok.injEq, UInt64.le_iff_toNat_le.mp fits, true_and]
    exact eq_comm
  · rename_i negative
    simp [mt UInt64.le_iff_toNat_le.mpr negative]

theorem toNat_difference {a b c : Word} (ok : a.difference b = .ok c) :
    b.toNat ≤ a.toNat ∧ c.toNat = a.toNat - b.toNat := by
  obtain ⟨fits, rfl⟩ := difference_ok.mp ok
  exact ⟨fits, UInt64.toNat_sub_of_le _ _ (UInt64.le_iff_toNat_le.mpr fits)⟩

theorem product_ok {a b c : Word} : a.product b = .ok c ↔ a.toNat * b.toNat < 2 ^ 64 ∧ c = a * b := by
  unfold product
  split
  · rename_i fits
    have fits : a.toNat * b.toNat < 2 ^ 64 := fits
    simp only [Except.ok.injEq, fits, true_and]
    exact eq_comm
  · rename_i wraps
    simp only [reduceCtorEq, false_iff, not_and]
    exact fun fits => absurd fits wraps

theorem toNat_product {a b c : Word} (ok : a.product b = .ok c) : c.toNat = a.toNat * b.toNat := by
  obtain ⟨fits, rfl⟩ := product_ok.mp ok
  rw [UInt64.toNat_mul, Nat.mod_eq_of_lt fits]

/-- The units of bytes are their number over the size of one, rounded up. -/
theorem toNat_unitsUp {bytes unit log units : Word} (power : unit.toNat = 2 ^ k) (shift : log.toNat = k)
    (ok : bytes.unitsUp unit log = .ok units) : units.toNat = (bytes.toNat + (2 ^ k - 1)) / 2 ^ k := by
  have positive : 0 < 2 ^ k := Nat.two_pow_pos k
  obtain ⟨padded, sum, same⟩ := except_bind_ok.mp ok
  cases except_pure_ok.mp same
  have value := toNat_sum sum
  rw [power] at value
  have less : (padded - 1).toNat = bytes.toNat + (2 ^ k - 1) := by
    rw [UInt64.toNat_sub_of_le, value]
    · exact Nat.add_sub_assoc positive _
    · rw [UInt64.le_iff_toNat_le, value]
      exact Nat.le_trans positive (Nat.le_add_left _ _)
  rw [UInt64.toNat_shiftRight, less, shift, Nat.mod_eq_of_lt (low_mask_lt power), Nat.shiftRight_eq_div_pow]

theorem toNat_pagesUp {bytes pages : Word} (ok : bytes.pagesUp = .ok pages) :
    pages.toNat = (bytes.toNat + 4095) / 4096 :=
  toNat_unitsUp page_power rfl ok

/-- Bytes that end well below the last of all addresses can be counted in pages. -/
theorem pagesUp_total {bytes : Word} (fits : bytes.toNat + 4096 < 2 ^ 64) : ∃ pages, bytes.pagesUp = .ok pages :=
  ⟨_, by rw [pagesUp, unitsUp, sum_ok.mpr ⟨fits, rfl⟩]; rfl⟩

theorem pagesUp_fits {bytes pages : Word} (ok : bytes.pagesUp = .ok pages) : bytes.toNat + 4096 < 2 ^ 64 := by
  simp only [pagesUp, unitsUp, except_bind_ok] at ok
  obtain ⟨padded, sum, -⟩ := ok
  exact (sum_ok.mp sum).1

theorem toNat_ofPages {pages : Word} (fits : pages.toNat * 4096 < 2 ^ 64) :
    (ofPages pages).toNat = pages.toNat * 4096 := by
  rw [ofPages, UInt64.toNat_shiftLeft, Nat.shiftLeft_eq]
  exact Nat.mod_eq_of_lt fits

/-- The bytes of pages that were counted fit in a word. -/
theorem toNat_ofPages_pagesUp {bytes pages : Word} (ok : bytes.pagesUp = .ok pages) : (ofPages pages).toNat = pages.toNat * 4096 := by
  have count := toNat_pagesUp ok
  have fits := pagesUp_fits ok
  exact toNat_ofPages (by omega)

end Word

namespace Address

/-- The address as a number. -/
def toNat (a : Address) : Nat := a.word.toNat

theorem toNat_inj {a b : Address} : a.toNat = b.toNat ↔ a = b := by
  cases a; cases b
  simp [toNat, UInt64.toNat_inj]

theorem le_iff {a b : Address} : a ≤ b ↔ a.toNat ≤ b.toNat := UInt64.le_iff_toNat_le

theorem lt_iff {a b : Address} : a < b ↔ a.toNat < b.toNat := UInt64.lt_iff_toNat_lt

theorem not_le {a b : Address} : ¬ a ≤ b ↔ b < a := UInt64.not_le

theorem not_lt {a b : Address} : ¬ a < b ↔ b ≤ a := UInt64.not_lt

theorem toNat_lt (a : Address) : a.toNat < 2 ^ 64 := a.word.toNat_lt

theorem toNat_null : null.toNat = 0 := rfl

theorem isNull_iff {a : Address} : a.isNull = true ↔ a = null := by
  cases a
  simp [isNull, null]

theorem toNat_pos {a : Address} : 0 < a.toNat ↔ a ≠ null := by
  rw [Nat.pos_iff_ne_zero, ← toNat_null, Ne, toNat_inj]

theorem toNat_plus {a : Address} {bytes : Word} (fits : a.toNat + bytes.toNat < 2 ^ 64) :
    (a.plus bytes).toNat = a.toNat + bytes.toNat := by
  rw [plus, toNat, UInt64.toNat_add]
  exact Nat.mod_eq_of_lt fits

theorem above_ok {a b : Address} {bytes : Word} (ok : a.above bytes = .ok b) :
    a.toNat + bytes.toNat < 2 ^ 64 ∧ b = a.plus bytes ∧ b.toNat = a.toNat + bytes.toNat := by
  obtain ⟨place, sum, rfl⟩ := except_map_ok.mp ok
  have value := Word.toNat_sum sum
  obtain ⟨fits, rfl⟩ := Word.sum_ok.mp sum
  exact ⟨fits, rfl, value⟩

theorem above_fits {a : Address} {bytes : Word} (fits : a.toNat + bytes.toNat < 2 ^ 64) :
    a.above bytes = .ok (a.plus bytes) := by
  rw [above, Word.sum_ok.mpr ⟨fits, rfl⟩]
  rfl

theorem distance_ok {a b : Address} {bytes : Word} :
    a.distance b = .ok bytes ↔ b.toNat ≤ a.toNat ∧ bytes = a.word - b.word := by
  unfold distance
  split
  · rename_i fits
    simp only [Except.ok.injEq, le_iff.mp fits, true_and]
    exact eq_comm
  · rename_i lower
    simp [mt le_iff.mpr lower]

theorem toNat_distance {a b : Address} {bytes : Word} (ok : a.distance b = .ok bytes) :
    b.toNat ≤ a.toNat ∧ bytes.toNat = a.toNat - b.toNat := by
  obtain ⟨fits, rfl⟩ := distance_ok.mp ok
  exact ⟨fits, UInt64.toNat_sub_of_le _ _ (UInt64.le_iff_toNat_le.mpr fits)⟩

theorem toNat_alignDown {a : Address} {align : Word} (power : align.toNat = 2 ^ k) :
    (a.alignDown align).toNat = a.toNat / 2 ^ k * 2 ^ k :=
  Word.toNat_alignDown power

theorem toNat_alignUp {a : Address} {align : Word} (power : align.toNat = 2 ^ k)
    (fits : a.toNat + (2 ^ k - 1) < 2 ^ 64) :
    (a.alignUp align).toNat = (a.toNat + (2 ^ k - 1)) / 2 ^ k * 2 ^ k :=
  Word.toNat_alignUp power fits

end Address

namespace Pages.Ledger

@[simp] theorem reserve_ok {pages : Word} {l l' : Ledger} {u : Unit} :
    reserve pages l = .ok u l' ↔ { l with reserved := l.reserved + pages } = l' := by
  simp [reserve]

@[simp] theorem withdraw_ok {pages : Word} {l l' : Ledger} {u : Unit} :
    withdraw pages l = .ok u l' ↔
      pages ≤ l.reserved ∧ { l with reserved := l.reserved - pages } = l' := by
  simp [withdraw]

@[simp] theorem commit_ok {pages : Word} {l l' : Ledger} {u : Unit} :
    commit pages l = .ok u l' ↔ ⟨l.reserved + pages, l.committed + pages⟩ = l' := by
  simp [commit]

@[simp] theorem release_ok {pages : Word} {l l' : Ledger} {u : Unit} :
    release pages l = .ok u l' ↔ (pages ≤ l.reserved ∧ pages ≤ l.committed) ∧
      ⟨l.reserved - pages, l.committed - pages⟩ = l' := by
  simp [release]

end Pages.Ledger

end TracingHeap
