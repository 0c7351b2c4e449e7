import TracingHeap.Heap.References
import TracingHeap.Proofs.Memory

/-! The header of an object and its bytes. Memory is seen as bytes where operations write less than a
word: the collector's byte can be replaced without a change to size or slots, and a copy has the bytes of
its original. -/

namespace TracingHeap.Memory

/-- The byte of a number. -/
def byte (m : Memory) (n : Nat) : UInt8 := (m.word (n / 8) >>> UInt64.ofNat (8 * (n % 8))).toUInt8

variable {m m' : Memory}

theorem testBit_byte (m : Memory) (n k : Nat) :
    (m.byte n).toNat.testBit k = (decide (k < 8) && (m.word (n / 8)).toNat.testBit (8 * (n % 8) + k)) := by
  have shift : (UInt64.ofNat (8 * (n % 8))).toNat % 64 = 8 * (n % 8) := by
    rw [UInt64.toNat_ofNat']
    omega
  rw [byte, UInt64.toNat_toUInt8, UInt64.toNat_shiftRight, shift, Nat.testBit_mod_two_pow,
    Nat.testBit_shiftRight]

/-- Words with the same bytes are the same. -/
theorem word_of_bytes {i j : Nat} (same : ∀ k < 8, m'.byte (8 * i + k) = m.byte (8 * j + k)) :
    m'.word i = m.word j := by
  apply UInt64.toNat_inj.mp
  apply Nat.eq_of_testBit_eq
  intro b
  by_cases inside : b < 64
  · have bits := congrArg (fun v => v.toNat.testBit (b % 8)) (same (b / 8) (by omega))
    simp only [testBit_byte] at bits
    rw [show (8 * i + b / 8) / 8 = i by omega, show (8 * j + b / 8) / 8 = j by omega,
      show (8 * i + b / 8) % 8 = b / 8 by omega, show (8 * j + b / 8) % 8 = b / 8 by omega,
      show 8 * (b / 8) + b % 8 = b by omega] at bits
    simpa [Nat.mod_lt] using bits
  · have zero : ∀ w : Word, w.toNat.testBit b = false := fun w =>
      Nat.testBit_lt_two_pow (Nat.lt_of_lt_of_le w.toNat_lt (Nat.pow_le_pow_right (by decide) (by omega)))
    rw [zero, zero]

theorem byte_of_word {n k : Nat} (same : m'.word (n / 8) = m.word (k / 8)) (place : n % 8 = k % 8) :
    m'.byte n = m.byte k := by
  rw [byte, byte, same, place]

theorem byteShift_toNat (a : Address) : (byteShift a).toNat = 8 * (a.toNat % 8) := by
  have low : (a.word &&& 7).toNat = a.toNat % 8 := by
    rw [UInt64.toNat_and]
    exact Nat.and_two_pow_sub_one_eq_mod _ 3
  rw [byteShift, UInt64.toNat_shiftLeft, low, Nat.shiftLeft_eq, show 2 ^ ((3 : Word).toNat % 64) = 8 from rfl]
  omega

theorem loadByte_eq (m : Memory) (a : Address) : m.loadByte a = m.byte a.toNat := by
  rw [loadByte, load_eq, byte]
  congr 2
  apply UInt64.toNat_inj.mp
  rw [byteShift_toNat, UInt64.toNat_ofNat']
  omega

/-- Replacing a byte of a word replaces its eight bits. -/
private theorem testBit_replaceByte (w v : Word) (s i : Nat) (shift : Word) (fits : s ≤ 56)
    (small : v.toNat < 256) (amount : shift.toNat = s) :
    ((w &&& ~~~((255 : Word) <<< shift)) ||| (v <<< shift)).toNat.testBit i =
      if s ≤ i ∧ i < s + 8 then v.toNat.testBit (i - s) else w.toNat.testBit i := by
  have bound := w.toNat_lt
  have scale : 2 ^ s ≤ 2 ^ 56 := Nat.pow_le_pow_right (by decide) fits
  have mask : ((255 : Word) <<< shift).toNat = 255 * 2 ^ s := by
    rw [UInt64.toNat_shiftLeft, amount, Nat.shiftLeft_eq, Nat.mod_eq_of_lt (show s < 64 by omega)]
    apply Nat.mod_eq_of_lt
    calc 255 * 2 ^ s ≤ 255 * 2 ^ 56 := Nat.mul_le_mul_left _ scale
      _ < 2 ^ 64 := by decide
  have put : (v <<< shift).toNat = v.toNat * 2 ^ s := by
    rw [UInt64.toNat_shiftLeft, amount, Nat.shiftLeft_eq, Nat.mod_eq_of_lt (show s < 64 by omega)]
    apply Nat.mod_eq_of_lt
    calc v.toNat * 2 ^ s ≤ 255 * 2 ^ 56 := Nat.mul_le_mul (by omega) scale
      _ < 2 ^ 64 := by decide
  have maskBound : 255 * 2 ^ s < 2 ^ 64 := mask ▸ UInt64.toNat_lt _
  rw [UInt64.toNat_or, UInt64.toNat_and, UInt64.toNat_not, mask, put, Nat.testBit_or, Nat.testBit_and,
    show UInt64.size - 1 - 255 * 2 ^ s = 2 ^ 64 - (255 * 2 ^ s + 1) by simp only [UInt64.size]; omega,
    Nat.testBit_two_pow_sub_succ maskBound, Nat.testBit_mul_two_pow, Nat.testBit_mul_two_pow,
    show (255 : Nat) = 2 ^ 8 - 1 by decide, Nat.testBit_two_pow_sub_one]
  have zero : 64 ≤ i → w.toNat.testBit i = false := fun high =>
    Nat.testBit_lt_two_pow (Nat.lt_of_lt_of_le bound (Nat.pow_le_pow_right (by decide) high))
  by_cases low : s ≤ i
  · by_cases high : i < s + 8
    · have inside : i - s < 8 := by omega
      simp [low, high, inside]
    · have outside : ¬ i - s < 8 := by omega
      have least : 2 ^ 8 ≤ 2 ^ (i - s) := Nat.pow_le_pow_right (by decide) (by omega)
      have clear : v.toNat.testBit (i - s) = false :=
        Nat.testBit_lt_two_pow (Nat.lt_of_lt_of_le small least)
      by_cases word : i < 64
      · simp [high, outside, clear, word]
      · simp [high, clear, zero (by omega)]
  · by_cases word : i < 64
    · simp [low, word]
    · omega

/-- A byte that was stored is read back, and no other byte notices. -/
theorem byte_storeByte (m : Memory) (a : Address) (value : UInt8) (n : Nat) :
    (m.storeByte a value).byte n = if n = a.toNat then value else m.byte n := by
  apply UInt8.toNat_inj.mp
  apply Nat.eq_of_testBit_eq
  intro k
  rw [testBit_byte, storeByte, word_store]
  by_cases word : a.toNat / 8 = n / 8
  · rw [if_pos word, load_eq, word,
      testBit_replaceByte _ _ (8 * (a.toNat % 8)) _ _ (by omega)
        (by rw [UInt8.toNat_toUInt64]; exact value.toNat_lt) (byteShift_toNat a)]
    by_cases low : k < 8
    · by_cases same : n = a.toNat
      · subst same
        have inside : 8 * (a.toNat % 8) ≤ 8 * (a.toNat % 8) + k ∧
            8 * (a.toNat % 8) + k < 8 * (a.toNat % 8) + 8 := by omega
        rw [if_pos inside, if_pos rfl, Nat.add_sub_cancel_left]
        simp [low]
      · have outside : ¬ (8 * (a.toNat % 8) ≤ 8 * (n % 8) + k ∧
            8 * (n % 8) + k < 8 * (a.toNat % 8) + 8) := by omega
        rw [if_neg outside, if_neg same, testBit_byte]
    · have clear : ∀ v : UInt8, v.toNat.testBit k = false := fun v =>
        Nat.testBit_lt_two_pow (Nat.lt_of_lt_of_le v.toNat_lt (Nat.pow_le_pow_right (by decide) (by omega)))
      rw [clear]
      simp [low]
  · have same : n ≠ a.toNat := fun h => word (by rw [h])
    rw [if_neg word, if_neg same, ← testBit_byte]

theorem byte_store (m : Memory) (a : Address) (value : Word) (n : Nat) (apart : a.toNat / 8 ≠ n / 8) :
    (m.store a value).byte n = m.byte n := by
  apply byte_of_word _ rfl
  rw [word_store, if_neg apart]

theorem word_storeByte (m : Memory) (a : Address) (value : UInt8) (i : Nat) (apart : a.toNat / 8 ≠ i) :
    (m.storeByte a value).word i = m.word i := by
  rw [storeByte, word_store, if_neg apart]

theorem storeByte_agree {r : Span} (m : Memory) (a : Address) (value : UInt8) (low : r.lo % 8 = 0)
    (inside : r.lo ≤ a.toNat) (below : a.toNat < r.hi) : AgreeOff m (m.storeByte a value) r :=
  store_agree m a _ low inside below

/-! ### Headers -/

theorem loadAny_eq (m : Memory) (a : Address) (aligned : a.toNat % 8 = 0) :
    m.loadAny a = m.word (a.toNat / 8) := by
  have shift : byteShift a = 0 := by
    apply UInt64.toNat_inj.mp
    rw [byteShift_toNat, aligned]
    rfl
  rw [loadAny, shift]
  exact load_eq m a

theorem header_eq (m : Memory) (o : Address) (aligned : o.toNat % 8 = 0) :
    m.header o = .ofWord (m.word (o.toNat / 8)) := by
  rw [header, loadAny_eq m o aligned]

/-- The header is a view of the first word. -/
theorem header_of_word {o c : Address} (aligned : o.toNat % 8 = 0) (aligned' : c.toNat % 8 = 0)
    (same : m'.word (c.toNat / 8) = m.word (o.toNat / 8)) : m'.header c = m.header o := by
  rw [header_eq _ _ aligned, header_eq _ _ aligned', same]

/-- Size and slots of an object, the part of its header that no collection changes. -/
def shape (m : Memory) (o : Address) : UInt32 × UInt16 := ((m.header o).size, (m.header o).slots)

theorem shape_eq (m : Memory) (o : Address) (aligned : o.toNat % 8 = 0) :
    m.shape o = ((m.word (o.toNat / 8)).toUInt32, (m.word (o.toNat / 8) >>> 32).toUInt16) := by
  rw [shape, header_eq m o aligned]
  rfl

theorem shape_of_bytes {o c : Address} (aligned : o.toNat % 8 = 0) (aligned' : c.toNat % 8 = 0)
    (same : ∀ k < 6, m'.byte (c.toNat + k) = m.byte (o.toNat + k)) : m'.shape c = m.shape o := by
  have bits : ∀ b < 48, (m'.word (c.toNat / 8)).toNat.testBit b = (m.word (o.toNat / 8)).toNat.testBit b := by
    intro b low
    have bits := congrArg (fun v => v.toNat.testBit (b % 8)) (same (b / 8) (by omega))
    simp only [testBit_byte] at bits
    rw [show (c.toNat + b / 8) / 8 = c.toNat / 8 by omega, show (o.toNat + b / 8) / 8 = o.toNat / 8 by omega,
      show (c.toNat + b / 8) % 8 = b / 8 by omega, show (o.toNat + b / 8) % 8 = b / 8 by omega,
      show 8 * (b / 8) + b % 8 = b by omega] at bits
    simpa [Nat.mod_lt] using bits
  rw [shape_eq _ _ aligned, shape_eq _ _ aligned']
  refine Prod.ext ?_ ?_
  · apply UInt32.toNat_inj.mp
    apply Nat.eq_of_testBit_eq
    intro b
    rw [UInt64.toNat_toUInt32, UInt64.toNat_toUInt32, Nat.testBit_mod_two_pow, Nat.testBit_mod_two_pow]
    by_cases low : b < 32
    · rw [bits b (by omega)]
    · simp [low]
  · apply UInt16.toNat_inj.mp
    apply Nat.eq_of_testBit_eq
    intro b
    rw [UInt64.toNat_toUInt16, UInt64.toNat_toUInt16, UInt64.toNat_shiftRight, UInt64.toNat_shiftRight,
      Nat.testBit_mod_two_pow, Nat.testBit_mod_two_pow, Nat.testBit_shiftRight, Nat.testBit_shiftRight]
    by_cases low : b < 16
    · simp only [low, decide_true, Bool.true_and]
      exact bits _ (by simp only [UInt64.reduceToNat]; omega)
    · simp [low]

theorem toNat_markPlace {o : Address} (fits : o.toNat + 8 ≤ 2 ^ 64) : (markPlace o).toNat = o.toNat + 6 :=
  Address.toNat_plus (show o.toNat + 6 < 2 ^ 64 by omega)

theorem mark_eq (m : Memory) {o : Address} (fits : o.toNat + 8 ≤ 2 ^ 64) :
    m.mark o = ⟨m.byte (o.toNat + 6)⟩ := by
  rw [mark, loadByte_eq, toNat_markPlace fits]

theorem byte_setMark (m : Memory) {o : Address} (mark : Object.Mark) (fits : o.toNat + 8 ≤ 2 ^ 64)
    (n : Nat) : (m.setMark o mark).byte n = if n = o.toNat + 6 then mark.bits else m.byte n := by
  rw [setMark, byte_storeByte, toNat_markPlace fits]

theorem mark_setMark (m : Memory) {o : Address} (mark : Object.Mark) (fits : o.toNat + 8 ≤ 2 ^ 64) :
    (m.setMark o mark).mark o = mark := by
  rw [mark_eq _ fits, byte_setMark _ _ fits, if_pos rfl]

theorem shape_setMark (m : Memory) {o : Address} (mark : Object.Mark) (fits : o.toNat + 8 ≤ 2 ^ 64)
    (aligned : o.toNat % 8 = 0) : (m.setMark o mark).shape o = m.shape o := by
  apply shape_of_bytes aligned aligned
  intro k low
  rw [byte_setMark _ _ fits, if_neg (by omega)]

theorem word_setMark (m : Memory) {o : Address} (mark : Object.Mark) (fits : o.toNat + 8 ≤ 2 ^ 64)
    (aligned : o.toNat % 8 = 0) (i : Nat) (apart : o.toNat / 8 ≠ i) :
    (m.setMark o mark).word i = m.word i := by
  apply word_storeByte
  rw [toNat_markPlace fits]
  omega

theorem setMark_agree (m : Memory) {o : Address} (mark : Object.Mark) (fits : o.toNat + 8 ≤ 2 ^ 64)
    (aligned : o.toNat % 8 = 0) : AgreeOff m (m.setMark o mark) ⟨o.toNat, o.toNat + 8⟩ := by
  apply storeByte_agree
  · exact aligned
  · rw [toNat_markPlace fits]
    exact Nat.le_add_right ..
  · rw [toNat_markPlace fits]
    exact Nat.add_lt_add_left (by decide) _

/-! ### New objects -/

/-- The header of a new object says what it was made with, as far as the header has room for it. -/
theorem shape_setHeader (m : Memory) {o : Address} (bytes slots : Word) (aligned : o.toNat % 8 = 0) :
    (m.setHeader o bytes slots).shape o = (bytes.toUInt32, slots.toUInt16) := by
  rw [shape_eq _ _ aligned, setHeader, word_store, if_pos rfl, Object.Header.toWord]
  generalize bytes.toUInt32 = size
  generalize slots.toUInt16 = count
  generalize (Object.Header.ofWord (m.load o)).spare = spare
  have size_small := size.toNat_lt
  have count_small := count.toNat_lt
  have spare_small := spare.toNat_lt
  have count_place : (count.toUInt64 <<< (32 : Word)).toNat = count.toNat * 2 ^ 32 := by
    rw [UInt64.toNat_shiftLeft, UInt16.toNat_toUInt64, Nat.shiftLeft_eq]
    exact Nat.mod_eq_of_lt (show count.toNat * 2 ^ 32 < 2 ^ 64 by omega)
  have mark_place : ((0 : UInt8).toUInt64 <<< (48 : Word)).toNat = 0 := rfl
  have spare_place : (spare.toUInt64 <<< (56 : Word)).toNat = spare.toNat * 2 ^ 56 := by
    rw [UInt64.toNat_shiftLeft, UInt8.toNat_toUInt64, Nat.shiftLeft_eq]
    exact Nat.mod_eq_of_lt (show spare.toNat * 2 ^ 56 < 2 ^ 64 by omega)
  have high : ∀ {width bits : Nat} (v : Nat), v < 2 ^ width → width ≤ bits → v.testBit bits = false :=
    fun v small above => Nat.testBit_lt_two_pow (Nat.lt_of_lt_of_le small (Nat.pow_le_pow_right (by decide) above))
  refine Prod.ext ?_ ?_
  · apply UInt32.toNat_inj.mp
    apply Nat.eq_of_testBit_eq
    intro b
    rw [UInt64.toNat_toUInt32, Nat.testBit_mod_two_pow, UInt64.toNat_or, UInt64.toNat_or, UInt64.toNat_or,
      count_place, mark_place, spare_place, UInt32.toNat_toUInt64, Nat.testBit_or, Nat.testBit_or,
      Nat.testBit_or, Nat.testBit_mul_two_pow, Nat.testBit_mul_two_pow]
    by_cases low : b < 32
    · simp [low, show ¬ 32 ≤ b by omega, show ¬ 56 ≤ b by omega]
    · simp [low, high size.toNat size_small (show 32 ≤ b by omega)]
  · apply UInt16.toNat_inj.mp
    apply Nat.eq_of_testBit_eq
    intro b
    rw [UInt64.toNat_toUInt16, UInt64.toNat_shiftRight, Nat.testBit_mod_two_pow,
      show (32 : Word).toNat % 64 = 32 from rfl, Nat.testBit_shiftRight, UInt64.toNat_or, UInt64.toNat_or,
      UInt64.toNat_or, count_place, mark_place, spare_place, UInt32.toNat_toUInt64, Nat.testBit_or,
      Nat.testBit_or, Nat.testBit_or, Nat.testBit_mul_two_pow, Nat.testBit_mul_two_pow]
    by_cases low : b < 16
    · simp [low, show ¬ 56 ≤ 32 + b by omega, high size.toNat size_small (show 32 ≤ 32 + b by omega)]
    · simp [low, high count.toNat count_small (show 16 ≤ b by omega)]

theorem setHeader_agree (m : Memory) {o : Address} (bytes slots : Word) (aligned : o.toNat % 8 = 0) :
    AgreeOff m (m.setHeader o bytes slots) ⟨o.toNat, o.toNat + 8⟩ :=
  store_agree m o _ aligned (Nat.le_refl _) (Nat.lt_add_of_pos_right (by decide))

/-! ### Copies -/

private theorem word_copyWords (m : Memory) (source target count i : Nat)
    (apart : source + count ≤ target ∨ target + count ≤ source) :
    (m.copyWords source target count).word i =
      if target ≤ i ∧ i < target + count then m.word (source + (i - target)) else m.word i := by
  induction count generalizing m with
  | zero =>
    have none : ¬ (target ≤ i ∧ i < target + 0) := by omega
    rw [copyWords, if_neg none]
  | succ count ih =>
    rw [copyWords, ih _ (by omega)]
    simp only [word, WordTable.get_set]
    by_cases last : target + count = i
    · have before : ¬ (target ≤ i ∧ i < target + count) := by omega
      have within : target ≤ i ∧ i < target + (count + 1) := by omega
      rw [if_neg before, if_pos last, if_pos within, ← last, Nat.add_sub_cancel_left]
    · have same : (target ≤ i ∧ i < target + (count + 1)) ↔ (target ≤ i ∧ i < target + count) := by omega
      simp only [same, last, ↓reduceIte]
      split
      · rw [if_neg (by omega)]
      · rfl

private theorem byte_copyBytes (m : Memory) (source target : Address) (count n : Nat)
    (apart : source.toNat + count ≤ target.toNat ∨ target.toNat + count ≤ source.toNat)
    (fits : source.toNat + count < 2 ^ 64) (fits' : target.toNat + count < 2 ^ 64) :
    (m.copyBytes source target count).byte n =
      if target.toNat ≤ n ∧ n < target.toNat + count then m.byte (source.toNat + (n - target.toNat))
      else m.byte n := by
  induction count generalizing m with
  | zero =>
    have none : ¬ (target.toNat ≤ n ∧ n < target.toNat + 0) := by omega
    rw [copyBytes, if_neg none]
  | succ count ih =>
    have amount : (UInt64.ofNat count).toNat = count := by
      rw [UInt64.toNat_ofNat']
      exact Nat.mod_eq_of_lt (by omega)
    have from_place : (source.plus (UInt64.ofNat count)).toNat = source.toNat + count := by
      rw [Address.toNat_plus (by omega), amount]
    have to_place : (target.plus (UInt64.ofNat count)).toNat = target.toNat + count := by
      rw [Address.toNat_plus (by omega), amount]
    rw [copyBytes, ih _ (by omega) (by omega) (by omega), byte_storeByte, byte_storeByte, loadByte_eq,
      from_place, to_place]
    by_cases last : n = target.toNat + count
    · have before : ¬ (target.toNat ≤ n ∧ n < target.toNat + count) := by omega
      have within : target.toNat ≤ n ∧ n < target.toNat + (count + 1) := by omega
      rw [if_neg before, if_pos last, if_pos within, last, Nat.add_sub_cancel_left]
    · have same : (target.toNat ≤ n ∧ n < target.toNat + (count + 1)) ↔
          (target.toNat ≤ n ∧ n < target.toNat + count) := by omega
      simp only [same, last, ↓reduceIte]
      split
      · rw [if_neg (by omega)]
      · rfl

/-- A copy between places that are aligned to words has the bytes of its original, and nothing else
changes. -/
theorem byte_copy (m : Memory) (source target : Address) (bytes n : Nat)
    (aligned : source.toNat % 8 = 0) (aligned' : target.toNat % 8 = 0)
    (apart : source.toNat + bytes ≤ target.toNat ∨ target.toNat + bytes ≤ source.toNat)
    (fits : source.toNat + bytes < 2 ^ 64) (fits' : target.toNat + bytes < 2 ^ 64) :
    (m.copy source target bytes).byte n =
      if target.toNat ≤ n ∧ n < target.toNat + bytes then m.byte (source.toNat + (n - target.toNat))
      else m.byte n := by
  have words : (source.word.isAligned 8 && target.word.isAligned 8) = true := by
    rw [Bool.and_eq_true, Word.isAligned_iff (k := 3) rfl, Word.isAligned_iff (k := 3) rfl]
    exact ⟨aligned, aligned'⟩
  rw [copy]
  simp only [words, ↓reduceIte]
  have whole : (UInt64.ofNat (bytes / 8 * 8)).toNat = bytes / 8 * 8 := by
    rw [UInt64.toNat_ofNat']
    exact Nat.mod_eq_of_lt (by omega)
  have from_place : (source.plus (UInt64.ofNat (bytes / 8 * 8))).toNat = source.toNat + bytes / 8 * 8 := by
    rw [Address.toNat_plus (by omega), whole]
  have to_place : (target.plus (UInt64.ofNat (bytes / 8 * 8))).toNat = target.toNat + bytes / 8 * 8 := by
    rw [Address.toNat_plus (by omega), whole]
  rw [byte_copyBytes _ _ _ _ _ (by omega) (by omega) (by omega), from_place, to_place, slot_eq, slot_eq]
  have moved : ∀ k, (m.copyWords (source.toNat / 8) (target.toNat / 8) (bytes / 8)).byte k =
      if target.toNat ≤ k ∧ k < target.toNat + bytes / 8 * 8 then m.byte (source.toNat + (k - target.toNat))
      else m.byte k := by
    intro k
    split
    · apply byte_of_word _ (by omega)
      rw [word_copyWords _ _ _ _ _ (by omega), if_pos (by omega)]
      congr 1
      omega
    · apply byte_of_word _ rfl
      rw [word_copyWords _ _ _ _ _ (by omega), if_neg (by omega)]
  split
  · rw [moved, if_neg (by omega), if_pos (by omega)]
    congr 1
    omega
  · rw [moved]
    split
    · rw [if_pos (by omega)]
    · rw [if_neg (by omega)]

theorem copy_agree (m : Memory) (source target : Address) (bytes : Nat)
    (aligned : source.toNat % 8 = 0) (aligned' : target.toNat % 8 = 0)
    (apart : source.toNat + bytes ≤ target.toNat ∨ target.toNat + bytes ≤ source.toNat)
    (fits : source.toNat + bytes < 2 ^ 64) (fits' : target.toNat + bytes < 2 ^ 64) :
    AgreeOff m (m.copy source target bytes) ⟨target.toNat, (target.toNat + bytes + 7) / 8 * 8⟩ := by
  intro i out
  apply word_of_bytes
  intro k low
  rw [byte_copy m source target bytes _ aligned aligned' apart fits fits', if_neg]
  simp only at out
  omega

end TracingHeap.Memory
