import Mathlib.Data.List.Nodup
import Mathlib.Data.List.Perm.Subperm
import TracingHeap.Padding
import TracingHeap.Object.Access
import TracingHeap.Proofs.Tables
import TracingHeap.Proofs.Words

/-! Memory as a function from word numbers to words. Spans of addresses say where an operation writes:
what lies apart from the span it was given is the same afterwards. -/

namespace TracingHeap

/-- The addresses from `lo` up to but without `hi`. -/
structure Span where
  lo : Nat
  hi : Nat
  deriving DecidableEq, Inhabited

namespace Span

/-- The spans share no address. -/
def Apart (r s : Span) : Prop := r.hi ≤ s.lo ∨ s.hi ≤ r.lo

/-- The first span is part of the second. -/
def Within (r s : Span) : Prop := s.lo ≤ r.lo ∧ r.hi ≤ s.hi

/-- Both ends are multiples of a word, and they are in order. -/
def Whole (r : Span) : Prop := r.lo % 8 = 0 ∧ r.hi % 8 = 0 ∧ r.lo ≤ r.hi

/-- The bytes from an address on. -/
def ofBytes (a : Address) (bytes : Word) : Span := ⟨a.toNat, a.toNat + bytes.toNat⟩

theorem Apart.symm {r s : Span} (h : Apart r s) : Apart s r := Or.symm h

theorem Apart.mono {r r' s s' : Span} (apart : Apart r s) (inner : r'.Within r) (inner' : s'.Within s) :
    Apart r' s' := by
  unfold Apart Within at *
  omega

theorem Within.refl (r : Span) : r.Within r := ⟨Nat.le_refl _, Nat.le_refl _⟩

theorem Within.trans {r s t : Span} (h : r.Within s) (h' : s.Within t) : r.Within t :=
  ⟨Nat.le_trans h'.1 h.1, Nat.le_trans h.2 h'.2⟩

/-- Spans that share nothing have no more room together than what they lie in. -/
theorem sum_le {spans : List Span} {whole : Span} (apart : spans.Pairwise Apart) (inner : ∀ r ∈ spans, r.Within whole) :
    (spans.map fun r => r.hi - r.lo).sum ≤ whole.hi - whole.lo := by
  have distinct : (spans.flatMap fun r => List.range' r.lo (r.hi - r.lo)).Nodup := by
    refine List.nodup_flatMap.mpr ⟨fun r _ => List.nodup_range', apart.imp fun {r s} apart n member member' => ?_⟩
    rw [List.mem_range'_1] at member member'
    unfold Apart at apart
    omega
  have fewer : spans.flatMap (fun r => List.range' r.lo (r.hi - r.lo)) ⊆ List.range' whole.lo (whole.hi - whole.lo) := by
    intro n member
    obtain ⟨r, listed, member⟩ := List.mem_flatMap.mp member
    have within := inner r listed
    rw [List.mem_range'_1] at member ⊢
    unfold Within at within
    omega
  simpa [List.length_flatMap] using (distinct.subperm fewer).length_le

end Span

namespace Memory

/-- The word of a number. -/
def word (m : Memory) (i : Nat) : Word := m.words.get i

/-- Every word that starts in the span is zero. -/
def ZeroOn (m : Memory) (r : Span) : Prop := ∀ i, r.lo ≤ 8 * i → 8 * i < r.hi → m.word i = 0

/-- Every word that starts in the span is the same. -/
def AgreeOn (m m' : Memory) (r : Span) : Prop :=
  ∀ i, r.lo ≤ 8 * i → 8 * i < r.hi → m'.word i = m.word i

/-- Every word that does not start in the span is the same. -/
def AgreeOff (m m' : Memory) (r : Span) : Prop :=
  ∀ i, ¬ (r.lo ≤ 8 * i ∧ 8 * i < r.hi) → m'.word i = m.word i

variable {m m' m'' : Memory} {r s : Span}

theorem AgreeOn.refl (m : Memory) (r : Span) : AgreeOn m m r := fun _ _ _ => rfl

theorem AgreeOff.refl (m : Memory) (r : Span) : AgreeOff m m r := fun _ _ => rfl

theorem AgreeOn.trans (h : AgreeOn m m' r) (h' : AgreeOn m' m'' r) : AgreeOn m m'' r :=
  fun i lo hi => (h' i lo hi).trans (h i lo hi)

theorem AgreeOff.trans (h : AgreeOff m m' r) (h' : AgreeOff m' m'' r) : AgreeOff m m'' r :=
  fun i out => (h' i out).trans (h i out)

theorem AgreeOff.mono (h : AgreeOff m m' s) (inner : s.Within r) : AgreeOff m m' r :=
  fun i out => h i fun inside =>
    out ⟨Nat.le_trans inner.1 inside.1, Nat.lt_of_lt_of_le inside.2 inner.2⟩

theorem ZeroOn.mono (h : ZeroOn m r) (inner : s.Within r) : ZeroOn m s :=
  fun i lo hi => h i (Nat.le_trans inner.1 lo) (Nat.lt_of_lt_of_le hi inner.2)

/-- What is written in one span is not noticed in another. -/
theorem AgreeOff.agreeOn (h : AgreeOff m m' r) (apart : r.Apart s) : AgreeOn m m' s := by
  intro i lo hi
  apply h i
  unfold Span.Apart at apart
  omega

theorem ZeroOn.of_agree (zero : ZeroOn m r) (h : AgreeOn m m' r) : ZeroOn m' r :=
  fun i lo hi => (h i lo hi).trans (zero i lo hi)

@[simp] theorem word_empty (i : Nat) : empty.word i = 0 := WordTable.get_empty i

theorem slot_eq (a : Address) : slot a = a.toNat / 8 := by
  rw [slot, UInt64.toNat_shiftRight]
  exact Nat.shiftRight_eq_div_pow _ 3

theorem load_eq (m : Memory) (a : Address) : m.load a = m.word (a.toNat / 8) := by
  rw [load, slot_eq]
  rfl

theorem word_store (m : Memory) (a : Address) (value : Word) (i : Nat) :
    (m.store a value).word i = if a.toNat / 8 = i then value else m.word i := by
  rw [store, slot_eq]
  exact WordTable.get_set ..

theorem word_zero (m : Memory) (start : Address) (bytes : Word) (positive : 8 ≤ bytes.toNat) (i : Nat) :
    (m.zero start bytes).word i =
      if start.toNat / 8 ≤ i ∧ i < start.toNat / 8 + bytes.toNat / 8 then 0 else m.word i := by
  have whole : 1 ≤ bytes.toNat / 8 := by omega
  have last : (i ≤ start.toNat / 8 + (bytes.toNat / 8 - 1)) ↔ i < start.toNat / 8 + bytes.toNat / 8 := by
    omega
  rw [zero, slot_eq]
  simp only [word, WordTable.get_clear, last]

theorem store_agree (m : Memory) (a : Address) (value : Word) (low : r.lo % 8 = 0)
    (inside : r.lo ≤ a.toNat) (below : a.toNat < r.hi) : AgreeOff m (m.store a value) r := by
  intro i out
  rw [word_store, if_neg]
  rintro rfl
  apply out
  omega

theorem zero_agree (m : Memory) (start : Address) (bytes : Word) (positive : 8 ≤ bytes.toNat)
    (aligned : start.toNat % 8 = 0) : AgreeOff m (m.zero start bytes) (.ofBytes start bytes) := by
  intro i out
  rw [word_zero _ _ _ positive, if_neg]
  simp only [Span.ofBytes] at out
  omega

theorem zero_zeroOn (m : Memory) (start : Address) (bytes : Word) (positive : 8 ≤ bytes.toNat)
    (aligned : start.toNat % 8 = 0) (whole : bytes.toNat % 8 = 0) :
    ZeroOn (m.zero start bytes) (.ofBytes start bytes) := by
  intro i lo hi
  rw [word_zero _ _ _ positive, if_pos]
  simp only [Span.ofBytes] at lo hi
  omega

theorem commit_ok {start : Address} {bytes : Word} :
    m.commit start bytes = .ok m' ↔ bytes ≠ 0 ∧ m.zero start bytes = m' := by
  unfold commit
  split <;> simp_all

theorem commit_error {start : Address} {bytes : Word} {cause : Refusal} :
    m.commit start bytes = .error cause ↔ bytes = 0 ∧ cause = .invalid := by
  unfold commit
  split <;> simp_all [eq_comm]

@[simp] theorem commitUnless_none (m : Memory) (start : Address) (bytes : Word) :
    m.commitUnless none start bytes = m.commit start bytes := rfl

/-- What is backed the system did not refuse, and is not empty. -/
theorem commitUnless_ok {refusal : Option Refusal} {start : Address} {bytes : Word} :
    m.commitUnless refusal start bytes = .ok m' ↔ refusal = none ∧ bytes ≠ 0 ∧ m.zero start bytes = m' := by
  cases refusal with
  | none => simp [commit_ok]
  | some cause => simp [commitUnless]

/-- Pages that were backed are at least one. -/
theorem pos_of_backed {refusal : Option Refusal} {start : Address} {pages : Word}
    (backed : m.commitUnless refusal start (Word.ofPages pages) = .ok m') : 0 < pages.toNat := by
  refine Nat.pos_of_ne_zero fun nothing => (commitUnless_ok.mp backed).2.1 ?_
  rw [UInt64.toNat_inj.mp (show pages.toNat = (0 : Word).toNat from nothing)]
  rfl

/-- Words that are filled hold the marker, and the others are the same. -/
theorem word_fillWords (v : Padding.Scheme) (m : Memory) (start : Address) (count : Nat) (aligned : start.toNat % 8 = 0)
    (fits : start.toNat + 8 * count < 2 ^ 64) (i : Nat) :
    (v.fillWords m start count).word i =
      if start.toNat ≤ 8 * i ∧ 8 * i < start.toNat + 8 * count then v.marker else m.word i := by
  induction count generalizing m start with
  | zero =>
    rw [Padding.Scheme.fillWords, if_neg]
    omega
  | succ count ih =>
    have next : (start.plus Word.wordBytes).toNat = start.toNat + 8 :=
      Address.toNat_plus (show start.toNat + 8 < 2 ^ 64 by omega)
    rw [Padding.Scheme.fillWords, ih _ _ (by omega) (by omega), word_store, next]
    by_cases first : start.toNat / 8 = i
    · rw [if_pos first, ite_self, if_pos (by omega)]
    · rw [if_neg first]
      exact if_congr (by omega) rfl rfl

/-- A gap is filled with the marker of the scheme, and with nothing else. -/
theorem word_fillGap_of (v : Padding.Scheme) (m : Memory) (start stop : Address) (aligned : start.toNat % 8 = 0)
    (whole : stop.toNat % 8 = 0) (i : Nat) :
    (v.fillGap m start stop).word i = if start.toNat ≤ 8 * i ∧ 8 * i < stop.toNat then v.marker else m.word i := by
  have bound := stop.toNat_lt
  unfold Padding.Scheme.fillGap
  split
  · rename_i order
    have order := Address.lt_iff.mp order
    have gap : ((stop.word - start.word + 7) / 8).toNat = (stop.toNat - start.toNat) / 8 := by
      have difference : (stop.word - start.word).toNat = stop.toNat - start.toNat :=
        UInt64.toNat_sub_of_le _ _ (UInt64.le_iff_toNat_le.mpr (Nat.le_of_lt order))
      rw [UInt64.toNat_div, UInt64.toNat_add, difference]
      simp only [UInt64.reduceToNat]
      omega
    rw [gap, word_fillWords _ _ _ _ aligned (by omega)]
    exact if_congr (by omega) rfl rfl
  · rename_i none_left
    have order := Address.le_iff.mp (Address.not_lt.mp none_left)
    rw [if_neg]
    omega

theorem word_fillGap (m : Memory) (start stop : Address) (aligned : start.toNat % 8 = 0) (whole : stop.toNat % 8 = 0) (i : Nat) :
    (Padding.fillGap m start stop).word i =
      if start.toNat ≤ 8 * i ∧ 8 * i < stop.toNat then Padding.gapMarker else m.word i :=
  word_fillGap_of Padding.standard m start stop aligned whole i

/-- The fill words of a gap stay inside of it. -/
theorem fillGap_agree (m : Memory) (start stop : Address) (aligned : start.toNat % 8 = 0)
    (whole : stop.toNat % 8 = 0) :
    AgreeOff m (Padding.fillGap m start stop) ⟨start.toNat, stop.toNat⟩ := by
  intro i out
  rw [word_fillGap _ _ _ aligned whole, if_neg out]

end Memory

end TracingHeap
