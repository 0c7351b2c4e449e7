import TracingHeap.WordTable

/-! A word table is a function from indices to words: what was stored last at an index, or zero if nothing
was, or if the index was cleared since. Leaves do not show. -/

namespace TracingHeap.WordTable

/-- The word at a place of a leaf that may be missing. -/
private def wordIn (leaf : Option (Vector Word 512)) (place : Nat) : Word :=
  match leaf with
  | some leaf => leaf[place]?.getD 0
  | none => 0

private theorem get_eq_wordIn (table : WordTable) (i : Nat) :
    table.get i = wordIn table.leaves[i / 512]? (i % 512) := by
  unfold get wordIn
  cases table.leaves[i / 512]? with
  | none => rfl
  | some leaf =>
    have inside := mod_lt_leaf i
    simp only [Vector.getElem?_eq_getElem inside, Option.getD_some]
    rfl

@[simp] theorem get_empty (i : Nat) : empty.get i = 0 := by
  rw [get_eq_wordIn]
  simp [empty, wordIn]

/-- A word that was stored is read back, and no other index notices. -/
@[grind =] theorem get_set (table : WordTable) (i j : Nat) (value : Word) :
    (table.set i value).get j = if i = j then value else table.get j := by
  rw [get_eq_wordIn, get_eq_wordIn, set, Std.TreeMap.getElem?_alter]
  simp only [Nat.compare_eq_eq]
  by_cases leaf : i / 512 = j / 512
  · simp only [leaf, ↓reduceIte, wordIn]
    have inside := mod_lt_leaf j
    by_cases same : i = j
    · subst same
      simp
    · have differ : i % 512 ≠ j % 512 := by omega
      simp only [same, ↓reduceIte, Vector.getElem?_eq_getElem inside, Option.getD_some]
      rw [Vector.getElem_set_ne (mod_lt_leaf i) inside differ]
      cases found : table.leaves[j / 512]? with
      | none => simp [blank]
      | some old => simp
  · have same : i ≠ j := fun h => leaf (by rw [h])
    simp [leaf, same]

private theorem getElem_blankFrom (leaf : Vector Word 512) (first count place : Nat)
    (inside : place < 512) :
    (blankFrom leaf first count)[place] =
      if first ≤ place ∧ place < first + count then 0 else leaf[place] := by
  induction count generalizing leaf with
  | zero =>
    have none : ¬ (first ≤ place ∧ place < first + 0) := by omega
    simp only [blankFrom, none, ↓reduceIte]
  | succ count ih =>
    rw [blankFrom, ih, Vector.getElem_setIfInBounds]
    by_cases last : first + count = place
    · have before : ¬ (first ≤ place ∧ place < first + count) := by omega
      have within : first ≤ place ∧ place < first + (count + 1) := by omega
      rw [if_neg before, if_pos last, if_pos within]
    · have same : (first ≤ place ∧ place < first + (count + 1)) ↔
          (first ≤ place ∧ place < first + count) := by omega
      simp only [last, ↓reduceIte, same]

private theorem wordIn_clearLeaf (first last k place : Nat) (leaf : Option (Vector Word 512))
    (inside : place < 512) :
    wordIn (leaf.bind (clearLeaf first last k)) place =
      if first ≤ 512 * k + place ∧ 512 * k + place ≤ last then 0 else wordIn leaf place := by
  cases leaf with
  | none => simp [wordIn]
  | some leaf =>
    simp only [Option.bind_some, clearLeaf]
    by_cases whole : first ≤ 512 * k ∧ 512 * k + 511 ≤ last
    · have cleared : first ≤ 512 * k + place ∧ 512 * k + place ≤ last := by omega
      simp [whole, cleared, wordIn]
    · simp only [whole, ↓reduceIte, wordIn, Vector.getElem?_eq_getElem inside, Option.getD_some,
        getElem_blankFrom _ _ _ _ inside]
      have same : (first - 512 * k ≤ place ∧ place < first - 512 * k +
            (min (last + 1) (512 * k + 512) - max first (512 * k))) ↔
          (first ≤ 512 * k + place ∧ 512 * k + place ≤ last) := by omega
      simp only [same]

private theorem get_clearLeaves (table : WordTable) (first last k count i : Nat) :
    (clearLeaves table first last k count).get i =
      if (k ≤ i / 512 ∧ i / 512 < k + count) ∧ first ≤ i ∧ i ≤ last then 0 else table.get i := by
  induction count generalizing table with
  | zero =>
    have none : ¬ ((k ≤ i / 512 ∧ i / 512 < k + 0) ∧ first ≤ i ∧ i ≤ last) := by omega
    simp only [clearLeaves, none, ↓reduceIte]
  | succ count ih =>
    rw [clearLeaves, ih, get_eq_wordIn ⟨_⟩, Std.TreeMap.getElem?_alter, get_eq_wordIn table]
    simp only [Nat.compare_eq_eq]
    by_cases leaf : k + count = i / 512
    · simp only [leaf, ↓reduceIte]
      rw [wordIn_clearLeaf _ _ _ _ _ (mod_lt_leaf i)]
      have place : 512 * (i / 512) + i % 512 = i := by omega
      rw [place]
      by_cases within : first ≤ i ∧ i ≤ last
      · have covered : (k ≤ i / 512 ∧ i / 512 < k + (count + 1)) ∧ first ≤ i ∧ i ≤ last := by omega
        rw [if_pos within, if_pos covered]
        split <;> rfl
      · have outside : ¬ ((k ≤ i / 512 ∧ i / 512 < k + (count + 1)) ∧ first ≤ i ∧ i ≤ last) :=
          fun covered => within covered.2
        have before : ¬ ((k ≤ i / 512 ∧ i / 512 < i / 512) ∧ first ≤ i ∧ i ≤ last) := by omega
        rw [if_neg before, if_neg within, if_neg outside]
    · have same : ((k ≤ i / 512 ∧ i / 512 < k + (count + 1)) ∧ first ≤ i ∧ i ≤ last) ↔
          ((k ≤ i / 512 ∧ i / 512 < k + count) ∧ first ≤ i ∧ i ≤ last) := by omega
      simp only [leaf, ↓reduceIte, same]

/-- Clearing puts zeros exactly at the indices of the range, whichever way the leaves are visited. -/
@[grind =] theorem get_clear (table : WordTable) (first last i : Nat) :
    (table.clear first last).get i = if first ≤ i ∧ i ≤ last then 0 else table.get i := by
  unfold clear
  dsimp only
  split
  · rw [get_clearLeaves]
    have same : ((first / 512 ≤ i / 512 ∧ i / 512 < first / 512 + (last / 512 + 1 - first / 512)) ∧
        first ≤ i ∧ i ≤ last) ↔ (first ≤ i ∧ i ≤ last) := by omega
    simp only [same]
  · rw [get_eq_wordIn ⟨_⟩, Std.TreeMap.getElem?_filterMap', get_eq_wordIn table,
      wordIn_clearLeaf _ _ _ _ _ (mod_lt_leaf i)]
    have place : 512 * (i / 512) + i % 512 = i := by omega
    rw [place]

end TracingHeap.WordTable
