import TracingHeap.Collector.Tracing
import TracingHeap.Proofs.Tracked

/-! How each space claims an object that a collector found, and what it notes. Only the entry of the object
itself changes, because no other piece starts in the same granule. -/

namespace TracingHeap

open List Memory

/-! ### Sets of addresses -/

private theorem compare_words (a b : Address) : compare a b = compare a.word b.word := rfl

instance : Std.TransOrd Address where
  eq_swap {a b} := by
    rw [compare_words, compare_words]
    exact Std.OrientedCmp.eq_swap
  isLE_trans {a b c} := by
    rw [compare_words, compare_words, compare_words]
    exact Std.TransCmp.isLE_trans

instance : Std.LawfulEqOrd Address where
  compare_self {a} := by
    rw [compare_words]
    exact Std.ReflCmp.compare_self
  eq_of_compare {a b} same := by
    rw [compare_words] at same
    exact congrArg Address.mk (Std.LawfulEqCmp.eq_of_compare same)

theorem mem_insert_address {t : Std.TreeSet Address} {a o : Address} : o ∈ t.insert a ↔ o = a ∨ o ∈ t := by
  rw [Std.TreeSet.mem_insert, Std.compare_eq_iff_eq, eq_comm]

theorem mem_erase_address {t : Std.TreeSet Address} {a o : Address} : o ∈ t.erase a ↔ o ≠ a ∧ o ∈ t := by
  rw [Std.TreeSet.mem_erase, ne_eq, Std.compare_eq_iff_eq, eq_comm]

/-! ### The mature store -/

theorem MarkSweepSpace.claim_ok {x y : MarkSweepSpace} {o : Address} {won : Bool} (ok : claim o x = .ok won y) :
    ∃ cell, x.cellOf o = .ok cell ∧ (x.marks.entryByte cell = x.current ∧ won = false ∧ y = x ∨
      x.marks.entryByte cell ≠ x.current ∧ won = true ∧
        y = { x with marks := x.marks.put cell x.current.toUInt64 }) := by
  simp only [claim, Step.get_bind, Step.bind_ok, Step.lift_ok, Step.ite_step] at ok
  obtain ⟨cell, _, ⟨found, rfl⟩, mark, _, ⟨loaded, rfl⟩, ok⟩ := ok
  obtain ⟨-, -, rfl⟩ := SideTable.loadByte_ok loaded
  refine ⟨cell, found, ?_⟩
  split at ok
  · rename_i same
    obtain ⟨rfl, rfl⟩ := Step.pure_ok.mp ok
    exact .inl ⟨beq_iff_eq.mp same, rfl, rfl⟩
  · rename_i other
    simp only [Step.bind_ok, Step.on_ok, marksPart, Step.pure_ok] at ok
    obtain ⟨_, _, ⟨t, stored, rfl⟩, rfl, rfl⟩ := ok
    obtain ⟨-, -, rfl⟩ := SideTable.store_ok stored
    exact .inr ⟨fun same => other (beq_iff_eq.mpr same), rfl, rfl⟩

theorem MarkSweepSpace.adoptCopy_ok {x y : MarkSweepSpace} {m m' : Memory} {o : Address} {u : Unit}
    (ok : adoptCopy o (x, m) = .ok u (y, m')) :
    ∃ cell, x.cellOf o = .ok cell ∧ y = { x with marks := x.marks.put cell x.current.toUInt64 } ∧
      m' = m.setMark o x.freshMark := by
  simp only [adoptCopy, Step.get_bind, Step.bind_ok, Step.lift_ok, Step.on_ok, Focus.comp, Focus.fst, marksPart,
    Step.modify_ok, Prod.mk.injEq] at ok
  obtain ⟨cell, _, ⟨found, rfl⟩, _, _, ⟨t, stored, rfl⟩, rfl, rfl⟩ := ok
  obtain ⟨-, -, rfl⟩ := SideTable.store_ok stored
  exact ⟨cell, found, rfl, rfl⟩

/-! ### The immortal space -/

theorem ImmortalSpace.claim_ok {x y : ImmortalSpace} {o : Address} {won : Bool} (ok : claim o x = .ok won y) :
    won = (x.marks.entryByte o != x.current) ∧ y = { x with marks := x.marks.put o x.current.toUInt64 } := by
  simp only [claim, Step.get_bind, Step.bind_ok, Step.lift_ok, Step.on_ok, marksPart, Step.pure_ok] at ok
  obtain ⟨mark, _, ⟨loaded, rfl⟩, _, _, ⟨t, stored, rfl⟩, rfl, rfl⟩ := ok
  obtain ⟨-, -, rfl⟩ := SideTable.loadByte_ok loaded
  obtain ⟨-, -, rfl⟩ := SideTable.store_ok stored
  exact ⟨rfl, rfl⟩

theorem ImmortalSpace.adopt_ok {x y : ImmortalSpace} {m m' : Memory} {o : Address} {u : Unit}
    (ok : adopt o (x, m) = .ok u (y, m')) :
    y = { x with marks := x.marks.put o x.current.toUInt64 } ∧ m' = m.setMark o x.freshMark := by
  simp only [adopt, Step.get_bind, Step.bind_ok, Step.on_ok, Focus.comp, Focus.fst, marksPart,
    Step.modify_ok, Prod.mk.injEq] at ok
  obtain ⟨_, _, ⟨t, stored, rfl⟩, rfl, rfl⟩ := ok
  obtain ⟨-, -, rfl⟩ := SideTable.store_ok stored
  exact ⟨rfl, rfl⟩

/-! ### The large object space -/

namespace LargeSpace

variable {x y : LargeSpace} {o : Address}

/-- The list that an object moves to when it is reached. -/
def saved (x : LargeSpace) (o : Address) (young : Bool) : Treadmill :=
  if young then { x.treadmill with young := x.treadmill.young.erase o, survivors := x.treadmill.survivors.insert o }
  else { x.treadmill with old := x.treadmill.old.erase o, survivors := x.treadmill.survivors.insert o }

theorem save_ok {t t' : Treadmill} {young : Bool} {u : Unit} (ok : Treadmill.save o young t = .ok u t') :
    t' = if young then { t with young := t.young.erase o, survivors := t.survivors.insert o }
      else { t with old := t.old.erase o, survivors := t.survivors.insert o } := by
  unfold Treadmill.save at ok
  rw [Step.get_bind, Step.ite_step] at ok
  cases young with
  | true =>
    simp only [↓reduceIte, Step.bind_ok, Step.ensure_ok, Step.set_ok] at ok
    obtain ⟨_, _, ⟨-, rfl⟩, rfl⟩ := ok
    rfl
  | false =>
    simp only [Bool.false_eq_true, ↓reduceIte, Step.bind_ok, Step.ensure_ok, Step.set_ok] at ok
    obtain ⟨_, _, ⟨-, rfl⟩, rfl⟩ := ok
    rfl

/-- An object that is reached for the first time waits on one of the collected lists; a survivor is left
alone. -/
theorem Tracked.claim_ok {pieces : List Piece} {answer : Option Bool} (tracked : x.Tracked pieces)
    (none_fresh : o ∉ x.treadmill.fresh)
    (listed : o ∈ x.treadmill.fresh ∨ o ∈ x.treadmill.survivors ∨ o ∈ x.treadmill.young ∨ o ∈ x.treadmill.old)
    (ok : claim o x = .ok answer y) :
    o ∈ x.treadmill.survivors ∧ answer = none ∧ y = x ∨
      o ∉ x.treadmill.survivors ∧ ∃ young, answer = some young ∧
        (young = true ∧ o ∈ x.treadmill.young ∨ young = false ∧ o ∈ x.treadmill.old) ∧
        y = { x with marks := x.marks.put o x.current.toUInt64 } := by
  simp only [claim, Step.get_bind, Step.bind_ok, Step.lift_ok, Step.ite_step, isYoung, except_map_ok] at ok
  obtain ⟨young, _, ⟨⟨mark, loaded, rfl⟩, rfl⟩, ok⟩ := ok
  obtain ⟨-, -, rfl⟩ := SideTable.loadByte_ok loaded
  have values := tracked.current
  -- What the mark says decides which way the claim goes.
  have marking : ∀ {won : Bool} {z : LargeSpace}, LargeSpace.mark o x.current x = .ok won z →
      (won = false ∧ z = x ∧ x.marks.entryByte o &&& (if x.youngOnly = true then markMask else reachedBit) = x.current) ∨
      (won = true ∧ x.marks.entryByte o &&& (if x.youngOnly = true then markMask else reachedBit) ≠ x.current ∧
        z = { x with marks := x.marks.put o ((x.marks.entryByte o &&& ~~~markMask) ||| x.current).toUInt64 }) := by
    intro won z marked
    simp only [LargeSpace.mark, Step.get_bind, Step.bind_ok, Step.lift_ok, Step.ite_step] at marked
    obtain ⟨before, _, ⟨loaded, rfl⟩, marked⟩ := marked
    obtain ⟨-, -, rfl⟩ := SideTable.loadByte_ok loaded
    by_cases same : (x.marks.entryByte o &&& (if x.youngOnly = true then markMask else reachedBit) == x.current) = true
    · rw [if_pos same] at marked
      obtain ⟨rfl, rfl⟩ := Step.pure_ok.mp marked
      exact .inl ⟨rfl, rfl, beq_iff_eq.mp same⟩
    · have other := same
      rw [if_neg same] at marked
      simp only [Step.bind_ok, Step.on_ok, marksPart, Step.pure_ok] at marked
      obtain ⟨_, _, ⟨t, stored, rfl⟩, rfl, rfl⟩ := marked
      obtain ⟨-, -, rfl⟩ := SideTable.store_ok stored
      exact .inr ⟨rfl, fun same => other (beq_iff_eq.mpr same), rfl⟩
  rcases listed with fresh | survivor | young | old
  · exact absurd fresh none_fresh
  · left
    have entry := tracked.survivors o survivor
    rw [entry] at ok marking
    have kept : (x.current &&& youngBit == youngBit) = false := by
      rcases values with value | value <;> rw [value] <;> decide
    simp only [kept, Bool.not_false, Bool.and_true] at ok
    split at ok
    · obtain ⟨rfl, rfl⟩ := Step.pure_ok.mp ok
      exact ⟨survivor, rfl, rfl⟩
    · rename_i full
      simp only [Step.bind_ok, Step.ite_step] at ok
      obtain ⟨won, z, marked, ok⟩ := ok
      rcases marking marked with ⟨rfl, rfl, -⟩ | ⟨-, differ, -⟩
      · obtain ⟨rfl, rfl⟩ := Step.pure_ok.mp ok
        exact ⟨survivor, rfl, rfl⟩
      · rw [if_neg full] at differ
        exact absurd (by rcases values with value | value <;> rw [value] <;> decide) differ
  · right
    have entry := tracked.young o young
    have other : o ∉ x.treadmill.survivors := by
      intro survivor
      have same := (tracked.survivors o survivor).symm.trans entry
      rcases values with value | value <;> rw [value] at same <;> split at same <;> revert same <;> decide
    rw [entry] at ok marking
    have young_bit : ((if x.youngOnly = true then x.current else 1 - x.current) ||| 2) &&& youngBit == youngBit := by
      rcases values with value | value <;> rw [value] <;> split <;> decide
    simp only [young_bit, Bool.not_true, Bool.and_false, Bool.false_eq_true, ↓reduceIte, Step.bind_ok,
      Step.ite_step] at ok
    obtain ⟨won, z, marked, ok⟩ := ok
    rcases marking marked with ⟨-, -, same⟩ | ⟨rfl, -, rfl⟩
    · exfalso
      revert same
      rcases values with value | value <;> rw [value] <;> split <;> decide
    · obtain ⟨rfl, rfl⟩ := Step.pure_ok.mp ok
      refine ⟨other, true, rfl, .inl ⟨rfl, young⟩, ?_⟩
      have stored : (((if x.youngOnly = true then x.current else 1 - x.current) ||| 2) &&& ~~~markMask) ||| x.current =
          x.current := by
        rcases values with value | value <;> rw [value] <;> split <;> decide
      rw [stored]
  · right
    obtain ⟨full, entry⟩ := tracked.old o old
    have other : o ∉ x.treadmill.survivors := by
      intro survivor
      have same := (tracked.survivors o survivor).symm.trans entry
      rcases values with value | value <;> rw [value] at same <;> revert same <;> decide
    rw [entry] at ok marking
    have young_bit : ((1 - x.current) &&& youngBit == youngBit) = false := by
      rcases values with value | value <;> rw [value] <;> decide
    simp only [young_bit, full, Bool.false_and, Bool.false_eq_true, ↓reduceIte, Step.bind_ok, Step.ite_step] at ok
    obtain ⟨won, z, marked, ok⟩ := ok
    rcases marking marked with ⟨-, -, same⟩ | ⟨rfl, -, rfl⟩
    · exfalso
      revert same
      rw [full]
      rcases values with value | value <;> rw [value] <;> decide
    · obtain ⟨rfl, rfl⟩ := Step.pure_ok.mp ok
      refine ⟨other, false, rfl, .inr ⟨rfl, old⟩, ?_⟩
      have stored : ((1 - x.current) &&& ~~~markMask) ||| x.current = x.current := by
        rcases values with value | value <;> rw [value] <;> decide
      rw [stored]

theorem adopt_ok {m m' : Memory} {allocated : Bool} {u : Unit} (ok : adopt o allocated (x, m) = .ok u (y, m')) :
    y = { x with
      marks := x.marks.put o (if allocated then x.current ||| youngBit else x.current).toUInt64
      treadmill := x.treadmill.add o allocated } ∧ m' = m.setMark o x.freshMark := by
  simp only [adopt, Step.get_bind, Step.bind_ok, Step.on_ok, Focus.comp, Focus.fst, marksPart,
    Step.modify_ok, Prod.mk.injEq] at ok
  obtain ⟨_, _, ⟨t, stored, rfl⟩, rfl, rfl⟩ := ok
  obtain ⟨-, -, rfl⟩ := SideTable.store_ok stored
  exact ⟨rfl, rfl⟩

end LargeSpace

/-! ### Copying spaces -/

namespace Forwarding

variable {f f' : Forwarding} {o : Address}

theorem claim_ok {state : UInt8} (ok : claim o f = .ok state f') :
    state = f.states.entryByte o ∧
      (state ≠ 0 ∧ f' = f ∨ state = 0 ∧ f' = { f with states := f.states.put o (2 : UInt8).toUInt64 }) := by
  simp only [claim, Step.bind_ok, Step.ask_ok, stateOf, Step.ite_step] at ok
  obtain ⟨found, _, ⟨loaded, rfl⟩, ok⟩ := ok
  obtain ⟨-, -, rfl⟩ := SideTable.loadByte_ok loaded
  split at ok
  · rename_i clear
    simp only [Step.bind_ok, Step.on_ok, statesPart, Step.pure_ok] at ok
    obtain ⟨_, _, ⟨t, stored, rfl⟩, rfl, rfl⟩ := ok
    obtain ⟨-, -, rfl⟩ := SideTable.store_ok stored
    exact ⟨rfl, .inr ⟨beq_iff_eq.mp clear, rfl⟩⟩
  · rename_i taken
    obtain ⟨rfl, rfl⟩ := Step.pure_ok.mp ok
    exact ⟨rfl, .inl ⟨fun clear => taken (beq_iff_eq.mpr clear), rfl⟩⟩

theorem publish_ok {copy : Address} {u : Unit} (ok : publish o copy f = .ok u f') :
    f' = ⟨f.states.put o (3 : UInt8).toUInt64, f.copies.put o copy.word⟩ := by
  simp only [publish, Step.bind_ok, Step.ask_ok, Step.ensure_ok, Step.on_ok, statesPart, copiesPart] at ok
  obtain ⟨_, _, ⟨-, rfl⟩, _, _, ⟨-, rfl⟩, _, _, ⟨t, stored, rfl⟩, t', stored', rfl⟩ := ok
  obtain ⟨-, -, rfl⟩ := SideTable.store_ok stored
  obtain ⟨-, -, rfl⟩ := SideTable.store_ok stored'
  rfl

theorem copyOf_ok {copy : Address} (ok : f.copyOf o = .ok copy) :
    f.stateOf o = .ok ForwardingState.forwarded ∧ f.copies.load o = .ok copy.word := by
  unfold copyOf at ok
  obtain ⟨forwarded, known, ok⟩ := except_bind_ok.mp ok
  obtain ⟨state, found, same⟩ := except_map_ok.mp known
  split at ok
  · rename_i here
    obtain ⟨word, loaded, ok⟩ := except_bind_ok.mp ok
    rw [← except_pure_ok.mp ok]
    rw [here, beq_iff_eq] at same
    exact ⟨same ▸ found, loaded⟩
  · cases ok

/-- One who looks acts upon the state that it sees now if it has only seen that the object is claimed. -/
theorem look_seen {state : UInt8} {answer : Option Address} (ok : f.look o state = .ok answer) :
    ∃ seen, (if ForwardingState.isClaimed state = true then f.stateOf o else .ok state) = .ok seen ∧
      (if ForwardingState.isClaimed seen = true then answer = none
        else seen = ForwardingState.forwarded ∧ ∃ copy, f.copyOf o = .ok copy ∧ answer = some copy) := by
  have act : ∀ seen, (if ForwardingState.isClaimed seen = true then pure none
      else do
        unless seen == ForwardingState.forwarded do throw (.corruptForwarding seen o)
        return some (← f.copyOf o)) = Except.ok answer →
      if ForwardingState.isClaimed seen = true then answer = none
      else seen = ForwardingState.forwarded ∧ ∃ copy, f.copyOf o = .ok copy ∧ answer = some copy := by
    intro seen ok
    split
    · rename_i claimed
      rw [if_pos claimed] at ok
      exact (except_pure_ok.mp ok).symm
    · rename_i ended
      rw [if_neg ended] at ok
      by_cases forwarded : (seen == ForwardingState.forwarded) = true
      · rw [if_pos forwarded] at ok
        obtain ⟨copy, found, ok⟩ := except_bind_ok.mp ok
        exact ⟨beq_iff_eq.mp forwarded, copy, found, (except_pure_ok.mp ok).symm⟩
      · rw [if_neg forwarded] at ok
        cases ok
  unfold look at ok
  split at ok
  · rename_i claimed
    rw [if_pos claimed]
    obtain ⟨seen, found, ok⟩ := except_bind_ok.mp ok
    exact ⟨seen, found, act seen ok⟩
  · rename_i ended
    rw [if_neg ended]
    exact ⟨state, rfl, act state ok⟩
/-- Who finds an object forwarded finds its copy. -/
theorem look_ok {answer : Option Address} (ok : f.look o 3 = .ok answer) : answer = some ⟨f.copies.entry o⟩ := by
  obtain ⟨seen, found, answered⟩ := look_seen ok
  cases found
  obtain ⟨-, copy, read, rfl⟩ := answered
  obtain ⟨-, -, same⟩ := SideTable.load_ok (copyOf_ok read).2
  rw [← same]

end Forwarding

end TracingHeap
