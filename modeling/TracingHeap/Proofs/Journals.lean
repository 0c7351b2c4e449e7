import Mathlib.Algebra.Order.Sub.Basic
import Mathlib.Data.Multiset.OrderedMonoid
import Mathlib.Data.Multiset.UnionInter
import TracingHeap.Proofs.Strides

/-! Journals of a closure: which references were traced and with what answer, which objects were copied and which marked, and
what was left to be scanned and taken up again. Every object is in a journal at most once, the counters count the entries, and
the answers are the places where the objects are from then on. -/

namespace TracingHeap

open List Memory Work Collector

variable {known : List Piece} {h h' : Heap} {c c' : Collector} {s : Share} {a b : Address} {o : Piece} {t₀ : Tally}

/-- What collectors have done in a closure. The last entries come first. -/
structure Journal where
  /-- The references that were traced, with the answers. -/
  traced : List (Address × Option Address)
  copied : List Address
  marked : List Address
  /-- The objects that were left to be scanned. -/
  enqueued : Multiset Address
  /-- The objects that were taken up to be scanned. -/
  dequeued : Multiset Address

/-- The objects that a collector may find when it asks for one to scan. -/
def Collector.pending (c : Collector) (h : Heap) : Multiset Address := items c.buffer h.backlog.objects

/-- The reference that a share traces next, if it has a slot at hand. -/
def Share.references (s : Share) (h : Heap) : List Address := (s.slots.take 1).map h.refOf

namespace Journal

/-- Nothing was done. -/
def empty : Journal := ⟨[], [], [], 0, 0⟩

/-- A step of a share is added: what it traces and gains, and what is left to be scanned after it and was not before, or was
before and is not after it. -/
def note (j : Journal) (s : Share) (c : Collector) (h : Heap) (c' : Collector) (h' : Heap) : Journal where
  traced := (s.references h).map (fun a => (a, ((trace a).answer (c, h)).join)) ++ j.traced
  copied := (s.references h).filter (h.gain? · = some .copy) ++ j.copied
  marked := (s.references h).filter (h.gain? · = some .mark) ++ j.marked
  enqueued := j.enqueued + (c'.pending h' - c.pending h)
  dequeued := j.dequeued + (c.pending h - c'.pending h')

/-- The objects that were gained. -/
def gained (j : Journal) : List Address := j.copied ++ j.marked

end Journal

/-- Where the object is that was known at an address. -/
def Heap.place (h : Heap) (known : List Piece) (a : Address) : Address :=
  ((known.find? (·.start = a)).map h.spaces.image).getD a

/-- No two of the objects start at one address. -/
def Piece.Distinct (known : List Piece) : Prop := ∀ o ∈ known, ∀ p ∈ known, o.start = p.start → o = p

theorem Heap.place_start (distinct : Piece.Distinct known) (member : o ∈ known) : h.place known o.start = h.spaces.image o := by
  rw [place]
  cases found : known.find? (·.start = o.start) with
  | none => exact absurd (find?_eq_none.mp found o member) (by simp only [decide_true, not_true_eq_false, not_false_eq_true])
  | some p =>
    have same : p.start = o.start := by simpa only [decide_eq_true_eq] using find?_some found
    rw [distinct p (mem_of_find?_eq_some found) o member same]
    rfl

/-- What a journal tells of the objects. -/
structure Journal.Tells (j : Journal) (known : List Piece) (h : Heap) : Prop where
  answers : ∀ e ∈ j.traced, e = (.null, some .null) ∨
    ∃ o ∈ known, h.Done o ∧ (e.1 = o.start ∨ e.1 = h.spaces.image o) ∧ e.2 = some (h.spaces.image o)
  gains : ∀ a ∈ j.gained, ∃ o ∈ known, h.Done o ∧ o.start = a
  once : j.gained.Nodup
  enqueued : j.enqueued = ↑(j.gained.map (h.place known))

/-- The objects of the journal are what a tally has grown by. -/
structure Journal.Counted (j : Journal) (t t' : Tally) : Prop where
  copies : t'.objectsCopied = t.objectsCopied + UInt64.ofNat j.copied.length
  marks : t'.objectsMarked = t.objectsMarked + UInt64.ofNat j.marked.length

namespace Journal

variable {j : Journal}

theorem tells_empty (known : List Piece) (h : Heap) : empty.Tells known h where
  answers e member := by cases member
  gains a member := by cases member
  once := nodup_nil
  enqueued := rfl

theorem counted_empty (t : Tally) : empty.Counted t t where
  copies := (UInt64.add_zero _).symm
  marks := (UInt64.add_zero _).symm

/-- What a journal tells stays true while the objects stay where they are. -/
theorem Tells.settles (tells : j.Tells known h) (distinct : Piece.Distinct known) (settles : h.Settles h' known) :
    j.Tells known h' where
  answers e member := by
    rcases tells.answers e member with null | ⟨o, inside, done, there, answer⟩
    · exact .inl null
    · obtain ⟨done', image⟩ := settles o inside done
      exact .inr ⟨o, inside, done', image ▸ there, image ▸ answer⟩
  gains a member := by
    obtain ⟨o, inside, done, start⟩ := tells.gains a member
    exact ⟨o, inside, (settles o inside done).1, start⟩
  once := tells.once
  enqueued := by
    rw [tells.enqueued]
    refine congrArg _ (map_congr_left fun a member => ?_)
    obtain ⟨o, inside, done, rfl⟩ := tells.gains a member
    rw [Heap.place_start distinct inside, Heap.place_start distinct inside, (settles o inside done).2]

/-- One more reference was traced. -/
def answered (j : Journal) (a b : Address) : Journal := { j with traced := (a, some b) :: j.traced }

/-- One more object was gained, and left to be scanned at the place `b`. -/
def won (j : Journal) (gain : Gain) (a b : Address) : Journal :=
  match gain with
  | .copy => { j with copied := a :: j.copied, enqueued := j.enqueued + {b} }
  | .mark => { j with marked := a :: j.marked, enqueued := j.enqueued + {b} }

theorem gained_won (j : Journal) (gain : Gain) (a b : Address) : (j.won gain a b).gained ~ a :: j.gained := by
  cases gain with
  | copy => exact .refl _
  | mark => exact perm_middle

theorem Tells.answered (tells : j.Tells known h)
    (new : a = .null ∧ b = .null ∨ ∃ o ∈ known, h.Done o ∧ (a = o.start ∨ a = h.spaces.image o) ∧ b = h.spaces.image o) :
    (j.answered a b).Tells known h where
  answers e member := by
    rcases mem_cons.mp member with rfl | old
    · rcases new with ⟨rfl, rfl⟩ | ⟨o, inside, done, there, rfl⟩
      · exact .inl rfl
      · exact .inr ⟨o, inside, done, there, rfl⟩
    · exact tells.answers e old
  gains := tells.gains
  once := tells.once
  enqueued := tells.enqueued

/-- An object that is gained was not gained before. -/
theorem Tells.won (tells : j.Tells known h) (distinct : Piece.Distinct known) (member : o ∈ known) (missed : ¬ h.Done o)
    (done : h'.Done o) (settles : h.Settles h' known) (gain : Gain) :
    (j.won gain o.start (h'.spaces.image o)).Tells known h' := by
  have later := tells.settles distinct settles
  have perm := j.gained_won gain o.start (h'.spaces.image o)
  refine ⟨?_, fun a listed => ?_, perm.nodup_iff.mpr (nodup_cons.mpr ⟨fun listed => ?_, tells.once⟩), ?_⟩
  · cases gain <;> exact later.answers
  · rcases mem_cons.mp (perm.mem_iff.mp listed) with rfl | old
    · exact ⟨o, member, done, rfl⟩
    · exact later.gains a old
  · obtain ⟨p, inside, finished, start⟩ := tells.gains o.start listed
    exact missed (distinct p inside o member start ▸ finished)
  · have all : (j.won gain o.start (h'.spaces.image o)).enqueued = j.enqueued + {h'.spaces.image o} := by cases gain <;> rfl
    rw [all, later.enqueued, Multiset.coe_eq_coe.mpr (perm.map _), map_cons, Heap.place_start distinct member, add_comm,
      Multiset.singleton_add, Multiset.cons_coe]

theorem Counted.won {gain : Gain} {t t' t'' : Tally} (counted : j.Counted t t') (counts : t'.Counts gain t'') (a b : Address) :
    (j.won gain a b).Counted t t'' := by
  have next : ∀ n : Nat, UInt64.ofNat (n + 1) = UInt64.ofNat n + 1 := fun n => UInt64.ofNat_add n 1
  cases counts with
  | copy bytes => exact ⟨by simp only [Tally.copied, Journal.won, length_cons, next, counted.copies, UInt64.add_assoc], counted.marks⟩
  | mark => exact ⟨counted.copies, by simp only [Tally.marked, Journal.won, length_cons, next, counted.marks, UInt64.add_assoc]⟩

/-! ### One step -/

theorem note_of_traced {slot : Slot} {left : List Slot} {t : Collector × Heap} (hand : s.slots = slot :: left)
    (traced : trace (h.refOf slot) (c, h) = .ok (some b) t) : j.note s c h c' h' = { j.answered (h.refOf slot) b with
      copied := (if h.gain? (h.refOf slot) = some .copy then [h.refOf slot] else []) ++ j.copied
      marked := (if h.gain? (h.refOf slot) = some .mark then [h.refOf slot] else []) ++ j.marked
      enqueued := j.enqueued + (c'.pending h' - c.pending h)
      dequeued := j.dequeued + (c.pending h - c'.pending h') } := by
  simp only [note, Share.references, hand, take_succ_cons, take_zero, map_cons, map_nil, filter_cons, filter_nil, Step.answer_of_ok traced,
    Option.join_some, answered, cons_append, nil_append, decide_eq_true_eq]

/-- A reference to an object that is not gained now. -/
theorem note_of_idle {slot : Slot} {left : List Slot} {t : Collector × Heap} (hand : s.slots = slot :: left)
    (traced : trace (h.refOf slot) (c, h) = .ok (some b) t) (idle : h.gain? (h.refOf slot) = none)
    (same : c'.pending h' = c.pending h) : j.note s c h c' h' = j.answered (h.refOf slot) b := by
  simp only [note_of_traced hand traced, idle, same, tsub_self, add_zero, reduceCtorEq, if_false, nil_append, answered]

/-- A reference to an object that is gained now. -/
theorem note_of_gain {slot : Slot} {left : List Slot} {t : Collector × Heap} {gain : Gain} (hand : s.slots = slot :: left)
    (traced : trace (h.refOf slot) (c, h) = .ok (some b) t) (gained : h.gain? (h.refOf slot) = some gain)
    (more : c'.pending h' = b ::ₘ c.pending h) :
    j.note s c h c' h' = (j.won gain (h.refOf slot) b).answered (h.refOf slot) b := by
  have new : c'.pending h' - c.pending h = {b} := by rw [more, ← Multiset.singleton_add, add_tsub_cancel_right]
  have old : c.pending h - c'.pending h' = 0 := tsub_eq_zero_of_le (more ▸ Multiset.le_cons_self _ b)
  rw [note_of_traced hand traced, gained, new, old]
  cases gain <;> simp only [answered, won, add_zero, reduceCtorEq, Option.some.injEq, if_true, if_false, nil_append, cons_append]

/-- Without a slot at hand nothing is traced. -/
theorem note_of_no_slot (idle : s.slots = []) (fewer : c'.pending h' ≤ c.pending h) :
    j.note s c h c' h' = { j with dequeued := j.dequeued + (c.pending h - c'.pending h') } := by
  simp only [note, Share.references, idle, take_nil, map_nil, filter_nil, nil_append, tsub_eq_zero_of_le fewer, add_zero]

/-- Where nothing is at hand and the same is pending, there is nothing to note. -/
theorem note_of_nothing (idle : s.slots = []) (same : c'.pending h' = c.pending h) : j.note s c h c' h' = j := by
  rw [note_of_no_slot idle same.le, same, tsub_self, add_zero]

/-- What is pending is what was left to be scanned and not taken up. -/
theorem note_balance (j : Journal) (s : Share) (c c' : Collector) (h h' : Heap) :
    (j.note s c h c' h').enqueued + (j.dequeued + c.pending h) = (j.note s c h c' h').dequeued + (j.enqueued + c'.pending h') := by
  have both : c'.pending h' - c.pending h + c.pending h = c.pending h - c'.pending h' + c'.pending h' :=
    Multiset.union_comm (c'.pending h') (c.pending h)
  simp only [note]
  rw [add_add_add_comm j.enqueued, add_add_add_comm j.dequeued, both, add_comm j.enqueued]

/-- What a journal tells is kept by every step of a share. -/
theorem noted {answer : Option Share} (tells : j.Tells known h) (counted : j.Counted t₀ h.tally) (distinct : Piece.Distinct known)
    (stride : Share.Stride known s c h answer c' h') :
    (j.note s c h c' h').Tells known h' ∧ (j.note s c h c' h').Counted t₀ h'.tally := by
  cases stride with
  | @traces slot left b c' h₁ h' hand traced visits level backlog packets =>
    have pending : c'.pending h' = c'.pending h₁ := by rw [Collector.pending, Collector.pending, backlog]
    have last : ∀ {j' : Journal}, j'.Tells known h₁ → j'.Counted t₀ h₁.tally → j'.Tells known h' ∧ j'.Counted t₀ h'.tally :=
      fun tells counted => ⟨tells.settles distinct level.settles, level.tally ▸ counted⟩
    cases visits with
    | null nothing =>
      have idle : h.gain? (h.refOf slot) = none := by
        rw [nothing]
        rfl
      rw [note_of_idle hand traced idle pending]
      exact last (tells.answered (.inl ⟨nothing, rfl⟩)) ⟨counted.copies, counted.marks⟩
    | again member done there passed settles idle =>
      have same : c.pending h₁ = c.pending h := by rw [Collector.pending, Collector.pending, passed]
      have books : h₁.tally = h.tally := by rw [passed]
      rw [note_of_idle hand traced idle (pending.trans same)]
      obtain ⟨done', image⟩ := settles _ member done
      refine last ((tells.settles distinct settles).answered (.inr ⟨_, member, done', ?_, image.symm⟩)) ?_
      · rw [image]
        exact there
      · rw [books]
        exact ⟨counted.copies, counted.marks⟩
    | first member here missed done settles gained counts queued =>
      rename_i o gain
      have more : c'.pending h₁ = h₁.spaces.image o ::ₘ c.pending h := Multiset.coe_eq_coe.mpr queued
      rw [note_of_gain hand traced gained (pending.trans more), here]
      have told := (tells.won distinct member missed done settles gain).answered (.inr ⟨o, member, done, .inl rfl, rfl⟩)
      have count := counted.won counts o.start (h₁.spaces.image o)
      exact last told ⟨count.copies, count.marks⟩
  | turns idle level fewer less stuck =>
    obtain ⟨taken, moved⟩ := fewer
    have fewer : c'.pending h' ≤ c.pending h := by
      rw [Collector.pending, Collector.pending, Multiset.coe_eq_coe.mpr moved, ← Multiset.coe_add]
      exact Multiset.le_add_left _ _
    rw [note_of_no_slot idle fewer, level.tally]
    have later := tells.settles distinct level.settles
    exact ⟨⟨later.answers, later.gains, later.once, later.enqueued⟩, ⟨counted.copies, counted.marks⟩⟩

end Journal

end TracingHeap
