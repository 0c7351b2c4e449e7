import TracingHeap.Proofs.Outcome
import TracingHeap.Work.Backlog
import TracingHeap.Work.Buffer

/-! Buffers in front of a packet queue. No item is lost, made up or doubled on the way between a buffer and
the queue, and a participant is told that there is none left only if the queue is empty and everyone else
waits. -/

namespace TracingHeap.Work

open List

variable {α : Type} {a : α} {u : Unit} {b b' : Buffer α} {q q' : Packets α}

/-- The items in a buffer or in a packet. -/
def Pending (b : Buffer α) (q : Packets α) (x : α) : Prop := x ∈ b ∨ ∃ packet ∈ q.stack, x ∈ packet

/-- The same items with their number: those of the buffer, then those of the packets. -/
def items (b : Buffer α) (q : Packets α) : List α := b.toList ++ q.stack.flatMap Array.toList

theorem mem_items {x : α} : x ∈ items b q ↔ Pending b q x := by
  simp only [items, Pending, mem_append, mem_flatMap, Array.mem_toList_iff]

theorem pending_cons {x : α} (more : (items b' q').Perm (a :: items b q)) :
    Pending b' q' x ↔ x = a ∨ Pending b q x := by
  rw [← mem_items, more.mem_iff, mem_cons, mem_items]

/-- No packet is empty. -/
def Packets.Packed (q : Packets α) : Prop := ∀ packet ∈ q.stack, packet ≠ #[]

/-- Only the packets changed, and none was added to a drained queue. -/
structure Packets.Restacked (q q' : Packets α) : Prop where
  same : q' = { q with stack := q'.stack }
  packed : q.Packed → q'.Packed
  drained : q.drained = true → q.stack = [] → q'.stack = []

theorem Packets.Restacked.fields (restacked : q.Restacked q') : q'.participants = q.participants ∧ q'.idle = q.idle ∧
    q'.drained = q.drained ∧ q'.aborted = q.aborted ∧ q'.poisoned = q.poisoned := by
  rw [restacked.same]
  exact ⟨rfl, rfl, rfl, rfl, rfl⟩

theorem Packets.push_ok {items : Array α} (ok : push items q = .ok u q') (some : items ≠ #[]) :
    q.drained = false ∧ q' = { q with stack := items :: q.stack } := by
  unfold push at ok
  rw [if_neg (by simpa using some)] at ok
  simp only [enter, Step.bind_ok, Step.get_bind, Step.ensure_ok] at ok
  obtain ⟨_, _, ⟨-, rfl⟩, ok⟩ := ok
  by_cases drained : q.drained = true
  · simp only [drained, if_true, breakOff, Step.bind_ok, Step.modify_ok, Step.throw_ok, and_false, exists_false,
      false_and] at ok
  · rw [Step.ite_step, if_neg drained, Step.modify_ok] at ok
    exact ⟨Bool.eq_false_iff.mpr drained, ok.symm⟩

/-- Until the queue is drained everyone may add work. -/
theorem Packets.push_total (items : Array α) (sound : q.poisoned = false) (active : q.drained = false) :
    ∃ q', push items q = .ok () q' := by
  unfold push
  split
  · exact ⟨_, rfl⟩
  · refine ⟨{ q with stack := items :: q.stack }, ?_⟩
    simp only [enter, Step.bind_ok, Step.get_bind, Step.ensure_ok]
    refine ⟨(), q, ⟨by rw [sound]; rfl, rfl⟩, ?_⟩
    rw [Step.ite_step, if_neg (by rw [active]; exact Bool.false_ne_true)]
    rfl

namespace Buffer

theorem flush_ok (ok : flush (b, q) = .ok u (b', q')) :
    b' = #[] ∧ q.Restacked q' ∧ (items b' q').Perm (items b q) := by
  rw [flush, Step.get_bind] at ok
  by_cases empty : b = #[]
  · simp only [empty, Array.isEmpty_empty, if_true, Step.pure_ok, Prod.mk.injEq, true_and] at ok
    obtain ⟨rfl, rfl⟩ := ok
    exact ⟨rfl, ⟨rfl, id, fun _ => id⟩, by rw [empty]⟩
  · dsimp only at ok
    rw [if_neg (by simpa using empty)] at ok
    simp only [Step.modify_bind, Step.on_ok, Focus.snd, Prod.mk.injEq] at ok
    obtain ⟨_, pushed, rfl, rfl⟩ := ok
    obtain ⟨active, rfl⟩ := Packets.push_ok pushed empty
    refine ⟨rfl, ⟨rfl, fun packed packet member => ?_, fun drained => ?_⟩, ?_⟩
    · rcases mem_cons.mp member with rfl | member
      · exact empty
      · exact packed packet member
    · rw [active] at drained
      cases drained
    · simp only [items, nil_append, flatMap_cons, Perm.refl]

/-- The new item is pending, beside those that were. -/
theorem enqueue_ok (ok : enqueue a (b, q) = .ok u (b', q')) :
    q.Restacked q' ∧ (items b' q').Perm (a :: items b q) := by
  have pushed : ∀ (b : Buffer α) (q : Packets α), (items (b.push a) q).Perm (a :: items b q) := by
    intro b q
    simp only [items, Array.toList_push, append_assoc, singleton_append]
    exact perm_middle
  rw [enqueue, Step.get_bind] at ok
  by_cases full : capacity ≤ b.size
  · simp only [full, if_true, Step.bind_ok, Step.modify_ok, Prod.mk.injEq] at ok
    obtain ⟨_, ⟨b₁, q₁⟩, flushed, rfl, rfl⟩ := ok
    obtain ⟨-, restacked, same⟩ := flush_ok flushed
    exact ⟨restacked, (pushed _ _).trans (same.cons a)⟩
  · simp only [full, if_false, Step.modify_ok, Prod.mk.injEq] at ok
    obtain ⟨rfl, rfl⟩ := ok
    exact ⟨⟨rfl, id, fun _ => id⟩, pushed b q⟩

/-- What a participant finds that asks for an item: one that was pending; or none, as the queue is drained
or drained now, for it is the last one not to wait; or it has to wait. -/
inductive Found (b : Buffer α) (q : Packets α) : Item α → Buffer α → Packets α → Prop where
  | item (a : α) (b' : Buffer α) (q' : Packets α) (restacked : q.Restacked q')
    (moved : (items b q).Perm (a :: items b' q')) : Found b q (.item a) b' q'
  | drained (empty : b = #[]) (ended : q.drained = true) (none_left : q.stack = []) : Found b q .nothing b q
  | last (empty : b = #[]) (none_left : q.stack = []) (alone : q.idle + 1 = q.participants) :
    Found b q .nothing b { q with drained := true }
  | wait (empty : b = #[]) (none_left : q.stack = []) (active : q.drained = false)
    (others : q.idle + 1 ≠ q.participants) : Found b q .wait b { q with idle := q.idle + 1 }

private theorem perm_back {items : Array α} (found : items.back? = some a) : items.toList.Perm (a :: items.pop.toList) := by
  obtain ⟨rest, rfl⟩ := Array.back?_eq_some_iff.mp found
  rw [Array.pop_push, Array.toList_push]
  exact perm_append_singleton a rest.toList

/-- Looking for a packet with an empty buffer. -/
theorem look_ok {item : Item α} (packed : q.Packed)
    (ok : (Step.on Focus.snd Packets.look >>= unpack) (#[], q) = .ok item (b', q')) : Found #[] q item b' q' := by
  simp only [Step.bind_ok, Step.on_ok, Focus.snd] at ok
  obtain ⟨taken, _, ⟨q₁, looked, rfl⟩, ok⟩ := ok
  rw [Packets.look, Step.get_bind] at looked
  by_cases aborted : q.aborted = true
  · simp only [aborted, if_true, Packets.breakOff, Step.bind_ok, Step.modify_ok, Step.throw_ok, and_false,
      exists_false, false_and] at looked
  · rw [Step.ite_step, if_neg aborted] at looked
    cases stack : q.stack with
    | cons items rest =>
      simp only [stack, Step.set_bind, Step.pure_ok] at looked
      obtain ⟨rfl, rfl⟩ := looked
      simp only [unpack, Step.modify_bind] at ok
      have some := packed items (by rw [stack]; exact mem_cons_self)
      cases back : items.back? with
      | none => exact absurd (Array.back?_eq_none_iff.mp back) some
      | some value =>
        simp only [back, Step.pure_ok, Prod.mk.injEq] at ok
        obtain ⟨rfl, rfl, rfl⟩ := ok
        refine .item value _ _ ⟨rfl, fun packed packet member => ?_, fun _ empty => ?_⟩ ?_
        · exact packed packet (by rw [stack]; exact mem_cons_of_mem _ member)
        · rw [stack] at empty
          cases empty
        · simp only [Work.items, stack, nil_append, flatMap_cons]
          exact (perm_back back).append_right _
    | nil =>
      simp only [stack, Step.ite_step] at looked
      split at looked
      · rename_i drained
        obtain ⟨rfl, rfl⟩ := Step.pure_ok.mp looked
        simp only [unpack, Step.pure_ok, Prod.mk.injEq] at ok
        obtain ⟨rfl, rfl, rfl⟩ := ok
        exact .drained rfl drained stack
      · rename_i active
        split at looked
        · rename_i alone
          simp only [Step.set_bind, Step.pure_ok] at looked
          obtain ⟨rfl, rfl⟩ := looked
          simp only [unpack, Step.pure_ok, Prod.mk.injEq] at ok
          obtain ⟨rfl, rfl, rfl⟩ := ok
          have last := Found.last (b := #[]) rfl stack alone
          rw [stack] at last
          exact last
        · rename_i others
          simp only [Step.set_bind, Step.pure_ok] at looked
          obtain ⟨rfl, rfl⟩ := looked
          simp only [unpack, Step.pure_ok, Prod.mk.injEq] at ok
          obtain ⟨rfl, rfl, rfl⟩ := ok
          have wait := Found.wait (b := #[]) rfl stack (Bool.eq_false_iff.mpr active) others
          rw [stack] at wait
          exact wait

theorem dequeue_ok {item : Item α} (packed : q.Packed) (ok : dequeue (b, q) = .ok item (b', q')) :
    Found b q item b' q' := by
  rw [dequeue, Step.get_bind] at ok
  cases back : b.back? with
  | some value =>
    simp only [back, Step.modify_bind, Step.pure_ok, Prod.mk.injEq] at ok
    obtain ⟨rfl, rfl, rfl⟩ := ok
    exact .item value _ _ ⟨rfl, id, fun _ => id⟩ ((perm_back back).append_right _)
  | none =>
    have empty := Array.back?_eq_none_iff.mp back
    subst empty
    simp only [back, Packets.pop, Packets.enter, Step.bind_ok, Step.on_ok, Focus.snd, Step.get_bind,
      Step.ensure_ok] at ok
    obtain ⟨taken, _, ⟨q₁, ⟨_, _, ⟨-, rfl⟩, looked⟩, rfl⟩, ok⟩ := ok
    exact look_ok packed (by
      simp only [Step.bind_ok, Step.on_ok, Focus.snd]
      exact ⟨taken, _, ⟨q₁, looked, rfl⟩, ok⟩)

/-- One who asks again no longer counts as waiting. -/
theorem resume_ok {item : Item α} (packed : q.Packed) (ok : resume (#[], q) = .ok item (b', q')) :
    Found #[] { q with idle := q.idle - 1 } item b' q' := by
  simp only [resume, Packets.resume, Packets.enter, Step.bind_ok, Step.on_ok, Focus.snd, Step.get_bind,
    Step.ensure_ok, Step.modify_ok] at ok
  obtain ⟨taken, _, ⟨q₁, ⟨_, _, ⟨-, rfl⟩, _, _, rfl, looked⟩, rfl⟩, ok⟩ := ok
  exact look_ok packed (by
    simp only [Step.bind_ok, Step.on_ok, Focus.snd]
    exact ⟨taken, _, ⟨q₁, looked, rfl⟩, ok⟩)

/-! ### Nothing breaks off before the queue is drained -/

theorem flush_total (sound : q.poisoned = false) (open_ : b = #[] ∨ q.drained = false) :
    ∃ b' q', flush (b, q) = .ok () (b', q') := by
  by_cases empty : b = #[]
  · subst empty
    exact ⟨_, _, rfl⟩
  · obtain ⟨q', pushed⟩ := Packets.push_total b sound (open_.resolve_left empty)
    refine ⟨#[], q', ?_⟩
    rw [flush, Step.get_bind]
    dsimp only
    rw [if_neg (by simpa using empty)]
    simp only [Step.modify_bind, Step.on_ok, Focus.snd, Prod.mk.injEq]
    exact ⟨q', pushed, trivial, rfl⟩

theorem enqueue_total (sound : q.poisoned = false) (active : q.drained = false) :
    ∃ b' q', enqueue a (b, q) = .ok () (b', q') := by
  rw [enqueue, Step.get_bind]
  by_cases full : capacity ≤ b.size
  · obtain ⟨b', q', flushed⟩ := flush_total (b := b) sound (.inr active)
    simp only [full, if_true, Step.bind_ok, Step.modify_ok]
    exact ⟨_, _, _, _, flushed, rfl⟩
  · simp only [full, if_false, Step.modify_ok]
    exact ⟨_, _, rfl⟩

theorem look_total (calm : q.aborted = false) : ∃ taken q', Packets.look q = .ok taken q' := by
  rw [Packets.look, Step.get_bind, Step.ite_step, if_neg (by rw [calm]; exact Bool.false_ne_true)]
  cases q.stack with
  | cons items rest => exact ⟨_, _, rfl⟩
  | nil =>
    simp only [Step.ite_step]
    split
    · exact ⟨_, _, rfl⟩
    · split
      · exact ⟨_, _, rfl⟩
      · exact ⟨_, _, rfl⟩

theorem unpack_total (taken : Taken α) : ∃ item b' q', unpack taken (b, q) = .ok item (b', q') := by
  cases taken with
  | nothing => exact ⟨_, _, _, rfl⟩
  | wait => exact ⟨_, _, _, rfl⟩
  | packet items =>
    simp only [unpack, Step.modify_bind]
    cases items.back? with
    | none => exact ⟨_, _, _, rfl⟩
    | some value => exact ⟨_, _, _, rfl⟩

theorem dequeue_total (sound : q.poisoned = false) (calm : q.aborted = false) :
    ∃ item b' q', dequeue (b, q) = .ok item (b', q') := by
  rw [dequeue, Step.get_bind]
  cases b.back? with
  | some value => exact ⟨_, _, _, rfl⟩
  | none =>
    obtain ⟨taken, q₁, looked⟩ := look_total calm
    obtain ⟨item, b', q', unpacked⟩ := unpack_total (b := b) (q := q₁) taken
    simp only [Packets.pop, Packets.enter, Step.bind_ok, Step.on_ok, Focus.snd, Step.get_bind, Step.ensure_ok]
    exact ⟨item, b', q', taken, _, ⟨q₁, ⟨(), q, ⟨by rw [sound]; rfl, rfl⟩, looked⟩, rfl⟩, unpacked⟩

theorem resume_total (sound : q.poisoned = false) (calm : q.aborted = false) :
    ∃ item b' q', resume (b, q) = .ok item (b', q') := by
  obtain ⟨taken, q₁, looked⟩ := look_total (q := { q with idle := q.idle - 1 }) calm
  obtain ⟨item, b', q', unpacked⟩ := unpack_total (b := b) (q := q₁) taken
  simp only [resume, Packets.resume, Packets.enter, Step.bind_ok, Step.on_ok, Focus.snd, Step.get_bind, Step.ensure_ok,
    Step.modify_ok]
  exact ⟨item, b', q', taken, _, ⟨q₁, ⟨(), q, ⟨by rw [sound]; rfl, rfl⟩, ⟨⟩, _, rfl, looked⟩, rfl⟩, unpacked⟩

end Buffer

end TracingHeap.Work
