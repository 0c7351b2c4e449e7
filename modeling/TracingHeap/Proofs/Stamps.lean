import TracingHeap.Proofs.Objects
import TracingHeap.Proofs.Visits

/-! The collector's byte of an object. It holds the tag of the space of the object, and the bit that makes the
write barrier record the next store. Only the barrier of a generational heap watches objects, and only those
outside of the nursery. -/

namespace TracingHeap

open List Memory

namespace Object.Mark

variable (id : SpaceId) (unlogged : Bool)

@[simp] theorem fresh_isUnlogged : (fresh id.tag unlogged).isUnlogged = unlogged := by
  cases id <;> cases unlogged <;> rfl

@[simp] theorem fresh_unlogged : (fresh id.tag unlogged).unlogged = fresh id.tag true := by
  cases id <;> cases unlogged <;> rfl

@[simp] theorem fresh_logged : (fresh id.tag unlogged).logged = fresh id.tag false := by
  cases id <;> cases unlogged <;> rfl

@[simp] theorem fresh_tag : (fresh id.tag unlogged).tag? = some id.tag := by
  cases id <;> cases unlogged <;> rfl

end Object.Mark

/-- Does the write barrier watch the objects of a space? -/
def Plan.watches : Plan → SpaceId → Bool
  | .generational, id => id != .first
  | .semispace, _ => false

theorem Plan.watches_iff {plan : Plan} {id : SpaceId} :
    plan.watches id = true ↔ plan = .generational ∧ id ≠ .first := by
  cases plan <;> cases id <;> simp [watches]

/-- The collector's byte of a new object or copy in a space. -/
def Space.freshMark : Space → Object.Mark
  | .copying x => x.freshMark
  | .markSweep x => x.freshMark
  | .immortal x => x.freshMark
  | .large x => x.freshMark

namespace Spaces

variable {s s' : Spaces}

/-- New objects get the tag of their space, and start unlogged where the barrier watches. -/
def Stamping (s : Spaces) : Prop := ∀ id, (s.space id).freshMark = .fresh id.tag (s.plan.watches id)

theorem freshMark_congr {id : SpaceId} (plan : s'.plan = s.plan) (extent : (s'.space id).extent = (s.space id).extent)
    (region : (s'.space id).region = (s.space id).region) : (s'.space id).freshMark = (s.space id).freshMark := by
  cases id with
  | first =>
    simp only [space, Space.extent, Space.freshMark, CopySpace.freshMark] at extent ⊢
    rw [extent]
  | second =>
    cases second : s.second <;> cases second' : s'.second <;>
      simp only [Spaces.plan, second, second', space, Space.extent, Space.region, reduceCtorEq] at extent region plan
    all_goals simp only [space, second, second', Space.freshMark, CopySpace.freshMark, MarkSweepSpace.freshMark, extent, region]
  | immortal =>
    simp only [space, Space.extent, Space.region, Space.freshMark, ImmortalSpace.freshMark] at extent region ⊢
    rw [extent, region]
  | large =>
    simp only [space, Space.extent, Space.region, Space.freshMark, LargeSpace.freshMark] at extent region ⊢
    rw [extent, region]

theorem Steady.freshMark (steady : s.Steady s') (id : SpaceId) : (s'.space id).freshMark = (s.space id).freshMark :=
  freshMark_congr steady.plan (steady.extent id) (steady.region id)

theorem Steady.stamping (steady : s.Steady s') (stamping : s.Stamping) : s'.Stamping := fun id => by
  rw [steady.freshMark id, stamping id, steady.plan]

end Spaces

namespace Piece

variable {p : Piece} {plan : Plan} {m m' : Memory} {M M' : Address → Prop}

/-- The collector's byte of the object of a piece: the tag of its space, and the unlogged bit as given. -/
def Stamped (p : Piece) (m : Memory) (unlogged : Bool) : Prop := m.mark p.start = .fresh p.home.tag unlogged

/-- The byte is in order: where the barrier watches, the object is unlogged or one of those in `M`, and elsewhere
it is never unlogged. -/
def Watched (p : Piece) (plan : Plan) (m : Memory) (M : Address → Prop) : Prop :=
  ∃ unlogged, p.Stamped m unlogged ∧ if plan.watches p.home then unlogged = true ∨ M p.start else unlogged = false

/-- A new object or copy. -/
theorem Watched.fresh (stamped : p.Stamped m (plan.watches p.home)) : p.Watched plan m M := by
  refine ⟨_, stamped, ?_⟩
  split
  · rename_i watched
    exact .inl watched
  · rename_i free
    exact Bool.eq_false_iff.mpr free

theorem Watched.congr (watched : p.Watched plan m M) (mark : m'.mark p.start = m.mark p.start) : p.Watched plan m' M := by
  obtain ⟨unlogged, stamped, rest⟩ := watched
  exact ⟨unlogged, mark.trans stamped, rest⟩

theorem Watched.mono (watched : p.Watched plan m M)
    (fewer : M p.start → M' p.start ∨ p.Stamped m (plan.watches p.home)) : p.Watched plan m M' := by
  obtain ⟨unlogged, stamped, rest⟩ := watched
  split at rest
  · rename_i watching
    rcases rest with set | member
    · exact ⟨unlogged, stamped, by rw [if_pos watching]; exact .inl set⟩
    · rcases fewer member with member | stamped
      · exact ⟨unlogged, ‹_›, by rw [if_pos watching]; exact .inr member⟩
      · exact .fresh stamped
  · rename_i free
    exact ⟨unlogged, stamped, by rw [if_neg free]; exact rest⟩

/-- An object that the barrier watches is unlogged again. -/
theorem Watched.unlog (watched : p.Watched plan m M) (watching : plan.watches p.home = true)
    (mark : m'.mark p.start = (m.mark p.start).unlogged) : p.Stamped m' (plan.watches p.home) := by
  obtain ⟨unlogged, stamped, -⟩ := watched
  rw [Stamped, mark, stamped, Object.Mark.fresh_unlogged, watching]

end Piece

end TracingHeap
