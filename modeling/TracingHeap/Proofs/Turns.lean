import TracingHeap.Proofs.Moments

/-! Where everything stands when a phase of a collection begins. A collector goes from one state to the next in the
phases that it carries out by itself, and a space that the collection has entered stays in it until the spaces are
released. So whoever starts a phase finds what the phase asks for. -/

namespace TracingHeap

open List Memory Work

/-- The state of a collector when a phase of a collection begins. -/
def Collector.Due : Nat → Collector → Prop
  | 0, c | 1, c | 2, c => c.Idle
  | 3, c | 4, c => c.state = .prepared
  | 5, c => c.state = .closing ∧ c.buffer = #[]
  | _, c => c.state = .released

namespace Crew

variable {h₀ h : Heap} {cs₀ cs : List Collector} {pieces₀ known pieces : List Piece} {c : Crew} {i k : Nat}

theorem Begun.due (begun : Begun 0 h₀ cs₀ pieces₀ known k h cs pieces) (quiet : Quiet h₀ cs₀ pieces₀) : ∀ c ∈ cs, c.Due k := by
  induction begun with
  | start => exact fun c member => (quiet.collectors c member).2
  | @once k _ _ _ _ _ ran ih =>
    match k with
    | 0 | 1 | 3 | 6 | 7 => exact ih
    | 2 | 4 | 5 | _ + 8 => exact ran.elim
  | @each k _ cs cs' _ _ two turned _ =>
    intro c' member
    obtain ⟨j, small, rfl⟩ := getElem_of_mem member
    have took := turned.get (turned.length_eq ▸ small) small
    rcases two with rfl | rfl
    · obtain ⟨-, copies, same, -⟩ := Collector.prepare_ok took
      exact congrArg Collector.state same
    · obtain ⟨-, same⟩ := Collector.release_ok took
      exact congrArg Collector.state same
  | closed _ _ _ _ _ _ spent => exact spent.collectors

/-- Nothing is left to do when the spaces are about to be released, and those that the collection has entered are
still in it. -/
theorem Begun.releasing (begun : Begun 0 h₀ cs₀ pieces₀ known 7 h cs pieces) (quiet : Quiet h₀ cs₀ pieces₀) :
    (∀ id, (h.spaces.space id).region.prepared = h.spaces.engages h.lastFull h.other id) ∧
      h.backlog.roots = [] ∧ h.backlog.objects.stack = [] := by
  cases begun with
  | each _ two => omega
  | once begun mutated =>
  cases begun with
  | once _ bad => exact bad.elim
  | each begun _ _ =>
  obtain ⟨h₁, full, traced⟩ := begun.traced
  obtain rfl := Heap.mutatorsRelease_ok mutated
  exact ⟨traced.engaged quiet, traced.spent.roots, traced.spent.stack⟩

/-- A worker about to start a phase finds its collector in the state that the phase asks for. -/
theorem Carries.due (carries : Carries 0 h₀ cs₀ pieces₀ known c h pieces k) (quiet : Quiet h₀ cs₀ pieces₀)
    (inside : i < c.workers.size) (starting : c.workers[i].activity = .starting) : c.workers[i].collector.Due k := by
  have mine : c.workers[i].collector ∈ Team.collectors c.team :=
    mem_map_of_mem (Array.mem_toList_iff.mpr (Array.getElem_mem inside))
  have unended : c.workers[i].hasEnded c.rendezvous.current = false := not_ended_of_starting starting
  cases carries.round with
  | once _ begun => exact begun.due quiet _ mine
  | each two begun length progress =>
    have small := length ▸ inside
    rw [(progress i inside small).2 ((ended_here inside).trans unended)]
    exact begun.due quiet _ (getElem_mem small)
  | closing _ _ _ labours _ =>
    exact (labours.states _ (Array.mem_toList_iff.mpr (Array.getElem_mem inside))).trans
      (Team.closureState_of_fresh unended (share_of_starting starting))
  | finished begun => exact begun.due quiet _ mine

/-- The first collector is about to do what a phase does once, so the heap is as the phase before has left it. -/
theorem Carries.begun (carries : Carries 0 h₀ cs₀ pieces₀ known c h pieces k) (single : k = 0 ∨ k = 7)
    (inside : i < c.workers.size) (starting : c.workers[i].activity = .starting)
    (primary : c.workers[i].collector.isPrimary = true) :
    Begun 0 h₀ cs₀ pieces₀ known k h (Team.collectors c.team) pieces := by
  rw [Collector.isPrimary, carries.numbered _ inside] at primary
  obtain rfl := beq_iff_eq.mp primary
  cases carries.round with
  | once _ begun _ unended =>
    rw [unended ((ended_here inside).trans (not_ended_of_starting starting))]
    exact begun
  | each two => omega
  | closing => omega
  | finished => omega

end Crew

end TracingHeap
