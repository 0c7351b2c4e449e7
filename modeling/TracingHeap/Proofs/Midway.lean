import TracingHeap.Proofs.Outsets

/-! The middle of a collection: the closure is over, and nothing has been released. Every collection that completes
passes through such a state, and what happens before it and after it can be looked at by itself. -/

namespace TracingHeap

open List Memory Work

/-- The collector has ended the closure, and has not started to release anything. -/
def Worker.HasTraced (w : Worker) : Prop :=
  w.phases = phasesFrom 4 ∧ (∃ turn, w.activity = .waiting turn) ∨ w.phases = phasesFrom 5 ∧ w.activity = .starting

namespace Crew

/-- The crew is between the closure and the release. -/
def HasTraced (c : Crew) : Prop := ∀ w ∈ c.workers, w.HasTraced

variable {k₀ k : Nat} {h₀ h h' : Heap} {cs₀ cs cs' : List Collector} {pieces₀ known pieces pieces' : List Piece} {c c' : Crew}

theorem phasesFrom_inj {j k : Nat} (small : j ≤ 8) (small' : k ≤ 8) (same : phasesFrom j = phasesFrom k) : j = k := by
  have lengths := congrArg List.length same
  simp only [phasesFrom, length_drop, show collectionPhases.length = 8 from rfl] at lengths
  omega

/-- No phase comes before the one that the crew set out from. -/
theorem Begun.le (begun : Begun k₀ h₀ cs₀ pieces₀ known k h cs pieces) : k₀ ≤ k := by
  induction begun with
  | start => exact Nat.le_refl _
  | once _ _ ih => omega
  | each _ _ _ ih => omega
  | closed _ _ _ _ _ _ _ ih => omega

/-- A crew that has traced is at the start of the release. -/
theorem Rallied.of_traced (rallied : c.Rallied k) (traced : c.HasTraced) : k = 5 ∧ c.Fresh := by
  have all_late : ∀ w ∈ c.workers, k = 4 ∧ w.hasEnded c.rendezvous.current = true ∨
      k = 5 ∧ w.hasEnded c.rendezvous.current = false ∧ w.share? = none := by
    intro w member
    cases rallied.stands w member with
    | late before most waiting phases =>
      rcases traced w member with ⟨here, -⟩ | ⟨-, starting⟩
      · have := phasesFrom_inj (by omega) (by omega) (phases.symm.trans here)
        exact .inr ⟨by omega, not_ended_of_late waiting, share_of_waiting waiting⟩
      · rw [waiting] at starting
        cases starting
    | starting more starting phases =>
      rcases traced w member with ⟨-, turn, waiting⟩ | ⟨here, -⟩
      · rw [starting] at waiting
        cases waiting
      · exact .inr ⟨phasesFrom_inj (by omega) (by omega) (phases.symm.trans here), not_ended_of_starting starting,
          share_of_starting starting⟩
    | closing share phase closing phases =>
      rcases traced w member with ⟨-, turn, waiting⟩ | ⟨-, starting⟩
      · rw [closing] at waiting
        cases waiting
      · rw [closing] at starting
        cases starting
    | ended more waiting phases =>
      rcases traced w member with ⟨here, -⟩ | ⟨-, starting⟩
      · exact .inl ⟨phasesFrom_inj (by omega) (by omega) (phases.symm.trans here), ended_of_waiting waiting⟩
      · rw [waiting] at starting
        cases starting
    | finished ended finished =>
      rcases traced w member with ⟨-, turn, waiting⟩ | ⟨-, starting⟩
      · rw [finished] at waiting
        cases waiting
      · rw [finished] at starting
        cases starting
  by_cases five : k = 5
  · refine ⟨five, fun w member => ?_⟩
    rcases all_late w member with ⟨four, -⟩ | ⟨-, fresh⟩
    · omega
    · exact fresh
  · -- if all had ended the phase, the rendezvous would have turned
    have everyone : c.workers.countP (·.hasEnded c.rendezvous.current) = c.workers.size :=
      Array.countP_eq_size.mpr fun w member => by
        rcases all_late w member with ⟨-, ended⟩ | ⟨bad, -⟩
        · exact ended
        · exact absurd bad five
    have going := rallied.going
    rw [rallied.count, everyone, rallied.size] at going
    exact absurd going (Nat.lt_irrefl _)

/-- Nobody has started to release anything when all have just ended the closure. -/
theorem Rallied.traced (rallied : c.Rallied 5) (fresh : c.Fresh) : c.HasTraced := by
  intro w member
  cases rallied.stands w member with
  | late before most waiting phases => exact .inl ⟨phases, _, waiting⟩
  | starting more starting phases => exact .inr ⟨phases, starting⟩
  | closing share phase => omega
  | ended more waiting phases =>
    have unended := (fresh w member).1
    rw [ended_of_waiting waiting] at unended
    cases unended
  | finished ended => omega

/-- A crew at the start of a collection. -/
theorem Carries.of_collectors {collectors : Array Collector} (some : 0 < collectors.size)
    (numbered : ∀ i, (inside : i < collectors.size) → collectors[i].ordinal = i) :
    Carries 0 h collectors.toList pieces known (ofCollectors collectors) h pieces 0 := by
  have fresh : (ofCollectors collectors).Fresh := fun w member => by
    obtain ⟨_, -, rfl⟩ := Array.mem_map.mp member
    exact ⟨rfl, rfl⟩
  have same : Team.collectors (ofCollectors collectors).team = collectors.toList := by
    simp only [team, ofCollectors, Array.toList_map, map_map]
    exact map_id _
  refine ⟨⟨?_, fun w member => ?_, ?_, some⟩, fun i inside => ?_, ?_⟩
  · exact Array.size_map
  · obtain ⟨_, -, rfl⟩ := Array.mem_map.mp member
    exact .starting (by omega) rfl rfl
  · refine (Array.countP_eq_zero.mpr fun w member => ?_).symm
    rw [(fresh w member).1]
    exact Bool.false_ne_true
  · simp only [ofCollectors, Array.getElem_map]
    exact numbered i (by simpa [ofCollectors] using inside)
  · exact .enter (same ▸ .start) (by omega) (fun bad => by omega) fresh

/-- As long as nobody has started a phase, everything is as the phase before it left it. -/
theorem Carries.entered (carries : Carries k₀ h₀ cs₀ pieces₀ known c h pieces k) (fresh : c.Fresh) :
    Begun k₀ h₀ cs₀ pieces₀ known k h (Team.collectors c.team) pieces := by
  have unended : ∀ i, (inside : i < c.workers.size) → c.ended i = false := fun i inside =>
    (ended_here inside).trans (fresh _ (Array.getElem_mem inside)).1
  have some : 0 < c.workers.size := carries.rallied.size ▸ Nat.zero_lt_of_lt carries.rallied.going
  cases carries.round with
  | once _ begun _ same =>
    rw [same (unended 0 some)]
    exact begun
  | each two begun length progress =>
    rename_i cs
    suffices same : Team.collectors c.team = cs from same ▸ begun
    refine ext_getElem (by rw [length_map, Array.length_toList, length]) fun i small small' => ?_
    have inside : i < c.workers.size := length ▸ small'
    rw [getElem_map, Array.getElem_toList]
    exact (progress i inside small').2 (unended i inside)
  | closing _ _ _ _ untouched => exact untouched fresh
  | finished begun => exact begun

/-- A crew that has traced, and what it set out from. -/
theorem Carries.middle (carries : Carries k₀ h₀ cs₀ pieces₀ known c h pieces k) (traced : c.HasTraced) :
    Begun k₀ h₀ cs₀ pieces₀ known 5 h (Team.collectors c.team) pieces ∧
      Carries 5 h (Team.collectors c.team) pieces known c h pieces 5 := by
  obtain ⟨rfl, fresh⟩ := carries.rallied.of_traced traced
  exact ⟨carries.entered fresh, carries.rallied, carries.numbered, .enter .start (by omega) (fun bad => by omega) fresh⟩

/-- Every collection that gets past the closure was between the closure and the release. -/
theorem Carries.passes {s t : Crew × Heap} (run : Run s t)
    (opens : ∀ h cs pieces, Begun k₀ h₀ cs₀ pieces₀ known 4 h cs pieces → Opens known h cs pieces)
    (carries : Carries k₀ h₀ cs₀ pieces₀ known s.1 s.2 pieces k) (early : k ≤ 4) :
    ∃ k' pieces', Carries k₀ h₀ cs₀ pieces₀ known t.1 t.2 pieces' k' ∧
      (4 < k' → ∃ c h, c.HasTraced ∧ Run s (c, h) ∧ Run (c, h) t) := by
  induction run with
  | refl => exact ⟨k, pieces, carries, fun late => by omega⟩
  | step before took calm ih =>
    obtain ⟨k₁, pieces₁, middle, passed⟩ := ih
    obtain ⟨-, k', pieces', follows, -, next⟩ := middle.step opens took calm
    refine ⟨k', pieces', next, fun late => ?_⟩
    by_cases later : 4 < k₁
    · obtain ⟨c, h, traced, first, second⟩ := passed later
      exact ⟨c, h, traced, first, second.step took calm⟩
    · rcases follows with rfl | ⟨rfl, fresh⟩
      · exact absurd late later
      · obtain rfl : k₁ = 4 := by omega
        exact ⟨_, _, next.rallied.traced fresh, before.step took calm, .refl _⟩

/-- When everybody has gone through every phase, it is past the last one. -/
theorem Carries.last (carries : Carries k₀ h₀ cs₀ pieces₀ known c h pieces k) (complete : c.isOver = true) : k = 8 := by
  have some : 0 < c.workers.size := carries.rallied.size ▸ Nat.zero_lt_of_lt carries.rallied.going
  have done := Array.all_eq_true.mp complete 0 some
  cases carries.rallied.stands c.workers[0] (Array.getElem_mem some) with
  | late _ _ waiting => rw [waiting] at done; cases done
  | starting _ starting => rw [starting] at done; cases done
  | closing _ _ closing => rw [closing] at done; cases done
  | ended _ waiting => rw [waiting] at done; cases done
  | finished ended => exact ended

theorem Carries.to_end (carries : Carries k₀ h₀ cs₀ pieces₀ known c h pieces k) (complete : c.isOver = true) :
    Begun k₀ h₀ cs₀ pieces₀ known 8 h (Team.collectors c.team) pieces := by
  have last := carries.last complete
  subst last
  cases carries.round with
  | once single => omega
  | each two => omega
  | finished begun => exact begun

/-- The phases after a closure: each collector is released, then the mutators, then the spaces. -/
theorem Begun.released (begun : Begun 5 h₀ cs₀ pieces₀ known 8 h cs pieces) : Forall₂ (Turned 5 h₀) cs₀ cs ∧
    ∃ h₁, Heap.mutatorPhase .release h₀ = .ok () h₁ ∧ Heap.release h₁ = .ok () h := by
  cases begun with
  | each _ two => omega
  | once begun released =>
  cases begun with
  | each _ two => omega
  | once begun mutated =>
  cases begun with
  | once _ bad => exact bad.elim
  | each begun _ turned =>
  cases begun with
  | once _ bad => exact bad.elim
  | each _ two => omega
  | closed early => exact absurd early.le (by omega)
  | start => exact ⟨turned, _, mutated, released⟩

end Crew

end TracingHeap
