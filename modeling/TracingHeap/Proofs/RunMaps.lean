import TracingHeap.Pages.Runs

/-! Run maps: free and live runs never overlap, and all of them lie below the high-water mark. Taking a
run, giving one back and joining it with its neighbours keep this. -/

namespace TracingHeap.Pages

namespace Run

/-- The runs share no page. -/
def Apart (r s : Run) : Prop := r.first + r.pages ≤ s.first ∨ s.first + s.pages ≤ r.first

theorem Apart.symm {r s : Run} (h : Apart r s) : Apart s r := Or.symm h

/-- A run of at least one page that ends at or below a mark. -/
def Proper (mark : Nat) (r : Run) : Prop := 0 < r.pages ∧ r.first + r.pages ≤ mark

end Run

namespace RunMap

open List

/-- No two runs overlap, and none is empty or reaches past the high-water mark, which itself stays within
the limit. -/
structure Sound (m : RunMap) (limit : Nat) : Prop where
  apart : (m.live ++ m.free).Pairwise Run.Apart
  proper : ∀ r ∈ m.live ++ m.free, r.Proper m.highWater
  bounded : m.highWater ≤ limit

theorem empty_sound (limit : Nat) : empty.Sound limit := ⟨.nil, by simp [empty], Nat.zero_le _⟩

variable {m m' : RunMap} {limit : Nat} {run : Run} {runs : List Run}

/-- Soundness does not depend on the order of the runs. -/
theorem Sound.of_perm (sound : m.Sound limit) (same : m'.live ++ m'.free ~ m.live ++ m.free)
    (mark : m'.highWater = m.highWater) : m'.Sound limit where
  apart := same.symm.pairwise sound.apart fun h => h.symm
  proper r member := mark ▸ sound.proper r (same.mem_iff.mp member)
  bounded := mark ▸ sound.bounded

theorem without_eq (first : Nat) (differ : ∀ r ∈ runs, r.first ≠ first) : without first runs = runs := by
  rw [without, filter_eq_self]
  intro r member
  simpa using differ r member

theorem perm_without (apart : runs.Pairwise Run.Apart) (proper : ∀ r ∈ runs, 0 < r.pages)
    (member : run ∈ runs) : runs ~ run :: without run.first runs := by
  induction runs with
  | nil => cases member
  | cons head rest ih =>
    have others := pairwise_cons.mp apart
    have rest_proper : ∀ r ∈ rest, 0 < r.pages := fun r inside => proper r (mem_cons_of_mem _ inside)
    rcases mem_cons.mp member with rfl | inside
    · have differ : ∀ r ∈ rest, r.first ≠ run.first := by
        intro r inside same
        have apart := others.1 r inside
        have positive := rest_proper r inside
        have positive' := proper run mem_cons_self
        unfold Run.Apart at apart
        omega
      have rest_same := without_eq _ differ
      rw [without] at rest_same
      simp [without, rest_same]
    · have differ : head.first ≠ run.first := by
        intro same
        have apart := others.1 run inside
        have positive := rest_proper run inside
        have positive' := proper head mem_cons_self
        unfold Run.Apart at apart
        omega
      have step := ih others.2 rest_proper inside
      have kept : without run.first (head :: rest) = head :: without run.first rest := by
        simp [without, differ]
      rw [kept]
      exact (step.cons head).trans (.swap ..)

theorem perm_insert (differ : ∀ r ∈ runs, r.first ≠ run.first) : insert run runs ~ run :: runs := by
  induction runs with
  | nil => exact .refl _
  | cons head rest ih =>
    have other := differ head mem_cons_self
    unfold insert
    split
    · exact .refl _
    · split
      · rename_i same
        exact absurd same.symm other
      · exact ((ih fun r inside => differ r (mem_cons_of_mem _ inside)).cons head).trans (.swap ..)

theorem first_ne_of_apart {r s : Run} (apart : r.Apart s) (positive : 0 < r.pages) (positive' : 0 < s.pages) :
    s.first ≠ r.first := by
  unfold Run.Apart at apart
  omega

/-- A live run can be taken out of the list of live runs. -/
theorem Sound.live_perm (sound : m.Sound limit) (member : run ∈ m.live) :
    m.live ~ run :: (m.forget run.first).live :=
  perm_without (pairwise_append.mp sound.apart).1
    (fun r inside => (sound.proper r (mem_append_left _ inside)).1) member

private theorem free_perm (sound : m.Sound limit) (member : run ∈ m.free) :
    m.free ~ run :: without run.first m.free :=
  perm_without (pairwise_append.mp sound.apart).2.1
    (fun r inside => (sound.proper r (mem_append_right _ inside)).1) member

/-- One run in front of all the others: what it takes for a map to be sound. -/
theorem sound_cons (same : m'.live ++ m'.free ~ run :: runs) (apart : runs.Pairwise Run.Apart)
    (fresh : ∀ r ∈ runs, run.Apart r) (proper : ∀ r ∈ run :: runs, r.Proper m'.highWater)
    (bounded : m'.highWater ≤ limit) : m'.Sound limit where
  apart := same.symm.pairwise (pairwise_cons.mpr ⟨fresh, apart⟩) fun h => h.symm
  proper r member := proper r (same.mem_iff.mp member)
  bounded := bounded

/-- A run that is handed out was not live before, and fits below the limit. -/
theorem take_sound {pages first : Nat} (sound : m.Sound limit) (positive : 0 < pages)
    (taken : m.take pages limit = some (first, m')) :
    m'.Sound limit ∧ m'.live = ⟨first, pages⟩ :: m.live := by
  unfold take at taken
  split at taken
  · rename_i run found
    have member := mem_of_find?_eq_some found
    have room : pages ≤ run.pages := by simpa using find?_some found
    simp only [Option.some.injEq, Prod.mk.injEq] at taken
    obtain ⟨rfl, rfl⟩ := taken
    have split := free_perm sound member
    have all : m.live ++ m.free ~ run :: (m.live ++ without run.first m.free) :=
      (split.append_left _).trans perm_middle
    have apart := pairwise_cons.mp (all.pairwise sound.apart fun h => h.symm)
    have proper := fun r inside => sound.proper r (all.mem_iff.mpr inside)
    have run_proper := proper run mem_cons_self
    have differ : ∀ r ∈ m.live ++ without run.first m.free, r.first ≠ run.first := fun r inside =>
      first_ne_of_apart (apart.1 r inside) run_proper.1 (proper r (mem_cons_of_mem _ inside)).1
    have live_same : without run.first m.live = m.live :=
      without_eq _ fun r inside => differ r (mem_append_left _ inside)
    refine ⟨?_, by rw [live_same]⟩
    have handed : ∀ r : Run, run.Apart r → Run.Apart ⟨run.first, pages⟩ r := by
      intro r apart
      unfold Run.Apart at *
      simp only
      omega
    unfold cut
    by_cases rest : pages < run.pages
    · have remainder_differ : ∀ r ∈ without run.first m.free, r.first ≠ run.first + pages := by
        intro r inside same
        have apart := apart.1 r (mem_append_right _ inside)
        have positive := (proper r (mem_cons_of_mem _ (mem_append_right _ inside))).1
        unfold Run.Apart at apart
        omega
      have remainder := @perm_insert ⟨run.first + pages, run.pages - pages⟩ _ remainder_differ
      refine @sound_cons _ _ ⟨run.first, pages⟩
        (⟨run.first + pages, run.pages - pages⟩ :: (m.live ++ without run.first m.free))
        ?_ ?_ ?_ ?_ sound.bounded
      · simp only [live_same, rest, ↓reduceIte, cons_append]
        exact ((remainder.append_left _).trans perm_middle).cons _
      · refine pairwise_cons.mpr ⟨?_, apart.2⟩
        intro r inside
        have apart := apart.1 r inside
        unfold Run.Apart at *
        simp only
        omega
      · intro r inside
        rcases mem_cons.mp inside with rfl | inside
        · exact .inl (Nat.le_refl _)
        · exact handed r (apart.1 r inside)
      · intro r inside
        unfold Run.Proper at *
        rcases mem_cons.mp inside with rfl | inside
        · simp only
          omega
        · rcases mem_cons.mp inside with rfl | inside
          · simp only
            omega
          · exact proper r (mem_cons_of_mem _ inside)
    · refine @sound_cons _ _ ⟨run.first, pages⟩ (m.live ++ without run.first m.free)
        ?_ apart.2 ?_ ?_ sound.bounded
      · simp only [live_same, rest, ↓reduceIte, cons_append]
        exact .refl _
      · exact fun r inside => handed r (apart.1 r inside)
      · intro r inside
        unfold Run.Proper at *
        rcases mem_cons.mp inside with rfl | inside
        · simp only
          omega
        · exact proper r (mem_cons_of_mem _ inside)
  · split at taken
    · rename_i fits
      simp only [Option.some.injEq, Prod.mk.injEq] at taken
      obtain ⟨rfl, rfl⟩ := taken
      have live_same : without m.highWater m.live = m.live := by
        apply without_eq
        intro r inside
        have proper := sound.proper r (mem_append_left _ inside)
        unfold Run.Proper at proper
        omega
      refine ⟨@sound_cons _ _ ⟨m.highWater, pages⟩ (m.live ++ m.free) ?_ sound.apart ?_ ?_ fits, ?_⟩
      · simp only [live_same, cons_append]
        exact .refl _
      · exact fun r inside => .inr (sound.proper r inside).2
      · intro r inside
        unfold Run.Proper
        rcases mem_cons.mp inside with rfl | inside
        · exact ⟨positive, Nat.le_refl _⟩
        · have proper := sound.proper r inside
          exact ⟨proper.1, Nat.le_trans proper.2 (Nat.le_add_right ..)⟩
      · simp only [live_same]
    · cases taken

/-- A run is joined only with a free run next to it. -/
private theorem joinBelow_perm {run' : Run} {free free' : List Run} (apart : free.Pairwise Run.Apart)
    (proper : ∀ r ∈ free, 0 < r.pages) (joined : joinBelow run free = (run', free')) :
    run' = run ∧ free' = free ∨
      ∃ below, free ~ below :: free' ∧ below.first + below.pages = run.first ∧
        run' = ⟨below.first, run.pages + below.pages⟩ := by
  unfold joinBelow at joined
  split at joined
  · rename_i below found
    have member := (mem_filter.mp (mem_of_getLast? found)).1
    split at joined
    · rename_i touch
      cases joined
      exact .inr ⟨below, perm_without apart proper member, touch, rfl⟩
    · cases joined
      exact .inl ⟨rfl, rfl⟩
  · cases joined
    exact .inl ⟨rfl, rfl⟩

private theorem joinAbove_perm {run' : Run} {free free' : List Run} (apart : free.Pairwise Run.Apart)
    (proper : ∀ r ∈ free, 0 < r.pages) (joined : joinAbove run free = (run', free')) :
    (run' = run ∧ free' = free ∧ ∀ r ∈ free, r.first ≠ run.first + run.pages) ∨
      ∃ above, free ~ above :: free' ∧ above.first = run.first + run.pages ∧
        run' = ⟨run.first, run.pages + above.pages⟩ := by
  unfold joinAbove at joined
  split at joined
  · rename_i above found
    have member := mem_of_find?_eq_some found
    have touch : above.first = run.first + run.pages := by simpa using find?_some found
    cases joined
    exact .inr ⟨above, perm_without apart proper member, touch, rfl⟩
  · rename_i none
    cases joined
    exact .inl ⟨rfl, rfl, fun r member => by simpa using find?_eq_none.mp none r member⟩

/-- A run that comes back may be joined with neighbours, but never overlaps what is live or free. A run
of no pages is always joined. -/
theorem giveBack_sound (sound : m.Sound limit) (fresh : ∀ r ∈ m.live ++ m.free, run.Apart r)
    (below : run.first + run.pages ≤ m.highWater)
    (some : 0 < run.pages ∨ ∃ r ∈ m.free, r.first = run.first + run.pages) :
    (m.giveBack run).Sound limit ∧ (m.giveBack run).live = m.live := by
  unfold giveBack
  obtain ⟨run₁, free₁, joined⟩ : ∃ r f, joinBelow run m.free = (r, f) := ⟨_, _, rfl⟩
  obtain ⟨run₂, free₂, joined'⟩ : ∃ r f, joinAbove run₁ free₁ = (r, f) := ⟨_, _, rfl⟩
  simp only [joined, joined']
  have free_proper : ∀ r ∈ m.free, 0 < r.pages := fun r inside =>
    (sound.proper r (mem_append_right _ inside)).1
  -- Joining keeps three facts: the run is below the mark, apart from the rest, and the rest is sound.
  have first : (m.live ++ free₁).Pairwise Run.Apart ∧ (∀ r ∈ m.live ++ free₁, r.Proper m.highWater) ∧
      (∀ r ∈ m.live ++ free₁, run₁.Apart r) ∧ run₁.first + run₁.pages ≤ m.highWater ∧
      (0 < run₁.pages ∨ ∃ r ∈ free₁, r.first = run₁.first + run₁.pages) := by
    rcases joinBelow_perm (pairwise_append.mp sound.apart).2.1 free_proper joined with
      ⟨rfl, rfl⟩ | ⟨b, split, touch, rfl⟩
    · exact ⟨sound.apart, sound.proper, fresh, below, some⟩
    · have all := (split.append_left m.live).trans perm_middle
      have apart := pairwise_cons.mp (all.pairwise sound.apart fun h => h.symm)
      have proper_all := fun r inside => sound.proper r (all.mem_iff.mpr inside)
      refine ⟨apart.2, fun r inside => proper_all r (mem_cons_of_mem _ inside), ?_, ?_⟩
      · intro r inside
        have one := apart.1 r inside
        have two := fresh r (all.mem_iff.mpr (mem_cons_of_mem _ inside))
        have positive := (proper_all r (mem_cons_of_mem _ inside)).1
        unfold Run.Apart Run.Proper at *
        simp only
        omega
      · have b_proper := proper_all b mem_cons_self
        unfold Run.Proper at b_proper
        simp only
        omega
  obtain ⟨apart₁, proper₁, fresh₁, below₁, some₁⟩ := first
  have second : (m.live ++ free₂).Pairwise Run.Apart ∧ (∀ r ∈ m.live ++ free₂, r.Proper m.highWater) ∧
      (∀ r ∈ m.live ++ free₂, run₂.Apart r) ∧ run₂.Proper m.highWater := by
    rcases joinAbove_perm (pairwise_append.mp apart₁).2.1
        (fun r inside => (proper₁ r (mem_append_right _ inside)).1) joined' with
      ⟨rfl, rfl, alone⟩ | ⟨a, split, touch, rfl⟩
    · refine ⟨apart₁, proper₁, fresh₁, some₁.resolve_right ?_, below₁⟩
      rintro ⟨r, inside, next⟩
      exact alone r inside next
    · have all := (split.append_left m.live).trans perm_middle
      have apart := pairwise_cons.mp (all.pairwise apart₁ fun h => h.symm)
      have proper_all := fun r inside => proper₁ r (all.mem_iff.mpr inside)
      refine ⟨apart.2, fun r inside => proper_all r (mem_cons_of_mem _ inside), ?_, ?_⟩
      · intro r inside
        have one := apart.1 r inside
        have two := fresh₁ r (all.mem_iff.mpr (mem_cons_of_mem _ inside))
        have positive := (proper_all r (mem_cons_of_mem _ inside)).1
        unfold Run.Apart Run.Proper at *
        simp only
        omega
      · have a_proper := proper_all a mem_cons_self
        unfold Run.Proper at *
        simp only
        omega
  obtain ⟨apart₂, proper₂, fresh₂, run_proper₂⟩ := second
  have bounded := sound.bounded
  split
  · rename_i top
    refine ⟨⟨apart₂, ?_, ?_⟩, rfl⟩
    · intro r inside
      have apart := fresh₂ r inside
      have proper := proper₂ r inside
      unfold Run.Apart Run.Proper at *
      simp only
      omega
    · unfold Run.Proper at run_proper₂
      simp only
      omega
  · have differ : ∀ r ∈ free₂, r.first ≠ run₂.first := fun r inside =>
      first_ne_of_apart (fresh₂ r (mem_append_right _ inside)) run_proper₂.1
        (proper₂ r (mem_append_right _ inside)).1
    refine ⟨@sound_cons _ _ run₂ (m.live ++ free₂) ?_ apart₂ fresh₂ ?_ bounded, rfl⟩
    · exact ((perm_insert differ).append_left _).trans perm_middle
    · intro r inside
      rcases mem_cons.mp inside with rfl | inside
      · exact run_proper₂
      · exact proper₂ r inside

/-- A live run that is taken back is no longer live, and all others are. -/
theorem release_sound (sound : m.Sound limit) (member : run ∈ m.live) :
    ((m.forget run.first).giveBack run).Sound limit ∧
      m.live ~ run :: ((m.forget run.first).giveBack run).live := by
  have split := sound.live_perm member
  have all : m.live ++ m.free ~ run :: ((m.forget run.first).live ++ m.free) := by
    simpa using split.append_right m.free
  have apart := pairwise_cons.mp (all.pairwise sound.apart fun h => h.symm)
  have proper := fun r inside => sound.proper r (all.mem_iff.mpr inside)
  have rest : (m.forget run.first).Sound limit :=
    ⟨apart.2, fun r inside => proper r (mem_cons_of_mem _ inside), sound.bounded⟩
  have run_proper := proper run mem_cons_self
  obtain ⟨result, live⟩ := giveBack_sound rest apart.1 run_proper.2 (.inl run_proper.1)
  exact ⟨result, live ▸ split⟩

/-- A run of no pages that comes back at once changes nothing about what is live. -/
theorem take_nothing {first : Nat} (sound : m.Sound limit) (taken : m.take 0 limit = some (first, m')) :
    ((m'.forget first).giveBack ⟨first, 0⟩).Sound limit ∧ ((m'.forget first).giveBack ⟨first, 0⟩).live = m.live := by
  unfold take at taken
  have front : ∀ live, without first (⟨first, 0⟩ :: live) = without first live := fun live => by simp [without]
  split at taken
  · rename_i run found
    have member := mem_of_find?_eq_some found
    simp only [Option.some.injEq, Prod.mk.injEq] at taken
    obtain ⟨rfl, rfl⟩ := taken
    have split := free_perm sound member
    have all : m.live ++ m.free ~ run :: (m.live ++ without run.first m.free) :=
      (split.append_left _).trans perm_middle
    have apart := pairwise_cons.mp (all.pairwise sound.apart fun h => h.symm)
    have proper := fun r inside => sound.proper r (all.mem_iff.mpr inside)
    have run_proper := proper run mem_cons_self
    have differ : ∀ r ∈ m.live ++ without run.first m.free, r.first ≠ run.first := fun r inside =>
      first_ne_of_apart (apart.1 r inside) run_proper.1 (proper r (mem_cons_of_mem _ inside)).1
    have live_same : without run.first m.live = m.live :=
      without_eq _ fun r inside => differ r (mem_append_left _ inside)
    have free_same : cut run 0 m.free ~ m.free := by
      unfold cut
      rw [if_pos run_proper.1]
      exact (@perm_insert run _ fun r inside => differ r (mem_append_right _ inside)).trans split.symm
    have sound' : Sound { m with free := cut run 0 m.free, live := m.live } limit :=
      sound.of_perm (free_same.append_left _) rfl
    have result := @giveBack_sound _ _ ⟨run.first, 0⟩ sound' ?_ ?_ (.inr ⟨run, free_same.mem_iff.mpr member, rfl⟩)
    · simpa only [forget, front, live_same] using result
    · intro r inside
      rcases mem_cons.mp (all.mem_iff.mp (((free_same.append_left _).mem_iff).mp inside)) with rfl | inside
      · exact .inl (Nat.le_refl _)
      · have apart := apart.1 r inside
        unfold Run.Apart at *
        simp only
        omega
    · unfold Run.Proper at run_proper
      simp only
      omega
  · rename_i none
    have empty : m.free = [] := by
      cases free : m.free with
      | nil => rfl
      | cons run rest => simp [free] at none
    split at taken
    · simp only [Option.some.injEq, Prod.mk.injEq] at taken
      obtain ⟨rfl, rfl⟩ := taken
      have live_same : without m.highWater m.live = m.live := by
        apply without_eq
        intro r inside
        have proper := sound.proper r (mem_append_left _ inside)
        unfold Run.Proper at proper
        omega
      have same : (forget { m with live := ⟨m.highWater, 0⟩ :: without m.highWater m.live, highWater := m.highWater + 0 }
          m.highWater).giveBack ⟨m.highWater, 0⟩ = m := by
        simp only [forget, front, live_same, giveBack, joinBelow, joinAbove, startingAt?, empty, filter_nil,
          getLast?_nil, find?_nil, Nat.add_zero, ↓reduceIte]
        rw [← empty]
      rw [same]
      exact ⟨sound, rfl⟩
    · cases taken

theorem liveAt_ok {first : Nat} (found : m.liveAt? first = some run) : run ∈ m.live ∧ run.first = first :=
  ⟨mem_of_find?_eq_some found, by simpa using find?_some found⟩

end RunMap

end TracingHeap.Pages
