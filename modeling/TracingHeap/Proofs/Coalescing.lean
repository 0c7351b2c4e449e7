import TracingHeap.Proofs.RunMaps

/-! Free runs stay coalesced: they are in the order of their pages with at least one page that is not free
between any two, and none of them reaches the high-water mark. So the free runs are determined by the free
pages, and a run that is taken and given back at once leaves no trace. -/

namespace TracingHeap.Pages.RunMap
open List

/-- No two free runs touch, none is empty, and none reaches the high-water mark. -/
structure Coalesced (m : RunMap) : Prop where
  spaced : m.free.Pairwise fun r s => r.first + r.pages < s.first
  low : ∀ r ∈ m.free, 0 < r.pages ∧ r.first + r.pages < m.highWater

/-- The free runs are split by a run: some end before it and the others start after it. -/
structure Parted (free lows highs : List Run) (run : Run) : Prop where
  whole : free = lows ++ highs
  low : ∀ r ∈ lows, 0 < r.pages ∧ r.first + r.pages ≤ run.first
  high : ∀ r ∈ highs, run.first + run.pages ≤ r.first

variable {m m' : RunMap} {limit : Nat} {run : Run} {free lows highs : List Run}

theorem empty_coalesced : empty.Coalesced := ⟨.nil, nofun⟩

/-- A run that meets no free one has its place between them. -/
theorem parted_of_apart (spaced : free.Pairwise fun r s => r.first + r.pages < s.first) (positive : ∀ r ∈ free, 0 < r.pages)
    (fresh : ∀ r ∈ free, run.Apart r) : ∃ lows highs, Parted free lows highs run := by
  induction free with
  | nil => exact ⟨[], [], rfl, nofun, nofun⟩
  | cons head rest ih =>
    have order := pairwise_cons.mp spaced
    rcases fresh head mem_cons_self with before | after
    · refine ⟨[], head :: rest, rfl, nofun, fun r inside => ?_⟩
      rcases mem_cons.mp inside with rfl | inside
      · exact before
      · have := order.1 r inside
        omega
    · obtain ⟨lows, highs, whole, low, high⟩ := ih order.2 (fun r inside => positive r (mem_cons_of_mem _ inside))
        (fun r inside => fresh r (mem_cons_of_mem _ inside))
      refine ⟨head :: lows, highs, by rw [whole, cons_append], fun r inside => ?_, high⟩
      rcases mem_cons.mp inside with rfl | inside
      · exact ⟨positive r mem_cons_self, after⟩
      · exact low r inside

theorem Coalesced.parted (coalesced : m.Coalesced) (fresh : ∀ r ∈ m.free, run.Apart r) :
    ∃ lows highs, Parted m.free lows highs run :=
  parted_of_apart coalesced.spaced (fun r inside => (coalesced.low r inside).1) fresh

/-- One run out of the middle of a list. -/
theorem without_middle (before : ∀ r ∈ lows, r.first < run.first) (after : ∀ r ∈ highs, run.first < r.first) :
    without run.first (lows ++ run :: highs) = lows ++ highs := by
  have left : without run.first lows = lows := without_eq _ fun r inside => Nat.ne_of_lt (before r inside)
  have right : without run.first highs = highs := without_eq _ fun r inside => Nat.ne_of_gt (after r inside)
  unfold without at *
  rw [filter_append, filter_cons_of_neg (by simp), left, right]

theorem insert_parted (low : ∀ r ∈ lows, r.first < run.first) (high : ∀ r ∈ highs, run.first < r.first) :
    insert run (lows ++ highs) = lows ++ run :: highs := by
  induction lows with
  | nil =>
    cases highs with
    | nil => rfl
    | cons head rest => simp only [nil_append, insert, high head mem_cons_self, ↓reduceIte]
  | cons head rest ih =>
    have below := low head mem_cons_self
    rw [cons_append, insert, if_neg (by omega), if_neg (by omega), ih fun r inside => low r (mem_cons_of_mem _ inside),
      cons_append]

/-- What joining a run with the free run below it comes to. -/
inductive JoinsBelow (lows : List Run) (run : Run) : Run → List Run → Prop where
  | alone (gap : ∀ r ∈ lows, r.first + r.pages < run.first) : JoinsBelow lows run run lows
  | joined (below : Run) (rest : List Run) (last : lows = rest ++ [below]) (touch : below.first + below.pages = run.first) :
    JoinsBelow lows run ⟨below.first, run.pages + below.pages⟩ rest

/-- What joining a run with the free run above it comes to. -/
inductive JoinsAbove (highs : List Run) (run : Run) : Run → List Run → Prop where
  | alone (gap : ∀ r ∈ highs, run.first + run.pages < r.first) : JoinsAbove highs run run highs
  | joined (above : Run) (rest : List Run) (head : highs = above :: rest) (touch : above.first = run.first + run.pages) :
    JoinsAbove highs run ⟨run.first, run.pages + above.pages⟩ rest

theorem joinBelow_parted (parted : Parted free lows highs run)
    (spaced : free.Pairwise fun r s => r.first + r.pages < s.first) :
    ∃ run' lows', joinBelow run free = (run', lows' ++ highs) ∧ JoinsBelow lows run run' lows' := by
  obtain ⟨rfl, low, high⟩ := parted
  have below : (lows ++ highs).filter (·.first < run.first) = lows := by
    rw [filter_append, filter_eq_self.mpr, filter_eq_nil_iff.mpr, append_nil]
    · intro r inside
      have := high r inside
      simp only [decide_eq_true_eq, Nat.not_lt]
      omega
    · intro r inside
      have := low r inside
      simp only [decide_eq_true_eq]
      omega
  unfold joinBelow
  rw [below]
  rcases eq_nil_or_concat lows with rfl | ⟨rest, b, rfl⟩
  · exact ⟨run, [], rfl, .alone nofun⟩
  · have last : (rest.concat b).getLast? = some b := by simp
    simp only [last]
    rw [concat_eq_append] at low spaced last ⊢
    have parts := pairwise_append.mp (pairwise_append.mp spaced).1
    have before : ∀ r ∈ rest, r.first + r.pages < b.first := fun r inside => parts.2.2 r inside b mem_cons_self
    have after : ∀ r ∈ highs, b.first + b.pages < r.first := fun r inside =>
      (pairwise_append.mp spaced).2.2 b (by simp) r inside
    have small := (low b (by simp)).2
    split
    · rename_i touch
      refine ⟨_, rest, ?_, .joined b rest rfl touch⟩
      congr 1
      rw [append_assoc, cons_append, nil_append, without_middle]
      · intro r inside
        have := before r inside
        omega
      · intro r inside
        have := after r inside
        omega
    · rename_i apart
      refine ⟨run, rest ++ [b], rfl, .alone fun r inside => ?_⟩
      rcases mem_append.mp inside with inside | inside
      · have := before r inside
        omega
      · rw [mem_singleton.mp inside]
        omega

theorem joinAbove_parted (parted : Parted free lows highs run)
    (spaced : free.Pairwise fun r s => r.first + r.pages < s.first) :
    ∃ run' highs', joinAbove run free = (run', lows ++ highs') ∧ JoinsAbove highs run run' highs' := by
  obtain ⟨rfl, low, high⟩ := parted
  have absent : ∀ r ∈ lows, ¬ (r.first == run.first + run.pages) = true := by
    intro r inside
    have := low r inside
    simp only [beq_iff_eq]
    omega
  unfold joinAbove startingAt?
  rw [find?_append, find?_eq_none.mpr absent, Option.none_or]
  cases highs with
  | nil => exact ⟨run, [], rfl, .alone nofun⟩
  | cons head rest =>
    have after : ∀ r ∈ rest, head.first + head.pages < r.first := (pairwise_cons.mp (pairwise_append.mp spaced).2.1).1
    have start := high head mem_cons_self
    by_cases touch : head.first = run.first + run.pages
    · rw [find?_cons_of_pos (by simpa using touch)]
      refine ⟨_, rest, ?_, .joined head rest rfl touch⟩
      simp only
      congr 1
      rw [without_middle]
      · intro r inside
        have := low r inside
        omega
      · intro r inside
        have := after r inside
        omega
    · have none : (head :: rest).find? (·.first == run.first + run.pages) = none := by
        refine find?_eq_none.mpr fun r inside => ?_
        simp only [beq_iff_eq]
        rcases mem_cons.mp inside with rfl | inside
        · exact touch
        · have := after r inside
          omega
      rw [none]
      refine ⟨run, head :: rest, rfl, .alone fun r inside => ?_⟩
      rcases mem_cons.mp inside with rfl | inside
      · omega
      · have := after r inside
        omega

/-- A run that comes back stands between the free runs on its two sides, joined with those it touches. -/
theorem Coalesced.giveBack_eq (coalesced : m.Coalesced) (parted : Parted m.free lows highs run) :
    ∃ run₁ run₂ lows' highs', JoinsBelow lows run run₁ lows' ∧ JoinsAbove highs run₁ run₂ highs' ∧
      m.giveBack run =
        if run₂.first + run₂.pages = m.highWater then { m with free := lows' ++ highs', highWater := run₂.first }
        else { m with free := lows' ++ run₂ :: highs' } := by
  have spaced := coalesced.spaced
  obtain ⟨run₁, lows', below, joins⟩ := joinBelow_parted parted spaced
  have facts : (∀ r ∈ lows', 0 < r.pages ∧ r.first + r.pages < run₁.first) ∧
      run₁.first + run₁.pages = run.first + run.pages ∧ (lows' ++ highs).Pairwise fun r s => r.first + r.pages < s.first := by
    obtain ⟨whole, low, high⟩ := parted
    rw [whole] at spaced
    cases joins with
    | alone gap => exact ⟨fun r inside => ⟨(low r inside).1, gap r inside⟩, rfl, spaced⟩
    | joined b rest last touch =>
      subst last
      have parts := pairwise_append.mp (pairwise_append.mp spaced).1
      refine ⟨fun r inside => ⟨(low r (by simp [inside])).1, parts.2.2 r inside b mem_cons_self⟩, by simp only; omega, ?_⟩
      rw [append_assoc] at spaced
      exact pairwise_append.mpr ⟨parts.1, (pairwise_cons.mp (pairwise_append.mp spaced).2.1).2,
        fun r inside s inside' => (pairwise_append.mp spaced).2.2 r inside s (by simp [inside'])⟩
  have parted₁ : Parted (lows' ++ highs) lows' highs run₁ :=
    ⟨rfl, fun r inside => ⟨(facts.1 r inside).1, Nat.le_of_lt (facts.1 r inside).2⟩, fun r inside => by
      have := parted.high r inside
      omega⟩
  obtain ⟨run₂, highs', above, joins'⟩ := joinAbove_parted parted₁ facts.2.2
  refine ⟨run₁, run₂, lows', highs', joins, joins', ?_⟩
  have first : run₂.first = run₁.first := by cases joins' <;> rfl
  have high' : ∀ r ∈ highs', run₁.first < r.first ∨ run₂.first + run₂.pages = m.highWater := by
    intro r inside
    cases joins' with
    | alone gap =>
      have := gap r inside
      omega
    | joined a rest head touch =>
      subst head
      have := (pairwise_cons.mp (pairwise_append.mp facts.2.2).2.1).1 r inside
      omega
  unfold giveBack
  simp only [below, above]
  split
  · rfl
  · rename_i inner
    rw [insert_parted]
    · intro r inside
      rw [first]
      have := facts.1 r inside
      omega
    · intro r inside
      rw [first]
      exact (high' r inside).resolve_right inner

/-- Giving a run back keeps the free runs coalesced. -/
theorem Coalesced.giveBack (coalesced : m.Coalesced) (fresh : ∀ r ∈ m.free, run.Apart r) (positive : 0 < run.pages)
    (below : run.first + run.pages ≤ m.highWater) : (m.giveBack run).Coalesced := by
  obtain ⟨lows, highs, parted⟩ := coalesced.parted fresh
  obtain ⟨run₁, run₂, lows', highs', joins, joins', eq⟩ := coalesced.giveBack_eq parted
  obtain ⟨spaced, small⟩ := coalesced
  obtain ⟨whole, low, high⟩ := parted
  rw [whole] at spaced small
  -- The joined run lies between what is left on its two sides and touches neither.
  have lower : (lows' ++ highs).Sublist (lows ++ highs) ∧ (∀ r ∈ lows', r.first + r.pages < run₁.first) ∧
      run₁.first + run₁.pages = run.first + run.pages ∧ run₁.first ≤ run.first := by
    cases joins with
    | alone gap => exact ⟨.refl _, gap, rfl, Nat.le_refl _⟩
    | joined b rest last touch =>
      subst last
      have parts := pairwise_append.mp (pairwise_append.mp spaced).1
      exact ⟨(sublist_append_left _ _).append_right _, fun r inside => parts.2.2 r inside b mem_cons_self,
        by simp only; omega, by simp only; omega⟩
  have upper : (lows' ++ highs').Sublist (lows' ++ highs) ∧ (∀ r ∈ highs', run₂.first + run₂.pages < r.first) ∧
      run₂.first = run₁.first ∧ run₁.pages ≤ run₂.pages ∧ run₂.first + run₂.pages ≤ m.highWater := by
    cases joins' with
    | alone gap => exact ⟨.refl _, gap, rfl, Nat.le_refl _, by omega⟩
    | joined a rest head touch =>
      subst head
      have top := (small a (by simp)).2
      have after := (pairwise_cons.mp (pairwise_append.mp spaced).2.1).1
      refine ⟨(sublist_cons_self _ _).append_left _, fun r inside => ?_, rfl, by simp only; omega, by simp only; omega⟩
      have := after r inside
      simp only
      omega
  have sub := upper.1.trans lower.1
  have kept := spaced.sublist sub
  have within : ∀ r ∈ lows' ++ highs', 0 < r.pages ∧ r.first + r.pages < m.highWater := fun r inside =>
    small r (sub.subset inside)
  rw [eq]
  split
  · rename_i top
    refine ⟨kept, fun r inside => ⟨(within r inside).1, ?_⟩⟩
    simp only
    rcases mem_append.mp inside with left | right
    · have := lower.2.1 r left
      omega
    · have := upper.2.1 r right
      have := (within r inside).2
      omega
  · rename_i inner
    have parts := pairwise_append.mp kept
    refine ⟨pairwise_append.mpr ⟨parts.1, pairwise_cons.mpr ⟨upper.2.1, parts.2.1⟩, fun r left s right => ?_⟩, fun r inside => ?_⟩
    · rcases mem_cons.mp right with rfl | right
      · have := lower.2.1 r left
        omega
      · exact parts.2.2 r left s right
    · simp only
      rcases mem_append.mp inside with left | right
      · exact within r (mem_append_left _ left)
      · rcases mem_cons.mp right with rfl | right
        · omega
        · exact within r (mem_append_right _ right)

/-- What taking pages does: they are the lower part of a free run, or lie at the high-water mark. -/
inductive Takes (m : RunMap) (pages : Nat) : Nat → RunMap → Prop where
  | inside (lows highs : List Run) (run : Run) (split : m.free = lows ++ run :: highs) (room : pages ≤ run.pages) :
    Takes m pages run.first { m with
      free := lows ++ (if pages < run.pages then ⟨run.first + pages, run.pages - pages⟩ :: highs else highs)
      live := ⟨run.first, pages⟩ :: m.live }
  | top : Takes m pages m.highWater { m with live := ⟨m.highWater, pages⟩ :: m.live, highWater := m.highWater + pages }

theorem Coalesced.take_takes {pages first : Nat} (coalesced : m.Coalesced) (sound : m.Sound limit)
    (taken : m.take pages limit = some (first, m')) : m.Takes pages first m' := by
  have spaced := coalesced.spaced
  unfold take at taken
  split at taken
  · rename_i run found
    have room : pages ≤ run.pages := by simpa using find?_some found
    simp only [Option.some.injEq, Prod.mk.injEq] at taken
    obtain ⟨rfl, rfl⟩ := taken
    obtain ⟨lows, highs, split⟩ := append_of_mem (mem_of_find?_eq_some found)
    rw [split] at spaced
    have parts := pairwise_append.mp spaced
    have before : ∀ r ∈ lows, r.first + r.pages < run.first := fun r inside => parts.2.2 r inside run mem_cons_self
    have after : ∀ r ∈ highs, run.first + run.pages < r.first := (pairwise_cons.mp parts.2.1).1
    have live : without run.first m.live = m.live := without_eq _ fun r inside => by
      have apart := (pairwise_append.mp sound.apart).2.2 r inside run (by rw [split]; simp)
      have one := (sound.proper r (mem_append_left _ inside)).1
      have two := (sound.proper run (mem_append_right _ (by rw [split]; simp))).1
      unfold Run.Apart at apart
      omega
    have rest : without run.first m.free = lows ++ highs := by
      rw [split, without_middle]
      · intro r inside
        have := before r inside
        omega
      · intro r inside
        have := after r inside
        omega
    have shape : cut run pages m.free =
        lows ++ (if pages < run.pages then ⟨run.first + pages, run.pages - pages⟩ :: highs else highs) := by
      unfold cut
      simp only [rest]
      split
      · rw [insert_parted]
        · intro r inside
          have := before r inside
          simp only
          omega
        · intro r inside
          have := after r inside
          simp only
          omega
      · rfl
    rw [live, shape]
    exact .inside lows highs run split room
  · split at taken
    · simp only [Option.some.injEq, Prod.mk.injEq] at taken
      obtain ⟨rfl, rfl⟩ := taken
      have live : without m.highWater m.live = m.live := without_eq _ fun r inside => by
        have := sound.proper r (mem_append_left _ inside)
        unfold Run.Proper at this
        omega
      rw [live]
      exact .top
    · cases taken

/-- Taking pages keeps the free runs coalesced. -/
theorem Coalesced.take {pages first : Nat} (coalesced : m.Coalesced) (takes : m.Takes pages first m') :
    m'.Coalesced := by
  obtain ⟨spaced, low⟩ := coalesced
  cases takes with
  | inside lows highs run split room =>
    rw [split] at spaced low
    have parts := pairwise_append.mp spaced
    have order := pairwise_cons.mp parts.2.1
    have top := low run (by simp)
    by_cases rest : pages < run.pages
    · simp only [rest, ↓reduceIte]
      refine ⟨pairwise_append.mpr ⟨parts.1, pairwise_cons.mpr ⟨fun r inside => ?_, order.2⟩, fun r left s right => ?_⟩,
        fun r inside => ?_⟩
      · have := order.1 r inside
        simp only
        omega
      · rcases mem_cons.mp right with rfl | right
        · have := parts.2.2 r left run mem_cons_self
          simp only
          omega
        · exact parts.2.2 r left s (mem_cons_of_mem _ right)
      · rcases mem_append.mp inside with left | right
        · exact low r (mem_append_left _ left)
        · rcases mem_cons.mp right with rfl | right
          · simp only
            omega
          · exact low r (mem_append_right _ (mem_cons_of_mem _ right))
    · simp only [rest, ↓reduceIte]
      exact ⟨pairwise_append.mpr ⟨parts.1, order.2, fun r left s right => parts.2.2 r left s (mem_cons_of_mem _ right)⟩,
        fun r inside => low r ((mem_append.mp inside).elim (mem_append_left _) fun right =>
          mem_append_right _ (mem_cons_of_mem _ right))⟩
  | top =>
    exact ⟨spaced, fun r inside => ⟨(low r inside).1, Nat.lt_add_right _ (low r inside).2⟩⟩

/-- A run between free runs that it is not joined with below, and above only as the lower part of one. -/
theorem Coalesced.giveBack_between (coalesced : m.Coalesced) (parted : Parted m.free lows highs run)
    (gap : ∀ r ∈ lows, r.first + r.pages < run.first) :
    ∃ run₂ highs', JoinsAbove highs run run₂ highs' ∧ m.giveBack run =
      if run₂.first + run₂.pages = m.highWater then { m with free := lows ++ highs', highWater := run₂.first }
      else { m with free := lows ++ run₂ :: highs' } := by
  obtain ⟨run₁, run₂, lows', highs', joins, joins', given⟩ := coalesced.giveBack_eq parted
  cases joins with
  | alone => exact ⟨run₂, highs', joins', given⟩
  | joined b front last touch =>
    have := gap b (by rw [last]; simp)
    omega

/-- Pages that are taken and given back at once leave no trace. -/
theorem Coalesced.undo {pages first : Nat} (coalesced : m.Coalesced) (sound : m.Sound limit)
    (taken : m.take pages limit = some (first, m')) : (m'.forget first).giveBack ⟨first, pages⟩ = m := by
  have takes := coalesced.take_takes sound taken
  have coalesced' : (m'.forget first).Coalesced := ⟨(coalesced.take takes).spaced, (coalesced.take takes).low⟩
  have apart : ∀ r ∈ m.live, r.first ≠ first := by
    intro r inside
    have proper := sound.proper r (mem_append_left _ inside)
    unfold Run.Proper at proper
    cases takes with
    | inside lows highs run split room =>
      have apart := (pairwise_append.mp sound.apart).2.2 r inside run (by rw [split]; simp)
      have := coalesced.low run (by rw [split]; simp)
      unfold Run.Apart at apart
      omega
    | top => omega
  have live : without first (⟨first, pages⟩ :: m.live) = m.live := by
    rw [without, filter_cons_of_neg (by simp)]
    exact without_eq _ apart
  have spaced := coalesced.spaced
  have low := coalesced.low
  cases takes with
  | inside lows highs run split room =>
    rw [split] at spaced low
    have parts := pairwise_append.mp spaced
    have before : ∀ r ∈ lows, r.first + r.pages < run.first := fun r inside => parts.2.2 r inside run mem_cons_self
    have after := (pairwise_cons.mp parts.2.1).1
    have inner := low run (by simp)
    simp only [forget, live] at coalesced' ⊢
    have lower : ∀ r ∈ lows, 0 < r.pages ∧ r.first + r.pages ≤ run.first := fun r inside =>
      ⟨(low r (by simp [inside])).1, Nat.le_of_lt (before r inside)⟩
    by_cases rest : pages < run.pages
    · simp only [rest, ↓reduceIte] at coalesced' ⊢
      have parted : Parted (lows ++ ⟨run.first + pages, run.pages - pages⟩ :: highs) lows
          (⟨run.first + pages, run.pages - pages⟩ :: highs) ⟨run.first, pages⟩ := by
        refine ⟨rfl, lower, fun r inside => ?_⟩
        rcases mem_cons.mp inside with rfl | inside
        · exact Nat.le_refl _
        · have := after r inside
          simp only
          omega
      obtain ⟨run₂, highs', joins, given⟩ := coalesced'.giveBack_between parted before
      cases joins with
      | alone gap =>
        have := gap ⟨run.first + pages, run.pages - pages⟩ mem_cons_self
        simp only at this
        omega
      | joined a back head touch =>
        cases head
        have whole : pages + (run.pages - pages) = run.pages := by omega
        rw [given, if_neg (by simp only; omega)]
        simp only [whole, ← split]
    · simp only [rest, ↓reduceIte] at coalesced' ⊢
      have same : pages = run.pages := by omega
      subst same
      obtain ⟨run₂, highs', joins, given⟩ := coalesced'.giveBack_between ⟨rfl, lower, fun r inside =>
        Nat.le_of_lt (after r inside)⟩ before
      cases joins with
      | alone gap => rw [given, if_neg (by simp only; omega), ← split]
      | joined a back head touch =>
        have := after a (by rw [head]; simp)
        omega
  | top =>
    simp only [forget, live] at coalesced' ⊢
    have parted : Parted m.free m.free [] ⟨m.highWater, pages⟩ :=
      ⟨(append_nil _).symm, fun r inside => ⟨(low r inside).1, Nat.le_of_lt (low r inside).2⟩, fun r inside => absurd inside not_mem_nil⟩
    obtain ⟨run₂, highs', joins, given⟩ := coalesced'.giveBack_between (parted : Parted m.free m.free [] ⟨m.highWater, pages⟩)
      fun r inside => (low r inside).2
    cases joins with
    | alone gap => rw [given, if_pos rfl, append_nil]
    | joined a back head touch => cases head

end TracingHeap.Pages.RunMap
