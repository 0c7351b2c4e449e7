import Mathlib.Data.List.MinMax
import Mathlib.Data.List.Pairwise
import Mathlib.Order.Nat
import TracingHeap.Proofs.Coalescing

/-! Live and free runs lie side by side: together they are all pages below the high-water mark. No two free runs touch, so
each of them is all there is between live ones, and the live runs determine the rest of the map. Pages that fit anywhere fit
into a free run or above the mark, so the first free run that is long enough is also the lowest place for them. -/

namespace TracingHeap.Pages

open List

namespace Run

/-- The page is one of the run. -/
def Has (r : Run) (page : Nat) : Prop := r.first ≤ page ∧ page < r.first + r.pages

/-- The page is in one of the runs. -/
def Filled (runs : List Run) (page : Nat) : Prop := ∃ r ∈ runs, r.Has page

@[simp] theorem filled_append {runs runs' : List Run} {page : Nat} :
    Filled (runs ++ runs') page ↔ Filled runs page ∨ Filled runs' page := by
  simp only [Filled, mem_append, or_and_right, exists_or]

@[simp] theorem filled_cons {r : Run} {runs : List Run} {page : Nat} : Filled (r :: runs) page ↔ r.Has page ∨ Filled runs page := by
  simp only [Filled, mem_cons, or_and_right, exists_or, exists_eq_left]

theorem filled_nil {page : Nat} : ¬ Filled [] page := fun ⟨_, member, _⟩ => not_mem_nil member

/-- None of the pages of the run is live. -/
def Vacant (r : Run) (live : List Run) : Prop := ∀ s ∈ live, r.Apart s

/-- A gap between live runs: pages below a mark of which none is live, and no wider run of them. -/
structure Gap (live : List Run) (mark : Nat) (g : Run) : Prop where
  proper : g.Proper mark
  vacant : g.Vacant live
  widest : ∀ w : Run, w.Proper mark → w.Vacant live → w.first ≤ g.first → g.first + g.pages ≤ w.first + w.pages → w = g

end Run

namespace RunMap

/-- So many pages fit in from a page on: they end at or below the limit, and none of them is live. -/
def Fits (live : List Run) (limit pages first : Nat) : Prop := first + pages ≤ limit ∧ Run.Vacant ⟨first, pages⟩ live

/-- The runs are apart, no two free ones touch, and every page below the high-water mark is in one of them. -/
structure Tiled (m : RunMap) (limit : Nat) : Prop where
  sound : m.Sound limit
  coalesced : m.Coalesced
  filled : ∀ page < m.highWater, Run.Filled (m.live ++ m.free) page

variable {m m' : RunMap} {limit limit' pages first page : Nat} {run r s : Run} {lows lows' highs highs' : List Run}

theorem empty_tiled (limit : Nat) : empty.Tiled limit :=
  ⟨empty_sound limit, empty_coalesced, fun page below => absurd below (Nat.not_lt_zero page)⟩

/-- Two free runs have a page between them. -/
theorem Coalesced.between (coalesced : m.Coalesced) (member : r ∈ m.free) (member' : s ∈ m.free) (differ : r ≠ s) :
    r.first + r.pages < s.first ∨ s.first + s.pages < r.first := by
  have symmetric : Std.Symm fun r s : Run => r.first + r.pages < s.first ∨ s.first + s.pages < r.first := ⟨fun _ _ => Or.symm⟩
  have spaced : m.free.Pairwise fun r s : Run => r.first + r.pages < s.first ∨ s.first + s.pages < r.first :=
    coalesced.spaced.imp Or.inl
  exact spaced.forall member member' differ

/-- A run that is joined ends where it did. -/
theorem JoinsBelow.stop_eq (joins : JoinsBelow lows run r lows') : r.first + r.pages = run.first + run.pages := by
  cases joins with
  | alone => rfl
  | joined b rest last touch =>
    simp only
    omega

/-- Joining loses no page. -/
theorem JoinsBelow.filled (joins : JoinsBelow lows run r lows') (page : Nat) (has : run.Has page ∨ Run.Filled lows page) :
    r.Has page ∨ Run.Filled lows' page := by
  cases joins with
  | alone => exact has
  | joined b rest last touch =>
    subst last
    simp only [Run.filled_append, Run.filled_cons, Run.filled_nil, or_false] at has
    unfold Run.Has at *
    rcases has with here | inner | there
    · exact .inl (by simp only; omega)
    · exact .inr inner
    · exact .inl (by simp only; omega)

theorem JoinsAbove.filled (joins : JoinsAbove highs run r highs') (page : Nat) (has : run.Has page ∨ Run.Filled highs page) :
    r.Has page ∨ Run.Filled highs' page := by
  cases joins with
  | alone => exact has
  | joined a rest head touch =>
    subst head
    simp only [Run.filled_cons] at has
    unfold Run.Has at *
    rcases has with here | there | inner
    · exact .inl (by simp only; omega)
    · exact .inl (by simp only; omega)
    · exact .inr inner

namespace Tiled

theorem vacant (tiled : m.Tiled limit) (member : r ∈ m.free) : r.Vacant m.live := fun s live =>
  ((pairwise_append.mp tiled.sound.apart).2.2 s live r member).symm

/-- The page after a free run is live. -/
theorem live_after (tiled : m.Tiled limit) (member : r ∈ m.free) : ∃ s ∈ m.live, s.Has (r.first + r.pages) := by
  obtain ⟨s, listed, has⟩ := tiled.filled _ (tiled.coalesced.low r member).2
  rcases mem_append.mp listed with live | free
  · exact ⟨s, live, has⟩
  · have differ : s ≠ r := by
      rintro rfl
      exact Nat.lt_irrefl _ has.2
    have gap := tiled.coalesced.between free member differ
    unfold Run.Has at has
    omega

/-- Pages that start below the high-water mark and are not live are all in one free run. -/
theorem inside (tiled : m.Tiled limit) (positive : 0 < r.pages) (below : r.first < m.highWater) (vacant : r.Vacant m.live) :
    ∃ s ∈ m.free, s.first ≤ r.first ∧ r.first + r.pages ≤ s.first + s.pages := by
  have off : ∀ {page}, r.Has page → ∀ s ∈ m.live, ¬ s.Has page := by
    intro page has s live has'
    have apart := vacant s live
    unfold Run.Apart Run.Has at *
    omega
  obtain ⟨s, listed, has⟩ := tiled.filled r.first below
  rcases mem_append.mp listed with live | free
  · exact absurd has (off ⟨Nat.le_refl _, Nat.lt_add_of_pos_right positive⟩ s live)
  · refine ⟨s, free, has.1, ?_⟩
    -- Otherwise the page after the free run were one of these pages, but it is live.
    by_contra past
    obtain ⟨t, live, after⟩ := tiled.live_after free
    unfold Run.Has at has
    exact off ⟨by omega, by omega⟩ t live after

/-- The free runs are the gaps between the live ones. -/
theorem mem_free_iff (tiled : m.Tiled limit) : r ∈ m.free ↔ r.Gap m.live m.highWater := by
  constructor
  · intro member
    have low := tiled.coalesced.low r member
    refine ⟨⟨low.1, Nat.le_of_lt low.2⟩, tiled.vacant member, fun w proper vacant left right => ?_⟩
    unfold Run.Proper at proper
    obtain ⟨s, free, left', right'⟩ := tiled.inside proper.1 (by omega) vacant
    have same : s = r := by
      by_contra differ
      have gap := tiled.coalesced.between free member differ
      omega
    subst same
    cases w
    cases s
    simp only [Run.mk.injEq] at *
    omega
  · intro gap
    have proper := gap.proper
    unfold Run.Proper at proper
    obtain ⟨s, free, left, right⟩ := tiled.inside proper.1 (by omega) gap.vacant
    have low := tiled.coalesced.low s free
    exact gap.widest s ⟨low.1, Nat.le_of_lt low.2⟩ (tiled.vacant free) left right ▸ free

/-- The last run below the high-water mark is live. -/
theorem live_below_mark (tiled : m.Tiled limit) : m.highWater = 0 ∨ ∃ r ∈ m.live, r.first + r.pages = m.highWater := by
  by_cases zero : m.highWater = 0
  · exact .inl zero
  · obtain ⟨s, listed, has⟩ := tiled.filled (m.highWater - 1) (by omega)
    unfold Run.Has at has
    rcases mem_append.mp listed with live | free
    · have proper := tiled.sound.proper s (mem_append_left _ live)
      unfold Run.Proper at proper
      exact .inr ⟨s, live, by omega⟩
    · have low := tiled.coalesced.low s free
      omega

/-- The high-water mark is the highest end of a live run. -/
theorem highWater_eq (tiled : m.Tiled limit) : m.highWater = (m.live.map fun r => r.first + r.pages).foldr max 0 := by
  change m.highWater = foldr max ⊥ _
  refine Nat.le_antisymm ?_ (max_le_of_forall_le _ _ fun stop listed => ?_)
  · rcases tiled.live_below_mark with zero | ⟨r, live, top⟩
    · omega
    · exact le_max_of_le (mem_map_of_mem live) (Nat.le_of_eq top.symm)
  · obtain ⟨r, live, rfl⟩ := mem_map.mp listed
    exact (tiled.sound.proper r (mem_append_left _ live)).2

/-- No run is live twice. -/
theorem live_nodup (tiled : m.Tiled limit) : m.live.Nodup := by
  refine (pairwise_append.mp tiled.sound.apart).1.imp_of_mem fun {r s} live _ apart same => ?_
  have proper := tiled.sound.proper r (mem_append_left _ live)
  subst same
  unfold Run.Apart Run.Proper at *
  omega

theorem highWater_le (tiled : m.Tiled limit) (tiled' : m'.Tiled limit') (more : ∀ r ∈ m.live, r ∈ m'.live) :
    m.highWater ≤ m'.highWater := by
  rcases tiled.live_below_mark with zero | ⟨r, live, top⟩
  · omega
  · exact top ▸ (tiled'.sound.proper r (mem_append_left _ (more r live))).2

/-- Maps that have the same live runs have the same free runs and the same high-water mark. -/
theorem determined (tiled : m.Tiled limit) (tiled' : m'.Tiled limit') (same : ∀ r, r ∈ m.live ↔ r ∈ m'.live) :
    m.highWater = m'.highWater ∧ m.free = m'.free := by
  have mark : m.highWater = m'.highWater :=
    Nat.le_antisymm (highWater_le tiled tiled' fun r => (same r).mp) (highWater_le tiled' tiled fun r => (same r).mpr)
  have vacant : ∀ g : Run, g.Vacant m.live ↔ g.Vacant m'.live := fun g =>
    ⟨fun apart s live => apart s ((same s).mpr live), fun apart s live => apart s ((same s).mp live)⟩
  have members : ∀ g, g ∈ m.free ↔ g ∈ m'.free := by
    intro g
    rw [tiled.mem_free_iff, tiled'.mem_free_iff, ← mark]
    exact ⟨fun gap => ⟨gap.proper, (vacant g).mp gap.vacant, fun w proper free => gap.widest w proper ((vacant w).mpr free)⟩,
      fun gap => ⟨gap.proper, (vacant g).mpr gap.vacant, fun w proper free => gap.widest w proper ((vacant w).mp free)⟩⟩
  have distinct : ∀ {n : RunMap}, n.Coalesced → n.free.Nodup := fun coalesced => coalesced.spaced.imp fun order same => by
    subst same
    omega
  refine ⟨mark, ((perm_ext_iff_of_nodup (distinct tiled.coalesced) (distinct tiled'.coalesced)).mpr members).eq_of_pairwise
    (fun r s _ _ one two => ?_) tiled.coalesced.spaced tiled'.coalesced.spaced⟩
  omega

/-! ### What requests keep -/

/-- Pages that are handed out tile with the rest. -/
theorem take (tiled : m.Tiled limit) (positive : 0 < pages) (taken : m.take pages limit = some (first, m')) :
    m'.Tiled limit := by
  have takes := tiled.coalesced.take_takes tiled.sound taken
  refine ⟨(take_sound tiled.sound positive taken).1, tiled.coalesced.take takes, fun page below => ?_⟩
  have before := tiled.filled page
  cases takes with
  | inside lows highs run split room =>
    have before := before below
    rw [split] at before
    simp only [Run.filled_append, Run.filled_cons] at before ⊢
    rcases before with live | low | has | high
    · exact .inl (.inr live)
    · exact .inr (.inl low)
    · -- The run that was cut has the page in its lower part, which is live now, or in the remainder.
      unfold Run.Has at has
      by_cases front : page < run.first + pages
      · exact .inl (.inl ⟨has.1, front⟩)
      · have rest : pages < run.pages := by omega
        simp only [rest, ↓reduceIte, Run.filled_cons]
        refine .inr (.inr (.inl ?_))
        unfold Run.Has
        simp only
        omega
    · refine .inr (.inr ?_)
      split
      · exact Run.filled_cons.mpr (.inr high)
      · exact high
  | top =>
    simp only [cons_append, Run.filled_cons]
    by_cases old : page < m.highWater
    · exact .inr (before old)
    · exact .inl ⟨Nat.not_lt.mp old, below⟩

/-- A run that comes back is free, together with the free runs that it touches. -/
theorem giveBack_filled (coalesced : m.Coalesced) (fresh : ∀ r ∈ m.free, run.Apart r)
    (below : run.first + run.pages ≤ m.highWater) (filled : ∀ page < m.highWater, run.Has page ∨ Run.Filled (m.live ++ m.free) page) :
    ∀ page < (m.giveBack run).highWater, Run.Filled ((m.giveBack run).live ++ (m.giveBack run).free) page := by
  obtain ⟨lows, highs, parted⟩ := coalesced.parted fresh
  obtain ⟨run₁, run₂, lows', highs', joins, joins', given⟩ := coalesced.giveBack_eq parted
  have top : run₂.first + run₂.pages ≤ m.highWater := by
    have stop := joins.stop_eq
    cases joins' with
    | alone => omega
    | joined a rest head touch =>
      have low := coalesced.low a (by rw [parted.whole, head]; simp)
      simp only
      omega
  have joined : ∀ page < m.highWater, run₂.Has page ∨ Run.Filled (m.live ++ (lows' ++ highs')) page := by
    intro page small
    have before := filled page small
    have lower := joins.filled page
    have upper := joins'.filled page
    rw [parted.whole] at before
    simp only [Run.filled_append] at before ⊢
    grind
  rw [given]
  split
  · intro page small
    simp only at small
    refine (joined page (by omega)).resolve_left fun has => ?_
    unfold Run.Has at has
    omega
  · intro page small
    have before := joined page small
    simp only [Run.filled_append, Run.filled_cons] at before ⊢
    grind

/-- A live run that is taken back tiles with the rest. -/
theorem release (tiled : m.Tiled limit) (member : run ∈ m.live) : ((m.forget run.first).giveBack run).Tiled limit := by
  have proper := tiled.sound.proper run (mem_append_left _ member)
  have fresh : ∀ r ∈ m.free, run.Apart r := fun r free => (pairwise_append.mp tiled.sound.apart).2.2 run member r free
  have forgotten : (m.forget run.first).Coalesced := ⟨tiled.coalesced.spaced, tiled.coalesced.low⟩
  refine ⟨(release_sound tiled.sound member).1, forgotten.giveBack fresh proper.1 proper.2,
    giveBack_filled forgotten fresh proper.2 fun page below => ?_⟩
  obtain ⟨r, listed, has⟩ := tiled.filled page below
  have split := (tiled.sound.live_perm member).append_right m.free
  rcases mem_cons.mp (split.mem_iff.mp listed) with rfl | rest
  · exact .inl has
  · exact .inr ⟨r, rest, has⟩

/-! ### The lowest place -/

/-- Pages that fit in are in a free run, or above the high-water mark. -/
theorem fits_cases (tiled : m.Tiled limit) (positive : 0 < pages) (fits : Fits m.live limit pages first) :
    (∃ s ∈ m.free, s.first ≤ first ∧ first + pages ≤ s.first + s.pages) ∨ m.highWater ≤ first := by
  by_cases below : first < m.highWater
  · exact .inl (tiled.inside (r := ⟨first, pages⟩) positive below fits.2)
  · exact .inr (Nat.not_lt.mp below)

/-- Pages fit in where a free run is long enough. -/
theorem fits_free (tiled : m.Tiled limit) (member : s ∈ m.free) (room : pages ≤ s.pages) : Fits m.live limit pages s.first := by
  have low := tiled.coalesced.low s member
  have bounded := tiled.sound.bounded
  refine ⟨by omega, fun r live => ?_⟩
  have apart := tiled.vacant member r live
  unfold Run.Apart at *
  simp only
  omega

/-- Pages that are handed out come from the lowest place where they fit in. -/
theorem take_least (tiled : m.Tiled limit) (positive : 0 < pages) (taken : m.take pages limit = some (first, m')) :
    Fits m.live limit pages first ∧ ∀ other, Fits m.live limit pages other → first ≤ other := by
  unfold RunMap.take at taken
  split at taken
  · rename_i run found
    obtain ⟨room, lows, highs, split, short⟩ := find?_eq_some_iff_append.mp found
    have member : run ∈ m.free := by rw [split]; simp
    have room : pages ≤ run.pages := by simpa using room
    simp only [Option.some.injEq, Prod.mk.injEq] at taken
    obtain ⟨rfl, -⟩ := taken
    refine ⟨tiled.fits_free member room, fun other fits => ?_⟩
    rcases tiled.fits_cases positive fits with ⟨s, free, left, right⟩ | above
    · rw [split] at free
      -- The runs before the one that was found are too short.
      rcases mem_append.mp free with before | after
      · have short := short s before
        simp only [Bool.not_eq_true', decide_eq_false_iff_not, Nat.not_le] at short
        omega
      · rcases mem_cons.mp after with rfl | later
        · exact left
        · have spaced := tiled.coalesced.spaced
          rw [split] at spaced
          have order := (pairwise_cons.mp (pairwise_append.mp spaced).2.1).1 s later
          omega
    · have low := tiled.coalesced.low run member
      omega
  · rename_i none
    split at taken
    · rename_i room
      simp only [Option.some.injEq, Prod.mk.injEq] at taken
      obtain ⟨rfl, -⟩ := taken
      refine ⟨⟨room, fun r live => .inr (tiled.sound.proper r (mem_append_left _ live)).2⟩, fun other fits => ?_⟩
      rcases tiled.fits_cases positive fits with ⟨s, free, left, right⟩ | above
      · have short := find?_eq_none.mp none s free
        simp only [decide_eq_true_eq, Nat.not_le] at short
        omega
      · exact above
    · cases taken

/-- Nothing is handed out just if the pages fit in nowhere. -/
theorem take_eq_none_iff (tiled : m.Tiled limit) (positive : 0 < pages) :
    m.take pages limit = none ↔ ∀ first, ¬ Fits m.live limit pages first := by
  cases taken : m.take pages limit with
  | some found =>
    refine ⟨nofun, fun nowhere => absurd (tiled.take_least positive taken).1 (nowhere _)⟩
  | none =>
    refine ⟨fun _ first fits => ?_, fun _ => rfl⟩
    unfold RunMap.take at taken
    split at taken
    · cases taken
    · rename_i none
      split at taken
      · cases taken
      · rename_i full
        rcases tiled.fits_cases positive fits with ⟨s, free, left, right⟩ | above
        · have short := find?_eq_none.mp none s free
          simp only [decide_eq_true_eq, Nat.not_le] at short
          omega
        · exact full (Nat.le_trans (Nat.add_le_add_right above pages) fits.1)

end Tiled

end RunMap

end TracingHeap.Pages
