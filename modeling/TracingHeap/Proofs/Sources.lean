import TracingHeap.Proofs.RunMaps
import TracingHeap.Proofs.Takings

/-! Sources of pages and the memory they hand out. What a frontier or a run map answers was not handed
out before, is zero, and lies inside the extent; what was handed out before is left alone. -/

namespace TracingHeap

namespace Extent

/-- The extent is made of whole pages and ends below half of all addresses. -/
structure Placed (e : Extent) : Prop where
  start : e.start.toNat % 4096 = 0
  bytes : e.bytes.toNat % 4096 = 0
  fits : e.start.toNat + e.bytes.toNat < 2 ^ 63

/-- The addresses of the extent. -/
def span (e : Extent) : Span := .ofBytes e.start e.bytes

/-- The extent is made of whole pages, and leaves out the last one of all addresses. -/
structure Paged (e : Extent) : Prop where
  start : e.start.toNat % 4096 = 0
  bytes : e.bytes.toNat % 4096 = 0
  fits : e.span.hi + 4096 < 2 ^ 64

theorem Placed.paged {e : Extent} (placed : e.Placed) : e.Paged := by
  have fits := placed.fits
  refine ⟨placed.start, placed.bytes, ?_⟩
  simp only [span, Span.ofBytes]
  omega

/-- The end of the page that an address inside the extent lies in. -/
theorem Paged.toNat_alignUp {e : Extent} {a : Address} (paged : e.Paged) (high : a.toNat ≤ e.span.hi) :
    (a.alignUp Word.pageBytes).toNat = (a.toNat + 4095) / 4096 * 4096 := by
  have fits := paged.fits
  exact Address.toNat_alignUp Word.page_power (by omega)

theorem stop_ok {e : Extent} {stop : Address} (ok : e.stop = .ok stop) : stop.toNat = e.span.hi :=
  (Address.above_ok ok).2.2

theorem holds_iff {e : Extent} {a : Address} :
    e.holds a = true ↔ e.span.lo ≤ a.toNat ∧ a.toNat < e.span.hi := by
  unfold holds
  rw [Bool.and_eq_true, decide_eq_true_eq, decide_eq_true_eq, Address.le_iff, UInt64.lt_iff_toNat_lt]
  simp only [span, Span.ofBytes]
  constructor
  · rintro ⟨low, high⟩
    rw [UInt64.toNat_sub_of_le _ _ (UInt64.le_iff_toNat_le.mpr low)] at high
    refine ⟨low, ?_⟩
    unfold Address.toNat at *
    omega
  · rintro ⟨low, high⟩
    refine ⟨low, ?_⟩
    rw [UInt64.toNat_sub_of_le _ _ (UInt64.le_iff_toNat_le.mpr low)]
    unfold Address.toNat at *
    omega

end Extent

namespace Memory

theorem giveBack_agree (m : Memory) (start : Address) (bytes : Word) (whole : bytes.toNat % 8 = 0) :
    AgreeOff m (m.giveBack start bytes) (.ofBytes start bytes) := by
  unfold giveBack
  split
  · exact AgreeOff.refl m _
  · rename_i given
    simp only [not_or, Bool.not_eq_true, Bool.not_eq_false'] at given
    have aligned := (Word.isAligned_iff Word.page_power).mp (by simpa using given.2)
    have positive : bytes.toNat ≠ 0 := fun zero => given.1 (UInt64.toNat_inj.mp zero)
    exact zero_agree m start bytes (by omega) (by unfold Address.toNat; omega)

end Memory

namespace Pages

open Memory

namespace Frontier

/-- The cursor lies between the bottom and what is backed, and what is backed ahead of it is zero. -/
structure Sound (f : Frontier) (m : Memory) : Prop where
  low : f.extent.start.toNat ≤ f.cursor.toNat
  high : f.cursor.toNat ≤ f.limit.toNat
  stop : f.limit.toNat ≤ f.extent.span.hi
  aligned : f.cursor.toNat % 8 = 0
  page : f.limit.toNat % 4096 = 0
  zero : m.ZeroOn ⟨f.cursor.toNat, f.limit.toNat⟩

/-- The span was handed out since the last reset. -/
def Issued (f : Frontier) (r : Span) : Prop := f.extent.start.toNat ≤ r.lo ∧ r.hi ≤ f.cursor.toNat

variable {f f' : Frontier} {m m' : Memory}

theorem Sound.frame (sound : f.Sound m) (same : AgreeOn m m' ⟨f.cursor.toNat, f.limit.toNat⟩) : f.Sound m' :=
  { sound with zero := sound.zero.of_agree same }

/-- The page counters say nothing about memory. -/
theorem Sound.of_ledger (sound : f.Sound m) (ledger : Ledger) : Sound { f with ledger } m :=
  ⟨sound.low, sound.high, sound.stop, sound.aligned, sound.page, sound.zero⟩

theorem new_sound (e : Extent) (placed : e.Placed) (m : Memory) : (new e).Sound m where
  low := Nat.le_refl _
  high := Nat.le_refl _
  stop := Nat.le_add_right ..
  aligned := by have := placed.start; simp only [new]; omega
  page := placed.start
  zero i lo hi := by simp only [new] at lo hi; omega

private theorem Grows.sound {cursor : Address} {refusal : Option Refusal} (placed : f.extent.Placed) (sound : f.Sound m)
    (high : cursor.toNat ≤ f.extent.span.hi) (grows : Grows refusal cursor f m (.ok ()) f' m') :
    f'.extent = f.extent ∧ f'.cursor = f.cursor ∧ f'.Sound m' ∧ cursor.toNat ≤ f'.limit.toNat ∧
      AgreeOff m m' ⟨f.cursor.toNat, f.extent.span.hi⟩ := by
  have pages := placed.start
  have pages' := placed.bytes
  cases grows with
  | enough below => exact ⟨rfl, rfl, sound, Address.le_iff.mp below, AgreeOff.refl m _⟩
  | @raised growth _ _ above missing granted counted =>
    have above := Address.lt_iff.mp above
    have limit := placed.paged.toNat_alignUp high
    have amount := (Address.toNat_distance missing).2
    have page := sound.page
    have stop := sound.stop
    have bound := cursor.toNat_lt
    simp only [Extent.span, Span.ofBytes] at high stop
    obtain ⟨-, -, rfl⟩ := commitUnless_ok.mp granted
    have grown_zero := zero_zeroOn m f.limit growth (by omega) (by omega) (by omega)
    have grown_agree := zero_agree m f.limit growth (by omega) (by omega)
    have high := sound.high
    refine ⟨rfl, rfl, ?_, ?_, grown_agree.mono ?_⟩
    · refine ⟨sound.low, ?_, ?_, sound.aligned, ?_, ?_⟩
      · simp only
        omega
      · simp only [Extent.span, Span.ofBytes]
        omega
      · simp only
        omega
      · intro i lo hi
        simp only [limit] at lo hi ⊢
        by_cases old : 8 * i < f.limit.toNat
        · exact (grown_agree.agreeOn (s := ⟨f.cursor.toNat, f.limit.toNat⟩) (.inr (Nat.le_refl _)) i lo old).trans
            (sound.zero i lo old)
        · apply grown_zero i
          · simp only [Span.ofBytes]
            omega
          · simp only [Span.ofBytes]
            omega
    · simp only
      omega
    · simp only [Span.Within, Span.ofBytes, Extent.span]
      omega

theorem take_ok {pending bytes : Word} {r : Except Denial Address} (placed : f.extent.Placed)
    (sound : f.Sound m) (ok : take pending bytes (f, m) = .ok r (f', m')) :
    f'.extent = f.extent ∧ f'.Sound m' ∧ AgreeOff m m' ⟨f.cursor.toNat, f.extent.span.hi⟩ ∧
      (∀ e, r = .error e → f'.cursor = f.cursor ∧ m' = m) ∧
      ∀ a, r = .ok a →
        a = f.cursor ∧ f'.cursor.toNat = a.toNat + bytes.toNat ∧ m'.ZeroOn (.ofBytes a bytes) := by
  obtain ⟨whole, -, serves⟩ := takeUnless_iff.mp ok
  have whole : bytes.toNat % 16 = 0 := by simpa using congrArg UInt64.toNat whole
  have sound' : Sound { f with ledger := f.ledger.withdrawn pending } m := sound.of_ledger _
  cases serves with
  | exhausted reach ends past => exact ⟨rfl, sound', AgreeOff.refl _ _, fun _ _ => ⟨rfl, rfl⟩, fun _ other => by cases other⟩
  | refused reach ends room grows =>
    obtain ⟨rfl, rfl⟩ := grows.still
    exact ⟨rfl, sound', AgreeOff.refl _ _, fun _ _ => ⟨rfl, rfl⟩, fun _ other => by cases other⟩
  | granted reach ends room grows =>
    have place := (Address.above_ok reach).2.2
    have high := Extent.stop_ok ends ▸ Address.le_iff.mp room
    obtain ⟨extent, cursorSame, sound₁, reached, agree⟩ := Grows.sound (f := { f with ledger := f.ledger.withdrawn pending }) placed sound' high grows
    simp only at extent cursorSame agree place
    have low := sound.low
    have aligned := sound.aligned
    refine ⟨extent, ⟨?_, reached, sound₁.stop, ?_, sound₁.page, ?_⟩, agree, fun _ other => (by cases other), fun _ same => ?_⟩
    · simp only [extent]
      omega
    · simp only
      omega
    · apply sound₁.zero.mono
      simp only [Span.Within, cursorSame]
      omega
    · cases same
      refine ⟨rfl, place, sound₁.zero.mono ?_⟩
      simp only [Span.Within, Span.ofBytes, cursorSame]
      omega

/-- A source that took everything back starts anew: nothing of the extent is handed out, backed or promised. -/
theorem reset_new {r : Address × Word} (ok : reset (f, m) = .ok r (f', m')) : f' = new f.extent := by
  simp only [reset, Step.get_bind, Step.bind_ok, Step.lift_ok, Step.modify_bind, Step.pure_ok, Prod.mk.injEq] at ok
  obtain ⟨_, _, ⟨-, rfl⟩, _, _, ⟨-, rfl⟩, -, rfl, -⟩ := ok
  rfl

theorem reset_ok {start : Address} {used : Word} (placed : f.extent.Placed) (sound : f.Sound m)
    (ok : reset (f, m) = .ok (start, used) (f', m')) :
    start = f.extent.start ∧ used.toNat = f.cursor.toNat - f.extent.start.toNat ∧ f'.Sound m' ∧
      AgreeOff m m' f.extent.span := by
  simp only [reset, Step.get_bind, Step.bind_ok, Step.lift_ok, Step.modify_bind, Step.pure_ok,
    Prod.mk.injEq] at ok
  obtain ⟨used, -, ⟨gone, rfl⟩, backed, -, ⟨held, rfl⟩, ⟨rfl, rfl⟩, rfl, rfl⟩ := ok
  obtain ⟨-, amount⟩ := Address.toNat_distance gone
  obtain ⟨-, amount'⟩ := Address.toNat_distance held
  have page := sound.page
  have pages := placed.start
  have stop := sound.stop
  simp only [Extent.span, Span.ofBytes] at stop
  refine ⟨rfl, amount, ?_, (giveBack_agree m f.extent.start backed (by omega)).mono ?_⟩
  · exact ⟨Nat.le_refl _, Nat.le_refl _, Nat.le_add_right .., by simp only; omega, pages,
      fun i lo hi => by simp only at lo hi; omega⟩
  · simp only [Span.Within, Extent.span, Span.ofBytes]
    omega

end Frontier

namespace Runs

/-- The runs do not overlap and lie inside the extent. -/
def Sound (r : Runs) : Prop := r.map.Sound (r.extent.bytes.toNat / 4096)

/-- The addresses of a run. -/
def spanOf (r : Runs) (run : Run) : Span :=
  ⟨r.extent.start.toNat + 4096 * run.first, r.extent.start.toNat + 4096 * (run.first + run.pages)⟩

/-- The span is part of a live run. -/
def Issued (r : Runs) (s : Span) : Prop := ∃ run ∈ r.map.live, s.Within (r.spanOf run)

variable {r r' : Runs} {m m' : Memory}

theorem new_sound (e : Extent) : (new e).Sound := RunMap.empty_sound _

theorem spanOf_apart {run run' : Run} (apart : run.Apart run') : (r.spanOf run).Apart (r.spanOf run') := by
  unfold Run.Apart at apart
  simp only [Span.Apart, spanOf]
  omega

theorem Sound.spanOf_within {run : Run} (sound : r.Sound) (member : run ∈ r.map.live) :
    (r.spanOf run).Within r.extent.span := by
  have proper := sound.proper run (List.mem_append_left _ member)
  have bounded := sound.bounded
  unfold Run.Proper at proper
  simp only [Span.Within, spanOf, Extent.span, Span.ofBytes]
  omega

/-- The live runs have no more pages together than the extent. -/
theorem Sound.sum_pages_le (sound : r.Sound) : (r.map.live.map (·.pages)).sum ≤ r.extent.bytes.toNat / 4096 := by
  have apart : (r.map.live.map fun run => (⟨run.first, run.first + run.pages⟩ : Span)).Pairwise Span.Apart :=
    List.pairwise_map.mpr (List.pairwise_append.mp sound.apart).1
  have inner : ∀ s ∈ r.map.live.map fun run => (⟨run.first, run.first + run.pages⟩ : Span),
      s.Within ⟨0, r.extent.bytes.toNat / 4096⟩ := by
    intro s member
    obtain ⟨run, live, rfl⟩ := List.mem_map.mp member
    exact ⟨Nat.zero_le _, Nat.le_trans (sound.proper run (List.mem_append_left _ live)).2 sound.bounded⟩
  have room := Span.sum_le apart inner
  simpa [Function.comp_def] using room

/-- The distance of a page from the bottom of an extent. -/
theorem toNat_ofPages_ofNat {page : Nat} (small : 4096 * page < 2 ^ 64) : (Word.ofPages (UInt64.ofNat page)).toNat = 4096 * page := by
  have number : (UInt64.ofNat page).toNat = page := UInt64.toNat_ofNat_of_lt' (Nat.lt_of_le_of_lt (by omega) small)
  rw [Word.toNat_ofPages (by rw [number]; omega), number, Nat.mul_comm]

theorem addressOf_ok {page : Nat} {a : Address} (small : 4096 * page < 2 ^ 64)
    (ok : r.addressOf page = .ok a) : a.toNat = r.extent.start.toNat + 4096 * page := by
  rw [(Address.above_ok ok).2.2, toNat_ofPages_ofNat small]

theorem addressOf_total {page : Nat} (fits : r.extent.start.toNat + 4096 * page < 2 ^ 64) : ∃ a, r.addressOf page = .ok a :=
  ⟨_, Address.above_fits (by rw [toNat_ofPages_ofNat (by omega)]; exact fits)⟩

theorem take_ok {pending bytes : Word} {res : Except Denial Address} (placed : r.extent.Placed)
    (sound : r.Sound) (ok : take pending bytes (r, m) = .ok res (r', m')) :
    r'.extent = r.extent ∧ r'.Sound ∧
      (∀ e, res = .error e → r'.map.live = r.map.live ∧ m' = m) ∧
      ∀ a, res = .ok a → ∃ run, r'.map.live = run :: r.map.live ∧
        run.pages = (bytes.toNat + 4095) / 4096 ∧ a.toNat = (r.spanOf run).lo ∧
        AgreeOff m m' (r.spanOf run) ∧ m'.ZeroOn (r.spanOf run) := by
  obtain ⟨-, pages, limit, counted, reach, serves⟩ := takeUnless_iff.mp ok
  have count := Word.toNat_pagesUp counted
  have count' := Word.toNat_pagesUp reach
  have fits := placed.fits
  have pages_start := placed.start
  have pages_bytes := placed.bytes
  have limit_eq : limit.toNat = r.extent.bytes.toNat / 4096 := by omega
  have size := Word.toNat_ofPages_pagesUp counted
  cases serves with
  | exhausted full => exact ⟨rfl, sound, fun _ _ => ⟨rfl, rfl⟩, fun _ other => by cases other⟩
  | refused taken place denied =>
    -- Only a run of no pages is refused, and it comes back at once.
    have zero := (commit_error.mp denied).1
    rw [zero] at size
    have nothing : pages.toNat = 0 := by
      simp only [UInt64.toNat_zero] at size
      omega
    rw [limit_eq, nothing] at taken
    obtain ⟨sound', live⟩ := RunMap.take_nothing sound taken
    refine ⟨rfl, ?_, fun _ _ => ⟨?_, rfl⟩, fun _ other => by cases other⟩
    · simp only [Sound, nothing]
      exact sound'
    · simp only [nothing]
      exact live
  | @granted first _ start _ taken place backed =>
    have positive := pos_of_backed backed
    obtain ⟨-, -, rfl⟩ := commitUnless_ok.mp backed
    rw [limit_eq] at taken
    obtain ⟨sound', live⟩ := RunMap.take_sound sound positive taken
    have proper := sound'.proper ⟨first, pages.toNat⟩ (List.mem_append_left _ (by rw [live]; exact List.mem_cons_self))
    have bounded := sound'.bounded
    unfold Run.Proper at proper
    simp only at proper
    have place : start.toNat = r.extent.start.toNat + 4096 * first := addressOf_ok (by omega) place
    have span : Span.ofBytes start (Word.ofPages pages) = r.spanOf ⟨first, pages.toNat⟩ := by
      simp only [Span.ofBytes, spanOf, Span.mk.injEq]
      omega
    refine ⟨rfl, sound', fun _ other => (by cases other), fun _ same => ?_⟩
    cases same
    refine ⟨⟨first, pages.toNat⟩, live, count, place, ?_, ?_⟩
    · rw [← span]
      exact zero_agree m start _ (by omega) (by omega)
    · rw [← span]
      exact zero_zeroOn m start _ (by omega) (by omega) (by omega)

theorem release_ok {start : Address} {pages : Word} (placed : r.extent.Placed) (sound : r.Sound)
    (ok : release start (r, m) = .ok pages (r', m')) :
    ∃ run ∈ r.map.live, r.extent.start.toNat ≤ start.toNat ∧
      run.first = (start.toNat - r.extent.start.toNat) / 4096 ∧ pages.toNat = run.pages ∧
      r'.extent = r.extent ∧ r'.Sound ∧ List.Perm r.map.live (run :: r'.map.live) ∧
      AgreeOff m m' (r.spanOf run) := by
  obtain ⟨first, run, page, found, rfl, -, rfl, rfl⟩ := release_parts ok
  simp only [pageOf, except_bind_ok, except_pure_ok] at page
  obtain ⟨inside, away, rfl⟩ := page
  obtain ⟨above, amount⟩ := Address.toNat_distance away
  have index : (inside >>> Word.logPage).toNat = (start.toNat - r.extent.start.toNat) / 4096 := by
    rw [UInt64.toNat_shiftRight, amount, Nat.shiftRight_eq_div_pow]
    rfl
  obtain ⟨member, at_first⟩ := RunMap.liveAt_ok found
  obtain ⟨sound', live⟩ := RunMap.release_sound sound member
  have proper := sound.proper run (List.mem_append_left _ member)
  have bounded := sound.bounded
  have fits := placed.fits
  have pages_start := placed.start
  unfold Run.Proper at proper
  have number : (UInt64.ofNat run.pages).toNat = run.pages := by
    rw [UInt64.toNat_ofNat']
    exact Nat.mod_eq_of_lt (by omega)
  have size : (Word.ofPages (UInt64.ofNat run.pages)).toNat = 4096 * run.pages := toNat_ofPages_ofNat (by omega)
  rw [← at_first]
  refine ⟨run, member, above, at_first.trans index, number, rfl, sound', live, ?_⟩
  by_cases aligned : start.word.isAligned Word.pageBytes = true
  · have aligned := (Word.isAligned_iff Word.page_power).mp aligned
    have start_page : start.toNat % 4096 = 0 := aligned
    apply (giveBack_agree m start _ (by omega)).mono
    simp only [Span.Within, Span.ofBytes, spanOf]
    omega
  · have kept : m.giveBack start (Word.ofPages (UInt64.ofNat run.pages)) = m := by
      unfold giveBack
      rw [if_pos (.inr (by simpa using aligned))]
    rw [kept]
    exact AgreeOff.refl m _

end Runs

end Pages

end TracingHeap
