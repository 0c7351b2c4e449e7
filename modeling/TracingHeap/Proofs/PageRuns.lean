import TracingHeap.Proofs.Keeping
import TracingHeap.Proofs.Sources
import TracingHeap.Proofs.Tilings

/-! Runs of pages over a whole history of requests, whether served, refused because the extent is full, or refused by the
system. The live runs tell everything: where the free ones are, how far up pages were ever used, and how many pages are
counted. So a request finds the lowest place where its pages fit, and fails only if there is none. -/

namespace TracingHeap.Pages.Runs

open List Memory Step

/-- The states that runs of pages of an extent come to, each with the pages that are promised for requests to come. -/
inductive Arises (e : Extent) : Nat → Runs → Prop
  | new : Arises e 0 (new e)
  | promised {owed : Nat} {r r' : Runs} {m m' : Memory} {pages : Word} (before : Arises e owed r)
      (ran : Source.onLedger (Ledger.reserve pages) (r, m) = .ok () (r', m')) : Arises e (owed + pages.toNat) r'
  | withdrawn {owed : Nat} {r r' : Runs} {m m' : Memory} {pages : Word} (before : Arises e owed r) (owes : pages.toNat ≤ owed)
      (ran : Source.onLedger (Ledger.withdraw pages) (r, m) = .ok () (r', m')) : Arises e (owed - pages.toNat) r'
  | asked {owed : Nat} {r r' : Runs} {m m' : Memory} {refusal : Option Refusal} {pending bytes : Word}
      {answer : Except Denial Address} (before : Arises e owed r) (owes : pending.toNat ≤ owed)
      (ran : takeUnless refusal pending bytes (r, m) = .ok answer (r', m')) : Arises e (owed - pending.toNat) r'
  | released {owed : Nat} {r r' : Runs} {m m' : Memory} {start : Address} {pages : Word} (before : Arises e owed r)
      (ran : release start (r, m) = .ok pages (r', m')) : Arises e owed r'

/-- Live and free runs tile the extent, and the ledger counts the live ones. -/
structure Settled (e : Extent) (owed : Nat) (r : Runs) : Prop where
  extent : r.extent = e
  tiled : r.map.Tiled (e.bytes.toNat / 4096)
  counts : r.ledger.Counts (r.map.live.map (·.pages)).sum owed

variable {e : Extent} {owed owed' : Nat} {r r' : Runs} {m m' : Memory} {refusal : Option Refusal} {pending bytes pages limit : Word}
  {answer : Except Denial Address}

theorem new_settled (e : Extent) : (new e).Settled e 0 := ⟨rfl, RunMap.empty_tiled _, Ledger.empty_counts⟩

theorem Settled.sound (settled : r.Settled e owed) : r.Sound := by
  have sound := settled.tiled.sound
  rwa [← settled.extent] at sound

/-- The live runs of an extent have fewer pages than there are words. -/
theorem Settled.sum_lt (settled : r.Settled e owed) : (r.map.live.map (·.pages)).sum < 2 ^ 64 := by
  have few := settled.sound.sum_pages_le
  have bound := r.extent.bytes.toNat_lt
  omega

theorem Settled.toNat_limit (settled : r.Settled e owed) (whole : e.bytes.toNat % 4096 = 0)
    (reach : r.extent.bytes.pagesUp = .ok limit) : limit.toNat = e.bytes.toNat / 4096 := by
  have count := Word.toNat_pagesUp reach
  rw [settled.extent] at count
  omega

theorem Settled.withdrawn (settled : r.Settled e owed) (owes : pages.toNat ≤ owed) :
    Settled e (owed - pages.toNat) { r with ledger := r.ledger.withdrawn pages } :=
  ⟨settled.extent, settled.tiled, settled.counts.withdrawn owes⟩

/-- However a request is answered, live and free runs tile the extent. -/
theorem Settled.serves (settled : r.Settled e owed) (whole : e.bytes.toNat % 4096 = 0)
    (reach : r.extent.bytes.pagesUp = .ok limit) (serves : Serves refusal pages limit r m answer r' m') : r'.Settled e owed := by
  have limit_eq := settled.toNat_limit whole reach
  cases serves with
  | exhausted full => exact settled
  | refused taken place denied =>
    rw [limit_eq] at taken
    rw [settled.tiled.coalesced.undo settled.tiled.sound taken]
    exact settled
  | granted taken place backed =>
    have positive := pos_of_backed backed
    rw [limit_eq] at taken
    have live := (RunMap.take_sound settled.tiled.sound positive taken).2
    have tiled := settled.tiled.take positive taken
    have sum : (r.map.live.map (·.pages)).sum + pages.toNat < 2 ^ 64 := by
      have few := Sound.sum_pages_le (r := { r with map := _ }) (settled.extent.symm ▸ tiled.sound)
      have bound := r.extent.bytes.toNat_lt
      simp only [live, map_cons, sum_cons] at few
      omega
    refine ⟨settled.extent, tiled, ?_⟩
    simp only [live, map_cons, sum_cons]
    rw [Nat.add_comm]
    exact settled.counts.backed sum

/-- A run that is taken back is written off. -/
theorem Settled.release {start : Address} (settled : r.Settled e owed) (ran : release start (r, m) = .ok pages (r', m')) :
    r'.Settled e owed := by
  obtain ⟨first, run, -, found, rfl, -, -, rfl⟩ := release_parts ran
  obtain ⟨member, rfl⟩ := RunMap.liveAt_ok found
  have live := (RunMap.release_sound settled.tiled.sound member).2
  have sum := (live.map (·.pages)).sum_nat
  rw [map_cons, sum_cons] at sum
  have number : (UInt64.ofNat run.pages).toNat = run.pages :=
    UInt64.toNat_ofNat_of_lt' (Nat.lt_of_le_of_lt (by omega) settled.sum_lt)
  refine ⟨settled.extent, settled.tiled.release member, Ledger.Counts.released ?_⟩
  rw [number, Nat.add_comm, ← sum]
  exact settled.counts

theorem Arises.settled (whole : e.bytes.toNat % 4096 = 0) (arises : Arises e owed r) : r.Settled e owed := by
  induction arises with
  | new => exact new_settled e
  | promised _ ran settled =>
    simp only [Source.onLedger, on_ok, Ledger.reserve_ok] at ran
    obtain ⟨_, rfl, same⟩ := ran
    cases same
    exact ⟨settled.extent, settled.tiled, settled.counts.promised⟩
  | withdrawn _ owes ran settled =>
    simp only [Source.onLedger, on_ok, Ledger.withdraw_ok] at ran
    obtain ⟨_, ⟨-, rfl⟩, same⟩ := ran
    cases same
    exact settled.withdrawn owes
  | asked _ owes ran settled =>
    obtain ⟨-, pages, limit, -, reach, serves⟩ := takeUnless_iff.mp ran
    exact (settled.withdrawn owes).serves whole reach serves
  | released _ ran settled => exact settled.release ran

/-! ### What the live runs tell -/

/-- The live runs of an extent, and what follows from them. -/
structure Canonical (e : Extent) (owed : Nat) (r : Runs) : Prop where
  extent : r.extent = e
  nonempty : ∀ run ∈ r.map.live, 0 < run.pages
  apart : r.map.live.Pairwise Run.Apart
  inside : ∀ run ∈ r.map.live, (r.spanOf run).Within e.span
  /-- The high-water mark is the highest end of a live run, or the bottom. -/
  highWater : r.map.highWater = (r.map.live.map fun run => run.first + run.pages).foldr max 0
  /-- The free runs are all gaps between the live ones. -/
  free : ∀ run, run ∈ r.map.free ↔ run.Gap r.map.live r.map.highWater
  /-- The pages of live runs are counted, and so are those that are promised. -/
  counts : r.ledger.Counts (r.map.live.map (·.pages)).sum owed

theorem Settled.canonical (settled : r.Settled e owed) : r.Canonical e owed where
  extent := settled.extent
  nonempty _ live := (settled.tiled.sound.proper _ (mem_append_left _ live)).1
  apart := (pairwise_append.mp settled.tiled.sound.apart).1
  inside _ live := settled.extent ▸ settled.sound.spanOf_within live
  highWater := settled.tiled.highWater_eq
  free _ := settled.tiled.mem_free_iff
  counts := settled.counts

/-- Runs of pages are what their live runs tell, whatever requests led to them: the same live runs come with the same free
runs, the same high-water mark and the same number of pages. -/
theorem Arises.determined_by_live (whole : e.bytes.toNat % 4096 = 0) (arises : Arises e owed r) : r.Canonical e owed ∧
    ∀ owed' r', Arises e owed' r' → (∀ run, run ∈ r.map.live ↔ run ∈ r'.map.live) →
      r.map.highWater = r'.map.highWater ∧ r.map.free = r'.map.free ∧ r.ledger.committed = r'.ledger.committed := by
  have settled := arises.settled whole
  refine ⟨settled.canonical, fun owed' r' arises' same => ?_⟩
  have settled' := arises'.settled whole
  obtain ⟨mark, free⟩ := settled.tiled.determined settled'.tiled same
  refine ⟨mark, free, UInt64.toNat_inj.mp ?_⟩
  rw [settled.counts.committed, settled'.counts.committed]
  have perm := (perm_ext_iff_of_nodup settled.tiled.live_nodup settled'.tiled.live_nodup).mpr same
  exact (perm.map _).sum_nat

/-- An extent of eight pages. -/
def eightPages : Extent := ⟨⟨1⟩, ⟨4194304⟩, 32768⟩

/-- Two pages and then three are handed out, one more is refused by the system, ten do not fit, and the two come back. -/
def wearing : Step (Runs × Memory) (List (Except Denial Address)) := do
  Source.onLedger (Ledger.reserve 9)
  let first ← takeUnless none 2 8192
  let second ← takeUnless none 3 12288
  let refused ← takeUnless (some .noMemory) 0 4096
  let full ← takeUnless none 0 40960
  let _ ← release ⟨4194304⟩
  return [first, second, refused, full]

/-- What is left of the eight pages then. -/
def worn : Runs := (wearing.left (new eightPages, .empty)).1

theorem worn_arises : Arises eightPages 4 worn := by
  have ran : wearing (new eightPages, .empty) =
      .ok [.ok ⟨4194304⟩, .ok ⟨4202496⟩, .error (.uncommitted .noMemory), .error .exhausted] (worn, _) := answer_ok (by decide)
  simp only [wearing, bind_ok] at ran
  obtain ⟨_, ⟨_, _⟩, promised, _, ⟨_, _⟩, first, _, ⟨_, _⟩, second, _, ⟨_, _⟩, refused, _, ⟨_, _⟩, full, _, ⟨_, _⟩, back, last⟩ := ran
  cases (pure_ok.mp last).2
  exact .released (.asked (.asked (.asked (.asked (.promised .new promised) (by decide) first) (by decide) second) (by decide) refused)
    (by decide) full) back

/-- Five pages are in use in the end, and the first two of them are free again. -/
theorem worn_determined : eightPages.bytes.toNat % 4096 = 0 ∧ worn.map = ⟨[⟨0, 2⟩], [⟨2, 3⟩], 5⟩ ∧ worn.Canonical eightPages 4 ∧
    ∀ owed' r', Arises eightPages owed' r' → (∀ run, run ∈ worn.map.live ↔ run ∈ r'.map.live) →
      worn.map.highWater = r'.map.highWater ∧ worn.map.free = r'.map.free ∧ worn.ledger.committed = r'.ledger.committed :=
  ⟨by decide, by decide, Arises.determined_by_live (by decide) worn_arises⟩

/-! ### The lowest place -/

/-- A request for pages that the system backs is served from the lowest place where they fit in, and is refused just if they
fit in nowhere. -/
theorem Arises.take_lowest (paged : e.Paged) (arises : Arises e owed r) (promised : pending ≤ r.ledger.reserved)
    (counted : bytes.pagesUp = .ok pages) (positive : 0 < pages.toNat) (m : Memory) :
    ∃ answer r' m', take pending bytes (r, m) = .ok answer (r', m') ∧
      (answer = .error .exhausted ↔ ∀ first, ¬ RunMap.Fits r.map.live (e.bytes.toNat / 4096) pages.toNat first) ∧
      (answer ≠ .error .exhausted → ∃ first a,
        IsLeast {first | RunMap.Fits r.map.live (e.bytes.toNat / 4096) pages.toNat first} first ∧
          answer = .ok a ∧ a.toNat = e.start.toNat + 4096 * first ∧ r'.map.live = ⟨first, pages.toNat⟩ :: r.map.live) := by
  have settled := arises.settled paged.bytes
  have fits := paged.fits
  simp only [Extent.span, Span.ofBytes] at fits
  obtain ⟨limit, reach⟩ : ∃ limit, r.extent.bytes.pagesUp = .ok limit := Word.pagesUp_total (by rw [settled.extent]; omega)
  have limit_eq := settled.toNat_limit paged.bytes reach
  cases taken : r.map.take pages.toNat limit.toNat with
  | none =>
    refine ⟨_, _, m, takeUnless_iff.mpr ⟨promised, pages, limit, counted, reach, .exhausted taken⟩, ?_, fun other => absurd rfl other⟩
    rw [limit_eq] at taken
    exact iff_of_true rfl ((settled.tiled.take_eq_none_iff positive).mp taken)
  | some found =>
    obtain ⟨first, map⟩ := found
    have found := taken
    rw [limit_eq] at found
    obtain ⟨place, lowest⟩ := settled.tiled.take_least positive found
    have high := place.1
    obtain ⟨a, there⟩ : ∃ a, r.addressOf first = .ok a := addressOf_total (by rw [settled.extent]; omega)
    have size : Word.ofPages pages ≠ 0 := fun zero => by
      have size := Word.toNat_ofPages_pagesUp counted
      rw [zero, UInt64.toNat_zero] at size
      omega
    refine ⟨_, _, _, takeUnless_iff.mpr ⟨promised, pages, limit, counted, reach,
      .granted taken there (commitUnless_ok.mpr ⟨rfl, size, rfl⟩)⟩, ?_, fun _ => ⟨first, a, ⟨place, fun other => lowest other⟩, rfl, ?_, ?_⟩⟩
    · exact iff_of_false (fun same => by cases same) fun nowhere => nowhere first place
    · rw [addressOf_ok (by omega) there, settled.extent]
    · exact (RunMap.take_sound settled.tiled.sound positive found).2

/-- Three pages do not fit in where the first two came back, but above the mark. -/
theorem worn_take_lowest : eightPages.Paged ∧ (4 : Word) ≤ worn.ledger.reserved ∧ Word.pagesUp 12288 = .ok 3 ∧
    ∃ answer r' m', take 4 12288 (worn, .empty) = .ok answer (r', m') ∧
      (answer = .error .exhausted ↔ ∀ first, ¬ RunMap.Fits worn.map.live (eightPages.bytes.toNat / 4096) 3 first) ∧
      (answer ≠ .error .exhausted → ∃ first a,
        IsLeast {first | RunMap.Fits worn.map.live (eightPages.bytes.toNat / 4096) 3 first} first ∧
          answer = .ok a ∧ a.toNat = eightPages.start.toNat + 4096 * first ∧ r'.map.live = ⟨first, 3⟩ :: worn.map.live) := by
  have paged : eightPages.Paged := ⟨by decide, by decide, by decide⟩
  have promised : (4 : Word) ≤ worn.ledger.reserved := by decide
  have counted : Word.pagesUp 12288 = .ok 3 := rfl
  exact ⟨paged, promised, counted, Arises.take_lowest paged worn_arises promised counted (by decide) .empty⟩

/-- It is the place of the sixth page. -/
example : (take 4 12288).answer (worn, .empty) = some (.ok ⟨4194304 + 4096 * 5⟩) := by decide

end TracingHeap.Pages.Runs
