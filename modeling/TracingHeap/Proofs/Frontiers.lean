import TracingHeap.Proofs.Keeping
import TracingHeap.Proofs.Sources

/-! Frontiers over a whole history of requests. Requests are counted in bytes and memory in pages, so a request may need no
page, or some that the next one shares. What was handed out since the last reset is one row of spans from the bottom up, and
what is backed is the pages that the row reaches into. -/

namespace TracingHeap

/-- The spans lie in a row from `lo` on, each where the one before it ends, and the last one ends at `hi`. -/
def Span.Chain (lo : Nat) : List Span → Nat → Prop
  | [], hi => hi = lo
  | s :: rest, hi => s.lo = lo ∧ s.lo ≤ s.hi ∧ Chain s.hi rest hi

namespace Span.Chain

variable {lo mid hi : Nat} {spans : List Span}

/-- A row can be made longer at its end. -/
theorem append (chain : Chain lo spans mid) (order : mid ≤ hi) : Chain lo (spans ++ [⟨mid, hi⟩]) hi := by
  induction spans generalizing lo with
  | nil =>
    cases chain
    exact ⟨rfl, order, rfl⟩
  | cons s rest ih => exact ⟨chain.1, chain.2.1, ih chain.2.2⟩

theorem low (chain : Chain lo spans hi) : ∀ s ∈ spans, lo ≤ s.lo := by
  induction spans generalizing lo with
  | nil => nofun
  | cons s rest ih =>
    intro t member
    obtain ⟨start, order, rest⟩ := chain
    rcases List.mem_cons.mp member with rfl | later
    · exact Nat.le_of_eq start.symm
    · have := ih rest t later
      omega

/-- No two spans of a row overlap, and the later ones lie higher. -/
theorem increasing (chain : Chain lo spans hi) : spans.Pairwise fun r s => r.hi ≤ s.lo := by
  induction spans generalizing lo with
  | nil => exact .nil
  | cons s rest ih => exact .cons (low chain.2.2) (ih chain.2.2)

end Span.Chain

namespace Pages.Frontier

open Memory Step

/-- The states that a frontier of an extent comes to, each with the pages that are promised for requests to come and with what
was handed out since the last reset. -/
inductive Arises (e : Extent) : Nat → List Span → Frontier → Prop
  | new : Arises e 0 [] (new e)
  | promised {owed : Nat} {spans : List Span} {f f' : Frontier} {m m' : Memory} {pages : Word} (before : Arises e owed spans f)
      (ran : Source.onLedger (Ledger.reserve pages) (f, m) = .ok () (f', m')) : Arises e (owed + pages.toNat) spans f'
  | withdrawn {owed : Nat} {spans : List Span} {f f' : Frontier} {m m' : Memory} {pages : Word} (before : Arises e owed spans f)
      (owes : pages.toNat ≤ owed) (ran : Source.onLedger (Ledger.withdraw pages) (f, m) = .ok () (f', m')) :
      Arises e (owed - pages.toNat) spans f'
  | served {owed : Nat} {spans : List Span} {f f' : Frontier} {m m' : Memory} {refusal : Option Refusal} {pending bytes : Word}
      {a : Address} (before : Arises e owed spans f) (owes : pending.toNat ≤ owed)
      (ran : takeUnless refusal pending bytes (f, m) = .ok (.ok a) (f', m')) :
      Arises e (owed - pending.toNat) (spans ++ [.ofBytes a bytes]) f'
  | denied {owed : Nat} {spans : List Span} {f f' : Frontier} {m m' : Memory} {refusal : Option Refusal} {pending bytes : Word}
      {denial : Denial} (before : Arises e owed spans f) (owes : pending.toNat ≤ owed)
      (ran : takeUnless refusal pending bytes (f, m) = .ok (.error denial) (f', m')) : Arises e (owed - pending.toNat) spans f'
  | reset {spans : List Span} {f f' : Frontier} {m m' : Memory} {range : Address × Word} (before : Arises e 0 spans f)
      (ran : reset (f, m) = .ok range (f', m')) : Arises e 0 [] f'

/-- What was handed out is a row of spans from the bottom to the cursor. The pages that it reaches into are backed, and they
are counted besides those that are promised. -/
structure Settled (e : Extent) (owed : Nat) (spans : List Span) (f : Frontier) : Prop where
  extent : f.extent = e
  low : e.start.toNat ≤ f.cursor.toNat
  limit : f.limit.toNat = (f.cursor.toNat + 4095) / 4096 * 4096
  stop : f.limit.toNat ≤ e.span.hi
  counts : f.ledger.Counts ((f.limit.toNat - e.start.toNat) / 4096) owed
  row : Span.Chain e.start.toNat spans f.cursor.toNat

variable {e : Extent} {owed : Nat} {spans : List Span} {f f' : Frontier} {m m' : Memory} {refusal : Option Refusal}
  {pending bytes pages : Word} {a cursor : Address} {answer : Except Denial Address}

theorem new_settled (paged : e.Paged) : (new e).Settled e 0 [] where
  extent := rfl
  low := Nat.le_refl _
  limit := by
    have start := paged.start
    simp only [new]
    omega
  stop := Nat.le_add_right ..
  counts := by
    simp only [new, Nat.sub_self, Nat.zero_div]
    exact Ledger.empty_counts
  row := rfl

theorem Settled.withdrawn (settled : f.Settled e owed spans) (owes : pages.toNat ≤ owed) :
    Settled e (owed - pages.toNat) spans { f with ledger := f.ledger.withdrawn pages } :=
  { settled with counts := settled.counts.withdrawn owes }

/-- The bytes above the cursor are handed out, and the pages that they reach into are backed. -/
theorem Settled.serves (settled : f.Settled e owed spans) (paged : e.Paged)
    (serves : Serves refusal bytes f m (.ok a) f' m') : f'.Settled e owed (spans ++ [.ofBytes a bytes]) := by
  cases serves with
  | @granted cursor stop f₁ _ reach ends room grows =>
    have place := (Address.above_ok reach).2.2
    have high : cursor.toNat ≤ e.span.hi := by
      rw [← settled.extent, ← Extent.stop_ok ends]
      exact Address.le_iff.mp room
    have limit := settled.limit
    have low := settled.low
    have row : Span.Chain e.start.toNat (spans ++ [.ofBytes f.cursor bytes]) cursor.toNat := by
      rw [place]
      exact settled.row.append (Nat.le_add_right ..)
    cases grows with
    | enough below =>
      have below := Address.le_iff.mp below
      have page : (cursor.toNat + 4095) / 4096 = (f.cursor.toNat + 4095) / 4096 := by omega
      refine ⟨settled.extent, ?_, ?_, settled.stop, settled.counts, row⟩
      · simp only
        omega
      · simp only [page]
        exact limit
    | @raised growth pages _ above missing granted counted =>
      have above := Address.lt_iff.mp above
      have raised := paged.toNat_alignUp high
      have amount := (Address.toNat_distance missing).2
      have count := Word.toNat_pagesUp counted
      have start := paged.start
      have whole := paged.bytes
      have small := cursor.toNat_lt
      have held : (f.limit.toNat - e.start.toNat) / 4096 + pages.toNat =
          ((cursor.alignUp Word.pageBytes).toNat - e.start.toNat) / 4096 := by omega
      simp only [Extent.span, Span.ofBytes] at high
      refine ⟨settled.extent, ?_, raised, ?_, ?_, row⟩
      · simp only
        omega
      · simp only [Extent.span, Span.ofBytes]
        omega
      · have counts : (f.ledger.backed pages).Counts _ owed := settled.counts.backed (by omega)
        rwa [held] at counts

/-- A request that is refused leaves everything but its promise. -/
theorem Serves.still {denial : Denial} (serves : Serves refusal bytes f m (.error denial) f' m') : f' = f ∧ m' = m := by
  cases serves with
  | exhausted => exact ⟨rfl, rfl⟩
  | refused _ _ _ grows => exact grows.still

theorem Arises.settled (paged : e.Paged) (arises : Arises e owed spans f) : f.Settled e owed spans := by
  induction arises with
  | new => exact new_settled paged
  | promised _ ran settled =>
    simp only [Source.onLedger, on_ok, Ledger.reserve_ok] at ran
    obtain ⟨_, rfl, same⟩ := ran
    cases same
    exact { settled with counts := settled.counts.promised }
  | withdrawn _ owes ran settled =>
    simp only [Source.onLedger, on_ok, Ledger.withdraw_ok] at ran
    obtain ⟨_, ⟨-, rfl⟩, same⟩ := ran
    cases same
    exact settled.withdrawn owes
  | served _ owes ran settled => exact (settled.withdrawn owes).serves paged (takeUnless_iff.mp ran).2.2
  | denied _ owes ran settled =>
    obtain ⟨rfl, -⟩ := (takeUnless_iff.mp ran).2.2.still
    exact settled.withdrawn owes
  | reset _ ran settled =>
    rw [reset_new ran, settled.extent]
    exact new_settled paged

/-! ### What a request comes to -/

/-- Memory up to a cursor inside the extent is backed, unless the system refuses. -/
theorem grow_total (f : Frontier) (m : Memory) (refusal : Option Refusal) (paged : e.Paged) (high : cursor.toNat ≤ e.span.hi) :
    ∃ r f' m', Grows refusal cursor f m r f' m' := by
  by_cases below : cursor ≤ f.limit
  · exact ⟨_, _, _, .enough below⟩
  · have above := Address.not_le.mp below
    have order := Address.lt_iff.mp above
    have raised := paged.toNat_alignUp high
    have inner : (cursor.alignUp Word.pageBytes).toNat ≤ e.span.hi := by
      have start := paged.start
      have bytes := paged.bytes
      simp only [Extent.span, Span.ofBytes] at high ⊢
      omega
    have fits := paged.fits
    obtain ⟨growth, missing⟩ : ∃ growth, (cursor.alignUp Word.pageBytes).distance f.limit = .ok growth :=
      ⟨_, Address.distance_ok.mpr ⟨by omega, rfl⟩⟩
    have amount := (Address.toNat_distance missing).2
    obtain ⟨pages, counted⟩ : ∃ pages, growth.pagesUp = .ok pages := Word.pagesUp_total (by omega)
    cases back : m.commitUnless refusal f.limit growth with
    | error cause => exact ⟨_, _, _, .refused above missing back⟩
    | ok grown => exact ⟨_, _, _, .raised above missing back counted⟩

/-- A request whose end is an address is answered. -/
theorem serves_total (f : Frontier) (m : Memory) (refusal : Option Refusal) (paged : f.extent.Paged)
    (reach : f.cursor.toNat + bytes.toNat < 2 ^ 64) : ∃ answer f' m', Serves refusal bytes f m answer f' m' := by
  have fits := paged.fits
  have ends : f.extent.stop = .ok _ := Address.above_fits (by simp only [Extent.span, Span.ofBytes] at fits; omega)
  have above := Address.above_fits reach
  by_cases past : f.extent.start.plus f.extent.bytes < f.cursor.plus bytes
  · exact ⟨_, _, _, .exhausted above ends past⟩
  · have room := Address.not_lt.mp past
    obtain ⟨r, f', m', grows⟩ := grow_total f m refusal paged (Extent.stop_ok ends ▸ Address.le_iff.mp room)
    cases r with
    | error cause => exact ⟨_, _, _, .refused above ends room grows⟩
    | ok _ => exact ⟨_, _, _, .granted above ends room grows⟩

/-- A request is refused as too long just if it ends above the extent. -/
theorem Serves.exhausted_iff (serves : Serves refusal bytes f m answer f' m') :
    answer = .error .exhausted ↔ f.extent.span.hi < f.cursor.toNat + bytes.toNat := by
  cases serves with
  | exhausted reach ends past =>
    refine iff_of_true rfl ?_
    rw [← Extent.stop_ok ends, ← (Address.above_ok reach).2.2]
    exact Address.lt_iff.mp past
  | refused reach ends room =>
    refine iff_of_false nofun (Nat.not_lt.mpr ?_)
    rw [← Extent.stop_ok ends, ← (Address.above_ok reach).2.2]
    exact Address.le_iff.mp room
  | granted reach ends room =>
    refine iff_of_false nofun (Nat.not_lt.mpr ?_)
    rw [← Extent.stop_ok ends, ← (Address.above_ok reach).2.2]
    exact Address.le_iff.mp room

/-- What a frontier handed out since the last reset lies in a row from the bottom up to the cursor, and the pages that it
reaches into are backed and counted. A request of whole units whose end is an address is answered: it is too long just if it
ends above the extent, and if it is refused, only its promise is gone. -/
theorem Arises.served_in_a_row (paged : e.Paged) (arises : Arises e owed spans f) :
    f.Settled e owed spans ∧ f.cursor ≤ f.limit ∧ spans.Pairwise (fun r s => r.hi ≤ s.lo) ∧
      ∀ refusal pending bytes m, bytes % 16 = 0 → f.cursor.toNat + bytes.toNat < 2 ^ 64 → pending ≤ f.ledger.reserved →
        ∃ answer f' m', takeUnless refusal pending bytes (f, m) = .ok answer (f', m') ∧
          (answer = .error .exhausted ↔ e.span.hi < f.cursor.toNat + bytes.toNat) ∧
          ∀ denial, answer = .error denial → f' = { f with ledger := f.ledger.withdrawn pending } ∧ m' = m := by
  have settled := arises.settled paged
  have limit := settled.limit
  refine ⟨settled, Address.le_iff.mpr (by omega), settled.row.increasing, fun refusal pending bytes m whole reach promised => ?_⟩
  obtain ⟨answer, f', m', serves⟩ :=
    serves_total { f with ledger := f.ledger.withdrawn pending } m refusal (settled.extent.symm ▸ paged) reach
  refine ⟨answer, f', m', takeUnless_iff.mpr ⟨whole, promised, serves⟩, ?_, fun denial refused => ?_⟩
  · rw [← settled.extent]
    exact serves.exhausted_iff
  · subst refused
    exact serves.still

/-- An extent of four pages. -/
def fourPages : Extent := ⟨⟨1⟩, ⟨4194304⟩, 16384⟩

/-- What was handed out is taken back once. Then two requests are served, the next is refused by the system, and the last
one is too long. -/
def climbing : Step (Frontier × Memory) (List (Except Denial Address)) := do
  Source.onLedger (Ledger.reserve 1)
  let early ← takeUnless none 1 32
  let _ ← reset
  Source.onLedger (Ledger.reserve 6)
  let first ← takeUnless none 1 64
  let second ← takeUnless none 1 4096
  let refused ← takeUnless (some .noMemory) 1 8192
  let full ← takeUnless none 1 16384
  return [early, first, second, refused, full]

/-- Where the frontier is then. -/
def climbed : Frontier := (climbing.left (new fourPages, .empty)).1

theorem climbed_arises : Arises fourPages 2 [⟨4194304, 4194368⟩, ⟨4194368, 4198464⟩] climbed := by
  have ran : climbing (new fourPages, .empty) = .ok [.ok ⟨4194304⟩, .ok ⟨4194304⟩, .ok ⟨4194368⟩,
      .error (.uncommitted .noMemory), .error .exhausted] (climbed, _) := answer_ok (by decide)
  simp only [climbing, bind_ok] at ran
  obtain ⟨_, ⟨_, _⟩, promised, _, ⟨_, _⟩, early, _, ⟨_, _⟩, back, _, ⟨_, _⟩, promised', _, ⟨_, _⟩, first, _, ⟨_, _⟩, second,
    _, ⟨_, _⟩, refused, _, ⟨_, _⟩, full, last⟩ := ran
  obtain ⟨answers, same⟩ := pure_ok.mp last
  cases answers
  cases same
  exact .denied (.denied (.served (.served (.promised (.reset (.served (.promised .new promised) (by decide) early) back) promised')
    (by decide) first) (by decide) second) (by decide) refused) (by decide) full

/-- Two pages are backed, and two more are promised. -/
theorem climbed_in_a_row : fourPages.Paged ∧ climbed = ⟨fourPages, ⟨4, 2⟩, ⟨4198464⟩, ⟨4202496⟩⟩ ∧
    climbed.Settled fourPages 2 [⟨4194304, 4194368⟩, ⟨4194368, 4198464⟩] ∧ climbed.cursor ≤ climbed.limit ∧
      [(⟨4194304, 4194368⟩ : Span), ⟨4194368, 4198464⟩].Pairwise (fun r s => r.hi ≤ s.lo) ∧
      ∀ refusal pending bytes m, bytes % 16 = 0 → climbed.cursor.toNat + bytes.toNat < 2 ^ 64 → pending ≤ climbed.ledger.reserved →
        ∃ answer f' m', takeUnless refusal pending bytes (climbed, m) = .ok answer (f', m') ∧
          (answer = .error .exhausted ↔ fourPages.span.hi < climbed.cursor.toNat + bytes.toNat) ∧
          ∀ denial, answer = .error denial → f' = { climbed with ledger := climbed.ledger.withdrawn pending } ∧ m' = m := by
  have paged : fourPages.Paged := ⟨by decide, by decide, by decide⟩
  exact ⟨paged, by decide, Arises.served_in_a_row paged climbed_arises⟩

end Pages.Frontier

end TracingHeap
