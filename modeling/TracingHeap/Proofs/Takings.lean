import TracingHeap.Pages.Source
import TracingHeap.Proofs.Ledgers
import TracingHeap.Proofs.Memory

/-! How a request to a source of pages comes to its answer. The promise for it is withdrawn first; then it is refused,
because the extent is full or the system backs no more memory, or it is served. For requests these facts are equivalences,
so that they also say when an answer comes at all. -/

namespace TracingHeap.Pages

open Step

namespace Frontier

variable {f f' : Frontier} {m m' : Memory} {refusal : Option Refusal} {pending bytes : Word} {cursor : Address}

/-- What a frontier does to have everything below a cursor backed by memory. -/
inductive Grows (refusal : Option Refusal) (cursor : Address) (f : Frontier) (m : Memory) :
    Except Refusal Unit → Frontier → Memory → Prop
  /-- It is backed already. -/
  | enough (below : cursor ≤ f.limit) : Grows refusal cursor f m (.ok ()) f m
  /-- The system refuses the pages that are missing. -/
  | refused {growth : Word} {cause : Refusal} (above : f.limit < cursor)
      (missing : (cursor.alignUp Word.pageBytes).distance f.limit = .ok growth)
      (denied : m.commitUnless refusal f.limit growth = .error cause) : Grows refusal cursor f m (.error cause) f m
  /-- The limit rises to the end of the page that the cursor ends in. -/
  | raised {growth pages : Word} {m' : Memory} (above : f.limit < cursor)
      (missing : (cursor.alignUp Word.pageBytes).distance f.limit = .ok growth)
      (granted : m.commitUnless refusal f.limit growth = .ok m') (counted : growth.pagesUp = .ok pages) :
      Grows refusal cursor f m (.ok ()) { f with ledger := f.ledger.backed pages, limit := cursor.alignUp Word.pageBytes } m'

/-- A frontier that is refused memory has not grown. -/
theorem Grows.still {cause : Refusal} (grows : Grows refusal cursor f m (.error cause) f' m') : f' = f ∧ m' = m := by
  cases grows
  exact ⟨rfl, rfl⟩

theorem grow_iff {r : Except Refusal Unit} : grow refusal cursor (f, m) = .ok r (f', m') ↔ Grows refusal cursor f m r f' m' := by
  unfold grow
  rw [get_bind]
  dsimp only
  constructor
  · intro ok
    split at ok
    · rename_i below
      cases ok
      exact .enough below
    · rename_i short
      have above : f.limit < cursor := Address.not_le.mp short
      simp only [bind_ok, lift_ok] at ok
      obtain ⟨growth, -, ⟨missing, rfl⟩, ok⟩ := ok
      cases back : m.commitUnless refusal f.limit growth with
      | error cause =>
        rw [back] at ok
        obtain ⟨rfl, same⟩ := pure_ok.mp ok
        cases same
        exact .refused above missing back
      | ok grown =>
        rw [back] at ok
        simp only [bind_ok, lift_ok, set_bind, on_ok, Ledger.commit_ok, modify_bind, pure_ok, Prod.mk.injEq] at ok
        obtain ⟨pages, -, ⟨counted, rfl⟩, -, -, ⟨-, rfl, rfl⟩, rfl, rfl, rfl⟩ := ok
        exact .raised above missing back counted
  · intro grows
    cases grows with
    | enough below => rw [if_pos below]; rfl
    | refused above missing denied =>
      rw [if_neg (Address.not_le.mpr above)]
      simp only [bind_ok, lift_ok]
      exact ⟨_, _, ⟨missing, rfl⟩, by rw [denied]; rfl⟩
    | raised above missing granted counted =>
      rw [if_neg (Address.not_le.mpr above)]
      simp only [bind_ok, lift_ok]
      refine ⟨_, _, ⟨missing, rfl⟩, ?_⟩
      rw [granted]
      simp only [bind_ok, lift_ok, set_bind, on_ok, Ledger.commit_ok, modify_bind, pure_ok]
      refine ⟨_, _, ⟨counted, rfl⟩, (), _, ⟨_, rfl, rfl⟩, trivial, ?_⟩
      simp only [Focus.comp, Focus.fst, ledgerPart, Ledger.backed]

/-- What a frontier answers to a request for bytes. -/
inductive Serves (refusal : Option Refusal) (bytes : Word) (f : Frontier) (m : Memory) :
    Except Denial Address → Frontier → Memory → Prop
  /-- The bytes would end above the extent. -/
  | exhausted {cursor stop : Address} (reach : f.cursor.above bytes = .ok cursor) (ends : f.extent.stop = .ok stop)
      (past : stop < cursor) : Serves refusal bytes f m (.error .exhausted) f m
  /-- The system refuses to back them. -/
  | refused {cursor stop : Address} {cause : Refusal} {f' : Frontier} {m' : Memory} (reach : f.cursor.above bytes = .ok cursor)
      (ends : f.extent.stop = .ok stop) (room : cursor ≤ stop) (grows : Grows refusal cursor f m (.error cause) f' m') :
      Serves refusal bytes f m (.error (.uncommitted cause)) f' m'
  /-- The bytes above the cursor are handed out. -/
  | granted {cursor stop : Address} {f' : Frontier} {m' : Memory} (reach : f.cursor.above bytes = .ok cursor)
      (ends : f.extent.stop = .ok stop) (room : cursor ≤ stop) (grows : Grows refusal cursor f m (.ok ()) f' m') :
      Serves refusal bytes f m (.ok f.cursor) { f' with cursor } m'

theorem takeUnless_iff {r : Except Denial Address} : takeUnless refusal pending bytes (f, m) = .ok r (f', m') ↔
    bytes % 16 = 0 ∧ pending ≤ f.ledger.reserved ∧
      Serves refusal bytes { f with ledger := f.ledger.withdrawn pending } m r f' m' := by
  simp only [takeUnless, bind_ok, ensure_ok, on_ok, Ledger.withdraw_ok, get_bind, lift_ok, ite_step, beq_iff_eq]
  constructor
  · rintro ⟨-, -, ⟨whole, rfl⟩, -, -, ⟨-, ⟨promised, rfl⟩, rfl⟩, cursor, -, ⟨reach, rfl⟩, stop, -, ⟨ends, rfl⟩, ok⟩
    refine ⟨whole, promised, ?_⟩
    split at ok
    · rename_i past
      obtain ⟨rfl, same⟩ := pure_ok.mp ok
      cases same
      exact .exhausted reach ends past
    · rename_i room
      have room : cursor ≤ stop := Address.not_lt.mp room
      obtain ⟨grown, ⟨f₁, m₁⟩, growth, ok⟩ := bind_ok.mp ok
      cases grown with
      | error cause =>
        obtain ⟨rfl, same⟩ := pure_ok.mp ok
        cases same
        exact .refused reach ends room (grow_iff.mp growth)
      | ok _ =>
        simp only [modify_bind, pure_ok, Prod.mk.injEq] at ok
        obtain ⟨rfl, rfl, rfl⟩ := ok
        exact .granted reach ends room (grow_iff.mp growth)
  · rintro ⟨whole, promised, serves⟩
    refine ⟨(), _, ⟨whole, rfl⟩, (), _, ⟨_, ⟨promised, rfl⟩, rfl⟩, ?_⟩
    cases serves with
    | exhausted reach ends past =>
      refine ⟨_, _, ⟨reach, rfl⟩, _, _, ⟨ends, rfl⟩, ?_⟩
      rw [if_pos past]
      rfl
    | refused reach ends room grows =>
      refine ⟨_, _, ⟨reach, rfl⟩, _, _, ⟨ends, rfl⟩, ?_⟩
      rw [if_neg (Address.not_lt.mpr room)]
      exact bind_ok.mpr ⟨_, _, grow_iff.mpr grows, rfl⟩
    | granted reach ends room grows =>
      refine ⟨_, _, ⟨reach, rfl⟩, _, _, ⟨ends, rfl⟩, ?_⟩
      rw [if_neg (Address.not_lt.mpr room)]
      exact bind_ok.mpr ⟨_, _, grow_iff.mpr grows, rfl⟩

end Frontier

namespace Runs

variable {r r' : Runs} {m m' : Memory} {refusal : Option Refusal} {pending bytes : Word}

/-- What runs of pages answer to a request, if they may reach up to a limit. -/
inductive Serves (refusal : Option Refusal) (pages limit : Word) (r : Runs) (m : Memory) :
    Except Denial Address → Runs → Memory → Prop
  /-- There are not so many free pages in a row. -/
  | exhausted (full : r.map.take pages.toNat limit.toNat = none) : Serves refusal pages limit r m (.error .exhausted) r m
  /-- The system refuses to back the pages, and they come back. -/
  | refused {first : Nat} {map : RunMap} {start : Address} {cause : Refusal}
      (taken : r.map.take pages.toNat limit.toNat = some (first, map)) (place : r.addressOf first = .ok start)
      (denied : m.commitUnless refusal start (Word.ofPages pages) = .error cause) :
      Serves refusal pages limit r m (.error (.uncommitted cause))
        { r with map := (map.forget first).giveBack ⟨first, pages.toNat⟩ } m
  /-- The pages are handed out. -/
  | granted {first : Nat} {map : RunMap} {start : Address} {m' : Memory}
      (taken : r.map.take pages.toNat limit.toNat = some (first, map)) (place : r.addressOf first = .ok start)
      (backed : m.commitUnless refusal start (Word.ofPages pages) = .ok m') :
      Serves refusal pages limit r m (.ok start) { r with map, ledger := r.ledger.backed pages } m'

theorem takeUnless_iff {res : Except Denial Address} : takeUnless refusal pending bytes (r, m) = .ok res (r', m') ↔
    pending ≤ r.ledger.reserved ∧ ∃ pages limit, bytes.pagesUp = .ok pages ∧ r.extent.bytes.pagesUp = .ok limit ∧
      Serves refusal pages limit { r with ledger := r.ledger.withdrawn pending } m res r' m' := by
  simp only [takeUnless, bind_ok, on_ok, Ledger.withdraw_ok, get_bind, lift_ok]
  constructor
  · rintro ⟨-, -, ⟨-, ⟨promised, rfl⟩, rfl⟩, pages, -, ⟨counted, rfl⟩, limit, -, ⟨reach, rfl⟩, ok⟩
    refine ⟨promised, pages, limit, counted, reach, ?_⟩
    simp only [Focus.comp, Focus.fst, ledgerPart] at ok
    cases taken : r.map.take pages.toNat limit.toNat with
    | none =>
      rw [taken] at ok
      obtain ⟨rfl, same⟩ := pure_ok.mp ok
      cases same
      exact .exhausted taken
    | some found =>
      rw [taken] at ok
      obtain ⟨first, map⟩ := found
      simp only [modify_bind, bind_ok, lift_ok, get_bind] at ok
      obtain ⟨start, -, ⟨place, rfl⟩, ok⟩ := ok
      cases back : m.commitUnless refusal start (Word.ofPages pages) with
      | error cause =>
        rw [back] at ok
        simp only [modify_bind, pure_ok, Prod.mk.injEq] at ok
        obtain ⟨rfl, rfl, rfl⟩ := ok
        exact .refused taken place back
      | ok grown =>
        rw [back] at ok
        simp only [modify_bind, bind_ok, on_ok, Ledger.commit_ok, pure_ok] at ok
        obtain ⟨-, -, ⟨-, rfl, rfl⟩, rfl, same⟩ := ok
        cases same
        exact .granted taken place back
  · rintro ⟨promised, pages, limit, counted, reach, serves⟩
    refine ⟨(), _, ⟨_, ⟨promised, rfl⟩, rfl⟩, pages, _, ⟨counted, rfl⟩, limit, _, ⟨reach, rfl⟩, ?_⟩
    simp only [Focus.comp, Focus.fst, ledgerPart]
    cases serves with
    | exhausted full =>
      dsimp only at full
      rw [full]
      rfl
    | refused taken place denied =>
      dsimp only at taken
      rw [taken]
      simp only [modify_bind, bind_ok, lift_ok, get_bind]
      refine ⟨_, _, ⟨place, rfl⟩, ?_⟩
      rw [denied]
      rfl
    | granted taken place backed =>
      dsimp only at taken
      rw [taken]
      simp only [modify_bind, bind_ok, lift_ok, get_bind]
      refine ⟨_, _, ⟨place, rfl⟩, ?_⟩
      rw [backed]
      rfl

/-- A run that is taken back was live, and its pages are written off. -/
theorem release_parts {start : Address} {pages : Word} (ok : release start (r, m) = .ok pages (r', m')) :
    ∃ first run, r.pageOf start = .ok first ∧ r.map.liveAt? first = some run ∧ pages = UInt64.ofNat run.pages ∧
      (pages ≤ r.ledger.reserved ∧ pages ≤ r.ledger.committed) ∧ m' = m.giveBack start (Word.ofPages pages) ∧
      r' = { r with
        ledger := r.ledger.released pages
        map := (r.map.forget first).giveBack ⟨first, run.pages⟩ } := by
  simp only [release, bind_ok, get_bind, lift_ok] at ok
  obtain ⟨first, -, ⟨page, rfl⟩, ok⟩ := ok
  cases found : r.map.liveAt? first with
  | none =>
    rw [found] at ok
    exact absurd ok (by simp)
  | some run =>
    rw [found] at ok
    simp only [modify_bind, bind_ok, on_ok, Ledger.release_ok, pure_ok] at ok
    obtain ⟨-, -, ⟨-, ⟨counted, rfl⟩, rfl⟩, rfl, same⟩ := ok
    simp only [Focus.comp, Focus.fst, ledgerPart, Prod.mk.injEq] at counted same
    exact ⟨first, run, page, found, rfl, counted, same.2.symm, same.1.symm⟩

end Runs

end TracingHeap.Pages
