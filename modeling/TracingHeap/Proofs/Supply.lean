import TracingHeap.Proofs.Sources
import TracingHeap.Spaces

/-! The supply of memory. Spaces lie apart from each other, and each hands out only memory that it has not
handed out before. Memory that was handed out is `Issued`; fresh memory is zero and meets none of it. -/

namespace TracingHeap.Spaces

open Memory Pages

/-- The extents are placed apart from each other. Only the extent of large objects may start at the
lowest address, because it is the last one to be laid out. -/
structure LaidOut (s : Spaces) : Prop where
  placed : ∀ id, (s.space id).extent.Placed
  apart : ∀ id id', id ≠ id' → (s.space id).extent.span.Apart (s.space id').extent.span
  positive : ∀ id, id ≠ .large → 0 < (s.space id).extent.start.toNat

/-- A span that a space has handed out and not taken back. -/
def Issued (s : Spaces) (id : SpaceId) (r : Span) : Prop :=
  match s.space id with
  | .copying x => x.pages.Issued r
  | .markSweep x => x.pages.Issued r
  | .immortal x => x.pages.Issued r
  | .large x => x.pages.Issued r

/-- The source of a space is sound. -/
def Sourced (m : Memory) : Space → Prop
  | .copying x => x.pages.Sound m
  | .markSweep x => x.pages.Sound
  | .immortal x => x.pages.Sound m
  | .large x => x.pages.Sound

/-- Every source of pages is sound. -/
def Supplied (s : Spaces) (m : Memory) : Prop := ∀ id, Sourced m (s.space id)

/-- The spaces differ in nothing but their sources of pages, which serve the same extents. -/
structure Repaged (s s' : Spaces) : Prop where
  first : ∃ p, s'.first = { s.first with pages := p }
  second : (∃ x p, s.second = .mature x ∧ s'.second = .mature { x with pages := p }) ∨
    ∃ x p, s.second = .twin x ∧ s'.second = .twin { x with pages := p }
  immortal : ∃ p, s'.immortal = { s.immortal with pages := p }
  large : ∃ p, s'.large = { s.large with pages := p }
  extent : ∀ id, (s'.space id).extent = (s.space id).extent

/-- Memory of a space that was not handed out before: it is zero, and what was handed out before is apart
from it, still handed out and not changed. -/
structure Fresh (s s' : Spaces) (m m' : Memory) (id : SpaceId) (r : Span) : Prop where
  issued : s'.Issued id r
  aligned : r.lo % 8 = 0
  zero : m'.ZeroOn r
  apart : ∀ id' q, s.Issued id' q → q.Apart r
  kept : ∀ id' q, s.Issued id' q → s'.Issued id' q ∧ AgreeOn m m' q

variable {s s' : Spaces} {m m' : Memory} {id : SpaceId}

/-- No address is in two extents. -/
theorem LaidOut.unique (laid : s.LaidOut) {id' : SpaceId} {a : Address} (holds : (s.space id').extent.holds a = true)
    (low : (s.space id).extent.span.lo ≤ a.toNat) (high : a.toNat < (s.space id).extent.span.hi) : id' = id := by
  refine Decidable.byContradiction fun other => ?_
  obtain ⟨low', high'⟩ := Extent.holds_iff.mp holds
  have apart := laid.apart id' id other
  unfold Span.Apart at apart
  omega

/-- An address of an extent is in the space of the extent. -/
theorem LaidOut.holding (laid : s.LaidOut) {a : Address} (low : (s.space id).extent.span.lo ≤ a.toNat)
    (high : a.toNat < (s.space id).extent.span.hi) : s.holding? a = some id := by
  have held : (s.space id).extent.holds a = true := Extent.holds_iff.mpr ⟨low, high⟩
  unfold holding?
  cases found : SpaceId.all.find? fun id => (s.space id).extent.holds a with
  | none =>
    have none := List.find?_eq_none.mp found id (by cases id <;> decide)
    exact absurd held none
  | some id' =>
    have same : id' = id := laid.unique (by simpa using List.find?_some found) low high
    rw [same]

/-- What was handed out lies in the extent. -/
theorem Supplied.issued_within (supplied : s.Supplied m) {r : Span} (issued : s.Issued id r) :
    r.Within (s.space id).extent.span := by
  have sound := supplied id
  unfold Issued at issued
  cases space : s.space id with
  | copying x =>
    simp only [space, Sourced] at issued sound
    exact ⟨issued.1, Nat.le_trans issued.2 (Nat.le_trans sound.high sound.stop)⟩
  | immortal x =>
    simp only [space, Sourced] at issued sound
    exact ⟨issued.1, Nat.le_trans issued.2 (Nat.le_trans sound.high sound.stop)⟩
  | markSweep x =>
    simp only [space, Sourced] at issued sound
    obtain ⟨run, live, within⟩ := issued
    exact within.trans (sound.spanOf_within live)
  | large x =>
    simp only [space, Sourced] at issued sound
    obtain ⟨run, live, within⟩ := issued
    exact within.trans (sound.spanOf_within live)

theorem issued_mono {r r' : Span} (issued : s.Issued id r) (inner : r'.Within r) : s.Issued id r' := by
  unfold Issued at *
  cases space : s.space id with
  | copying x =>
    simp only [space] at issued ⊢
    exact ⟨Nat.le_trans issued.1 inner.1, Nat.le_trans inner.2 issued.2⟩
  | immortal x =>
    simp only [space] at issued ⊢
    exact ⟨Nat.le_trans issued.1 inner.1, Nat.le_trans inner.2 issued.2⟩
  | markSweep x =>
    simp only [space] at issued ⊢
    obtain ⟨run, live, within⟩ := issued
    exact ⟨run, live, inner.trans within⟩
  | large x =>
    simp only [space] at issued ⊢
    obtain ⟨run, live, within⟩ := issued
    exact ⟨run, live, inner.trans within⟩

theorem Repaged.laidOut (same : s.Repaged s') (laid : s.LaidOut) : s'.LaidOut where
  placed id := same.extent id ▸ laid.placed id
  apart id id' other := by
    rw [same.extent id, same.extent id']
    exact laid.apart id id' other
  positive id other := by
    rw [same.extent id]
    exact laid.positive id other

@[simp] theorem onTwin_ok {α : Type} {step : Step (CopySpace × Memory) α} {x : SecondSpace}
    {t : SecondSpace × Memory} {a : α} :
    onTwin step (x, m) = .ok a t ↔
      ∃ y y', x = .twin y ∧ step (y, m) = .ok a (y', t.2) ∧ t.1 = .twin y' := by
  cases x with
  | mature y => simp [onTwin]
  | twin y =>
    simp only [onTwin, SecondSpace.twin.injEq]
    cases ran : step (y, m) with
    | ok b r =>
      constructor
      · intro h
        cases h
        exact ⟨y, r.1, rfl, ran, rfl⟩
      · rintro ⟨_, z, rfl, h, same⟩
        rw [ran] at h
        cases h
        dsimp only
        rw [← same]
    | error e r =>
      constructor
      · intro h
        cases h
      · rintro ⟨_, _, rfl, h, _⟩
        rw [ran] at h
        cases h

@[simp] theorem onMature_ok {α : Type} {step : Step (MarkSweepSpace × Memory) α} {x : SecondSpace}
    {t : SecondSpace × Memory} {a : α} :
    onMature step (x, m) = .ok a t ↔
      ∃ y y', x = .mature y ∧ step (y, m) = .ok a (y', t.2) ∧ t.1 = .mature y' := by
  cases x with
  | twin y => simp [onMature]
  | mature y =>
    simp only [onMature, SecondSpace.mature.injEq]
    cases ran : step (y, m) with
    | ok b r =>
      constructor
      · intro h
        cases h
        exact ⟨y, r.1, rfl, ran, rfl⟩
      · rintro ⟨_, z, rfl, h, same⟩
        rw [ran] at h
        cases h
        dsimp only
        rw [← same]
    | error e r =>
      constructor
      · intro h
        cases h
      · rintro ⟨_, _, rfl, h, _⟩
        rw [ran] at h
        cases h

/-- A step of the source of pages of a space changes nothing but this source and the memory. -/
theorem onPages_cases {α : Type} {step : {κ : Type} → [Source κ] → Step (κ × Memory) α} {r : α}
    (ok : onPages id step (s, m) = .ok r (s', m')) :
    (∃ p, id = .first ∧ s' = { s with first := { s.first with pages := p } } ∧
      @step Frontier _ (s.first.pages, m) = .ok r (p, m')) ∨
    (∃ x p, id = .second ∧ s.second = .twin x ∧ s' = { s with second := .twin { x with pages := p } } ∧
      @step Frontier _ (x.pages, m) = .ok r (p, m')) ∨
    (∃ x p, id = .second ∧ s.second = .mature x ∧ s' = { s with second := .mature { x with pages := p } } ∧
      @step Runs _ (x.pages, m) = .ok r (p, m')) ∨
    (∃ p, id = .immortal ∧ s' = { s with immortal := { s.immortal with pages := p } } ∧
      @step Frontier _ (s.immortal.pages, m) = .ok r (p, m')) ∨
    ∃ p, id = .large ∧ s' = { s with large := { s.large with pages := p } } ∧
      @step Runs _ (s.large.pages, m) = .ok r (p, m') := by
  unfold onPages at ok
  cases id with
  | first =>
    simp only [Step.onBoth_ok, Focus.comp, Focus.fst, Focus.snd, firstPart, CopySpace.pagesPart,
      Prod.mk.injEq] at ok
    obtain ⟨_, _, ⟨p, _, taken, rfl, rfl⟩, rfl, rfl⟩ := ok
    exact .inl ⟨p, rfl, rfl, taken⟩
  | second =>
    obtain ⟨x', m₁, served, same⟩ := Step.onBoth_ok.mp ok
    simp only [Focus.comp, Focus.fst, Focus.snd, secondPart, Prod.mk.injEq] at served same
    obtain ⟨rfl, rfl⟩ := same
    cases second : s.second with
    | twin x =>
      simp only [second, onTwin_ok, Step.onBoth_ok, CopySpace.pagesPart, Prod.mk.injEq,
        SecondSpace.twin.injEq] at served
      obtain ⟨_, _, rfl, ⟨p, _, taken, rfl, rfl⟩, rfl⟩ := served
      exact .inr (.inl ⟨x, p, rfl, rfl, rfl, taken⟩)
    | mature x =>
      simp only [second, onMature_ok, Step.onBoth_ok, MarkSweepSpace.pagesPart, Prod.mk.injEq,
        SecondSpace.mature.injEq] at served
      obtain ⟨_, _, rfl, ⟨p, _, taken, rfl, rfl⟩, rfl⟩ := served
      exact .inr (.inr (.inl ⟨x, p, rfl, rfl, rfl, taken⟩))
  | immortal =>
    simp only [Step.onBoth_ok, Focus.comp, Focus.fst, Focus.snd, immortalPart, ImmortalSpace.pagesPart,
      Prod.mk.injEq] at ok
    obtain ⟨p, _, taken, rfl, rfl⟩ := ok
    exact .inr (.inr (.inr (.inl ⟨p, rfl, rfl, taken⟩)))
  | large =>
    simp only [Step.onBoth_ok, Focus.comp, Focus.fst, Focus.snd, largePart, LargeSpace.pagesPart,
      Prod.mk.injEq] at ok
    obtain ⟨p, _, taken, rfl, rfl⟩ := ok
    exact .inr (.inr (.inr (.inr ⟨p, rfl, rfl, taken⟩)))

/-! ### Steps of one space

A step that changes one space and writes only inside its extent leaves the others as they were. -/

theorem Supplied.step (laid : s.LaidOut) (supplied : s.Supplied m)
    (others : ∀ id', id' ≠ id → s'.space id' = s.space id') (mine : Sourced m' (s'.space id))
    (agree : AgreeOff m m' (s.space id).extent.span) : s'.Supplied m' := by
  intro id'
  by_cases same : id' = id
  · exact same ▸ mine
  · rw [others id' same]
    have sound := supplied id'
    have apart := laid.apart id id' (Ne.symm same)
    cases space : s.space id' with
    | copying x =>
      rw [space] at sound apart
      apply sound.frame
      apply agree.agreeOn
      exact apart.mono (.refl _) ⟨sound.low, sound.stop⟩
    | immortal x =>
      rw [space] at sound apart
      apply sound.frame
      apply agree.agreeOn
      exact apart.mono (.refl _) ⟨sound.low, sound.stop⟩
    | markSweep x =>
      rw [space] at sound
      exact sound
    | large x =>
      rw [space] at sound
      exact sound

theorem issued_congr {r : Span} (same : s'.space id = s.space id) : s'.Issued id r ↔ s.Issued id r := by
  unfold Issued
  rw [same]

/-- What other spaces have handed out is neither taken back nor written to. -/
theorem Supplied.others_kept (laid : s.LaidOut) (supplied : s.Supplied m)
    (others : ∀ id', id' ≠ id → s'.space id' = s.space id')
    (agree : AgreeOff m m' (s.space id).extent.span) {id' : SpaceId} (other : id' ≠ id) {q : Span}
    (issued : s.Issued id' q) :
    s'.Issued id' q ∧ AgreeOn m m' q ∧ ∀ r : Span, r.Within (s.space id).extent.span → q.Apart r := by
  have within := supplied.issued_within issued
  have apart := laid.apart id id' (Ne.symm other)
  exact ⟨(issued_congr (others id' other)).mpr issued, agree.agreeOn (apart.mono (.refl _) within),
    fun r inside => (apart.mono inside within).symm⟩

private theorem fresh_step {r : Span} (laid : s.LaidOut) (supplied : s.Supplied m)
    (others : ∀ id', id' ≠ id → s'.space id' = s.space id')
    (agree : AgreeOff m m' (s.space id).extent.span) (issued : s'.Issued id r) (aligned : r.lo % 8 = 0)
    (zero : m'.ZeroOn r) (inside : r.Within (s.space id).extent.span)
    (mine : ∀ q, s.Issued id q → q.Apart r ∧ s'.Issued id q ∧ AgreeOn m m' q) : Fresh s s' m m' id r where
  issued := issued
  aligned := aligned
  zero := zero
  apart id' q out := by
    by_cases same : id' = id
    · subst same
      exact (mine q out).1
    · exact (supplied.others_kept laid others agree same out).2.2 r inside
  kept id' q out := by
    by_cases same : id' = id
    · subst same
      exact (mine q out).2
    · have kept := supplied.others_kept laid others agree same out
      exact ⟨kept.1, kept.2.1⟩

/-! ### Requests -/

/-- One more run is live, the one that starts at the address. -/
def RunTaken (x y : Runs) (a : Address) (bytes : Word) : Prop :=
  ∃ run, y.map.live = run :: x.map.live ∧ run.pages = (bytes.toNat + 4095) / 4096 ∧
    a.toNat = (x.spanOf run).lo

/-- What a request for memory does: a refusal leaves memory and what was handed out as they are, and an
answer is fresh memory. -/
structure Taken (s s' : Spaces) (m m' : Memory) (id : SpaceId) (bytes : Word)
    (r : Except Denial Address) : Prop where
  repaged : s.Repaged s'
  supplied : s'.Supplied m'
  refused : ∀ e, r = .error e → m' = m ∧ ∀ id q, s'.Issued id q ↔ s.Issued id q
  served : ∀ a, r = .ok a → Fresh s s' m m' id (.ofBytes a bytes)
  mature : ∀ x, s.second = .mature x → ∃ p, s'.second = .mature { x with pages := p } ∧
    (p.map.live = x.pages.map.live ∨ ∃ a, id = .second ∧ r = .ok a ∧ RunTaken x.pages p a bytes) ∧
    ∀ a, id = .second → r = .ok a → RunTaken x.pages p a bytes
  large : (s'.large.pages.map.live = s.large.pages.map.live ∨
      ∃ a, id = .large ∧ r = .ok a ∧ RunTaken s.large.pages s'.large.pages a bytes) ∧
    ∀ a, id = .large → r = .ok a → RunTaken s.large.pages s'.large.pages a bytes

private theorem frontier_mine {f f' : Frontier} {bytes : Word} {a : Address} (sound : f.Sound m)
    (extent : f'.extent = f.extent) (agree : AgreeOff m m' ⟨f.cursor.toNat, f.extent.span.hi⟩)
    (start : a = f.cursor) (cursor : f'.cursor.toNat = a.toNat + bytes.toNat) :
    f'.Issued (.ofBytes a bytes) ∧ ∀ q, f.Issued q → q.Apart (.ofBytes a bytes) ∧ f'.Issued q ∧ AgreeOn m m' q := by
  have low := sound.low
  subst start
  refine ⟨⟨extent ▸ low, Nat.le_of_eq cursor.symm⟩, fun q issued => ⟨.inl issued.2, ⟨?_, ?_⟩, ?_⟩⟩
  · exact extent ▸ issued.1
  · exact Nat.le_trans issued.2 (cursor ▸ Nat.le_add_right ..)
  · exact agree.agreeOn (.inr issued.2)

private theorem runs_mine {x y : Runs} {bytes : Word} {a : Address} {run : Run} (sound : y.Sound)
    (extent : y.extent = x.extent) (live : y.map.live = run :: x.map.live)
    (pages : run.pages = (bytes.toNat + 4095) / 4096) (start : a.toNat = (x.spanOf run).lo)
    (agree : AgreeOff m m' (x.spanOf run)) :
    (y.Issued (.ofBytes a bytes) ∧ (Span.ofBytes a bytes).Within (x.spanOf run)) ∧
      ∀ q, x.Issued q → q.Apart (.ofBytes a bytes) ∧ y.Issued q ∧ AgreeOn m m' q := by
  have spans : ∀ run, y.spanOf run = x.spanOf run := fun run => by rw [Runs.spanOf, Runs.spanOf, extent]
  have inner : (Span.ofBytes a bytes).Within (x.spanOf run) := by
    rw [Span.Within, Span.ofBytes, start]
    simp only [Runs.spanOf]
    omega
  refine ⟨⟨⟨run, by rw [live]; exact List.mem_cons_self, spans run ▸ inner⟩, inner⟩, ?_⟩
  rintro q ⟨old, member, within⟩
  have pairs := (List.pairwise_append.mp sound.apart).1
  rw [live] at pairs
  have apart := Runs.spanOf_apart (r := x) ((List.pairwise_cons.mp pairs).1 old member)
  refine ⟨(apart.mono inner within).symm, ⟨old, ?_, spans old ▸ within⟩, agree.agreeOn (apart.mono (.refl _) within)⟩
  rw [live]
  exact List.mem_cons_of_mem _ member

private theorem second_same (s : Spaces) :
    (∃ x p, s.second = .mature x ∧ s.second = .mature { x with pages := p }) ∨
      ∃ x p, s.second = .twin x ∧ s.second = .twin { x with pages := p } := by
  cases second : s.second with
  | mature x => exact .inl ⟨x, x.pages, rfl, rfl⟩
  | twin x => exact .inr ⟨x, x.pages, rfl, rfl⟩

private theorem mature_same {bytes : Word} {r : Except Denial Address} (other : id ≠ .second)
    (x : MarkSweepSpace) (second : s.second = .mature x) :
    ∃ p, s.second = .mature { x with pages := p } ∧
      (p.map.live = x.pages.map.live ∨ ∃ a, id = .second ∧ r = .ok a ∧ RunTaken x.pages p a bytes) ∧
      ∀ a, id = .second → r = .ok a → RunTaken x.pages p a bytes :=
  ⟨x.pages, second, .inl rfl, fun _ same => absurd same other⟩

private theorem taken_step {bytes : Word} {r : Except Denial Address} (laid : s.LaidOut)
    (supplied : s.Supplied m) (repaged : s.Repaged s')
    (others : ∀ id', id' ≠ id → s'.space id' = s.space id') (sound : Sourced m' (s'.space id))
    (agree : AgreeOff m m' (s.space id).extent.span)
    (refused : ∀ e, r = .error e → m' = m ∧ ∀ q, s'.Issued id q ↔ s.Issued id q)
    (served : ∀ a, r = .ok a → m'.ZeroOn (.ofBytes a bytes) ∧ a.toNat % 8 = 0 ∧
      s'.Issued id (.ofBytes a bytes) ∧
      ∀ q, s.Issued id q → q.Apart (.ofBytes a bytes) ∧ s'.Issued id q ∧ AgreeOn m m' q)
    (mature : ∀ x, s.second = .mature x → ∃ p, s'.second = .mature { x with pages := p } ∧
      (p.map.live = x.pages.map.live ∨ ∃ a, id = .second ∧ r = .ok a ∧ RunTaken x.pages p a bytes) ∧
      ∀ a, id = .second → r = .ok a → RunTaken x.pages p a bytes)
    (large : (s'.large.pages.map.live = s.large.pages.map.live ∨
        ∃ a, id = .large ∧ r = .ok a ∧ RunTaken s.large.pages s'.large.pages a bytes) ∧
      ∀ a, id = .large → r = .ok a → RunTaken s.large.pages s'.large.pages a bytes) :
    Taken s s' m m' id bytes r := by
  have supplied' := supplied.step laid others sound agree
  refine ⟨repaged, supplied', ?_, ?_, mature, large⟩
  · intro e error
    refine ⟨(refused e error).1, fun id' q => ?_⟩
    by_cases same : id' = id
    · exact same ▸ (refused e error).2 q
    · exact issued_congr (others id' same)
  · intro a answer
    obtain ⟨zero, aligned, issued, mine⟩ := served a answer
    have inside := supplied'.issued_within issued
    rw [repaged.extent] at inside
    exact fresh_step laid supplied others agree issued aligned zero inside mine

/-- A request is refused without a trace, or answered with fresh memory. -/
theorem take_ok {pending bytes : Word} {r : Except Denial Address} (laid : s.LaidOut)
    (supplied : s.Supplied m)
    (ok : Spaces.take id pending bytes (s, m) = .ok r (s', m')) : Taken s s' m m' id bytes r := by
  have sound := supplied id
  have placed := laid.placed id
  rcases onPages_cases ok with ⟨p, rfl, rfl, taken⟩ | ⟨x, p, rfl, second, rfl, taken⟩ |
    ⟨x, p, rfl, second, rfl, taken⟩ | ⟨p, rfl, rfl, taken⟩ | ⟨p, rfl, rfl, taken⟩
  · obtain ⟨extent, sound', agree, refused, served⟩ := Frontier.take_ok placed sound taken
    refine taken_step laid supplied ⟨⟨p, rfl⟩, second_same s, ⟨_, rfl⟩, ⟨_, rfl⟩, ?_⟩ ?_ sound'
      (agree.mono ⟨sound.low, Nat.le_refl _⟩) ?_ ?_ (mature_same (by decide)) ⟨.inl rfl, fun _ same => by cases same⟩
    · intro id
      cases id with
      | first => exact extent
      | _ => rfl
    · intro id other
      cases id with
      | first => exact absurd rfl other
      | _ => rfl
    · intro e error
      obtain ⟨cursor, memory⟩ := refused e error
      exact ⟨memory, fun q => by simp only [Issued, space, Frontier.Issued, extent, cursor]⟩
    · intro a answer
      obtain ⟨start, cursor, zero⟩ := served a answer
      exact ⟨zero, start ▸ sound.aligned, frontier_mine sound extent agree start cursor⟩
  · simp only [space, second] at sound placed
    obtain ⟨extent, sound', agree, refused, served⟩ := Frontier.take_ok placed sound taken
    refine taken_step laid supplied ⟨⟨_, rfl⟩, .inr ⟨x, p, second, rfl⟩, ⟨_, rfl⟩, ⟨_, rfl⟩, ?_⟩ ?_ sound'
      ?_ ?_ ?_ ?_ ⟨.inl rfl, fun _ same => by cases same⟩
    · intro id
      cases id with
      | second =>
        simp only [space, second]
        exact extent
      | _ => rfl
    · intro id other
      cases id with
      | second => exact absurd rfl other
      | _ => rfl
    · simp only [space, second]
      exact agree.mono ⟨sound.low, Nat.le_refl _⟩
    · intro e error
      obtain ⟨cursor, memory⟩ := refused e error
      exact ⟨memory, fun q => by simp only [Issued, space, second, Frontier.Issued, extent, cursor]⟩
    · intro a answer
      obtain ⟨start, cursor, zero⟩ := served a answer
      simp only [Issued, space, second]
      exact ⟨zero, start ▸ sound.aligned, frontier_mine sound extent agree start cursor⟩
    · intro y mature
      rw [second] at mature
      cases mature
  · simp only [space, second] at sound placed
    obtain ⟨extent, sound', refused, served⟩ := Runs.take_ok placed sound taken
    have grant : ∀ a, r = .ok a → RunTaken x.pages p a bytes := by
      intro a answer
      obtain ⟨run, live, pages, start, -, -⟩ := served a answer
      exact ⟨run, live, pages, start⟩
    refine taken_step laid supplied ⟨⟨_, rfl⟩, .inl ⟨x, p, second, rfl⟩, ⟨_, rfl⟩, ⟨_, rfl⟩, ?_⟩ ?_ sound'
      ?_ ?_ ?_ ?_ ⟨.inl rfl, fun _ same => by cases same⟩
    · intro id
      cases id with
      | second =>
        simp only [space, second]
        exact extent
      | _ => rfl
    · intro id other
      cases id with
      | second => exact absurd rfl other
      | _ => rfl
    · simp only [space, second]
      cases r with
      | error e =>
        rw [(refused e rfl).2]
        exact AgreeOff.refl m _
      | ok a =>
        obtain ⟨run, live, -, -, agree, -⟩ := served a rfl
        have within := sound'.spanOf_within (live ▸ List.mem_cons_self : run ∈ _)
        rw [Runs.spanOf, extent] at within
        exact agree.mono within
    · intro e error
      obtain ⟨live, memory⟩ := refused e error
      exact ⟨memory, fun q => by simp only [Issued, space, second, Runs.Issued, Runs.spanOf, extent, live]⟩
    · intro a answer
      obtain ⟨run, live, pages, start, agree, zero⟩ := served a answer
      obtain ⟨⟨issued, inner⟩, mine⟩ := runs_mine sound' extent live pages start agree
      have page : x.pages.extent.start.toNat % 4096 = 0 := placed.start
      simp only [Issued, space, second]
      exact ⟨zero.mono inner, by rw [start, Runs.spanOf]; simp only; omega, issued, mine⟩
    · intro y mature
      rw [second] at mature
      cases mature
      refine ⟨p, rfl, ?_, fun a _ answer => grant a answer⟩
      cases r with
      | error e => exact .inl (refused e rfl).1
      | ok a => exact .inr ⟨a, rfl, rfl, grant a rfl⟩
  · obtain ⟨extent, sound', agree, refused, served⟩ := Frontier.take_ok placed sound taken
    refine taken_step laid supplied ⟨⟨_, rfl⟩, second_same s, ⟨p, rfl⟩, ⟨_, rfl⟩, ?_⟩ ?_ sound'
      (agree.mono ⟨sound.low, Nat.le_refl _⟩) ?_ ?_ (mature_same (by decide)) ⟨.inl rfl, fun _ same => by cases same⟩
    · intro id
      cases id with
      | immortal => exact extent
      | _ => rfl
    · intro id other
      cases id with
      | immortal => exact absurd rfl other
      | _ => rfl
    · intro e error
      obtain ⟨cursor, memory⟩ := refused e error
      exact ⟨memory, fun q => by simp only [Issued, space, Frontier.Issued, extent, cursor]⟩
    · intro a answer
      obtain ⟨start, cursor, zero⟩ := served a answer
      exact ⟨zero, start ▸ sound.aligned, frontier_mine sound extent agree start cursor⟩
  · obtain ⟨extent, sound', refused, served⟩ := Runs.take_ok placed sound taken
    have grant : ∀ a, r = .ok a → RunTaken s.large.pages p a bytes := by
      intro a answer
      obtain ⟨run, live, pages, start, -, -⟩ := served a answer
      exact ⟨run, live, pages, start⟩
    refine taken_step laid supplied ⟨⟨_, rfl⟩, second_same s, ⟨_, rfl⟩, ⟨p, rfl⟩, ?_⟩ ?_ sound'
      ?_ ?_ ?_ (mature_same (by decide)) ⟨?_, fun a _ answer => grant a answer⟩
    · intro id
      cases id with
      | large => exact extent
      | _ => rfl
    · intro id other
      cases id with
      | large => exact absurd rfl other
      | _ => rfl
    · cases r with
      | error e =>
        rw [(refused e rfl).2]
        exact AgreeOff.refl m _
      | ok a =>
        obtain ⟨run, live, -, -, agree, -⟩ := served a rfl
        have within := sound'.spanOf_within (live ▸ List.mem_cons_self : run ∈ _)
        rw [Runs.spanOf, extent] at within
        exact agree.mono within
    · intro e error
      obtain ⟨live, memory⟩ := refused e error
      exact ⟨memory, fun q => by simp only [Issued, space, Runs.Issued, Runs.spanOf, extent, live]⟩
    · intro a answer
      obtain ⟨run, live, pages, start, agree, zero⟩ := served a answer
      obtain ⟨⟨issued, inner⟩, mine⟩ := runs_mine sound' extent live pages start agree
      have page : s.large.pages.extent.start.toNat % 4096 = 0 := placed.start
      exact ⟨zero.mono inner, by rw [start, Runs.spanOf]; simp only; omega, issued, mine⟩
    · cases r with
      | error e => exact .inl (refused e rfl).1
      | ok a => exact .inr ⟨a, rfl, rfl, grant a rfl⟩

/-! ### Composition -/

theorem Repaged.refl (s : Spaces) : s.Repaged s :=
  ⟨⟨s.first.pages, rfl⟩, second_same s, ⟨s.immortal.pages, rfl⟩, ⟨s.large.pages, rfl⟩, fun _ => rfl⟩

theorem Repaged.trans {s'' : Spaces} (one : s.Repaged s') (two : s'.Repaged s'') : s.Repaged s'' where
  first := by
    obtain ⟨p, same⟩ := one.first
    obtain ⟨q, same'⟩ := two.first
    exact ⟨q, by rw [same', same]⟩
  second := by
    rcases one.second with ⟨x, p, second, second'⟩ | ⟨x, p, second, second'⟩
    · rcases two.second with ⟨y, q, third, third'⟩ | ⟨y, q, third, third'⟩
      · rw [second'] at third
        cases third
        exact .inl ⟨x, q, second, third'⟩
      · rw [second'] at third
        cases third
    · rcases two.second with ⟨y, q, third, third'⟩ | ⟨y, q, third, third'⟩
      · rw [second'] at third
        cases third
      · rw [second'] at third
        cases third
        exact .inr ⟨x, q, second, third'⟩
  immortal := by
    obtain ⟨p, same⟩ := one.immortal
    obtain ⟨q, same'⟩ := two.immortal
    exact ⟨q, by rw [same', same]⟩
  large := by
    obtain ⟨p, same⟩ := one.large
    obtain ⟨q, same'⟩ := two.large
    exact ⟨q, by rw [same', same]⟩
  extent id := (two.extent id).trans (one.extent id)

theorem Repaged.plan (same : s.Repaged s') : s'.plan = s.plan := by
  unfold Spaces.plan
  rcases same.second with ⟨x, p, second, second'⟩ | ⟨x, p, second, second'⟩ <;> rw [second, second']

/-- What an allocator gets out of a request: fresh memory, or nothing. -/
abbrev Granted (s s' : Spaces) (m m' : Memory) (id : SpaceId) (bytes : Word) (r : Option Address) : Prop :=
  Taken s s' m m' id bytes (r.elim (.error .exhausted) .ok)

theorem granted_none {bytes : Word} {e : Denial} (taken : Taken s s' m m' id bytes (.error e)) (id' : SpaceId)
    (bytes' : Word) : Granted s s' m m' id' bytes' none where
  repaged := taken.repaged
  supplied := taken.supplied
  refused _ _ := taken.refused e rfl
  served _ answer := by cases answer
  mature x second := by
    obtain ⟨p, second', kept | ⟨a, _, answer, _⟩, _⟩ := taken.mature x second
    · exact ⟨p, second', .inl kept, fun _ _ answer => by cases answer⟩
    · cases answer
  large := by
    obtain ⟨kept | ⟨a, _, answer, _⟩, _⟩ := taken.large
    · exact ⟨.inl kept, fun _ _ answer => by cases answer⟩
    · cases answer

/-- A refused request in front of another one is not noticed. -/
theorem Granted.trans {s'' : Spaces} {m'' : Memory} {bytes : Word} {r : Option Address}
    (one : Granted s s' m m' id bytes none) (two : Granted s' s'' m' m'' id bytes r) :
    Granted s s'' m m'' id bytes r := by
  obtain ⟨same, issued⟩ := one.refused _ rfl
  subst same
  refine ⟨one.repaged.trans two.repaged, two.supplied, ?_, ?_, ?_, ?_⟩
  · intro e error
    obtain ⟨memory, issued'⟩ := two.refused e error
    exact ⟨memory, fun id q => (issued' id q).trans (issued id q)⟩
  · intro a answer
    obtain ⟨out, aligned, zero, apart, kept⟩ := two.served a answer
    exact ⟨out, aligned, zero, fun id q old => apart id q ((issued id q).mpr old),
      fun id q old => kept id q ((issued id q).mpr old)⟩
  · intro x second
    obtain ⟨p, second', kept | ⟨_, _, answer, _⟩, _⟩ := one.mature x second
    · obtain ⟨q, third, live, grant⟩ := two.mature _ second'
      have extent : p.extent = x.pages.extent := by
        have := one.repaged.extent .second
        simp only [space, second, second'] at this
        exact this
      have moved : ∀ a, RunTaken p q a bytes → RunTaken x.pages q a bytes := by
        rintro a ⟨run, live, pages, start⟩
        refine ⟨run, by rw [live, kept], pages, ?_⟩
        rw [start, Runs.spanOf, Runs.spanOf, extent]
      refine ⟨q, third, ?_, fun a same answer => moved a (grant a same answer)⟩
      rcases live with live | ⟨a, same, answer, taken⟩
      · exact .inl (live.trans kept)
      · exact .inr ⟨a, same, answer, moved a taken⟩
    · cases answer
  · obtain ⟨kept | ⟨_, _, answer, _⟩, _⟩ := one.large
    · obtain ⟨live, grant⟩ := two.large
      have extent : s'.large.pages.extent = s.large.pages.extent := one.repaged.extent .large
      have moved : ∀ a, RunTaken s'.large.pages s''.large.pages a bytes →
          RunTaken s.large.pages s''.large.pages a bytes := by
        rintro a ⟨run, live, pages, start⟩
        refine ⟨run, by rw [live, kept], pages, ?_⟩
        rw [start, Runs.spanOf, Runs.spanOf, extent]
      refine ⟨?_, fun a same answer => moved a (grant a same answer)⟩
      rcases live with live | ⟨a, same, answer, taken⟩
      · exact .inl (live.trans kept)
      · exact .inr ⟨a, same, answer, moved a taken⟩
    · cases answer

/-- The page counters of a space say nothing about its memory. -/
theorem onLedger_ok {α : Type} {step : Step Ledger α} {a : α} (supplied : s.Supplied m)
    (ok : Spaces.onLedger id step (s, m) = .ok a (s', m')) (bytes : Word) :
    Granted s s' m m' id bytes none := by
  -- Whatever the source, a source with other counters has the same extent, cursor and runs.
  have frontier : ∀ {f p : Frontier}, @Source.onLedger Frontier α _ step (f, m) = .ok a (p, m') →
      m' = m ∧ ∃ l, p = { f with ledger := l } := by
    intro f p served
    simp only [Source.onLedger, Step.on_ok, Focus.comp, Focus.fst, Prod.mk.injEq] at served
    obtain ⟨l, -, rfl, rfl⟩ := served
    exact ⟨rfl, l, rfl⟩
  have runs : ∀ {f p : Runs}, @Source.onLedger Runs α _ step (f, m) = .ok a (p, m') →
      m' = m ∧ ∃ l, p = { f with ledger := l } := by
    intro f p served
    simp only [Source.onLedger, Step.on_ok, Focus.comp, Focus.fst, Prod.mk.injEq] at served
    obtain ⟨l, -, rfl, rfl⟩ := served
    exact ⟨rfl, l, rfl⟩
  have sound := supplied id
  have mature_kept : ∀ x, s.second = .mature x → ∃ p, s.second = .mature { x with pages := p } ∧
      (p.map.live = x.pages.map.live ∨
        ∃ b, id = .second ∧ (none : Option Address).elim (.error Denial.exhausted) Except.ok = .ok b ∧
          RunTaken x.pages p b bytes) ∧
      ∀ b, id = .second → (none : Option Address).elim (.error Denial.exhausted) Except.ok = .ok b →
        RunTaken x.pages p b bytes :=
    fun x second => ⟨x.pages, second, .inl rfl, fun _ _ answer => by cases answer⟩
  rcases onPages_cases ok with ⟨p, rfl, rfl, taken⟩ | ⟨x, p, rfl, second, rfl, taken⟩ |
    ⟨x, p, rfl, second, rfl, taken⟩ | ⟨p, rfl, rfl, taken⟩ | ⟨p, rfl, rfl, taken⟩
  · obtain ⟨rfl, l, rfl⟩ := frontier taken
    refine ⟨⟨⟨_, rfl⟩, second_same s, ⟨_, rfl⟩, ⟨_, rfl⟩, ?_⟩, ?_, fun _ _ => ⟨rfl, ?_⟩,
      fun _ answer => (by cases answer), mature_kept, .inl rfl, fun _ _ answer => by cases answer⟩
    · intro id
      cases id <;> rfl
    · intro id
      cases id with
      | first => exact sound.of_ledger l
      | second => exact supplied .second
      | immortal => exact supplied .immortal
      | large => exact supplied .large
    · intro id q
      cases id <;> rfl
  · obtain ⟨rfl, l, rfl⟩ := frontier taken
    simp only [space, second] at sound
    refine ⟨⟨⟨_, rfl⟩, .inr ⟨x, _, second, rfl⟩, ⟨_, rfl⟩, ⟨_, rfl⟩, ?_⟩, ?_, fun _ _ => ⟨rfl, ?_⟩,
      fun _ answer => (by cases answer), ?_, .inl rfl, fun _ _ answer => by cases answer⟩
    · intro id
      cases id with
      | second =>
        simp only [space, second]
        rfl
      | _ => rfl
    · intro id
      cases id with
      | second => exact sound.of_ledger l
      | first => exact supplied .first
      | immortal => exact supplied .immortal
      | large => exact supplied .large
    · intro id q
      cases id with
      | second =>
        simp only [Issued, space, second]
        rfl
      | _ => rfl
    · intro y mature
      rw [second] at mature
      cases mature
  · obtain ⟨rfl, l, rfl⟩ := runs taken
    simp only [space, second] at sound
    refine ⟨⟨⟨_, rfl⟩, .inl ⟨x, _, second, rfl⟩, ⟨_, rfl⟩, ⟨_, rfl⟩, ?_⟩, ?_, fun _ _ => ⟨rfl, ?_⟩,
      fun _ answer => (by cases answer), ?_, .inl rfl, fun _ _ answer => by cases answer⟩
    · intro id
      cases id with
      | second =>
        simp only [space, second]
        rfl
      | _ => rfl
    · intro id
      cases id with
      | second => exact sound
      | first => exact supplied .first
      | immortal => exact supplied .immortal
      | large => exact supplied .large
    · intro id q
      cases id with
      | second =>
        simp only [Issued, space, second]
        rfl
      | _ => rfl
    · intro y mature
      rw [second] at mature
      cases mature
      exact ⟨_, rfl, .inl rfl, fun _ _ answer => by cases answer⟩
  · obtain ⟨rfl, l, rfl⟩ := frontier taken
    refine ⟨⟨⟨_, rfl⟩, second_same s, ⟨_, rfl⟩, ⟨_, rfl⟩, ?_⟩, ?_, fun _ _ => ⟨rfl, ?_⟩,
      fun _ answer => (by cases answer), mature_kept, .inl rfl, fun _ _ answer => by cases answer⟩
    · intro id
      cases id <;> rfl
    · intro id
      cases id with
      | immortal => exact sound.of_ledger l
      | first => exact supplied .first
      | second => exact supplied .second
      | large => exact supplied .large
    · intro id q
      cases id <;> rfl
  · obtain ⟨rfl, l, rfl⟩ := runs taken
    refine ⟨⟨⟨_, rfl⟩, second_same s, ⟨_, rfl⟩, ⟨_, rfl⟩, ?_⟩, ?_, fun _ _ => ⟨rfl, ?_⟩,
      fun _ answer => (by cases answer), mature_kept, .inl rfl, fun _ _ answer => by cases answer⟩
    · intro id
      cases id <;> rfl
    · intro id
      cases id with
      | large => exact sound
      | first => exact supplied .first
      | second => exact supplied .second
      | immortal => exact supplied .immortal
    · intro id q
      cases id <;> rfl

end TracingHeap.Spaces
