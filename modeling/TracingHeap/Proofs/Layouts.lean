import TracingHeap.Heap.Basic
import TracingHeap.Proofs.Partitions
import TracingHeap.Proofs.SideTables
import TracingHeap.Proofs.Supply

/-! The heap that is laid out from its settings. Every extent is placed below the one before, with a chunk in
between, and is made of whole pages; the tables beside it would have been refused if it had no end. Nothing is
handed out at first, and every table holds zeros. -/

namespace TracingHeap

/-- A table that could be had covers less than half of all addresses. -/
theorem SideTable.create_small {width : EntryWidth} {start : Address} {bytes log : Word} {k : Nat} {t : SideTable}
    (known : log.toNat = k) (small : k ≤ 12) (ok : create width start bytes log = .ok (.ok t)) : bytes.toNat < 2 ^ 63 := by
  have sized := (SideTable.create_ok known (Nat.lt_of_le_of_lt small (by decide)) ok .none).1.sized
  simp only [create, except_bind_ok] at ok
  obtain ⟨granules, shifted, tableBytes, product, ok⟩ := ok
  split at ok
  · cases except_pure_ok.mp ok
  · rename_i few
    cases except_pure_ok.mp ok
    have less : tableBytes.toNat < 2 ^ 47 := by
      have := mt UInt64.le_iff_toNat_le.mpr few
      simp only [Layout.reservationLimit, UInt64.reduceToNat] at this
      omega
    simp only [known] at sized
    have wide : 1 ≤ width.bytes.toNat := by cases width <;> decide
    have most : bytes.toNat / 2 ^ k < 2 ^ 47 := by
      have : max (bytes.toNat / 2 ^ k) 1 ≤ max (bytes.toNat / 2 ^ k) 1 * width.bytes.toNat := Nat.le_mul_of_pos_right _ wide
      omega
    have unit : 2 ^ k ≤ 2 ^ 12 := Nat.pow_le_pow_right (by decide) small
    calc bytes.toNat < 2 ^ 47 * 2 ^ k := (Nat.div_lt_iff_lt_mul (Nat.two_pow_pos k)).mp most
      _ ≤ 2 ^ 47 * 2 ^ 12 := Nat.mul_le_mul_left _ unit
      _ < 2 ^ 63 := by decide

namespace Layout

/-- What is left free is whole chunks. -/
def Chunked (l : Layout) : Prop := l.floor.toNat % 2 ^ 22 = 0

/-- One more extent was laid out, below all others. -/
structure Reserved (l l' : Layout) (e : Extent) : Prop where
  tag : e.tag = ⟨UInt8.ofNat (l.spaces.size + 1)⟩
  listed : l'.spaces.toList.map Prod.snd = l.spaces.toList.map Prod.snd ++ [e]
  chunk : e.start.toNat % 2 ^ 22 = 0
  pages : e.bytes.toNat % 4096 = 0
  floor : l'.floor = e.start
  top : e.bytes.toNat < 2 ^ 63 → e.start.toNat + e.bytes.toNat + 2 ^ 22 ≤ l.floor.toNat

variable {l l' : Layout}

theorem Reserved.size {e : Extent} (reserved : Reserved l l' e) : l'.spaces.size = l.spaces.size + 1 := by
  simpa using congrArg List.length reserved.listed

theorem reserve_ok {name : String} {request : Layout.Request} {e : Extent} (chunked : l.Chunked)
    (ok : reserve name request l = .ok (.ok e) l') : Reserved l l' e := by
  cases reserveFrom_ok (reserve_eq ▸ ok) with
  | @granted bytes _ start _ asked _ answer =>
    obtain ⟨padded, raw, sum, mapped, chunk, low, high⟩ := System.reserve_within Word.chunk_power answer
    have below := system_map mapped
    have amount := Word.toNat_sum sum
    rw [Word.chunk_power] at amount
    have chunked : l.floor.toNat % 2 ^ 22 = 0 := chunked
    refine ⟨rfl, by simp, chunk, extentIn_whole asked, rfl, fun less => ?_⟩
    simp only [next] at less ⊢
    have size : (bytes.alignUp Word.chunkBytes).toNat = _ := Word.toNat_alignUp Word.chunk_power (by omega)
    omega

end Layout

/-- A table beside a fresh extent: it has an entry for every granule, and all of them are zero. -/
structure SideTable.Blank (t : SideTable) (e : Extent) (width : EntryWidth) (log : Word) : Prop where
  beside : t.Beside e width log
  zero : ∀ a, t.entry a = 0

/-- An extent of a space that could be laid out with its tables. -/
structure Layout.Furnished (l l' : Layout) (e : Extent) : Prop extends Layout.Reserved l l' e where
  small : e.bytes.toNat < 2 ^ 63

theorem SideTable.create_blank {width : EntryWidth} {l l' : Layout} {e : Extent} {log : Word} {k : Nat} {t : SideTable}
    (reserved : Layout.Reserved l l' e) (known : log.toNat = k) (small : k ≤ 12)
    (ok : create width e.start e.bytes log = .ok (.ok t)) : Layout.Furnished l l' e ∧ t.Blank e width log :=
  have made := SideTable.create_ok known (Nat.lt_of_le_of_lt small (by decide)) ok e.tag
  ⟨⟨reserved, SideTable.create_small known small ok⟩, made.1, made.2⟩

/-- A space that could be furnished had its table. -/
theorem Region.furnish_ok {α β : Type} {name : String} {table : Except Refusal α} {f : α → β} {b : β}
    (ok : (orFailed name table).map f = .ok b) : ∃ t, table = .ok t ∧ f t = b := by
  cases table with
  | error cause => cases ok
  | ok t => exact ⟨t, rfl, Except.ok.inj ok⟩

/-- A copying space that was never used. -/
structure CopySpace.Pristine (s : CopySpace) (logged evacuating : Bool) : Prop where
  logged : s.region.logged = logged
  prepared : s.region.prepared = false
  pages : s.pages = .new s.pages.extent
  evacuating : s.evacuating = evacuating
  states : s.forwarding.states.Blank s.pages.extent .byte 4
  copies : s.forwarding.copies.Blank s.pages.extent .word 4

/-- An immortal space that was never used. -/
structure ImmortalSpace.Pristine (s : ImmortalSpace) (logged : Bool) : Prop where
  logged : s.region.logged = logged
  prepared : s.region.prepared = false
  pages : s.pages = .new s.pages.extent
  current : s.current = 0
  marks : s.marks.Blank s.pages.extent .byte 4

/-- A large object space that was never used. -/
structure LargeSpace.Pristine (s : LargeSpace) (logged : Bool) : Prop where
  logged : s.region.logged = logged
  prepared : s.region.prepared = false
  pages : s.pages = .new s.pages.extent
  current : s.current = 0
  youngOnly : s.youngOnly = false
  treadmill : s.treadmill = .empty
  marks : s.marks.Blank s.pages.extent .byte 12

/-- A mature store that was never used. -/
structure MarkSweepSpace.Pristine (s : MarkSweepSpace) (logged : Bool) : Prop where
  logged : s.region.logged = logged
  prepared : s.region.prepared = false
  pages : s.pages = .new s.pages.extent
  current : s.current = 1
  available : s.available = Array.replicate SizeClass.sizes.size []
  blocks : s.blocks = []
  poisoned : s.poisoned = false
  marks : s.marks.Blank s.pages.extent .byte 4
  blockStarts : s.blockStarts.Blank s.pages.extent .word 12
  blockClasses : s.blockClasses.Blank s.pages.extent .byte 12

section Create

variable {l l' : Layout} {name : String} {request : Layout.Request} {logged : Bool}

theorem CopySpace.create_ok {evacuating : Bool} {s : CopySpace} (chunked : l.Chunked)
    (ok : create name request logged evacuating l = .ok (.ok s) l') :
    Layout.Furnished l l' s.pages.extent ∧ s.Pristine logged evacuating := by
  obtain ⟨found, l₁, reserved, ok⟩ := Step.bind_ok.mp ok
  cases found with
  | error cause => cases (Step.pure_ok.mp ok).1
  | ok e =>
    have reserved := Layout.reserve_ok chunked reserved
    obtain ⟨table, l₂, lifted, ok⟩ := Step.bind_ok.mp ok
    obtain ⟨made, rfl⟩ := Step.lift_ok.mp lifted
    obtain ⟨answer, rfl⟩ := Step.pure_ok.mp ok
    obtain ⟨forwarding, rfl, rfl⟩ := Region.furnish_ok answer
    unfold Forwarding.create at made
    obtain ⟨states, one, made⟩ := except_bind_ok.mp made
    cases states with
    | error cause => cases except_pure_ok.mp made
    | ok states =>
      obtain ⟨copies, two, made⟩ := except_bind_ok.mp made
      cases copies with
      | error cause => cases except_pure_ok.mp made
      | ok copies =>
        cases except_pure_ok.mp made
        obtain ⟨furnished, blank⟩ := SideTable.create_blank (k := 4) reserved rfl (by decide) one
        exact ⟨furnished, rfl, rfl, rfl, rfl, blank, (SideTable.create_blank (k := 4) reserved rfl (by decide) two).2⟩

theorem ImmortalSpace.create_ok {s : ImmortalSpace} (chunked : l.Chunked) (ok : create name request logged l = .ok (.ok s) l') :
    Layout.Furnished l l' s.pages.extent ∧ s.Pristine logged := by
  obtain ⟨found, l₁, reserved, ok⟩ := Step.bind_ok.mp ok
  cases found with
  | error cause => cases (Step.pure_ok.mp ok).1
  | ok e =>
    have reserved := Layout.reserve_ok chunked reserved
    obtain ⟨table, l₂, lifted, ok⟩ := Step.bind_ok.mp ok
    obtain ⟨made, rfl⟩ := Step.lift_ok.mp lifted
    obtain ⟨answer, rfl⟩ := Step.pure_ok.mp ok
    obtain ⟨marks, rfl, rfl⟩ := Region.furnish_ok answer
    obtain ⟨furnished, blank⟩ := SideTable.create_blank (k := 4) reserved rfl (by decide) made
    exact ⟨furnished, rfl, rfl, rfl, rfl, blank⟩

theorem LargeSpace.create_ok {s : LargeSpace} (chunked : l.Chunked) (ok : create name request logged l = .ok (.ok s) l') :
    Layout.Furnished l l' s.pages.extent ∧ s.Pristine logged := by
  obtain ⟨found, l₁, reserved, ok⟩ := Step.bind_ok.mp ok
  cases found with
  | error cause => cases (Step.pure_ok.mp ok).1
  | ok e =>
    have reserved := Layout.reserve_ok chunked reserved
    obtain ⟨table, l₂, lifted, ok⟩ := Step.bind_ok.mp ok
    obtain ⟨made, rfl⟩ := Step.lift_ok.mp lifted
    obtain ⟨answer, rfl⟩ := Step.pure_ok.mp ok
    obtain ⟨marks, rfl, rfl⟩ := Region.furnish_ok answer
    obtain ⟨furnished, blank⟩ := SideTable.create_blank (k := 12) reserved rfl (by decide) made
    exact ⟨furnished, rfl, rfl, rfl, rfl, rfl, rfl, blank⟩

theorem MarkSweepSpace.create_ok {s : MarkSweepSpace} (chunked : l.Chunked)
    (ok : create name request logged l = .ok (.ok s) l') :
    Layout.Furnished l l' s.pages.extent ∧ s.Pristine logged := by
  obtain ⟨found, l₁, reserved, ok⟩ := Step.bind_ok.mp ok
  cases found with
  | error cause => cases (Step.pure_ok.mp ok).1
  | ok e =>
    have reserved := Layout.reserve_ok chunked reserved
    obtain ⟨one, l₂, lifted, ok⟩ := Step.bind_ok.mp ok
    obtain ⟨first, rfl⟩ := Step.lift_ok.mp lifted
    cases one with
    | error cause => cases (Step.pure_ok.mp ok).1
    | ok marks =>
      obtain ⟨two, l₂, lifted, ok⟩ := Step.bind_ok.mp ok
      obtain ⟨second, rfl⟩ := Step.lift_ok.mp lifted
      cases two with
      | error cause => cases (Step.pure_ok.mp ok).1
      | ok starts =>
        obtain ⟨three, l₂, lifted, ok⟩ := Step.bind_ok.mp ok
        obtain ⟨third, rfl⟩ := Step.lift_ok.mp lifted
        obtain ⟨answer, rfl⟩ := Step.pure_ok.mp ok
        obtain ⟨classes, rfl, rfl⟩ := Region.furnish_ok answer
        obtain ⟨furnished, blank⟩ := SideTable.create_blank (k := 4) reserved rfl (by decide) first
        exact ⟨furnished, rfl, rfl, rfl, rfl, rfl, rfl, rfl, blank,
          (SideTable.create_blank (k := 12) reserved rfl (by decide) second).2,
          (SideTable.create_blank (k := 12) reserved rfl (by decide) third).2⟩

end Create

/-- The spaces of a plan, none of which was ever used. -/
structure Spaces.Pristine (s : Spaces) (plan : Plan) : Prop where
  laid : s.LaidOut
  kind : s.plan = plan
  tags : ∀ id, (s.space id).extent.tag = id.tag
  first : s.first.Pristine (decide (plan = .generational)) false
  mature : ∀ x, s.second = .mature x → x.Pristine true
  twin : ∀ x, s.second = .twin x → x.Pristine false true
  immortal : s.immortal.Pristine (decide (plan = .generational))
  large : s.large.Pristine (decide (plan = .generational))

/-- The layout lists the extents of the spaces, in the order of their tags. -/
def Spaces.Charted (s : Spaces) (l : Layout) : Prop :=
  l.spaces.toList.map Prod.snd = [SpaceId.first, .second, .immortal, .large].map fun id => (s.space id).extent

namespace Heap

/-- Spaces are laid out one after the other. -/
theorem layOut_bind_ok {α β : Type} {step : Step Layout (Except Layout.Error α)} {f : α → ExceptT Layout.Error (Step Layout) β}
    {l l' : Layout} {b : β} (ok : (layOut step >>= f).run l = .ok (.ok b) l') :
    ∃ a l₁, step l = .ok (.ok a) l₁ ∧ (f a).run l₁ = .ok (.ok b) l' := by
  obtain ⟨r, l₁, first, rest⟩ := Step.bind_ok.mp ok
  cases r with
  | error e => cases (Step.pure_ok.mp rest).1
  | ok a => exact ⟨a, l₁, first, rest⟩

/-- Four extents, each laid out below the one before. -/
theorem laidOut_of_reserved {s : Spaces} {l₀ l₁ l₂ l₃ l₄ : Layout} (ground : l₀.spaces = #[]) (low : l₀.floor.toNat < 2 ^ 63)
    (first : Layout.Furnished l₀ l₁ (s.space .first).extent) (second : Layout.Furnished l₁ l₂ (s.space .second).extent)
    (third : Layout.Furnished l₂ l₃ (s.space .immortal).extent) (fourth : Layout.Furnished l₃ l₄ (s.space .large).extent) :
    s.LaidOut ∧ (∀ id, (s.space id).extent.tag = id.tag) ∧ s.Charted l₄ := by
  have top := fun {l l' : Layout} {e : Extent} (made : Layout.Furnished l l' e) => made.top made.small
  have t₁ := top first
  have t₂ := top second
  have t₃ := top third
  have t₄ := top fourth
  rw [first.floor] at t₂
  rw [second.floor] at t₃
  rw [third.floor] at t₄
  have whole : ∀ {l l' : Layout} {e : Extent}, Layout.Furnished l l' e → e.start.toNat % 4096 = 0 := by
    intro l l' e made
    have := made.chunk
    omega
  refine ⟨?_, ?_, ?_⟩
  · constructor
    · intro id
      cases id with
      | first => exact ⟨whole first, first.pages, by omega⟩
      | second => exact ⟨whole second, second.pages, by omega⟩
      | immortal => exact ⟨whole third, third.pages, by omega⟩
      | large => exact ⟨whole fourth, fourth.pages, by omega⟩
    · intro id id' differ
      simp only [Span.Apart, Extent.span, Span.ofBytes]
      cases id <;> cases id' <;> first | exact absurd rfl differ | omega
    · intro id differ
      cases id with
      | first => omega
      | second => omega
      | immortal => omega
      | large => exact absurd rfl differ
  · intro id
    have n₁ := first.size
    have n₂ := second.size
    have n₃ := third.size
    cases id with
    | first => rw [first.tag, ground]; rfl
    | second => rw [second.tag, n₁, ground]; rfl
    | immortal => rw [third.tag, n₂, n₁, ground]; rfl
    | large => rw [fourth.tag, n₃, n₂, n₁, ground]; rfl
  · rw [Spaces.Charted, fourth.listed, third.listed, second.listed, first.listed, ground]
    rfl

theorem layOutSpaces_ok {settings : Settings} {spaces : Spaces} {layout : Layout}
    (ok : (layOutSpaces settings).run (Layout.empty settings.heapSize) = .ok (.ok spaces) layout) :
    spaces.Pristine settings.plan ∧ spaces.Charted layout := by
  have chunked : (Layout.empty settings.heapSize).Chunked := show Layout.ceiling.toNat % 2 ^ 22 = 0 by decide
  have next : ∀ {l l' : Layout} {e : Extent}, Layout.Furnished l l' e → l'.Chunked := fun made => by
    rw [Layout.Chunked, made.floor]
    exact made.chunk
  have low : (Layout.empty settings.heapSize).floor.toNat < 2 ^ 63 := show Layout.ceiling.toNat < 2 ^ 63 by decide
  unfold layOutSpaces at ok
  cases plan : settings.plan with
  | generational =>
    rw [plan] at ok
    obtain ⟨nursery, l₁, one, ok⟩ := layOut_bind_ok ok
    obtain ⟨mature, l₂, two, ok⟩ := layOut_bind_ok ok
    obtain ⟨immortal, l₃, three, ok⟩ := layOut_bind_ok ok
    obtain ⟨large, l₄, four, ok⟩ := layOut_bind_ok ok
    obtain ⟨answer, rfl⟩ := Step.pure_ok.mp ok
    cases answer
    obtain ⟨place₁, first⟩ := CopySpace.create_ok chunked one
    obtain ⟨place₂, second⟩ := MarkSweepSpace.create_ok (next place₁) two
    obtain ⟨place₃, third⟩ := ImmortalSpace.create_ok (next place₂) three
    obtain ⟨place₄, fourth⟩ := LargeSpace.create_ok (next place₃) four
    obtain ⟨laid, tags, charted⟩ := laidOut_of_reserved (s := ⟨nursery, .mature mature, immortal, large⟩) rfl low place₁ place₂ place₃ place₄
    exact ⟨⟨laid, rfl, tags, first, fun x same => by cases same; exact second, nofun, third, fourth⟩, charted⟩
  | semispace =>
    rw [plan] at ok
    obtain ⟨half, l₁, one, ok⟩ := layOut_bind_ok ok
    obtain ⟨twin, l₂, two, ok⟩ := layOut_bind_ok ok
    obtain ⟨immortal, l₃, three, ok⟩ := layOut_bind_ok ok
    obtain ⟨large, l₄, four, ok⟩ := layOut_bind_ok ok
    obtain ⟨answer, rfl⟩ := Step.pure_ok.mp ok
    cases answer
    obtain ⟨place₁, first⟩ := CopySpace.create_ok chunked one
    obtain ⟨place₂, second⟩ := CopySpace.create_ok (next place₁) two
    obtain ⟨place₃, third⟩ := ImmortalSpace.create_ok (next place₂) three
    obtain ⟨place₄, fourth⟩ := LargeSpace.create_ok (next place₃) four
    obtain ⟨laid, tags, charted⟩ := laidOut_of_reserved (s := ⟨half, .twin twin, immortal, large⟩) rfl low place₁ place₂ place₃ place₄
    exact ⟨⟨laid, rfl, tags, first, nofun, fun x same => by cases same; exact second, third, fourth⟩, charted⟩

/-- A heap as it is laid out: no memory was handed out, nothing is wanted, and there are no threads. -/
structure Founded (h : Heap) (settings : Settings) : Prop where
  chosen : h.settings = settings
  spaces : h.spaces.Pristine settings.plan
  memory : h.memory = .empty
  scope : h.scope = ⟨false, true, false, false⟩
  demand : h.demand = .initial
  armed : h.armed = false
  backlog : h.backlog = .empty
  collectors : h.collectors = none
  disabled : h.disabled = false
  roots : h.program.roots = #[]
  mutators : h.program.mutators = #[]
  shortages : h.program.shortages = #[]
  charted : h.spaces.Charted h.layout

theorem create_ok {settings : Settings} {breaksOff : Bool} {h : Heap} (ok : create settings breaksOff = .ok (.ok h)) :
    h.Founded settings := by
  unfold create at ok
  split at ok
  · cases ok
  · cases ok
  · rename_i spaces layout laid
    cases ok
    obtain ⟨pristine, charted⟩ := layOutSpaces_ok laid
    exact ⟨rfl, pristine, rfl, rfl, rfl, rfl, rfl, rfl, rfl, rfl, rfl, rfl, charted⟩

end Heap

end TracingHeap
