import TracingHeap.Proofs.Closures

/-! The steps of one collector in a closure, seen together with what all others still have to do. Every step
keeps the objects readable and owes no more than it did: it brings a slot up to date, takes a remembered
object, or starts to scan an object. -/

namespace TracingHeap

open List Memory Work Collector

variable {g : Outset} {h h' h'' : Heap} {pieces pieces' : List Piece} {buffers : List (SpaceId × Span)}
  {keys : List (Nat × Address)} {p q : Piece} {a : Address} {S : Slot → Prop} {O O' M : Address → Prop}
  {c c' c'' : Collector} {rest : Address → Prop}

/-- A copy has a proper address. -/
theorem Kept.copy_proper (kept : Kept g h pieces) {s : Spaces} (held : s.Held h.memory pieces buffers keys)
    (inside : p ∈ pieces) (copy : p ∉ g.pieces) : p.start ≠ .null := by
  obtain ⟨-, -, home, -⟩ := kept.copies p inside copy
  have positive := held.estate.laid.positive p.home (by rw [home]; exact h.destination_ne_large)
  have low := (held.inside inside).1
  intro null
  rw [null] at low
  have zero : Address.null.toNat = 0 := rfl
  simp only [Extent.span, Span.ofBytes] at low
  omega

/-- What a slot holds that was meant for an object: the object itself, or its copy. -/
theorem Kept.bearer {v : Address} {s : Spaces} (kept : Kept g h pieces) (sound : g.Sound)
    (held : s.Held h.memory pieces buffers keys) (member : q ∈ g.known) (value : v = q.start ∨ Settled g.known h q.start v) :
    ∃ r ∈ pieces, r.start = v ∧ r.isObject = true ∧ r.start ≠ .null ∧
      (r = q ∨ r ∉ g.pieces ∧ h.Done q ∧ v = h.spaces.image q) := by
  have inside := kept.known sound member
  obtain ⟨-, object, proper⟩ := sound.known q member
  rcases value with rfl | ⟨null, -⟩ | ⟨q', member', before, done, now⟩
  · exact ⟨q, inside, rfl, object, proper, .inl rfl⟩
  · exact absurd null proper
  · obtain rfl := held.start_inj inside (kept.known sound member') before
    obtain ⟨r, inner, start, -, ⟨rfl, -⟩ | copy⟩ := kept.bodies q member
    · exact ⟨r, inner, start.trans now.symm, object, proper, .inl rfl⟩
    · exact ⟨r, inner, start.trans now.symm, (kept.copies r inner copy).1, kept.copy_proper held inner copy,
        .inr ⟨copy, done, now⟩⟩

/-- Tracing what a slot holds. The answer is what the slot has to hold from now on. -/
theorem Closing.trace_ok {v w : Address} {answer : Option Address}
    (closing : Closing g h pieces S (fun x => Pending c.buffer h.backlog.objects x ∨ rest x) M) (sound : g.Sound)
    (ready : Ready c h pieces buffers keys) (origin : v = .null ∨ ∃ q ∈ g.known, v = q.start ∧ g.Found q)
    (value : w = v ∨ Settled g.known h v w) (ok : trace w (c, h) = .ok answer (c', h')) :
    ∃ moved pieces', answer = some moved ∧ (∀ p ∈ pieces, p ∈ pieces') ∧ Ready c' h' pieces' buffers keys ∧
      Closing g h' pieces' S (fun x => Pending c'.buffer h'.backlog.objects x ∨ rest x) M ∧
      Settled g.known h' v moved ∧ c' = { c with buffer := c'.buffer, copies := c'.copies } ∧ h.Worked h' ∧
      h.backlog.objects.Restacked h'.backlog.objects ∧
      ∀ o ∈ g.known, h.Fixed o → h'.spaces.image o = h.spaces.image o ∧
        ∀ i < g.count o, h'.memory.field (h.spaces.image o) i = h.memory.field (h.spaces.image o) i := by
  have kept := closing.kept
  have tracked := ready.tracked
  rcases origin with rfl | ⟨q, member, rfl, found⟩
  · -- The slot holds null, and keeps it.
    have null : w = .null := by
      rcases value with same | ⟨-, now⟩ | ⟨q, member, null, -⟩
      · exact same
      · exact now
      · exact absurd null.symm (sound.known q member).2.2
    subst null
    have stop : trace .null (c, h) = .ok (some .null) (c, h) := rfl
    rw [stop] at ok
    cases ok
    exact ⟨.null, pieces, rfl, fun _ => id, ready, closing, .inl ⟨rfl, rfl⟩, rfl, .refl h, ⟨rfl, id, fun _ => id⟩,
      fun _ _ _ => ⟨rfl, fun _ _ => rfl⟩⟩
  have inside := kept.known sound member
  -- The piece whose address is traced: the object itself, or its copy.
  obtain ⟨r, inner, start, object', proper', which⟩ := kept.bearer sound ready.held member value
  rw [← start] at ok
  have traced := Collector.trace_ok ready inner object' proper' (fun evacuates missed => by
    rcases which with rfl | ⟨copy, -⟩
    · have movable := sound.movable r member ((kept.evacuates _).mp evacuates)
      have shape := (kept.content r member).shape
      rw [Spaces.image_of_not_reached missed] at shape
      have size : (h.memory.header r.start).size = (g.heap.memory.header r.start).size := congrArg Prod.fst shape
      rw [size]
      exact movable
    · rw [(kept.copies r inner copy).2.2.1] at evacuates
      exact absurd evacuates ready.still) ok
  cases traced with
  | passed passed done =>
    have memory : h'.memory = h.memory := by rw [passed.heap]
    have backlog : h'.backlog = h.backlog := by rw [passed.heap]
    have scope : h.SameScope h' := by
      rw [passed.heap]
      exact ⟨rfl, rfl, rfl⟩
    have image : ∀ o ∈ g.known, h'.spaces.image o = h.spaces.image o := fun o known =>
      passed.untouched.image o (kept.known sound known)
    have done' : ∀ o ∈ pieces, h.Done o → h'.Done o := fun o old done covered =>
      (passed.untouched.reached o old).mpr (done ((Heap.covered_congr passed.untouched.steady scope o).mp covered))
    have next := closing.passed sound ready passed
    rw [passed.collector, backlog]
    refine ⟨_, pieces, rfl, fun _ => id, passed.collector ▸ passed.ready, next, ?_, rfl, ?_, ⟨rfl, id, fun _ => id⟩,
      fun o known _ => ⟨image o known, fun i _ => by rw [memory]⟩⟩
    · rcases which with rfl | ⟨copy, finished, now⟩
      · exact .inr ⟨r, member, rfl, done' r inner done, (image r member).symm⟩
      · refine .inr ⟨q, member, rfl, done' q inside finished, ?_⟩
        have stays : ¬ h.spaces.Evacuates r.home := by
          rw [(kept.copies r inner copy).2.2.1]
          exact ready.still
        rw [tracked.image_eq ready.held inner stays, start, now, image q member]
    · rw [passed.heap]
      exact h.worked_spaces _
  | gained covered missed pieces' a gained =>
    rcases which with rfl | ⟨copy, -⟩
    · have next := closing.gained (fun x => Pending c'.buffer h'.backlog.objects x ∨ rest x) sound ready member found
        covered missed gained fun x => by
          rw [gained.pending x]
          constructor
          · rintro ((same | old) | old)
            · exact .inr same
            · exact .inl (.inl old)
            · exact .inl (.inr old)
          · rintro ((old | old) | same)
            · exact .inl (.inr old)
            · exact .inr old
            · exact .inl (.inl same)
      have more : ∀ p ∈ pieces, p ∈ pieces' := by
        rcases gained.place with ⟨-, same, -⟩ | ⟨-, copy, same, -⟩
        · rw [same]
          exact fun _ => id
        · rw [same]
          exact fun _ => mem_cons_of_mem copy
      refine ⟨a, pieces', rfl, more, gained.ready, next, .inr ⟨r, member, rfl, fun _ => gained.reached, gained.image.symm⟩,
        gained.collector, gained.worked, gained.restacked, fun o known fixed => ⟨?_, fun i small => ?_⟩⟩
      · by_cases same : o = r
        · have stays := fixed.resolve_left fun done => missed (same ▸ done <| same ▸ covered)
          rcases gained.place with ⟨-, -, place⟩ | ⟨moves, -⟩
          · rw [same, gained.image, Spaces.image_of_not_reached missed, place]
          · exact absurd (same ▸ moves) stays
        · exact gained.untouched.image o ⟨kept.known sound known, same⟩
      · have narrow := (sound.shaped o known).2
        exact (kept.read ready.held gained.memory known).2 i (by omega)
    · exact absurd ((kept.copies r inner copy).2.1 covered) missed

/-- The slot held `v` at the outset. -/
def Outset.Holds (g : Outset) (h : Heap) (slot : Slot) (v : Address) : Prop :=
  (∃ i, slot = .root i ∧ i < h.program.roots.size ∧ g.heap.program.roots[i]? = some v) ∨
    ∃ o ∈ g.known, ∃ i < g.count o, slot = .field (Object.slotAt (h.spaces.image o) (UInt64.ofNat i)) ∧ v = g.target o i

theorem Kept.refOf_field (kept : Kept g h pieces) (sound : g.Sound) {s : Spaces}
    (held : s.Held h.memory pieces buffers keys) {o : Piece} (member : o ∈ g.known) {i : Nat} (small : i < g.count o) :
    h.refOf (.field (Object.slotAt (h.spaces.image o) (UInt64.ofNat i))) = h.memory.field (h.spaces.image o) i := by
  obtain ⟨r, -, start, aligned, fits, narrow, -⟩ := kept.slot_place sound held member small
  rw [Heap.refOf, ← start, loadAny_slotAt aligned narrow fits]

/-- Where a slot is that is due, and what it held and holds. -/
theorem Closing.due_slot {s : Spaces} {slot : Slot} (closing : Closing g h pieces S O M) (sound : g.Sound)
    (held : s.Held h.memory pieces buffers keys) (due : S slot) : ∃ v, (v = .null ∨ ∃ q ∈ g.known, v = q.start ∧ g.Found q) ∧
      (h.refOf slot = v ∨ Settled g.known h v (h.refOf slot)) ∧
      ((∃ i, slot = .root i ∧ i < h.program.roots.size ∧ g.heap.program.roots[i]? = some v) ∨
        ∃ o ∈ g.known, h.Fixed o ∧ ∃ i < g.count o,
          slot = .field (Object.slotAt (h.spaces.image o) (UInt64.ofNat i)) ∧ v = g.target o i) := by
  have kept := closing.kept
  rcases closing.owes.slots slot due with ⟨i, inside, rfl⟩ | ⟨o, member, source, done, i, small, rfl⟩
  · have inside' := inside
    rw [kept.rootCount] at inside'
    have before := Array.getElem?_eq_getElem inside'
    have now := Array.getElem?_eq_getElem inside
    refine ⟨_, ?_, ?_, .inl ⟨i, rfl, inside, before⟩⟩
    · exact (sound.roots i _ before).imp id fun ⟨q, member, same⟩ =>
        ⟨q, member, same, .root member (by rw [before, same])⟩
    · rw [Heap.refOf, now, Option.getD_some]
      exact kept.roots i _ _ before now
  · refine ⟨_, ?_, ?_, .inr ⟨o, member, done, i, small, rfl, rfl⟩⟩
    · exact (sound.fields o member i small).imp id fun ⟨q, known, same⟩ =>
        ⟨q, known, same, source.found member small known same⟩
    · rw [kept.refOf_field sound held member small]
      exact kept.fields o member i small

/-- Only the bytes of pieces were written. -/
theorem Collector.Ready.write {m : Memory} (ready : Ready c h pieces buffers keys)
    (held : h.spaces.Held m pieces (c.copies.allocators.buffers ++ buffers) (c.copies.allocators.keys ++ keys)) :
    Ready c { h with memory := m } pieces buffers keys :=
  ⟨held, ready.tracked, ready.aimed.carry rfl rfl, ready.published, ready.still, ready.old⟩

/-- The slot gets the place of its object, unless it holds that already, and is no longer due. -/
theorem Closing.update {S' : Slot → Prop} {slot : Slot} {v moved : Address} (closing : Closing g h pieces S O M)
    (sound : g.Sound) (ready : Ready c h pieces buffers keys) (holds : g.Holds h slot v)
    (settled : Settled g.known h v moved) (fewer : ∀ x, S' x → S x) (rest : ∀ x, S x → x = slot ∨ S' x)
    (heap : h' = h.setRef slot moved ∨ h' = h ∧ h.refOf slot = moved) :
    Closing g h' pieces S' O M ∧ Ready c h' pieces buffers keys := by
  rcases holds with ⟨i, rfl, inside, before⟩ | ⟨o, member, i, small, rfl, rfl⟩
  · have next : Closing g h' pieces S O M ∧ Ready c h' pieces buffers keys ∧ h'.program.roots[i]? = some moved ∧
        h'.spaces = h.spaces ∧ h.SameScope h' := by
      rcases heap with rfl | ⟨rfl, same⟩
      · refine ⟨closing.write_root fun a found => ?_, ready.carry rfl rfl rfl rfl, ?_, rfl, rfl, rfl, rfl⟩
        · rw [before] at found
          cases found
          exact settled
        · simp only [Heap.setRef]
          exact Array.getElem?_setIfInBounds_self_of_lt inside
      · refine ⟨closing, ready, ?_, rfl, rfl, rfl, rfl⟩
        rw [Heap.refOf, Array.getElem?_eq_getElem inside, Option.getD_some] at same
        rw [Array.getElem?_eq_getElem inside, same]
    obtain ⟨next, ready', now, spaces, scope⟩ := next
    refine ⟨⟨next.kept, next.owes.settle fewer (fun j a b before' now' due => ?_) fun o member j small due => ?_⟩, ready'⟩
    · by_cases same : j = i
      · rw [same, before] at before'
        rw [same, now] at now'
        cases before'
        cases now'
        exact .inl (settled.congr spaces scope)
      · refine .inr ((rest _ due).resolve_left fun equal => same ?_)
        cases equal
        rfl
    · exact .inr ((rest _ due).resolve_left fun equal => by cases equal)
  · have next : Closing g h' pieces S O M ∧ Ready c h' pieces buffers keys ∧
        h'.memory.field (h.spaces.image o) i = moved ∧ h'.spaces = h.spaces ∧ h.SameScope h' := by
      rcases heap with rfl | ⟨rfl, same⟩
      · obtain ⟨next, mine, held⟩ := closing.write_field sound ready.held member small settled
        exact ⟨next, ready.write (held ready.held), mine, rfl, rfl, rfl, rfl⟩
      · rw [closing.kept.refOf_field sound ready.held member small] at same
        exact ⟨closing, ready, same, rfl, rfl, rfl, rfl⟩
    obtain ⟨next, ready', now, spaces, scope⟩ := next
    refine ⟨⟨next.kept, next.owes.settle fewer (fun j a b before' now' due => ?_) fun o' member' j small' due => ?_⟩, ready'⟩
    · exact .inr ((rest _ due).resolve_left fun equal => by cases equal)
    · by_cases same : Slot.field (Object.slotAt (h'.spaces.image o') (UInt64.ofNat j)) =
          .field (Object.slotAt (h.spaces.image o) (UInt64.ofNat i))
      · rw [spaces] at same ⊢
        injection same with same
        obtain ⟨rfl, rfl⟩ := closing.kept.slot_inj sound ready.held member' member small' small same
        rw [now]
        exact .inl (settled.congr spaces scope)
      · exact .inr ((rest _ due).resolve_left same)

/-! ### The state of one share -/

/-- What the work of a share changes in a heap. -/
def Heap.Laboured (h h' : Heap) : Prop :=
  ∃ spaces memory demand tally nextFull shortages roots backlog,
    h' = { h with
      spaces, memory, demand, tally, backlog
      scope := { h.scope with nextFull }
      program := { h.program with roots, shortages } }

theorem Heap.Laboured.refl (h : Heap) : h.Laboured h := ⟨_, _, _, _, _, _, _, _, rfl⟩

theorem Heap.Laboured.trans (one : h.Laboured h') (two : h'.Laboured h'') : h.Laboured h'' := by
  obtain ⟨_, _, _, _, _, _, _, _, rfl⟩ := one
  obtain ⟨_, _, _, _, _, _, _, _, rfl⟩ := two
  exact ⟨_, _, _, _, _, _, _, _, rfl⟩

theorem Heap.Worked.laboured (worked : h.Worked h') : h.Laboured h' := by
  obtain ⟨_, _, _, _, _, _, _, rfl⟩ := worked
  exact ⟨_, _, _, _, _, _, _, _, rfl⟩

theorem Heap.Worked.packets (worked : h.Worked h') :
    h'.backlog.roots = h.backlog.roots ∧ h'.backlog.remembered = h.backlog.remembered := by
  obtain ⟨_, _, _, _, _, _, _, rfl⟩ := worked
  exact ⟨rfl, rfl⟩

theorem Heap.laboured_setRef (h : Heap) (slot : Slot) (w : Address) : h.Laboured (h.setRef slot w) := by
  cases slot with
  | root i => exact ⟨_, _, _, _, _, _, _, _, rfl⟩
  | field place => exact ⟨_, _, _, _, _, _, _, _, rfl⟩

namespace Share

/-- The slots that are due: those at hand, those in packets, and those of other collectors. -/
def slotsDue (s : Share) (h : Heap) (others : Slot → Prop) (x : Slot) : Prop :=
  x ∈ s.slots ∨ (∃ packet ∈ h.backlog.roots, x ∈ packet) ∨ others x

/-- The remembered objects that are due. -/
def rememberedDue (s : Share) (h : Heap) (others : Address → Prop) (x : Address) : Prop :=
  x ∈ s.remembered ∨ (∃ packet ∈ h.backlog.remembered, x ∈ packet) ∨ others x

/-- The objects that are still to be scanned. -/
def objectsDue (c : Collector) (h : Heap) (others : Address → Prop) (x : Address) : Prop :=
  Pending c.buffer h.backlog.objects x ∨ others x

/-- A collector works off its share; the others have `slots`, `objects` and `remembered` to do. -/
structure Going (g : Outset) (c : Collector) (h : Heap) (s : Share) (pieces : List Piece)
    (buffers : List (SpaceId × Span)) (keys : List (Nat × Address)) (slots : Slot → Prop)
    (objects remembered : Address → Prop) : Prop where
  ready : Ready c h pieces buffers keys
  closing : Closing g h pieces (s.slotsDue h slots) (objectsDue c h objects) (s.rememberedDue h remembered)
  packed : h.backlog.objects.Packed

end Share

/-- What one step of a collector changes outside of its share. -/
structure Labour (c : Collector) (h : Heap) (c' : Collector) (h' : Heap) : Prop where
  collector : c' = { c with buffer := c'.buffer, copies := c'.copies }
  heap : h.Laboured h'

variable {s s' : Share} {slots : Slot → Prop} {objects remembered : Address → Prop}

/-- A slot at hand is brought up to date. Nobody has to wait for it. -/
theorem Share.processSlot_ok {slot : Slot} {left : List Slot} {b : Bool}
    (going : Going g c h s pieces buffers keys slots objects remembered) (sound : g.Sound) (hand : s.slots = slot :: left)
    (ok : processSlot slot (c, h) = .ok b (c', h')) :
    b = true ∧ Labour c h c' h' ∧ h.backlog.objects.Restacked h'.backlog.objects ∧
      (h'.backlog.roots = h.backlog.roots ∧ h'.backlog.remembered = h.backlog.remembered) ∧
      ∃ pieces', (∀ p ∈ pieces, p ∈ pieces') ∧ Going g c' h' { s with slots := left } pieces' buffers keys slots objects remembered := by
  have closing := going.closing
  have kept := closing.kept
  have due : s.slotsDue h slots slot := .inl (by rw [hand]; exact mem_cons_self)
  have fewer : ∀ h₁ : Heap, h₁.backlog.roots = h.backlog.roots → ∀ x,
      ({ s with slots := left } : Share).slotsDue h₁ slots x → s.slotsDue h slots x := by
    intro h₁ same x member
    unfold slotsDue at member ⊢
    rw [same] at member
    exact member.imp (fun inner => by rw [hand]; exact mem_cons_of_mem _ inner) id
  have rest : ∀ h₁ : Heap, h₁.backlog.roots = h.backlog.roots → ∀ x, s.slotsDue h slots x →
      x = slot ∨ ({ s with slots := left } : Share).slotsDue h₁ slots x := by
    intro h₁ same x member
    unfold slotsDue at member ⊢
    rw [same]
    rw [hand] at member
    rcases member with member | member
    · exact (mem_cons.mp member).imp id .inl
    · exact .inr (.inr member)
  simp only [processSlot, Step.get_bind, Step.bind_ok] at ok
  obtain ⟨answer, ⟨c₁, h₁⟩, traced, ok⟩ := ok
  -- Where the slot is, and what it held and holds.
  obtain ⟨v, origin, value, holds⟩ := closing.due_slot sound going.ready.held due
  obtain ⟨moved, pieces', rfl, more, ready₁, closing₁, settled, collector, worked, restacked, stable⟩ :=
    closing.trace_ok sound going.ready origin value traced
  obtain ⟨roots₁, remembered₁⟩ := worked.packets
  have holds₁ : g.Holds h₁ slot v := by
    rcases holds with ⟨i, same, inside, before⟩ | ⟨o, member, done, i, small, same, before⟩
    · exact .inl ⟨i, same, by rw [worked.roots]; exact inside, before⟩
    · exact .inr ⟨o, member, i, small, by rw [(stable o member done).1]; exact same, before⟩
  have unchanged : h₁.refOf slot = h.refOf slot := by
    rcases holds with ⟨i, rfl, -⟩ | ⟨o, member, done, i, small, rfl, -⟩
    · rw [Heap.refOf, Heap.refOf, worked.roots]
    · have here := closing₁.kept.refOf_field sound ready₁.held member small
      rw [(stable o member done).1] at here
      rw [here, kept.refOf_field sound going.ready.held member small, (stable o member done).2 i small]
  have final : ∀ h₂, (h₂ = h₁.setRef slot moved ∨ h₂ = h₁ ∧ h₁.refOf slot = moved) → h₂.backlog = h₁.backlog →
      h₁.Laboured h₂ → Labour c h c₁ h₂ ∧ h.backlog.objects.Restacked h₂.backlog.objects ∧
        (h₂.backlog.roots = h.backlog.roots ∧ h₂.backlog.remembered = h.backlog.remembered) ∧
        ∃ pieces', (∀ p ∈ pieces, p ∈ pieces') ∧ Going g c₁ h₂ { s with slots := left } pieces' buffers keys slots objects remembered := by
    intro h₂ heap backlog laboured
    have same : h₂.backlog.roots = h.backlog.roots := by rw [backlog, roots₁]
    obtain ⟨closing₂, ready₂⟩ := closing₁.update sound ready₁ holds₁ settled (fewer h₂ same) (rest h₂ same) heap
    refine ⟨⟨collector, worked.laboured.trans laboured⟩, backlog ▸ restacked, ⟨same, by rw [backlog, remembered₁]⟩,
      pieces', more, ready₂, ?_, backlog ▸ restacked.packed going.packed⟩
    have objects₂ : objectsDue c₁ h₂ objects = fun x => Pending c₁.buffer h₁.backlog.objects x ∨ objects x := by
      unfold objectsDue
      rw [backlog]
    have remembered₂ : ({ s with slots := left } : Share).rememberedDue h₂ remembered = s.rememberedDue h remembered := by
      unfold rememberedDue
      rw [backlog, remembered₁]
    rw [objects₂, remembered₂]
    exact closing₂
  by_cases same : moved = h.refOf slot
  · simp only [same, if_true, Step.pure_ok, Prod.mk.injEq] at ok
    obtain ⟨rfl, rfl, rfl⟩ := ok
    exact ⟨rfl, final h₁ (.inr ⟨rfl, unchanged.trans same.symm⟩) rfl (.refl _)⟩
  · simp only [same, if_false, Step.modify_bind, Step.pure_ok, Prod.mk.injEq] at ok
    obtain ⟨rfl, rfl, rfl⟩ := ok
    refine ⟨rfl, final _ (.inl rfl) ?_ (h₁.laboured_setRef slot moved)⟩
    cases slot <;> rfl

/-! ### Objects that are taken up -/

/-- An object is scanned: its slots are due instead. -/
theorem Owes.scan (S' : Slot → Prop) (O' : Address → Prop) (owes : Owes g h pieces S O M) (kept : Kept g h pieces) (queued : O a)
    (slots : ∀ x, S' x ↔ S x ∨ x ∈ h.memory.slotsOf a) (fewer : ∀ x, O' x → O x) (rest : ∀ x, O x → x = a ∨ O' x) :
    Owes g h pieces S' O' M := by
  refine ⟨fun x due => ?_, fun x member => owes.objects x (fewer x member), owes.remembered,
    fun i v w before now => (owes.roots i v w before now).imp id fun due => (slots _).mpr (.inl due), fun o member done => ?_,
    owes.watched⟩
  · rcases (slots x).mp due with due | field
    · exact owes.slots x due
    · obtain ⟨o, member, found, open_, done, rfl⟩ := owes.objects a queued
      obtain ⟨i, small, rfl⟩ := mem_slotsOf.mp field
      rw [(kept.content o member).fields] at small
      exact .inr ⟨o, member, .inr ⟨found, open_⟩, .inl done, i, small, rfl⟩
  · rcases owes.fields o member done with remembered | waiting | settled
    · exact .inl remembered
    · rcases rest _ waiting with same | waiting
      · refine .inr (.inr fun i small => .inr ((slots _).mpr (.inr (mem_slotsOf.mpr ⟨i, ?_, by rw [same]⟩))))
        rw [← same, (kept.content o member).fields]
        exact small
      · exact .inr (.inl waiting)
    · exact .inr (.inr fun i small => (settled i small).imp id fun due => (slots _).mpr (.inl due))

/-- A remembered object is taken: in a collection of young objects alone its slots are due instead. -/
theorem Owes.take {S' : Slot → Prop} {M' : Address → Prop} {o : Piece} (owes : Owes g h pieces S O M)
    (kept : Kept g h pieces) (member : o ∈ g.known) (single : ∀ o' ∈ g.known, o'.start = o.start → o' = o)
    (source : g.Remembered o) (stays : ¬ h.spaces.Evacuates o.home) (image : h.spaces.image o = o.start)
    (unlogged : o.Stamped h.memory (g.heap.plan.watches o.home)) (homes : ∀ r ∈ pieces, r.start = o.start → r = o)
    (slots : ∀ x, S' x ↔ S x ∨ g.heap.nurseryOnly = true ∧ x ∈ h.memory.slotsOf o.start)
    (fewer : ∀ x, M' x → M x) (rest : ∀ x, M x → x = o.start ∨ M' x) : Owes g h pieces S' O M' := by
  refine ⟨fun x due => ?_, owes.objects, fun x due => owes.remembered x (fewer x due),
    fun i v w before now => (owes.roots i v w before now).imp id fun due => (slots _).mpr (.inl due),
    fun o' member' done => ?_, fun r inside object => (owes.watched r inside object).mono fun due => ?_⟩
  · rcases (slots x).mp due with due | ⟨young, field⟩
    · exact owes.slots x due
    · obtain ⟨i, small, rfl⟩ := mem_slotsOf.mp field
      rw [← image, (kept.content o member).fields] at small
      exact .inr ⟨o, member, .inl ⟨source, young⟩, .inr stays, i, small, by rw [image]⟩
  · rcases owes.fields o' member' done with ⟨young, due⟩ | waiting | settled
    · rcases rest _ due with same | due
      · obtain rfl := single o' member' same
        refine .inr (.inr fun i small => .inr ((slots _).mpr (.inr ⟨young, mem_slotsOf.mpr ⟨i, ?_, by rw [image]⟩⟩)))
        rw [← image, (kept.content o' member).fields]
        exact small
      · exact .inl ⟨young, due⟩
    · exact .inr (.inl waiting)
    · exact .inr (.inr fun i small => (settled i small).imp id fun due => (slots _).mpr (.inl due))
  · rcases rest _ due with same | due
    · rw [homes r inside same]
      exact .inr unlogged
    · exact .inl due

theorem Share.takeRemembered_ok {left : List Address} {taken : List Slot}
    (going : Going g c h s pieces buffers keys slots objects remembered) (sound : g.Sound) (none_left : s.slots = [])
    (hand : s.remembered = a :: left) (ok : takeRemembered a (c, h) = .ok taken (c', h')) :
    Labour c h c' h' ∧ h'.backlog = h.backlog ∧
      Going g c' h' ⟨s.stage, taken, left⟩ pieces buffers keys slots objects remembered := by
  have closing := going.closing
  have kept := closing.kept
  have held := going.ready.held
  have due : s.rememberedDue h remembered a := .inl (by rw [hand]; exact mem_cons_self)
  obtain ⟨o, member, source, rfl⟩ := closing.owes.remembered a due
  have inside := kept.known sound member
  have single : ∀ o' ∈ g.known, o'.start = o.start → o' = o := fun o' member' same =>
    held.start_inj (kept.known sound member') inside same
  have stays := kept.remembered_stays sound held member source
  have watching : g.heap.plan.watches o.home = true := by
    obtain ⟨packet, queued, listed⟩ := source
    obtain ⟨o', member', same, -, watching⟩ := sound.remembered packet queued o.start listed
    rw [single o' member' same.symm] at watching
    exact watching
  have image := going.ready.tracked.image_eq held inside stays
  simp only [takeRemembered, Step.modify_bind, Step.get_bind, Step.pure_ok, Prod.mk.injEq] at ok
  obtain ⟨rfl, rfl, rfl⟩ := ok
  obtain ⟨marked, unlogged, keep⟩ := closing.write_mark sound held inside (sound.known o member).2.1 watching
  refine ⟨⟨rfl, _, _, _, _, _, _, _, _, rfl⟩, rfl, going.ready.write (keep held), ⟨marked.kept, ?_⟩, going.packed⟩
  have young : (Heap.nurseryOnly { h with
      memory := h.memory.setMark o.start (h.memory.mark o.start).unlogged }) = g.heap.nurseryOnly := kept.nursery
  refine marked.owes.take marked.kept member single source stays image unlogged
    (fun r inside' same => held.start_inj inside' inside same) (fun x => ?_) (fun x due => ?_) fun x due => ?_
  · simp only [slotsDue, young, none_left, not_mem_nil, false_or]
    by_cases nursery : g.heap.nurseryOnly = true
    · simp only [nursery, if_true, true_and]
      exact or_comm
    · simp only [nursery, Bool.false_eq_true, if_false, not_mem_nil, false_or, false_and, or_false]
  · rw [rememberedDue, hand]
    exact due.imp (mem_cons_of_mem _) id
  · rw [rememberedDue, hand] at due
    rcases due with due | due
    · exact (mem_cons.mp due).imp id .inl
    · exact .inr (.inr due)

/-! ### One step of a share -/

/-- The backlog is no part of what a closure keeps. -/
theorem Closing.backlog (closing : Closing g h pieces S O M) (backlog : Backlog Slot Address) :
    Closing g { h with backlog } pieces S O M := by
  have carry : ∀ {v w}, Settled g.known h v w → Settled g.known { h with backlog } v w :=
    fun settled => settled.congr rfl ⟨rfl, rfl, rfl⟩
  have kept := closing.kept
  have owes := closing.owes
  exact ⟨⟨kept.steady, kept.covered, kept.nursery, kept.stamping, kept.reached, kept.base, kept.copies,
    kept.bodies, kept.injective, kept.content, fun o member i small => (kept.fields o member i small).imp id carry,
    kept.rootCount, fun i a b before now => (kept.roots i a b before now).imp id carry, kept.found,
    kept.origins⟩,
    ⟨owes.slots, owes.objects, owes.remembered, fun i a b before now => (owes.roots i a b before now).imp carry id,
      fun o member done => (owes.fields o member done).imp id fun rest => rest.imp id fun due i small =>
        (due i small).imp carry id, owes.watched⟩⟩

theorem Closing.congr {S' : Slot → Prop} {M' : Address → Prop} (closing : Closing g h pieces S O M)
    (slots : ∀ x, S' x ↔ S x) (objects : ∀ x, O' x ↔ O x) (remembered : ∀ x, M' x ↔ M x) :
    Closing g h pieces S' O' M' := by
  obtain rfl : S' = S := funext fun x => propext (slots x)
  obtain rfl : O' = O := funext fun x => propext (objects x)
  obtain rfl : M' = M := funext fun x => propext (remembered x)
  exact closing

namespace Share

/-- The stages that are over for one collector are over for all: no packet is left of them. -/
structure Cleared (s : Share) (h : Heap) : Prop where
  roots : s.stage ≠ .roots → h.backlog.roots = []
  remembered : s.stage ≠ .roots → s.stage ≠ .remembered → h.backlog.remembered = []

/-- One who waits has nothing to do. -/
def Idle (s : Share) (c : Collector) : Prop := s.slots = [] ∧ s.remembered = [] ∧ c.buffer = #[]

/-- The queue as a collector finds it that is about to look for an object. -/
def rejoin (s : Share) (q : Packets Address) : Packets Address :=
  if s.stage = .waiting then { q with idle := q.idle - 1 } else q

/-- How a step moves a collector among those who work, wait, and have finished. -/
inductive Moved (s : Share) (q : Packets Address) (next : Share) (c' : Collector) (q' : Packets Address) : Prop where
  | works (active : next.stage ≠ .waiting ∧ next.stage ≠ .finished) (restacked : (s.rejoin q).Restacked q')
    (woken : s.stage = .waiting → q.stack ≠ [])
  | ends (finished : next = ⟨.finished, [], []⟩) (empty : c'.buffer = #[]) (stack : q.stack = [])
    (how : q.drained = true ∧ q' = s.rejoin q ∨
      (s.rejoin q).idle + 1 = q.participants ∧ q' = { s.rejoin q with drained := true })
  | waits (waiting : next = ⟨.waiting, [], []⟩) (empty : c'.buffer = #[]) (stack : q.stack = [])
    (open_ : q.drained = false) (others : (s.rejoin q).idle + 1 ≠ q.participants)
    (heap : q' = { s.rejoin q with idle := (s.rejoin q).idle + 1 })

/-- What a step of a share comes to. -/
structure Stepped (g : Outset) (c : Collector) (h : Heap) (s next : Share) (c' : Collector) (h' : Heap)
    (pieces' : List Piece) (buffers : List (SpaceId × Span)) (keys : List (Nat × Address)) (slots : Slot → Prop)
    (objects remembered : Address → Prop) : Prop where
  labour : Labour c h c' h'
  going : Going g c' h' next pieces' buffers keys slots objects remembered
  moved : Moved s h.backlog.objects next c' h'.backlog.objects
  cleared : s.Cleared h → next.Cleared h'
  roots : h.backlog.roots = [] → h'.backlog.roots = []
  rememberedLeft : h.backlog.remembered = [] → h'.backlog.remembered = []

end Share

theorem Share.rejoin_stack (s : Share) (q : Packets Address) :
    (s.rejoin q).stack = q.stack ∧ (s.rejoin q).drained = q.drained ∧ (s.rejoin q).participants = q.participants := by
  unfold rejoin
  split <;> exact ⟨rfl, rfl, rfl⟩

/-- A share without anything at hand, after the queue changed but not the objects in it. -/
theorem Share.Going.emptied {stage : Stage} {q : Packets Address}
    (going : Going g c h s pieces buffers keys slots objects remembered) (idle : s.slots = [] ∧ s.remembered = [])
    (stack : q.stack = h.backlog.objects.stack) :
    Going g c { h with backlog := { h.backlog with objects := q } } ⟨stage, [], []⟩ pieces buffers keys slots objects
      remembered := by
  refine ⟨going.ready.carry rfl rfl rfl rfl, (going.closing.backlog _).congr (fun x => ?_) (fun x => ?_) fun x => ?_,
    fun packet member => going.packed packet (stack ▸ member)⟩
  · simp only [slotsDue, idle.1]
  · simp only [objectsDue, Pending, stack]
  · simp only [rememberedDue, idle.2]

/-- An item that a collector took is scanned; without one it ends or waits. -/
theorem Share.ofItem_ok {item : Buffer.Item Address} {next : Share} {b : Buffer Address} {q : Packets Address}
    (going : Going g c h s pieces buffers keys slots objects remembered) (idle : s.slots = [] ∧ s.remembered = [])
    (stages : s.stage = .objects ∨ s.stage = .waiting) (calm : s.stage = .waiting → c.buffer = #[])
    (found : Buffer.Found c.buffer (s.rejoin h.backlog.objects) item b q)
    (ok : ofItem item ({ c with buffer := b }, { h with backlog := { h.backlog with objects := q } }) = .ok next (c', h')) :
    Stepped g c h s next c' h' pieces buffers keys slots objects remembered := by
  obtain ⟨stack, drained, participants⟩ := s.rejoin_stack h.backlog.objects
  have labour : ∀ b q, Labour c h { c with buffer := b } { h with backlog := { h.backlog with objects := q } } :=
    fun b q => ⟨rfl, _, _, _, _, _, _, _, _, rfl⟩
  have cleared : ∀ (next : Share) q, s.Cleared h →
      next.Cleared { h with backlog := { h.backlog with objects := q } } := by
    intro next q before
    have passed : s.stage ≠ .roots ∧ s.stage ≠ .remembered := by
      rcases stages with same | same
      all_goals
        rw [same]
        exact ⟨Stage.noConfusion, Stage.noConfusion⟩
    exact ⟨fun _ => before.roots passed.1, fun _ _ => before.remembered passed.1 passed.2⟩
  cases found with
  | item a b q restacked moved =>
    simp only [ofItem, Step.get_bind, Step.pure_ok, Prod.mk.injEq] at ok
    obtain ⟨rfl, rfl, rfl⟩ := ok
    have pending : ∀ x, Pending c.buffer h.backlog.objects x ↔ x = a ∨ Pending b q x := by
      intro x
      rw [← pending_cons moved, Pending, Pending, stack]
    refine ⟨labour b q, ⟨going.ready.carry rfl rfl rfl rfl, ⟨(going.closing.backlog _).kept, ?_⟩, ?_⟩,
      .works ⟨Stage.noConfusion, Stage.noConfusion⟩ restacked fun waiting none_left => ?_, cleared _ q, id, id⟩
    · have next := (going.closing.backlog { h.backlog with objects := q }).owes.scan
        (Share.slotsDue ⟨.objects, h.memory.slotsOf a, []⟩ { h with backlog := { h.backlog with objects := q } } slots)
        (objectsDue { c with buffer := b } { h with backlog := { h.backlog with objects := q } } objects)
        (a := a) (going.closing.backlog _).kept (.inl ((pending a).mpr (.inl rfl))) (fun x => ?_) (fun x => ?_) fun x => ?_
      · refine ((⟨(going.closing.backlog { h.backlog with objects := q }).kept, next⟩ : Closing ..).congr
          (fun _ => Iff.rfl) (fun _ => Iff.rfl) fun x => ?_).owes
        simp only [rememberedDue, idle.2]
      · simp only [slotsDue, idle.1, not_mem_nil, false_or]
        exact or_comm
      · exact Or.imp (fun inner => (pending x).mpr (.inr inner)) id
      · rintro (inner | other)
        · exact ((pending x).mp inner).imp id .inl
        · exact .inr (.inr other)
    · exact restacked.packed fun packet member => going.packed packet (stack ▸ member)
    · rcases (pending a).mpr (.inl rfl) with here | ⟨packet, member, -⟩
      · rw [calm waiting] at here
        exact Array.not_mem_empty a here
      · rw [none_left] at member
        cases member
  | drained empty ended none_left =>
    simp only [ofItem, Step.pure_ok, Prod.mk.injEq] at ok
    obtain ⟨rfl, rfl, rfl⟩ := ok
    exact ⟨labour _ _, going.emptied idle stack, .ends rfl empty (stack ▸ none_left) (.inl ⟨drained ▸ ended, rfl⟩),
      cleared _ _, id, id⟩
  | last empty none_left alone =>
    simp only [ofItem, Step.pure_ok, Prod.mk.injEq] at ok
    obtain ⟨rfl, rfl, rfl⟩ := ok
    exact ⟨labour _ _, going.emptied idle stack, .ends rfl empty (stack ▸ none_left) (.inr ⟨participants ▸ alone, rfl⟩),
      cleared _ _, id, id⟩
  | wait empty none_left active others =>
    simp only [ofItem, Step.pure_ok, Prod.mk.injEq] at ok
    obtain ⟨rfl, rfl, rfl⟩ := ok
    exact ⟨labour _ _, going.emptied idle stack, .waits rfl empty (stack ▸ none_left) (drained ▸ active)
      (participants ▸ others) rfl, cleared _ _, id, id⟩

/-- A collector without anything at hand turns to what comes next. -/
theorem Share.proceed_ok {next : Share} (going : Going g c h s pieces buffers keys slots objects remembered)
    (idle : s.slots = [] ∧ s.remembered = []) (calm : s.stage = .waiting → c.buffer = #[]) (unfinished : s.stage ≠ .finished)
    (ok : proceed s.stage (c, h) = .ok next (c', h')) :
    Stepped g c h s next c' h' pieces buffers keys slots objects remembered := by
  have awake : ∀ {stage}, s.stage = stage → stage ≠ .waiting → s.stage = .waiting → h.backlog.objects.stack ≠ [] :=
    fun same busy waiting => absurd (same.symm.trans waiting) busy
  cases stage : s.stage with
  | roots =>
    have same : s.rejoin h.backlog.objects = h.backlog.objects := by rw [rejoin, if_neg (by rw [stage]; exact Stage.noConfusion)]
    have restacked : (s.rejoin h.backlog.objects).Restacked h.backlog.objects := by
      rw [same]
      exact ⟨rfl, id, fun _ => id⟩
    simp only [stage, proceed, Step.bind_ok, Step.on_ok, Focus.comp, Focus.snd, Heap.backlogPart, Backlog.popRoots,
      Step.get_bind] at ok
    obtain ⟨answer, _, ⟨backlog, popped, rfl⟩, ok⟩ := ok
    cases packets : h.backlog.roots with
    | nil =>
      simp only [packets, Step.pure_ok] at popped
      obtain ⟨rfl, rfl⟩ := popped
      obtain ⟨rfl, same'⟩ := Step.pure_ok.mp ok
      cases same'
      exact ⟨⟨rfl, .refl h⟩, @Going.emptied _ _ _ _ _ _ _ _ _ _ .remembered _ going idle rfl,
        .works ⟨Stage.noConfusion, Stage.noConfusion⟩ restacked (awake stage Stage.noConfusion), fun _ => ⟨fun _ => packets, fun _ bad => absurd rfl bad⟩,
        fun _ => packets, id⟩
    | cons packet left =>
      simp only [packets, Step.modify_bind, Step.pure_ok] at popped
      obtain ⟨rfl, rfl⟩ := popped
      obtain ⟨rfl, same'⟩ := Step.pure_ok.mp ok
      cases same'
      refine ⟨⟨rfl, _, _, _, _, _, _, _, _, rfl⟩, ⟨going.ready.carry rfl rfl rfl rfl,
        (going.closing.backlog _).congr (fun x => ?_) (fun _ => Iff.rfl) fun x => ?_, going.packed⟩,
        .works ⟨Stage.noConfusion, Stage.noConfusion⟩ restacked (awake stage Stage.noConfusion),
        fun _ => ⟨fun bad => absurd rfl bad, fun bad => absurd rfl bad⟩, fun none_left => ?_, id⟩
      · simp only [slotsDue, idle.1, packets, mem_cons, exists_eq_or_imp, Array.mem_toList_iff, not_mem_nil, false_or, or_assoc]
      · simp only [rememberedDue, idle.2]
      · rw [packets] at none_left
        cases none_left
  | remembered =>
    have same : s.rejoin h.backlog.objects = h.backlog.objects := by rw [rejoin, if_neg (by rw [stage]; exact Stage.noConfusion)]
    have restacked : (s.rejoin h.backlog.objects).Restacked h.backlog.objects := by
      rw [same]
      exact ⟨rfl, id, fun _ => id⟩
    simp only [stage, proceed, Step.bind_ok, Step.on_ok, Focus.comp, Focus.snd, Heap.backlogPart, Backlog.popRemembered,
      Step.get_bind] at ok
    obtain ⟨answer, _, ⟨backlog, popped, rfl⟩, ok⟩ := ok
    have passed : s.Cleared h → h.backlog.roots = [] := fun before => before.roots (by rw [stage]; exact Stage.noConfusion)
    cases packets : h.backlog.remembered with
    | nil =>
      simp only [packets, Step.pure_ok] at popped
      obtain ⟨rfl, rfl⟩ := popped
      obtain ⟨rfl, same'⟩ := Step.pure_ok.mp ok
      cases same'
      exact ⟨⟨rfl, .refl h⟩, @Going.emptied _ _ _ _ _ _ _ _ _ _ .objects _ going idle rfl,
        .works ⟨Stage.noConfusion, Stage.noConfusion⟩ restacked (awake stage Stage.noConfusion), fun before => ⟨fun _ => passed before, fun _ _ => packets⟩,
        id, fun _ => packets⟩
    | cons packet left =>
      simp only [packets, Step.modify_bind, Step.pure_ok] at popped
      obtain ⟨rfl, rfl⟩ := popped
      obtain ⟨rfl, same'⟩ := Step.pure_ok.mp ok
      cases same'
      refine ⟨⟨rfl, _, _, _, _, _, _, _, _, rfl⟩, ⟨going.ready.carry rfl rfl rfl rfl,
        (going.closing.backlog _).congr (fun x => ?_) (fun _ => Iff.rfl) fun x => ?_, going.packed⟩,
        .works ⟨Stage.noConfusion, Stage.noConfusion⟩ restacked (awake stage Stage.noConfusion),
        fun before => ⟨fun _ => passed before, fun _ bad => absurd rfl bad⟩, id, fun none_left => ?_⟩
      · simp only [slotsDue, idle.1]
      · simp only [rememberedDue, idle.2, packets, mem_cons, exists_eq_or_imp, Array.mem_toList_iff, not_mem_nil, false_or, or_assoc]
      · rw [packets] at none_left
        cases none_left
  | objects =>
    have same : s.rejoin h.backlog.objects = h.backlog.objects := by rw [rejoin, if_neg (by rw [stage]; exact Stage.noConfusion)]
    simp only [stage, proceed, Step.bind_ok, onQueue, Step.onBoth_ok, Focus.comp, Focus.fst, Focus.snd, bufferPart,
      Heap.backlogPart, Backlog.objectsPart] at ok
    obtain ⟨item, _, ⟨b, q, dequeued, rfl⟩, ok⟩ := ok
    have found := Buffer.dequeue_ok going.packed dequeued
    rw [← same] at found
    exact ofItem_ok going idle (.inl stage) calm found ok
  | waiting =>
    have same : s.rejoin h.backlog.objects = { h.backlog.objects with idle := h.backlog.objects.idle - 1 } := by
      rw [rejoin, if_pos stage]
    simp only [stage, proceed, Step.bind_ok, onQueue, Step.onBoth_ok, Focus.comp, Focus.fst, Focus.snd, bufferPart,
      Heap.backlogPart, Backlog.objectsPart] at ok
    obtain ⟨item, _, ⟨b, q, resumed, rfl⟩, ok⟩ := ok
    have empty := calm stage
    rw [empty] at resumed
    have found := Buffer.resume_ok going.packed resumed
    rw [← same, ← empty] at found
    exact ofItem_ok going idle (.inr stage) calm found ok
  | finished => exact absurd stage unfinished

/-- One step of a share. A collector that has to wait for another one changes nothing. -/
theorem Share.step_ok {answer : Option Share} (going : Going g c h s pieces buffers keys slots objects remembered)
    (sound : g.Sound) (calm : s.stage = .waiting → s.Idle c) (unfinished : s.stage ≠ .finished)
    (ok : s.step (c, h) = .ok answer (c', h')) :
    ∃ pieces', (∀ p ∈ pieces, p ∈ pieces') ∧
      Stepped g c h s (answer.getD s) c' h' pieces' buffers keys slots objects remembered := by
  have stays : s.stage ≠ .waiting → s.rejoin h.backlog.objects = h.backlog.objects := fun busy => by
    rw [rejoin, if_neg busy]
  unfold step at ok
  cases hand : s.slots with
  | cons slot left =>
    have busy : s.stage ≠ .waiting := fun waiting => by
      have idle := (calm waiting).1
      rw [hand] at idle
      cases idle
    simp only [hand, Step.bind_ok, Step.ite_step] at ok
    obtain ⟨b, ⟨c₁, h₁⟩, processed, ok⟩ := ok
    obtain ⟨rfl, labour, restacked, ⟨roots, remembered'⟩, pieces', more, going'⟩ := processSlot_ok going sound hand processed
    simp only [if_true, Step.pure_ok, Prod.mk.injEq] at ok
    obtain ⟨rfl, rfl, rfl⟩ := ok
    refine ⟨pieces', more, labour, going', .works ⟨busy, unfinished⟩ ((stays busy).symm ▸ restacked)
      (fun waiting => absurd waiting busy), fun before => ?_,
      fun none_left => roots.trans none_left, fun none_left => remembered'.trans none_left⟩
    exact ⟨fun passed => roots.trans (before.roots passed),
      fun one two => remembered'.trans (before.remembered one two)⟩
  | nil =>
    cases marked : s.remembered with
    | cons object left =>
      have busy : s.stage ≠ .waiting := fun waiting => by
        have idle := (calm waiting).2.1
        rw [marked] at idle
        cases idle
      simp only [hand, marked, Step.bind_ok, Step.pure_ok] at ok
      obtain ⟨taken, _, took, rfl, rfl⟩ := ok
      obtain ⟨labour, backlog, going'⟩ := takeRemembered_ok going sound hand marked took
      have restacked : h.backlog.objects.Restacked h'.backlog.objects := by
        rw [backlog]
        exact ⟨rfl, id, fun _ => id⟩
      refine ⟨pieces, fun _ => id, labour, going', .works ⟨busy, unfinished⟩ ((stays busy).symm ▸ restacked)
        (fun waiting => absurd waiting busy), fun before => ?_,
        fun none_left => by rw [backlog]; exact none_left, fun none_left => by rw [backlog]; exact none_left⟩
      exact ⟨fun passed => by rw [backlog]; exact before.roots passed,
        fun one two => by rw [backlog]; exact before.remembered one two⟩
    | nil =>
      simp only [hand, marked, Step.bind_ok, Step.ite_step] at ok
      obtain ⟨next, ⟨c₁, h₁⟩, proceeded, ok⟩ := ok
      have stepped := proceed_ok going ⟨hand, marked⟩ (fun waiting => (calm waiting).2.2) unfinished proceeded
      by_cases stuck : s.stage = .waiting ∧ next.stage = .waiting
      · rw [if_pos stuck] at ok
        obtain ⟨rfl, same⟩ := Step.pure_ok.mp ok
        cases same
        refine ⟨pieces, fun _ => id, ?_⟩
        have same : next = s := by
          cases stepped.moved with
          | works active => exact absurd stuck.2 active.1
          | ends finished =>
            rw [finished] at stuck
            cases stuck.2
          | waits waiting =>
            rw [waiting, ← hand, ← stuck.1]
            cases s
            simp only at hand marked
            rw [hand, marked]
        exact same ▸ stepped
      · rw [if_neg stuck] at ok
        obtain ⟨rfl, same⟩ := Step.pure_ok.mp ok
        cases same
        exact ⟨pieces, fun _ => id, stepped⟩

end TracingHeap
