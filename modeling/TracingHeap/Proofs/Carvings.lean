import TracingHeap.Proofs.Fittings
import TracingHeap.Proofs.Cycles

/-! Bump allocators over whole histories of requests. A chunk is as long as the request with its padding, so a request that has
taken one is served out of it, and trying again ends. What was carved out of a chunk lies in it from the bottom up, and nothing
is written but the markers of the gaps. -/

namespace TracingHeap

open Memory

namespace Word

theorem toNat_max (a b : Word) : (max a b).toNat = max a.toNat b.toNat := by
  change (if a ≤ b then b else a).toNat = _
  split
  · rename_i order
    have := UInt64.le_iff_toNat_le.mp order
    omega
  · rename_i order
    have := mt UInt64.le_iff_toNat_le.mpr order
    omega

/-- The largest power of two is the last bit by itself. -/
theorem toNat_le_of_power {value : Word} (power : value.isPowerOfTwo = true) : value.toNat ≤ 2 ^ 63 := by
  obtain ⟨n, power⟩ := isPowerOfTwo_iff.mp power
  have bound := value.toNat_lt
  rw [power] at bound ⊢
  have below : n < 64 := (Nat.pow_lt_pow_iff_right (by decide)).mp bound
  exact Nat.pow_le_pow_right (by decide) (by omega)

end Word

/-- A heap out of which chunks can be taken: no extent starts at the null address, and the settings admit the bytes that are
taken at a time. -/
structure Heap.Furnished (h : Heap) : Prop where
  laid : h.spaces.LaidOut
  supplied : h.spaces.Supplied h.memory
  proper : ∀ id, 0 < (h.spaces.space id).extent.start.toNat
  admitted : Settings.admitsBumpChunk h.settings.bumpChunkSize = true

/-- What a program can get to is such a heap, as far as its settings are. -/
theorem World.Sound.furnished {w : World} {pieces objects : List Piece} (sound : w.Sound pieces objects)
    (proper : 0 < w.heap.spaces.large.pages.extent.start.toNat)
    (admitted : Settings.admitsBumpChunk w.heap.settings.bumpChunkSize = true) : w.heap.Furnished where
  laid := sound.quiet.held.estate.laid
  supplied := sound.quiet.held.estate.supplied
  proper id := by
    by_cases large : id = .large
    · rw [large]
      exact proper
    · exact sound.quiet.held.estate.laid.positive id large
  admitted := admitted

namespace BumpAllocator

variable {r : Request} {b b' : BumpAllocator} {h h' : Heap} {a : Address} {room : Word}

/-! ### Out of the memory at hand -/

/-- The request was served out of the memory at hand: from its cursor on, aligned and below the limit. The gap in front of the
place holds the marker, and no other word was written. -/
structure Carved (r : Request) (b : BumpAllocator) (h : Heap) (a : Address) (b' : BumpAllocator) (h' : Heap) : Prop where
  aligns : r.Aligns a
  above : b.cursor ≤ a
  cursor : b'.cursor.toNat = a.toNat + r.size
  room : b'.cursor ≤ b.limit
  allocator : b' = { b with cursor := b'.cursor }
  gap : ∀ i, b.cursor.toNat ≤ 8 * i → 8 * i < a.toNat → h'.memory.word i = Padding.gapMarker
  rest : AgreeOff h.memory h'.memory ⟨b.cursor.toNat, a.toNat⟩
  heap : h' = { h with memory := h'.memory }

/-- The memory at hand serves a legal request, or it is too short for it and stays as it is. -/
theorem carveInHeap_cases (h : Heap) (legal : r.Legal) (small : r.size ≤ 8192) (words : b.cursor.toNat % 8 = 0)
    (low : b.cursor.toNat < 2 ^ 63) :
    (∃ a b' h', carveInHeap r (b, h) = .ok (some a) (b', h') ∧ Carved r b h a b' h') ∨
      carveInHeap r (b, h) = .ok none (b, h) ∧ ∀ place, Padding.alignedStart b.cursor r.align r.offset = .ok place →
        b.cursor ≠ .null → b.limit.toNat < place.toNat + r.size := by
  obtain ⟨place, placed⟩ := Padding.alignedStart_total legal.power legal.small legal.whole (by omega : b.cursor.toNat + 16 ≤ 2 ^ 64)
  obtain ⟨whole, above, near, multiple, -⟩ := Padding.alignedStart_ok words placed
  have slack := Padding.slack_le r.align
  have inner : (Padding.allocationSize r.bytes).toNat = r.size := rfl
  have ended := @Address.above_fits place (Padding.allocationSize r.bytes) (by omega)
  have stop := (Address.above_ok ended).2.2
  have run {answer : Option Address} {t : BumpAllocator × Heap}
      (next : (if b.cursor.isNull || b.limit < place.plus (Padding.allocationSize r.bytes) then pure none else do
        modify fun s => ({ s.1 with cursor := place.plus (Padding.allocationSize r.bytes) }, Padding.fillGap s.2 s.1.cursor place)
        return some place : Step (BumpAllocator × Memory) (Option Address)) (b, h.memory) = .ok answer (t.1, t.2.memory))
      (same : { h with memory := t.2.memory } = t.2) : carveInHeap r (b, h) = .ok answer t := by
    simp only [carveInHeap, Step.onBoth_ok, Focus.comp, Focus.fst, Focus.snd, Heap.memoryPart, carve, Step.get_bind,
      Step.bind_ok, Step.lift_ok]
    exact ⟨t.1, t.2.memory, ⟨place, _, ⟨placed, rfl⟩, _, _, ⟨ended, rfl⟩, next⟩, Prod.ext rfl same⟩
  by_cases short : (b.cursor.isNull || b.limit < place.plus (Padding.allocationSize r.bytes)) = true
  · refine .inr ⟨run (by rw [if_pos short]; rfl) rfl, fun place' placed' present => ?_⟩
    cases placed.symm.trans placed'
    rcases Bool.or_eq_true_iff.mp short with null | below
    · exact absurd (Address.isNull_iff.mp null) present
    · have below := Address.lt_iff.mp (of_decide_eq_true below)
      omega
  · refine .inl ⟨place, { b with cursor := place.plus (Padding.allocationSize r.bytes) },
      { h with memory := Padding.fillGap h.memory b.cursor place }, run (by rw [if_neg short]; rfl) rfl, ?_⟩
    have enough := mt (fun below => Bool.or_eq_true_iff.mpr (.inr (decide_eq_true below))) short
    exact {
      aligns := ⟨whole, multiple⟩
      above := Address.le_iff.mpr above
      cursor := stop
      room := Address.not_lt.mp enough
      allocator := rfl
      gap := fun i from_ below => by rw [word_fillGap _ _ _ words whole, if_pos ⟨from_, below⟩]
      rest := fillGap_agree _ _ _ words whole
      heap := rfl }

/-! ### Out of new memory -/

/-- The bytes of a chunk for a request that takes no more than `room` with its padding. -/
def chunkFor (h : Heap) (room : Word) : Word := (max room h.settings.bumpChunkSize).alignUp Padding.minObjectBytes

/-- A chunk holds the request with its padding, and as much as the settings say. -/
theorem chunkFor_holds (small : room.toNat ≤ 8192) (admitted : Settings.admitsBumpChunk h.settings.bumpChunkSize = true) :
    room.toNat ≤ (chunkFor h room).toNat ∧ h.settings.bumpChunkSize.toNat ≤ (chunkFor h room).toNat ∧
      16 ≤ (chunkFor h room).toNat := by
  obtain ⟨least, power⟩ := (Bool.and_eq_true ..).mp admitted
  have least : 16 ≤ h.settings.bumpChunkSize.toNat := UInt64.le_iff_toNat_le.mp (of_decide_eq_true least)
  have most := Word.toNat_le_of_power power
  have unit : Padding.minObjectBytes.toNat = 2 ^ 4 := rfl
  have value : (chunkFor h room).toNat = _ := Word.toNat_alignUp unit (by rw [Word.toNat_max]; omega)
  rw [Word.toNat_max] at value
  omega

/-- A chunk was taken, and nothing of it has been handed out. -/
structure Renewed (b : BumpAllocator) (h : Heap) (bytes : Word) (b' : BumpAllocator) (h' : Heap) : Prop where
  fresh : Spaces.Fresh h.spaces h'.spaces h.memory h'.memory b.space (.ofBytes b'.cursor bytes)
  proper : b'.cursor ≠ .null
  high : b'.limit.toNat < 2 ^ 63
  limit : b'.limit.toNat = b'.cursor.toNat + bytes.toNat
  allocator : b' = ⟨b.space, b'.cursor, b'.limit⟩

/-- A chunk is asked for once, and the allocator changes only if it is given. -/
theorem refill_cases (furnished : h.Furnished) (padded : r.room = .ok room) (b : BumpAllocator) :
    (∃ e h', Heap.acquire b.space (chunkFor h room) h = .error e h' ∧ refill r (b, h) = .error e (b, h')) ∨
    (∃ h', Heap.acquire b.space (chunkFor h room) h = .ok none h' ∧ refill r (b, h) = .ok false (b, h')) ∨
    ∃ b' h', Heap.acquire b.space (chunkFor h room) h = .ok (some b'.cursor) h' ∧ refill r (b, h) = .ok true (b', h') ∧
      Renewed b h (chunkFor h room) b' h' := by
  rw [refill, Step.bind_of_ok (Step.lift_ok.mpr ⟨padded, rfl⟩), Step.get_bind]
  cases asked : Heap.acquire b.space (chunkFor h room) h with
  | error e h' =>
    have broke : Step.on Focus.snd (Heap.acquire b.space (chunkFor h room)) (b, h) = .error e (b, h') := by
      simp only [Step.on, Focus.snd, asked]
    exact .inl ⟨e, h', rfl, Step.bind_of_error broke⟩
  | ok answer h' =>
    have asked' : Step.on Focus.snd (Heap.acquire b.space (chunkFor h room)) (b, h) = .ok answer (b, h') := by
      simp only [Step.on, Focus.snd, asked]
    cases answer with
    | none => exact .inr (.inl ⟨h', rfl, Step.bind_of_ok asked'⟩)
    | some start =>
      have got := Heap.acquire_ok furnished.laid furnished.supplied asked
      have fresh := got.granted.served start rfl
      have within := got.granted.supplied.issued_within fresh.issued
      have placed := (got.granted.repaged.laidOut furnished.laid).placed b.space
      have proper := furnished.proper b.space
      have extent := got.granted.repaged.extent b.space
      have fits := placed.fits
      rw [← extent] at proper
      simp only [Span.Within, Span.ofBytes, Extent.span] at within
      have reach := @Address.above_fits start (chunkFor h room) (by omega)
      have stop := (Address.above_ok reach).2.2
      refine .inr (.inr ⟨⟨b.space, start, start.plus (chunkFor h room)⟩, h', rfl, ?_, fresh, ?_, ?_, stop, rfl⟩)
      · refine (Step.bind_of_ok asked').trans ?_
        simp only [Step.modify_bind, Step.bind_ok, Step.lift_ok, Step.pure_ok]
        exact ⟨_, _, ⟨reach, rfl⟩, trivial, rfl⟩
      · exact Address.toNat_pos.mp (show 0 < start.toNat by omega)
      · simp only
        omega

/-! ### Whole requests -/

/-- How a request ends: it is served out of the memory at hand, or a chunk of `bytes` is asked for, and if it is given, the
request is served out of the chunk. -/
inductive Serves (r : Request) (bytes : Word) (b : BumpAllocator) (h : Heap) :
    EStateM.Result Fault (BumpAllocator × Heap) (Option Address) → Prop
  | atHand {a : Address} {b' : BumpAllocator} {h' : Heap} (carved : Carved r b h a b' h') : Serves r bytes b h (.ok (some a) (b', h'))
  | refused {h' : Heap} (asked : Heap.acquire b.space bytes h = .ok none h') : Serves r bytes b h (.ok none (b, h'))
  | broken {e : Fault} {h' : Heap} (asked : Heap.acquire b.space bytes h = .error e h') : Serves r bytes b h (.error e (b, h'))
  | fresh {a : Address} {b₁ b' : BumpAllocator} {h₁ h' : Heap} (asked : Heap.acquire b.space bytes h = .ok (some b₁.cursor) h₁)
      (renewed : Renewed b h bytes b₁ h₁) (carved : Carved r b₁ h₁ a b' h') : Serves r bytes b h (.ok (some a) (b', h'))

/-- A request the way it is tried: out of the memory at hand, and if that is too short, all over again with a new chunk. `n` is
how often a chunk was taken. -/
inductive Tries (r : Request) :
    BumpAllocator × Heap → Nat → EStateM.Result Fault (BumpAllocator × Heap) (Option Address) → Prop
  | carved {s t : BumpAllocator × Heap} {a : Address} (ran : carveInHeap r s = .ok (some a) t) : Tries r s 0 (.ok (some a) t)
  | failed {s t : BumpAllocator × Heap} {e : Fault} (ran : carveInHeap r s = .error e t) : Tries r s 0 (.error e t)
  | refused {s s₁ t : BumpAllocator × Heap} (short : carveInHeap r s = .ok none s₁) (ran : refill r s₁ = .ok false t) :
      Tries r s 0 (.ok none t)
  | broken {s s₁ t : BumpAllocator × Heap} {e : Fault} (short : carveInHeap r s = .ok none s₁) (ran : refill r s₁ = .error e t) :
      Tries r s 0 (.error e t)
  | again {s s₁ s₂ : BumpAllocator × Heap} {n : Nat} {result : EStateM.Result Fault (BumpAllocator × Heap) (Option Address)}
      (short : carveInHeap r s = .ok none s₁) (ran : refill r s₁ = .ok true s₂) (next : Tries r s₂ n result) :
      Tries r s (n + 1) result

/-- There is only one way to try. -/
theorem Tries.unique {s : BumpAllocator × Heap} {n k : Nat}
    {result other : EStateM.Result Fault (BumpAllocator × Heap) (Option Address)} (tries : Tries r s n result)
    (tries' : Tries r s k other) : n = k ∧ result = other := by
  -- What carving and taking a chunk answer decides which of the ways it is.
  induction tries generalizing k other with
  | carved ran => cases tries' <;> grind
  | failed ran => cases tries' <;> grind
  | refused short ran => cases tries' <;> grind
  | broken short ran => cases tries' <;> grind
  | again short ran next ih => cases tries' <;> grind

/-- The memory at hand is what is left of a chunk, from the end of what was handed out of it on. -/
structure Settled (chunk : Span) (spans : List Span) (b : BumpAllocator) : Prop where
  order : b.cursor ≤ b.limit
  words : b.cursor.toNat % 8 = 0
  limit : b.limit.toNat = chunk.hi
  high : chunk.hi < 2 ^ 63
  row : spans.Pairwise fun s t => s.hi ≤ t.lo
  inside : ∀ s ∈ spans, chunk.lo ≤ s.lo ∧ s.hi ≤ b.cursor.toNat
  low : chunk.lo ≤ b.cursor.toNat

variable {chunk : Span} {spans : List Span} {bytes : Word}

theorem Settled.below (settled : Settled chunk spans b) : b.cursor.toNat < 2 ^ 63 := by
  have order := Address.le_iff.mp settled.order
  have limit := settled.limit
  have high := settled.high
  omega

theorem new_settled (id : SpaceId) : Settled ⟨0, 0⟩ [] (new id) where
  order := Address.le_iff.mpr (Nat.le_refl _)
  words := rfl
  limit := rfl
  high := by decide
  row := .nil
  inside := nofun
  low := Nat.le_refl _

/-- What is carved is put at the end of the row. -/
theorem Settled.carved (settled : Settled chunk spans b) (carved : Carved r b h a b' h') :
    Settled chunk (spans ++ [⟨a.toNat, a.toNat + r.size⟩]) b' where
  order := by
    rw [carved.allocator]
    exact carved.room
  words := by
    have := Padding.allocationSize_whole r.bytes
    have whole := carved.aligns.1
    have inner : (Padding.allocationSize r.bytes).toNat = r.size := rfl
    rw [carved.cursor]
    omega
  limit := by
    rw [carved.allocator]
    exact settled.limit
  high := settled.high
  row := by
    refine List.pairwise_append.mpr ⟨settled.row, List.pairwise_singleton .., fun s member t last => ?_⟩
    rw [List.mem_singleton.mp last]
    exact Nat.le_trans (settled.inside s member).2 (Address.le_iff.mp carved.above)
  inside s member := by
    have above := Address.le_iff.mp carved.above
    have low := settled.low
    rw [carved.cursor]
    rcases List.mem_append.mp member with old | last
    · have before := settled.inside s old
      omega
    · rw [List.mem_singleton.mp last]
      exact ⟨Nat.le_trans low above, Nat.le_refl _⟩
  low := by
    have above := Address.le_iff.mp carved.above
    have low := settled.low
    rw [carved.cursor]
    omega

/-- A chunk that was just taken is at hand as a whole. -/
theorem Renewed.settled (renewed : Renewed b h bytes b' h') : Settled ⟨b'.cursor.toNat, b'.limit.toNat⟩ [] b' where
  order := Address.le_iff.mpr (renewed.limit ▸ Nat.le_add_right ..)
  words := renewed.fresh.aligned
  limit := rfl
  high := renewed.high
  row := .nil
  inside := nofun
  low := Nat.le_refl _

theorem Settled.carves (settled : Settled chunk spans b) (legal : r.Legal) (small : r.size ≤ 8192)
    (ran : carveInHeap r (b, h) = .ok (some a) (b', h')) : Carved r b h a b' h' := by
  rcases carveInHeap_cases h legal small settled.words settled.below with ⟨_, _, _, ran', carved⟩ | ⟨ran', -⟩
  · cases ran.symm.trans ran'
    exact carved
  · cases ran.symm.trans ran'

/-- A chunk that holds the request with its padding serves it. -/
theorem Renewed.carves (renewed : Renewed b h bytes b' h') (legal : r.Legal) (padded : r.room = .ok room)
    (small : r.size ≤ 8192) (enough : room.toNat ≤ bytes.toNat) (least : 16 ≤ bytes.toNat) :
    ∃ a b'' h'', carveInHeap r (b', h') = .ok (some a) (b'', h'') ∧ Carved r b' h' a b'' h'' := by
  have settled := renewed.settled
  have high := renewed.high
  have limit := renewed.limit
  rcases carveInHeap_cases h' legal small settled.words settled.below with served | ⟨-, short⟩
  · exact served
  · obtain ⟨place, placed, -, -, fits⟩ := legal.aligned_in padded settled.words enough least (by omega)
    have := short place placed renewed.proper
    omega

/-- A request that shares pages is served out of the memory at hand or out of one new chunk, and so trying ends. -/
theorem Settled.ends (settled : Settled chunk spans b) (furnished : h.Furnished) (legal : r.Legal) (shared : r.isLarge = .ok false) :
    (∃ bytes, h.settings.bumpChunkSize ≤ bytes ∧ Serves r bytes b h (alloc r (b, h))) ∧
      ∃ n ≤ 1, Tries r (b, h) n (alloc r (b, h)) := by
  have size := legal.shared_size shared
  obtain ⟨room, padded, small⟩ := legal.shared_room shared
  obtain ⟨enough, much, least⟩ := chunkFor_holds small furnished.admitted
  have much : h.settings.bumpChunkSize ≤ chunkFor h room := UInt64.le_iff_toNat_le.mpr much
  rcases carveInHeap_cases h legal size settled.words settled.below with ⟨a, b', h', ran, carved⟩ | ⟨short, -⟩
  · have served : alloc r (b, h) = .ok (some a) (b', h') := Step.bind_of_ok ran
    rw [served]
    exact ⟨⟨_, much, .atHand carved⟩, 0, Nat.zero_le _, .carved ran⟩
  · have again : alloc r (b, h) = allocFresh r (b, h) := Step.bind_of_ok short
    rw [again]
    rcases refill_cases furnished padded b with ⟨e, h', asked, ran⟩ | ⟨h', asked, ran⟩ | ⟨b', h', asked, ran, renewed⟩
    · have broken : allocFresh r (b, h) = .error e (b, h') := Step.bind_of_error ran
      rw [broken]
      exact ⟨⟨_, much, .broken asked⟩, 0, Nat.zero_le _, .broken short ran⟩
    · have refused : allocFresh r (b, h) = .ok none (b, h') := Step.bind_of_ok ran
      rw [refused]
      exact ⟨⟨_, much, .refused asked⟩, 0, Nat.zero_le _, .refused short ran⟩
    · obtain ⟨a, b'', h'', ran', carved⟩ := renewed.carves legal padded size enough least
      have served : allocFresh r (b, h) = .ok (some a) (b'', h'') := (Step.bind_of_ok ran).trans ran'
      rw [served]
      exact ⟨⟨_, much, .fresh asked renewed carved⟩, 1, Nat.le_refl _, .again short ran (.carved ran')⟩

/-! ### Histories -/

/-- The states that a bump allocator comes to with requests that are legal and share pages, each with the chunk that is at hand
and with what was handed out of it. The heap is another one at every step, as others use it too. -/
inductive Arises : Span → List Span → BumpAllocator → Prop
  | new (id : SpaceId) : Arises ⟨0, 0⟩ [] (new id)
  | carved {chunk : Span} {spans : List Span} {b b' : BumpAllocator} {h h' : Heap} {r : Request} {a : Address}
      (before : Arises chunk spans b) (legal : r.Legal) (shared : r.isLarge = .ok false)
      (ran : carveInHeap r (b, h) = .ok (some a) (b', h')) : Arises chunk (spans ++ [⟨a.toNat, a.toNat + r.size⟩]) b'
  | filled {chunk : Span} {spans : List Span} {b b' : BumpAllocator} {h h' : Heap} {r : Request}
      (before : Arises chunk spans b) (furnished : h.Furnished) (legal : r.Legal) (shared : r.isLarge = .ok false)
      (ran : refill r (b, h) = .ok true (b', h')) : Arises ⟨b'.cursor.toNat, b'.limit.toNat⟩ [] b'
  | refused {chunk : Span} {spans : List Span} {b b' : BumpAllocator} {h h' : Heap} {r : Request}
      (before : Arises chunk spans b) (furnished : h.Furnished) (legal : r.Legal) (shared : r.isLarge = .ok false)
      (ran : refill r (b, h) = .ok false (b', h')) : Arises chunk spans b'
  | broken {chunk : Span} {spans : List Span} {b b' : BumpAllocator} {h h' : Heap} {r : Request} {e : Fault}
      (before : Arises chunk spans b) (furnished : h.Furnished) (legal : r.Legal) (shared : r.isLarge = .ok false)
      (ran : refill r (b, h) = .error e (b', h')) : Arises chunk spans b'
  | reset {chunk : Span} {spans : List Span} {b : BumpAllocator} (before : Arises chunk spans b) : Arises ⟨0, 0⟩ [] b.reset
  | rebind {chunk : Span} {spans : List Span} {b : BumpAllocator} (before : Arises chunk spans b) (id : SpaceId) :
      Arises ⟨0, 0⟩ [] (b.rebind id)

theorem Arises.settled (arises : Arises chunk spans b) : Settled chunk spans b := by
  induction arises with
  | new id => exact new_settled id
  | reset => exact new_settled _
  | rebind _ id => exact new_settled id
  | carved _ legal shared ran ih => exact ih.carved (ih.carves legal (legal.shared_size shared) ran)
  | filled _ furnished legal shared ran | refused _ furnished legal shared ran | broken _ furnished legal shared ran =>
    obtain ⟨room, padded, -⟩ := legal.shared_room shared
    rcases refill_cases furnished padded _ with ⟨_, _, -, ran'⟩ | ⟨_, -, ran'⟩ | ⟨_, _, -, ran', renewed⟩
    all_goals cases ran.symm.trans ran'
    first
    | exact renewed.settled
    | assumption

/-- A bump allocator that has only met legal requests that share pages has its cursor on a word and not above its limit, and
what it has handed out of its chunk lies in it from the bottom up, without overlaps. The next such request takes at most one
chunk, however often it is tried: it is served out of the memory at hand, or out of the chunk if one is given. Either way the
gap in front of the place is filled with markers, and no other word is written. -/
theorem Arises.serves_from_one_chunk (arises : Arises chunk spans b) :
    (b.cursor ≤ b.limit ∧ b.cursor.toNat % 8 = 0 ∧ (spans.Pairwise fun s t => s.hi ≤ t.lo) ∧ ∀ s ∈ spans, s.Within chunk) ∧
      ∀ (h : Heap) (r : Request), h.Furnished → r.Legal → r.isLarge = .ok false →
        (∃ bytes, h.settings.bumpChunkSize ≤ bytes ∧ Serves r bytes b h (alloc r (b, h))) ∧
        (∃ n, Tries r (b, h) n (alloc r (b, h))) ∧
        (∀ n result, Tries r (b, h) n result → n ≤ 1 ∧ result = alloc r (b, h)) ∧
        ∀ a b' h', alloc r (b, h) = .ok (some a) (b', h') → ∃ chunk' spans', (chunk' = chunk ∧ spans' = spans ∨ spans' = []) ∧
          Arises chunk' (spans' ++ [⟨a.toNat, a.toNat + r.size⟩]) b' := by
  have settled := arises.settled
  have order := Address.le_iff.mp settled.order
  have limit := settled.limit
  refine ⟨⟨settled.order, settled.words, settled.row, fun s member => ?_⟩, fun h r furnished legal shared => ?_⟩
  · obtain ⟨low, high⟩ := settled.inside s member
    exact ⟨low, by omega⟩
  · obtain ⟨serves, n, once, tries⟩ := settled.ends furnished legal shared
    refine ⟨serves, ⟨n, tries⟩, fun k result tries' => ?_, fun a b' h' ok => ?_⟩
    · obtain ⟨rfl, rfl⟩ := tries'.unique tries
      exact ⟨once, rfl⟩
    · rw [ok] at tries
      cases tries with
      | carved ran => exact ⟨chunk, spans, .inl ⟨rfl, rfl⟩, arises.carved legal shared ran⟩
      | again short ran next =>
        cases next with
        | again => omega
        | carved ran' =>
          rcases carveInHeap_cases h legal (legal.shared_size shared) settled.words settled.below with ⟨_, _, _, served, -⟩ | ⟨same, -⟩
          · cases short.symm.trans served
          · cases short.symm.trans same
            exact ⟨_, [], .inr rfl, (arises.filled furnished legal shared ran).carved legal shared ran'⟩

/-- A chunk is taken, and two requests are served out of it, the first of them behind a gap. -/
def carving : Step (BumpAllocator × Heap) (Bool × Option Address × Option Address) := do
  let more ← refill ⟨24, 16, 8⟩
  let first ← carveInHeap ⟨24, 16, 8⟩
  let second ← carveInHeap ⟨40, 8, 0⟩
  return (more, first, second)

/-- The allocator after that. -/
def carvedTwice : BumpAllocator := (carving.left (new .first, World.sample.heap)).1

theorem sample_furnished : World.sample.heap.Furnished := by
  obtain ⟨pieces, objects, sound⟩ := World.sample_reachable.sound
  exact sound.furnished (by decide +kernel) (by decide +kernel)

theorem carvedTwice_arises : Arises ⟨139637955788800, 139637955821568⟩
    [⟨139637955788808, 139637955788832⟩, ⟨139637955788832, 139637955788872⟩] carvedTwice := by
  have ran : carving (new .first, World.sample.heap) = .ok (true, some ⟨139637955788808⟩, some ⟨139637955788832⟩)
    (carving.left (new .first, World.sample.heap)) := Step.answer_ok (by decide +kernel)
  simp only [carving, Step.bind_ok] at ran
  obtain ⟨_, ⟨b₁, _⟩, filled, _, ⟨b₂, _⟩, first, _, ⟨b₃, _⟩, second, last⟩ := ran
  obtain ⟨answers, same⟩ := Step.pure_ok.mp last
  cases answers
  have chunk : b₁ = ⟨.first, ⟨139637955788800⟩, ⟨139637955821568⟩⟩ :=
    (congrArg Prod.fst (Step.left_ok filled)).symm.trans (by decide +kernel)
  subst chunk
  have more : b₃ = carvedTwice := congrArg Prod.fst same
  have legal : Request.Legal ⟨24, 16, 8⟩ := ⟨by decide, by decide, by decide⟩
  rw [← more]
  exact (((Arises.new .first).filled sample_furnished legal rfl filled).carved legal rfl first).carved
    ⟨by decide, by decide, by decide⟩ rfl second

/-- The third request leaves a gap of one word. -/
theorem carvedTwice_serves : World.sample.heap.Furnished ∧ Request.Legal ⟨16, 16, 0⟩ ∧ Request.isLarge ⟨16, 16, 0⟩ = .ok false ∧
    carvedTwice = ⟨.first, ⟨139637955788872⟩, ⟨139637955821568⟩⟩ ∧
    (carvedTwice.cursor ≤ carvedTwice.limit ∧ carvedTwice.cursor.toNat % 8 = 0 ∧
      ([⟨139637955788808, 139637955788832⟩, ⟨139637955788832, 139637955788872⟩] : List Span).Pairwise (fun s t => s.hi ≤ t.lo) ∧
      ∀ s ∈ ([⟨139637955788808, 139637955788832⟩, ⟨139637955788832, 139637955788872⟩] : List Span),
        s.Within ⟨139637955788800, 139637955821568⟩) ∧
    (∃ bytes, World.sample.heap.settings.bumpChunkSize ≤ bytes ∧
      Serves ⟨16, 16, 0⟩ bytes carvedTwice World.sample.heap (alloc ⟨16, 16, 0⟩ (carvedTwice, World.sample.heap))) ∧
    (∃ n, Tries ⟨16, 16, 0⟩ (carvedTwice, World.sample.heap) n (alloc ⟨16, 16, 0⟩ (carvedTwice, World.sample.heap))) ∧
    ∀ n result, Tries ⟨16, 16, 0⟩ (carvedTwice, World.sample.heap) n result →
      n ≤ 1 ∧ result = alloc ⟨16, 16, 0⟩ (carvedTwice, World.sample.heap) := by
  have legal : Request.Legal ⟨16, 16, 0⟩ := ⟨by decide, by decide, by decide⟩
  obtain ⟨row, next⟩ := Arises.serves_from_one_chunk carvedTwice_arises
  obtain ⟨serves, tries, once, -⟩ := next World.sample.heap ⟨16, 16, 0⟩ sample_furnished legal rfl
  exact ⟨sample_furnished, legal, rfl, by decide +kernel, row, serves, tries, once⟩

end BumpAllocator

end TracingHeap
