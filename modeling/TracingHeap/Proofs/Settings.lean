import Mathlib.Data.List.Induction
import Mathlib.Data.Nat.Digits.Defs
import Mathlib.Logic.Function.Basic
import TracingHeap.Proofs.Words
import TracingHeap.Settings

/-! Settings over whole rows of changes by name. A change is accepted just if there is a setting of the name and the text
stands for a value in its range; then it changes this setting and no other. So the last text that a setting takes decides,
and no setting ever has a value out of its range. -/

namespace TracingHeap

/-! ### Numerals -/

namespace Numeral

/-- A text stands for a number: digits from the most significant one on, and perhaps a plus sign in front. -/
def Denotes (text : String) (n : Nat) : Prop :=
  ∃ digits : List Nat, digits ≠ [] ∧ (∀ d ∈ digits, d < 10) ∧ Nat.ofDigits 10 digits.reverse = n ∧
    (text.toList = digits.map Nat.digitChar ∨ text.toList = '+' :: digits.map Nat.digitChar)

variable {c : Char} {d n value : Nat} {chars : List Char} {text : String}

theorem digit?_iff : digit? c = some d ↔ d < 10 ∧ c = Nat.digitChar d := by
  unfold digit?
  constructor
  · intro read
    split at read
    · rename_i within
      obtain rfl := Option.some.inj read
      have least : 48 ≤ c.toNat := within.1
      have most : c.toNat ≤ 57 := within.2
      have known : ∀ m : Nat, m < 10 → Char.ofNat (48 + m) = Nat.digitChar m := by decide
      refine ⟨by omega, ?_⟩
      rw [← known _ (by omega), Nat.add_sub_cancel' least, Char.ofNat_toNat]
    · cases read
  · rintro ⟨small, rfl⟩
    have known : ∀ d : Nat, d < 10 → digit? (Nat.digitChar d) = some d := by decide
    exact known d small

theorem digits?_iff : digits? value chars = some n ↔
    ∃ digits : List Nat, (∀ d ∈ digits, d < 10) ∧ chars = digits.map Nat.digitChar ∧
      n = value * 10 ^ digits.length + Nat.ofDigits 10 digits.reverse := by
  induction chars generalizing value with
  | nil =>
    rw [digits?]
    constructor
    · intro read
      exact ⟨[], nofun, rfl, by simpa using read.symm⟩
    · rintro ⟨digits, -, same, rfl⟩
      obtain rfl := List.map_eq_nil_iff.mp same.symm
      simp
  | cons c rest ih =>
    rw [digits?, Option.bind_eq_some_iff]
    constructor
    · rintro ⟨d, first, read⟩
      obtain ⟨small, rfl⟩ := digit?_iff.mp first
      obtain ⟨digits, within, rfl, rfl⟩ := ih.mp read
      refine ⟨d :: digits, List.forall_mem_cons.mpr ⟨small, within⟩, rfl, ?_⟩
      rw [List.reverse_cons, Nat.ofDigits_append, List.length_reverse, Nat.ofDigits_singleton, List.length_cons]
      ring
    · rintro ⟨digits, within, same, rfl⟩
      cases digits with
      | nil => cases same
      | cons d digits =>
        obtain ⟨small, within⟩ := List.forall_mem_cons.mp within
        obtain ⟨rfl, rfl⟩ := List.cons.inj same
        refine ⟨d, digit?_iff.mpr ⟨small, rfl⟩, ih.mpr ⟨digits, within, rfl, ?_⟩⟩
        rw [List.reverse_cons, Nat.ofDigits_append, List.length_reverse, Nat.ofDigits_singleton, List.length_cons]
        ring

theorem natural?_iff : natural? chars = some n ↔
    ∃ digits : List Nat, digits ≠ [] ∧ (∀ d ∈ digits, d < 10) ∧ Nat.ofDigits 10 digits.reverse = n ∧
      chars = digits.map Nat.digitChar := by
  cases chars with
  | nil =>
    refine ⟨nofun, ?_⟩
    rintro ⟨digits, some, -, -, none⟩
    exact absurd (List.map_eq_nil_iff.mp none.symm) some
  | cons c rest =>
    rw [natural?, digits?_iff]
    · constructor
      · rintro ⟨digits, within, same, rfl⟩
        refine ⟨digits, fun none => ?_, within, by simp, same⟩
        subst none
        cases same
      · rintro ⟨digits, -, within, rfl, same⟩
        exact ⟨digits, within, same, by simp⟩
    · exact nofun

theorem unsigned_of_digit {digits : List Nat} (within : ∀ d ∈ digits, d < 10) :
    unsigned (digits.map Nat.digitChar) = digits.map Nat.digitChar := by
  have known : ∀ d : Nat, d < 10 → Nat.digitChar d ≠ '+' := by decide
  unfold unsigned
  split
  · rename_i rest signed
    cases digits with
    | nil => cases signed
    | cons d digits => exact absurd (List.cons.inj signed).1 (known d (within d List.mem_cons_self))
  · rfl

theorem unsigned_eq_iff {digits : List Nat} (within : ∀ d ∈ digits, d < 10) :
    unsigned chars = digits.map Nat.digitChar ↔
      chars = digits.map Nat.digitChar ∨ chars = '+' :: digits.map Nat.digitChar := by
  constructor
  · intro same
    unfold unsigned at same
    split at same
    · exact .inr (congrArg _ same)
    · exact .inl same
  · rintro (rfl | rfl)
    · exact unsigned_of_digit within
    · rfl

/-- A text reads as a word just if it stands for its number, however many zeros are in front. -/
theorem word?_iff {w : Word} : word? text = some w ↔ Denotes text w.toNat := by
  rw [word?, Option.bind_eq_some_iff]
  constructor
  · rintro ⟨n, read, fits⟩
    obtain ⟨digits, some, within, value, same⟩ := natural?_iff.mp read
    split at fits
    · rename_i small
      obtain rfl := Option.some.inj fits
      rw [UInt64.toNat_ofNat_of_lt' small]
      exact ⟨digits, some, within, value, (unsigned_eq_iff within).mp same⟩
    · cases fits
  · rintro ⟨digits, some, within, value, same⟩
    refine ⟨w.toNat, natural?_iff.mpr ⟨digits, some, within, value, (unsigned_eq_iff within).mpr same⟩, ?_⟩
    rw [if_pos w.toNat_lt, UInt64.ofNat_toNat]

end Numeral


/-! ### Values -/

theorem Plan.ofName?_iff {text : String} {plan : Plan} : Plan.ofName? text = some plan ↔ text = plan.name := by
  constructor
  · intro found
    have named := List.find?_some found
    exact (beq_iff_eq.mp named).symm
  · rintro rfl
    cases plan <;> rfl

namespace Setting

theorem ofName?_iff {name : String} {k : Setting} : ofName? name = some k ↔ k.name = name := by
  constructor
  · intro found
    have named := List.find?_some found
    exact beq_iff_eq.mp named
  · rintro rfl
    cases k <;> rfl

/-- What the values of a setting are. -/
inductive Kind where
  | plan
  | flag
  | number

/-- The values of a kind. -/
def Kind.Value : Kind → Type
  | plan => Plan
  | flag => Bool
  | number => Word

/-- A text stands for a value of its kind. -/
def Kind.Reads (text : String) : (kind : Kind) → kind.Value → Prop
  | plan, (v : Plan) => text = v.name
  | flag, (v : Bool) => text = if v then "true" else "false"
  | number, (v : Word) => Numeral.Denotes text v.toNat

/-- The kind of a setting. -/
def kind : Setting → Kind
  | plan => .plan
  | fullOnRequest => .flag
  | ignoreRequests => .flag
  | _ => .number

/-- A value is in the range of the setting. -/
def Admits : (k : Setting) → k.kind.Value → Prop
  | heapSize, (v : Word) => 2 ^ 22 ≤ v.toNat
  | threads, (v : Word) => 0 < v.toNat
  | nurserySize, (v : Word) => 4096 ≤ v.toNat
  | maxNursery, (v : Word) => 4096 ≤ v.toNat
  | immortalSize, (v : Word) => 4096 ≤ v.toNat
  | bumpChunkSize, (v : Word) => 16 ≤ v.toNat ∧ ∃ n, v.toNat = 2 ^ n
  | maxCollectionAttempts, (v : Word) => 0 < v.toNat
  | plan, _ => True
  | fullOnRequest, _ => True
  | ignoreRequests, _ => True

/-- A setting takes a text for a value. -/
def Takes (k : Setting) (text : String) (v : k.kind.Value) : Prop := k.kind.Reads text v ∧ k.Admits v

end Setting

namespace Settings

variable {s s' : Settings} {k : Setting} {name text : String}

/-- The value of a setting. -/
def get (s : Settings) : (k : Setting) → k.kind.Value
  | .plan => s.plan
  | .heapSize => s.heapSize
  | .threads => s.threads
  | .nurserySize => s.nurserySize
  | .maxNursery => s.maxNursery
  | .immortalSize => s.immortalSize
  | .bumpChunkSize => s.bumpChunkSize
  | .maxCollectionAttempts => s.maxCollectionAttempts
  | .fullOnRequest => s.fullOnRequest
  | .ignoreRequests => s.ignoreRequests

/-- The settings with another value for one of them. -/
def put (s : Settings) : (k : Setting) → k.kind.Value → Settings
  | .plan, (v : Plan) => { s with plan := v }
  | .heapSize, (v : Word) => { s with heapSize := v }
  | .threads, (v : Word) => { s with threads := v }
  | .nurserySize, (v : Word) => { s with nurserySize := v }
  | .maxNursery, (v : Word) => { s with maxNursery := v }
  | .immortalSize, (v : Word) => { s with immortalSize := v }
  | .bumpChunkSize, (v : Word) => { s with bumpChunkSize := v }
  | .maxCollectionAttempts, (v : Word) => { s with maxCollectionAttempts := v }
  | .fullOnRequest, (v : Bool) => { s with fullOnRequest := v }
  | .ignoreRequests, (v : Bool) => { s with ignoreRequests := v }

theorem get_put (s : Settings) (k : Setting) (v : k.kind.Value) : (s.put k v).get = Function.update s.get k v := by
  funext other
  by_cases same : other = k
  · subst same
    rw [Function.update_self]
    cases other <;> rfl
  · rw [Function.update_of_ne same]
    cases k <;> cases other <;> first | rfl | exact absurd rfl same

theorem ext_get (same : s.get = s'.get) : s = s' := by
  have each := congrFun same
  cases s
  cases s'
  rw [Settings.mk.injEq]
  exact ⟨each .plan, each .heapSize, each .threads, each .nurserySize, each .maxNursery, each .immortalSize,
    each .bumpChunkSize, each .maxCollectionAttempts, each .fullOnRequest, each .ignoreRequests⟩

theorem flag?_iff {v : Bool} : flag? text = some v ↔ text = if v then "true" else "false" := by
  unfold flag?
  constructor
  · intro read
    split at read
    · rename_i same
      cases read
      exact beq_iff_eq.mp same
    · split at read
      · rename_i same
        cases read
        exact beq_iff_eq.mp same
      · cases read
  · rintro rfl
    cases v <;> rfl

theorem number?_iff {admits : Word → Bool} {InRange : Word → Prop} (range : ∀ v, admits v = true ↔ InRange v) (v : Word) :
    number? admits text = some v ↔ Numeral.Denotes text v.toNat ∧ InRange v := by
  rw [number?, Option.filter_eq_some_iff, Numeral.word?_iff, range]

theorem admitsBumpChunk_iff {v : Word} : admitsBumpChunk v = true ↔ 16 ≤ v.toNat ∧ ∃ n, v.toNat = 2 ^ n := by
  rw [admitsBumpChunk, Bool.and_eq_true, decide_eq_true_eq, Word.isPowerOfTwo_iff]
  rfl

theorem map_put {x : Option k.kind.Value} (takes : ∀ v, x = some v ↔ k.Takes text v) :
    x.map (s.put k) = some s' ↔ ∃ v, k.Takes text v ∧ s.put k v = s' := by
  simp only [Option.map_eq_some_iff, takes]

/-- A text is refused just if the setting does not take it for a value. -/
theorem change?_iff : s.change? text k = some s' ↔ ∃ v, k.Takes text v ∧ s.put k v = s' := by
  cases k with
  | plan => exact map_put (k := .plan) fun v => Plan.ofName?_iff.trans (and_iff_left trivial).symm
  | heapSize => exact map_put (k := .heapSize) (number?_iff fun _ => decide_eq_true_iff)
  | threads => exact map_put (k := .threads) (number?_iff fun _ => decide_eq_true_iff)
  | nurserySize => exact map_put (k := .nurserySize) (number?_iff fun _ => decide_eq_true_iff)
  | maxNursery => exact map_put (k := .maxNursery) (number?_iff fun _ => decide_eq_true_iff)
  | immortalSize => exact map_put (k := .immortalSize) (number?_iff fun _ => decide_eq_true_iff)
  | bumpChunkSize => exact map_put (k := .bumpChunkSize) (number?_iff fun _ => admitsBumpChunk_iff)
  | maxCollectionAttempts => exact map_put (k := .maxCollectionAttempts) (number?_iff fun _ => decide_eq_true_iff)
  | fullOnRequest => exact map_put (k := .fullOnRequest) fun v => flag?_iff.trans (and_iff_left trivial).symm
  | ignoreRequests => exact map_put (k := .ignoreRequests) fun v => flag?_iff.trans (and_iff_left trivial).symm

/-! ### Changes by name -/

theorem set?_iff : s.set? name text = some s' ↔ ∃ k v, Setting.name k = name ∧ k.Takes text v ∧ s.put k v = s' := by
  rw [set?, Option.bind_eq_some_iff]
  constructor
  · rintro ⟨k, named, changed⟩
    obtain ⟨v, takes, result⟩ := change?_iff.mp changed
    exact ⟨k, v, Setting.ofName?_iff.mp named, takes, result⟩
  · rintro ⟨k, v, named, takes, result⟩
    exact ⟨k, Setting.ofName?_iff.mpr named, change?_iff.mpr ⟨v, takes, result⟩⟩

theorem isSome_set?_iff : (s.set? name text).isSome = true ↔ ∃ k v, Setting.name k = name ∧ k.Takes text v := by
  constructor
  · intro accepted
    obtain ⟨s', changed⟩ := Option.isSome_iff_exists.mp accepted
    obtain ⟨k, v, named, takes, -⟩ := set?_iff.mp changed
    exact ⟨k, v, named, takes⟩
  · rintro ⟨k, v, named, takes⟩
    exact Option.isSome_iff_exists.mpr ⟨_, set?_iff.mpr ⟨k, v, named, takes, rfl⟩⟩

theorem set_of_takes {v : k.kind.Value} (takes : k.Takes text v) : s.set k.name text = s.put k v := by
  rw [set, set?_iff.mpr ⟨k, v, rfl, takes, rfl⟩, Option.getD_some]

end Settings

/-- A change is none of this setting, or has a text that it does not take. -/
def Setting.Refuses (k : Setting) (change : String × String) : Prop := change.1 = k.name → ∀ v, ¬ k.Takes change.2 v

/-- The value of the last text that the setting takes. If it takes none, it keeps its first value. -/
def Setting.Ends (k : Setting) (first : k.kind.Value) (changes : List (String × String)) (v : k.kind.Value) : Prop :=
  (∃ before text after, changes = before ++ (k.name, text) :: after ∧ k.Takes text v ∧ ∀ c ∈ after, k.Refuses c) ∨
    (v = first ∧ ∀ c ∈ changes, k.Refuses c)

namespace Settings

variable {s : Settings} {k : Setting} {name text : String} {v : k.kind.Value} {c : String × String}
  {changes : List (String × String)}

theorem taken_or_refused (k : Setting) (c : String × String) : (c.1 = k.name ∧ ∃ v, k.Takes c.2 v) ∨ k.Refuses c := by
  by_cases taken : c.1 = k.name ∧ ∃ v, k.Takes c.2 v
  · exact .inl taken
  · exact .inr fun named v takes => taken ⟨named, v, takes⟩

theorem set_of_refuses (refuses : ∀ k : Setting, k.Refuses (name, text)) : s.set name text = s := by
  have refused : s.set? name text = none := by
    refine Option.eq_none_iff_forall_ne_some.mpr fun s' changed => ?_
    obtain ⟨k, v, named, takes, -⟩ := set?_iff.mp changed
    exact refuses k named.symm v takes
  rw [set, refused, Option.getD_none]

theorem get_set_of_takes (named : c.1 = k.name) (takes : k.Takes c.2 v) : (s.set c.1 c.2).get k = v := by
  rw [named, set_of_takes takes, get_put, Function.update_self]

theorem get_set_of_refuses (refuses : k.Refuses c) : (s.set c.1 c.2).get k = s.get k := by
  rw [set]
  cases changed : s.set? c.1 c.2 with
  | none => rfl
  | some s' =>
    obtain ⟨other, v, named, takes, rfl⟩ := set?_iff.mp changed
    rw [Option.getD_some, get_put, Function.update_of_ne]
    rintro rfl
    exact refuses named.symm v takes

/-- The settings after some changes, each of which may be refused. -/
def changed (s : Settings) (changes : List (String × String)) : Settings := changes.foldl (fun s c => s.set c.1 c.2) s

theorem changed_append (s : Settings) (changes : List (String × String)) (c : String × String) :
    s.changed (changes ++ [c]) = (s.changed changes).set c.1 c.2 := by
  rw [changed, List.foldl_append, List.foldl_cons, List.foldl_nil, changed]

theorem ends_append {first : k.kind.Value} : k.Ends first (changes ++ [c]) v ↔
    (c.1 = k.name ∧ k.Takes c.2 v) ∨ (k.Refuses c ∧ k.Ends first changes v) := by
  constructor
  · rintro (⟨before, text, after, split, takes, refuses⟩ | ⟨rfl, refuses⟩)
    · rcases List.eq_nil_or_concat' after with rfl | ⟨after, c', rfl⟩
      · obtain ⟨rfl, same⟩ := List.append_inj' split rfl
        obtain rfl := List.singleton_inj.mp same
        exact .inl ⟨rfl, takes⟩
      · rw [← List.cons_append, ← List.append_assoc] at split
        obtain ⟨rfl, same⟩ := List.append_inj' split rfl
        obtain rfl := List.singleton_inj.mp same
        exact .inr ⟨refuses c (by simp), .inl ⟨before, text, after, rfl, takes, fun d member => refuses d (by simp [member])⟩⟩
    · exact .inr ⟨refuses c (by simp), .inr ⟨rfl, fun d member => refuses d (by simp [member])⟩⟩
  · rintro (⟨named, takes⟩ | ⟨refused, ⟨before, text, after, rfl, takes, refuses⟩ | ⟨rfl, refuses⟩⟩)
    · exact .inl ⟨changes, c.2, [], by rw [← named], takes, nofun⟩
    · refine .inl ⟨before, text, after ++ [c], by simp, takes, fun d member => ?_⟩
      rcases List.mem_append.mp member with earlier | last
      · exact refuses d earlier
      · obtain rfl := List.mem_singleton.mp last
        exact refused
    · refine .inr ⟨rfl, fun d member => ?_⟩
      rcases List.mem_append.mp member with earlier | last
      · exact refuses d earlier
      · obtain rfl := List.mem_singleton.mp last
        exact refused

theorem get_changed_iff (s : Settings) (k : Setting) (changes : List (String × String)) (v : k.kind.Value) :
    (s.changed changes).get k = v ↔ k.Ends (s.get k) changes v := by
  induction changes using List.reverseRecOn generalizing v with
  | nil => 
    constructor
    · rintro rfl
      exact .inr ⟨rfl, nofun⟩
    · rintro (⟨before, text, after, split, -⟩ | ⟨rfl, -⟩)
      · simp at split
      · rfl
  | append_singleton changes c ih =>
    rw [changed_append, ends_append]
    rcases taken_or_refused k c with ⟨named, v', takes⟩ | refuses
    · rw [get_set_of_takes named takes]
      constructor
      · rintro rfl
        exact .inl ⟨named, takes⟩
      · rintro (⟨-, takes'⟩ | ⟨refuses, -⟩)
        · exact (get_set_of_takes (s := s) named takes).symm.trans (get_set_of_takes named takes')
        · exact absurd takes (refuses named v')
    · rw [get_set_of_refuses refuses, ih]
      constructor
      · exact fun ends => .inr ⟨refuses, ends⟩
      · rintro (⟨named, takes⟩ | ⟨-, ends⟩)
        · exact absurd takes (refuses named v)
        · exact ends

theorem get_changed_filter (s : Settings) (k : Setting) (changes : List (String × String)) :
    (s.changed changes).get k = (s.changed (changes.filter (·.1 = k.name))).get k := by
  induction changes using List.reverseRecOn with
  | nil => rfl
  | append_singleton changes c ih =>
    rw [changed_append, List.filter_append]
    by_cases named : c.1 = k.name
    · rw [show [c].filter (·.1 = k.name) = [c] by simp [named], changed_append]
      rcases taken_or_refused k c with ⟨-, v, takes⟩ | refuses
      · rw [get_set_of_takes named takes, get_set_of_takes named takes]
      · rw [get_set_of_refuses refuses, get_set_of_refuses refuses, ih]
    · rw [show [c].filter (·.1 = k.name) = [] by simp [named], List.append_nil,
        get_set_of_refuses fun same => absurd same named, ih]

theorem admits_initial {threads : Word} (some : 0 < threads.toNat) (k : Setting) : k.Admits ((initial threads).get k) := by
  cases k with
  | plan => trivial
  | heapSize => exact show 2 ^ 22 ≤ (67108864 : Word).toNat by decide
  | threads => exact some
  | nurserySize => exact show 4096 ≤ (16777216 : Word).toNat by decide
  | maxNursery => exact show 4096 ≤ (8388608 : Word).toNat by decide
  | immortalSize => exact show 4096 ≤ (4194304 : Word).toNat by decide
  | bumpChunkSize => exact show 16 ≤ (32768 : Word).toNat ∧ _ from ⟨by decide, 15, rfl⟩
  | maxCollectionAttempts => exact show 0 < (3 : Word).toNat by decide
  | fullOnRequest => trivial
  | ignoreRequests => trivial

theorem admits_changed {threads : Word} (some : 0 < threads.toNat) (changes : List (String × String)) (k : Setting) :
    k.Admits (((initial threads).changed changes).get k) := by
  rcases (get_changed_iff (initial threads) k changes _).mp rfl with ⟨_, _, _, _, takes, -⟩ | ⟨kept, -⟩
  · exact takes.2
  · rw [kept]
    exact admits_initial some k

/-- A change by name is accepted just if there is a setting of this name that takes the text. It changes that setting and no
other, and one that is refused changes nothing. So every setting ends with the last value that it took, changes of different
settings can be made in any order, and all values are in range at any time. -/
theorem follows_changes (threads : Word) (some : 0 < threads.toNat) (changes : List (String × String)) :
    (∀ s name text, (set? s name text).isSome = true ↔ ∃ k v, Setting.name k = name ∧ k.Takes text v) ∧
      (∀ s name text, (∀ k : Setting, k.Refuses (name, text)) → set s name text = s) ∧
      (∀ s (k : Setting) text v, k.Takes text v → (set s k.name text).get = Function.update s.get k v) ∧
      (∀ k v, ((initial threads).changed changes).get k = v ↔ k.Ends ((initial threads).get k) changes v) ∧
      (∀ changes' : List (String × String), (∀ name, changes'.filter (·.1 = name) = changes.filter (·.1 = name)) →
        (initial threads).changed changes' = (initial threads).changed changes) ∧
      ∀ k : Setting, k.Admits (((initial threads).changed changes).get k) := by
  refine ⟨fun _ _ _ => isSome_set?_iff, fun _ _ _ => set_of_refuses, fun s k text v takes => ?_,
    fun k => get_changed_iff (initial threads) k changes, fun changes' same => ?_, admits_changed some changes⟩
  · rw [set_of_takes takes, get_put]
  · refine ext_get (funext fun k => ?_)
    rw [get_changed_filter, same, ← get_changed_filter]

/-- Changes of which every other one is refused. -/
def sundry : List (String × String) :=
  [("threads", "+02"), ("threads", "0"), ("plan", "SemiSpace"), ("bump_chunk_size", "100"), ("bump_chunk_size", "64"),
    ("no_such_option", "1"), ("ignore_system_gc", "true"), ("heap_size", "18446744073709551616")]

theorem sundry_followed : (initial 8).changed sundry =
      { initial 8 with plan := .semispace, threads := 2, bumpChunkSize := 64, ignoreRequests := true } ∧
    Setting.threads.Ends (8 : Word) sundry (2 : Word) ∧ Setting.heapSize.Ends (67108864 : Word) sundry (67108864 : Word) ∧
    (initial 8).changed (("plan", "SemiSpace") :: sundry.eraseIdx 2) = (initial 8).changed sundry ∧
    Setting.bumpChunkSize.Admits (64 : Word) := by
  obtain ⟨-, -, -, ends, reordered, admits⟩ := follows_changes 8 (by decide) sundry
  refine ⟨by decide, (ends .threads _).mp rfl, (ends .heapSize _).mp rfl, reordered _ fun name => ?_, admits .bumpChunkSize⟩
  by_cases plan : "plan" = name
  · subst plan
    decide
  · simp [sundry, List.filter_cons, plan]

end Settings

end TracingHeap
