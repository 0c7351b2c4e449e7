import TracingHeap.Step

/-! What steps keep, however they come out. A step that breaks off leaves the changes it had made, and later
operations find them; so what is true of every state that can be found has to be kept by both outcomes. -/

namespace TracingHeap.Step

variable {σ τ ρ α β : Type} {I : σ → Prop}

/-- The state that a step leaves, whether it ends or breaks off. -/
def left (x : Step σ α) (s : σ) : σ :=
  match x s with
  | .ok _ t => t
  | .error _ t => t

/-- What holds before the step holds after it, whether it ends or breaks off. -/
def Keeps (I : σ → Prop) (x : Step σ α) : Prop := ∀ s, I s → I (x.left s)

theorem left_ok {x : Step σ α} {s t : σ} {a : α} (ok : x s = .ok a t) : x.left s = t := by rw [left, ok]

/-- What a step answers, if it comes to an end. -/
def answer (x : Step σ α) (s : σ) : Option α :=
  match x s with
  | .ok a _ => some a
  | .error _ _ => none

theorem answer_ok {x : Step σ α} {s : σ} {a : α} (same : x.answer s = some a) : x s = .ok a (x.left s) := by
  unfold answer at same
  unfold left
  cases ran : x s with
  | ok b t => rw [ran] at same; cases same; rfl
  | error e t => rw [ran] at same; cases same

theorem left_error {x : Step σ α} {s t : σ} {e : Fault} (error : x s = .error e t) : x.left s = t := by rw [left, error]

/-- A step in two parts breaks off in the first one, or leaves what the second one leaves. -/
theorem left_bind {x : Step σ α} {f : α → Step σ β} {s : σ} :
    (∃ a t, x s = .ok a t ∧ (x >>= f).left s = (f a).left t) ∨ (∃ e t, x s = .error e t ∧ (x >>= f).left s = t) := by
  unfold left
  change (∃ a t, _ ∧ (match EStateM.bind x f s with | .ok _ t => t | .error _ t => t) = _) ∨
    ∃ e t, _ ∧ (match EStateM.bind x f s with | .ok _ t => t | .error _ t => t) = _
  unfold EStateM.bind
  cases ran : x s with
  | ok a t => exact .inl ⟨a, t, rfl, rfl⟩
  | error e t => exact .inr ⟨e, t, rfl, rfl⟩

@[simp] theorem left_pure (a : α) (s : σ) : (pure a : Step σ α).left s = s := rfl

@[simp] theorem left_get_bind {f : σ → Step σ β} {s : σ} : (get >>= f).left s = (f s).left s := rfl

@[simp] theorem left_set_bind {f : PUnit → Step σ β} {s t : σ} : (set t >>= f).left s = (f ⟨⟩).left t := rfl

@[simp] theorem left_modify_bind {g : σ → σ} {f : PUnit → Step σ β} {s : σ} : (modify g >>= f).left s = (f ⟨⟩).left (g s) := rfl

@[simp] theorem left_ite {c : Prop} [Decidable c] {x y : Step σ α} {s : σ} :
    (if c then x else y).left s = if c then x.left s else y.left s := by
  split <;> rfl

/-- An answer that needs no state breaks off without a trace. -/
theorem left_lift_bind {x : Except Fault α} {f : α → Step σ β} {s : σ} :
    (liftM x >>= f).left s = match x with
      | .ok a => (f a).left s
      | .error _ => s := by
  cases x <;> rfl

/-- A step that leaves the state alone keeps everything. -/
theorem keeps_still {x : Step σ α} (still : ∀ s, x.left s = s) : Keeps I x := fun s holds => by
  rw [still]
  exact holds

theorem keeps_pure (a : α) : Keeps I (pure a : Step σ α) := keeps_still fun _ => rfl

theorem keeps_throw (e : Fault) : Keeps I (throw e : Step σ α) := keeps_still fun _ => rfl

theorem keeps_fail (e : Fault) : Keeps I (fail e : Step σ α) := keeps_still fun _ => rfl

theorem keeps_ask (f : σ → Except Fault α) : Keeps I (ask f) := keeps_still fun s => by
  unfold left ask
  cases f s <;> rfl

theorem keeps_lift (x : Except Fault α) : Keeps I (liftM x : Step σ α) := keeps_still fun s => by
  cases x <;> rfl

theorem keeps_ensure (c : Bool) (e : Fault) : Keeps I (ensure c e : Step σ Unit) := keeps_still fun s => by
  cases c <;> rfl

theorem keeps_modify {f : σ → σ} (step : ∀ s, I s → I (f s)) : Keeps I (modify f : Step σ PUnit) := step

theorem keeps_get_bind {f : σ → Step σ β} (next : ∀ s, Keeps I (f s)) : Keeps I (get >>= f) := fun s => next s s

/-- What follows may depend on what the state was read to be. -/
theorem keeps_get_bind_of {f : σ → Step σ β} (next : ∀ s, I s → I ((f s).left s)) : Keeps I (get >>= f) := next

theorem keeps_bind {x : Step σ α} {f : α → Step σ β} (first : Keeps I x) (next : ∀ a, Keeps I (f a)) :
    Keeps I (x >>= f) := by
  intro s holds
  rcases left_bind (x := x) (f := f) (s := s) with ⟨a, t, ok, same⟩ | ⟨e, t, error, same⟩
  · rw [same]
    exact next a t (left_ok ok ▸ first s holds)
  · rw [same]
    exact left_error error ▸ first s holds

theorem keeps_map {x : Step σ α} {f : α → β} (first : Keeps I x) : Keeps I (f <$> x) := keeps_bind first fun _ => keeps_pure _

theorem keeps_ite {c : Prop} [Decidable c] {x y : Step σ α} (yes : Keeps I x) (no : Keeps I y) :
    Keeps I (if c then x else y) := by
  split
  · exact yes
  · exact no

/-- What is asked for is checked before anything else is done. -/
theorem keeps_unless {c : Prop} [Decidable c] {e : Fault} {rest : PUnit → Step σ α} (next : ∀ u, Keeps I (rest u)) :
    Keeps I (if c then rest ⟨⟩ else throw e >>= rest) :=
  keeps_ite (next _) (keeps_bind (keeps_throw e) next)

theorem keeps_forM {f : β → Step σ PUnit} (items : List β) (each : ∀ b, Keeps I (f b)) : Keeps I (items.forM f) := by
  induction items with
  | nil => exact keeps_pure _
  | cons b rest ih => exact keeps_bind (each b) fun _ => ih

theorem keeps_filterM {f : β → Step σ Bool} (items : List β) (each : ∀ b, Keeps I (f b)) :
    Keeps I (items.filterM f : Step σ (List β)) := by
  have rounds : ∀ items kept : List β, Keeps I (List.filterAuxM f items kept : Step σ (List β)) := by
    intro items
    induction items with
    | nil => exact fun kept => keeps_pure _
    | cons b rest ih => exact fun kept => keeps_bind (each b) fun _ => ih _
  exact keeps_bind (rounds items []) fun _ => keeps_pure _

/-- A step of a part keeps what it keeps of the part. -/
theorem keeps_on [Inhabited τ] {part : Focus σ τ} {x : Step τ α} {J : τ → Prop} (inner : Keeps J x)
    (down : ∀ s, I s → J (part.get s)) (up : ∀ s t, I s → J t → I (part.set (part.set s default) t)) :
    Keeps I (on part x) := by
  intro s holds
  have kept := inner (part.get s) (down s holds)
  simp only [left, on] at kept ⊢
  cases ran : x (part.get s) with
  | ok a t => exact up s t holds (by simpa only [ran] using kept)
  | error e t => exact up s t holds (by simpa only [ran] using kept)

/-- A step of a part that does not matter. -/
theorem keeps_on_any [Inhabited τ] {part : Focus σ τ} (x : Step τ α)
    (up : ∀ s t, I s → I (part.set (part.set s default) t)) : Keeps I (on part x) :=
  keeps_on (J := fun _ => True) (fun _ _ => trivial) (fun _ _ => trivial) fun s t holds _ => up s t holds

theorem keeps_fst [Inhabited τ] {x : Step τ α} {J : τ → Prop} (inner : Keeps J x) :
    Keeps (fun s : τ × ρ => J s.1) (on Focus.fst x) :=
  keeps_on inner (fun _ holds => holds) fun _ _ _ kept => kept

theorem keeps_snd [Inhabited ρ] {x : Step ρ α} {J : ρ → Prop} (inner : Keeps J x) :
    Keeps (fun s : τ × ρ => J s.2) (on Focus.snd x) :=
  keeps_on inner (fun _ holds => holds) fun _ _ _ kept => kept

/-- A step of two parts keeps what it keeps of them. -/
theorem keeps_onBoth [Inhabited τ] [Inhabited ρ] {first : Focus σ τ} {second : Focus σ ρ} {x : Step (τ × ρ) α}
    {J : τ × ρ → Prop} (inner : Keeps J x) (down : ∀ s, I s → J (first.get s, second.get s))
    (up : ∀ s t r, I s → J (t, r) → I (second.set (first.set (second.set (first.set s default) default) t) r)) :
    Keeps I (onBoth first second x) := by
  intro s holds
  have kept := inner (first.get s, second.get s) (down s holds)
  simp only [left, onBoth] at kept ⊢
  cases ran : x (first.get s, second.get s) with
  | ok a t => exact up s t.1 t.2 holds (by simpa only [ran] using kept)
  | error e t => exact up s t.1 t.2 holds (by simpa only [ran] using kept)

/-- A step of two parts that do not matter. -/
theorem keeps_onBoth_any [Inhabited τ] [Inhabited ρ] {first : Focus σ τ} {second : Focus σ ρ} (x : Step (τ × ρ) α)
    (up : ∀ s t r, I s → I (second.set (first.set (second.set (first.set s default) default) t) r)) :
    Keeps I (onBoth first second x) :=
  keeps_onBoth (J := fun _ => True) (fun _ _ => trivial) (fun _ _ => trivial) fun s t r holds _ => up s t r holds

theorem keeps_onFault {x : Step σ α} {mend : σ → σ} (inner : Keeps I x) (mended : ∀ s, I s → I (mend s)) :
    Keeps I (x.onFault mend) := by
  intro s holds
  have kept := inner s holds
  simp only [left, onFault] at kept ⊢
  cases ran : x s with
  | ok a t => simpa only [ran] using kept
  | error e t => exact mended t (by simpa only [ran] using kept)

end TracingHeap.Step
