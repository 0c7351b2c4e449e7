import Mathlib.Data.List.Forall2
import TracingHeap.Step

/-! How a step that succeeds came to its answer. Every lemma takes one success apart into the
successes of its parts, so that what an operation does is read off its definition without running it.
Of steps that break off it is only said that nothing comes after them. -/

namespace TracingHeap.Step

variable {σ τ ρ α β : Type}

@[simp] theorem get_bind {f : σ → Step σ β} {s : σ} : (get >>= f) s = f s s := rfl

@[simp] theorem set_bind {f : PUnit → Step σ β} {s t : σ} : (set t >>= f) s = f ⟨⟩ t := rfl

@[simp] theorem modify_bind {g : σ → σ} {f : PUnit → Step σ β} {s : σ} :
    (modify g >>= f) s = f ⟨⟩ (g s) := rfl

@[simp] theorem pure_step_bind {f : α → Step σ β} {a : α} {s : σ} : (pure a >>= f) s = f a s := rfl

@[simp] theorem ite_step {c : Prop} [Decidable c] {x y : Step σ α} {s : σ} :
    (if c then x else y) s = if c then x s else y s := by
  split <;> rfl

@[simp] theorem bind_ok {x : Step σ α} {f : α → Step σ β} {s t : σ} {b : β} :
    (x >>= f) s = .ok b t ↔ ∃ a r, x s = .ok a r ∧ f a r = .ok b t := by
  change EStateM.bind x f s = _ ↔ _
  unfold EStateM.bind
  cases x s with
  | ok a r =>
    constructor
    · intro h
      exact ⟨a, r, rfl, h⟩
    · rintro ⟨a', r', same, h⟩
      cases same
      exact h
  | error e r =>
    constructor
    · intro h
      cases h
    · rintro ⟨_, _, h, _⟩
      cases h

theorem bind_of_ok {x : Step σ α} {f : α → Step σ β} {s t : σ} {a : α} (ran : x s = .ok a t) : (x >>= f) s = f a t := by
  change EStateM.bind x f s = _
  rw [EStateM.bind, ran]

theorem bind_of_error {x : Step σ α} {f : α → Step σ β} {s t : σ} {e : Fault} (broke : x s = .error e t) :
    (x >>= f) s = .error e t := by
  change EStateM.bind x f s = _
  rw [EStateM.bind, broke]

@[simp] theorem pure_ok {a b : α} {s t : σ} :
    (pure a : Step σ α) s = .ok b t ↔ a = b ∧ s = t := by
  change EStateM.Result.ok a s = _ ↔ _
  constructor
  · intro h
    cases h
    exact ⟨rfl, rfl⟩
  · rintro ⟨rfl, rfl⟩
    rfl

@[simp] theorem map_ok {x : Step σ α} {f : α → β} {s t : σ} {b : β} :
    (f <$> x) s = .ok b t ↔ ∃ a, x s = .ok a t ∧ f a = b := by
  change EStateM.map f x s = _ ↔ _
  unfold EStateM.map
  cases x s with
  | ok a r =>
    constructor
    · intro h
      cases h
      exact ⟨a, rfl, rfl⟩
    · rintro ⟨a', same, rfl⟩
      cases same
      rfl
  | error e r =>
    constructor
    · intro h
      cases h
    · rintro ⟨_, h, _⟩
      cases h

@[simp] theorem get_ok {s t u : σ} : (get : Step σ σ) s = .ok t u ↔ s = t ∧ s = u := by
  change EStateM.Result.ok s s = _ ↔ _
  constructor
  · intro h
    cases h
    exact ⟨rfl, rfl⟩
  · rintro ⟨rfl, rfl⟩
    rfl

@[simp] theorem set_ok {s t u : σ} {a : PUnit} :
    (set t : Step σ PUnit) s = .ok a u ↔ t = u := by
  change EStateM.Result.ok PUnit.unit t = _ ↔ _
  constructor
  · intro h
    cases h
    rfl
  · rintro rfl
    rfl

@[simp] theorem modify_ok {f : σ → σ} {s t : σ} {a : PUnit} :
    (modify f : Step σ PUnit) s = .ok a t ↔ f s = t := by
  change EStateM.Result.ok PUnit.unit (f s) = _ ↔ _
  constructor
  · intro h
    cases h
    rfl
  · rintro rfl
    rfl

@[simp] theorem modifyGet_ok {f : σ → α × σ} {s t : σ} {a : α} :
    (modifyGet f : Step σ α) s = .ok a t ↔ f s = (a, t) := by
  change EStateM.modifyGet f s = _ ↔ _
  unfold EStateM.modifyGet
  cases f s with
  | mk b r =>
    constructor
    · intro h
      cases h
      rfl
    · intro h
      cases h
      rfl

@[simp] theorem throw_ok {e : Fault} {s t : σ} {a : α} :
    (throw e : Step σ α) s = .ok a t ↔ False :=
  ⟨fun h => (nomatch h), False.elim⟩

@[simp] theorem throwThe_ok {e : Fault} {s t : σ} {a : α} :
    (throwThe Fault e : Step σ α) s = .ok a t ↔ False :=
  ⟨fun h => (nomatch h), False.elim⟩

@[simp] theorem fail_ok {e : Fault} {s t : σ} {a : α} :
    (fail e : Step σ α) s = .ok a t ↔ False :=
  ⟨fun h => (nomatch h), False.elim⟩

@[simp] theorem ensure_ok {c : Bool} {e : Fault} {s t : σ} {a : Unit} :
    (ensure c e : Step σ Unit) s = .ok a t ↔ c = true ∧ s = t := by
  cases c with
  | false => simp [ensure]
  | true => simp [ensure]

@[simp] theorem lift_ok {x : Except Fault α} {s t : σ} {a : α} :
    (liftM x : Step σ α) s = .ok a t ↔ x = .ok a ∧ s = t := by
  change (MonadLift.monadLift x : Step σ α) s = _ ↔ _
  cases x with
  | ok b =>
    change EStateM.Result.ok b s = _ ↔ _
    constructor
    · intro h
      cases h
      exact ⟨rfl, rfl⟩
    · rintro ⟨h, rfl⟩
      cases h
      rfl
  | error e =>
    change EStateM.Result.error e s = _ ↔ _
    constructor
    · intro h
      cases h
    · rintro ⟨h, _⟩
      cases h

@[simp] theorem ask_ok {f : σ → Except Fault α} {s t : σ} {a : α} :
    (ask f : Step σ α) s = .ok a t ↔ f s = .ok a ∧ s = t := by
  unfold ask
  cases f s with
  | ok b =>
    constructor
    · intro h
      cases h
      exact ⟨rfl, rfl⟩
    · rintro ⟨h, rfl⟩
      cases h
      rfl
  | error e =>
    constructor
    · intro h
      cases h
    · rintro ⟨h, _⟩
      cases h

/-- A step of a part leaves the rest of the whole alone. -/
@[simp] theorem on_ok [Inhabited τ] {part : Focus σ τ} {x : Step τ α} {s t : σ} {a : α} :
    (on part x) s = .ok a t ↔
      ∃ r, x (part.get s) = .ok a r ∧ part.set (part.set s default) r = t := by
  simp only [on]
  cases x (part.get s) with
  | ok b r =>
    constructor
    · intro h
      cases h
      exact ⟨r, rfl, rfl⟩
    · rintro ⟨r', h, rfl⟩
      cases h
      rfl
  | error e r =>
    constructor
    · intro h
      cases h
    · rintro ⟨_, h, _⟩
      cases h

@[simp] theorem onBoth_ok [Inhabited τ] [Inhabited ρ] {first : Focus σ τ} {second : Focus σ ρ}
    {x : Step (τ × ρ) α} {s t : σ} {a : α} :
    (onBoth first second x) s = .ok a t ↔
      ∃ p q, x (first.get s, second.get s) = .ok a (p, q) ∧
        second.set (first.set (second.set (first.set s default) default) p) q = t := by
  simp only [onBoth]
  cases x (first.get s, second.get s) with
  | ok b r =>
    obtain ⟨p, q⟩ := r
    constructor
    · intro h
      cases h
      exact ⟨p, q, rfl, rfl⟩
    · rintro ⟨p', q', h, rfl⟩
      cases h
      rfl
  | error e r =>
    obtain ⟨p, q⟩ := r
    constructor
    · intro h
      cases h
    · rintro ⟨_, _, h, _⟩
      cases h

@[simp] theorem onFault_ok {x : Step σ α} {mend : σ → σ} {s t : σ} {a : α} :
    (x.onFault mend) s = .ok a t ↔ x s = .ok a t := by
  unfold onFault
  cases x s with
  | ok b r => exact Iff.rfl
  | error e r =>
    constructor <;> intro h <;> cases h

@[simp] theorem forM_nil_ok {f : β → Step σ PUnit} {s t : σ} {a : PUnit} :
    ([].forM f : Step σ PUnit) s = .ok a t ↔ s = t := by
  cases a
  exact ⟨fun ok => by cases ok; rfl, fun same => by rw [same]; rfl⟩

@[simp] theorem forM_cons_ok {f : β → Step σ PUnit} {b : β} {rest : List β} {s t : σ} {a : PUnit} :
    ((b :: rest).forM f : Step σ PUnit) s = .ok a t ↔ ∃ v r, f b s = .ok v r ∧ rest.forM f r = .ok a t :=
  bind_ok

/-- What holds at first and is kept by every round holds at the end. -/
theorem forM_range_ok {f : Nat → Step σ PUnit} {holds : Nat → σ → Prop} {n : Nat} {s t : σ} {a : PUnit}
    (start : holds 0 s) (next : ∀ k < n, ∀ r r' b, holds k r → f k r = .ok b r' → holds (k + 1) r')
    (ok : ((List.range n).forM f : Step σ PUnit) s = .ok a t) : holds n t := by
  have rounds : ∀ (count first : Nat) (r : σ), first + count = n → holds first r →
      ((List.range' first count).forM f : Step σ PUnit) r = .ok a t → holds n t := by
    intro count
    induction count with
    | zero =>
      intro first r total before ok
      cases forM_nil_ok.mp ok
      rw [← total]
      exact before
    | succ count ih =>
      intro first r total before ok
      rw [List.range'_succ] at ok
      obtain ⟨b, r', took, rest⟩ := forM_cons_ok.mp ok
      exact ih (first + 1) r' (by omega) (next first (by omega) r r' b before took) rest
  rw [List.range_eq_range'] at ok
  exact rounds n 0 s (Nat.zero_add n) start ok

/-- What holds at first and is kept for every item holds at the end. -/
theorem filterM_ok {f : β → Step σ Bool} {holds : List β → List β → σ → Prop} {items chosen : List β} {s t : σ}
    (start : holds [] items s) (next : ∀ kept b rest r keep r', holds kept (b :: rest) r → f b r = .ok keep r' →
      holds (if keep = true then kept ++ [b] else kept) rest r')
    (ok : (items.filterM f : Step σ (List β)) s = .ok chosen t) : holds chosen [] t := by
  have rounds : ∀ (items kept out : List β) (r : σ), holds kept.reverse items r →
      (List.filterAuxM f items kept : Step σ (List β)) r = .ok out t → holds out.reverse [] t := by
    intro items
    induction items with
    | nil =>
      intro kept out r before ok
      obtain ⟨rfl, rfl⟩ := pure_ok.mp ok
      exact before
    | cons b rest ih =>
      intro kept out r before ok
      obtain ⟨keep, r', took, later⟩ := bind_ok.mp ok
      have after := next kept.reverse b rest r keep r' before took
      refine ih _ out r' ?_ later
      cases keep with
      | true => simpa using after
      | false => exact after
  obtain ⟨out, r, filtered, rest⟩ := bind_ok.mp ok
  obtain ⟨rfl, rfl⟩ := pure_ok.mp rest
  exact rounds items [] out s start filtered

/-- What is chosen was there. -/
theorem filterM_subset {f : β → Step σ Bool} {items chosen : List β} {s t : σ}
    (ok : (items.filterM f : Step σ (List β)) s = .ok chosen t) : chosen ⊆ items := by
  let holds : List β → List β → σ → Prop := fun kept rest _ => kept ++ rest ⊆ items
  have whole : holds chosen [] t := filterM_ok (List.Subset.refl items) (fun kept b rest _ keep _ before _ a member => by
    refine before ?_
    cases keep with
    | true => simpa using member
    | false =>
      rcases List.mem_append.mp member with old | later
      · exact List.mem_append_left _ old
      · exact List.mem_append_right _ (List.mem_cons_of_mem _ later)) ok
  exact fun b member => whole (List.mem_append_left _ member)

end TracingHeap.Step

namespace TracingHeap

variable {α β : Type}

theorem except_bind_ok {x : Except Fault α} {f : α → Except Fault β} {b : β} :
    (x >>= f) = .ok b ↔ ∃ a, x = .ok a ∧ f a = .ok b := by
  cases x with
  | ok a =>
    constructor
    · intro h
      exact ⟨a, rfl, h⟩
    · rintro ⟨a', same, h⟩
      cases same
      exact h
  | error e =>
    constructor
    · intro h
      cases h
    · rintro ⟨_, h, _⟩
      cases h

theorem except_map_ok {x : Except Fault α} {f : α → β} {b : β} :
    x.map f = .ok b ↔ ∃ a, x = .ok a ∧ f a = b := by
  cases x with
  | ok a => simp [Except.map]
  | error e => simp [Except.map]

theorem except_pure_ok {a b : α} : (pure a : Except Fault α) = .ok b ↔ a = b := by
  change Except.ok a = _ ↔ _
  simp

theorem except_mapM_ok {f : α → Except Fault β} {xs : List α} {ys : List β} (ok : xs.mapM f = .ok ys) :
    List.Forall₂ (fun x y => f x = .ok y) xs ys := by
  induction xs generalizing ys with
  | nil =>
    rw [List.mapM_nil] at ok
    rw [← except_pure_ok.mp ok]
    exact .nil
  | cons x xs ih =>
    rw [List.mapM_cons] at ok
    obtain ⟨y, one, ok⟩ := except_bind_ok.mp ok
    obtain ⟨rest, others, same⟩ := except_bind_ok.mp ok
    rw [← except_pure_ok.mp same]
    exact .cons one (ih others)

end TracingHeap
