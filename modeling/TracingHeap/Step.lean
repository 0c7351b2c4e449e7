import TracingHeap.Fault

/-!
Steps: operations that change a state and may break off with a fault. A step that breaks off keeps the
changes it had made, because those are what the next operation finds. `Focus` runs a step of a part as a
step of the whole.
-/

namespace TracingHeap

/-- An operation on a state `σ` that answers `α` or breaks off with a fault. -/
abbrev Step (σ α : Type) := EStateM Fault σ α

/-- An answer that needs no state is a step that changes nothing. -/
instance {σ : Type} : MonadLift (Except Fault) (EStateM Fault σ) where
  monadLift
    | .ok a => fun s => .ok a s
    | .error e => fun s => .error e s

/-- A part of a state: how to read it and how to replace it. -/
structure Focus (σ τ : Type) where
  get : σ → τ
  set : σ → τ → σ

namespace Focus

/-- The part of a part. -/
@[inline] def comp {σ τ ρ : Type} (outer : Focus σ τ) (inner : Focus τ ρ) : Focus σ ρ where
  get s := inner.get (outer.get s)
  set s r := outer.set s (inner.set (outer.get s) r)

/-- The first of two states. -/
@[inline] def fst {σ τ : Type} : Focus (σ × τ) σ := ⟨fun s => s.1, fun s a => (a, s.2)⟩

/-- The second of two states. -/
@[inline] def snd {σ τ : Type} : Focus (σ × τ) τ := ⟨fun s => s.2, fun s b => (s.1, b)⟩

end Focus

namespace Step

variable {σ τ α : Type}

/-- Breaks off. -/
@[inline] def fail (fault : Fault) : Step σ α := throw fault

/-- Goes on only if the condition holds. -/
@[inline] def ensure (condition : Bool) (fault : Fault) : Step σ Unit :=
  if condition then pure () else throw fault

/-- Runs a step of a part on the whole. The part is taken out of the whole meanwhile, so that it can
be changed in place. -/
@[inline] def on [Inhabited τ] (part : Focus σ τ) (step : Step τ α) : Step σ α := fun s =>
  let t := part.get s
  let s := part.set s default
  match step t with
  | .ok a t => .ok a (part.set s t)
  | .error e t => .error e (part.set s t)

/-- Runs a step on two parts at once. -/
@[inline] def onBoth {ρ : Type} [Inhabited τ] [Inhabited ρ] (first : Focus σ τ) (second : Focus σ ρ)
    (step : Step (τ × ρ) α) : Step σ α := fun s =>
  let t := first.get s
  let r := second.get s
  let s := second.set (first.set s default) default
  match step (t, r) with
  | .ok a (t, r) => .ok a (second.set (first.set s t) r)
  | .error e (t, r) => .error e (second.set (first.set s t) r)

/-- Runs a step with a companion state beside its own. -/
@[inline] def beside {ρ : Type} [Inhabited τ] (part : Focus σ τ) (step : Step (ρ × τ) α) :
    Step (ρ × σ) α := fun (r, s) =>
  let t := part.get s
  let s := part.set s default
  match step (r, t) with
  | .ok a (r, t) => .ok a (r, part.set s t)
  | .error e (r, t) => .error e (r, part.set s t)

/-- Runs a step to its end and says how it ended. -/
@[inline] def outcome (step : Step σ α) : Step σ (Except Fault α) := fun s =>
  match step s with
  | .ok a s => .ok (.ok a) s
  | .error e s => .ok (.error e) s

/-- Runs a step; if it breaks off, the state is changed once more before the fault goes on. -/
@[inline] def onFault (step : Step σ α) (mend : σ → σ) : Step σ α := fun s =>
  match step s with
  | .ok a s => .ok a s
  | .error e s => .error e (mend s)

/-- Reads something off the state. -/
@[inline] def read (f : σ → α) : Step σ α := fun s => .ok (f s) s

/-- Reads something off the state that may break off. -/
@[inline] def ask (f : σ → Except Fault α) : Step σ α := fun s =>
  match f s with
  | .ok a => .ok a s
  | .error e => .error e s

end Step

end TracingHeap
