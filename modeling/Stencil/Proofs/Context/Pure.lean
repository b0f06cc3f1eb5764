import Stencil.Context.Value

/-!
# Pure contexts

A context is pure if its lazy values are: each is worked out from what the context answers, without
a look at the state and without a change to it, and so is the value that it gives.  A pure context
gives every key one answer (`Context.Pure.resolve`).
-/

namespace Stencil

variable {σ : Type}

/-- Each key has one answer whatever the state is, and asking leaves the state as it is. -/
def Resolver.Pure (resolve : Resolver σ) : Prop :=
  ∀ key, ∃ answer, ∀ t, resolve key t = (answer, t)

/-- A value that is pure as long as those that it asks for are. -/
inductive Value.Pure : Value σ → Prop where
  | literal (json : Json) : Pure (.literal json)
  | coerced (s : Text) : Pure (.coerced s)
  | unending : Pure .unending
  | lazy {compute : Resolver σ → σ → Value σ × σ} (value : Resolver σ → Value σ)
      (computes : ∀ resolve, Resolver.Pure resolve → ∀ t, compute resolve t = (value resolve, t))
      (given : ∀ resolve, Resolver.Pure resolve → Pure (value resolve)) : Pure (.lazy compute)

/-- A pure value settles to one answer whatever the state is. -/
theorem Value.Pure.settle {resolve : Resolver σ} (pure : Resolver.Pure resolve) (steps : Nat)
    {value : Value σ} (h : value.Pure) :
    ∃ answer, ∀ t, value.settle resolve steps t = (answer, t) := by
  induction steps generalizing value with
  | zero => exact ⟨none, fun _ => rfl⟩
  | succ steps ih =>
    cases h with
    | literal json => exact ⟨json.display?, fun _ => rfl⟩
    | coerced s => exact ⟨coerce? s, fun _ => rfl⟩
    | unending => exact ih .unending
    | lazy value computes given =>
      obtain ⟨answer, settles⟩ := ih (given resolve pure)
      refine ⟨answer, fun t => ?_⟩
      rw [Value.settle, computes resolve pure t]
      exact settles t

namespace Context

def Pure (ctx : Context σ) : Prop :=
  ∀ key value, Keyed.get? ctx.values key = some value → value.Pure

/-- Look-ups in a pure context are pure at every depth, by induction on it. -/
theorem Pure.resolveWith {ctx : Context σ} (h : ctx.Pure) (fuel : Nat) :
    Resolver.Pure (ctx.resolveWith fuel) := by
  induction fuel with
  | zero => exact fun _ => ⟨none, fun _ => rfl⟩
  | succ fuel ih =>
    intro key
    cases known : Keyed.get? ctx.values key with
    | none => exact ⟨none, fun t => by simp only [Context.resolveWith, known]⟩
    | some value =>
      obtain ⟨answer, settles⟩ := (h key value known).settle ih Value.maxSteps
      exact ⟨answer, fun t => by simp only [Context.resolveWith, known, settles]⟩

/-- A pure context answers every key without a look at the state. -/
theorem Pure.resolve {ctx : Context σ} (h : ctx.Pure) : Resolver.Pure ctx.resolve :=
  h.resolveWith (ctx.values.length + 1)

end Context

end Stencil
