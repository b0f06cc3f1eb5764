import Stencil.Context.Value

/-!
# Values that settle

A look-up in a context gives no text for three reasons only: there is no value under the key, the
value leads to null, or it is still lazy after it has been computed as often as it may be
(`Context.resolve_eq_none_iff`).
-/

namespace Stencil

variable {σ : Type}

namespace Value

variable {resolve : Resolver σ}

/-- A value leads to another when it is computed a number of times, each time for the next value,
from a state to a state. -/
inductive LeadsTo (resolve : Resolver σ) : Nat → Value σ → σ → Value σ → σ → Prop where
  | here (value : Value σ) (s : σ) : LeadsTo resolve 0 value s value s
  | lazy {n : Nat} {compute : Resolver σ → σ → Value σ × σ} {s s' : σ} {value : Value σ}
      (next : LeadsTo resolve n (compute resolve s).1 (compute resolve s).2 value s') :
      LeadsTo resolve (n + 1) (.lazy compute) s value s'
  | unending {n : Nat} {s s' : σ} {value : Value σ}
      (next : LeadsTo resolve n .unending s value s') :
      LeadsTo resolve (n + 1) .unending s value s'

/-- Whether a value is null, as such or as a text. -/
inductive IsNull : Value σ → Prop where
  | literal : IsNull (.literal .null)
  | coerced {s : Text} (reads : Json.parse? s = some .null) : IsNull (.coerced s)

inductive Plain : Value σ → Prop where
  | literal (json : Json) : Plain (.literal json)
  | coerced (s : Text) : Plain (.coerced s)

def plainText? : Value σ → Option Text
  | .literal json => json.display?
  | .coerced s => coerce? s
  | _ => none

theorem Plain.settle {value : Value σ} (plain : value.Plain) (resolve : Resolver σ) (steps : Nat)
    (t : σ) : value.settle resolve (steps + 1) t = (value.plainText?, t) := by
  cases plain <;> rfl

theorem display?_eq_none_iff {json : Json} : json.display? = none ↔ json = .null := by
  cases json <;> simp [Json.display?]

theorem coerce?_eq_none_iff {s : Text} : coerce? s = none ↔ Json.parse? s = some .null := by
  unfold coerce?
  cases Json.parse? s with
  | none => simp
  | some json => simp [display?_eq_none_iff]

theorem leadsTo_literal_iff {json : Json} {n : Nat} {s s' : σ} {value : Value σ} :
    LeadsTo resolve n (.literal json) s value s' ↔ n = 0 ∧ value = .literal json ∧ s' = s := by
  constructor
  · rintro ⟨⟩
    exact ⟨rfl, rfl, rfl⟩
  · rintro ⟨rfl, rfl, rfl⟩
    exact .here _ _

theorem leadsTo_coerced_iff {raw : Text} {n : Nat} {s s' : σ} {value : Value σ} :
    LeadsTo resolve n (.coerced raw) s value s' ↔ n = 0 ∧ value = .coerced raw ∧ s' = s := by
  constructor
  · rintro ⟨⟩
    exact ⟨rfl, rfl, rfl⟩
  · rintro ⟨rfl, rfl, rfl⟩
    exact .here _ _

/-- A value settles to no text if it leads to null in fewer steps than it may take, or can be
computed as often as it may. -/
theorem settle_eq_none_iff {steps : Nat} {value : Value σ} {s : σ} :
    (value.settle resolve steps s).1 = none ↔
      (∃ n final s', n < steps ∧ LeadsTo resolve n value s final s' ∧ final.IsNull) ∨
        ∃ final s', LeadsTo resolve steps value s final s' := by
  induction steps generalizing value s with
  | zero => exact ⟨fun _ => .inr ⟨value, s, .here value s⟩, fun _ => rfl⟩
  | succ steps ih =>
    cases value with
    | literal json =>
      simp only [settle, leadsTo_literal_iff, display?_eq_none_iff]
      constructor
      · rintro rfl
        exact .inl ⟨0, _, s, by omega, ⟨rfl, rfl, rfl⟩, .literal⟩
      · rintro (⟨_, _, _, _, ⟨-, rfl, -⟩, ⟨⟩⟩ | ⟨_, _, impossible, -⟩)
        · rfl
        · omega
    | coerced raw =>
      simp only [settle, leadsTo_coerced_iff, coerce?_eq_none_iff]
      constructor
      · intro reads
        exact .inl ⟨0, _, s, by omega, ⟨rfl, rfl, rfl⟩, .coerced reads⟩
      · rintro (⟨_, _, _, _, ⟨-, rfl, -⟩, null⟩ | ⟨_, _, impossible, -⟩)
        · cases null with
          | coerced reads => exact reads
        · omega
    | lazy compute =>
      rw [settle, ih]
      constructor
      · rintro (⟨n, final, s', few, leads, null⟩ | ⟨final, s', leads⟩)
        · exact .inl ⟨n + 1, final, s', by omega, .lazy leads, null⟩
        · exact .inr ⟨final, s', .lazy leads⟩
      · rintro (⟨_, final, s', few, leads, null⟩ | ⟨final, s', ⟨⟩⟩)
        · cases leads with
          | here => cases null
          | lazy leads => exact .inl ⟨_, final, s', by omega, leads, null⟩
        · next leads => exact .inr ⟨final, s', leads⟩
    | unending =>
      rw [settle, ih]
      constructor
      · rintro (⟨n, final, s', few, leads, null⟩ | ⟨final, s', leads⟩)
        · exact .inl ⟨n + 1, final, s', by omega, .unending leads, null⟩
        · exact .inr ⟨final, s', .unending leads⟩
      · rintro (⟨_, final, s', few, leads, null⟩ | ⟨final, s', ⟨⟩⟩)
        · cases leads with
          | here => cases null
          | unending leads => exact .inl ⟨_, final, s', by omega, leads, null⟩
        · next leads => exact .inr ⟨final, s', leads⟩

end Value

namespace Context

def inner (ctx : Context σ) : Resolver σ := ctx.resolveWith ctx.values.length

/-- Why a look-up gives no text. -/
inductive Lacks (ctx : Context σ) (key : Text) (s : σ) : Prop where
  | absent (missing : Keyed.get? ctx.values key = none)
  | null {value final : Value σ} {n : Nat} {s' : σ} (there : Keyed.get? ctx.values key = some value)
      (few : n < Value.maxSteps) (leads : Value.LeadsTo ctx.inner n value s final s')
      (null : final.IsNull)
  | unsettled {value final : Value σ} {s' : σ} (there : Keyed.get? ctx.values key = some value)
      (leads : Value.LeadsTo ctx.inner Value.maxSteps value s final s')

/-- A look-up gives no text exactly for one of the reasons of `Lacks`. -/
theorem resolve_eq_none_iff {ctx : Context σ} {key : Text} {s : σ} :
    (ctx.resolve key s).1 = none ↔ ctx.Lacks key s := by
  unfold resolve resolveWith
  cases there : Keyed.get? ctx.values key with
  | none => exact ⟨fun _ => .absent there, fun _ => rfl⟩
  | some value =>
    refine Value.settle_eq_none_iff.trans ⟨?_, ?_⟩
    · rintro (⟨n, final, s', few, leads, null⟩ | ⟨final, s', leads⟩)
      · exact .null there few leads null
      · exact .unsettled there leads
    · rintro (missing | ⟨known, few, leads, null⟩ | ⟨known, leads⟩)
      · simp [there] at missing
      · obtain rfl := Option.some.inj (there.symm.trans known)
        exact .inl ⟨_, _, _, few, leads, null⟩
      · obtain rfl := Option.some.inj (there.symm.trans known)
        exact .inr ⟨_, _, leads⟩

end Context

end Stencil
