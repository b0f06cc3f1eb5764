import Stencil.Proofs.Context.Settling
import Stencil.Proofs.Keyed

/-!
# Chains of lazy values

A lazy value is computed for the next value, and that may be lazy again.  Each step of a look-up
computes one lazy value or takes the text of one that is not lazy, and there are
`Value.maxSteps` steps.  So a chain of fewer lazy values than that settles, with each of them
computed once, and a chain of as many or more does not (`Context.resolve_chain`).

How often a look-up computes the values of a chain is told by a context that counts
(`Context.tallied`).  It has the same values, with a number beside the state that grows by one
whenever a value of the chain is computed; all else that values do they do as before.
-/

namespace Stencil

variable {σ : Type}

/-- Asks a context that has a number beside its state, while the number stands still: what a value
asks is a look-up of its own and does not count for the chain that the value belongs to. -/
def Resolver.beside (resolve : Resolver (Nat × σ)) (n : Nat) : Resolver σ := fun key s =>
  ((resolve key (n, s)).1, (resolve key (n, s)).2.2)

namespace Value

/-- The value with a number beside the state, to which `tick` is added whenever a value of its chain
is computed, for a chain of at most `depth`. -/
def tallied (tick : Nat) : (depth : Nat) → Value σ → Value (Nat × σ)
  | _, .literal json => .literal json
  | _, .coerced s => .coerced s
  | depth + 1, .lazy compute => .lazy fun resolve t =>
    let next := compute (resolve.beside t.1) t.2
    (tallied tick depth next.1, t.1 + tick, next.2)
  | depth + 1, .unending => .lazy fun _ t => (tallied tick depth .unending, t.1 + tick, t.2)
  | 0, _ => .unending

/-- Whether a value is lazy however often it is computed. -/
def Endless (resolve : Resolver σ) (value : Value σ) (s : σ) : Prop :=
  ∀ n, ∃ final s', LeadsTo resolve n value s final s'

variable {r : Resolver σ} {R : Resolver (Nat × σ)} {value final : Value σ} {n m steps tick : Nat}
  {s s' : σ}

/-- A chain is followed one value a step. -/
theorem LeadsTo.settle (leads : LeadsTo r n value s final s') (steps : Nat) :
    value.settle r (n + steps) s = final.settle r steps s' := by
  induction leads with
  | here => rw [Nat.zero_add]
  | lazy _ ih => rw [Nat.add_right_comm]; exact ih
  | unending _ ih => rw [Nat.add_right_comm]; exact ih

/-- A chain goes through all shorter lengths. -/
theorem LeadsTo.take (leads : LeadsTo r n value s final s') (short : m ≤ n) :
    ∃ middle s'', LeadsTo r m value s middle s'' := by
  induction leads generalizing m with
  | here =>
    obtain rfl := Nat.le_zero.mp short
    exact ⟨_, _, .here _ _⟩
  | lazy _ ih =>
    cases m with
    | zero => exact ⟨_, _, .here _ _⟩
    | succ m =>
      obtain ⟨middle, s'', leads⟩ := ih (Nat.le_of_succ_le_succ short)
      exact ⟨middle, s'', .lazy leads⟩
  | unending _ ih =>
    cases m with
    | zero => exact ⟨_, _, .here _ _⟩
    | succ m =>
      obtain ⟨middle, s'', leads⟩ := ih (Nat.le_of_succ_le_succ short)
      exact ⟨middle, s'', .unending leads⟩

theorem endless_unending : Endless r (.unending : Value σ) s := by
  intro n
  induction n with
  | zero => exact ⟨_, _, .here _ _⟩
  | succ n ih =>
    obtain ⟨final, s', leads⟩ := ih
    exact ⟨final, s', .unending leads⟩

/-- Every value leads to one that is not lazy, or is computed as often as wanted. -/
theorem exists_leadsTo (r : Resolver σ) (steps : Nat) (value : Value σ) (s : σ) :
    ∃ n final s', n ≤ steps ∧ LeadsTo r n value s final s' ∧ (n < steps → final.Plain) := by
  induction steps generalizing value s with
  | zero => exact ⟨0, value, s, Nat.le_refl 0, .here value s, by simp⟩
  | succ steps ih =>
    cases value with
    | literal json => exact ⟨0, _, s, by simp, .here _ s, fun _ => .literal json⟩
    | coerced raw => exact ⟨0, _, s, by simp, .here _ s, fun _ => .coerced raw⟩
    | lazy compute =>
      obtain ⟨n, final, s', few, leads, plain⟩ := ih (compute r s).1 (compute r s).2
      exact ⟨n + 1, final, s', by omega, .lazy leads, fun less => plain (by omega)⟩
    | unending =>
      obtain ⟨n, final, s', few, leads, plain⟩ := ih .unending s
      exact ⟨n + 1, final, s', by omega, .unending leads, fun less => plain (by omega)⟩

theorem Plain.tallied (plain : value.Plain) (tick depth : Nat) :
    (value.tallied tick depth).Plain ∧
      (value.tallied tick depth).plainText? = value.plainText? := by
  cases plain <;> cases depth <;> exact ⟨by constructor, rfl⟩

/-- A value that counts is followed through the same states, with a tick for each step. -/
theorem LeadsTo.tallied (same : ∀ k, R.beside k = r) (leads : LeadsTo r n value s final s')
    (depth k : Nat) :
    LeadsTo R n (value.tallied tick (n + depth)) (k, s) (final.tallied tick depth)
      (k + n * tick, s') := by
  have longer (n : Nat) : n + 1 + depth = n + depth + 1 := Nat.add_right_comm n 1 depth
  have later (n k : Nat) : k + (n + 1) * tick = k + tick + n * tick := by
    rw [Nat.succ_mul]
    omega
  induction leads generalizing k with
  | here value s =>
    rw [Nat.zero_add, Nat.zero_mul, Nat.add_zero]
    exact .here _ _
  | lazy _ ih =>
    rw [longer, later]
    refine .lazy ?_
    simpa only [same] using ih (k + tick)
  | unending _ ih =>
    rw [longer, later]
    exact .lazy (ih (k + tick))

/-- A value settles alike where it counts. -/
theorem LeadsTo.settle_tallied (same : ∀ k, R.beside k = r) (leads : LeadsTo r n value s final s')
    (few : n ≤ steps) (settled : n < steps → final.Plain) (k : Nat) :
    (value.tallied tick steps).settle R steps (k, s) =
      ((value.settle r steps s).1, k + n * tick, (value.settle r steps s).2) := by
  obtain ⟨rest, rfl⟩ := Nat.exists_eq_add_of_le few
  rw [(leads.tallied same rest k).settle rest, leads.settle rest]
  -- Either all steps are spent on both sides, or the same plain value is left on both.
  cases rest with
  | zero => rfl
  | succ rest =>
    have plain := settled (by omega)
    obtain ⟨still, text⟩ := plain.tallied tick (rest + 1)
    rw [still.settle, plain.settle, text]

end Value

namespace Context

open Value

variable {ctx : Context σ} {key : Text} {value final : Value σ} {n : Nat} {s s' : σ}

/-- The context with a number beside the state, which counts how often the values of the chain
under a key are computed. -/
def tallied (ctx : Context σ) (key : Text) : Context (Nat × σ) where
  values := ctx.values.map fun entry =>
    (entry.1, entry.2.tallied (if entry.1 = key then 1 else 0) maxSteps)
  nonce := ctx.nonce
  noLayout := ctx.noLayout

/-- How often a look-up computes the values of its own chain. -/
def evaluations (ctx : Context σ) (key : Text) (s : σ) : Nat :=
  ((ctx.tallied key).resolve key (0, s)).2.1

theorem get?_tallied (ctx : Context σ) (key k : Text) :
    Keyed.get? (ctx.tallied key).values k =
      (Keyed.get? ctx.values k).map (Value.tallied (if k = key then 1 else 0) maxSteps) := by
  unfold tallied
  induction ctx.values with
  | nil => rfl
  | cons entry values ih =>
    rw [List.map_cons, Keyed.get?_cons, Keyed.get?_cons, ih]
    split_ifs <;> simp_all

/-- A context that counts answers as the one that does not. -/
theorem beside_resolveWith (ctx : Context σ) (key : Text) (fuel n : Nat) :
    Resolver.beside ((ctx.tallied key).resolveWith fuel) n = ctx.resolveWith fuel := by
  induction fuel generalizing n with
  | zero => rfl
  | succ fuel ih =>
    funext k s
    simp only [Resolver.beside, resolveWith, get?_tallied]
    cases Keyed.get? ctx.values k with
    | none => rfl
    | some value =>
      -- The chain under `k` may be the one that counts; its ticks are dropped here in any case.
      obtain ⟨m, final, s', few, leads, settled⟩ :=
        exists_leadsTo (ctx.resolveWith fuel) maxSteps value s
      simp only [Option.map_some, leads.settle_tallied ih few settled]

theorem resolve_eq_settle (there : Keyed.get? ctx.values key = some value) :
    ctx.resolve key s = value.settle ctx.inner maxSteps s := by
  simp only [resolve, resolveWith, there, inner]

theorem resolve_of_plain (there : Keyed.get? ctx.values key = some value) (plain : value.Plain) :
    ctx.resolve key s = (value.plainText?, s) :=
  (resolve_eq_settle there).trans (plain.settle _ _ s)

/-- The number grows by the length of the chain, as far as that is followed. -/
theorem resolve_tallied (there : Keyed.get? ctx.values key = some value)
    (leads : LeadsTo ctx.inner n value s final s') (few : n ≤ maxSteps)
    (settled : n < maxSteps → final.Plain) (m : Nat) :
    (ctx.tallied key).resolve key (m, s) =
      ((ctx.resolve key s).1, m + n, (ctx.resolve key s).2) := by
  have known : Keyed.get? (ctx.tallied key).values key = some (value.tallied 1 maxSteps) := by
    rw [get?_tallied, there, if_pos rfl, Option.map_some]
  have same (k : Nat) : Resolver.beside (ctx.tallied key).inner k = ctx.inner := by
    have sizes : (ctx.tallied key).values.length = ctx.values.length := by simp [tallied]
    rw [inner, sizes, beside_resolveWith, inner]
  rw [resolve_eq_settle known, resolve_eq_settle there, leads.settle_tallied same few settled,
    Nat.mul_one]

theorem evaluations_eq (there : Keyed.get? ctx.values key = some value)
    (leads : LeadsTo ctx.inner n value s final s') (few : n ≤ maxSteps)
    (settled : n < maxSteps → final.Plain) : ctx.evaluations key s = n := by
  rw [evaluations, resolve_tallied there leads few settled, Nat.zero_add]

/-- A chain that ends in time has each of its values computed once. -/
theorem resolve_of_settled (there : Keyed.get? ctx.values key = some value)
    (leads : LeadsTo ctx.inner n value s final s') (few : n < maxSteps) (plain : final.Plain) :
    ctx.evaluations key s = n ∧ ctx.resolve key s = (final.plainText?, s') := by
  refine ⟨evaluations_eq there leads (Nat.le_of_lt few) fun _ => plain, ?_⟩
  obtain ⟨rest, steps⟩ := Nat.exists_eq_add_of_lt few
  rw [resolve_eq_settle there, steps, Nat.add_assoc, leads.settle, plain.settle]

/-- A chain that is too long is given up once as many of its values are computed as there are
steps. -/
theorem resolve_of_unsettled (there : Keyed.get? ctx.values key = some value)
    (leads : LeadsTo ctx.inner n value s final s') (many : maxSteps ≤ n) :
    ctx.evaluations key s = maxSteps ∧ (ctx.resolve key s).1 = none := by
  obtain ⟨middle, s'', leads⟩ := leads.take many
  refine ⟨evaluations_eq there leads (Nat.le_refl maxSteps) (by simp), ?_⟩
  have stopped : value.settle ctx.inner maxSteps s = middle.settle ctx.inner 0 s'' := leads.settle 0
  rw [resolve_eq_settle there, stopped, Value.settle]

/-- A look-up computes the values of its own chain at most 16 times, as one beside it counts that
answers the same.  A chain of up to 15 lazy values has each of them computed once, and comes to what
the value behind them would come to in its place; a longer chain, or one without end, comes to
nothing. -/
theorem resolve_chain (ctx : Context σ) (key : Text) (s : σ) :
    ctx.evaluations key s ≤ 16 ∧
    (∀ m, (ctx.tallied key).resolve key (m, s) =
      ((ctx.resolve key s).1, m + ctx.evaluations key s, (ctx.resolve key s).2)) ∧
    ∀ value, Keyed.get? ctx.values key = some value →
      (∀ n final s', LeadsTo ctx.inner n value s final s' →
        (n ≤ 15 → final.Plain →
          ctx.evaluations key s = n ∧
            ctx.resolve key s = (ctx.set key final).resolve key s') ∧
        (16 ≤ n → ctx.evaluations key s = 16 ∧ (ctx.resolve key s).1 = none)) ∧
      (Endless ctx.inner value s → ctx.evaluations key s = 16 ∧ (ctx.resolve key s).1 = none) := by
  cases there : Keyed.get? ctx.values key with
  | none =>
    have answers (m : Nat) :
        (ctx.tallied key).resolve key (m, s) =
          ((ctx.resolve key s).1, m, (ctx.resolve key s).2) := by
      simp only [resolve, resolveWith, get?_tallied, there, Option.map_none]
    have zero : ctx.evaluations key s = 0 := congrArg (·.2.1) (answers 0)
    exact ⟨by omega, fun m => by rw [zero, answers, Nat.add_zero], by simp⟩
  | some value =>
    obtain ⟨n, final, s', few, leads, settled⟩ := exists_leadsTo ctx.inner maxSteps value s
    have counted := evaluations_eq there leads few settled
    refine ⟨Nat.le_trans (Nat.le_of_eq counted) few, fun m => ?_, ?_⟩
    · rw [counted, resolve_tallied there leads few settled]
    · rintro _ ⟨⟩
      refine ⟨fun n final s' leads => ⟨fun less plain => ?_, resolve_of_unsettled there leads⟩, ?_⟩
      · obtain ⟨once, settles⟩ := resolve_of_settled there leads (Nat.lt_succ_of_le less) plain
        have placed : Keyed.get? (ctx.set key final).values key = some final := by
          rw [set, Keyed.get?_insert, if_pos rfl]
        exact ⟨once, settles.trans (resolve_of_plain placed plain).symm⟩
      · intro endless
        obtain ⟨final, s', leads⟩ := endless maxSteps
        exact resolve_of_unsettled there leads (Nat.le_refl maxSteps)

/-- Some lazy values around a plain one, each of which counts when it is computed. -/
def layers : Nat → Value Nat
  | 0 => .literal (.bool true)
  | n + 1 => .lazy fun _ k => (layers n, k + 1)

theorem leadsTo_layers (r : Resolver Nat) (n k : Nat) :
    LeadsTo r n (layers n) k (layers 0) (k + n) := by
  induction n generalizing k with
  | zero => exact .here _ _
  | succ n ih =>
    rw [Nat.add_comm n, ← Nat.add_assoc]
    exact Nat.add_comm 1 n ▸ .lazy (ih (k + 1))

def chained (n : Nat) : Context Nat := { values := [("chain", layers n), ("endless", .unending)] }

/-- Fifteen lazy values settle, sixteen do not. -/
theorem resolve_chain_layers :
    (chained 15).evaluations "chain" 0 = 15 ∧
      (chained 15).resolve "chain" 0 = (some ("true" : Text), 15) ∧
      (chained 16).evaluations "chain" 0 = 16 ∧ ((chained 16).resolve "chain" 0).1 = none ∧
      (chained 0).evaluations "endless" 0 = 16 ∧ ((chained 0).resolve "endless" 0).1 = none := by
  obtain ⟨once, settles⟩ := (((resolve_chain (chained 15) "chain" 0).2.2 _ rfl).1 _ _ _
    (leadsTo_layers _ 15 0)).1 (Nat.le_refl _) (.literal _)
  obtain ⟨often, stops⟩ := (((resolve_chain (chained 16) "chain" 0).2.2 _ rfl).1 _ _ _
    (leadsTo_layers _ 16 0)).2 (Nat.le_refl _)
  obtain ⟨ever, fails⟩ := ((resolve_chain (chained 0) "endless" 0).2.2 _ rfl).2 endless_unending
  exact ⟨once, settles, often, stops, ever, fails⟩

end Context

end Stencil
