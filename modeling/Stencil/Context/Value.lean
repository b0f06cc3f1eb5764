import Stencil.Context.Nonce
import Stencil.Json.Parse

/-!
# Contexts

A context gives a page its values.  A value is plain, or a text that is read as JSON if it can be,
or lazy: then it is computed whenever it is asked for, and may ask for other values of the context.
A lazy value may be lazy again, but only so often.

Computing a lazy value may depend on and change a state, such as a counter, which all look-ups pass
along.
-/

namespace Stencil

/-- Asks a context for the text under a key. -/
abbrev Resolver (σ : Type) := Text → σ → Option Text × σ

inductive Value (σ : Type) where
  /-- A plain value. -/
  | literal (json : Json)
  /-- A text that stands for the JSON value it holds, or for itself. -/
  | coerced (s : Text)
  /-- A value that is computed when it is asked for. -/
  | lazy (compute : Resolver σ → σ → Value σ × σ)
  /-- A lazy value that is lazy again for ever. -/
  | unending

/-- The values of a page, the nonces of its elements, and whether it goes without the layout. -/
structure Context (σ : Type) where
  values : Keyed (Value σ) := []
  nonce : Option Nonce := none
  noLayout : Bool := false

/-- A JSON value as the text of a page; null has none, and a string stands without quotes. -/
def Json.display? : Json → Option Text
  | .null => none
  | .string s => some s
  | v => some v.print

/-- A text as the text of a page: that of the JSON value it holds, or itself. -/
def coerce? (s : Text) : Option Text :=
  match Json.parse? s with
  | some v => v.display?
  | none => some s

namespace Value

/-- How many steps a value may take to settle; the last one must find a text. -/
def maxSteps : Nat := 16

/-- The text that a value settles to within some steps. -/
def settle {σ : Type} (resolve : Resolver σ) : (steps : Nat) → Value σ → σ → Option Text × σ
  | 0, _, s => (none, s)
  | _ + 1, .literal json, s => (json.display?, s)
  | _ + 1, .coerced raw, s => (coerce? raw, s)
  | steps + 1, .lazy compute, s =>
    let (value, s) := compute resolve s
    settle resolve steps value s
  | steps + 1, .unending, s => settle resolve steps .unending s

end Value

namespace Context

variable {σ : Type}

def empty : Context σ := {}

def set (ctx : Context σ) (key : Text) (value : Value σ) : Context σ :=
  { ctx with values := Keyed.insert ctx.values key value }

def contains (ctx : Context σ) (key : Text) : Bool := Keyed.contains ctx.values key

/-- The text under a key, where lazy values may ask for others to a depth of `fuel`. -/
def resolveWith (ctx : Context σ) : (fuel : Nat) → Resolver σ
  | 0 => fun _ s => (none, s)
  | fuel + 1 => fun key s =>
    match Keyed.get? ctx.values key with
    | none => (none, s)
    | some value => value.settle (resolveWith ctx fuel) Value.maxSteps s

/-- The text under a key; none for a missing key, for null, and for a value that does not settle.
Lazy values may ask for others as deep as there are keys.  Questions go deeper only where a lazy
value asks for a key that is still being answered; they are cut off there. -/
def resolve (ctx : Context σ) : Resolver σ := resolveWith ctx (ctx.values.length + 1)

/-- The value that a member of an object gives: texts are coerced, all else is plain. -/
def valueOfJson : Json → Value σ
  | .string s => .coerced s
  | v => .literal v

def isTrue (members : Keyed Json) (name : Text) : Bool :=
  match Keyed.get? members name with
  | some (.bool b) => b
  | _ => false

/-- The context that an object gives, with its members as values.  Some of them also say which
nonces there are and whether the page goes without the layout. -/
def ofJson? : Json → Option (Context σ)
  | .object members =>
    some
      { values := Keyed.ofList (members.map fun (name, v) => (name, valueOfJson v))
        nonce := (Keyed.get? members "nonce").bind Nonce.ofJson?
        noLayout := isTrue members "noLayout" || isTrue members "noTemplate" }
  | _ => none

end Context

end Stencil
