import Stencil.Json.Value
import Stencil.Keyed
import Stencil.Tag.Kind

/-!
# Nonces

A nonce is a word that the elements of a page carry so that the browser accepts them.  A single one
is for scripts only; otherwise each kind of element may have its own.
-/

namespace Stencil

inductive Nonce where
  /-- One for scripts. -/
  | single (value : Text)
  /-- One for each of some kinds. -/
  | perKind (values : List (TagKind × Text))
  deriving DecidableEq, Repr

namespace Nonce

def forKind? (nonce : Nonce) (k : TagKind) : Option Text :=
  match nonce with
  | .single value => if k = .script then some value else none
  | .perKind values => (values.find? fun (j, _) => j = k).map Prod.snd

/-- The nonce of a kind in a list, from a name and a value that need not be right. -/
def entry? (name : Text) (value : Json) : Option (TagKind × Text) :=
  match TagKind.ofName? name, value with
  | some k, .string s => some (k, s)
  | _, _ => none

/-- The nonces that a value gives: a string is a single one, an object has them by the names of
kinds.  Of two names for a kind the later one counts. -/
def ofJson? : Json → Option Nonce
  | .string s => some (.single s)
  | .object members =>
    some (.perKind (members.filterMap fun (name, value) => entry? name value).reverse)
  | _ => none

end Nonce

end Stencil
