import Stencil.Keyed
import Stencil.Storage.Id
import Stencil.Text.Scan
import Stencil.Text.Word

/-!
# Variables and the home directory in paths

A path in a configuration may refer to variables of the environment: `$NAME`, `${NAME}`, or
`${NAME:-text}`, which stands for `text` where there is no such variable.  Two dollar signs stand
for one, and a dollar sign before anything else stands for itself.  A tilde at the start stands for
the home directory, if the path was written with it.
-/

namespace Stencil

structure Environment where
  values : Keyed Text := []
  /-- The home directory on record for the user. -/
  accountHome : Option Text := none

namespace Environment

def get? (env : Environment) (name : Text) : Option Text := Keyed.get? env.values name

/-- The home directory: the variable `HOME`, or what is on record if that is empty or not set. -/
def home? (env : Environment) : Option Text :=
  match env.get? "HOME" with
  | some home => if home.isEmpty then env.accountHome else some home
  | none => env.accountHome

end Environment

/-- What a dollar sign begins. -/
inductive DollarTerm where
  /-- Two of them, which stand for one. -/
  | escaped
  /-- A reference to a variable, perhaps with a text in case there is none. -/
  | variable (name : Text) (otherwise : Option Text)
  deriving DecidableEq, Repr

namespace DollarTerm

/-- The characters of a name without braces. -/
def isNameChar (c : Char) : Bool := isAlphanumeric c || c == '_'

/-- The reference between braces.  A text that begins with `:-` has no name before it and is a name
itself. -/
def ofBraces (s : Text) : DollarTerm :=
  match Text.splitAtFirst? ":-" s with
  | some (c :: name, otherwise) => .variable (c :: name) (some otherwise)
  | _ => .variable s none

/-- What the dollar sign at the start of a text begins, and the rest. -/
def read? : Text → Option (DollarTerm × Text)
  | '$' :: '$' :: s => some (.escaped, s)
  | '$' :: '\x7b' :: s =>
    (Text.splitFirst? '\x7d' s).map fun (inner, rest) => (ofBraces inner, rest)
  | '$' :: s =>
    if (s.takeWhile isNameChar).isEmpty then none
    else some (.variable (s.takeWhile isNameChar) none, s.dropWhile isNameChar)
  | _ => none

/-- The text that a term stands for; the name of the variable if it is not set. -/
def value (env : Environment) : DollarTerm → Except Text Text
  | .escaped => .ok ['$']
  | .variable name otherwise =>
    match (env.get? name).or otherwise with
    | some s => .ok s
    | none => .error name

end DollarTerm

namespace Environment

def pieceValue (env : Environment) : Piece DollarTerm → Except Text Text
  | .plain c => .ok [c]
  | .found _ term => term.value env

/-- The text with its variables replaced; the name of the first that is not set. -/
def expandVariables (env : Environment) (s : Text) : Except Text Text :=
  ((Text.scan (fun _ => DollarTerm.read?) s).mapM env.pieceValue).map List.flatten

def variableNames (s : Text) : List Text :=
  (Text.finds (fun _ => DollarTerm.read?) s).filterMap fun
    | .escaped => none
    | .variable name _ => some name

/-- The text with the home directory in place of a tilde that is its first component. -/
def expandHome (env : Environment) (s : Text) : Text :=
  match s with
  | '~' :: rest => if atSeparator rest then (env.home?.map (· ++ rest)).getD s else s
  | _ => s

/-- A path with its variables and its home directory replaced; the name of the first variable that
is not set. -/
def expand (env : Environment) (s : Text) : Except Text Text :=
  (env.expandVariables s).map fun t => if s.head? = some '~' then env.expandHome t else t

end Environment

end Stencil
