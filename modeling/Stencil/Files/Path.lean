import Stencil.Storage.Id

/-!
# Parts of paths

The directory that a path names its file in, and the directories around a directory.
-/

namespace Stencil

/-- Whether a component of a path stays where it is. -/
def isIdle (name : Text) : Bool := name.isEmpty || name == ['.']

/-- Drops components that stay where they are from the end of a path. -/
def dropIdle (names : List Text) : List Text := (names.reverse.dropWhile isIdle).reverse

/-- Drops the last component that leads somewhere. -/
def dropLastComponent (names : List Text) : List Text := dropIdle (dropIdle names).dropLast

/-- Where the components of a path begin: at the root, at a single period, or at once. -/
def pathStart (path : Text) : Text :=
  match path with
  | '/' :: _ => ['/']
  | '.' :: s => if atSeparator s then ['.'] else []
  | _ => []

/-- The path of the directory that a path names its file in, without what stays in place at its
end. -/
def directoryOf (path : Text) : Text :=
  let start := pathStart path
  start ++ Text.join ['/'] (dropLastComponent (components (path.drop start.length)))

def absolutePath (names : List Text) : Text := ['/'] ++ Text.join ['/'] names

/-- A directory and those around it, from the inside out. -/
def enclosing (names : List Text) : List Text :=
  (List.range (names.length + 1)).map fun n => absolutePath (names.take (names.length - n))

end Stencil
