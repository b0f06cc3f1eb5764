import Stencil.Storage.Error

/-!
# Logical ids and paths

A template is addressed by a path under the template root or by a name relative to it, with or
without its extension.  The logical id is what all of these have in common, and is the key of the
template everywhere else.  The file of an id is the id below the root with the extension; an id
with a component of two periods would leave the root and has no file.
-/

namespace Stencil

/-- Slashes for backslashes. -/
def unifySeparators (s : Text) : Text := s.map fun c => if c = '\\' then '/' else c

/-- Whether a text is empty or begins with a slash. -/
def atSeparator : Text → Bool
  | [] => true
  | c :: _ => c == '/'

/-- Drops the root from the start of a path, where it ends at a component. -/
def dropRoot (root path : Text) : Text :=
  if root.isEmpty ∨ root = "." then path
  else match Text.after? root path with
    | some rest => if atSeparator rest then rest else path
    | none => path

/-- Drops slashes and single periods before a slash from the start of a path. -/
def dropLeading : Text → Text
  | '/' :: s => dropLeading s
  | '.' :: '/' :: s => dropLeading s
  | s => s

/-- Drops `finish` from the end of a text that ends with it. -/
def dropSuffix (finish s : Text) : Text :=
  ((Text.after? finish.reverse s.reverse).map List.reverse).getD s

/-- Drops a period and the extension from the end of a path. -/
def dropExtension (extension path : Text) : Text :=
  if extension.isEmpty then path else dropSuffix ('.' :: extension) path

def logicalId (root extension path : Text) : Text :=
  let root := Text.dropEndWhile (· == '/') (unifySeparators root)
  dropExtension extension (dropLeading (dropRoot root (unifySeparators path)))

def components (path : Text) : List Text := Text.splitOn '/' path

/-- The component that leads out of a directory. -/
def parentDirectory : Text := ".."

/-- A path below a directory; a path that begins with a slash stands for itself. -/
def joinPath (directory path : Text) : Text :=
  if path.head? = some '/' then path
  else if directory.isEmpty ∨ directory.getLast? = some '/' then directory ++ path
  else directory ++ ['/'] ++ path

def fileBackend : Text := "Fs"

/-- The file of the template at a path. -/
def templatePath (root extension path : Text) : Except StorageError Text :=
  let id := logicalId root extension path
  if id.isEmpty ∨ parentDirectory ∈ components id then
    .error { kind := .invalidPath, path := some id, backend := some fileBackend }
  else .ok (joinPath root (id ++ ['.'] ++ extension))

end Stencil
