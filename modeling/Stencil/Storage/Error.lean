import Stencil.Text.Basic

/-!
# Errors of a storage

Why the source of a template could not be read: a kind, and as far as they are known the path, the
storage that was asked, and the cause below.
-/

namespace Stencil

/-- Why reading a file failed, as far as callers tell the cases apart. -/
inductive FileErrorKind where
  | notFound | permissionDenied | invalidData | other
  deriving DecidableEq, Repr

/-- The kinds of errors of a storage. -/
inductive StorageErrorKind where
  /-- There is no such template. -/
  | notFound
  | permissionDenied
  /-- The id leaves the template root or names nothing. -/
  | invalidPath
  /-- The source is not text. -/
  | invalidData
  | other
  deriving DecidableEq, Repr

structure StorageError where
  kind : StorageErrorKind
  path : Option Text := none
  backend : Option Text := none
  source : Option Text := none
  deriving DecidableEq, Repr

namespace StorageErrorKind

/-- The kind of a storage error below which a file error lies. -/
def ofFile : FileErrorKind → StorageErrorKind
  | .notFound => .notFound
  | .permissionDenied => .permissionDenied
  | .invalidData => .invalidData
  | .other => .other

/-- The words for a kind in a message. -/
def label : StorageErrorKind → Text
  | .notFound => "Not found"
  | .permissionDenied => "Permission denied"
  | .invalidPath => "Invalid path"
  | .invalidData => "Invalid data"
  | .other => "Error"

end StorageErrorKind

namespace StorageError

/-- The error for a file that could not be read. -/
def ofFile (kind : FileErrorKind) (path source : Text) : StorageError :=
  { kind := .ofFile kind, path := some path, source := some source }

def isNotFound (e : StorageError) : Bool := e.kind == .notFound

/-- A part of a message between two texts; nothing if it is not known. -/
def messagePart (before : Text) (part : Option Text) (after : Text) : Text :=
  match part with
  | some s => before ++ s ++ after
  | none => []

/-- The message: the storage in brackets, the kind, the cause after a colon, the path. -/
def message (e : StorageError) : Text :=
  messagePart ['['] e.backend [']', ' '] ++ e.kind.label ++ messagePart [':', ' '] e.source [] ++
    messagePart " (path: " e.path [')']

end StorageError

end Stencil
