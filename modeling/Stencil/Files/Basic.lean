import Stencil.Storage.Error

/-!
# Files

What the file at a path holds, or why it cannot be read.  All that the library asks of a file system
is the bytes at a path: whether something is there, whether it is a file and what text it holds
follow from that.
-/

namespace Stencil

inductive FileError where
  | notFound
  | isDirectory
  /-- A part of the path that stands for a directory is something else. -/
  | notDirectory
  /-- The bytes are not UTF-8. -/
  | notText
  /-- No path holds a character zero. -/
  | zeroInPath
  /-- The path, or a name in it, takes too many bytes. -/
  | nameTooLong
  deriving DecidableEq, Repr

namespace FileError

def message : FileError → Text
  | .notFound => "No such file or directory (os error 2)"
  | .isDirectory => "Is a directory (os error 21)"
  | .notDirectory => "Not a directory (os error 20)"
  | .notText => "stream did not contain valid UTF-8"
  | .zeroInPath => "file name contained an unexpected NUL byte"
  | .nameTooLong => "File name too long (os error 36)"

/-- The kind that callers tell apart. -/
def kind : FileError → FileErrorKind
  | .notFound => .notFound
  | .notText => .invalidData
  | _ => .other

end FileError

/-- The text that bytes encode in UTF-8. -/
def Text.ofUtf8? (bytes : ByteArray) : Option Text := (String.fromUTF8? bytes).map String.toList

/-- Some files: what reading each path gives. -/
structure Files where
  read : Text → Except FileError ByteArray

namespace Files

def readText (files : Files) (path : Text) : Except FileError Text :=
  match files.read path with
  | .error e => .error e
  | .ok bytes =>
    match Text.ofUtf8? bytes with
    | some s => .ok s
    | none => .error .notText

def isFile (files : Files) (path : Text) : Bool := (files.read path).toOption.isSome

/-- Whether there is anything at a path. -/
def contains (files : Files) (path : Text) : Bool :=
  match files.read path with
  | .ok _ => true
  | .error e => e == .isDirectory

end Files

end Stencil
