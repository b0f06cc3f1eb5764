import Stencil.Files.Basic
import Stencil.Storage.Id

/-!
# Templates in files

The template of an id is the file below a root that has the id as its path, with an extension.
-/

namespace Stencil

/-- Templates in the files below a root. -/
structure FileStorage where
  files : Files
  root : Text
  extension : Text

namespace FileStorage

/-- The file of a template. -/
def path (storage : FileStorage) (id : Text) : Except StorageError Text :=
  templatePath storage.root storage.extension id

def failure (path : Text) (e : FileError) : StorageError :=
  { StorageError.ofFile e.kind path e.message with backend := some fileBackend }

def read (storage : FileStorage) (id : Text) : Except StorageError Text :=
  match storage.path id with
  | .error e => .error e
  | .ok path => (storage.files.readText path).mapError (failure path)

def contains (storage : FileStorage) (id : Text) : Bool :=
  match storage.path id with
  | .error _ => false
  | .ok path => storage.files.isFile path

end FileStorage

end Stencil
