import Stencil.Files.Basic
import Stencil.Files.Path

/-!
# Trees of files

A tree holds files and directories under a root, each at a list of names.  Whatever stands below
another thing makes that a directory.  A path is followed one component at a time, from the root or
from the directory that relative paths begin in.
-/

namespace Stencil

inductive FileNode where
  | file (bytes : ByteArray)
  | directory

/-- Files and directories under a root, by the names that lead to them. -/
structure FileTree where
  nodes : List (List Text × FileNode) := []

namespace FileTree

def node? (tree : FileTree) (names : List Text) : Option FileNode :=
  match tree.nodes.lookup names with
  | some node => some node
  | none =>
    if names.isEmpty || tree.nodes.any fun (place, _) => names.isPrefixOf place then
      some .directory
    else none

/-- Where a component leads from a directory. -/
def step (names : List Text) (component : Text) : List Text :=
  if isIdle component then names
  else if component = parentDirectory then names.dropLast
  else names ++ [component]

/-- How many bytes a name may take. -/
def maxNameSize : Nat := 255

/-- How many bytes a path may take. -/
def maxPathSize : Nat := 4095

/-- Follows the components of a path from a place on. -/
def follow (tree : FileTree) (names : List Text) : List Text → Except FileError (List Text)
  | [] => .ok names
  | component :: rest =>
    match tree.node? names with
    | none => .error .notFound
    | some (.file _) => .error .notDirectory
    | some .directory =>
      if maxNameSize < component.byteSize then .error .nameTooLong
      else follow tree (step names component) rest

/-- The place that a path leads to, where relative paths begin at `start`. -/
def resolve (tree : FileTree) (start : List Text) (path : Text) : Except FileError (List Text) :=
  if path.isEmpty then .error .notFound
  else if '\x00' ∈ path then .error .zeroInPath
  else if maxPathSize < path.byteSize then .error .nameTooLong
  else if path.head? = some '/' then tree.follow [] (components path)
  else tree.follow start (components path)

def read (tree : FileTree) (start : List Text) (path : Text) : Except FileError ByteArray :=
  match tree.resolve start path with
  | .error e => .error e
  | .ok names =>
    match tree.node? names with
    | none => .error .notFound
    | some .directory => .error .isDirectory
    | some (.file bytes) => .ok bytes

/-- The files of a tree, where relative paths begin at `start`. -/
def files (tree : FileTree) (start : List Text) : Files := ⟨tree.read start⟩

end FileTree

end Stencil
