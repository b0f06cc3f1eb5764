import Stencil.Keyed
import Stencil.Storage.Error
import Stencil.Storage.Event

/-!
# Templates in memory

A storage that holds its sources itself.  Reads of chosen ids fail.  Of the subscriptions to its
changes only the newest receives events.
-/

namespace Stencil

/-- Sources in memory, and the events that the newest subscription has not taken yet. -/
structure MemoryStorage where
  templates : Keyed Text := []
  failing : List Text := []
  /-- The events that wait for the newest subscriber, if there is one. -/
  inbox : Option (List Event) := none
  /-- How often a source was read. -/
  reads : Nat := 0
  deriving DecidableEq, Repr

namespace MemoryStorage

def backend : Text := "Mock"

def read (m : MemoryStorage) (id : Text) : Except StorageError Text :=
  if id ∈ m.failing then
    .error { kind := .permissionDenied, path := some id, backend := some backend }
  else match Keyed.get? m.templates id with
    | some source => .ok source
    | none => .error { kind := .notFound, path := some id, backend := some backend }

def readCounted (m : MemoryStorage) (id : Text) : Except StorageError Text × MemoryStorage :=
  (m.read id, { m with reads := m.reads + 1 })

/-- Whether there is a source for an id, readable or not. -/
def contains (m : MemoryStorage) (id : Text) : Bool := Keyed.contains m.templates id

def insert (m : MemoryStorage) (id source : Text) : MemoryStorage :=
  { m with templates := Keyed.insert m.templates id source }

def remove (m : MemoryStorage) (id : Text) : MemoryStorage :=
  { m with templates := Keyed.erase m.templates id }

def subscribe (m : MemoryStorage) : MemoryStorage := { m with inbox := some [] }

def emit (m : MemoryStorage) (e : Event) : MemoryStorage :=
  { m with inbox := m.inbox.map (· ++ [e]) }

/-- Takes the next event of the newest subscription. -/
def receive (m : MemoryStorage) : Option Event × MemoryStorage :=
  match m.inbox with
  | some (e :: rest) => (some e, { m with inbox := some rest })
  | _ => (none, m)

end MemoryStorage

end Stencil
