import Stencil.Keyed

/-!
# The cache of compiled templates

The cache holds, under the id of a template, either a value or the fact that the template could not
be read.  An entry lives as long as no more than the time to live passes between two uses of it.
Time is given in milliseconds to every operation that depends on it.  While the cache is bypassed
every look-up misses and nothing is stored, but entries stay.
-/

namespace Stencil

/-- An entry: a value, or `none` for a template that could not be read, and its last use. -/
structure CacheEntry (α : Type) where
  payload : Option α
  touched : Nat
  deriving DecidableEq, Repr

/-- A cache of values under ids; without a time to live entries never expire. -/
structure Cache (α : Type) where
  entries : Keyed (CacheEntry α) := []
  ttl : Option Nat := none
  enabled : Bool := true
  deriving DecidableEq, Repr

inductive Lookup (α : Type) where
  | hit (value : α)
  /-- The template is known not to be readable. -/
  | absent
  | miss
  deriving DecidableEq, Repr

namespace CacheEntry

variable {α : Type}

/-- Whether more than the time to live has passed since the last use. -/
def isExpired (e : CacheEntry α) (ttl : Option Nat) (now : Nat) : Bool :=
  ttl.any fun ttl => ttl < now - e.touched

/-- What a look-up that finds the entry answers. -/
def lookup (e : CacheEntry α) : Lookup α :=
  match e.payload with
  | some value => .hit value
  | none => .absent

end CacheEntry

namespace Cache

variable {α : Type}

/-- Looks an id up.  A live entry counts as used; an expired one is dropped. -/
def get (c : Cache α) (now : Nat) (id : Text) : Lookup α × Cache α :=
  if !c.enabled then (.miss, c)
  else match Keyed.get? c.entries id with
    | none => (.miss, c)
    | some e =>
      if e.isExpired c.ttl now then (.miss, { c with entries := Keyed.erase c.entries id })
      else (e.lookup, { c with entries := Keyed.insert c.entries id { e with touched := now } })

/-- Stores an entry, unless the cache is bypassed. -/
def store (c : Cache α) (now : Nat) (id : Text) (payload : Option α) : Cache α :=
  if c.enabled then { c with entries := Keyed.insert c.entries id ⟨payload, now⟩ } else c

def insert (c : Cache α) (now : Nat) (id : Text) (value : α) : Cache α :=
  c.store now id (some value)

def insertAbsent (c : Cache α) (now : Nat) (id : Text) : Cache α := c.store now id none

/-- Drops the entry of an id; whether there was one. -/
def invalidate (c : Cache α) (id : Text) : Bool × Cache α :=
  (Keyed.contains c.entries id, { c with entries := Keyed.erase c.entries id })

def sweep (c : Cache α) (now : Nat) : Cache α :=
  { c with entries := Keyed.keep c.entries fun e => !e.isExpired c.ttl now }

def size (c : Cache α) : Nat := c.entries.length

def reset (c : Cache α) : Cache α := { c with entries := [] }

/-- Puts the cache to use or bypasses it. -/
def setEnabled (c : Cache α) (enabled : Bool) : Cache α := { c with enabled := enabled }

end Cache

end Stencil
