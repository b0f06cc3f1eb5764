import Stencil.Cache.Basic

/-!
# A cache in the course of time

A cache together with the present time and, perhaps, a sweeper that drops expired entries at regular
moments.  Nothing is used while time passes, so that the last of several sweeps drops all that the
ones before it would have dropped.
-/

namespace Stencil

/-- Regular sweeps from a moment on. -/
structure Sweeper where
  since : Nat
  interval : Nat
  deriving DecidableEq, Repr

/-- The last moment of a sweep that is not after `time`. -/
def Sweeper.lastUntil (s : Sweeper) (time : Nat) : Nat :=
  s.since + (time - s.since) / s.interval * s.interval

/-- A cache, the present time, and the sweeper if one runs. -/
structure TimedCache (α : Type) where
  cache : Cache α
  now : Nat := 0
  sweeper : Option Sweeper := none
  deriving DecidableEq, Repr

namespace TimedCache

variable {α : Type}

/-- Starts a sweeper in place of the one that may run.  Sweeps are at least a millisecond apart. -/
def startSweeper (t : TimedCache α) (interval : Nat) : TimedCache α :=
  { t with sweeper := some ⟨t.now, max 1 interval⟩ }

def stopSweeper (t : TimedCache α) : TimedCache α := { t with sweeper := none }

def wait (t : TimedCache α) (ms : Nat) : TimedCache α :=
  let now := t.now + ms
  let cache :=
    match t.sweeper with
    | some s => if t.now < s.lastUntil now then t.cache.sweep (s.lastUntil now) else t.cache
    | none => t.cache
  { t with cache := cache, now := now }

/-- How long to wait for an empty cache. -/
def patience : Nat := 2000

/-- Waits until the cache is empty, but not for long; whether it is. -/
def awaitEmpty (t : TimedCache α) : Bool × TimedCache α :=
  if t.cache.size = 0 then (true, t)
  else
    let t := t.wait patience
    (t.cache.size = 0, t)

end TimedCache

end Stencil
