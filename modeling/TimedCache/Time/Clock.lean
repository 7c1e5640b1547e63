import TimedCache.Failure
import TimedCache.Time.Instant

/-!
The clocks that tell the age of entries: the timer that also drives the sweeper, or a manual clock,
which moves only when it is told to and whose clones all show the same time.
-/
namespace TimedCache

/-- A move past the end of a clock's range is a fault. -/
def Instant.advance (t : Instant) (d : Duration) : Except Fault Instant :=
  match t.add? d with
  | some u => .ok u
  | none => .error .clockOverflow

/-- A manual clock with its clones. -/
structure SharedClock where
  reading : Instant := .origin
  clones : Nat := 0
deriving DecidableEq

namespace SharedClock

def clone (c : SharedClock) : SharedClock := { c with clones := c.clones + 1 }

/-- To move one of the clocks is to move all of them. -/
def advance (c : SharedClock) (d : Duration) : Except Fault SharedClock :=
  (c.reading.advance d).map fun reading => { c with reading }

def readings (c : SharedClock) : List Instant := List.replicate (c.clones + 1) c.reading

end SharedClock

inductive ClockSource
  | timer
  | manual
deriving DecidableEq

/-- The clock that entries go by. The manual clock can be moved even while they go by the timer. -/
structure Clock where
  source : ClockSource := .timer
  reading : Instant := .origin
deriving DecidableEq

namespace Clock

def now (c : Clock) (timer : Instant) : Instant :=
  match c.source with
  | .timer => timer
  | .manual => c.reading

def advance (c : Clock) (d : Duration) : Except Fault Clock :=
  (c.reading.advance d).map fun reading => { c with reading }

theorem source_advance {c c' : Clock} {d : Duration} (h : c.advance d = .ok c') :
    c'.source = c.source := by
  simp only [advance] at h
  cases hr : c.reading.advance d with
  | error f => simp [hr, Except.map] at h
  | ok reading =>
    simp only [hr, Except.map, Except.ok.injEq] at h
    exact h ▸ rfl

end Clock
end TimedCache
