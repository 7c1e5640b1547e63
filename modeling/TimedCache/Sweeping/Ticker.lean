import TimedCache.Time.Instant

/-!
Periodic ticks. A tick that comes on time, or late by no more than the tolerance, leaves the
rhythm as it is; a later one starts a new rhythm, so missed ticks are not made up for. The first
tick may be any time away, but from then on no more than `longestPeriod` lies between two ticks.
-/
namespace TimedCache

structure Ticker where
  period : Duration
  /-- The next tick, in nanoseconds after the origin. One beyond the clock's range never comes. -/
  deadline : Nat
  period_pos : 0 < period.nanos
deriving DecidableEq

namespace Ticker

/-- Thirty years of 365 days. -/
def longestPeriod : Duration := .ofSeconds 946_080_000

/-- The first tick is a whole `wait` away, or nowhere if that is out of range. The ticks after it
are the same wait apart, if that is not too long for a period. -/
def start? (now : Instant) (wait : Duration) (h : 0 < wait.nanos) : Option Ticker :=
  (now.add? wait).map fun first =>
    ⟨min wait longestPeriod, first.nanos, Nat.lt_min.mpr ⟨h, by decide⟩⟩

/-- How late a tick may be and still count as on time. -/
def tolerance : Duration := .ofMillis 5

def rearm (k : Ticker) (now : Instant) : Ticker :=
  { k with
    deadline :=
      if now.nanos ≤ k.deadline + tolerance.nanos then k.deadline + k.period.nanos
      else now.nanos + k.period.nanos }

/-- The instant of the next tick, if it comes by `stop` and time starts to pass at `start`. -/
def due? (k : Ticker) (start stop : Instant) : Option Instant :=
  if h : k.deadline ≤ stop.nanos then
    some (max start ⟨k.deadline, Nat.lt_of_le_of_lt h stop.inRange⟩)
  else none

@[simp] theorem period_rearm (k : Ticker) (now : Instant) : (k.rearm now).period = k.period := rfl

theorem due?_eq_some {k : Ticker} {start stop t : Instant} (h : k.due? start stop = some t) :
    k.deadline ≤ stop.nanos ∧ t.nanos = max start.nanos k.deadline := by
  unfold due? at h
  split at h
  · simp only [Option.some.injEq] at h
    subst h
    simp_all
  · cases h

theorem deadline_lt_rearm (k : Ticker) {now : Instant} (h : k.deadline ≤ now.nanos) :
    k.deadline < (k.rearm now).deadline := by
  have := k.period_pos
  simp only [rearm]
  split <;> omega

/-- Every tick brings the deadline closer to the end of the time that passes. -/
theorem remaining_rearm_lt {k : Ticker} {start stop t : Instant}
    (h : k.due? start stop = some t) :
    stop.nanos + 1 - (k.rearm t).deadline < stop.nanos + 1 - k.deadline := by
  have hdue := due?_eq_some h
  have hle : k.deadline ≤ t.nanos := by omega
  have hlt := deadline_lt_rearm k hle
  omega

/-- The ticks while time passes from `start` to `stop`, and the ticker after them. A tick that is
due before `start` comes at `start`. -/
def run (k : Ticker) (start stop : Instant) : List Instant × Ticker :=
  match h : k.due? start stop with
  | none => ([], k)
  | some t =>
    have := remaining_rearm_lt h
    let (ticks, last) := (k.rearm t).run start stop
    (t :: ticks, last)
termination_by stop.nanos + 1 - k.deadline

end Ticker
end TimedCache
