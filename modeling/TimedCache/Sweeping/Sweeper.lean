import TimedCache.Event
import TimedCache.Sweeping.Ticker

/-!
Sweepers and what they sweep. A sweeper ticks at a steady rate, and a round of ticks sweeps its
target once for each, until the target says that it is closed.
-/
namespace TimedCache

/-- What can be swept: a sweep at an instant answers how much it removed, or none once the target
is closed. -/
class Sweepable (σ : Type) where
  sweep : Instant → σ → Option Nat × σ

inductive Sweeper
  | ticking (ticker : Ticker)
  /-- The first tick is out of range, and none will ever come. -/
  | idle
  | finished
deriving DecidableEq

namespace Sweeper

/-- No time at all between sweeps makes no rate, and the sweeper ends at once. -/
def start (sweepEvery : Duration) (now : Instant) : List Event × Sweeper :=
  if h : 0 < sweepEvery.nanos then
    match Ticker.start? now sweepEvery h with
    | some ticker => ([.sweeperStarting sweepEvery], .ticking ticker)
    | none => ([.sweeperStarting sweepEvery, .sweepsOutOfRange], .idle)
  else ([.sweeperStarting sweepEvery], .finished)

def isFinished : Sweeper → Bool
  | .finished => true
  | _ => false

end Sweeper

/-- Sweeps the target at each of the given instants, and answers whether it was open to the last. -/
def sweepAt {σ : Type} [Sweepable σ] (target : σ) : List Instant → List Event × Bool × σ
  | [] => ([], true, target)
  | t :: rest =>
    match Sweepable.sweep t target with
    | (some removed, target) =>
      let (events, wasOpen, target) := sweepAt target rest
      (.swept removed :: events, wasOpen, target)
    | (none, target) => ([.sweeperStopped], false, target)

@[simp] theorem sweepAt_nil {σ : Type} [Sweepable σ] (target : σ) :
    sweepAt target [] = ([], true, target) := rfl

end TimedCache
