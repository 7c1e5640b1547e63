import TimedCache.Sweeping.Sweeper

/-!
Patrols. A patrol is a sweeper at work on a target while the time of a timer passes. Time passes
gradually, so that every sweep comes when it falls due, or in one jump, after which the sweeps that
fell due come late.
-/
namespace TimedCache

structure Patrol (σ : Type) where
  now : Instant := .origin
  /-- None once nobody holds the sweeper any more. -/
  sweeper : Option Sweeper
  target : σ

namespace Patrol

variable {σ : Type}

def start (sweepEvery : Duration) (target : σ) : List Event × Patrol σ :=
  let (events, sweeper) := Sweeper.start sweepEvery .origin
  (events, { sweeper := some sweeper, target })

/-- The sweeps that fall due by `stop`. None of them comes before `start`. -/
def pass [Sweepable σ] (p : Patrol σ) (start stop : Instant) : List Event × Patrol σ :=
  match p.sweeper with
  | some (.ticking ticker) =>
    let (ticks, ticker) := ticker.run start stop
    let (events, wasOpen, target) := sweepAt p.target ticks
    let sweeper := if wasOpen then .ticking ticker else .finished
    (events, { now := stop, sweeper := some sweeper, target })
  | _ => ([], { p with now := stop })

/-- Lets time pass gradually; none if it would pass the end of the timer's range. -/
def sleep [Sweepable σ] (p : Patrol σ) (d : Duration) : Option (List Event × Patrol σ) :=
  (p.now.add? d).map fun stop => p.pass p.now stop

/-- Lets time pass at once; none if it would pass the end of the timer's range. -/
def jump [Sweepable σ] (p : Patrol σ) (d : Duration) : Option (List Event × Patrol σ) :=
  (p.now.add? d).map fun stop => p.pass stop stop

/-- Ends the sweeper without a word. -/
def stop (p : Patrol σ) : Patrol σ := { p with sweeper := none }

/-- Lets go of the sweeper, which ends by itself and says so if it was ticking. -/
def release (p : Patrol σ) : List Event × Patrol σ :=
  match p.sweeper with
  | some (.ticking _) => ([.sweeperStopped], p.stop)
  | _ => ([], p.stop)

def isFinished? (p : Patrol σ) : Option Bool := p.sweeper.map Sweeper.isFinished

end Patrol
end TimedCache
