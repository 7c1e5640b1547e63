import TimedCache.Cache

/-!
Plans of caches. A plan takes instructions in order, so the last word on a setting stands, and can
be carried out if its settings are valid and there is a runtime for the sweeper.
-/
namespace TimedCache

structure Plan (V : Type) where
  settings : Settings
  emptyValue : V
  clock : Clock := {}
  /-- Whether the plan comes with a runtime for the sweeper. -/
  hosted : Bool := false
deriving DecidableEq

namespace Plan

variable {K V : Type}

inductive Instruction (V : Type)
  | adjust (a : Adjustment)
  | adjustAll (as : List Adjustment)
  | capacity (n : Nat)
  | readWindow (window : Duration)
  | emptyValue (v : V)
deriving DecidableEq

def ofSettings [Inhabited V] (settings : Settings) : Plan V := { settings, emptyValue := default }

def adjust (p : Plan V) (a : Adjustment) : Plan V := { p with settings := p.settings.adjust a }

def take (p : Plan V) : Instruction V → Plan V
  | .adjust a => p.adjust a
  | .adjustAll as => { p with settings := p.settings.adjustAll as }
  | .capacity n => p.adjust (.capacity n)
  | .readWindow window => p.adjust (.readWindow window)
  | .emptyValue v => { p with emptyValue := v }

def takeAll (p : Plan V) (instructions : List (Instruction V)) : Plan V :=
  instructions.foldl take p

def contents [CacheKey K] (p : Plan V) : Contents K V :=
  { store := .empty p.settings.capacity p.settings.lifetime (.ofWindow p.settings.readWindow)
    clock := p.clock }

/-- Starts the cache. `ambient` says whether a runtime is there without the plan's doing; that none
is there is of interest only once the settings are valid. -/
def build [CacheKey K] (p : Plan V) (ambient : Bool) :
    Except SetupError (List Event × Cache K V) := do
  p.settings.validate
  unless p.hosted || ambient do throw .noRuntime
  let (events, patrol) := Patrol.start p.settings.sweepEvery p.contents
  return (.created p.settings :: events,
    { settings := p.settings, emptyValue := p.emptyValue, patrol })

end Plan

/-- A cache made in one go; what keeps it from being built is a fault here. -/
def Cache.create {K V : Type} [CacheKey K] [Inhabited V] (sweepEvery lifetime : Duration)
    (unit : TimeUnit) (adjustments : List Adjustment) (ambient : Bool) :
    Except Fault (List Event × Cache K V) :=
  let settings : Settings := { sweepEvery, lifetime, unit }
  ((Plan.ofSettings (settings.adjustAll adjustments)).build ambient).mapError .notCreated

end TimedCache
