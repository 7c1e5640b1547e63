/-!
The names of the settings of a cache, and the variables that can give them.
-/
namespace TimedCache

inductive Setting
  | unit
  | sweepEvery
  | lifetime
  | capacity
  | readWindow
deriving DecidableEq

namespace Setting

def all : List Setting := [.unit, .sweepEvery, .lifetime, .capacity, .readWindow]

def variableName : Setting → String
  | .unit => "CACHE_MEASURE_UNIT"
  | .sweepEvery => "CACHE_SWEEP_FREQUENCY"
  | .lifetime => "CACHE_TIME_TO_LIVE"
  | .capacity => "CACHE_MAX_SIZE"
  | .readWindow => "CACHE_EXPIRE_AFTER_ACCESS"

end Setting
end TimedCache
