import TimedCache.Settings

/-!
What a cache reports as it works. An event has a level, a message and named fields, and `line`
writes the three in this order.
-/
namespace TimedCache

inductive Event
  | created (settings : Settings)
  | sweeperStarting (sweepEvery : Duration)
  /-- No sweep will ever fall due. -/
  | sweepsOutOfRange
  /-- A cache that holds no entries at all dropped a write. -/
  | writeDropped
  /-- The least recently used entry went, and `left` entries stayed. -/
  | evicted (left : Nat)
  | swept (removed : Nat)
  | closed (released : Nat)
  | sweeperStopped
deriving DecidableEq

inductive Level
  | trace
  | debug
  | info
deriving DecidableEq

def Level.name : Level → String
  | .trace => "TRACE"
  | .debug => "DEBUG"
  | .info => "INFO"

namespace Event

/-- A sweep deserves more notice if it found something. -/
def level : Event → Level
  | .writeDropped | .evicted _ => .trace
  | .swept (_ + 1) => .info
  | _ => .debug

def message : Event → String
  | .created _ => "Cache created"
  | .sweeperStarting _ => "Starting expiration sweeper"
  | .sweepsOutOfRange => "Sweep frequency out of range, sweeper idle until stopped"
  | .writeDropped => "Cache has zero capacity, dropping write"
  | .evicted _ => "Evicted least recently used entry"
  | .swept 0 => "Sweep: no expired entries found"
  | .swept n => "Sweep: removed " ++ toString n ++ " expired entries"
  | .closed _ => "Cache closed"
  | .sweeperStopped => "Expiration sweeper stopped"

def optional {α : Type} (text : α → String) : Option α → String
  | some a => "Some(" ++ text a ++ ")"
  | none => "None"

def fields : Event → List (String × String)
  | .created settings =>
    [("sweep_frequency", settings.sweepEvery.text),
      ("time_to_live", settings.lifetime.text),
      ("measure_unit", settings.unit.label),
      ("max_size", optional toString settings.capacity),
      ("expire_after_access", optional Duration.text settings.readWindow)]
  | .sweeperStarting sweepEvery => [("frequency", sweepEvery.text)]
  | .evicted left => [("size", toString left)]
  | .closed released => [("released", toString released)]
  | _ => []

def line (e : Event) : String :=
  e.fields.foldl (fun text (name, value) => text ++ " " ++ name ++ "=" ++ value)
    (e.level.name ++ " " ++ e.message)

example : (evicted 3).line = "TRACE Evicted least recently used entry size=3" := by decide +kernel
example : (swept 2).line = "INFO Sweep: removed 2 expired entries" := by decide +kernel
example : (sweeperStarting (.ofSeconds 1)).line =
    "DEBUG Starting expiration sweeper frequency=1s" := by decide +kernel

end Event
end TimedCache
