import TimedCache.Store
import TimedCache.Sweeping.Patrol
import TimedCache.Time.Clock

/-!
Caches. A cache is a store under patrol: it tells the store the time, and a sweeper removes what is
dead at a steady rate. Once it is closed it holds nothing, writes do nothing, and reads find
nothing.
-/
namespace TimedCache

/-- The part of a cache that its sweeper reaches. -/
structure Contents (K V : Type) [CacheKey K] where
  store : Store K V
  closed : Bool := false
  clock : Clock := {}

/-- A sweep while the timer stands at `timer`, unless the cache is closed. -/
def Contents.sweep {K V : Type} [CacheKey K] (timer : Instant) (c : Contents K V) :
    Option Nat × Contents K V :=
  if c.closed then (none, c)
  else
    let (n, store) := c.store.sweep (c.clock.now timer)
    (some n, { c with store })

instance {K V : Type} [CacheKey K] : Sweepable (Contents K V) := ⟨Contents.sweep⟩

structure Cache (K V : Type) [CacheKey K] where
  settings : Settings
  /-- What a read gives in place of a value that is not there. -/
  emptyValue : V
  patrol : Patrol (Contents K V)

namespace Cache

variable {K V : Type} [CacheKey K]

def store (c : Cache K V) : Store K V := c.patrol.target.store

def isClosed (c : Cache K V) : Bool := c.patrol.target.closed

def now (c : Cache K V) : Instant := c.patrol.target.clock.now c.patrol.now

def contains (c : Cache K V) (key : K) : Bool := !c.isClosed && c.store.contains key c.now

def items (c : Cache K V) : List (Item K V) := if c.isClosed then [] else c.store.items c.now

def liveSize (c : Cache K V) : Nat := if c.isClosed then 0 else c.store.liveSize c.now

/-- The counters stay readable after the cache is closed. -/
def counters (c : Cache K V) : Counters := c.store.counters

def readWindow (c : Cache K V) : Option Duration := c.store.policy.window?

def text (c : Cache K V) : String :=
  "Cache \x7b time_to_live: " ++ c.settings.lifetime.text ++
    ", measure_unit: " ++ c.settings.unit.name ++
    ", sweep_frequency: " ++ c.settings.sweepEvery.text ++
    ", closed: " ++ toString c.isClosed ++ ", .. \x7d"

def withContents (c : Cache K V) (contents : Contents K V) : Cache K V :=
  { c with patrol := { c.patrol with target := contents } }

def withStore (c : Cache K V) (store : Store K V) : Cache K V :=
  c.withContents { c.patrol.target with store }

def putFor (c : Cache K V) (key : K) (value : V) (life : Duration) : List Event × Cache K V :=
  if c.isClosed then ([], c)
  else
    let (admission, store) := c.store.insertFor key value life c.now
    (admission.events, c.withStore store)

def put (c : Cache K V) (key : K) (value : V) : List Event × Cache K V :=
  c.putFor key value c.settings.lifetime

/-- The life of the entry is an amount of the cache's unit, and over at once if that is negative. -/
def putForAmount (c : Cache K V) (key : K) (value : V) (amount : Int64) :
    List Event × Cache K V :=
  c.putFor key value (c.settings.unit.spanOrZero amount)

/-- A closed cache does not even count a read. -/
def get (c : Cache K V) (key : K) : Option V × Cache K V :=
  if c.isClosed then (none, c)
  else
    let (found, store) := c.store.get key c.now
    (found, c.withStore store)

/-- Tells apart an empty value that was found from one that stands for nothing. -/
def getOrEmpty (c : Cache K V) (key : K) : (V × Bool) × Cache K V :=
  match c.get key with
  | (some value, c) => ((value, true), c)
  | (none, c) => ((c.emptyValue, false), c)

def erase (c : Cache K V) (key : K) : Cache K V :=
  if c.isClosed then c else c.withStore (c.store.erase key).2

def clear (c : Cache K V) : Cache K V :=
  if c.isClosed then c else c.withStore c.store.clear.2

def sweepNow (c : Cache K V) : Nat × Cache K V :=
  let (removed, contents) := c.patrol.target.sweep c.patrol.now
  (removed.getD 0, c.withContents contents)

/-- Drops every entry and ends the sweeper; a second time it does nothing. -/
def close (c : Cache K V) : List Event × Cache K V :=
  if c.isClosed then ([], c)
  else
    let (released, store) := c.store.clear
    let c := c.withContents { c.patrol.target with store, closed := true }
    ([.closed released], { c with patrol := c.patrol.stop })

/-- The end of a cache that nobody uses any more: its sweeper ends without a word. -/
def dispose (c : Cache K V) : List Event × Cache K V :=
  let c := c.withContents { c.patrol.target with closed := true }
  ([], { c with patrol := c.patrol.stop })

def advance (c : Cache K V) (d : Duration) : Except Fault (Cache K V) :=
  (c.patrol.target.clock.advance d).map fun clock => c.withContents { c.patrol.target with clock }

/-- The cache after a move of its timer, which is a fault past the end of the range. -/
def moved (c : Cache K V) (move : Option (List Event × Patrol (Contents K V))) :
    Except Fault (List Event × Cache K V) :=
  match move with
  | some (events, patrol) => .ok (events, { c with patrol })
  | none => .error .clockOverflow

def sleep (c : Cache K V) (d : Duration) : Except Fault (List Event × Cache K V) :=
  c.moved (c.patrol.sleep d)

def jump (c : Cache K V) (d : Duration) : Except Fault (List Event × Cache K V) :=
  c.moved (c.patrol.jump d)

end Cache
end TimedCache
