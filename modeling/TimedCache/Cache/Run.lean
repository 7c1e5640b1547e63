import TimedCache.Cache

/-!
Runs of a cache: requests to it and movements of its clocks, in any order.
-/
namespace TimedCache.Cache

variable {K V : Type} [CacheKey K]

inductive Request (K V : Type)
  | put (key : K) (value : V)
  | putFor (key : K) (value : V) (life : Duration)
  | putForAmount (key : K) (value : V) (amount : Int64)
  | get (key : K)
  | getOrEmpty (key : K)
  | contains (key : K)
  | erase (key : K)
  | clear
  | items
  | liveSize
  | sweepNow
  | counters
  | close
  | advance (d : Duration)
  | sleep (d : Duration)
  | jump (d : Duration)
deriving DecidableEq

inductive Reply (K V : Type)
  | done
  | value (found : Option V)
  | valueOrEmpty (value : V) (found : Bool)
  | flag (b : Bool)
  | number (n : Nat)
  | items (items : List (Item K V))
  | counters (c : Counters)
  | fault (f : Fault)
deriving DecidableEq

structure Outcome (K V : Type) [CacheKey K] where
  reply : Reply K V := .done
  events : List Event := []
  cache : Cache K V

/-- A move that is a fault leaves the cache as it was. -/
def Outcome.ofMove (c : Cache K V) : Except Fault (List Event × Cache K V) → Outcome K V
  | .ok (events, cache) => { events, cache }
  | .error f => { reply := .fault f, cache := c }

def Outcome.ofWrite (written : List Event × Cache K V) : Outcome K V :=
  { events := written.1, cache := written.2 }

def step (c : Cache K V) : Request K V → Outcome K V
  | .put key value => .ofWrite (c.put key value)
  | .putFor key value life => .ofWrite (c.putFor key value life)
  | .putForAmount key value amount => .ofWrite (c.putForAmount key value amount)
  | .get key =>
    let (found, cache) := c.get key
    { reply := .value found, cache }
  | .getOrEmpty key =>
    let ((value, found), cache) := c.getOrEmpty key
    { reply := .valueOrEmpty value found, cache }
  | .contains key => { reply := .flag (c.contains key), cache := c }
  | .erase key => { cache := c.erase key }
  | .clear => { cache := c.clear }
  | .items => { reply := .items c.items, cache := c }
  | .liveSize => { reply := .number c.liveSize, cache := c }
  | .sweepNow =>
    let (removed, cache) := c.sweepNow
    { reply := .number removed, cache }
  | .counters => { reply := .counters c.counters, cache := c }
  | .close => .ofWrite c.close
  | .advance d => .ofMove c ((c.advance d).map fun cache => ([], cache))
  | .sleep d => .ofMove c (c.sleep d)
  | .jump d => .ofMove c (c.jump d)

def run (c : Cache K V) : List (Request K V) → List (Outcome K V)
  | [] => []
  | request :: rest =>
    let outcome := c.step request
    outcome :: outcome.cache.run rest

def after (c : Cache K V) (requests : List (Request K V)) : Cache K V :=
  requests.foldl (fun c request => (c.step request).cache) c

@[simp] theorem run_nil (c : Cache K V) : c.run [] = [] := rfl

@[simp] theorem run_cons (c : Cache K V) (request : Request K V) (rest : List (Request K V)) :
    c.run (request :: rest) = c.step request :: (c.step request).cache.run rest := rfl

@[simp] theorem after_nil (c : Cache K V) : c.after [] = c := rfl

@[simp] theorem after_cons (c : Cache K V) (request : Request K V) (rest : List (Request K V)) :
    c.after (request :: rest) = (c.step request).cache.after rest := rfl

end TimedCache.Cache
