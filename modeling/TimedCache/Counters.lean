/-!
Counters of what happens in a cache. Each of the functions here counts one kind of event, and
`hitRate` is the share of the reads that were hits.
-/
namespace TimedCache

structure Counters where
  hits : Nat := 0
  misses : Nat := 0
  evictions : Nat := 0
  expirations : Nat := 0
  sweeps : Nat := 0
  entries : Nat := 0
deriving DecidableEq

namespace Counters

instance : Inhabited Counters := ⟨{}⟩

def hit (c : Counters) : Counters := { c with hits := c.hits + 1 }

def miss (c : Counters) : Counters := { c with misses := c.misses + 1 }

def evict (c : Counters) : Counters := { c with evictions := c.evictions + 1 }

def expire (c : Counters) (n : Nat) : Counters := { c with expirations := c.expirations + n }

def sweep (c : Counters) : Counters := { c with sweeps := c.sweeps + 1 }

def hold (c : Counters) (n : Nat) : Counters := { c with entries := n }

@[simp] theorem hold_hold (c : Counters) (m n : Nat) : (c.hold m).hold n = c.hold n := rfl
@[simp] theorem hit_hold (c : Counters) (n : Nat) : (c.hold n).hit = c.hit.hold n := rfl
@[simp] theorem miss_hold (c : Counters) (n : Nat) : (c.hold n).miss = c.miss.hold n := rfl
@[simp] theorem evict_hold (c : Counters) (n : Nat) : (c.hold n).evict = c.evict.hold n := rfl
@[simp] theorem sweep_hold (c : Counters) (n : Nat) : (c.hold n).sweep = c.sweep.hold n := rfl

@[simp] theorem expire_hold (c : Counters) (m n : Nat) :
    (c.hold n).expire m = (c.expire m).hold n := rfl

@[simp] theorem expire_zero (c : Counters) : c.expire 0 = c := rfl

@[simp] theorem expire_expire (c : Counters) (m n : Nat) :
    (c.expire m).expire n = c.expire (m + n) := by
  simp [expire, Nat.add_assoc]

/-- Both counts are rounded to the nearest double before they are divided; without reads the rate
is zero. -/
def hitRate (c : Counters) : Float :=
  let reads := c.hits + c.misses
  if reads = 0 then 0 else Float.ofNat c.hits / Float.ofNat reads

end Counters
end TimedCache
