import TimedCache.Proofs.Cache.Closed
import TimedCache.Proofs.Store.Reads

/-!
The ways to read a cache. Whoever lists, counts, looks up or asks for keys is told of the same
entries, those that are live, and a sweep would take out just the others; to a closed cache there is
nothing. An empty value that is stored is found like any other.
-/
namespace TimedCache

/-- What each way of reading tells by itself. -/
structure Readings (K V : Type) where
  items : List (Item K V)
  count : Nat
  contains : K → Bool
  get : K → Option V
  /-- The number of entries that a sweep would take out. -/
  removable : Nat
  /-- The number of entries, dead ones included. -/
  size : Nat

variable {K V : Type}

namespace Readings

def empty : Readings K V where
  items := []
  count := 0
  contains _ := false
  get _ := none
  removable := 0
  size := 0

/-- The readings tell of the same entries, and a sweep would leave just these. -/
structure Agree (r : Readings K V) : Prop where
  distinct : (r.items.map Item.key).Nodup
  count : r.items.length = r.count
  contains : ∀ key, r.contains key = true ↔ ∃ value, ⟨key, value⟩ ∈ r.items
  get : ∀ key value, r.get key = some value ↔ ⟨key, value⟩ ∈ r.items
  removable : r.count + r.removable = r.size

end Readings

variable [CacheKey K]

namespace Store

def readings (s : Store K V) (now : Instant) : Readings K V where
  items := s.items now
  count := s.liveSize now
  contains key := s.contains key now
  get key := (s.get key now).1
  removable := (s.sweep now).1
  size := s.size

end Store

namespace Cache

variable {c : Cache K V}

def readings (c : Cache K V) : Readings K V where
  items := c.items
  count := c.liveSize
  contains key := c.contains key
  get key := (c.get key).1
  removable := c.sweepNow.1
  size := c.counters.entries

theorem Inert.readings (h : c.Inert) : c.readings = .empty := by
  have hget (key : K) : (c.get key).1 = none := by
    rw [get, h.closed]
    rfl
  have hsweep : c.sweepNow.1 = 0 := by
    rw [sweepNow, Contents.sweep_of_closed h.closed]
    rfl
  simp only [Cache.readings, items, liveSize, contains, hget, hsweep, h.closed, h.counters,
    Bool.not_true, Bool.false_and, if_true]
  rfl

end Cache
end TimedCache
