import TimedCache.Key

/-!
Keys in the order of their last use. Every use stamps its key with a fresh number, so no two keys
share a stamp and the least stamp marks the key that was not used for longest.
-/
namespace TimedCache

open Std (ExtTreeMap)

structure Recency (K : Type) [CacheKey K] where
  order : ExtTreeMap Nat K := ∅
  stamps : ExtTreeMap K Nat := ∅
  /-- Above every stamp handed out so far, a `clear` in between or not. -/
  fresh : Nat := 0

namespace Recency

variable {K : Type} [CacheKey K]

def empty : Recency K := {}

instance : Inhabited (Recency K) := ⟨empty⟩

/-- The keys from the least to the most recently used. -/
def toList (r : Recency K) : List K := r.order.toList.map Prod.snd

def size (r : Recency K) : Nat := r.stamps.size

def isEmpty (r : Recency K) : Bool := r.stamps.isEmpty

def contains (r : Recency K) (key : K) : Bool := r.stamps.contains key

def first? (r : Recency K) : Option (Nat × K) :=
  r.order.minKey?.bind fun stamp => r.order[stamp]?.map fun key => (stamp, key)

def oldest? (r : Recency K) : Option K := r.first?.map Prod.snd

/-- Makes a key the last used one. If it was there before, what its last stamp leads to is stamped
anew. -/
def use (r : Recency K) (key : K) : Recency K :=
  let order := match r.stamps[key]? with
    | some stamp =>
      match r.order[stamp]? with
      | some k => (r.order.erase stamp).insert r.fresh k
      | none => r.order
    | none => r.order.insert r.fresh key
  { order, stamps := r.stamps.insert key r.fresh, fresh := r.fresh + 1 }

def erase (r : Recency K) (key : K) : Recency K :=
  match r.stamps[key]? with
  | some stamp => { r with order := r.order.erase stamp, stamps := r.stamps.erase key }
  | none => r

def popOldest? (r : Recency K) : Option (K × Recency K) :=
  r.first?.map fun (stamp, key) =>
    (key, { r with order := r.order.erase stamp, stamps := r.stamps.erase key })

def clear (r : Recency K) : Recency K := { fresh := r.fresh }

/-- Every pop shortens the order, so popping until nothing is left comes to an end. -/
theorem size_order_popOldest? {r rest : Recency K} {key : K}
    (h : r.popOldest? = some (key, rest)) : rest.order.size < r.order.size := by
  simp only [popOldest?, first?, Option.map_eq_some_iff, Option.bind_eq_some_iff,
    Prod.exists, Prod.mk.injEq] at h
  obtain ⟨_, _, ⟨stamp, -, _, hget, rfl, rfl⟩, -, rfl⟩ := h
  have hmem := ExtTreeMap.mem_toList_iff_getElem?_eq_some.mpr hget
  have hpos : 0 < r.order.size := by
    rw [← ExtTreeMap.length_toList]
    exact List.length_pos_of_mem hmem
  have hcontains : r.order.contains stamp = true :=
    ExtTreeMap.contains_eq_isSome_getElem?.trans (Option.isSome_of_eq_some hget)
  simp only [ExtTreeMap.size_erase, hcontains, if_true]
  omega

def drain (r : Recency K) : List K × Recency K :=
  match h : r.popOldest? with
  | none => ([], r)
  | some (key, rest) =>
    have := size_order_popOldest? h
    let (keys, last) := rest.drain
    (key :: keys, last)
termination_by r.order.size

end Recency
end TimedCache
