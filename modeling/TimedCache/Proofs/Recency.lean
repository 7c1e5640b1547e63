import TimedCache.Proofs.Listing
import TimedCache.Recency

/-!
The order of uses as a list of keys without duplicates. Its two maps are inverse to each other and
no stamp is used twice; a use moves its key to the back, and the key in front is the next to go.
-/
namespace TimedCache.Recency

open Std (ExtTreeMap)

variable {K : Type} [CacheKey K]

structure Coherent (r : Recency K) : Prop where
  inverse : ∀ (stamp : Nat) (key : K), r.order[stamp]? = some key ↔ r.stamps[key]? = some stamp
  below : ∀ (stamp : Nat) (key : K), r.stamps[key]? = some stamp → stamp < r.fresh

theorem coherent_clear (r : Recency K) : r.clear.Coherent := by
  constructor <;> simp [clear]

theorem coherent_empty : (empty : Recency K).Coherent := coherent_clear empty

theorem stamps_erase_iff (r : Recency K) {key k : K} {stamp : Nat} :
    (r.erase key).stamps[k]? = some stamp ↔ r.stamps[k]? = some stamp ∧ k ≠ key := by
  unfold erase
  split
  · rw [ExtTreeMap.getElem?_erase]
    by_cases hk : key = k
    · simp [hk]
    · simp [hk, Ne.symm hk]
  · rename_i hnone
    constructor
    · intro hstamp
      refine ⟨hstamp, ?_⟩
      intro hk
      rw [hk, hnone] at hstamp
      cases hstamp
    · exact And.left

theorem order_erase_iff {r : Recency K} (h : r.Coherent) {key k : K} {stamp : Nat} :
    (r.erase key).order[stamp]? = some k ↔ r.order[stamp]? = some k ∧ k ≠ key := by
  unfold erase
  split
  · rename_i last hlast
    rw [ExtTreeMap.getElem?_erase]
    by_cases hs : last = stamp
    · have hkey : r.order[stamp]? = some key := hs ▸ (h.inverse last key).mpr hlast
      simp [hs, hkey, eq_comm]
    · have hne : r.order[stamp]? = some k → k ≠ key := by
        intro horder hk
        rw [h.inverse, hk, hlast] at horder
        exact hs (Option.some.inj horder)
      simpa [hs] using hne
  · rename_i hnone
    constructor
    · intro horder
      refine ⟨horder, ?_⟩
      intro hk
      rw [h.inverse, hk, hnone] at horder
      cases horder
    · exact And.left

@[simp] theorem fresh_erase (r : Recency K) (key : K) : (r.erase key).fresh = r.fresh := by
  unfold erase
  split <;> rfl

theorem coherent_erase {r : Recency K} (h : r.Coherent) (key : K) : (r.erase key).Coherent where
  inverse stamp k := by rw [order_erase_iff h, stamps_erase_iff, h.inverse]
  below stamp k hstamp := by
    rw [fresh_erase]
    exact h.below stamp k ((stamps_erase_iff r).mp hstamp).1

theorem erase_comm (r : Recency K) (a b : K) : (r.erase a).erase b = (r.erase b).erase a := by
  by_cases hab : a = b
  · rw [hab]
  · cases ha : r.stamps[a]? with
    | none => cases hb : r.stamps[b]? <;> simp [erase, ha, hb, ExtTreeMap.getElem?_erase]
    | some m =>
      cases hb : r.stamps[b]? with
      | none => simp [erase, ha, hb, ExtTreeMap.getElem?_erase]
      | some n =>
        have horder := Listing.erase_comm r.order m n
        have hstamps := Listing.erase_comm r.stamps a b
        simp [erase, ha, hb, ExtTreeMap.getElem?_erase, hab, Ne.symm hab, horder, hstamps]

/-- Forgets a key and adds it with a fresh stamp. -/
def restamp (r : Recency K) (key : K) : Recency K where
  order := (r.erase key).order.insert r.fresh key
  stamps := (r.erase key).stamps.insert key r.fresh
  fresh := r.fresh + 1

theorem insert_stamps_erase (r : Recency K) (key : K) (stamp : Nat) :
    (r.erase key).stamps.insert key stamp = r.stamps.insert key stamp := by
  unfold erase
  split
  · apply ExtTreeMap.ext_getElem?
    intro k
    by_cases hk : key = k <;> simp [ExtTreeMap.getElem?_insert, ExtTreeMap.getElem?_erase, hk]
  · rfl

/-- The last stamp of a key leads to the key, so a use always finds what to stamp anew. -/
theorem restamp_eq_use {r : Recency K} (h : r.Coherent) (key : K) : r.restamp key = r.use key := by
  rw [restamp, insert_stamps_erase, use]
  cases hstamp : r.stamps[key]? with
  | none => simp only [erase, hstamp]
  | some stamp =>
    have horder : r.order[stamp]? = some key := (h.inverse stamp key).mpr hstamp
    simp only [erase, hstamp, horder]

theorem coherent_use {r : Recency K} (h : r.Coherent) (key : K) : (r.use key).Coherent := by
  have he := coherent_erase h key
  have hkey : (r.erase key).stamps[key]? = none := by
    rw [Option.eq_none_iff_forall_ne_some]
    intro stamp hstamp
    exact ((stamps_erase_iff r).mp hstamp).2 rfl
  have hfresh : (r.erase key).order[r.fresh]? = none := by
    rw [Option.eq_none_iff_forall_ne_some]
    intro k horder
    have hbelow := he.below _ _ ((he.inverse _ _).mp horder)
    rw [fresh_erase] at hbelow
    exact Nat.lt_irrefl _ hbelow
  rw [← restamp_eq_use h, restamp]
  constructor
  · intro stamp k
    simp only [ExtTreeMap.getElem?_insert, Std.LawfulEqOrd.compare_eq_iff_eq]
    by_cases hs : r.fresh = stamp <;> by_cases hk : key = k
    · simp [hs, hk]
    · have hnone := fun hstamp => (he.inverse stamp k).mpr hstamp
      simp_all
    · have hnone := fun horder => (he.inverse stamp k).mp horder
      simp_all
    · simp [hs, hk, he.inverse]
  · intro stamp k hstamp
    simp only [ExtTreeMap.getElem?_insert, Std.LawfulEqOrd.compare_eq_iff_eq] at hstamp
    by_cases hk : key = k
    · simp only [hk, if_true, Option.some.injEq] at hstamp
      exact hstamp ▸ Nat.lt_succ_self _
    · simp only [hk, if_false] at hstamp
      have hbelow := he.below stamp k hstamp
      rw [fresh_erase] at hbelow
      exact Nat.lt_succ_of_lt hbelow

theorem mem_toList_iff {r : Recency K} {key : K} :
    key ∈ r.toList ↔ ∃ stamp : Nat, r.order[stamp]? = some key := by
  simp [toList]

theorem mem_toList_iff_mem_stamps {r : Recency K} (h : r.Coherent) {key : K} :
    key ∈ r.toList ↔ key ∈ r.stamps := by
  simp only [mem_toList_iff, h.inverse, ExtTreeMap.mem_iff_isSome_getElem?,
    Option.isSome_iff_exists]

theorem nodup_toList {r : Recency K} (h : r.Coherent) : r.toList.Nodup := by
  rw [toList, List.Nodup, List.pairwise_map]
  apply (Listing.nodup r.order).imp_of_mem
  rintro ⟨stamp, key⟩ ⟨stamp', key'⟩ hp hq hne hkey
  simp only [ExtTreeMap.mem_toList_iff_getElem?_eq_some, h.inverse] at hp hq
  have hstamp : some stamp = some stamp' := hp ▸ hq ▸ congrArg (r.stamps[·]?) hkey
  simp_all

theorem toList_clear (r : Recency K) : r.clear.toList = [] := by simp [clear, toList]

theorem order_toList_erase {r : Recency K} (h : r.Coherent) (key : K) :
    (r.erase key).order.toList = r.order.toList.filter fun p => p.2 ≠ key := by
  apply Listing.toList_eq
  · exact r.order.ordered_keys_toList.filter _
  · intro stamp k
    simp [order_erase_iff h]

theorem toList_erase {r : Recency K} (h : r.Coherent) (key : K) :
    (r.erase key).toList = r.toList.filter (· ≠ key) := by
  rw [toList, order_toList_erase h, toList, List.filter_map]
  rfl

theorem toList_use {r : Recency K} (h : r.Coherent) (key : K) :
    (r.use key).toList = r.toList.filter (· ≠ key) ++ [key] := by
  have hlast : ∀ stamp ∈ (r.erase key).order, compare stamp r.fresh = .lt := by
    intro stamp hstamp
    rw [ExtTreeMap.mem_iff_isSome_getElem?, Option.isSome_iff_exists] at hstamp
    obtain ⟨k, hk⟩ := hstamp
    have he := coherent_erase h key
    rw [Nat.compare_eq_lt, ← fresh_erase r key]
    exact he.below stamp k ((he.inverse stamp k).mp hk)
  rw [← restamp_eq_use h, restamp, toList, Listing.toList_insert_last key hlast, List.map_append,
    ← toList_erase h]
  rfl

theorem first?_eq_head? (r : Recency K) : r.first? = r.order.toList.head? :=
  (Listing.head?_toList r.order).symm

theorem oldest?_eq_head? (r : Recency K) : r.oldest? = r.toList.head? := by
  rw [oldest?, first?_eq_head?, toList, List.head?_map]

theorem popOldest?_of_toList {r : Recency K} (h : r.Coherent) {key : K} {keys : List K}
    (hlist : r.toList = key :: keys) : r.popOldest? = some (key, r.erase key) := by
  obtain ⟨p, rest, hp, rfl, -⟩ := List.map_eq_cons_iff.mp hlist
  have horder : r.order[p.1]? = some p.2 := by
    rw [← ExtTreeMap.mem_toList_iff_getElem?_eq_some, hp]
    exact List.mem_cons_self
  rw [popOldest?, first?_eq_head?, hp, erase, (h.inverse p.1 p.2).mp horder]
  rfl

end TimedCache.Recency
