import Mathlib.Data.List.Nodup
import TimedCache.Key

/-!
Ordered maps as lists. The list of a map has its pairs in the order of the keys, and no other list
in that order has the same pairs; so what an operation does to look-ups fixes its list.
-/
namespace TimedCache

open Std (ExtTreeMap)

/-- Keys that compare as equal are equal, so equality of keys can be decided. -/
instance (priority := low) CacheKey.instDecidableEq {K : Type} [CacheKey K] : DecidableEq K :=
  fun a b => decidable_of_iff (compare a b = .eq) Std.LawfulEqOrd.compare_eq_iff_eq

namespace Listing

theorem nodup_filter_append {α : Type} [DecidableEq α] {keys : List α} (h : keys.Nodup) (key : α) :
    (keys.filter (· ≠ key) ++ [key]).Nodup := by
  rw [List.nodup_append]
  refine ⟨h.filter _, List.nodup_singleton key, ?_⟩
  intro a ha b hb
  rw [List.mem_singleton.mp hb]
  simpa using List.of_mem_filter ha

variable {α β : Type} [Ord α] [Std.TransOrd α]

theorem nodup_keys (m : ExtTreeMap α β) : (m.toList.map Prod.fst).Nodup := by
  rw [ExtTreeMap.map_fst_toList_eq_keys]
  exact m.nodup_keys

theorem nodup (m : ExtTreeMap α β) : m.toList.Nodup := by
  apply List.Pairwise.of_map Prod.fst _ (nodup_keys m)
  intro a b hne hab
  exact hne (congrArg Prod.fst hab)

variable [Std.LawfulEqOrd α]

theorem mem_keys_iff {m : ExtTreeMap α β} {key : α} : key ∈ m.toList.map Prod.fst ↔ key ∈ m := by
  rw [ExtTreeMap.map_fst_toList_eq_keys, ExtTreeMap.mem_keys]

theorem toList_eq {m : ExtTreeMap α β} {l : List (α × β)}
    (hl : l.Pairwise fun a b => compare a.1 b.1 = .lt)
    (h : ∀ key value, (key, value) ∈ l ↔ m[key]? = some value) : m.toList = l := by
  have hperm : m.toList.Perm l := by
    rw [List.perm_ext_iff_of_nodup (nodup m)]
    · rintro ⟨key, value⟩
      rw [ExtTreeMap.mem_toList_iff_getElem?_eq_some, h]
    · apply hl.imp
      intro a b hlt hab
      simp [hab] at hlt
  refine hperm.eq_of_pairwise ?_ m.ordered_keys_toList hl
  intro a b _ _ hab hba
  rw [Std.OrientedOrd.eq_swap, hba] at hab
  cases hab

theorem erase_comm (m : ExtTreeMap α β) (a b : α) :
    (m.erase a).erase b = (m.erase b).erase a := by
  apply ExtTreeMap.ext_getElem?
  intro k
  simp only [ExtTreeMap.getElem?_erase]
  split <;> split <;> rfl

theorem toList_insert_last {m : ExtTreeMap α β} {key : α} (value : β)
    (h : ∀ k ∈ m, compare k key = .lt) :
    (m.insert key value).toList = m.toList ++ [(key, value)] := by
  have hnew : m[key]? = none := by
    apply ExtTreeMap.getElem?_eq_none
    intro hkey
    simpa using h key hkey
  apply toList_eq
  · rw [List.pairwise_append]
    refine ⟨m.ordered_keys_toList, List.pairwise_singleton _ _, ?_⟩
    intro a ha b hb
    rw [List.mem_singleton] at hb
    rw [hb]
    exact h a.1 (mem_keys_iff.mp (List.mem_map_of_mem ha))
  · intro k v
    rw [ExtTreeMap.getElem?_insert]
    by_cases hk : key = k
    · subst hk
      simp [hnew, eq_comm]
    · simp [hk, Ne.symm hk]

theorem head?_toList (m : ExtTreeMap α β) :
    m.toList.head? = m.minKey?.bind fun key => m[key]?.map fun value => (key, value) := by
  cases hm : m.toList with
  | nil =>
    rw [ExtTreeMap.toList_eq_nil_iff] at hm
    simp [hm]
  | cons p rest =>
    have hget : m[p.1]? = some p.2 := by
      rw [← ExtTreeMap.mem_toList_iff_getElem?_eq_some, hm]
      exact List.mem_cons_self
    have hmin : m.minKey? = some p.1 := by
      rw [ExtTreeMap.minKey?_eq_some_iff_mem_and_forall]
      refine ⟨ExtTreeMap.mem_iff_isSome_getElem?.mpr (by simp [hget]), ?_⟩
      intro k hk
      have hsorted := m.ordered_keys_toList
      rw [← mem_keys_iff, hm, List.map_cons, List.mem_cons, List.mem_map] at hk
      rw [hm, List.pairwise_cons] at hsorted
      obtain rfl | ⟨q, hq, rfl⟩ := hk
      · exact Std.ReflCmp.isLE_rfl
      · simp [hsorted.1 q hq]
    simp [hmin, hget]

variable [DecidableEq α]

theorem toList_erase (m : ExtTreeMap α β) (key : α) :
    (m.erase key).toList = m.toList.filter fun p => p.1 ≠ key := by
  apply toList_eq
  · exact m.ordered_keys_toList.filter _
  · intro k v
    rw [ExtTreeMap.getElem?_erase]
    by_cases hk : key = k
    · simp [hk]
    · simp [hk, Ne.symm hk]

theorem toList_insert_perm (m : ExtTreeMap α β) (key : α) (value : β) :
    (m.insert key value).toList.Perm ((m.toList.filter fun p => p.1 ≠ key) ++ [(key, value)]) := by
  have hnodup : ((m.toList.filter fun p => p.1 ≠ key) ++ [(key, value)]).Nodup := by
    rw [List.nodup_append]
    refine ⟨(nodup m).filter _, List.nodup_singleton _, ?_⟩
    intro a ha b hb hab
    rw [List.mem_singleton] at hb
    simp [hab, hb] at ha
  rw [List.perm_ext_iff_of_nodup (nodup _) hnodup]
  rintro ⟨k, v⟩
  rw [ExtTreeMap.mem_toList_iff_getElem?_eq_some, ExtTreeMap.getElem?_insert]
  by_cases hk : key = k
  · simp [hk, eq_comm]
  · simp [hk, Ne.symm hk]

end Listing
end TimedCache
