import Mathlib.Data.List.Induction

/-!
Orders of last uses. A past is a list of happenings, each of which may be a use of one key, and
keys are in order if each was used for the last time before the next one was.
-/
namespace TimedCache.Uses

variable {α K : Type} {used? : α → Option K} {past : List α} {a b key : K} {x : α}
  {keys rest : List K}

/-- Since `a` was used for the last time, `b` was used. -/
def Earlier (used? : α → Option K) (past : List α) (a b : K) : Prop :=
  ∃ before last since, past = before ++ last :: since ∧ used? last = some a ∧
    (∀ y ∈ since, used? y ≠ some a) ∧ ∃ y ∈ since, used? y = some b

theorem exists_last (h : ∃ y ∈ past, used? y = some a) :
    ∃ before last since, past = before ++ last :: since ∧ used? last = some a ∧
      ∀ y ∈ since, used? y ≠ some a := by
  induction past using List.reverseRecOn with
  | nil => simp at h
  | append_singleton past x ih =>
    by_cases hx : used? x = some a
    · exact ⟨past, x, [], rfl, hx, by simp⟩
    · have hpast : ∃ y ∈ past, used? y = some a := by simpa [hx] using h
      obtain ⟨before, last, since, rfl, hlast, hsince⟩ := ih hpast
      exact ⟨before, last, since ++ [x], by simp, hlast,
        List.forall_mem_append.mpr ⟨hsince, List.forall_mem_singleton.mpr hx⟩⟩

theorem Earlier.concat (h : Earlier used? past a b) (hx : used? x ≠ some a) :
    Earlier used? (past ++ [x]) a b := by
  obtain ⟨before, last, since, rfl, hlast, hsince, y, hy, hb⟩ := h
  exact ⟨before, last, since ++ [x], by simp, hlast,
    List.forall_mem_append.mpr ⟨hsince, List.forall_mem_singleton.mpr hx⟩, y,
    List.mem_append_left _ hy, hb⟩

theorem earlier_concat (ha : ∃ y ∈ past, used? y = some a) (hx : used? x = some b) (hne : a ≠ b) :
    Earlier used? (past ++ [x]) a b := by
  have hnot : used? x ≠ some a := by
    rw [hx, ne_eq, Option.some.injEq]
    exact hne.symm
  obtain ⟨before, last, since, rfl, hlast, hsince⟩ := exists_last ha
  exact ⟨before, last, since ++ [x], by simp, hlast,
    List.forall_mem_append.mpr ⟨hsince, List.forall_mem_singleton.mpr hnot⟩, x, by simp, hx⟩

/-- The keys have all been used, and come in the order of their last uses. -/
structure InOrder (used? : α → Option K) (past : List α) (keys : List K) : Prop where
  used : ∀ key ∈ keys, ∃ y ∈ past, used? y = some key
  order : keys.Pairwise (Earlier used? past)

theorem inOrder_nil (used? : α → Option K) (past : List α) : InOrder used? past [] :=
  ⟨by simp, List.Pairwise.nil⟩

namespace InOrder

theorem sublist (h : InOrder used? past keys) (hrest : rest.Sublist keys) :
    InOrder used? past rest :=
  ⟨fun key hkey => h.used key (hrest.subset hkey), h.order.sublist hrest⟩

theorem concat (h : InOrder used? past keys) (hx : ∀ key ∈ keys, used? x ≠ some key) :
    InOrder used? (past ++ [x]) keys := by
  refine ⟨?_, h.order.imp_of_mem fun ha _ hab => hab.concat (hx _ ha)⟩
  intro key hkey
  obtain ⟨y, hy, hused⟩ := h.used key hkey
  exact ⟨y, List.mem_append_left _ hy, hused⟩

theorem use (h : InOrder used? past keys) (hx : used? x = some key) (hnew : key ∉ keys) :
    InOrder used? (past ++ [x]) (keys ++ [key]) := by
  have hne : ∀ k ∈ keys, k ≠ key := fun k hk hkey => hnew (hkey ▸ hk)
  have hold : InOrder used? (past ++ [x]) keys := by
    apply h.concat
    intro k hk
    rw [hx, ne_eq, Option.some.injEq]
    exact (hne k hk).symm
  constructor
  · intro k hk
    rcases List.mem_append.mp hk with hk | hk
    · exact hold.used k hk
    · rw [List.mem_singleton.mp hk]
      exact ⟨x, by simp, hx⟩
  · rw [List.pairwise_append]
    refine ⟨hold.order, List.pairwise_singleton _ _, ?_⟩
    intro k hk k' hk'
    rw [List.mem_singleton.mp hk']
    exact earlier_concat (h.used k hk) hx (hne k hk)

end InOrder
end TimedCache.Uses
