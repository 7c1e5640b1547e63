import Mathlib.Data.List.Perm.Basic
import TimedCache.Proofs.Store.Writes

/-!
Sweeps of a store. A sweep takes out what is dead and leaves the rest as it was, in the same order
of uses. It takes the keys out one by one, and it makes no difference in which order; so two sweeps
leave what one leaves at the later of their instants, whichever of the two comes first.
-/
namespace TimedCache

open Std (ExtTreeMap)

theorem Entry.isDead_max {V : Type} (e : Entry V) (t u : Instant) :
    e.isDead (max t u) = (e.isDead t || e.isDead u) := by
  unfold isDead
  cases e.deadline with
  | none => rfl
  | some deadline =>
    rw [Bool.eq_iff_iff]
    simp only [Bool.or_eq_true, decide_eq_true_eq, Instant.le_iff, Instant.nanos_max]
    omega

namespace Store

variable {K V : Type} [CacheKey K] {s : Store K V} {l : Line K V}

theorem discard_comm (s : Store K V) (a b : K) :
    (s.discard a).discard b = (s.discard b).discard a := by
  simp [discard, reorder, noteSize, note, size, Function.comp_def, Recency.erase_comm _ a b,
    Listing.erase_comm s.entries a b]

/-- Whatever is counted apart from the number of entries can be counted before or after. -/
theorem discard_note (s : Store K V) (key : K) {f : Counters → Counters}
    (hhold : ∀ c n, f (c.hold n) = (f c).hold n) :
    (s.note f).discard key = (s.discard key).note f := by
  simp [discard, reorder, noteSize, note, size, hhold]

theorem bury_note (s : Store K V) (key : K) {f : Counters → Counters}
    (hhold : ∀ c n, f (c.hold n) = (f c).hold n) (hexpire : ∀ c, f (c.expire 1) = (f c).expire 1) :
    (s.note f).bury key = (s.bury key).note f := by
  rw [bury_eq, bury_eq, entries_note, discard_note s key hhold]
  split
  · simp only [note, hexpire]
  · rfl

theorem buryAll_note (s : Store K V) (keys : List K) {f : Counters → Counters}
    (hhold : ∀ c n, f (c.hold n) = (f c).hold n) (hexpire : ∀ c, f (c.expire 1) = (f c).expire 1) :
    keys.foldl bury (s.note f) = (keys.foldl bury s).note f := by
  induction keys generalizing s with
  | nil => rfl
  | cons key keys ih => rw [List.foldl_cons, bury_note s key hhold hexpire, ih, List.foldl_cons]

theorem bury_comm (s : Store K V) (a b : K) : (s.bury a).bury b = (s.bury b).bury a := by
  by_cases hab : a = b
  · rw [hab]
  · have hnote (s : Store K V) (key : K) :
        (s.note (·.expire 1)).discard key = (s.discard key).note (·.expire 1) :=
      s.discard_note key fun _ _ => rfl
    have hcomm := s.discard_comm a b
    simp only [bury_eq]
    cases ha : s.entries.contains a <;> cases hb : s.entries.contains b <;>
      simp [ha, hb, hab, Ne.symm hab, hnote, hcomm]

instance : RightCommutative (bury : Store K V → K → Store K V) := ⟨bury_comm⟩

theorem entries_bury (s : Store K V) (key k : K) :
    (s.bury key).entries[k]? = if k = key then none else s.entries[k]? := by
  rw [bury_eq]
  split
  · rw [entries_note, entries_discard, ExtTreeMap.getElem?_erase]
    by_cases hk : key = k
    · simp [hk]
    · simp [hk, Ne.symm hk]
  · rename_i hkey
    split
    · rename_i hk
      rw [hk, ExtTreeMap.getElem?_eq_none]
      simpa using hkey
    · rfl

theorem entries_buryAll (s : Store K V) (keys : List K) (k : K) :
    (keys.foldl bury s).entries[k]? = if k ∈ keys then none else s.entries[k]? := by
  induction keys generalizing s with
  | nil => simp
  | cons key keys ih =>
    rw [List.foldl_cons, ih, entries_bury]
    by_cases hkey : k = key <;> simp [hkey]

theorem entries_buryDead (s : Store K V) (t : Instant) (key : K) :
    (s.buryDead t).2.entries[key]? = s.entries[key]?.filter fun e => !e.isDead t := by
  rw [buryDead_snd, entries_buryAll]
  simp only [mem_deadKeys_iff]
  cases s.entries[key]? with
  | none => simp
  | some e => cases hdead : e.isDead t <;> simp [Option.filter_some, hdead]

theorem size_eq_liveSize_add (s : Store K V) (now : Instant) :
    s.size = s.liveSize now + s.entries.toList.countP fun q => q.2.isDead now := by
  rw [size, ← ExtTreeMap.length_toList,
    List.length_eq_countP_add_countP (fun q => !q.2.isDead now)]
  simp [liveSize]

theorem buryDead_fst (s : Store K V) (now : Instant) :
    (s.buryDead now).1 = s.entries.toList.countP fun q => q.2.isDead now := by
  show (s.deadKeys now).length = _
  rw [deadKeys, List.length_map, ← List.countP_eq_length_filter]
  rfl

theorem Arranged.map_toList {entries : List (K × Entry V)} (h : s.Arranged entries) :
    s.recency?.map Recency.toList = s.rules.capacity.map fun _ => entries.map Prod.fst := by
  cases hb : s.bound with
  | none => simp [rules, capacity?, recency?, hb]
  | some b => simp [rules, capacity?, recency?, hb, h.order b.recency (by simp [recency?, hb])]

/-- What `s'` has is what `s` had less the `n` entries that were dead at `t`: each of the others as
it was, and in the same order of uses. The dead are counted, and the sweep, and nothing else. -/
structure Swept (s s' : Store K V) (n : Nat) (t : Instant) : Prop where
  rules : s'.rules = s.rules
  entries : ∀ key : K, s'.entries[key]? = s.entries[key]?.filter fun e => !e.isDead t
  order : s'.recency?.map Recency.toList =
    s.recency?.map fun r => r.toList.filter fun key => s'.entries.contains key
  size : s'.size + n = s.size
  dead : s.liveSize t + n = s.size
  living : s'.liveSize t = s'.size
  counters : s'.counters = ((s.counters.expire n).sweep).hold s'.size

theorem swept_sweep (h : s.Listed l) (t : Instant) : s.Swept (s.sweep t).2 (s.sweep t).1 t := by
  have h' : (s.sweep t).2.Listed ((l.buryDead t).2.note (·.sweep)) := (listed_step h t .sweep).2
  have hn : (s.sweep t).1 = (l.buryDead t).1 := (h.buryDead t).1
  have hrules : (s.sweep t).2.rules = s.rules := s.rules_buryDead t
  have hentries := s.entries_buryDead t
  have hsize : (s.sweep t).2.size = s.liveSize t := by
    rw [h'.arranged.size, h.liveSize]
    rfl
  have hdead : s.liveSize t + (s.sweep t).1 = s.size := by
    rw [s.size_eq_liveSize_add t, ← s.buryDead_fst t]
    rfl
  refine ⟨hrules, hentries, ?_, hsize ▸ hdead, hdead, ?_, ?_⟩
  · have hstays : (Line.living l.entries t).map Prod.fst =
        (l.entries.map Prod.fst).filter fun key => (s.sweep t).2.entries.contains key := by
      rw [List.filter_map]
      apply congrArg (List.map Prod.fst)
      apply List.filter_congr
      intro p hp
      have hp' : (s.sweep t).2.entries[p.1]? = _ := hentries p.1
      rw [Function.comp_apply, ExtTreeMap.contains_eq_isSome_getElem?, hp',
        h.arranged.mem_iff.mp hp]
      cases hover : p.2.isDead t <;> simp [Option.filter_some, hover]
    calc (s.sweep t).2.recency?.map Recency.toList
      _ = s.rules.capacity.map fun _ => (Line.living l.entries t).map Prod.fst := by
        rw [h'.arranged.map_toList, hrules]
        rfl
      _ = (s.recency?.map Recency.toList).map
          (List.filter fun key => (s.sweep t).2.entries.contains key) := by
        rw [h.arranged.map_toList, Option.map_map, hstays]
        rfl
      _ = _ := Option.map_map _ _ _
  · rw [hsize, h'.liveSize, h.liveSize]
    simp [Line.note, Line.buryDead, Line.living]
  · rw [h'.counters, h.counters, hn, h'.arranged.size]
    rfl

/-- What one sweep takes out and what the next one does is what one takes out at the later of their
instants. -/
theorem deadKeys_append_perm (s : Store K V) (t u : Instant) :
    (s.deadKeys t ++ (s.buryDead t).2.deadKeys u).Perm (s.deadKeys (max t u)) := by
  rw [List.perm_ext_iff_of_nodup ?_ (s.nodup_deadKeys _)]
  · intro key
    rw [List.mem_append]
    simp only [mem_deadKeys_iff, entries_buryDead, Entry.isDead_max]
    cases s.entries[key]? with
    | none => simp
    | some e => cases hdead : e.isDead t <;> simp [Option.filter_some, hdead]
  · apply (s.nodup_deadKeys t).append ((s.buryDead t).2.nodup_deadKeys u)
    intro key hfirst hsecond
    rw [mem_deadKeys_iff] at hfirst hsecond
    obtain ⟨e, he, hdead⟩ := hfirst
    simp [entries_buryDead, he, Option.filter_some, hdead] at hsecond

theorem sweep_sweep (s : Store K V) (t u : Instant) :
    ((s.sweep t).2.sweep u).2 = (s.sweep (max t u)).2.note (·.sweep) ∧
      (s.sweep t).1 + ((s.sweep t).2.sweep u).1 = (s.sweep (max t u)).1 := by
  have hkeys := s.deadKeys_append_perm t u
  constructor
  · have hnote := (s.buryDead t).2.buryAll_note ((s.buryDead t).2.deadKeys u) (f := (·.sweep))
      (fun _ _ => rfl) fun _ => rfl
    have hall : (s.deadKeys (max t u)).foldl bury s =
        ((s.buryDead t).2.deadKeys u).foldl bury (s.buryDead t).2 := by
      rw [← hkeys.foldl_eq, List.foldl_append, buryDead_snd]
    show (((s.buryDead t).2.deadKeys u).foldl bury
        ((s.buryDead t).2.note (·.sweep))).note (·.sweep) =
      (((s.deadKeys (max t u)).foldl bury s).note (·.sweep)).note (·.sweep)
    rw [hnote, hall]
  · have hlength := hkeys.length_eq
    rw [List.length_append] at hlength
    exact hlength

/-- Whatever has led to a store, a sweep of it takes out what is dead and nothing else. A second
sweep, at an earlier or a later instant, leaves the very store that one sweep leaves at the later of
the two, but for the one sweep more that is counted, and the two take out as many entries. -/
theorem sweeps_compose (capacity : Option Nat) (lifetime : Duration) (policy : Policy)
    (ops : List (Instant × Op K V)) (t u : Instant) :
    let s := ((empty capacity lifetime policy : Store K V).run ops).2
    let (first, s₁) := s.sweep t
    let (second, s₂) := s₁.sweep u
    let (both, s') := s.sweep (max t u)
    s.Swept s₁ first t ∧ s₂ = s'.note (·.sweep) ∧ first + second = both := by
  intro s
  have h : s.Listed _ := (listed_run (listed_empty capacity lifetime policy) ops).2
  exact ⟨swept_sweep h t, s.sweep_sweep t u⟩

end Store
end TimedCache
