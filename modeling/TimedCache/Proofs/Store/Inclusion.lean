import TimedCache.Proofs.Store.Readers

/-!
Stores of different sizes. Of two stores that live through the same operations, the one with more
room has every live entry of the other, in the same order and with the same deadlines. The rooms
have to be compared as well: the larger store never holds more in excess of the smaller one than it
has room in excess, or it would give up an entry that the smaller one keeps.
-/
namespace TimedCache

variable {K V : Type}

namespace Live

/-- The first has less room than the second, and less in it. -/
structure Below (a b : Live K V) : Prop where
  lifetime : a.rules.lifetime = b.rules.lifetime
  policy : a.rules.policy = b.rules.policy
  bounded : ∃ m, a.rules.capacity = some m
  room : ∀ m ∈ a.rules.capacity, ∀ n ∈ b.rules.capacity, m ≤ n
  fits : ∀ m ∈ a.rules.capacity, a.line.length ≤ m
  /-- The larger one holds no more in excess than it has room in excess. -/
  excess : ∀ m ∈ a.rules.capacity, ∀ n ∈ b.rules.capacity,
    b.line.length + m ≤ a.line.length + n
  line : a.line.Sublist b.line
  distinct : b.Distinct
  hits : a.hits ≤ b.hits
  reads : a.hits + a.misses = b.hits + b.misses

@[simp] theorem length_evict (f : Live K V) : f.evict.line.length = f.line.length - 1 :=
  List.length_tail

@[simp] theorem length_append (f : Live K V) (i : LiveItem K V) :
    (f.append i).line.length = f.line.length + 1 :=
  List.length_append

theorem length_filter_add_le {α : Type} {xs ys : List α} (h : xs.Sublist ys) (p : α → Bool) :
    (ys.filter p).length + xs.length ≤ (xs.filter p).length + ys.length := by
  have hx := xs.length_eq_length_filter_add p
  have hy := ys.length_eq_length_filter_add p
  have hle := (h.filter fun x => !p x).length_le
  omega

namespace Below

variable {a b : Live K V}

theorem filter (h : a.Below b) (p : LiveItem K V → Bool) :
    { a with line := a.line.filter p }.Below { b with line := b.line.filter p } :=
  { h with
    fits := by
      intro m hm
      exact Nat.le_trans (List.length_filter_le _ _) (h.fits m hm)
    excess := by
      intro m hm n hn
      have hexcess := h.excess m hm n hn
      have hfilter := length_filter_add_le h.line p
      show (b.line.filter p).length + m ≤ (a.line.filter p).length + n
      omega
    line := h.line.filter p
    distinct := h.distinct.sublist (List.filter_sublist.map _) }

theorem drop (h : a.Below b) (now : Instant) : (a.drop now).Below (b.drop now) := h.filter _

theorem evict (h : a.Below b) (hne : a.line ≠ []) : a.evict.Below b.evict :=
  { h with
    fits := by
      intro m hm
      have hfits := h.fits m hm
      rw [length_evict]
      omega
    excess := by
      intro m hm n hn
      have hexcess := h.excess m hm n hn
      have hpos := List.length_pos_of_ne_nil hne
      have hle := h.line.length_le
      rw [length_evict, length_evict]
      omega
    line := h.line.tail
    distinct := distinct_evict h.distinct }

theorem evict_left (h : a.Below b) (hfull : a.isFull = true) (hroom : b.isFull = false) :
    a.evict.Below b :=
  { h with
    fits := by
      intro m hm
      have hfits := h.fits m hm
      rw [length_evict]
      omega
    excess := by
      intro m hm n hn
      obtain ⟨k, hk, hle⟩ := Rules.isFull_iff.mp hfull
      have hkm : k = m := Option.some.inj (hk.symm.trans hm)
      have hlt := Rules.isFull_eq_false_iff.mp hroom n hn
      have hmn := h.room m hm n hn
      rw [length_evict]
      omega
    line := (List.tail_sublist _).trans h.line }

theorem evict_right (h : a.Below b) (hnil : a.line = []) : a.Below b.evict :=
  { h with
    excess := by
      intro m hm n hn
      have hexcess := h.excess m hm n hn
      rw [length_evict]
      omega
    line := hnil ▸ List.nil_sublist _
    distinct := distinct_evict h.distinct }

theorem isFull_eq_false (h : a.Below b) (hroom : a.isFull = false) : b.isFull = false := by
  obtain ⟨m, hm⟩ := h.bounded
  have hlt := Rules.isFull_eq_false_iff.mp hroom m hm
  apply Rules.isFull_eq_false_iff.mpr
  intro n hn
  have hexcess := h.excess m hm n hn
  omega

theorem hit (h : a.Below b) : a.hit.Below b.hit :=
  { h with
    hits := Nat.succ_le_succ h.hits
    reads := by
      have hreads := h.reads
      simp only [Live.hit]
      omega }

theorem miss (h : a.Below b) : a.miss.Below b.miss :=
  { h with reads := congrArg (· + 1) h.reads }

theorem miss_hit (h : a.Below b) : a.miss.Below b.hit :=
  { h with
    hits := Nat.le_succ_of_le h.hits
    reads := by
      have hreads := h.reads
      simp only [Live.hit, Live.miss]
      omega }

variable [CacheKey K]

theorem erase (h : a.Below b) (key : K) : (a.erase key).Below (b.erase key) := h.filter _

theorem find? (h : a.Below b) {key : K} {i : LiveItem K V} (hi : a.find? key = some i) :
    b.find? key = some i := by
  have hmem := List.mem_of_find?_eq_some hi
  rw [find?_eq_some_iff h.distinct]
  exact ⟨h.line.subset hmem, by simpa using List.find?_some hi⟩

theorem find?_eq_none (h : a.Below b) {key : K} (hkey : b.find? key = none) :
    a.find? key = none := by
  rw [find?_eq_none_iff] at hkey ⊢
  exact fun i hi => hkey i (h.line.subset hi)

theorem append (h : a.Below b) {i : LiveItem K V} (hnew : b.find? i.key = none)
    (hroom : ∀ m ∈ a.rules.capacity, a.line.length < m) : (a.append i).Below (b.append i) :=
  { h with
    fits := by
      intro m hm
      have hlt := hroom m hm
      rw [length_append]
      omega
    excess := by
      intro m hm n hn
      have hexcess := h.excess m hm n hn
      rw [length_append, length_append]
      omega
    line := h.line.append_right [i]
    distinct := distinct_append h.distinct hnew }

theorem append_right (h : a.Below b) {i : LiveItem K V} (hnew : b.find? i.key = none)
    (hroom : ∀ m ∈ a.rules.capacity, ∀ n ∈ b.rules.capacity,
      b.line.length + m < a.line.length + n) : a.Below (b.append i) :=
  { h with
    excess := by
      intro m hm n hn
      have hlt := hroom m hm n hn
      rw [length_append]
      omega
    line := h.line.trans (List.sublist_append_left _ _)
    distinct := distinct_append h.distinct hnew }

theorem insertFor_of_zero (h : a.Below b) (hzero : a.rules.capacity = some 0) (key : K) (value : V)
    (life : Duration) (now : Instant) :
    (a.insertFor key value life now).Below (b.insertFor key value life now) := by
  have hnil : a.line = [] := List.eq_nil_of_length_eq_zero (Nat.le_zero.mp (h.fits 0 hzero))
  have hnone : a.find? key = none := by simp [find?_eq_none_iff, hnil]
  have he := h.erase key
  have hnew := b.find?_erase key
  rw [erase_eq_self hnone] at he
  -- The eviction that the smaller one counts is not compared.
  suffices hb : a.Below (b.insertFor key value life now) by
    rw [Live.insertFor_of_zero hzero]
    exact { hb with }
  by_cases hb : b.rules.capacity = some 0
  · rw [Live.insertFor_of_zero hb]
    exact { h with }
  · cases hfull : (b.erase key).isFull with
    | false =>
      rw [Live.insertFor_of_room hb hfull]
      apply he.append_right hnew
      intro m hm n hn
      have hm0 : 0 = m := Option.some.inj (hzero.symm.trans hm)
      have hlt := Rules.isFull_eq_false_iff.mp hfull n hn
      omega
    | true =>
      rw [Live.insertFor_of_full hb hfull]
      apply (he.evict_right hnil).append_right (find?_evict hnew)
      intro m hm n hn
      have hexcess := he.excess m hm n hn
      have hm0 : 0 = m := Option.some.inj (hzero.symm.trans hm)
      have hn0 : n ≠ 0 := fun hn0 => hb (hn0 ▸ hn)
      rw [length_evict]
      rw [hnil, List.length_nil] at hexcess ⊢
      omega

theorem insertFor (h : a.Below b) (key : K) (value : V) (life : Duration) (now : Instant) :
    (a.insertFor key value life now).Below (b.insertFor key value life now) := by
  by_cases ha : a.rules.capacity = some 0
  · exact h.insertFor_of_zero ha key value life now
  · have hb : b.rules.capacity ≠ some 0 := by
      obtain ⟨m, hm⟩ := h.bounded
      intro hn
      have hmn := h.room m hm 0 hn
      have hm0 : m = 0 := by omega
      exact ha (hm0 ▸ hm)
    have he := h.erase key
    have hnew := b.find?_erase key
    cases hfulla : (a.erase key).isFull with
    | false =>
      rw [Live.insertFor_of_room ha hfulla, Live.insertFor_of_room hb (he.isFull_eq_false hfulla)]
      exact he.append hnew (Rules.isFull_eq_false_iff.mp hfulla)
    | true =>
      obtain ⟨k, hk, hle⟩ := Rules.isFull_iff.mp hfulla
      have hk0 : k ≠ 0 := fun hk0 => ha (hk0 ▸ hk)
      have hpos : 0 < (a.erase key).line.length := by omega
      have hroom : ∀ m ∈ (a.erase key).evict.rules.capacity,
          (a.erase key).evict.line.length < m := by
        intro m hm
        have hfits := he.fits m hm
        rw [length_evict]
        omega
      rw [Live.insertFor_of_full ha hfulla]
      cases hfullb : (b.erase key).isFull with
      | false =>
        rw [Live.insertFor_of_room hb hfullb]
        exact (he.evict_left hfulla hfullb).append hnew hroom
      | true =>
        rw [Live.insertFor_of_full hb hfullb]
        exact (he.evict (List.ne_nil_of_length_pos hpos)).append (find?_evict hnew) hroom

theorem get (h : a.Below b) (key : K) (now : Instant) :
    (a.get key now).2.Below (b.get key now).2 := by
  have he := h.erase key
  cases hb : b.find? key with
  | none =>
    rw [get_of_none hb, get_of_none (h.find?_eq_none hb)]
    exact h.miss
  | some i =>
    have hkey := ((find?_eq_some_iff h.distinct).mp hb).2
    have hnew : (b.erase key).find? (i.read b.rules.policy now).key = none := by
      rw [LiveItem.key_read, hkey]
      exact b.find?_erase key
    rw [get_of_some hb]
    cases ha : a.find? key with
    | none =>
      rw [get_of_none ha]
      rw [erase_eq_self ha] at he
      apply (he.append_right hnew ?_).miss_hit
      intro m hm n hn
      have hexcess := h.excess m hm n hn
      have hlt := length_erase_lt hb
      omega
    | some j =>
      have hij : i = j := Option.some.inj (hb.symm.trans (h.find? ha))
      subst hij
      rw [get_of_some ha, h.policy]
      apply (he.append hnew ?_).hit
      intro m hm
      have hfits := h.fits m hm
      have hlt := length_erase_lt ha
      omega

theorem step (h : a.Below b) (now : Instant) (op : Store.Op K V) :
    (a.step now op).2.Below (b.step now op).2 := by
  have hd := h.drop now
  cases op with
  | insert key value =>
    show ((a.drop now).insertFor key value a.rules.lifetime now).Below _
    rw [h.lifetime]
    exact hd.insertFor key value b.rules.lifetime now
  | insertFor key value life => exact hd.insertFor key value life now
  | get key => exact hd.get key now
  | erase key => exact h.erase key
  | clear =>
    have hnone := h.filter fun _ => false
    simp only [List.filter_false] at hnone
    exact hnone
  | _ => exact hd

theorem after (h : a.Below b) (ops : List (Instant × Store.Op K V)) :
    (a.after ops).Below (b.after ops) := by
  induction ops generalizing a b with
  | nil => exact h
  | cons first rest ih => exact ih (h.step first.1 first.2)

theorem get_eq_some (h : a.Below b) {key : K} {value : V} {now : Instant}
    (hget : (a.get key now).1 = some value) : (b.get key now).1 = some value := by
  cases ha : a.find? key with
  | none =>
    rw [get_of_none ha] at hget
    cases hget
  | some i =>
    rw [get_of_some ha] at hget
    rw [get_of_some (h.find? ha)]
    exact hget

theorem items_subset (h : a.Below b) :
    Item.listing (a.line.map LiveItem.toItem) ⊆ Item.listing (b.line.map LiveItem.toItem) := by
  intro item hitem
  rw [(Item.perm_listing _).mem_iff] at hitem ⊢
  exact (h.line.map LiveItem.toItem).subset hitem

end Below

theorem below_empty {m : Nat} {capacity : Option Nat} (h : ∀ n ∈ capacity, m ≤ n)
    (lifetime : Duration) (policy : Policy) :
    ({ rules := ⟨some m, lifetime, policy⟩ } : Live K V).Below
      { rules := ⟨capacity, lifetime, policy⟩ } where
  lifetime := rfl
  policy := rfl
  bounded := ⟨m, rfl⟩
  room _ hm n hn := Option.some.inj hm ▸ h n hn
  fits m' _ := Nat.zero_le m'
  excess _ hm n hn := Option.some.inj hm ▸ Nat.add_le_add_left (h n hn) 0
  line := .slnil
  distinct := List.nodup_nil
  hits := Nat.le_refl _
  reads := rfl

end Live

namespace Store

variable [CacheKey K]

/-- More room never makes readers worse off. Every part of a run is a run, so this holds at each of
its steps. -/
theorem reads_of_more_room (m : Nat) (capacity : Option Nat) (lifetime : Duration) (policy : Policy)
    (ops : List (Instant × Op K V)) (hm : ∀ n ∈ capacity, m ≤ n) (h : Chronological ops) :
    let small := ((empty (some m) lifetime policy : Store K V).run ops).2
    let large := ((empty capacity lifetime policy : Store K V).run ops).2
    small.counters.hits ≤ large.counters.hits ∧ large.counters.misses ≤ small.counters.misses ∧
      ∀ now, Until now ops →
        (∀ key value, (small.get key now).1 = some value → (large.get key now).1 = some value) ∧
        (∀ key, small.contains key now = true → large.contains key now = true) ∧
        small.items now ⊆ large.items now := by
  intro small large
  have hbelow := (Live.below_empty (K := K) (V := V) hm lifetime policy).after ops
  have hsmall {t : Instant} (ht : Until t ops) := shows_run_empty (some m) lifetime policy h ht
  have hlarge {t : Instant} (ht : Until t ops) := shows_run_empty capacity lifetime policy h ht
  obtain ⟨last, hlast⟩ := exists_until ops
  have hhits := hbelow.hits
  have hreads := hbelow.reads
  rw [← (hsmall hlast).hits, ← (hlarge hlast).hits] at hhits hreads
  rw [← (hsmall hlast).misses, ← (hlarge hlast).misses] at hreads
  have hmisses : large.counters.misses ≤ small.counters.misses := by
    show ((empty capacity lifetime policy).run ops).2.counters.misses ≤
      ((empty (some m) lifetime policy).run ops).2.counters.misses
    omega
  refine ⟨hhits, hmisses, ?_⟩
  intro now hnow
  have hnow' : now ≤ now := Nat.le_refl _
  have hs := hsmall hnow
  have hl := hlarge hnow
  have hd := hbelow.drop now
  refine ⟨?_, ?_, ?_⟩
  · intro key value hget
    rw [hs.get hnow'] at hget
    rw [hl.get hnow']
    exact hd.get_eq_some hget
  · intro key hcontains
    rw [hs.contains hnow', Option.isSome_iff_exists] at hcontains
    obtain ⟨i, hi⟩ := hcontains
    rw [hl.contains hnow', hd.find? hi]
    rfl
  · rw [hs.items hnow', hl.items hnow']
    exact hd.items_subset

/-- The store of one entry gives up what the store of two still has. -/
theorem reads_of_more_room_two :
    let ops : List (Instant × Op Nat Nat) :=
      [(.origin, .insertFor 1 10 (.ofSeconds 5)), (.origin, .insertFor 2 20 (.ofSeconds 5)),
        (.origin, .get 1)]
    let small := ((empty (some 1) .zero .fixed : Store Nat Nat).run ops).2
    let large := ((empty (some 2) .zero .fixed : Store Nat Nat).run ops).2
    Chronological ops ∧ Until .origin ops ∧ small.counters.hits = 0 ∧ large.counters.hits = 1 ∧
      (small.get 2 .origin).1 = some 20 ∧ (large.get 2 .origin).1 = some 20 := by
  intro ops small large
  have hchron : Chronological ops := by decide
  have huntil : Until .origin ops := by decide
  have hs := shows_run_empty (some 1) .zero .fixed hchron huntil
  have hl := shows_run_empty (some 2) .zero .fixed hchron huntil
  have hsmall : (small.get 2 .origin).1 = some 20 :=
    (hs.get (Nat.le_refl _) 2).trans (by decide)
  have hreads := reads_of_more_room 1 (some 2) .zero .fixed ops (by decide) hchron
  exact ⟨hchron, huntil, hs.hits.trans (by decide), hl.hits.trans (by decide), hsmall,
    (hreads.2.2 .origin huntil).1 2 20 hsmall⟩

end Store
end TimedCache
