import TimedCache.Proofs.Recency
import TimedCache.Proofs.Store.Line

/-!
Stores and the lists that stand for them. Each part of an operation does to the list what it does
to the maps of the store, so the two give the same answers for ever.
-/
namespace TimedCache.Store

open Std (ExtTreeMap)
open Line (without living)

variable {K V : Type} [CacheKey K]

def rules (s : Store K V) : Rules := ⟨s.capacity?, s.lifetime, s.policy⟩

@[simp] theorem rules_note (s : Store K V) (f : Counters → Counters) :
    (s.note f).rules = s.rules := rfl

@[simp] theorem rules_noteSize (s : Store K V) : s.noteSize.rules = s.rules := rfl

@[simp] theorem rules_reorder (s : Store K V) (f : Recency K → Recency K) :
    (s.reorder f).rules = s.rules := by
  rw [rules, capacity?_reorder]
  rfl

@[simp] theorem rules_place (s : Store K V) (key : K) (e : Entry V) :
    (s.place key e).rules = s.rules := rules_reorder _ _

@[simp] theorem rules_discard (s : Store K V) (key : K) : (s.discard key).rules = s.rules :=
  rules_reorder { s with entries := s.entries.erase key } (·.erase key)

@[simp] theorem tally_discard (s : Store K V) (key : K) :
    (s.discard key).tally = s.tally.hold (s.discard key).size := rfl

@[simp] theorem rules_erase (s : Store K V) (key : K) : (s.erase key).2.rules = s.rules := by
  unfold erase
  split
  · exact rules_discard s key
  · rfl

theorem bury_eq (s : Store K V) (key : K) :
    s.bury key = if s.entries.contains key then (s.discard key).note (·.expire 1) else s := by
  unfold bury erase
  by_cases hkey : s.entries.contains key <;> simp [hkey]

@[simp] theorem rules_bury (s : Store K V) (key : K) : (s.bury key).rules = s.rules := by
  rw [bury_eq]
  split
  · exact rules_discard s key
  · rfl

theorem buryDead_snd (s : Store K V) (now : Instant) :
    (s.buryDead now).2 = (s.deadKeys now).foldl bury s := rfl

@[simp] theorem rules_buryDead (s : Store K V) (now : Instant) :
    (s.buryDead now).2.rules = s.rules := by
  rw [buryDead_snd]
  generalize s.deadKeys now = keys
  induction keys generalizing s with
  | nil => rfl
  | cons key keys ih => rw [List.foldl_cons, ih, rules_bury]

theorem tally_buryAll {s : Store K V} {keys : List K} (hnodup : keys.Nodup)
    (hmem : ∀ key ∈ keys, key ∈ s.entries) (n : Nat) :
    (keys.foldl bury s).tally.hold n = (s.tally.expire keys.length).hold n := by
  induction keys generalizing s with
  | nil => rfl
  | cons key keys ih =>
    rw [List.nodup_cons] at hnodup
    have hkey : s.entries.contains key := ExtTreeMap.contains_iff_mem.mpr (hmem key (by simp))
    have hbury : s.bury key = (s.discard key).note (·.expire 1) := by rw [bury_eq, if_pos hkey]
    have hrest : ∀ k ∈ keys, k ∈ (s.bury key).entries := by
      intro k hk
      have hne : key ≠ k := fun hkk => hnodup.1 (hkk ▸ hk)
      rw [hbury, entries_note, entries_discard, ExtTreeMap.mem_erase]
      exact ⟨by simpa using hne, hmem k (by simp [hk])⟩
    rw [List.foldl_cons, ih hnodup.2 hrest, hbury]
    simp [Nat.add_comm]

theorem mem_deadKeys_iff {s : Store K V} {key : K} {now : Instant} :
    key ∈ s.deadKeys now ↔ ∃ e, s.entries[key]? = some e ∧ e.isDead now = true := by
  simp [deadKeys]

theorem nodup_deadKeys (s : Store K V) (now : Instant) : (s.deadKeys now).Nodup :=
  (Listing.nodup_keys s.entries).sublist (List.filter_sublist.map Prod.fst)

theorem tally_buryDead (s : Store K V) (now : Instant) (n : Nat) :
    (s.buryDead now).2.tally.hold n = (s.tally.expire (s.deadKeys now).length).hold n := by
  rw [buryDead_snd]
  apply tally_buryAll (s.nodup_deadKeys now)
  intro key hkey
  obtain ⟨e, he, -⟩ := mem_deadKeys_iff.mp hkey
  exact ExtTreeMap.mem_iff_isSome_getElem?.mpr (Option.isSome_of_eq_some he)

@[simp] theorem recency?_place (s : Store K V) (key : K) (e : Entry V) :
    (s.place key e).recency? = s.recency?.map (·.use key) :=
  recency?_reorder { s with entries := s.entries.insert key e } (·.use key)

@[simp] theorem recency?_discard (s : Store K V) (key : K) :
    (s.discard key).recency? = s.recency?.map (·.erase key) :=
  recency?_reorder { s with entries := s.entries.erase key } (·.erase key)

@[simp] theorem recency?_clear (s : Store K V) :
    s.clear.2.recency? = s.recency?.map (·.clear) :=
  recency?_reorder { s with entries := ∅ } (·.clear)

/-- The list has what the store holds, in the order of the uses if the store keeps one. -/
structure Arranged (s : Store K V) (entries : List (K × Entry V)) : Prop where
  perm : s.entries.toList.Perm entries
  coherent : ∀ r ∈ s.recency?, r.Coherent
  order : ∀ r ∈ s.recency?, r.toList = entries.map Prod.fst

namespace Arranged

variable {s : Store K V} {entries : List (K × Entry V)}

theorem size (h : s.Arranged entries) : s.size = entries.length := by
  rw [← h.perm.length_eq, ExtTreeMap.length_toList]
  rfl

theorem nodup_keys (h : s.Arranged entries) : (entries.map Prod.fst).Nodup :=
  (h.perm.map Prod.fst).nodup (Listing.nodup_keys s.entries)

theorem mem_iff (h : s.Arranged entries) {key : K} {e : Entry V} :
    (key, e) ∈ entries ↔ s.entries[key]? = some e := by
  rw [← h.perm.mem_iff, ExtTreeMap.mem_toList_iff_getElem?_eq_some]

theorem mem_keys_iff (h : s.Arranged entries) {key : K} :
    key ∈ entries.map Prod.fst ↔ key ∈ s.entries := by
  rw [← (h.perm.map Prod.fst).mem_iff, Listing.mem_keys_iff]

theorem find?_eq {l : Line K V} (h : s.Arranged l.entries) (key : K) :
    l.find? key = s.entries[key]? := by
  unfold Line.find?
  cases hfind : l.entries.find? fun p => p.1 = key with
  | none =>
    symm
    apply ExtTreeMap.getElem?_eq_none
    rw [← h.mem_keys_iff, List.mem_map]
    rintro ⟨p, hp, rfl⟩
    simpa using List.find?_eq_none.mp hfind p hp
  | some p =>
    have hkey : p.1 = key := by simpa using List.find?_some hfind
    exact (h.mem_iff.mp (hkey ▸ List.mem_of_find?_eq_some hfind)).symm

theorem congr (h : s.Arranged entries) {s' : Store K V} (he : s'.entries = s.entries)
    (hr : s'.recency? = s.recency?) : s'.Arranged entries where
  perm := he ▸ h.perm
  coherent := hr ▸ h.coherent
  order := hr ▸ h.order

theorem note (h : s.Arranged entries) (f : Counters → Counters) : (s.note f).Arranged entries :=
  h.congr rfl rfl

theorem noteSize (h : s.Arranged entries) : s.noteSize.Arranged entries := h.congr rfl rfl

theorem place (h : s.Arranged entries) (key : K) (e : Entry V) :
    (s.place key e).Arranged (without entries key ++ [(key, e)]) where
  perm := (Listing.toList_insert_perm s.entries key e).trans ((h.perm.filter _).append_right _)
  coherent := by
    intro r' hr'
    obtain ⟨r, hr, rfl⟩ := Option.map_eq_some_iff.mp (recency?_place s key e ▸ hr')
    exact Recency.coherent_use (h.coherent r hr) key
  order := by
    intro r' hr'
    obtain ⟨r, hr, rfl⟩ := Option.map_eq_some_iff.mp (recency?_place s key e ▸ hr')
    rw [Recency.toList_use (h.coherent r hr), h.order r hr, List.map_append, Line.keys_without]
    rfl

theorem discard (h : s.Arranged entries) (key : K) :
    (s.discard key).Arranged (without entries key) where
  perm := by
    rw [entries_discard, Listing.toList_erase]
    exact h.perm.filter _
  coherent := by
    intro r' hr'
    obtain ⟨r, hr, rfl⟩ := Option.map_eq_some_iff.mp (recency?_discard s key ▸ hr')
    exact Recency.coherent_erase (h.coherent r hr) key
  order := by
    intro r' hr'
    obtain ⟨r, hr, rfl⟩ := Option.map_eq_some_iff.mp (recency?_discard s key ▸ hr')
    rw [Recency.toList_erase (h.coherent r hr), h.order r hr, Line.keys_without]

theorem bury (h : s.Arranged entries) (key : K) :
    (s.bury key).Arranged (without entries key) := by
  rw [bury_eq]
  split
  · exact (h.discard key).note _
  · rename_i hkey
    rw [ExtTreeMap.contains_iff_mem, ← h.mem_keys_iff] at hkey
    rw [Line.without_eq_self hkey]
    exact h

theorem buryAll (h : s.Arranged entries) (keys : List K) :
    (keys.foldl Store.bury s).Arranged (entries.filter fun p => p.1 ∉ keys) := by
  induction keys generalizing s entries with
  | nil => simpa using h
  | cons key keys ih =>
    have hrest := ih (h.bury key)
    rw [without, List.filter_filter] at hrest
    simpa [Bool.and_comm] using hrest

theorem mem_deadKeys_iff (h : s.Arranged entries) {p : K × Entry V} (hp : p ∈ entries)
    {now : Instant} : p.1 ∈ s.deadKeys now ↔ p.2.isDead now = true := by
  obtain ⟨key, e⟩ := p
  rw [h.mem_iff] at hp
  simp [Store.mem_deadKeys_iff, hp]

theorem buryDead (h : s.Arranged entries) (now : Instant) :
    (s.buryDead now).2.Arranged (living entries now) := by
  have hall := h.buryAll (s.deadKeys now)
  have hliving : (entries.filter fun p => p.1 ∉ s.deadKeys now) = living entries now := by
    apply List.filter_congr
    intro p hp
    simp [h.mem_deadKeys_iff hp]
  exact hliving ▸ hall

/-- If the store keeps an order of uses, the entry in front is the one that it gives up. -/
theorem evict? {p : K × Entry V} {rest : List (K × Entry V)} (h : s.Arranged (p :: rest))
    (hb : s.capacity?.isSome) :
    ∃ s', s.evict? = some s' ∧ s'.Arranged rest ∧ s'.entries = s.entries.erase p.1 ∧
      s'.rules = s.rules ∧ s'.tally = s.tally.evict := by
  obtain ⟨n, hn⟩ := Option.isSome_iff_exists.mp hb
  obtain ⟨b, hb, rfl⟩ := Option.map_eq_some_iff.mp hn
  have hr : b.recency ∈ s.recency? := by simp [recency?, hb]
  have hpop := Recency.popOldest?_of_toList (h.coherent _ hr) (h.order _ hr)
  have hd := h.discard p.1
  rw [Line.without_first h.nodup_keys] at hd
  let s' : Store K V := { s with
    entries := s.entries.erase p.1
    bound := some { b with recency := b.recency.erase p.1 } }
  refine ⟨s'.note (·.evict), ?_, ?_, rfl, ?_, rfl⟩
  · simp [Store.evict?, hb, hpop, s']
  · refine hd.congr rfl ?_
    rw [recency?_discard]
    simp [recency?, hb, s', Store.note]
  · simp [rules, capacity?, hb, s', Store.note]

end Arranged

theorem arranged_clear (s : Store K V) : s.clear.2.Arranged [] where
  perm := by
    rw [clear]
    exact List.Perm.of_eq (ExtTreeMap.toList_eq_nil_iff.mpr rfl)
  coherent := by
    intro r' hr'
    obtain ⟨r, -, rfl⟩ := Option.map_eq_some_iff.mp (recency?_clear s ▸ hr')
    exact Recency.coherent_clear r
  order := by
    intro r' hr'
    obtain ⟨r, -, rfl⟩ := Option.map_eq_some_iff.mp (recency?_clear s ▸ hr')
    exact Recency.toList_clear r

theorem arranged_empty (capacity : Option Nat) (lifetime : Duration) (policy : Policy) :
    (empty capacity lifetime policy : Store K V).Arranged [] := by
  have hr : ∀ r ∈ (empty capacity lifetime policy : Store K V).recency?, r = Recency.empty := by
    intro r hr
    cases capacity with
    | none => cases hr
    | some n => exact (Option.some.inj hr).symm
  constructor
  · exact List.Perm.of_eq (ExtTreeMap.toList_eq_nil_iff.mpr rfl)
  · intro r hmem
    rw [hr r hmem]
    exact Recency.coherent_empty
  · intro r hmem
    rw [hr r hmem]
    exact Recency.toList_clear Recency.empty

/-- The list stands for the store. How many entries the store last noted does not matter. -/
structure Listed (s : Store K V) (l : Line K V) : Prop where
  arranged : s.Arranged l.entries
  rules : s.rules = l.rules
  tally : ∀ n, s.tally.hold n = l.tally.hold n

/-- The two give the same answer, and the list goes on to stand for the store. -/
def Agree {α : Type} (x : α × Store K V) (y : α × Line K V) : Prop := x.1 = y.1 ∧ x.2.Listed y.2

theorem Agree.map {α β : Type} {x : α × Store K V} {y : α × Line K V} (h : Agree x y) (f : α → β) :
    Agree (x.map f id) (y.map f id) := ⟨congrArg f h.1, h.2⟩

namespace Listed

variable {s : Store K V} {l : Line K V}

theorem counters (h : s.Listed l) : s.counters = l.counters := by
  rw [Store.counters, h.arranged.size, h.tally, Line.counters]

theorem isFull (h : s.Listed l) : s.isFull = l.isFull := by
  have hc : s.capacity? = l.rules.capacity := congrArg Rules.capacity h.rules
  rw [Line.isFull, Rules.isFull, ← hc, ← h.arranged.size]
  cases hb : s.bound <;> simp [Store.isFull, capacity?, hb]

theorem rearrange (h : s.Listed l) {s' : Store K V} {entries : List (K × Entry V)}
    (ha : s'.Arranged entries) (hr : s'.rules = s.rules)
    (ht : ∀ n, s'.tally.hold n = s.tally.hold n) : s'.Listed { l with entries } :=
  ⟨ha, hr.trans h.rules, fun n => (ht n).trans (h.tally n)⟩

theorem note (h : s.Listed l) {f : Counters → Counters}
    (hf : ∀ c n, f (c.hold n) = (f c).hold n) : (s.note f).Listed (l.note f) where
  arranged := h.arranged.note f
  rules := h.rules
  tally n := by
    rw [tally_note, ← hf, h.tally, hf]
    rfl

theorem noteSize (h : s.Listed l) : s.noteSize.Listed l :=
  h.rearrange h.arranged.noteSize rfl fun _ => rfl

theorem place (h : s.Listed l) (key : K) (e : Entry V) : (s.place key e).Listed (l.place key e) :=
  h.rearrange (h.arranged.place key e) (rules_place s key e) fun _ => rfl

theorem discard (h : s.Listed l) (key : K) : (s.discard key).Listed (l.erase key) :=
  h.rearrange (h.arranged.discard key) (rules_discard s key) fun _ => rfl

theorem clear (h : s.Listed l) : s.clear.2.Listed { l with entries := [] } :=
  h.rearrange (arranged_clear s) (rules_reorder { s with entries := ∅ } (·.clear)) fun _ => rfl

theorem contains_eq (h : s.Listed l) (key : K) : s.entries.contains key = (l.find? key).isSome := by
  rw [h.arranged.find?_eq, ExtTreeMap.contains_eq_isSome_getElem?]

theorem erase (h : s.Listed l) (key : K) :
    Agree (s.erase key) ((l.find? key).isSome, l.erase key) := by
  rw [← h.contains_eq]
  unfold Store.erase
  cases hkey : s.entries.contains key with
  | true => exact ⟨rfl, h.discard key⟩
  | false =>
    have hmem : key ∉ l.entries.map Prod.fst := by
      rw [h.arranged.mem_keys_iff, ← ExtTreeMap.contains_iff_mem, hkey]
      exact Bool.false_ne_true
    refine ⟨rfl, ?_⟩
    rw [Line.erase, Line.without_eq_self hmem]
    exact h

theorem buryDead (h : s.Listed l) (now : Instant) : Agree (s.buryDead now) (l.buryDead now) := by
  have hcount : (s.deadKeys now).length = l.entries.countP fun p => p.2.isDead now := by
    rw [deadKeys, List.length_map, ← List.countP_eq_length_filter, h.arranged.perm.countP_eq]
    rfl
  refine ⟨hcount, h.arranged.buryDead now, (rules_buryDead s now).trans h.rules, ?_⟩
  intro n
  rw [s.tally_buryDead now, hcount, ← Counters.expire_hold, h.tally]
  rfl

theorem makeRoom (h : s.Listed l) (hzero : l.rules.capacity ≠ some 0) (now : Instant) :
    Agree (s.makeRoom now) (l.makeRoom now) := by
  unfold Store.makeRoom Line.makeRoom
  rw [h.isFull]
  by_cases hfull : l.isFull
  · obtain ⟨hn, hd⟩ := h.buryDead now
    simp only [hfull, if_true, hd.isFull, hn]
    by_cases hstill : (l.buryDead now).2.isFull
    · have hzero' : (l.buryDead now).2.rules.capacity ≠ some 0 := hzero
      obtain ⟨p, rest, hentries⟩ := Line.exists_first hzero' hstill
      obtain ⟨n, hn, -⟩ := Rules.isFull_iff.mp hstill
      have hcapacity : (s.buryDead now).2.capacity?.isSome := by
        have hc : (s.buryDead now).2.capacity? = some n :=
          (congrArg Rules.capacity hd.rules).trans hn
        simp [hc]
      have harranged := hd.arranged
      rw [hentries] at harranged
      obtain ⟨s', hs', ha, -, hr, ht⟩ := harranged.evict? hcapacity
      have htail : (l.buryDead now).2.evict.entries = rest := congrArg List.tail hentries
      simp only [hstill, if_true, hs']
      refine ⟨by rw [ha.size, htail], htail ▸ ha, hr.trans hd.rules, ?_⟩
      intro m
      rw [ht, ← Counters.evict_hold, hd.tally]
      rfl
    · simp only [hstill]
      exact ⟨rfl, hd⟩
  · simp only [hfull]
    exact ⟨rfl, h⟩

theorem insertFor (h : s.Listed l) (key : K) (value : V) (life : Duration) (now : Instant) :
    Agree (s.insertFor key value life now) (l.insertFor key value life now) := by
  have hc : s.capacity? = l.rules.capacity := congrArg Rules.capacity h.rules
  unfold Store.insertFor Line.insertFor
  rw [hc, h.contains_eq]
  by_cases hzero : l.rules.capacity = some 0
  · simp only [hzero, if_true]
    exact ⟨rfl, h.note Counters.evict_hold⟩
  · simp only [hzero, if_false]
    by_cases hkey : (l.find? key).isSome
    · simp only [hkey, if_true]
      exact ⟨rfl, (h.place key _).noteSize⟩
    · obtain ⟨ha, hl⟩ := h.makeRoom hzero now
      simp only [hkey]
      exact ⟨ha, (hl.place key _).noteSize⟩

theorem get (h : s.Listed l) (key : K) (now : Instant) : Agree (s.get key now) (l.get key now) := by
  unfold Store.get Line.get
  rw [h.arranged.find?_eq]
  cases he : s.entries[key]? with
  | none => exact ⟨rfl, h.note Counters.miss_hold⟩
  | some e =>
    simp only [Policy.isDead_eq]
    by_cases hdead : e.isDead now
    · have hkey : s.entries.contains key := by
        rw [ExtTreeMap.contains_eq_isSome_getElem?, he]
        rfl
      simp only [hdead, if_true, bury_eq, hkey]
      exact ⟨rfl, (h.discard key).note (f := fun c => (c.expire 1).miss) fun _ _ => rfl⟩
    · have hp : s.policy = l.rules.policy := congrArg Rules.policy h.rules
      simp only [hdead, hp]
      exact ⟨rfl, (h.place key _).note Counters.hit_hold⟩

theorem contains (h : s.Listed l) (key : K) (now : Instant) :
    s.contains key now = l.contains key now := by
  unfold Store.contains Line.contains
  rw [h.arranged.find?_eq]
  cases s.entries[key]? <;> rfl

theorem liveSize (h : s.Listed l) (now : Instant) :
    s.liveSize now = (living l.entries now).length := by
  rw [Store.liveSize, h.arranged.perm.countP_eq, List.countP_eq_length_filter]
  rfl

theorem items (h : s.Listed l) (now : Instant) : s.items now = l.items now := by
  symm
  apply Item.listing_eq
  · exact (h.arranged.perm.symm.filter _).map _
  · rw [Store.items, List.pairwise_map]
    exact s.entries.ordered_keys_toList.filter _

end Listed

theorem listed_empty (capacity : Option Nat) (lifetime : Duration) (policy : Policy) :
    (empty capacity lifetime policy : Store K V).Listed
      { rules := ⟨capacity, lifetime, policy⟩ } where
  arranged := arranged_empty capacity lifetime policy
  rules := by cases capacity <;> rfl
  tally _ := rfl

theorem listed_step {s : Store K V} {l : Line K V} (h : s.Listed l) (now : Instant) (op : Op K V) :
    Agree (s.step now op) (l.step now op) := by
  have hlife : s.lifetime = l.rules.lifetime := congrArg Rules.lifetime h.rules
  cases op with
  | insert key value =>
    show Agree ((s.insertFor key value s.lifetime now).map Answer.admission id) _
    rw [hlife]
    exact (h.insertFor key value l.rules.lifetime now).map _
  | insertFor key value life => exact (h.insertFor key value life now).map _
  | get key => exact (h.get key now).map _
  | contains key => exact ⟨congrArg _ (h.contains key now), h⟩
  | erase key => exact (h.erase key).map _
  | clear => exact ⟨congrArg _ h.arranged.size, h.clear⟩
  | sweep =>
    obtain ⟨hn, hl⟩ := h.buryDead now
    exact ⟨congrArg _ hn, hl.note Counters.sweep_hold⟩
  | items => exact ⟨congrArg _ (h.items now), h⟩
  | liveSize => exact ⟨congrArg _ (h.liveSize now), h⟩

/-- A store and its list give the same answers to any operations, whatever their times. -/
theorem listed_run {s : Store K V} {l : Line K V} (h : s.Listed l) (ops : List (Instant × Op K V)) :
    Agree (s.run ops) (l.run ops) := by
  induction ops generalizing s l with
  | nil => exact ⟨rfl, h⟩
  | cons first rest ih =>
    obtain ⟨now, op⟩ := first
    obtain ⟨ha, hl⟩ := listed_step h now op
    obtain ⟨hr, hlast⟩ := ih hl
    exact ⟨congrArg₂ List.cons ha hr, hlast⟩

end TimedCache.Store
