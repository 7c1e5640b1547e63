import TimedCache.Proofs.Store.Live

/-!
Stores and what readers can tell of them. As long as time does not go back, a store and its live
entries alone give readers the same answers: each operation does to the live entries of the list
what it does to the live entries without the dead ones among them.
-/
namespace TimedCache

variable {K V : Type}

namespace Line

/-- What a reader can tell of each entry of the list, dead ones included. -/
def live (l : Line K V) : Live K V where
  rules := l.rules
  line := l.entries.map LiveItem.ofPair
  hits := l.tally.hits
  misses := l.tally.misses
  evictions := l.tally.evictions

/-- The two are the same to readers, once it is `since`. -/
def Mirrored (l : Line K V) (f : Live K V) (since : Instant) : Prop :=
  l.live.drop since = f.drop since

theorem Mirrored.later {l : Line K V} {f : Live K V} {t u : Instant} (h : l.Mirrored f t)
    (htu : t ≤ u) : l.Mirrored f u := by
  have hdrop : l.live.drop t = f.drop t := h
  show l.live.drop u = f.drop u
  rw [← l.live.drop_drop htu, hdrop, f.drop_drop htu]

theorem isFull_live (l : Line K V) : l.live.isFull = l.isFull := by
  have hlength : l.live.line.length = l.entries.length := List.length_map _
  rw [Live.isFull, isFull, hlength]
  rfl

theorem line_drop_live (l : Line K V) (now : Instant) :
    (l.live.drop now).line = (living l.entries now).map LiveItem.ofPair :=
  List.filter_map

theorem live_buryDead (l : Line K V) (now : Instant) :
    (l.buryDead now).2.live = l.live.drop now :=
  congrArg (fun line => { l.live with line }) (l.line_drop_live now).symm

theorem live_evict (l : Line K V) : l.evict.live = l.live.evict := by
  simp [live, evict, note, Live.evict, Counters.evict, List.map_tail]

def Distinct (l : Line K V) : Prop := (l.entries.map Prod.fst).Nodup

theorem distinct_live {l : Line K V} (h : l.Distinct) : l.live.Distinct := by
  rw [Live.Distinct, live, List.map_map]
  exact h

variable [CacheKey K]

theorem items_live (l : Line K V) (now : Instant) :
    Item.listing ((l.live.drop now).line.map LiveItem.toItem) = l.items now := by
  rw [line_drop_live, List.map_map]
  rfl

theorem live_erase (l : Line K V) (key : K) : (l.erase key).live = l.live.erase key := by
  have hline : (without l.entries key).map LiveItem.ofPair =
      (l.entries.map LiveItem.ofPair).filter fun i => i.key ≠ key := by
    rw [List.filter_map]
    rfl
  exact congrArg (fun line => { l.live with line }) hline

theorem live_place (l : Line K V) (key : K) (e : Entry V) :
    (l.place key e).live = (l.live.erase key).append (.ofPair (key, e)) := by
  rw [← live_erase]
  simp [live, place, erase, Live.append]

theorem find?_live (l : Line K V) (key : K) :
    l.live.find? key = (l.find? key).map fun e => .ofPair (key, e) := by
  have hfind : l.live.find? key = (l.entries.find? fun p => p.1 = key).map LiveItem.ofPair :=
    List.find?_map
  rw [hfind, find?, Option.map_map]
  cases hp : l.entries.find? fun p => p.1 = key with
  | none => rfl
  | some p =>
    have hkey : p.1 = key := by simpa using List.find?_some hp
    rw [← hkey]
    rfl

theorem drop_place {l : Line K V} {f : Live K V} {key : K} {now : Instant} (h : l.Mirrored f now)
    (hzero : l.rules.capacity ≠ some 0) (hroom : (l.live.erase key).isFull = false) (value : V)
    (life : Duration) :
    (l.place key (.write value life now)).live.drop now =
      ((f.drop now).insertFor key value life now).drop now := by
  have hroom' : ((f.drop now).erase key).isFull = false := by
    rw [← h, ← Live.drop_erase]
    exact Live.isFull_drop hroom now
  have hzero' : (f.drop now).rules.capacity ≠ some 0 := by
    rw [← h]
    exact hzero
  rw [Live.insertFor_of_room hzero' hroom', ← h, live_place, Live.drop_append, Live.drop_erase]
  rfl

theorem live_insertFor {l : Line K V} (h : l.Fits) (key : K) (value : V) (life : Duration)
    (now : Instant) :
    (l.insertFor key value life now).2.live.drop now =
      ((l.live.drop now).insertFor key value life now).drop now := by
  have ha := admitted_insertFor l key value life now
  generalize l.insertFor key value life now = written at ha ⊢
  obtain ⟨admission, l'⟩ := written
  have hbury : (l.buryDead now).2.Mirrored l.live now := by
    rw [Mirrored, live_buryDead, Live.drop_self]
  cases ha with
  | dropped hzero =>
    have hzero' : (l.live.drop now).rules.capacity = some 0 := hzero
    rw [Live.insertFor_of_zero hzero']
    exact congrArg (fun f : Live K V => { f with evictions := f.evictions + 1 })
      (l.live.drop_self now).symm
  | replaced hzero hkey =>
    apply drop_place rfl hzero
    rw [← live_erase, isFull_live]
    apply Rules.isFull_eq_false_iff.mpr
    intro n hn
    exact Nat.lt_of_lt_of_le (length_without_lt hkey) (h n hn)
  | added hzero hkey hroom =>
    apply drop_place rfl hzero
    exact Live.isFull_erase (l.isFull_live.trans hroom) key
  | reclaimed hzero hkey hfull hroom =>
    apply drop_place hbury hzero
    exact Live.isFull_erase ((isFull_live _).trans hroom) key
  | evicted hzero hkey hfull hstill =>
    have hzero' : (l.live.drop now).rules.capacity ≠ some 0 := hzero
    have hnone : (l.live.drop now).find? key = none := by
      apply Live.find?_drop_of_none
      rw [find?_live, hkey]
      rfl
    have herase := Live.erase_eq_self hnone
    have hfull' : ((l.live.drop now).erase key).isFull = true := by
      rw [herase, ← live_buryDead, isFull_live, hstill]
    have hlive (e : Entry V) : ((l.buryDead now).2.evict.place key e).live =
        (l.live.drop now).evict.append (.ofPair (key, e)) := by
      rw [live_place, live_evict, live_buryDead, Live.erase_eq_self (Live.find?_evict hnone)]
    rw [Live.insertFor_of_full hzero' hfull', herase]
    exact congrArg (·.drop now) (hlive (.write value life now))

theorem live_get {l : Line K V} (h : l.Distinct) (key : K) (now : Instant) :
    (l.get key now).1 = ((l.live.drop now).get key now).1 ∧
      (l.get key now).2.live.drop now = ((l.live.drop now).get key now).2.drop now := by
  have hfind := Live.find?_drop (distinct_live h) key now
  rw [find?_live] at hfind
  cases he : l.find? key with
  | none =>
    rw [he] at hfind
    rw [get_of_none he, Live.get_of_none hfind, Live.drop_miss, Live.drop_self]
    exact ⟨rfl, rfl⟩
  | some e =>
    rw [he] at hfind
    cases hdead : e.isDead now with
    | true =>
      have hnone : (l.live.drop now).find? key = none := by
        simpa [Option.filter_some, hdead] using hfind
      have hlive : (l.get key now).2.live = (l.live.erase key).miss := by
        rw [get_of_dead he hdead, ← live_erase]
        rfl
      rw [hlive, get_of_dead he hdead, Live.get_of_none hnone, Live.drop_miss, Live.drop_miss,
        Live.drop_erase, Live.erase_eq_self hnone, Live.drop_self]
      exact ⟨rfl, rfl⟩
    | false =>
      have hsome : (l.live.drop now).find? key = some (.ofPair (key, e)) := by
        simpa [Option.filter_some, hdead] using hfind
      have hlive : (l.get key now).2.live =
          ((l.live.erase key).append (.ofPair (key, l.rules.policy.read e now))).hit := by
        rw [get_of_live he hdead, ← live_place]
        rfl
      rw [hlive, get_of_live he hdead, Live.get_of_some hsome, LiveItem.read_ofPair, Live.drop_hit,
        Live.drop_hit, Live.drop_append, Live.drop_erase]
      exact ⟨rfl, rfl⟩

theorem contains_live {l : Line K V} (h : l.Distinct) (key : K) (now : Instant) :
    ((l.live.drop now).find? key).isSome = l.contains key now := by
  rw [Live.find?_drop (distinct_live h), find?_live, contains]
  cases l.find? key with
  | none => rfl
  | some e => cases hdead : e.isDead now <;> simp [hdead]

/-- An operation with a time meets the live entries as they are then. -/
theorem live_step_timed {l : Line K V} (hfits : l.Fits) (hkeys : l.Distinct) (now : Instant)
    {op : Store.Op K V} (h : op.isTimed = true) :
    (l.step now op).2.Mirrored (l.live.step now op).2 now := by
  have hself := l.live.drop_self now
  cases op with
  | erase | clear => cases h
  | insert key value => exact live_insertFor hfits key value _ now
  | insertFor key value life => exact live_insertFor hfits key value life now
  | get key => exact (live_get hkeys key now).2
  | sweep => exact congrArg (·.drop now) (l.live_buryDead now)
  | _ => exact hself.symm

theorem answer_step {l : Line K V} (hkeys : l.Distinct) (now : Instant) (op : Store.Op K V) :
    (l.live.step now op).1 = if op.isRead then some (l.step now op).1 else none := by
  cases op with
  | get key => exact congrArg (some ∘ Store.Answer.value) (live_get hkeys key now).1.symm
  | contains key => exact congrArg (some ∘ Store.Answer.flag) (contains_live hkeys key now)
  | items => exact congrArg (some ∘ Store.Answer.items) (l.items_live now)
  | liveSize =>
    have hlength := congrArg List.length (l.line_drop_live now)
    rw [List.length_map] at hlength
    exact congrArg (some ∘ Store.Answer.count) hlength
  | _ => rfl

theorem mirrored_step {l : Line K V} {f : Live K V} {t u now : Instant} {op : Store.Op K V}
    (h : l.Mirrored f t) (hfits : l.Fits) (hkeys : l.Distinct) (htu : t ≤ u)
    (hnow : op.isTimed = true → t ≤ now ∧ now ≤ u) :
    (l.step now op).2.Mirrored (f.step now op).2 u := by
  cases htimed : op.isTimed with
  | true =>
    obtain ⟨htnow, hnowu⟩ := hnow htimed
    rw [← f.step_drop now htimed, ← h.later htnow, l.live.step_drop now htimed]
    exact (live_step_timed hfits hkeys now htimed).later hnowu
  | false =>
    have hu : l.live.drop u = f.drop u := h.later htu
    cases op with
    | erase key =>
      show (l.erase key).live.drop u = (f.erase key).drop u
      rw [live_erase, Live.drop_erase, hu, Live.drop_erase]
    | clear => exact congrArg (fun f : Live K V => { f with line := [] }) hu
    | _ => cases htimed

end Line

namespace Store

/-- The times that the operations of a run are given never decrease. -/
def Chronological (ops : List (Instant × Op K V)) : Prop :=
  (ops.filter fun o => o.2.isTimed).Pairwise fun a b => a.1 ≤ b.1

def Since (t : Instant) (ops : List (Instant × Op K V)) : Prop :=
  ∀ o ∈ ops, o.2.isTimed = true → t ≤ o.1

def Until (t : Instant) (ops : List (Instant × Op K V)) : Prop :=
  ∀ o ∈ ops, o.2.isTimed = true → o.1 ≤ t

instance (ops : List (Instant × Op K V)) : Decidable (Chronological ops) :=
  inferInstanceAs (Decidable (List.Pairwise _ _))

instance (t : Instant) (ops : List (Instant × Op K V)) : Decidable (Until t ops) :=
  inferInstanceAs (Decidable (∀ o ∈ ops, o.2.isTimed = true → o.1 ≤ t))

theorem exists_until (ops : List (Instant × Op K V)) : ∃ t, Until t ops := by
  induction ops with
  | nil => exact ⟨.origin, fun o ho => by cases ho⟩
  | cons first rest ih =>
    obtain ⟨t, ht⟩ := ih
    refine ⟨max first.1 t, ?_⟩
    intro o ho htimed
    rw [Instant.le_iff, Instant.nanos_max]
    rcases List.mem_cons.mp ho with rfl | ho
    · exact Nat.le_max_left _ _
    · exact Nat.le_trans (ht o ho htimed) (Nat.le_max_right _ _)

theorem since_origin (ops : List (Instant × Op K V)) : Since .origin ops :=
  fun o _ _ => Nat.zero_le o.1.nanos

/-- The time after an operation, if it was `t` before: the time it is given, if it is given any. -/
def Op.time (op : Op K V) (t now : Instant) : Instant := if op.isTimed then now else t

theorem chronological_cons {now : Instant} {op : Op K V} {rest : List (Instant × Op K V)} :
    Chronological ((now, op) :: rest) ↔
      (op.isTimed = true → Since now rest) ∧ Chronological rest := by
  cases h : op.isTimed <;> simp [Chronological, Since, h]

theorem since_cons {t now : Instant} {op : Op K V} {rest : List (Instant × Op K V)}
    (hsince : Since t ((now, op) :: rest)) (hchron : Chronological ((now, op) :: rest)) :
    Since (op.time t now) rest := by
  unfold Op.time
  cases htimed : op.isTimed with
  | true => exact (chronological_cons.mp hchron).1 htimed
  | false => exact fun o ho => hsince o (List.mem_cons_of_mem _ ho)

theorem Op.le_time {op : Op K V} {t now : Instant} (h : op.isTimed = true → t ≤ now) :
    t ≤ op.time t now := by
  unfold time
  split
  · exact h ‹_›
  · exact Nat.le_refl _

theorem Op.time_le {op : Op K V} {t now u : Instant} (htu : t ≤ u)
    (h : op.isTimed = true → now ≤ u) : op.time t now ≤ u := by
  unfold time
  split
  · exact h ‹_›
  · exact htu

theorem chronological_concat {ops : List (Instant × Op K V)} {now : Instant} {op : Op K V}
    (htimed : op.isTimed = true) (h : Chronological (ops ++ [(now, op)])) :
    Chronological ops ∧ Until now ops := by
  rw [Chronological, List.filter_append, List.pairwise_append] at h
  obtain ⟨hops, -, hlast⟩ := h
  refine ⟨hops, ?_⟩
  intro o ho ht
  exact hlast o (List.mem_filter.mpr ⟨ho, ht⟩) (now, op) (by simp [htimed])

/-- What readers see of an operation: its answer, if it is a read, and the counts after it. -/
structure Seen (K V : Type) where
  answer : Option (Answer K V)
  hits : Nat
  misses : Nat
  evictions : Nat
deriving DecidableEq

variable [CacheKey K]

def seen (s : Store K V) : List (Instant × Op K V) → List (Seen K V)
  | [] => []
  | (now, op) :: rest =>
    let (answer, s) := s.step now op
    { answer := if op.isRead then some answer else none
      hits := s.counters.hits
      misses := s.counters.misses
      evictions := s.counters.evictions } :: s.seen rest

/-- The live entries of the store are as given, once it is `since`. -/
def Shows (s : Store K V) (f : Live K V) (since : Instant) : Prop :=
  ∃ l, s.Kept l ∧ l.Mirrored f since

namespace Shows

variable {s : Store K V} {f : Live K V} {t u now : Instant} {op : Op K V}

theorem later (h : s.Shows f t) (htu : t ≤ u) : s.Shows f u := by
  obtain ⟨l, hl, hf⟩ := h
  exact ⟨l, hl, hf.later htu⟩

theorem hits (h : s.Shows f t) : s.counters.hits = f.hits := by
  obtain ⟨l, hl, hf⟩ := h
  rw [hl.listed.counters]
  exact congrArg Live.hits hf

theorem misses (h : s.Shows f t) : s.counters.misses = f.misses := by
  obtain ⟨l, hl, hf⟩ := h
  rw [hl.listed.counters]
  exact congrArg Live.misses hf

theorem evictions (h : s.Shows f t) : s.counters.evictions = f.evictions := by
  obtain ⟨l, hl, hf⟩ := h
  rw [hl.listed.counters]
  exact congrArg Live.evictions hf

theorem answer (h : s.Shows f t) (op : Op K V) (hnow : op.isTimed = true → t ≤ now) :
    (if op.isRead then some (s.step now op).1 else none) = (f.step now op).1 := by
  obtain ⟨l, hl, hf⟩ := h
  rw [(listed_step hl.listed now op).1, ← Line.answer_step hl.listed.arranged.nodup_keys]
  cases htimed : op.isTimed with
  | true => rw [← f.step_drop now htimed, ← hf.later (hnow htimed), l.live.step_drop now htimed]
  | false =>
    cases op with
    | erase | clear => rfl
    | _ => cases htimed

theorem get (h : s.Shows f t) (htnow : t ≤ now) (key : K) :
    (s.get key now).1 = ((f.drop now).get key now).1 :=
  Answer.value.inj (Option.some.inj (h.answer (.get key) fun _ => htnow))

theorem contains (h : s.Shows f t) (htnow : t ≤ now) (key : K) :
    s.contains key now = ((f.drop now).find? key).isSome :=
  Answer.flag.inj (Option.some.inj (h.answer (.contains key) fun _ => htnow))

theorem items (h : s.Shows f t) (htnow : t ≤ now) :
    s.items now = Item.listing ((f.drop now).line.map LiveItem.toItem) :=
  Answer.items.inj (Option.some.inj (h.answer .items fun _ => htnow))

theorem step (h : s.Shows f t) (htu : t ≤ u) (hnow : op.isTimed = true → t ≤ now ∧ now ≤ u) :
    (s.step now op).2.Shows (f.step now op).2 u := by
  obtain ⟨l, hl, hf⟩ := h
  have hkeys := hl.listed.arranged.nodup_keys
  exact ⟨(l.step now op).2, kept_step hl now op, Line.mirrored_step hf hl.fits hkeys htu hnow⟩

/-- A sweep takes nothing that a reader could still tell of, however late or early it comes. -/
theorem sweep (h : s.Shows f u) (hnow : now ≤ u) : (s.sweep now).2.Shows f u := by
  obtain ⟨l, hl, hf⟩ := h
  refine ⟨(l.step now .sweep).2, kept_step hl now .sweep, ?_⟩
  show (l.buryDead now).2.live.drop u = f.drop u
  rw [Line.live_buryDead, Live.drop_drop _ hnow]
  exact hf

theorem stepTime (h : s.Shows f t) (hnow : op.isTimed = true → t ≤ now) :
    (s.step now op).2.Shows (f.step now op).2 (op.time t now) := by
  unfold Op.time
  cases htimed : op.isTimed with
  | true => exact h.step (by simpa using hnow htimed) fun ht => ⟨hnow ht, by simp [Instant.le_iff]⟩
  | false => exact h.step (by simp [Instant.le_iff]) fun ht => by simp [htimed] at ht

end Shows

theorem shows_empty (capacity : Option Nat) (lifetime : Duration) (policy : Policy) (t : Instant) :
    (empty capacity lifetime policy : Store K V).Shows
      { rules := ⟨capacity, lifetime, policy⟩ } t :=
  ⟨_, kept_empty capacity lifetime policy, rfl⟩

theorem shows_run {s : Store K V} {f : Live K V} {t u : Instant} {ops : List (Instant × Op K V)}
    (h : s.Shows f t) (hsince : Since t ops) (hchron : Chronological ops) (htu : t ≤ u)
    (huntil : Until u ops) : (s.run ops).2.Shows (f.after ops) u := by
  induction ops generalizing s f t with
  | nil => exact h.later htu
  | cons first rest ih =>
    obtain ⟨now, op⟩ := first
    have hnow := hsince (now, op) List.mem_cons_self
    have hlast := huntil (now, op) List.mem_cons_self
    have htime : op.time t now ≤ u := by
      unfold Op.time
      split <;> simp_all
    exact ih (h.stepTime hnow) (since_cons hsince hchron) (chronological_cons.mp hchron).2 htime
      fun o ho => huntil o (List.mem_cons_of_mem _ ho)

theorem shows_run_empty (capacity : Option Nat) (lifetime : Duration) (policy : Policy)
    {ops : List (Instant × Op K V)} (hchron : Chronological ops) {t : Instant}
    (huntil : Until t ops) :
    ((empty capacity lifetime policy : Store K V).run ops).2.Shows
      (Live.after { rules := ⟨capacity, lifetime, policy⟩ } ops) t :=
  shows_run (shows_empty capacity lifetime policy .origin) (since_origin ops) hchron
    (Nat.zero_le t.nanos) huntil

end Store

/-- What readers see of the live entries alone. -/
def Live.seen [CacheKey K] (f : Live K V) : List (Instant × Store.Op K V) → List (Store.Seen K V)
  | [] => []
  | (now, op) :: rest =>
    let (answer, f) := f.step now op
    { answer, hits := f.hits, misses := f.misses, evictions := f.evictions } :: f.seen rest

namespace Store

variable [CacheKey K]

theorem Shows.seen_eq {s : Store K V} {f : Live K V} {t : Instant} {ops : List (Instant × Op K V)}
    (h : s.Shows f t) (hsince : Since t ops) (hchron : Chronological ops) :
    s.seen ops = f.seen ops := by
  induction ops generalizing s f t with
  | nil => rfl
  | cons first rest ih =>
    obtain ⟨now, op⟩ := first
    have hnow := hsince (now, op) List.mem_cons_self
    have hnext := h.stepTime hnow
    have hrest := ih hnext (since_cons hsince hchron) (chronological_cons.mp hchron).2
    simp only [seen, Live.seen]
    rw [h.answer op hnow, hnext.hits, hnext.misses, hnext.evictions, hrest]

/-- Readers cannot tell a store from its live entries, as long as time does not go back. -/
theorem seen_eq_live (capacity : Option Nat) (lifetime : Duration) (policy : Policy)
    (ops : List (Instant × Op K V)) (h : Chronological ops) :
    let f : Live K V := { rules := ⟨capacity, lifetime, policy⟩ }
    (empty capacity lifetime policy : Store K V).seen ops = f.seen ops ∧
      (f.after ops).Distinct := by
  intro f
  have hshows : (empty capacity lifetime policy : Store K V).Shows f .origin :=
    shows_empty capacity lifetime policy .origin
  have hempty : f.Distinct := List.nodup_nil
  exact ⟨hshows.seen_eq (since_origin ops) h, Live.distinct_after hempty ops⟩

/-- A full store first loses what is dead, and then the entry that was not used for longest. -/
theorem seen_eq_live_of_full :
    let ops : List (Instant × Op Nat Nat) :=
      [(.origin, .insertFor 1 10 (.ofSeconds 5)), (.origin, .insertFor 2 20 (.ofSeconds 1)),
        (⟨2_000_000_000, by decide⟩, .insert 3 30), (⟨2_000_000_000, by decide⟩, .get 2),
        (⟨2_000_000_000, by decide⟩, .get 1), (⟨2_000_000_000, by decide⟩, .insert 4 40),
        (⟨3_000_000_000, by decide⟩, .liveSize)]
    Chronological ops ∧
      (empty (some 2) (.ofSeconds 9) (.sliding (.ofSeconds 1)) : Store Nat Nat).seen ops =
        [⟨none, 0, 0, 0⟩, ⟨none, 0, 0, 0⟩, ⟨none, 0, 0, 0⟩, ⟨some (.value none), 0, 1, 0⟩,
          ⟨some (.value (some 10)), 1, 1, 0⟩, ⟨none, 1, 1, 1⟩, ⟨some (.count 1), 1, 1, 1⟩] := by
  intro ops
  have hchron : Chronological ops := by decide
  refine ⟨hchron, ?_⟩
  rw [(seen_eq_live (some 2) (.ofSeconds 9) (.sliding (.ofSeconds 1)) ops hchron).1]
  decide

end Store
end TimedCache
