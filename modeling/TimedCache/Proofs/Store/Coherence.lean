import TimedCache.Proofs.Store.Listed

/-!
What holds of a store after any operations, at whatever times: the two maps of its order of uses
and the map of its entries have the same keys, no bound is passed, and the noted number of entries
is the true one. A write that has to give up an entry therefore always finds one.
-/
namespace TimedCache.Store

open Std (ExtTreeMap)

variable {K V : Type} [CacheKey K]

structure Coherent (s : Store K V) : Prop where
  recency : ∀ r ∈ s.recency?, r.Coherent
  tracked : ∀ r ∈ s.recency?, ∀ key, key ∈ r.stamps ↔ key ∈ s.entries
  ordered : ∀ r ∈ s.recency?, ∀ key, (∃ stamp : Nat, r.order[stamp]? = some key) ↔ key ∈ s.entries
  fits : ∀ n ∈ s.capacity?, s.size ≤ n
  counted : s.tally.entries = s.size

def Counted (s : Store K V) : Prop := s.tally.entries = s.size

theorem counted_discard (s : Store K V) (key : K) : (s.discard key).Counted := rfl

theorem counted_bury {s : Store K V} (h : s.Counted) (key : K) : (s.bury key).Counted := by
  rw [bury_eq]
  split
  · exact counted_discard s key
  · exact h

theorem counted_buryDead {s : Store K V} (h : s.Counted) (now : Instant) :
    (s.buryDead now).2.Counted := by
  rw [buryDead_snd]
  generalize s.deadKeys now = keys
  induction keys generalizing s with
  | nil => exact h
  | cons key keys ih => exact ih (counted_bury h key)

theorem counted_insertFor {s : Store K V} (h : s.Counted) (key : K) (value : V) (life : Duration)
    (now : Instant) : (s.insertFor key value life now).2.Counted := by
  unfold insertFor
  split
  · exact h
  · rfl

theorem counted_erase {s : Store K V} (h : s.Counted) (key : K) : (s.erase key).2.Counted := by
  unfold erase
  split
  · exact counted_discard s key
  · exact h

theorem counted_get {s : Store K V} (h : s.Counted) (key : K) (now : Instant) :
    (s.get key now).2.Counted := by
  unfold get
  split
  · exact h
  · rename_i e he
    split
    · exact counted_bury h key
    · have hkey : key ∈ s.entries := ExtTreeMap.mem_iff_isSome_getElem?.mpr (by simp [he])
      have hsize : (s.place key (s.policy.read e now)).size = s.size := by
        simp [size, ExtTreeMap.size_insert, hkey]
      exact Eq.trans h hsize.symm

theorem counted_step {s : Store K V} (h : s.Counted) (now : Instant) (op : Op K V) :
    (s.step now op).2.Counted := by
  cases op with
  | insert key value => exact counted_insertFor h key value _ now
  | insertFor key value life => exact counted_insertFor h key value life now
  | get key => exact counted_get h key now
  | erase key => exact counted_erase h key
  | clear => rfl
  | sweep => exact counted_buryDead h now
  | _ => exact h

/-- The list stands for the store, and neither is ever out of bounds. -/
structure Kept (s : Store K V) (l : Line K V) : Prop where
  listed : s.Listed l
  fits : l.Fits
  counted : s.Counted

theorem kept_empty (capacity : Option Nat) (lifetime : Duration) (policy : Policy) :
    (empty capacity lifetime policy : Store K V).Kept
      { rules := ⟨capacity, lifetime, policy⟩ } where
  listed := listed_empty capacity lifetime policy
  fits n _ := Nat.zero_le n
  counted := rfl

theorem kept_step {s : Store K V} {l : Line K V} (h : s.Kept l) (now : Instant) (op : Op K V) :
    (s.step now op).2.Kept (l.step now op).2 where
  listed := (listed_step h.listed now op).2
  fits := Line.fits_step h.fits now op
  counted := counted_step h.counted now op

theorem kept_run {s : Store K V} {l : Line K V} (h : s.Kept l) (ops : List (Instant × Op K V)) :
    (s.run ops).2.Kept (l.run ops).2 := by
  induction ops generalizing s l with
  | nil => exact h
  | cons first rest ih => exact ih (kept_step h first.1 first.2)

theorem Kept.coherent {s : Store K V} {l : Line K V} (h : s.Kept l) : s.Coherent := by
  have ha := h.listed.arranged
  have hkeys : ∀ r ∈ s.recency?, ∀ key, key ∈ r.toList ↔ key ∈ s.entries := by
    intro r hr key
    rw [ha.order r hr, ha.mem_keys_iff]
  constructor
  · exact ha.coherent
  · intro r hr key
    rw [← hkeys r hr, Recency.mem_toList_iff_mem_stamps (ha.coherent r hr)]
  · intro r hr key
    rw [← hkeys r hr, Recency.mem_toList_iff]
  · intro n hn
    rw [ha.size]
    exact h.fits n (congrArg Rules.capacity h.listed.rules ▸ hn)
  · exact h.counted

/-- A write of the key at `now` comes to give up an entry: the key is new, and the store stays full
without what is dead. -/
structure Overflows (s : Store K V) (key : K) (now : Instant) : Prop where
  takesEntries : s.capacity? ≠ some 0
  isNew : s.entries.contains key = false
  isFull : s.isFull = true
  staysFull : (s.buryDead now).2.isFull = true

/-- The victim is the key that was not used for longest; it is there, and goes alone. -/
structure Victim (s : Store K V) (key : K) (s' : Store K V) : Prop where
  oldest : ∃ r, s.recency? = some r ∧ r.oldest? = some key
  stored : s.entries.contains key = true
  evicted : s.evict? = some s'
  entries : s'.entries = s.entries.erase key
  size : s'.size + 1 = s.size

theorem exists_victim {s : Store K V} {l : Line K V} (h : s.Listed l) (hzero : s.capacity? ≠ some 0)
    (hfull : s.isFull = true) : ∃ key s', s.Victim key s' := by
  have hrules : s.capacity? = l.rules.capacity := congrArg Rules.capacity h.rules
  obtain ⟨p, rest, hentries⟩ := Line.exists_first (hrules ▸ hzero) (h.isFull ▸ hfull)
  obtain ⟨n, hn, -⟩ := Rules.isFull_iff.mp (h.isFull ▸ hfull)
  have ha := h.arranged
  rw [hentries] at ha
  obtain ⟨s', hs', ha', he, -, -⟩ := ha.evict? (by simp [hrules, hn])
  refine ⟨p.1, s', ?_, ?_, hs', he, ?_⟩
  · obtain ⟨b, hb, -⟩ := Option.map_eq_some_iff.mp (hrules.trans hn)
    have hr : s.recency? = some b.recency := by simp [recency?, hb]
    refine ⟨b.recency, hr, ?_⟩
    rw [Recency.oldest?_eq_head?, ha.order _ hr]
    rfl
  · rw [ExtTreeMap.contains_iff_mem, ← ha.mem_keys_iff]
    exact List.mem_cons_self
  · rw [ha'.size, ha.size]
    rfl

theorem insertFor_of_overflows {s s' : Store K V} {key victim : K} {now : Instant}
    (h : s.Overflows key now) (hv : (s.buryDead now).2.Victim victim s') (value : V)
    (life : Duration) :
    s.insertFor key value life now =
      (.evicted s'.size, (s'.place key (.write value life now)).noteSize) := by
  simp [insertFor, h.takesEntries, h.isNew, makeRoom, h.isFull, h.staysFull, hv.evicted]

/-- After any run, the parts of a store fit together, and a write that has to give up an entry gives
up exactly one. -/
theorem coherent_run (capacity : Option Nat) (lifetime : Duration) (policy : Policy)
    (ops : List (Instant × Op K V)) :
    let s := ((empty capacity lifetime policy : Store K V).run ops).2
    s.capacity? = capacity ∧ (s.recency?.isSome = capacity.isSome) ∧ s.Coherent ∧
      ∀ key now, s.Overflows key now → ∃ victim s', (s.buryDead now).2.Victim victim s' ∧
        ∀ value life, s.insertFor key value life now =
          (.evicted s'.size, (s'.place key (.write value life now)).noteSize) := by
  intro s
  have h := kept_run (kept_empty (K := K) (V := V) capacity lifetime policy) ops
  have hcapacity : s.capacity? = capacity :=
    congrArg Rules.capacity (h.listed.rules.trans (Line.rules_run _ ops))
  refine ⟨hcapacity, ?_, h.coherent, ?_⟩
  · rw [← hcapacity]
    simp [recency?, capacity?]
  · intro key now ho
    have hzero : (s.buryDead now).2.capacity? ≠ some 0 := by
      have hrules := congrArg Rules.capacity (rules_buryDead s now)
      exact fun hc => ho.takesEntries (hrules.symm.trans hc)
    obtain ⟨victim, s', hv⟩ := exists_victim (h.listed.buryDead now).2 hzero ho.staysFull
    exact ⟨victim, s', hv, insertFor_of_overflows ho hv⟩

theorem coherent_run_of_full :
    let s := ((empty (some 1) .zero .fixed : Store Nat Nat).run
      [(.origin, .insertFor 1 10 (.ofSeconds 1))]).2
    s.Overflows 2 .origin ∧ ∃ victim s', (s.buryDead .origin).2.Victim victim s' := by
  intro s
  have ho : s.Overflows 2 .origin := ⟨by decide, by decide, by decide, by decide⟩
  obtain ⟨victim, s', hv, -⟩ := (coherent_run (some 1) .zero .fixed
    [(.origin, .insertFor 1 10 (.ofSeconds 1))]).2.2.2 2 .origin ho
  exact ⟨ho, victim, s', hv⟩

end TimedCache.Store
