import TimedCache.Proofs.Store.Balance

/-!
What a write does to a store, in full. The entry that it writes is the last one used from then on,
and of the others none goes if there is room for the key; else all those go that are dead, or if
there are none the one that was not used for longest. What stays, stays as it was.
-/
namespace TimedCache

open Std (ExtTreeMap)

variable {K V : Type}

theorem Entry.isDead_write_iff {value : V} {life : Duration} {now : Instant} :
    (write value life now).isDead now = true ↔ life = .zero := by
  rw [isDead_iff, deadline_write]
  constructor
  · rintro ⟨deadline, hadd, hle⟩
    rw [Instant.add?_eq_some_iff] at hadd
    rw [Instant.le_iff] at hle
    apply Duration.ext
    rw [Duration.nanos_zero]
    omega
  · rintro rfl
    exact ⟨now, Instant.add?_eq_some_iff.mpr rfl, Nat.le_refl _⟩

namespace Line

variable {l : Line K V} {now : Instant}

def deadCount (l : Line K V) (now : Instant) : Nat := l.entries.countP fun p => p.2.isDead now

theorem buryDead_of_none_dead (h : l.deadCount now = 0) : l.buryDead now = (0, l) := by
  have hliving : living l.entries now = l.entries := by
    rw [living, List.filter_eq_self]
    simpa using List.countP_eq_zero.mp h
  have hcount : (l.entries.countP fun p => p.2.isDead now) = 0 := h
  simp only [buryDead, hcount, hliving, note, Counters.expire_zero]

/-- Without its dead entries a list that keeps its bound has room, if there are any. -/
theorem isFull_buryDead_of_dead (hfits : l.Fits) (h : 0 < l.deadCount now) :
    (l.buryDead now).2.isFull = false := by
  apply Rules.isFull_eq_false_iff.mpr
  intro n hn
  have hlength := l.length_buryDead now
  have hcount : (l.buryDead now).1 = l.deadCount now := rfl
  have hle := hfits n hn
  omega

variable [CacheKey K] {key : K}

theorem insertFor_of_room (hzero : l.rules.capacity ≠ some 0)
    (hroom : (l.find? key).isSome = true ∨ l.isFull = false) (value : V) (life : Duration) :
    (l.insertFor key value life now).2 = l.place key (.write value life now) := by
  cases hkey : (l.find? key).isSome with
  | true => simp [insertFor, hzero, hkey]
  | false =>
    have hfull : l.isFull = false := hroom.resolve_left (by simp [hkey])
    simp [insertFor, hzero, hkey, makeRoom, hfull]

theorem insertFor_of_dead (hfits : l.Fits) (hzero : l.rules.capacity ≠ some 0)
    (hkey : l.find? key = none) (hfull : l.isFull = true) (hdead : 0 < l.deadCount now) (value : V)
    (life : Duration) :
    (l.insertFor key value life now).2 = (l.buryDead now).2.place key (.write value life now) := by
  have hroom := isFull_buryDead_of_dead hfits hdead
  simp [insertFor, hzero, hkey, makeRoom, hfull, hroom]

theorem insertFor_of_none_dead (hzero : l.rules.capacity ≠ some 0) (hkey : l.find? key = none)
    (hfull : l.isFull = true) (hdead : l.deadCount now = 0) (value : V) (life : Duration) :
    (l.insertFor key value life now).2 = l.evict.place key (.write value life now) := by
  simp [insertFor, hzero, hkey, makeRoom, hfull, buryDead_of_none_dead hdead]

end Line

variable [CacheKey K]

namespace Store

open Line (without living)

/-- The store `s'` has the entry, as the last one used, and what `s` had but for the keys that are
`gone`: each other entry as it was, and in the same order of uses. -/
structure Leaves (s s' : Store K V) (key : K) (e : Entry V) (gone : K → Bool) : Prop where
  rules : s'.rules = s.rules
  written : s'.entries[key]? = some e
  others : ∀ k, k ≠ key → s'.entries[k]? = if gone k then none else s.entries[k]?
  order : ∀ r ∈ s.recency?, ∃ r' ∈ s'.recency?,
    r'.toList = (r.toList.filter fun k => k ≠ key ∧ ¬gone k) ++ [key]

variable {s s' : Store K V} {l l' : Line K V} {key : K} {e : Entry V} {gone : K → Bool}

theorem isSome_recency? (s : Store K V) : s.recency?.isSome = s.rules.capacity.isSome := by
  simp [rules, recency?, capacity?]

theorem leaves_of_listed (h : s.Listed l) (h' : s'.Listed l') (hrules : l'.rules = l.rules)
    (hentries : l'.entries = (l.entries.filter fun p => p.1 ≠ key ∧ ¬gone p.1) ++ [(key, e)]) :
    s.Leaves s' key e gone := by
  have hrules' : s'.rules = s.rules := by rw [h'.rules, hrules, h.rules]
  constructor
  · exact hrules'
  · rw [← h'.arranged.mem_iff, hentries]
    simp
  · intro k hk
    ext e'
    rw [← h'.arranged.mem_iff, hentries]
    cases hgone : gone k <;> simp [hk, hgone, h.arranged.mem_iff]
  · intro r hr
    have hsome : s'.recency?.isSome = true := by
      rw [isSome_recency?, hrules', ← isSome_recency?]
      exact Option.isSome_of_eq_some hr
    obtain ⟨r', hr'⟩ := Option.isSome_iff_exists.mp hsome
    refine ⟨r', hr', ?_⟩
    rw [h'.arranged.order r' hr', h.arranged.order r hr, hentries, List.map_append,
      List.filter_map]
    rfl

variable {now : Instant} {value : V} {life : Duration}

theorem deadCount_eq (h : s.Listed l) (now : Instant) :
    (s.entries.toList.countP fun p => p.2.isDead now) = l.deadCount now :=
  h.arranged.perm.countP_eq _

theorem leaves_of_room (h : s.Kept l) (hzero : l.rules.capacity ≠ some 0)
    (hroom : (l.find? key).isSome = true ∨ l.isFull = false) :
    let s' := (s.insertFor key value life now).2
    s.Leaves s' key (.write value life now) (fun _ => false) ∧
      s'.counters = s.counters.hold s'.size := by
  intro s'
  have h' := (h.listed.insertFor key value life now).2
  rw [Line.insertFor_of_room hzero hroom] at h'
  refine ⟨leaves_of_listed h.listed h' rfl (by simp [Line.place, Line.without]), ?_⟩
  rw [h.listed.counters, h'.counters, h'.arranged.size]
  rfl

theorem leaves_of_dead (h : s.Kept l) (hzero : l.rules.capacity ≠ some 0)
    (hkey : l.find? key = none) (hfull : l.isFull = true) (hdead : 0 < l.deadCount now) :
    let s' := (s.insertFor key value life now).2
    s.Leaves s' key (.write value life now) (fun k => s.entries[k]?.any (·.isDead now)) ∧
      s'.counters = (s.counters.expire (l.deadCount now)).hold s'.size := by
  intro s'
  have h' := (h.listed.insertFor key value life now).2
  rw [Line.insertFor_of_dead h.fits hzero hkey hfull hdead] at h'
  refine ⟨leaves_of_listed h.listed h' rfl ?_, ?_⟩
  · have hfilter : without (living l.entries now) key =
        l.entries.filter fun p => p.1 ≠ key ∧ ¬(s.entries[p.1]?.any (·.isDead now)) := by
      rw [without, living, List.filter_filter]
      apply List.filter_congr
      intro p hp
      simp [h.listed.arranged.mem_iff.mp hp]
    exact congrArg (· ++ [(key, _)]) hfilter
  · rw [h.listed.counters, h'.counters, h'.arranged.size]
    rfl

theorem leaves_of_none_dead (h : s.Kept l) (hzero : l.rules.capacity ≠ some 0)
    (hkey : l.find? key = none) (hfull : l.isFull = true) (hdead : l.deadCount now = 0) :
    let s' := (s.insertFor key value life now).2
    ∃ p rest, l.entries = p :: rest ∧ s.Leaves s' key (.write value life now) (· = p.1) ∧
      s'.counters = s.counters.evict.hold s'.size := by
  intro s'
  have h' := (h.listed.insertFor key value life now).2
  rw [Line.insertFor_of_none_dead hzero hkey hfull hdead] at h'
  obtain ⟨p, rest, hentries⟩ := Line.exists_first hzero hfull
  refine ⟨p, rest, hentries, leaves_of_listed h.listed h' rfl ?_, ?_⟩
  · have hrest : without l.entries p.1 = rest := by
      have hkeys := h.listed.arranged.nodup_keys
      rw [hentries] at hkeys
      rw [hentries, Line.without_first hkeys]
    have hevict : l.evict.entries = rest := congrArg List.tail hentries
    have hfilter : without l.evict.entries key =
        l.entries.filter fun q => q.1 ≠ key ∧ ¬decide (q.1 = p.1) = true := by
      rw [hevict, ← hrest, without, without, List.filter_filter]
      simp
    exact congrArg (· ++ [(key, _)]) hfilter
  · rw [h.listed.counters, h'.counters, h'.arranged.size]
    rfl

theorem oldest?_of_first (h : s.Listed l) (hbound : l.rules.capacity.isSome = true)
    {p : K × Entry V} {rest : List (K × Entry V)} (hentries : l.entries = p :: rest) :
    ∃ r, s.recency? = some r ∧ r.oldest? = some p.1 := by
  have hsome : s.recency?.isSome = true := by rw [isSome_recency?, h.rules, hbound]
  obtain ⟨r, hr⟩ := Option.isSome_iff_exists.mp hsome
  refine ⟨r, hr, ?_⟩
  rw [Recency.oldest?_eq_head?, h.arranged.order r hr, hentries]
  rfl

theorem get_of_stored (h : s.entries[key]? = some e) (now : Instant) :
    (s.get key now).1 = if e.isDead now then none else some e.value := by
  cases hdead : e.isDead now <;> simp [get, h, hdead]

theorem written_insertFor (hzero : s.capacity? ≠ some 0) :
    (s.insertFor key value life now).2.entries[key]? = some (.write value life now) := by
  simp [insertFor, hzero]

/-- The full effect of a write on a store that any operations have led to. No bound is passed.
Without room for entries the write is counted, and nothing else. Otherwise its entry can be read at
once unless its life is zero, and the rest depends on the room: a key that is there, or that a store
has room for, costs no other entry, dead or live; a new key that finds the store full costs all that
are dead, or if there are none the one that was not used for longest, and never both. -/
theorem insertFor_leaves (capacity : Option Nat) (lifetime : Duration) (policy : Policy)
    (ops : List (Instant × Op K V)) (key : K) (value : V) (life : Duration) (now : Instant) :
    let s := ((empty capacity lifetime policy : Store K V).run ops).2
    let s' := (s.insertFor key value life now).2
    let e : Entry V := { value, lastUse := now, deadline := now.add? life }
    let dead := s.entries.toList.countP fun p => p.2.isDead now
    (∀ n ∈ capacity, s'.size ≤ n) ∧ (capacity = some 0 → s' = s.note (·.evict)) ∧
      (capacity ≠ some 0 →
        (s'.get key now).1 = (if life = .zero then none else some value) ∧
        (s.entries.contains key = true ∨ (∀ n ∈ capacity, s.size < n) →
          s.Leaves s' key e (fun _ => false) ∧ s'.counters = s.counters.hold s'.size) ∧
        (s.entries.contains key = false → capacity = some s.size →
          (0 < dead → s.Leaves s' key e (fun k => s.entries[k]?.any (·.isDead now)) ∧
            s'.counters = (s.counters.expire dead).hold s'.size) ∧
          (dead = 0 → ∃ r victim, s.recency? = some r ∧ r.oldest? = some victim ∧
            s.entries.contains victim = true ∧ s.Leaves s' key e (· = victim) ∧
            s'.counters = s.counters.evict.hold s'.size))) := by
  intro s s' e dead
  let start : Line K V := { rules := ⟨capacity, lifetime, policy⟩ }
  have h : s.Kept (start.run ops).2 := kept_run (kept_empty capacity lifetime policy) ops
  have h' := kept_step h now (.insertFor key value life)
  have hrules : (start.run ops).2.rules.capacity = capacity :=
    congrArg Rules.capacity (start.rules_run ops)
  generalize (start.run ops).2 = l at h h' hrules
  have hcapacity : s.capacity? = capacity := (congrArg Rules.capacity h.listed.rules).trans hrules
  have hcontains := h.listed.contains_eq key
  have hdead : dead = l.deadCount now := deadCount_eq h.listed now
  refine ⟨?_, ?_, fun hzero => ⟨?_, ?_, ?_⟩⟩
  · have hcapacity' : s'.capacity? = capacity := by
      have hsame := h'.listed.rules.trans (l.rules_step now _)
      exact (congrArg Rules.capacity hsame).trans hrules
    exact hcapacity' ▸ h'.coherent.fits
  · intro hzero
    show (s.insertFor key value life now).2 = _
    rw [insertFor, hcapacity, if_pos hzero]
  · rw [get_of_stored (written_insertFor (hcapacity ▸ hzero))]
    simp only [Entry.isDead_write_iff, Entry.value_write]
  · intro hroom
    refine leaves_of_room h (hrules ▸ hzero) (hroom.imp (hcontains ▸ ·) ?_)
    intro hsize
    apply Rules.isFull_eq_false_iff.mpr
    rw [hrules, ← h.listed.arranged.size]
    exact hsize
  · intro hkey hsize
    have hnone : l.find? key = none := by simpa [hkey] using hcontains.symm
    have hfull : l.isFull = true :=
      Rules.isFull_iff.mpr ⟨s.size, hrules.trans hsize, Nat.le_of_eq h.listed.arranged.size⟩
    rw [hdead]
    refine ⟨leaves_of_dead h (hrules ▸ hzero) hnone hfull, ?_⟩
    intro hnodead
    obtain ⟨p, rest, hentries, hleaves⟩ :=
      leaves_of_none_dead h (hrules ▸ hzero) hnone hfull hnodead
    obtain ⟨r, hr, holdest⟩ := oldest?_of_first h.listed (by simp [hrules, hsize]) hentries
    refine ⟨r, p.1, hr, holdest, ?_, hleaves⟩
    rw [ExtTreeMap.contains_iff_mem, ← h.listed.arranged.mem_keys_iff, hentries]
    exact List.mem_cons_self

/-- Of two entries in a full store one is dead and goes, and the other stays. -/
theorem insertFor_leaves_of_full :
    let now : Instant := ⟨2_000_000_000, by decide⟩
    let ops : List (Instant × Op Nat Nat) :=
      [(.origin, .insertFor 1 10 (.ofSeconds 5)), (.origin, .insertFor 2 20 (.ofSeconds 1))]
    let s := ((empty (some 2) (.ofSeconds 9) .fixed : Store Nat Nat).run ops).2
    let s' := (s.insertFor 3 30 (.ofSeconds 1) now).2
    s.entries.contains 3 = false ∧ s.size = 2 ∧ (s'.get 3 now).1 = some 30 ∧
      s'.entries[2]? = none ∧ s'.entries[1]? = s.entries[1]? ∧ s'.counters.expirations = 1 ∧
      s'.counters.evictions = 0 := by
  intro now ops s s'
  have hkey : s.entries.contains 3 = false := by decide
  have hsize : s.size = 2 := by decide
  obtain ⟨-, -, hwritten⟩ :=
    insertFor_leaves (some 2) (.ofSeconds 9) .fixed ops 3 30 (.ofSeconds 1) now
  obtain ⟨hget, -, hfull⟩ := hwritten (by decide)
  obtain ⟨hleaves, hcounters⟩ := (hfull hkey (congrArg some hsize.symm)).1 (by decide)
  refine ⟨hkey, hsize, hget, hleaves.others 2 (by decide), hleaves.others 1 (by decide), ?_, ?_⟩
  · rw [hcounters]
    decide
  · rw [hcounters]
    decide

end Store
end TimedCache
