import Mathlib.Algebra.GroupWithZero.Nat
import TimedCache.Proofs.Store.Moments

/-!
The balance of a store. Every entry that was ever added is still there, or was given up, or was dead
and taken out, or was removed on purpose, and in exactly one of these ways; a store without room
gives up what it never took. The counters tell the rest of a run in the same manner.
-/
namespace TimedCache

variable {K V : Type}

namespace Line

theorem tally_buryDead (l : Line K V) (now : Instant) :
    (l.buryDead now).2.tally = l.tally.expire (l.buryDead now).1 := rfl

theorem tally_evict (l : Line K V) : l.evict.tally = l.tally.evict := rfl

theorem length_buryDead (l : Line K V) (now : Instant) :
    (l.buryDead now).2.entries.length + (l.buryDead now).1 = l.entries.length := by
  have h := l.entries.length_eq_length_filter_add fun p => p.2.isDead now
  rw [← List.countP_eq_length_filter] at h
  show (l.entries.filter fun p => !p.2.isDead now).length + l.entries.countP _ = _
  omega

variable [CacheKey K]

theorem length_without_add_one {l : Line K V} (hkeys : l.Distinct) {key : K} {e : Entry V}
    (he : l.find? key = some e) : (without l.entries key).length + 1 = l.entries.length := by
  have hmem : key ∈ l.entries.map Prod.fst := List.mem_map_of_mem (mem_of_find? he)
  have herase : (l.entries.map Prod.fst).erase key = (without l.entries key).map Prod.fst := by
    rw [keys_without, List.Nodup.erase_eq_filter hkeys]
    apply List.filter_congr
    intro k _
    simp [bne, beq_eq_decide]
  have hlength := List.length_erase_add_one hmem
  rw [herase, List.length_map, List.length_map] at hlength
  exact hlength

theorem without_of_none {l : Line K V} {key : K} (h : l.find? key = none) :
    without l.entries key = l.entries := without_eq_self (not_mem_keys_of_find?_eq_none h)

theorem find?_eq_none_of_forall {l : Line K V} {key : K} (h : ∀ p ∈ l.entries, p.1 ≠ key) :
    l.find? key = none := by
  simpa [find?] using h

/-- A write of a new key adds one entry, for which dead ones may go, or else a live one. -/
theorem balance_insertFor {l : Line K V} (hfits : l.Fits) (hkeys : l.Distinct) (key : K) (value : V)
    (life : Duration) (now : Instant) :
    let l' := (l.insertFor key value life now).2
    let isNew := !(l.find? key).isSome
    let buried := if isNew && l.isFull then (l.buryDead now).1 else 0
    l'.entries.length + l'.tally.evictions + buried =
        l.entries.length + l.tally.evictions + (if isNew then 1 else 0) ∧
      l'.tally.expirations = l.tally.expirations + buried ∧ l'.tally.hits = l.tally.hits ∧
      l'.tally.misses = l.tally.misses ∧ l'.tally.sweeps = l.tally.sweeps := by
  have ha := admitted_insertFor l key value life now
  have hlength := l.length_buryDead now
  generalize l.insertFor key value life now = written at ha ⊢
  obtain ⟨admission, l'⟩ := written
  cases ha with
  | dropped hzero =>
    -- Without room there is no entry, dead or live: the write was of a new key, and is given up.
    have hnil : l.entries = [] := List.eq_nil_of_length_eq_zero (Nat.le_zero.mp (hfits 0 hzero))
    have hnone : l.find? key = none := find?_eq_none_of_forall (by simp [hnil])
    simp [hnone, buryDead, hnil, note, Counters.evict]
  | replaced hzero hkey =>
    obtain ⟨e, he⟩ := Option.isSome_iff_exists.mp hkey
    simp [he, length_without_add_one hkeys he]
  | added hzero hkey hroom =>
    simp [hkey, hroom, without_of_none hkey]
    omega
  | reclaimed hzero hkey hfull hroom =>
    have hnone : (l.buryDead now).2.find? key = none := by
      apply find?_eq_none_of_forall
      exact fun p hp => ne_of_find?_eq_none hkey (mem_buryDead_iff.mp hp).1
    simp [hkey, hfull, without_of_none hnone, tally_buryDead, Counters.expire]
    omega
  | evicted hzero hkey hfull hstill =>
    have hnone : (l.buryDead now).2.evict.find? key = none := by
      apply find?_eq_none_of_forall
      exact fun p hp => ne_of_find?_eq_none hkey (mem_buryDead_iff.mp (List.mem_of_mem_tail hp)).1
    obtain ⟨p, rest, hfirst⟩ := exists_first (l := (l.buryDead now).2) hzero hstill
    have hevict : (l.buryDead now).2.evict.entries = rest := congrArg List.tail hfirst
    have hrest : without rest key = rest := hevict ▸ without_of_none hnone
    simp [hkey, hfull, hevict, hrest, tally_evict, tally_buryDead, Counters.evict, Counters.expire]
    rw [hfirst, List.length_cons] at hlength
    omega

end Line

namespace Store

@[simp] def Op.isGet : Op K V → Bool
  | .get _ => true
  | _ => false

@[simp] def Op.isSweep : Op K V → Bool
  | .sweep => true
  | _ => false

namespace Record

@[simp] def found (r : Record K V) : Bool :=
  match r.op, r.answer with
  | .get _, .value (some _) => true
  | _, _ => false

@[simp] def erased (r : Record K V) : Bool :=
  match r.op, r.answer with
  | .erase _, .flag b => b
  | _, _ => false

@[simp] def cleared (r : Record K V) : Nat :=
  match r.op, r.answer with
  | .clear, .count n => n
  | _, _ => 0

@[simp] def swept (r : Record K V) : Nat :=
  match r.op, r.answer with
  | .sweep, .count n => n
  | _, _ => 0

end Record

namespace Moment

variable [CacheKey K]

/-- Whether the moment is a write of a key that is not there, whether the store has room or not. -/
@[simp] def isNewWrite (m : Moment K V) : Bool :=
  match m.op with
  | .insert key _ | .insertFor key _ _ => !m.store.entries.contains key
  | _ => false

/-- The number of dead entries that had to go to make room for a new key. -/
@[simp] def reclaimed (m : Moment K V) : Nat :=
  if m.isNewWrite && m.store.isFull then (m.store.deadKeys m.now).length else 0

@[simp] def foundDead (m : Moment K V) : Bool :=
  match m.op with
  | .get key => m.store.entries[key]?.any fun e => e.isDead m.now
  | _ => false

end Moment

variable [CacheKey K]

/-- The moments account for all that is different between the counters before and after them. -/
structure Accounts (c : Counters) (past : List (Moment K V)) (c' : Counters) : Prop where
  entries : c.entries + c.evictions + c.expirations + past.countP (·.isNewWrite) =
    c'.entries + c'.evictions + c'.expirations + past.countP (·.erased) +
      (past.map (·.cleared)).sum
  hits : c.hits + past.countP (·.found) = c'.hits
  reads : c.hits + c.misses + past.countP (·.op.isGet) = c'.hits + c'.misses
  sweeps : c.sweeps + past.countP (·.op.isSweep) = c'.sweeps
  expirations : c.expirations + (past.map (·.swept)).sum + past.countP (·.foundDead) +
    (past.map (·.reclaimed)).sum = c'.expirations

theorem accounts_nil (c : Counters) : Accounts c ([] : List (Moment K V)) c := by
  constructor <;> rfl

theorem Accounts.cons {c c' c'' : Counters} {m : Moment K V} {later : List (Moment K V)}
    (h : Accounts c [m] c') (h' : Accounts c' later c'') : Accounts c (m :: later) c'' := by
  obtain ⟨hentries, hhits, hreads, hsweeps, hexpirations⟩ := h
  obtain ⟨hentries', hhits', hreads', hsweeps', hexpirations'⟩ := h'
  simp only [List.countP_singleton, List.map_singleton, List.sum_singleton] at *
  constructor <;> simp only [List.countP_cons, List.map_cons, List.sum_cons] <;> omega

variable {s : Store K V} {l : Line K V} {now : Instant}

theorem accounts_insertFor (h : s.Kept l) {op : Op K V} {key : K} {value : V} {life : Duration}
    (hop : op.written? l.rules.lifetime key = some (value, life)) :
    Accounts l.counters [s.moment now op] (l.insertFor key value life now).2.counters := by
  have hkeys : l.Distinct := h.listed.arranged.nodup_keys
  have hdead : (s.deadKeys now).length = (l.buryDead now).1 := (h.listed.buryDead now).1
  obtain ⟨hlength, hexpirations, hhits, hmisses, hsweeps⟩ :=
    Line.balance_insertFor h.fits hkeys key value life now
  rw [← h.listed.contains_eq, ← h.listed.isFull, ← hdead] at hlength hexpirations
  cases op with
  | insert k v | insertFor k v d =>
    obtain ⟨rfl, -⟩ := Option.ite_none_right_eq_some.mp hop
    simp only [Bool.and_eq_true, Bool.not_eq_true'] at hlength hexpirations
    constructor <;> simp [Line.counters, Counters.hold] <;> omega
  | _ => cases hop

theorem accounts_get (h : s.Kept l) (key : K) :
    Accounts l.counters [s.moment now (.get key)] (l.get key now).2.counters := by
  have hkeys : l.Distinct := h.listed.arranged.nodup_keys
  have hfind := h.listed.arranged.find?_eq key
  have hanswer : (s.step now (.get key)).1 = .value (l.get key now).1 :=
    congrArg Answer.value (h.listed.get key now).1
  cases he : l.find? key with
  | none =>
    rw [Line.get_of_none he] at hanswer ⊢
    show Accounts l.counters _ l.counters.miss
    constructor <;> simp [hanswer, ← hfind, he, Counters.miss, Nat.add_assoc]
  | some e =>
    have hlength := Line.length_without_add_one hkeys he
    cases hover : e.isDead now with
    | true =>
      rw [Line.get_of_dead he hover] at hanswer ⊢
      show Accounts l.counters _ ((l.erase key).counters.expire 1).miss
      constructor <;> simp [hanswer, ← hfind, he, hover, Line.counters, Line.erase, Counters.hold,
        Counters.expire, Counters.miss] <;> omega
    | false =>
      rw [Line.get_of_live he hover] at hanswer ⊢
      show Accounts l.counters _ (l.place key _).counters.hit
      constructor <;> simp [hanswer, ← hfind, he, hover, Line.counters, Line.place, Counters.hold,
        Counters.hit] <;> omega

theorem accounts_step (h : s.Kept l) (now : Instant) (op : Op K V) :
    Accounts s.counters [s.moment now op] (s.step now op).2.counters := by
  obtain ⟨hanswer, hlisted⟩ := listed_step h.listed now op
  rw [h.listed.counters, hlisted.counters]
  cases op with
  | insert key value => exact accounts_insertFor h (if_pos rfl)
  | insertFor key value life => exact accounts_insertFor h (if_pos rfl)
  | get key => exact accounts_get h key
  | erase key =>
    cases he : l.find? key with
    | none =>
      constructor <;> simp [hanswer, he, Line.step, Line.counters, Line.erase, Counters.hold,
        Line.without_of_none he]
    | some e =>
      have hlength := Line.length_without_add_one h.listed.arranged.nodup_keys he
      constructor <;> simp [hanswer, he, Line.step, Line.counters, Line.erase, Counters.hold]
      omega
  | clear =>
    constructor <;> simp [hanswer, Line.step, Line.counters, Counters.hold]
    omega
  | sweep =>
    have hlength := l.length_buryDead now
    constructor <;> simp [hanswer, Line.step, Line.counters, Line.note, Line.tally_buryDead,
      Counters.hold, Counters.expire, Counters.sweep]
    omega
  | contains | items | liveSize => constructor <;> simp [Line.step]

theorem accounts_run (h : s.Kept l) (ops : List (Instant × Op K V)) :
    Accounts s.counters (s.moments ops) (s.run ops).2.counters := by
  induction ops generalizing s l with
  | nil => exact accounts_nil s.counters
  | cons first rest ih =>
    obtain ⟨now, op⟩ := first
    exact (accounts_step h now op).cons (ih (kept_step h now op))

/-- The books of a store close: each write of a new key is made up for by an entry that is still
there, an eviction, an expiration, or an entry that was removed; every read is a hit or a miss, and
every expiration has a sweep, a read or a write that came upon a dead entry. -/
theorem balanced_run (capacity : Option Nat) (lifetime : Duration) (policy : Policy)
    (ops : List (Instant × Op K V)) :
    let past := (empty capacity lifetime policy : Store K V).moments ops
    let s := ((empty capacity lifetime policy : Store K V).run ops).2
    past.countP (·.isNewWrite) =
        s.size + s.counters.evictions + s.counters.expirations + past.countP (·.erased) +
          (past.map (·.cleared)).sum ∧
      s.counters.hits = past.countP (·.found) ∧
      s.counters.hits + s.counters.misses = past.countP (·.op.isGet) ∧
      s.counters.sweeps = past.countP (·.op.isSweep) ∧
      s.counters.expirations =
        (past.map (·.swept)).sum + past.countP (·.foundDead) + (past.map (·.reclaimed)).sum := by
  intro past s
  have h : Accounts {} past s.counters := accounts_run (kept_empty capacity lifetime policy) ops
  obtain ⟨hentries, hhits, hreads, hsweeps, hexpirations⟩ := h
  simp only [Nat.zero_add] at hentries hhits hreads hsweeps hexpirations
  exact ⟨hentries, hhits.symm, hreads.symm, hsweeps.symm, hexpirations.symm⟩

end Store
end TimedCache
