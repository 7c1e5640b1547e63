import TimedCache.Proofs.Store.Coherence

/-!
Stores and their lists, seen from outside. After every operation, at whatever times, a store answers
and counts as its list does, holds the same entries, and would give up the same one next. A list
takes writes by one rule for all bounds but zero: a store without room takes nothing.
-/
namespace TimedCache

/-- All that there is to see after an operation. -/
structure View (K V : Type) where
  answer : Store.Answer K V
  size : Nat
  counters : Counters
  /-- The key that goes if an entry has to be given up. -/
  next? : Option K
  entry? : K → Option (Entry V)
  liveSize : Instant → Nat
  items : Instant → List (Item K V)

variable {K V : Type}

namespace Line

theorem isFull_iff_of_fits {l : Line K V} (h : l.Fits) :
    l.isFull = true ↔ l.rules.capacity = some l.entries.length := by
  rw [isFull, Rules.isFull_iff]
  constructor
  · rintro ⟨n, hn, hle⟩
    rw [hn, Nat.le_antisymm hle (h n hn)]
  · intro hlength
    exact ⟨_, hlength, Nat.le_refl _⟩

theorem fits_buryDead {l : Line K V} (h : l.Fits) (now : Instant) : (l.buryDead now).2.Fits :=
  fun n hn => Nat.le_trans (List.length_filter_le _ l.entries) (h n hn)

end Line

variable [CacheKey K]

namespace Store

/-- The key that `evict?` would take. -/
def next? (s : Store K V) : Option K := s.recency?.bind fun r => r.popOldest?.map Prod.fst

def view (s : Store K V) (answer : Answer K V) : View K V where
  answer
  size := s.size
  counters := s.counters
  next? := s.next?
  entry? key := s.entries[key]?
  liveSize := s.liveSize
  items := s.items

def views (s : Store K V) : List (Instant × Op K V) → List (View K V)
  | [] => []
  | (now, op) :: rest =>
    let (answer, s) := s.step now op
    s.view answer :: s.views rest

end Store

namespace Line

def next? (l : Line K V) : Option K := l.rules.capacity.bind fun _ => l.entries.head?.map Prod.fst

def view (l : Line K V) (answer : Store.Answer K V) : View K V where
  answer
  size := l.entries.length
  counters := l.counters
  next? := l.next?
  entry? := l.find?
  liveSize now := (living l.entries now).length
  items := l.items

def views (l : Line K V) : List (Instant × Store.Op K V) → List (View K V)
  | [] => []
  | (now, op) :: rest =>
    let (answer, l) := l.step now op
    l.view answer :: l.views rest

/-- A write by one rule for all bounds. A key that is there is replaced; a new key that meets as
many entries as the bound allows drops the dead ones and then, if there are still as many, the one
in front. -/
def push (l : Line K V) (key : K) (e : Entry V) (now : Instant) : Line K V :=
  if (l.find? key).isSome then l.place key e
  else if l.rules.capacity = some l.entries.length then
    let l := (l.buryDead now).2
    (if l.rules.capacity = some l.entries.length then l.evict else l).place key e
  else l.place key e

theorem push_of_room {l : Line K V} {key : K} (hkey : l.find? key = none)
    (hroom : l.rules.capacity ≠ some l.entries.length) (e : Entry V) (now : Instant) :
    l.push key e now = l.place key e := by
  simp [push, hkey, hroom]

theorem push_of_full {l : Line K V} {key : K} (hkey : l.find? key = none)
    (hfull : l.rules.capacity = some l.entries.length) (e : Entry V) (now : Instant) :
    l.push key e now =
      (if (l.buryDead now).2.rules.capacity = some (l.buryDead now).2.entries.length then
        (l.buryDead now).2.evict else (l.buryDead now).2).place key e := by
  simp [push, hkey, hfull]

theorem insertFor_eq_push {l : Line K V} (h : l.Fits) (hzero : l.rules.capacity ≠ some 0)
    (key : K) (value : V) (life : Duration) (now : Instant) :
    (l.insertFor key value life now).2 = l.push key (.write value life now) now := by
  have hfull := isFull_iff_of_fits h
  have hstill := isFull_iff_of_fits (fits_buryDead h now)
  have ha := admitted_insertFor l key value life now
  generalize l.insertFor key value life now = written at ha ⊢
  obtain ⟨admission, l'⟩ := written
  cases ha with
  | dropped hzero' => exact absurd hzero' hzero
  | replaced _ hkey => exact (if_pos hkey).symm
  | added _ hkey hroom =>
    rw [← Bool.not_eq_true, hfull] at hroom
    exact (push_of_room hkey hroom _ now).symm
  | reclaimed _ hkey hfull' hroom =>
    rw [← Bool.not_eq_true, hstill] at hroom
    rw [push_of_full hkey (hfull.mp hfull'), if_neg hroom]
    rfl
  | evicted _ hkey hfull' hstill' =>
    rw [push_of_full hkey (hfull.mp hfull'), if_pos (hstill.mp hstill')]
    rfl

end Line

namespace Store

variable {s : Store K V} {l : Line K V}

theorem Listed.next? (h : s.Listed l) : s.next? = l.next? := by
  have hcapacity : s.bound.map Bound.capacity = l.rules.capacity := congrArg Rules.capacity h.rules
  rw [Line.next?, ← hcapacity]
  cases hbound : s.bound with
  | none => simp [Store.next?, recency?, hbound]
  | some b =>
    have hr : b.recency ∈ s.recency? := by simp [recency?, hbound]
    have holdest : b.recency.popOldest?.map Prod.fst = b.recency.oldest? := by
      simp [Recency.popOldest?, Recency.oldest?, Function.comp_def]
    have hlist := h.arranged.order _ hr
    rw [Recency.oldest?_eq_head?, hlist, List.head?_map] at holdest
    simpa [Store.next?, recency?, hbound] using holdest

theorem Listed.view (h : s.Listed l) (answer : Answer K V) : s.view answer = l.view answer := by
  rw [Store.view, Line.view, h.arranged.size, h.counters, h.next?, funext h.liveSize,
    funext h.items, funext h.arranged.find?_eq]

theorem Listed.views (h : s.Listed l) (ops : List (Instant × Op K V)) :
    s.views ops = l.views ops := by
  induction ops generalizing s l with
  | nil => rfl
  | cons first rest ih =>
    obtain ⟨now, op⟩ := first
    obtain ⟨hanswer, hlisted⟩ := listed_step h now op
    simp only [Store.views, Line.views, hanswer, hlisted.view, ih hlisted]

/-- A store always looks like its list, and writes as its list pushes if it has room for entries:
where a new key finds the list full, what is dead goes, and the entry in front only if the list is
full without that. A store without room counts a write as an eviction, and that is all. -/
theorem views_eq_line (capacity : Option Nat) (lifetime : Duration) (policy : Policy)
    (ops : List (Instant × Op K V)) :
    let l : Line K V := { rules := ⟨capacity, lifetime, policy⟩ }
    (empty capacity lifetime policy : Store K V).views ops = l.views ops ∧
      ∀ key value life now, ((l.run ops).2.insertFor key value life now).2 =
        if capacity = some 0 then (l.run ops).2.note (·.evict)
        else (l.run ops).2.push key (.write value life now) now := by
  intro l
  have h : (empty capacity lifetime policy : Store K V).Kept l :=
    kept_empty capacity lifetime policy
  refine ⟨h.listed.views ops, ?_⟩
  intro key value life now
  have hrules : (l.run ops).2.rules.capacity = capacity := congrArg Rules.capacity (l.rules_run ops)
  split
  · rename_i hzero
    rw [Line.insertFor, hrules, if_pos hzero]
  · rename_i hzero
    exact Line.insertFor_eq_push (kept_run h ops).fits (hrules ▸ hzero) key value life now

/-- Bound zero has to be excepted: no entry is in front of the one pushed, which would stay. -/
theorem push_without_room :
    let s : Store Nat Nat := empty (some 0) (.ofSeconds 1) .fixed
    let l : Line Nat Nat := { rules := ⟨some 0, .ofSeconds 1, .fixed⟩ }
    let after := (s.run [(.origin, .insert 1 10)]).2
    let pushed := l.push 1 (.write 10 (.ofSeconds 1) .origin) .origin
    s.Listed l ∧ after.size = 0 ∧ after.contains 1 .origin = false ∧
      pushed.entries.length = 1 ∧ pushed.contains 1 .origin = true := by
  refine ⟨listed_empty (some 0) (.ofSeconds 1) .fixed, ?_⟩
  decide

end Store
end TimedCache
