import TimedCache.Proofs.Store.Balance
import TimedCache.Proofs.Store.Sweeps

/-!
What a store reports of its work. It reports a write that it dropped and an entry that it gave up
for want of room, and counts either as an eviction. A store gives up an entry only when it is full,
so what stays is one less than it has room for.
-/
namespace TimedCache

namespace Event

/-- An entry was given up, or a write dropped, for want of room. -/
def isEviction (e : Event) : Bool :=
  e.level = .trace ∧ (e.message = "Evicted least recently used entry" ∨
    e.message = "Cache has zero capacity, dropping write")

def isSweep (e : Event) : Bool := "Sweep: ".toList.isPrefixOf e.message.toList

def isClose (e : Event) : Bool := e.message = "Cache closed"

def sweepLine (removed : Nat) : String :=
  if 0 < removed then "INFO Sweep: removed " ++ toString removed ++ " expired entries"
  else "DEBUG Sweep: no expired entries found"

theorem line_swept (n : Nat) : (swept n).line = sweepLine n := by
  cases n with
  | zero => decide +kernel
  | succ n =>
    show "INFO" ++ " " ++ ("Sweep: removed " ++ toString (n + 1) ++ " expired entries") = _
    simp only [← String.append_assoc]
    rfl

theorem isSweep_swept (n : Nat) : (swept n).isSweep = true := by
  cases n with
  | zero => decide +kernel
  | succ n => simp [isSweep, message, String.toList_append]

/-- The message of a sweep may hold any number, but no other message begins as it does. -/
theorem message_swept_ne (n : Nat) {s : String}
    (h : "Sweep: ".toList.isPrefixOf s.toList = false) : (swept n).message ≠ s := by
  rintro rfl
  have hsweep := isSweep_swept n
  rw [isSweep, h] at hsweep
  cases hsweep

theorem message_eq_evicted_iff {e : Event} :
    e.message = "Evicted least recently used entry" ↔ ∃ left, e = .evicted left := by
  cases e with
  | swept n => simpa using message_swept_ne n (by decide +kernel)
  | _ => simp [message]

theorem message_eq_writeDropped_iff {e : Event} :
    e.message = "Cache has zero capacity, dropping write" ↔ e = .writeDropped := by
  cases e with
  | swept n => simpa using message_swept_ne n (by decide +kernel)
  | _ => simp [message]

theorem isClose_iff {e : Event} : e.isClose = true ↔ ∃ released, e = .closed released := by
  rw [isClose, decide_eq_true_iff]
  cases e with
  | swept n => simpa using message_swept_ne n (by decide +kernel)
  | _ => simp [message]

theorem isSweep_iff {e : Event} : e.isSweep = true ↔ ∃ n, e = .swept n := by
  cases e with
  | swept n => simp [isSweep_swept]
  | _ => simp [isSweep, message]

theorem isEviction_iff {e : Event} :
    e.isEviction = true ↔ (∃ left, e = .evicted left) ∨ e = .writeDropped := by
  rw [isEviction, decide_eq_true_iff, message_eq_evicted_iff, message_eq_writeDropped_iff]
  constructor
  · exact And.right
  · rintro (⟨left, rfl⟩ | rfl)
    · exact ⟨rfl, .inl ⟨left, rfl⟩⟩
    · exact ⟨rfl, .inr rfl⟩

theorem isSweep_of_isEviction {e : Event} (h : e.isEviction = true) : e.isSweep = false := by
  rw [Bool.eq_false_iff, ne_eq, isSweep_iff]
  rcases isEviction_iff.mp h with ⟨left, rfl⟩ | rfl <;> simp

theorem isClose_of_isEviction {e : Event} (h : e.isEviction = true) : e.isClose = false := by
  rw [Bool.eq_false_iff, ne_eq, isClose_iff]
  rcases isEviction_iff.mp h with ⟨left, rfl⟩ | rfl <;> simp

end Event

/-- What `events` tell of evictions is what was counted meanwhile, and what the bound allows. -/
structure Evictions (capacity : Option Nat) (events : List Event) (before after : Counters) :
    Prop where
  counted : after.evictions = before.evictions + events.countP Event.isEviction
  evicted : ∀ left, .evicted left ∈ events → capacity = some (left + 1)
  dropped : .writeDropped ∈ events → capacity = some 0

theorem evictions_of_none {capacity : Option Nat} {events : List Event} {before after : Counters}
    (h : ∀ e ∈ events, e.isEviction = false) (hcounters : after.evictions = before.evictions) :
    Evictions capacity events before after where
  counted := by
    rw [List.countP_eq_zero.mpr (by simpa using h), hcounters]
    rfl
  evicted left hleft := absurd (h _ hleft) (by simp [Event.isEviction_iff])
  dropped hdropped := absurd (h _ hdropped) (by simp [Event.isEviction_iff])

variable {K V : Type}

namespace Line

/-- A line that is full without its dead entries has one entry less than it has room for, once the
first is given up. -/
theorem capacity_of_evicted {l : Line K V} (hfits : l.Fits) (hzero : l.rules.capacity ≠ some 0)
    {now : Instant} (hstill : (l.buryDead now).2.isFull = true) :
    l.rules.capacity = some ((l.buryDead now).2.evict.entries.length + 1) := by
  obtain ⟨n, hn, hle⟩ := Rules.isFull_iff.mp hstill
  have hcapacity : l.rules.capacity = some n := hn
  have hfit : l.entries.length ≤ n := hfits n hn
  have hliving := l.length_buryDead now
  have htail : (l.buryDead now).2.evict.entries.length = (l.buryDead now).2.entries.length - 1 :=
    List.length_tail
  have hpos : n ≠ 0 := fun h => hzero (h ▸ hn)
  -- The living fill the bound by themselves, and the line was never beyond it.
  have hleft : (l.buryDead now).2.evict.entries.length + 1 = n := by omega
  rw [hcapacity, hleft]

variable [CacheKey K]

theorem evictions_insertFor {l : Line K V} (hfits : l.Fits) (key : K) (value : V) (life : Duration)
    (now : Instant) : Evictions l.rules.capacity (l.insertFor key value life now).1.events
      l.counters (l.insertFor key value life now).2.counters := by
  have ha := admitted_insertFor l key value life now
  generalize l.insertFor key value life now = written at ha ⊢
  obtain ⟨admission, l'⟩ := written
  cases ha with
  | dropped hzero => exact ⟨rfl, by simp [Admission.events], fun _ => hzero⟩
  | evicted hzero hkey hfull hstill =>
    have hlength := capacity_of_evicted hfits hzero hstill
    exact ⟨rfl, by simpa [Admission.events] using hlength, by simp [Admission.events]⟩
  | _ => exact evictions_of_none (by simp [Admission.events]) rfl

end Line

namespace Store

theorem isEviction_of_mem_events {answer : Answer K V} {e : Event} (he : e ∈ answer.events) :
    e.isEviction = true := by
  rw [Event.isEviction_iff]
  cases answer with
  | admission how => cases how <;> simp_all [Answer.events, Admission.events]
  | _ => cases he

variable [CacheKey K] {s : Store K V} {l : Line K V}

theorem evictions_step (h : s.Kept l) (now : Instant) (op : Op K V) :
    Evictions l.rules.capacity (s.step now op).1.events s.counters (s.step now op).2.counters := by
  obtain ⟨hanswer, hlisted⟩ := listed_step h.listed now op
  rw [h.listed.counters, hlisted.counters, hanswer]
  have hsilent : ∀ e ∈ ([] : List Event), e.isEviction = false := by simp
  cases op with
  | insert key value => exact Line.evictions_insertFor h.fits key value _ now
  | insertFor key value life => exact Line.evictions_insertFor h.fits key value life now
  | get key => exact evictions_of_none hsilent (l.evictions_get key now)
  | _ => exact evictions_of_none hsilent rfl

theorem sweeps_step (h : s.Kept l) (now : Instant) (op : Op K V) :
    (s.step now op).2.counters.sweeps = s.counters.sweeps + if op.isSweep then 1 else 0 := by
  have haccounts := (accounts_step h now op).sweeps
  rw [← haccounts, List.countP_singleton]
  rfl

def sweepEach (s : Store K V) (ts : List Instant) : Store K V :=
  ts.foldl (fun s t => (s.sweep t).2) s

def removals (s : Store K V) : List Instant → List Nat
  | [] => []
  | t :: rest => (s.size - (s.sweep t).2.size) :: (s.sweep t).2.removals rest

theorem sweep_fst (h : s.Kept l) (t : Instant) : (s.sweep t).1 = s.size - (s.sweep t).2.size := by
  have hsize := (swept_sweep h.listed t).size
  omega

theorem kept_sweepEach (h : s.Kept l) (ts : List Instant) :
    ∃ l', (s.sweepEach ts).Kept l' ∧ l'.rules = l.rules ∧
      l'.counters.evictions = l.counters.evictions ∧
      l'.counters.sweeps = l.counters.sweeps + (s.removals ts).length := by
  induction ts generalizing s l with
  | nil => exact ⟨l, h, rfl, rfl, rfl⟩
  | cons t rest ih =>
    have hnext : (s.sweep t).2.Kept (l.step t .sweep).2 := kept_step h t .sweep
    have hcount : (l.step t .sweep).2.counters.sweeps = l.counters.sweeps + 1 := rfl
    obtain ⟨l', hlast, hrules, hevictions, hsweeps⟩ := ih hnext
    refine ⟨l', hlast, hrules, hevictions, ?_⟩
    rw [hsweeps, hcount, removals, List.length_cons]
    omega

end Store
end TimedCache
