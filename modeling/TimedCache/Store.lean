import TimedCache.Counters
import TimedCache.Entry
import TimedCache.Event
import TimedCache.Item
import TimedCache.Recency

/-!
The store of a cache: entries by key and, if their number is bounded, the order of their last uses.
Dead entries stay until a read, a sweep or a write in want of room finds them, and count towards
the bound until then; no operation answers with one.
-/
namespace TimedCache

open Std (ExtTreeMap)

/-- A bound on the number of entries, with the order that tells which entry to give up. -/
structure Bound (K : Type) [CacheKey K] where
  capacity : Nat
  recency : Recency K := {}

structure Store (K V : Type) [CacheKey K] where
  entries : ExtTreeMap K (Entry V) := ∅
  bound : Option (Bound K)
  tally : Counters := {}
  lifetime : Duration
  policy : Policy

/-- How a write found its place. -/
inductive Admission
  /-- The store has room for no entries at all, and the write was dropped. -/
  | dropped
  | replaced
  | added
  /-- The store was full, and `n` dead entries went. -/
  | reclaimed (n : Nat)
  /-- The store was full of live entries and one of them went; `left` entries stayed. -/
  | evicted (left : Nat)
deriving DecidableEq

def Admission.events : Admission → List Event
  | .dropped => [.writeDropped]
  | .evicted left => [.evicted left]
  | _ => []

namespace Store

variable {K V : Type} [CacheKey K]

def empty (capacity : Option Nat) (lifetime : Duration) (policy : Policy) : Store K V :=
  { bound := capacity.map fun n => { capacity := n }, lifetime, policy }

def capacity? (s : Store K V) : Option Nat := s.bound.map Bound.capacity

def recency? (s : Store K V) : Option (Recency K) := s.bound.map Bound.recency

/-- The number of entries, dead ones included. -/
def size (s : Store K V) : Nat := s.entries.size

def isEmpty (s : Store K V) : Bool := s.entries.isEmpty

/-- Whether one more key would pass the bound. -/
def isFull (s : Store K V) : Bool :=
  match s.bound with
  | some b => b.capacity ≤ s.size
  | none => false

def contains (s : Store K V) (key : K) (now : Instant) : Bool :=
  match s.entries[key]? with
  | some e => !s.policy.isDead e now
  | none => false

def items (s : Store K V) (now : Instant) : List (Item K V) :=
  (s.entries.toList.filter fun p => !s.policy.isDead p.2 now).map fun p => ⟨p.1, p.2.value⟩

def liveSize (s : Store K V) (now : Instant) : Nat :=
  s.entries.toList.countP fun p => !s.policy.isDead p.2 now

def deadKeys (s : Store K V) (now : Instant) : List K :=
  (s.entries.toList.filter fun p => s.policy.isDead p.2 now).map Prod.fst

def counters (s : Store K V) : Counters := s.tally.hold s.size

def note (s : Store K V) (f : Counters → Counters) : Store K V := { s with tally := f s.tally }

@[simp] theorem entries_note (s : Store K V) (f : Counters → Counters) :
    (s.note f).entries = s.entries := rfl

@[simp] theorem bound_note (s : Store K V) (f : Counters → Counters) :
    (s.note f).bound = s.bound := rfl

@[simp] theorem tally_note (s : Store K V) (f : Counters → Counters) :
    (s.note f).tally = f s.tally := rfl

def noteSize (s : Store K V) : Store K V := s.note (·.hold s.size)

@[simp] theorem entries_noteSize (s : Store K V) : s.noteSize.entries = s.entries := rfl

@[simp] theorem bound_noteSize (s : Store K V) : s.noteSize.bound = s.bound := rfl

@[simp] theorem tally_noteSize (s : Store K V) : s.noteSize.tally = s.tally.hold s.size := rfl

def reorder (s : Store K V) (f : Recency K → Recency K) : Store K V :=
  { s with bound := s.bound.map fun b => { b with recency := f b.recency } }

@[simp] theorem entries_reorder (s : Store K V) (f : Recency K → Recency K) :
    (s.reorder f).entries = s.entries := rfl

@[simp] theorem tally_reorder (s : Store K V) (f : Recency K → Recency K) :
    (s.reorder f).tally = s.tally := rfl

@[simp] theorem capacity?_reorder (s : Store K V) (f : Recency K → Recency K) :
    (s.reorder f).capacity? = s.capacity? := by
  simp [capacity?, reorder, Function.comp_def]

@[simp] theorem recency?_reorder (s : Store K V) (f : Recency K → Recency K) :
    (s.reorder f).recency? = s.recency?.map f := by
  simp [recency?, reorder, Function.comp_def]

/-- Stores an entry and makes its key the last used one. -/
def place (s : Store K V) (key : K) (e : Entry V) : Store K V :=
  { s with entries := s.entries.insert key e }.reorder (·.use key)

@[simp] theorem entries_place (s : Store K V) (key : K) (e : Entry V) :
    (s.place key e).entries = s.entries.insert key e := rfl

@[simp] theorem tally_place (s : Store K V) (key : K) (e : Entry V) :
    (s.place key e).tally = s.tally := rfl

/-- Takes out an entry that is there. -/
def discard (s : Store K V) (key : K) : Store K V :=
  ({ s with entries := s.entries.erase key }.reorder (·.erase key)).noteSize

@[simp] theorem entries_discard (s : Store K V) (key : K) :
    (s.discard key).entries = s.entries.erase key := rfl

/-- Answers whether the key was there, its entry live or dead. -/
def erase (s : Store K V) (key : K) : Bool × Store K V :=
  if s.entries.contains key then (true, s.discard key) else (false, s)

/-- Removes a dead entry: the one way in which reads, sweeps and writes drop what they find. -/
def bury (s : Store K V) (key : K) : Store K V :=
  match s.erase key with
  | (true, s) => s.note (·.expire 1)
  | (false, s) => s

/-- Removes every entry that is dead at `now`, and answers how many there were. -/
def buryDead (s : Store K V) (now : Instant) : Nat × Store K V :=
  let keys := s.deadKeys now
  (keys.length, keys.foldl bury s)

/-- Gives up the least recently used entry, if an order of uses names one. -/
def evict? (s : Store K V) : Option (Store K V) :=
  match s.bound with
  | none => none
  | some b => b.recency.popOldest?.map fun (key, recency) =>
    { s with entries := s.entries.erase key, bound := some { b with recency } }.note (·.evict)

/-- Makes room for a new key: dead entries go first, and only if there are none a live one. -/
def makeRoom (s : Store K V) (now : Instant) : Admission × Store K V :=
  if s.isFull then
    let (n, s) := s.buryDead now
    if s.isFull then
      match s.evict? with
      | some s => (.evicted s.size, s)
      | none => (.reclaimed n, s)
    else (.reclaimed n, s)
  else (.added, s)

/-- Writes an entry that lives for `life` from `now`. A key that is there keeps its room. -/
def insertFor (s : Store K V) (key : K) (value : V) (life : Duration) (now : Instant) :
    Admission × Store K V :=
  if s.capacity? = some 0 then (.dropped, s.note (·.evict))
  else
    let (admission, s) :=
      if s.entries.contains key then (.replaced, s) else s.makeRoom now
    (admission, (s.place key (.write value life now)).noteSize)

def insert (s : Store K V) (key : K) (value : V) (now : Instant) : Admission × Store K V :=
  s.insertFor key value s.lifetime now

/-- A read is a hit if it finds a live entry; a dead entry that it finds is removed. -/
def get (s : Store K V) (key : K) (now : Instant) : Option V × Store K V :=
  match s.entries[key]? with
  | none => (none, s.note (·.miss))
  | some e =>
    if s.policy.isDead e now then (none, (s.bury key).note (·.miss))
    else (some e.value, (s.place key (s.policy.read e now)).note (·.hit))

def clear (s : Store K V) : Nat × Store K V :=
  (s.size, ({ s with entries := ∅ }.reorder (·.clear)).noteSize)

/-- Removes the dead entries; it counts as a sweep even if there are none. -/
def sweep (s : Store K V) (now : Instant) : Nat × Store K V :=
  let (n, s) := s.buryDead now
  (n, s.note (·.sweep))

end Store
end TimedCache
