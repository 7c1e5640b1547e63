import TimedCache.Time.Duration

/-!
Instants, as nanoseconds after an origin. A clock's range ends, so a sum of an instant and a
duration may not exist; `add?` is then `none`, and a deadline that does not exist never comes.
-/
namespace TimedCache

/-- The end of the range of clocks: the greatest signed count of seconds in 64 bits. -/
abbrev Instant.limit : Nat := 9_223_372_036_854_775_807 * 1_000_000_000

structure Instant where
  nanos : Nat
  inRange : nanos < Instant.limit
deriving DecidableEq

namespace Instant

instance : LE Instant := ⟨fun a b => a.nanos ≤ b.nanos⟩
instance : LT Instant := ⟨fun a b => a.nanos < b.nanos⟩
instance (a b : Instant) : Decidable (a ≤ b) := inferInstanceAs (Decidable (a.nanos ≤ b.nanos))
instance (a b : Instant) : Decidable (a < b) := inferInstanceAs (Decidable (a.nanos < b.nanos))

theorem le_iff {a b : Instant} : a ≤ b ↔ a.nanos ≤ b.nanos := Iff.rfl
theorem lt_iff {a b : Instant} : a < b ↔ a.nanos < b.nanos := Iff.rfl

@[ext] theorem ext {a b : Instant} (h : a.nanos = b.nanos) : a = b := by
  cases a; cases b; simp_all

def origin : Instant := ⟨0, by decide⟩

instance : Inhabited Instant := ⟨origin⟩

def ofNanos? (n : Nat) : Option Instant :=
  if h : n < limit then some ⟨n, h⟩ else none

def add? (t : Instant) (d : Duration) : Option Instant := ofNanos? (t.nanos + d.nanos)

/-- The time from `earlier` to `t`, or zero if `earlier` is later. -/
def since (t earlier : Instant) : Duration := ⟨t.nanos - earlier.nanos⟩

instance : Max Instant := ⟨fun a b => if a ≤ b then b else a⟩

@[simp] theorem nanos_origin : origin.nanos = 0 := rfl
@[simp] theorem nanos_since (t earlier : Instant) :
    (t.since earlier).nanos = t.nanos - earlier.nanos := rfl

@[simp] theorem nanos_max (a b : Instant) : (max a b).nanos = max a.nanos b.nanos := by
  change (if a.nanos ≤ b.nanos then b else a).nanos = _
  split <;> omega

theorem ofNanos?_eq_some_iff {n : Nat} {t : Instant} : ofNanos? n = some t ↔ t.nanos = n := by
  unfold ofNanos?
  split
  · simp [Instant.ext_iff, eq_comm]
  · rename_i h
    simp only [reduceCtorEq, false_iff]
    exact fun e => h (e ▸ t.inRange)

theorem add?_eq_some_iff {t u : Instant} {d : Duration} :
    t.add? d = some u ↔ u.nanos = t.nanos + d.nanos := ofNanos?_eq_some_iff

theorem le_of_add?_eq_some {t u : Instant} {d : Duration} (h : t.add? d = some u) : t ≤ u := by
  rw [add?_eq_some_iff] at h
  rw [le_iff]
  omega

theorem add?_eq_none_iff {t : Instant} {d : Duration} :
    t.add? d = none ↔ limit ≤ t.nanos + d.nanos := by
  simp [add?, ofNanos?]

end Instant
end TimedCache
