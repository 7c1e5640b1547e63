import TimedCache.Time.Duration

/-!
Units of time. `span` multiplies an amount of a unit out and `count` gives the whole units in a
duration; an amount of 64 bits never leaves the range of durations.
-/
namespace TimedCache

inductive TimeUnit
  | nanos
  | micros
  | millis
  | seconds
deriving DecidableEq

namespace TimeUnit

instance : Inhabited TimeUnit := ⟨.seconds⟩

/-- Finest first. -/
def all : List TimeUnit := [.nanos, .micros, .millis, .seconds]

def code : TimeUnit → Nat
  | .nanos => 0
  | .micros => 1
  | .millis => 2
  | .seconds => 3

def name : TimeUnit → String
  | .nanos => "Nanos"
  | .micros => "Micros"
  | .millis => "Millis"
  | .seconds => "Seconds"

def label : TimeUnit → String
  | .nanos => "NANOS"
  | .micros => "MICROS"
  | .millis => "MILLS"
  | .seconds => "SECONDS"

def length : TimeUnit → Nat
  | .nanos => 1
  | .micros => 1_000
  | .millis => 1_000_000
  | .seconds => 1_000_000_000

def span (u : TimeUnit) (n : UInt64) : Duration := ⟨n.toNat * u.length⟩

/-- A negative amount spans no time. -/
def spanOrZero (u : TimeUnit) (n : Int64) : Duration := u.span (UInt64.ofNat n.toInt.toNat)

def count (u : TimeUnit) (d : Duration) : Nat := d.nanos / u.length

theorem mem_all (u : TimeUnit) : u ∈ all := by cases u <;> decide

theorem length_pos (u : TimeUnit) : 0 < u.length := by cases u <;> decide

@[simp] theorem nanos_span (u : TimeUnit) (n : UInt64) :
    (u.span n).nanos = n.toNat * u.length := rfl

@[simp] theorem count_span (u : TimeUnit) (n : UInt64) : u.count (u.span n) = n.toNat := by
  simp [count, Nat.mul_div_cancel _ u.length_pos]

@[simp] theorem nanos_spanOrZero (u : TimeUnit) (n : Int64) :
    (u.spanOrZero n).nanos = n.toInt.toNat * u.length := by
  have h : n.toInt.toNat < UInt64.size := by
    have := n.toInt_lt
    simp only [UInt64.size]
    omega
  rw [spanOrZero, nanos_span, UInt64.toNat_ofNat_of_lt' h]

end TimeUnit
end TimedCache
