/-!
Durations, in whole nanoseconds. `seconds` and `pastSecond` split a duration at its last
whole second, and `longest` is the longest one whose seconds fit 64 bits. `text` writes a duration
in the largest unit that leaves a whole part, without zeros at the end of the fraction.
-/
namespace TimedCache

structure Duration where
  nanos : Nat
deriving DecidableEq

namespace Duration

instance : Inhabited Duration := ⟨⟨0⟩⟩
instance : LE Duration := ⟨fun a b => a.nanos ≤ b.nanos⟩
instance : LT Duration := ⟨fun a b => a.nanos < b.nanos⟩
instance (a b : Duration) : Decidable (a ≤ b) := inferInstanceAs (Decidable (a.nanos ≤ b.nanos))
instance (a b : Duration) : Decidable (a < b) := inferInstanceAs (Decidable (a.nanos < b.nanos))

instance : Min Duration := ⟨fun a b => ⟨min a.nanos b.nanos⟩⟩

theorem le_iff {a b : Duration} : a ≤ b ↔ a.nanos ≤ b.nanos := Iff.rfl
theorem lt_iff {a b : Duration} : a < b ↔ a.nanos < b.nanos := Iff.rfl

@[ext] theorem ext {a b : Duration} (h : a.nanos = b.nanos) : a = b := by
  cases a; cases b; simp_all

def zero : Duration := ⟨0⟩

def ofSeconds (n : Nat) : Duration := ⟨n * 1_000_000_000⟩

def ofMillis (n : Nat) : Duration := ⟨n * 1_000_000⟩

def seconds (d : Duration) : Nat := d.nanos / 1_000_000_000

/-- The nanoseconds past the last whole second. -/
def pastSecond (d : Duration) : Nat := d.nanos % 1_000_000_000

def longest : Duration := ⟨18_446_744_073_709_551_615_999_999_999⟩

@[simp] theorem nanos_min (a b : Duration) : (min a b).nanos = min a.nanos b.nanos := rfl
@[simp] theorem nanos_zero : zero.nanos = 0 := rfl
@[simp] theorem nanos_ofSeconds (n : Nat) : (ofSeconds n).nanos = n * 1_000_000_000 := rfl

theorem seconds_add_pastSecond (d : Duration) :
    d.seconds * 1_000_000_000 + d.pastSecond = d.nanos := by
  simp only [seconds, pastSecond]
  omega

theorem pastSecond_lt (d : Duration) : d.pastSecond < 1_000_000_000 :=
  Nat.mod_lt _ (by decide)

/-- The `places` digits of a fraction, less the zeros at their end. -/
def fractionDigits (places fraction : Nat) : List Char :=
  let digits := Nat.toDigits 10 fraction
  let padded := List.replicate (places - digits.length) '0' ++ digits
  (padded.reverse.dropWhile (· == '0')).reverse

/-- Writes `n` with its last `places` digits as a fraction, and a point only if there is one. -/
def scaled (places n : Nat) : String :=
  let unit := Nat.pow 10 places
  let whole := String.ofList (Nat.toDigits 10 (n / unit))
  match fractionDigits places (n % unit) with
  | [] => whole
  | digits => whole ++ "." ++ String.ofList digits

def text (d : Duration) : String :=
  if 1_000_000_000 ≤ d.nanos then scaled 9 d.nanos ++ "s"
  else if 1_000_000 ≤ d.nanos then scaled 6 d.nanos ++ "ms"
  else if 1_000 ≤ d.nanos then scaled 3 d.nanos ++ "µs"
  else scaled 0 d.nanos ++ "ns"

example : (ofSeconds 300).text = "300s" := by decide +kernel
example : (⟨1500000000⟩ : Duration).text = "1.5s" := by decide +kernel
example : (⟨1000001⟩ : Duration).text = "1.000001ms" := by decide +kernel
example : (⟨20000⟩ : Duration).text = "20µs" := by decide +kernel
example : zero.text = "0ns" := by decide +kernel

end Duration
end TimedCache
