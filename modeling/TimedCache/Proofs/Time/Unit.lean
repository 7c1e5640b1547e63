import Mathlib.Algebra.Group.Nat.Defs
import TimedCache.Time.Unit

/-!
Amounts and durations. The duration of an amount and the amount of a duration are adjoint: an amount
lasts no longer than a duration just if the duration counts for at least as much. Seconds and the
nanoseconds past them are worked out apart, so nothing passes the width of its number.
-/
namespace TimedCache

namespace Duration

theorem le_longest_iff {d : Duration} : d ≤ longest ↔ d.seconds < UInt64.size := by
  have hlongest : longest.nanos = 18_446_744_073_709_551_615_999_999_999 := rfl
  rw [le_iff, hlongest, seconds, UInt64.size]
  omega

end Duration

namespace TimeUnit

variable {u v : TimeUnit}

/-- How many of the unit make up a second. -/
def perSecond : TimeUnit → Nat
  | .nanos => 1_000_000_000
  | .micros => 1_000_000
  | .millis => 1_000
  | .seconds => 1

theorem perSecond_mul_length (u : TimeUnit) : u.perSecond * u.length = 1_000_000_000 := by
  cases u <;> rfl

theorem perSecond_le (u : TimeUnit) : u.perSecond ≤ 1_000_000_000 := by cases u <;> decide

theorem seconds_span (u : TimeUnit) (n : UInt64) : (u.span n).seconds = n.toNat / u.perSecond := by
  rw [Duration.seconds, nanos_span, ← u.perSecond_mul_length]
  exact Nat.mul_div_mul_right _ _ u.length_pos

theorem pastSecond_span (u : TimeUnit) (n : UInt64) :
    (u.span n).pastSecond = n.toNat % u.perSecond * u.length := by
  rw [Duration.pastSecond, nanos_span, ← u.perSecond_mul_length]
  exact Nat.mul_mod_mul_right _ _ _

theorem count_eq (u : TimeUnit) (d : Duration) :
    u.count d = d.seconds * u.perSecond + d.pastSecond / u.length := by
  have hsecond : d.seconds * 1_000_000_000 = u.length * (d.seconds * u.perSecond) := by
    rw [← u.perSecond_mul_length, ← Nat.mul_assoc, Nat.mul_comm]
  rw [count, ← d.seconds_add_pastSecond, hsecond, Nat.mul_add_div u.length_pos]

theorem pastSecond_div_length_lt (u : TimeUnit) (d : Duration) :
    d.pastSecond / u.length < u.perSecond := by
  rw [Nat.div_lt_iff_lt_mul u.length_pos, u.perSecond_mul_length]
  exact d.pastSecond_lt

theorem seconds_span_lt (u : TimeUnit) (n : UInt64) : (u.span n).seconds < UInt64.size := by
  rw [seconds_span]
  exact Nat.lt_of_le_of_lt (Nat.div_le_self _ _) n.toNat_lt_size

theorem count_lt {d : Duration} (h : d ≤ .longest) : u.count d < 2 ^ 128 := by
  have hseconds : d.seconds < 2 ^ 64 := Duration.le_longest_iff.mp h
  have hpast := u.pastSecond_div_length_lt d
  calc u.count d
    _ = d.seconds * u.perSecond + d.pastSecond / u.length := u.count_eq d
    _ < (d.seconds + 1) * u.perSecond := by rw [Nat.add_one_mul]; omega
    _ ≤ 2 ^ 64 * 1_000_000_000 := Nat.mul_le_mul hseconds u.perSecond_le
    _ < 2 ^ 128 := by decide

theorem span_le_iff {n : UInt64} {d : Duration} : u.span n ≤ d ↔ n.toNat ≤ u.count d := by
  rw [Duration.le_iff, nanos_span, count, Nat.le_div_iff_mul_le u.length_pos]

/-- How many of the second unit make up one of the first. -/
def ratio (u v : TimeUnit) : Nat := u.length / v.length

theorem length_eq_ratio_mul (h : v.length ≤ u.length) : u.length = u.ratio v * v.length := by
  revert h
  cases u <;> cases v <;> decide

theorem count_eq_div (h : v.length ≤ u.length) (d : Duration) :
    u.count d = v.count d / u.ratio v := by
  rw [count, count, Nat.div_div_eq_div_mul, Nat.mul_comm v.length, ← length_eq_ratio_mul h]

theorem span_eq_span_mul (h : v.length ≤ u.length) {n : UInt64}
    (hfits : n.toNat * u.ratio v < UInt64.size) :
    u.span n = v.span (UInt64.ofNat (n.toNat * u.ratio v)) := by
  apply Duration.ext
  rw [nanos_span, nanos_span, UInt64.toNat_ofNat_of_lt' hfits, Nat.mul_assoc,
    ← length_eq_ratio_mul h]

theorem spanOrZero_mono {a b : Int64} (h : a ≤ b) : u.spanOrZero a ≤ u.spanOrZero b := by
  rw [Int64.le_iff_toInt_le] at h
  rw [Duration.le_iff, nanos_spanOrZero, nanos_spanOrZero]
  exact Nat.mul_le_mul_right _ (Int.toNat_le_toNat h)

theorem spanOrZero_eq_zero_iff {a : Int64} : u.spanOrZero a = .zero ↔ a ≤ 0 := by
  have hpos : u.length ≠ 0 := Nat.ne_of_gt u.length_pos
  rw [Duration.ext_iff, nanos_spanOrZero, Duration.nanos_zero, Nat.mul_eq_zero, or_iff_left hpos,
    Int.toNat_eq_zero, Int64.le_iff_toInt_le]
  rfl

/-- Amounts and durations are adjoint in every unit, and neither passes the width of its number.
Coarser units count the whole parts of what finer ones count, and no amount below zero lasts. -/
theorem span_adjoint_count (u : TimeUnit) :
    (∀ n : UInt64, (u.span n).seconds = n.toNat / u.perSecond ∧
        (u.span n).pastSecond = n.toNat % u.perSecond * u.length ∧
        (u.span n).seconds < UInt64.size ∧ (u.span n).pastSecond < 1_000_000_000) ∧
      (∀ d ≤ Duration.longest, u.count d < 2 ^ 128) ∧
      (∀ n d, u.span n ≤ d ↔ n.toNat ≤ u.count d) ∧
      (∀ n, u.count (u.span n) = n.toNat) ∧
      (∀ v : TimeUnit, v.length ≤ u.length →
        u.length = u.ratio v * v.length ∧ (∀ d, u.count d = v.count d / u.ratio v) ∧
          ∀ n : UInt64, n.toNat * u.ratio v < UInt64.size →
            u.span n = v.span (UInt64.ofNat (n.toNat * u.ratio v))) ∧
      (∀ a b : Int64, a ≤ b → u.spanOrZero a ≤ u.spanOrZero b) ∧
      ∀ a : Int64, u.spanOrZero a = .zero ↔ a ≤ 0 := by
  refine ⟨?_, fun d => count_lt, fun n d => span_le_iff, u.count_span, ?_,
    fun a b => spanOrZero_mono, fun a => spanOrZero_eq_zero_iff⟩
  · intro n
    exact ⟨u.seconds_span n, u.pastSecond_span n, u.seconds_span_lt n, (u.span n).pastSecond_lt⟩
  · intro v h
    exact ⟨length_eq_ratio_mul h, count_eq_div h, fun n => span_eq_span_mul h⟩

/-- The longest duration counts for more nanoseconds than 64 bits hold, and so does the greatest
amount of seconds. -/
theorem span_adjoint_count_of_longest :
    let last : UInt64 := 18_446_744_073_709_551_615
    UInt64.size < nanos.count .longest ∧ nanos.count .longest < 2 ^ 128 ∧
      seconds.span last ≤ .longest ∧ seconds.count .longest = micros.count .longest / 1_000_000 ∧
      millis.span 1_500 = micros.span 1_500_000 ∧ millis.spanOrZero (-3) ≤ millis.spanOrZero 2 := by
  intro last
  obtain ⟨-, hwidth, -⟩ := span_adjoint_count nanos
  obtain ⟨-, -, hadjoint, -, hunits, -⟩ := span_adjoint_count seconds
  obtain ⟨-, -, -, -, hmillis, hmono, -⟩ := span_adjoint_count millis
  refine ⟨by decide, hwidth .longest (by decide), (hadjoint last .longest).mpr (by decide),
    (hunits micros (by decide)).2.1 .longest, (hmillis micros (by decide)).2.2 1_500 (by decide),
    hmono (-3) 2 (by decide)⟩

end TimeUnit
end TimedCache
