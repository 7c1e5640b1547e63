import TimedCache.Sweeping.Ticker

/-!
Ticks while time passes. A round of ticks ends with the next one still to come, and no more than a
period away; since every tick moves the deadline by a period at least, the deadline bounds their
number. Without jumps they come at their deadlines, a period apart.
-/
namespace TimedCache.Ticker

variable {k : Ticker} {start mid stop t now : Instant}

theorem run_of_due (h : k.due? start stop = some t) :
    k.run start stop = (t :: ((k.rearm t).run start stop).1, ((k.rearm t).run start stop).2) := by
  rw [run]
  split <;> simp_all

theorem run_of_not_due (h : k.due? start stop = none) : k.run start stop = ([], k) := by
  rw [run]
  split <;> simp_all

theorem due?_eq_none_iff : k.due? start stop = none ↔ stop.nanos < k.deadline := by
  simp [due?]

theorem tick_le (hle : start ≤ stop) (ht : t ∈ (k.run start stop).1) : t ≤ stop := by
  induction k using run.induct start stop with
  | case1 k h =>
    rw [run_of_not_due h] at ht
    cases ht
  | case2 k first h hless ticks last hrun ih =>
    rw [run_of_due h, List.mem_cons] at ht
    rcases ht with rfl | ht
    · have hdue := due?_eq_some h
      rw [Instant.le_iff] at hle ⊢
      omega
    · exact ih ht

theorem ticks_ne_nil (h : k.deadline ≤ stop.nanos) : (k.run start stop).1 ≠ [] := by
  cases hdue : k.due? start stop with
  | none => exact absurd (due?_eq_none_iff.mp hdue) (Nat.not_lt_of_le h)
  | some first => simp [run_of_due hdue]

theorem deadline_rearm_le (h : k.deadline ≤ now.nanos) :
    (k.rearm now).deadline ≤ now.nanos + k.period.nanos := by
  simp only [rearm]
  split <;> omega

theorem add_period_le_rearm (k : Ticker) (now : Instant) :
    k.deadline + k.period.nanos ≤ (k.rearm now).deadline := by
  simp only [rearm]
  split <;> omega

theorem deadline_rearm_of_eq (h : now.nanos = k.deadline) :
    (k.rearm now).deadline = k.deadline + k.period.nanos := by
  simp [rearm, h]

@[simp] theorem period_run (k : Ticker) (start stop : Instant) :
    (k.run start stop).2.period = k.period := by
  induction k using run.induct start stop with
  | case1 k h => rw [run_of_not_due h]
  | case2 k first h hless ticks last hrun ih =>
    rw [run_of_due h]
    exact ih

/-- A round does not end before the next tick is still to come. -/
theorem lt_deadline_run (k : Ticker) (start stop : Instant) :
    stop.nanos < (k.run start stop).2.deadline := by
  induction k using run.induct start stop with
  | case1 k h =>
    rw [run_of_not_due h]
    exact due?_eq_none_iff.mp h
  | case2 k first h hless ticks last hrun ih =>
    rw [run_of_due h]
    exact ih

theorem deadline_run_le (hle : start ≤ stop) {wait : Nat} (hperiod : k.period.nanos ≤ wait)
    (h : k.deadline ≤ stop.nanos + wait) : (k.run start stop).2.deadline ≤ stop.nanos + wait := by
  induction k using run.induct start stop with
  | case1 k hdue =>
    rw [run_of_not_due hdue]
    exact h
  | case2 k first hdue hless ticks last hrun ih =>
    obtain ⟨hk, hfirst⟩ := due?_eq_some hdue
    have hrearm : (k.rearm first).deadline ≤ first.nanos + k.period.nanos :=
      deadline_rearm_le (by omega)
    rw [Instant.le_iff] at hle
    rw [run_of_due hdue]
    exact ih hperiod (by omega)

/-- After a tick the next one is at most a period away, however far the first one was. -/
theorem deadline_run_le_of_tick (hle : start ≤ stop) (h : (k.run start stop).1 ≠ []) :
    (k.run start stop).2.deadline ≤ stop.nanos + k.period.nanos := by
  cases hdue : k.due? start stop with
  | none => exact absurd (congrArg Prod.fst (run_of_not_due hdue)) h
  | some first =>
    obtain ⟨hk, hfirst⟩ := due?_eq_some hdue
    have hrearm : (k.rearm first).deadline ≤ first.nanos + k.period.nanos :=
      deadline_rearm_le (by omega)
    have hstop := Instant.le_iff.mp hle
    rw [run_of_due hdue]
    exact deadline_run_le hle (Nat.le_of_eq (congrArg _ (k.period_rearm first))) (by omega)

theorem deadline_add_le_run (k : Ticker) (start stop : Instant) :
    k.deadline + (k.run start stop).1.length * k.period.nanos ≤ (k.run start stop).2.deadline := by
  induction k using run.induct start stop with
  | case1 k h => simp [run_of_not_due h]
  | case2 k first h hless ticks last hrun ih =>
    have hrearm := k.add_period_le_rearm first
    rw [period_rearm] at ih
    simp only [run_of_due h, List.length_cons, Nat.add_one_mul]
    omega

theorem length_run_mul_le (hle : start ≤ stop) (h : (k.run start stop).1 ≠ []) :
    k.deadline + (k.run start stop).1.length * k.period.nanos ≤ stop.nanos + k.period.nanos :=
  Nat.le_trans (k.deadline_add_le_run start stop) (deadline_run_le_of_tick hle h)

/-- Where time passes from makes no difference if the next tick is still to come there. -/
theorem run_of_ahead (hstart : start ≤ mid) (h : mid.nanos ≤ k.deadline) :
    k.run start stop = k.run mid stop := by
  have hle := Instant.le_iff.mp hstart
  induction k using run.induct start stop with
  | case1 k hdue =>
    rw [run_of_not_due hdue, run_of_not_due (due?_eq_none_iff.mpr (due?_eq_none_iff.mp hdue))]
  | case2 k first hdue hless ticks last hrun ih =>
    obtain ⟨hk, hfirst⟩ := due?_eq_some hdue
    have hdue' : k.due? mid stop = some first := by
      simp only [due?, hk, dite_true, Option.some.injEq, Instant.ext_iff, Instant.nanos_max]
      omega
    have hlater : k.deadline < (k.rearm first).deadline := deadline_lt_rearm k (by omega)
    rw [run_of_due hdue, run_of_due hdue', ih (by omega)]

theorem run_append (hmid : start ≤ mid) (hstop : mid ≤ stop) :
    k.run start stop = ((k.run start mid).1 ++ ((k.run start mid).2.run mid stop).1,
      ((k.run start mid).2.run mid stop).2) := by
  induction k using run.induct start mid with
  | case1 k hdue =>
    have hlater := due?_eq_none_iff.mp hdue
    rw [run_of_not_due hdue, run_of_ahead hmid (Nat.le_of_lt hlater)]
    rfl
  | case2 k first hdue hless ticks last hrun ih =>
    obtain ⟨hk, hfirst⟩ := due?_eq_some hdue
    have hdue' : k.due? start stop = some first := by
      rw [Instant.le_iff] at hstop
      have hk' : k.deadline ≤ stop.nanos := by omega
      simp only [due?, hk', dite_true, Option.some.injEq, Instant.ext_iff, Instant.nanos_max]
      omega
    rw [run_of_due hdue', run_of_due hdue, ih]
    rfl

/-- Ticks that are never late come at their deadlines, a period apart. -/
theorem run_of_never_late (h : start.nanos ≤ k.deadline) (stop : Instant) :
    (k.run start stop).1.map Instant.nanos =
        (List.range (k.run start stop).1.length).map (fun i => k.deadline + i * k.period.nanos) ∧
      (k.run start stop).2.deadline =
        k.deadline + (k.run start stop).1.length * k.period.nanos := by
  induction k using run.induct start stop with
  | case1 k hdue => simp [run_of_not_due hdue]
  | case2 k first hdue hless ticks last hrun ih =>
    obtain ⟨hk, hfirst⟩ := due?_eq_some hdue
    have hon : first.nanos = k.deadline := by omega
    have hrearm := deadline_rearm_of_eq hon
    obtain ⟨hticks, hlast⟩ := ih (by omega)
    rw [hrearm, period_rearm] at hticks hlast
    rw [run_of_due hdue, List.length_cons, List.range_succ_eq_map]
    constructor
    · simp only [List.map_cons, List.map_map, hticks, hon, Nat.zero_mul, Nat.add_zero,
        List.cons.injEq, true_and]
      apply List.map_congr_left
      intro i _
      simp only [Function.comp_apply, Nat.succ_eq_add_one, Nat.add_one_mul]
      omega
    · rw [hlast, Nat.add_one_mul]
      omega

/-- A jump is followed by one tick, or by as many as there are periods in the tolerance. -/
theorem length_run_jump_le (k : Ticker) (stop : Instant) :
    (k.run stop stop).1.length ≤ tolerance.nanos / k.period.nanos + 1 := by
  have hself : stop ≤ stop := Nat.le_refl stop.nanos
  cases hdue : k.due? stop stop with
  | none => simp [run_of_not_due hdue]
  | some first =>
    obtain ⟨hk, hfirst⟩ := due?_eq_some hdue
    by_cases hlate : stop.nanos ≤ k.deadline + tolerance.nanos
    · have hne : (k.run stop stop).1 ≠ [] := by simp [run_of_due hdue]
      have hlength := length_run_mul_le hself hne
      rw [← Nat.add_div_right _ k.period_pos, Nat.le_div_iff_mul_le k.period_pos]
      omega
    · have hrearm : (k.rearm first).deadline = first.nanos + k.period.nanos := by
        have hfirst' : ¬ first.nanos ≤ k.deadline + tolerance.nanos := by omega
        simp [rearm, hfirst']
      have hpos := k.period_pos
      have hnext : (k.rearm first).due? stop stop = none := due?_eq_none_iff.mpr (by omega)
      rw [run_of_due hdue, run_of_not_due hnext]
      simp

end TimedCache.Ticker
