import Mathlib.Algebra.Ring.Int.Defs
import Mathlib.Order.WellFounded
import TimedCache.Proofs.Text.Numeral
import TimedCache.Settings.Variables

/-!
What variables tell of settings. Each is read by itself: it is not set, or tells something, or has a
mistake in its text. The settings are what the variables tell, with the defaults where they tell
nothing; or else the first mistake in the order of the settings is the answer, and a sweep that is
never due only where the texts have none.
-/
namespace TimedCache

open Text (Blank)
open Text.Numeral (Signed)

/-- Less the white space around it, the text is a numeral for the number, and that fits 64 bits. -/
structure Spells (given : String) (n : Int) : Prop where
  numeral : ∃ before digits after, Blank before ∧ Signed digits n ∧ Blank after ∧
    given.toList = before ++ digits ++ after
  lower : -2 ^ 63 ≤ n
  upper : n < 2 ^ 63

theorem integer?_eq_some_iff {given : String} {n : Int} :
    integer? given = some n ↔ Spells given n := by
  have hmin : Int64.minValue.toInt = -2 ^ 63 := by decide
  have hmax : Int64.maxValue.toInt = 2 ^ 63 - 1 := by decide
  simp only [integer?, Option.filter_eq_some_iff, Text.Numeral.signed?_eq_some_iff, hmin, hmax,
    Bool.and_eq_true, decide_eq_true_eq]
  constructor
  · rintro ⟨hsigned, hlow, hhigh⟩
    obtain ⟨-, before, after, hbefore, hafter, htext⟩ := Text.trim_eq_iff.mp (rfl : _ = Text.trim _)
    exact ⟨⟨before, _, after, hbefore, hsigned, hafter, htext⟩, hlow, by omega⟩
  · rintro ⟨⟨before, digits, after, hbefore, hsigned, hafter, htext⟩, hlow, hhigh⟩
    rw [htext, Text.trim_append hbefore hsigned.bare hafter]
    exact ⟨hsigned, hlow, by omega⟩

theorem spells_cases (given : String) :
    (∀ n, ¬ Spells given n) ∨ (∃ n < 0, Spells given n) ∨ ∃ n : Nat, Spells given n := by
  by_cases h : ∃ n, Spells given n
  · obtain ⟨n, hn⟩ := h
    cases n with
    | ofNat n => exact .inr (.inr ⟨n, hn⟩)
    | negSucc n => exact .inr (.inl ⟨_, Int.negSucc_lt_zero n, hn⟩)
  · exact .inl (not_exists.mp h)

namespace Setting

def Before (s t : Setting) : Prop := all.idxOf s < all.idxOf t

instance (s t : Setting) : Decidable (s.Before t) := inferInstanceAs (Decidable (_ < _))

variable {setting : Setting} {given : String}

theorem readCount_of_not_spells (h : ∀ n, ¬ Spells given n) :
    setting.readCount given = .error (.misconfigured (.notAnInteger setting given)) := by
  have hnone : integer? given = none :=
    Option.eq_none_iff_forall_ne_some.mpr fun n hn => h n (integer?_eq_some_iff.mp hn)
  rw [readCount, hnone]

theorem readCount_of_negative {n : Int} (h : Spells given n) (hneg : n < 0) :
    setting.readCount given = .error (.misconfigured (.negative setting n)) := by
  rw [readCount, integer?_eq_some_iff.mpr h]
  exact if_pos hneg

theorem readCount_of_count {n : Nat} (h : Spells given n) : setting.readCount given = .ok n := by
  rw [readCount, integer?_eq_some_iff.mpr h]
  exact if_neg (Int.not_lt.mpr (Int.natCast_nonneg n))

end Setting

theorem TimeUnit.eq_unknownUnit_of_parse {given : String} {e : SetupError}
    (h : parse given = .error e) : ∃ word, e = .unknownUnit word := by
  unfold parse ofCode at h
  grind

namespace Variables

/-- The unit that the variables tell, or seconds. -/
inductive TellsUnit (v : Variables) : TimeUnit → Prop
  | unset (h : v.text? .unit = none) : TellsUnit v .seconds
  | given {given : String} {u : TimeUnit} (h : v.text? .unit = some given)
    (hu : TimeUnit.parse given = .ok u) : TellsUnit v u

/-- The count that the variables tell for a setting, or none. -/
inductive Tells (v : Variables) (setting : Setting) : Option Nat → Prop
  | unset (h : v.text? setting = none) : Tells v setting none
  | given {given : String} {n : Nat} (h : v.text? setting = some given) (hn : Spells given n) :
    Tells v setting (some n)

/-- The settings of these counts. Amounts of time count in the unit, but the defaults do not. -/
def settled (u : TimeUnit) (sweepEvery lifetime capacity readWindow : Option Nat) : Settings where
  sweepEvery := (sweepEvery.map fun n => ⟨n * u.length⟩).getD (.ofSeconds 1)
  lifetime := (lifetime.map fun n => ⟨n * u.length⟩).getD (.ofSeconds 300)
  unit := u
  capacity := capacity
  readWindow := readWindow.map fun n => ⟨n * u.length⟩

structure TellsAll (v : Variables) (u : TimeUnit)
    (sweepEvery lifetime capacity readWindow : Option Nat) : Prop where
  unit : v.TellsUnit u
  sweepEvery : v.Tells .sweepEvery sweepEvery
  lifetime : v.Tells .lifetime lifetime
  capacity : v.Tells .capacity capacity
  readWindow : v.Tells .readWindow readWindow

inductive Give (v : Variables) : Settings → Prop
  | settings {u : TimeUnit} {sweepEvery lifetime capacity readWindow : Option Nat}
    (h : v.TellsAll u sweepEvery lifetime capacity readWindow) (hsweeps : sweepEvery ≠ some 0) :
    Give v (settled u sweepEvery lifetime capacity readWindow)

/-- What is wrong with the text of a variable. -/
inductive Mistake (v : Variables) : Setting → SetupError → Prop
  | unknownUnit {given word : String} (h : v.text? .unit = some given)
    (hu : TimeUnit.parse given = .error (.unknownUnit word)) : Mistake v .unit (.unknownUnit word)
  | notAnInteger {setting : Setting} {given : String} (hsetting : setting ≠ .unit)
    (h : v.text? setting = some given) (hn : ∀ n, ¬ Spells given n) :
    Mistake v setting (.misconfigured (.notAnInteger setting given))
  | negative {setting : Setting} {given : String} {n : Int} (hsetting : setting ≠ .unit)
    (h : v.text? setting = some given) (hn : Spells given n) (hneg : n < 0) :
    Mistake v setting (.misconfigured (.negative setting n))

/-- The text of the variable has no mistake. -/
def Sound (v : Variables) (setting : Setting) : Prop := ∀ e, ¬ v.Mistake setting e

/-- Why the variables give no settings: the first mistake in the order of the settings, or without
any a sweep that is never due. -/
inductive Fail (v : Variables) : SetupError → Prop
  | mistake {setting : Setting} {e : SetupError} (h : v.Mistake setting e)
    (hfirst : ∀ t : Setting, t.Before setting → v.Sound t) : Fail v e
  | noSweeps {u : TimeUnit} {lifetime capacity readWindow : Option Nat}
    (h : v.TellsAll u (some 0) lifetime capacity readWindow) : Fail v (.misconfigured .noSweeps)

variable {v w : Variables} {setting : Setting} {s : Settings} {u : TimeUnit} {e : SetupError}
  {n : Option Nat}

theorem unit_of_tells (h : v.TellsUnit u) : v.unit = .ok u := by
  unfold unit
  cases h with
  | unset h =>
    rw [h]
    rfl
  | given h hu =>
    rw [h]
    exact hu

theorem unit_of_mistake (h : v.Mistake .unit e) : v.unit = .error e := by
  unfold unit
  cases h with
  | unknownUnit h hu =>
    rw [h]
    exact hu
  | notAnInteger hsetting | negative hsetting => exact absurd rfl hsetting

theorem tellsUnit_or_mistake (v : Variables) :
    (∃ u, v.TellsUnit u) ∨ ∃ e, v.Mistake .unit e := by
  cases hgiven : v.text? .unit with
  | none => exact .inl ⟨_, .unset hgiven⟩
  | some given =>
    cases hparse : TimeUnit.parse given with
    | ok u => exact .inl ⟨u, .given hgiven hparse⟩
    | error e =>
      obtain ⟨word, rfl⟩ := TimeUnit.eq_unknownUnit_of_parse hparse
      exact .inr ⟨_, .unknownUnit hgiven hparse⟩

theorem count?_of_tells (h : v.Tells setting n) : v.count? setting = .ok n := by
  unfold count?
  cases h with
  | unset h => rw [h]
  | given h hn =>
    rw [h]
    exact congrArg (Except.map some) (Setting.readCount_of_count hn)

theorem count?_of_mistake (hsetting : setting ≠ .unit) (h : v.Mistake setting e) :
    v.count? setting = .error e := by
  unfold count?
  cases h with
  | unknownUnit => exact absurd rfl hsetting
  | notAnInteger _ h hn =>
    rw [h]
    exact congrArg (Except.map some) (Setting.readCount_of_not_spells hn)
  | negative _ h hn hneg =>
    rw [h]
    exact congrArg (Except.map some) (Setting.readCount_of_negative hn hneg)

theorem tells_or_mistake (v : Variables) (hsetting : setting ≠ .unit) :
    (∃ n, v.Tells setting n) ∨ ∃ e, v.Mistake setting e := by
  cases hgiven : v.text? setting with
  | none => exact .inl ⟨_, .unset hgiven⟩
  | some given =>
    rcases spells_cases given with hn | ⟨n, hneg, hn⟩ | ⟨n, hn⟩
    · exact .inr ⟨_, .notAnInteger hsetting hgiven hn⟩
    · exact .inr ⟨_, .negative hsetting hgiven hn hneg⟩
    · exact .inl ⟨_, .given hgiven hn⟩

theorem Sound.tellsUnit (h : v.Sound .unit) : ∃ u, v.TellsUnit u :=
  v.tellsUnit_or_mistake.resolve_right (not_exists.mpr h)

theorem Sound.tells (h : v.Sound setting) (hsetting : setting ≠ .unit) : ∃ n, v.Tells setting n :=
  (v.tells_or_mistake hsetting).resolve_right (not_exists.mpr h)

theorem span?_of_tells (h : v.Tells setting n) (u : TimeUnit) :
    v.span? u setting = .ok (n.map fun n => ⟨n * u.length⟩) := by
  rw [span?, count?_of_tells h]
  cases h with
  | unset h => rfl
  | given h hn =>
    -- A count stays below half the range of amounts, so it does not wrap around.
    have hlt := hn.upper
    refine congrArg (Except.ok ∘ some) (Duration.ext ?_)
    rw [TimeUnit.nanos_span, UInt64.toNat_ofNat_of_lt' (by rw [UInt64.size]; omega)]

theorem span?_of_mistake (hsetting : setting ≠ .unit) (h : v.Mistake setting e) (u : TimeUnit) :
    v.span? u setting = .error e := by
  rw [span?, count?_of_mistake hsetting h]
  rfl

theorem validate_settled (u : TimeUnit) (sweepEvery lifetime capacity readWindow : Option Nat) :
    (settled u sweepEvery lifetime capacity readWindow).validate =
      if sweepEvery = some 0 then .error (.misconfigured .noSweeps) else .ok () := by
  have hpos : u.length ≠ 0 := u.length_pos.ne'
  cases sweepEvery with
  | none => rfl
  | some n =>
    simp only [Settings.validate, settled, Duration.zero, Option.map_some, Option.getD_some,
      Duration.mk.injEq, Option.some.injEq, Nat.mul_eq_zero, hpos, or_false]

theorem ofVariables_of_tells {sweepEvery lifetime capacity readWindow : Option Nat}
    (h : v.TellsAll u sweepEvery lifetime capacity readWindow) :
    Settings.ofVariables v = if sweepEvery = some 0 then .error (.misconfigured .noSweeps)
      else .ok (settled u sweepEvery lifetime capacity readWindow) := by
  simp only [Settings.ofVariables, unit_of_tells h.unit, span?_of_tells h.sweepEvery,
    span?_of_tells h.lifetime, count?_of_tells h.capacity, span?_of_tells h.readWindow, bind,
    Except.bind]
  show ((settled u sweepEvery lifetime capacity readWindow).validate.bind fun _ =>
    .ok (settled u sweepEvery lifetime capacity readWindow)) = _
  rw [validate_settled]
  split <;> rfl

theorem ofVariables_of_give (h : v.Give s) : Settings.ofVariables v = .ok s := by
  cases h with
  | settings h hsweeps => rw [ofVariables_of_tells h, if_neg hsweeps]

theorem ofVariables_of_mistake (h : v.Mistake setting e)
    (hfirst : ∀ t : Setting, t.Before setting → v.Sound t) : Settings.ofVariables v = .error e := by
  -- Each setting before the mistake tells something, and none behind it is read.
  cases setting with
  | unit => simp only [Settings.ofVariables, unit_of_mistake h, bind, Except.bind]
  | sweepEvery =>
    obtain ⟨u, hunit⟩ := (hfirst .unit (by decide)).tellsUnit
    have hspan := span?_of_mistake (by decide) h u
    simp only [Settings.ofVariables, unit_of_tells hunit, hspan, bind, Except.bind]
  | lifetime =>
    obtain ⟨u, hunit⟩ := (hfirst .unit (by decide)).tellsUnit
    obtain ⟨sweepEvery, hsweepEvery⟩ := (hfirst .sweepEvery (by decide)).tells (by decide)
    have hspan := span?_of_mistake (by decide) h u
    simp only [Settings.ofVariables, unit_of_tells hunit, span?_of_tells hsweepEvery, hspan, bind,
      Except.bind]
  | capacity =>
    obtain ⟨u, hunit⟩ := (hfirst .unit (by decide)).tellsUnit
    obtain ⟨sweepEvery, hsweepEvery⟩ := (hfirst .sweepEvery (by decide)).tells (by decide)
    obtain ⟨lifetime, hlifetime⟩ := (hfirst .lifetime (by decide)).tells (by decide)
    have hcount := count?_of_mistake (by decide) h
    simp only [Settings.ofVariables, unit_of_tells hunit, span?_of_tells hsweepEvery,
      span?_of_tells hlifetime, hcount, bind, Except.bind]
  | readWindow =>
    obtain ⟨u, hunit⟩ := (hfirst .unit (by decide)).tellsUnit
    obtain ⟨sweepEvery, hsweepEvery⟩ := (hfirst .sweepEvery (by decide)).tells (by decide)
    obtain ⟨lifetime, hlifetime⟩ := (hfirst .lifetime (by decide)).tells (by decide)
    obtain ⟨capacity, hcapacity⟩ := (hfirst .capacity (by decide)).tells (by decide)
    have hspan := span?_of_mistake (by decide) h u
    simp only [Settings.ofVariables, unit_of_tells hunit, span?_of_tells hsweepEvery,
      span?_of_tells hlifetime, count?_of_tells hcapacity, hspan, bind, Except.bind]

theorem ofVariables_of_fail (h : v.Fail e) : Settings.ofVariables v = .error e := by
  cases h with
  | mistake h hfirst => exact ofVariables_of_mistake h hfirst
  | noSweeps h => rw [ofVariables_of_tells h, if_pos rfl]

theorem exists_first_mistake (h : ∃ setting, ¬ v.Sound setting) : ∃ setting e,
    v.Mistake setting e ∧ ∀ t : Setting, t.Before setting → v.Sound t := by
  obtain ⟨setting, hsetting, hmin⟩ :=
    WellFounded.has_min (measure Setting.all.idxOf).wf {setting | ¬ v.Sound setting} h
  obtain ⟨e, he⟩ := not_forall_not.mp hsetting
  exact ⟨setting, e, he, fun t ht => by_contra fun hnot => hmin t hnot ht⟩

theorem tellsAll_of_sound (h : ∀ setting, v.Sound setting) :
    ∃ u sweepEvery lifetime capacity readWindow,
      v.TellsAll u sweepEvery lifetime capacity readWindow := by
  obtain ⟨u, hunit⟩ := (h .unit).tellsUnit
  obtain ⟨sweepEvery, hsweepEvery⟩ := (h .sweepEvery).tells (by decide)
  obtain ⟨lifetime, hlifetime⟩ := (h .lifetime).tells (by decide)
  obtain ⟨capacity, hcapacity⟩ := (h .capacity).tells (by decide)
  obtain ⟨readWindow, hreadWindow⟩ := (h .readWindow).tells (by decide)
  exact ⟨u, _, _, _, _, hunit, hsweepEvery, hlifetime, hcapacity, hreadWindow⟩

theorem give_or_fail (v : Variables) : (∃ s, v.Give s) ∨ ∃ e, v.Fail e := by
  by_cases hsound : ∀ setting, v.Sound setting
  · obtain ⟨u, sweepEvery, lifetime, capacity, readWindow, h⟩ := tellsAll_of_sound hsound
    by_cases hsweeps : sweepEvery = some 0
    · subst hsweeps
      exact .inr ⟨_, .noSweeps h⟩
    · exact .inl ⟨_, .settings h hsweeps⟩
  · obtain ⟨setting, e, h, hfirst⟩ := exists_first_mistake (not_forall.mp hsound)
    exact .inr ⟨e, .mistake h hfirst⟩

theorem ofVariables_eq_ok_iff : Settings.ofVariables v = .ok s ↔ v.Give s := by
  refine ⟨fun h => ?_, ofVariables_of_give⟩
  rcases v.give_or_fail with ⟨s', hs⟩ | ⟨e, he⟩
  · obtain rfl : s = s' := Except.ok.inj (h.symm.trans (ofVariables_of_give hs))
    exact hs
  · cases h.symm.trans (ofVariables_of_fail he)

theorem ofVariables_eq_error_iff : Settings.ofVariables v = .error e ↔ v.Fail e := by
  refine ⟨fun h => ?_, ofVariables_of_fail⟩
  rcases v.give_or_fail with ⟨s, hs⟩ | ⟨e', he⟩
  · cases h.symm.trans (ofVariables_of_give hs)
  · obtain rfl : e = e' := Except.error.inj (h.symm.trans (ofVariables_of_fail he))
    exact he

theorem ofVariables_congr (h : ∀ setting, w.text? setting = v.text? setting) :
    Settings.ofVariables w = Settings.ofVariables v := by
  have htext : w.text? = v.text? := funext h
  simp only [Settings.ofVariables, unit, span?, count?, htext]

/-- Every set of variables gives its settings or fails by its first mistake, and all that counts is
what stands under the names of the settings. A mistake in a count is told with the name of its
variable, and with the text as it was given or the number that it spells. -/
theorem settings_or_first_mistake (v : Variables) :
    (∀ s, Settings.ofVariables v = .ok s ↔ v.Give s) ∧
      (∀ e, Settings.ofVariables v = .error e ↔ v.Fail e) ∧
      (∀ w : Variables, (∀ setting : Setting, w setting.variableName = v setting.variableName) →
        Settings.ofVariables w = Settings.ofVariables v) ∧
      ∀ (setting : Setting) e, setting ≠ .unit → v.Mistake setting e →
        ∃ given, v setting.variableName = some given ∧
          ((∀ n, ¬ Spells given n) ∧ e.message = "Invalid configuration: " ++
              (setting.variableName ++ ": not an integer: " ++ Text.quoted given) ∨
            ∃ n < 0, Spells given n ∧ e.message = "Invalid configuration: " ++
              (setting.variableName ++ ": negative value " ++ toString n)) := by
  refine ⟨fun s => ofVariables_eq_ok_iff, fun e => ofVariables_eq_error_iff,
    fun w => ofVariables_congr, ?_⟩
  intro setting e hsetting h
  cases h with
  | unknownUnit => exact absurd rfl hsetting
  | notAnInteger _ h hn => exact ⟨_, h, .inl ⟨hn, rfl⟩⟩
  | negative _ h hn hneg => exact ⟨_, h, .inr ⟨_, hneg, hn, rfl⟩⟩

/-- Of three mistakes the first counts, and a name that is almost right counts for nothing. -/
theorem settings_or_first_mistake_of_three :
    let v : Variables := fun name => List.lookup name
      [("CACHE_SWEEP_FREQUENCY", "0"), ("CACHE_TIME_TO_LIVE", " -005\n"), ("CACHE_MAX_SIZE", "x")]
    let w : Variables := fun name => if name = "CACHE_UNIT" then some "h" else v name
    let e : SetupError := .misconfigured (.negative .lifetime (-5))
    v.Fail e ∧ Settings.ofVariables w = .error e ∧ v.Mistake .lifetime e ∧
      e.message = "Invalid configuration: CACHE_TIME_TO_LIVE: negative value -5" := by
  intro v w e
  obtain ⟨-, hfail, hnames, hmessage⟩ := settings_or_first_mistake v
  have herror : Settings.ofVariables v = .error e := by decide +kernel
  have hsame (setting : Setting) : w setting.variableName = v setting.variableName := by
    cases setting <;> rfl
  have hspells : Spells " -005\n" (-5) := integer?_eq_some_iff.mp (by decide +kernel)
  have hmistake : v.Mistake .lifetime e := .negative (by decide) rfl hspells (by decide)
  refine ⟨(hfail e).mp herror, (hnames w hsame).trans herror, hmistake, ?_⟩
  obtain ⟨given, hgiven, htold⟩ := hmessage .lifetime e (by decide) hmistake
  obtain rfl : " -005\n" = given := Option.some.inj hgiven
  rcases htold with ⟨hnone, -⟩ | ⟨n, -, hn, htold⟩
  · exact absurd hspells (hnone _)
  · obtain rfl : n = -5 := Option.some.inj
      ((integer?_eq_some_iff.mpr hn).symm.trans (integer?_eq_some_iff.mpr hspells))
    rw [htold]
    decide +kernel

example :
    Settings.ofVariables (fun name => List.lookup name
      [("CACHE_MEASURE_UNIT", "MS"), ("CACHE_SWEEP_FREQUENCY", "\u00a0+007 "),
        ("CACHE_MAX_SIZE", "-0")]) =
      .ok ⟨.ofMillis 7, .ofSeconds 300, .millis, some 0, none⟩ := by
  decide +kernel

end Variables
end TimedCache
