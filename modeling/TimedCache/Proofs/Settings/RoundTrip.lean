import TimedCache.Proofs.Settings.Variables
import TimedCache.Proofs.Time.Unit
import TimedCache.Proofs.Time.Unit.Reading

/-!
Settings told by variables and read back. Durations are told in the unit of the settings, and what
has no value is not told. Settings are read back as they were if their durations are whole numbers
of the unit and no count is too great to be read, and all settings that variables give are such.
-/
namespace TimedCache

open Text.Numeral (decimal)

def countText (n : Nat) : String := String.ofList (decimal n)

namespace TimeUnit

/-- The texts by which variables may tell the unit. -/
def texts (u : TimeUnit) : List String := [u.label, countText u.code]

/-- The duration is a whole number of the unit, and one that is not too great to be read. -/
structure Measures (u : TimeUnit) (d : Duration) : Prop where
  whole : u.length ∣ d.nanos
  small : u.count d < 2 ^ 63

end TimeUnit

namespace Settings

def text? (s : Settings) (unitText : String) : Setting → Option String
  | .unit => some unitText
  | .sweepEvery => some (countText (s.unit.count s.sweepEvery))
  | .lifetime => some (countText (s.unit.count s.lifetime))
  | .capacity => s.capacity.map countText
  | .readWindow => s.readWindow.map fun window => countText (s.unit.count window)

/-- The variables that tell the settings, the unit by one of its texts. -/
def toVariables (s : Settings) (unitText : String) : Variables := fun name =>
  (Setting.all.find? fun setting => setting.variableName == name).bind (s.text? unitText)

structure Tellable (s : Settings) : Prop where
  sweeps : s.sweepEvery ≠ .zero
  sweepEvery : s.unit.Measures s.sweepEvery
  lifetime : s.unit.Measures s.lifetime
  capacity : ∀ n ∈ s.capacity, n < 2 ^ 63
  readWindow : ∀ window ∈ s.readWindow, s.unit.Measures window

end Settings

variable {u : TimeUnit} {d : Duration} {s : Settings} {v : Variables} {setting : Setting}

theorem spells_countText {n : Nat} (h : n < 2 ^ 63) : Spells (countText n) n where
  numeral := by
    refine ⟨[], decimal n, [], List.forall_mem_nil _, .plain (Text.Numeral.digits_decimal n),
      List.forall_mem_nil _, ?_⟩
    simp [countText]
  lower := by omega
  upper := by omega

namespace TimeUnit

theorem Measures.eq (h : u.Measures d) : (⟨u.count d * u.length⟩ : Duration) = d :=
  Duration.ext (Nat.div_mul_cancel h.whole)

theorem measures_mul_length {n : Nat} (h : n < 2 ^ 63) : u.Measures ⟨n * u.length⟩ where
  whole := Nat.dvd_mul_left u.length n
  small := by
    rw [count, Nat.mul_div_cancel n u.length_pos]
    exact h

theorem measures_ofSeconds (u : TimeUnit) {n : Nat} (h : n ≤ 300) : u.Measures (.ofSeconds n) := by
  have hsecond : Duration.ofSeconds n = ⟨n * u.perSecond * u.length⟩ := by
    apply Duration.ext
    rw [Duration.nanos_ofSeconds, Nat.mul_assoc, u.perSecond_mul_length]
  have hsmall : n * u.perSecond ≤ 300 * 1_000_000_000 := Nat.mul_le_mul h u.perSecond_le
  rw [hsecond]
  exact measures_mul_length (by omega)

theorem parse_of_mem_texts {text : String} (h : text ∈ u.texts) : parse text = .ok u := by
  rcases List.mem_pair.mp h with rfl | rfl
  · exact u.parse_label
  · exact u.parse_code 0

end TimeUnit

theorem text?_toVariables (s : Settings) (unitText : String) (setting : Setting) :
    (s.toVariables unitText).text? setting = s.text? unitText setting := by
  have hfind : (Setting.all.find? fun t => t.variableName == setting.variableName) =
      some setting := by
    cases setting <;> decide +kernel
  rw [Variables.text?, Settings.toVariables, hfind, Option.bind_some]

namespace Variables

theorem tells_of_text {n : Option Nat} (h : v.text? setting = n.map countText)
    (hn : ∀ m ∈ n, m < 2 ^ 63) : v.Tells setting n := by
  cases n with
  | none => exact .unset h
  | some n => exact .given h (spells_countText (hn n rfl))

theorem Tells.lt {n : Option Nat} (h : v.Tells setting n) : ∀ m ∈ n, m < 2 ^ 63 := by
  cases h with
  | unset => exact fun m hm => absurd hm (Option.not_mem_none m)
  | @given _ n _ hn =>
    rintro m ⟨⟩
    have hlt := hn.upper
    omega

theorem give_toVariables (h : s.Tellable) {unitText : String} (ht : unitText ∈ s.unit.texts) :
    (s.toVariables unitText).Give s := by
  have htext := text?_toVariables s unitText
  have hwindow : ∀ n ∈ s.readWindow.map s.unit.count, n < 2 ^ 63 := by
    intro n hn
    obtain ⟨window, hmem, rfl⟩ := Option.mem_map.mp hn
    exact (h.readWindow window hmem).small
  have htells : (s.toVariables unitText).TellsAll s.unit (some (s.unit.count s.sweepEvery))
      (some (s.unit.count s.lifetime)) s.capacity (s.readWindow.map s.unit.count) := {
    unit := .given (htext .unit) (TimeUnit.parse_of_mem_texts ht)
    sweepEvery := .given (htext .sweepEvery) (spells_countText h.sweepEvery.small)
    lifetime := .given (htext .lifetime) (spells_countText h.lifetime.small)
    capacity := tells_of_text (htext .capacity) h.capacity
    readWindow := by
      apply tells_of_text _ hwindow
      rw [htext, Option.map_map]
      rfl }
  have hsweeps : some (s.unit.count s.sweepEvery) ≠ some 0 := by
    intro hzero
    apply h.sweeps
    rw [← h.sweepEvery.eq, Option.some.inj hzero, Nat.zero_mul]
    rfl
  have hback : (s.readWindow.map s.unit.count).map (fun n => ⟨n * s.unit.length⟩) =
      s.readWindow := by
    cases hread : s.readWindow with
    | none => rfl
    | some window => exact congrArg some (h.readWindow window hread).eq
  have hsettled : settled s.unit (some (s.unit.count s.sweepEvery))
      (some (s.unit.count s.lifetime)) s.capacity (s.readWindow.map s.unit.count) = s := by
    simp only [settled, Option.map_some, Option.getD_some, h.sweepEvery.eq, h.lifetime.eq, hback]
  have hgive := Give.settings htells hsweeps
  rw [hsettled] at hgive
  exact hgive

theorem measures_told {n : Option Nat} (hn : ∀ m ∈ n, m < 2 ^ 63) (hd : u.Measures d) :
    u.Measures ((n.map fun n => ⟨n * u.length⟩).getD d) := by
  cases n with
  | none => exact hd
  | some n => exact TimeUnit.measures_mul_length (hn n rfl)

theorem Give.tellable (h : v.Give s) : s.Tellable := by
  cases h with
  | @settings u sweepEvery lifetime capacity readWindow h hsweeps =>
    exact {
      sweeps := by
        rw [← Settings.validate_eq_ok_iff, validate_settled, if_neg hsweeps]
      sweepEvery := measures_told h.sweepEvery.lt (u.measures_ofSeconds (by decide))
      lifetime := measures_told h.lifetime.lt (u.measures_ofSeconds (by decide))
      capacity := h.capacity.lt
      readWindow := by
        intro window hwindow
        obtain ⟨n, hn, rfl⟩ := Option.mem_map.mp hwindow
        exact TimeUnit.measures_mul_length (h.readWindow.lt n hn) }

/-- Settings that variables can tell are read back as they were, and all settings that are read from
variables are such. -/
theorem ofVariables_toVariables :
    (∀ s : Settings, s.Tellable → ∀ unitText ∈ s.unit.texts,
        Settings.ofVariables (s.toVariables unitText) = .ok s) ∧
      ∀ (v : Variables) (s : Settings), Settings.ofVariables v = .ok s →
        s.Tellable ∧ ∀ unitText ∈ s.unit.texts,
          Settings.ofVariables (s.toVariables unitText) = .ok s := by
  have hback (s : Settings) (h : s.Tellable) : ∀ unitText ∈ s.unit.texts,
      Settings.ofVariables (s.toVariables unitText) = .ok s :=
    fun unitText ht => ofVariables_of_give (give_toVariables h ht)
  refine ⟨hback, ?_⟩
  intro v s h
  have htellable : s.Tellable := (ofVariables_eq_ok_iff.mp h).tellable
  exact ⟨htellable, hback s htellable⟩

/-- Milliseconds are told by a name that is cut short, and the greatest count that can be read. -/
theorem ofVariables_toVariables_of_millis :
    let s : Settings :=
      ⟨.ofMillis 1_500, .ofSeconds 300, .millis, some 9_223_372_036_854_775_807, some .zero⟩
    let v : Variables := fun name => List.lookup name
      [("CACHE_MEASURE_UNIT", " 002"), ("CACHE_TIME_TO_LIVE", "+7"), ("CACHE_MAX_SIZE", "-0")]
    let t : Settings := ⟨.ofSeconds 1, .ofMillis 7, .millis, some 0, none⟩
    s.Tellable ∧ Settings.ofVariables (s.toVariables "MILLS") = .ok s ∧
      Settings.ofVariables v = .ok t ∧ Settings.ofVariables (t.toVariables "2") = .ok t := by
  intro s v t
  obtain ⟨htellable, hgiven⟩ := ofVariables_toVariables
  have hs : s.Tellable := by
    refine ⟨by decide, ⟨by decide, by decide⟩, ⟨by decide, by decide⟩, ?_, ?_⟩
    · rintro n ⟨⟩
      decide
    · rintro window ⟨⟩
      exact ⟨by decide, by decide⟩
  have hv : Settings.ofVariables v = .ok t := by decide +kernel
  exact ⟨hs, htellable s hs "MILLS" (by decide), hv, (hgiven v t hv).2 "2" (by decide +kernel)⟩

end Variables
end TimedCache
