import TimedCache.Settings
import TimedCache.Time.Unit.Reading

/-!
Settings from named variables. The variables are read in a fixed order and the first mistake is the
answer; amounts of time count in the unit that the variables themselves give, while what they leave
open is the default whatever the unit.
-/
namespace TimedCache

/-- The text of a variable, or none if it is not set. -/
abbrev Variables := String → Option String

/-- An integer of 64 bits, with white space around it allowed. -/
def integer? (given : String) : Option Int :=
  (Text.Numeral.signed? (Text.trim given.toList)).filter fun n =>
    Int64.minValue.toInt ≤ n && n ≤ Int64.maxValue.toInt

/-- A setting's text as a count: an integer that is not negative. -/
def Setting.readCount (setting : Setting) (given : String) : Except SetupError Nat :=
  match integer? given with
  | none => .error (.misconfigured (.notAnInteger setting given))
  | some n => if n < 0 then .error (.misconfigured (.negative setting n)) else .ok n.toNat

namespace Variables

/-- The variables of a process; one whose bytes are no UTF-8 counts as not set. -/
def ofBytes (process : List (String × ByteArray)) : Variables := fun name =>
  (process.lookup name).bind String.fromUTF8?

def text? (v : Variables) (setting : Setting) : Option String := v setting.variableName

def unit (v : Variables) : Except SetupError TimeUnit :=
  match v.text? .unit with
  | none => .ok (default : Settings).unit
  | some given => TimeUnit.parse given

def count? (v : Variables) (setting : Setting) : Except SetupError (Option Nat) :=
  match v.text? setting with
  | none => .ok none
  | some given => (setting.readCount given).map some

def span? (v : Variables) (unit : TimeUnit) (setting : Setting) :
    Except SetupError (Option Duration) :=
  (v.count? setting).map (Option.map fun n => unit.span (UInt64.ofNat n))

end Variables

def Settings.ofVariables (v : Variables) : Except SetupError Settings := do
  let unit ← v.unit
  let sweepEvery ← v.span? unit .sweepEvery
  let lifetime ← v.span? unit .lifetime
  let capacity ← v.count? .capacity
  let readWindow ← v.span? unit .readWindow
  let settings : Settings :=
    { sweepEvery := sweepEvery.getD (default : Settings).sweepEvery
      lifetime := lifetime.getD (default : Settings).lifetime
      unit
      capacity
      readWindow }
  settings.validate
  return settings

end TimedCache
