import TimedCache.Failure
import TimedCache.Time.Unit

/-!
Reading a unit of time. As text a unit is its code, in any numeral of at most 255, or one of its
words in any mix of ASCII cases; in structured data it is its exact name, alone or as the only
member of an object that holds null.
-/
namespace TimedCache

/-- A value of structured data, as far as units tell such values apart. -/
inductive Datum
  | null
  | text (s : String)
  | object (members : List (String × Datum))
  | other

instance : Inhabited Datum := ⟨.null⟩

namespace TimeUnit

def ofCode? (n : Nat) : Option TimeUnit := all.find? fun u => u.code == n

/-- An unknown code is reported as the number that it is. -/
def ofCode (n : Nat) : Except SetupError TimeUnit :=
  match ofCode? n with
  | some u => .ok u
  | none => .error (.unknownUnit (String.ofList (Text.Numeral.decimal n)))

def words : TimeUnit → List String
  | .nanos => ["ns", "nanos", "nanoseconds"]
  | .micros => ["us", "micros", "microseconds"]
  | .millis => ["ms", "mills", "millis", "milliseconds"]
  | .seconds => ["s", "secs", "seconds"]

def ofWord? (cs : List Char) : Option TimeUnit :=
  all.find? fun u => u.words.any fun word => word.toList == cs.map Char.toLower

/-- Codes are numerals that fit a byte; a larger numeral is no code, not even an unknown one. -/
def codeNumeral? (cs : List Char) : Option Nat :=
  (Text.Numeral.unsigned? cs).filter (· < 256)

/-- An unknown word is reported without the white space around it, in its own case. -/
def parse (s : String) : Except SetupError TimeUnit :=
  let given := Text.trim s.toList
  match codeNumeral? given with
  | some n => ofCode n
  | none =>
    match ofWord? given with
    | some u => .ok u
    | none => .error (.unknownUnit (String.ofList given))

def toDatum (u : TimeUnit) : Datum := .text u.name

def ofDatum? : Datum → Option TimeUnit
  | .text s => all.find? fun u => u.name == s
  | .object [(key, .null)] => all.find? fun u => u.name == key
  | _ => none

@[simp] theorem ofCode?_code (u : TimeUnit) : ofCode? u.code = some u := by cases u <;> rfl

theorem ofCode_code (u : TimeUnit) : ofCode u.code = .ok u := by simp [ofCode]

theorem ofDatum?_toDatum (u : TimeUnit) : ofDatum? u.toDatum = some u := by
  cases u <;> decide +kernel

example : (parse " SeConds\t").toOption = some .seconds := by decide +kernel
example : (parse "+003").toOption = some .seconds := by decide +kernel
example : (parse "mills").toOption = some .millis := by decide +kernel

end TimeUnit
end TimedCache
