/-!
Decimal numerals. A numeral is an optional sign followed by one or more ASCII digits, with any
number of leading zeros; nothing else reads as a number.
-/
namespace TimedCache.Text.Numeral

/-- The value of a string of digits, most significant first. -/
def ofDigits (cs : List Char) : Nat :=
  cs.foldl (fun n c => 10 * n + (c.toNat - '0'.toNat)) 0

/-- One or more ASCII digits and nothing else. -/
def isDigits (cs : List Char) : Bool := !cs.isEmpty && cs.all Char.isDigit

def digits? (cs : List Char) : Option Nat :=
  if isDigits cs then some (ofDigits cs) else none

/-- An unsigned numeral may carry a plus sign, never a minus sign, not even before a zero. -/
def unsigned? : List Char → Option Nat
  | '+' :: cs => digits? cs
  | cs => digits? cs

def signed? : List Char → Option Int
  | '-' :: cs => (digits? cs).map fun n => -(n : Int)
  | cs => (unsigned? cs).map Int.ofNat

/-- The shortest numeral for `n`: no sign and no leading zeros. -/
def decimal (n : Nat) : List Char := Nat.toDigits 10 n

end TimedCache.Text.Numeral
