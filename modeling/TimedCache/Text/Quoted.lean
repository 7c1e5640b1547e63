import TimedCache.Text.Blank
import TimedCache.Text.Numeral
import TimedCache.Text.Unprintable

/-!
Quoted text, as it stands in messages. A quotation mark and a backslash take a backslash, four
control characters have a letter, and every other character that shows no mark of its own is
written by its code point in hexadecimal; all else stands for itself.
-/
namespace TimedCache.Text

/-- Characters that are written by their code point rather than as themselves. -/
def isHidden (c : Char) : Bool :=
  inRanges extenderRanges c || inRanges fillerRanges c || inRanges unprintableRanges c

def codePoint (c : Char) : List Char :=
  '\\' :: 'u' :: '\x7b' :: Nat.toDigits 16 c.toNat ++ ['\x7d']

def escape : Char → List Char
  | '\x00' => ['\\', '0']
  | '\t' => ['\\', 't']
  | '\n' => ['\\', 'n']
  | '\r' => ['\\', 'r']
  | '"' => ['\\', '"']
  | '\\' => ['\\', '\\']
  | c => if isHidden c then codePoint c else [c]

def quoted (s : String) : String :=
  String.ofList ('"' :: s.toList.flatMap escape ++ ['"'])

example : quoted "a\"\\\t\n'" = "\"a\\\"\\\\\\t\\n'\"" := by decide +kernel

end TimedCache.Text
