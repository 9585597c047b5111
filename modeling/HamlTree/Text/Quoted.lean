import HamlTree.Text.GraphemeExtend
import HamlTree.Text.Printable

/-!
# Quoted text

The quoted form of a text shows every character unambiguously: it stands between double quotes, the
quote, the backslash and four control characters have short escapes, and whatever would be invisible
or would merge with its neighbour is written as `\u` with its code point in braces. All other
characters stand for themselves, so the form is readable and no two texts share one.
-/

namespace HamlTree.Text

/-- The code point of a character in lower-case hexadecimal, without leading zeros. -/
def hexCode (c : Char) : List Char := Nat.toDigits 16 c.toNat

/-- One character of a quoted text. -/
def quoteChar (c : Char) : List Char :=
  match c with
  | '\x00' => ['\\', '0']
  | '\t' => ['\\', 't']
  | '\r' => ['\\', 'r']
  | '\n' => ['\\', 'n']
  | '"' => ['\\', '"']
  | '\\' => ['\\', '\\']
  | c =>
    if extendsGrapheme c || !isPrintable c then
      ['\\', 'u', '\x7b'] ++ hexCode c ++ ['\x7d']
    else
      [c]

/-- The quoted form of a text. -/
def quote (s : String) : String :=
  String.ofList ('"' :: s.toList.flatMap quoteChar ++ ['"'])

@[simp] theorem toList_quote (s : String) :
    (quote s).toList = '"' :: s.toList.flatMap quoteChar ++ ['"'] := by
  simp [quote]

end HamlTree.Text
