import WikiPage.Text.Lowercase
import WikiPage.Text.PrintableTable

/-!
# Quoted text

Text shown in outlines and messages stands between quotes. The quote in use, the backslash, tabs and
line breaks are escaped by a backslash, and characters without a visible form of their own are
written by their code point in hexadecimal.
-/

namespace WikiPage.Text

/-- Whether a character is shown as itself. -/
def isPrintable (c : Char) : Bool :=
  if c.toNat < 128 then 0x20 ≤ c.toNat && c.toNat ≠ 0x7F else !inRanges hiddenRanges c

/-- One character of a text between two characters `quote`. -/
def escaped (quote c : Char) : List Char :=
  if c = quote ∨ c = '\\' then ['\\', c]
  else if c = '\t' then ['\\', 't']
  else if c = '\r' then ['\\', 'r']
  else if c = '\n' then ['\\', 'n']
  else if c.toNat = 0 then ['\\', '0']
  else if isPrintable c then [c]
  else ['\\', 'u', '\x7b'] ++ Nat.toDigits 16 c.toNat ++ ['\x7d']

def quoted (s : String) : String :=
  String.ofList ('"' :: s.toList.flatMap (escaped '"') ++ ['"'])

def quotedChar (c : Char) : String :=
  String.ofList ('\'' :: escaped '\'' c ++ ['\''])

example : quoted "a\t\"b\"\x07" = "\"a\\t\\\"b\\\"\\u\x7b7\x7d\"" := by decide +kernel

example : quotedChar '\'' = "'\\''" := by decide +kernel

end WikiPage.Text
