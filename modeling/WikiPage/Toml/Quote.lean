/-!
# Writing TOML strings

A string is written in the first of these forms that needs no escapes: double quotes, single quotes,
and both tripled. If none does, its special characters are escaped.
-/

namespace WikiPage.Toml

/-- The length of the longest run of a character. -/
def longestRun (c : Char) : List Char → Nat → Nat
  | [], _ => 0
  | d :: s, n => if d = c then max (n + 1) (longestRun c s (n + 1)) else longestRun c s 0

/-- A control character other than a tab and a line feed. -/
def isSpecial (c : Char) : Bool :=
  (c.toNat < 0x20 && c != '\t' && c != '\n') || c.toNat == 0x7F

/-- Four hexadecimal digits. -/
def hex4 (n : Nat) : List Char :=
  let digits := (Nat.toDigits 16 n).map Char.toUpper
  List.replicate (4 - digits.length) '0' ++ digits

/-- Escape what cannot stand in double quotes. In a long string line breaks stand as they are, and so
do up to two quotes; `quotes` counts those that stand in front. -/
def escaped (long : Bool) : List Char → Nat → List Char
  | [], _ => []
  | c :: s, quotes =>
    if c = '"' then
      if (if long then 2 else 0) ≤ quotes then '\\' :: '"' :: escaped long s 0
      else '"' :: escaped long s (quotes + 1)
    else
      let this : List Char :=
        if c = '\\' then ['\\', '\\']
        else if c = '\t' then ['\\', 't']
        else if c = '\n' then if long then ['\n'] else ['\\', 'n']
        else if c = '\r' then ['\\', 'r']
        else if c = '\x08' then ['\\', 'b']
        else if c = '\x0c' then ['\\', 'f']
        else if isSpecial c then ['\\', 'u'] ++ hex4 c.toNat
        else [c]
      this ++ escaped long s 0

/-- A string between delimiters; a long one with line breaks begins on a line of its own. -/
def delimited (delimiter : List Char) (s body : List Char) : String :=
  let gap := if delimiter.length = 3 ∧ s.contains '\n' then ['\n'] else []
  String.ofList (delimiter ++ gap ++ body ++ delimiter)

def quote (text : String) : String :=
  let s := text.toList
  let special := s.any isSpecial
  let backslash := s.contains '\\'
  let newline := s.contains '\n'
  let single := longestRun '\'' s 0
  let double := longestRun '"' s 0
  if !special && !backslash && double = 0 && !newline then delimited ['"'] s (escaped false s 0)
  else if !special && single = 0 && !newline then delimited ['\''] s s
  else if !special && !backslash && double ≤ 2 then
    delimited ['"', '"', '"'] s (escaped true s 0)
  else if !special && single ≤ 2 then delimited ['\'', '\'', '\''] s s
  else if newline then delimited ['"', '"', '"'] s (escaped true s 0)
  else delimited ['"'] s (escaped false s 0)

end WikiPage.Toml
