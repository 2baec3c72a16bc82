import WikiPage.Text.Blank
import WikiPage.Toml

/-!
# TOML scalars

Strings in their four forms, and numbers and dates, which stand without quotes. Readers answer with
what they read and the text behind it.
-/

namespace WikiPage.Toml

def isSpace (c : Char) : Bool :=
  c == ' ' || c == '\t'

/-- The characters that may stand in comments and literal strings. -/
def isVisible (c : Char) : Bool :=
  c == '\t' || (0x20 ≤ c.toNat && c.toNat ≠ 0x7F)

def isHexDigit (c : Char) : Bool :=
  c.isDigit || ('a' ≤ c && c ≤ 'f') || ('A' ≤ c && c ≤ 'F')

def newline? : List Char → Option (List Char)
  | '\n' :: s => some s
  | '\r' :: '\n' :: s => some s
  | _ => none

/-- The character written by hexadecimal digits. -/
def scalar? (digits : List Char) : Option Char :=
  if digits.all isHexDigit ∧ (Text.numeral 16 digits).isValidChar then
    some (Char.ofNat (Text.numeral 16 digits))
  else none

/-- The character that an escape stands for, without those given by digits. -/
def simpleEscape? : Char → Option Char
  | 'b' => some '\x08'
  | 't' => some '\t'
  | 'n' => some '\n'
  | 'f' => some '\x0c'
  | 'r' => some '\r'
  | 'e' => some '\x1b'
  | '"' => some '"'
  | '\\' => some '\\'
  | _ => none

/-- An escape, behind the backslash. -/
def escape? (s : List Char) : Option (Char × List Char) :=
  let digits (n : Nat) (s : List Char) :=
    if n ≤ s.length then (scalar? (s.take n)).map (·, s.drop n) else none
  match s with
  | 'x' :: s => digits 2 s
  | 'u' :: s => digits 4 s
  | 'U' :: s => digits 8 s
  | c :: s => (simpleEscape? c).map (·, s)
  | [] => none

def before (c : Char) (p : List Char × List Char) : List Char × List Char :=
  (c :: p.1, p.2)

/-- The rest of a string in double quotes on one line. The first argument bounds the number of
characters. -/
def basicString : Nat → List Char → Option (List Char × List Char)
  | 0, _ => none
  | _ + 1, [] => none
  | _ + 1, '"' :: s => some ([], s)
  | n + 1, '\\' :: s => do
    let (c, s) ← escape? s
    (basicString n s).map (before c)
  | n + 1, c :: s => if isVisible c then (basicString n s).map (before c) else none

/-- The rest of a string in single quotes on one line. -/
def literalString : List Char → Option (List Char × List Char)
  | [] => none
  | '\'' :: s => some ([], s)
  | c :: s => if isVisible c then (literalString s).map (before c) else none

/-- The end of a string in triple quotes, which may have two more of them in front. -/
def tripleEnd? (quote : Char) (s : List Char) : Option (List Char × List Char) :=
  let n := (s.takeWhile (· == quote)).length
  if n < 3 then none
  else
    let m := min (n - 3) 2
    some (List.replicate m quote, s.drop (m + 3))

/-- Skip blanks and line breaks. -/
def skipBlankLines : List Char → List Char
  | ' ' :: s => skipBlankLines s
  | '\t' :: s => skipBlankLines s
  | '\n' :: s => skipBlankLines s
  | '\r' :: '\n' :: s => skipBlankLines s
  | s => s

/-- The rest of a string in triple double quotes. A backslash at the end of a line hides the break and
the blanks and line breaks behind it. -/
def longBasicString : Nat → List Char → Option (List Char × List Char)
  | 0, _ => none
  | _ + 1, [] => none
  | n + 1, c :: s =>
    match tripleEnd? '"' (c :: s) with
    | some p => some p
    | none =>
      if c = '\\' then
        match newline? (s.dropWhile isSpace) with
        | some s => longBasicString n (skipBlankLines s)
        | none => do
          let (d, s) ← escape? s
          (longBasicString n s).map (before d)
      else if c = '\r' then
        if s.head? = some '\n' then (longBasicString n s).map (before c) else none
      else if isVisible c ∨ c = '\n' then (longBasicString n s).map (before c)
      else none

/-- The rest of a string in triple single quotes. -/
def longLiteralString : List Char → Option (List Char × List Char)
  | [] => none
  | c :: s =>
    match tripleEnd? '\'' (c :: s) with
    | some p => some p
    | none =>
      if c = '\r' then
        if s.head? = some '\n' then (longLiteralString s).map (before c) else none
      else if isVisible c ∨ c = '\n' then (longLiteralString s).map (before c)
      else none

/-- A string on one line, as it may stand for a key. -/
def shortString? (s : List Char) : Option (List Char × List Char) :=
  match s with
  | '"' :: s => basicString (s.length + 1) s
  | '\'' :: s => literalString s
  | _ => none

def string? (s : List Char) : Option (List Char × List Char) :=
  let body (s : List Char) := (newline? s).getD s
  match s with
  | '"' :: '"' :: '"' :: s => longBasicString (s.length + 1) (body s)
  | '\'' :: '\'' :: '\'' :: s => longLiteralString (body s)
  | s => shortString? s

/-- Digits with single underscores between them. -/
def digits? (isDigit : Char → Bool) (s : List Char) : Option (List Char) :=
  let groups := s.splitOn '_'
  if groups.all fun g => !g.isEmpty && g.all isDigit then some groups.flatten else none

/-- Decimal digits without a leading zero. -/
def decimal? (s : List Char) : Option Nat :=
  match digits? Char.isDigit s with
  | some ['0'] => some 0
  | some ('0' :: _) => none
  | some ds => some (Text.numeral 10 ds)
  | none => none

def unsigned (s : List Char) : List Char :=
  match s with
  | '+' :: s => s
  | '-' :: s => s
  | s => s

def isOctal (c : Char) : Bool :=
  '0' ≤ c && c ≤ '7'

def isBinary (c : Char) : Bool :=
  c == '0' || c == '1'

def integer? (s : List Char) : Option Int :=
  match s with
  | '0' :: 'x' :: s => (digits? isHexDigit s).map fun ds => (Text.numeral 16 ds : Int)
  | '0' :: 'o' :: s => (digits? isOctal s).map fun ds => (Text.numeral 8 ds : Int)
  | '0' :: 'b' :: s => (digits? isBinary s).map fun ds => (Text.numeral 2 ds : Int)
  | '-' :: s => (decimal? s).map fun n => -(n : Int)
  | s => (decimal? (unsigned s)).map fun n => (n : Int)

/-- Integers are held by words of 128 bits, with a sign or without one. -/
def Value.ofInteger (n : Int) : Value :=
  if -170141183460469231731687303715884105728 ≤ n ∧ n < 340282366920938463463374607431768211456 then
    .integer n
  else .unreadable

/-- Whether a text has the form of an integer but no value: no digits follow the letter of the base, or
a decimal number goes on in letters behind an underscore. The form asks only that hexadecimal digits
stand next to the underscores. -/
def isHollow (s : List Char) : Bool :=
  match s with
  | ['0', base] => base == 'x' || base == 'o' || base == 'b'
  | s =>
    match (unsigned s).splitOn '_' with
    | [] => false
    | [_] => false
    | first :: groups =>
      (decimal? first).any (0 < ·) && groups.all (·.head?.any isHexDigit) &&
        groups.dropLast.all (·.getLast?.any isHexDigit) &&
        s.all fun c => c != 'e' && c != 'E' && c != '.'

def exponent? (s : List Char) : Option Int :=
  match s with
  | '-' :: s => (digits? Char.isDigit s).map fun ds => -(Text.numeral 10 ds : Int)
  | s => (digits? Char.isDigit (unsigned s)).map fun ds => (Text.numeral 10 ds : Int)

/-- A number with a point or an exponent, up to its sign: `(m, e)` is `m` times ten to the `e`. -/
def decimalFraction? (s : List Char) : Option (Nat × Int) :=
  let s := unsigned s
  let isE (c : Char) := c == 'e' || c == 'E'
  let mantissa := s.takeWhile (!isE ·)
  let exponent := s.dropWhile (!isE ·)
  let point := mantissa.dropWhile (· != '.')
  if point.isEmpty && exponent.isEmpty then none
  else do
    let whole ← decimal? (mantissa.takeWhile (· != '.'))
    let places ← if point.isEmpty then some [] else digits? Char.isDigit point.tail
    let e ← if exponent.isEmpty then some 0 else exponent? exponent.tail
    some (whole * Nat.pow 10 places.length + Text.numeral 10 places, e - places.length)

/-- The least number that is rounded to infinity: halfway from the largest number of double precision
to the next power of two. -/
def doubleBound : Nat :=
  (Nat.pow 2 54 - 1) * Nat.pow 2 970

/-- Whether `m` times ten to the `e` is too large for double precision. The number of digits decides
unless it is that of the bound. -/
def overflows (m : Nat) (e : Int) : Bool :=
  let digits := (Nat.toDigits 10 m).length + e
  if m = 0 ∨ digits < 309 then false
  else if 309 < digits then true
  else doubleBound * Nat.pow 10 (-e).toNat ≤ m * Nat.pow 10 e.toNat

example : overflows 17976931348623157 292 = false := by decide +kernel

example : overflows 17976931348623159 292 = true := by decide +kernel

def float? (s : List Char) : Option Value :=
  if unsigned s = ['i', 'n', 'f'] ∨ unsigned s = ['n', 'a', 'n'] then some .float
  else (decimalFraction? s).map fun (m, e) => if overflows m e then .unreadable else .float

/-- A number of two digits below a bound. -/
def two? (low high : Nat) : List Char → Option (Nat × List Char)
  | a :: b :: s =>
    let n := Text.numeral 10 [a, b]
    if a.isDigit ∧ b.isDigit ∧ low ≤ n ∧ n ≤ high then some (n, s) else none
  | _ => none

def monthLength (year month : Nat) : Nat :=
  if month = 2 then
    if year % 4 = 0 ∧ (year % 100 ≠ 0 ∨ year % 400 = 0) then 29 else 28
  else if month = 4 ∨ month = 6 ∨ month = 9 ∨ month = 11 then 30
  else 31

def date? (s : List Char) : Option (List Char) :=
  match s with
  | a :: b :: c :: d :: '-' :: s =>
    if [a, b, c, d].all Char.isDigit then do
      let (month, s) ← two? 1 12 s
      match s with
      | '-' :: s => (two? 1 (monthLength (Text.numeral 10 [a, b, c, d]) month) s).map Prod.snd
      | _ => none
    else none
  | _ => none

def fraction? : List Char → Option (List Char)
  | '.' :: s => if (s.takeWhile Char.isDigit).isEmpty then none else some (s.dropWhile Char.isDigit)
  | s => some s

/-- A time of day; the seconds may be left out. -/
def time? (s : List Char) : Option (List Char) := do
  let (_, s) ← two? 0 23 s
  match s with
  | ':' :: s => do
    let (_, s) ← two? 0 59 s
    match s with
    | ':' :: s => do
      let (_, s) ← two? 0 60 s
      fraction? s
    | s => some s
  | _ => none

def isOffset (s : List Char) : Bool :=
  match s with
  | ['Z'] => true
  | ['z'] => true
  | sign :: s =>
    (sign == '+' || sign == '-') &&
      match two? 0 23 s with
      | some (_, ':' :: s) => (two? 0 59 s).any fun p => p.2.isEmpty
      | _ => false
  | [] => true

def isDatetime (s : List Char) : Bool :=
  match date? s with
  | some [] => true
  | some (c :: s) =>
    (c == 'T' || c == 't' || c == ' ') && (time? s).any isOffset
  | none => time? s == some []

def isBare (c : Char) : Bool :=
  c.isAlphanum || c == '_' || c == '+' || c == '-' || c == '.' || c == ':'

def bareValue? (s : List Char) : Option Value :=
  if s = ['t', 'r', 'u', 'e'] then some (.boolean true)
  else if s = ['f', 'a', 'l', 's', 'e'] then some (.boolean false)
  else
    match integer? s, float? s with
    | some n, _ => some (.ofInteger n)
    | none, some v => some v
    | none, none =>
      if isHollow s then some .unreadable else if isDatetime s then some .datetime else none

/-- A number, a date or a truth value. One space may stand between a date and a time. -/
def bare? (s : List Char) : Option (Value × List Char) :=
  let word := s.takeWhile isBare
  let rest := s.dropWhile isBare
  match rest with
  | ' ' :: t =>
    if date? word = some [] ∧ (t.head?.any Char.isDigit) then
      (bareValue? (word ++ ' ' :: t.takeWhile isBare)).map (·, t.dropWhile isBare)
    else (bareValue? word).map (·, rest)
  | _ => (bareValue? word).map (·, rest)

end WikiPage.Toml
