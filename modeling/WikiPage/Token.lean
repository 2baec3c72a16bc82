import WikiPage.Text.Blank

/-!
# Tokens

A text is cut into tokens from the left, each as long as one of the token forms allows. Nothing is
skipped, so the tokens concatenate to the text. What a token is depends only on the characters from
its start on; hence reading may begin at any token boundary.
-/

namespace WikiPage

inductive Token.Kind
  | whitespace | newline | bold | italics | linkOpen | linkClose | pipe | commentOpen | lt | gt
  | charRef | entityRef | dashes | punct | text
  deriving DecidableEq, Repr

structure Token where
  kind : Token.Kind
  text : List Char
  offset : Nat
  deriving DecidableEq, Repr

namespace Token

def run (p : Char → Bool) (s : List Char) : Nat :=
  (s.takeWhile p).length

def isSpaceOrTab (c : Char) : Bool :=
  c == ' ' || c == '\t'

/-- The characters that begin no marker. -/
def isPlain (c : Char) : Bool :=
  !([' ', '\t', '\r', '\n', '\'', '[', ']', '|', '<', '>', '&', '-'].contains c)

def isHexDigit (c : Char) : Bool :=
  ('0' ≤ c && c ≤ '9') || ('a' ≤ c && c ≤ 'f') || ('A' ≤ c && c ≤ 'F')

/-- The kind and size of the reference whose ampersand stands before `s`, the semicolon left out. -/
def referenceBody (s : List Char) : Option (Kind × Nat) :=
  match s with
  | '#' :: c :: s =>
    if c = 'x' ∨ c = 'X' then
      if run isHexDigit s = 0 then none else some (.charRef, run isHexDigit s + 2)
    else if c.isDigit then some (.charRef, run Char.isDigit s + 2)
    else none
  | c :: s => if c.isAlpha then some (.entityRef, run Char.isAlphanum s + 1) else none
  | [] => none

/-- A reference ends with a semicolon; without it, what looks like one is text. -/
def reference (s : List Char) : Kind × Nat :=
  match referenceBody s with
  | none => (.punct, 0)
  | some (kind, n) => if (s.drop n).head? = some ';' then (kind, n + 1) else (.text, n)

/-- The kind of the token that begins with `c`, and how many characters of the text `s` behind `c`
belong to it. -/
def lead (c : Char) (s : List Char) : Kind × Nat :=
  if isSpaceOrTab c then (.whitespace, run isSpaceOrTab s)
  else if c = '\n' then (.newline, 0)
  else if c = '\r' then if s.head? = some '\n' then (.newline, 1) else (.punct, 0)
  else if c = '\'' then
    if ['\'', '\''].isPrefixOf s then (.bold, 2)
    else if s.head? = some '\'' then (.italics, 1)
    else (.punct, 0)
  else if c = '[' then if s.head? = some '[' then (.linkOpen, 1) else (.punct, 0)
  else if c = ']' then if s.head? = some ']' then (.linkClose, 1) else (.punct, 0)
  else if c = '|' then (.pipe, 0)
  else if c = '<' then if ['!', '-', '-'].isPrefixOf s then (.commentOpen, 3) else (.lt, 0)
  else if c = '>' then (.gt, 0)
  else if c = '&' then reference s
  else if c = '-' then
    if 3 ≤ run (· == '-') s then (.dashes, run (· == '-') s) else (.punct, 0)
  else (.text, run isPlain s)

/-- The first token of a text, and the text behind it. -/
structure First where
  kind : Kind
  text : List Char
  rest : List Char
  deriving DecidableEq, Repr

def first? : List Char → Option First
  | [] => none
  | c :: s => some ⟨(lead c s).1, c :: s.take (lead c s).2, s.drop (lead c s).2⟩

def firstKind? (s : List Char) : Option Kind :=
  (first? s).map First.kind

@[simp] theorem first?_nil : first? [] = none := rfl

@[simp] theorem first?_eq_none_iff {s : List Char} : first? s = none ↔ s = [] := by
  cases s <;> simp [first?]

theorem text_append_rest {s : List Char} {t : First} (h : first? s = some t) :
    t.text ++ t.rest = s := by
  cases s with
  | nil => simp at h
  | cons c s =>
    obtain rfl : _ = t := by simpa [first?] using h
    simp

theorem text_ne_nil {s : List Char} {t : First} (h : first? s = some t) : t.text ≠ [] := by
  cases s with
  | nil => simp at h
  | cons c s =>
    obtain rfl : _ = t := by simpa [first?] using h
    simp

theorem length_rest_lt {s : List Char} {t : First} (h : first? s = some t) :
    t.rest.length < s.length := by
  have h1 := congrArg List.length (text_append_rest h)
  have h2 := List.length_pos_iff.2 (text_ne_nil h)
  simp at h1
  omega

def listFrom (offset : Nat) (s : List Char) : List Token :=
  match _h : first? s with
  | none => []
  | some t =>
    ⟨t.kind, t.text, offset⟩ :: listFrom (offset + Text.byteSize t.text) t.rest
termination_by s.length
decreasing_by exact length_rest_lt _h

/-- The tokens of a text, each with the byte offset it begins at. -/
def list (s : String) : List Token :=
  listFrom 0 s.toList

def stop (t : Token) : Nat :=
  t.offset + Text.byteSize t.text

theorem listFrom_nil (offset : Nat) : listFrom offset [] = [] := by
  rw [listFrom]
  rfl

theorem listFrom_of_first? {s : List Char} {t : First} (offset : Nat) (h : first? s = some t) :
    listFrom offset s =
      ⟨t.kind, t.text, offset⟩ :: listFrom (offset + Text.byteSize t.text) t.rest := by
  rw [listFrom]
  split <;> simp_all

end Token
end WikiPage
