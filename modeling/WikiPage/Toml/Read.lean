import WikiPage.Toml.Scalar

/-!
# Reading TOML

A document is read line by line. A text that breaks a rule of the format, in its form or by defining
something twice, is no document, and neither is one that nests deeper than the limit.
-/

namespace WikiPage.Toml

/-- The most parts of a key, and the most arrays and inline tables within each other. -/
def nestingLimit : Nat := 80

def skipSpaces (s : List Char) : List Char :=
  s.dropWhile isSpace

/-- Skip a comment up to the end of its line. -/
def skipComment? (s : List Char) : Option (List Char) :=
  match s with
  | '#' :: s =>
    let rest := s.dropWhile isVisible
    if rest = [] ∨ (newline? rest).isSome then some rest else none
  | s => some s

/-- Skip blanks, line breaks and comments. -/
def skipLines? : Nat → List Char → Option (List Char)
  | 0, _ => none
  | n + 1, s => do
    let s ← skipComment? (skipSpaces s)
    match newline? s with
    | some s => skipLines? n s
    | none => some s

def isKeyChar (c : Char) : Bool :=
  c.isAlphanum || c == '_' || c == '-'

def simpleKey? (s : List Char) : Option (String × List Char) :=
  match shortString? s with
  | some (key, s) => some (String.ofList key, s)
  | none =>
    let key := s.takeWhile isKeyChar
    if key = [] then none else some (String.ofList key, s.dropWhile isKeyChar)

/-- A key with dots between its parts, at most as many as the first argument says: the leading parts
and the last. -/
def key? : Nat → List Char → Option ((List String × String) × List Char)
  | 0, _ => none
  | n + 1, s => do
    let (key, s) ← simpleKey? (skipSpaces s)
    let s := skipSpaces s
    match s with
    | '.' :: s => do
      let ((path, last), s) ← key? n s
      some ((key :: path, last), s)
    | s => some (([], key), s)

mutual

/-- A value with at most `depth` arrays and inline tables within each other. The first argument bounds
the number of steps. -/
def value? : Nat → Nat → List Char → Option (Value × List Char)
  | 0, _, _ => none
  | n + 1, depth, s =>
    match s, depth with
    | '[' :: s, depth + 1 => (items? n depth s).map fun p => (.array false p.1, p.2)
    | '{' :: s, depth + 1 => entries? n depth (.table .inlined []) s
    | '"' :: _, _ => (string? s).map fun p => (.string (String.ofList p.1), p.2)
    | '\'' :: _, _ => (string? s).map fun p => (.string (String.ofList p.1), p.2)
    | s, _ => bare? s

/-- The items of an array, up to its bracket. -/
def items? : Nat → Nat → List Char → Option (List Value × List Char)
  | 0, _, _ => none
  | n + 1, depth, s => do
    let s ← skipLines? (s.length + 1) s
    match s with
    | ']' :: s => some ([], s)
    | s => do
      let (v, s) ← value? n depth s
      let s ← skipLines? (s.length + 1) s
      match s with
      | ',' :: s => (items? n depth s).map fun p => (v :: p.1, p.2)
      | ']' :: s => some ([v], s)
      | _ => none

/-- The entries of an inline table, up to its brace, added to those read so far. Lines may break
around keys and values. -/
def entries? : Nat → Nat → Value → List Char → Option (Value × List Char)
  | 0, _, _, _ => none
  | n + 1, depth, table, s => do
    let s ← skipLines? (s.length + 1) s
    match s with
    | '}' :: s => some (table, s)
    | s => do
      let ((path, key), s) ← key? nestingLimit s
      let s ← skipLines? (s.length + 1) s
      match s with
      | '=' :: s => do
        let s ← skipLines? (s.length + 1) s
        let (v, s) ← value? n depth s
        let table ← addDotted path key v table
        let s ← skipLines? (s.length + 1) s
        match s with
        | ',' :: s => entries? n depth table s
        | '}' :: s => some (table, s)
        | _ => none
      | _ => none

end

/-- A document as far as it has been read, with the table that entries go to. -/
structure Draft where
  root : Value
  current : List String

/-- A header, behind its first bracket. -/
def header? (d : Draft) (s : List Char) : Option (Draft × List Char) :=
  match s with
  | '[' :: s => do
    let ((path, key), s) ← key? nestingLimit s
    let root ← descend false (openArrayTable key) path d.root
    match s with
    | ']' :: ']' :: s => some (⟨root, path ++ [key]⟩, s)
    | _ => none
  | s => do
    let ((path, key), s) ← key? nestingLimit s
    let root ← descend false (openTable key) path d.root
    match s with
    | ']' :: s => some (⟨root, path ++ [key]⟩, s)
    | _ => none

def entry? (d : Draft) (s : List Char) : Option (Draft × List Char) := do
  let ((path, key), s) ← key? nestingLimit s
  match s with
  | '=' :: s => do
    let (v, s) ← value? (2 * s.length + 2) nestingLimit (skipSpaces s)
    let root ← descend false (addDotted path key v) d.current d.root
    some (⟨root, d.current⟩, s)
  | _ => none

/-- One line: an entry, a header, or nothing, and perhaps a comment. -/
def line? (d : Draft) (s : List Char) : Option (Draft × List Char) := do
  let s := skipSpaces s
  let (d, s) ← match s with
    | [] => some (d, [])
    | '[' :: s => header? d s
    | c :: _ => if c = '#' ∨ (newline? s).isSome then some (d, s) else entry? d s
  let s ← skipComment? (skipSpaces s)
  some (d, s)

def lines? : Nat → Draft → List Char → Option Value
  | 0, _, _ => none
  | n + 1, d, s => do
    let (d, s) ← line? d s
    match s with
    | [] => some d.root
    | s => do
      let s ← newline? s
      lines? n d s

/-- The table of a document. -/
def read? (text : String) : Option Value :=
  let s := match text.toList with
    | '\uFEFF' :: s => s
    | s => s
  lines? (s.length + 1) ⟨.table .header [], []⟩ s

end WikiPage.Toml
