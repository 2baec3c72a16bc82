/-!
# TOML values

A document is a table. Tables come about in four ways, and these decide who may still add to them: a
table opened by a header or written inline is complete, one that only a longer header passed through
may still be opened, and one made by a dotted key takes further dotted keys.
-/

namespace WikiPage.Toml

inductive Origin
  | header | passed | dotted | inlined
  deriving DecidableEq, Repr

inductive Value
  | string (s : String)
  | integer (n : Int)
  | float
  /-- A number that no type of numbers holds. -/
  | unreadable
  | boolean (b : Bool)
  | datetime
  /-- An array; `ofTables` if headers in double brackets made it. -/
  | array (ofTables : Bool) (items : List Value)
  | table (origin : Origin) (entries : List (String × Value))

mutual

/-- Whether every number in a value can be read. -/
def Value.isReadable : Value → Bool
  | .unreadable => false
  | .array _ items => areReadable items
  | .table _ entries => areEntriesReadable entries
  | _ => true

def areReadable : List Value → Bool
  | [] => true
  | v :: items => v.isReadable && areReadable items

def areEntriesReadable : List (String × Value) → Bool
  | [] => true
  | (_, v) :: entries => v.isReadable && areEntriesReadable entries

end

/-- Put a value in the place of the one under a key. -/
def replace (key : String) (v : Value) (entries : List (String × Value)) : List (String × Value) :=
  entries.map fun e => if e.1 = key then (key, v) else e

/-- Change the table at the end of a path of keys. Tables are made on the way as needed, and an array
of tables stands for its last one. A dotted key does not reach into complete tables. -/
def descend (isDotted : Bool) (change : Value → Option Value) : List String → Value → Option Value
  | [], v => change v
  | key :: path, .table origin entries =>
    match entries.lookup key with
    | none => do
      let new := .table (if isDotted then .dotted else .passed) []
      let v ← descend isDotted change path new
      some (.table origin (entries ++ [(key, v)]))
    | some (.table o es) =>
      if o = .inlined ∨ (isDotted ∧ o = .header) then none
      else do
        let v ← descend isDotted change path (.table o es)
        some (.table origin (replace key v entries))
    | some (.array true items) =>
      match items.getLast? with
      | none => none
      | some last => do
        let v ← descend isDotted change path last
        some (.table origin (replace key (.array true (items.dropLast ++ [v])) entries))
    | some _ => none
  | _ :: _, _ => none

/-- Add a new entry to a table. -/
def addEntry (key : String) (v : Value) : Value → Option Value
  | .table origin entries =>
    if (entries.lookup key).isSome then none else some (.table origin (entries ++ [(key, v)]))
  | _ => none

/-- Add an entry under a dotted key. -/
def addDotted (path : List String) (key : String) (v : Value) (table : Value) : Option Value :=
  descend true (fun t => match t with
    | .table origin _ => if path = [] ∨ origin = .dotted then addEntry key v t else none
    | _ => none) path table

/-- Open the table that a header names. -/
def openTable (key : String) : Value → Option Value
  | .table origin entries =>
    match entries.lookup key with
    | none => some (.table origin (entries ++ [(key, .table .header [])]))
    | some (.table .passed es) => some (.table origin (replace key (.table .header es) entries))
    | some _ => none
  | _ => none

/-- Begin a further table in the array that a header in double brackets names. -/
def openArrayTable (key : String) : Value → Option Value
  | .table origin entries =>
    match entries.lookup key with
    | none => some (.table origin (entries ++ [(key, .array true [.table .header []])]))
    | some (.array true items) =>
      some (.table origin (replace key (.array true (items ++ [.table .header []])) entries))
    | some _ => none
  | _ => none

end WikiPage.Toml
