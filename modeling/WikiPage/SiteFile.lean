import WikiPage.File
import WikiPage.Site
import WikiPage.Toml.Quote
import WikiPage.Toml.Read

/-!
# Configuration files

The site of a wiki is kept in a TOML file. What the file does not set has its default, and keys that
mean nothing here are passed over once their numbers could be read. A namespace needs a number and a
name.
-/

namespace WikiPage

inductive Site.LoadError
  | unreadable (e : ReadError)
  | malformed
  deriving DecidableEq, Repr

namespace Site

open Toml (Value)

/-- A number of 32 bits with a sign. -/
def number? : Value → Option Int
  | .integer n => if -2147483648 ≤ n ∧ n < 2147483648 then some n else none
  | _ => none

def string? : Value → Option String
  | .string s => some s
  | _ => none

def list? (read? : Value → Option α) : Value → Option (List α)
  | .array _ items => items.mapM read?
  | _ => none

/-- The value of a key, or the default if the key is missing. -/
def entry? (entries : List (String × Value)) (key : String) (read? : Value → Option α)
    (default : Option α) : Option α :=
  match entries.lookup key with
  | none => default
  | some v => read? v

/-- A namespace is a table, or an array of its number, its name and perhaps its aliases. What else
stands in such an array is not read. -/
def namespaceOf? : Value → Option Namespace
  | .table _ entries => do
    let id ← entry? entries "id" number? none
    let name ← entry? entries "name" string? none
    let aliases ← entry? entries "aliases" (list? string?) (some [])
    if Toml.areEntriesReadable entries then some { id, name, aliases } else none
  | .array _ (id :: name :: rest) => do
    let id ← number? id
    let name ← string? name
    let aliases ← match rest with
      | [] => some []
      | v :: _ => list? string? v
    some { id, name, aliases }
  | _ => none

def ofValue? : Value → Option Site
  | .table _ entries => do
    let categoryNamespace ← entry? entries "category_namespace" number?
      (some default.categoryNamespace)
    let imageNamespaces ← entry? entries "image_namespaces" (list? number?)
      (some default.imageNamespaces)
    let namespaces ← entry? entries "namespaces" (list? namespaceOf?) (some default.namespaces)
    if Toml.areEntriesReadable (entries.filter (·.1 ≠ "namespaces")) then
      some { categoryNamespace, imageNamespaces, namespaces }
    else none
  | _ => none

/-- Load a site from a file, if there is one. -/
def load (file : FileContents) : Except LoadError (Option Site) :=
  if file.exists? then
    match file.text with
    | .error e => .error (.unreadable e)
    | .ok text =>
      match (Toml.read? text).bind ofValue? with
      | some site => .ok (some site)
      | none => .error .malformed
  else .ok none

/-- An array with more than one item has each on a line of its own. -/
def renderList (items : List String) : String :=
  match items with
  | [] => "[]"
  | [item] => "[" ++ item ++ "]"
  | items => "[\n" ++ String.join (items.map fun item => "    " ++ item ++ ",\n") ++ "]"

def renderNamespace (ns : Namespace) : String :=
  "\n[[namespaces]]\nid = " ++ toString ns.id ++ "\nname = " ++ Toml.quote ns.name ++
    "\naliases = " ++ renderList (ns.aliases.map Toml.quote) ++ "\n"

/-- The file that holds a site. -/
def render (site : Site) : String :=
  "category_namespace = " ++ toString site.categoryNamespace ++ "\nimage_namespaces = " ++
    renderList (site.imageNamespaces.map toString) ++ "\n" ++
    if site.namespaces.isEmpty then "namespaces = []\n"
    else String.join (site.namespaces.map renderNamespace)

end Site
end WikiPage
