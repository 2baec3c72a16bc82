import WikiPage.Text.Blank

/-!
# Files

What is found under a path, read as text, and the title that the name of a file stands for.
-/

namespace WikiPage

/-- What is found under a path. -/
inductive FileContents
  | absent
  /-- The path goes through a file as if it were a directory. -/
  | misplaced
  | directory
  | bytes (data : ByteArray)

/-- Why no text can be read under a path. -/
inductive ReadError
  | absent | misplaced | directory | notText
  deriving DecidableEq, Repr

def ReadError.message : ReadError → String
  | absent => "No such file or directory (os error 2)"
  | misplaced => "Not a directory (os error 20)"
  | directory => "Is a directory (os error 21)"
  | notText => "stream did not contain valid UTF-8"

namespace FileContents

def exists? : FileContents → Bool
  | absent => false
  | misplaced => false
  | _ => true

def text : FileContents → Except ReadError String
  | absent => .error .absent
  | misplaced => .error .misplaced
  | directory => .error .directory
  | bytes data =>
    match String.fromUTF8? data with
    | some s => .ok s
    | none => .error .notText

end FileContents

namespace Path

/-- The parts of a path that are not empty and do not stand for the place itself. -/
def parts (path : List Char) : List (List Char) :=
  (path.splitOn '/').filter fun part => part ≠ [] ∧ part ≠ ['.']

/-- The name of a file without its last extension. A point at its beginning does not begin an
extension. -/
def stem (name : List Char) : List Char :=
  let back := name.reverse
  match back.dropWhile (· ≠ '.') with
  | [] => name
  | [_] => name
  | _ :: rest => rest.reverse

/-- The title of the page that is kept under a path. -/
def title? (path : String) : Option String :=
  match (parts path.toList).getLast? with
  | none => none
  | some name =>
    if name = ['.', '.'] then none
    else some (String.ofList ((stem name).map fun c => if c = '_' then ' ' else c))

example : title? "pages/Main_Page.wiki" = some "Main Page" := by decide +kernel

example : title? ".wiki" = some ".wiki" := by decide +kernel

end Path
end WikiPage
