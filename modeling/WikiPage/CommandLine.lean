import WikiPage.Text.Blank

/-!
# The command line

Options may stand anywhere, also behind the command that they are for, and each is given once at most
at one level of commands. Behind two dashes nothing is an option any more. Arguments that make no
command have no reading.
-/

namespace WikiPage

structure Options where
  config : Option String := none
  title : Option String := none
  preserve : Bool := false
  write : Bool := false
  deriving DecidableEq, Repr

inductive Command
  | print (file : String)
  | outline (file : String)
  | listCategories (file : String)
  | addCategory (file name : String)
  | renameCategory (file old new : String)
  | removeCategory (file name : String)
  | setAttribute (file element : String) (index : Nat) (name value : String)
  | removeAttribute (file element : String) (index : Nat) (name : String)
  deriving DecidableEq, Repr

structure CommandLine where
  options : Options
  command : Command
  deriving DecidableEq, Repr

/-- The file that a command is about. -/
def Command.file : Command → String
  | print file => file
  | outline file => file
  | listCategories file => file
  | addCategory file _ => file
  | renameCategory file _ _ => file
  | removeCategory file _ => file
  | setAttribute file _ _ _ _ => file
  | removeAttribute file _ _ _ => file

inductive Argument
  | config (path : String)
  | title (s : String)
  | preserve
  | write
  | word (s : String)
  /-- The end of the options. -/
  | dashes
  deriving DecidableEq, Repr

namespace Argument

/-- Whether an argument cannot be the value of an option. -/
def isOption (s : String) : Bool :=
  match s.toList with
  | '-' :: _ :: _ => true
  | _ => false

/-- An argument that is an option by itself. -/
def single? (s : String) : Option Argument :=
  if s = "--preserve-unknown" then some preserve
  else if s = "--write" ∨ s = "-w" then some write
  else
    match Text.cutAt '=' s.toList with
    | some (name, value) =>
      if String.ofList name = "--config" then some (config (String.ofList value))
      else if String.ofList name = "--title" then some (title (String.ofList value))
      else none
    | none => none

def list? : List String → Option (List Argument)
  | [] => some []
  | [s] =>
    if s = "--" then some [dashes]
    else if isOption s then (single? s).map ([·])
    else some [word s]
  | s :: value :: rest =>
    if s = "--" then some (dashes :: word value :: rest.map word)
    else if s = "--config" then
      if isOption value then none else (list? rest).map (config value :: ·)
    else if s = "--title" then
      if isOption value then none else (list? rest).map (title value :: ·)
    else if isOption s then do
      let a ← single? s
      (list? (value :: rest)).map (a :: ·)
    else (list? (value :: rest)).map (word s :: ·)

/-- The arguments around the first word. -/
def cutAtWord? : List Argument → Option (List Argument × String × List Argument)
  | [] => none
  | dashes :: _ => none
  | word s :: rest => some ([], s, rest)
  | a :: rest => (cutAtWord? rest).map fun (before, s, after) => (a :: before, s, after)

def words : List Argument → List String
  | [] => []
  | word s :: rest => s :: words rest
  | _ :: rest => words rest

end Argument

namespace Options

def add? (o : Options) : Argument → Option Options
  | .config path => if o.config.isSome ∨ path = "" then none else some { o with config := path }
  | .title s => if o.title.isSome then none else some { o with title := s }
  | .preserve => if o.preserve then none else some { o with preserve := true }
  | .write => if o.write then none else some { o with write := true }
  | .word _ => some o
  | .dashes => some o

/-- The options among the arguments of one level. -/
def ofArguments? (arguments : List Argument) : Option Options :=
  arguments.foldlM add? {}

/-- Options given at two levels: the inner level decides. -/
def within (outer inner : Options) : Options where
  config := inner.config.or outer.config
  title := inner.title.or outer.title
  preserve := inner.preserve || outer.preserve
  write := inner.write || outer.write

end Options

namespace Command

/-- The number of an element among those of its name. -/
def index? (s : String) : Option Nat :=
  Text.natural? UInt64.size s.toList

/-- A path has a character at least. -/
def path? (s : String) : Option String :=
  if s = "" then none else some s

def ofWords? (name : String) (words : List String) : Option Command :=
  match name, words with
  | "print", [file] => (path? file).map print
  | "dump", [file] => (path? file).map outline
  | "set-attr", [file, element, index, name, value] => do
    let file ← path? file
    let index ← index? index
    some (setAttribute file element index name value)
  | "remove-attr", [file, element, index, name] => do
    let file ← path? file
    let index ← index? index
    some (removeAttribute file element index name)
  | _, _ => none

def ofCategoryWords? (name : String) (words : List String) : Option Command :=
  match name, words with
  | "list", [file] => (path? file).map listCategories
  | "add", [file, name] => (path? file).map (addCategory · name)
  | "rename", [file, old, new] => (path? file).map (renameCategory · old new)
  | "remove", [file, name] => (path? file).map (removeCategory · name)
  | _, _ => none

end Command

namespace CommandLine

/-- A command with the options before it and behind it. -/
def read? (args : List String) : Option CommandLine := do
  let (before, name, after) ← Argument.cutAtWord? (← Argument.list? args)
  let outer ← Options.ofArguments? before
  if name = "category" then
    let (between, name, after) ← Argument.cutAtWord? after
    let middle ← Options.ofArguments? between
    let inner ← Options.ofArguments? after
    let command ← Command.ofCategoryWords? name (Argument.words after)
    some ⟨(outer.within middle).within inner, command⟩
  else
    let inner ← Options.ofArguments? after
    let command ← Command.ofWords? name (Argument.words after)
    some ⟨outer.within inner, command⟩

example : read? ["-w", "category", "rename", "P.wiki", "a", "b", "--title=T"] =
    some ⟨{ title := "T", write := true }, .renameCategory "P.wiki" "a" "b"⟩ := by decide +kernel

example : read? ["set-attr", "P.wiki", "i", "+0", "id", "--", "-x"] =
    some ⟨{}, .setAttribute "P.wiki" "i" 0 "id" "-x"⟩ := by decide +kernel

example : read? ["set-attr", "P.wiki", "i", "-1", "id", "x"] = none := by decide +kernel

end CommandLine
end WikiPage
