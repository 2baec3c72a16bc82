import WikiPage.CommandLine
import WikiPage.Content
import WikiPage.EntityTable
import WikiPage.Page.Outline
import WikiPage.SiteFile

/-!
# The program

A command reads the page in a file and shows it, or edits it and shows the new wikitext or writes it
back to the file. What goes wrong is told with its cause.
-/

namespace WikiPage

/-- Why the program gives up. -/
inductive Failure
  | noConfig (path : String)
  | config (path : String) (e : Site.LoadError)
  | file (path : String) (e : ReadError)
  | title (path : String)
  | page (path : String) (e : PageError)
  | addCategory (name : String) (e : PageError)
  | renameCategory (old new : String) (e : PageError)
  | removeCategory (name : String) (e : PageError)
  | element (name : String) (index count : Nat)
  | setAttribute (tag : String) (index : Nat) (name : String) (e : PageError)
  | removeAttribute (tag : String) (index : Nat) (name : String) (e : PageError)
  | fault (e : PageError)
  deriving DecidableEq, Repr

namespace Failure

def message : Failure → String
  | noConfig path => "Config file " ++ path ++ " does not exist"
  | config path (.unreadable e) => "Failed to read config file at " ++ path ++ ": " ++ e.message
  | config path .malformed => "Failed to parse config file at " ++ path
  | file path _ => "Failed to read " ++ path
  | title path => "Cannot derive a page title from " ++ path
  | page path _ => "Failed to build the object model of " ++ path
  | addCategory name _ => "Failed to add category `" ++ name ++ "`"
  | renameCategory old new _ => "Failed to rename category `" ++ old ++ "` to `" ++ new ++ "`"
  | removeCategory name _ => "Failed to remove category `" ++ name ++ "`"
  | element name index count =>
    "No " ++ name ++ " element #" ++ toString index ++ "; the page has " ++ toString count ++
      " of them"
  | setAttribute tag index name _ =>
    "Failed to set `" ++ name ++ "` on " ++ tag ++ " #" ++ toString index
  | removeAttribute tag index name _ =>
    "Failed to remove `" ++ name ++ "` from " ++ tag ++ " #" ++ toString index
  | fault e => e.message

def cause? : Failure → Option String
  | config _ (.unreadable e) => some e.message
  | file _ e => some e.message
  | page _ e => some e.message
  | addCategory _ e => some e.message
  | renameCategory _ _ e => some e.message
  | removeCategory _ e => some e.message
  | setAttribute _ _ _ e => some e.message
  | removeAttribute _ _ _ e => some e.message
  | _ => none

/-- Every line of a text four spaces in. -/
def indented (s : String) : String :=
  "    " ++ "\n    ".intercalate (s.toList.splitOn '\n' |>.map String.ofList)

/-- What the program says when it gives up. -/
def report (f : Failure) : String :=
  "Error: " ++ f.message ++
    match f.cause? with
    | some cause => "\n\nCaused by:\n" ++ indented cause
    | none => ""

end Failure

/-- What a command does in the end: the text that it shows, and the text that it leaves in its file if
it changes the file. -/
structure Outcome where
  shown : String := ""
  written : Option String := none
  deriving DecidableEq, Repr

namespace CommandLine

/-- The site of the configuration file. A file that was not asked for may be missing. -/
def site (c : CommandLine) (defaultPath : String) (config : FileContents) :
    Except Failure Site :=
  match Site.load config, c.options.config with
  | .error e, path => .error (.config (path.getD defaultPath) e)
  | .ok (some site), _ => .ok site
  | .ok none, some path => .error (.noConfig path)
  | .ok none, none => .ok .default

/-- The page in a file. -/
def page (c : CommandLine) (site : Site) (file : FileContents) : Except Failure Page := do
  let path := c.command.file
  let text ← match file.text with
    | .ok text => .ok text
    | .error e => .error (.file path e)
  let title ← match c.options.title.or (Path.title? path) with
    | some title => .ok title
    | none => .error (.title path)
  match Page.read text site title c.options.preserve with
  | .ok p => .ok p
  | .error e => .error (.page path e)

/-- The element of a name with a number among those of the name. -/
def element (p : Page) (name : String) (index : Nat) : Except Failure ElementId :=
  match p.elementsByName name with
  | .error e => .error (.fault e)
  | .ok found =>
    match found[index]? with
    | some id => .ok id
    | none => .error (.element name index found.length)

def edited (p : Page) (edit : Edit α) (failure : PageError → Failure) : Except Failure Page :=
  (edit.exec p).mapError failure

/-- Show a new page or write it back. -/
def save (c : CommandLine) (p : Page) : Except Failure Outcome :=
  match p.source with
  | .error e => .error (.fault e)
  | .ok text => .ok (if c.options.write then { written := text } else { shown := text })

/-- A line for each category. -/
def listing (p : Page) : Except Failure String :=
  match p.categoryIds.mapM p.categoryName with
  | .error e => .error (.fault e)
  | .ok names => .ok (String.join (names.map (· ++ "\n")))

/-- Do to a page what the command says. -/
def act (c : CommandLine) (p : Page) : Except Failure Outcome :=
  match c.command with
  | .print _ =>
    match p.source with
    | .error e => .error (.fault e)
    | .ok text => .ok { shown := text }
  | .outline _ => .ok { shown := p.outline }
  | .listCategories _ => do
    let shown ← listing p
    .ok { shown }
  | .addCategory _ name => do
    c.save (← edited p (Edit.addCategory name) (.addCategory name))
  | .renameCategory _ old new => do
    c.save (← edited p (Edit.renameCategory old new) (.renameCategory old new))
  | .removeCategory _ name => do
    c.save (← edited p (Edit.removeCategory name) (.removeCategory name))
  | .setAttribute _ tag index name value => do
    let id ← element p tag index
    c.save (← edited p (Edit.setAttribute id name value) (.setAttribute tag index name))
  | .removeAttribute _ tag index name => do
    let id ← element p tag index
    c.save (← edited p (Edit.removeAttribute id name) (.removeAttribute tag index name))

/-- Run a command, given what is found under the paths of the configuration and of the page. -/
def run (c : CommandLine) (defaultPath : String) (config file : FileContents) :
    Except Failure Outcome := do
  let site ← c.site defaultPath config
  let p ← c.page site file
  c.act p

def configPath (c : CommandLine) (defaultPath : String) : String :=
  c.options.config.getD defaultPath

/-- The path of the configuration below the home directory of a user. -/
def defaultConfig (home : String) : String :=
  home ++ "/.config/wikiwom/config.toml"

end CommandLine
end WikiPage
