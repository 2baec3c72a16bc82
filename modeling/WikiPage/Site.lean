import WikiPage.Text.Lowercase
import WikiPage.Text.Blank

/-!
# The site

A wiki divides its pages into numbered namespaces with names. A name is compared without regard to
case, with underscores read as spaces and surrounding blanks left out.
-/

namespace WikiPage

/-- Underscores read as spaces, surrounding blanks dropped. -/
def normalTitle (s : List Char) : List Char :=
  Text.trim (s.map fun c => if c = '_' then ' ' else c)

/-- The spelling of a title as it is read from a link. -/
def normalizeTitle (s : String) : String :=
  Text.onChars normalTitle s

structure Namespace where
  id : Int
  name : String
  aliases : List String := []
  deriving DecidableEq, Repr

/-- What is left of a namespace name for comparison. -/
def Namespace.fold (name : List Char) : List Char :=
  Text.lowercase (normalTitle name)

def Namespace.matches (ns : Namespace) (name : List Char) : Bool :=
  (ns.name :: ns.aliases).any fun known => fold known.toList == fold name

structure Site where
  categoryNamespace : Int
  imageNamespaces : List Int
  namespaces : List Namespace
  deriving DecidableEq, Repr

namespace Site

/-- The namespaces of a wiki without a configuration of its own. -/
def default : Site where
  categoryNamespace := 14
  imageNamespaces := [-2, 6]
  namespaces :=
    [{ id := -2, name := "Media" }, { id := -1, name := "Special" }, { id := 0, name := "" },
     { id := 1, name := "Talk" }, { id := 2, name := "User" }, { id := 4, name := "Project" },
     { id := 6, name := "File", aliases := ["Image"] }, { id := 8, name := "MediaWiki" },
     { id := 10, name := "Template" }, { id := 12, name := "Help" },
     { id := 14, name := "Category" }]

/-- The first namespace of a name or alias. -/
def resolve? (site : Site) (name : List Char) : Option Namespace :=
  site.namespaces.find? (·.matches name)

def namespace? (site : Site) (id : Int) : Option Namespace :=
  site.namespaces.find? (·.id == id)

def category? (site : Site) : Option Namespace :=
  site.namespace? site.categoryNamespace

/-- The name by which new links refer to the category namespace. -/
def categoryPrefix (site : Site) : String :=
  match site.category? with
  | some ns => ns.name
  | none => "Category"

end Site
end WikiPage
