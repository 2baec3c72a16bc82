import WikiPage.Arena.Read
import WikiPage.Page.Draft

/-!
# Building a page

The drafts of an arena are numbered behind the page and its body, each before its own children; the
categories come last, in the order of their first links.
-/

namespace WikiPage

namespace Draft

mutual

/-- The number of elements in a draft. -/
def size : Draft → Nat
  | node _ _ _ children => sizes children + 1

def sizes : List Draft → Nat
  | [] => 0
  | d :: ds => size d + sizes ds

end

/-- The identifiers of drafts that are numbered one after the other. -/
def ids (next : Nat) : List Draft → List ElementId
  | [] => []
  | d :: ds => ⟨next⟩ :: ids (next + d.size) ds

mutual

/-- The elements of a draft, numbered from `next` on. -/
def elements (parent next : Nat) : Draft → List Element
  | node kind backing attributes children =>
    { kind, parent := some ⟨parent⟩, children := ids (next + 1) children, backing, attributes } ::
      elementsOf next (next + 1) children

def elementsOf (parent next : Nat) : List Draft → List Element
  | [] => []
  | d :: ds => elements parent next d ++ elementsOf parent (next + size d) ds

end

mutual

theorem length_elements (parent next : Nat) : (d : Draft) → (elements parent next d).length = d.size
  | node _ _ _ children => by
    rw [elements, size, List.length_cons, length_elementsOf _ _ children]

theorem length_elementsOf (parent next : Nat) :
    (ds : List Draft) → (elementsOf parent next ds).length = sizes ds
  | [] => rfl
  | d :: ds => by
    rw [elementsOf, sizes, List.length_append, length_elements _ _ d, length_elementsOf _ _ ds]

end

end Draft

namespace Page

/-- A page with content and without categories. -/
def ofDrafts (arena : Arena) (site : Site) (title : String) (drafts : List Draft) : Page where
  arena := arena
  site := site
  elements :=
    let page : Element :=
      { kind := .page, children := [body], backing := some (.markup Arena.root)
        attributes := [⟨"title", Normalization.words.apply title, none⟩] }
    let content : Element :=
      { kind := .body, parent := some root, children := Draft.ids 2 drafts
        backing := some (.markup arena.content) }
    (page :: content :: Draft.elementsOf 1 2 drafts).toArray
  categories := .empty
  owners := .empty

def new (site : Site) (title : String) : Except PageError Page := do
  let title ← Verifier.checkPageTitle title
  .ok (ofDrafts .new site title [])

def registerAll (links : List FoundLink) : Edit Unit :=
  links.forM fun l => Edit.registerLink l.name l.placed

/-- The page over an arena. Unless unknown tags are preserved, none may be there. -/
def ofArena (arena : Arena) (site : Site) (title : String) (preserve : Bool) :
    Except PageError Page := do
  let title ← Verifier.checkPageTitle title
  let found ← arena.findings site preserve
  (registerAll found.links).exec (ofDrafts arena site title found.drafts)

def read [Entities] (text : String) (site : Site) (title : String) (preserve : Bool) :
    Except PageError Page :=
  ofArena (Arena.read text) site title preserve

end Page
end WikiPage
