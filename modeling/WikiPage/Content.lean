import WikiPage.Page.Build
import WikiPage.Page.Child
import WikiPage.Page.Create
import WikiPage.Page.Property

/-!
# Pages from a description

A page is described by its properties, the content of its body and its categories, and built by the
edits that an author would make.
-/

namespace WikiPage

inductive Content
  | text (s : String)
  | comment (s : String)
  | paragraph (items : List Content)
  | bold (items : List Content)
  | italics (items : List Content)
  | div (items : List Content)
  | rule
  | link (target : String) (title : List Content)
  deriving Inhabited

namespace Content

mutual

/-- Make the elements of a content. -/
def create : Content → Edit ElementId
  | text s => Edit.createText s
  | comment s => Edit.createComment s
  | rule => Edit.createRule
  | paragraph items => do
    let id ← Edit.createParagraph
    appendTo id items
    pure id
  | bold items => do
    let id ← Edit.createBold
    appendTo id items
    pure id
  | italics items => do
    let id ← Edit.createItalics
    appendTo id items
    pure id
  | div items => do
    let id ← Edit.createDiv
    appendTo id items
    pure id
  | link target title => do
    let id ← Edit.createLink target
    appendTo id title
    pure id

/-- Make the elements of contents at the end of an element. -/
def appendTo (parent : ElementId) : List Content → Edit Unit
  | [] => pure ()
  | c :: cs => do
    let child ← create c
    Edit.insertChild parent child .last
    appendTo parent cs

end

end Content

structure PageDescription where
  site : Site
  title : String
  nameSpace : Option String := none
  path : Option String := none
  body : List Content := []
  categories : List String := []

namespace PageDescription

def fill (d : PageDescription) : Edit Unit := do
  match d.nameSpace with
  | some s => Edit.setNamespace (some s)
  | none => pure ()
  match d.path with
  | some s => Edit.setPath (some s)
  | none => pure ()
  Content.appendTo Page.body d.body
  d.categories.forM fun name => do
    let _ ← Edit.addCategory name

def build (d : PageDescription) : Except PageError Page := do
  let p ← Page.new d.site d.title
  d.fill.exec p

end PageDescription
end WikiPage
