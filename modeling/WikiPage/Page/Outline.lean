import WikiPage.Arena.Outline
import WikiPage.Page

/-!
# Outline of the page

One line for each element, indented by its depth: its name, then the text of a text or a comment, or
the attributes of any other element.
-/

namespace WikiPage

def Attribute.outline (a : Attribute) : String :=
  " " ++ a.name ++ "=" ++ Text.quoted a.value

namespace Page

/-- What the line of an element says behind its name. -/
def detail (p : Page) (id : ElementId) (e : Element) : String :=
  if e.kind = .text ∨ e.kind = .comment then
    match p.text id with
    | .ok s => " " ++ Text.quoted s
    | .error _ => ""
  else String.join (e.attributes.map Attribute.outline)

def line (p : Page) (depth : Nat) (id : ElementId) (e : Element) : String :=
  let name := match p.name id with
    | .ok name => name
    | .error _ => e.kind.name
  indent depth ++ name ++ p.detail id e ++ (if e.backing.any Backing.isTag then " (xml)" else "") ++
    "\n"

mutual

def outlineTree (p : Page) (depth : Nat) : Tree ElementId Element → String
  | .missing _ => ""
  | .node id e below => p.line depth id e ++ outlineTrees p (depth + 1) below

def outlineTrees (p : Page) (depth : Nat) : List (Tree ElementId Element) → String
  | [] => ""
  | t :: ts => outlineTree p depth t ++ outlineTrees p depth ts

end

def outline (p : Page) : String :=
  outlineTree p 0 (p.tree root)

end Page
end WikiPage
