/-!
# Kinds of page nodes

The kinds of nodes in the page model, and which of them may stand directly below which.
-/

namespace WikiPage

/-- A node of the page model, numbered in the order of making. -/
@[ext] structure ElementId where
  index : Nat
  deriving DecidableEq, Repr

def ElementId.label (id : ElementId) : String :=
  "@" ++ toString id.index

inductive Kind
  | page | body | paragraph | bold | italics | rule | div
  /-- A link to another page. -/
  | link
  | text | comment | category
  /-- An element that is kept as it stands because the model has no kind for it. -/
  | preserved
  deriving DecidableEq, Repr

inductive NodeType
  | document | element | text | comment
  deriving DecidableEq, Repr

namespace Kind

def all : List Kind :=
  [page, body, paragraph, bold, italics, rule, div, link, text, comment, category, preserved]

def name : Kind → String
  | page => "page"
  | body => "body"
  | paragraph => "p"
  | bold => "b"
  | italics => "i"
  | rule => "hr"
  | div => "div"
  | link => "link"
  | text => "#text"
  | comment => "#comment"
  | category => "category"
  | preserved => "#opaque"

def nodeType : Kind → NodeType
  | page => .document
  | text => .text
  | comment => .comment
  | _ => .element

/-- The tag of the element that a node of this kind can be written as. -/
def tag? : Kind → Option String
  | paragraph => some "p"
  | bold => some "b"
  | italics => some "i"
  | rule => some "hr"
  | div => some "div"
  | _ => none

/-- The kind of an element by its tag in lower case. -/
def ofTag? : String → Option Kind
  | "p" => some paragraph
  | "hr" => some rule
  | "b" => some bold
  | "i" => some italics
  | "div" => some div
  | _ => none

theorem ofTag?_tag? {k : Kind} {tag : String} (h : k.tag? = some tag) : ofTag? tag = some k := by
  cases k <;> simp [tag?] at h <;> subst h <;> rfl

end Kind

/-- What may stand directly below an element. -/
inductive ContentModel
  /-- Blocks and inline content. -/
  | flow
  | inline
  /-- Inline content without links. -/
  | linkTitle
  | empty
  deriving DecidableEq, Repr

namespace ContentModel

/-- The model of a kind. The page, categories and leaves have none. -/
def of? : Kind → Option ContentModel
  | .body => some flow
  | .div => some flow
  | .paragraph => some inline
  | .bold => some inline
  | .italics => some inline
  | .link => some linkTitle
  | .rule => some empty
  | _ => none

def acceptsInTitle : Kind → Bool
  | .text => true
  | .comment => true
  | .bold => true
  | .italics => true
  | .preserved => true
  | _ => false

def accepts : ContentModel → Kind → Bool
  | flow, k => acceptsInTitle k || k == .link || k == .paragraph || k == .rule || k == .div
  | inline, k => acceptsInTitle k || k == .link
  | linkTitle, k => acceptsInTitle k
  | empty, _ => false

theorem accepts_flow_of_accepts {m : ContentModel} {k : Kind} (h : m.accepts k = true) :
    flow.accepts k = true := by
  cases m <;> cases k <;> simp_all [accepts, acceptsInTitle]

end ContentModel
end WikiPage
