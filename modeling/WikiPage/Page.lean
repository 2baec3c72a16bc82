import WikiPage.Arena.Print
import WikiPage.Arena.Text
import WikiPage.Index
import WikiPage.Policy

/-!
# The page

A page is a table of elements over an arena. An element is backed by the node that it is written as:
markup of its own, or a tag. A category is backed by every link on the page that names it instead; the
last of these links is the canonical one. Elements are numbered without a bound, as nodes are: what becomes
of pages of 2^32 elements or more, where numbers are of 32 bits, is left out.
-/

namespace WikiPage

/-- An attribute of an element, under its name in lower case. The node is where the value is written in
the tag. -/
structure Attribute where
  name : String
  value : String
  node : Option NodeId
  deriving DecidableEq, Repr

namespace Attribute

def find? (attributes : List Attribute) (name : String) : Option Attribute :=
  List.find? (·.name == name) attributes

/-- Take the place of the attribute of the same name, or the last place. -/
def put : List Attribute → Attribute → List Attribute
  | [], a => [a]
  | b :: bs, a => if b.name = a.name then a :: bs else b :: put bs a

def erase (attributes : List Attribute) (name : String) : List Attribute :=
  attributes.eraseP (·.name == name)

@[simp] theorem find?_put (attributes : List Attribute) (a : Attribute) (name : String) :
    find? (put attributes a) name = if a.name = name then some a else find? attributes name := by
  induction attributes with
  | nil => by_cases h : a.name = name <;> simp [put, find?, h]
  | cons b bs ih => grind [put, find?]

end Attribute

inductive Backing
  /-- Markup that is for this kind of element alone. -/
  | markup (node : NodeId)
  | tag (node : NodeId)
  deriving DecidableEq, Repr

namespace Backing

def node : Backing → NodeId
  | markup node => node
  | tag node => node

def isTag : Backing → Bool
  | markup _ => false
  | tag _ => true

end Backing

/-- A link on the page and the container in which it stands. -/
structure PlacedLink where
  container : NodeId
  link : NodeId
  deriving DecidableEq, Repr

structure Element where
  kind : Kind
  parent : Option ElementId := none
  children : List ElementId := []
  /-- A category has none. -/
  backing : Option Backing
  attributes : List Attribute := []
  /-- The links that back a category, the canonical one last. -/
  links : List PlacedLink := []
  deriving DecidableEq, Repr

structure Page where
  arena : Arena
  site : Site
  elements : Array Element
  /-- The attached categories by key. -/
  categories : Index String ElementId
  /-- The category that a link backs. -/
  owners : Index NodeId ElementId
  deriving DecidableEq, Repr

namespace Page

/-- The element that stands for the page as a whole. -/
def root : ElementId := ⟨0⟩

/-- The element that holds the content of the page. -/
def body : ElementId := ⟨1⟩

def size (p : Page) : Nat :=
  p.elements.size

def find? (p : Page) (id : ElementId) : Option Element :=
  p.elements[id.index]?

def get (p : Page) (id : ElementId) : Except PageError Element :=
  match p.find? id with
  | some e => .ok e
  | none => .error (.invariant (.unknownElement id))

/-- The identifier of the element that is made next. -/
def next (p : Page) : ElementId :=
  ⟨p.elements.size⟩

def push (p : Page) (e : Element) : Page :=
  { p with elements := p.elements.push e }

def update (p : Page) (id : ElementId) (f : Element → Element) : Page :=
  { p with elements := p.elements.modify id.index f }

@[simp] theorem find?_push (p : Page) (e : Element) (id : ElementId) :
    (p.push e).find? id = if id = p.next then some e else p.find? id := by
  simp [find?, push, next, Array.getElem?_push, ElementId.ext_iff]

@[simp] theorem find?_update (p : Page) (id id' : ElementId) (f : Element → Element) :
    (p.update id f).find? id' = if id' = id then (p.find? id').map f else p.find? id' := by
  simp [find?, update, Array.getElem?_modify, ElementId.ext_iff, eq_comm]

@[simp] theorem size_update (p : Page) (id : ElementId) (f : Element → Element) :
    (p.update id f).size = p.size := by
  simp [size, update]

@[simp] theorem arena_update (p : Page) (id : ElementId) (f : Element → Element) :
    (p.update id f).arena = p.arena := rfl

theorem get_eq_ok_iff {p : Page} {id : ElementId} {e : Element} :
    p.get id = .ok e ↔ p.find? id = some e := by
  unfold get
  split <;> simp_all

def kind (p : Page) (id : ElementId) : Except PageError Kind :=
  (p.get id).map Element.kind

def parent (p : Page) (id : ElementId) : Except PageError (Option ElementId) :=
  (p.get id).map Element.parent

def children (p : Page) (id : ElementId) : Except PageError (List ElementId) :=
  (p.get id).map Element.children

def payload (p : Page) (node : NodeId) : Except PageError Payload :=
  PageError.ofArena (p.arena.payload node)

def isTag (p : Page) (id : ElementId) : Except PageError Bool := do
  let e ← p.get id
  .ok (e.backing.any Backing.isTag)

/-- The node that an element is written as; for a category, its canonical link. -/
def node? (p : Page) (id : ElementId) : Except PageError (Option NodeId) := do
  let e ← p.get id
  match e.backing with
  | some b => .ok (some b.node)
  | none => .ok (e.links.getLast?.map PlacedLink.link)

/-- The node that backs an element other than a category. -/
def backingNode (p : Page) (id : ElementId) : Except PageError NodeId := do
  let e ← p.get id
  match e.backing with
  | some b => .ok b.node
  | none => .error (.invariant (.noBacking id))

/-- The tag that backs an element. -/
def tagNode (p : Page) (id : ElementId) : Except PageError NodeId := do
  let e ← p.get id
  match e.backing with
  | some (.tag node) => .ok node
  | _ => .error (.invariant (.notGeneric id))

/-- The attribute list of the tag that backs an element. -/
def attributeList (p : Page) (id : ElementId) : Except PageError NodeId := do
  match ← p.payload (← p.tagNode id) with
  | .element _ _ attributes _ => .ok attributes
  | other => .error (.invariant (.elementBacking other.name))

/-- The name of an element; one that is kept as it stands goes by its tag. -/
def name (p : Page) (id : ElementId) : Except PageError String := do
  let kind ← p.kind id
  if kind = .preserved then
    match ← p.payload (← p.backingNode id) with
    | .element name _ _ _ => .ok name
    | _ => .ok kind.name
  else .ok kind.name

/-- The list of what a node of markup contains. -/
def contentOf? : Payload → Option NodeId
  | .paragraph content => some content
  | .emphasis _ content => some content
  | .link _ title => some title
  | _ => none

/-- The list of what stands in a tag. -/
def bodyOf? : Payload → Option NodeId
  | .element _ _ _ body => some body
  | _ => none

def childContainer? (p : Page) (e : Element) : Except PageError (Option NodeId) :=
  match e.backing with
  | none => .ok none
  | some (.tag node) => (p.payload node).map bodyOf?
  | some (.markup node) =>
    if e.kind = .body then .ok (some node) else (p.payload node).map contentOf?

/-- The container of the nodes that back the children of an element. -/
def childContainer (p : Page) (id : ElementId) : Except PageError NodeId := do
  match ← p.childContainer? (← p.get id) with
  | some container => .ok container
  | none => .error (.invariant (.noContainer id))

/-- The container in which an element stands, if it is attached. -/
def place? (p : Page) (id : ElementId) : Except PageError (Option NodeId) := do
  match ← p.parent id with
  | none => .ok none
  | some up => (p.childContainer up).map some

/-- The text of a text, or what a comment says. -/
def text (p : Page) (id : ElementId) : Except PageError String := do
  let node ← p.backingNode id
  let kind ← p.kind id
  let payload ← p.payload node
  match kind, payload with
  | .comment, .comment s => .ok s
  | .text, _ => p.arena.text node
  | kind, _ => .error (.unsupported (.noText kind))

/-- The wikitext of the page. -/
def source (p : Page) : Except PageError String :=
  PageError.ofArena p.arena.printPage

def attribute? (p : Page) (id : ElementId) (name : String) : Except PageError (Option Attribute) :=
  (p.get id).map fun e => Attribute.find? e.attributes name.toLower

def value? (p : Page) (id : ElementId) (name : String) : Except PageError (Option String) :=
  (p.attribute? id name).map (·.map Attribute.value)

def attributes (p : Page) (id : ElementId) : Except PageError (List Attribute) :=
  (p.get id).map Element.attributes

/-- The policy of an attribute of an element. -/
def policy (p : Page) (id : ElementId) (name : String) : Except PageError Policy := do
  let kind ← p.kind id
  match Policy.find? kind name with
  | some policy => .ok policy
  | none => refuse (.noAttribute kind name)

/-- An element and those above it, up to a number of steps. -/
def lineage (p : Page) : Nat → ElementId → List ElementId
  | 0, _ => []
  | n + 1, id =>
    id :: match (p.find? id).bind Element.parent with
      | none => []
      | some up => p.lineage n up

/-- Whether an element is another or stands below it. -/
def isWithin (p : Page) (id top : ElementId) : Bool :=
  (p.lineage (p.size + 1) id).contains top

def tree (p : Page) (id : ElementId) : Tree ElementId Element :=
  Tree.grow p.find? Element.children p.size id

/-- All elements below an identifier, each before its own children. -/
def descendants (p : Page) (id : ElementId) : Except PageError (List ElementId) :=
  match (p.tree id).below? with
  | .ok ids => .ok ids
  | .error id => .error (.invariant (.unknownElement id))

/-- The elements of the page that go by a name in any case. -/
def elementsByName (p : Page) (name : String) : Except PageError (List ElementId) := do
  let ids ← p.descendants root
  ids.filterM fun id => do
    let found ← p.name id
    .ok (found.toLower == name.toLower)

end Page
end WikiPage
