import WikiPage.Glue
import WikiPage.Markup
import WikiPage.Tree

/-!
# The arena

The nodes of a page are kept in one table and numbered in the order they are made; none is ever taken
away. A node of a fixed shape refers to list nodes, and a list node, a container, holds any number
of others. A node may keep glue, the text around its children; containers have none.

Nodes are numbered without a bound: what becomes of arenas of 2^32 nodes or more, where numbers are of 32
bits, is left out.
-/

namespace WikiPage

@[ext] structure NodeId where
  index : Nat
  deriving DecidableEq, Repr

def NodeId.label (id : NodeId) : String :=
  "#" ++ toString id.index

inductive Payload
  | page (content : NodeId)
  | list (items : List NodeId)
  | paragraph (content : NodeId)
  | text (s : String)
  | newline (s : String)
  | emphasis (style : Emphasis) (content : NodeId)
  | rule
  | link (target : String) (title : NodeId)
  | element (name : String) (empty : Bool) (attributes body : NodeId)
  | attr (name : String) (hasValue : Bool) (value : NodeId)
  | comment (text : String)
  | reference (meaning : Reference)
  deriving DecidableEq, Repr

namespace Payload

def name : Payload → String
  | page _ => "page"
  | list _ => "list"
  | paragraph _ => "paragraph"
  | text _ => "text"
  | newline _ => "newline"
  | emphasis .bold _ => "bold"
  | emphasis .italics _ => "italics"
  | rule => "hr"
  | link _ _ => "internal-link"
  | element _ _ _ _ => "xml-element"
  | attr _ _ _ => "xml-attribute"
  | comment _ => "comment"
  | reference (.char _) => "char-ref"
  | reference (.entity _ _) => "entity-ref"

def children : Payload → List NodeId
  | page content => [content]
  | list items => items
  | paragraph content => [content]
  | emphasis _ content => [content]
  | link _ title => [title]
  | element _ _ attributes body => [attributes, body]
  | attr _ _ value => [value]
  | _ => []

def isList : Payload → Bool
  | list _ => true
  | _ => false

end Payload

structure Node where
  payload : Payload
  glue : Option Glue
  deriving DecidableEq, Repr

structure Arena where
  nodes : Array Node
  deriving DecidableEq, Repr

namespace Arena

inductive Error
  | unknownNode (id : NodeId)
  | notAContainer (id : NodeId)
  | glueOnContainer (id : NodeId)
  | glueMismatch (id : NodeId) (expected found : Nat)
  deriving DecidableEq, Repr

def Error.message : Error → String
  | unknownNode id => s!"node {id.label} does not exist in this arena"
  | notAContainer id => s!"node {id.label} is not a container"
  | glueOnContainer id => s!"container {id.label} cannot carry round-trip data"
  | glueMismatch id expected found =>
    s!"round-trip data of node {id.label} has {found} slots, expected {expected}"

/-- The page node. Its content list is made right before it. -/
def root : NodeId := ⟨1⟩

/-- The arena of an empty page. -/
def new : Arena :=
  ⟨#[⟨.list [], none⟩, ⟨.page ⟨0⟩, none⟩]⟩

def size (a : Arena) : Nat :=
  a.nodes.size

def find? (a : Arena) (id : NodeId) : Option Node :=
  a.nodes[id.index]?

def get (a : Arena) (id : NodeId) : Except Error Node :=
  match a.find? id with
  | some n => .ok n
  | none => .error (.unknownNode id)

def payload (a : Arena) (id : NodeId) : Except Error Payload :=
  (a.get id).map Node.payload

def glue (a : Arena) (id : NodeId) : Except Error (Option Glue) :=
  (a.get id).map Node.glue

def children (a : Arena) (id : NodeId) : Except Error (List NodeId) :=
  (a.payload id).map Payload.children

def items (a : Arena) (id : NodeId) : Except Error (List NodeId) := do
  match ← a.payload id with
  | .list items => .ok items
  | _ => .error (.notAContainer id)

/-- The container of the page's top-level nodes. -/
def content (a : Arena) : NodeId :=
  match a.find? root with
  | some ⟨.page content, _⟩ => content
  | _ => ⟨0⟩

def next (a : Arena) : NodeId :=
  ⟨a.nodes.size⟩

def push (a : Arena) (n : Node) : Arena :=
  ⟨a.nodes.push n⟩

def modify (a : Arena) (id : NodeId) (f : Node → Node) : Arena :=
  ⟨a.nodes.modify id.index f⟩

def setPayload (a : Arena) (id : NodeId) (p : Payload) : Arena :=
  a.modify id fun n => { n with payload := p }

def setItems (a : Arena) (id : NodeId) (items : List NodeId) : Arena :=
  a.setPayload id (.list items)

/-- Put glue on a node or take it away. Glue has a slot more than the node has children, and no
container takes any. -/
def setGlue (a : Arena) (id : NodeId) (g : Option Glue) : Except Error Arena := do
  let n ← a.get id
  match g with
  | none => .ok (a.modify id fun n => { n with glue := none })
  | some g =>
    if n.payload.isList then .error (.glueOnContainer id)
    else if g.size = n.payload.children.length + 1 then
      .ok (a.modify id fun n => { n with glue := some g })
    else .error (.glueMismatch id (n.payload.children.length + 1) g.size)

@[simp] theorem find?_push (a : Arena) (n : Node) (id : NodeId) :
    (a.push n).find? id = if id = a.next then some n else a.find? id := by
  simp [find?, push, next, Array.getElem?_push, NodeId.ext_iff]

@[simp] theorem find?_modify (a : Arena) (id id' : NodeId) (f : Node → Node) :
    (a.modify id f).find? id' = if id' = id then (a.find? id').map f else a.find? id' := by
  simp [find?, modify, Array.getElem?_modify, NodeId.ext_iff, eq_comm]

@[simp] theorem size_push (a : Arena) (n : Node) : (a.push n).size = a.size + 1 := by
  simp [size, push]

@[simp] theorem size_modify (a : Arena) (id : NodeId) (f : Node → Node) :
    (a.modify id f).size = a.size := by
  simp [size, modify]

theorem find?_eq_none_iff {a : Arena} {id : NodeId} : a.find? id = none ↔ a.size ≤ id.index := by
  simp [find?, size]

/-- The nodes at and below an identifier. -/
def tree (a : Arena) (id : NodeId) : Tree NodeId Node :=
  Tree.grow a.find? (·.payload.children) a.size id

/-- All nodes below an identifier, each before its own children. -/
def descendants (a : Arena) (id : NodeId) : Except Error (List NodeId) :=
  match (a.tree id).below? with
  | .ok ids => .ok ids
  | .error id => .error (.unknownNode id)

/-- The first container, at or below `top`, that holds a node. -/
def findContainer? (a : Arena) (top id : NodeId) : Except Error (Option NodeId) := do
  let below ← a.descendants top
  .ok ((top :: below).find? fun c => match a.find? c with
    | some ⟨.list items, _⟩ => items.contains id
    | _ => false)

end Arena
end WikiPage
