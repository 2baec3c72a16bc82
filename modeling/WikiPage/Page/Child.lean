import WikiPage.Page.Category

/-!
# Children

Elements are put below other elements, taken out and replaced, and with them the nodes that back them.
An element takes the children that its content model allows; a child has to be detached before it can
be put anywhere, and it cannot stand below itself. Whatever is cut out, the page keeps its categories.
-/

namespace WikiPage

namespace Page

/-- The content model of an element that can be given children. -/
def contentModel (p : Page) (id : ElementId) : Except PageError ContentModel := do
  match ← p.kind id with
  | .page => .error (.unsupported .pageChildren)
  | .category => .error (.unsupported .categoryChildren)
  | kind => match ContentModel.of? kind with
    | some model => .ok model
    | none => .error (.contentModel (.leaf kind))

/-- Refuse kinds that stand at fixed places. -/
def checkMovable : Kind → Except PageError Unit
  | .category => .error (.unsupported .moveCategory)
  | .page => .error (.unsupported (.move .page))
  | .body => .error (.unsupported (.move .body))
  | _ => .ok ()

/-- Refuse a child that cannot be put below an element. -/
def checkInsertable (p : Page) (parent child : ElementId) : Except PageError Unit := do
  let model ← p.contentModel parent
  let kind ← p.kind child
  checkMovable kind
  if (← p.parent child).isSome then .error (.unsupported (.attached child))
  else if p.isWithin parent child then refuse (.ownSubtree child)
  else if model.accepts kind then .ok ()
  else .error (.contentModel (.refused (← p.kind parent) kind))

/-- The place of a child among those of an element. -/
def childIndex (p : Page) (parent child : ElementId) : Except PageError Nat := do
  match (← p.children parent).idxOf? child with
  | some i => .ok i
  | none => refuse (.notAChild child parent)

/-- The glue that a node needs after its content has changed, if it cannot keep its own. An element
with content has a closing tag, and a link has a pipe if it has a title and only then. -/
def neededGlue? (p : Page) (node : NodeId) : Except PageError (Option (Payload × Glue)) := do
  match ← p.payload node with
  | .element name true attributes body =>
    let items ← PageError.ofArena (p.arena.items body)
    if items.isEmpty then .ok none
    else .ok (some (.element name false attributes body, Glue.element name false))
  | .link target title =>
    let items ← PageError.ofArena (p.arena.items title)
    let glue ← PageError.ofArena (p.arena.glue node)
    if !items.isEmpty = glue.any (·.opensWith '|') then .ok none
    else .ok (some (.link target title, Glue.link target !items.isEmpty))
  | _ => .ok none

end Page

/-- A place for a new child. -/
inductive Position
  | first | last
  | before (reference : ElementId)
  | after (reference : ElementId)
  deriving DecidableEq, Repr

namespace Page

/-- The place in the child list of an element. -/
def positionIndex (p : Page) (parent : ElementId) : Position → Except PageError Nat
  | .first => .ok 0
  | .last => (p.children parent).map List.length
  | .before reference => p.childIndex parent reference
  | .after reference => (p.childIndex parent reference).map (· + 1)

end Page

namespace Edit

def refreshGlue (parent : ElementId) : Edit Unit := do
  let e ← ask (·.get parent)
  match e.backing with
  | none => pure ()
  | some backing =>
    match ← ask (·.neededGlue? backing.node) with
    | none => pure ()
    | some (payload, glue) => surgery do
      Surgery.setPayload backing.node payload
      Surgery.setGlue backing.node glue

def insertNode (container node : NodeId) : Position → Edit Unit
  | .first => surgery (Surgery.change (·.prependItem container node))
  | .last => surgery (Surgery.change (·.appendItem container node))
  | .before reference => do
    let place ← ask (·.backingNode reference)
    surgery (Surgery.change (·.insertBefore container node place))
  | .after reference => do
    let place ← ask (·.backingNode reference)
    surgery (Surgery.change (·.insertAfter container node place))

/-- Put a detached element below another. -/
def insertChild (parent child : ElementId) (position : Position) : Edit Unit := do
  ask (·.checkInsertable parent child)
  let i ← ask (·.positionIndex parent position)
  let container ← ask (·.childContainer parent)
  let node ← ask (·.backingNode child)
  insertNode container node position
  update parent fun e => { e with children := e.children.insertIdx i child }
  update child fun e => { e with parent := some parent }
  refreshGlue parent

/-- Detach a child. -/
def removeChild (parent child : ElementId) : Edit Unit := do
  let _ ← ask (·.contentModel parent)
  let i ← ask (·.childIndex parent child)
  let container ← ask (·.childContainer parent)
  let node ← ask (·.backingNode child)
  surgery (Surgery.change (·.removeItem container node))
  update parent fun e => { e with children := e.children.eraseIdx i }
  update child fun e => { e with parent := none }
  refreshGlue parent
  keepCategories node

/-- Put a detached element in the place of a child, which is detached. -/
def replaceChild (parent new old : ElementId) : Edit Unit := do
  ask (·.checkInsertable parent new)
  let i ← ask (·.childIndex parent old)
  let container ← ask (·.childContainer parent)
  let oldNode ← ask (·.backingNode old)
  let newNode ← ask (·.backingNode new)
  surgery (Surgery.change (·.replaceItem container oldNode newNode))
  update parent fun e => { e with children := e.children.set i new }
  update new fun e => { e with parent := some parent }
  update old fun e => { e with parent := none }
  refreshGlue parent
  keepCategories oldNode

end Edit
end WikiPage
