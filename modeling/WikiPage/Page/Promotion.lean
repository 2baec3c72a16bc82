import WikiPage.Arena.Attribute
import WikiPage.Page.Edit

/-!
# Promotion

An element that is written in markup of its own becomes a tag when an attribute is to be written for
it. It keeps its content and its place.
-/

namespace WikiPage

/-- The links that back a category, with those of one container recorded under another. -/
def Element.moveLinks (source target : NodeId) (e : Element) : Element :=
  { e with links := e.links.map fun l => if l.container = source then { l with container := target } else l }

namespace Edit

/-- Write the value of an attribute into the tag of an element. -/
def writeAttribute (id : ElementId) (name value : String) (node : Option NodeId) :
    Edit NodeId := do
  let list ← ask (·.attributeList id)
  surgery (Surgery.writeAttribute list name value node)

/-- The attributes of an element that have yet to be written into its tag. -/
def unwritten (e : Element) : List Attribute :=
  e.attributes.filter fun a => a.node.isNone && (Policy.find? e.kind a.name).any Policy.synced

def writeUnwritten (id : ElementId) : Edit Unit := do
  let e ← ask (·.get id)
  (unwritten e).forM fun a => do
    let node ← writeAttribute id a.name a.value none
    update id fun e => { e with attributes := Attribute.put e.attributes { a with node := node } }

/-- Record the category links of one container under another. -/
def moveLinks (source target : NodeId) : Edit Unit :=
  modify fun p => { p with elements := p.elements.map (Element.moveLinks source target) }

/-- Write an element in markup of its own as a tag. -/
def promoteMarkup (id : ElementId) (kind : Kind) (node : NodeId) : Edit Unit := do
  let container ← ask (·.place? id)
  let p ← get
  let content := (p.childContainer id).toOption
  let tag ← surgery (Surgery.toElement kind node)
  match container with
  | some container => surgery (Surgery.change (·.replaceItem container node tag))
  | none => pure ()
  update id fun e => { e with backing := some (.tag tag) }
  match content with
  | some content => moveLinks content (← ask (·.childContainer id))
  | none => pure ()
  writeUnwritten id

/-- Write an element as a tag. A tag is left as it is. -/
def promote (id : ElementId) : Edit Unit := do
  let e ← ask (·.get id)
  match e.backing with
  | some (.markup node) => promoteMarkup id e.kind node
  | some (.tag _) => pure ()
  | none => throw (.unsupported (.xmlForm e.kind))

end Edit
end WikiPage
