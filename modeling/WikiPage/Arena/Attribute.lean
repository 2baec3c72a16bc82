import WikiPage.Arena.Template
import WikiPage.Arena.Text

/-!
# Attribute nodes

Values written into the attribute list of an element. An attribute that is there already keeps its
spelling if its value stands in double quotes; otherwise it is written anew with quotes.
-/

namespace WikiPage.Surgery

/-- Whether an attribute with this glue has its value in double quotes. -/
def isQuoted (hasValue : Bool) (glue : Option Glue) : Bool :=
  hasValue && glue.any (·.opensWith '"')

/-- Give an attribute other items for its value. -/
def rewriteAttribute (node : NodeId) (name : String) (items : List NodeId) : Surgery Unit := do
  match ← look (·.payload node) with
  | .attr written hasValue value =>
    let glue ← look (·.glue node)
    let _ ← look (·.items value)
    setItems value items
    setPayload node (.attr written true value)
    if !isQuoted hasValue glue then setGlue node (Glue.attr name true)
  | p => throw (.invariant (.attributeBacking p.name))

def addAttribute (list : NodeId) (name : String) (items : List NodeId) : Surgery NodeId := do
  let value ← make (.list items)
  let node ← make (.attr name true value)
  setGlue node (Glue.attr name true)
  change (·.appendItem list node)
  pure node

/-- Write a value into an attribute list, in the place of an attribute node if one is given. -/
def writeAttribute (list : NodeId) (name value : String) (node : Option NodeId) :
    Surgery NodeId := do
  let items ← encodeValue value
  match node with
  | some node =>
    rewriteAttribute node name items
    pure node
  | none => addAttribute list name items

end WikiPage.Surgery
