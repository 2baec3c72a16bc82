import WikiPage.Page.Assign

/-!
# New elements

New elements are detached. They are written in markup of their own if there is such markup.
-/

namespace WikiPage.Edit

/-- Make an element with the glue of its kind. -/
def createMarkup (kind : Kind) (payload : Payload) : Edit ElementId := do
  let node ← surgery do
    let node ← Surgery.make payload
    Surgery.addGlue node
    pure node
  make { kind, backing := some (.markup node) }

/-- Make an element of a kind that contains others. -/
def createContaining (kind : Kind) (payload : NodeId → Payload) : Edit ElementId := do
  let content ← surgery (Surgery.make (.list []))
  createMarkup kind (payload content)

def createParagraph : Edit ElementId :=
  createContaining .paragraph .paragraph

def createBold : Edit ElementId :=
  createContaining .bold (.emphasis .bold)

def createItalics : Edit ElementId :=
  createContaining .italics (.emphasis .italics)

def createRule : Edit ElementId :=
  createMarkup .rule .rule

/-- There is no markup for a division but its tag. -/
def createDiv : Edit ElementId := do
  let node ← surgery do
    let attributes ← Surgery.make (.list [])
    let body ← Surgery.make (.list [])
    let node ← Surgery.make (.element "div" false attributes body)
    Surgery.addGlue node
    pure node
  make { kind := .div, backing := some (.tag node) }

def createLink (target : String) : Edit ElementId := do
  let target ← ask fun p => Verifier.checkLinkTarget p.site target
  let id ← createContaining .link (.link target)
  let _ ← assign id "target" target
  pure id

def createText (s : String) : Edit ElementId := do
  let node ← surgery (Surgery.make (.text s))
  make { kind := .text, backing := some (.markup node) }

def createComment (s : String) : Edit ElementId := do
  ask fun _ => checkCommentText s
  createMarkup .comment (.comment s)

end WikiPage.Edit
