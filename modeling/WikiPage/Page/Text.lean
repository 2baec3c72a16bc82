import WikiPage.Page.Edit
import WikiPage.Arena.Template

/-!
# Texts and comments

A text that was read from a line break or a reference is backed by a text node of its own once it is
changed.
-/

namespace WikiPage.Edit

/-- Refuse an element of another kind. -/
def requireKind (id : ElementId) (kind : Kind) (refusal : Kind → Unsupported) : Edit Unit := do
  let found ← ask (·.kind id)
  if found = kind then pure () else throw (.unsupported (refusal found))

/-- Let a new text node back a text. -/
def replaceText (id : ElementId) (node : NodeId) (s : String) : Edit Unit := do
  let container ← ask (·.place? id)
  let new ← surgery (Surgery.make (.text s))
  match container with
  | some container => surgery (Surgery.change (·.replaceItem container node new))
  | none => pure ()
  update id fun e => { e with backing := some (.markup new) }

def setText (id : ElementId) (s : String) : Edit Unit := do
  requireKind id .text .notText
  let node ← ask (·.backingNode id)
  match ← ask (·.payload node) with
  | .text _ => surgery (Surgery.setPayload node (.text s))
  | _ => replaceText id node s

def setComment (id : ElementId) (s : String) : Edit Unit := do
  requireKind id .comment .notComment
  ask fun _ => checkCommentText s
  let node ← ask (·.backingNode id)
  match ← ask (·.payload node) with
  | .comment _ => surgery (Surgery.setPayload node (.comment s))
  | _ => pure ()
  surgery (Surgery.setGlue node (Glue.comment s))

end WikiPage.Edit
