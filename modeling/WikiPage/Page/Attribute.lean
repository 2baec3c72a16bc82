import WikiPage.Page.Category

/-!
# Attributes

A new value is checked by the policy of the attribute and normalized before it is stored. A check may
find that the value stands for none; then the attribute is removed.
-/

namespace WikiPage

namespace Page

/-- Whether a category may go by a name: no other attached category does. -/
def checkCategoryName (p : Page) (id : ElementId) (s : String) :
    Except PageError (Option String) := do
  let name := normalizeTitle s
  checkCategory (some name)
  let current ← p.value? id "name"
  let same := current.any (categoryKey · == categoryKey name)
  let attached := (← p.parent id).isSome
  if !same && attached && p.hasCategory name then .error (.nameCollision name)
  else .ok (some name)

/-- Check a value for an attribute of an element. -/
def verify (p : Page) (id : ElementId) (s : String) : Verifier → Except PageError (Option String)
  | .any => .ok (some s)
  | .elementId => some <$> Verifier.checkId s
  | .language => some <$> Verifier.checkLanguage s
  | .direction => some <$> Verifier.checkDirection s
  | .alignment => some <$> Verifier.checkAlignment false s
  | .blockAlignment => some <$> Verifier.checkAlignment true s
  | .shade => some <$> Verifier.checkShade s
  | .pixels => some <$> Verifier.checkPixels s
  | .length => some <$> Verifier.checkLength s
  | .pageTitle => some <$> Verifier.checkPageTitle s
  | .pageNamespace => checkNamespace (some (Text.onChars Text.trim s))
  | .pagePath => checkPath (some (Text.onChars Text.trim s))
  | .linkTarget => some <$> Verifier.checkLinkTarget p.site s
  | .categoryName => p.checkCategoryName id s

end Page

namespace Edit

/-- Let a link lead to its new target. -/
def retarget (id : ElementId) (new : String) : Edit Unit := do
  let link ← ask (·.backingNode id)
  match ← ask (·.payload link) with
  | .link _ title => surgery (Surgery.setPayload link (.link new title))
  | other => throw (.invariant (.linkBacking other.name))
  surgery (Surgery.addGlue link)

/-- What else happens when a value has been stored. -/
def react (id : ElementId) (old : Option String) (new : String) : Option Reaction → Edit Unit
  | none => pure ()
  | some .retarget => if old = some new then pure () else retarget id new
  | some .renameCategory => renameLinks id old new

/-- Remove an attribute, from the tag as well. The answer is the value that it had. -/
def removeAttribute (id : ElementId) (name : String) : Edit (Option String) := do
  let policy ← ask (·.policy id name)
  if !policy.removable then throw (.unsupported (.removeAttribute name))
  match ← ask (·.attribute? id name) with
  | none => pure none
  | some a =>
    match a.node with
    | some node =>
      let list ← ask (·.attributeList id)
      surgery (Surgery.change (·.removeItem list node))
    | none => pure ()
    update id fun e => { e with attributes := Attribute.erase e.attributes a.name }
    pure (some a.value)

/-- Give an attribute a value. The answer is the value that it had. -/
def setAttribute (id : ElementId) (name value : String) : Edit (Option String) := do
  let policy ← ask (·.policy id name)
  match ← ask (·.verify id value policy.verifier) with
  | none => removeAttribute id name
  | some verified =>
    let new := policy.normalization.apply verified
    let old ← commit id policy name.toLower new
    react id old new policy.reaction
    pure old

/-- Give an attribute a value or take it away. -/
def setOrRemove (id : ElementId) (name : String) : Option String → Edit Unit
  | some value => do
    let _ ← setAttribute id name value
  | none => do
    let _ ← removeAttribute id name

def renameCategory (old new : String) : Edit Unit := do
  let id ← needCategory old
  let _ ← setAttribute id "name" new

end Edit
end WikiPage
