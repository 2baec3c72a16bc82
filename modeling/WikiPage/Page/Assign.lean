import WikiPage.Page.Promotion

/-!
# Assignment

A value is stored under the name of the attribute in lower case and, where its policy says so, written
into the tag of the element. The answer is the value stored before.
-/

namespace WikiPage.Edit

/-- Write a value into the tag of an element, which is made a tag for it. -/
def writeValue (id : ElementId) (key value : String) : Edit NodeId := do
  ask fun _ => checkXmlName key
  promote id
  let stored ← ask (·.attribute? id key)
  writeAttribute id key value (stored.bind Attribute.node)

/-- Store a value that has been checked and normalized. -/
def commit (id : ElementId) (policy : Policy) (key value : String) : Edit (Option String) := do
  let stored ← ask (·.attribute? id key)
  let node ← if policy.synced then some <$> writeValue id key value
    else pure (stored.bind Attribute.node)
  update id fun e => { e with attributes := Attribute.put e.attributes ⟨key, value, node⟩ }
  pure (stored.map Attribute.value)

/-- Store a value without checking it. -/
def assign (id : ElementId) (name value : String) : Edit (Option String) := do
  let policy ← ask (·.policy id name)
  commit id policy name.toLower (policy.normalization.apply value)

end WikiPage.Edit
