import WikiPage.Error

/-!
# Surgery on containers

Nodes are put into containers and taken out of them by identity. A node that is searched for has to
stand in the container exactly once, and a node that is put in must not stand there yet; otherwise the
operation fails. What fails leaves the arena as it was.
-/

namespace WikiPage.Arena

/-- The place of a node among the items of a container. -/
def position (container node : NodeId) (items : List NodeId) : Except PageError Nat :=
  match items.idxOf? node with
  | none => .error (.invariant (.notInContainer node container))
  | some i =>
    if items.count node = 1 then .ok i
    else .error (.invariant (.repeatedInContainer node container))

theorem position_eq_ok_iff {container node : NodeId} {items : List NodeId} {i : Nat} :
    position container node items = .ok i ↔ items.idxOf? node = some i ∧ items.count node = 1 := by
  unfold position
  cases items.idxOf? node with
  | none => simp
  | some j => by_cases h : items.count node = 1 <;> simp [h]

def requireAbsent (container node : NodeId) (items : List NodeId) : Except PageError Unit :=
  if items.contains node then .error (.invariant (.alreadyInContainer node container)) else .ok ()

theorem requireAbsent_eq_ok_iff {container node : NodeId} {items : List NodeId} :
    requireAbsent container node items = .ok () ↔ node ∉ items := by
  by_cases h : node ∈ items <;> simp [requireAbsent, h]

/-- The place of a node in a container. -/
def indexIn (a : Arena) (container node : NodeId) : Except PageError Nat := do
  let items ← PageError.ofArena (a.items container)
  position container node items

def changeItems (a : Arena) (container : NodeId)
    (change : List NodeId → Except PageError (List NodeId)) : Except PageError Arena := do
  let items ← PageError.ofArena (a.items container)
  let changed ← change items
  .ok (a.setItems container changed)

theorem changeItems_of_items {a : Arena} {container : NodeId} {items : List NodeId}
    (h : a.items container = .ok items)
    (change : List NodeId → Except PageError (List NodeId)) :
    a.changeItems container change = (change items).map (a.setItems container) := by
  simp only [changeItems, h, PageError.ofArena, bind, Except.bind]
  cases change items <;> rfl

/-- Put `new` in the place of `old`. -/
def replaceItem (a : Arena) (container old new : NodeId) : Except PageError Arena :=
  a.changeItems container fun items => do
    let i ← position container old items
    if new ≠ old then requireAbsent container new items
    .ok (items.set i new)

def removeItem (a : Arena) (container node : NodeId) : Except PageError Arena :=
  a.changeItems container fun items => do
    let i ← position container node items
    .ok (items.eraseIdx i)

def insertBefore (a : Arena) (container node reference : NodeId) : Except PageError Arena :=
  a.changeItems container fun items => do
    let i ← position container reference items
    requireAbsent container node items
    .ok (items.insertIdx i node)

def insertAfter (a : Arena) (container node reference : NodeId) : Except PageError Arena :=
  a.changeItems container fun items => do
    let i ← position container reference items
    requireAbsent container node items
    .ok (items.insertIdx (i + 1) node)

def prependItem (a : Arena) (container node : NodeId) : Except PageError Arena :=
  a.changeItems container fun items => do
    requireAbsent container node items
    .ok (node :: items)

def appendItem (a : Arena) (container node : NodeId) : Except PageError Arena :=
  a.changeItems container fun items => do
    requireAbsent container node items
    .ok (items ++ [node])

end WikiPage.Arena

namespace WikiPage

/-- An operation that changes the arena and may fail; the steps done before a failure stay done. -/
abbrev Surgery := EStateM PageError Arena

namespace Surgery

def ask (f : Arena → Except PageError α) : Surgery α := fun a =>
  match f a with
  | .ok x => .ok x a
  | .error e => .error e a

def look (f : Arena → Except Arena.Error α) : Surgery α :=
  ask fun a => PageError.ofArena (f a)

def change (f : Arena → Except PageError Arena) : Surgery Unit := fun a =>
  match f a with
  | .ok b => .ok () b
  | .error e => .error e a

def make (p : Payload) : Surgery NodeId := fun a =>
  .ok a.next (a.push ⟨p, none⟩)

def setPayload (id : NodeId) (p : Payload) : Surgery Unit := fun a =>
  .ok () (a.setPayload id p)

def setItems (id : NodeId) (items : List NodeId) : Surgery Unit :=
  setPayload id (.list items)

def setGlue (id : NodeId) (g : Glue) : Surgery Unit :=
  change fun a => PageError.ofArena (a.setGlue id (some g))

end Surgery
end WikiPage
