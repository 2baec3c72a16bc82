import WikiPage.Page.Attribute

/-!
# Properties

Attributes by their meaning. A property belongs to certain kinds of elements; a stored value that does
not read as one counts as none.
-/

namespace WikiPage

namespace Page

/-- Refuse a property that elements of other kinds have. -/
def requireKind (p : Page) (id : ElementId) (kinds : List Kind) : Except PageError Unit := do
  let kind ← p.kind id
  if kinds.contains kind then .ok () else .error (.unsupported (.property kind))

def title (p : Page) : Except PageError String := do
  match ← p.value? root "title" with
  | some title => .ok title
  | none => .error (.invariant .noTitle)

def namespace? (p : Page) : Except PageError (Option String) :=
  p.value? root "namespace"

def path? (p : Page) : Except PageError (Option String) :=
  p.value? root "path"

def alignment? (p : Page) (id : ElementId) : Except PageError (Option Alignment) := do
  p.requireKind id [.paragraph, .div, .rule]
  .ok ((← p.value? id "align").bind Alignment.read?)

/-- Whether a rule is drawn without shade. -/
def noShade (p : Page) (id : ElementId) : Except PageError Bool := do
  p.requireKind id [.rule]
  .ok (← p.value? id "noshade").isSome

/-- The thickness of a rule. -/
def thickness? (p : Page) (id : ElementId) : Except PageError (Option Length) := do
  p.requireKind id [.rule]
  .ok ((← p.value? id "size").bind Length.read?)

/-- The width of a rule. -/
def width? (p : Page) (id : ElementId) : Except PageError (Option Length) := do
  p.requireKind id [.rule]
  .ok ((← p.value? id "width").bind Length.read?)

def linkTarget (p : Page) (id : ElementId) : Except PageError String := do
  p.requireKind id [.link]
  match ← p.value? id "target" with
  | some target => .ok target
  | none => .error (.invariant (.noTarget id))

def categoryName (p : Page) (id : ElementId) : Except PageError String := do
  p.requireKind id [.category]
  p.storedName id

end Page

namespace Edit

def setTitle (title : String) : Edit Unit :=
  setOrRemove Page.root "title" (some title)

def setNamespace : Option String → Edit Unit :=
  setOrRemove Page.root "namespace"

def setPath : Option String → Edit Unit :=
  setOrRemove Page.root "path"

def setAlignment (id : ElementId) (alignment : Option Alignment) : Edit Unit :=
  setOrRemove id "align" (alignment.map Alignment.name)

def setNoShade (id : ElementId) (on : Bool) : Edit Unit := do
  ask (·.requireKind id [.rule])
  setOrRemove id "noshade" (if on then some "noshade" else none)

def setThickness (id : ElementId) (pixels : Option UInt32) : Edit Unit := do
  ask (·.requireKind id [.rule])
  setOrRemove id "size" (pixels.map fun n => (Length.pixels n).render)

def setWidth (id : ElementId) (width : Option Length) : Edit Unit := do
  ask (·.requireKind id [.rule])
  setOrRemove id "width" (width.map Length.render)

def setLinkTarget (id : ElementId) (target : String) : Edit Unit := do
  ask (·.requireKind id [.link])
  setOrRemove id "target" (some target)

def setCategoryName (id : ElementId) (name : String) : Edit Unit := do
  ask (·.requireKind id [.category])
  setOrRemove id "name" (some name)

end Edit
end WikiPage
