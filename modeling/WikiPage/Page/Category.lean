import WikiPage.Page.Assign

/-!
# Categories

The page stands in a category when a link on it names the category, whatever the case and the spacing
of the name. A new category is given a link at the end of the page. Renaming one changes its canonical
link and takes the others away; removing one takes all of them away. A category whose links are cut
out with a part of the page is given a new link at the end.
-/

namespace WikiPage

/-- What the spellings of one category have in common. -/
def categoryKey (name : String) : String :=
  String.ofList (Text.lowercase (Text.squeeze (normalTitle name.toList)))

example : categoryKey " FOO_ Bar " = "foo bar" := by decide +kernel

namespace Page

/-- The attached categories in the order of adding. -/
def categoryIds (p : Page) : List ElementId :=
  match p.find? root with
  | some e => e.children.filter (· ≠ body)
  | none => []

def category? (p : Page) (name : String) : Option ElementId :=
  p.categories.find? (categoryKey name)

def hasCategory (p : Page) (name : String) : Bool :=
  (p.category? name).isSome

/-- The links that back a category, the canonical one last. -/
def categoryLinks (p : Page) (id : ElementId) : Except PageError (List NodeId) := do
  let e ← p.get id
  if e.kind = .category then .ok (e.links.map PlacedLink.link)
  else .error (.unsupported (.notCategory id))

/-- The name of a category as it is stored. -/
def storedName (p : Page) (id : ElementId) : Except PageError String := do
  match ← p.value? id "name" with
  | some name => .ok name
  | none => .error (.invariant (.namelessCategory id))

end Page

/-- The name of the category that a link puts its page into. -/
def Arena.linkedCategory? (a : Arena) (site : Site) (link : NodeId) :
    Except Arena.Error (Option String) := do
  match ← a.payload link with
  | .link target _ => .ok (site.categoryOf? target)
  | _ => .ok none

namespace Edit

def categoryTarget (p : Page) (name : String) : String :=
  p.site.categoryPrefix ++ ":" ++ name

/-- Make a link to a category at the end of the page. -/
def appendCategoryLink (name : String) : Edit PlacedLink := do
  let p ← get
  let container := p.arena.content
  surgery do
    let title ← Surgery.make (.list [])
    let link ← Surgery.make (.link (categoryTarget p name) title)
    Surgery.addGlue link
    Surgery.change (·.appendItem container link)
    pure ⟨container, link⟩

def addLink (id : ElementId) (placed : PlacedLink) : Edit Unit := do
  modify fun p => { p with owners := p.owners.insert placed.link id }
  update id fun e => { e with links := e.links ++ [placed] }

def attachCategory (id : ElementId) (name : String) (placed : PlacedLink) : Edit Unit := do
  addLink id placed
  update id fun e => { e with parent := some Page.root }
  update Page.root fun e => { e with children := e.children ++ [id] }
  modify fun p => { p with categories := p.categories.insert (categoryKey name) id }

def makeCategory (name : String) : Edit ElementId := do
  let id ← make { kind := .category, backing := none }
  let _ ← assign id "name" name
  pure id

/-- Take links of a category out of their containers, all but the one that is kept. -/
def dropLinks (id : ElementId) (kept : Option NodeId) : Edit Unit := do
  let e ← ask (·.get id)
  update id fun e => { e with links := [] }
  e.links.forM fun placed => do
    if some placed.link = kept then
      update id fun e => { e with links := e.links ++ [placed] }
    else
      surgery (Surgery.change (·.removeItem placed.container placed.link))
      modify fun p => { p with owners := p.owners.erase placed.link }

/-- Put the page into a new category. -/
def addCategory (name : String) : Edit ElementId := do
  let name := normalizeTitle name
  ask fun p => do
    checkCategory (some name)
    if p.hasCategory name then throw (.nameCollision name)
  let id ← makeCategory name
  let placed ← appendCategoryLink name
  attachCategory id name placed
  pure id

/-- The category of a name, for an edit that needs one. -/
def needCategory (name : String) : Edit ElementId :=
  ask fun p => match p.category? name with
    | some id => .ok id
    | none => refuse (.noCategory name)

/-- Take the page out of a category. -/
def removeCategory (name : String) : Edit ElementId := do
  let id ← needCategory name
  dropLinks id none
  let stored ← ask (·.storedName id)
  modify fun p => { p with categories := p.categories.erase (categoryKey stored) }
  update Page.root fun e => { e with children := e.children.filter (· ≠ id) }
  update id fun e => { e with parent := none }
  pure id

/-- Record a link found on the page, for its category or for a new one. The name is spelled as in the
latest link. -/
def registerLink (name : String) (placed : PlacedLink) : Edit Unit := do
  let p ← get
  match p.category? name with
  | some id =>
    addLink id placed
    let _ ← assign id "name" name
  | none =>
    let id ← makeCategory name
    attachCategory id name placed

/-- Let the canonical link of a category name it anew. -/
def retitle (id : ElementId) (link : NodeId) (old : Option String) (new : String) : Edit Unit := do
  let p ← get
  match ← ask (·.payload link) with
  | .link _ title => surgery (Surgery.setPayload link (.link (categoryTarget p new) title))
  | other => throw (.invariant (.categoryBacking other.name))
  surgery (Surgery.addGlue link)
  dropLinks id (some link)
  match old with
  | some old => modify fun p => { p with categories := p.categories.erase (categoryKey old) }
  | none => pure ()
  modify fun p => { p with categories := p.categories.insert (categoryKey new) id }

/-- Let the links of a category follow its new name. A link that names it so already is left alone,
and so are the links beside it. -/
def renameLinks (id : ElementId) (old : Option String) (new : String) : Edit Unit := do
  let e ← ask (·.get id)
  match e.links.getLast? with
  | none => pure ()
  | some canonical =>
    let named ← ask fun p => PageError.ofArena (p.arena.linkedCategory? p.site canonical.link)
    if named ≠ some new then retitle id canonical.link old new

/-- The categories with links at or below a node, in the order of these links. -/
def categoriesWithin (p : Page) (node : NodeId) : Except PageError (List ElementId) := do
  let below ← PageError.ofArena (p.arena.descendants node)
  .ok ((node :: below).filterMap p.owners.find?).eraseDups

/-- Give a category one new link at the end of the page for all it has. -/
def renewLink (id : ElementId) : Edit Unit := do
  let name ← ask (·.storedName id)
  dropLinks id none
  let placed ← appendCategoryLink name
  addLink id placed

/-- Keep the categories whose links were cut out of the page with a node. -/
def keepCategories (node : NodeId) : Edit Unit := do
  let ids ← ask (categoriesWithin · node)
  ids.forM renewLink

end Edit
end WikiPage
