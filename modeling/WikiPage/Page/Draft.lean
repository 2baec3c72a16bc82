import WikiPage.Page.Category

/-!
# Elements of an arena

The content of an arena is read into drafts, elements that have no number yet, and the links to
categories among it. Not every node has a draft: links to categories and images and links with
unreadable targets are passed over with their titles. A tag of an unknown kind is refused or kept as it
stands, with the category links in it.
-/

namespace WikiPage

inductive Draft
  | node (kind : Kind) (backing : Backing) (attributes : List Attribute) (children : List Draft)

/-- A category link with the name of its category. -/
structure FoundLink where
  name : String
  placed : PlacedLink
  deriving DecidableEq, Repr

/-- What a part of the arena is read as. -/
structure Findings where
  drafts : List Draft := []
  links : List FoundLink := []

namespace Findings

def append (f g : Findings) : Findings :=
  ⟨f.drafts ++ g.drafts, f.links ++ g.links⟩

/-- An element around what was found in it. -/
def wrap (kind : Kind) (backing : Backing) (attributes : List Attribute) (f : Findings) :
    Findings :=
  ⟨[.node kind backing attributes f.drafts], f.links⟩

def leaf (kind : Kind) (node : NodeId) : Findings :=
  wrap kind (.markup node) [] {}

end Findings

namespace Attribute

/-- Take up an attribute as it was read, unless one of its name is there already. -/
def adopt (kind : Kind) (attributes : List Attribute) (name value : String) (node : NodeId) :
    List Attribute :=
  match Policy.find? kind name with
  | none => attributes
  | some policy =>
    if (find? attributes name.toLower).isSome then attributes
    else attributes ++ [⟨name.toLower, policy.normalization.apply value, some node⟩]

/-- The attributes of a tag. One without a value has its name for a value. -/
def read (kind : Kind) (element : NodeId) :
    List Attribute → List (Tree NodeId Node) → Except PageError (List Attribute)
  | attributes, [] => .ok attributes
  | _, .missing id :: _ => .error (.arena (.unknownNode id))
  | attributes, .node id ⟨.attr name hasValue _, _⟩ below :: rest => do
    let value ← if hasValue then Node.texts below else .ok name
    read kind element (adopt kind attributes name value id) rest
  | _, .node .. :: _ => .error (.invariant (.strayAttribute element))

end Attribute

namespace Findings

/-- The category links below a tag that is kept as it stands. -/
def linksWithin (a : Arena) (site : Site) (element : NodeId) :
    Except PageError (List FoundLink) := do
  let below ← PageError.ofArena (a.descendants element)
  let links ← below.mapM fun link => do
    match ← PageError.ofArena (a.linkedCategory? site link) with
    | none => .ok none
    | some name =>
      match ← PageError.ofArena (a.findContainer? element link) with
      | some container => .ok (some ⟨name, container, link⟩)
      | none => .error (.invariant (.looseCategoryLink link))
  .ok (links.filterMap id)

/-- A tag of an unknown kind. -/
def unknown (a : Arena) (site : Site) (preserve : Bool) (node : NodeId) (name : String) :
    Except PageError Findings := do
  if preserve then
    let links ← linksWithin a site node
    .ok (append ⟨[], links⟩ (wrap .preserved (.tag node) [] {}))
  else .error (.unsupportedElement node name)

/-- What becomes of a link: an element, a link to a category, or nothing. -/
inductive LinkUse
  | element | category (name : String) | skipped

def linkUse (site : Site) (target : String) : LinkUse :=
  match site.parseTarget target with
  | .error _ => .skipped
  | .ok t =>
    if site.isCategory t then .category t.title
    else if site.isImage t then .skipped
    else .element

mutual

/-- What a node in a container is read as. -/
def ofNode (a : Arena) (site : Site) (preserve : Bool) (container : NodeId) :
    Tree NodeId Node → Except PageError Findings
  | .missing id => .error (.arena (.unknownNode id))
  | .node id n below =>
    match n.payload with
    | .text _ => .ok (leaf .text id)
    | .newline _ => .ok (leaf .text id)
    | .reference _ => .ok (leaf .text id)
    | .comment _ => .ok (leaf .comment id)
    | .rule => .ok (leaf .rule id)
    | .paragraph _ => (ofLists a site preserve below).map (wrap .paragraph (.markup id) [])
    | .emphasis .bold _ => (ofLists a site preserve below).map (wrap .bold (.markup id) [])
    | .emphasis .italics _ => (ofLists a site preserve below).map (wrap .italics (.markup id) [])
    | .link target _ =>
      match linkUse site target with
      | .skipped => .ok {}
      | .category name => .ok ⟨[], [⟨name, container, id⟩]⟩
      | .element =>
        (ofLists a site preserve below).map
          (wrap .link (.markup id) [⟨"target", Normalization.words.apply target, none⟩])
    | .element name _ _ _ =>
      match Kind.ofTag? name.toLower with
      | none => unknown a site preserve id name
      | some kind => ofTag a site preserve kind id below
    | .page _ => .error (.invariant (.unexpected n.payload.name id))
    | .list _ => .error (.invariant (.unexpected n.payload.name id))
    | .attr _ _ _ => .error (.invariant (.unexpected n.payload.name id))

/-- The element of a tag: the attribute list comes before the body. -/
def ofTag (a : Arena) (site : Site) (preserve : Bool) (kind : Kind) (id : NodeId) :
    List (Tree NodeId Node) → Except PageError Findings
  | [] => .ok (wrap kind (.tag id) [] {})
  | .missing list :: _ => .error (.arena (.unknownNode list))
  | .node list n attributes :: body => do
    if n.payload.isList then
      let attributes ← Attribute.read kind id [] attributes
      let found ← ofLists a site preserve body
      .ok (wrap kind (.tag id) attributes found)
    else .error (.arena (.notAContainer list))

/-- What the items of containers are read as. -/
def ofLists (a : Arena) (site : Site) (preserve : Bool) :
    List (Tree NodeId Node) → Except PageError Findings
  | [] => .ok {}
  | .missing list :: _ => .error (.arena (.unknownNode list))
  | .node list n below :: rest => do
    if n.payload.isList then
      let found ← ofItems a site preserve list below
      let others ← ofLists a site preserve rest
      .ok (append found others)
    else .error (.arena (.notAContainer list))

/-- What the items of a container are read as. -/
def ofItems (a : Arena) (site : Site) (preserve : Bool) (container : NodeId) :
    List (Tree NodeId Node) → Except PageError Findings
  | [] => .ok {}
  | t :: ts => do
    let found ← ofNode a site preserve container t
    let others ← ofItems a site preserve container ts
    .ok (append found others)

end

end Findings

/-- What the content of an arena is read as. -/
def Arena.findings (a : Arena) (site : Site) (preserve : Bool) : Except PageError Findings :=
  Findings.ofLists a site preserve [a.tree a.content]

end WikiPage
