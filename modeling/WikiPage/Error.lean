import WikiPage.Arena
import WikiPage.Kind
import WikiPage.Target

/-!
# Errors of the page model

An edit is refused for a value that is not valid, for an operation that its node does not have, or for
a place where the content model does not allow the node. A fault means that the page model and the
arena disagree; it is never caused by a value.
-/

namespace WikiPage

/-- Why a value is not valid. -/
inductive Rejection
  | title (s : String)
  | category (s : String)
  | namespaceName (s : String)
  | path (s : String)
  | target (s : String)
  | xmlName (s : String)
  | commentText (s : String)
  | elementId (s : String)
  | language (s : String)
  | choice (s : String) (allowed : List String)
  | justify
  | alignment (s : String)
  | pixels (s : String)
  | length (s : String)
  | unreadableTarget (e : Target.Error)
  | categoryTarget (s : String)
  | imageTarget (s : String)
  | noAttribute (kind : Kind) (name : String)
  | notAChild (child parent : ElementId)
  | ownSubtree (child : ElementId)
  | noCategory (name : String)
  deriving DecidableEq, Repr

def Rejection.message : Rejection → String
  | title s => "invalid title `" ++ s ++ "`"
  | category s => "invalid category `" ++ s ++ "`"
  | namespaceName s => "invalid namespace `" ++ s ++ "`"
  | path s => "invalid path `" ++ s ++ "`"
  | target s => "invalid target `" ++ s ++ "`"
  | xmlName s => "`" ++ s ++ "` is not a valid XML name"
  | commentText s => "`" ++ s ++ "` is not valid XML comment text"
  | elementId s => "`" ++ s ++ "` is not a valid id"
  | language s => "`" ++ s ++ "` is not a language tag"
  | choice s allowed => "`" ++ s ++ "` is not one of " ++ ", ".intercalate allowed
  | justify => "`justify` is not allowed here"
  | alignment s => "`" ++ s ++ "` is not an alignment"
  | pixels s => "`" ++ s ++ "` is not a length in pixels"
  | length s => "`" ++ s ++ "` is not a length"
  | unreadableTarget e => e.message
  | categoryTarget s => "`" ++ s ++ "` is a category; use the page's category operations"
  | imageTarget s => "`" ++ s ++ "` links an image, not a page"
  | noAttribute kind name => "<" ++ kind.name ++ "> does not support attribute `" ++ name ++ "`"
  | notAChild child parent => child.label ++ " is not a child of " ++ parent.label
  | ownSubtree child => "cannot insert " ++ child.label ++ " into its own subtree"
  | noCategory name => "no category called `" ++ name ++ "`"

/-- An operation that a node does not have. -/
inductive Unsupported
  | removeTitle
  | removeCategory
  | removeTarget
  | removeAttribute (name : String)
  | pageChildren
  | categoryChildren
  | moveCategory
  | move (kind : Kind)
  | attached (child : ElementId)
  | xmlForm (kind : Kind)
  | notText (kind : Kind)
  | notComment (kind : Kind)
  | noText (kind : Kind)
  | property (kind : Kind)
  | notCategory (id : ElementId)
  deriving DecidableEq, Repr

def Unsupported.message : Unsupported → String
  | removeTitle => "cannot remove attribute `title`"
  | removeCategory => "cannot remove attribute `category`"
  | removeTarget => "cannot remove target attribute"
  | removeAttribute name => "attribute `" ++ name ++ "` cannot be removed"
  | pageChildren => "the page's children are its body and its categories"
  | categoryChildren => "categories have no children"
  | moveCategory => "categories are added through the page's category operations"
  | move kind => "<" ++ kind.name ++ "> cannot be moved"
  | attached child => child.label ++ " is already attached; remove it first"
  | xmlForm kind => "<" ++ kind.name ++ "> has no XML form"
  | notText kind => "<" ++ kind.name ++ "> is not a text node"
  | notComment kind => "<" ++ kind.name ++ "> is not a comment"
  | noText kind => "<" ++ kind.name ++ "> has no text content"
  | property kind => "<" ++ kind.name ++ "> has no such property"
  | notCategory id => id.label ++ " is not a category"

/-- A place that the content model does not allow. -/
inductive Misplacement
  | leaf (kind : Kind)
  | refused (parent child : Kind)
  deriving DecidableEq, Repr

def Misplacement.message : Misplacement → String
  | leaf kind => "<" ++ kind.name ++ "> cannot have children"
  | refused parent child => "<" ++ parent.name ++ "> does not accept <" ++ child.name ++ ">"

/-- A disagreement of the page model with the arena. -/
inductive Fault
  | unknownElement (id : ElementId)
  | notInContainer (node container : NodeId)
  | repeatedInContainer (node container : NodeId)
  | alreadyInContainer (node container : NodeId)
  | noBacking (id : ElementId)
  | notGeneric (id : ElementId)
  | noContainer (id : ElementId)
  | xmlForm (kind : Kind)
  | notConvertible (node tag : String)
  | notText (node : String)
  | elementBacking (node : String)
  | attributeBacking (node : String)
  | linkBacking (node : String)
  | categoryBacking (node : String)
  | unexpected (name : String) (node : NodeId)
  | strayAttribute (node : NodeId)
  | looseCategoryLink (node : NodeId)
  | namelessCategory (id : ElementId)
  | noTarget (id : ElementId)
  | noTitle
  deriving DecidableEq, Repr

def Fault.message : Fault → String
  | unknownElement id => "unknown WOM node " ++ id.label
  | notInContainer node container =>
    "node " ++ node.label ++ " is not in container " ++ container.label
  | repeatedInContainer node container =>
    "node " ++ node.label ++ " appears more than once in container " ++ container.label
  | alreadyInContainer node container =>
    "node " ++ node.label ++ " is already in container " ++ container.label
  | noBacking id => id.label ++ " has no single backing AST node"
  | notGeneric id => id.label ++ " is not a generic element"
  | noContainer id => id.label ++ " has no child container"
  | xmlForm kind => "<" ++ kind.name ++ "> has no XML form"
  | notConvertible node tag => "cannot convert a " ++ node ++ " node to <" ++ tag ++ ">"
  | notText node => "cannot convert a " ++ node ++ " node to text"
  | elementBacking node => "generic element is backed by a " ++ node ++ " node"
  | attributeBacking node => "attribute is backed by a " ++ node ++ " node"
  | linkBacking node => "page link is backed by a " ++ node ++ " node"
  | categoryBacking node => "category is backed by a " ++ node ++ " node"
  | unexpected name node => "unexpected " ++ name ++ " node " ++ node.label ++ " in content"
  | strayAttribute node => "attribute list of " ++ node.label ++ " holds a non-attribute"
  | looseCategoryLink node => "category link " ++ node.label ++ " has no container"
  | namelessCategory id => "category " ++ id.label ++ " has no name"
  | noTarget id => "link " ++ id.label ++ " has no target"
  | noTitle => "page has no title"

inductive PageError
  | validation (r : Rejection)
  | unsupported (u : Unsupported)
  | contentModel (m : Misplacement)
  | nameCollision (name : String)
  | unsupportedElement (node : NodeId) (name : String)
  | invariant (f : Fault)
  | arena (e : Arena.Error)
  deriving DecidableEq, Repr

namespace PageError

def message : PageError → String
  | validation r => "invalid value: " ++ r.message
  | unsupported u => "unsupported operation: " ++ u.message
  | contentModel m => "content model violation: " ++ m.message
  | nameCollision name => "the page already has a category called `" ++ name ++ "`"
  | unsupportedElement node name =>
    "unsupported element <" ++ name ++ "> at AST node " ++ node.label
  | invariant f => "structural invariant violated: " ++ f.message
  | arena e => e.message

/-- Whether an error shows a broken invariant and not a bad request. -/
def isFatal : PageError → Bool
  | invariant _ => true
  | arena _ => true
  | _ => false

/-- An operation of the arena as part of an edit. -/
def ofArena : Except Arena.Error α → Except PageError α
  | .ok a => .ok a
  | .error e => .error (arena e)

end PageError
end WikiPage
