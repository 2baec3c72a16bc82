import WikiPage.Page.Build
import WikiPage.Page.Child
import WikiPage.Page.Create
import WikiPage.Page.Property
import WikiPage.Page.Text

/-!
# Histories

An act is one of the changes that a page offers to those who use it. A page is reached if it is new or
has been read, and any acts have been carried out on it since; an act that fails counts as well, and the
page is then what the act left behind.
-/

namespace WikiPage

inductive Act
  | createParagraph | createBold | createItalics | createRule | createDiv
  | createLink (target : String)
  | createText (s : String)
  | createComment (s : String)
  | insertChild (parent child : ElementId) (position : Position)
  | removeChild (parent child : ElementId)
  | replaceChild (parent new old : ElementId)
  | setText (id : ElementId) (s : String)
  | setComment (id : ElementId) (s : String)
  | setAttribute (id : ElementId) (name value : String)
  | removeAttribute (id : ElementId) (name : String)
  /-- Store a value as it is, without checking it. -/
  | assign (id : ElementId) (name value : String)
  | promote (id : ElementId)
  | addCategory (name : String)
  | renameCategory (old new : String)
  | removeCategory (name : String)
  | setTitle (title : String)
  | setNamespace (name : Option String)
  | setPath (path : Option String)
  | setAlignment (id : ElementId) (alignment : Option Alignment)
  | setNoShade (id : ElementId) (on : Bool)
  | setThickness (id : ElementId) (pixels : Option UInt32)
  | setWidth (id : ElementId) (width : Option Length)
  | setLinkTarget (id : ElementId) (target : String)
  | setCategoryName (id : ElementId) (name : String)
  /-- An attribute that every element with a tag has. -/
  | setUniversal (id : ElementId) (name : String) (value : Option String)
  deriving DecidableEq, Repr

namespace Act

/-- The edit that an act is, without its answer. -/
def edit : Act → Edit Unit
  | createParagraph => do let _ ← Edit.createParagraph
  | createBold => do let _ ← Edit.createBold
  | createItalics => do let _ ← Edit.createItalics
  | createRule => do let _ ← Edit.createRule
  | createDiv => do let _ ← Edit.createDiv
  | createLink target => do let _ ← Edit.createLink target
  | createText s => do let _ ← Edit.createText s
  | createComment s => do let _ ← Edit.createComment s
  | insertChild parent child position => Edit.insertChild parent child position
  | removeChild parent child => Edit.removeChild parent child
  | replaceChild parent new old => Edit.replaceChild parent new old
  | setText id s => Edit.setText id s
  | setComment id s => Edit.setComment id s
  | setAttribute id name value => do let _ ← Edit.setAttribute id name value
  | removeAttribute id name => do let _ ← Edit.removeAttribute id name
  | assign id name value => do let _ ← Edit.assign id name value
  | promote id => Edit.promote id
  | addCategory name => do let _ ← Edit.addCategory name
  | renameCategory old new => Edit.renameCategory old new
  | removeCategory name => do let _ ← Edit.removeCategory name
  | setTitle title => Edit.setTitle title
  | setNamespace name => Edit.setNamespace name
  | setPath path => Edit.setPath path
  | setAlignment id alignment => Edit.setAlignment id alignment
  | setNoShade id on => Edit.setNoShade id on
  | setThickness id pixels => Edit.setThickness id pixels
  | setWidth id width => Edit.setWidth id width
  | setLinkTarget id target => Edit.setLinkTarget id target
  | setCategoryName id name => Edit.setCategoryName id name
  | setUniversal id name value => Edit.setOrRemove id name value

/-- Whether the act checks what it stores. -/
def isChecked : Act → Bool
  | assign _ _ _ => false
  | _ => true

/-- The elements that an act is about. -/
def ids : Act → List ElementId
  | insertChild parent child (.before reference) => [parent, child, reference]
  | insertChild parent child (.after reference) => [parent, child, reference]
  | insertChild parent child _ => [parent, child]
  | removeChild parent child => [parent, child]
  | replaceChild parent new old => [parent, new, old]
  | setText id _ => [id]
  | setComment id _ => [id]
  | setAttribute id _ _ => [id]
  | removeAttribute id _ => [id]
  | assign id _ _ => [id]
  | promote id => [id]
  | setAlignment id _ => [id]
  | setNoShade id _ => [id]
  | setThickness id _ => [id]
  | setWidth id _ => [id]
  | setLinkTarget id _ => [id]
  | setCategoryName id _ => [id]
  | setUniversal id _ _ => [id]
  | _ => []

/-- The page after an act, whether it went well or not. -/
def after (act : Act) (p : Page) : Page :=
  match act.edit p with
  | .ok _ q => q
  | .error _ q => q

end Act

/-- The page after acts one after the other. -/
def Act.run (acts : List Act) (p : Page) : Page :=
  acts.foldl (fun p act => act.after p) p

/-- The pages over a site that come about by acts that check what they store. -/
inductive Page.Reached [Entities] (site : Site) : Page → Prop
  | new {title : String} {p : Page} (h : Page.new site title = .ok p) : Reached site p
  | read {text title : String} {preserve : Bool} {p : Page}
    (h : Page.read text site title preserve = .ok p) : Reached site p
  | act {p : Page} (h : Reached site p) (act : Act) (hc : act.isChecked = true) :
    Reached site (act.after p)

theorem Page.Reached.run [Entities] {site : Site} {acts : List Act} {p : Page} (h : p.Reached site)
    (hc : acts.all Act.isChecked = true) : (Act.run acts p).Reached site := by
  induction acts generalizing p with
  | nil => exact h
  | cons act acts ih =>
    rw [List.all_cons, Bool.and_eq_true] at hc
    exact ih (h.act act hc.1) hc.2

end WikiPage
