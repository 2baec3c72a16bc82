import WikiPage.Site
import WikiPage.Text.Quoted

/-!
# Link targets

The target of a link names a namespace, a title and a fragment of the page, as in `Help:Contents#top`.
A colon in front makes a link to a category or an image a plain link.
-/

namespace WikiPage

structure Target where
  namespaceId : Int
  title : String
  fragment : Option String
  leadingColon : Bool
  deriving DecidableEq, Repr

inductive Target.Error
  | emptyTitle (target : String)
  | illegalCharacter (target : String) (c : Char)
  deriving DecidableEq, Repr

def Target.Error.message : Target.Error → String
  | emptyTitle target => "link target " ++ Text.quoted target ++ " has an empty title"
  | illegalCharacter target c =>
    "link target " ++ Text.quoted target ++ " contains illegal character " ++ Text.quotedChar c

/-- The characters that no title holds. -/
def Target.isIllegal (c : Char) : Bool :=
  ['<', '>', '[', ']', '{', '}', '|', '\uFFFD'].contains c || Text.isControl c

/-- The separate parts of a target, with the title as written. -/
structure Target.Parts where
  leadingColon : Bool
  page : List Char
  fragment : Option (List Char)

/-- Split off a leading colon and what stands behind the first `#`. -/
def Target.split (s : List Char) : Target.Parts :=
  let trimmed := Text.trim s
  let (leadingColon, rest) := match trimmed with
    | ':' :: rest => (true, Text.trimStart rest)
    | rest => (false, rest)
  match Text.cutAt '#' rest with
  | some (page, fragment) => ⟨leadingColon, page, some fragment⟩
  | none => ⟨leadingColon, rest, none⟩

namespace Site

/-- Split off the namespace in front of the first colon. What stands there is part of the title if it
is blank or no namespace goes by that name. -/
def splitNamespace (site : Site) (page : List Char) : Int × List Char :=
  match Text.cutAt ':' page with
  | none => (0, page)
  | some (name, title) =>
    match site.resolve? name with
    | some ns => if Text.trim name = [] then (0, page) else (ns.id, title)
    | none => (0, page)

def parseTarget (site : Site) (target : String) : Except Target.Error Target :=
  let parts := Target.split target.toList
  let (namespaceId, page) := site.splitNamespace parts.page
  let title := normalTitle page
  if title = [] ∧ parts.fragment = none then .error (.emptyTitle target)
  else
    match title.find? Target.isIllegal with
    | some c => .error (.illegalCharacter target c)
    | none => .ok ⟨namespaceId, String.ofList title, parts.fragment.map String.ofList,
        parts.leadingColon⟩

/-- Whether a link shows an image. -/
def isImage (site : Site) (t : Target) : Bool :=
  !t.leadingColon && site.imageNamespaces.contains t.namespaceId

/-- Whether a link puts its page into a category. -/
def isCategory (site : Site) (t : Target) : Bool :=
  !t.leadingColon && t.namespaceId == site.categoryNamespace

/-- The title of the category that a link with this target puts its page into. -/
def categoryOf? (site : Site) (target : String) : Option String :=
  match site.parseTarget target with
  | .ok t => if site.isCategory t then some t.title else none
  | .error _ => none

end Site
end WikiPage
