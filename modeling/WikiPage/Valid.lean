import WikiPage.Length

/-!
# Valid values

Which titles, names, paths, targets, comments, alignments and lengths the page model takes. Where a
value may be missing, no value stands for the attempt to remove it.
-/

namespace WikiPage

namespace Valid

/-- The characters of titles. -/
def isTitleChar (c : Char) : Bool :=
  !(c.toNat < 0x20 || c.toNat == 0x7F ||
    ['\uFFFD', '<', '>', '{', '}', '|', '[', ']', ':', '/'].contains c)

/-- A category name does not hold the sign that would begin a fragment. -/
def isCategoryChar (c : Char) : Bool :=
  isTitleChar c && c != '#'

/-- A target may name a namespace. -/
def isTargetChar (c : Char) : Bool :=
  isTitleChar c || c == ':'

def isTitle (s : String) : Bool :=
  !s.toList.isEmpty && s.toList.all isTitleChar

def isCategory (s : String) : Bool :=
  !s.toList.isEmpty && s.toList.all isCategoryChar

def isTarget (s : String) : Bool :=
  !s.toList.isEmpty && s.toList.all isTargetChar

/-- Titles with slashes between them, perhaps with one more slash at the end. -/
def isPath (s : String) : Bool :=
  let parts := s.toList.splitOn '/'
  parts.all (·.all isTitleChar) && parts.dropLast.all (!·.isEmpty)

def isNameStart (c : Char) : Bool :=
  c.isAlpha || c == '_' || c == ':'

def isNameChar (c : Char) : Bool :=
  c.isAlphanum || c == '_' || c == ':' || c == '.' || c == '-'

def isXmlName (s : String) : Bool :=
  match s.toList with
  | [] => false
  | c :: cs => isNameStart c && cs.all isNameChar

/-- Whether two dashes stand next to each other. -/
def hasDashes : List Char → Bool
  | '-' :: '-' :: _ => true
  | _ :: s => hasDashes s
  | [] => false

/-- Text that ends no comment early. -/
def isCommentText (s : String) : Bool :=
  !hasDashes s.toList && s.toList.getLast? != some '-'

end Valid

def refuse (r : Rejection) : Except PageError α :=
  .error (.validation r)

def checkTitle : Option String → Except PageError Unit
  | none => .error (.unsupported .removeTitle)
  | some s => if Valid.isTitle s then .ok () else refuse (.title s)

def checkCategory : Option String → Except PageError Unit
  | none => .error (.unsupported .removeCategory)
  | some s => if Valid.isCategory s then .ok () else refuse (.category s)

def checkTarget : Option String → Except PageError Unit
  | none => .error (.unsupported .removeTarget)
  | some s => if Valid.isTarget s then .ok () else refuse (.target s)

/-- An empty namespace is none. -/
def checkNamespace : Option String → Except PageError (Option String)
  | none => .ok none
  | some s =>
    if s = "" then .ok none
    else if Valid.isTitle s then .ok (some s)
    else refuse (.namespaceName s)

/-- An empty path is none, and a slash at the end is dropped. -/
def checkPath : Option String → Except PageError (Option String)
  | none => .ok none
  | some s =>
    if s = "" then .ok none
    else if Valid.isPath s then
      .ok (some (Text.onChars (fun cs => (Text.dropEnding? ['/'] cs).getD cs) s))
    else refuse (.path s)

def checkXmlName (s : String) : Except PageError Unit :=
  if Valid.isXmlName s then .ok () else refuse (.xmlName s)

theorem checkXmlName_eq_ok_iff {s : String} : checkXmlName s = .ok () ↔ Valid.isXmlName s = true := by
  unfold checkXmlName
  split <;> simp_all [refuse]

def checkCommentText (s : String) : Except PageError Unit :=
  if Valid.isCommentText s then .ok () else refuse (.commentText s)

theorem checkCommentText_eq_ok_iff {s : String} :
    checkCommentText s = .ok () ↔ Valid.isCommentText s = true := by
  unfold checkCommentText
  split <;> simp_all [refuse]

def Alignment.read (s : String) : Except PageError Alignment :=
  match read? s with
  | some a => .ok a
  | none => refuse (.alignment s)

def Length.read (s : String) : Except PageError Length :=
  match read? s with
  | some l => .ok l
  | none => refuse (.length s)

end WikiPage
