import WikiPage.Valid

/-!
# Attribute policies

Each attribute of an element follows one policy: how a new value is checked, how its blanks are
normalized, whether it may be removed, whether it is written into the tag of the element, and what else
happens when it changes. A policy is found by the name of the attribute, first among those of the
kind, then among those of every element with a tag; any other name on such an element has the open
policy.
-/

namespace WikiPage

inductive Normalization
  /-- Tabs and line breaks become spaces. -/
  | cdata
  /-- Words with one space between them. -/
  | words
  deriving DecidableEq, Repr

namespace Normalization

def spaces (s : List Char) : List Char :=
  s.map fun c => if c = '\t' ∨ c = '\n' ∨ c = '\r' then ' ' else c

def apply : Normalization → String → String
  | cdata, s => Text.onChars spaces s
  | words, s => Text.onChars (fun cs => Text.squeeze (spaces cs)) s

end Normalization

/-- The checks that new values undergo. -/
inductive Verifier
  | any | elementId | language | direction | alignment | blockAlignment | shade | pixels | length
  | pageTitle | pageNamespace | pagePath | linkTarget | categoryName
  deriving DecidableEq, Repr

/-- What happens beside the change of a value. -/
inductive Reaction
  | retarget | renameCategory
  deriving DecidableEq, Repr

structure Policy where
  name : String
  verifier : Verifier
  normalization : Normalization := .words
  removable : Bool := true
  /-- Whether the value is written into the tag. -/
  synced : Bool := true
  reaction : Option Reaction := none
  deriving DecidableEq, Repr

namespace Policy

/-- The policies of every element with a tag. -/
def universal : List Policy :=
  [{ name := "id", verifier := .elementId }, { name := "class", verifier := .any },
   { name := "style", verifier := .any }, { name := "title", verifier := .any },
   { name := "lang", verifier := .language }, { name := "dir", verifier := .direction }]

/-- The policy of all other names on an element with a tag. -/
def generic : Policy :=
  { name := "*", verifier := .any, normalization := .cdata }

/-- The policies of one kind. -/
def specific : Kind → List Policy
  | .page =>
    [{ name := "title", verifier := .pageTitle, removable := false, synced := false },
     { name := "namespace", verifier := .pageNamespace, synced := false },
     { name := "path", verifier := .pagePath, synced := false }]
  | .paragraph => [{ name := "align", verifier := .blockAlignment }]
  | .div => [{ name := "align", verifier := .blockAlignment }]
  | .rule =>
    [{ name := "align", verifier := .alignment }, { name := "noshade", verifier := .shade },
     { name := "size", verifier := .pixels }, { name := "width", verifier := .length }]
  | .link =>
    [{ name := "target", verifier := .linkTarget, removable := false, synced := false,
       reaction := some .retarget }]
  | .category =>
    [{ name := "name", verifier := .categoryName, removable := false, synced := false,
       reaction := some .renameCategory }]
  | _ => []

/-- The policy of a name on a kind, if there is one. -/
def find? (kind : Kind) (name : String) : Option Policy :=
  match (specific kind).find? (·.name == name.toLower) with
  | some p => some p
  | none =>
    if kind.tag?.isSome then
      some (((universal.find? (·.name == name.toLower))).getD generic)
    else none

end Policy

namespace Verifier

/-- A value out of a fixed set, in any case; the answer is in lower case. -/
def choice (allowed : List String) (s : String) : Except PageError String :=
  let lowered := (Text.onChars Text.trim s).toLower
  if allowed.contains lowered then .ok lowered else refuse (.choice s allowed)

/-- An identifier: one word. -/
def checkId (s : String) : Except PageError String :=
  let s := Text.onChars Text.trim s
  if s.toList.isEmpty || s.toList.any Text.isBlank then refuse (.elementId s) else .ok s

/-- Whether a text is a language tag: subtags of one to eight letters or digits with dashes between
them, the first of letters only. -/
def isLanguage (s : List Char) : Bool :=
  let fits (part : List Char) := 1 ≤ part.length && part.length ≤ 8
  match s.splitOn '-' with
  | [] => false
  | first :: others =>
    fits first && first.all Char.isAlpha && others.all fun part =>
      fits part && part.all Char.isAlphanum

def checkLanguage (s : String) : Except PageError String :=
  let s := Text.onChars Text.trim s
  if isLanguage s.toList then .ok s else refuse (.language s)

def checkDirection (s : String) : Except PageError String :=
  choice ["ltr", "rtl"] s

def checkShade (s : String) : Except PageError String :=
  choice ["noshade"] s

/-- An alignment; only that of a block may justify. -/
def checkAlignment (justify : Bool) (s : String) : Except PageError String := do
  let a ← Alignment.read s
  if a = .justify ∧ !justify then refuse .justify else .ok a.name

def checkPixels (s : String) : Except PageError String :=
  match Length.read? s with
  | some (.pixels n) => .ok (Length.pixels n).render
  | _ => refuse (.pixels s)

def checkLength (s : String) : Except PageError String :=
  Length.render <$> Length.read s

/-- A title without the blanks around it. -/
def checkPageTitle (s : String) : Except PageError String := do
  let s := Text.onChars Text.trim s
  checkTitle (some s)
  .ok s

/-- A link may lead to any page, but not to a category or an image: links to these have kinds of
their own or none. -/
def checkLinkTarget (site : Site) (s : String) : Except PageError String := do
  let s := Text.onChars Text.trim s
  checkTarget (some s)
  match site.parseTarget s with
  | .error e => refuse (.unreadableTarget e)
  | .ok t =>
    if site.isCategory t then refuse (.categoryTarget s)
    else if site.isImage t then refuse (.imageTarget s)
    else .ok s

end Verifier
end WikiPage
