import WikiPage.Text.CaseTable

/-!
# Lower case

Every capital letter goes to its lower-case partner; a dotted capital I becomes two characters. A
capital sigma becomes the final sigma exactly at the end of a word: a letter stands before it and
none after it, where marks and word-internal punctuation are passed over.
-/

namespace WikiPage.Text

def inRanges (ranges : List (Nat × Nat)) (c : Char) : Bool :=
  ranges.any fun r => r.1 ≤ c.toNat && c.toNat ≤ r.2

def isCased (c : Char) : Bool :=
  inRanges casedRanges c

def isCaseIgnorable (c : Char) : Bool :=
  inRanges caseIgnorableRanges c

/-- The lower-case form of a character that stands alone. -/
def lower (c : Char) : List Char :=
  if c.toNat < 128 then [c.toLower]
  else if c = 'İ' then ['i', '\u0307']
  else match capitalRanges.find? (·.covers c.toNat) with
    | some r => [Char.ofNat (r.apply c.toNat)]
    | none => [c]

/-- Whether the first character that is not passed over is a letter. -/
def letterFirst (s : List Char) : Bool :=
  match s.dropWhile isCaseIgnorable with
  | [] => false
  | c :: _ => isCased c

/-- Lower case of a text that follows `before`, which is read backwards. -/
def lowercaseAfter (before : List Char) : List Char → List Char
  | [] => []
  | c :: s =>
    (if c = 'Σ' then [if letterFirst before && !letterFirst s then 'ς' else 'σ'] else lower c) ++
      lowercaseAfter (c :: before) s

def lowercase (s : List Char) : List Char :=
  lowercaseAfter [] s

@[simp] theorem lowercase_nil : lowercase [] = [] := rfl

end WikiPage.Text
