import WikiPage.Text.Blank

/-!
# Tags

A start tag has a name, attributes and an end; an end tag has a name. A scan begins at the `<` and
answers with the tag and the text behind it, or with nothing if the text there is no well-formed tag.
The parts of a scanned tag hold its spelling, so that they concatenate to the text scanned.
-/

namespace WikiPage

/-- An attribute as written. Before the value stand blanks, the name, an equals sign and an opening
quote; behind it stands the closing quote. -/
structure Tag.Attribute where
  name : List Char
  opening : List Char
  value : Option (List Char)
  closing : List Char
  deriving DecidableEq, Repr

structure StartTag where
  name : List Char
  attributes : List Tag.Attribute
  /-- The blanks before the closing bracket, and the bracket. -/
  ending : List Char
  selfClosing : Bool
  deriving DecidableEq, Repr

structure EndTag where
  name : List Char
  raw : List Char
  deriving DecidableEq, Repr

namespace Tag

def isSpace (c : Char) : Bool :=
  c == ' ' || c == '\t' || c == '\r' || c == '\n'

def isNameChar (c : Char) : Bool :=
  c.isAlphanum || c == '-' || c == '_' || c == ':' || c == '.'

/-- The characters of a value that stands without quotes. -/
def isUnquoted (c : Char) : Bool :=
  !([' ', '\t', '\r', '\n', '>', '"', '\'', '<', '='].contains c)

def Attribute.source (a : Attribute) : List Char :=
  a.opening ++ a.value.getD [] ++ a.closing

/-- Scan a value between two characters `quote`, the first of which has been read. -/
def quotedValue? (name opening : List Char) (quote : Char) (s : List Char) :
    Option (Attribute × List Char) :=
  (Text.cutAt quote s).map fun p => (⟨name, opening ++ [quote], some p.1, [quote]⟩, p.2)

/-- Scan a value without quotes. It is not empty and does not take the slash of a self-closing
tag. -/
def bareValue? (name opening s : List Char) : Option (Attribute × List Char) :=
  if s.takeWhile isUnquoted = [] ∨
      ((s.takeWhile isUnquoted).getLast? = some '/' ∧ (s.dropWhile isUnquoted).head? = some '>')
  then none
  else some (⟨name, opening, some (s.takeWhile isUnquoted), []⟩, s.dropWhile isUnquoted)

/-- Scan the value of an attribute; `opening` is the text before it. -/
def value? (name opening : List Char) : List Char → Option (Attribute × List Char)
  | [] => none
  | q :: s =>
    if q = '"' ∨ q = '\'' then quotedValue? name opening q s else bareValue? name opening (q :: s)

/-- Scan the attribute whose name begins the text; `blank` stands before it. -/
def attribute? (blank s : List Char) : Option (Attribute × List Char) :=
  let name := s.takeWhile isNameChar
  let behind := s.dropWhile isNameChar
  match behind.dropWhile isSpace with
  | '=' :: r =>
    value? name
      (blank ++ name ++ behind.takeWhile isSpace ++ '=' :: r.takeWhile isSpace)
      (r.dropWhile isSpace)
  | _ => some (⟨name, blank ++ name, none, []⟩, behind)

theorem source_value? {name opening s rest : List Char} {a : Attribute}
    (h : value? name opening s = some (a, rest)) :
    a.source ++ rest = opening ++ s ∧ opening <+: a.source := by
  cases s with
  | nil => simp [value?] at h
  | cons q s =>
    rw [value?] at h
    split at h
    · obtain ⟨⟨v, r⟩, hc, he⟩ := Option.map_eq_some_iff.1 h
      obtain ⟨rfl, rfl⟩ := by simpa using he
      simp [Attribute.source, Text.eq_append_of_cutAt hc]
    · rw [bareValue?] at h
      split at h
      · simp at h
      · obtain ⟨rfl, rfl⟩ := by simpa using h
        simp [Attribute.source]

theorem source_attribute? {blank s rest : List Char} {a : Attribute}
    (h : attribute? blank s = some (a, rest)) :
    a.source ++ rest = blank ++ s ∧ blank ++ s.takeWhile isNameChar <+: a.source := by
  rw [attribute?] at h
  split at h
  · rename_i r hr
    obtain ⟨h1, h2⟩ := source_value? h
    have h3 := (s.dropWhile isNameChar).takeWhile_append_dropWhile (p := isSpace)
    have h4 := s.takeWhile_append_dropWhile (p := isNameChar)
    rw [hr] at h3
    constructor
    · calc a.source ++ rest = blank ++ (s.takeWhile isNameChar ++
            ((s.dropWhile isNameChar).takeWhile isSpace ++ '=' :: r)) := by simp [h1]
        _ = blank ++ s := by rw [h3, h4]
    · rw [List.append_assoc] at h2
      exact (List.prefix_append _ _).trans h2
  · obtain ⟨rfl, rfl⟩ := by simpa using h
    simp [Attribute.source]

theorem length_rest_lt_of_attribute? {blank s rest : List Char} {a : Attribute}
    (h : attribute? blank s = some (a, rest)) (hs : s.takeWhile isNameChar ≠ []) :
    rest.length < s.length := by
  obtain ⟨h1, h2⟩ := source_attribute? h
  have h1 := congrArg List.length h1
  have h2 := h2.length_le
  have h3 := List.length_pos_iff.2 hs
  simp only [List.length_append] at h1 h2
  omega

end Tag

namespace StartTag

open Tag

/-- What stands behind the name of a start tag: attributes, then the end. An attribute is set off by
blanks. -/
def behindName? (s : List Char) : Option ((List Attribute × List Char × Bool) × List Char) :=
  match _h : s.dropWhile isSpace with
  | '>' :: rest => some (([], s.takeWhile isSpace ++ ['>'], false), rest)
  | '/' :: '>' :: rest => some (([], s.takeWhile isSpace ++ ['/', '>'], true), rest)
  | [] => none
  | c :: t =>
    if _hc : isNameChar c ∧ s.takeWhile isSpace ≠ [] then
      match _ha : attribute? (s.takeWhile isSpace) (c :: t) with
      | none => none
      | some (a, rest) => (behindName? rest).map fun p => ((a :: p.1.1, p.1.2), p.2)
    else none
termination_by s.length
decreasing_by
  have h1 := length_rest_lt_of_attribute? _ha (by simp [_hc.1])
  have h2 := (s.dropWhile_suffix isSpace).length_le
  rw [_h] at h2
  omega

/-- Scan a start tag. -/
def scan? : List Char → Option (StartTag × List Char)
  | '<' :: c :: s =>
    if c.isAlpha then
      (behindName? (s.dropWhile Char.isAlphanum)).map fun p =>
        (⟨c :: s.takeWhile Char.isAlphanum, p.1.1, p.1.2.1, p.1.2.2⟩, p.2)
    else none
  | _ => none

def source (t : StartTag) : List Char :=
  '<' :: t.name ++ t.attributes.flatMap Attribute.source ++ t.ending

theorem source_behindName? {s rest : List Char} {p : List Attribute × List Char × Bool}
    (h : behindName? s = some (p, rest)) :
    p.1.flatMap Attribute.source ++ p.2.1 ++ rest = s ∧ p.2.1 ≠ [] := by
  fun_induction behindName? s generalizing p rest with
  | case1 s r hs =>
    obtain ⟨rfl, rfl⟩ := by simpa using h
    have := s.takeWhile_append_dropWhile (p := isSpace)
    rw [hs] at this
    simpa using this
  | case2 s r hs =>
    obtain ⟨rfl, rfl⟩ := by simpa using h
    have := s.takeWhile_append_dropWhile (p := isSpace)
    rw [hs] at this
    simpa using this
  | case3 => simp at h
  | case4 => simp at h
  | case5 s c t _ _ hs hc a r ha ih =>
    obtain ⟨⟨q, u⟩, hq, he⟩ := Option.map_eq_some_iff.1 h
    obtain ⟨rfl, rfl⟩ := by simpa using he
    obtain ⟨h1, h2⟩ := ih hq
    have h3 := (source_attribute? ha).1
    have h4 := s.takeWhile_append_dropWhile (p := isSpace)
    rw [hs] at h4
    refine ⟨?_, h2⟩
    rw [← h4, ← h3, ← h1]
    simp
  | case6 => simp at h

/-- The parts of a start tag and the text behind it make up the text scanned. -/
theorem source_append_of_scan? {s rest : List Char} {t : StartTag} (h : scan? s = some (t, rest)) :
    t.source ++ rest = s := by
  match s with
  | [] => simp [scan?] at h
  | [c] => simp [scan?] at h
  | c :: d :: s =>
    rw [scan?.eq_def] at h
    split at h
    · rename_i heq
      obtain ⟨rfl, rfl, rfl⟩ := by simpa using heq
      split at h
      · obtain ⟨⟨p, u⟩, hp, he⟩ := Option.map_eq_some_iff.1 h
        obtain ⟨rfl, rfl⟩ := by simpa using he
        have h1 := (source_behindName? hp).1
        have h2 := List.takeWhile_append_dropWhile (p := Char.isAlphanum) (l := s)
        rw [← h1] at h2
        simpa [source] using h2
      · simp at h
    · simp at h

theorem length_rest_lt {s rest : List Char} {t : StartTag} (h : scan? s = some (t, rest)) :
    rest.length < s.length := by
  have h1 := congrArg List.length (source_append_of_scan? h)
  simp [source] at h1
  omega

/-- Scan the start tag at a byte offset; the answer has the offset behind the tag. -/
def scanAt? (src : String) (offset : Nat) : Option (StartTag × Nat) := do
  let s ← Text.dropBytes? offset src.toList
  let (t, _) ← scan? s
  pure (t, offset + Text.byteSize t.source)

def lowerName (t : StartTag) : String :=
  (String.ofList t.name).toLower

/-- An element has no body if its tag closes itself or its name never takes one. -/
def isEmpty (t : StartTag) : Bool :=
  t.selfClosing || ["br", "hr"].contains t.lowerName

/-- At the start of a line, the tags of these elements end a paragraph. -/
def isBlock (t : StartTag) : Bool :=
  ["blockquote", "center", "div", "dl", "hr", "ol", "p", "pre", "table", "ul"].contains t.lowerName

end StartTag

namespace EndTag

def scan? : List Char → Option (EndTag × List Char)
  | '<' :: '/' :: c :: s =>
    if c.isAlpha then
      match (s.dropWhile Char.isAlphanum).dropWhile Tag.isSpace with
      | '>' :: rest =>
        let name := c :: s.takeWhile Char.isAlphanum
        let blank := (s.dropWhile Char.isAlphanum).takeWhile Tag.isSpace
        some (⟨name, '<' :: '/' :: name ++ blank ++ ['>']⟩, rest)
      | _ => none
    else none
  | _ => none

theorem raw_append_of_scan? {s rest : List Char} {t : EndTag} (h : scan? s = some (t, rest)) :
    t.raw ++ rest = s := by
  rw [scan?.eq_def] at h
  split at h
  · rename_i c s
    split at h
    · split at h
      · rename_i r hr
        obtain ⟨rfl, rfl⟩ := by simpa using h
        have h1 := List.takeWhile_append_dropWhile (p := Tag.isSpace)
          (l := s.dropWhile Char.isAlphanum)
        have h2 := List.takeWhile_append_dropWhile (p := Char.isAlphanum) (l := s)
        rw [hr] at h1
        rw [← h1] at h2
        simpa using h2
      · simp at h
    · simp at h
  · simp at h

theorem raw_ne_nil_of_scan? {s rest : List Char} {t : EndTag} (h : scan? s = some (t, rest)) :
    t.raw ≠ [] := by
  rw [scan?.eq_def] at h
  split at h
  · split at h
    · split at h
      · obtain ⟨rfl, rfl⟩ := by simpa using h
        simp
      · simp at h
    · simp at h
  · simp at h

theorem length_rest_lt {s rest : List Char} {t : EndTag} (h : scan? s = some (t, rest)) :
    rest.length < s.length := by
  have h1 := congrArg List.length (raw_append_of_scan? h)
  have h2 := List.length_pos_iff.2 (raw_ne_nil_of_scan? h)
  simp at h1
  omega

/-- Scan the end tag at a byte offset; the answer has the offset behind the tag. -/
def scanAt? (src : String) (offset : Nat) : Option (EndTag × Nat) := do
  let s ← Text.dropBytes? offset src.toList
  let (t, _) ← scan? s
  pure (t, offset + Text.byteSize t.raw)

def lowerName (t : EndTag) : String :=
  (String.ofList t.name).toLower

end EndTag
end WikiPage
