import WikiPage.Markup

/-!
# Reading markup

Wikitext is read from the left with the open constructs on a stack. A run of inline items ends at the
first token that closes one of them, and the construct that owns the run takes the closing marker if
it stands there. No text is refused: what is no construct is text.
-/

namespace WikiPage

open Token (First first?)

/-- A construct whose closing marker has not been read. -/
inductive Open
  | emphasis (style : Emphasis)
  | title
  /-- An element, by its name in lower case. -/
  | tag (name : String)
  deriving DecidableEq, Repr

/-- Take the first token if it is of the given kind. -/
def Token.take (kind : Token.Kind) (s : List Char) : Bool × List Char :=
  match first? s with
  | some t => if t.kind = kind then (true, t.rest) else (false, s)
  | none => (false, s)

theorem Token.length_take_le (kind : Token.Kind) (s : List Char) :
    (Token.take kind s).2.length ≤ s.length := by
  rw [Token.take]
  split
  · split
    · exact Nat.le_of_lt (length_rest_lt ‹_›)
    · exact Nat.le_refl _
  · exact Nat.le_refl _

/-- Take the end tag of the named element if it stands here. -/
def EndTag.take (name : String) (s : List Char) : Option EndTag × List Char :=
  match scan? s with
  | some (t, rest) => if t.lowerName = name then (some t, rest) else (none, s)
  | none => (none, s)

theorem EndTag.length_take_le (name : String) (s : List Char) :
    (EndTag.take name s).2.length ≤ s.length := by
  rw [EndTag.take]
  split
  · split
    · exact Nat.le_of_lt (length_rest_lt ‹_›)
    · exact Nat.le_refl _
  · exact Nat.le_refl _

/-- A start tag that ends a paragraph. -/
def StartTag.block? (s : List Char) : Option (StartTag × List Char) :=
  (scan? s).filter fun p => p.1.isBlock

namespace Inline

/-- Whether a paragraph ends at a line break with this text behind it. -/
def paragraphEnds (s : List Char) : Bool :=
  match first? s with
  | none => true
  | some t => t.kind = .newline || t.kind = .dashes || (StartTag.block? s).isSome

/-- Whether a run of items ends here. Line breaks end emphasis and link titles but not elements;
every other token ends a run only if it closes an open construct. -/
def stops (opened : List Open) (s : List Char) : Bool :=
  match first? s with
  | none => true
  | some t =>
    match t.kind with
    | .newline =>
      match opened with
      | [] => paragraphEnds t.rest
      | .tag _ :: _ => false
      | _ :: _ => true
    | .linkClose => opened.contains .title
    | .bold => opened.contains (.emphasis .bold)
    | .italics => opened.contains (.emphasis .italics)
    | .lt =>
      match EndTag.scan? s with
      | some (e, _) => opened.contains (.tag e.lowerName)
      | none => false
    | _ => false

/-- Whether a link closes before the end of the line. -/
def linkCloses (s : List Char) : Bool :=
  match _h : first? s with
  | none => false
  | some t =>
    if t.kind = .newline then false
    else if t.kind = .linkClose then true
    else linkCloses t.rest
termination_by s.length
decreasing_by exact Token.length_rest_lt _h

/-- The tokens before a pipe or the end of a link. -/
def linkTarget (s : List Char) : List Char × List Char :=
  match _h : first? s with
  | none => ([], s)
  | some t =>
    if t.kind = .pipe ∨ t.kind = .linkClose then ([], s)
    else
      let p := linkTarget t.rest
      (t.text ++ p.1, p.2)
termination_by s.length
decreasing_by exact Token.length_rest_lt _h

theorem linkTarget_append (s : List Char) : (linkTarget s).1 ++ (linkTarget s).2 = s := by
  fun_induction linkTarget s with
  | case1 => rfl
  | case2 => rfl
  | case3 s t h _ p ih =>
    rw [List.append_assoc, ih]
    exact Token.text_append_rest h

/-- What stands between the brackets that open a link and its title or end: the target, and whether
a pipe follows it. -/
def linkHead (s : List Char) : (List Char × Bool) × List Char :=
  let p := linkTarget s
  let pipe := Token.take .pipe p.2
  ((p.1, pipe.1), pipe.2)

theorem length_linkHead_le (s : List Char) : (linkHead s).2.length ≤ s.length := by
  have h := congrArg List.length (linkTarget_append s)
  rw [List.length_append] at h
  exact Nat.le_trans (Token.length_take_le _ _) (h ▸ Nat.le_add_left _ _)

/-- A comment extends to the first arrow, or to the end of the text. -/
def commentBody : List Char → List Char × Bool × List Char
  | [] => ([], false, [])
  | c :: s =>
    if ['-', '-', '>'].isPrefixOf (c :: s) then ([], true, s.drop 2)
    else
      let p := commentBody s
      (c :: p.1, p.2)

theorem length_commentBody_le (s : List Char) : (commentBody s).2.2.length ≤ s.length := by
  fun_induction commentBody s with
  | case1 => simp
  | case2 c s => simp; omega
  | case3 c s _ p ih => exact Nat.le_trans ih (by simp)

mutual

/-- A run of items, up to where it stops. -/
def run [Entities] (opened : List Open) (s : List Char) :
    { p : List Inline × List Char // p.2.length ≤ s.length } :=
  match h : first? s with
  | none => ⟨([], s), Nat.le_refl _⟩
  | some t =>
    if stops opened s then ⟨([], s), Nat.le_refl _⟩
    else
      let x := item opened s t h
      have hx := x.property
      let xs := run opened x.val.2
      ⟨(cons x.val.1 xs.val.1, xs.val.2), Nat.le_trans xs.property (Nat.le_of_lt hx)⟩
termination_by 3 * s.length + 1

/-- One item; `t` is the first token. -/
def item [Entities] (opened : List Open) (s : List Char) (t : First) (h : first? s = some t) :
    { p : Inline × List Char // p.2.length < s.length } :=
  have ht : t.rest.length < s.length := Token.length_rest_lt h
  match t.kind with
  | .bold =>
    let p := emphasized opened .bold t.rest
    ⟨p.val, Nat.lt_of_le_of_lt p.property ht⟩
  | .italics =>
    let p := emphasized opened .italics t.rest
    ⟨p.val, Nat.lt_of_le_of_lt p.property ht⟩
  | .linkOpen =>
    if linkCloses t.rest then
      let p := linked opened t.rest
      ⟨p.val, Nat.lt_of_le_of_lt p.property ht⟩
    else ⟨(text t.text, t.rest), ht⟩
  | .commentOpen =>
    let p := commentBody t.rest
    ⟨(comment p.1 p.2.1, p.2.2), Nat.lt_of_le_of_lt (length_commentBody_le _) ht⟩
  | .lt =>
    match hs : StartTag.scan? s with
    | some (tag, rest) =>
      have hr := StartTag.length_rest_lt hs
      let p := enclosed opened tag rest
      ⟨(element tag p.val.1.1 p.val.1.2, p.val.2),
        Nat.lt_of_le_of_lt p.property hr⟩
    | none =>
      match he : EndTag.scan? s with
      | some (e, rest) => ⟨(text e.raw, rest), EndTag.length_rest_lt he⟩
      | none => ⟨(text t.text, t.rest), ht⟩
  | .newline => ⟨(newline t.text, t.rest), ht⟩
  | kind =>
    match Reference.ofToken? kind t.text with
    | some r => ⟨(reference t.text r, t.rest), ht⟩
    | none => ⟨(text t.text, t.rest), ht⟩
termination_by 3 * s.length

/-- Emphasis behind its opening marker. -/
def emphasized [Entities] (opened : List Open) (style : Emphasis) (s : List Char) :
    { p : Inline × List Char // p.2.length ≤ s.length } :=
  let body := run (.emphasis style :: opened) s
  let kind := match style with
    | .bold => .bold
    | .italics => .italics
  let close := Token.take kind body.val.2
  ⟨(emphasis style body.val.1 close.1, close.2),
    Nat.le_trans (Token.length_take_le _ _) body.property⟩
termination_by 3 * s.length + 2

/-- A link behind its opening brackets. -/
def linked [Entities] (opened : List Open) (s : List Char) :
    { p : Inline × List Char // p.2.length ≤ s.length } :=
  let head := linkHead s
  have hs := length_linkHead_le s
  if head.1.2 then
    let title := run (.title :: opened) head.2
    let close := Token.take .linkClose title.val.2
    ⟨(link head.1.1 true title.val.1 close.1, close.2),
      Nat.le_trans (Token.length_take_le _ _) (Nat.le_trans title.property hs)⟩
  else
    let close := Token.take .linkClose head.2
    ⟨(link head.1.1 false [] close.1, close.2), Nat.le_trans (Token.length_take_le _ _) hs⟩
termination_by 3 * s.length + 2

/-- The body and the end tag of an element, behind its start tag. -/
def enclosed [Entities] (opened : List Open) (tag : StartTag) (s : List Char) :
    { p : (List Inline × Option EndTag) × List Char // p.2.length ≤ s.length } :=
  if tag.isEmpty then ⟨(([], none), s), Nat.le_refl _⟩
  else
    let body := run (.tag tag.lowerName :: opened) s
    let close := EndTag.take tag.lowerName body.val.2
    ⟨((body.val.1, close.1), close.2), Nat.le_trans (EndTag.length_take_le _ _) body.property⟩
termination_by 3 * s.length + 2

end

end Inline

namespace Block

/-- The blocks of a page; `lineStart` tells whether the text begins a line. Dashes are a rule there,
and a paragraph extends to where a run of items stops with nothing open. -/
def parse [Entities] (lineStart : Bool) (s : List Char) : List Block :=
  match h : first? s with
  | none => []
  | some t =>
    if t.kind = .newline then newline t.text :: parse true t.rest
    else if t.kind = .dashes ∧ lineStart then rule t.text :: parse false t.rest
    else
      match _hb : StartTag.block? s with
      | some (tag, rest) =>
        let p := Inline.enclosed [] tag rest
        element tag p.val.1.1 p.val.1.2 :: parse false p.val.2
      | none =>
        let x := Inline.item [] s t h
        let xs := Inline.run [] x.val.2
        paragraph (Inline.cons x.val.1 xs.val.1) :: parse false xs.val.2
termination_by s.length
decreasing_by
  · exact Token.length_rest_lt h
  · exact Token.length_rest_lt h
  · exact Nat.lt_of_le_of_lt p.property
      (StartTag.length_rest_lt (Option.filter_eq_some_iff.1 _hb).1)
  · exact Nat.lt_of_le_of_lt xs.property x.property

end Block
end WikiPage
