import WikiPage.Arena.Surgery

/-!
# Glue of new nodes

The glue that a node made by an edit is given, and the conversion of native markup into elements.
-/

namespace WikiPage

namespace Glue

def element (name : String) (empty : Bool) : Glue :=
  if empty then ⟨["<" ++ name, " />", ""]⟩ else ⟨["<" ++ name, ">", "</" ++ name ++ ">"]⟩

def attr (name : String) (hasValue : Bool) : Glue :=
  if hasValue then ⟨[" " ++ name ++ "=\"", "\""]⟩ else ⟨[" " ++ name, ""]⟩

def emphasis : Emphasis → Glue
  | .bold => ⟨["'''", "'''"]⟩
  | .italics => ⟨["''", "''"]⟩

def link (target : String) (titled : Bool) : Glue :=
  ⟨["[[" ++ target ++ (if titled then "|" else ""), "]]"]⟩

def comment (text : String) : Glue :=
  ⟨["<!--" ++ text ++ "-->"]⟩

/-- A rule stands on a line of its own. -/
def rule : Glue :=
  ⟨["\n----\n"]⟩

/-- A paragraph is set off from what stands before it by an empty line. -/
def paragraph : Glue :=
  ⟨["\n\n", ""]⟩

end Glue

namespace Surgery

/-- Give a node the glue of its kind, and the attributes of an element theirs. Other kinds keep what
they have. The first argument bounds the depth of elements in attribute lists. -/
def renewGlue : Nat → NodeId → Surgery Unit
  | 0, id => throw (.arena (.unknownNode id))
  | n + 1, id => do
    match ← look (·.payload id) with
    | .element name empty attributes _ =>
      let items ← look (·.items attributes)
      items.forM (renewGlue n)
      setGlue id (Glue.element name empty)
    | .attr name hasValue _ => setGlue id (Glue.attr name hasValue)
    | .emphasis style _ => setGlue id (Glue.emphasis style)
    | .link target title =>
      let items ← look (·.items title)
      setGlue id (Glue.link target !items.isEmpty)
    | .comment text => setGlue id (Glue.comment text)
    | .rule => setGlue id Glue.rule
    | .paragraph _ => setGlue id Glue.paragraph
    | _ => pure ()

/-- Give a node the glue of its kind. -/
def addGlue (id : NodeId) : Surgery Unit := do
  let a ← get
  renewGlue a.size id

/-- The content list of native markup that can be written as an element; a rule has none. -/
def nativeContent (tag : String) : Payload → Except PageError (Option NodeId)
  | .paragraph content => .ok (some content)
  | .emphasis _ content => .ok (some content)
  | .rule => .ok none
  | p => .error (.invariant (.notConvertible p.name tag))

/-- Make the element that stands for native markup of a kind. The content moves into its body, and the
old content list is left empty. -/
def toElement (kind : Kind) (native : NodeId) : Surgery NodeId := do
  match kind.tag? with
  | none => throw (.invariant (.xmlForm kind))
  | some tag =>
    let payload ← look (·.payload native)
    let content ← ask fun _ => nativeContent tag payload
    let items ← match content with
      | some content => do
        let items ← look (·.items content)
        setItems content []
        pure items
      | none => pure []
    let attributes ← make (.list [])
    let body ← make (.list items)
    let element ← make (.element tag content.isNone attributes body)
    setGlue element (Glue.element tag content.isNone)
    pure element

end Surgery
end WikiPage
