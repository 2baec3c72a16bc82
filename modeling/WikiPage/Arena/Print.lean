import WikiPage.Arena

/-!
# Printing

A node with glue prints its slots with its children between them. A node without glue was made by an
edit and prints in the plainest markup for its kind.
-/

namespace WikiPage

namespace Node

/-- Slots with parts between them; missing slots are empty, and slots in excess are left out. -/
def interleave : List String → List (Except Arena.Error String) → Except Arena.Error String
  | slots, [] => .ok (slots.headD "")
  | slots, part :: parts => do
    let text ← part
    let rest ← interleave slots.tail parts
    .ok (slots.headD "" ++ text ++ rest)

def joined : List (Except Arena.Error String) → Except Arena.Error String
  | [] => .ok ""
  | part :: parts => do
    let text ← part
    let rest ← joined parts
    .ok (text ++ rest)

def enclose (opening closing : String) (parts : List (Except Arena.Error String)) :
    Except Arena.Error String := do
  let text ← joined parts
  .ok (opening ++ text ++ closing)

/-- Whether the list that a link's title slot refers to is empty. -/
def untitled : List (Tree NodeId Node) → Except Arena.Error Bool
  | .node _ ⟨.list items, _⟩ _ :: _ => .ok items.isEmpty
  | .node id _ _ :: _ => .error (.notAContainer id)
  | .missing id :: _ => .error (.unknownNode id)
  | [] => .ok true

/-- The plain form of a node. The printed children are given beside the trees they come from, and one
that has no place in the form is passed over. -/
def plain (p : Payload) (below : List (Tree NodeId Node))
    (parts : List (Except Arena.Error String)) : Except Arena.Error String :=
  match p, parts with
  | .text s, _ => .ok s
  | .newline s, _ => .ok s
  | .emphasis .bold _, _ => enclose "'''" "'''" parts
  | .emphasis .italics _, _ => enclose "''" "''" parts
  | .rule, _ => .ok "----"
  | .link target _, _ => do
    if ← untitled below then .ok ("[[" ++ target ++ "]]")
    else enclose ("[[" ++ target ++ "|") "]]" parts
  | .element name true _ _, attributes :: _ => enclose ("<" ++ name) " />" [attributes]
  | .element name false _ _, [attributes, body] => do
    let head ← enclose ("<" ++ name) ">" [attributes]
    let tail ← enclose "" ("</" ++ name ++ ">") [body]
    .ok (head ++ tail)
  | .attr name true _, _ => enclose (" " ++ name ++ "=\"") "\"" parts
  | .attr name false _, _ => .ok (" " ++ name)
  | .comment text, _ => .ok ("<!--" ++ text ++ "-->")
  | .reference (.char code), _ => .ok ("&#" ++ toString code ++ ";")
  | .reference (.entity name _), _ => .ok ("&" ++ name ++ ";")
  | _, _ => joined parts

mutual

def print : Tree NodeId Node → Except Arena.Error String
  | .missing id => .error (.unknownNode id)
  | .node _ n below =>
    match n.glue with
    | some g => interleave g.slots (prints below)
    | none => plain n.payload below (prints below)

def prints : List (Tree NodeId Node) → List (Except Arena.Error String)
  | [] => []
  | t :: ts => print t :: prints ts

end

end Node

namespace Arena

def print (a : Arena) (id : NodeId) : Except Error String :=
  Node.print (a.tree id)

def printPage (a : Arena) : Except Error String :=
  a.print root

end Arena
end WikiPage
