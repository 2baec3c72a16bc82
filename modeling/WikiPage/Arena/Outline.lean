import WikiPage.Arena
import WikiPage.Text.Quoted

/-!
# Outline of the arena

One line for each node, indented by its depth: the kind of the node and what it holds of its own.
-/

namespace WikiPage

def Payload.detail : Payload → String
  | text s => " " ++ Text.quoted s
  | newline s => " " ++ Text.quoted s
  | comment s => " " ++ Text.quoted s
  | link target _ => " " ++ target
  | element name _ _ _ => " <" ++ name ++ ">"
  | attr name _ _ => " " ++ name
  | reference (.char code) => " " ++ toString code
  | reference (.entity name _) => " " ++ name
  | _ => ""

/-- Two spaces for each level. -/
def indent (depth : Nat) : String :=
  String.ofList (List.replicate (2 * depth) ' ')

namespace Node

mutual

def outline (depth : Nat) : Tree NodeId Node → String
  | .missing id => indent depth ++ "<missing " ++ id.label ++ ">\n"
  | .node _ n below =>
    indent depth ++ n.payload.name ++ n.payload.detail ++ "\n" ++ outlines (depth + 1) below

def outlines (depth : Nat) : List (Tree NodeId Node) → String
  | [] => ""
  | t :: ts => outline depth t ++ outlines depth ts

end

end Node

def Arena.outline (a : Arena) (id : NodeId) : String :=
  Node.outline 0 (a.tree id)

end WikiPage
