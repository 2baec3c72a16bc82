import WikiPage.Arena.Surgery
import WikiPage.Markup.Span

/-!
# Text and values

What a node reads as, and how a value is stored in nodes. References read as the characters they stand
for and comments as nothing; in a value the characters that would end it become references.
-/

namespace WikiPage

/-- The character of a code point, or nothing if there is none. -/
def Reference.meaning : Reference → String
  | char code => if code.isValidChar then String.singleton (Char.ofNat code) else ""
  | entity _ resolved => resolved

namespace Node

mutual

def text : Tree NodeId Node → Except PageError String
  | .missing id => .error (.arena (.unknownNode id))
  | .node _ n below =>
    match n.payload with
    | .text s => .ok s
    | .newline s => .ok s
    | .comment _ => .ok ""
    | .reference r => .ok r.meaning
    | .list _ => texts below
    | p => .error (.invariant (.notText p.name))

def texts : List (Tree NodeId Node) → Except PageError String
  | [] => .ok ""
  | t :: ts => do
    let s ← text t
    let r ← texts ts
    .ok (s ++ r)

end

end Node

/-- The text of a text-like node, or of all items of a container. -/
def Arena.text (a : Arena) (id : NodeId) : Except PageError String :=
  Node.text (a.tree id)

namespace Span

/-- The entity that a character of a value is written as. -/
def escape? : Char → Option String
  | '"' => some "quot"
  | '<' => some "lt"
  | '&' => some "amp"
  | _ => none

/-- A value that can stand between double quotes. -/
def encode : List Char → List Span
  | [] => []
  | c :: s =>
    let span := match escape? c with
      | some name =>
        reference ('&' :: name.toList ++ [';']) (.entity name (String.singleton c))
      | none => text [c]
    cons span (encode s)

def payload : Span → Payload
  | text s => .text (String.ofList s)
  | reference _ r => .reference r

end Span

/-- Make the nodes of a value. -/
def Surgery.encodeValue (value : String) : Surgery (List NodeId) :=
  (Span.encode value.toList).mapM fun span => make span.payload

end WikiPage
