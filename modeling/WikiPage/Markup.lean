import WikiPage.Reference
import WikiPage.Tag

/-!
# Markup

The tree that wikitext is read into. It keeps the spelling of every construct: `source` gives back
the text that was read. A construct whose closing marker is missing is marked as open.
-/

namespace WikiPage

inductive Emphasis
  | bold | italics
  deriving DecidableEq, Repr

def Emphasis.marker : Emphasis → List Char
  | bold => ['\'', '\'', '\'']
  | italics => ['\'', '\'']

inductive Inline
  | text (s : List Char)
  | newline (s : List Char)
  | reference (raw : List Char) (meaning : Reference)
  | comment (text : List Char) (closed : Bool)
  | emphasis (style : Emphasis) (body : List Inline) (closed : Bool)
  | link (target : List Char) (piped : Bool) (title : List Inline) (closed : Bool)
  | element (tag : StartTag) (body : List Inline) (closing : Option EndTag)

inductive Block
  | newline (s : List Char)
  | rule (dashes : List Char)
  | paragraph (items : List Inline)
  | element (tag : StartTag) (body : List Inline) (closing : Option EndTag)

namespace Inline

/-- Put an item before others; adjacent texts are one. -/
def cons : Inline → List Inline → List Inline
  | text s, text t :: items => text (s ++ t) :: items
  | item, items => item :: items

mutual

def source : Inline → List Char
  | text s => s
  | newline s => s
  | reference raw _ => raw
  | comment s closed => ['<', '!', '-', '-'] ++ s ++ if closed then ['-', '-', '>'] else []
  | emphasis style body closed =>
    style.marker ++ sources body ++ if closed then style.marker else []
  | link target piped title closed =>
    ['[', '['] ++ target ++ (if piped then ['|'] else []) ++ sources title ++
      if closed then [']', ']'] else []
  | element tag body closing => tag.source ++ sources body ++ (closing.map EndTag.raw).getD []

def sources : List Inline → List Char
  | [] => []
  | item :: items => source item ++ sources items

end

@[simp] theorem sources_cons (item : Inline) (items : List Inline) :
    sources (cons item items) = source item ++ sources items := by
  rw [cons.eq_def]
  split
  · simp only [sources, source, List.append_assoc]
  · rw [sources]

end Inline

namespace Block

def source : Block → List Char
  | newline s => s
  | rule dashes => dashes
  | paragraph items => Inline.sources items
  | element tag body closing => (Inline.element tag body closing).source

end Block
end WikiPage
