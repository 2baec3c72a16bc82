import WikiPage.Arena
import WikiPage.Markup.Parse
import WikiPage.Markup.Span

/-!
# Reading a page into an arena

The tree read from wikitext is stored node by node, every node after what stands below it. In a run
of items a text is stored after the item behind it. The glue of a node is its spelling around its
children.
-/

namespace WikiPage

abbrev Storing := StateM Arena

def Storing.node (p : Payload) (slots : Option (List (List Char))) : Storing NodeId :=
  fun a => (a.next, a.push ⟨p, slots.map fun s => ⟨s.map String.ofList⟩⟩)

namespace Span

def store : Span → Storing NodeId
  | text s => .node (.text (String.ofList s)) none
  | reference raw r => .node (.reference r) (some [raw])

def storeAll : List Span → Storing (List NodeId)
  | [] => pure []
  | text s :: span :: spans => do
    let next ← store span
    let this ← store (text s)
    let rest ← storeAll spans
    pure (this :: next :: rest)
  | span :: spans => do
    let this ← store span
    let rest ← storeAll spans
    pure (this :: rest)

end Span

def Tag.Attribute.store [Entities] (a : Tag.Attribute) : Storing NodeId := do
  let items ← Span.storeAll (Span.list (a.value.getD []))
  let value ← .node (.list items) none
  .node (.attr (String.ofList a.name) a.value.isSome value) (some [a.opening, a.closing])

namespace Inline

mutual

def store [Entities] : Inline → Storing NodeId
  | text s => .node (.text (String.ofList s)) none
  | newline s => .node (.newline (String.ofList s)) none
  | reference raw r => .node (.reference r) (some [raw])
  | comment s closed =>
    .node (.comment (String.ofList s))
      (some [['<', '!', '-', '-'] ++ s ++ if closed then ['-', '-', '>'] else []])
  | emphasis style body closed => do
    let items ← storeAll body
    let content ← .node (.list items) none
    .node (.emphasis style content) (some [style.marker, if closed then style.marker else []])
  | link target piped title closed => do
    let items ← storeAll title
    let content ← .node (.list items) none
    .node (.link (String.ofList target) content)
      (some [['[', '['] ++ target ++ (if piped then ['|'] else []),
        if closed then [']', ']'] else []])
  | element tag body closing => do
    let attributes ← tag.attributes.mapM Tag.Attribute.store
    let attributeList ← .node (.list attributes) none
    let items ← storeAll body
    let content ← .node (.list items) none
    .node (.element (String.ofList tag.name) tag.isEmpty attributeList content)
      (some ['<' :: tag.name, tag.ending, (closing.map EndTag.raw).getD []])

def storeAll [Entities] : List Inline → Storing (List NodeId)
  | [] => pure []
  | text s :: item :: items => do
    let next ← store item
    let this ← store (text s)
    let rest ← storeAll items
    pure (this :: next :: rest)
  | item :: items => do
    let this ← store item
    let rest ← storeAll items
    pure (this :: rest)

end

end Inline

def Block.store [Entities] : Block → Storing NodeId
  | newline s => .node (.newline (String.ofList s)) none
  | rule dashes => .node .rule (some [dashes])
  | paragraph items => do
    let items ← Inline.storeAll items
    let content ← .node (.list items) none
    .node (.paragraph content) (some [[], []])
  | element tag body closing => Inline.store (.element tag body closing)

/-- The arena of a page. -/
def Arena.read [Entities] (text : String) : Arena :=
  let stored := ((Block.parse true text.toList).mapM Block.store).run new
  stored.2.setItems new.content stored.1

end WikiPage
