import Mathlib.Data.List.Forall2
import WikiPage.Proofs.Shapes

/-!
# Where items stand

An item that was read stands at a node of the page: the node says what the item says, and what the item
holds stands in the list below it, member by member. So a fact about all the markup that is read is a
fact about all the nodes of the page.
-/

namespace WikiPage

open Arena (Shares Makes)

section

variable {α β : Type} {R : α → β → Prop} {xs : List α} {ys : List β}

theorem exists_mem_of_forall₂ (h : List.Forall₂ R xs ys) {y : β} (hy : y ∈ ys) : ∃ x ∈ xs, R x y := by
  induction h with
  | nil => cases hy
  | @cons x _ _ _ hx _ ih =>
    rcases List.mem_cons.1 hy with rfl | hy
    · exact ⟨x, List.mem_cons_self, hx⟩
    · obtain ⟨z, hz, hr⟩ := ih hy
      exact ⟨z, List.mem_cons_of_mem _ hz, hr⟩

theorem exists_head?_of_forall₂ (h : List.Forall₂ R xs ys) {y : β} (hy : ys.head? = some y) :
    ∃ x, xs.head? = some x ∧ R x y := by
  cases h with
  | nil => cases hy
  | cons hx _ => exact ⟨_, rfl, Option.some.inj hy ▸ hx⟩

theorem isChain_of_forall₂ {S : α → α → Prop} {T : β → β → Prop} (h : List.Forall₂ R xs ys)
    (hc : xs.IsChain S) (hT : ∀ {x x' y y'}, R x y → R x' y' → S x x' → T y y') : ys.IsChain T := by
  induction h with
  | nil => exact .nil
  | cons hx hs ih =>
    cases hs with
    | nil => exact .singleton _
    | cons hx' _ =>
      rw [List.isChain_cons_cons] at hc
      exact .cons_cons (hT hx hx' hc.1) (ih hc.2)

end

/-- What stands directly in an item. -/
def Inline.inner : Inline → List Inline
  | emphasis _ body _ => body
  | link _ _ title _ => title
  | element _ body _ => body
  | _ => []

/-- The inline items that a block is made of. -/
def Block.items : Block → List Inline
  | paragraph items => items
  | element tag body closing => [.element tag body closing]
  | _ => []

/-- An item is in a block, at whatever depth. -/
def Block.Holds (block : Block) (item : Inline) : Prop :=
  ∃ top ∈ block.items, Reaches Inline.inner top item

/-- The node that an item stands at; the glue is the spelling around what the item holds. -/
inductive Inline.StandsAt (a : Arena) : Inline → NodeId → Prop
  | text {s : List Char} {x : NodeId} (h : a.find? x = some ⟨.text (String.ofList s), none⟩) :
    StandsAt a (.text s) x
  | newline {s : List Char} {x : NodeId} (h : a.find? x = some ⟨.newline (String.ofList s), none⟩) :
    StandsAt a (.newline s) x
  | reference {raw : List Char} {r : Reference} {x : NodeId}
    (h : a.find? x = some ⟨.reference r, some ⟨[String.ofList raw]⟩⟩) : StandsAt a (.reference raw r) x
  | comment {s : List Char} {closed : Bool} {x : NodeId}
    (h : a.find? x = some ⟨.comment (String.ofList s),
      some ⟨["<!--" ++ String.ofList s ++ if closed then "-->" else ""]⟩⟩) :
    StandsAt a (.comment s closed) x
  | emphasis {style : Emphasis} {body : List Inline} {closed : Bool} {x content : NodeId}
    {ids : List NodeId} (h : a.find? x = some ⟨.emphasis style content,
      some ⟨[String.ofList style.marker, String.ofList (if closed then style.marker else [])]⟩⟩)
    (hc : a.find? content = some ⟨.list ids, none⟩) (hb : List.Forall₂ (StandsAt a) body ids) :
    StandsAt a (.emphasis style body closed) x
  | link {target : List Char} {piped : Bool} {title : List Inline} {closed : Bool} {x content : NodeId}
    {ids : List NodeId} (h : a.find? x = some ⟨.link (String.ofList target) content,
      some ⟨["[[" ++ String.ofList target ++ if piped then "|" else "", if closed then "]]" else ""]⟩⟩)
    (hc : a.find? content = some ⟨.list ids, none⟩) (hb : List.Forall₂ (StandsAt a) title ids) :
    StandsAt a (.link target piped title closed) x
  | element {tag : StartTag} {body : List Inline} {closing : Option EndTag}
    {x attributes content : NodeId} {ids : List NodeId}
    (h : a.find? x = some ⟨.element (String.ofList tag.name) tag.isEmpty attributes content,
      some ⟨[String.ofList ('<' :: tag.name), String.ofList tag.ending,
        String.ofList ((closing.map EndTag.raw).getD [])]⟩⟩)
    (ha : a.ListOf .attributes attributes)
    (hc : a.find? content = some ⟨.list ids, none⟩) (hb : List.Forall₂ (StandsAt a) body ids) :
    StandsAt a (.element tag body closing) x

inductive Block.StandsAt (a : Arena) : Block → NodeId → Prop
  | newline {s : List Char} {x : NodeId} (h : a.find? x = some ⟨.newline (String.ofList s), none⟩) :
    StandsAt a (.newline s) x
  | rule {dashes : List Char} {x : NodeId}
    (h : a.find? x = some ⟨.rule, some ⟨[String.ofList dashes]⟩⟩) : StandsAt a (.rule dashes) x
  | paragraph {items : List Inline} {x content : NodeId} {ids : List NodeId}
    (h : a.find? x = some ⟨.paragraph content, some ⟨["", ""]⟩⟩)
    (hc : a.find? content = some ⟨.list ids, none⟩) (hb : List.Forall₂ (Inline.StandsAt a) items ids) :
    StandsAt a (.paragraph items) x
  | element {tag : StartTag} {body : List Inline} {closing : Option EndTag} {x : NodeId}
    (h : Inline.StandsAt a (.element tag body closing) x) : StandsAt a (.element tag body closing) x

namespace Arena

variable {a b c : Arena} {kind : Payload → Bool} {ids : List NodeId} {s : List Char}

theorem Makes.is_of_shares (h : Makes kind a b ids s) (hs : Shares a b c) :
    ∀ x ∈ ids, c.Is kind x := by
  intro x hx
  obtain ⟨hl, hu⟩ := h.builds.range x hx
  obtain ⟨n, hn, hk⟩ := h.kinds x hx
  exact ⟨n, (hs x hl hu).trans hn, hk⟩

theorem Shares.find?_next {n : Node} (h : Shares a (b.push n) c) (hb : a.Extends b) :
    c.find? b.next = some n :=
  (h b.next hb.size_le (next_index_lt b n)).trans (find?_push_next b n)

theorem Shares.pop {n : Node} (h : Shares a (b.push n) c) : Shares a b c :=
  h.left (.push b n)

end Arena

namespace Inline

variable [Entities] {c : Arena}

theorem standsAt_store_and_storeAll :
    (∀ item a, Shares a (store item a).2 c → StandsAt c item (store item a).1) ∧
    (∀ items a, Shares a (storeAll items a).2 c →
      List.Forall₂ (StandsAt c) items (storeAll items a).1) := by
  refine store.mutual_induct _ _ ?text ?newline ?reference ?comment ?emphasis ?link
    ?element ?nil ?textCons ?cons
  case text => exact fun s a h => .text (h.find?_next (.refl a))
  case newline => exact fun s a h => .newline (h.find?_next (.refl a))
  case reference => exact fun raw r a h => .reference (h.find?_next (.refl a))
  case comment =>
    intro s closed a h
    rw [store] at h ⊢
    have hn := h.find?_next (.refl a)
    simp only [Option.map_some, List.map_cons, List.map_nil, ofList_comment] at hn
    exact .comment hn
  case emphasis =>
    intro style body closed ih a h
    have hb := (makes_storeAll body a).builds.exts
    rw [store] at h ⊢
    exact .emphasis (h.find?_next (hb.trans (.push _ _))) (h.pop.find?_next hb) (ih a h.pop.pop)
  case link =>
    intro target piped title closed ih a h
    have hb := (makes_storeAll title a).builds.exts
    rw [store] at h ⊢
    have hn := h.find?_next (hb.trans (.push _ _))
    simp only [Option.map_some, List.map_cons, List.map_nil, ofList_linkOpening, ofList_linkClosing] at hn
    exact .link hn (h.pop.find?_next hb) (ih a h.pop.pop)
  case element =>
    intro tag body closing ih a h
    have ha := Storing.makes_mapM Tag.Attribute.makes_store tag.attributes a
    have hlist := ha.list.builds.exts
    have hb (b : Arena) := (makes_storeAll body b).builds.exts
    rw [store] at h ⊢
    have hs := h.pop.pop.left (hb _)
    exact .element (h.find?_next ((hlist.trans (hb _)).trans (.push _ _)))
      ⟨_, hs.find?_next ha.builds.exts, ha.is_of_shares hs.pop⟩
      (h.pop.find?_next (hlist.trans (hb _))) (ih _ (h.pop.pop.right hlist))
  case nil => exact fun a _ => .nil
  case textCons =>
    intro s item items ih ihs ih' a h
    have hitem := (makes_store item a).builds.exts
    have htext := (makes_store (.text s) (store item a).2).builds.exts
    have hitems := (makes_storeAll items (store (.text s) (store item a).2).2).builds.exts
    exact .cons (ihs _ ((h.left hitems).right hitem))
      (.cons (ih a (h.left (htext.trans hitems))) (ih' _ (h.right (hitem.trans htext))))
  case cons =>
    intro item items hne ih ih' a h
    rw [storeAll] at h ⊢
    · have hitem := (makes_store item a).builds.exts
      have hitems := (makes_storeAll items (store item a).2).builds.exts
      exact .cons (ih a (h.left hitems)) (ih' _ (h.right hitem))
    · exact hne
    · exact hne

theorem standsAt_store {item : Inline} {a : Arena} (h : Shares a (store item a).2 c) :
    StandsAt c item (store item a).1 :=
  standsAt_store_and_storeAll.1 item a h

theorem standsAt_storeAll {items : List Inline} {a : Arena} (h : Shares a (storeAll items a).2 c) :
    List.Forall₂ (StandsAt c) items (storeAll items a).1 :=
  standsAt_store_and_storeAll.2 items a h

end Inline

namespace Block

theorem standsAt_store [Entities] {block : Block} {a c : Arena} (h : Shares a (block.store a).2 c) :
    StandsAt c block (block.store a).1 := by
  cases block with
  | newline s => exact .newline (h.find?_next (.refl a))
  | rule dashes => exact .rule (h.find?_next (.refl a))
  | paragraph items =>
    have hb := (Inline.makes_storeAll items a).builds.exts
    exact .paragraph (h.find?_next (hb.trans (.push _ _))) (h.pop.find?_next hb)
      (Inline.standsAt_storeAll h.pop.pop)
  | element tag body closing => exact .element (Inline.standsAt_store h)

theorem standsAt_storeAll [Entities] (blocks : List Block) {a c : Arena}
    (h : Shares a (blocks.mapM store a).2 c) :
    List.Forall₂ (StandsAt c) blocks (blocks.mapM store a).1 := by
  induction blocks generalizing a with
  | nil => exact .nil
  | cons block blocks ih =>
    rw [List.mapM_cons] at h ⊢
    have hblock := (makes_store block a).builds.exts
    have hblocks := (Storing.makes_mapM makes_store blocks (block.store a).2).builds.exts
    exact .cons (standsAt_store (h.left hblocks)) (ih (h.right hblock))

end Block

namespace Arena

theorem shares_read [Entities] (text : String) : Shares new (stored text).2 (read text) := by
  intro id hid _
  rw [read_eq, find?_setItems (find?_stored_content text), if_neg]
  rintro rfl
  exact absurd hid (by decide)

theorem standsAt_read [Entities] (text : String) :
    List.Forall₂ (Block.StandsAt (read text)) (Block.parse true text.toList) (stored text).1 :=
  Block.standsAt_storeAll _ (shares_read text)

/-- A node that stands for a part of an item, is the list of what a part holds, or belongs to
attributes. -/
inductive Belongs (a : Arena) (item : Inline) (y : NodeId) : Prop
  | part (part : Inline) (h : Reaches Inline.inner item part) (hy : part.StandsAt a y)
  | list (part : Inline) (h : Reaches Inline.inner item part) (ids : List NodeId)
    (hy : a.find? y = some ⟨.list ids, none⟩) (hi : List.Forall₂ (Inline.StandsAt a) part.inner ids)
  | attributes (h : a.ListOf .attributes y)
  | attributePart (h : a.IsAttributePart y)

variable {a : Arena} {item : Inline} {x y : NodeId}

theorem Belongs.of_mem_kids (h : a.Sound) (hs : Belongs a item x) (hy : y ∈ a.kids x) :
    Belongs a item y := by
  cases hs with
  | part part hp hx =>
    cases hx <;> rename_i hn <;> rw [kids_of_find? hn] at hy
    case text | newline | reference | comment => cases hy
    case emphasis hc hb =>
      obtain rfl := List.mem_singleton.1 hy
      exact .list _ hp _ hc hb
    case link hc hb =>
      obtain rfl := List.mem_singleton.1 hy
      exact .list _ hp _ hc hb
    case element ha hc hb =>
      rcases List.mem_cons.1 hy with rfl | hy
      · exact .attributes ha
      · obtain rfl := List.mem_singleton.1 hy
        exact .list _ hp _ hc hb
  | list part hp ids hx hi =>
    rw [kids_of_find? hx] at hy
    obtain ⟨z, hz, hs⟩ := exists_mem_of_forall₂ hi hy
    exact .part z (hp.tail hz) hs
  | attributes hx =>
    obtain ⟨items, hi, hk⟩ := hx
    rw [kids_of_find? hi] at hy
    exact .attributePart (.inl (hk y hy))
  | attributePart hx => exact .attributePart (h.isAttributePart_of_reaches hx (.single hy))

theorem Belongs.of_reaches (h : a.Sound) (hs : Belongs a item x) (hr : Reaches a.kids x y) :
    Belongs a item y := by
  induction hr with
  | refl => exact hs
  | tail _ hy ih => exact ih.of_mem_kids h hy

/-- What is reached from a list is the list or belongs to one of its items. -/
theorem belongs_of_reaches_list (h : a.Sound) {items : List Inline} {ids : List NodeId}
    (hx : a.find? x = some ⟨.list ids, none⟩) (hi : List.Forall₂ (Inline.StandsAt a) items ids)
    (hr : Reaches a.kids x y) : y = x ∨ ∃ item ∈ items, Belongs a item y := by
  rcases Relation.ReflTransGen.cases_head hr with rfl | ⟨z, hz, hr⟩
  · exact .inl rfl
  · rw [kids_of_find? hx] at hz
    obtain ⟨item, hitem, hs⟩ := exists_mem_of_forall₂ hi hz
    exact .inr ⟨item, hitem, .of_reaches h (.part item .refl hs) hr⟩

theorem IsAttributePart.not_content {n : Node} (h : a.IsAttributePart x) (hn : a.find? x = some n)
    (hc : Role.content.admits n.payload = true) (hv : Role.value.admits n.payload = false) : False := by
  rcases h with ⟨m, hm, hk⟩ | ⟨items, hi, -⟩ | ⟨m, hm, hk⟩
  · obtain rfl := Option.some.inj (hn.symm.trans hm)
    cases hp : n.payload <;> simp [hp, Role.admits] at hc hk
  · obtain rfl := Option.some.inj (hn.symm.trans hi)
    cases hc
  · obtain rfl := Option.some.inj (hn.symm.trans hm)
    rw [hk] at hv
    cases hv

/-- Content that cannot be a value of an attribute stands for a part. -/
theorem Belongs.exists_part {n : Node} (hs : Belongs a item y) (hn : a.find? y = some n)
    (hc : Role.content.admits n.payload = true) (hv : Role.value.admits n.payload = false) :
    ∃ part, Reaches Inline.inner item part ∧ part.StandsAt a y := by
  cases hs with
  | part part hp hy => exact ⟨part, hp, hy⟩
  | list part hp ids hy hi =>
    obtain rfl := Option.some.inj (hn.symm.trans hy)
    cases hc
  | attributes hy =>
    obtain ⟨items, hi, -⟩ := hy
    obtain rfl := Option.some.inj (hn.symm.trans hi)
    cases hc
  | attributePart hy => exact (hy.not_content hn hc hv).elim

theorem exists_of_reaches_block {block : Block} {n : Node} (h : a.Sound) (hb : block.StandsAt a x)
    (hr : Reaches a.kids x y) (hn : a.find? y = some n) (hc : Role.content.admits n.payload = true)
    (hv : Role.value.admits n.payload = false) :
    block.StandsAt a y ∨ ∃ item, block.Holds item ∧ item.StandsAt a y := by
  have leaf {p : Payload} {g : Option Glue} (hx : a.find? x = some ⟨p, g⟩) (hp : p.children = []) :
      y = x := by
    rcases Relation.ReflTransGen.cases_head hr with rfl | ⟨z, hz, -⟩
    · rfl
    · simp [kids_of_find? hx, hp] at hz
  cases hb with
  | newline hx => exact leaf hx rfl ▸ .inl (.newline hx)
  | rule hx => exact leaf hx rfl ▸ .inl (.rule hx)
  | @paragraph items _ content ids hx hl hi =>
    rcases Relation.ReflTransGen.cases_head hr with rfl | ⟨z, hz, hr⟩
    · exact .inl (.paragraph hx hl hi)
    rw [kids_of_find? hx] at hz
    obtain rfl := List.mem_singleton.1 hz
    rcases belongs_of_reaches_list h hl hi hr with rfl | ⟨top, htop, hs⟩
    · obtain rfl := Option.some.inj (hn.symm.trans hl)
      cases hc
    · obtain ⟨part, hp, hy⟩ := hs.exists_part hn hc hv
      exact .inr ⟨part, ⟨top, htop, hp⟩, hy⟩
  | element hx =>
    obtain ⟨part, hp, hy⟩ := (Belongs.of_reaches h (.part _ .refl hx) hr).exists_part hn hc hv
    exact .inr ⟨part, ⟨_, List.mem_singleton_self _, hp⟩, hy⟩

theorem exists_of_find?_read [Entities] {text : String} {n : Node} (hn : (read text).find? x = some n)
    (hc : Role.content.admits n.payload = true) (hv : Role.value.admits n.payload = false) :
    ∃ block ∈ Block.parse true text.toList, block.StandsAt (read text) x ∨
      ∃ item, block.Holds item ∧ item.StandsAt (read text) x := by
  rcases Relation.ReflTransGen.cases_head (reaches_read (index_lt_of_find? hn)) with rfl | ⟨y, hy, hr⟩
  · obtain rfl := Option.some.inj (hn.symm.trans (find?_read_root text))
    cases hc
  rw [kids_of_find? (find?_read_root text)] at hy
  obtain rfl := List.mem_singleton.1 hy
  rcases Relation.ReflTransGen.cases_head hr with rfl | ⟨z, hz, hr⟩
  · obtain rfl := Option.some.inj (hn.symm.trans (find?_read_content text))
    cases hc
  rw [kids_of_find? (find?_read_content text)] at hz
  obtain ⟨block, hblock, hs⟩ := exists_mem_of_forall₂ (standsAt_read text) hz
  exact ⟨block, hblock, exists_of_reaches_block (sound_read text) hs hr hn hc hv⟩

end Arena

/-- Nodes with inline content in them that stand in inline content themselves. -/
def Payload.encloses : Payload → Bool
  | emphasis _ _ => true
  | link _ _ => true
  | element _ _ _ _ => true
  | _ => false

namespace Arena

theorem exists_item_of_find?_read [Entities] {text : String} {x : NodeId} {n : Node}
    (hn : (read text).find? x = some n) (he : n.payload.encloses = true) :
    ∃ block ∈ Block.parse true text.toList, ∃ item, block.Holds item ∧ item.StandsAt (read text) x := by
  have hc : Role.content.admits n.payload = true := by
    cases hp : n.payload <;> simp_all [Payload.encloses, Role.admits]
  have hv : Role.value.admits n.payload = false := by
    cases hp : n.payload <;> simp_all [Payload.encloses, Role.admits]
  obtain ⟨block, hblock, hs | hs⟩ := exists_of_find?_read hn hc hv
  · cases hs with
    | newline hx | rule hx | paragraph hx _ _ =>
      obtain rfl := Option.some.inj (hn.symm.trans hx)
      cases he
    | element hx => exact ⟨_, hblock, _, ⟨_, List.mem_singleton_self _, .refl⟩, hx⟩
  · exact ⟨block, hblock, hs⟩

end Arena
end WikiPage
