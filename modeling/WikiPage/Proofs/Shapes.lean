import WikiPage.Proofs.Regular
import WikiPage.Proofs.Stored

/-!
# The nodes of a page that was read

What is read from a text is stored in nodes of a few shapes, and each of them stands at one place below
the page.
-/

namespace WikiPage

namespace Payload

/-- What may stand in a list. -/
def isItem : Payload → Bool
  | page _ => false
  | list _ => false
  | _ => true

def isText : Payload → Bool
  | text _ => true
  | _ => false

def isNoText (p : Payload) : Bool :=
  !p.isText

/-- Nodes of these kinds have no glue where they were read. -/
def isPlain : Payload → Bool
  | page _ => true
  | list _ => true
  | text _ => true
  | newline _ => true
  | _ => false

end Payload

theorem Role.isItem_of_admits {role : Role} {p : Payload} (h : role.admits p = true) :
    p.isItem = true := by
  cases role <;> cases p <;> first | rfl | cases h

namespace Arena

namespace Builds

variable {P : Arena → Node → Prop} {a b c : Arena} {ids ids' : List NodeId} {n : Node}

theorem node (h : Builds P a b n.payload.children) (hn : P b n) : Builds P a (b.push n) [b.next] := by
  have hpush : Builds P a (b.push n) ([] ++ [b.next]) := push h hn
  exact hpush

theorem around {p : Payload} {g : Option Glue} (h : Builds P a b ids)
    (hl : P b ⟨.list ids, .none⟩) (hc : p.children = [b.next])
    (hp : P (b.push ⟨.list ids, .none⟩) ⟨p, g⟩) :
    Builds P a ((b.push ⟨.list ids, .none⟩).push ⟨p, g⟩) [(b.push ⟨.list ids, .none⟩).next] := by
  refine node ?_ hp
  rw [hc]
  exact node (n := ⟨.list ids, .none⟩) h hl

theorem around₂ {p : Payload} {g : Option Glue} (h : Builds P a b ids)
    (hl : P b ⟨.list ids, .none⟩) (h' : Builds P (b.push ⟨.list ids, .none⟩) c ids')
    (hl' : P c ⟨.list ids', .none⟩) (hc : p.children = [b.next, c.next])
    (hp : P (c.push ⟨.list ids', .none⟩) ⟨p, g⟩) :
    Builds P a ((c.push ⟨.list ids', .none⟩).push ⟨p, g⟩) [(c.push ⟨.list ids', .none⟩).next] := by
  refine node ?_ hp
  rw [hc]
  exact (node (n := ⟨.list ids, .none⟩) h hl).append (node (n := ⟨.list ids', .none⟩) h' hl')

/-- Every node made is at or below one that no new node refers to. -/
theorem reached (h : Builds P a b ids) {x : NodeId} (hx : a.size ≤ x.index)
    (hb : x.index < b.size) : ∃ y ∈ ids, Reaches b.kids y x := by
  induction h with
  | none => omega
  | @append a b c ids ids' h h' ih ih' =>
    rcases Nat.lt_or_ge x.index b.size with hxb | hxb
    · obtain ⟨y, hy, hr⟩ := ih hx hxb
      refine ⟨y, List.mem_append_left _ hy, hr.mono fun z w hw => ?_⟩
      rcases Nat.lt_or_ge z.index b.size with hz | hz
      · rwa [h'.exts.kids_eq hz]
      · simp [kids_eq_nil hz] at hw
    · obtain ⟨y, hy, hr⟩ := ih' hxb hb
      exact ⟨y, List.mem_append_right _ hy, hr⟩
  | perm _ hp ih =>
    obtain ⟨y, hy, hr⟩ := ih hx hb
    exact ⟨y, hp.mem_iff.1 hy, hr⟩
  | @push a b ids n h _ ih =>
    have hmono {z w : NodeId} (hr : Reaches b.kids z w) : Reaches (b.push n).kids z w := by
      refine hr.mono fun z w hw => ?_
      rw [kids_push, if_neg]
      · exact hw
      · rintro rfl
        simp [kids_eq_nil (a := b) (x := b.next) (Nat.le_refl _)] at hw
    by_cases hn : x = b.next
    · exact ⟨b.next, by simp, hn ▸ .refl⟩
    · have hxb : x.index < b.size := by
        rw [size_push] at hb
        refine Nat.lt_of_le_of_ne (Nat.le_of_lt_succ hb) fun he => hn ?_
        exact NodeId.ext he
      obtain ⟨y, hy, hr⟩ := ih hx hxb
      rcases List.mem_append.1 hy with hy | hy
      · exact ⟨y, List.mem_append_left _ hy, hmono hr⟩
      · refine ⟨b.next, by simp, .head ?_ (hmono hr)⟩
        rw [kids_push, if_pos rfl]
        exact hy

end Builds

/-- A node as reading makes it from `whole`, an arena with the nodes below it. -/
inductive Shaped (whole : List Char) (a : Arena) : Node → Prop
  | page (content : NodeId) : Shaped whole a ⟨.page content, none⟩
  | list {items : List NodeId} (h : ∀ x ∈ items, a.Is Payload.isItem x)
    (ha : items.IsChain fun x y => a.Is Payload.isNoText x ∨ a.Is Payload.isNoText y) :
    Shaped whole a ⟨.list items, none⟩
  | text {s : String} (h : s ≠ "") : Shaped whole a ⟨.text s, none⟩
  | newline (s : String) : Shaped whole a ⟨.newline s, none⟩
  | reference (meaning : Reference) (raw : String) :
    Shaped whole a ⟨.reference meaning, some ⟨[raw]⟩⟩
  | comment {s : String} {closed : Bool}
    (h : closed = false → ['<', '!', '-', '-'] ++ s.toList <:+ whole) :
    Shaped whole a ⟨.comment s, some ⟨["<!--" ++ s ++ if closed then "-->" else ""]⟩⟩
  | rule (dashes : String) : Shaped whole a ⟨.rule, some ⟨[dashes]⟩⟩
  | paragraph (content : NodeId) : Shaped whole a ⟨.paragraph content, some ⟨["", ""]⟩⟩
  | emphasis (style : Emphasis) (content : NodeId) (opening closing : String) :
    Shaped whole a ⟨.emphasis style content, some ⟨[opening, closing]⟩⟩
  | link {target : String} {title : NodeId} {piped closed : Bool} (ht : '|' ∉ target.toList)
    (hp : piped = false → a.find? title = some ⟨.list [], none⟩) :
    Shaped whole a ⟨.link target title,
      some ⟨["[[" ++ target ++ if piped then "|" else "", if closed then "]]" else ""]⟩⟩
  | element {name : String} {empty : Bool} {attributes body : NodeId} {ending closing : String}
    (he : empty = true → a.find? body = some ⟨.list [], none⟩) :
    Shaped whole a ⟨.element name empty attributes body, some ⟨["<" ++ name, ending, closing]⟩⟩
  | attr {name : String} {hasValue : Bool} {value : NodeId} {opening closing : String}
    (h : Tag.Opens name.toList hasValue opening.toList) :
    Shaped whole a ⟨.attr name hasValue value, some ⟨[opening, closing]⟩⟩

theorem Shaped.extends {whole : List Char} {a b : Arena} {n : Node} (hb : a.Extends b)
    (h : Shaped whole a n) : Shaped whole b n := by
  cases h with
  | page content => exact .page content
  | list h ha =>
    exact .list (fun x hx => (h x hx).extends hb)
      (ha.imp fun _ _ h => h.imp (·.extends hb) (·.extends hb))
  | text h => exact .text h
  | newline s => exact .newline s
  | reference r raw => exact .reference r raw
  | comment h => exact .comment h
  | rule dashes => exact .rule dashes
  | paragraph content => exact .paragraph content
  | emphasis style content opening closing => exact .emphasis style content opening closing
  | link ht hp => exact .link ht fun h => hb.find?_of_find? (hp h)
  | element he => exact .element fun h => hb.find?_of_find? (he h)
  | attr h => exact .attr h

theorem Is.mono {a : Arena} {kind kind' : Payload → Bool} {x : NodeId} (h : a.Is kind x)
    (hk : ∀ p, kind p = true → kind' p = true) : a.Is kind' x := by
  obtain ⟨n, hn, hp⟩ := h
  exact ⟨n, hn, hk _ hp⟩

/-- Nodes made of items, no two of which are texts side by side. -/
structure Shapes (whole : List Char) (a b : Arena) (ids : List NodeId) : Prop where
  builds : Builds (Shaped whole) a b ids
  apart : ids.IsChain fun x y => b.Is Payload.isNoText x ∨ b.Is Payload.isNoText y

namespace Shapes

variable {whole : List Char} {a b c : Arena} {x y : NodeId} {ids : List NodeId} {s t : List Char}
  {role : Role}

theorem nil (a : Arena) : Shapes whole a a [] :=
  ⟨.none, .nil⟩

theorem cons (h : Builds (Shaped whole) a b [x]) (hx : b.Is Payload.isNoText x)
    (h' : Shapes whole b c ids) : Shapes whole a c (x :: ids) := by
  refine ⟨h.append h'.builds, List.isChain_cons.2 ⟨fun _ _ => .inl ?_, h'.apart⟩⟩
  exact hx.extends h'.builds.exts

theorem text_cons (h : Builds (Shaped whole) a b [y, x]) (hy : b.Is Payload.isNoText y)
    (h' : Shapes whole b c ids) : Shapes whole a c (x :: y :: ids) := by
  have hyc := hy.extends h'.builds.exts
  refine ⟨(h.append h'.builds).perm (List.Perm.swap ..), ?_⟩
  exact .cons_cons (.inr hyc) (List.isChain_cons.2 ⟨fun _ _ => .inl hyc, h'.apart⟩)

theorem list (h : Shapes whole a b ids) (hi : ∀ x ∈ ids, b.Is role.admits x) :
    Shaped whole b ⟨.list ids, none⟩ :=
  .list (fun x hx => (hi x hx).mono fun _ => Role.isItem_of_admits) h.apart

end Shapes
end Arena

open Arena (Builds Shaped Shapes)

variable {whole : List Char}

namespace Span

theorem builds_store {span : Span} (h : span.IsFilled) (a : Arena) :
    Builds (Shaped whole) a (span.store a).2 [(span.store a).1] := by
  cases span with
  | text s => exact .node .none (.text (mt String.ofList_eq_empty_iff.1 h))
  | reference raw r => exact .node .none (.reference r _)

theorem isNoText_store {span : Span} (h : span.isText = false) (a : Arena) :
    (span.store a).2.Is Payload.isNoText (span.store a).1 := by
  cases span with
  | text s => cases h
  | reference raw r => exact .push_next rfl

theorem shapes_storeAll {spans : List Span} (h : Regular spans) (a : Arena) :
    Shapes whole a (storeAll spans a).2 (storeAll spans a).1 := by
  obtain ⟨hf, ha⟩ := h
  induction spans using Span.storeAll.induct generalizing a with
  | case1 => exact .nil a
  | case2 s span spans ih =>
    rw [List.forall_mem_cons, List.forall_mem_cons] at hf
    have htext : Builds (Shaped whole) _ _ _ := builds_store hf.1 (span.store a).2
    have hspan := isNoText_store ((List.isChain_cons_cons.1 ha).1.resolve_left (by simp [isText])) a
    exact .text_cons ((builds_store hf.2.1 a).append htext) (hspan.extends htext.exts)
      (ih _ hf.2.2 ha.tail.tail)
  | case3 span spans hne ih =>
    rw [List.forall_mem_cons] at hf
    have hspan : Builds (Shaped whole) _ _ _ := builds_store hf.1 a
    rw [storeAll]
    · cases span with
      | reference raw r => exact .cons hspan (isNoText_store rfl a) (ih _ hf.2 ha.tail)
      | text s =>
        cases spans with
        | nil => exact ⟨hspan, .singleton _⟩
        | cons span spans => exact absurd rfl (hne s span spans rfl)
    · exact hne

end Span

theorem Tag.Attribute.builds_store [Entities] {x : Tag.Attribute}
    (h : Tag.Opens x.name x.value.isSome x.opening) (a : Arena) :
    Builds (Shaped whole) a (x.store a).2 [(x.store a).1] := by
  have hspans : Shapes whole _ _ _ :=
    Span.shapes_storeAll (Span.regular_list (x.value.getD [])) a
  refine .around hspans.builds (hspans.list (Span.makes_storeAll _ a).kinds) rfl (.attr ?_)
  simpa using h

theorem Storing.shapes_mapM {α : Type} {f : α → Storing NodeId} {xs : List α}
    (h : ∀ x ∈ xs, ∀ a, Builds (Shaped whole) a (f x a).2 [(f x a).1])
    (hn : ∀ x a, (f x a).2.Is Payload.isNoText (f x a).1) (a : Arena) :
    Shapes whole a (xs.mapM f a).2 (xs.mapM f a).1 := by
  induction xs generalizing a with
  | nil => exact .nil a
  | cons x xs ih =>
    rw [List.forall_mem_cons] at h
    rw [List.mapM_cons]
    exact .cons (h.1 a) (hn x a) (ih h.2 _)

namespace Inline

theorem isNoText_store [Entities] {item : Inline} (h : item.isText = false) (a : Arena) :
    (store item a).2.Is Payload.isNoText (store item a).1 := by
  cases item with
  | text s => cases h
  | newline s => exact .push_next rfl
  | reference raw r => exact .push_next rfl
  | comment s closed => exact .push_next rfl
  | emphasis style body closed =>
    rw [store]
    exact .push_next rfl
  | link target piped title closed =>
    rw [store]
    exact .push_next rfl
  | element tag body closing =>
    rw [store]
    exact .push_next rfl

theorem ofList_comment (s : List Char) (closed : Bool) :
    String.ofList (['<', '!', '-', '-'] ++ s ++ if closed then ['-', '-', '>'] else []) =
      "<!--" ++ String.ofList s ++ if closed then "-->" else "" := by
  rw [String.ofList_append, String.ofList_append]
  cases closed <;> rfl

theorem ofList_linkOpening (target : List Char) (piped : Bool) :
    String.ofList (['[', '['] ++ target ++ if piped then ['|'] else []) =
      "[[" ++ String.ofList target ++ if piped then "|" else "" := by
  rw [String.ofList_append, String.ofList_append]
  cases piped <;> rfl

theorem ofList_linkClosing (closed : Bool) :
    String.ofList (if closed then [']', ']'] else []) = if closed then "]]" else "" := by
  cases closed <;> rfl

theorem shapes_store_and_storeAll [Entities] :
    (∀ item a, Regular whole item → Builds (Shaped whole) a (store item a).2 [(store item a).1]) ∧
    (∀ items a, RegularRun whole items → Shapes whole a (storeAll items a).2 (storeAll items a).1) := by
  refine store.mutual_induct _ _ ?text ?newline ?reference ?comment ?emphasis ?link
    ?element ?nil ?textCons ?cons
  case text =>
    intro s a h
    cases h with
    | text h => exact .node .none (.text (mt String.ofList_eq_empty_iff.1 h))
  case newline => exact fun s a _ => .node .none (.newline _)
  case reference => exact fun raw r a _ => .node .none (.reference r _)
  case comment =>
    intro s closed a h
    cases h with
    | comment h =>
      rw [store]
      refine .node .none ?_
      simp only [List.map_cons, List.map_nil, ofList_comment, Option.map_some]
      exact .comment (by rwa [String.toList_ofList])
  case emphasis =>
    intro style body closed ih a h
    cases h with
    | emphasis h ha =>
      have hbody := ih a ⟨h, ha⟩
      rw [store]
      exact .around hbody.builds (hbody.list (makes_storeAll body a).kinds) rfl
        (.emphasis style _ _ _)
  case link =>
    intro target piped title closed ih a h
    cases h with
    | link ht hp h ha =>
      have htitle := ih a ⟨h, ha⟩
      rw [store]
      refine .around htitle.builds (htitle.list (makes_storeAll title a).kinds) rfl ?_
      simp only [Option.map_some, List.map_cons, List.map_nil, ofList_linkOpening, ofList_linkClosing]
      refine .link (by rwa [String.toList_ofList]) fun hpf => ?_
      rw [Arena.find?_push_next, hp hpf]
      rfl
  case element =>
    intro tag body closing ih a h
    cases h with
    | element ht he h ha =>
      have hattributes : Shapes whole _ _ _ := Storing.shapes_mapM
        (fun x hx => Tag.Attribute.builds_store (ht x hx)) (fun _ _ => .push_next rfl) a
      have hbody (b : Arena) := ih b ⟨h, ha⟩
      have hg : String.ofList (['<'] ++ tag.name) = "<" ++ String.ofList tag.name :=
        String.ofList_append
      rw [List.singleton_append] at hg
      rw [store]
      refine .around₂ hattributes.builds
        (hattributes.list (Storing.makes_mapM Tag.Attribute.makes_store tag.attributes a).kinds)
        (hbody _).builds ((hbody _).list (makes_storeAll body _).kinds) rfl ?_
      simp only [Option.map_some, List.map_cons, List.map_nil, hg]
      refine .element fun hem => ?_
      rw [Arena.find?_push_next, he hem]
      rfl
  case nil => exact fun a _ => .nil a
  case textCons =>
    intro s item items ih ihs ih' a h
    obtain ⟨hr, ha⟩ := h
    rw [List.forall_mem_cons, List.forall_mem_cons] at hr
    have hitem := isNoText_store ((List.isChain_cons_cons.1 ha).1.resolve_left (by simp [isText])) a
    have htext := ihs (store item a).2 hr.1
    exact .text_cons ((ih a hr.2.1).append htext) (hitem.extends htext.exts)
      (ih' _ ⟨hr.2.2, ha.tail.tail⟩)
  case cons =>
    intro item items hne ih ih' a h
    obtain ⟨hr, ha⟩ := h
    rw [List.forall_mem_cons] at hr
    have hitem := ih a hr.1
    rw [storeAll]
    · by_cases ht : item.isText = true
      · cases item <;> cases ht
        cases items with
        | nil => exact ⟨hitem, .singleton _⟩
        | cons item items => exact absurd rfl (hne _ item items rfl)
      · exact .cons hitem (isNoText_store (by simpa using ht) a) (ih' _ ⟨hr.2, ha.tail⟩)
    · exact hne

theorem builds_store [Entities] {item : Inline} (h : Regular whole item) (a : Arena) :
    Builds (Shaped whole) a (store item a).2 [(store item a).1] :=
  shapes_store_and_storeAll.1 item a h

theorem shapes_storeAll [Entities] {items : List Inline} (h : RegularRun whole items) (a : Arena) :
    Shapes whole a (storeAll items a).2 (storeAll items a).1 :=
  shapes_store_and_storeAll.2 items a h

end Inline

namespace Block

theorem builds_store [Entities] {block : Block} (h : block.Regular whole) (a : Arena) :
    Builds (Shaped whole) a (block.store a).2 [(block.store a).1] := by
  cases block with
  | newline s => exact .node .none (.newline _)
  | rule dashes => exact .node .none (.rule _)
  | paragraph items =>
    have hitems := Inline.shapes_storeAll h a
    exact .around hitems.builds (hitems.list (Inline.makes_storeAll items a).kinds) rfl
      (.paragraph _)
  | element tag body closing => exact Inline.builds_store h a

theorem isNoText_store [Entities] (block : Block) (a : Arena) :
    (block.store a).2.Is Payload.isNoText (block.store a).1 := by
  cases block with
  | newline s => exact .push_next rfl
  | rule dashes => exact .push_next rfl
  | paragraph items => exact .push_next rfl
  | element tag body closing => exact Inline.isNoText_store rfl a

end Block

namespace Arena

theorem shapes_stored [Entities] (text : String) :
    Shapes text.toList new (stored text).2 (stored text).1 :=
  Storing.shapes_mapM (fun _ hb => Block.builds_store (Block.regular_parse true text.toList _ hb))
    Block.isNoText_store new

theorem shaped_stored [Entities] {text : String} {id : NodeId} {n : Node}
    (hn : (stored text).2.find? id = some n) : Shaped text.toList (stored text).2 n := by
  refine (shapes_stored text).builds.forall_of_extends (fun hb h => h.extends hb)
    (fun id n hn => ?_) id n hn
  obtain ⟨i⟩ := id
  match i with
  | 0 =>
    obtain rfl : _ = n := Option.some.inj (find?_new_content.symm.trans hn)
    exact .list (by simp) .nil
  | 1 =>
    obtain rfl : _ = n := Option.some.inj (find?_new_root.symm.trans hn)
    exact .page _
  | i + 2 => simp [find?_eq_none_iff.2 (show new.size ≤ i + 2 by simp [size_new])] at hn

theorem Shaped.setItems {whole : List Char} {a : Arena} {n : Node} {c : NodeId}
    {old items : List NodeId} {g : Option Glue} (h : Shaped whole a n)
    (hc : a.find? c = some ⟨.list old, g⟩) (hn : c ∉ n.payload.children) :
    Shaped whole (a.setItems c items) n := by
  have find {x : NodeId} (hx : x ∈ n.payload.children) : (a.setItems c items).find? x = a.find? x := by
    rw [find?_setItems hc, if_neg]
    rintro rfl
    exact hn hx
  have is {kind : Payload → Bool} {x : NodeId} (hx : x ∈ n.payload.children) (h : a.Is kind x) :
      (a.setItems c items).Is kind x := by
    rwa [Is, find hx]
  cases h with
  | page content => exact .page content
  | list h ha =>
    exact .list (fun x hx => is hx (h x hx))
      (ha.imp_of_mem_imp fun _ _ hx hy h => h.imp (is hx) (is hy))
  | text h => exact .text h
  | newline s => exact .newline s
  | reference r raw => exact .reference r raw
  | comment h => exact .comment h
  | rule dashes => exact .rule dashes
  | paragraph content => exact .paragraph content
  | emphasis style content opening closing => exact .emphasis style content opening closing
  | link ht hp => exact .link ht fun h => (find (by simp [Payload.children])).trans (hp h)
  | element he => exact .element fun h => (find (by simp [Payload.children])).trans (he h)
  | attr h => exact .attr h

/-- Every node of a page that was read has one of the shapes. -/
theorem shaped_read [Entities] {text : String} {id : NodeId} {n : Node}
    (hn : (read text).find? id = some n) : Shaped text.toList (read text) n := by
  have hc := find?_stored_content text
  have hs := shapes_stored text
  have hroot := hs.builds.exts.find?_of_find? find?_new_root
  have hlist := hs.list (makes_stored text).kinds
  rw [read_eq, find?_setItems hc] at hn
  rw [read_eq]
  split at hn
  · obtain rfl := Option.some.inj hn
    refine hlist.setItems hc fun hm => ?_
    exact absurd (hs.builds.range _ hm).1 (by decide)
  · by_cases hr : id = root
    · subst hr
      obtain rfl := Option.some.inj (hroot.symm.trans hn)
      exact .page _
    · refine (shaped_stored hn).setItems hc fun hm => hr ?_
      refine (sound_stored text).single (y := new.content) ?_ ?_
      · rwa [kids_of_find? hn]
      · rw [kids_of_find? hroot]
        exact List.mem_singleton_self _

/-- Every node but the page stands at one place, and each place holds what it is for. -/
structure IsTree (a : Arena) : Prop where
  loose_iff : ∀ {x : NodeId}, x.index < a.size → (a.Loose x ↔ x = root)
  once : ∀ {x : NodeId}, x.index < a.size → x ≠ root →
    ∃ y, ∀ z, (a.kids z).count x = if z = y then 1 else 0
  reached : ∀ {x : NodeId}, x.index < a.size → Reaches a.kids root x
  /-- What is no list has lists below it. -/
  lists : ∀ {id n}, a.find? id = some n → n.payload.isList = false →
    ∀ x ∈ n.payload.children, a.Is Payload.isList x
  items : ∀ {id items g}, a.find? id = some ⟨.list items, g⟩ → ∀ x ∈ items, a.Is Payload.isItem x
  attributes : ∀ {id name empty attributes body g},
    a.find? id = some ⟨.element name empty attributes body, g⟩ → a.ListOf .attributes attributes
  values : ∀ {id name hasValue value g},
    a.find? id = some ⟨.attr name hasValue value, g⟩ → a.ListOf .value value
  glue : ∀ {id n}, a.find? id = some n → n.glue.map Glue.size =
    if n.payload.isPlain then none else some (n.payload.children.length + 1)
  texts : ∀ {id s g}, a.find? id = some ⟨.text s, g⟩ → s ≠ ""
  apart : ∀ {id items g}, a.find? id = some ⟨.list items, g⟩ →
    items.IsChain fun x y => ¬(a.Is Payload.isText x ∧ a.Is Payload.isText y)

theorem Is.not_isText {a : Arena} {x : NodeId} (h : a.Is Payload.isNoText x) :
    ¬a.Is Payload.isText x := by
  rintro ⟨n, hn, hp⟩
  obtain ⟨m, hm, hq⟩ := h
  obtain rfl := Option.some.inj (hn.symm.trans hm)
  rw [Payload.isNoText, hp] at hq
  cases hq

theorem reaches_read [Entities] {text : String} {x : NodeId} (hx : x.index < (read text).size) :
    Reaches (read text).kids root x := by
  have hs := shapes_stored text
  have hc := find?_stored_content text
  have hk := kids_setItems (index_lt_of_find? hc) (stored text).1
  have hcontent : new.content ∈ (read text).kids root := by
    rw [kids_of_find? (find?_read_root text)]
    exact List.mem_singleton_self _
  rcases Nat.lt_or_ge x.index new.size with hlt | hge
  · obtain ⟨i⟩ := x
    match i, hlt with
    | 0, _ => exact .single hcontent
    | 1, _ => exact .refl
  · have hx : x.index < (stored text).2.size := (size_modify _ new.content _) ▸ hx
    obtain ⟨y, hy, hr⟩ := hs.builds.reached hge hx
    have hyc : y ∈ (read text).kids new.content := by
      rw [read_eq, hk, if_pos rfl]
      exact hy
    refine (Relation.ReflTransGen.single hcontent).trans (.head hyc (hr.mono fun z w hw => ?_))
    rw [read_eq, hk, if_neg]
    · exact hw
    · rintro rfl
      rw [kids_of_find? hc] at hw
      cases hw

/-- What a text is read into is a tree. -/
theorem isTree_read [Entities] (text : String) : (read text).IsTree where
  loose_iff {x} hx := by
    refine ⟨fun hl => ?_, fun hr => hr ▸ loose_root_read text⟩
    rcases (reaches_read hx).eq_or_mem with hr | ⟨y, hy⟩
    · exact hr.symm
    · exact absurd hy (hl y)
  once {x} hx hr := by
    have hs := sound_read text
    obtain ⟨y, hy⟩ := (reaches_read hx).eq_or_mem.resolve_left fun he => hr he.symm
    refine ⟨y, fun z => ?_⟩
    split
    · subst z
      exact List.count_eq_one_of_mem (hs.nodup y) hy
    · exact List.count_eq_zero.2 fun hz => ‹z ≠ y› (hs.single hz hy)
  reached := reaches_read
  lists {id n} hn hl x hx := by
    rw [Payload.children_eq_slots hl, List.mem_map] at hx
    obtain ⟨s, hs, rfl⟩ := hx
    obtain ⟨items, hi⟩ := (sound_read text).find?_slot hn hs
    exact ⟨_, hi, rfl⟩
  items hn := by
    cases shaped_read hn with
    | list h _ => exact h
  attributes hn := ((sound_read text).fits hn).lists _ List.mem_cons_self
  values hn := ((sound_read text).fits hn).lists _ List.mem_cons_self
  glue hn := by
    cases shaped_read hn <;> rfl
  texts hn := by
    cases shaped_read hn with
    | text h => exact h
  apart hn := by
    cases shaped_read hn with
    | list _ ha =>
      exact ha.imp fun x y h ht => h.elim (fun hx => hx.not_isText ht.1) fun hy => hy.not_isText ht.2

end Arena
end WikiPage
