import WikiPage.Proofs.Rescanned
import WikiPage.Proofs.Standing
import WikiPage.Proofs.Tagging

/-!
# Tags in nodes

The tag of an element is kept in pieces: its name and its end are glue, and each attribute is a node. The
tag is legible if each piece is in a form that a scan finds. Then the tag is printed as these pieces side
by side, and what is scanned in the print are the pieces again, unless the last value runs into the end.
The tags of a text are legible where they are read.
-/

namespace WikiPage

namespace Arena

variable [Entities] {a b c : Arena} {n m l body : NodeId} {x : Tag.Attribute} {name : String} {empty : Bool}
  {ending : List Char} {selfClosing : Bool} {closing : String} {xs : List Tag.Attribute}

/-- A node of an attribute, and the attribute that it is printed as. The value reads as what the printed
value does. -/
structure Signs (a : Arena) (n : NodeId) (x : Tag.Attribute) : Prop where
  written : x.IsWritten
  node : ∃ name v, a.find? n = some ⟨.attr name x.value.isSome v,
      some ⟨[String.ofList x.opening, String.ofList x.closing]⟩⟩ ∧
    name.toLower = (String.ofList x.name).toLower ∧ a.print v = .ok (String.ofList (x.value.getD [])) ∧
    a.text v = .ok (String.ofList ((Span.list (x.value.getD [])).flatMap Span.meaning))

/-- The pieces of a tag: a name, an end and a list of attributes. -/
structure Letters (a : Arena) (n : NodeId) (name : String) (l body : NodeId) (ending : List Char)
    (selfClosing : Bool) (closing : String) : Prop where
  node : ∃ empty, a.find? n =
    some ⟨.element name empty l body, some ⟨["<" ++ name, String.ofList ending, closing]⟩⟩
  isName : StartTag.IsName name.toList
  isEnding : StartTag.IsEnding ending selfClosing
  signs : ∀ m ∈ a.kids l, ∃ x, a.Signs m x

/-- A node with a tag whose pieces are in forms that a scan finds. -/
def IsLegible (a : Arena) (n : NodeId) : Prop :=
  ∃ name l body ending selfClosing closing, a.Letters n name l body ending selfClosing closing

theorem Signs.print_eq (h : a.Signs n x) (ha : a.Founded) : a.print n = .ok (String.ofList x.source) := by
  obtain ⟨name, v, hn, -, hv, -⟩ := h.node
  rw [ha.print_eq_of_frame? hn rfl]
  simp only [Payload.children, List.map_cons, List.map_nil, hv, Node.interleave, bind, Except.bind,
    List.headD, List.tail_cons, Tag.Attribute.source, String.ofList_append]

theorem joined_signs (ha : a.Founded) {items : List NodeId} (h : List.Forall₂ a.Signs items xs) :
    Node.joined (items.map a.print) = .ok (String.ofList (xs.flatMap Tag.Attribute.source)) := by
  induction h with
  | nil => rfl
  | cons hx _ ih =>
    rw [List.map_cons, List.flatMap_cons, Node.joined, hx.print_eq ha, ih, String.ofList_append]
    rfl

theorem Letters.print_eq (h : a.Letters n name l body ending selfClosing closing) (ha : a.Sound)
    {text : String} (hprint : a.print n = .ok text) : ∃ xs rest, List.Forall₂ a.Signs (a.kids l) xs ∧
      text.toList = (⟨name.toList, xs, ending, selfClosing⟩ : StartTag).source ++ rest := by
  obtain ⟨empty, hn⟩ := h.node
  obtain ⟨items, hl⟩ := ha.find?_slot hn (List.mem_cons_self : (l, Role.attributes) ∈ _)
  obtain ⟨xs, hxs⟩ : ∃ xs, List.Forall₂ a.Signs (a.kids l) xs := by
    have hall := h.signs
    generalize a.kids l = ms at hall
    induction ms with
    | nil => exact ⟨[], .nil⟩
    | cons m ms ih =>
      rw [List.forall_mem_cons] at hall
      obtain ⟨x, hx⟩ := hall.1
      obtain ⟨xs, hxs⟩ := ih hall.2
      exact ⟨x :: xs, .cons hx hxs⟩
  have hlist : a.print l = .ok (String.ofList (xs.flatMap Tag.Attribute.source)) := by
    rw [ha.founded.print_list hl]
    rw [kids_of_find? hl] at hxs
    exact joined_signs ha.founded hxs
  rw [ha.founded.print_eq_of_frame? hn rfl] at hprint
  cases hbody : a.print body with
  | error e => simp [Payload.children, hlist, hbody, Node.interleave, bind, Except.bind] at hprint
  | ok inside =>
    simp only [Payload.children, List.map_cons, List.map_nil, hlist, hbody, Node.interleave, bind, Except.bind,
      List.headD, List.tail_cons, Except.ok.injEq] at hprint
    refine ⟨xs, (inside ++ closing).toList, hxs, ?_⟩
    rw [← hprint]
    simp [StartTag.source]

/-- A tag is scanned from what is printed as the name, the attributes and the end that it has, unless the
last value runs into the end. -/
theorem Letters.scanAt?_print (h : a.Letters n name l body ending selfClosing closing) (ha : a.Sound)
    {text : String} (hprint : a.print n = .ok text) : ∃ xs rest, List.Forall₂ a.Signs (a.kids l) xs ∧
      text.toList = (⟨name.toList, xs, ending, selfClosing⟩ : StartTag).source ++ rest ∧
      StartTag.scanAt? text 0 = if xs.getLast?.any (·.runsInto ending) then none
        else some (⟨name.toList, xs, ending, selfClosing⟩,
          Text.byteSize (⟨name.toList, xs, ending, selfClosing⟩ : StartTag).source) := by
  obtain ⟨xs, rest, hxs, htext⟩ := h.print_eq ha hprint
  refine ⟨xs, rest, hxs, htext, ?_⟩
  have hwritten : ∀ x ∈ xs, x.IsWritten := fun x hx => by
    obtain ⟨m, -, hm⟩ := exists_mem_of_forall₂ hxs hx
    exact hm.written
  have hscan : StartTag.scanAt? text 0 = _ := Text.scan_at_eq_map (Text.dropBytes?_zero text.toList)
  rw [hscan, htext, StartTag.scan?_source h.isName hwritten h.isEnding]
  split
  · rfl
  · simp

end Arena

namespace Inline

/-- An item in which every tag and every comment was scanned. -/
inductive Scanned : Inline → Prop
  | text (s : List Char) : Scanned (.text s)
  | newline (s : List Char) : Scanned (.newline s)
  | reference (raw : List Char) (meaning : Reference) : Scanned (.reference raw meaning)
  | comment (s : List Char) : Scanned (.comment (commentBody s).1 (commentBody s).2.1)
  | emphasis {style : Emphasis} {body : List Inline} {closed : Bool} (h : ∀ x ∈ body, Scanned x) :
    Scanned (.emphasis style body closed)
  | link {target : List Char} {piped : Bool} {title : List Inline} {closed : Bool}
    (hp : piped = false → title = []) (h : ∀ x ∈ title, Scanned x) :
    Scanned (.link target piped title closed)
  | element {tag : StartTag} {body : List Inline} {closing : Option EndTag} {s rest : List Char}
    (ht : StartTag.scan? s = some (tag, rest)) (he : ∀ e ∈ closing, EndTag.IsFound e)
    (h : ∀ x ∈ body, Scanned x) : Scanned (.element tag body closing)

theorem inherits_scanned [Entities] :
    Inherits (fun _ _ item => Scanned item) fun _ _ items => ∀ x ∈ items, Scanned x where
  nil _ _ := List.forall_mem_nil _
  cons _ _ hx hr := forall_mem_cons .text hx hr
  text _ := .text _
  newline w := .newline w
  reference raw r := .reference raw r
  comment _ _ := .comment _
  emphasis _ _ _ hb := .emphasis hb
  link _ _ hp hb := .link hp hb
  element hs _ he hb := .element hs he hb

theorem Scanned.of_reaches {x y : Inline} (h : Scanned x) (hr : Reaches inner x y) : Scanned y := by
  induction hr with
  | refl => exact h
  | tail _ hy ih =>
    cases ih with
    | text | newline | reference | comment => cases hy
    | emphasis h => exact h _ hy
    | link _ h => exact h _ hy
    | element _ _ h => exact h _ hy

end Inline

theorem Block.scanned_parse [Entities] (lineStart : Bool) (s : List Char) :
    ∀ b ∈ parse lineStart s, ∀ x ∈ b.items, Inline.Scanned x := by
  intro b hb
  obtain ⟨rest, -, hb⟩ := has_parse Inline.inherits_scanned lineStart s b hb
  cases b with
  | newline _ => exact List.forall_mem_nil _
  | rule _ => exact List.forall_mem_nil _
  | paragraph _ => exact hb
  | element _ _ _ => exact List.forall_mem_singleton.2 hb

namespace Arena

variable [Entities] {a b c d : Arena}

/-- All nodes of attributes that are made from one arena to another sign for one, wherever they are. -/
def Pledges (a b : Arena) : Prop :=
  ∀ c : Arena, c.Founded → Shares a b c → ∀ m : NodeId, a.size ≤ m.index → m.index < b.size →
    ∀ {name hasValue v g}, c.find? m = some ⟨.attr name hasValue v, g⟩ → ∃ x, c.Signs m x

namespace Pledges

theorem refl (a : Arena) : a.Pledges a :=
  fun _ _ _ _ hl hu => absurd hu (Nat.not_lt_of_le hl)

theorem trans (h : a.Pledges b) (h' : b.Pledges c) (hb : a.Extends b) (hc : b.Extends c) : a.Pledges c := by
  intro d hd hs m hl hu _ _ _ _ hm
  rcases Nat.lt_or_ge m.index b.size with hlt | hge
  · exact h d hd (hs.left hc) m hl hlt hm
  · exact h' d hd (hs.right hb) m hge hu hm

theorem push_of_signs {n : Node} (h : a.Pledges b) (hb : a.Extends b)
    (hn : ∀ c : Arena, c.Founded → Shares a (b.push n) c → Role.attributes.admits n.payload = true →
      ∃ x, c.Signs b.next x) : a.Pledges (b.push n) := by
  intro c hc hs m hl hu _ _ _ _ hm
  rcases Nat.lt_or_ge m.index b.size with hlt | hge
  · exact h c hc hs.pop m hl hlt hm
  · obtain rfl : m = b.next := by
      rw [size_push] at hu
      exact NodeId.ext (Nat.le_antisymm (Nat.le_of_lt_succ hu) hge)
    obtain rfl := Option.some.inj ((hs.find?_next hb).symm.trans hm)
    exact hn c hc hs rfl

theorem push {n : Node} (h : a.Pledges b) (hb : a.Extends b)
    (hn : Role.attributes.admits n.payload = false) : a.Pledges (b.push n) :=
  h.push_of_signs hb fun _ _ _ ha => absurd (hn.symm.trans ha) Bool.false_ne_true

end Pledges
end Arena

open Arena (Pledges)

theorem Span.pledges_store [Entities] (span : Span) (a : Arena) : a.Pledges (span.store a).2 := by
  cases span with
  | text s => exact .push (.refl a) (.refl a) rfl
  | reference raw r => exact .push (.refl a) (.refl a) rfl

theorem Span.pledges_storeAll [Entities] (spans : List Span) (a : Arena) : a.Pledges (storeAll spans a).2 := by
  induction spans using Span.storeAll.induct generalizing a with
  | case1 => exact .refl a
  | case2 s span spans ih =>
    have hspan := (makes_store span a).builds.exts
    have htext := (makes_store (.text s) (span.store a).2).builds.exts
    have hspans := (makes_storeAll spans ((text s).store (span.store a).2).2).builds.exts
    exact (((pledges_store span a).trans (pledges_store (.text s) _) hspan htext).trans (ih _)
      (hspan.trans htext) hspans)
  | case3 span spans hne ih =>
    have hspan := (makes_store span a).builds.exts
    have hspans := (makes_storeAll spans (span.store a).2).builds.exts
    rw [storeAll]
    · exact (pledges_store span a).trans (ih _) hspan hspans
    · exact hne

theorem Tag.Attribute.pledges_store [Entities] {x : Tag.Attribute} (hx : x.IsWritten) (a : Arena) :
    a.Pledges (x.store a).2 := by
  have hmakes := Span.makes_storeAll (Span.list (x.value.getD [])) a
  have hspells := Span.spells_storeAll (Span.list (x.value.getD [])) a
  have hpledges := Span.pledges_storeAll (Span.list (x.value.getD [])) a
  rw [Span.flatMap_source_list] at hmakes
  have hlist := hmakes.list.builds.exts
  refine (hpledges.push (n := ⟨.list _, none⟩) hmakes.builds.exts rfl).push_of_signs hlist fun c hc hs _ =>
    ⟨x, hx, _, _, hs.find?_next hlist, rfl, hmakes.list.print_eq hc hs.pop, ?_⟩
  rw [Arena.text, hc.tree_eq (hs.pop.find?_next hmakes.builds.exts), Node.text]
  refine hspells c hc fun y hy => ?_
  obtain ⟨hl, hu⟩ := hmakes.builds.range y hy
  rw [hs.pop.pop y hl hu]

theorem Storing.pledges_mapM [Entities] {α : Type} {f : α → Storing NodeId} {source : α → List Char}
    {kind : Payload → Bool} {xs : List α} (hf : ∀ x ∈ xs, ∀ a, Pledges a (f x a).2)
    (h : ∀ x a, Arena.Makes kind a (f x a).2 [(f x a).1] (source x)) (a : Arena) :
    a.Pledges (xs.mapM f a).2 := by
  induction xs generalizing a with
  | nil => exact .refl a
  | cons x xs ih =>
    rw [List.forall_mem_cons] at hf
    rw [List.mapM_cons]
    exact (hf.1 a).trans (ih hf.2 _) (h x a).builds.exts (makes_mapM h xs _).builds.exts

namespace Inline

theorem pledges_store_and_storeAll [Entities] :
    (∀ item a, Scanned item → Pledges a (store item a).2) ∧
    (∀ items a, (∀ x ∈ items, Scanned x) → Pledges a (storeAll items a).2) := by
  have leaf {a : Arena} {n : Node} (hn : Role.attributes.admits n.payload = false) : a.Pledges (a.push n) :=
    .push (.refl a) (.refl a) hn
  refine store.mutual_induct _ _ ?text ?newline ?reference ?comment ?emphasis ?link
    ?element ?nil ?textCons ?cons
  case text => exact fun _ _ _ => leaf rfl
  case newline => exact fun _ _ _ => leaf rfl
  case reference => exact fun _ _ _ _ => leaf rfl
  case comment => exact fun _ _ _ _ => leaf rfl
  case emphasis =>
    intro style body closed ih a h
    cases h with
    | emphasis h =>
      have hb := (makes_storeAll body a).builds.exts
      rw [store]
      exact ((ih a h).push hb rfl).push (hb.trans (.push _ _)) rfl
  case link =>
    intro target piped title closed ih a h
    cases h with
    | link _ h =>
      have hb := (makes_storeAll title a).builds.exts
      rw [store]
      exact ((ih a h).push hb rfl).push (hb.trans (.push _ _)) rfl
  case element =>
    intro tag body closing ih a h
    cases h with
    | element ht _ h =>
      have hwritten := (StartTag.isWritten_of_scan? ht).2
      have ha := Storing.makes_mapM Tag.Attribute.makes_store tag.attributes a
      have hlist := ha.list.builds.exts
      have hb (b : Arena) := (makes_storeAll body b).builds.exts
      have hattributes := Storing.pledges_mapM (fun x hx => Tag.Attribute.pledges_store (hwritten x hx))
        Tag.Attribute.makes_store a
      have hbody := (hattributes.push ha.builds.exts rfl).trans (ih _ h) hlist (hb _)
      rw [store]
      exact (hbody.push (hlist.trans (hb _)) rfl).push ((hlist.trans (hb _)).trans (.push _ _)) rfl
  case nil => exact fun a _ => .refl a
  case textCons =>
    intro s item items ih ihs ih' a h
    rw [List.forall_mem_cons, List.forall_mem_cons] at h
    have hitem := (makes_store item a).builds.exts
    have htext := (makes_store (.text s) (store item a).2).builds.exts
    have hitems := (makes_storeAll items (store (.text s) (store item a).2).2).builds.exts
    exact ((ih a h.2.1).trans (ihs _ h.1) hitem htext).trans (ih' _ h.2.2) (hitem.trans htext) hitems
  case cons =>
    intro item items hne ih ih' a h
    rw [List.forall_mem_cons] at h
    rw [storeAll]
    · exact (ih a h.1).trans (ih' _ h.2) (makes_store item a).builds.exts (makes_storeAll items _).builds.exts
    · exact hne

end Inline

theorem Block.pledges_store [Entities] {block : Block} (h : ∀ x ∈ block.items, Inline.Scanned x) (a : Arena) :
    a.Pledges (block.store a).2 := by
  cases block with
  | newline s => exact .push (.refl a) (.refl a) rfl
  | rule dashes => exact .push (.refl a) (.refl a) rfl
  | paragraph items =>
    have hb := (Inline.makes_storeAll items a).builds.exts
    exact ((Inline.pledges_store_and_storeAll.2 items a h).push hb rfl).push (hb.trans (.push _ _)) rfl
  | element tag body closing => exact Inline.pledges_store_and_storeAll.1 _ a (h _ (List.mem_singleton_self _))

namespace Arena

variable [Entities] {n m l body : NodeId} {name : String} {empty : Bool} {g : Option Glue}

/-- Every attribute of a text signs for itself where it is read. -/
theorem signs_read {text : String} {hasValue : Bool} {v : NodeId}
    (hm : (read text).find? m = some ⟨.attr name hasValue v, g⟩) : ∃ x, (read text).Signs m x := by
  have hpledges : Pledges new (stored text).2 := Storing.pledges_mapM
    (fun block hb => Block.pledges_store (Block.scanned_parse true text.toList block hb)) Block.makes_store new
  have hlt : m.index < (stored text).2.size := (size_modify _ new.content _) ▸ index_lt_of_find? hm
  refine hpledges _ (sound_read text).founded (shares_read text) m ?_ hlt hm
  -- the two nodes that were there before are the page and its content
  by_contra hge
  obtain ⟨i⟩ := m
  match i, hge with
  | 0, _ => cases (find?_read_content text).symm.trans hm
  | 1, _ => cases (find?_read_root text).symm.trans hm
  | i + 2, hge => exact hge (Nat.le_add_left 2 i)

theorem isLegible_read {text : String} {x : NodeId}
    (hx : (read text).find? x = some ⟨.element name empty l body, g⟩) : (read text).IsLegible x := by
  obtain ⟨block, hblock, item, ⟨top, htop, hr⟩, hs⟩ := exists_item_of_find?_read hx rfl
  obtain ⟨tag, ids, closing, rfl, rfl, rfl, rfl⟩ := hs.of_element hx
  cases (Block.scanned_parse true text.toList block hblock top htop).of_reaches hr with
  | element ht _ _ =>
    refine ⟨String.ofList tag.name, l, body, tag.ending, tag.selfClosing,
      String.ofList ((closing.map EndTag.raw).getD []), ⟨tag.isEmpty, ?_⟩, ?_, StartTag.isEnding_of_scan? ht,
      fun m hm => ?_⟩
    · have hopening : String.ofList ('<' :: tag.name) = "<" ++ String.ofList tag.name := by
        simp
      rw [hx, hopening]
    · rw [String.toList_ofList]
      exact (StartTag.isWritten_of_scan? ht).1
    · obtain ⟨items, hi, hitems⟩ := ((sound_read text).fits hx).lists (l, .attributes) List.mem_cons_self
      rw [kids_of_find? hi] at hm
      obtain ⟨⟨payload, g⟩, hfind, hadmits⟩ := hitems m hm
      cases payload with
      | attr name hasValue v => exact signs_read hfind
      | _ => cases hadmits

end Arena
end WikiPage
