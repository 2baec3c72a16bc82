import WikiPage.Page.Outline
import WikiPage.Proofs.Surroundings

/-!
# Sheets

All that the wikitext and the outline of a page say of one element, without the identifiers of nodes. Two
pages on which every element has the same sheet have the same wikitext and the same outline, whatever
their nodes are called.
-/

namespace WikiPage

/-- The name of the attribute that is stored with a node. -/
def Attribute.owner? (attributes : List Attribute) (n : NodeId) : Option String :=
  (attributes.find? (·.node == some n)).map Attribute.name

/-- An attribute without the node that it is written as. -/
def Attribute.placeless (a : Attribute) : Attribute :=
  { a with node := none }

namespace Sheet

/-- What stands in the list of an element's content: a child, or the text of a node that backs none. -/
inductive Item
  | child (x : ElementId)
  | text (text : Except Arena.Error String)

/-- An attribute in the tag of an element. -/
structure Entry where
  owner : Option String
  hasValue : Bool
  glue : Option Glue
  value : Except Arena.Error String

/-- How an element is printed: without regard to what stands below it, or around its lists. -/
inductive Shell
  | whole (text : Except Arena.Error String)
  | around (slots : List String)

end Sheet

structure Sheet where
  kind : Kind
  isTag : Bool
  label : String
  /-- What a text or a comment says. -/
  saying : Option String
  /-- The stored attributes. -/
  rows : List Attribute
  shell : Sheet.Shell
  /-- The attributes in the tag, also those that are not stored. -/
  entries : List Sheet.Entry
  children : List ElementId
  items : List Sheet.Item

theorem Node.joined_single (part : Except Arena.Error String) : Node.joined [part] = part := by
  cases part with
  | error e => rfl
  | ok text => exact Node.joined_one text

namespace Sheet

variable {texts texts' : ElementId → Except Arena.Error String}

def Entry.print (e : Entry) : Except Arena.Error String :=
  Node.interleave ((e.glue.map Glue.slots).getD []) [e.value]

def Item.print (texts : ElementId → Except Arena.Error String) : Item → Except Arena.Error String
  | child x => texts x
  | text t => t

/-- The text of an element by the texts of its children. -/
def print (s : Sheet) (texts : ElementId → Except Arena.Error String) : Except Arena.Error String :=
  match s.shell with
  | .whole text => text
  | .around slots =>
    let inner := Node.joined (s.items.map (Item.print texts))
    Node.interleave slots
      (if s.isTag then [Node.joined (s.entries.map Entry.print), inner] else [inner])

theorem print_eq_of_whole {s : Sheet} {text : Except Arena.Error String} (hs : s.shell = .whole text) :
    s.print texts = text := by
  rw [Sheet.print, hs]

theorem print_eq_of_around {s : Sheet} {slots : List String} (hs : s.shell = .around slots) :
    s.print texts = Node.interleave slots
      (if s.isTag then [Node.joined (s.entries.map Entry.print),
        Node.joined (s.items.map (Item.print texts))]
      else [Node.joined (s.items.map (Item.print texts))]) := by
  rw [Sheet.print, hs]

theorem print_congr {s : Sheet} (h : ∀ x, .child x ∈ s.items → texts x = texts' x) :
    s.print texts = s.print texts' := by
  have hitems : s.items.map (Item.print texts) = s.items.map (Item.print texts') := by
    refine List.map_congr_left fun item hitem => ?_
    cases item with
    | child x => exact h x hitem
    | text _ => rfl
  unfold Sheet.print
  rw [hitems]

def detail (s : Sheet) : String :=
  if s.kind = .text ∨ s.kind = .comment then
    match s.saying with
    | some t => " " ++ Text.quoted t
    | none => ""
  else String.join (s.rows.map Attribute.outline)

def line (s : Sheet) (depth : Nat) : String :=
  indent depth ++ s.label ++ s.detail ++ (if s.isTag then " (xml)" else "") ++ "\n"

end Sheet

/-- An attribute node as an entry. -/
def Arena.entry? (a : Arena) (attributes : List Attribute) (n : NodeId) : Option Sheet.Entry :=
  match a.find? n with
  | some ⟨.attr _ hasValue value, g⟩ =>
    some ⟨Attribute.owner? attributes n, hasValue, g, a.print value⟩
  | _ => none

theorem Arena.owner_of_entry? {a : Arena} {attributes : List Attribute} {n : NodeId} {e : Sheet.Entry}
    (h : a.entry? attributes n = some e) : e.owner = Attribute.owner? attributes n := by
  unfold Arena.entry? at h
  split at h
  · obtain rfl := Option.some.inj h
    rfl
  · cases h

namespace Page

/-- The nodes in the list of an element's content. The page has no list of its own but refers to that
of its body. -/
def itemsOf (p : Page) (x : ElementId) : List NodeId :=
  if x = root then p.arena.kids Arena.root else ((p.container? x).map p.arena.kids).getD []

/-- What a node in the list of an element's content stands for. -/
def item (p : Page) (x : ElementId) (n : NodeId) : Sheet.Item :=
  match (p.childrenOf x).find? (p.backing? · == some n) with
  | some y => .child y
  | none => .text (p.arena.print n)

def shell (p : Page) (x : ElementId) : Sheet.Shell :=
  match p.backing? x with
  | none => .whole (.ok "")
  | some n =>
    if x ≠ root ∧ p.container? x = none then .whole (p.arena.print n)
    else .around (((p.arena.find? n).bind Node.frame?).getD [])

def entries (p : Page) (x : ElementId) (attributes : List Attribute) : List Sheet.Entry :=
  ((p.attributeList? x).map p.arena.kids).getD [] |>.filterMap (p.arena.entry? attributes)

def label (p : Page) (x : ElementId) (k : Kind) : String :=
  match p.name x with
  | .ok name => name
  | .error _ => k.name

def saying (p : Page) (x : ElementId) (k : Kind) : Option String :=
  if k = .text ∨ k = .comment then (p.text x).toOption else none

def sheetOf (p : Page) (x : ElementId) (e : Element) : Sheet where
  kind := e.kind
  isTag := e.backing.any Backing.isTag
  label := p.label x e.kind
  saying := p.saying x e.kind
  rows := e.attributes.map Attribute.placeless
  shell := p.shell x
  entries := p.entries x e.attributes
  children := e.children
  items := (p.itemsOf x).map (p.item x)

def sheet? (p : Page) (x : ElementId) : Option Sheet :=
  (p.find? x).map (p.sheetOf x)

variable {p q : Page} {source : String} {x y : ElementId} {s : Sheet} {n c : NodeId}

/-- The text that an element is printed as. A category has none of its own. -/
def printOf (p : Page) (x : ElementId) : Except Arena.Error String :=
  match p.backing? x with
  | some n => p.arena.print n
  | none => .ok ""

theorem printOf_eq (hn : p.backing? x = some n) : p.printOf x = p.arena.print n := by
  rw [printOf, hn]

theorem item_eq_child_iff (h : p.Synced) :
    p.item x n = .child y ↔ y ∈ p.childrenOf x ∧ p.backing? y = some n := by
  unfold item
  split
  case h_1 z hz =>
    have hmem := List.mem_of_find?_eq_some hz
    have hback : p.backing? z = some n := by simpa using List.find?_some hz
    constructor
    · rintro ⟨⟩
      exact ⟨hmem, hback⟩
    · rintro ⟨-, hy⟩
      rw [h.backing_inj hy hback]
  case h_2 hnone =>
    constructor
    · rintro ⟨⟩
    · rintro ⟨hmem, hback⟩
      exact absurd hback (by simpa using List.find?_eq_none.1 hnone y hmem)

theorem item_eq_text (hb : ∀ y ∈ p.childrenOf x, p.backing? y ≠ some n) :
    p.item x n = .text (p.arena.print n) := by
  have hnone : (p.childrenOf x).find? (p.backing? · == some n) = none :=
    List.find?_eq_none.2 fun y hy => by simpa using hb y hy
  rw [item, hnone]

theorem print_item (h : p.Synced) (x : ElementId) (n : NodeId) :
    (p.item x n).print p.printOf = p.arena.print n := by
  cases hi : p.item x n with
  | child y => exact printOf_eq ((item_eq_child_iff h).1 hi).2
  | text t =>
    unfold item at hi
    split at hi
    · cases hi
    · cases hi
      rfl

theorem root_container_ne (h : p.Synced) (hc : p.container? x = some c) : x ≠ root := by
  rintro rfl
  cases h.root_container.symm.trans hc

theorem joined_items (h : p.Synced) (e : Element)
    (hc : x = root ∧ c = p.arena.content ∨ p.container? x = some c) :
    Node.joined ((p.sheetOf x e).items.map (Sheet.Item.print p.printOf)) = p.arena.print c := by
  have hprint : Sheet.Item.print p.printOf ∘ p.item x = p.arena.print := funext (print_item h x)
  rw [sheetOf, List.map_map, hprint, itemsOf]
  rcases hc with ⟨rfl, rfl⟩ | hc
  · obtain ⟨g, hg⟩ := h.find?_page
    rw [if_pos rfl, Arena.kids_of_find? hg]
    exact Node.joined_single _
  · obtain ⟨items, hitems⟩ := h.find?_container hc
    rw [if_neg (root_container_ne h hc), hc, h.sound.founded.print_list hitems, Option.map_some,
      Option.getD_some, Arena.kids_of_find? hitems]
    rfl

theorem exists_entry? [Entities] (h : p.Synced) (hw : p.arena.Worded source) {l : NodeId}
    (hl : p.attributeList? x = some l) (hn : n ∈ p.arena.kids l) (attributes : List Attribute) :
    ∃ e, p.arena.entry? attributes n = some e ∧ e.print = p.arena.print n := by
  obtain ⟨k, tag, m, -, hm, hslot⟩ := exists_of_attributeList? hl
  obtain ⟨items, hi, hattr⟩ := (h.sound.fits hm).lists _ hslot
  rw [Arena.kids_of_find? hi] at hn
  obtain ⟨⟨payload, g⟩, ha, hadmits⟩ := hattr n hn
  cases payload with
  | attr name hasValue value =>
    obtain ⟨-, opening, closing, rfl, -⟩ := (hw n _ ha).1
    refine ⟨⟨_, _, _, _⟩, by rw [Arena.entry?, ha], ?_⟩
    rw [h.sound.founded.print_eq_of_frame? ha rfl]
    rfl
  | _ => cases hadmits

theorem joined_entries [Entities] (h : p.Synced) (hw : p.arena.Worded source) {l : NodeId}
    (hl : p.attributeList? x = some l) (attributes : List Attribute) :
    Node.joined ((p.entries x attributes).map Sheet.Entry.print) = p.arena.print l := by
  obtain ⟨k, tag, m, -, hm, hslot⟩ := exists_of_attributeList? hl
  obtain ⟨items, hi⟩ := h.sound.find?_slot hm hslot
  have hentries {ns : List NodeId} (hns : ns ⊆ p.arena.kids l) :
      (ns.filterMap (p.arena.entry? attributes)).map Sheet.Entry.print = ns.map p.arena.print := by
    induction ns with
    | nil => rfl
    | cons n ns ih =>
      obtain ⟨hn, hns⟩ := List.cons_subset.1 hns
      obtain ⟨e, he, hprint⟩ := exists_entry? h hw hl hn attributes
      rw [List.filterMap_cons_some he, List.map_cons, List.map_cons, hprint, ih hns]
  rw [entries, hl, Option.map_some, Option.getD_some, hentries (List.Subset.refl _),
    h.sound.founded.print_list hi, Arena.kids_of_find? hi]
  rfl

theorem shell_eq_around {m : Node} {slots : List String} (hn : p.backing? x = some n)
    (hx : x = root ∨ p.container? x ≠ none) (hm : p.arena.find? n = some m)
    (hs : m.frame? = some slots) : p.shell x = .around slots := by
  have hframe : ((p.arena.find? n).bind Node.frame?).getD [] = slots := by simp [hm, hs]
  rw [shell, hn]
  refine (if_neg ?_).trans (congrArg _ hframe)
  rintro ⟨hne, hnone⟩
  exact hx.elim hne fun hc => hc hnone

theorem exists_around [Entities] (h : p.Synced) (hw : p.arena.Worded source) {e : Element}
    (he : p.find? x = some e) {b : Backing} (hb : e.backing = some b) (hc : p.container? x = some c) :
    ∃ m slots, p.arena.find? b.node = some m ∧ m.frame? = some slots ∧
      p.arena.print b.node = Node.interleave slots
        (if b.isTag then [Node.joined ((p.entries x e.attributes).map Sheet.Entry.print), p.arena.print c]
        else [p.arena.print c]) := by
  have hf := h.sound.founded
  have hform : p.form? x = some (e.kind, some b) := hb ▸ form?_of_find? he
  have hcontainer := (container?_of_form? hform).symm.trans hc
  have framed {n : NodeId} {m : Node} (hm : p.arena.find? n = some m) (hkids : m.payload.children ≠ []) :
      ∃ slots, m.frame? = some slots := by
    cases hs : m.frame? with
    | some slots => exact ⟨slots, rfl⟩
    | none => exact absurd ((hw n m hm).1.plain_of_frame? hs).2.1 hkids
  cases b with
  | tag n =>
    obtain ⟨⟨payload, g⟩, hm, hbody⟩ := Option.bind_eq_some_iff.1 hcontainer
    cases payload with
    | element name empty attributes body =>
      obtain rfl := Option.some.inj hbody
      have hl : p.attributeList? x = some attributes := by
        rw [attributeList?_of_form? hform, Arena.attributeList?, hm]
        rfl
      obtain ⟨slots, hslots⟩ := framed hm (List.cons_ne_nil _ _)
      refine ⟨_, slots, hm, hslots, ?_⟩
      rw [Backing.node, hf.print_eq_of_frame? hm hslots, joined_entries h hw hl]
      rfl
    | _ => cases hbody
  | markup n =>
    rw [Arena.container?] at hcontainer
    split at hcontainer
    case isTrue hk =>
      obtain rfl := Option.some.inj hcontainer
      obtain ⟨items, hitems⟩ := h.find?_container hc
      refine ⟨_, [], hitems, rfl, ?_⟩
      rw [Node.interleave_nil]
      exact (Node.joined_single _).symm
    case isFalse hk =>
      obtain ⟨m, hm, hcontent⟩ := Option.bind_eq_some_iff.1 hcontainer
      have hchildren : m.payload.children = [c] := by
        cases hp : m.payload <;> rw [hp] at hcontent <;> cases hcontent <;> rfl
      obtain ⟨slots, hslots⟩ := framed hm (hchildren ▸ List.cons_ne_nil _ _)
      refine ⟨m, slots, hm, hslots, ?_⟩
      rw [Backing.node, hf.print_eq_of_frame? hm hslots, hchildren]
      rfl

/-- The text of an element by those of its children. -/
theorem printOf_eq_print [Entities] (h : p.Synced) (hw : p.arena.Worded source) (hs : p.sheet? x = some s) :
    p.printOf x = s.print p.printOf := by
  have hf := h.sound.founded
  obtain ⟨e, he, rfl⟩ := Option.map_eq_some_iff.1 hs
  have hform := form?_of_find? he
  cases hb : e.backing with
  | none =>
    have hback : p.backing? x = none := by rw [backing?_of_form? hform, hb]; rfl
    have hshell : (p.sheetOf x e).shell = .whole (.ok "") := by rw [sheetOf, shell, hback]
    rw [printOf, hback, Sheet.print_eq_of_whole hshell]
  | some b =>
    rw [hb] at hform
    have hback : p.backing? x = some b.node := backing?_of_form? hform
    rw [printOf_eq hback]
    by_cases hroot : x = root
    · subst hroot
      obtain ⟨-, ⟨⟩⟩ := Prod.mk.inj (Option.some.inj (hform.symm.trans h.root_form))
      obtain ⟨g, hg⟩ := h.find?_page
      obtain ⟨slots, hslots⟩ : ∃ slots, Node.frame? ⟨.page p.arena.content, g⟩ = some slots := by
        cases g <;> exact ⟨_, rfl⟩
      rw [Sheet.print_eq_of_around (shell_eq_around hback (.inl rfl) hg hslots),
        joined_items h e (.inl ⟨rfl, rfl⟩)]
      rw [Backing.node, hf.print_eq_of_frame? hg hslots, sheetOf, hb]
      rfl
    · cases hc : p.container? x with
      | none =>
        have hshell : (p.sheetOf x e).shell = .whole (p.arena.print b.node) := by
          rw [sheetOf, shell, hback]
          exact if_pos ⟨hroot, hc⟩
        rw [Sheet.print_eq_of_whole hshell]
      | some c =>
        have hne : p.container? x ≠ none := by simp [hc]
        obtain ⟨m, slots, hm, hslots, hprint⟩ := exists_around h hw he hb hc
        rw [hprint, Sheet.print_eq_of_around (shell_eq_around hback (.inr hne) hm hslots),
          joined_items h e (.inr hc), sheetOf, hb]
        rfl

theorem find?_eq_none_of_sheet? (h : p.sheet? x = none) : p.find? x = none :=
  Option.map_eq_none_iff.1 h

theorem printOf_of_sheet?_eq_none (h : p.sheet? x = none) : p.printOf x = .ok "" := by
  rw [printOf, backing?, form?, find?_eq_none_of_sheet? h]
  rfl

/-- Pages have the same texts when their elements have the same sheets. The induction is on the elements
below, for an element is printed with the texts of its children. -/
theorem printOf_congr [Entities] {source' : String} (hp : p.Synced) (hwp : p.arena.Worded source) (hq : q.Synced)
    (hwq : q.arena.Worded source') (h : p.sheet? = q.sheet?) (x : ElementId) :
    p.printOf x = q.printOf x := by
  induction x using hp.forest.wellFounded.induction with
  | _ x ih =>
    cases hs : p.sheet? x with
    | none => rw [printOf_of_sheet?_eq_none hs, printOf_of_sheet?_eq_none (h ▸ hs)]
    | some s =>
      rw [printOf_eq_print hp hwp hs, printOf_eq_print hq hwq (h ▸ hs)]
      refine Sheet.print_congr fun y hy => ih y ?_
      obtain ⟨e, -, rfl⟩ := Option.map_eq_some_iff.1 hs
      obtain ⟨n, -, hn⟩ := List.mem_map.1 hy
      exact ((item_eq_child_iff hp).1 hn).1

theorem source_eq_printOf (h : p.Synced) : p.source = PageError.ofArena (p.printOf root) := by
  rw [printOf_eq h.root_backing]
  rfl

theorem line_eq (p : Page) (depth : Nat) (x : ElementId) (e : Element) :
    p.line depth x e = (p.sheetOf x e).line depth := by
  have hdetail : p.detail x e = (p.sheetOf x e).detail := by
    rw [Page.detail, Sheet.detail]
    by_cases hk : e.kind = .text ∨ e.kind = .comment
    · rw [if_pos hk, if_pos (show (p.sheetOf x e).kind = .text ∨ (p.sheetOf x e).kind = .comment from hk)]
      simp only [sheetOf, saying, if_pos hk]
      cases p.text x <;> rfl
    · rw [if_neg hk, if_neg (show ¬((p.sheetOf x e).kind = .text ∨ (p.sheetOf x e).kind = .comment) from hk)]
      simp only [sheetOf, List.map_map]
      rfl
  rw [Page.line, Sheet.line, hdetail]
  rfl

theorem label_eq_name {e : Element} (he : p.find? x = some e) (hk : e.kind ≠ .preserved) :
    p.label x e.kind = e.kind.name := by
  have hname : p.name x = .ok e.kind.name := by
    simp [name, kind, get_eq_ok_iff.2 he, hk, Except.map, bind, Except.bind]
  rw [label, hname]

theorem tree_eq (h : p.Synced) {e : Element} (he : p.find? x = some e) :
    p.tree x = .node x e (e.children.map p.tree) := by
  have known (y : ElementId) (d : Element) (hy : p.find? y = some d) :
      y ∈ (List.range p.size).map ElementId.mk := by
    obtain ⟨hlt, -⟩ := Array.getElem?_eq_some_iff.1 hy
    exact List.mem_map.2 ⟨y.index, List.mem_range.2 hlt, rfl⟩
  have hg := Tree.grow_eq_node (fun _ _ hy => h.forest.not_reaches hy) known he
  rwa [List.length_map, List.length_range] at hg

theorem tree_eq_missing (he : p.find? x = none) : p.tree x = .missing x :=
  Tree.grow_of_missing he p.size

theorem outlineTree_congr (hp : p.Synced) (hq : q.Synced) (h : p.sheet? = q.sheet?) (x : ElementId) :
    ∀ depth, outlineTree p depth (p.tree x) = outlineTree q depth (q.tree x) := by
  induction x using hp.forest.wellFounded.induction with
  | _ x ih =>
    intro depth
    have hx := congrFun h x
    cases he : p.find? x with
    | none =>
      rw [sheet?, he] at hx
      rw [tree_eq_missing he, tree_eq_missing (find?_eq_none_of_sheet? hx.symm), outlineTree, outlineTree]
    | some e =>
      rw [sheet?, he] at hx
      obtain ⟨d, hd, hs⟩ := Option.map_eq_some_iff.1 hx.symm
      have hchildren : d.children = e.children := congrArg Sheet.children hs
      have hbelow {l : List ElementId} (hl : l ⊆ p.childrenOf x) (depth : Nat) :
          outlineTrees p depth (l.map p.tree) = outlineTrees q depth (l.map q.tree) := by
        induction l with
        | nil => rfl
        | cons y l ihl =>
          obtain ⟨hy, hl⟩ := List.cons_subset.1 hl
          rw [List.map_cons, List.map_cons, outlineTrees, outlineTrees, ih y hy, ihl hl]
      rw [tree_eq hp he, tree_eq hq hd, outlineTree, outlineTree, line_eq, line_eq, hs, hchildren,
        hbelow (childrenOf_of_find? he ▸ List.Subset.refl _)]

/-- Pages with the same sheets have the same wikitext and the same outline. -/
theorem texts_congr [Entities] {source' : String} (hp : p.Synced) (hwp : p.arena.Worded source) (hq : q.Synced)
    (hwq : q.arena.Worded source') (h : p.sheet? = q.sheet?) :
    p.source = q.source ∧ p.outline = q.outline :=
  ⟨by rw [source_eq_printOf hp, source_eq_printOf hq, printOf_congr hp hwp hq hwq h],
    outlineTree_congr hp hq h root 0⟩

end Page
end WikiPage
