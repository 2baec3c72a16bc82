import WikiPage.Page.Edit
import WikiPage.Proofs.Ends
import WikiPage.Proofs.Sound

/-!
# The table of elements

What the table says of an element, as functions of the page: its kind and backing, the node and the
list that follow from them, its children and its parent. Each change of an element leaves most of these
as they are.
-/

namespace WikiPage

/-- Whether an element of a kind can be written in markup of its own as such a node. -/
def Kind.marks : Kind → Payload → Bool
  | .page, .page _ => true
  | .body, .list _ => true
  | .paragraph, .paragraph _ => true
  | .bold, .emphasis .bold _ => true
  | .italics, .emphasis .italics _ => true
  | .rule, .rule => true
  | .link, .link _ _ => true
  | .text, .text _ => true
  | .text, .newline _ => true
  | .text, .reference _ => true
  | .comment, .comment _ => true
  | _, _ => false

/-- Whether an element of a kind can be written as such a tag. -/
def Kind.tags (k : Kind) : Payload → Bool
  | .element _ _ _ _ => k.tag?.isSome || k == .preserved
  | _ => false

namespace Kind

theorem marks_bare (k : Kind) (p : Payload) : k.marks p.bare = k.marks p := by
  cases k <;> cases p <;> rfl

theorem tags_bare (k : Kind) (p : Payload) : k.tags p.bare = k.tags p := by
  cases p <;> rfl

theorem eq_body_of_marks_list {k : Kind} {p : Payload} (hp : p.isList = true)
    (h : k.marks p = true) : k = .body := by
  cases p <;> cases hp
  cases k <;> first | rfl | cases h

theorem marks_list {p : Payload} (hp : p.isList = true) : Kind.body.marks p = true := by
  cases p <;> first | rfl | cases hp

end Kind

namespace Page

theorem contentOf?_bare (p : Payload) : contentOf? p.bare = contentOf? p := by
  cases p <;> rfl

theorem bodyOf?_bare (p : Payload) : bodyOf? p.bare = bodyOf? p := by
  cases p <;> rfl

/-- The list of the attributes of a tag. -/
def attributesOf? : Payload → Option NodeId
  | .element _ _ attributes _ => some attributes
  | _ => none

theorem attributesOf?_bare (p : Payload) : attributesOf? p.bare = attributesOf? p := by
  cases p <;> rfl

theorem bodyOf?_list {p : Payload} (h : p.isList = true) : bodyOf? p = none := by
  cases p <;> first | rfl | cases h

theorem attributesOf?_list {p : Payload} (h : p.isList = true) : attributesOf? p = none := by
  cases p <;> first | rfl | cases h

theorem mem_slots_of_contentOf? {p : Payload} {c : NodeId} (h : contentOf? p = some c) :
    (c, Role.content) ∈ p.slots := by
  cases p <;> cases h <;> exact List.mem_singleton_self _

theorem mem_slots_of_bodyOf? {p : Payload} {c : NodeId} (h : bodyOf? p = some c) :
    (c, Role.content) ∈ p.slots := by
  cases p <;> cases h
  exact List.mem_cons_of_mem _ (List.mem_singleton_self _)

theorem mem_slots_of_attributesOf? {p : Payload} {c : NodeId} (h : attributesOf? p = some c) :
    (c, Role.attributes) ∈ p.slots := by
  cases p <;> cases h
  exact List.mem_cons_self ..

end Page

namespace Arena

/-- Whether elements of a kind can be backed like this. -/
def Writes (a : Arena) (k : Kind) : Option Backing → Prop
  | none => k = .category
  | some (.markup node) => ∃ n, a.find? node = some n ∧ k.marks n.payload = true
  | some (.tag node) => ∃ n, a.find? node = some n ∧ k.tags n.payload = true

/-- The list of the nodes of an element's children. -/
def container? (a : Arena) (k : Kind) : Option Backing → Option NodeId
  | none => none
  | some (.markup node) =>
    if k = .body then some node else (a.find? node).bind (Page.contentOf? ·.payload)
  | some (.tag node) => (a.find? node).bind (Page.bodyOf? ·.payload)

/-- The list of the attributes of an element that is written as a tag. -/
def attributeList? (a : Arena) : Option Backing → Option NodeId
  | some (.tag node) => (a.find? node).bind (Page.attributesOf? ·.payload)
  | _ => none

variable {a b : Arena} {k : Kind} {o : Option Backing}

theorem Evolves.writes (h : a.Evolves b) (hw : a.Writes k o) : b.Writes k o := by
  match o with
  | none => exact hw
  | some (.markup node) =>
    obtain ⟨n, hn, hk⟩ := hw
    obtain ⟨m, hm, hb | ⟨hl, hl'⟩⟩ := h.find? hn
    · exact ⟨m, hm, by rw [← Kind.marks_bare, hb, Kind.marks_bare, hk]⟩
    · obtain rfl := Kind.eq_body_of_marks_list hl hk
      exact ⟨m, hm, Kind.marks_list hl'⟩
  | some (.tag node) =>
    obtain ⟨n, hn, hk⟩ := hw
    obtain ⟨m, hm, hb | ⟨hl, hl'⟩⟩ := h.find? hn
    · exact ⟨m, hm, by rw [← Kind.tags_bare, hb, Kind.tags_bare, hk]⟩
    · cases hp : n.payload <;> simp_all [Payload.isList, Kind.tags]

theorem Evolves.container?_eq (h : a.Evolves b) (hw : a.Writes k o) :
    b.container? k o = a.container? k o := by
  match o with
  | none => rfl
  | some (.markup node) =>
    obtain ⟨n, hn, hk⟩ := hw
    obtain ⟨m, hm, hb | ⟨hl, hl'⟩⟩ := h.find? hn
    · simp only [container?, hn, hm, Option.bind_some]
      rw [← Page.contentOf?_bare, hb, Page.contentOf?_bare]
    · obtain rfl := Kind.eq_body_of_marks_list hl hk
      rfl
  | some (.tag node) =>
    obtain ⟨n, hn, hk⟩ := hw
    obtain ⟨m, hm, hb | ⟨hl, hl'⟩⟩ := h.find? hn
    · simp only [container?, hn, hm, Option.bind_some]
      rw [← Page.bodyOf?_bare, hb, Page.bodyOf?_bare]
    · simp only [container?, hn, hm, Option.bind_some, Page.bodyOf?_list hl, Page.bodyOf?_list hl']

theorem Evolves.attributeList?_eq (h : a.Evolves b) (hw : a.Writes k o) :
    b.attributeList? o = a.attributeList? o := by
  match o with
  | none => rfl
  | some (.markup node) => rfl
  | some (.tag node) =>
    obtain ⟨n, hn, hk⟩ := hw
    obtain ⟨m, hm, hb | ⟨hl, hl'⟩⟩ := h.find? hn
    · simp only [attributeList?, hn, hm, Option.bind_some]
      rw [← Page.attributesOf?_bare, hb, Page.attributesOf?_bare]
    · simp only [attributeList?, hn, hm, Option.bind_some, Page.attributesOf?_list hl,
        Page.attributesOf?_list hl']

theorem content_eq {c : NodeId} {g : Option Glue} (h : a.find? root = some ⟨.page c, g⟩) :
    a.content = c := by
  simp [content, h]

theorem Sound.find?_page (h : a.Sound) : ∃ g, a.find? root = some ⟨.page a.content, g⟩ := by
  obtain ⟨c, g, hp⟩ := h.page
  exact ⟨g, content_eq hp ▸ hp⟩

theorem Sound.content_mem (h : a.Sound) : a.content ∈ a.kids root := by
  obtain ⟨g, hp⟩ := h.find?_page
  rw [kids_of_find? hp]
  exact List.mem_singleton_self _

theorem Evolves.content_eq (h : a.Evolves b) (ha : a.Sound) : b.content = a.content := by
  obtain ⟨c, g, hp⟩ := ha.page
  obtain ⟨m, hm, hb | ⟨hl, -⟩⟩ := h.find? hp
  · have hm' : m = ⟨.page c, m.glue⟩ := by rw [← Payload.eq_page_of_bare hb]
    rw [hm'] at hm
    rw [Arena.content_eq hp, Arena.content_eq hm]
  · cases hl

end Arena

namespace Page

/-- The kind and the backing of an element. -/
def form? (p : Page) (x : ElementId) : Option (Kind × Option Backing) :=
  (p.find? x).map fun e => (e.kind, e.backing)

/-- The node of an element other than a category. -/
def backing? (p : Page) (x : ElementId) : Option NodeId :=
  (p.form? x).bind fun f => f.2.map Backing.node

def container? (p : Page) (x : ElementId) : Option NodeId :=
  (p.form? x).bind fun f => p.arena.container? f.1 f.2

def attributeList? (p : Page) (x : ElementId) : Option NodeId :=
  (p.form? x).bind fun f => p.arena.attributeList? f.2

/-- The nodes of the attributes that are written into the tag of an element. -/
def writtenOf (p : Page) (x : ElementId) : List NodeId :=
  ((p.find? x).map fun e => e.attributes.filterMap Attribute.node).getD []

def childrenOf (p : Page) : ElementId → List ElementId :=
  Tree.kids p.find? Element.children

def parentOf (p : Page) (x : ElementId) : Option ElementId :=
  (p.find? x).bind Element.parent

/-- A node that is recorded as a link of a category. -/
def Linked (p : Page) (n : NodeId) : Prop :=
  ∃ x e, p.find? x = some e ∧ n ∈ e.links.map PlacedLink.link

theorem backing?_of_form? {p : Page} {x : ElementId} {k : Kind} {o : Option Backing}
    (h : p.form? x = some (k, o)) : p.backing? x = o.map Backing.node := by
  simp [backing?, h]

theorem container?_of_form? {p : Page} {x : ElementId} {k : Kind} {o : Option Backing}
    (h : p.form? x = some (k, o)) : p.container? x = p.arena.container? k o := by
  simp [container?, h]

theorem attributeList?_of_form? {p : Page} {x : ElementId} {k : Kind} {o : Option Backing}
    (h : p.form? x = some (k, o)) : p.attributeList? x = p.arena.attributeList? o := by
  simp [attributeList?, h]

theorem writtenOf_of_find? {p : Page} {x : ElementId} {e : Element} (h : p.find? x = some e) :
    p.writtenOf x = e.attributes.filterMap Attribute.node := by
  simp [writtenOf, h]

section

variable {p : Page} {x y : ElementId} {n c : NodeId}

theorem exists_of_attributeList? (hc : p.attributeList? x = some c) :
    ∃ k tag m, p.form? x = some (k, some (.tag tag)) ∧ p.arena.find? tag = some m ∧
      (c, Role.attributes) ∈ m.payload.slots := by
  obtain ⟨⟨k, o⟩, hf, hc⟩ := Option.bind_eq_some_iff.1 hc
  cases o with
  | none => cases hc
  | some b =>
    cases b with
    | markup node => cases hc
    | tag node =>
      obtain ⟨m, hm, hc⟩ := Option.bind_eq_some_iff.1 hc
      exact ⟨k, node, m, hf, hm, mem_slots_of_attributesOf? hc⟩

theorem exists_of_backing? (hn : p.backing? x = some n) :
    ∃ k b, p.form? x = some (k, some b) ∧ b.node = n := by
  unfold backing? at hn
  cases hf : p.form? x with
  | none => simp [hf] at hn
  | some f =>
    obtain ⟨k, _ | b⟩ := f
    · simp [hf] at hn
    · exact ⟨k, b, rfl, by simpa [hf] using hn⟩

theorem exists_of_container? (hc : p.container? x = some c) :
    ∃ k b, p.form? x = some (k, some b) ∧ p.arena.container? k (some b) = some c := by
  unfold container? at hc
  cases hf : p.form? x with
  | none => simp [hf] at hc
  | some f =>
    obtain ⟨k, _ | b⟩ := f
    · simp [hf, Arena.container?] at hc
    · exact ⟨k, b, rfl, by simpa [hf] using hc⟩

theorem find?_of_form? {f : Kind × Option Backing} (h : p.form? x = some f) :
    ∃ e, p.find? x = some e ∧ e.kind = f.1 ∧ e.backing = f.2 := by
  unfold form? at h
  cases he : p.find? x with
  | none => simp [he] at h
  | some e =>
    obtain rfl : (e.kind, e.backing) = f := by simpa [he] using h
    exact ⟨e, rfl, rfl, rfl⟩

theorem form?_of_find? {e : Element} (h : p.find? x = some e) :
    p.form? x = some (e.kind, e.backing) := by
  rw [form?, h]
  rfl

theorem childrenOf_of_find? {e : Element} (h : p.find? x = some e) :
    p.childrenOf x = e.children :=
  Tree.kids_of_find? h

theorem parentOf_of_find? {e : Element} (h : p.find? x = some e) : p.parentOf x = e.parent := by
  rw [parentOf, h]
  rfl

theorem find?_of_parent {o : Option ElementId} (h : p.parent x = .ok o) :
    ∃ e, p.find? x = some e ∧ e.parent = o := by
  obtain ⟨e, he, ho⟩ := Except.exists_of_map h
  exact ⟨e, get_eq_ok_iff.1 he, ho⟩

theorem find?_of_children {l : List ElementId} (h : p.children x = .ok l) :
    ∃ e, p.find? x = some e ∧ e.children = l := by
  obtain ⟨e, he, ho⟩ := Except.exists_of_map h
  exact ⟨e, get_eq_ok_iff.1 he, ho⟩

theorem find?_of_kind {k : Kind} (h : p.kind x = .ok k) :
    ∃ e, p.find? x = some e ∧ e.kind = k := by
  obtain ⟨e, he, ho⟩ := Except.exists_of_map h
  exact ⟨e, get_eq_ok_iff.1 he, ho⟩

theorem find?_of_payload {q : Payload} (h : p.payload n = .ok q) :
    ∃ g, p.arena.find? n = some ⟨q, g⟩ := by
  have hp : p.arena.payload n = .ok q := PageError.eq_ok_of_ofArena h
  obtain ⟨m, hm, rfl⟩ := Except.exists_of_map hp
  unfold Arena.get at hm
  cases hf : p.arena.find? n with
  | none => simp [hf] at hm
  | some m' =>
    obtain rfl : m' = m := by simpa [hf] using hm
    exact ⟨m'.glue, rfl⟩

theorem backing?_of_backingNode (h : p.backingNode x = .ok n) : p.backing? x = some n := by
  obtain ⟨e, he, hb⟩ := Except.exists_of_bind h
  rw [backing?_of_form? (form?_of_find? (get_eq_ok_iff.1 he))]
  cases hbk : e.backing with
  | none => simp [hbk] at hb
  | some b => simpa [hbk] using hb

theorem container?_of_childContainer? {e : Element} {o : Option NodeId} (he : p.find? x = some e)
    (h : p.childContainer? e = .ok o) : p.container? x = o := by
  rw [container?_of_form? (form?_of_find? he)]
  match hb : e.backing with
  | none => simpa [childContainer?, hb, Arena.container?] using h
  | some (.tag node) =>
    rw [childContainer?, hb] at h
    obtain ⟨q, hq, rfl⟩ := Except.exists_of_map h
    obtain ⟨g, hg⟩ := find?_of_payload hq
    simp [Arena.container?, hg]
  | some (.markup node) =>
    rw [childContainer?, hb] at h
    by_cases hk : e.kind = .body
    · simpa [hk, Arena.container?] using h
    · simp only [hk, if_false] at h
      obtain ⟨q, hq, rfl⟩ := Except.exists_of_map h
      obtain ⟨g, hg⟩ := find?_of_payload hq
      simp [Arena.container?, hg, hk]

theorem container?_of_childContainer (h : p.childContainer x = .ok c) : p.container? x = some c := by
  obtain ⟨e, he, h⟩ := Except.exists_of_bind h
  obtain ⟨o, ho, h⟩ := Except.exists_of_bind h
  rw [container?_of_childContainer? (get_eq_ok_iff.1 he) ho]
  cases o with
  | none => cases h
  | some c' => exact congrArg _ (Except.ok.inj h)

theorem payload_of_find? {m : Node} (h : p.arena.find? n = some m) :
    p.payload n = .ok m.payload := by
  simp [payload, Arena.payload, Arena.get, h, PageError.ofArena, Except.map]

theorem childContainer_of_container? (h : p.container? x = some c) : p.childContainer x = .ok c := by
  obtain ⟨k, b, hf, hc⟩ := exists_of_container? h
  obtain ⟨e, he, rfl, hb⟩ := find?_of_form? hf
  have hq : p.childContainer? e = .ok (some c) := by
    rw [childContainer?, hb]
    match b, hc with
    | .tag node, hc =>
      obtain ⟨m, hm, hc⟩ := Option.bind_eq_some_iff.1 hc
      simp [payload_of_find? hm, Except.map, hc]
    | .markup node, hc =>
      by_cases hk : e.kind = .body
      · simpa [hk, Arena.container?] using hc
      · rw [Arena.container?, if_neg hk] at hc
        obtain ⟨m, hm, hc⟩ := Option.bind_eq_some_iff.1 hc
        simp [hk, payload_of_find? hm, Except.map, hc]
  simp [childContainer, get_eq_ok_iff.2 he, hq, bind, Except.bind]

theorem parentOf_of_place? {o : Option NodeId} (h : p.place? x = .ok o) :
    p.parentOf x = none ∧ o = none ∨
      ∃ y c, p.parentOf x = some y ∧ p.container? y = some c ∧ o = some c := by
  obtain ⟨up, hup, h⟩ := Except.exists_of_bind h
  obtain ⟨e, he, rfl⟩ := find?_of_parent hup
  rw [parentOf_of_find? he]
  cases hp : e.parent with
  | none =>
    rw [hp] at h
    exact .inl ⟨rfl, (Except.ok.inj h).symm⟩
  | some y =>
    rw [hp] at h
    obtain ⟨c, hc, rfl⟩ := Except.exists_of_map h
    exact .inr ⟨y, c, rfl, container?_of_childContainer hc, rfl⟩

theorem find?_of_attributeList (h : p.attributeList x = .ok c) :
    ∃ k tag name empty body g, p.form? x = some (k, some (.tag tag)) ∧
      p.arena.find? tag = some ⟨.element name empty c body, g⟩ := by
  obtain ⟨tag, ht, h⟩ := Except.exists_of_bind h
  obtain ⟨q, hq, h⟩ := Except.exists_of_bind h
  obtain ⟨e, he, ht⟩ := Except.exists_of_bind ht
  obtain ⟨g, hg⟩ := find?_of_payload hq
  have hf := form?_of_find? (get_eq_ok_iff.1 he)
  cases hb : e.backing with
  | none => simp [hb] at ht
  | some b =>
    cases b with
    | markup node => simp [hb] at ht
    | tag node =>
      obtain rfl : node = tag := by simpa [hb] using ht
      cases q with
      | element name empty attributes body =>
        obtain rfl : attributes = c := Except.ok.inj h
        exact ⟨e.kind, node, name, empty, body, g, by rw [hf, hb], hg⟩
      | _ => cases h

theorem attributeList_of_attributeList? (h : p.attributeList? x = some c) :
    p.attributeList x = .ok c := by
  obtain ⟨⟨k, o⟩, hf, hc⟩ := Option.bind_eq_some_iff.1 h
  obtain ⟨e, he, -, hb⟩ := find?_of_form? hf
  cases o with
  | none => cases hc
  | some b =>
    cases b with
    | markup node => cases hc
    | tag node =>
      obtain ⟨⟨q, g⟩, hm, hc⟩ := Option.bind_eq_some_iff.1 hc
      cases q with
      | element name empty attributes body =>
        obtain rfl := Option.some.inj hc
        have ht : p.tagNode x = .ok node := by
          simp [tagNode, get_eq_ok_iff.2 he, hb, bind, Except.bind]
        simp [attributeList, ht, payload_of_find? hm, bind, Except.bind]
      | _ => cases hc

end

theorem find?_next (p : Page) : p.find? p.next = none := by
  simp [find?, next]

theorem update_congr {p : Page} {id : ElementId} {e : Element} {f g : Element → Element}
    (he : p.find? id = some e) (h : f e = g e) : p.update id f = p.update id g := by
  have hm : p.elements.modify id.index f = p.elements.modify id.index g := by
    refine Array.ext_getElem? fun i => ?_
    rw [Array.getElem?_modify, Array.getElem?_modify]
    split
    · subst i
      change Option.map f (p.find? id) = Option.map g (p.find? id)
      rw [he, Option.map_some, Option.map_some, h]
    · rfl
  rw [update, update, hm]

theorem writtenOf_of_map {p q : Page} {g : ElementId → Element → Element}
    (hf : ∀ x, q.find? x = (p.find? x).map (g x)) (hg : ∀ x e, (g x e).attributes = e.attributes) :
    q.writtenOf = p.writtenOf := by
  funext x
  rw [writtenOf, writtenOf, hf]
  cases p.find? x <;> simp [hg]

theorem form?_of_map {p q : Page} {g : ElementId → Element → Element}
    (hf : ∀ x, q.find? x = (p.find? x).map (g x))
    (hg : ∀ x e, (g x e).kind = e.kind ∧ (g x e).backing = e.backing) : q.form? = p.form? := by
  funext x
  rw [form?, form?, hf]
  cases p.find? x <;> simp [hg]

theorem linked_of_map {p q : Page} {g : ElementId → Element → Element} {n : NodeId}
    (hf : ∀ x, q.find? x = (p.find? x).map (g x)) (hg : ∀ x e, (g x e).links = e.links)
    (h : q.Linked n) : p.Linked n := by
  obtain ⟨x, e, he, hn⟩ := h
  rw [hf] at he
  obtain ⟨d, hd, rfl⟩ := Option.map_eq_some_iff.1 he
  exact ⟨x, d, hd, hg x d ▸ hn⟩

section

variable {p : Page} {x y : ElementId} {f : Element → Element}

theorem form?_update (hf : ∀ e, (f e).kind = e.kind ∧ (f e).backing = e.backing) :
    (p.update x f).form? = p.form? := by
  funext y
  rw [form?, form?, find?_update]
  split
  · cases p.find? y <;> simp [hf]
  · rfl

theorem form?_update_backing {e : Element} {o : Option Backing} (hx : p.find? x = some e)
    (hf : ∀ e, (f e).kind = e.kind ∧ (f e).backing = o) :
    (p.update x f).form? y = if y = x then some (e.kind, o) else p.form? y := by
  rw [form?, form?, find?_update]
  split
  · subst y
    simp [hx, hf]
  · rfl

theorem childrenOf_update (hf : ∀ e, (f e).children = e.children) :
    (p.update x f).childrenOf = p.childrenOf := by
  funext y
  rw [childrenOf, childrenOf, Tree.kids, Tree.kids, find?_update]
  split
  · cases p.find? y <;> simp [hf]
  · rfl

theorem parentOf_update (hf : ∀ e, (f e).parent = e.parent) :
    (p.update x f).parentOf = p.parentOf := by
  funext y
  rw [parentOf, parentOf, find?_update]
  split
  · cases p.find? y <;> simp [hf]
  · rfl

theorem writtenOf_update (hf : ∀ e, (f e).attributes = e.attributes) :
    (p.update x f).writtenOf = p.writtenOf := by
  funext y
  rw [writtenOf, writtenOf, find?_update]
  split
  · cases p.find? y <;> simp [hf]
  · rfl

theorem linked_of_update {n : NodeId}
    (hf : ∀ e l, l ∈ (f e).links.map PlacedLink.link → l ∈ e.links.map PlacedLink.link)
    (h : (p.update x f).Linked n) : p.Linked n := by
  obtain ⟨y, e, he, hn⟩ := h
  rw [find?_update] at he
  split at he
  · obtain ⟨e', he', rfl⟩ := Option.map_eq_some_iff.1 he
    exact ⟨y, e', he', hf _ _ hn⟩
  · exact ⟨y, e, he, hn⟩

end

end Page
end WikiPage
