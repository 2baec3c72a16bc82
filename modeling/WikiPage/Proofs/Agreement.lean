import WikiPage.EntityTable
import WikiPage.Proofs.Reached

/-!
# Agreement on reached pages

The page is kept in several structures that repeat each other: the table of elements and the arena, the
children and the parents, the index of the categories, the owners of links and the links of each category.
On every page that is reached they agree.
-/

namespace WikiPage

/-- A list of the arena in which a node stands once. -/
def Arena.HoldsOnce (a : Arena) (c n : NodeId) : Prop :=
  ∃ items, a.items c = .ok items ∧ items.count n = 1

theorem Arena.Sound.holdsOnce {a : Arena} (h : a.Sound) {c n : NodeId} {items : List NodeId}
    (hi : a.items c = .ok items) (hn : n ∈ a.kids c) : a.HoldsOnce c n := by
  obtain ⟨g, hg⟩ := Arena.find?_of_items hi
  have hk : a.kids c = items := Arena.kids_of_find? hg
  exact ⟨items, hi, List.count_eq_one_of_mem (hk ▸ h.nodup c) (hk ▸ hn)⟩

theorem eq_filter_of_sublist {α : Type} {f : α → Bool} {l m : List α} (h : l.Sublist m)
    (hm : m.Nodup) (hf : ∀ x ∈ m, f x = true ↔ x ∈ l) : l = m.filter f := by
  have hl : l.filter f = l := List.filter_eq_self.2 fun x hx => (hf x (h.subset hx)).2 hx
  refine (hl ▸ h.filter f : l.Sublist (m.filter f)).eq_of_length_le ?_
  refine ((hm.filter f).subperm fun x hx => ?_).length_le
  obtain ⟨hxm, hx⟩ := List.mem_filter.1 hx
  exact (hf x hxm).1 hx

namespace Page

variable {p : Page} {x y : ElementId} {c n : NodeId}

theorem parent_eq_ok_iff {o : Option ElementId} :
    p.parent x = .ok o ↔ ∃ e, p.find? x = some e ∧ e.parent = o := by
  constructor
  · intro h
    obtain ⟨e, he, ho⟩ := Except.exists_of_map h
    exact ⟨e, get_eq_ok_iff.1 he, ho⟩
  · rintro ⟨e, he, rfl⟩
    exact parent_of_find? he

theorem parent_eq_some_iff : p.parent y = .ok (some x) ↔ p.parentOf y = some x := by
  rw [parent_eq_ok_iff, parentOf, Option.bind_eq_some_iff]

theorem children_eq_ok_iff {ids : List ElementId} :
    p.children x = .ok ids ↔ ∃ e, p.find? x = some e ∧ e.children = ids := by
  constructor
  · intro h
    obtain ⟨e, he, hids⟩ := Except.exists_of_map h
    exact ⟨e, get_eq_ok_iff.1 he, hids⟩
  · rintro ⟨e, he, rfl⟩
    exact children_of_find? he

theorem childrenOf_of_children {ids : List ElementId} (h : p.children x = .ok ids) :
    p.childrenOf x = ids := by
  obtain ⟨e, he, rfl⟩ := children_eq_ok_iff.1 h
  exact childrenOf_of_find? he

theorem backingNode_eq_ok_iff : p.backingNode x = .ok n ↔ p.backing? x = some n :=
  ⟨backing?_of_backingNode, backingNode_of_backing?⟩

/-- Whether an element is written as a node. -/
def backs (p : Page) (n : NodeId) : Bool :=
  p.elements.any fun e => e.backing.map Backing.node == some n

theorem backs_iff : p.backs n = true ↔ ∃ x, p.backing? x = some n := by
  rw [backs, Array.any_eq_true]
  constructor
  · rintro ⟨i, hi, he⟩
    refine ⟨⟨i⟩, ?_⟩
    have hx : p.find? ⟨i⟩ = some p.elements[i] := Array.getElem?_eq_getElem hi
    rw [backing?_of_form? (form?_of_find? hx)]
    exact beq_iff_eq.1 he
  · rintro ⟨x, hx⟩
    obtain ⟨k, b, hf, rfl⟩ := exists_of_backing? hx
    obtain ⟨e, he, -, hb⟩ := find?_of_form? hf
    obtain ⟨hi, he⟩ := Array.getElem?_eq_some_iff.1 he
    exact ⟨x.index, hi, by simp [he, hb]⟩

theorem mapM_backingNode {ids : List ElementId} (h : ∀ y ∈ ids, ∃ n, p.backing? y = some n) :
    ids.mapM p.backingNode = .ok (ids.filterMap p.backing?) := by
  induction ids with
  | nil => rfl
  | cons y ids ih =>
    obtain ⟨n, hn⟩ := h y List.mem_cons_self
    rw [List.mapM_cons, backingNode_of_backing? hn, ih fun z hz => h z (List.mem_cons_of_mem _ hz),
      List.filterMap_cons_some hn]
    rfl

/-- The elements and the nodes of a page are in step. -/
structure InStep (p : Page) : Prop where
  /-- The children of an element are written as the nodes in its container that any elements are
  written as, in their order. -/
  items : ∀ {x c}, p.childContainer x = .ok c → ∃ ids items, p.children x = .ok ids ∧
    p.arena.items c = .ok items ∧ ids.mapM p.backingNode = .ok (items.filter p.backs)
  /-- The children of an element are those that it is the parent of. -/
  parent_iff : ∀ {x y}, (∃ ids, p.children x = .ok ids ∧ y ∈ ids) ↔ p.parent y = .ok (some x)
  nodup : ∀ {x ids}, p.children x = .ok ids → ids.Nodup
  acyclic : ∀ x, ¬Relation.TransGen (fun y z => p.parent y = .ok (some z)) x x
  /-- Every element but a category is written as a node of its own. -/
  backed : ∀ {x e}, p.find? x = some e → e.kind ≠ .category → ∃ n, p.backingNode x = .ok n
  backing_inj : ∀ {x y n}, p.backingNode x = .ok n → p.backingNode y = .ok n → x = y
  /-- The node of an element that is not on the page stands in no list. -/
  loose : ∀ {x n c items}, p.parent x = .ok none → p.backingNode x = .ok n →
    p.arena.items c = .ok items → n ∉ items
  /-- A node stands in one list at most, and there once. -/
  items_nodup : ∀ {c items}, p.arena.items c = .ok items → items.Nodup
  items_single : ∀ {c d items items' n}, p.arena.items c = .ok items → p.arena.items d = .ok items' →
    n ∈ items → n ∈ items' → c = d

theorem InStep.of_synced (h : p.Synced) : p.InStep where
  items {x c} hc := by
    have hc := container?_of_childContainer hc
    have hx : x ≠ root := by
      rintro rfl
      cases h.root_container.symm.trans hc
    obtain ⟨k, b, hf, -⟩ := exists_of_container? hc
    obtain ⟨e, he, -⟩ := find?_of_form? hf
    obtain ⟨items, hi⟩ := h.find?_container hc
    have hk : p.arena.kids c = items := Arena.kids_of_find? hi
    refine ⟨e.children, items, children_of_find? he, Arena.items_of_find? hi, ?_⟩
    rw [← childrenOf_of_find? he, mapM_backingNode fun y hy => h.exists_backing hx hy]
    refine congrArg _ (eq_filter_of_sublist (hk ▸ h.kept hc) (hk ▸ h.sound.nodup c) fun n hn => ?_)
    rw [backs_iff, List.mem_filterMap]
    constructor
    · rintro ⟨y, hy⟩
      exact ⟨y, h.mem_childrenOf_of_mem_kids hc hy (hk ▸ hn), hy⟩
    · rintro ⟨y, -, hy⟩
      exact ⟨y, hy⟩
  parent_iff {x y} := by
    rw [parent_eq_some_iff, h.parent_iff]
    constructor
    · rintro ⟨ids, hids, hy⟩
      rwa [childrenOf_of_children hids]
    · intro hy
      cases he : p.find? x with
      | none => simp [childrenOf, Tree.kids, he] at hy
      | some e => exact ⟨e.children, children_of_find? he, childrenOf_of_find? he ▸ hy⟩
  nodup hids := childrenOf_of_children hids ▸ h.forest.nodup _
  acyclic x hx := by
    have hx := Relation.TransGen.mono (fun y z hz => h.parent_iff.1 (parent_eq_some_iff.1 hz)) x x hx
    exact h.forest.wellFounded.transGen.irrefl.irrefl x hx
  backed {x e} he hk := by
    cases hb : e.backing with
    | none =>
      have hw := h.writes (form?_of_find? he)
      rw [hb] at hw
      exact absurd hw hk
    | some b =>
      exact ⟨b.node, backingNode_eq_ok_iff.2 (by rw [backing?_of_form? (form?_of_find? he), hb]; rfl)⟩
  backing_inj hx hy := h.backing_inj (backingNode_eq_ok_iff.1 hx) (backingNode_eq_ok_iff.1 hy)
  loose {x n c items} hp hn hi hm := by
    obtain ⟨e, he, hep⟩ := parent_eq_ok_iff.1 hp
    obtain ⟨g, hg⟩ := Arena.find?_of_items hi
    refine h.loose (by rw [parentOf_of_find? he, hep]) (backingNode_eq_ok_iff.1 hn) c ?_
    rwa [Arena.kids_of_find? hg]
  items_nodup {c items} hi := by
    obtain ⟨g, hg⟩ := Arena.find?_of_items hi
    have hk : p.arena.kids c = items := Arena.kids_of_find? hg
    exact hk ▸ h.sound.nodup c
  items_single {c d items items' n} hi hi' hn hn' := by
    obtain ⟨g, hg⟩ := Arena.find?_of_items hi
    obtain ⟨g', hg'⟩ := Arena.find?_of_items hi'
    refine h.sound.single (y := n) ?_ ?_
    · rwa [Arena.kids_of_find? hg]
    · rwa [Arena.kids_of_find? hg']

/-- What edits search the lists of the arena for is there, and once. -/
structure Findable (p : Page) : Prop where
  /-- The node of a child stands in the container of its parent. -/
  child : ∀ {x y}, p.parent y = .ok (some x) → x ≠ root →
    ∃ c n, p.childContainer x = .ok c ∧ p.backingNode y = .ok n ∧ p.arena.HoldsOnce c n
  /-- An attribute that has a node stands in the tag of its element. -/
  written : ∀ {x e a n}, p.find? x = some e → a ∈ e.attributes → a.node = some n →
    ∃ c, p.attributeList x = .ok c ∧ p.arena.HoldsOnce c n
  /-- A link of a category stands in the container that is recorded for it. -/
  link : ∀ {x e l}, p.find? x = some e → l ∈ e.links → p.arena.HoldsOnce l.container l.link

theorem linksOf_of_find? {e : Element} (he : p.find? x = some e) : p.linksOf x = e.links := by
  rw [linksOf, he]
  rfl

theorem Recorded.holdsOnce (h : p.Recorded) {l : PlacedLink} (hl : l ∈ p.linksOf x) :
    p.arena.HoldsOnce l.container l.link := by
  have hk := h.placed x l hl
  obtain ⟨m, hm, hmarks⟩ := (h.isFreeLink (linked_of_mem hl)).1
  have hlist : m.payload.isList = false := by
    cases hp : m.payload <;> simp_all [Kind.marks, Payload.isList]
  exact h.sound.holdsOnce (Arena.items_of_find? (h.sound.find?_of_mem_kids hk hm hlist)) hk

theorem Recorded.findable (h : p.Recorded) : p.Findable where
  child hp hx := by
    obtain ⟨c, n, hc, hn, hk⟩ := Edit.exists_child h.toSynced hx
      (h.parent_iff.1 (parent_eq_some_iff.1 hp))
    obtain ⟨items, hi⟩ := h.find?_container hc
    exact ⟨c, n, childContainer_of_container? hc, backingNode_of_backing? hn,
      h.sound.holdsOnce (Arena.items_of_find? hi) hk⟩
  written {x e a n} he ha hn := by
    have hw : n ∈ p.writtenOf x := by
      rw [writtenOf_of_find? he]
      exact List.mem_filterMap.2 ⟨a, ha, hn⟩
    obtain ⟨c, hc, hk⟩ := h.exists_of_written hw
    obtain ⟨k, tag, m, -, hm, hs⟩ := exists_of_attributeList? hc
    obtain ⟨items, hi⟩ := h.sound.find?_slot hm hs
    exact ⟨c, attributeList_of_attributeList? hc, h.sound.holdsOnce (Arena.items_of_find? hi) hk⟩
  link {x e l} he hl := h.holdsOnce (x := x) (by rwa [linksOf_of_find? he])

/-- A category that is on the page. -/
def IsAttached (p : Page) (x : ElementId) : Prop :=
  p.kind x = .ok .category ∧ p.parent x = .ok (some root)

theorem kind_eq_category_iff : p.kind x = .ok .category ↔ p.IsCategory x := by
  constructor
  · intro h
    obtain ⟨e, he, hk⟩ := Except.exists_of_map h
    exact ⟨e.backing, by rw [form?_of_find? (get_eq_ok_iff.1 he), hk]⟩
  · intro hc
    obtain ⟨e, he, hk⟩ := hc.exists_find?
    simp [kind, get_eq_ok_iff.2 he, Except.map, hk]

theorem isAttached_iff : p.IsAttached x ↔ p.IsCategory x ∧ p.parentOf x = some root := by
  rw [IsAttached, kind_eq_category_iff, parent_eq_some_iff]

theorem categoryName_eq_ok_iff {name : String} :
    p.categoryName x = .ok name ↔ p.IsCategory x ∧ p.nameOf? x = some name := by
  constructor
  · intro h
    obtain ⟨_, hk, h⟩ := Except.exists_of_bind h
    obtain ⟨k, hkind, hk⟩ := Except.exists_of_bind hk
    have hc : p.IsCategory x := by
      refine kind_eq_category_iff.1 (hkind.trans (congrArg _ ?_))
      split at hk
      · simpa using ‹[Kind.category].contains k = true›
      · cases hk
    exact ⟨hc, (storedName_eq_ok hc).1 h⟩
  · rintro ⟨hc, hn⟩
    have hk : p.requireKind x [.category] = .ok () := by
      simp [requireKind, kind_eq_category_iff.2 hc, bind, Except.bind]
    rw [categoryName, hk]
    exact (storedName_eq_ok hc).2 hn

theorem categoryLinks_eq_ok_iff {links : List NodeId} : p.categoryLinks x = .ok links ↔
    p.IsCategory x ∧ (p.linksOf x).map PlacedLink.link = links := by
  constructor
  · intro h
    obtain ⟨e, he, h⟩ := Except.exists_of_bind h
    have he := get_eq_ok_iff.1 he
    split at h
    · rename_i hk
      refine ⟨⟨e.backing, by rw [form?_of_find? he, hk]⟩, ?_⟩
      rw [linksOf_of_find? he]
      exact Except.ok.inj h
    · cases h
  · rintro ⟨hc, rfl⟩
    obtain ⟨e, he, hk⟩ := hc.exists_find?
    simp [categoryLinks, get_eq_ok_iff.2 he, bind, Except.bind, hk, linksOf, he]

/-- The records of the categories agree. -/
structure WellIndexed (p : Page) : Prop where
  /-- Below the page stand its body and then the categories that are on it, each once. -/
  children : ∃ ids, p.children root = .ok (body :: ids) ∧ ids.Nodup ∧ ∀ x, x ∈ ids ↔ p.IsAttached x
  /-- They are the values of the index. -/
  values : ∀ {x}, (∃ k, p.categories.find? k = some x) ↔ p.IsAttached x
  /-- The index has each of them by the key of its name. -/
  index_iff : ∀ {k x}, p.categories.find? k = some x ↔
    p.IsAttached x ∧ ∃ name, p.categoryName x = .ok name ∧ categoryKey name = k
  /-- No two of them share a key. -/
  key_inj : ∀ {x y s t}, p.IsAttached x → p.IsAttached y → p.categoryName x = .ok s →
    p.categoryName y = .ok t → categoryKey s = categoryKey t → x = y
  /-- The owner of a link is the category that has it. -/
  owner_iff : ∀ {n x}, p.owners.find? n = some x ↔ ∃ links, p.categoryLinks x = .ok links ∧ n ∈ links
  links_nodup : ∀ {x links}, p.categoryLinks x = .ok links → links.Nodup
  links_single : ∀ {x y links links' n}, p.categoryLinks x = .ok links →
    p.categoryLinks y = .ok links' → n ∈ links → n ∈ links' → x = y
  /-- Categories have links if they are on the page and only then. -/
  links_iff : ∀ {x links}, p.categoryLinks x = .ok links → (links ≠ [] ↔ p.IsAttached x)
  /-- Every link stands in the container that is recorded for it, once. -/
  placed : ∀ {x e l}, p.find? x = some e → l ∈ e.links → p.arena.HoldsOnce l.container l.link

theorem WellIndexed.of_indexed (h : p.Recorded) (hi : p.Indexed) : p.WellIndexed := by
  have hnamed {x : ElementId} (hc : p.IsCategory x) : ∃ name, p.nameOf? x = some name :=
    Option.ne_none_iff_exists'.1 (h.named hc)
  have hindex {k : String} {x : ElementId} : p.categories.find? k = some x ↔
      p.IsAttached x ∧ ∃ name, p.categoryName x = .ok name ∧ categoryKey name = k := by
    rw [hi.index_iff, isAttached_iff, key?, Option.map_eq_some_iff]
    constructor
    · rintro ⟨hp, name, hn, hk⟩
      have hc : p.IsCategory x := by
        by_contra hc
        cases hn.symm.trans (nameOf?_eq_none hc)
      exact ⟨⟨hc, hp⟩, name, categoryName_eq_ok_iff.2 ⟨hc, hn⟩, hk⟩
    · rintro ⟨⟨hc, hp⟩, name, hn, hk⟩
      exact ⟨hp, name, (categoryName_eq_ok_iff.1 hn).2, hk⟩
  have hlink {n : NodeId} {x : ElementId} : p.owners.find? n = some x ↔
      ∃ links, p.categoryLinks x = .ok links ∧ n ∈ links := by
    rw [h.owner_iff]
    constructor
    · intro hn
      refine ⟨_, categoryLinks_eq_ok_iff.2 ⟨h.isCategory fun hnil => ?_, rfl⟩, hn⟩
      rw [hnil] at hn
      cases hn
    · rintro ⟨links, hl, hn⟩
      rwa [(categoryLinks_eq_ok_iff.1 hl).2]
  constructor
  case children =>
    obtain ⟨ids, hids⟩ := hi.front
    obtain ⟨r, hr⟩ := h.exists_root
    have hnodup := h.forest.nodup root
    rw [hids, List.nodup_cons] at hnodup
    refine ⟨ids, ?_, hnodup.2, fun x => ?_⟩
    · rw [children_of_find? hr, ← childrenOf_of_find? hr, hids]
    · rw [isAttached_iff, h.parent_iff, hids, List.mem_cons]
      constructor
      · intro hx
        have hp := h.parent_iff.2 (hids ▸ List.mem_cons_of_mem _ hx)
        rcases h.root_child hp with rfl | hc
        · exact absurd hx hnodup.1
        · exact ⟨hc, .inr hx⟩
      · rintro ⟨hc, rfl | hx⟩
        · exact absurd rfl (h.ne_body_of_isCategory hc)
        · exact hx
  case values =>
    intro x
    constructor
    · rintro ⟨k, hk⟩
      exact (hindex.1 hk).1
    · intro hx
      obtain ⟨name, hn⟩ := hnamed (isAttached_iff.1 hx).1
      exact ⟨_, hindex.2 ⟨hx, name, categoryName_eq_ok_iff.2 ⟨(isAttached_iff.1 hx).1, hn⟩, rfl⟩⟩
  case index_iff => exact hindex
  case key_inj =>
    intro x y s t hx hy hs ht hk
    have hxs := hindex.2 ⟨hx, s, hs, hk⟩
    exact Option.some.inj (hxs.symm.trans (hindex.2 ⟨hy, t, ht, rfl⟩))
  case owner_iff => exact hlink
  case links_nodup =>
    intro x links hl
    exact (categoryLinks_eq_ok_iff.1 hl).2 ▸ h.links_nodup x
  case links_single =>
    intro x y links links' n hl hl' hn hn'
    exact Option.some.inj ((hlink.2 ⟨links, hl, hn⟩).symm.trans (hlink.2 ⟨links', hl', hn'⟩))
  case links_iff =>
    intro x links hl
    obtain ⟨hc, rfl⟩ := categoryLinks_eq_ok_iff.1 hl
    rw [isAttached_iff, and_iff_right hc, hi.attached_iff hc, ne_eq, List.map_eq_nil_iff]
  case placed =>
    intro x e l he hl
    exact h.holdsOnce (x := x) (by rwa [linksOf_of_find? he])

/-- No link of a category stands in another one. -/
def Unnested (p : Page) : Prop :=
  ∀ {x y links links' m n below}, p.categoryLinks x = .ok links → p.categoryLinks y = .ok links' →
    m ∈ links → n ∈ links' → p.arena.descendants m = .ok below → n ∉ below

/-- Every category that is reported has links, and all of them are part of the page. -/
def HoldsCategories (p : Page) : Prop :=
  ∃ below, p.arena.descendants Arena.root = .ok below ∧ ∀ {name}, p.hasCategory name = true →
    ∃ x links, p.category? name = some x ∧ p.categoryLinks x = .ok links ∧ links ≠ [] ∧
      ∀ n ∈ links, n ∈ below

theorem Recorded.categoryLinks_eq (h : p.Recorded) (hn : n ∈ (p.linksOf x).map PlacedLink.link) :
    p.categoryLinks x = .ok ((p.linksOf x).map PlacedLink.link) := by
  refine categoryLinks_eq_ok_iff.2 ⟨h.isCategory fun hnil => ?_, rfl⟩
  rw [hnil] at hn
  cases hn

/-- Links of categories do not stand in one another as the page begins, unless tags were kept as they
stand. -/
theorem Begun.isRooted {site : Site} {preserve : Bool} (h : p.Begun site preserve)
    (hu : preserve = true → p.Unnested) : p.IsRooted where
  apart {m n} hm hn hmn := by
    cases hpre : preserve with
    | false => exact h.apart hpre hm hn hmn
    | true =>
      by_contra hne
      have hr := h.recorded
      obtain ⟨x, hx⟩ := linked_iff.1 hm
      obtain ⟨y, hy⟩ := linked_iff.1 hn
      obtain ⟨⟨node, hnode, -⟩, -⟩ := hr.isFreeLink hm
      refine hu hpre (hr.categoryLinks_eq hx) (hr.categoryLinks_eq hy) hx hy
        (hr.sound.descendants_eq hnode) ?_
      exact hr.sound.mem_below_of_reaches hnode hmn hne
  part _ hl := h.part (linked_of_mem hl)

theorem Rooted.holdsCategories (h : p.IsRooted) (hp : p.Recorded) (hi : p.Indexed) :
    p.HoldsCategories := by
  obtain ⟨g, hroot⟩ := hp.find?_page
  refine ⟨_, hp.sound.descendants_eq hroot, fun {name} hname => ?_⟩
  obtain ⟨x, hx⟩ := Option.isSome_iff_exists.1 hname
  have hc := hp.indexed hx
  have hlinks : p.linksOf x ≠ [] := (hi.attached_iff hc).1 (hi.index_iff.1 hx).1
  refine ⟨x, _, hx, categoryLinks_eq_ok_iff.2 ⟨hc, rfl⟩, by simpa using hlinks, fun n hn => ?_⟩
  obtain ⟨l, hl, rfl⟩ := List.mem_map.1 hn
  refine hp.sound.mem_below_of_reaches hroot (h.part not_false hl) fun hr => ?_
  -- the root of the page is no link
  obtain ⟨⟨node, hnode, hmarks⟩, -⟩ := hp.isFreeLink (linked_of_mem hl)
  obtain rfl := Option.some.inj (hroot.symm.trans (hr ▸ hnode))
  cases hmarks

/-- A page with a text in a paragraph, and in a category. -/
def sample : Page :=
  Act.run [.createParagraph, .createText "a", .addCategory "B", .insertChild ⟨2⟩ ⟨3⟩ .last,
    .insertChild body ⟨2⟩ .first] (ofDrafts .new .default "Test" [])

theorem reached_sample : sample.Reached .default :=
  have h : Page.new .default "Test" = .ok (ofDrafts .new .default "Test" []) := rfl
  Reached.run (.new h) rfl

namespace Reached

variable {site : Site}

/-- On a page that is reached the elements and the nodes are in step. -/
theorem inStep [Entities] (h : p.Reached site) : p.InStep :=
  .of_synced h.orderly.recorded.toSynced

theorem inStep_sample :
    sample.Reached .default ∧ sample.children ⟨2⟩ = .ok [⟨3⟩] ∧ sample.InStep :=
  ⟨reached_sample, by decide +kernel, inStep reached_sample⟩

/-- On a page that is reached all is there that edits search for. An act about elements of the page goes
wrong for a fault if it is to write as a tag what has none, and only then. -/
theorem faultless [Entities] (h : p.Reached site) : p.Findable ∧ ∀ act : Act,
    (∀ x ∈ act.ids, ∃ e, p.find? x = some e) →
      ((∃ err q, act.edit p = .error err q ∧ err.isFatal = true) ↔
        ∃ x e, act = .promote x ∧ p.find? x = some e ∧ e.kind ∈ Edit.bareKinds) := by
  have hr := h.orderly.recorded
  refine ⟨hr.findable, fun act hids => ⟨?_, ?_⟩⟩
  · rintro ⟨err, q, he, hf⟩
    exact Act.exists_promote_of_isFatal hr (fun x hx => Option.ne_none_iff_exists'.2 (hids x hx)) he hf
  · rintro ⟨x, e, rfl, he, hk⟩
    have hends := Edit.ends_promote_of_bare hr.toSynced he hk
    cases hm : (Act.promote x).edit p with
    | ok u q => exact (hends.of_ok hm).elim
    | error err q => exact ⟨err, q, rfl, hends.of_error hm⟩

/-- The text of the sample has no tag; to remove its paragraph is no fault. -/
theorem faultless_sample : sample.Reached .default ∧ sample.Findable ∧
    (∃ err q, (Act.promote ⟨3⟩).edit sample = .error err q ∧ err.isFatal = true) ∧
    ¬∃ err q, (Act.removeChild body ⟨2⟩).edit sample = .error err q ∧ err.isFatal = true := by
  obtain ⟨hfind, hacts⟩ := faultless reached_sample
  have known (act : Act) (h : (act.ids.all fun x => (sample.find? x).isSome) = true) (x : ElementId)
      (hx : x ∈ act.ids) : ∃ e, sample.find? x = some e :=
    Option.isSome_iff_exists.1 (List.all_eq_true.1 h x hx)
  have hkind : sample.kind ⟨3⟩ = .ok .text := by decide +kernel
  obtain ⟨e, he, hk⟩ := Except.exists_of_map hkind
  refine ⟨reached_sample, hfind, (hacts (.promote ⟨3⟩) (known _ (by decide +kernel))).2 ?_, fun h => ?_⟩
  · exact ⟨⟨3⟩, e, rfl, get_eq_ok_iff.1 he, hk ▸ by decide⟩
  · obtain ⟨x, e, hact, -⟩ := (hacts (.removeChild body ⟨2⟩) (known _ (by decide +kernel))).1 h
    cases hact

/-- On a page that is reached the records of the categories agree, if the site names its categories by a
prefix that can be read back. -/
theorem wellIndexed [Entities] (h : p.Reached site) (hs : site.NamesCategories) : p.WellIndexed :=
  .of_indexed h.orderly.recorded (h.orderly.indexed hs)

theorem wellIndexed_sample : Site.default.NamesCategories ∧ sample.Reached .default ∧
    sample.IsAttached ⟨4⟩ ∧ sample.WellIndexed :=
  ⟨Site.namesCategories_default, reached_sample, ⟨by decide +kernel, by decide +kernel⟩,
    wellIndexed reached_sample Site.namesCategories_default⟩

end Reached

/-- The links of categories stay part of a page that began with none of them in another one. -/
theorem rooted_run [Entities] {site : Site} {title : String} {acts : List Act}
    (h : new site title = .ok p ∨ ∃ text preserve, read text site title preserve = .ok p ∧
      (preserve = true → p.Unnested))
    (ha : acts.all Act.isChecked = true) : (Act.run acts p).Reached site ∧ (Act.run acts p).IsRooted := by
  rcases h with h | ⟨text, preserve, h, hu⟩
  · have hb := begun_new h false
    exact ⟨.run (.new h) ha, (Act.keeps_run hb.recorded ha).rooted (hb.isRooted (by simp))⟩
  · have hb := begun_read h
    exact ⟨.run (.read h) ha, (Act.keeps_run hb.recorded ha).rooted (hb.isRooted hu)⟩

/-- A category is not lost from a page that began with no link of a category in another one. Such links
are found only in tags that are kept as they stand. -/
theorem holdsCategories_run [Entities] {site : Site} {title : String} {acts : List Act}
    (hs : site.NamesCategories)
    (h : new site title = .ok p ∨ ∃ text preserve, read text site title preserve = .ok p ∧
      (preserve = true → p.Unnested))
    (ha : acts.all Act.isChecked = true) : (Act.run acts p).HoldsCategories := by
  obtain ⟨hreached, hroot⟩ := rooted_run h ha
  exact hroot.holdsCategories hreached.orderly.recorded (hreached.orderly.indexed hs)

theorem holdsCategories_run_sample : Site.default.NamesCategories ∧ sample.hasCategory "B" = true ∧
    sample.HoldsCategories :=
  have h : Page.new .default "Test" = .ok (ofDrafts .new .default "Test" []) := rfl
  ⟨Site.namesCategories_default, by decide +kernel,
    holdsCategories_run Site.namesCategories_default (.inl h) rfl⟩

/-- A page with a category link in the title of another, in a tag that is kept as it stands. -/
def nested : Page :=
  (read "<span>[[Category:Foo|[[Category:Bar]]]]</span>" .default "Test" true).toOption.getD
    (ofDrafts .new .default "Test" [])

/-- Removing the outer category takes the link of the inner one out of the page, and the inner category
is reported still. -/
theorem not_holdsCategories_nested :
    read "<span>[[Category:Foo|[[Category:Bar]]]]</span>" .default "Test" true = .ok nested ∧
      ¬(Act.run [.removeCategory "Foo"] nested).HoldsCategories := by
  refine ⟨by decide +kernel, fun ⟨below, hbelow, h⟩ => ?_⟩
  have hname : (Act.run [.removeCategory "Foo"] nested).hasCategory "Bar" = true := by decide +kernel
  obtain ⟨x, links, hx, hlinks, -, hpart⟩ := h hname
  have hx' : (Act.run [.removeCategory "Foo"] nested).category? "Bar" = some ⟨5⟩ := by decide +kernel
  have hlinks' : (Act.run [.removeCategory "Foo"] nested).categoryLinks ⟨5⟩ = .ok [⟨4⟩] := by
    decide +kernel
  have hbelow' : (Act.run [.removeCategory "Foo"] nested).arena.descendants Arena.root =
      .ok [⟨0⟩, ⟨10⟩, ⟨9⟩, ⟨8⟩, ⟨2⟩, ⟨7⟩] := by
    decide +kernel
  obtain rfl := Option.some.inj (hx.symm.trans hx')
  obtain rfl := Except.ok.inj (hlinks.symm.trans hlinks')
  obtain rfl := Except.ok.inj (hbelow.symm.trans hbelow')
  exact absurd (hpart ⟨4⟩ (List.mem_singleton_self _)) (by decide)

end Page
end WikiPage
