import WikiPage.Proofs.Agreement
import WikiPage.Proofs.Sheets

/-!
# What the attributes of an element have to do with others

To write an attribute of an element may change its node, its two lists and the list that it stands in. The
nodes that elements are written as, with the lists that hold them, go up to the page without a gap, and
the attribute lists hang off them. So what is beside them is not changed, and all other elements keep
their sheets.
-/

namespace WikiPage

/-- An element without the links that are recorded for it. -/
def Element.unlinked (e : Element) : Element :=
  { e with links := [] }

theorem Element.eq_of_unlinked {d e : Element} (h : d.unlinked = e.unlinked) : d.kind = e.kind ∧
    d.backing = e.backing ∧ d.attributes = e.attributes ∧ d.children = e.children := by
  cases d
  cases e
  cases h
  exact ⟨rfl, rfl, rfl, rfl⟩

namespace Page

variable {p q : Page} {x y z : ElementId} {c l m n : NodeId} {e d : Element}

/-- A node that an element is written as, or that holds such nodes. -/
def Carries (p : Page) (n : NodeId) : Prop :=
  (∃ y, p.backing? y = some n) ∨ ∃ y, p.container? y = some n

/-- The nodes that may change with the attributes of an element. -/
def Concerns (p : Page) (x : ElementId) (n : NodeId) : Prop :=
  p.backing? x = some n ∨ p.container? x = some n ∨
    (∃ y, p.parentOf x = some y ∧ p.container? y = some n) ∨
    ∃ l, p.attributeList? x = some l ∧ Reaches p.arena.kids l n

/-- A node that has nothing to do with the attributes of an element, and nothing below it has. -/
structure Aside (p : Page) (x : ElementId) (n : NodeId) : Prop where
  carries : ¬p.Carries n
  attributes : ∀ l, p.attributeList? x = some l → ¬Reaches p.arena.kids l n

theorem Concerns.not_aside (hc : p.Concerns x n) : ¬p.Aside x n := by
  intro ha
  rcases hc with hn | hn | ⟨y, -, hn⟩ | ⟨l, hl, hr⟩
  · exact ha.carries (.inl ⟨x, hn⟩)
  · exact ha.carries (.inr ⟨x, hn⟩)
  · exact ha.carries (.inr ⟨y, hn⟩)
  · exact ha.attributes l hl hr

namespace Synced

theorem container_home (h : p.Synced) (hc : p.container? x = some c) :
    ∃ n, c ∈ p.arena.kids n ∧ (x = body ∧ n = Arena.root ∨ p.backing? x = some n) := by
  obtain ⟨n, m, hm, hs, hn⟩ := h.container_slot hc
  exact ⟨n, Arena.kids_of_find? hm ▸ Payload.children_of_mem_slots hs, hn⟩

theorem carries_of_mem (h : p.Synced) (hn : p.Carries n) (hm : n ∈ p.arena.kids m) : p.Carries m := by
  have hcontainer {y : ElementId} (hc : p.container? y = some n) : p.Carries m := by
    obtain ⟨m', hm', hy⟩ := h.container_home hc
    obtain rfl := h.sound.single hm hm'
    rcases hy with ⟨-, rfl⟩ | hy
    · exact .inl ⟨root, h.root_backing⟩
    · exact .inl ⟨y, hy⟩
  obtain ⟨y, hy⟩ | ⟨y, hy⟩ := hn
  · by_cases hb : y = body
    · obtain rfl := hb
      exact hcontainer (h.body_container.trans (h.body_backing.symm.trans hy))
    · obtain ⟨z, -, hz⟩ := h.home hy hb hm
      exact .inr ⟨z, hz⟩
  · exact hcontainer hy

theorem carries_of_reaches (h : p.Synced) (hr : Reaches p.arena.kids m n) (hn : p.Carries n) :
    p.Carries m := by
  induction hr using Relation.ReflTransGen.head_induction_on with
  | refl => exact hn
  | head hstep _ ih => exact h.carries_of_mem ih hstep

theorem attributeList_home (h : p.Synced) (hl : p.attributeList? x = some l) (hm : l ∈ p.arena.kids m) :
    p.backing? x = some m := by
  obtain ⟨k, tag, v, hf, hv, hs⟩ := exists_of_attributeList? hl
  have hk : l ∈ p.arena.kids tag := Arena.kids_of_find? hv ▸ Payload.children_of_mem_slots hs
  rw [h.sound.single hm hk]
  exact backing?_of_form? hf

theorem find?_attributeList (h : p.Synced) (hl : p.attributeList? x = some l) :
    ∃ items, p.arena.find? l = some ⟨.list items, none⟩ := by
  obtain ⟨k, tag, v, hf, hv, hs⟩ := exists_of_attributeList? hl
  exact h.sound.find?_slot hv hs

theorem not_carries_attributeList (h : p.Synced) (hl : p.attributeList? x = some l) :
    ¬p.Carries l := by
  rintro (⟨y, hy⟩ | ⟨y, hy⟩)
  · by_cases hb : y = body
    · obtain rfl := hb
      exact h.container?_ne_attributeList hl body (h.body_container.trans (h.body_backing.symm.trans hy))
    · obtain ⟨v, hv, hlist⟩ := h.find?_backing hy hb
      obtain ⟨items, hi⟩ := h.find?_attributeList hl
      obtain rfl := Option.some.inj (hv.symm.trans hi)
      cases hlist
  · exact h.container?_ne_attributeList hl y hy

theorem not_carries_of_attribute (h : p.Synced) (hl : p.attributeList? x = some l)
    (hr : Reaches p.arena.kids l n) : ¬p.Carries n :=
  fun hn => h.not_carries_attributeList hl (h.carries_of_reaches hr hn)

/-- Only below its tag does anything go down to the attributes of an element. -/
theorem aside_of_mem (h : p.Synced) (hn : ¬p.Carries n) (hm : n ∈ p.arena.kids m)
    (hl : ∀ l, p.attributeList? x = some l → ¬Reaches p.arena.kids l m)
    (hx : p.attributeList? x ≠ some n) : p.Aside x n := by
  refine ⟨hn, fun l hl' hr => ?_⟩
  rcases Relation.ReflTransGen.cases_tail hr with rfl | ⟨m', hr', hm'⟩
  · exact hx hl'
  · obtain rfl := h.sound.single hm hm'
    exact hl l hl' hr'

theorem aside_of_reaches (h : p.Synced) (hn : p.Aside x n) (hr : Reaches p.arena.kids n m) :
    p.Aside x m := by
  induction hr with
  | refl => exact hn
  | tail _ hstep ih =>
    exact h.aside_of_mem (fun hc => ih.carries (h.carries_of_mem hc hstep)) hstep ih.attributes
      fun hl => ih.carries (.inl ⟨x, h.attributeList_home hl hstep⟩)

theorem find?_content (h : p.Synced) (hc : p.container? z = some c) (hn : n ∈ p.arena.kids c) :
    p.arena.Is Role.content.admits n := by
  obtain ⟨m, v, hv, hs, -⟩ := h.container_slot hc
  obtain ⟨items, hi, hitems⟩ := (h.sound.fits hv).lists _ hs
  rw [Arena.kids_of_find? hi] at hn
  exact hitems n hn

theorem content_ne_list (h : p.Synced) (hc : p.container? z = some c) (hn : n ∈ p.arena.kids c)
    {items : List NodeId} {g : Option Glue} : p.arena.find? n ≠ some ⟨.list items, g⟩ := by
  intro hi
  obtain ⟨v, hv, hadmits⟩ := h.find?_content hc hn
  obtain rfl := Option.some.inj (hv.symm.trans hi)
  cases hadmits

theorem itemsOf_root (h : p.Synced) : p.itemsOf root = [p.arena.content] := by
  obtain ⟨g, hg⟩ := h.find?_page
  rw [itemsOf, if_pos rfl, Arena.kids_of_find? hg]
  rfl

theorem itemsOf_eq (h : p.Synced) (hc : p.container? z = some c) : p.itemsOf z = p.arena.kids c := by
  rw [itemsOf, if_neg (root_container_ne h hc), hc]
  rfl

theorem item_cases (h : p.Synced) (hn : n ∈ p.itemsOf z) :
    z = root ∧ n = p.arena.content ∨ ∃ c, p.container? z = some c ∧ n ∈ p.arena.kids c := by
  by_cases hz : z = root
  · obtain rfl := hz
    rw [h.itemsOf_root] at hn
    exact .inl ⟨rfl, List.mem_singleton.1 hn⟩
  · rw [itemsOf, if_neg hz] at hn
    cases hc : p.container? z with
    | none =>
      rw [hc] at hn
      cases hn
    | some c =>
      rw [hc] at hn
      exact .inr ⟨c, rfl, hn⟩

theorem mem_childrenOf_of_item (h : p.Synced) (hn : n ∈ p.itemsOf z) (hy : p.backing? y = some n) :
    y ∈ p.childrenOf z := by
  rcases h.item_cases hn with ⟨rfl, rfl⟩ | ⟨c, hc, hmem⟩
  · obtain rfl := h.backing_inj hy h.body_backing
    exact h.parent_iff.1 h.body_parent
  · exact h.mem_childrenOf_of_mem_kids hc hy hmem

theorem item_lt (h : p.Synced) (hn : n ∈ p.itemsOf z) : n.index < p.arena.size := by
  rcases h.item_cases hn with ⟨rfl, rfl⟩ | ⟨c, hc, hmem⟩
  · exact h.backing_lt h.body_backing
  · exact h.sound.closed c n hmem

theorem aside_of_item (h : p.Synced) (hn : n ∈ p.itemsOf z)
    (hb : ∀ y ∈ p.childrenOf z, p.backing? y ≠ some n) : p.Aside x n := by
  have hback (y : ElementId) : p.backing? y ≠ some n := fun hy => hb y (h.mem_childrenOf_of_item hn hy) hy
  rcases h.item_cases hn with ⟨rfl, rfl⟩ | ⟨c, hc, hmem⟩
  · exact absurd h.body_backing (hback body)
  refine h.aside_of_mem ?_ hmem (fun l hl hr => h.not_carries_of_attribute hl hr (.inr ⟨z, hc⟩)) ?_
  · rintro (⟨y, hy⟩ | ⟨y, hy⟩)
    · exact hback y hy
    · obtain ⟨items, hi⟩ := h.find?_container hy
      exact h.content_ne_list hc hmem hi
  · intro hl
    obtain ⟨items, hi⟩ := h.find?_attributeList hl
    exact h.content_ne_list hc hmem hi

theorem aside_attributeList (h : p.Synced) (hz : p.attributeList? z = some l) (hne : z ≠ x) :
    p.Aside x l := by
  obtain ⟨k, tag, v, hf, hv, hs⟩ := exists_of_attributeList? hz
  have hk : l ∈ p.arena.kids tag := Arena.kids_of_find? hv ▸ Payload.children_of_mem_slots hs
  exact h.aside_of_mem (h.not_carries_attributeList hz) hk
    (fun l' hl' hr => h.not_carries_of_attribute hl' hr (.inl ⟨z, backing?_of_form? hf⟩))
    fun hx => hne (h.attributeList?_inj hz hx)

/-- What stands below the node of an element that holds nothing is aside. -/
theorem aside_of_leaf (h : p.Synced) (hc : p.container? z = none) (hroot : z ≠ root)
    (hz : p.backing? z = some m) (hne : z ≠ x) (hn : n ∈ p.arena.kids m) : p.Aside x n := by
  have hcontainer {y : ElementId} : p.container? y ≠ some n := by
    intro hy
    obtain ⟨m', hm', hy'⟩ := h.container_home hy
    obtain rfl := h.sound.single hn hm'
    rcases hy' with ⟨-, rfl⟩ | hy'
    · exact hroot (h.backing_inj hz h.root_backing)
    · obtain rfl := h.backing_inj hz hy'
      cases hc.symm.trans hy
  refine h.aside_of_mem ?_ hn (fun l hl hr => h.not_carries_of_attribute hl hr (.inl ⟨z, hz⟩))
    fun hx => hne (h.backing_inj hz (h.attributeList_home hx hn))
  rintro (⟨y, hy⟩ | ⟨y, hy⟩)
  · by_cases hb : y = body
    · obtain rfl := hb
      exact hcontainer (h.body_container.trans (h.body_backing.symm.trans hy))
    · obtain ⟨w, -, hw⟩ := h.home hy hb hn
      obtain ⟨items, hi⟩ := h.find?_container hw
      obtain ⟨v, hv, hlist⟩ := h.find?_backing hz fun hbody => by
        cases hc.symm.trans (hbody ▸ h.body_container)
      obtain rfl := Option.some.inj (hv.symm.trans hi)
      cases hlist
  · exact hcontainer hy

theorem leaf_of_saying (h : p.Synced) {k : Kind} {o : Option Backing} (hf : p.form? z = some (k, o))
    (hk : k = .text ∨ k = .comment) : z ≠ root ∧ z ≠ body ∧ p.container? z = none := by
  refine ⟨?_, ?_, ?_⟩
  · rintro rfl
    obtain ⟨rfl, -⟩ := Prod.mk.inj (Option.some.inj (hf.symm.trans h.root_form))
    simp at hk
  · rintro rfl
    obtain ⟨rfl, -⟩ := Prod.mk.inj (Option.some.inj (hf.symm.trans h.body_form))
    simp at hk
  · rw [container?_of_form? hf]
    match o, h.writes hf with
    | none, _ => rfl
    | some (.markup n), ⟨⟨payload, g⟩, hn, hm⟩ =>
      have hcontent : contentOf? payload = none := by
        rcases hk with rfl | rfl <;> cases payload <;> first | rfl | cases hm
      rcases hk with rfl | rfl <;> simp [Arena.container?, hn, hcontent]
    | some (.tag n), ⟨⟨payload, g⟩, hn, hm⟩ =>
      rcases hk with rfl | rfl <;> cases payload <;> cases hm

theorem not_concerns_backing (h : p.Synced) (hz : p.backing? z = some n) (hne : z ≠ x)
    (hb : z ≠ body) : ¬p.Concerns x n := by
  have hcontainer {y : ElementId} : p.container? y ≠ some n := by
    intro hy
    obtain ⟨items, hi⟩ := h.find?_container hy
    obtain ⟨v, hv, hlist⟩ := h.find?_backing hz hb
    obtain rfl := Option.some.inj (hv.symm.trans hi)
    cases hlist
  rintro (hn | hn | ⟨y, -, hn⟩ | ⟨l, hl, hr⟩)
  · exact hne (h.backing_inj hz hn)
  · exact hcontainer hn
  · exact hcontainer hn
  · exact h.not_carries_of_attribute hl hr (.inl ⟨z, hz⟩)

theorem lists_congr (h : p.Synced) (hform : q.form? z = p.form? z)
    (hnode : ∀ n, z ≠ body → p.backing? z = some n → q.arena.find? n = p.arena.find? n) :
    q.container? z = p.container? z ∧ q.attributeList? z = p.attributeList? z := by
  cases hf : p.form? z with
  | none => simp only [container?, attributeList?, hform, hf, Option.bind_none, and_self]
  | some f =>
    obtain ⟨k, o⟩ := f
    rw [container?_of_form? hf, attributeList?_of_form? hf, container?_of_form? (hform.trans hf),
      attributeList?_of_form? (hform.trans hf)]
    cases o with
    | none => exact ⟨rfl, rfl⟩
    | some b =>
      by_cases hb : z = body
      · obtain rfl := hb
        obtain ⟨rfl, ⟨⟩⟩ := Prod.mk.inj (Option.some.inj (hf.symm.trans h.body_form))
        exact ⟨rfl, rfl⟩
      · have hnode := hnode b.node hb (backing?_of_form? hf)
        cases b <;> simp only [Arena.container?, Arena.attributeList?, Backing.node] at hnode ⊢ <;>
          simp only [hnode, and_self]

theorem carries_lt (h : p.Synced) (hn : p.Carries n) : n.index < p.arena.size := by
  obtain ⟨y, hy⟩ | ⟨y, hy⟩ := hn
  · exact h.backing_lt hy
  · exact Arena.index_lt_of_find? (h.find?_container hy).choose_spec

theorem attributeList?_eq_none (h : p.container? x = none) : p.attributeList? x = none := by
  by_contra hne
  obtain ⟨l, hl⟩ := Option.ne_none_iff_exists'.1 hne
  obtain ⟨k, tag, ⟨payload, g⟩, hf, hm, hs⟩ := exists_of_attributeList? hl
  rw [container?_of_form? hf, Arena.container?, hm] at h
  cases payload <;> simp [Payload.slots, bodyOf?] at hs h

end Synced

/-- Another page that has the other elements of a page, and the nodes that are not concerned with one of
its elements. -/
structure Leaves (p : Page) (x : ElementId) (q : Page) : Prop where
  synced : q.Synced
  site : q.site = p.site
  others : ∀ z, z ≠ x → (q.find? z).map Element.unlinked = (p.find? z).map Element.unlinked
  self : (q.find? x).map (fun e => (e.kind, e.children)) =
    (p.find? x).map fun e => (e.kind, e.children)
  agrees : p.arena.AgreesBut q.arena (p.Concerns x)

/-- The same nodes stand in the lists of content, but for the node of the element. -/
structure Touches (p : Page) (x : ElementId) (q : Page) : Prop extends Leaves p x q where
  items : ∃ n n', p.backing? x = some n ∧ q.backing? x = some n' ∧
    (n' = n ∨ p.arena.size ≤ n'.index) ∧
    ∀ z, q.itemsOf z = (p.itemsOf z).map fun m => if m = n then n' else m

namespace Leaves

theorem find?_of_ne (hq : p.Leaves x q) (hne : z ≠ x) (he : p.find? z = some e) :
    ∃ d, q.find? z = some d ∧ d.unlinked = e.unlinked := by
  have hz := hq.others z hne
  rw [he] at hz
  exact Option.map_eq_some_iff.1 hz

theorem find?_eq_none (hq : p.Leaves x q) (hne : z ≠ x) (he : p.find? z = none) :
    q.find? z = none := by
  have hz := hq.others z hne
  rw [he] at hz
  exact Option.map_eq_none_iff.1 hz

theorem form?_of_ne (hq : p.Leaves x q) (hne : z ≠ x) : q.form? z = p.form? z := by
  have hz := congrArg (Option.map fun e : Element => (e.kind, e.backing)) (hq.others z hne)
  rwa [Option.map_map, Option.map_map] at hz

theorem backing?_of_ne (hq : p.Leaves x q) (hne : z ≠ x) : q.backing? z = p.backing? z := by
  rw [backing?, hq.form?_of_ne hne]
  rfl

theorem childrenOf_eq (hq : p.Leaves x q) : q.childrenOf = p.childrenOf := by
  funext z
  have hz : (q.find? z).map Element.children = (p.find? z).map Element.children := by
    by_cases hne : z = x
    · have hx := congrArg (Option.map Prod.snd) hq.self
      rw [Option.map_map, Option.map_map] at hx
      rw [hne]
      exact hx
    · have hz := congrArg (Option.map Element.children) (hq.others z hne)
      rwa [Option.map_map, Option.map_map] at hz
  rw [childrenOf, childrenOf, Tree.kids, Tree.kids, hz]

theorem find?_backing (hq : p.Leaves x q) (h : p.Synced) (hne : z ≠ x) (hb : z ≠ body)
    (hn : p.backing? z = some n) : q.arena.find? n = p.arena.find? n := by
  obtain ⟨m, hm⟩ := Arena.exists_of_index_lt (h.backing_lt hn)
  rw [hm, hq.agrees n m (h.not_concerns_backing hn hne hb) hm]

theorem find?_aside (hq : p.Leaves x q) (ha : p.Aside x n)
    (hn : n.index < p.arena.size) : q.arena.find? n = p.arena.find? n := by
  obtain ⟨m, hm⟩ := Arena.exists_of_index_lt hn
  rw [hm, hq.agrees n m (fun hc => hc.not_aside ha) hm]

theorem print_aside (hq : p.Leaves x q) (h : p.Synced) (ha : p.Aside x n)
    (hn : n.index < p.arena.size) : q.arena.print n = p.arena.print n :=
  hq.agrees.print_eq h.sound.founded hq.synced.sound.founded hn fun _ hc hr =>
    hc.not_aside (h.aside_of_reaches ha hr)

theorem tree_leaf (hq : p.Leaves x q) (h : p.Synced) (hc : p.container? z = none) (hroot : z ≠ root)
    (hn : p.backing? z = some n) (hne : z ≠ x) : q.arena.tree n = p.arena.tree n := by
  refine hq.agrees.tree_eq h.sound.founded hq.synced.sound.founded (h.backing_lt hn) fun m hm hr => ?_
  rcases Relation.ReflTransGen.cases_head hr with rfl | ⟨n', hn', hr'⟩
  · refine h.not_concerns_backing hn hne (fun hb => ?_) hm
    cases hc.symm.trans (hb ▸ h.body_container)
  · exact hm.not_aside (h.aside_of_reaches (h.aside_of_leaf hc hroot hn hne hn') hr')

theorem lists_of_ne (hq : p.Leaves x q) (h : p.Synced) (hne : z ≠ x) :
    q.container? z = p.container? z ∧ q.attributeList? z = p.attributeList? z :=
  h.lists_congr (hq.form?_of_ne hne) fun _ hb hn => hq.find?_backing h hne hb hn

theorem payload_eq (hq : p.Leaves x q) (h : p.Synced) (hne : z ≠ x) (hb : z ≠ body)
    (hn : p.backing? z = some n) : q.payload n = p.payload n := by
  unfold payload Arena.payload Arena.get
  rw [hq.find?_backing h hne hb hn]

theorem lookups_of_ne (hq : p.Leaves x q) (hne : z ≠ x) :
    (p.find? z ≠ none → q.kind z = p.kind z) ∧ (p.find? z ≠ none → q.backingNode z = p.backingNode z) := by
  cases he : p.find? z with
  | none => exact ⟨fun h => (h rfl).elim, fun h => (h rfl).elim⟩
  | some e =>
    obtain ⟨d, hd, hu⟩ := hq.find?_of_ne hne he
    obtain ⟨hk, hb, -, -⟩ := Element.eq_of_unlinked hu
    simp only [kind, backingNode, get, he, hd, Except.map, bind, Except.bind, hk, hb, ne_eq,
      reduceCtorEq, not_false_eq_true, forall_const, and_self]

theorem label_eq (hq : p.Leaves x q) (h : p.Synced) (hne : z ≠ x) (he : p.find? z = some e) :
    q.label z e.kind = p.label z e.kind := by
  have hsome : p.find? z ≠ none := by simp [he]
  have hkind : p.kind z = .ok e.kind := by simp [kind, get_eq_ok_iff.2 he, Except.map]
  have hname : q.name z = p.name z := by
    unfold name
    rw [(hq.lookups_of_ne hne).1 hsome, (hq.lookups_of_ne hne).2 hsome, hkind]
    simp only [bind, Except.bind]
    split
    case isFalse => rfl
    case isTrue hk =>
      have hb : z ≠ body := by
        rintro rfl
        have hform := (form?_of_find? he).symm.trans h.body_form
        rw [hk] at hform
        cases hform
      cases hn : p.backingNode z with
      | error => rfl
      | ok n => simp only [hq.payload_eq h hne hb (backing?_of_backingNode hn)]
  rw [label, label, hname]

theorem saying_eq (hq : p.Leaves x q) (h : p.Synced) (hne : z ≠ x) (he : p.find? z = some e) :
    q.saying z e.kind = p.saying z e.kind := by
  have hsome : p.find? z ≠ none := by simp [he]
  unfold saying
  split
  case isFalse => rfl
  case isTrue hk =>
    have hform := form?_of_find? he
    obtain ⟨hroot, hb, hc⟩ := h.leaf_of_saying hform hk
    have htext : q.text z = p.text z := by
      unfold text
      rw [(hq.lookups_of_ne hne).1 hsome, (hq.lookups_of_ne hne).2 hsome]
      cases hn : p.backingNode z with
      | error => rfl
      | ok n =>
        have hback := backing?_of_backingNode hn
        simp only [bind, Except.bind, Arena.text, hq.payload_eq h hne hb hback,
          hq.tree_leaf h hc hroot hback hne]
    rw [htext]

theorem entries_eq (hq : p.Leaves x q) (h : p.Synced) (hne : z ≠ x) (attributes : List Attribute) :
    q.entries z attributes = p.entries z attributes := by
  unfold entries
  rw [(hq.lists_of_ne h hne).2]
  cases hl : p.attributeList? z with
  | none => rfl
  | some l =>
    have ha := h.aside_attributeList hl hne
    obtain ⟨items, hi⟩ := h.find?_attributeList hl
    have hlist := (hq.find?_aside ha (Arena.index_lt_of_find? hi)).trans hi
    simp only [Option.map_some, Option.getD_some, Arena.kids_of_find? hi, Arena.kids_of_find? hlist]
    refine List.filterMap_congr fun n hn => ?_
    have hmem : n ∈ p.arena.kids l := Arena.kids_of_find? hi ▸ hn
    have hn := h.aside_of_reaches ha (.single hmem)
    have hnode := hq.find?_aside hn (h.sound.closed l n hmem)
    unfold Arena.entry?
    rw [hnode]
    split
    case h_1 name hasValue value g hv =>
      have hkid : value ∈ p.arena.kids n := by simp [Arena.kids_of_find? hv, Payload.children]
      rw [hq.print_aside h (h.aside_of_reaches hn (.single hkid)) (h.sound.closed n value hkid)]
    case h_2 => rfl

theorem shell_eq (hq : p.Leaves x q) (h : p.Synced) (hne : z ≠ x) : q.shell z = p.shell z := by
  unfold shell
  rw [hq.backing?_of_ne hne, (hq.lists_of_ne h hne).1]
  cases hn : p.backing? z with
  | none => rfl
  | some n =>
    by_cases hb : z = body
    · obtain rfl := hb
      have hbody := (hq.backing?_of_ne hne).symm.trans hq.synced.body_backing
      obtain ⟨items, hi⟩ := h.find?_container h.body_container
      obtain ⟨items', hi'⟩ := hq.synced.find?_container hq.synced.body_container
      obtain rfl := Option.some.inj (hn.symm.trans h.body_backing)
      obtain hcontent := Option.some.inj (h.body_backing.symm.trans hbody)
      rw [← hcontent] at hi'
      simp only [hi, hi', h.body_container]
      rfl
    · by_cases hleaf : z ≠ root ∧ p.container? z = none
      · have htree := hq.tree_leaf h hleaf.2 hleaf.1 hn hne
        simp only [if_pos hleaf, Arena.print, htree]
      · simp only [if_neg hleaf, hq.find?_backing h hne hb hn]

end Leaves

namespace Touches

theorem items_eq (hq : p.Touches x q) (h : p.Synced) (z : ElementId) :
    (q.itemsOf z).map (q.item z) = (p.itemsOf z).map (p.item z) := by
  obtain ⟨n, n', hn, hn', hfresh, hitems⟩ := hq.items
  rw [hitems, List.map_map]
  refine List.map_congr_left fun m hm => ?_
  rw [Function.comp_apply]
  by_cases hback : ∃ y ∈ p.childrenOf z, p.backing? y = some m
  · obtain ⟨y, hy, hm'⟩ := hback
    rw [(item_eq_child_iff h).2 ⟨hy, hm'⟩, item_eq_child_iff hq.synced, hq.childrenOf_eq]
    refine ⟨hy, ?_⟩
    by_cases hyx : y = x
    · obtain rfl := hyx
      rw [if_pos (Option.some.inj (hm'.symm.trans hn)), hn']
    · have hmn : m ≠ n := by
        rintro rfl
        exact hyx (h.backing_inj hm' hn)
      rw [if_neg hmn, hq.backing?_of_ne hyx, hm']
  · have hp : ∀ y ∈ p.childrenOf z, p.backing? y ≠ some m := fun y hy hym => hback ⟨y, hy, hym⟩
    have hmn : m ≠ n := by
      rintro rfl
      exact hp x (h.mem_childrenOf_of_item hm hn) hn
    have hq' : ∀ y ∈ q.childrenOf z, q.backing? y ≠ some m := by
      intro y hy hym
      by_cases hyx : y = x
      · obtain rfl := hyx
        obtain rfl := Option.some.inj (hn'.symm.trans hym)
        exact hfresh.elim hmn fun hlt => absurd (h.item_lt hm) (Nat.not_lt.2 hlt)
      · rw [hq.childrenOf_eq] at hy
        exact hp y hy ((hq.backing?_of_ne hyx).symm.trans hym)
    rw [if_neg hmn, item_eq_text hp, item_eq_text hq',
      hq.print_aside h (h.aside_of_item hm hp) (h.item_lt hm)]

theorem sheet?_of_ne (hq : p.Touches x q) (h : p.Synced) (hne : z ≠ x) :
    q.sheet? z = p.sheet? z := by
  cases he : p.find? z with
  | none => rw [sheet?, sheet?, he, hq.find?_eq_none hne he]; rfl
  | some e =>
    obtain ⟨d, hd, hu⟩ := hq.find?_of_ne hne he
    obtain ⟨hkind, hbacking, hattributes, hchildren⟩ := Element.eq_of_unlinked hu
    rw [sheet?, sheet?, he, hd, Option.map_some, Option.map_some, sheetOf, sheetOf, hkind, hbacking,
      hattributes, hchildren, hq.label_eq h hne he, hq.saying_eq h hne he, hq.shell_eq h hne,
      hq.entries_eq h hne, hq.items_eq h]

end Touches

end Page
end WikiPage
