import WikiPage.Proofs.Table

/-!
# Elements and nodes in step

The table of elements and the arena are two views of one page. Each element has a node of its own, and
the nodes of its children stand in its container in the same order, perhaps with nodes between them that
are no element's. The node of an element that is not on the page stands nowhere.
-/

namespace WikiPage
namespace Page

/-- A link that is the node of no element. -/
def IsFreeLink (p : Page) (n : NodeId) : Prop :=
  p.arena.Writes .link (some (.markup n)) ∧ ∀ x, p.backing? x ≠ some n

/-- Nodes that stand in the tag of an element as its attributes, each once. -/
def Written (p : Page) (x : ElementId) (nodes : List NodeId) : Prop :=
  nodes.Nodup ∧ ∀ n ∈ nodes, ∃ c, p.attributeList? x = some c ∧ n ∈ p.arena.kids c

/-- A page with the same nodes and elements and other records of its attributes, its categories and
their links. -/
structure SameShape (p q : Page) : Prop where
  arena : q.arena = p.arena
  form : q.form? = p.form?
  children : q.childrenOf = p.childrenOf
  parent : q.parentOf = p.parentOf
  written : ∀ x, q.writtenOf x = p.writtenOf x ∨ p.Written x (q.writtenOf x)
  linked : ∀ n, q.Linked n → p.Linked n ∨ p.IsFreeLink n
  indexed : ∀ k x, q.categories.find? k = some x → p.categories.find? k = some x ∨
    ∃ o, p.form? x = some (.category, o)

structure Synced (p : Page) : Prop where
  sound : p.arena.Sound
  writes : ∀ {x k o}, p.form? x = some (k, o) → p.arena.Writes k o
  root_form : p.form? root = some (.page, some (.markup Arena.root))
  body_form : p.form? body = some (.body, some (.markup p.arena.content))
  eq_root : ∀ {x o}, p.form? x = some (.page, o) → x = root
  eq_body : ∀ {x o}, p.form? x = some (.body, o) → x = body
  backing_inj : ∀ {x y n}, p.backing? x = some n → p.backing? y = some n → x = y
  linked : ∀ {n}, p.Linked n → p.arena.Writes .link (some (.markup n))
  unlinked : ∀ {n}, p.Linked n → ∀ x, p.backing? x ≠ some n
  forest : Forest p.childrenOf
  parent_iff : ∀ {x y}, p.parentOf y = some x ↔ y ∈ p.childrenOf x
  root_parent : p.parentOf root = none
  body_parent : p.parentOf body = some root
  root_child : ∀ {y}, p.parentOf y = some root → y = body ∨ ∃ o, p.form? y = some (.category, o)
  category_parent : ∀ {y x o}, p.form? y = some (.category, o) → p.parentOf y = some x → x = root
  indexed : ∀ {k x}, p.categories.find? k = some x → ∃ o, p.form? x = some (.category, o)
  bare : ∀ {x}, p.container? x = none → x ≠ root → p.childrenOf x = []
  /-- The nodes of the children stand in the container, in their order. -/
  kept : ∀ {x c}, p.container? x = some c →
    ((p.childrenOf x).filterMap p.backing?).Sublist (p.arena.kids c)
  /-- The node of an element that is not on the page stands nowhere. -/
  loose : ∀ {x n}, p.parentOf x = none → p.backing? x = some n → p.arena.Loose n
  /-- The attributes that have nodes stand in the tag of the element, each with a node of its own. -/
  written : ∀ x, p.Written x (p.writtenOf x)

namespace Synced

variable {p : Page} {x y : ElementId} {n c : NodeId}

theorem find?_page (h : p.Synced) :
    ∃ g, p.arena.find? Arena.root = some ⟨.page p.arena.content, g⟩ :=
  h.sound.find?_page

theorem root_backing (h : p.Synced) : p.backing? root = some Arena.root :=
  backing?_of_form? h.root_form

theorem body_backing (h : p.Synced) : p.backing? body = some p.arena.content :=
  backing?_of_form? h.body_form

theorem body_container (h : p.Synced) : p.container? body = some p.arena.content :=
  container?_of_form? h.body_form

theorem root_container (h : p.Synced) : p.container? root = none := by
  obtain ⟨g, hp⟩ := h.find?_page
  rw [container?_of_form? h.root_form]
  simp [Arena.container?, hp, contentOf?]

theorem backing_lt (h : p.Synced) (hn : p.backing? x = some n) : n.index < p.arena.size := by
  obtain ⟨k, b, hf, rfl⟩ := exists_of_backing? hn
  match b, h.writes hf with
  | .markup _, ⟨m, hm, _⟩ => exact Arena.index_lt_of_find? hm
  | .tag _, ⟨m, hm, _⟩ => exact Arena.index_lt_of_find? hm

theorem find?_backing (h : p.Synced) (hn : p.backing? x = some n) (hx : x ≠ body) :
    ∃ m, p.arena.find? n = some m ∧ m.payload.isList = false := by
  obtain ⟨k, b, hf, rfl⟩ := exists_of_backing? hn
  match b, h.writes hf with
  | .markup _, ⟨m, hm, hk⟩ =>
    refine ⟨m, hm, Bool.eq_false_iff.2 fun hl => hx ?_⟩
    obtain rfl := Kind.eq_body_of_marks_list hl hk
    exact h.eq_body hf
  | .tag _, ⟨m, hm, hk⟩ =>
    refine ⟨m, hm, ?_⟩
    cases hp : m.payload <;> simp_all [Kind.tags, Payload.isList]

theorem exists_link (h : p.Synced) {o : Option Backing} (hf : p.form? x = some (.link, o)) :
    ∃ n target title g, o = some (.markup n) ∧ p.arena.find? n = some ⟨.link target title, g⟩ := by
  match o, h.writes hf with
  | some (.markup n), ⟨⟨q, g⟩, hn, hk⟩ =>
    cases q with
    | link target title => exact ⟨n, target, title, g, rfl, hn⟩
    | _ => cases hk
  | some (.tag n), ⟨⟨q, g⟩, hn, hk⟩ => cases q <;> cases hk

theorem container_cases (h : p.Synced) (hc : p.container? x = some c) :
    (x = body ∧ c = p.arena.content) ∨
      ∃ n m, p.backing? x = some n ∧ p.arena.find? n = some m ∧ (c, Role.content) ∈ m.payload.slots := by
  obtain ⟨k, b, hf, hcb⟩ := exists_of_container? hc
  match b, h.writes hf, hcb with
  | .markup node, ⟨m, hm, hk⟩, hcb =>
    by_cases hkb : k = .body
    · subst hkb
      obtain rfl := h.eq_body hf
      refine .inl ⟨rfl, ?_⟩
      have := h.body_container
      rw [hc] at this
      exact Option.some.inj this
    · refine .inr ⟨node, m, backing?_of_form? hf, hm, mem_slots_of_contentOf? ?_⟩
      simpa [Arena.container?, hkb, hm] using hcb
  | .tag node, ⟨m, hm, hk⟩, hcb =>
    refine .inr ⟨node, m, backing?_of_form? hf, hm, mem_slots_of_bodyOf? ?_⟩
    simpa [Arena.container?, hm] using hcb

/-- What holds of the container of an element holds with the page for the body and its content. -/
theorem container_slot (h : p.Synced) (hc : p.container? x = some c) :
    ∃ n m, p.arena.find? n = some m ∧ (c, Role.content) ∈ m.payload.slots ∧
      ((x = body ∧ n = Arena.root) ∨ p.backing? x = some n) := by
  rcases h.container_cases hc with ⟨rfl, rfl⟩ | ⟨n, m, hn, hm, hs⟩
  · obtain ⟨g, hp⟩ := h.find?_page
    exact ⟨Arena.root, _, hp, List.mem_singleton_self _, .inl ⟨rfl, rfl⟩⟩
  · exact ⟨n, m, hm, hs, .inr hn⟩

theorem find?_container (h : p.Synced) (hc : p.container? x = some c) :
    ∃ items, p.arena.find? c = some ⟨.list items, none⟩ := by
  obtain ⟨n, m, hm, hs, -⟩ := h.container_slot hc
  exact h.sound.find?_slot hm hs

theorem container_inj (h : p.Synced) (hx : p.container? x = some c) (hy : p.container? y = some c) :
    x = y := by
  obtain ⟨n, m, hm, hs, hn⟩ := h.container_slot hx
  obtain ⟨n', m', hm', hs', hn'⟩ := h.container_slot hy
  have hk : c ∈ p.arena.kids n := by
    rw [Arena.kids_of_find? hm]
    exact Payload.children_of_mem_slots hs
  have hk' : c ∈ p.arena.kids n' := by
    rw [Arena.kids_of_find? hm']
    exact Payload.children_of_mem_slots hs'
  obtain rfl := h.sound.single hk hk'
  rcases hn with ⟨rfl, rfl⟩ | hn <;> rcases hn' with ⟨rfl, hr⟩ | hn'
  · rfl
  · have := h.backing_inj hn' h.root_backing
    subst this
    rw [h.root_container] at hy
    cases hy
  · subst hr
    have := h.backing_inj hn h.root_backing
    subst this
    rw [h.root_container] at hx
    cases hx
  · exact h.backing_inj hn hn'

theorem linked_lt (h : p.Synced) (hn : p.Linked n) : n.index < p.arena.size := by
  obtain ⟨m, hm, -⟩ := h.linked hn
  exact Arena.index_lt_of_find? hm

theorem category_backing (h : p.Synced) {o : Option Backing} (hf : p.form? x = some (.category, o)) :
    p.backing? x = none := by
  rw [backing?_of_form? hf]
  match o, h.writes hf with
  | none, _ => rfl
  | some (.markup _), ⟨m, _, hk⟩ => cases hp : m.payload <;> rw [hp] at hk <;> cases hk
  | some (.tag _), ⟨m, _, hk⟩ => cases hp : m.payload <;> rw [hp] at hk <;> cases hk

/-- The node of an element stands in the container of the element's parent and nowhere else. -/
theorem home (h : p.Synced) (hn : p.backing? y = some n) (hy : y ≠ body) {l : NodeId}
    (hl : n ∈ p.arena.kids l) : ∃ x, p.parentOf y = some x ∧ p.container? x = some l := by
  cases hp : p.parentOf y with
  | none => exact absurd hl (h.loose hp hn l)
  | some x =>
    have hxr : x ≠ root := by
      rintro rfl
      rcases h.root_child hp with rfl | ⟨o, ho⟩
      · exact hy rfl
      · cases hn.symm.trans (h.category_backing ho)
    have hmem := h.parent_iff.1 hp
    cases hc : p.container? x with
    | none =>
      rw [h.bare hc hxr] at hmem
      cases hmem
    | some c =>
      have hk : n ∈ p.arena.kids c :=
        (h.kept hc).subset (List.mem_filterMap.2 ⟨y, hmem, hn⟩)
      obtain rfl := h.sound.single hk hl
      exact ⟨x, rfl, hc⟩

theorem mem_childrenOf_of_mem_kids (h : p.Synced) (hc : p.container? x = some c)
    (hn : p.backing? y = some n) (hk : n ∈ p.arena.kids c) : y ∈ p.childrenOf x := by
  have hy : y ≠ body := by
    rintro rfl
    obtain rfl := Option.some.inj (h.body_backing.symm.trans hn)
    obtain ⟨items, hl⟩ := h.find?_container hc
    obtain rfl := h.sound.single h.sound.content_mem hk
    obtain ⟨g, hp⟩ := h.find?_page
    cases hp.symm.trans hl
  obtain ⟨x', hp, hc'⟩ := h.home hn hy hk
  obtain rfl := h.container_inj hc hc'
  exact h.parent_iff.1 hp

theorem exists_backing (h : p.Synced) (hx : x ≠ root) (hy : y ∈ p.childrenOf x) :
    ∃ n, p.backing? y = some n := by
  have hp := h.parent_iff.2 hy
  have hf : ∃ f, p.form? y = some f := by
    unfold parentOf at hp
    cases he : p.find? y with
    | none => simp [he] at hp
    | some e => exact ⟨_, by rw [form?, he]; rfl⟩
  obtain ⟨⟨k, _ | b⟩, hf⟩ := hf
  · obtain rfl : k = .category := h.writes hf
    exact absurd (h.category_parent hf hp) hx
  · exact ⟨b.node, backing?_of_form? hf⟩

/-- The nodes reached from the node of an element are those of elements below it, as far as they are
nodes of elements at all. -/
theorem reaches_of_reaches (h : p.Synced) {m : NodeId} (hn : p.backing? x = some n) (hx : x ≠ body)
    (hr : Reaches p.arena.kids n m) :
    (∀ y, p.backing? y = some m → Reaches p.childrenOf x y) ∧
      ∀ y, p.container? y = some m → Reaches p.childrenOf x y := by
  induction hr with
  | refl =>
    refine ⟨fun y hy => ?_, fun y hy => ?_⟩
    · obtain rfl := h.backing_inj hn hy
      exact .refl
    · obtain ⟨items, hi⟩ := h.find?_container hy
      obtain ⟨m, hm, hl⟩ := h.find?_backing hn hx
      obtain rfl := Option.some.inj (hi.symm.trans hm)
      cases hl
  | @tail l m _ hm ih =>
    have main (y : ElementId) (hy : p.backing? y = some m) : Reaches p.childrenOf x y := by
      by_cases hb : y = body
      · subst hb
        obtain rfl := Option.some.inj (h.body_backing.symm.trans hy)
        obtain rfl := h.sound.single h.sound.content_mem hm
        exact (ih.1 root h.root_backing).tail (h.parent_iff.1 h.body_parent)
      · obtain ⟨z, hz, hc⟩ := h.home hy hb hm
        exact (ih.2 z hc).tail (h.parent_iff.1 hz)
    refine ⟨main, fun y hy => ?_⟩
    obtain ⟨l', m', hm', hs, hl'⟩ := h.container_slot hy
    have hk : m ∈ p.arena.kids l' := by
      rw [Arena.kids_of_find? hm']
      exact Payload.children_of_mem_slots hs
    obtain rfl := h.sound.single hk hm
    rcases hl' with ⟨rfl, rfl⟩ | hl'
    · exact (ih.1 root h.root_backing).tail (h.parent_iff.1 h.body_parent)
    · exact ih.1 y hl'

theorem role_of_container (h : p.Synced) (hc : p.container? x = some c) {m : Node} {role : Role}
    (hm : p.arena.find? n = some m) (hs : (c, role) ∈ m.payload.slots) : role = .content := by
  obtain ⟨n', m', hm', hs', -⟩ := h.container_slot hc
  exact (h.sound.role_unique hm hm' hs hs').2

theorem container?_ne_attributeList (h : p.Synced) (hc : p.attributeList? x = some c)
    (y : ElementId) : p.container? y ≠ some c := by
  intro hy
  obtain ⟨k, tag, m, -, hm, hs⟩ := exists_of_attributeList? hc
  cases h.role_of_container hy hm hs

theorem exists_of_written (h : p.Synced) (hn : n ∈ p.writtenOf x) :
    ∃ c, p.attributeList? x = some c ∧ n ∈ p.arena.kids c :=
  (h.written x).2 n hn

theorem attributeList?_ne_none (h : p.Synced) {k : Kind}
    (hx : p.form? x = some (k, some (.tag n))) : p.attributeList? x ≠ none := by
  obtain ⟨⟨q, g⟩, hm, hk⟩ := h.writes hx
  cases q with
  | element name empty attributes body =>
    simp [attributeList?_of_form? hx, Arena.attributeList?, hm, attributesOf?]
  | _ => cases hk

theorem find?_written (h : p.Synced) (hn : n ∈ p.writtenOf x) :
    ∃ name hasValue value g, p.arena.find? n = some ⟨.attr name hasValue value, g⟩ := by
  obtain ⟨c, hc, hk⟩ := h.exists_of_written hn
  obtain ⟨k, tag, m, -, hm, hs⟩ := exists_of_attributeList? hc
  obtain ⟨items, hi, hitems⟩ := (h.sound.fits hm).lists _ hs
  have hki : p.arena.kids c = items := Arena.kids_of_find? hi
  obtain ⟨⟨q, g⟩, hm', ha⟩ := hitems n (hki ▸ hk)
  cases q with
  | attr name hasValue value => exact ⟨name, hasValue, value, g, hm'⟩
  | _ => cases ha

/-- What is written for an element stands in its tag and nowhere else. -/
theorem attributeList?_of_written (h : p.Synced) (hn : n ∈ p.writtenOf x)
    (hk : n ∈ p.arena.kids c) : p.attributeList? x = some c := by
  obtain ⟨l, hl, hkl⟩ := h.exists_of_written hn
  obtain rfl := h.sound.single hk hkl
  exact hl

theorem attributeList?_inj (h : p.Synced) (hx : p.attributeList? x = some c)
    (hy : p.attributeList? y = some c) : x = y := by
  obtain ⟨k, tag, m, hf, hm, hs⟩ := exists_of_attributeList? hx
  obtain ⟨k', tag', m', hf', hm', hs'⟩ := exists_of_attributeList? hy
  obtain rfl := (h.sound.role_unique hm hm' hs hs').1
  exact h.backing_inj (backing?_of_form? hf) (backing?_of_form? hf')

theorem written_inj (h : p.Synced) (hx : n ∈ p.writtenOf x) (hy : n ∈ p.writtenOf y) : x = y := by
  obtain ⟨c, hc, hk⟩ := h.exists_of_written hx
  exact h.attributeList?_inj hc (h.attributeList?_of_written hy hk)

theorem container?_of_arena (h : p.Synced) {b : Arena} (he : p.arena.Evolves b) (x : ElementId) :
    container? { p with arena := b } x = p.container? x := by
  change (p.form? x).bind _ = (p.form? x).bind _
  cases hf : p.form? x with
  | none => rfl
  | some f => exact he.container?_eq (h.writes hf)

theorem attributeList?_of_arena (h : p.Synced) {b : Arena} (he : p.arena.Evolves b)
    (x : ElementId) : attributeList? { p with arena := b } x = p.attributeList? x := by
  change (p.form? x).bind _ = (p.form? x).bind _
  cases hf : p.form? x with
  | none => rfl
  | some f => exact he.attributeList?_eq (h.writes hf)

/-- The arena may change in whatever way leaves the nodes of the elements and of their attributes where
they are. -/
theorem of_arena (h : p.Synced) {b : Arena} (hs : b.Sound) (he : p.arena.Evolves b)
    (hk : ∀ {x c}, p.container? x = some c →
      ((p.childrenOf x).filterMap p.backing?).Sublist (b.kids c))
    (hl : ∀ {x n}, p.parentOf x = none → p.backing? x = some n → b.Loose n)
    (hw : ∀ {x n c}, n ∈ p.writtenOf x → n ∈ p.arena.kids c → n ∈ b.kids c) :
    Synced { p with arena := b } where
  sound := hs
  writes hf := he.writes (h.writes hf)
  root_form := h.root_form
  body_form := by
    rw [he.content_eq h.sound]
    exact h.body_form
  eq_root := h.eq_root
  eq_body := h.eq_body
  backing_inj := h.backing_inj
  linked hn := he.writes (h.linked hn)
  unlinked := h.unlinked
  forest := h.forest
  parent_iff := h.parent_iff
  root_parent := h.root_parent
  body_parent := h.body_parent
  root_child := h.root_child
  category_parent := h.category_parent
  indexed := h.indexed
  bare {x} hc hx := by
    rw [h.container?_of_arena he] at hc
    exact h.bare hc hx
  kept {x c} hc := by
    rw [h.container?_of_arena he] at hc
    exact hk hc
  loose := hl
  written x := by
    refine ⟨(h.written x).1, fun n hn => ?_⟩
    obtain ⟨c, hc, hk⟩ := h.exists_of_written hn
    exact ⟨c, (h.attributeList?_of_arena he x).trans hc, hw hn hk⟩

theorem of_sameShape (h : p.Synced) {q : Page} (hq : p.SameShape q) : q.Synced := by
  have hb : q.backing? = p.backing? := by
    funext x
    rw [backing?, hq.form]
    rfl
  have hc : q.container? = p.container? := by
    funext x
    rw [container?, hq.form, hq.arena]
    rfl
  have ha : q.attributeList? = p.attributeList? := by
    funext x
    rw [attributeList?, hq.form, hq.arena]
    rfl
  constructor
  case linked =>
    intro n hn
    rw [hq.arena]
    exact (hq.linked n hn).elim (fun hn => h.linked hn) And.left
  case unlinked =>
    intro n hn x
    rw [hb]
    exact (hq.linked n hn).elim (fun hn => h.unlinked hn x) fun hn => hn.2 x
  case indexed =>
    intro k x hk
    rw [hq.form]
    exact (hq.indexed k x hk).elim h.indexed id
  case written =>
    intro x
    rw [Written, ha, hq.arena]
    rcases hq.written x with hw | hw
    · exact hw ▸ h.written x
    · exact hw
  all_goals
    simp only [hq.arena, hq.form, hq.children, hq.parent, hb, hc]
  exacts [h.sound, h.writes, h.root_form, h.body_form, h.eq_root, h.eq_body, h.backing_inj, h.forest,
    h.parent_iff, h.root_parent, h.body_parent, h.root_child, h.category_parent, h.bare, h.kept,
    h.loose]

end Synced

/-- One element has another list of children. The new ones were on no page, and the element is not below
them; those left out are on no page any more. -/
structure Relinks (p : Page) (x : ElementId) (ch : List ElementId) (q : Page) : Prop where
  sound : q.arena.Sound
  evolves : p.arena.Evolves q.arena
  form : q.form? = p.form?
  written : q.writtenOf = p.writtenOf
  linked : ∀ n, q.Linked n → p.Linked n
  categories : q.categories = p.categories
  children : ∀ y, q.childrenOf y = if y = x then ch else p.childrenOf y
  parents : ∀ y, q.parentOf y =
    if y ∈ ch then some x else if y ∈ p.childrenOf x then none else p.parentOf y
  nodup : ch.Nodup
  new : ∀ y ∈ ch, y ∉ p.childrenOf x → y ≠ root ∧ p.parentOf y = none ∧ ¬Reaches p.childrenOf y x
  page : x = root → body ∈ ch ∧ ∀ y ∈ ch, y = body ∨ ∃ o, p.form? y = some (.category, o)
  category : ∀ y ∈ ch, ∀ o, p.form? y = some (.category, o) → x = root
  container : x ≠ root → ∃ c, p.container? x = some c
  kids : ∀ c, p.container? x ≠ some c → q.arena.kids c = p.arena.kids c
  kept : ∀ c, p.container? x = some c → (ch.filterMap p.backing?).Sublist (q.arena.kids c)
  back : ∀ c, p.container? x = some c → ∀ y n, p.backing? y = some n → n ∈ q.arena.kids c → y ∈ ch

namespace Relinks

variable {p q : Page} {x y z : ElementId} {ch : List ElementId} {n c : NodeId}

theorem backing?_eq (hq : p.Relinks x ch q) : q.backing? = p.backing? := by
  funext y
  rw [backing?, hq.form]
  rfl

theorem container?_eq (hq : p.Relinks x ch q) (h : p.Synced) : q.container? = p.container? := by
  funext y
  rw [container?, hq.form]
  exact h.container?_of_arena hq.evolves y

theorem eq_of_mem (hq : p.Relinks x ch q) (h : p.Synced) (hy : y ∈ ch) (hz : y ∈ p.childrenOf z) :
    z = x := by
  by_cases hx : y ∈ p.childrenOf x
  · exact h.forest.single hz hx
  · rw [← h.parent_iff, (hq.new y hy hx).2.1] at hz
    cases hz

theorem forest (hq : p.Relinks x ch q) (h : p.Synced) : Forest q.childrenOf := by
  have hx : q.childrenOf x = ch := by rw [hq.children, if_pos rfl]
  refine h.forest.of_kids_eq (c := x) (fun z hz => by rw [hq.children, if_neg hz]) (hx ▸ hq.nodup) ?_ ?_
  · intro y hy z hz hyz
    exact hz (hq.eq_of_mem h (hx ▸ hy) hyz)
  · intro y hy
    by_cases hyx : y ∈ p.childrenOf x
    · exact h.forest.not_reaches hyx
    · exact (hq.new y (hx ▸ hy) hyx).2.2

theorem parent_iff (hq : p.Relinks x ch q) (h : p.Synced) :
    q.parentOf y = some z ↔ y ∈ q.childrenOf z := by
  rw [hq.parents, hq.children]
  by_cases hy : y ∈ ch
  · rw [if_pos hy]
    by_cases hz : z = x
    · simp [hz, hy]
    · rw [if_neg hz]
      exact ⟨fun he => absurd (Option.some.inj he).symm hz, fun hyz => absurd (hq.eq_of_mem h hy hyz) hz⟩
  · rw [if_neg hy]
    by_cases hyx : y ∈ p.childrenOf x
    · rw [if_pos hyx]
      by_cases hz : z = x
      · simp [hz, hy]
      · rw [if_neg hz]
        exact ⟨fun he => absurd he.symm (Option.some_ne_none z),
          fun hyz => absurd (h.forest.single hyz hyx) hz⟩
    · rw [if_neg hyx, h.parent_iff]
      by_cases hz : z = x
      · simp [hz, hy, hyx]
      · rw [if_neg hz]

theorem root_parent (hq : p.Relinks x ch q) (h : p.Synced) : q.parentOf root = none := by
  have hx : root ∉ p.childrenOf x := fun hr => by
    rw [← h.parent_iff, h.root_parent] at hr
    cases hr
  rw [hq.parents, if_neg fun hr => (hq.new root hr hx).1 rfl, if_neg hx, h.root_parent]

theorem body_parent (hq : p.Relinks x ch q) (h : p.Synced) : q.parentOf body = some root := by
  rw [hq.parents]
  by_cases hx : x = root
  · rw [if_pos (hq.page hx).1, hx]
  · have hbx : body ∉ p.childrenOf x := fun hr => by
      rw [← h.parent_iff, h.body_parent] at hr
      exact hx (Option.some.inj hr).symm
    rw [if_neg, if_neg hbx, h.body_parent]
    intro hr
    cases h.body_parent.symm.trans (hq.new body hr hbx).2.1

theorem root_child (hq : p.Relinks x ch q) (h : p.Synced) (hy : q.parentOf y = some root) :
    y = body ∨ ∃ o, p.form? y = some (.category, o) := by
  rw [hq.parents] at hy
  split at hy
  · exact (hq.page (Option.some.inj hy)).2 y ‹_›
  · split at hy
    · cases hy
    · exact h.root_child hy

theorem category_parent (hq : p.Relinks x ch q) (h : p.Synced) {o : Option Backing}
    (hf : p.form? y = some (.category, o)) (hy : q.parentOf y = some z) : z = root := by
  rw [hq.parents] at hy
  split at hy
  · obtain rfl := Option.some.inj hy
    exact hq.category y ‹_› o hf
  · split at hy
    · cases hy
    · exact h.category_parent hf hy

theorem bare (hq : p.Relinks x ch q) (h : p.Synced) (hz : p.container? z = none) (hr : z ≠ root) :
    q.childrenOf z = [] := by
  rw [hq.children, if_neg]
  · exact h.bare hz hr
  · rintro rfl
    obtain ⟨c, hc⟩ := hq.container hr
    cases hz.symm.trans hc

theorem sublist_kids (hq : p.Relinks x ch q) (h : p.Synced) (hz : p.container? z = some c) :
    ((q.childrenOf z).filterMap p.backing?).Sublist (q.arena.kids c) := by
  rw [hq.children]
  split
  · subst z
    exact hq.kept c hz
  · rw [hq.kids c fun hc => ‹¬z = x› (h.container_inj hz hc)]
    exact h.kept hz

theorem loose (hq : p.Relinks x ch q) (h : p.Synced) (hy : q.parentOf y = none)
    (hn : p.backing? y = some n) : q.arena.Loose n := by
  intro l hl
  rw [hq.parents] at hy
  split at hy
  · cases hy
  · rename_i hych
    by_cases hlx : p.container? x = some l
    · exact hych (hq.back l hlx y n hn hl)
    · rw [hq.kids l hlx] at hl
      split at hy
      · rename_i hyx
        by_cases hx : x = root
        · rcases h.root_child (hx ▸ h.parent_iff.2 hyx) with rfl | ⟨o, ho⟩
          · exact hych (hq.page hx).1
          · cases hn.symm.trans (h.category_backing ho)
        · obtain ⟨c, hxc⟩ := hq.container hx
          have hnc := (h.kept hxc).subset (List.mem_filterMap.2 ⟨y, hyx, hn⟩)
          obtain rfl := h.sound.single hnc hl
          exact hlx hxc
      · exact h.loose hy hn l hl

theorem written_mem (hq : p.Relinks x ch q) (h : p.Synced) (y : ElementId) :
    q.Written y (p.writtenOf y) := by
  refine ⟨(h.written y).1, fun n hn => ?_⟩
  obtain ⟨c, hyc, hk⟩ := h.exists_of_written hn
  refine ⟨c, ?_, hq.kids c (h.container?_ne_attributeList hyc x) ▸ hk⟩
  rw [attributeList?, hq.form]
  exact (h.attributeList?_of_arena hq.evolves y).trans hyc

end Relinks

theorem Synced.relink {p q : Page} {x : ElementId} {ch : List ElementId} (h : p.Synced)
    (hq : p.Relinks x ch q) : q.Synced := by
  constructor
  case sound => exact hq.sound
  case writes => exact fun hf => hq.evolves.writes (h.writes (hq.form ▸ hf))
  case linked => exact fun hn => hq.evolves.writes (h.linked (hq.linked _ hn))
  case unlinked => exact fun hn => hq.backing?_eq ▸ h.unlinked (hq.linked _ hn)
  case body_form => rw [hq.form, hq.evolves.content_eq h.sound, h.body_form]
  case forest => exact hq.forest h
  case parent_iff => exact hq.parent_iff h
  case root_parent => exact hq.root_parent h
  case body_parent => exact hq.body_parent h
  case written => exact fun y => hq.written ▸ hq.written_mem h y
  all_goals simp only [hq.form, hq.backing?_eq, hq.categories, hq.container?_eq h]
  exacts [h.root_form, h.eq_root, h.eq_body, h.backing_inj, hq.root_child h, hq.category_parent h,
    h.indexed, hq.bare h, hq.sublist_kids h, hq.loose h]

/-- One element has another form, or is new; a new form has a node that no element had. All else stays,
and the nodes still stand where the elements say. -/
structure Reforms (p : Page) (x : ElementId) (k : Kind) (o : Option Backing) (q : Page) : Prop where
  sound : q.arena.Sound
  evolves : p.arena.Evolves q.arena
  form : ∀ y, q.form? y = if y = x then some (k, o) else p.form? y
  children : q.childrenOf = p.childrenOf
  parents : q.parentOf = p.parentOf
  written : q.writtenOf = p.writtenOf
  linked : ∀ n, q.Linked n → p.Linked n
  categories : q.categories = p.categories
  movable : k ≠ .page ∧ k ≠ .body
  old : ∀ {k' o'}, p.form? x = some (k', o') → k' = k ∧ k ≠ .category
  writes : q.arena.Writes k o
  fresh : ∀ n, o.map Backing.node = some n → ¬p.Linked n ∧ ∀ y, p.backing? y ≠ some n
  bare : q.arena.container? k o = none → p.childrenOf x = []
  kept_self : ∀ c, q.arena.container? k o = some c →
    ((p.childrenOf x).filterMap q.backing?).Sublist (q.arena.kids c)
  kept : ∀ {y c}, y ≠ x → p.container? y = some c →
    ((p.childrenOf y).filterMap q.backing?).Sublist (q.arena.kids c)
  loose : ∀ {y n}, p.parentOf y = none → q.backing? y = some n → q.arena.Loose n
  markup : p.attributeList? x = none
  attributes : ∀ {y m c}, m ∈ p.writtenOf y → m ∈ p.arena.kids c → m ∈ q.arena.kids c

namespace Reforms

variable {p q : Page} {x y z : ElementId} {k : Kind} {o : Option Backing} {n : NodeId}

theorem backing?_eq (hq : p.Reforms x k o q) (y : ElementId) :
    q.backing? y = if y = x then o.map Backing.node else p.backing? y := by
  rw [backing?, hq.form]
  split <;> rfl

theorem container?_self (hq : p.Reforms x k o q) : q.container? x = q.arena.container? k o := by
  rw [container?, hq.form, if_pos rfl]
  rfl

theorem container?_of_ne (hq : p.Reforms x k o q) (h : p.Synced) (hy : y ≠ x) :
    q.container? y = p.container? y := by
  rw [container?, hq.form, if_neg hy]
  exact h.container?_of_arena hq.evolves y

theorem form?_of_ne (hq : p.Reforms x k o q) {k' : Kind} {o' : Option Backing}
    (hf : p.form? y = some (k', o')) (hk : k' = .page ∨ k' = .body ∨ k' = .category) :
    q.form? y = some (k', o') := by
  rw [hq.form, if_neg, hf]
  rintro rfl
  obtain ⟨rfl, hc⟩ := hq.old hf
  rcases hk with hk | hk | hk
  · exact hq.movable.1 hk
  · exact hq.movable.2 hk
  · exact hc hk

theorem form?_of_kind (hq : p.Reforms x k o q) {k' : Kind} {o' : Option Backing}
    (hf : q.form? y = some (k', o')) (hk : k' ≠ k) : p.form? y = some (k', o') := by
  rw [hq.form] at hf
  split at hf
  · exact absurd (Prod.mk.inj (Option.some.inj hf)).1.symm hk
  · exact hf

theorem backing_inj (hq : p.Reforms x k o q) (h : p.Synced) (hy : q.backing? y = some n)
    (hz : q.backing? z = some n) : y = z := by
  rw [hq.backing?_eq] at hy hz
  split at hy <;> split at hz
  · simp_all
  · exact absurd hz ((hq.fresh n hy).2 z)
  · exact absurd hy ((hq.fresh n hz).2 y)
  · exact h.backing_inj hy hz

theorem unlinked (hq : p.Reforms x k o q) (h : p.Synced) (hn : q.Linked n) (y : ElementId) :
    q.backing? y ≠ some n := by
  intro hy
  rw [hq.backing?_eq] at hy
  split at hy
  · exact (hq.fresh n hy).1 (hq.linked n hn)
  · exact h.unlinked (hq.linked n hn) y hy

theorem category_parent (hq : p.Reforms x k o q) (h : p.Synced) {o' : Option Backing}
    (hf : q.form? y = some (.category, o')) (hy : p.parentOf y = some z) : z = root := by
  rw [hq.form] at hf
  split at hf
  · subst y
    obtain ⟨e, he, -⟩ := Option.bind_eq_some_iff.1 hy
    exact absurd (Prod.mk.inj (Option.some.inj hf)).1 (hq.old (form?_of_find? he)).2
  · exact h.category_parent hf hy

theorem written_mem (hq : p.Reforms x k o q) (h : p.Synced) (y : ElementId) :
    q.Written y (p.writtenOf y) := by
  refine ⟨(h.written y).1, fun n hn => ?_⟩
  obtain ⟨c, hyc, hk⟩ := h.exists_of_written hn
  refine ⟨c, ?_, hq.attributes hn hk⟩
  rw [attributeList?, hq.form, if_neg]
  · exact (h.attributeList?_of_arena hq.evolves y).trans hyc
  · rintro rfl
    cases hq.markup.symm.trans hyc

end Reforms

theorem Synced.reform {p q : Page} {x : ElementId} {k : Kind} {o : Option Backing} (h : p.Synced)
    (hq : p.Reforms x k o q) : q.Synced := by
  constructor
  case sound => exact hq.sound
  case writes =>
    intro y k' o' hf
    rw [hq.form] at hf
    split at hf
    · obtain ⟨rfl, rfl⟩ := Prod.mk.inj (Option.some.inj hf)
      exact hq.writes
    · exact hq.evolves.writes (h.writes hf)
  case root_form => exact hq.form?_of_ne h.root_form (.inl rfl)
  case body_form =>
    rw [hq.evolves.content_eq h.sound]
    exact hq.form?_of_ne h.body_form (.inr (.inl rfl))
  case eq_root => exact fun hf => h.eq_root (hq.form?_of_kind hf hq.movable.1.symm)
  case eq_body => exact fun hf => h.eq_body (hq.form?_of_kind hf hq.movable.2.symm)
  case backing_inj => exact hq.backing_inj h
  case linked => exact fun hn => hq.evolves.writes (h.linked (hq.linked _ hn))
  case unlinked => exact hq.unlinked h
  case indexed =>
    intro key y hy
    obtain ⟨o', ho⟩ := h.indexed (hq.categories ▸ hy)
    exact ⟨o', hq.form?_of_ne ho (.inr (.inr rfl))⟩
  case written => exact fun y => hq.written ▸ hq.written_mem h y
  all_goals simp only [hq.children, hq.parents]
  case forest => exact h.forest
  case parent_iff => exact h.parent_iff
  case root_parent => exact h.root_parent
  case body_parent => exact h.body_parent
  case root_child =>
    intro y hy
    exact (h.root_child hy).imp id fun ⟨o', ho⟩ => ⟨o', hq.form?_of_ne ho (.inr (.inr rfl))⟩
  case category_parent => exact hq.category_parent h
  case bare =>
    intro y hy hr
    by_cases hyx : y = x
    · subst hyx
      exact hq.bare (hq.container?_self ▸ hy)
    · exact h.bare (hq.container?_of_ne h hyx ▸ hy) hr
  case kept =>
    intro y c hy
    by_cases hyx : y = x
    · subst hyx
      exact hq.kept_self c (hq.container?_self ▸ hy)
    · exact hq.kept hyx (hq.container?_of_ne h hyx ▸ hy)
  case loose => exact hq.loose

/-- A new element is on no page. -/
structure Adds (p : Page) (x : ElementId) (k : Kind) (o : Option Backing) (q : Page) : Prop where
  arena : q.arena = p.arena
  free : p.form? x = none
  form : ∀ y, q.form? y = if y = x then some (k, o) else p.form? y
  children : q.childrenOf = p.childrenOf
  parents : q.parentOf = p.parentOf
  written : q.writtenOf = p.writtenOf
  linked : ∀ n, q.Linked n → p.Linked n
  categories : q.categories = p.categories
  movable : k ≠ .page ∧ k ≠ .body
  writes : p.arena.Writes k o
  node : ∀ n, o.map Backing.node = some n →
    p.arena.Loose n ∧ ¬p.Linked n ∧ ∀ y, p.backing? y ≠ some n

namespace Adds

variable {p q : Page} {x y : ElementId} {k : Kind} {o : Option Backing} {n : NodeId}

theorem childrenOf_eq_nil (hq : p.Adds x k o q) : p.childrenOf x = [] := by
  simp [childrenOf, Tree.kids, Option.map_eq_none_iff.1 hq.free]

theorem not_mem_childrenOf (hq : p.Adds x k o q) (h : p.Synced) (y : ElementId) :
    x ∉ p.childrenOf y := by
  rw [← h.parent_iff, parentOf, Option.map_eq_none_iff.1 hq.free]
  simp

theorem backing?_of_ne (hq : p.Adds x k o q) (hy : y ≠ x) : q.backing? y = p.backing? y := by
  rw [backing?, hq.form, if_neg hy]
  rfl

theorem reforms (hq : p.Adds x k o q) (h : p.Synced) : p.Reforms x k o q where
  sound := hq.arena ▸ h.sound
  evolves := hq.arena ▸ .refl _
  form := hq.form
  children := hq.children
  parents := hq.parents
  written := hq.written
  linked := hq.linked
  categories := hq.categories
  movable := hq.movable
  old hf := by cases hq.free.symm.trans hf
  writes := hq.arena ▸ hq.writes
  fresh n hn := (hq.node n hn).2
  bare _ := hq.childrenOf_eq_nil
  kept_self c _ := by
    rw [hq.childrenOf_eq_nil]
    exact List.nil_sublist _
  kept {y c} _ hc := by
    have hb : (p.childrenOf y).filterMap q.backing? = (p.childrenOf y).filterMap p.backing? :=
      List.filterMap_congr fun z hz => hq.backing?_of_ne fun hx => hq.not_mem_childrenOf h y (hx ▸ hz)
    rw [hb, hq.arena]
    exact h.kept hc
  loose {y n} hy hn := by
    rw [hq.arena]
    by_cases hyx : y = x
    · rw [backing?, hq.form, if_pos hyx] at hn
      exact (hq.node n hn).1
    · exact h.loose hy (hq.backing?_of_ne hyx ▸ hn)
  markup := by
    rw [attributeList?, hq.free]
    rfl
  attributes _ hk := hq.arena ▸ hk

end Adds

theorem Synced.add {p q : Page} {x : ElementId} {k : Kind} {o : Option Backing} (h : p.Synced)
    (hq : p.Adds x k o q) : q.Synced :=
  h.reform (hq.reforms h)

/-- An element has another node, in the place of the old one. -/
structure Rehangs (p : Page) (x : ElementId) (n n' : NodeId) (k : Kind) (o : Option Backing)
    (q : Page) : Prop where
  sound : q.arena.Sound
  evolves : p.arena.Evolves q.arena
  backing : p.backing? x = some n
  old : ∃ o', p.form? x = some (k, o')
  movable : k ≠ .page ∧ k ≠ .body
  form : ∀ y, q.form? y = if y = x then some (k, o) else p.form? y
  children : q.childrenOf = p.childrenOf
  parents : q.parentOf = p.parentOf
  written : q.writtenOf = p.writtenOf
  linked : ∀ m, q.Linked m → p.Linked m
  categories : q.categories = p.categories
  node : o.map Backing.node = some n'
  fresh : ¬p.Linked n' ∧ ∀ y, p.backing? y ≠ some n'
  writes : q.arena.Writes k o
  kids : ∀ {y c}, p.container? y = some c → y ≠ x →
    q.arena.kids c = (p.arena.kids c).map fun m => if m = n then n' else m
  bare : q.arena.container? k o = none → p.childrenOf x = []
  kept : ∀ c, q.arena.container? k o = some c →
    ((p.childrenOf x).filterMap p.backing?).Sublist (q.arena.kids c)
  loose_new : p.parentOf x = none → q.arena.Loose n'
  loose : ∀ {y m}, p.parentOf y = none → p.backing? y = some m → p.arena.Loose m → y ≠ x →
    q.arena.Loose m
  markup : p.attributeList? x = none
  attributes : ∀ {y m c}, m ∈ p.writtenOf y → m ∈ p.arena.kids c → m ∈ q.arena.kids c

namespace Rehangs

variable {p q : Page} {x y : ElementId} {k : Kind} {o : Option Backing} {n n' : NodeId}

theorem backing?_eq (hq : p.Rehangs x n n' k o q) (y : ElementId) :
    q.backing? y = if y = x then some n' else p.backing? y := by
  rw [backing?, hq.form]
  split
  · exact hq.node
  · rfl

theorem filterMap_self (hq : p.Rehangs x n n' k o q) (h : p.Synced) :
    (p.childrenOf x).filterMap q.backing? = (p.childrenOf x).filterMap p.backing? := by
  refine List.filterMap_congr fun z hz => ?_
  rw [hq.backing?_eq, if_neg]
  rintro rfl
  exact h.forest.not_reaches hz .refl

theorem filterMap_eq (hq : p.Rehangs x n n' k o q) (h : p.Synced) (y : ElementId) :
    (p.childrenOf y).filterMap q.backing? =
      ((p.childrenOf y).filterMap p.backing?).map fun m => if m = n then n' else m := by
  rw [List.map_filterMap]
  refine List.filterMap_congr fun z _ => ?_
  rw [hq.backing?_eq]
  split
  · subst z
    simp [hq.backing]
  · cases hz : p.backing? z with
    | none => rfl
    | some m =>
      have hmn : m ≠ n := by
        rintro rfl
        exact ‹¬z = x› (h.backing_inj hz hq.backing)
      simp [hmn]

theorem reforms (hq : p.Rehangs x n n' k o q) (h : p.Synced) : p.Reforms x k o q where
  sound := hq.sound
  evolves := hq.evolves
  form := hq.form
  children := hq.children
  parents := hq.parents
  written := hq.written
  linked := hq.linked
  categories := hq.categories
  movable := hq.movable
  old {k' o'} hf := by
    obtain ⟨o₁, hx⟩ := hq.old
    obtain ⟨rfl, -⟩ := Prod.mk.inj (Option.some.inj (hx.symm.trans hf))
    refine ⟨rfl, ?_⟩
    rintro rfl
    cases hq.backing.symm.trans (h.category_backing hf)
  writes := hq.writes
  fresh m hm := by
    obtain rfl := Option.some.inj (hq.node.symm.trans hm)
    exact hq.fresh
  bare := hq.bare
  kept_self c hc := by
    rw [hq.filterMap_self h]
    exact hq.kept c hc
  kept {y c} hy hc := by
    rw [hq.filterMap_eq h, hq.kids hc hy]
    exact (h.kept hc).map _
  loose {y m} hy hm := by
    rw [hq.backing?_eq] at hm
    split at hm
    · subst y
      obtain rfl := Option.some.inj hm
      exact hq.loose_new hy
    · exact hq.loose hy hm (h.loose hy hm) ‹_›
  markup := hq.markup
  attributes := hq.attributes

end Rehangs

theorem Synced.rehang {p q : Page} {x : ElementId} {k : Kind} {o : Option Backing} {n n' : NodeId}
    (h : p.Synced) (hq : p.Rehangs x n n' k o q) : q.Synced :=
  h.reform (hq.reforms h)

namespace Synced

variable {p : Page} {x y : ElementId} {n c : NodeId}

theorem alike (h : p.Synced) {b : Arena} (hb : p.arena.Alike b) : Synced { p with arena := b } :=
  h.of_arena (hb.sound h.sound) hb.evolves (fun hc => hb.kids_eq ▸ h.kept hc)
    (fun hx hn l => hb.kids_eq ▸ h.loose hx hn l) fun _ hk => hb.kids_eq ▸ hk

theorem push (h : p.Synced) {m : Node} (hf : p.arena.Fits m) (hn : m.payload.children.Nodup)
    (hb : ∀ y ∈ m.payload.children, y.index < p.arena.size)
    (hl : ∀ y ∈ m.payload.children, p.arena.Loose y)
    (hx : ∀ y ∈ m.payload.children, ∀ x, p.backing? x ≠ some y) :
    Synced { p with arena := p.arena.push m } := by
  refine h.of_arena (h.sound.push hf hn hb hl) (Arena.Extends.push _ _).evolves
    (fun hc => ?_) (fun hp hb l hl => ?_) fun {x n c} _ hk => ?_
  · obtain ⟨items, hi⟩ := h.find?_container hc
    rw [Arena.kids_push, if_neg]
    · exact h.kept hc
    · rintro rfl
      exact Nat.lt_irrefl _ (Arena.index_lt_of_find? hi)
  · rw [Arena.kids_push] at hl
    split at hl
    · exact hx _ hl _ hb
    · exact h.loose hp hb l hl
  · rw [Arena.kids_push, if_neg]
    · exact hk
    · rintro rfl
      rw [Arena.kids_eq_nil (x := p.arena.next) (Nat.le_refl _)] at hk
      cases hk

theorem setItems (h : p.Synced) {items old : List NodeId}
    (hc : p.arena.find? c = some ⟨.list old, none⟩) (hn : items.Nodup)
    (hl : ∀ y ∈ items, ∀ x, x ≠ c → y ∉ p.arena.kids x)
    (hr : ∀ y ∈ items, ¬Reaches p.arena.kids y c) (hb : ∀ y ∈ items, y.index < p.arena.size)
    (hk : ∀ {id n role}, p.arena.find? id = some n → (c, role) ∈ n.payload.slots →
      ∀ x ∈ items, p.arena.Is role.admits x)
    (hkept : ∀ x, p.container? x = some c → ((p.childrenOf x).filterMap p.backing?).Sublist items)
    (hloose : ∀ {x m}, p.parentOf x = none → p.backing? x = some m → m ∉ items)
    (hwritten : ∀ {x m}, m ∈ p.writtenOf x → m ∈ old → m ∈ items) :
    Synced { p with arena := p.arena.setItems c items } := by
  refine h.of_arena (h.sound.setItems hc hn hl hr hb hk) (Arena.evolves_setItems hc items)
    (fun {x d} hd => ?_) (fun hp hb l hl => ?_) fun {x m d} hm hd => ?_
  · rw [Arena.kids_setItems (Arena.index_lt_of_find? hc)]
    split
    · subst d
      exact hkept x hd
    · exact h.kept hd
  · rw [Arena.kids_setItems (Arena.index_lt_of_find? hc)] at hl
    split at hl
    · exact hloose hp hb hl
    · exact h.loose hp hb l hl
  · rw [Arena.kids_setItems (Arena.index_lt_of_find? hc)]
    split
    · subst d
      have hold : p.arena.kids c = old := Arena.kids_of_find? hc
      exact hwritten hm (hold ▸ hd)
    · exact hd

theorem backing_not_mem (h : p.Synced) (hc : ∀ x, p.container? x ≠ some c) (hcr : c ≠ Arena.root)
    (hn : p.backing? x = some n) : n ∉ p.arena.kids c := by
  intro hk
  by_cases hx : x = body
  · subst hx
    obtain rfl := Option.some.inj (h.body_backing.symm.trans hn)
    exact hcr (h.sound.single hk h.sound.content_mem)
  · obtain ⟨y, _, hy⟩ := h.home hn hx hk
    exact hc y hy

theorem append_other (h : p.Synced) {s : List NodeId} (hc : p.arena.find? c = some ⟨.list s, none⟩)
    (hn : n.index < p.arena.size) (hl : p.arena.Loose n) (hx : ∀ x, p.backing? x ≠ some n)
    (hr : ¬Reaches p.arena.kids n c)
    (hk : ∀ {id m role}, p.arena.find? id = some m → (c, role) ∈ m.payload.slots →
      p.arena.Is role.admits n) : Synced { p with arena := p.arena.setItems c (s ++ [n]) } := by
  have hs : p.arena.kids c = s := Arena.kids_of_find? hc
  have hsn : n ∉ s := hs ▸ hl c
  have hmem {y : NodeId} (hy : y ∈ s ++ [n]) : y ∈ p.arena.kids c ∨ y = n := by
    rcases List.mem_append.1 hy with hy | hy
    · exact .inl (hs.symm ▸ hy)
    · exact .inr (List.mem_singleton.1 hy)
  refine h.setItems hc ?_ (fun y hy x hx hyx => ?_) (fun y hy => ?_) (fun y hy => ?_)
    (fun {id m role} hm hrole y hy => ?_) (fun x hx => ?_) (fun {x m} hx' hb hm => ?_)
    fun _ hm => List.mem_append_left _ hm
  · refine List.nodup_append'.2 ⟨hs ▸ h.sound.nodup c, List.nodup_singleton _, ?_⟩
    simpa using hsn
  · rcases hmem hy with hy | rfl
    · exact hx (h.sound.single hyx hy)
    · exact hl x hyx
  · rcases hmem hy with hy | rfl
    · exact h.sound.not_reaches hy
    · exact hr
  · rcases hmem hy with hy | rfl
    · exact h.sound.closed c y hy
    · exact hn
  · rcases hmem hy with hy | rfl
    · obtain ⟨items, hi, his⟩ := (h.sound.fits hm).lists _ hrole
      cases hc.symm.trans hi
      exact his y (hs ▸ hy)
    · exact hk hm hrole
  · exact (hs ▸ h.kept hx).trans (List.sublist_append_left s [n])
  · rcases hmem hm with hm | rfl
    · exact h.loose hx' hb c hm
    · exact hx x hb

theorem remove_other (h : p.Synced) {s t : List NodeId}
    (hc : p.arena.find? c = some ⟨.list (s ++ n :: t), none⟩) (hx : ∀ x, p.backing? x ≠ some n)
    (hw : ∀ x, n ∉ p.writtenOf x) : Synced { p with arena := p.arena.setItems c (s ++ t) } := by
  have hs : p.arena.kids c = s ++ n :: t := Arena.kids_of_find? hc
  have hsub : (s ++ t).Sublist (s ++ n :: t) := (List.sublist_cons_self n t).append_left s
  have hmem {y : NodeId} (hy : y ∈ s ++ t) : y ∈ p.arena.kids c := hs ▸ hsub.subset hy
  refine h.setItems hc (hsub.nodup (hs ▸ h.sound.nodup c))
    (fun y hy x hx hyx => hx (h.sound.single hyx (hmem hy)))
    (fun y hy => h.sound.not_reaches (hmem hy)) (fun y hy => h.sound.closed c y (hmem hy))
    (fun {id m role} hm hrole y hy => ?_) (fun x hxc => ?_)
    (fun hp hb hm => h.loose hp hb c (hmem hm)) fun {x m} hm hmo => ?_
  · obtain ⟨items, hi, his⟩ := (h.sound.fits hm).lists _ hrole
    cases hc.symm.trans hi
    exact his y (hsub.subset hy)
  · have hk := hs ▸ h.kept hxc
    obtain ⟨l₁, l₂, hl, h₁, h₂⟩ := List.sublist_append_iff.1 hk
    rw [hl]
    refine h₁.append ?_
    cases h₂ with
    | cons _ h₂ => exact h₂
    | cons_cons _ h₂ =>
      have hm : n ∈ (p.childrenOf x).filterMap p.backing? := by simp [hl]
      obtain ⟨y, _, hy⟩ := List.mem_filterMap.1 hm
      exact absurd hy (hx y)
  · rcases List.mem_append.1 hmo with hmo | hmo
    · exact List.mem_append_left _ hmo
    · rcases List.mem_cons.1 hmo with rfl | hmo
      · exact absurd hm (hw x)
      · exact List.mem_append_right _ hmo

end Synced
end Page
end WikiPage
