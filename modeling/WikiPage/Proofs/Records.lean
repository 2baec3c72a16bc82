import WikiPage.Proofs.Category
import WikiPage.Proofs.Spelling

/-!
# Records of categories

The page records its categories in several places: as children of the root, by key in the index, by
link among the owners, and by the links of each category. The records agree with each other and with the
arena, and every change of a category keeps them so.
-/

namespace WikiPage

open Page (Synced)

namespace Page

variable {p q r : Page} {id x : ElementId}

/-- The key of a category, by its stored name. -/
def key? (p : Page) (x : ElementId) : Option String :=
  (p.nameOf? x).map categoryKey

/-- Every link on record stands in its recorded container and backs one category, which has a name. -/
structure Recorded (p : Page) : Prop extends Synced p where
  placed : p.Placed
  links_nodup : ∀ x, ((p.linksOf x).map PlacedLink.link).Nodup
  owner_iff : ∀ {n x}, p.owners.find? n = some x ↔ n ∈ (p.linksOf x).map PlacedLink.link
  isCategory : ∀ {x}, p.linksOf x ≠ [] → p.IsCategory x
  named : ∀ {x}, p.IsCategory x → p.nameOf? x ≠ none
  /-- Names are stored with single blanks. -/
  normal : ∀ {x s}, p.nameOf? x = some s → Normalization.words.apply s = s

/-- The index holds the attached categories by their keys. They are those that have links, and their
links lead to them. -/
structure Indexed (p : Page) : Prop where
  index_iff : ∀ {k x}, p.categories.find? k = some x ↔ p.parentOf x = some root ∧ p.key? x = some k
  attached_iff : ∀ {x}, p.IsCategory x → (p.parentOf x = some root ↔ p.linksOf x ≠ [])
  keyed : ∀ {x l c}, l ∈ p.linksOf x → p.arena.categoryOf? p.site l.link = some c →
    p.key? x = some (categoryKey c)
  plain : ∀ {x s}, p.nameOf? x = some s → '#' ∉ s.toList
  front : ∃ ids, p.childrenOf root = body :: ids

/-- What is on record of one page and its index is so of the other. -/
structure Leads (p q : Page) : Prop where
  recorded : q.Recorded
  site : q.site = p.site
  isCategory : ∀ {x}, p.IsCategory x → q.IsCategory x
  indexed : p.site.NamesCategories → p.Indexed → q.Indexed
  mirrored : ∀ {whole}, p.Mirrored whole → q.Mirrored whole

theorem Recorded.leads_refl (h : p.Recorded) : p.Leads p :=
  ⟨h, rfl, fun hx => hx, fun _ hi => hi, id⟩

theorem Leads.trans (h : p.Leads q) (h' : q.Leads r) : p.Leads r where
  recorded := h'.recorded
  site := h'.site.trans h.site
  isCategory hx := h'.isCategory (h.isCategory hx)
  indexed hs hi := h'.indexed (h.site.symm ▸ hs) (h.indexed hs hi)
  mirrored hm := h'.mirrored (h.mirrored hm)

namespace Recorded

theorem inPlace (h : p.Recorded) (x : ElementId) : p.InPlace (p.linksOf x) :=
  ⟨h.placed x, h.links_nodup x⟩

/-- A link is on record for one category only. -/
theorem eq_of_mem (h : p.Recorded) {x y : ElementId} {n : NodeId}
    (hx : n ∈ (p.linksOf x).map PlacedLink.link) (hy : n ∈ (p.linksOf y).map PlacedLink.link) :
    x = y :=
  Option.some.inj ((h.owner_iff.2 hx).symm.trans (h.owner_iff.2 hy))

end Recorded

namespace Synced

theorem parentOf_eq_root_iff (hp : p.Synced) (hq : q.Synced)
    (h : q.childrenOf root = p.childrenOf root) :
    q.parentOf x = some root ↔ p.parentOf x = some root := by
  rw [hq.parent_iff, hp.parent_iff, h]

end Synced

namespace SameRecords

theorem linksOf_ne_nil_iff (h : p.SameRecords q) : q.linksOf x ≠ [] ↔ p.linksOf x ≠ [] := by
  have hl := h.links x
  rw [ne_eq, ne_eq, ← List.map_eq_nil_iff, hl, List.map_eq_nil_iff]

theorem recorded (h : p.SameRecords q) (hp : p.Recorded) (hq : q.Synced) : q.Recorded where
  toSynced := hq
  placed := h.placed hp.placed
  links_nodup x := by
    rw [h.links]
    exact hp.links_nodup x
  owner_iff := by
    intro n x
    rw [h.owners, h.links]
    exact hp.owner_iff
  isCategory hx := h.isCategory.2 (hp.isCategory (h.linksOf_ne_nil_iff.1 hx))
  named hx := by
    rw [h.nameOf?]
    exact hp.named (h.isCategory.1 hx)
  normal hs := hp.normal (h.nameOf? ▸ hs)

theorem indexed (h : p.SameRecords q) (hp : p.Synced) (hq : q.Synced) (hi : p.Indexed) :
    q.Indexed where
  index_iff := by
    intro k x
    rw [h.categories, hp.parentOf_eq_root_iff hq h.rootChildren, key?, h.nameOf?]
    exact hi.index_iff
  attached_iff hx := by
    rw [hp.parentOf_eq_root_iff hq h.rootChildren, h.linksOf_ne_nil_iff]
    exact hi.attached_iff (h.isCategory.1 hx)
  keyed := by
    intro x l c hl hc
    have hmem : l.link ∈ (p.linksOf x).map PlacedLink.link := by
      rw [← h.links]
      exact List.mem_map_of_mem hl
    obtain ⟨l', hl', he⟩ := List.mem_map.1 hmem
    rw [key?, h.nameOf?]
    refine hi.keyed hl' ?_
    rw [Arena.categoryOf?, h.target (Page.linked_iff.2 ⟨x, hmem⟩), h.site, ← he] at hc
    exact hc
  plain hn := by
    rw [h.nameOf?] at hn
    exact hi.plain hn
  front := by
    rw [h.rootChildren]
    exact hi.front

theorem leads (h : p.SameRecords q) (hp : p.Recorded) (hq : q.Synced)
    (hm : ∀ {whole}, p.Mirrored whole → q.Mirrored whole) : p.Leads q where
  recorded := h.recorded hp hq
  site := h.site
  isCategory := h.isCategory.2
  indexed _ := h.indexed hp.toSynced hq
  mirrored := hm

end SameRecords

theorem Calm.leads (h : p.Calm q) (hp : p.Recorded) : p.Leads q :=
  h.toSameRecords.leads hp h.synced h.mirrored

section

variable {g : ElementId → Element → Element}

theorem linksOf_of_map (hf : ∀ x, q.find? x = (p.find? x).map (g x))
    (hg : ∀ x e, (g x e).links = e.links) : q.linksOf = p.linksOf := by
  funext x
  rw [linksOf, linksOf, hf]
  cases p.find? x with
  | none => rfl
  | some e => simp [hg]

theorem nameOf?_of_map (hf : ∀ x, q.find? x = (p.find? x).map (g x))
    (hg : ∀ x e, (g x e).kind = e.kind ∧ (g x e).attributes = e.attributes) :
    q.nameOf? = p.nameOf? := by
  funext x
  rw [nameOf?, nameOf?, hf]
  cases p.find? x with
  | none => rfl
  | some e => simp [hg]

end

theorem Recorded.of_links (h : p.Recorded) (hq : q.Synced) (ha : q.arena.kids = p.arena.kids)
    (hf : q.form? = p.form?) (hl : q.linksOf = p.linksOf) (ho : q.owners = p.owners)
    (hn : ∀ x, q.nameOf? x = p.nameOf? x ∨ ∃ name, q.nameOf? x = some (Normalization.words.apply name)) :
    q.Recorded where
  toSynced := hq
  placed x l hm := by
    rw [hl] at hm
    rw [ha]
    exact h.placed x l hm
  links_nodup x := by
    rw [hl]
    exact h.links_nodup x
  owner_iff := by
    rw [hl, ho]
    exact h.owner_iff
  isCategory hx := by
    rw [hl] at hx
    exact (isCategory_congr hf).2 (h.isCategory hx)
  named {x} hx := by
    rcases hn x with hn | ⟨name, hn⟩ <;> rw [hn]
    · exact h.named ((isCategory_congr hf).1 hx)
    · exact Option.some_ne_none _
  normal {x s} hs := by
    rcases hn x with hn | ⟨name, hn⟩ <;> rw [hn] at hs
    · exact h.normal hs
    · exact Option.some.inj hs ▸ Normalization.words.apply_apply name

section

variable {name : String} {l : PlacedLink}

theorem linksOf_pushCategory : (p.push (newCategory name)).linksOf = p.linksOf := by
  funext x
  rw [linksOf, linksOf, find?_push]
  split
  · subst x
    simp [newCategory, find?, next]
  · rfl

theorem backing?_pushCategory : (p.push (newCategory name)).backing? = p.backing? := by
  funext x
  rw [backing?, backing?, form?, form?, find?_push]
  split
  · subst x
    simp [newCategory, find?, next]
  · rfl

theorem nameOf?_pushCategory (x : ElementId) : (p.push (newCategory name)).nameOf? x =
    if x = p.next then some (Normalization.words.apply name) else p.nameOf? x := by
  rw [nameOf?, nameOf?, find?_push]
  split
  · simp [newCategory, Attribute.find?]
  · rfl

theorem isCategory_pushCategory_iff :
    (p.push (newCategory name)).IsCategory x ↔ x = p.next ∨ p.IsCategory x := by
  rw [IsCategory, IsCategory, form?, form?, find?_push]
  by_cases hx : x = p.next <;> simp [hx, newCategory]

theorem childrenOf_pushCategory : (p.push (newCategory name)).childrenOf = p.childrenOf := by
  funext x
  rw [childrenOf, childrenOf, Tree.kids, Tree.kids, find?_push]
  split
  · subst x
    simp [newCategory, find?, next]
  · rfl

theorem Recorded.pushCategory (h : p.Recorded) (name : String) :
    (p.push (newCategory name)).Recorded where
  toSynced := h.toSynced.pushCategory name
  placed x l hl := h.placed x l (linksOf_pushCategory ▸ hl)
  links_nodup x := by
    rw [linksOf_pushCategory]
    exact h.links_nodup x
  owner_iff := by
    rw [linksOf_pushCategory]
    exact h.owner_iff
  isCategory hx := by
    rw [linksOf_pushCategory] at hx
    exact isCategory_pushCategory_iff.2 (.inr (h.isCategory hx))
  named hx := by
    rw [nameOf?_pushCategory]
    split
    · exact Option.some_ne_none _
    · exact h.named ((isCategory_pushCategory_iff.1 hx).resolve_left ‹_›)
  normal hs := by
    rw [nameOf?_pushCategory] at hs
    split at hs
    · exact Option.some.inj hs ▸ Normalization.words.apply_apply name
    · exact h.normal hs

theorem linksOf_addLink (hid : p.find? id ≠ none) (x : ElementId) :
    (p.addLink id l).linksOf x = if x = id then p.linksOf id ++ [l] else p.linksOf x := by
  obtain ⟨e, he⟩ := Option.ne_none_iff_exists'.1 hid
  rw [linksOf, find?_addLink]
  split
  · subst x
    simp [linksOf, he]
  · rfl

theorem nameOf?_addLink : (p.addLink id l).nameOf? = p.nameOf? := by
  funext x
  rw [nameOf?, nameOf?, find?_addLink]
  split
  · cases p.find? x <;> rfl
  · rfl

theorem childrenOf_addLink : (p.addLink id l).childrenOf = p.childrenOf :=
  childrenOf_update (p := { p with owners := p.owners.insert l.link id }) fun _ => rfl

theorem IsCategory.find?_ne_none (h : p.IsCategory id) : p.find? id ≠ none := by
  obtain ⟨e, he, -⟩ := h.exists_find?
  simp [he]

theorem Recorded.addLink (h : p.Recorded) (hc : p.IsCategory id) (hf : p.IsFreeLink l.link)
    (hl : ¬p.Linked l.link) (hm : l.link ∈ p.arena.kids l.container) : (p.addLink id l).Recorded where
  toSynced := h.toSynced.addLink hf
  placed x k hk := by
    rw [linksOf_addLink hc.find?_ne_none] at hk
    split at hk
    · rcases List.mem_append.1 hk with hk | hk
      · exact h.placed id k hk
      · exact List.mem_singleton.1 hk ▸ hm
    · exact h.placed x k hk
  links_nodup x := by
    rw [linksOf_addLink hc.find?_ne_none]
    split
    · rw [List.map_append, List.nodup_append']
      refine ⟨h.links_nodup id, List.nodup_singleton _, ?_⟩
      rw [List.map_singleton, List.disjoint_singleton]
      exact fun hk => hl (linked_iff.2 ⟨id, hk⟩)
    · exact h.links_nodup x
  owner_iff := by
    intro n x
    rw [linksOf_addLink hc.find?_ne_none]
    change (p.owners.insert l.link id).find? n = some x ↔ _
    rw [Index.find?_insert]
    have hout : n = l.link → n ∉ (p.linksOf x).map PlacedLink.link := fun hn hk =>
      hl (hn ▸ linked_iff.2 ⟨x, hk⟩)
    by_cases hn : n = l.link
    · rw [if_pos hn, Option.some.injEq]
      split
      · simp [*]
      · exact iff_of_false (fun he => ‹¬x = id› he.symm) (hout hn)
    · rw [if_neg hn, h.owner_iff]
      split
      · subst x
        simp [hn]
      · rfl
  isCategory {x} hx := by
    rw [linksOf_addLink hc.find?_ne_none] at hx
    rw [isCategory_congr form?_addLink]
    split at hx
    · subst x
      exact hc
    · exact h.isCategory hx
  named hx := by
    rw [nameOf?_addLink]
    exact h.named ((isCategory_congr form?_addLink).1 hx)
  normal hs := h.normal (nameOf?_addLink (p := p) ▸ hs)

theorem nameOf?_attached (hid : id ≠ root) : (Edit.attached p id name l).nameOf? = p.nameOf? := by
  rw [nameOf?_of_map (Edit.find?_attached hid) fun _ _ => ⟨rfl, rfl⟩, nameOf?_addLink]

theorem linksOf_attached_eq (hr : id ≠ root) :
    (Edit.attached p id name l).linksOf = (p.addLink id l).linksOf :=
  linksOf_of_map (Edit.find?_attached hr) fun _ _ => rfl

theorem linksOf_attached (hid : p.find? id ≠ none) (hr : id ≠ root) (x : ElementId) :
    (Edit.attached p id name l).linksOf x =
      if x = id then p.linksOf id ++ [l] else p.linksOf x := by
  rw [linksOf_attached_eq hr, linksOf_addLink hid]

theorem linksOf_detached (hr : id ≠ root) : (Edit.detached p id name).linksOf = p.linksOf :=
  linksOf_of_map (p := p.setIndex (p.categories.erase (categoryKey name))) (find?_takeCategory hr) fun _ _ => rfl

theorem nameOf?_detached (hr : id ≠ root) : (Edit.detached p id name).nameOf? = p.nameOf? :=
  nameOf?_of_map (p := p.setIndex (p.categories.erase (categoryKey name))) (find?_takeCategory hr)
    fun _ _ => ⟨rfl, rfl⟩

theorem form?_detached (hr : id ≠ root) : (Edit.detached p id name).form? = p.form? :=
  form?_takeCategory (p := p.setIndex (p.categories.erase (categoryKey name))) hr

theorem NewLink.form?_eq (hl : p.NewLink q name l) : q.form? = p.form? := by
  funext x
  rw [form?, form?, find?, find?, hl.elements]

theorem NewLink.linksOf_eq (hl : p.NewLink q name l) : q.linksOf = p.linksOf := by
  funext x
  rw [linksOf, linksOf, find?, find?, hl.elements]

/-- A category whose links are given up has none when a new one has been made. -/
theorem Dropped.linksOf_newLink (hd : p.Dropped id (p.linksOf id) [] r) (hc : p.IsCategory id)
    (hl : r.NewLink q name l) : q.linksOf id = [] := by
  rw [hl.linksOf_eq, hd.linksOf hc.find?_ne_none, if_pos rfl]

theorem form?_attached (hr : id ≠ root) : (Edit.attached p id name l).form? = p.form? := by
  rw [form?_of_map (Edit.find?_attached hr) fun _ _ => ⟨rfl, rfl⟩, form?_addLink]

theorem Recorded.setIndex (h : p.Recorded) {categories : Index String ElementId}
    (hc : ∀ k x, categories.find? k = some x → p.categories.find? k = some x ∨ p.IsCategory x) :
    (p.setIndex categories).Recorded :=
  h.of_links (h.toSynced.setIndex hc) rfl rfl rfl rfl fun _ => .inl rfl

theorem Recorded.putCategory (h : p.Recorded) (hc : p.IsCategory id) (hp : p.parentOf id = none) :
    (p.putCategory id).Recorded := by
  have hr := h.toSynced.ne_root_of_isCategory hc
  refine h.of_links (h.toSynced.putCategory hc hp) rfl (form?_putCategory hr)
    (linksOf_of_map (find?_putCategory hr) fun _ _ => rfl) rfl fun x => .inl ?_
  rw [nameOf?_of_map (find?_putCategory hr) fun _ _ => ⟨rfl, rfl⟩]

theorem Recorded.attached (h : p.Recorded) (hc : p.IsCategory id) (hp : p.parentOf id = none)
    (hf : p.IsFreeLink l.link) (hl : ¬p.Linked l.link) (hm : l.link ∈ p.arena.kids l.container) :
    (Edit.attached p id name l).Recorded := by
  have hr := h.toSynced.ne_root_of_isCategory hc
  have hc' : (p.addLink id l).IsCategory id := (isCategory_congr form?_addLink).2 hc
  have hput := (h.addLink hc hf hl hm).putCategory hc' (by rw [parentOf_addLink, hp])
  refine hput.setIndex fun k x hk => ?_
  rw [Index.find?_insert] at hk
  split at hk
  · obtain rfl := Option.some.inj hk
    exact .inr ((isCategory_congr (form?_putCategory hr)).2 hc')
  · exact .inl hk

theorem parentOf_pushCategory_eq : (p.push (newCategory name)).parentOf = p.parentOf := by
  funext x
  rw [parentOf, parentOf, find?_push]
  split
  · subst x
    simp [newCategory, find?_next]
  · rfl

theorem Indexed.pushCategory (h : p.Indexed) (hn : '#' ∉ name.toList) :
    (p.push (newCategory name)).Indexed := by
  have hnext : p.parentOf p.next ≠ some root := by
    rw [parentOf, find?_next]
    exact (Option.some_ne_none _).symm
  have hname {x : ElementId} (hx : x ≠ p.next) :
      (p.push (newCategory name)).nameOf? x = p.nameOf? x := by
    rw [nameOf?_pushCategory, if_neg hx]
  constructor
  case index_iff =>
    intro k x
    rw [parentOf_pushCategory_eq]
    refine h.index_iff.trans (and_congr_right fun hp => ?_)
    rw [key?, key?, hname fun hx => hnext (hx ▸ hp)]
  case attached_iff =>
    intro x hx
    rw [parentOf_pushCategory_eq, linksOf_pushCategory]
    rcases isCategory_pushCategory_iff.1 hx with rfl | hx
    · simp [hnext, linksOf, find?_next]
    · exact h.attached_iff hx
  case keyed =>
    intro x l c hl hc
    rw [linksOf_pushCategory] at hl
    rw [key?, hname]
    · exact h.keyed hl hc
    · rintro rfl
      simp [linksOf, find?_next] at hl
  case plain =>
    intro x s hs
    rw [nameOf?_pushCategory] at hs
    split at hs
    · obtain rfl := Option.some.inj hs
      exact hash_not_mem_apply_words hn
    · exact h.plain hs
  case front =>
    rw [childrenOf_pushCategory]
    exact h.front

section

variable {whole : Prop}

theorem Mirrored.pushCategory (h : p.Mirrored whole) : (p.push (newCategory name)).Mirrored whole := by
  intro x e hx
  rw [find?_push] at hx
  split at hx
  · obtain rfl := Option.some.inj hx
    refine .of_untagged rfl nofun (fun t ht => ?_) (List.nodup_singleton _)
    obtain rfl := List.mem_singleton.1 ht
    exact Edit.toLower_name
  · exact h x e hx

theorem Mirrored.addLink (h : p.Mirrored whole) : (p.addLink id l).Mirrored whole := by
  refine h.of_map (g := fun x e => if x = id then { e with links := e.links ++ [l] } else e) rfl
    (fun x => ?_) fun x e => by split <;> exact ⟨rfl, rfl, rfl⟩
  rw [find?_addLink]
  split
  · rfl
  · exact Option.map_id'.symm

theorem Mirrored.attached (h : p.Mirrored whole) (hid : id ≠ root) :
    (Edit.attached p id name l).Mirrored whole := by
  have hadd : (p.addLink id l).Mirrored whole := h.addLink
  exact hadd.of_map Edit.arena_attached (Edit.find?_attached hid) fun _ _ => ⟨rfl, rfl, rfl⟩

theorem Mirrored.detached (h : p.Mirrored whole) (hid : id ≠ root) :
    (Edit.detached p id name).Mirrored whole := by
  have hindex : (p.setIndex (p.categories.erase (categoryKey name))).Mirrored whole := h
  exact hindex.of_map rfl (find?_takeCategory hid) fun _ _ => ⟨rfl, rfl, rfl⟩

theorem Mirrored.renamed (h : p.Mirrored whole) (hc : p.IsCategory id) :
    (Edit.renamed p id name).Mirrored whole := by
  obtain ⟨d, hd, hk⟩ := hc.exists_find?
  intro x e hx
  rw [Edit.renamed, find?_update] at hx
  split at hx
  · subst x
    rw [hd] at hx
    obtain rfl := Option.some.inj hx
    have hm := h id d hd
    rw [show (Edit.store "name" _ d).kind = .category from hk]
    refine .of_untagged rfl (by decide) (fun t ht => ?_) (Attribute.nodup_names_put hm.nodup)
    rcases Attribute.mem_put ht with ht | rfl
    · exact hm.lower t ht
    · exact Edit.toLower_name
  · exact h x e hx

theorem Mirrored.relinked (h : p.Mirrored whole) (hp : p.Synced) {link : NodeId} {target : String}
    (hq : Edit.Relinked p link target q) (hl : p.IsFreeLink link) : q.Mirrored whole := by
  refine h.spared hp hq.synced.sound ⟨hq.arena.keepsTags, fun {x n} hf => ?_⟩ fun {x e} he => .inl ?_
  · rw [hq.arena.target, if_neg]
    rintro rfl
    exact hl.2 x (backing?_of_form? hf)
  · rw [hq.eq] at he
    exact ⟨e, he, rfl, rfl, .inl rfl⟩

end

theorem childrenOf_attached (h : (p.addLink id l).Synced) (hc : p.IsCategory id) :
    (Edit.attached p id name l).childrenOf root = p.childrenOf root ++ [id] := by
  rw [Edit.attached, childrenOf_setIndex,
    h.childrenOf_putCategory ((isCategory_congr form?_addLink).2 hc), if_pos rfl, childrenOf_addLink]

theorem Indexed.attached (h : p.Synced) (hi : p.Indexed) (hc : p.IsCategory id)
    (hp : p.parentOf id = none) (hf : p.IsFreeLink l.link)
    (hk : p.key? id = some (categoryKey name)) (hnew : p.category? name = none)
    (hkey : ∀ c, p.arena.categoryOf? p.site l.link = some c → categoryKey c = categoryKey name) :
    (Edit.attached p id name l).Indexed := by
  have hr := h.ne_root_of_isCategory hc
  have hq : (Edit.attached p id name l).Synced := Edit.synced_attached h hc hp hf
  have hadd : (p.addLink id l).Synced := h.addLink hf
  have hlinks (x : ElementId) : (Edit.attached p id name l).linksOf x =
      if x = id then p.linksOf id ++ [l] else p.linksOf x := linksOf_attached hc.find?_ne_none hr x
  have hkey? (x : ElementId) : (Edit.attached p id name l).key? x = p.key? x := by
    rw [key?, key?, nameOf?_attached hr]
  have hpar (x : ElementId) : (Edit.attached p id name l).parentOf x = some root ↔
      x = id ∨ p.parentOf x = some root := by
    rw [hq.parent_iff, childrenOf_attached hadd hc, h.parent_iff, List.mem_append,
      List.mem_singleton, or_comm]
  constructor
  case index_iff =>
    intro k x
    rw [hpar, hkey?]
    rw [Edit.categories_attached, Index.find?_insert]
    by_cases hkn : k = categoryKey name
    · subst hkn
      rw [if_pos rfl, Option.some.injEq]
      constructor
      · rintro rfl
        exact ⟨.inl rfl, hk⟩
      · rintro ⟨rfl | hx, hkx⟩
        · rfl
        · cases hnew.symm.trans (hi.index_iff.2 ⟨hx, hkx⟩)
    · rw [if_neg hkn, hi.index_iff]
      refine and_congr_left fun hkx => ⟨.inr, fun hx => hx.resolve_left ?_⟩
      rintro rfl
      exact hkn (Option.some.inj (hkx.symm.trans hk))
  case attached_iff =>
    intro x hx
    rw [hpar, hlinks]
    split
    · simp [*]
    · rw [or_iff_right ‹_›]
      exact hi.attached_iff ((isCategory_congr (form?_attached hr)).1 hx)
  case keyed =>
    intro x k c hk' hc'
    rw [hlinks] at hk'
    rw [Edit.arena_attached, Edit.site_attached] at hc'
    rw [hkey?]
    split at hk'
    · subst x
      have hnil : p.linksOf id = [] := by
        by_contra hl
        cases hp.symm.trans ((hi.attached_iff hc).2 hl)
      rw [hnil, List.nil_append, List.mem_singleton] at hk'
      subst hk'
      rw [hk, hkey c hc']
    · exact hi.keyed hk' hc'
  case plain =>
    intro x s hs
    rw [nameOf?_attached hr] at hs
    exact hi.plain hs
  case front =>
    obtain ⟨ids, hids⟩ := hi.front
    exact ⟨ids ++ [id], by rw [childrenOf_attached hadd hc, hids, List.cons_append]⟩

/-- A category with a name that no other has is attached with its first link. -/
theorem Recorded.leads_attached (h : p.Recorded) (hr : (p.push (newCategory name)).Calm r)
    (hf : r.IsFreeLink l.link) (hl : ¬r.Linked l.link) (hm : l.link ∈ r.arena.kids l.container)
    (hname : '#' ∉ name.toList) (hnew : p.category? name = none)
    (hkey : p.site.NamesCategories → ∀ c, r.arena.categoryOf? r.site l.link = some c →
      categoryKey c = categoryKey name) : p.Leads (Edit.attached r p.next name l) := by
  have hpush := h.pushCategory name
  have hrec := hr.toSameRecords.recorded hpush hr.synced
  have hc : r.IsCategory p.next := hr.isCategory.2 Edit.isCategory_pushCategory
  have hroot := hr.synced.ne_root_of_isCategory hc
  -- the new category is on no page yet
  have hp : r.parentOf p.next = none := by
    cases hpar : r.parentOf p.next with
    | none => rfl
    | some y =>
      obtain ⟨o, ho⟩ := hc
      obtain rfl := hr.synced.category_parent ho hpar
      have hmem := hr.synced.parent_iff.1 hpar
      rw [hr.rootChildren, childrenOf_pushCategory] at hmem
      have hpn := h.parent_iff.2 hmem
      rw [parentOf, find?_next] at hpn
      cases hpn
  refine ⟨hrec.attached hc hp hf hl hm, Edit.site_attached.trans hr.site, fun hx => ?_, fun hs hi => ?_,
    fun hw => (hr.mirrored hw.pushCategory).attached hroot⟩
  · exact (isCategory_congr (form?_attached hroot)).2
      (hr.isCategory.2 (isCategory_pushCategory_iff.2 (.inr hx)))
  · have hir := hr.toSameRecords.indexed hpush.toSynced hr.synced (hi.pushCategory hname)
    refine hir.attached hr.synced hc hp hf ?_ ?_ (hkey hs)
    · rw [key?, hr.nameOf?, nameOf?_pushCategory, if_pos rfl, Option.map_some,
        categoryKey_apply_words]
    · rw [category?, hr.categories]
      exact hnew

end

/-- A page in which one category has other links and another name. -/
structure Revises (p : Page) (id : ElementId) (q : Page) : Prop where
  synced : q.Synced
  site : q.site = p.site
  form : q.form? = p.form?
  rootChildren : q.childrenOf root = p.childrenOf root
  name : ∀ {x}, x ≠ id → q.nameOf? x = p.nameOf? x
  links : ∀ {x}, x ≠ id → q.linksOf x = p.linksOf x
  target : ∀ {x l}, x ≠ id → l ∈ p.linksOf x → q.arena.target? l.link = p.arena.target? l.link

namespace Revises

variable {gone kept : List PlacedLink} {l : PlacedLink} {name target : String}

theorem trans (h : p.Revises id q) (h' : q.Revises id r) : p.Revises id r where
  synced := h'.synced
  site := h'.site.trans h.site
  form := h'.form.trans h.form
  rootChildren := h'.rootChildren.trans h.rootChildren
  name hx := (h'.name hx).trans (h.name hx)
  links hx := (h'.links hx).trans (h.links hx)
  target hx hl := (h'.target hx (h.links hx ▸ hl)).trans (h.target hx hl)

theorem isCategory_iff (h : p.Revises id q) : q.IsCategory x ↔ p.IsCategory x :=
  isCategory_congr h.form

theorem of_dropped (hid : p.find? id ≠ none) (hd : p.Dropped id gone kept q) :
    p.Revises id q where
  synced := hd.synced
  site := hd.site
  form := hd.form?
  rootChildren := by
    rw [childrenOf, childrenOf, Tree.kids, Tree.kids, hd.find?_eq]
    split
    · cases p.find? root <;> rfl
    · rfl
  name _ := congrFun hd.nameOf? _
  links hx := by rw [hd.linksOf hid, if_neg hx]
  target _ _ := hd.target _

theorem of_newLink (hl : p.NewLink q name l) : p.Revises id q where
  synced := hl.calm.synced
  site := hl.calm.site
  form := hl.form?_eq
  rootChildren := hl.calm.rootChildren
  name _ := congrFun hl.calm.nameOf? _
  links _ := congrFun hl.linksOf_eq _
  target _ hm := hl.calm.target (linked_of_mem hm)

theorem of_addLink (h : p.Synced) (hc : p.IsCategory id) (hf : p.IsFreeLink l.link) :
    p.Revises id (p.addLink id l) where
  synced := h.addLink hf
  site := rfl
  form := form?_addLink
  rootChildren := congrFun childrenOf_addLink root
  name _ := congrFun nameOf?_addLink _
  links hx := by rw [linksOf_addLink hc.find?_ne_none, if_neg hx]
  target _ _ := rfl

theorem of_renamed (h : p.Synced) : p.Revises id (Edit.renamed p id name) where
  synced := Edit.synced_renamed h
  site := rfl
  form := form?_update fun _ => ⟨rfl, rfl⟩
  rootChildren := congrFun (childrenOf_update (f := Edit.store "name" _) fun _ => rfl) root
  name hx := by rw [nameOf?, nameOf?, Edit.renamed, find?_update, if_neg hx]
  links hx := by rw [linksOf, linksOf, Edit.renamed, find?_update, if_neg hx]
  target _ _ := rfl

theorem of_relinked (h : p.Recorded) {link : NodeId}
    (hl : link ∈ (p.linksOf id).map PlacedLink.link) (hr : Edit.Relinked p link target q) :
    p.Revises id q where
  synced := hr.synced
  site := by rw [hr.eq]
  form := by rw [hr.eq]; rfl
  rootChildren := by rw [hr.eq]; rfl
  name _ := by rw [hr.eq]; rfl
  links _ := by rw [hr.eq]; rfl
  target {x l} hx hm := by
    rw [hr.arena.target, if_neg]
    rintro rfl
    exact hx (h.eq_of_mem (List.mem_map_of_mem hm) hl)

theorem of_setIndex (h : p.Synced) {categories : Index String ElementId}
    (hc : ∀ k x, categories.find? k = some x → p.categories.find? k = some x ∨ p.IsCategory x) :
    p.Revises id (p.setIndex categories) :=
  ⟨h.setIndex hc, rfl, rfl, rfl, fun _ => rfl, fun _ => rfl, fun _ _ => rfl⟩

/-- The index stands if it does so for the revised category. -/
theorem indexed (h : p.Revises id q) (hp : p.Synced) (hi : p.Indexed)
    (hlinks : q.linksOf id ≠ [] ↔ p.linksOf id ≠ [])
    (hkeyed : ∀ l c, l ∈ q.linksOf id → q.arena.categoryOf? q.site l.link = some c →
      q.key? id = some (categoryKey c))
    (hplain : ∀ s, q.nameOf? id = some s → '#' ∉ s.toList)
    (hindex : ∀ k x, q.categories.find? k = some x ↔
      p.parentOf x = some root ∧ q.key? x = some k) : q.Indexed where
  index_iff := by
    intro k x
    rw [hp.parentOf_eq_root_iff h.synced h.rootChildren]
    exact hindex k x
  attached_iff {x} hx := by
    rw [hp.parentOf_eq_root_iff h.synced h.rootChildren, hi.attached_iff (h.isCategory_iff.1 hx)]
    by_cases hxid : x = id
    · rw [hxid, hlinks]
    · rw [h.links hxid]
  keyed {x l c} hl hc := by
    by_cases hxid : x = id
    · subst x
      exact hkeyed l c hl hc
    · rw [h.links hxid] at hl
      rw [Arena.categoryOf?, h.target hxid hl, h.site] at hc
      rw [key?, h.name hxid]
      exact hi.keyed hl hc
  plain {x s} hs := by
    by_cases hxid : x = id
    · subst x
      exact hplain s hs
    · rw [h.name hxid] at hs
      exact hi.plain hs
  front := by
    rw [h.rootChildren]
    exact hi.front

end Revises

namespace Recorded

variable {gone kept : List PlacedLink} {name target : String}

theorem dropped (h : p.Recorded) (hc : p.IsCategory id) (hd : p.Dropped id gone kept q)
    (hgone : gone ⊆ p.linksOf id) (hkept : kept.Sublist (p.linksOf id))
    (hrest : ∀ n, n ∈ kept.map PlacedLink.link ↔
      n ∈ (p.linksOf id).map PlacedLink.link ∧ n ∉ gone.map PlacedLink.link) : q.Recorded := by
  have hlinks := hd.linksOf hc.find?_ne_none
  have hout {x : ElementId} {n : NodeId} (hx : x ≠ id) (hn : n ∈ (p.linksOf x).map PlacedLink.link) :
      n ∉ gone.map PlacedLink.link := fun hg => by
    obtain ⟨l, hl, rfl⟩ := List.mem_map.1 hg
    exact hx (h.eq_of_mem hn (List.mem_map_of_mem (hgone hl)))
  constructor
  case toSynced => exact hd.synced
  case placed =>
    intro x l hl
    rw [hlinks] at hl
    rw [hd.kids, List.mem_filter, decide_eq_true_eq]
    split at hl
    · exact ⟨h.placed id l (hkept.subset hl), ((hrest _).1 (List.mem_map_of_mem hl)).2⟩
    · exact ⟨h.placed x l hl, hout ‹_› (List.mem_map_of_mem hl)⟩
  case links_nodup =>
    intro x
    rw [hlinks]
    split
    · exact (hkept.map _).nodup (h.links_nodup id)
    · exact h.links_nodup x
  case owner_iff =>
    intro n x
    rw [hlinks, hd.owners]
    by_cases hx : x = id
    · subst x
      rw [if_pos rfl, hrest, ← h.owner_iff]
      split <;> simp_all
    · rw [if_neg hx]
      by_cases hn : n ∈ gone.map PlacedLink.link
      · rw [if_pos hn]
        exact iff_of_false (Option.some_ne_none _).symm fun hx' => hout hx hx' hn
      · rw [if_neg hn, h.owner_iff]
  case isCategory =>
    intro x hx
    rw [hlinks] at hx
    rw [isCategory_congr hd.form?]
    split at hx
    · subst x
      exact hc
    · exact h.isCategory hx
  case named =>
    intro x hx
    rw [hd.nameOf?]
    exact h.named ((isCategory_congr hd.form?).1 hx)
  case normal =>
    intro x s hs
    exact h.normal (hd.nameOf? ▸ hs)

theorem dropped_all (h : p.Recorded) (hc : p.IsCategory id) (hd : p.Dropped id (p.linksOf id) [] q) :
    q.Recorded :=
  h.dropped hc hd (List.Subset.refl _) (List.nil_sublist _) fun n => by simp

theorem dropped_but (h : p.Recorded) (hc : p.IsCategory id) {link : NodeId}
    (hd : p.Dropped id ((p.linksOf id).filter fun l => some l.link ≠ some link)
      ((p.linksOf id).filter fun l => some l.link = some link) q) : q.Recorded := by
  refine h.dropped hc hd (fun l hl => (List.mem_filter.1 hl).1) List.filter_sublist fun n => ?_
  simp only [List.mem_map, List.mem_filter, decide_eq_true_eq]
  constructor
  · rintro ⟨l, ⟨hl, he⟩, rfl⟩
    refine ⟨⟨l, hl, rfl⟩, ?_⟩
    rintro ⟨k, ⟨-, hk⟩, hkl⟩
    exact hk (hkl ▸ he)
  · rintro ⟨⟨l, hl, rfl⟩, hn⟩
    by_contra hno
    exact hn ⟨l, ⟨hl, fun he => hno ⟨l, ⟨hl, he⟩, rfl⟩⟩, rfl⟩

theorem nameOf?_renamed (hc : p.IsCategory id) (name : String) :
    (Edit.renamed p id name).nameOf? id = some (Normalization.words.apply name) := by
  obtain ⟨e, he, hk⟩ := hc.exists_find?
  rw [nameOf?, Edit.renamed, find?_update, if_pos rfl, he]
  simp [Edit.store, hk]

theorem linksOf_renamed : (Edit.renamed p id name).linksOf = p.linksOf := by
  funext x
  rw [linksOf, linksOf, Edit.renamed, find?_update]
  split
  · cases p.find? x <;> rfl
  · rfl

theorem renamed (h : p.Recorded) (hc : p.IsCategory id) (name : String) :
    (Edit.renamed p id name).Recorded := by
  refine h.of_links (Edit.synced_renamed h.toSynced) rfl (form?_update fun _ => ⟨rfl, rfl⟩)
    linksOf_renamed rfl fun x => ?_
  by_cases hxid : x = id
  · exact .inr ⟨name, hxid ▸ nameOf?_renamed hc name⟩
  · exact .inl (by rw [nameOf?, Edit.renamed, find?_update, if_neg hxid]; rfl)

theorem relinked (h : p.Recorded) {link : NodeId} (hr : Edit.Relinked p link target q) :
    q.Recorded := by
  refine h.of_links hr.synced hr.arena.alike.kids_eq ?_ ?_ ?_ fun x => .inl ?_
  · rw [hr.eq]; rfl
  · rw [hr.eq]; rfl
  · rw [hr.eq]
  · rw [hr.eq]
    rfl

theorem takeCategory (h : p.Recorded) (hc : p.IsCategory id) : (p.takeCategory id).Recorded := by
  have hr := h.toSynced.ne_root_of_isCategory hc
  refine h.of_links (h.toSynced.takeCategory hc) rfl (form?_takeCategory hr)
    (linksOf_of_map (find?_takeCategory hr) fun _ _ => rfl) rfl fun x => .inl ?_
  rw [nameOf?_of_map (find?_takeCategory hr) fun _ _ => ⟨rfl, rfl⟩]

end Recorded

end Page
end WikiPage
