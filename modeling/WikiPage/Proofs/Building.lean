import WikiPage.Proofs.Category
import WikiPage.Proofs.Drafts

/-!
# Built pages

Drafts that fit an arena become the elements of a page that is in step with it. The elements are
numbered so that children come behind their parents.
-/

namespace WikiPage

namespace Draft

/-- The element that a draft becomes under a number. -/
def element (parent next : Nat) : Draft → Element
  | node kind backing attributes children =>
    { kind, parent := some ⟨parent⟩, children := ids (next + 1) children, backing, attributes }

mutual

/-- A draft is the element of a number, with all below it behind it. -/
def Numbered (look : ElementId → Option Element) (parent next : Nat) : Draft → Prop
  | node kind backing attributes children =>
    look ⟨next⟩ = some (element parent next (node kind backing attributes children)) ∧
      NumberedAll look next (next + 1) children

def NumberedAll (look : ElementId → Option Element) (parent next : Nat) : List Draft → Prop
  | [] => True
  | d :: ds => Numbered look parent next d ∧ NumberedAll look parent (next + d.size) ds

end

variable {look : ElementId → Option Element} {a : Arena} {site : Site} {i : Nat} {id : ElementId}

theorem size_pos (d : Draft) : 0 < d.size := by
  cases d
  exact Nat.succ_pos _

mutual

theorem numbered {parent next : Nat} : (d : Draft) →
    (∀ i < d.size, look ⟨next + i⟩ = (elements parent next d)[i]?) → Numbered look parent next d
  | node kind backing attributes children, h => by
    refine ⟨h 0 (size_pos _), numberedAll children fun i hi => ?_⟩
    rw [Nat.add_assoc, Nat.add_comm 1 i, h (i + 1) (Nat.succ_lt_succ hi), elements,
      List.getElem?_cons_succ]

theorem numberedAll {parent next : Nat} : (ds : List Draft) →
    (∀ i < sizes ds, look ⟨next + i⟩ = (elementsOf parent next ds)[i]?) →
    NumberedAll look parent next ds
  | [], _ => trivial
  | d :: ds, h => by
    have hd := length_elements parent next d
    refine ⟨numbered d fun i hi => ?_, numberedAll ds fun i hi => ?_⟩
    · rw [h i (Nat.lt_add_right _ hi), elementsOf, List.getElem?_append_left (hd.symm ▸ hi)]
    · rw [Nat.add_assoc, h (d.size + i) (Nat.add_lt_add_left hi _), elementsOf,
        List.getElem?_append_right (hd ▸ Nat.le_add_right _ _), hd, Nat.add_sub_cancel_left]

end

theorem le_of_mem_ids {next : Nat} {ds : List Draft} (h : id ∈ ids next ds) : next ≤ id.index := by
  induction ds generalizing next with
  | nil => cases h
  | cons d ds ih =>
    rcases List.mem_cons.1 h with rfl | h
    · exact Nat.le_refl _
    · exact (Nat.le_add_right _ _).trans (ih h)

theorem nodup_ids (next : Nat) (ds : List Draft) : (ids next ds).Nodup := by
  induction ds generalizing next with
  | nil => exact .nil
  | cons d ds ih =>
    refine List.nodup_cons.2 ⟨fun h => ?_, ih _⟩
    have hle := le_of_mem_ids h
    have hpos := d.size_pos
    change next + d.size ≤ next at hle
    omega

theorem parent_of_mem_ids {parent next : Nat} {ds : List Draft} (h : NumberedAll look parent next ds)
    (hid : id ∈ ids next ds) : ∃ e, look id = some e ∧ e.parent = some ⟨parent⟩ := by
  induction ds generalizing next with
  | nil => cases hid
  | cons d ds ih =>
    obtain ⟨hd, hds⟩ := h
    rcases List.mem_cons.1 hid with rfl | hid
    · cases d
      exact ⟨_, hd.1, rfl⟩
    · exact ih hds hid

theorem filterMap_ids {parent next : Nat} {ds : List Draft} (h : NumberedAll look parent next ds) :
    ((ids next ds).filterMap fun id => (look id).bind fun e => e.backing.map Backing.node) =
      ds.map fun d => d.backing.node := by
  induction ds generalizing next with
  | nil => rfl
  | cons d ds ih =>
    obtain ⟨hd, hds⟩ := h
    cases d
    rw [ids, List.filterMap_cons, hd.1]
    exact congrArg _ (ih hds)

mutual

/-- Every number in the range of a draft is that of a draft, which is among the children of another
unless it is the draft itself. -/
theorem exists_numbered {parent next : Nat} : (d : Draft) → Numbered look parent next d →
    d.Fits a site → next ≤ i → i < next + d.size → ∃ par d', d'.Fits a site ∧
      Numbered look par i d' ∧ (par = parent ∧ i = next ∨ ∃ e, look ⟨par⟩ = some e ∧ ⟨i⟩ ∈ e.children)
  | node kind backing attributes children, h, hf, hi, hi' => by
    by_cases he : i = next
    · subst he
      exact ⟨parent, _, hf, h, .inl ⟨rfl, rfl⟩⟩
    · have hbelow : ∀ d ∈ children, d.Fits a site := by
        cases hf
        assumption
      rw [size] at hi'
      obtain ⟨par, d', hf', hd', hpar⟩ := exists_numberedAll children h.2 hbelow
        (show next + 1 ≤ i by omega) (by omega)
      refine ⟨par, d', hf', hd', .inr ?_⟩
      rcases hpar with ⟨rfl, hid⟩ | he
      · exact ⟨_, h.1, hid⟩
      · exact he

theorem exists_numberedAll {parent next : Nat} : (ds : List Draft) → NumberedAll look parent next ds →
    (∀ d ∈ ds, d.Fits a site) → next ≤ i → i < next + sizes ds → ∃ par d', d'.Fits a site ∧
      Numbered look par i d' ∧
        (par = parent ∧ ⟨i⟩ ∈ ids next ds ∨ ∃ e, look ⟨par⟩ = some e ∧ ⟨i⟩ ∈ e.children)
  | [], _, _, hi, hi' => absurd hi (Nat.not_le_of_lt hi')
  | d :: ds, h, hf, hi, hi' => by
    by_cases hlt : i < next + d.size
    · obtain ⟨par, d', hf', hd', hpar⟩ := exists_numbered d h.1 (hf d List.mem_cons_self) hi hlt
      refine ⟨par, d', hf', hd', hpar.imp_left fun ⟨hp, he⟩ => ⟨hp, ?_⟩⟩
      rw [he]
      exact List.mem_cons_self
    · rw [sizes] at hi'
      obtain ⟨par, d', hf', hd', hpar⟩ := exists_numberedAll ds h.2
        (fun d hd => hf d (List.mem_cons_of_mem _ hd)) (Nat.le_of_not_lt hlt) (by omega)
      exact ⟨par, d', hf', hd', hpar.imp_left fun ⟨hp, he⟩ => ⟨hp, List.mem_cons_of_mem _ he⟩⟩

end

mutual

theorem map_elements (parent next : Nat) : (d : Draft) →
    ((elements parent next d).map fun e => e.backing.map Backing.node) = d.nodes.map some
  | node _ _ _ children => by
    rw [elements, nodes, List.map_cons, List.map_cons, map_elementsOf _ _ children]
    rfl

theorem map_elementsOf (parent next : Nat) : (ds : List Draft) →
    ((elementsOf parent next ds).map fun e => e.backing.map Backing.node) = (nodesOf ds).map some
  | [] => rfl
  | d :: ds => by
    rw [elementsOf, nodesOf, List.map_append, List.map_append, map_elements _ _ d,
      map_elementsOf _ _ ds]

end

end Draft

/-- Drafts that fit the content of an arena. -/
structure Drafted (a : Arena) (site : Site) (drafts : List Draft) : Prop where
  sound : a.Sound
  loose : a.Loose Arena.root
  fits : ∀ d ∈ drafts, d.Fits a site
  kept : (drafts.map fun d => d.backing.node).Sublist (a.kids a.content)
  nodes : (Draft.nodesOf drafts).Sublist (a.below a.content)

namespace Page

variable {a : Arena} {site : Site} {title : String} {drafts : List Draft} {x y : ElementId} {n : NodeId}

theorem find?_ofDrafts_body : (ofDrafts a site title drafts).find? body =
    some { kind := .body, parent := some root, children := Draft.ids 2 drafts, backing := some (.markup a.content) } :=
  rfl

theorem find?_ofDrafts (i : Nat) : (ofDrafts a site title drafts).find? ⟨2 + i⟩ =
    (Draft.elementsOf 1 2 drafts)[i]? := by
  simp [ofDrafts, find?, Nat.add_comm 2 i]

theorem numberedAll_ofDrafts :
    Draft.NumberedAll (ofDrafts a site title drafts).find? 1 2 drafts :=
  Draft.numberedAll drafts fun i _ => find?_ofDrafts i

theorem exists_draft (h : Drafted a site drafts) {e : Element}
    (he : (ofDrafts a site title drafts).find? x = some e) (hr : x ≠ root) (hb : x ≠ body) :
    ∃ par d, d.Fits a site ∧ e = d.element par x.index ∧
      Draft.Numbered (ofDrafts a site title drafts).find? par x.index d ∧
      x ∈ (ofDrafts a site title drafts).childrenOf ⟨par⟩ := by
  obtain ⟨i⟩ := x
  have hi : 2 ≤ i := by
    rcases i with _ | _ | i
    · exact absurd rfl hr
    · exact absurd rfl hb
    · exact Nat.le_add_left 2 i
  have hi' : i < 2 + Draft.sizes drafts := by
    obtain ⟨j, rfl⟩ := Nat.exists_eq_add_of_le hi
    rw [find?_ofDrafts] at he
    have hj := List.getElem?_eq_some_iff.1 he
    have := hj.1
    rw [Draft.length_elementsOf] at this
    exact Nat.add_lt_add_left this 2
  obtain ⟨par, d, hf, hd, hpar⟩ := Draft.exists_numberedAll drafts numberedAll_ofDrafts h.fits hi hi'
  refine ⟨par, d, hf, ?_, hd, ?_⟩
  · cases d
    exact Option.some.inj (he.symm.trans hd.1)
  · rcases hpar with ⟨rfl, hid⟩ | ⟨e', he', hid⟩
    · exact hid
    · rw [childrenOf_of_find? he']
      exact hid

theorem mem_childrenOf_ofDrafts (h : Drafted a site drafts)
    (hy : y ∈ (ofDrafts a site title drafts).childrenOf x) :
    (ofDrafts a site title drafts).parentOf y = some x ∧ x.index < y.index := by
  have main {i j : Nat} {ds : List Draft}
      (hds : Draft.NumberedAll (ofDrafts a site title drafts).find? i j ds)
      (hy : y ∈ Draft.ids j ds) : (ofDrafts a site title drafts).parentOf y = some ⟨i⟩ ∧ j ≤ y.index := by
    obtain ⟨e, he, hp⟩ := Draft.parent_of_mem_ids hds hy
    exact ⟨by rw [parentOf_of_find? he, hp], Draft.le_of_mem_ids hy⟩
  by_cases hr : x = root
  · subst hr
    obtain rfl := List.mem_singleton.1 hy
    exact ⟨rfl, Nat.zero_lt_one⟩
  by_cases hb : x = body
  · subst hb
    exact main numberedAll_ofDrafts hy
  cases he : (ofDrafts a site title drafts).find? x with
  | none => simp [childrenOf, Tree.kids, he] at hy
  | some e =>
    obtain ⟨par, d, -, rfl, hd, -⟩ := exists_draft h he hr hb
    rw [childrenOf_of_find? he] at hy
    cases d
    exact main hd.2 hy

theorem parentOf_ofDrafts_iff (h : Drafted a site drafts) :
    (ofDrafts a site title drafts).parentOf y = some x ↔
      y ∈ (ofDrafts a site title drafts).childrenOf x := by
  refine ⟨fun hp => ?_, fun hy => (mem_childrenOf_ofDrafts h hy).1⟩
  by_cases hr : y = root
  · subst hr
    cases hp
  by_cases hb : y = body
  · subst hb
    obtain rfl := Option.some.inj hp
    exact List.mem_singleton_self _
  cases he : (ofDrafts a site title drafts).find? y with
  | none => simp [parentOf, he] at hp
  | some e =>
    obtain ⟨par, d, -, rfl, -, hmem⟩ := exists_draft h he hr hb
    rw [parentOf_of_find? he] at hp
    cases d
    obtain rfl := Option.some.inj hp
    exact hmem

theorem forest_ofDrafts (h : Drafted a site drafts) :
    Forest (ofDrafts a site title drafts).childrenOf where
  wellFounded := by
    refine Subrelation.wf (r := InvImage (· < ·) fun x : ElementId =>
      (ofDrafts a site title drafts).size - x.index) (fun {y x} hy => ?_) (InvImage.wf _ Nat.lt_wfRel.wf)
    obtain ⟨hp, hlt⟩ := mem_childrenOf_ofDrafts h hy
    have hsize : y.index < (ofDrafts a site title drafts).size := by
      by_contra hge
      rw [parentOf, find?, Array.getElem?_eq_none (Nat.le_of_not_lt hge)] at hp
      cases hp
    exact Nat.sub_lt_sub_left (hlt.trans hsize) hlt
  nodup x := by
    by_cases hr : x = root
    · subst hr
      exact List.nodup_singleton _
    by_cases hb : x = body
    · subst hb
      exact Draft.nodup_ids 2 drafts
    cases he : (ofDrafts a site title drafts).find? x with
    | none => simp [childrenOf, Tree.kids, he]
    | some e =>
      obtain ⟨par, d, -, rfl, -, -⟩ := exists_draft h he hr hb
      rw [childrenOf_of_find? he]
      cases d
      exact Draft.nodup_ids _ _
  single hy hy' := Option.some.inj
    ((mem_childrenOf_ofDrafts h hy).1.symm.trans (mem_childrenOf_ofDrafts h hy').1)

theorem backing?_ofDrafts : (ofDrafts a site title drafts).backing? x =
    (Arena.root :: a.content :: Draft.nodesOf drafts)[x.index]? := by
  obtain ⟨_ | _ | i⟩ := x
  · rfl
  · rfl
  · have hnodes := congrArg (·[i]?) (Draft.map_elementsOf 1 2 drafts)
    simp only [List.getElem?_map] at hnodes
    rw [backing?, form?, Nat.add_assoc, Nat.add_comm i, find?_ofDrafts, Nat.add_comm 2 i,
      List.getElem?_cons_succ, List.getElem?_cons_succ]
    cases he : (Draft.elementsOf 1 2 drafts)[i]? <;> cases hn : (Draft.nodesOf drafts)[i]? <;>
      simp_all

theorem nodup_nodes (h : Drafted a site drafts) :
    (Arena.root :: a.content :: Draft.nodesOf drafts).Nodup := by
  obtain ⟨g, hpage⟩ := h.sound.find?_page
  have hk : a.kids Arena.root = [a.content] := Arena.kids_of_find? hpage
  obtain ⟨n, hn⟩ := Arena.exists_of_index_lt (h.sound.closed Arena.root a.content (by simp [hk]))
  have hall := h.sound.nodup_preorder (Arena.index_lt_of_find? hpage)
  rw [h.sound.preorder_tree hpage, Arena.below, hk, List.flatMap_singleton,
    h.sound.preorder_tree hn] at hall
  exact ((h.nodes.cons_cons _).cons_cons _).nodup hall

theorem filterMap_backing?_ids {p : Page} {parent next : Nat} {ds : List Draft}
    (h : Draft.NumberedAll p.find? parent next ds) :
    (Draft.ids next ds).filterMap p.backing? = ds.map fun d => d.backing.node := by
  rw [← Draft.filterMap_ids h]
  refine List.filterMap_congr fun y _ => ?_
  rw [backing?, form?]
  cases p.find? y <;> rfl

theorem form_cases (h : Drafted a site drafts) {k : Kind} {o : Option Backing}
    (hf : (ofDrafts a site title drafts).form? x = some (k, o)) :
    x = root ∧ k = .page ∧ o = some (.markup Arena.root) ∨
    x = body ∧ k = .body ∧ o = some (.markup a.content) ∨
    ∃ backing attributes children, o = some backing ∧
      (Draft.node k backing attributes children).Fits a site ∧
      (ofDrafts a site title drafts).writtenOf x = attributes.filterMap Attribute.node ∧
      (ofDrafts a site title drafts).childrenOf x = Draft.ids (x.index + 1) children ∧
      Draft.NumberedAll (ofDrafts a site title drafts).find? x.index (x.index + 1) children := by
  by_cases hr : x = root
  · subst hr
    cases hf
    exact .inl ⟨rfl, rfl, rfl⟩
  by_cases hb : x = body
  · subst hb
    cases hf
    exact .inr (.inl ⟨rfl, rfl, rfl⟩)
  obtain ⟨e, he, hk, ho⟩ := find?_of_form? hf
  obtain ⟨par, ⟨kind, backing, attributes, children⟩, hfit, rfl, hd, -⟩ := exists_draft h he hr hb
  obtain rfl : kind = k := hk
  obtain rfl : some backing = o := ho
  exact .inr (.inr ⟨backing, attributes, children, rfl, hfit, writtenOf_of_find? he,
    childrenOf_of_find? he, hd.2⟩)

theorem linksOf_ofDrafts (h : Drafted a site drafts) :
    (ofDrafts a site title drafts).linksOf x = [] := by
  by_cases hr : x = root
  · subst hr
    rfl
  by_cases hb : x = body
  · subst hb
    rfl
  cases he : (ofDrafts a site title drafts).find? x with
  | none => simp [linksOf, he]
  | some e =>
    obtain ⟨par, d, -, rfl, -, -⟩ := exists_draft h he hr hb
    cases d
    simp [linksOf, he, Draft.element]

theorem not_isCategory_ofDrafts (h : Drafted a site drafts) :
    ¬(ofDrafts a site title drafts).IsCategory x := by
  rintro ⟨o, hf⟩
  rcases form_cases h hf with ⟨-, hk, -⟩ | ⟨-, hk, -⟩ | ⟨backing, attributes, children, rfl, hfit, -⟩
  · cases hk
  · cases hk
  · cases hfit with
    | node hw =>
      cases backing <;> obtain ⟨⟨q, g⟩, -, hm⟩ := hw <;> cases q <;> cases hm

theorem not_linked_ofDrafts (h : Drafted a site drafts) :
    ¬(ofDrafts a site title drafts).Linked n := by
  rw [linked_iff]
  rintro ⟨x, hx⟩
  rw [linksOf_ofDrafts h] at hx
  cases hx

theorem writes_ofDrafts (h : Drafted a site drafts) {k : Kind} {o : Option Backing}
    (hf : (ofDrafts a site title drafts).form? x = some (k, o)) : a.Writes k o := by
  obtain ⟨g, hpage⟩ := h.sound.find?_page
  rcases form_cases h hf with ⟨-, rfl, rfl⟩ | ⟨-, rfl, rfl⟩ | ⟨backing, attributes, children, rfl, hfit, -⟩
  · exact ⟨_, hpage, rfl⟩
  · obtain ⟨items, hcontent⟩ := h.sound.find?_slot hpage (List.mem_singleton_self _)
    exact ⟨_, hcontent, rfl⟩
  · cases hfit
    assumption

theorem linkUse_ofDrafts (h : Drafted a site drafts) {t : String}
    (hf : (ofDrafts a site title drafts).form? x = some (.link, some (.markup n)))
    (ht : a.target? n = some t) : Findings.linkUse site t = .element := by
  rcases form_cases h hf with ⟨-, hk, -⟩ | ⟨-, hk, -⟩ | ⟨backing, attributes, children, ho, hfit, -⟩
  · cases hk
  · cases hk
  · obtain rfl := Option.some.inj ho
    cases hfit with
    | node _ _ hlink => exact hlink t ht

theorem bare_ofDrafts (h : Drafted a site drafts)
    (hc : (ofDrafts a site title drafts).container? x = none) (hr : x ≠ root) :
    (ofDrafts a site title drafts).childrenOf x = [] := by
  cases he : (ofDrafts a site title drafts).find? x with
  | none => simp [childrenOf, Tree.kids, he]
  | some e =>
    have hf := form?_of_find? he
    rw [container?_of_form? hf] at hc
    rcases form_cases h hf with ⟨hx, -⟩ | ⟨-, hk, ho⟩ |
      ⟨backing, attributes, children, ho, hfit, -, hch, -⟩
    · exact absurd hx hr
    · rw [hk, ho] at hc
      cases hc
    · rw [ho] at hc
      rw [hch]
      cases hfit with
      | node _ _ _ _ _ bare =>
        rw [bare hc]
        rfl

theorem kept_ofDrafts (h : Drafted a site drafts) {c : NodeId}
    (hc : (ofDrafts a site title drafts).container? x = some c) :
    (((ofDrafts a site title drafts).childrenOf x).filterMap
      (ofDrafts a site title drafts).backing?).Sublist (a.kids c) := by
  obtain ⟨g, hpage⟩ := h.sound.find?_page
  obtain ⟨k, b, hf, hcb⟩ := exists_of_container? hc
  rcases form_cases h hf with ⟨-, rfl, hb⟩ | ⟨rfl, rfl, hb⟩ |
    ⟨backing, attributes, children, ho, hfit, -, hch, hds⟩
  · obtain rfl := Option.some.inj hb
    simp [Arena.container?, ofDrafts, hpage, contentOf?] at hcb
  · obtain rfl := Option.some.inj hb
    obtain rfl : a.content = c := Option.some.inj hcb
    exact (filterMap_backing?_ids numberedAll_ofDrafts).symm ▸ h.kept
  · obtain rfl := Option.some.inj ho
    cases hfit with
    | node _ _ _ _ _ _ kept =>
      rw [hch, filterMap_backing?_ids hds]
      exact kept c hcb

theorem loose_ofDrafts (h : Drafted a site drafts)
    (hp : (ofDrafts a site title drafts).parentOf x = none)
    (hn : (ofDrafts a site title drafts).backing? x = some n) : a.Loose n := by
  by_cases hr : x = root
  · subst hr
    obtain rfl := Option.some.inj hn
    exact h.loose
  by_cases hb : x = body
  · subst hb
    cases hp
  obtain ⟨k, b, hf, -⟩ := exists_of_backing? hn
  obtain ⟨e, he, -⟩ := find?_of_form? hf
  obtain ⟨par, d, -, -, -, hmem⟩ := exists_draft h he hr hb
  cases hp.symm.trans ((parentOf_ofDrafts_iff h).2 hmem)

theorem written_ofDrafts (h : Drafted a site drafts) (x : ElementId) :
    (ofDrafts a site title drafts).Written x ((ofDrafts a site title drafts).writtenOf x) := by
  cases he : (ofDrafts a site title drafts).find? x with
  | none => simp [Written, writtenOf, he]
  | some e =>
    have hf := form?_of_find? he
    rcases form_cases h hf with ⟨rfl, -⟩ | ⟨rfl, -⟩ | ⟨backing, attributes, children, ho, hfit, hw, -⟩
    · exact ⟨.nil, fun n hn => by cases hn⟩
    · exact ⟨.nil, fun n hn => by cases hn⟩
    · cases hfit with
      | node _ _ _ nodup written =>
        rw [hw]
        refine ⟨nodup, fun n hn => ?_⟩
        rw [attributeList?_of_form? hf, ho]
        exact written n hn

/-- The page of drafts that fit is in step with its arena. -/
theorem synced_ofDrafts (h : Drafted a site drafts) : (ofDrafts a site title drafts).Synced where
  sound := h.sound
  writes := writes_ofDrafts h
  root_form := rfl
  body_form := rfl
  eq_root hf := by
    rcases form_cases h hf with ⟨hx, -⟩ | ⟨-, hk, -⟩ | ⟨backing, attributes, children, -, hfit, -⟩
    · exact hx
    · cases hk
    · cases hfit with
      | node _ hm => exact absurd rfl hm.1
  eq_body hf := by
    rcases form_cases h hf with ⟨-, hk, -⟩ | ⟨hx, -⟩ | ⟨backing, attributes, children, -, hfit, -⟩
    · cases hk
    · exact hx
    · cases hfit with
      | node _ hm => exact absurd rfl hm.2
  backing_inj hx hy := by
    rw [backing?_ofDrafts] at hx hy
    obtain ⟨hi, -⟩ := List.getElem?_eq_some_iff.1 hx
    exact ElementId.ext ((List.getElem?_inj hi (nodup_nodes h)).1 (hx.trans hy.symm))
  linked hn := absurd hn (not_linked_ofDrafts h)
  unlinked hn := absurd hn (not_linked_ofDrafts h)
  forest := forest_ofDrafts h
  parent_iff := parentOf_ofDrafts_iff h
  root_parent := rfl
  body_parent := rfl
  root_child hy := .inl (List.mem_singleton.1 ((parentOf_ofDrafts_iff h).1 hy))
  category_parent hf _ := absurd ⟨_, hf⟩ (not_isCategory_ofDrafts h)
  indexed hk := by cases hk
  bare := bare_ofDrafts h
  kept := kept_ofDrafts h
  loose := loose_ofDrafts h
  written := written_ofDrafts h

/-- What has been read from tags and links agrees with them. -/
theorem mirrored_ofDrafts (h : Drafted a site drafts) :
    (ofDrafts a site title drafts).Mirrored a.NamesOnce := by
  intro x e he
  by_cases hr : x = root
  · subst hr
    obtain rfl := Option.some.inj he
    refine .of_untagged rfl nofun (fun t ht => ?_) (List.nodup_singleton _)
    obtain rfl := List.mem_singleton.1 ht
    exact (by decide +kernel : "title".toLower = "title")
  by_cases hb : x = body
  · subst hb
    obtain rfl := Option.some.inj (find?_ofDrafts_body.symm.trans he)
    exact .of_untagged rfl nofun (by simp) .nil
  obtain ⟨par, d, hfit, rfl, -⟩ := exists_draft h he hr hb
  cases hfit
  assumption

end Page
end WikiPage
