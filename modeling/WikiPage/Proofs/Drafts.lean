import WikiPage.Page.Build
import WikiPage.Proofs.Attributes
import WikiPage.Proofs.Titles

/-!
# Drafts

What is drafted from an arena fits it: the nodes of drafts stand in the containers of the drafts above
them and in their order, and the links that are found stand where they are said to stand.
-/

namespace WikiPage

namespace Arena

theorem mem_kids_of_findContainer? {a : Arena} {top id c : NodeId}
    (h : a.findContainer? top id = .ok (some c)) :
    id ∈ a.kids c := by
  obtain ⟨below, -, h⟩ := Except.exists_of_bind h
  have hc := List.find?_some (Except.ok.inj h)
  split at hc
  · rename_i hn
    rw [kids_of_find? hn, Payload.children]
    simpa using hc
  · cases hc

end Arena

/-- Markup, neither a link nor a tag, that an element of a kind stands for. -/
structure Kind.IsMarkup (kind : Kind) (q : Payload) : Prop where
  marks : kind.marks q = true
  movable : kind ≠ .page ∧ kind ≠ .body
  not_link : kind ≠ .link

namespace Kind.IsMarkup

variable {kind : Kind} {q : Payload}

theorem slots_eq (h : kind.IsMarkup q) :
    q.slots = (Page.contentOf? q).toList.map (·, Role.content) := by
  obtain ⟨hm, hp, hl⟩ := h
  cases q <;> first | rfl | (cases kind <;> simp_all [Kind.marks])

theorem isList_eq (h : kind.IsMarkup q) : q.isList = false := by
  obtain ⟨hm, hp, hl⟩ := h
  cases q <;> first | rfl | (cases kind <;> simp_all [Kind.marks])

theorem children_eq (h : kind.IsMarkup q) : q.children = (Page.contentOf? q).toList := by
  rw [Payload.children_eq_slots h.isList_eq, h.slots_eq, List.map_map]
  exact List.map_id _

theorem ne_link (h : kind.IsMarkup q) (target : String) (title : NodeId) : q ≠ .link target title := by
  rintro rfl
  obtain ⟨hm, hp, hl⟩ := h
  cases kind <;> simp_all [Kind.marks]

theorem ne_element (h : kind.IsMarkup q) (name : String) (empty : Bool) (attributes body : NodeId) :
    q ≠ .element name empty attributes body := by
  rintro rfl
  obtain ⟨hm, hp, hl⟩ := h
  cases kind <;> simp_all [Kind.marks]

theorem target?_eq_none (h : kind.IsMarkup q) {a : Arena} {id : NodeId} {g : Option Glue}
    (hn : a.find? id = some ⟨q, g⟩) : a.target? id = none := by
  rw [Arena.target?, hn]
  cases hq : q with
  | link target title => exact absurd hq (h.ne_link target title)
  | _ => rfl

end Kind.IsMarkup

namespace Draft

def backing : Draft → Backing
  | node _ backing _ _ => backing

mutual

/-- The nodes of a draft and of those below it. -/
def nodes : Draft → List NodeId
  | node _ backing _ children => backing.node :: nodesOf children

def nodesOf : List Draft → List NodeId
  | [] => []
  | d :: ds => nodes d ++ nodesOf ds

end

theorem nodesOf_append (ds ds' : List Draft) : nodesOf (ds ++ ds') = nodesOf ds ++ nodesOf ds' := by
  induction ds with
  | nil => rfl
  | cons d ds ih => rw [List.cons_append, nodesOf, ih, nodesOf, List.append_assoc]

/-- A draft that can become an element of the arena, with all below it. A link among them is one that
is to become an element. -/
inductive Fits (a : Arena) (site : Site) : Draft → Prop
  | node {kind : Kind} {backing : Backing} {attributes : List Attribute} {children : List Draft}
    (writes : a.Writes kind (some backing))
    (movable : kind ≠ .page ∧ kind ≠ .body)
    (link : ∀ t, a.target? backing.node = some t → Findings.linkUse site t = .element)
    (nodup : (attributes.filterMap Attribute.node).Nodup)
    (written : ∀ n ∈ attributes.filterMap Attribute.node,
      ∃ c, a.attributeList? (some backing) = some c ∧ n ∈ a.kids c)
    (bare : a.container? kind (some backing) = none → children = [])
    (kept : ∀ c, a.container? kind (some backing) = some c →
      (children.map fun d => d.backing.node).Sublist (a.kids c))
    (mirrors : a.Mirrors a.NamesOnce kind (some backing) attributes)
    (below : ∀ d ∈ children, Fits a site d) : Fits a site (node kind backing attributes children)

end Draft

namespace Arena

variable {a : Arena} {site : Site} {x y m n : NodeId}

/-- What stands right below a node that is no link to a category. -/
def plainKids (a : Arena) (site : Site) (x : NodeId) : List NodeId :=
  if a.categoryOf? site x = none then a.kids x else []

theorem mem_plainKids : y ∈ a.plainKids site x ↔ a.categoryOf? site x = none ∧ y ∈ a.kids x := by
  unfold plainKids
  split <;> simp_all

/-- The way to what a container holds leads through no link but that whose container it is. -/
theorem Sound.reaches_plainKids (h : a.Sound) {node : Node} {c : NodeId} {role : Role}
    (hx : a.find? x = some node) (hc : (c, role) ∈ node.payload.slots)
    (hn : a.categoryOf? site x = none) (hy : y ∈ a.kids c) : Reaches (a.plainKids site) x y := by
  obtain ⟨items, hi⟩ := h.find?_slot hx hc
  have hnone : a.categoryOf? site c = none := by
    rw [categoryOf?, target?, hi]
    rfl
  refine .head (mem_plainKids.2 ⟨hn, ?_⟩) (.single (mem_plainKids.2 ⟨hnone, hy⟩))
  rw [kids_of_find? hx]
  exact Payload.children_of_mem_slots hc

theorem IsForest.eq_of_reaches_plainKids (h : a.IsForest) (hr : a.Loose root)
    (hn : Reaches (a.plainKids site) root n) (hm : Reaches a.kids m n)
    (hc : a.categoryOf? site m ≠ none) : m = n := by
  induction hn with
  | refl =>
    rcases hm.eq_or_mem with hm | ⟨z, hz⟩
    · exact hm
    · exact absurd hz (hr z)
  | @tail u n _ hn ih =>
    obtain ⟨hu, hn⟩ := mem_plainKids.1 hn
    rcases Relation.ReflTransGen.cases_tail hm with hm | ⟨v, hm, hv⟩
    · exact hm.symm
    · obtain rfl := h.single hv hn
      obtain rfl := ih hm
      exact absurd hu hc

end Arena

/-- What is found among the items of a container, at and below some nodes. -/
structure Findings.Found (a : Arena) (site : Site) (preserve : Bool) (items below : List NodeId)
    (f : Findings) : Prop where
  fits : ∀ d ∈ f.drafts, d.Fits a site
  kept : (f.drafts.map fun d => d.backing.node).Sublist items
  placed : ∀ l ∈ f.links, l.placed.link ∈ a.kids l.placed.container
  named : ∀ l ∈ f.links, a.categoryOf? site l.placed.link = some l.name
  links : (f.links.map fun l => l.placed.link).Sublist below
  nodes : (Draft.nodesOf f.drafts).Sublist below
  /-- Links are found within other links only where a tag is kept as it stands. -/
  plain : preserve = false → ∀ l ∈ f.links, ∃ y ∈ items, Reaches (a.plainKids site) y l.placed.link

namespace Findings.Found

variable {a : Arena} {site : Site} {preserve : Bool} {items items' below below' : List NodeId}
  {f g : Findings}

theorem nil : Found a site preserve [] [] {} :=
  ⟨by simp, .slnil, by simp, by simp, .slnil, .slnil, by simp⟩

theorem mono (h : Found a site preserve items below f) (hi : items.Sublist items')
    (hb : below.Sublist below') : Found a site preserve items' below' f :=
  ⟨h.fits, h.kept.trans hi, h.placed, h.named, h.links.trans hb, h.nodes.trans hb,
    fun hp l hl => (h.plain hp l hl).imp fun _ hy => hy.imp_left fun hm => hi.subset hm⟩

theorem append (hf : Found a site preserve items below f)
    (hg : Found a site preserve items' below' g) :
    Found a site preserve (items ++ items') (below ++ below') (f.append g) where
  fits d hd := (List.mem_append.1 hd).elim (hf.fits d) (hg.fits d)
  kept := by
    rw [Findings.append, List.map_append]
    exact hf.kept.append hg.kept
  placed l hl := (List.mem_append.1 hl).elim (hf.placed l) (hg.placed l)
  named l hl := (List.mem_append.1 hl).elim (hf.named l) (hg.named l)
  links := by
    rw [Findings.append, List.map_append]
    exact hf.links.append hg.links
  nodes := by
    rw [Findings.append, Draft.nodesOf_append]
    exact hf.nodes.append hg.nodes
  plain hp l hl := by
    rcases List.mem_append.1 hl with hl | hl
    · obtain ⟨y, hy, hr⟩ := hf.plain hp l hl
      exact ⟨y, List.mem_append_left _ hy, hr⟩
    · obtain ⟨y, hy, hr⟩ := hg.plain hp l hl
      exact ⟨y, List.mem_append_right _ hy, hr⟩

/-- An element is put around what was found in its container. -/
theorem wrap {kind : Kind} {backing : Backing} {attributes : List Attribute}
    (writes : a.Writes kind (some backing)) (movable : kind ≠ .page ∧ kind ≠ .body)
    (link : ∀ t, a.target? backing.node = some t → Findings.linkUse site t = .element)
    (nodup : (attributes.filterMap Attribute.node).Nodup)
    (written : ∀ n ∈ attributes.filterMap Attribute.node,
      ∃ c, a.attributeList? (some backing) = some c ∧ n ∈ a.kids c)
    (bare : a.container? kind (some backing) = none → f.drafts = [])
    (kept : ∀ c, a.container? kind (some backing) = some c → items.Sublist (a.kids c))
    (mirrors : a.Mirrors a.NamesOnce kind (some backing) attributes)
    (plain : ∀ y ∈ items, Reaches (a.plainKids site) backing.node y)
    (hf : Found a site preserve items below f) :
    Found a site preserve [backing.node] (backing.node :: below)
      (Findings.wrap kind backing attributes f) where
  fits d hd := by
    obtain rfl := List.mem_singleton.1 hd
    exact .node writes movable link nodup written bare (fun c hc => hf.kept.trans (kept c hc))
      mirrors hf.fits
  kept := .refl _
  placed := hf.placed
  named := hf.named
  links := hf.links.cons _
  nodes := by simpa [Findings.wrap, Draft.nodesOf, Draft.nodes] using hf.nodes
  plain hp l hl := by
    obtain ⟨y, hy, hr⟩ := hf.plain hp l hl
    exact ⟨_, List.mem_singleton_self _, (plain y hy).trans hr⟩

theorem markup {id : NodeId} {q : Payload} {g : Option Glue} {kind : Kind}
    (hn : a.find? id = some ⟨q, g⟩) (hq : kind.IsMarkup q)
    (bare : Page.contentOf? q = none → f.drafts = [])
    (kept : ∀ c, Page.contentOf? q = some c → items.Sublist (a.kids c))
    (plain : ∀ y ∈ items, Reaches (a.plainKids site) id y)
    (hf : Found a site preserve items below f) :
    Found a site preserve [id] (id :: below) (Findings.wrap kind (.markup id) [] f) := by
  have hc : a.container? kind (some (.markup id)) = Page.contentOf? q := by
    simp [Arena.container?, hq.movable.2, hn]
  have hw : a.Writes kind (some (.markup id)) := ⟨_, hn, hq.marks⟩
  exact wrap hw hq.movable (fun t ht => by cases (hq.target?_eq_none hn).symm.trans ht) .nil
    (by simp) (hc ▸ bare) (hc ▸ kept) (.nil hq.not_link fun hl => by cases hl) plain hf

end Findings.Found

namespace Attribute

theorem nodes_adopt (kind : Kind) (attributes : List Attribute) (name value : String)
    (node : NodeId) : ((adopt kind attributes name value node).filterMap Attribute.node).Sublist
      (attributes.filterMap Attribute.node ++ [node]) := by
  unfold adopt
  split
  · exact List.sublist_append_left _ _
  · split
    · exact List.sublist_append_left _ _
    · rw [List.filterMap_append]
      exact .refl _

theorem nodes_read {kind : Kind} {element : NodeId} {attributes l : List Attribute}
    {ts : List (Tree NodeId Node)} (h : read kind element attributes ts = .ok l) :
    (l.filterMap Attribute.node).Sublist
      (attributes.filterMap Attribute.node ++ ts.map Tree.id) := by
  induction ts generalizing attributes with
  | nil =>
    cases h
    exact List.sublist_append_left _ _
  | cons t ts ih =>
    cases t with
    | missing id => cases h
    | node id n below =>
      obtain ⟨q, g⟩ := n
      cases q with
      | attr name hasValue list =>
        have hr : ∃ value, read kind element (adopt kind attributes name value id) ts = .ok l := by
          rw [read] at h
          split at h
          · obtain ⟨value, -, h⟩ := Except.exists_of_bind h
            exact ⟨value, h⟩
          · exact ⟨name, h⟩
        obtain ⟨value, hr⟩ := hr
        have := (nodes_adopt kind attributes name value id).append_right (ts.map Tree.id)
        exact (ih hr).trans (by rwa [List.append_assoc] at this)
      | _ => cases h

/-- What has been taken up of the attributes of a tag. -/
structure Taken (a : Arena) (kind : Kind) (nodes : List NodeId) (l : List Attribute) : Prop where
  lower : ∀ t ∈ l, t.name.toLower = t.name
  nodup : (l.map Attribute.name).Nodup
  written : ∀ t ∈ l, ∃ m ∈ nodes, t.node = some m ∧ a.Records kind t m
  whole : a.NamesOnce → nodes ⊆ l.filterMap Attribute.node

theorem Taken.nil (a : Arena) (kind : Kind) : Taken a kind [] [] :=
  ⟨by simp, .nil, by simp, fun _ => List.Subset.refl _⟩

/-- An attribute is taken up unless one of its name has been. -/
theorem Taken.adopt {a : Arena} {kind : Kind} {nodes : List NodeId} {l : List Attribute} {c n : NodeId}
    {name value : String} (h : Taken a kind nodes l) (hk : kind.tag?.isSome)
    (hc : nodes ++ [n] ⊆ a.kids c) (hn : a.Inscribes n name value) :
    Taken a kind (nodes ++ [n]) (adopt kind l name value n) := by
  obtain ⟨policy, hpolicy⟩ := Policy.exists_of_tag? hk name
  rw [Attribute.adopt, hpolicy]
  dsimp only
  split
  · rename_i hfound
    obtain ⟨t, ht⟩ := Option.isSome_iff_exists.1 hfound
    have hmem := List.mem_of_find?_eq_some ht
    refine ⟨h.lower, h.nodup, fun t ht => ?_, fun honce => List.append_subset.2 ⟨h.whole honce, ?_⟩⟩
    · obtain ⟨m, hm, hr⟩ := h.written t ht
      exact ⟨m, List.mem_append_left _ hm, hr⟩
    · -- the attribute of that name is this one
      obtain ⟨m, hm, hnode, written, s, -, hs, hname, -⟩ := h.written t hmem
      have heq : m = n := honce.eq (hc (List.mem_append_left _ hm)) (hc (by simp)) hs.attrName?
        (hn.attrName?.trans (congrArg some (hname.trans (name_of_find? ht)).symm))
      simpa using List.mem_filterMap.2 ⟨t, hmem, heq ▸ hnode⟩
  · rename_i hnone
    refine ⟨fun t ht => ?_, ?_, fun t ht => ?_, fun honce => ?_⟩
    · rcases List.mem_append.1 ht with ht | ht
      · exact h.lower t ht
      · obtain rfl := List.mem_singleton.1 ht
        exact toLower_toLower name
    · rw [List.map_append, List.nodup_append']
      refine ⟨h.nodup, List.nodup_singleton _, List.disjoint_singleton.2 fun hm => hnone ?_⟩
      obtain ⟨t, ht, hname⟩ := List.mem_map.1 hm
      exact List.find?_isSome.2 ⟨t, ht, beq_iff_eq.2 hname⟩
    · rcases List.mem_append.1 ht with ht | ht
      · obtain ⟨m, hm, hr⟩ := h.written t ht
        exact ⟨m, List.mem_append_left _ hm, hr⟩
      · obtain rfl := List.mem_singleton.1 ht
        exact ⟨n, by simp, rfl, name, value, policy, hn, rfl, by simpa using hpolicy, rfl⟩
    · rw [List.filterMap_append]
      exact List.append_subset.2 ⟨fun m hm => List.mem_append_left _ (h.whole honce hm), by simp⟩

theorem Taken.read {a : Arena} {kind : Kind} {element c : NodeId} {nodes items : List NodeId}
    {acc l : List Attribute} (ha : a.Sound) (hk : kind.tag?.isSome) (h : Taken a kind nodes acc)
    (hc : nodes ++ items ⊆ a.kids c) (hr : Attribute.read kind element acc (items.map a.tree) = .ok l) :
    Taken a kind (nodes ++ items) l := by
  induction items generalizing nodes acc with
  | nil =>
    cases hr
    rwa [List.append_nil]
  | cons n items ih =>
    obtain ⟨⟨q, g⟩, hn⟩ := Arena.exists_of_index_lt (ha.closed c n (hc (by simp)))
    rw [List.map_cons, ha.founded.tree_eq hn] at hr
    cases q with
    | attr name hasValue v =>
      have hv : ∃ value, a.Inscribes n name value ∧ Attribute.read kind element
          (Attribute.adopt kind acc name value n) (items.map a.tree) = .ok l := by
        rw [Attribute.read] at hr
        split at hr
        · obtain ⟨value, hv, hr⟩ := Except.exists_of_bind hr
          exact ⟨value, ⟨hasValue, v, g, hn, by rwa [if_pos ‹_›, Arena.text, ← Node.texts_singleton]⟩,
            hr⟩
        · exact ⟨name, ⟨hasValue, v, g, hn, by rw [if_neg ‹_›]⟩, hr⟩
      obtain ⟨value, hins, hr⟩ := hv
      rw [List.append_cons] at hc ⊢
      exact ih (h.adopt hk (List.Subset.trans (List.sublist_append_left _ _).subset hc) hins) hc hr
    | _ => cases hr

end Attribute

theorem Kind.isSome_tag?_of_ofTag? {s : String} {k : Kind} (h : ofTag? s = some k) :
    k.tag?.isSome = true ∧ k ≠ .page ∧ k ≠ .body := by
  unfold ofTag? at h
  split at h <;> cases h <;> decide

theorem Except.sublist_of_mapM {ε α β : Type} {f : α → Except ε (Option β)} {P : β → Prop}
    {g : β → α} {l : List α} {r : List (Option β)} (h : l.mapM f = .ok r)
    (hf : ∀ x ∈ l, ∀ y, f x = .ok (some y) → P y ∧ g y = x) :
    (∀ y ∈ r.filterMap id, P y) ∧ ((r.filterMap id).map g).Sublist l := by
  induction l generalizing r with
  | nil =>
    cases h
    exact ⟨by simp, .slnil⟩
  | cons x l ih =>
    rw [List.mapM_cons] at h
    obtain ⟨o, ho, h⟩ := exists_of_bind h
    obtain ⟨r, hr, h⟩ := exists_of_bind h
    cases h
    obtain ⟨hP, hs⟩ := ih hr fun x hx => hf x (List.mem_cons_of_mem _ hx)
    cases o with
    | none => exact ⟨by simpa using hP, hs.cons x⟩
    | some y =>
      obtain ⟨hy, rfl⟩ := hf x List.mem_cons_self y ho
      exact ⟨List.forall_mem_cons.2 ⟨hy, hP⟩, hs.cons_cons (g y)⟩

namespace Findings

variable {a : Arena} {site : Site} {preserve : Bool} {c : NodeId} {n : Node} {f : Findings}

theorem found_linksWithin {top : NodeId} {links : List FoundLink} (h : a.IsForest)
    (hn : a.find? top = some n) (hl : linksWithin a site top = .ok links) :
    Found a site true [] (top :: a.below top) ⟨[], links⟩ := by
  obtain ⟨below, hb, hl⟩ := Except.exists_of_bind hl
  obtain ⟨r, hr, hl⟩ := Except.exists_of_bind hl
  cases hl
  obtain rfl := Except.ok.inj ((h.descendants_eq hn).symm.trans (PageError.eq_ok_of_ofArena hb))
  have hall : (∀ l ∈ r.filterMap id, l.placed.link ∈ a.kids l.placed.container ∧
      a.categoryOf? site l.placed.link = some l.name) ∧
      ((r.filterMap id).map fun l => l.placed.link).Sublist (a.below top) := by
    refine Except.sublist_of_mapM hr fun x _ y hy => ?_
    obtain ⟨o, ho, hy⟩ := Except.exists_of_bind hy
    have hname := Arena.categoryOf?_of_linkedCategory? (PageError.eq_ok_of_ofArena ho)
    split at hy
    · cases hy
    · obtain ⟨o, ho, hy⟩ := Except.exists_of_bind hy
      split at hy
      · cases hy
        exact ⟨⟨Arena.mem_kids_of_findContainer? (PageError.eq_ok_of_ofArena ho), hname⟩, rfl⟩
      · cases hy
  exact ⟨by simp, List.nil_sublist _, fun l hl => (hall.1 l hl).1, fun l hl => (hall.1 l hl).2,
    hall.2.trans (List.sublist_cons_self _ _), List.nil_sublist _, by simp⟩

theorem categoryOf?_of_linkUse {target name : String} (h : linkUse site target = .category name) :
    site.categoryOf? target = some name := by
  unfold linkUse at h
  unfold Site.categoryOf?
  split at h
  · cases h
  · split at h
    · cases h
      simp [*]
    · split at h <;> cases h

theorem categoryOf?_eq_none_of_linkUse {target : String} (h : linkUse site target = .element) :
    site.categoryOf? target = none := by
  unfold linkUse at h
  unfold Site.categoryOf?
  split at h
  · cases h
  · split at h
    · cases h
    · simp [*]

theorem categoryOf?_eq_none {n : NodeId}
    (h : ∀ t, a.target? n = some t → linkUse site t = .element) : a.categoryOf? site n = none := by
  cases ht : a.target? n with
  | none => rw [Arena.categoryOf?, ht, Option.bind_none]
  | some t => rw [Arena.categoryOf?_of_target? ht, categoryOf?_eq_none_of_linkUse (h t ht)]

/-- How a node in a container is read, by what it has. -/
inductive ReadAs (a : Arena) (site : Site) (preserve : Bool) (c id : NodeId) :
    Payload → Except PageError Findings → Prop
  | markup {q : Payload} (kind : Kind) (hq : kind.IsMarkup q) : ReadAs a site preserve c id q
    ((ofLists a site preserve (q.children.map a.tree)).map (wrap kind (.markup id) []))
  | skipped {target : String} {title : NodeId} (hu : linkUse site target = .skipped) :
    ReadAs a site preserve c id (.link target title) (.ok {})
  | category {target name : String} {title : NodeId} (hu : linkUse site target = .category name) :
    ReadAs a site preserve c id (.link target title) (.ok ⟨[], [⟨name, c, id⟩]⟩)
  | link {target : String} {title : NodeId} (hu : linkUse site target = .element) :
    ReadAs a site preserve c id (.link target title) ((ofLists a site preserve [a.tree title]).map
      (wrap .link (.markup id) [⟨"target", Normalization.words.apply target, none⟩]))
  | unknown {name : String} {empty : Bool} {attributes body : NodeId}
    (hk : Kind.ofTag? name.toLower = none) :
    ReadAs a site preserve c id (.element name empty attributes body) (unknown a site preserve id name)
  | tag {name : String} {empty : Bool} {attributes body : NodeId} {kind : Kind}
    (hk : Kind.ofTag? name.toLower = some kind) :
    ReadAs a site preserve c id (.element name empty attributes body)
      (ofTag a site preserve kind id [a.tree attributes, a.tree body])
  | refused {q : Payload} {e : PageError} (hq : Role.content.admits q = false) :
    ReadAs a site preserve c id q (.error e)

theorem readAs_ofNode {id : NodeId} {q : Payload} {g : Option Glue} (h : a.Sound)
    (hn : a.find? id = some ⟨q, g⟩) (site : Site) (preserve : Bool) (c : NodeId) :
    ReadAs a site preserve c id q (ofNode a site preserve c (a.tree id)) := by
  rw [h.founded.tree_eq hn]
  cases q with
  | page content => exact .refused rfl
  | list items => exact .refused rfl
  | attr name hasValue value => exact .refused rfl
  | text s => exact .markup .text ⟨rfl, by decide, by decide⟩
  | newline s => exact .markup .text ⟨rfl, by decide, by decide⟩
  | reference r => exact .markup .text ⟨rfl, by decide, by decide⟩
  | comment s => exact .markup .comment ⟨rfl, by decide, by decide⟩
  | rule => exact .markup .rule ⟨rfl, by decide, by decide⟩
  | paragraph content => exact .markup .paragraph ⟨rfl, by decide, by decide⟩
  | emphasis style content =>
    cases style with
    | bold => exact .markup .bold ⟨rfl, by decide, by decide⟩
    | italics => exact .markup .italics ⟨rfl, by decide, by decide⟩
  | link target title =>
    rw [ofNode]
    cases hu : linkUse site target with
    | skipped => simpa only [hu] using .skipped hu
    | category name => simpa only [hu] using .category hu
    | element => simpa only [hu] using .link hu
  | element name empty attributes body =>
    rw [ofNode]
    cases hk : Kind.ofTag? name.toLower with
    | none => simpa only [hk] using .unknown hk
    | some kind => simpa only [hk] using .tag hk

theorem found_ofItems {items : List NodeId}
    (hi : ∀ y ∈ items, ∀ f, ofNode a site preserve c (a.tree y) = .ok f →
      Found a site preserve [y] (a.tree y).preorder f)
    (hf : ofItems a site preserve c (items.map a.tree) = .ok f) :
    Found a site preserve items (items.flatMap fun y => (a.tree y).preorder) f := by
  induction items generalizing f with
  | nil =>
    cases hf
    exact .nil
  | cons y items ih =>
    rw [List.map_cons, ofItems] at hf
    obtain ⟨f₁, h₁, hf⟩ := Except.exists_of_bind hf
    obtain ⟨f₂, h₂, hf⟩ := Except.exists_of_bind hf
    cases hf
    exact (hi y List.mem_cons_self f₁ h₁).append (ih (fun y hy => hi y (List.mem_cons_of_mem _ hy)) h₂)

theorem found_ofLists (h : a.Sound) (hc : c.index < a.size)
    (hi : ∀ y ∈ a.kids c, ∀ f, ofNode a site preserve c (a.tree y) = .ok f →
      Found a site preserve [y] (a.tree y).preorder f)
    (hf : ofLists a site preserve [a.tree c] = .ok f) :
    Found a site preserve (a.kids c) (a.below c) f := by
  obtain ⟨n, hn⟩ := Arena.exists_of_index_lt hc
  have hk : a.kids c = n.payload.children := Arena.kids_of_find? hn
  rw [h.founded.tree_eq hn, ofLists] at hf
  split at hf
  · obtain ⟨f₁, h₁, hf⟩ := Except.exists_of_bind hf
    obtain ⟨f₂, h₂, hf⟩ := Except.exists_of_bind hf
    cases h₂
    cases hf
    rw [← hk] at h₁
    have hfound := (found_ofItems hi h₁).append .nil
    rwa [List.append_nil, List.append_nil] at hfound
  · cases hf

theorem found_ofTag {tag attributes body : NodeId} {name : String} {empty : Bool} {g : Option Glue}
    {kind : Kind} {below : List NodeId} (h : a.Sound)
    (hn : a.find? tag = some ⟨.element name empty attributes body, g⟩)
    (hk : kind.tag?.isSome = true ∧ kind ≠ .page ∧ kind ≠ .body)
    (hbody : ∀ f, ofLists a site preserve [a.tree body] = .ok f →
      Found a site preserve (a.kids body) below f)
    (hf : ofTag a site preserve kind tag [a.tree attributes, a.tree body] = .ok f) :
    Found a site preserve [tag] (tag :: below) f := by
  have hslot : (attributes, Role.attributes) ∈ (Payload.element name empty attributes body).slots :=
    List.mem_cons_self
  obtain ⟨items, hi⟩ := h.find?_slot hn hslot
  rw [h.founded.tree_eq hi, ofTag, Payload.isList, if_pos rfl] at hf
  obtain ⟨l, hl, hf⟩ := Except.exists_of_bind hf
  obtain ⟨f, hfound, hf⟩ := Except.exists_of_bind hf
  cases hf
  have hnodes : (l.filterMap Attribute.node).Sublist (a.kids attributes) := by
    have hread := Attribute.nodes_read hl
    have hid : items.map (Tree.id ∘ a.tree) = items := by
      rw [show Tree.id ∘ a.tree = id from funext fun x => Tree.id_grow .., List.map_id]
    rw [Arena.kids_of_find? hi]
    rwa [List.map_map, Payload.children, hid] at hread
  have hw : a.Writes kind (some (.tag tag)) := ⟨_, hn, by simp [Kind.tags, hk.1]⟩
  have htarget : a.target? tag = none := by
    rw [Arena.target?, hn]
    rfl
  have hnone : a.categoryOf? site tag = none := by
    rw [Arena.categoryOf?, htarget]
    rfl
  have hbodySlot : (body, Role.content) ∈ (Payload.element name empty attributes body).slots :=
    List.mem_cons_of_mem _ (List.mem_singleton_self _)
  have hc : a.container? kind (some (.tag tag)) = some body := by
    rw [Arena.container?, hn]
    rfl
  have hlist : a.attributeList? (some (.tag tag)) = some attributes := by
    rw [Arena.attributeList?, hn]
    rfl
  refine .wrap hw hk.2 (fun t ht => by cases htarget.symm.trans ht) (hnodes.nodup (h.nodup attributes))
    (fun n hmem => ⟨attributes, hlist, hnodes.subset hmem⟩) (fun hc' => ?_) (fun c hc' => ?_) ?_
    (fun y => h.reaches_plainKids hn hbodySlot hnone) (hbody f hfound)
  · cases hc.symm.trans hc'
  · obtain rfl := Option.some.inj (hc.symm.trans hc')
    exact .refl _
  · have hki : a.kids attributes = items := Arena.kids_of_find? hi
    have ht := (Attribute.Taken.nil a kind).read h hk.1 (c := attributes) (hki ▸ List.Subset.refl _) hl
    exact .of_tag hlist ht.lower ht.nodup (fun t ht' => (ht.written t ht').imp fun _ => And.right)
      (hki ▸ ht.whole)

theorem found_unknown {id attributes body : NodeId} {name : String} {empty : Bool} {g : Option Glue}
    (h : a.Sound) (hn : a.find? id = some ⟨.element name empty attributes body, g⟩)
    (hf : unknown a site preserve id name = .ok f) :
    Found a site preserve [id] (id :: a.below id) f := by
  unfold unknown at hf
  split at hf
  · obtain rfl := ‹preserve = true›
    obtain ⟨links, hl, hf⟩ := Except.exists_of_bind hf
    cases hf
    have hw : a.Writes .preserved (some (.tag id)) := ⟨_, hn, rfl⟩
    have ht : a.target? id = none := by rw [Arena.target?, hn]; rfl
    have hwrap : Found a site true [id] [id] (wrap .preserved (.tag id) [] {}) :=
      .wrap hw (by decide) (fun t h => by cases ht.symm.trans h) .nil (by simp)
        (fun _ => rfl) (fun c _ => List.nil_sublist _) (.of_untagged rfl (by decide) (by simp) .nil) (by simp)
        .nil
    have hlinks := found_linksWithin h.toIsForest hn hl
    exact ⟨hwrap.fits, hwrap.kept, by simpa [append, wrap] using hlinks.placed,
      by simpa [append, wrap] using hlinks.named, by simpa [append, wrap] using hlinks.links,
      (List.nil_sublist _).cons_cons id, by simp⟩
  · cases hf

theorem found_ofMarkup {id : NodeId} {q : Payload} {g : Option Glue} {kind : Kind} {below : List NodeId}
    (h : a.Sound) (hn : a.find? id = some ⟨q, g⟩) (hq : kind.IsMarkup q)
    (hbelow : ∀ l f, l ∈ q.children → ofLists a site preserve [a.tree l] = .ok f →
      Found a site preserve (a.kids l) below f)
    (hf : ofLists a site preserve (q.children.map a.tree) = .ok f) :
    Found a site preserve [id] (id :: below) (wrap kind (.markup id) [] f) := by
  rw [hq.children_eq] at hf hbelow
  cases hc : Page.contentOf? q with
  | none =>
    rw [hc] at hf
    cases hf
    exact (Found.markup hn hq (fun _ => rfl) (fun c h => by cases hc.symm.trans h) (by simp) .nil).mono (.refl _)
      ((List.nil_sublist below).cons_cons id)
  | some content =>
    rw [hc] at hf hbelow
    have hnone : a.categoryOf? site id = none := by
      rw [Arena.categoryOf?, hq.target?_eq_none hn]
      rfl
    refine .markup hn hq (fun hno => ?_) (fun c hc' => ?_)
      (fun y => h.reaches_plainKids hn (Page.mem_slots_of_contentOf? hc) hnone)
      (hbelow content f (List.mem_singleton_self _) hf)
    · cases hc.symm.trans hno
    · obtain rfl := Option.some.inj (hc.symm.trans hc')
      exact .refl _

theorem found_category {c id title : NodeId} {target name : String} {g : Option Glue}
    (hn : a.find? id = some ⟨.link target title, g⟩) (hid : id ∈ a.kids c)
    (hu : linkUse site target = .category name) :
    Found a site preserve [id] [id] ⟨[], [⟨name, c, id⟩]⟩ := by
  have hname : a.categoryOf? site id = some name :=
    (Arena.categoryOf?_of_target? (Arena.target?_of_find? hn rfl)).trans (categoryOf?_of_linkUse hu)
  exact ⟨by simp, List.nil_sublist _, by simpa using hid, by simpa using hname, .refl _, List.nil_sublist _,
    fun _ l hl => ⟨id, by simp, by rw [List.mem_singleton.1 hl]; exact .refl⟩⟩

theorem found_ofLink {id title : NodeId} {target : String} {g : Option Glue} {below : List NodeId}
    (h : a.Sound) (hn : a.find? id = some ⟨.link target title, g⟩) (hu : linkUse site target = .element)
    (hf : Found a site preserve (a.kids title) below f) :
    Found a site preserve [id] (id :: below)
      (wrap .link (.markup id) [⟨"target", Normalization.words.apply target, none⟩] f) := by
  have htarget := Arena.target?_of_find? hn rfl
  have hc : a.container? .link (some (.markup id)) = some title := by
    simp [Arena.container?, hn, Page.contentOf?]
  have hm : a.Mirrors a.NamesOnce .link (some (.markup id))
      [⟨"target", Normalization.words.apply target, none⟩] := by
    refine .of_link (fun t ht => ?_) (List.nodup_singleton _) fun {n} hb => ?_
    · obtain rfl := List.mem_singleton.1 ht
      exact toLower_target
    · obtain rfl := Backing.markup.inj (Option.some.inj hb)
      rw [htarget]
      rfl
  have hleads : ∀ t, a.target? id = some t → linkUse site t = .element := fun t ht => by
    obtain rfl := Option.some.inj (htarget.symm.trans ht)
    exact hu
  have hw : a.Writes .link (some (.markup id)) := ⟨_, hn, rfl⟩
  refine .wrap hw (by decide) hleads .nil (by simp) (fun hno => ?_) (fun c' hc' => ?_) hm
    (fun y => h.reaches_plainKids hn (List.mem_singleton_self (title, Role.content))
      (categoryOf?_eq_none hleads)) hf
  · cases hc.symm.trans hno
  · obtain rfl := Option.some.inj (hc.symm.trans hc')
    exact .refl _

/-- What a node is read as is found at the node and below it. -/
theorem found_ofNode {id : NodeId} (h : a.Sound) : ∀ c f, id ∈ a.kids c →
    ofNode a site preserve c (a.tree id) = .ok f →
      Found a site preserve [id] (id :: a.below id) f := by
  induction id using h.wellFounded.transGen.induction with
  | _ id ih =>
    intro c f hid hf
    obtain ⟨⟨q, g⟩, hn⟩ := Arena.exists_of_index_lt (h.closed c id hid)
    have hk : a.kids id = q.children := Arena.kids_of_find? hn
    -- what is found in a list below the node
    have below {l : NodeId} {f : Findings} (hl : l ∈ q.children)
        (hf : ofLists a site preserve [a.tree l] = .ok f) :
        Found a site preserve (a.kids l) (a.below id) f := by
      rw [← hk] at hl
      obtain ⟨m, hm⟩ := Arena.exists_of_index_lt (h.closed id l hl)
      have hfound : Found a site preserve (a.kids l) (a.below l) f := by
        refine found_ofLists h (h.closed id l hl) (fun y hy f hf => ?_) hf
        obtain ⟨m, hm⟩ := Arena.exists_of_index_lt (h.closed l y hy)
        rw [h.preorder_tree hm]
        exact ih y (.tail (.single hy) hl) l f hy hf
      refine hfound.mono (.refl _) ((List.sublist_cons_self l _).trans ?_)
      rw [← h.preorder_tree hm]
      exact List.sublist_flatten_of_mem (List.mem_map_of_mem (f := fun y => (a.tree y).preorder) hl)
    have hread := readAs_ofNode h hn site preserve c
    rw [hf] at hread
    generalize hr : Except.ok f = r at hread
    cases hread with
    | refused => cases hr
    | unknown => exact found_unknown h hn hr.symm
    | tag hkind =>
      exact found_ofTag h hn (Kind.isSome_tag?_of_ofTag? hkind)
        (fun f => below (by simp [Payload.children])) hr.symm
    | markup kind hq =>
      obtain ⟨f, hfound, rfl⟩ := Except.exists_of_map hr.symm
      exact found_ofMarkup h hn hq (fun l f => below) hfound
    | skipped =>
      cases hr
      exact Found.nil.mono (List.nil_sublist _) (List.nil_sublist _)
    | category hu =>
      cases hr
      exact (found_category hn hid hu).mono (.refl _) ((List.nil_sublist _).cons_cons id)
    | link hu =>
      obtain ⟨f, hfound, rfl⟩ := Except.exists_of_map hr.symm
      exact found_ofLink h hn hu (below List.mem_cons_self hfound)

end Findings

/-- What the content of an arena is read as fits the arena. -/
theorem Arena.Sound.found {a : Arena} {site : Site} {preserve : Bool} {f : Findings} (h : a.Sound)
    (hf : a.findings site preserve = .ok f) :
    f.Found a site preserve (a.kids a.content) (a.below a.content) := by
  refine Findings.found_ofLists h (h.closed root _ h.content_mem) (fun y hy f hf => ?_) hf
  obtain ⟨n, hn⟩ := exists_of_index_lt (h.closed _ y hy)
  rw [h.preorder_tree hn]
  exact Findings.found_ofNode h _ f hy hf

end WikiPage
