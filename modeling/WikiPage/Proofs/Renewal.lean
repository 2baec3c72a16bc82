import WikiPage.EntityTable
import WikiPage.Proofs.Agreement

/-!
# Categories outlast a cut

When a part of the page is cut out, each category with a link in the part gives up all its links, wherever
they stand, for a new one at the end of the page. The new links stand in the order in which the categories
are first named in the part, and no other category is concerned.
-/

namespace WikiPage

/-- A link without a title. -/
def Arena.Untitled (a : Arena) (target : String) (link : NodeId) : Prop :=
  ∃ title, a.find? link = some ⟨.link target title, some (Glue.link target false)⟩ ∧ a.kids title = []

section
variable {α β : Type} [DecidableEq β]

theorem pairwise_findIdx_eraseDups (l : List α) (f : α → Option β) :
    (l.filterMap f).eraseDups.Pairwise fun x y =>
      l.findIdx (f · = some x) < l.findIdx (f · = some y) := by
  induction l generalizing f with
  | nil => exact .nil
  | cons a l ih =>
    cases ha : f a with
    | none =>
      rw [List.filterMap_cons_none ha]
      refine (ih f).imp fun hxy => ?_
      simpa [List.findIdx_cons, ha] using hxy
    | some x =>
      rw [List.filterMap_cons_some ha, List.eraseDups_cons, List.filter_filterMap, List.pairwise_cons]
      -- behind the first item only the others are looked for
      have hrest {y : β} (hy : y ∈ ((l.filterMap fun b => (f b).filter fun z => !z == x).eraseDups)) :
          y ≠ x ∧ ∀ b, (f b).filter (fun z => !z == x) = some y ↔ f b = some y := by
        obtain ⟨b, -, hb⟩ := List.mem_filterMap.1 (List.mem_eraseDups.1 hy)
        obtain ⟨-, hne⟩ := Option.filter_eq_some_iff.1 hb
        have hne : y ≠ x := by simpa using hne
        exact ⟨hne, fun c => by simp [Option.filter_eq_some_iff, hne]⟩
      constructor
      · intro y hy
        simp [List.findIdx_cons, ha, (hrest hy).1.symm]
      · refine (ih _).imp_of_mem fun {y z} hy hz hyz => ?_
        simpa [List.findIdx_cons, ha, (hrest hy).1.symm, (hrest hz).1.symm, (hrest hy).2,
          (hrest hz).2] using hyz

end

namespace Page

variable {p q r : Page} {id x : ElementId} {n : NodeId} {ids : List ElementId}

/-- The links of a category, the canonical one last. -/
def linkNodes (p : Page) (x : ElementId) : List NodeId :=
  (p.linksOf x).map PlacedLink.link

theorem IsCategory.categoryLinks_eq_ok (h : p.IsCategory x) :
    p.categoryLinks x = .ok (p.linkNodes x) :=
  categoryLinks_eq_ok_iff.2 ⟨h, rfl⟩

theorem categoryIds_eq : p.categoryIds = (p.childrenOf root).filter (· ≠ body) := by
  rw [categoryIds, childrenOf, Tree.kids]
  cases p.find? root <;> rfl

/-- The place of the first link of a category in the part of the page at a node. -/
def firstLink (p : Page) (n : NodeId) (x : ElementId) : Nat :=
  (p.arena.tree n).preorder.findIdx (· ∈ p.linkNodes x)

/-- The categories with links at or below a node, in the order of the first of these links. -/
structure LinkedInOrder (p : Page) (n : NodeId) (ids : List ElementId) : Prop where
  mem_iff : ∀ {x}, x ∈ ids ↔ ∃ link ∈ p.linkNodes x, Reaches p.arena.kids n link
  ordered : ids.Pairwise fun x y => p.firstLink n x < p.firstLink n y

theorem LinkedInOrder.nodup (h : p.LinkedInOrder n ids) : ids.Nodup :=
  h.ordered.imp fun {x y} hxy (he : x = y) => Nat.lt_irrefl _ (he ▸ hxy)

theorem Recorded.linkedInOrder (h : p.Recorded) : p.LinkedInOrder n (p.linkedWithin n) where
  mem_iff {x} := by
    rw [h.mem_linkedWithin, linkNodes]
    simp
  ordered := by
    have howner (x : ElementId) : p.firstLink n x =
        (p.arena.tree n).preorder.findIdx (p.owners.find? · = some x) := by
      rw [firstLink]
      congr 1
      funext m
      exact decide_eq_decide.2 h.owner_iff.symm
    refine (pairwise_findIdx_eraseDups (p.arena.tree n).preorder p.owners.find?).imp fun {x y} hxy => ?_
    rwa [howner, howner]

/-- Categories have been given one new link each for all that they had. The new links are the last of the
page, and nothing else has changed. -/
structure Renews (p : Page) (ids : List ElementId) (q : Page) : Prop where
  site : q.site = p.site
  categories : q.categories = p.categories
  form : q.form? = p.form?
  nameOf? : q.nameOf? = p.nameOf?
  rootChildren : q.childrenOf root = p.childrenOf root
  content : q.arena.content = p.arena.content
  evolves : p.arena.Evolves q.arena
  others : ∀ {x}, x ∉ ids → q.linkNodes x = p.linkNodes x
  renewed : ∀ {x}, x ∈ ids → ∃ link name, q.linkNodes x = [link] ∧ p.arena.size ≤ link.index ∧
    p.nameOf? x = some name ∧ q.arena.Untitled (Edit.categoryTarget p name) link
  nodes : ∀ {n m}, p.arena.find? n = some m → m.payload.isList = false → q.arena.find? n = some m
  kids : ∀ {n}, n.index < p.arena.size → q.arena.kids n =
    (p.arena.kids n).filter (· ∉ ids.flatMap p.linkNodes) ++
      if n = p.arena.content then ids.flatMap q.linkNodes else []
  fresh : ∀ {n m}, p.arena.size ≤ n.index → m ∈ q.arena.kids n → p.arena.size ≤ m.index
  /-- A link that is new has no title. -/
  made : ∀ {n target title g}, p.arena.size ≤ n.index →
    q.arena.find? n = some ⟨.link target title, g⟩ → g = some (Glue.link target false)

namespace Renews

theorem refl (p : Page) : p.Renews [] p where
  site := rfl
  categories := rfl
  form := rfl
  nameOf? := rfl
  rootChildren := rfl
  content := rfl
  evolves := .refl _
  others _ := rfl
  renewed hx := nomatch hx
  nodes hm _ := hm
  kids _ := by simp
  fresh hn hm := by
    rw [Arena.kids_eq_nil hn] at hm
    cases hm
  made hn hf := absurd (Arena.index_lt_of_find? hf) (Nat.not_lt_of_le hn)

theorem size_le (hq : p.Renews ids q) : p.arena.size ≤ q.arena.size :=
  hq.evolves.size_le

theorem find?_eq (hq : p.Renews ids q) {n : NodeId} {m : Node} (hn : n.index < p.arena.size)
    (hf : q.arena.find? n = some m) (hm : m.payload.isList = false) : p.arena.find? n = some m :=
  hq.evolves.find?_eq hq.nodes hn hf hm

/-- One more category is given a new link. -/
theorem step (h : p.Synced) (hq : p.Renews ids q) (hrec : q.Recorded) (hr : q.Renews [id] r)
    (hid : id ∉ ids) : p.Renews (ids ++ [id]) r where
  site := hr.site.trans hq.site
  categories := hr.categories.trans hq.categories
  form := hr.form.trans hq.form
  nameOf? := hr.nameOf?.trans hq.nameOf?
  rootChildren := hr.rootChildren.trans hq.rootChildren
  content := hr.content.trans hq.content
  evolves := hq.evolves.trans hr.evolves
  others {x} hx := by
    rw [List.mem_append, not_or] at hx
    exact (hr.others hx.2).trans (hq.others hx.1)
  renewed {x} hx := by
    rcases List.mem_append.1 hx with hx | hx
    · obtain ⟨link, name, hlink, hfresh, hname, title, hl, ht⟩ := hq.renewed hx
      have hne : x ∉ [id] := fun hm => hid (List.mem_singleton.1 hm ▸ hx)
      have hkid : title ∈ q.arena.kids link := by
        rw [Arena.kids_of_find? hl]
        exact List.mem_singleton_self _
      refine ⟨link, name, (hr.others hne).trans hlink, hfresh, hname, title, hr.nodes hl rfl, ?_⟩
      rw [hr.kids (hrec.sound.closed _ _ hkid), ht, if_neg]
      · rfl
      · intro he
        have htitle := hq.fresh hfresh hkid
        rw [he, hq.content] at htitle
        exact Nat.not_lt_of_le htitle (LooseLink.content_lt h)
    · obtain ⟨link, name, hlink, hfresh, hname, hl⟩ := hr.renewed hx
      rw [hq.nameOf?] at hname
      rw [Edit.categoryTarget, hq.site] at hl
      exact ⟨link, name, hlink, Nat.le_trans hq.size_le hfresh, hname, hl⟩
  nodes hm hlist := hr.nodes (hq.nodes hm hlist) hlist
  kids {n} hn := by
    have hgone : q.linkNodes id = p.linkNodes id := hq.others hid
    have hnew {x : ElementId} (hx : x ∈ ids) : r.linkNodes x = q.linkNodes x :=
      hr.others fun hm => hid (List.mem_singleton.1 hm ▸ hx)
    -- the links that are new already are those of other categories
    have hkept : (ids.flatMap q.linkNodes).filter (· ∉ p.linkNodes id) = ids.flatMap r.linkNodes := by
      rw [List.flatMap_congr fun x hx => hnew hx, List.filter_eq_self]
      intro m hm
      obtain ⟨x, hx, hmx⟩ := List.mem_flatMap.1 hm
      rw [decide_eq_true_eq, ← hgone]
      intro hmid
      exact hid (hrec.eq_of_mem hmx hmid ▸ hx)
    rw [hr.kids (Nat.lt_of_lt_of_le hn hq.size_le), hq.kids hn, hq.content, List.flatMap_singleton,
      List.flatMap_singleton, hgone, List.filter_append, List.filter_filter, List.append_assoc]
    congr 1
    · refine List.filter_congr fun m _ => ?_
      simp [and_comm]
    · split
      · rw [hkept, List.flatMap_append, List.flatMap_singleton]
      · rfl
  fresh {n m} hn hm := by
    by_cases hnq : n.index < q.arena.size
    · rw [hr.kids hnq, if_neg, List.append_nil] at hm
      · exact hq.fresh hn (List.mem_filter.1 hm).1
      · intro he
        rw [he, hq.content] at hn
        exact Nat.not_lt_of_le hn (LooseLink.content_lt h)
    · exact Nat.le_trans hq.size_le (hr.fresh (Nat.le_of_not_lt hnq) hm)
  made {n target title g} hn hf := by
    by_cases hnq : n.index < q.arena.size
    · exact hq.made hn (hr.find?_eq hnq hf rfl)
    · exact hr.made (Nat.le_of_not_lt hnq) hf

theorem loose (h : p.Synced) (hq : p.Renews ids q) (hx : x ∈ ids) (hn : n ∈ p.linkNodes x) :
    q.arena.Loose n := by
  have hlt : n.index < p.arena.size := h.linked_lt (linked_iff.2 ⟨x, hn⟩)
  intro m hm
  by_cases hmp : m.index < p.arena.size
  · rw [hq.kids hmp, List.mem_append] at hm
    rcases hm with hm | hm
    · have hgone := (List.mem_filter.1 hm).2
      rw [decide_eq_true_eq] at hgone
      exact hgone (List.mem_flatMap.2 ⟨x, hx, hn⟩)
    · split at hm
      · obtain ⟨y, hy, hny⟩ := List.mem_flatMap.1 hm
        obtain ⟨link, -, hlink, hfresh, -⟩ := hq.renewed hy
        rw [hlink, List.mem_singleton] at hny
        exact Nat.not_lt_of_le hfresh (hny ▸ hlt)
      · cases hm
  · exact Nat.not_lt_of_le (hq.fresh (Nat.le_of_not_lt hmp) hm) hlt

end Renews
end Page

namespace Edit

open Page (Renews)

variable {p q : Page} {id x y w : ElementId} {n : NodeId}

/-- One category is given a new link. -/
theorem renews_renewLink (h : p.Recorded) (hl : p.linksOf id ≠ []) :
    Ends (renewLink id) p (fun _ q => p.Leads q ∧ p.Renews [id] q) fun _ _ => False := by
  have hc := h.isCategory hl
  obtain ⟨name, hn⟩ := Option.ne_none_iff_exists'.1 (h.named hc)
  have hp := h.toSynced
  refine (ends_renewLink_appended hp hc (h.inPlace id) hn).mono (fun _ q hq => ?_) fun _ _ hf => hf
  obtain ⟨r, s, l, hr, hs, rfl⟩ := hq
  have hnew := hs.newLink hr.synced
  obtain ⟨hrev, hlinks⟩ := Page.respells_renewed hc hn hr hnew
  have hevolves : p.arena.Evolves s.arena := hr.evolves.trans (hs.evolves hr.synced)
  have hsize : p.arena.size ≤ r.arena.size := hr.evolves.size_le
  have hcontent : r.arena.content = p.arena.content := hr.evolves.content_eq hp.sound
  obtain ⟨hfresh, title, htitle, hfind, hempty⟩ := hs.find?_link hr.synced
  refine ⟨h.leads_renewed hc hl hn hr hnew, ?_⟩
  have hone : (s.addLink id l).linkNodes id = [l.link] := by rw [Page.linkNodes, hlinks]; rfl
  exact {
    site := hrev.site
    categories := hnew.calm.categories.trans hr.categories
    form := hrev.form
    nameOf? := by
      funext x
      by_cases hx : x = id
      · rw [hx, hrev.stored, hn]
      · exact hrev.name hx
    rootChildren := hrev.rootChildren
    content := hevolves.content_eq hp.sound
    evolves := hevolves
    others := fun hx => by
      rw [Page.linkNodes, hrev.links (mt List.mem_singleton.2 hx), Page.linkNodes]
    renewed := fun {x} hx => by
      obtain rfl := List.mem_singleton.1 hx
      refine ⟨l.link, name, hone, Nat.le_trans hsize hfresh, hn, title, ?_, ?_⟩
      · rw [categoryTarget, ← hr.site]
        exact hfind
      · exact Arena.kids_of_find? hempty
    nodes := fun {n m} hm hlist => by
      have hmr := hr.nodes hm hlist
      refine (hs.find?_old hr.synced (Arena.index_lt_of_find? hmr) ?_).trans hmr
      rintro rfl
      obtain ⟨items, hi⟩ := hr.synced.find?_container hr.synced.body_container
      obtain rfl := Option.some.inj (hmr.symm.trans hi)
      cases hlist
    kids := fun {n} hn => by
      rw [List.flatMap_singleton, List.flatMap_singleton, hone, ← hcontent]
      refine (hs.kids_old hr.synced (Nat.lt_of_lt_of_le hn hsize)).trans ?_
      rw [hr.kids]
      rfl
    fresh := fun {n m} hn hm => by
      by_cases hnr : n.index < r.arena.size
      · have hm' : m ∈ s.arena.kids n := hm
        rw [hs.kids_old hr.synced hnr, hr.kids, Arena.kids_eq_nil hn, if_neg] at hm'
        · cases hm'
        · rintro rfl
          rw [hcontent] at hn
          exact Nat.not_lt_of_le hn (Page.LooseLink.content_lt hp)
      · exact Nat.le_trans hsize (hs.kids_new hr.synced (Nat.le_of_not_lt hnr) hm)
    made := fun {n target t g} hn hf => by
      rw [← hr.size_eq] at hn
      obtain rfl := hs.eq_of_find?_link hr.synced hn hf
      obtain ⟨hm, hg⟩ := Node.mk.inj (Option.some.inj (hf.symm.trans hfind))
      rw [hg, (Payload.link.inj hm).1] }

/-- All categories with links at or below a node are given new ones. -/
theorem renews_keepCategories (h : p.Recorded) (hn : n.index < p.arena.size) :
    Ends (keepCategories n) p (fun _ q => q.Recorded ∧ p.Renews (p.linkedWithin n) q)
      fun _ _ => False := by
  have hok := h.categoriesWithin_eq_ok hn
  refine Ends.bind (ends_ask (fun ids hids => ?_) fun _ he => by cases hok.symm.trans he)
  obtain rfl := Except.ok.inj (hok.symm.trans hids)
  have horder := h.linkedInOrder (n := n)
  refine (Ends.forM (I := fun done q => p.Leads q ∧ p.Renews done q) (fun done x rest q hsplit hq => ?_)
    ⟨h.leads_refl, .refl p⟩).mono (fun _ q hq => ⟨hq.1.recorded, hq.2⟩) fun _ _ hf => hf
  obtain ⟨hleads, hrenews⟩ := hq
  have hx : x ∉ done := by
    have hnodup := hsplit ▸ horder.nodup
    rw [List.nodup_middle, List.nodup_cons, List.mem_append, not_or] at hnodup
    exact hnodup.1.1
  have hlinks : q.linksOf x ≠ [] := by
    obtain ⟨link, hlink, -⟩ := horder.mem_iff.1 (hsplit ▸ by simp : x ∈ p.linkedWithin n)
    rw [← hrenews.others hx, Page.linkNodes] at hlink
    exact fun hnil => by simp [hnil] at hlink
  exact (renews_renewLink hleads.recorded hlinks).mono (fun _ r hr =>
    ⟨hleads.trans hr.1, hrenews.step h.toSynced hleads.recorded hr.2 hx⟩) fun _ _ hf => hf

end Edit

namespace Page

variable {p q r : Page} {site : Site} {x y : ElementId} {ids : List ElementId}

/-- The page has the categories that it had. Some have given up their links for a new one each, and the
new links are the last of the page. -/
structure KeepsCategories (p : Page) (ids : List ElementId) (q : Page) : Prop where
  categoryIds : q.categoryIds = p.categoryIds
  category? : q.category? = p.category?
  storedName : ∀ {x}, p.IsCategory x → q.storedName x = p.storedName x
  others : ∀ {x}, p.IsCategory x → x ∉ ids → q.categoryLinks x = p.categoryLinks x
  givenUp : ∀ {x links link}, x ∈ ids → p.categoryLinks x = .ok links → link ∈ links →
    q.arena.Loose link
  renewed : ∃ new : ElementId → NodeId,
    (∀ x ∈ ids, q.categoryLinks x = .ok [new x] ∧ p.arena.size ≤ (new x).index ∧
      ∃ name, p.storedName x = .ok name ∧
        q.arena.Untitled (Edit.categoryTarget p name) (new x)) ∧
    ∃ rest, q.arena.items q.arena.content = .ok (rest ++ ids.map new)

/-- The page has the categories that it had, and those with links in an element have got new ones. -/
def KeepsCategoriesIn (p : Page) (y : ElementId) (q : Page) : Prop :=
  ∃ n ids, p.backingNode y = .ok n ∧ p.LinkedInOrder n ids ∧ p.KeepsCategories ids q

theorem SameRecords.keepsCategories (h : p.SameRecords q) (hp : p.Recorded) (hq : q.Synced)
    (hsize : p.arena.size ≤ q.arena.size) (hr : q.Renews ids r) (hrs : r.Synced)
    (hids : ∀ x ∈ ids, p.linksOf x ≠ []) : p.KeepsCategories ids r := by
  have hlinks (x : ElementId) : q.linkNodes x = p.linkNodes x := h.links x
  have hcategory {x : ElementId} : r.IsCategory x ↔ p.IsCategory x :=
    (isCategory_congr hr.form).trans h.isCategory
  have hname : r.nameOf? = p.nameOf? := hr.nameOf?.trans h.nameOf?
  refine ⟨?_, ?_, fun {x} hx => ?_, fun {x} hx hout => ?_, fun {x links link} hx hok hm => ?_,
    fun x => (r.linkNodes x).headD Arena.root, fun x hx => ?_, ?_⟩
  · rw [categoryIds_eq, categoryIds_eq, hr.rootChildren, h.rootChildren]
  · funext name
    rw [category?, category?, hr.categories, h.categories]
  · obtain ⟨name, hn⟩ := Option.ne_none_iff_exists'.1 (hp.named hx)
    rw [(storedName_eq_ok hx).2 hn, storedName_eq_ok (hcategory.2 hx), hname, hn]
  · rw [(hcategory.2 hx).categoryLinks_eq_ok, hx.categoryLinks_eq_ok, hr.others hout, hlinks]
  · rw [(hp.isCategory (hids x hx)).categoryLinks_eq_ok] at hok
    obtain rfl := Except.ok.inj hok
    exact hr.loose hq hx (hlinks x ▸ hm)
  · have hc := hp.isCategory (hids x hx)
    obtain ⟨link, name, hlink, hfresh, hn, hnew⟩ := hr.renewed hx
    rw [Edit.categoryTarget, h.site] at hnew
    rw [h.nameOf?] at hn
    have hhead : (r.linkNodes x).headD Arena.root = link := by rw [hlink]; rfl
    simp only [hhead]
    exact ⟨(hcategory.2 hc).categoryLinks_eq_ok.trans (congrArg _ hlink), Nat.le_trans hsize hfresh, name,
      (storedName_eq_ok hc).2 hn, hnew⟩
  · obtain ⟨items, hi⟩ := hrs.find?_container hrs.body_container
    have hmap : ids.flatMap r.linkNodes = ids.map fun x => (r.linkNodes x).headD Arena.root := by
      rw [List.map_eq_flatMap]
      refine List.flatMap_congr fun x hx => ?_
      obtain ⟨link, -, hlink, -⟩ := hr.renewed hx
      rw [hlink]
      rfl
    have hkids := hr.kids (LooseLink.content_lt hq)
    rw [if_pos rfl, hmap, ← hr.content, Arena.kids_of_find? hi] at hkids
    exact ⟨_, (Arena.items_of_find? hi).trans (congrArg Except.ok hkids)⟩

end Page

namespace Edit

variable {p q : Page} {x y w : ElementId} {c n : NodeId} {s b t : List NodeId}

theorem Exchange.keepsCategories [Entities] {q' : Page} (hq : Exchange p x c s [n] b t q) (h : p.Recorded)
    (hn : p.backing? y = some n) (hr : Refresh q x q') :
    Ends (keepCategories n) q' (fun _ r => p.KeepsCategoriesIn y r) fun _ _ => False := by
  have hp := h.toSynced
  have hrefreshed := hr.refreshed (hq.synced hp)
  have hcut := hq.cut_refreshed hp hn hrefreshed
  have hrec := (hcut.toSameRecords.leads h hcut.synced hcut.mirrored).recorded
  have horder := h.linkedInOrder (n := n)
  refine (renews_keepCategories hrec hcut.known).mono (fun _ r hr' => ?_) fun _ _ hf => hf
  rw [hq.linkedWithin_eq hp hrefreshed] at hr'
  refine ⟨n, _, Page.backingNode_of_backing? hn, horder, hcut.toSameRecords.keepsCategories h hcut.synced
    (Nat.le_of_eq (hq.size_eq hrefreshed).symm) hr'.2 hr'.1.toSynced fun z hz hnil => ?_⟩
  obtain ⟨link, hlink, -⟩ := horder.mem_iff.1 hz
  simp [Page.linkNodes, hnil] at hlink

theorem removeChild_keepsCategories [Entities] (h : p.Recorded) :
    Ends (removeChild x y) p (fun _ q => p.KeepsCategoriesIn y q) fun _ _ => True :=
  ends_removeChild_exchange h.toSynced (fun _ _ _ _ _ _ hn hq hr =>
    (hq.keepsCategories h hn hr).mono (fun _ _ hr => hr) fun _ _ hf => hf.elim) fun _ _ _ => trivial

theorem replaceChild_keepsCategories [Entities] (h : p.Recorded) :
    Ends (replaceChild x w y) p (fun _ q => p.KeepsCategoriesIn y q) fun _ _ => True :=
  ends_replaceChild_exchange h.toSynced (fun _ _ _ _ _ _ _ hn _ hq hr =>
    (hq.keepsCategories h hn hr).mono (fun _ _ hr => hr) fun _ _ hf => hf.elim) fun _ _ _ => trivial

/-- A child is taken out of the page, or another comes in its place. -/
inductive CutsOut (p : Page) (y : ElementId) (q : Page) : Prop
  | remove {x : ElementId} (hok : removeChild x y p = .ok () q)
  | replace {x w : ElementId} (hok : replaceChild x w y p = .ok () q)

end Edit

namespace Page

variable {p q : Page} {site : Site} {y : ElementId}

/-- On a page that is reached, the categories with links in a part that is cut out are kept by new links
at the end of the page. -/
theorem keepsCategories_reached [Entities] (h : p.Reached site) (hq : Edit.CutsOut p y q) :
    p.KeepsCategoriesIn y q := by
  cases hq with
  | remove hok => exact (Edit.removeChild_keepsCategories h.orderly.recorded).of_ok hok
  | replace hok => exact (Edit.replaceChild_keepsCategories h.orderly.recorded).of_ok hok

/-- A page with a bold text in which two categories are named, one of them outside it too. -/
def boldlyNamed : Page :=
  (read "[[Category:A]]b '''[[Category:B]][[Category:A]]'''" .default "Test" false).toOption.getD
    (ofDrafts .new .default "Test" [])

/-- The bold text is taken out, and the page stays in both categories. -/
theorem keepsCategories_reached_boldlyNamed : boldlyNamed.Reached .default ∧
    ∃ q, Edit.CutsOut boldlyNamed ⟨4⟩ q ∧ boldlyNamed.KeepsCategoriesIn ⟨4⟩ q := by
  have hread : read "[[Category:A]]b '''[[Category:B]][[Category:A]]'''" .default "Test" false =
      .ok boldlyNamed := by decide +kernel
  have hreached : boldlyNamed.Reached .default := .read hread
  have hrun : ((Edit.removeChild ⟨2⟩ ⟨4⟩).exec boldlyNamed).isOk = true := by decide +kernel
  obtain ⟨_, q, hok⟩ := Edit.exists_of_isOk hrun
  exact ⟨hreached, q, .remove hok, keepsCategories_reached hreached (.remove hok)⟩

end Page
end WikiPage
