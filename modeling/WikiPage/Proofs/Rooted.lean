import WikiPage.Proofs.Children
import WikiPage.Proofs.Records

/-!
# Links that are part of the page

The links of a category can be lost from the page with what they stand in. Where no link of a category
stands in another one, a link is taken out alone, and what is cut out of the page with an element is made
up for.
-/

namespace WikiPage

theorem Arena.IsForest.mem_below_of_reaches {a : Arena} (h : a.IsForest) {x y : NodeId} {n : Node}
    (hx : a.find? x = some n) (hr : Reaches a.kids x y) (hy : x ≠ y) : y ∈ a.below x := by
  have hm := h.mem_preorder_iff.2 hr
  rw [h.preorder_tree hx] at hm
  exact (List.mem_cons.1 hm).resolve_left hy.symm

namespace Page

variable {p q r : Page} {id : ElementId} {name : String} {l : PlacedLink}
  {pending : ElementId → Prop}

/-- No link of a category stands in another, and those of the categories that are not pending are part
of the page. -/
structure Rooted (p : Page) (pending : ElementId → Prop) : Prop where
  apart : ∀ {m n}, p.Linked m → p.Linked n → Reaches p.arena.kids m n → m = n
  part : ∀ {x l}, ¬pending x → l ∈ p.linksOf x → Reaches p.arena.kids Arena.root l.link

/-- All links of categories are part of the page, and none stands in another. -/
abbrev IsRooted (p : Page) : Prop :=
  p.Rooted fun _ => False

theorem NewLink.linksOf_next (hl : (p.push (newCategory name)).NewLink r name l) : r.linksOf p.next = [] := by
  rw [hl.linksOf_eq, linksOf_pushCategory, linksOf, find?_next]
  rfl

theorem NewLink.isCategory_next (hl : (p.push (newCategory name)).NewLink r name l) : r.IsCategory p.next :=
  hl.calm.isCategory.2 Edit.isCategory_pushCategory

namespace Rooted

theorem linked_part (h : p.IsRooted) {n : NodeId} (hn : p.Linked n) :
    Reaches p.arena.kids Arena.root n := by
  obtain ⟨x, hx⟩ := linked_iff.1 hn
  obtain ⟨l, hl, rfl⟩ := List.mem_map.1 hx
  exact h.part not_false hl

theorem weaken {pending' : ElementId → Prop} (h : p.Rooted pending)
    (hp : ∀ x, p.linksOf x ≠ [] → pending x → pending' x) : p.Rooted pending' where
  apart := h.apart
  part hx hl := h.part (fun hx' => hx (hp _ (List.ne_nil_of_mem hl) hx')) hl

theorem of_same (h : p.Rooted pending) (hl : q.linksOf = p.linksOf)
    (ha : q.arena.kids = p.arena.kids) : q.Rooted pending where
  apart hm hn hr := by
    rw [linked_iff, hl, ← linked_iff] at hm hn
    exact h.apart hm hn (ha ▸ hr)
  part hx hm := by
    rw [hl] at hm
    rw [ha]
    exact h.part hx hm

/-- Links that are part of the page are in no element that is on no page. -/
theorem anchored (h : p.IsRooted) (hp : p.Synced) : p.Anchored :=
  fun _ _ hx hn hl _ hm => hp.not_reaches_part hx hn hl (h.linked_part hm)

theorem steady (h : p.IsRooted) (hp : p.Synced) (hq : p.Steady q) : q.IsRooted where
  apart hm hn hr :=
    have hm := hq.linked_iff.1 hm
    have hn := hq.linked_iff.1 hn
    h.apart hm hn (hq.below (h.anchored hp) hm hn hr)
  part _ hl := by
    have hn := hq.linked_iff.1 (linked_of_mem hl)
    exact hq.part hn (h.linked_part hn)

theorem dropped {gone kept : List PlacedLink} (h : p.Rooted pending) (hp : p.Recorded)
    (hc : p.IsCategory id) (hd : p.Dropped id gone kept q) (hgone : gone ⊆ p.linksOf id)
    (hkept : kept ⊆ p.linksOf id) (hout : ∀ l ∈ kept, l.link ∉ gone.map PlacedLink.link) :
    q.Rooted pending := by
  have hlinks := hd.linksOf hc.find?_ne_none
  have hother {x : ElementId} {l : PlacedLink} (hx : x ≠ id) (hl : l ∈ p.linksOf x) :
      l.link ∉ gone.map PlacedLink.link := fun hg => by
    obtain ⟨k, hk, he⟩ := List.mem_map.1 hg
    exact hx (hp.eq_of_mem (he ▸ List.mem_map_of_mem hl) (List.mem_map_of_mem (hgone hk)))
  have hmem {x : ElementId} {l : PlacedLink} (hl : l ∈ q.linksOf x) :
      l ∈ p.linksOf x ∧ l.link ∉ gone.map PlacedLink.link := by
    rw [hlinks] at hl
    split at hl
    · subst x
      exact ⟨hkept hl, hout l hl⟩
    · exact ⟨hl, hother ‹_› hl⟩
  have hlinked {n : NodeId} (hn : q.Linked n) : p.Linked n := by
    obtain ⟨x, hx⟩ := linked_iff.1 hn
    obtain ⟨l, hl, rfl⟩ := List.mem_map.1 hx
    exact linked_of_mem (hmem hl).1
  have hsub (c : NodeId) : q.arena.kids c ⊆ p.arena.kids c := by
    rw [hd.kids]
    exact fun _ hn => (List.mem_filter.1 hn).1
  refine ⟨fun hm hn hr => h.apart (hlinked hm) (hlinked hn) (hr.mono hsub), fun hx hl => ?_⟩
  obtain ⟨hl, hnot⟩ := hmem hl
  refine Synced.reaches_of_keeps (fun {c y} hy hr => ?_) (h.part hx hl)
  rw [hd.kids]
  refine List.mem_filter.2 ⟨hy, decide_eq_true fun hg => hnot ?_⟩
  -- what is taken out does not have the link below it
  obtain ⟨k, hk, rfl⟩ := List.mem_map.1 hg
  rwa [← h.apart (linked_of_mem (hgone hk)) (linked_of_mem hl) hr]

theorem newLink (h : p.Rooted pending) (hl : p.NewLink q name l) : q.Rooted pending where
  apart hm hn hr := by
    have hn := hl.calm.linked_iff.1 hn
    exact h.apart (hl.calm.linked_iff.1 hm) hn (hl.old hn hr)
  part {x k} hx hk := by
    rw [hl.linksOf_eq] at hk
    exact hl.calm.part (linked_of_mem hk) (h.part hx hk)

theorem addLink (h : p.Rooted pending) (hl : p.NewLink q name l) (hc : q.IsCategory id)
    (hnil : q.linksOf id = []) : (q.addLink id l).Rooted fun x => pending x ∧ x ≠ id := by
  have hq := h.newLink hl
  have hlinks := linksOf_addLink (l := l) hc.find?_ne_none
  rw [hnil, List.nil_append] at hlinks
  have hlinked {n : NodeId} (hn : (q.addLink id l).Linked n) : n = l.link ∨ q.Linked n := by
    obtain ⟨x, hx⟩ := linked_iff.1 hn
    rw [hlinks] at hx
    split at hx
    · exact .inl (List.mem_singleton.1 hx)
    · exact .inr (linked_iff.2 ⟨x, hx⟩)
  refine ⟨fun {m n} hm hn hr => ?_, fun {x k} hx hk => ?_⟩
  · have hr : Reaches q.arena.kids m n := hr
    rcases hlinked hm with rfl | hm <;> rcases hlinked hn with rfl | hn
    · rfl
    · exact absurd (hl.calm.linked_iff.1 hn) (hl.bare hr)
    · exact absurd (hl.calm.linked_iff.1 hm) (hl.apart hr)
    · exact hq.apart hm hn hr
  · rw [hlinks] at hk
    split at hk
    · obtain rfl := List.mem_singleton.1 hk
      exact hl.part
    · exact hq.part (fun hp => hx ⟨hp, ‹_›⟩) hk

/-- A node is cut out of the page. The categories with links at or below it are pending. -/
theorem cut (h : p.IsRooted) (hp : p.Synced) {n : NodeId} (hq : p.Cut n q) :
    q.Rooted fun x => ∃ l ∈ q.linksOf x, Reaches q.arena.kids n l.link where
  apart hm hn hr :=
    have hm := hq.linked_iff.1 hm
    have hn := hq.linked_iff.1 hn
    h.apart hm hn (hq.below (h.anchored hp) hm hn hr)
  part {x l} hx hl := by
    have hn := hq.linked_iff.1 (linked_of_mem hl)
    exact hq.part hn (h.linked_part hn) fun hr => hx ⟨l, hl, hq.under hr⟩

theorem attached (h : p.IsRooted) (hl : (p.push (newCategory name)).NewLink r name l) :
    (Edit.attached r p.next name l).IsRooted := by
  have hc := hl.isCategory_next
  have hpush : (p.push (newCategory name)).IsRooted := h.of_same linksOf_pushCategory rfl
  exact ((hpush.addLink hl hc hl.linksOf_next).weaken fun x _ hx => hx.1.elim).of_same
    (linksOf_attached_eq (hl.calm.synced.ne_root_of_isCategory hc)) rfl

theorem detached (h : p.IsRooted) (hp : p.Recorded) (hc : p.IsCategory id)
    (hr : p.Dropped id (p.linksOf id) [] r) : (Edit.detached r id name).IsRooted := by
  have hd := h.dropped hp hc hr (List.Subset.refl _) (List.nil_subset _) (by simp)
  exact hd.of_same (linksOf_detached (hp.ne_root_of_isCategory hc)) rfl

theorem renewed (h : p.Rooted pending) (hp : p.Recorded) (hc : p.IsCategory id)
    (hr : p.Dropped id (p.linksOf id) [] r) (hs : r.NewLink q name l) :
    (q.addLink id l).Rooted fun x => pending x ∧ x ≠ id := by
  have hd := h.dropped hp hc hr (List.Subset.refl _) (List.nil_subset _) (by simp)
  exact hd.addLink hs (hs.calm.isCategory.2 (hr.isCategory hc)) (hr.linksOf_newLink hc hs)

/-- The canonical link of a category is written anew, and the others are given up. -/
theorem retitled (h : p.IsRooted) (hp : p.Recorded) (hc : p.IsCategory id) {n : NodeId}
    {target : String} {categories : Index String ElementId} (hr : Edit.Relinked p n target r)
    (hs : r.Dropped id ((r.linksOf id).filter fun k => some k.link ≠ some n)
      ((r.linksOf id).filter fun k => some k.link = some n) q) :
    (q.setIndex categories).IsRooted := by
  have hroot : r.IsRooted := h.of_same hr.linksOf_eq hr.arena.alike.kids_eq
  have hd := hroot.dropped (hp.relinked hr) (hr.isCategory hc) hs (fun k hk => (List.mem_filter.1 hk).1)
    (fun k hk => (List.mem_filter.1 hk).1) fun k hk hg => ?_
  · exact hd.of_same rfl rfl
  · obtain ⟨k', hk', he⟩ := List.mem_map.1 hg
    simp only [List.mem_filter, decide_eq_true_eq] at hk hk'
    exact hk'.2 (he ▸ hk.2)

end Rooted

/-- No link is in an element that is on no page, unless the category of the link is pending. -/
def Moored (p : Page) (pending : ElementId → Prop) : Prop :=
  ∀ x n, x ≠ root → p.backing? x = some n → p.arena.Loose n →
    ∀ z l, ¬pending z → l ∈ p.linksOf z → ¬Reaches p.arena.kids n l.link

theorem moored_iff : p.Moored (fun _ => False) ↔ p.Anchored := by
  refine ⟨fun h x n hx hn hl m hm => ?_, fun h x n hx hn hl z l _ hz => h x n hx hn hl _ (linked_of_mem hz)⟩
  obtain ⟨z, hz⟩ := linked_iff.1 hm
  obtain ⟨l, hlz, rfl⟩ := List.mem_map.1 hz
  exact h x n hx hn hl z l not_false hlz

namespace Moored

theorem weaken {pending' : ElementId → Prop} (h : p.Moored pending)
    (hp : ∀ x, p.linksOf x ≠ [] → pending x → pending' x) : p.Moored pending' :=
  fun x n hx hn hl z l hz hlz =>
    h x n hx hn hl z l (fun hz' => hz (hp z (List.ne_nil_of_mem hlz) hz')) hlz

theorem of_same (h : p.Moored pending) (hl : q.linksOf = p.linksOf) (hb : q.backing? = p.backing?)
    (ha : q.arena.kids = p.arena.kids) : q.Moored pending := by
  intro x n hx hn hloose z l hz hlz
  rw [hb] at hn
  rw [hl] at hlz
  rw [ha]
  exact h x n hx hn (fun w hw => hloose w (ha ▸ hw)) z l hz hlz

theorem dropped {gone kept : List PlacedLink} (h : p.Moored pending) (hp : p.Recorded)
    (hc : p.IsCategory id) (hd : p.Dropped id gone kept q) (hgone : gone ⊆ p.linksOf id)
    (hkept : kept ⊆ p.linksOf id) : q.Moored pending := by
  intro x n hx hn hloose z l hz hlz hr
  rw [backing?_congr hd.form?] at hn
  have hlp : l ∈ p.linksOf z := by
    rw [hd.linksOf hc.find?_ne_none] at hlz
    split at hlz
    · subst z
      exact hkept hlz
    · exact hlz
  refine h x n hx hn (fun w hw => ?_) z l hz hlp (hr.mono fun c => ?_)
  · -- an element is no link
    refine hloose w ?_
    rw [hd.kids]
    refine List.mem_filter.2 ⟨hw, decide_eq_true fun hg => ?_⟩
    obtain ⟨k, hk, rfl⟩ := List.mem_map.1 hg
    exact hp.unlinked (linked_of_mem (hgone hk)) x hn
  · rw [hd.kids]
    exact fun _ hm => (List.mem_filter.1 hm).1

theorem newLink (h : p.Moored pending) (hl : p.NewLink q name l) : q.Moored pending := by
  intro x n hx hn hloose z k hz hk hr
  rw [hl.linksOf_eq] at hk
  rw [backing?_congr hl.form?_eq] at hn
  exact h x n hx hn (fun w hw => hloose w (hl.held w hw)) z k hz hk (hl.old (linked_of_mem hk) hr)

theorem addLink (h : p.Moored pending) (hl : p.NewLink q name l) (hc : q.IsCategory id)
    (hnil : q.linksOf id = []) : (q.addLink id l).Moored fun x => pending x ∧ x ≠ id := by
  have hq := hl.calm.synced
  intro x n hx hn hloose z k hz hk hr
  rw [backing?_congr form?_addLink] at hn
  rw [linksOf_addLink hc.find?_ne_none, hnil, List.nil_append] at hk
  split at hk
  · -- the new link is part of the page
    obtain rfl := List.mem_singleton.1 hk
    exact hq.not_reaches_part hx hn hloose hl.part hr
  · exact h.newLink hl x n hx hn hloose z k (fun hp => hz ⟨hp, ‹_›⟩) hk hr

theorem renewed (h : p.Moored pending) (hp : p.Recorded) (hc : p.IsCategory id)
    (hr : p.Dropped id (p.linksOf id) [] r) (hs : r.NewLink q name l) :
    (q.addLink id l).Moored fun x => pending x ∧ x ≠ id := by
  have hd := h.dropped hp hc hr (List.Subset.refl _) (List.nil_subset _)
  exact hd.addLink hs (hs.calm.isCategory.2 (hr.isCategory hc)) (hr.linksOf_newLink hc hs)

end Moored

namespace Anchored

/-- A node is cut out of the page. The categories with links at or below it are pending. -/
theorem cut (h : p.Anchored) {n : NodeId} (hq : p.Cut n q) :
    q.Moored fun x => ∃ l ∈ q.linksOf x, Reaches q.arena.kids n l.link := by
  intro x k hx hk hloose z l hz hl hr
  by_cases hkn : k = n
  · subst hkn
    exact hz ⟨l, hl, hr⟩
  · exact hq.anchored h x k hx hkn hk hloose l.link (linked_of_mem hl) hr

theorem attached (h : p.Anchored) (hl : (p.push (newCategory name)).NewLink r name l) :
    (Edit.attached r p.next name l).Anchored := by
  have hc := hl.isCategory_next
  have hr := hl.calm.synced.ne_root_of_isCategory hc
  have hpush : (p.push (newCategory name)).Moored fun _ => False :=
    (moored_iff.2 h).of_same linksOf_pushCategory backing?_pushCategory rfl
  refine moored_iff.1 (((hpush.addLink hl hc hl.linksOf_next).weaken fun x _ hx => hx.1.elim).of_same
    (linksOf_attached_eq hr) ?_ rfl)
  rw [backing?_congr (form?_attached hr), backing?_congr form?_addLink]

theorem detached (h : p.Anchored) (hp : p.Recorded) (hc : p.IsCategory id)
    (hr : p.Dropped id (p.linksOf id) [] r) : (Edit.detached r id name).Anchored := by
  have hd := (moored_iff.2 h).dropped hp hc hr (List.Subset.refl _) (List.nil_subset _)
  have hid := hp.ne_root_of_isCategory hc
  exact moored_iff.1 (hd.of_same (linksOf_detached hid) (backing?_congr (form?_detached hid)) rfl)

theorem retitled (h : p.Anchored) (hp : p.Recorded) (hc : p.IsCategory id) {n : NodeId}
    {target : String} {categories : Index String ElementId} (hr : Edit.Relinked p n target r)
    (hs : r.Dropped id ((r.linksOf id).filter fun k => some k.link ≠ some n)
      ((r.linksOf id).filter fun k => some k.link = some n) q) :
    (q.setIndex categories).Anchored := by
  have hroot : r.Moored fun _ => False :=
    (moored_iff.2 h).of_same hr.linksOf_eq (backing?_congr hr.form?_eq) hr.arena.alike.kids_eq
  have hd := hroot.dropped (hp.relinked hr) (hr.isCategory hc) hs (fun k hk => (List.mem_filter.1 hk).1)
    fun k hk => (List.mem_filter.1 hk).1
  exact moored_iff.1 (hd.of_same rfl rfl rfl)

end Anchored

/-- No link of a category stands in one that is on record after it for the same category. -/
def InOrder (p : Page) : Prop :=
  ∀ x, ((p.linksOf x).map PlacedLink.link).Pairwise fun m n => ¬Reaches p.arena.kids n m

namespace InOrder

/-- Links have been given up, and none comes to stand in another. -/
theorem of_sublist (h : p.InOrder)
    (hl : ∀ x, ((q.linksOf x).map PlacedLink.link).Sublist ((p.linksOf x).map PlacedLink.link))
    (hr : ∀ {m n}, p.Linked m → p.Linked n → Reaches q.arena.kids m n → Reaches p.arena.kids m n) :
    q.InOrder := fun x =>
  ((h x).imp_of_mem fun hm hn hmn hnm => hmn (hr (linked_iff.2 ⟨x, hn⟩) (linked_iff.2 ⟨x, hm⟩) hnm)).sublist
    (hl x)

theorem of_same (h : p.InOrder) (hl : q.linksOf = p.linksOf) (ha : q.arena.kids = p.arena.kids) : q.InOrder :=
  h.of_sublist (fun x => by rw [hl]) fun _ _ hr => ha ▸ hr

theorem steady (h : p.InOrder) (ha : p.Anchored) (hq : p.Steady q) : q.InOrder :=
  h.of_sublist (fun x => by rw [hq.links]) (hq.below ha)

theorem cut (h : p.InOrder) (ha : p.Anchored) {n : NodeId} (hq : p.Cut n q) : q.InOrder :=
  h.of_sublist (fun x => by rw [hq.links]) (hq.below ha)

theorem dropped {gone kept : List PlacedLink} (h : p.InOrder) (hc : p.IsCategory id)
    (hd : p.Dropped id gone kept q) (hkept : kept.Sublist (p.linksOf id)) : q.InOrder := by
  refine h.of_sublist (fun x => ?_) fun _ _ hr => hr.mono fun c => ?_
  · rw [hd.linksOf hc.find?_ne_none]
    split
    · subst x
      exact hkept.map _
    · exact List.Sublist.refl _
  · rw [hd.kids]
    exact fun _ hm => (List.mem_filter.1 hm).1

theorem addLink (h : p.InOrder) (hl : p.NewLink q name l) (hc : q.IsCategory id)
    (hnil : q.linksOf id = []) : (q.addLink id l).InOrder := by
  have hq : q.InOrder := h.of_sublist (fun x => by rw [hl.calm.links]) fun _ hn hr => hl.old hn hr
  intro x
  rw [linksOf_addLink hc.find?_ne_none, hnil, List.nil_append]
  split
  · exact List.pairwise_singleton _ _
  · exact hq x

theorem attached (h : p.InOrder) (hl : (p.push (newCategory name)).NewLink r name l) :
    (Edit.attached r p.next name l).InOrder := by
  have hc := hl.isCategory_next
  have hpush : (p.push (newCategory name)).InOrder := h.of_same linksOf_pushCategory rfl
  exact (hpush.addLink hl hc hl.linksOf_next).of_same
    (linksOf_attached_eq (hl.calm.synced.ne_root_of_isCategory hc)) rfl

theorem detached (h : p.InOrder) (hp : p.Recorded) (hc : p.IsCategory id)
    (hr : p.Dropped id (p.linksOf id) [] r) : (Edit.detached r id name).InOrder :=
  (h.dropped hc hr (List.nil_sublist _)).of_same (linksOf_detached (hp.ne_root_of_isCategory hc)) rfl

theorem renewed (h : p.InOrder) (hc : p.IsCategory id) (hr : p.Dropped id (p.linksOf id) [] r)
    (hs : r.NewLink q name l) : (q.addLink id l).InOrder :=
  (h.dropped hc hr (List.nil_sublist _)).addLink hs (hs.calm.isCategory.2 (hr.isCategory hc))
    (hr.linksOf_newLink hc hs)

theorem retitled (h : p.InOrder) (hc : p.IsCategory id) {n : NodeId} {target : String}
    {categories : Index String ElementId} (hr : Edit.Relinked p n target r)
    (hs : r.Dropped id ((r.linksOf id).filter fun k => some k.link ≠ some n)
      ((r.linksOf id).filter fun k => some k.link = some n) q) : (q.setIndex categories).InOrder := by
  have hro : r.InOrder := h.of_same hr.linksOf_eq hr.arena.alike.kids_eq
  exact (hro.dropped (hr.isCategory hc) hs List.filter_sublist).of_same rfl rfl

end InOrder

/-- What is on record stays in agreement. The links stay part of the page and in their order, and none comes
to be in an element that is on no page. -/
structure Keeps (p q : Page) : Prop extends Leads p q where
  rooted : p.IsRooted → q.IsRooted
  anchored : p.Anchored → q.Anchored
  inOrder : p.Anchored → p.InOrder → q.InOrder

theorem Keeps.trans (h : p.Keeps q) (h' : q.Keeps r) : p.Keeps r :=
  ⟨h.toLeads.trans h'.toLeads, fun hp => h'.rooted (h.rooted hp), fun hp => h'.anchored (h.anchored hp),
    fun ha hp => h'.inOrder (h.anchored ha) (h.inOrder ha hp)⟩

theorem Recorded.keeps_refl (h : p.Recorded) : p.Keeps p :=
  ⟨h.leads_refl, fun hr => hr, fun ha => ha, fun _ ho => ho⟩

theorem Calm.keeps (h : p.Calm q) (hp : p.Recorded) : p.Keeps q :=
  ⟨h.leads hp, fun hr => hr.steady hp.toSynced h.toSteady, h.anchored, fun ha ho => ho.steady ha h.toSteady⟩

/-- What categories were pending for is settled for some of them. -/
structure Settles (p : Page) (done : ElementId → Prop) (q : Page) : Prop where
  rooted : ∀ {pending}, p.Rooted pending → q.Rooted fun x => pending x ∧ ¬done x
  moored : ∀ {pending}, p.Moored pending → q.Moored fun x => pending x ∧ ¬done x
  inOrder : p.InOrder → q.InOrder

namespace Settles

variable {done done' : ElementId → Prop}

theorem refl (hd : ∀ x, ¬done x) : p.Settles done p :=
  ⟨fun h => h.weaken fun x _ hx => ⟨hx, hd x⟩, fun h => h.weaken fun x _ hx => ⟨hx, hd x⟩, fun h => h⟩

theorem trans {both : ElementId → Prop} (h : p.Settles done q) (h' : q.Settles done' r)
    (hb : ∀ x, both x → done x ∨ done' x) : p.Settles both r := by
  have left {pending : ElementId → Prop} {x : ElementId} (hx : (pending x ∧ ¬done x) ∧ ¬done' x) :
      pending x ∧ ¬both x := ⟨hx.1.1, fun hxb => (hb x hxb).elim hx.1.2 hx.2⟩
  exact ⟨fun hp => (h'.rooted (h.rooted hp)).weaken fun x _ hx => left hx,
    fun hp => (h'.moored (h.moored hp)).weaken fun x _ hx => left hx, fun hp => h'.inOrder (h.inOrder hp)⟩

end Settles

end Page
end WikiPage
