import WikiPage.EntityTable
import WikiPage.Proofs.Commuting
import WikiPage.Proofs.Growing
import WikiPage.Proofs.Renewal
import WikiPage.Proofs.Sealed

/-!
# What is kept as it stands

An element that is kept as it stands holds no elements, and so no edit of another element leads to what
stands in its tag. Only links of categories are looked for there. When a category is renamed or removed,
or is to be given a new link, links of it are cut out wherever they stand, or one is led elsewhere; nothing
else in the tag ever changes.
-/

namespace WikiPage

/-- A node without the links that have been cut out of it, if it is a list. -/
def Node.without (gone : List NodeId) : Node → Node
  | ⟨.list items, g⟩ => ⟨.list (items.filter (· ∉ gone)), g⟩
  | n => n

theorem Node.without_eq_self {gone : List NodeId} {v : Node} (h : ∀ m ∈ v.payload.children, m ∉ gone) :
    v.without gone = v := by
  obtain ⟨payload, g⟩ := v
  cases payload with
  | list items =>
    have hitems : items.filter (· ∉ gone) = items :=
      List.filter_eq_self.2 fun m hm => by simpa using h m hm
    rw [without, hitems]
  | _ => rfl

namespace Arena

variable {a b c : Arena} {n m : NodeId} {gone : List NodeId} {led : Option NodeId}

/-- What stands at and below a node is as it was. -/
def KeepsPart (n : NodeId) (a b : Arena) : Prop :=
  a.AgreesBut b fun m => ¬Reaches a.kids n m

/-- What stands at and below a node is as it was, but links have been cut out of the lists there, and one
link leads elsewhere. -/
structure Trims (n : NodeId) (gone : List NodeId) (led : Option NodeId) (a b : Arena) : Prop where
  kept : ∀ m v, Reaches a.kids n m → led ≠ some m → a.find? m = some v → b.find? m = some (v.without gone)
  led : ∀ m, led = some m → ∃ old target title g g', a.find? m = some ⟨.link old title, g⟩ ∧
    b.find? m = some ⟨.link target title, g'⟩

namespace KeepsPart

theorem find? (h : a.KeepsPart n b) (hm : Reaches a.kids n m) {v : Node} (hv : a.find? m = some v) :
    b.find? m = some v :=
  h m v (not_not_intro hm) hv

theorem of_agreesBut {d : NodeId → Prop} (h : a.AgreesBut b d) (hd : ∀ m, Reaches a.kids n m → ¬d m) :
    a.KeepsPart n b :=
  fun m v hm => h m v (hd m (not_not.1 hm))

theorem of_extends (h : a.Extends b) : a.KeepsPart n b :=
  fun _ _ _ => h.find?_of_find?

theorem refl (a : Arena) (n : NodeId) : a.KeepsPart n a :=
  of_extends (.refl a)

theorem reaches (h : a.KeepsPart n b) (hm : Reaches a.kids n m) : Reaches b.kids n m := by
  induction hm with
  | refl => exact .refl
  | @tail l m hl hm ih =>
    cases hv : a.find? l with
    | none => simp [kids, Tree.kids, hv] at hm
    | some v => exact ih.tail (kids_of_find? (h.find? hl hv) ▸ kids_of_find? hv ▸ hm)

theorem trans (h : a.KeepsPart n b) (h' : b.KeepsPart n c) : a.KeepsPart n c :=
  fun _ _ hm hv => h'.find? (h.reaches (not_not.1 hm)) (h.find? (not_not.1 hm) hv)

theorem trans_trims (h : a.KeepsPart n b) (h' : b.Trims n gone led c)
    (hled : ∀ m, led = some m → a.find? m = b.find? m) : a.Trims n gone led c where
  kept m v hm hne hv := h'.kept m v (h.reaches hm) hne (h.find? hm hv)
  led m hm := hled m hm ▸ h'.led m hm

theorem trims (h : a.KeepsPart n b) : a.Trims n [] none b where
  kept m v hm _ hv := by rw [h.find? hm hv, Node.without_eq_self fun _ _ => List.not_mem_nil]
  led _ := nofun

theorem print_eq (h : a.KeepsPart n b) (ha : a.Founded) (hb : b.Founded) (hn : n.index < a.size) :
    b.print n = a.print n :=
  AgreesBut.print_eq h ha hb hn fun _ hm => hm

end KeepsPart

theorem Trims.keepsPart (h : a.Trims n gone led b) (hgone : ∀ m ∈ gone, ¬Reaches a.kids n m)
    (hled : ∀ m, led = some m → ¬Reaches a.kids n m) : a.KeepsPart n b := by
  intro m v hm hv
  have hm := not_not.1 hm
  rw [h.kept m v hm (fun he => hled m he hm) hv, Node.without_eq_self]
  intro k hk hgk
  exact hgone k hgk (hm.tail (kids_of_find? hv ▸ hk))

theorem KeepsPart.reaches_of_reaches (h : a.KeepsPart n b) (ha : a.IsForest) (hn : n.index < a.size)
    (hm : Reaches b.kids n m) : Reaches a.kids n m := by
  suffices hs : Reaches a.kids n m ∧ m.index < a.size from hs.1
  induction hm with
  | refl => exact ⟨.refl, hn⟩
  | @tail l m _ hm ih =>
    obtain ⟨hl, hlt⟩ := ih
    obtain ⟨v, hv⟩ := exists_of_index_lt hlt
    rw [kids_of_find? (h.find? hl hv), ← kids_of_find? hv] at hm
    exact ⟨hl.tail hm, ha.closed l m hm⟩

theorem Trims.of_kids (ha : a.Sound) (hb : b.Sound) (he : a.Evolves b)
    (hnodes : ∀ {m v}, a.find? m = some v → v.payload.isList = false → b.find? m = some v)
    (hkids : ∀ m, Reaches a.kids n m → b.kids m = (a.kids m).filter (· ∉ gone)) :
    a.Trims n gone none b where
  kept m v hm _ hv := by
    obtain ⟨payload, g⟩ := v
    cases payload with
    | list items =>
      obtain rfl : g = none := (Node.mk.inj (Option.some.inj (hv.symm.trans (ha.find?_of_list hv)))).2
      obtain ⟨g', hi⟩ := he.find?_list hv
      rw [hb.find?_of_list hi, hkids m hm, kids_of_find? hv]
      rfl
    | _ => exact hnodes hv rfl
  led _ := nofun

theorem Trims.retargets (hb : Edit.Retargets a l target b) (hc : b.Trims n gone none c)
    (hl : ∀ {v}, b.find? l = some v → v.payload.isList = false → c.find? l = some v) :
    a.Trims n gone (some l) c where
  kept m v hm hne hv := by
    have hm : Reaches b.kids n m := hb.alike.kids_eq ▸ hm
    exact hc.kept m v hm nofun ((hb.find?_of_ne fun he => hne (he ▸ rfl)).trans hv)
  led m hm := by
    obtain rfl := Option.some.inj hm
    obtain ⟨old, title, g, ha, hb⟩ := hb.find?_link
    exact ⟨old, target, title, g, _, ha, hl hb rfl⟩

end Arena

namespace Page

variable {p q : Page} {o x : ElementId} {n m l : NodeId}

/-- An element that is kept as it stands: a tag that holds no elements. -/
structure Sealed (p : Page) (o : ElementId) (n : NodeId) : Prop where
  form : p.form? o = some (.preserved, some (.tag n))
  childless : p.childrenOf o = []

namespace Sealed

theorem backing? (ho : p.Sealed o n) : p.backing? o = some n :=
  backing?_of_form? ho.form

theorem find?_node (ho : p.Sealed o n) (h : p.Synced) :
    ∃ name empty attributes body g, p.arena.find? n = some ⟨.element name empty attributes body, g⟩ := by
  obtain ⟨⟨payload, g⟩, hn, ht⟩ := h.writes ho.form
  cases payload with
  | element name empty attributes body => exact ⟨name, empty, attributes, body, g, hn⟩
  | _ => cases ht

theorem ne_of_kind (ho : p.Sealed o n) {k : Kind} {b : Option Backing} (hx : p.form? x = some (k, b))
    (hk : k ≠ .preserved) : x ≠ o := by
  rintro rfl
  exact hk (Prod.mk.inj (Option.some.inj (hx.symm.trans ho.form))).1

theorem ne_root (ho : p.Sealed o n) (h : p.Synced) : root ≠ o :=
  ho.ne_of_kind h.root_form nofun

theorem ne_body (ho : p.Sealed o n) (h : p.Synced) : body ≠ o :=
  ho.ne_of_kind h.body_form nofun

theorem container_ne_node (ho : p.Sealed o n) (h : p.Synced) : p.container? x ≠ some n := by
  intro hx
  obtain ⟨name, empty, attributes, body, g, hn⟩ := ho.find?_node h
  obtain ⟨items, hi⟩ := h.find?_container hx
  cases hn.symm.trans hi

theorem not_parentOf (ho : p.Sealed o n) (h : p.Synced) : p.parentOf x ≠ some o := fun hx => by
  have hmem := h.parent_iff.1 hx
  rw [ho.childless] at hmem
  cases hmem

theorem container_ne_backing (ho : p.Sealed o n) (h : p.Synced) (hc : p.container? o = some m) :
    p.backing? x ≠ some m := by
  intro hx
  by_cases hb : x = body
  · obtain rfl := hb
    have hbody := h.body_container.trans (h.body_backing.symm.trans hx)
    exact ho.ne_body h (h.container_inj hbody hc)
  · obtain ⟨v, hv, hlist⟩ := h.find?_backing hx hb
    obtain ⟨items, hi⟩ := h.find?_container hc
    obtain rfl := Option.some.inj (hv.symm.trans hi)
    cases hlist

/-- Of the nodes at and below the tag, only the tag and the list of what stands in it are anything to the
elements. The induction is on the way down from the tag. -/
theorem carried (ho : p.Sealed o n) (h : p.Synced) (hm : Reaches p.arena.kids n m) (hc : p.Carries m) :
    m = n ∨ p.container? o = some m := by
  induction hm with
  | refl => exact .inl rfl
  | @tail l m hl hm ih =>
    right
    have owner {y : ElementId} (hy : p.backing? y = some l) : y = o := by
      rcases ih (.inl ⟨y, hy⟩) with rfl | hc
      · exact h.backing_inj hy ho.backing?
      · exact absurd hy (ho.container_ne_backing h hc)
    have hlist {y : ElementId} (hy : p.container? y = some m) : p.container? o = some m := by
      obtain ⟨l', hl', hhome⟩ := h.container_home hy
      obtain rfl := h.sound.single hm hl'
      rcases hhome with ⟨-, rfl⟩ | hy'
      · exact absurd (owner h.root_backing) (ho.ne_root h)
      · exact owner hy' ▸ hy
    obtain ⟨y, hy⟩ | ⟨y, hy⟩ := hc
    · by_cases hb : y = body
      · obtain rfl := hb
        exact hlist (h.body_container.trans (h.body_backing.symm.trans hy))
      · -- an element in the list would be held
        obtain ⟨z, hz, hzl⟩ := h.home hy hb hm
        rcases ih (.inr ⟨z, hzl⟩) with rfl | hc
        · exact absurd hzl (ho.container_ne_node h)
        · exact absurd (h.container_inj hzl hc ▸ hz) (ho.not_parentOf h)
    · exact hlist hy

theorem update (ho : p.Sealed o n) {f : Element → Element}
    (hf : ∀ e, (f e).kind = e.kind ∧ (f e).backing = e.backing ∧ (f e).children = e.children)
    (x : ElementId) : (p.update x f).Sealed o n where
  form := (congrFun (form?_update fun e => ⟨(hf e).1, (hf e).2.1⟩) o).trans ho.form
  childless := (congrFun (childrenOf_update fun e => (hf e).2.2) o).trans ho.childless

variable (ho : p.Sealed o n) (h : p.Synced) (hm : Reaches p.arena.kids n m)
include ho h hm

theorem eq_of_backing (hx : p.backing? x = some m) : x = o := by
  rcases ho.carried h hm (.inl ⟨x, hx⟩) with rfl | hc
  · exact h.backing_inj hx ho.backing?
  · exact absurd hx (ho.container_ne_backing h hc)

theorem eq_of_container (hx : p.container? x = some m) : x = o := by
  rcases ho.carried h hm (.inr ⟨x, hx⟩) with rfl | hc
  · exact absurd hx (ho.container_ne_node h)
  · exact h.container_inj hx hc

theorem eq_of_attributes (hl : p.attributeList? x = some l) (hx : Reaches p.arena.kids l m) : x = o := by
  rcases h.sound.total hx hm with hr | hr
  · exact absurd (.inl ⟨o, ho.backing?⟩) (h.not_carries_of_attribute hl hr)
  · obtain ⟨k, tag, v, hf, hv, hs⟩ := exists_of_attributeList? hl
    have hk : l ∈ p.arena.kids tag := Arena.kids_of_find? hv ▸ Payload.children_of_mem_slots hs
    rcases Relation.ReflTransGen.cases_tail hr with rfl | ⟨tag', hr, hk'⟩
    · exact absurd (.inl ⟨o, ho.backing?⟩) (h.not_carries_attributeList hl)
    · obtain rfl := h.sound.single hk hk'
      exact ho.eq_of_backing h hr (backing?_of_form? hf)

end Sealed

variable {id : ElementId} {gone kept : List PlacedLink} {ids : List ElementId} {links links' : NodeId → Prop}

theorem Dropped.trims (hd : p.Dropped id gone kept q) (h : p.Synced) :
    p.arena.Trims n (gone.map PlacedLink.link) none q.arena :=
  .of_kids h.sound hd.synced.sound hd.evolves hd.nodes fun m _ => hd.kids m

/-- New links are put at the end of the page, and so outside a part that has not all its content. -/
theorem Renews.trims (hq : p.Renews ids q) (h : p.Synced) (hs : q.Synced) (hn : n.index < p.arena.size)
    (hc : ¬Reaches p.arena.kids n p.arena.content) :
    p.arena.Trims n (ids.flatMap p.linkNodes) none q.arena := by
  refine .of_kids h.sound hs.sound hq.evolves hq.nodes fun m hm => ?_
  have hlt : m.index < p.arena.size := h.sound.index_lt_of_reaches hm hn
  rw [hq.kids hlt, if_neg, List.append_nil]
  rintro rfl
  exact hc hm

/-- What an act may do to a part of the page: links are cut out of it, and one leads elsewhere. -/
def Disturbs (p : Page) (n : NodeId) (links : NodeId → Prop) (q : Page) : Prop :=
  ∃ gone led, (∀ link, link ∈ gone ∨ led = some link → links link) ∧ p.arena.Trims n gone led q.arena

theorem Disturbs.of_keepsPart (h : p.arena.KeepsPart n q.arena) : p.Disturbs n links q :=
  ⟨[], none, by simp, h.trims⟩

theorem Disturbs.mono (h : p.Disturbs n links q) (hl : ∀ l, links l → links' l) : p.Disturbs n links' q := by
  obtain ⟨gone, led, hlinks, ht⟩ := h
  exact ⟨gone, led, fun l hm => hl l (hlinks l hm), ht⟩

end Page

namespace Edit

open Page (Sealed Disturbs Mirrored)

variable {α : Type} {p q q' : Page} {o x y id : ElementId} {c n k l : NodeId} {s r b t : List NodeId}
  {e d : Element} {key name value new : String} {whole : Prop} {old : Option String}

/-- An edit that leaves a part of the page alone, if it goes well. -/
abbrev Passes (m : Edit α) (p : Page) (n : NodeId) : Prop :=
  Ends m p (fun _ q => p.arena.KeepsPart n q.arena) fun _ _ => True

theorem Exchange.content_eq [Entities] (hq : Exchange p x c s r b t q) (h : p.Synced) (hr : Refresh q x q') :
    q'.arena.content = p.arena.content := by
  obtain ⟨_, hb, -, rfl⟩ := (hr.refreshed (hq.synced h)).tidied
  obtain ⟨items, hc⟩ := h.find?_container hq.container
  have hev : p.arena.Evolves q.arena := hq.arena ▸ Arena.evolves_setItems hc _
  exact (hev.trans hb.evolves).content_eq h.sound

theorem Exchange.keepsPart (hq : Exchange p x c s r b t q) (h : p.Synced) (ho : p.Sealed o n) (hx : x ≠ o)
    (hr : Refresh q x q') : p.arena.KeepsPart n q'.arena := by
  refine .of_agreesBut (d := fun m => m = c ∨ p.backing? x = some m) (fun m v hm hv => ?_) ?_
  · rw [not_or] at hm
    obtain ⟨items, hc⟩ := h.find?_container hq.container
    rw [hr.find?_of_ne (hq.backing?_eq ▸ hm.2), hq.arena, Arena.find?_setItems hc, if_neg hm.1, hv]
  · rintro m hm (rfl | hb)
    · exact hx (ho.eq_of_container h hm hq.container)
    · exact hx (ho.eq_of_backing h hm hb)

/-- A child gives way, and the links of categories in it are cut out wherever they stand. -/
theorem Exchange.disturbs [Entities] (hq : Exchange p x c s [k] b t q) (h : p.Recorded) (ho : p.Sealed o n)
    (hy : p.backing? y = some k) (hr : Refresh q x q') :
    Ends (keepCategories k) q' (fun _ r => p.Disturbs n
      (fun link => ∃ z l, (l ∈ p.linkNodes z ∧ Reaches p.arena.kids k l) ∧ link ∈ p.linkNodes z) r)
      fun _ _ => True := by
  have hp := h.toSynced
  have hrefreshed := hr.refreshed (hq.synced hp)
  have hcut := hq.cut_refreshed hp hy hrefreshed
  have hrec := (hcut.toSameRecords.leads h hcut.synced hcut.mirrored).recorded
  have hpart := hq.keepsPart hp ho (fun hx => hq.childrenOf_ne_nil hp hy (hx ▸ ho.childless)) hr
  have hn := h.backing_lt ho.backing?
  have hsize := hq.size_eq hrefreshed
  have hout : ¬Reaches q'.arena.kids n q'.arena.content := fun hc => by
    rw [hq.content_eq hp hr] at hc
    have hc := hpart.reaches_of_reaches h.sound.toIsForest hn hc
    exact ho.ne_body hp (ho.eq_of_container hp hc h.body_container)
  refine (renews_keepCategories hrec hcut.known).mono (fun _ r hr' => ?_) fun _ _ _ => trivial
  rw [hq.linkedWithin_eq hp hrefreshed] at hr'
  have hlinks : q'.linkNodes = p.linkNodes := funext hcut.links
  have htrims := hr'.2.trims hcut.synced hr'.1.toSynced (hsize ▸ hn) hout
  refine ⟨_, none, fun link hl => ?_, hpart.trans_trims htrims nofun⟩
  rw [hlinks] at hl
  obtain ⟨z, hz, hl⟩ := List.mem_flatMap.1 (hl.resolve_right nofun)
  obtain ⟨l, hlz, hkl⟩ := h.mem_linkedWithin.1 hz
  exact ⟨z, l.link, ⟨List.mem_map_of_mem hlz, hkl⟩, hl⟩

theorem passes_insertChild (h : p.Synced) (ho : p.Sealed o n) (position : Position) :
    Passes (insertChild x y position) p n := by
  by_cases hx : x = o
  · obtain rfl := hx
    exact Ends.bind (ends_ask (fun _ hok => absurd (Page.takes_of_checkInsertable hok)
      (Page.not_takes_of_preserved (Page.kindOf?_of_form? ho.form))) fun _ _ => trivial)
  · refine (ends_insertChild_exchange h).mono (fun _ q' hq' => ?_) fun _ _ _ => trivial
    obtain ⟨c, k, s, t, q, -, hq, -, hr⟩ := hq'
    exact hq.keepsPart h ho hx hr

theorem keepsPart_of_backing (h : p.Synced) (ho : p.Sealed o n) (hk : p.backing? x = some k) (hx : x ≠ o)
    {b : Arena} (hb : ∀ m, m ≠ k → b.find? m = p.arena.find? m) : p.arena.KeepsPart n b := by
  refine .of_agreesBut (d := (· = k)) (fun m v hm hv => (hb m hm).trans hv) ?_
  rintro m hm rfl
  exact hx (ho.eq_of_backing h hm hk)

theorem passes_setText (h : p.Synced) (ho : p.Sealed o n) (s : String) : Passes (setText x s) p n := by
  by_cases hx : ∃ e, p.find? x = some e ∧ e.kind = .text
  · obtain ⟨e, he, hk⟩ := hx
    obtain ⟨node, hn⟩ := h.exists_backing_of_movable he (hk ▸ rfl)
    have hne : x ≠ o := ho.ne_of_kind (Page.form?_of_find? he) (by simp [hk])
    refine (ends_setText h he hk hn).mono (fun _ q hq => ?_) fun _ _ _ => trivial
    obtain ⟨-, hq⟩ := hq
    generalize q.arena = b at hq ⊢
    cases hq with
    | stored hm =>
      exact keepsPart_of_backing h ho hn hne fun m hm => by rw [Arena.setPayload, Arena.find?_modify, if_neg hm]
    | @replaced c u v hc =>
      have hext := Arena.Extends.push p.arena ⟨.text s, none⟩
      refine .of_agreesBut (d := (· = c)) (fun m v hm hv => ?_) ?_
      · rw [Arena.find?_setItems (hext.find?_of_find? hc), if_neg hm, hext.find?_of_find? hv]
      · -- the list is not in the tag, or the text would be in it as well
        rintro m hm rfl
        have hmem : node ∈ p.arena.kids m := by simp [Arena.kids_of_find? hc, Payload.children]
        exact hne (ho.eq_of_backing h (hm.tail hmem) hn)
    | loose _ => exact .of_extends (.push _ _)
  · refine ends_requireKind.step ?_ fun _ _ _ => trivial
    rintro _ q ⟨rfl, he⟩
    exact absurd he hx

theorem passes_setComment (h : p.Synced) (ho : p.Sealed o n) (s : String) : Passes (setComment x s) p n := by
  refine ends_requireKind.step ?_ fun _ _ _ => trivial
  rintro _ q ⟨rfl, e, he, hk⟩
  have hne : x ≠ o := ho.ne_of_kind (Page.form?_of_find? he) (by simp [hk])
  refine Ends.bind (ends_ask (fun _ _ => ?_) fun _ _ => trivial)
  refine Ends.bind (ends_ask (fun node hnode => ?_) fun _ _ => trivial)
  have glued {b : Arena} (hb : ∀ m, m ≠ node → b.find? m = q.arena.find? m) :
      Ends (surgery (Surgery.setGlue node (Glue.comment s))) { q with arena := b }
        (fun _ r => q.arena.KeepsPart n r.arena) fun _ _ => True := by
    refine ends_surgery (Surgery.ends_change (fun b' hb' => ?_) fun _ _ => trivial)
    obtain ⟨_, -, -, rfl⟩ := Arena.exists_of_setGlue (PageError.eq_ok_of_ofArena hb')
    refine keepsPart_of_backing h ho (Page.backing?_of_backingNode hnode) hne fun m hm => ?_
    rw [Arena.find?_modify, if_neg hm, hb m hm]
  refine Ends.bind (ends_ask (fun payload _ => ?_) fun _ _ => trivial)
  split
  · refine Ends.bind (ends_surgery (Surgery.ends_setPayload (glued fun m hm => ?_)))
    rw [Arena.setPayload, Arena.find?_modify, if_neg hm]
  · exact Ends.bind (Ends.pure (glued fun _ _ => rfl))

theorem MadeTag.keepsPart (hq : MadeTag p x q) (h : p.Synced) (hm : p.Mirrored whole) (ho : p.Sealed o n)
    (he : p.find? x = some e) (hk : e.kind.tag? ≠ none) : q.Sealed o n ∧ p.arena.KeepsPart n q.arena := by
  have hf := Page.form?_of_find? he
  cases hb : e.backing with
  | none =>
    rw [hb] at hf
    have hc : e.kind = .category := h.writes hf
    rw [hc] at hk
    exact absurd rfl hk
  | some b =>
    rw [hb] at hf
    cases b with
    | tag k =>
      obtain rfl := hq.same hf
      exact ⟨ho, .refl _ _⟩
    | markup k =>
      obtain ⟨t, hconverts, rfl, rfl, rfl⟩ := hq.converts he hb ((hm x e he).bare hk hb)
      have hleaves := hconverts.leaves h hq.calm.synced hq.calm.site
      have hne : o ≠ t.id := fun hot => by
        have hb := congrArg (Option.map Prod.snd) (hf.symm.trans (hot ▸ ho.form))
        cases hb
      refine ⟨⟨(hleaves.form?_of_ne hne).trans ho.form, hleaves.childrenOf_eq ▸ ho.childless⟩,
        .of_agreesBut (hconverts.agrees h) ?_⟩
      rintro m hm (hc | ⟨y, hy, hc⟩)
      · exact hne (ho.eq_of_container h hm (hconverts.container?.trans hc.symm)).symm
      · obtain rfl := ho.eq_of_container h hm hc
        exact ho.not_parentOf h hy

theorem ends_promote_of_untagged (h : p.Synced) (he : p.find? x = some e) (hk : e.kind.tag? = none) :
    Ends (promote x) p (fun _ q => q = p) fun _ _ => True := by
  have hf := Page.form?_of_find? he
  cases hb : e.backing with
  | none =>
    refine Ends.bind (ends_ask (fun e' he' => ?_) fun _ _ => trivial)
    obtain rfl := Option.some.inj (he.symm.trans (Page.get_eq_ok_iff.1 he'))
    rw [hb]
    exact Ends.throw trivial
  | some b =>
    rw [hb] at hf
    cases b with
    | tag tag => exact (ends_promote h).mono (fun _ q hq => hq.same hf) fun _ _ _ => trivial
    | markup node =>
      obtain ⟨v, -, hmarks⟩ := h.writes hf
      exact (ends_promote_of_bare h he ((mem_bareKinds hmarks).2 hk)).mono (fun _ _ hf => hf.elim)
        fun _ _ _ => trivial

theorem passes_promote (h : p.Synced) (hm : p.Mirrored whole) (ho : p.Sealed o n) : Passes (promote x) p n := by
  cases he : p.find? x with
  | none =>
    refine Ends.bind (ends_ask (fun e he' => ?_) fun _ _ => trivial)
    cases he.symm.trans (Page.get_eq_ok_iff.1 he')
  | some e =>
    by_cases hk : e.kind.tag? = none
    · exact (ends_promote_of_untagged h he hk).mono (fun _ q hq => hq ▸ .refl _ _) fun _ _ _ => trivial
    · exact (ends_promote h).mono (fun _ q hq => (hq.keepsPart h hm ho he hk).2) fun _ _ _ => trivial

theorem ne_of_policy (ho : p.Sealed o n) (he : p.find? x = some e) {policy : Policy}
    (hp : Policy.find? e.kind name = some policy) : x ≠ o :=
  ho.ne_of_kind (Page.form?_of_find? he) (Policy.kind_of_find? hp).1

theorem passes_removeAttribute (h : p.Synced) (ho : p.Sealed o n) (name : String) :
    Passes (removeAttribute x name) p n := by
  refine (ends_removeAttribute_run h).mono ?_ fun _ _ _ => trivial
  rintro old q ⟨e, policy, he, hp, -, hq⟩
  rw [Page.policy_eq_get he, Policy.get_eq_ok_iff] at hp
  have hne := ne_of_policy ho he hp
  cases hq with
  | absent _ => exact .refl _ _
  | stored _ _ => exact .refl _ _
  | @written a node c s t _ _ hc hl =>
    refine .of_agreesBut (d := (· = c)) (fun m v hm hv => ?_) ?_
    · exact (Arena.find?_setItems hl m).trans ((if_neg hm).trans hv)
    · rintro m hm rfl
      exact hne (ho.eq_of_attributes h hm hc .refl)

theorem passes_commit (h : p.Synced) (hm : p.Mirrored whole) (ho : p.Sealed o n) (he : p.find? x = some e)
    {policy : Policy} (hp : Policy.find? e.kind name = some policy) (hkey : key.toLower = key) :
    Ends (commit x policy key value) p (fun _ q => p.arena.KeepsPart n q.arena ∧
      (policy.synced = false → q = p.update x (store key value))) fun _ _ => True := by
  have hne := ne_of_policy ho he hp
  cases hs : policy.synced with
  | false =>
    refine (ends_commit_of_unsynced hs).mono ?_ fun _ _ _ => trivial
    rintro old q ⟨-, -, -, rfl⟩
    exact ⟨.refl _ _, fun _ => rfl⟩
  | true =>
    have hk := tag?_of_synced hp hs
    refine Ends.bind (ends_ask (fun stored _ => ?_) fun _ _ => trivial)
    rw [hs]
    refine Ends.bind (Ends.map ((ends_writeValue_run h he hk hkey).mono ?_ fun _ _ _ => trivial))
    rintro node r ⟨-, q, d, hq, hd, hok⟩
    obtain ⟨hoq, hpart⟩ := hq.keepsPart h hm ho he hk
    have hqs := hq.calm.synced
    have hdk : d.kind = e.kind := hq.kind he hd
    obtain ⟨l, hl⟩ := Option.ne_none_iff_exists'.1 hq.tagged
    have hnode (m : NodeId) (hm : (Attribute.find? d.attributes key).bind Attribute.node = some m) :
        m ∈ q.writtenOf x := Page.writtenOf_of_find? hd ▸ Attribute.mem_nodes_of_find? hm
    obtain ⟨b, hb, rfl⟩ := (pens_writeAttribute hqs hl hnode).of_ok hok
    -- the value stands among the attributes of the other element, which are not in the tag either
    have hagrees := Page.agrees_of_pens hqs hl hd (hq.calm.mirrored hm x d hd) (hdk ▸ hk) hb
    have hwritten : q.arena.KeepsPart n b := by
      refine .of_agreesBut hagrees ?_
      rintro m hm ⟨l', hl', hr⟩
      exact hne (hoq.eq_of_attributes hqs hm hl' hr)
    exact Ends.bind (ends_update (fun _ _ => Ends.pure ⟨hpart.trans hwritten, nofun⟩) fun _ => trivial)

theorem passes_react (h : p.Synced) (ho : p.Sealed o n) (he : p.find? x = some e) (hc : e.kind ≠ .category)
    {policy : Policy} (hp : Policy.find? e.kind name = some policy) :
    Passes (react x old value policy.reaction) p n := by
  have hne := ne_of_policy ho he hp
  cases hr : policy.reaction with
  | none => exact Ends.pure (.refl _ _)
  | some r =>
    obtain ⟨-, ⟨rfl, hk⟩ | ⟨rfl, hk⟩⟩ := kind_of_reaction hp hr
    · rw [react]
      split
      · exact Ends.pure (.refl _ _)
      · refine (ends_retarget h (by rw [Page.form?_of_find? he, hk])).mono ?_ fun _ _ _ => trivial
        rintro - q ⟨link, hb, hq, -⟩
        have hback : p.backing? x = some link := Page.backing?_of_form? (hb ▸ Page.form?_of_find? he)
        exact keepsPart_of_backing h ho hback hne fun m hm => hq.arena.find?_of_ne hm
    · exact absurd hk hc

theorem passes_setAttribute (h : p.Synced) (hm : p.Mirrored whole) (ho : p.Sealed o n) (hc : ¬p.IsCategory x)
    (name value : String) : Passes (setAttribute x name value) p n := by
  refine Ends.bind (ends_ask (fun policy hpolicy => ?_) fun _ _ => trivial)
  obtain ⟨kind, hkind, -⟩ := Except.exists_of_bind hpolicy
  obtain ⟨e, he, rfl⟩ := Page.find?_of_kind hkind
  rw [Page.policy_eq_get he, Policy.get_eq_ok_iff] at hpolicy
  have hk : e.kind ≠ .category := fun hk => hc ⟨e.backing, by rw [Page.form?_of_find? he, hk]⟩
  refine Ends.bind (ends_ask (fun verified _ => ?_) fun _ _ => trivial)
  cases verified with
  | none => exact passes_removeAttribute h ho name
  | some verified =>
    refine (passes_commit h hm ho he hpolicy (toLower_toLower name)).step ?_ fun _ _ _ => trivial
    rintro old q ⟨hpart, hstored⟩
    refine Ends.bind (Ends.mono (Q := fun _ r => p.arena.KeepsPart n r.arena) ?_ (fun _ _ hr => Ends.pure hr)
      fun _ _ h => h)
    cases hr : policy.reaction with
    | none => exact Ends.pure hpart
    | some r =>
      -- what reacts is not written
      obtain rfl := hstored (kind_of_reaction hpolicy hr).1
      have hfind := Page.find?_update p x x (store name.toLower (policy.normalization.apply verified))
      rw [if_pos rfl, he, Option.map_some] at hfind
      have hsealed := ho.update (f := store name.toLower (policy.normalization.apply verified))
        (fun _ => ⟨rfl, rfl, rfl⟩) x
      rw [← hr]
      exact passes_react (synced_store h (toLower_toLower name)) hsealed hfind hk hpolicy

/-- All links of a category but the last are cut out, and the last leads to the new name. -/
theorem disturbs_renameLinks (h : p.Recorded) (hc : p.IsCategory id) :
    Ends (renameLinks id (p.nameOf? id) (Normalization.words.apply new)) (renamed p id new)
      (fun _ q => p.Disturbs n (· ∈ p.linkNodes id) q) fun _ _ => True := by
  refine (ends_renameLinks h hc).mono (fun _ q hq => ?_) fun _ _ _ => trivial
  rcases hq with ⟨rfl, -⟩ | ⟨old, l, hlast, -, -, r, s, hr, hd, rfl⟩
  · exact .of_keepsPart (.refl _ _)
  · have hlinks : r.linksOf id = p.linksOf id := by
      rw [hr.linksOf_eq, Page.Recorded.linksOf_renamed]
    refine ⟨_, some l.link, ?_, .retargets hr.arena (hd.trims hr.synced) hd.nodes⟩
    rintro link (hl | hl)
    · obtain ⟨l', hl', rfl⟩ := List.mem_map.1 hl
      exact List.mem_map_of_mem (hlinks ▸ (List.mem_filter.1 hl').1)
    · obtain rfl := Option.some.inj hl
      exact List.mem_map_of_mem (List.mem_of_getLast? hlast)

theorem disturbs_setAttribute (h : p.Recorded) (hm : p.Mirrored whole) (ho : p.Sealed o n) :
    Ends (setAttribute id name value) p
      (fun _ q => p.Disturbs n (fun link => name.toLower = "name" ∧ link ∈ p.linkNodes id) q)
      fun _ _ => True := by
  by_cases hc : p.IsCategory id
  · exact ends_setAttribute_name hc (fun _ _ _ => trivial) fun new hname _ =>
      (disturbs_renameLinks h hc).mono (fun _ _ hq => hq.mono fun _ hl => ⟨hname, hl⟩) fun _ _ h => h
  · exact (passes_setAttribute h.toSynced hm ho hc name value).mono (fun _ _ hq => .of_keepsPart hq)
      fun _ _ h => h

theorem disturbs_removeCategory (h : p.Recorded) : Ends (removeCategory name) p
    (fun _ q => p.Disturbs n (fun link => ∃ x, p.category? name = some x ∧ link ∈ p.linkNodes x) q)
    fun _ _ => True := by
  refine (ends_removeCategory h.toSynced fun id hid => ⟨h.inPlace id, h.named (h.indexed hid)⟩).mono ?_
    fun _ _ _ => trivial
  rintro id q ⟨hid, r, stored, hd, -, rfl⟩
  refine ⟨p.linkNodes id, none, fun link hl => ⟨id, hid, hl.resolve_right nofun⟩, ?_⟩
  rw [arena_detached]
  exact hd.trims h.toSynced

theorem passes_addCategory (h : p.Recorded) (ho : p.Sealed o n) : Passes (addCategory name) p n := by
  refine (ends_addCategory_made h.toSynced).mono ?_ fun _ _ _ => trivial
  rintro id q ⟨-, -, -, r, l, hl, rfl⟩
  refine .of_agreesBut (d := fun m => m = p.arena.content) (fun m v hm hv => ?_) ?_
  · exact (hl.find?_old (h.pushCategory _).toSynced (Arena.index_lt_of_find? hv) hm).trans hv
  · rintro m hm rfl
    exact ho.ne_body h.toSynced (ho.eq_of_container h.toSynced hm h.body_container)

end Edit

/-- Whether the act gives a category another name, removes it, or takes a link of it out of a list of children
with what stands there, so that it is given a new one. -/
def Act.Refiles (p : Page) (x : ElementId) : Act → Prop
  | removeChild _ child => ∃ k l, p.backing? child = some k ∧ l ∈ p.linkNodes x ∧ Reaches p.arena.kids k l
  | replaceChild _ _ old => ∃ k l, p.backing? old = some k ∧ l ∈ p.linkNodes x ∧ Reaches p.arena.kids k l
  | setAttribute id name _ => x = id ∧ name.toLower = "name"
  | setUniversal id name (some _) => x = id ∧ name.toLower = "name"
  | setCategoryName id _ => x = id
  | renameCategory old _ => p.category? old = some x
  | removeCategory name => p.category? name = some x
  | _ => False

/-- The links of the categories that the act is about. -/
def Act.Stirs (p : Page) (act : Act) (link : NodeId) : Prop :=
  ∃ x, act.Refiles p x ∧ link ∈ p.linkNodes x

namespace Act

open Edit
open Page (Sealed Disturbs Mirrored)

variable {p : Page} {act : Act} {o : ElementId} {n : NodeId} {whole : Prop}

/-- A checked act that goes well leaves the tag alone, but for links of the categories that it is about. -/
theorem disturbs_edit [Entities] (h : p.Recorded) (hm : p.Mirrored whole) (ho : p.Sealed o n)
    (hc : act.isChecked = true) :
    Ends act.edit p (fun _ q => p.Disturbs n (act.Stirs p) q) fun _ _ => True := by
  have hp := h.toSynced
  have passes {α : Type} {m : Edit α} {links : NodeId → Prop} (hm : Passes m p n) :
      Ends m p (fun _ q => p.Disturbs n links q) fun _ _ => True :=
    hm.mono (fun _ _ hq => .of_keepsPart hq) fun _ _ h => h
  have quiet {α : Type} {m : Edit α} {links : NodeId → Prop}
      (hm : Ends m p (fun _ q => p.Disturbs n links q) fun _ _ => True) :
      Ends (do let _ ← m) p (fun _ q => p.Disturbs n links q) fun _ _ => True :=
    hm.step (fun _ _ hq => Ends.pure hq) fun _ _ h => h
  have starts {kind : Kind} {payload : Payload} {m : Edit ElementId} {E : PageError → Page → Prop}
      {links : NodeId → Prop} (hm : Ends m p (fun x q => p.Starts kind payload x q) E) :
      Ends (do let _ ← m) p (fun _ q => p.Disturbs n links q) fun _ _ => True :=
    quiet (passes (hm.mono (fun _ _ hq => .of_extends hq.exts) fun _ _ _ => trivial))
  have filed {id : ElementId} {links : NodeId → Prop} (name : String) (value : Option String)
      (hl : ∀ link, value.isSome → name.toLower = "name" → link ∈ p.linkNodes id → links link) :
      Ends (setOrRemove id name value) p (fun _ q => p.Disturbs n links q) fun _ _ => True := by
    cases value with
    | none => exact quiet (passes (passes_removeAttribute hp ho name))
    | some value =>
      exact quiet ((disturbs_setAttribute h hm ho).mono
        (fun _ _ hq => hq.mono fun link hlink => hl link rfl hlink.1 hlink.2) fun _ _ h => h)
  have plain {id : ElementId} {links : NodeId → Prop} (name : String) (value : Option String)
      (hn : name.toLower ≠ "name") :
      Ends (setOrRemove id name value) p (fun _ q => p.Disturbs n links q) fun _ _ => True :=
    filed name value fun _ _ hname => absurd hname hn
  have checked {m : Edit Unit} {links : NodeId → Prop} {kinds : List Kind} {id : ElementId}
      (hm : Ends m p (fun _ q => p.Disturbs n links q) fun _ _ => True) :
      Ends (do ask (·.requireKind id kinds); m) p (fun _ q => p.Disturbs n links q) fun _ _ => True :=
    Ends.bind (ends_ask (fun _ _ => hm) fun _ _ => trivial)
  cases act with
  | createParagraph =>
    exact starts (starts_createContaining (makes_createParagraph hp) (fun _ => rfl) (fun _ => rfl) (by decide))
  | createBold =>
    exact starts (starts_createContaining (makes_createBold hp) (fun _ => rfl) (fun _ => rfl) (by decide))
  | createItalics =>
    exact starts (starts_createContaining (makes_createItalics hp) (fun _ => rfl) (fun _ => rfl) (by decide))
  | createRule => exact starts (starts_createRule hp)
  | createDiv => exact starts (starts_createDiv hp)
  | createLink target =>
    exact quiet (passes ((starts_createLink hp target).mono
      (fun _ _ ⟨_, _, hq⟩ => .of_extends hq.exts) fun _ _ _ => trivial))
  | createText s => exact starts (starts_createText hp s)
  | createComment s =>
    exact quiet (passes ((starts_createComment hp s).mono (fun _ _ hq => .of_extends hq.2.exts)
      fun _ _ _ => trivial))
  | insertChild parent child position => exact passes (passes_insertChild hp ho position)
  | removeChild parent child =>
    refine ends_removeChild_exchange hp (fun _ k _ _ _ _ hk hq hr => ?_) fun _ _ _ => trivial
    exact (hq.disturbs h ho hk hr).mono (fun _ _ hq => hq.mono fun _ ⟨z, l, hz, hl⟩ => ⟨z, ⟨k, l, hk, hz⟩, hl⟩)
      fun _ _ h => h
  | replaceChild parent new old =>
    refine ends_replaceChild_exchange hp (fun _ k _ _ _ _ _ hk _ hq hr => ?_) fun _ _ _ => trivial
    exact (hq.disturbs h ho hk hr).mono (fun _ _ hq => hq.mono fun _ ⟨z, l, hz, hl⟩ => ⟨z, ⟨k, l, hk, hz⟩, hl⟩)
      fun _ _ h => h
  | setText id s => exact passes (passes_setText hp ho s)
  | setComment id s => exact passes (passes_setComment hp ho s)
  | setAttribute id name value =>
    exact quiet ((disturbs_setAttribute h hm ho).mono
      (fun _ _ hq => hq.mono fun link hl => ⟨id, ⟨rfl, hl.1⟩, hl.2⟩) fun _ _ h => h)
  | removeAttribute id name => exact quiet (passes (passes_removeAttribute hp ho name))
  | assign id name value => cases hc
  | promote id => exact passes (passes_promote hp hm ho)
  | addCategory name => exact quiet (passes (passes_addCategory h ho))
  | renameCategory old new =>
    refine ends_needCategory.step ?_ fun _ _ _ => trivial
    rintro id q ⟨hid, rfl⟩
    exact quiet ((disturbs_setAttribute h hm ho).mono
      (fun _ _ hq => hq.mono fun link hl => ⟨id, hid, hl.2⟩) fun _ _ h => h)
  | removeCategory name => exact quiet (disturbs_removeCategory h)
  | setTitle title => exact plain "title" (some title) (by decide +kernel)
  | setNamespace name => exact plain _ _ (by decide +kernel)
  | setPath path => exact plain _ _ (by decide +kernel)
  | setAlignment id alignment => exact plain _ _ (by decide +kernel)
  | setNoShade id on => exact checked (plain _ _ (by decide +kernel))
  | setThickness id pixels => exact checked (plain _ _ (by decide +kernel))
  | setWidth id width => exact checked (plain _ _ (by decide +kernel))
  | setLinkTarget id target => exact checked (plain _ _ (by decide +kernel))
  | setCategoryName id name => exact checked (filed _ _ fun link _ _ hl => ⟨id, rfl, hl⟩)
  | setUniversal id name value =>
    refine filed name value fun link hsome hname hl => ⟨id, ?_, hl⟩
    obtain ⟨value, rfl⟩ := Option.isSome_iff_exists.1 hsome
    exact ⟨rfl, hname⟩

end Act

namespace Page

variable {site : Site} {p p₀ : Page} {o : ElementId} {n : NodeId} {acts : List Act} {act : Act}
  {text title : String}

theorem Synced.exists_tag_of_preserved (h : p.Synced) {e : Element} (he : p.find? o = some e)
    (hk : e.kind = .preserved) : ∃ n, p.form? o = some (.preserved, some (.tag n)) := by
  have hf := form?_of_find? he
  rw [hk] at hf
  cases hb : e.backing with
  | none =>
    rw [hb] at hf
    cases h.writes hf
  | some b =>
    rw [hb] at hf
    cases b with
    | markup n =>
      obtain ⟨v, -, hmarks⟩ := h.writes hf
      cases hmarks
    | tag n => exact ⟨n, hf⟩

/-- An element that is kept as it stands is the same tag after any acts, and has no children. -/
theorem Reached.sealed_run [Entities] (h : p.Reached site) (ha : acts.all Act.isChecked = true)
    (ho : p.form? o = some (.preserved, some (.tag n))) : (Act.run acts p).Sealed o n :=
  have hf := (Act.keepsLawAndTags_run acts p).tags o .preserved n (by decide) ho
  ⟨hf, (h.run ha).seals o (kindOf?_of_form? hf)⟩

theorem Sealed.disturbs_after [Entities] (ho : p.Sealed o n) (h : p.Reached site) (hc : act.isChecked = true) :
    p.Disturbs n (act.Stirs p) (act.after p) := by
  obtain ⟨whole, hm⟩ := h.exists_mirrored
  have hrec := h.orderly.recorded
  exact Act.after_of_ok (P := p.Disturbs n (act.Stirs p)) hrec hc (.of_keepsPart (.refl _ _))
    (act.disturbs_edit hrec hm ho hc)

/-- Whatever is done to a page that has been read, an element that is kept as it stands is still the tag that
it was read as. What stands in the tag changes only by an act about a category with a link there: links of
such categories may be cut out, and one of them may lead elsewhere. -/
theorem preserved_kept [Entities] (h : read text site title true = .ok p₀) (ho : p₀.kind o = .ok .preserved)
    (ha : acts.all Act.isChecked = true) (hp : Act.run acts p₀ = p) (hc : act.isChecked = true) :
    ∃ n s, p₀.backingNode o = .ok n ∧ p.backingNode o = .ok n ∧ p.arena.print n = .ok s ∧
      ((∀ link, act.Stirs p link → ¬Reaches p.arena.kids n link) → (act.after p).arena.print n = .ok s) ∧
      p.Disturbs n (act.Stirs p) (act.after p) := by
  subst hp
  have hread : p₀.Reached site := .read h
  obtain ⟨e, he, hk⟩ := find?_of_kind ho
  obtain ⟨n, hf⟩ := hread.orderly.recorded.exists_tag_of_preserved he hk
  have hreached := hread.run ha
  have hsealed := hread.sealed_run ha hf
  have hdisturbs := hsealed.disturbs_after hreached hc
  have hs := hreached.orderly.recorded.toSynced
  have hlt := hs.backing_lt hsealed.backing?
  obtain ⟨source, hw⟩ := hreached.exists_worded
  obtain ⟨s, hprint⟩ := hs.sound.founded.exists_print hw hlt
  refine ⟨n, s, backingNode_of_backing? (backing?_of_form? hf), backingNode_of_backing? hsealed.backing?,
    hprint, fun hfar => ?_, hdisturbs⟩
  obtain ⟨gone, led, hlinks, htrims⟩ := hdisturbs
  have hkeeps := htrims.keepsPart (fun m hm => hfar m (hlinks m (.inl hm)))
    fun m hm => hfar m (hlinks m (.inr hm))
  rw [hkeeps.print_eq hs.sound.founded (hreached.act act hc).orderly.recorded.sound.founded hlt, hprint]

/-- A page with a link to a category in a tag that is kept as it stands. -/
def spanned : Page :=
  (read "<span>x[[Category:A]]</span>" .default "Test" true).toOption.getD (ofDrafts .new .default "Test" [])

theorem preserved_kept_spanned :
    read "<span>x[[Category:A]]</span>" .default "Test" true = .ok spanned ∧
      ∃ n, spanned.backingNode ⟨3⟩ = .ok n ∧
        ((Act.setTitle "T").after spanned).arena.print n = .ok "<span>x[[Category:A]]</span>" ∧
        spanned.Disturbs n ((Act.removeCategory "A").Stirs spanned) ((Act.removeCategory "A").after spanned) ∧
        ((Act.removeCategory "A").after spanned).arena.print n = .ok "<span>x</span>" := by
  obtain ⟨hread, hkind, hprint⟩ :
      read "<span>x[[Category:A]]</span>" .default "Test" true = .ok spanned ∧
        spanned.kind ⟨3⟩ = .ok .preserved ∧
        (spanned.backingNode ⟨3⟩).toOption.map (fun n => (spanned.arena.print n,
          ((Act.removeCategory "A").after spanned).arena.print n)) =
          some (.ok "<span>x[[Category:A]]</span>", .ok "<span>x</span>") := by
    decide +kernel
  have hrun : Act.run [] spanned = spanned := rfl
  have htitle : (Act.setTitle "T").isChecked = true := rfl
  have hremove : (Act.removeCategory "A").isChecked = true := rfl
  obtain ⟨n, s, hn, -, hs, hkept, -⟩ := preserved_kept hread hkind rfl hrun htitle
  obtain ⟨m, -, hm, -, -, -, hdisturbs⟩ := preserved_kept hread hkind rfl hrun hremove
  obtain rfl := Except.ok.inj (hm.symm.trans hn)
  rw [hn] at hprint
  obtain ⟨hbefore, hafter⟩ := Prod.mk.inj (Option.some.inj hprint)
  obtain rfl := Except.ok.inj (hs.symm.trans hbefore)
  exact ⟨hread, m, hn, hkept fun _ ⟨_, hf, _⟩ => hf.elim, hdisturbs, hafter⟩

end Page
end WikiPage
