import WikiPage.Proofs.Promotion

/-!
# Category links

The links of categories are free: no element is written as one. So they can be put at the end of the page
and taken out of their containers while the elements stay in step with the nodes.
-/

namespace WikiPage

open Page (Synced)

namespace Page

variable {p q : Page} {id : ElementId} {n : NodeId}

theorem backing?_congr (h : q.form? = p.form?) : q.backing? = p.backing? := by
  funext x
  rw [backing?, h]
  rfl

theorem IsFreeLink.evolves (hn : p.IsFreeLink n) (hf : q.form? = p.form?)
    (he : p.arena.Evolves q.arena) : q.IsFreeLink n :=
  ⟨he.writes hn.1, backing?_congr hf ▸ hn.2⟩

namespace Synced

theorem isFreeLink (h : p.Synced) (hn : p.Linked n) : p.IsFreeLink n :=
  ⟨h.linked hn, h.unlinked hn⟩

theorem not_written (h : p.Synced) (hn : p.IsFreeLink n) (x : ElementId) : n ∉ p.writtenOf x := by
  intro hw
  obtain ⟨name, hasValue, value, g, hf⟩ := h.find?_written hw
  obtain ⟨m, hm, hk⟩ := hn.1
  obtain rfl := Option.some.inj (hf.symm.trans hm)
  cases hk

theorem setOwners (h : p.Synced) (owners : Index NodeId ElementId) :
    Synced { p with owners := owners } :=
  h.of_sameShape ⟨rfl, rfl, rfl, rfl, fun _ => .inl rfl, fun _ hn => .inl hn, fun _ _ hk => .inl hk⟩

theorem setLinks (h : p.Synced) {f : Element → List PlacedLink}
    (hl : ∀ e, p.find? id = some e → ∀ l ∈ f e, p.IsFreeLink l.link) :
    (p.update id fun e => { e with links := f e }).Synced := by
  refine h.of_sameShape ⟨rfl, form?_update fun _ => ⟨rfl, rfl⟩, childrenOf_update fun _ => rfl,
    parentOf_update fun _ => rfl, fun x => .inl ?_, fun n hn => ?_, fun _ _ hk => .inl hk⟩
  · exact congrFun (writtenOf_update (f := fun e => { e with links := f e }) fun _ => rfl) x
  obtain ⟨x, e, he, hn⟩ := hn
  rw [find?_update] at he
  split at he
  · subst x
    obtain ⟨e₀, he₀, rfl⟩ := Option.map_eq_some_iff.1 he
    obtain ⟨l, hlf, rfl⟩ := List.mem_map.1 hn
    exact .inr (hl e₀ he₀ l hlf)
  · exact .inl ⟨x, e, he, hn⟩

end Synced

/-- A link that has been made and stands nowhere yet. -/
structure LooseLink (p : Page) (a : Arena) (target : String) (title link : NodeId) : Prop where
  calm : p.Calm { p with arena := a }
  evolves : p.arena.Evolves a
  bare : ∃ m, a.find? link = some m ∧ m.payload.bare = .link "" title
  target : a.target? link = some target
  title_lt : title.index < link.index
  fresh : p.arena.size ≤ title.index
  link_lt : link.index < a.size
  kids : ∀ x, a.kids x = if x = link then [title] else p.arena.kids x

/-- A link without a title that has been made; nothing else has changed. -/
structure MadeLink (p : Page) (a : Arena) (named : String) (title link : NodeId) : Prop
    extends LooseLink p a named title link where
  exts : p.arena.Extends a
  find?_link : a.find? link = some ⟨.link named title, some (Glue.link named false)⟩
  find?_title : a.find? title = some ⟨.list [], none⟩
  new : ∀ {x}, p.arena.size ≤ x.index → x.index < a.size → x = title ∨ x = link

/-- A link that has been put at the end of the page. -/
structure NewLink (p q : Page) (name : String) (l : PlacedLink) : Prop where
  calm : p.Calm q
  elements : q.elements = p.elements
  free : q.IsFreeLink l.link
  unlinked : ¬p.Linked l.link
  mem : l.link ∈ q.arena.kids l.container
  target : q.arena.target? l.link = some (Edit.categoryTarget p name)
  part : Reaches q.arena.kids Arena.root l.link
  /-- No other link stands in the new one. -/
  bare : ∀ {m}, Reaches q.arena.kids l.link m → ¬p.Linked m
  /-- The new link stands in no other one. -/
  apart : ∀ {m}, Reaches q.arena.kids m l.link → ¬p.Linked m
  /-- Nothing that was there comes to stand in anything else. -/
  old : ∀ {m n}, p.Linked n → Reaches q.arena.kids m n → Reaches p.arena.kids m n
  /-- Nothing is taken out. -/
  held : ∀ x, p.arena.kids x ⊆ q.arena.kids x

namespace LooseLink

variable {a : Arena} {target : String} {title link : NodeId}

theorem link_fresh (hl : p.LooseLink a target title link) : p.arena.size ≤ link.index :=
  Nat.le_trans hl.fresh (Nat.le_of_lt hl.title_lt)

theorem loose (h : p.Synced) (hl : p.LooseLink a target title link) : a.Loose link := by
  intro x hx
  rw [hl.kids] at hx
  split at hx
  · exact Nat.lt_irrefl _ (List.mem_singleton.1 hx ▸ hl.title_lt)
  · exact h.loose_of_fresh hl.link_fresh x hx

theorem kids_fresh (hl : p.LooseLink a target title link) {x y : NodeId}
    (hx : p.arena.size ≤ x.index) (hy : y ∈ a.kids x) : p.arena.size ≤ y.index := by
  rw [hl.kids] at hy
  split at hy
  · exact List.mem_singleton.1 hy ▸ hl.fresh
  · rw [Arena.kids_eq_nil hx] at hy
    cases hy

theorem find?_content (h : p.Synced) (hl : p.LooseLink a target title link) :
    a.find? p.arena.content = some ⟨.list (p.arena.kids p.arena.content), none⟩ := by
  obtain ⟨items, hi⟩ := h.find?_container h.body_container
  have hlt := Arena.index_lt_of_find? hi
  obtain ⟨g, hg⟩ := hl.evolves.find?_list hi
  have hk : a.kids p.arena.content = p.arena.kids p.arena.content := by
    rw [hl.kids, if_neg]
    intro hc
    exact Nat.lt_irrefl _ (Nat.lt_of_lt_of_le (hc ▸ hlt) hl.link_fresh)
  exact hk ▸ hl.calm.synced.sound.find?_of_list hg

theorem not_linked_of_fresh (h : p.Synced) {n : NodeId} (hn : p.arena.size ≤ n.index) :
    ¬p.Linked n :=
  fun hl => Nat.lt_irrefl _ (Nat.lt_of_lt_of_le (h.linked_lt hl) hn)

theorem content_lt (h : p.Synced) : p.arena.content.index < p.arena.size := by
  obtain ⟨items, hi⟩ := h.find?_container h.body_container
  exact Arena.index_lt_of_find? hi

/-- The arena with the link at the end of the page. -/
def attached (a : Arena) (p : Page) (link : NodeId) : Arena :=
  a.setItems p.arena.content (p.arena.kids p.arena.content ++ [link])

theorem kids_attached (h : p.Synced) (hl : p.LooseLink a target title link) (x : NodeId) :
    (attached a p link).kids x =
      if x = p.arena.content then p.arena.kids p.arena.content ++ [link] else a.kids x :=
  Arena.kids_setItems (Arena.index_lt_of_find? (hl.find?_content h)) _ x

theorem calm_attached (h : p.Synced) (hl : p.LooseLink a target title link) :
    p.Calm { p with arena := attached a p link } := by
  have hs := hl.calm.synced
  have hc := hl.find?_content h
  have hbody : container? { p with arena := a } Page.body = some p.arena.content :=
    hl.evolves.content_eq h.sound ▸ hs.body_container
  refine hl.calm.trans (hs.calm_setItems hc (hs.steady_append_other hc hl.link_lt (hl.loose h)
    (h.backing_ne_of_fresh hl.link_fresh) (fun hr => ?_) (fun {id m' role} hm' hr => ?_)
    (h.apart_of_fresh hl.link_fresh fun _ hx _ hy => hl.kids_fresh hx hy))
    (hs.container_not_inTag hbody))
  · exact Nat.lt_irrefl _ (Nat.lt_of_lt_of_le (content_lt h)
      (hr.le_index (fun _ hx _ hy => hl.kids_fresh hx hy) hl.link_fresh))
  · obtain rfl := hs.role_of_container hbody hm' hr
    obtain ⟨m, hm, hbare⟩ := hl.bare
    refine ⟨m, hm, ?_⟩
    rw [← Payload.admits_bare, hbare]
    rfl

theorem content_attached (h : p.Synced) (hl : p.LooseLink a target title link) :
    (attached a p link).content = p.arena.content := by
  have hset := Arena.evolves_setItems (hl.find?_content h) (p.arena.kids p.arena.content ++ [link])
  rw [attached, hset.content_eq hl.calm.synced.sound, hl.evolves.content_eq h.sound]

theorem mem_attached (h : p.Synced) (hl : p.LooseLink a target title link) :
    link ∈ (attached a p link).kids p.arena.content := by
  rw [hl.kids_attached h, if_pos rfl]
  exact List.mem_append_right _ (List.mem_singleton_self _)

/-- The way to an old node leads through old nodes. -/
theorem reaches_old (h : p.Synced) (hl : p.LooseLink a target title link) {m n : NodeId}
    (hr : Reaches (attached a p link).kids m n) :
    n.index < p.arena.size → Reaches p.arena.kids m n := by
  induction hr with
  | refl => exact fun _ => .refl
  | @tail y z _ hz ih =>
    intro hlt
    have hfresh {w : NodeId} (hw : p.arena.size ≤ w.index) : z ≠ w := by
      rintro rfl
      exact Nat.lt_irrefl _ (Nat.lt_of_lt_of_le hlt hw)
    have hzp : z ∈ p.arena.kids y := by
      rw [hl.kids_attached h] at hz
      split at hz
      · subst y
        exact (List.mem_append.1 hz).resolve_right fun hz =>
          hfresh hl.link_fresh (List.mem_singleton.1 hz)
      · rw [hl.kids] at hz
        split at hz
        · exact absurd (List.mem_singleton.1 hz) (hfresh hl.fresh)
        · exact hz
    refine .tail (ih ?_) hzp
    by_contra hge
    rw [Arena.kids_eq_nil (Nat.le_of_not_lt hge)] at hzp
    cases hzp

theorem fresh_of_reaches (h : p.Synced) (hl : p.LooseLink a target title link) {n : NodeId}
    (hr : Reaches (attached a p link).kids link n) : p.arena.size ≤ n.index := by
  refine hr.le_index (fun x hx y hy => ?_) hl.link_fresh
  change y ∈ (attached a p link).kids x at hy
  rw [hl.kids_attached h, if_neg] at hy
  · exact hl.kids_fresh hx hy
  · rintro rfl
    exact Nat.lt_irrefl _ (Nat.lt_of_lt_of_le (content_lt h) hx)

/-- Above the link there are only the content of the page and the page, and these are no links. -/
theorem not_linked_above (h : p.Synced) (hl : p.LooseLink a target title link) {n : NodeId}
    (hr : Reaches (attached a p link).kids n link) : ¬p.Linked n := by
  intro hn
  have hq := (hl.calm_attached h).synced
  obtain ⟨target, ht⟩ := hq.linked_target? ((hl.calm_attached h).linked_iff.2 hn)
  rcases Relation.ReflTransGen.cases_tail hr with hnl | ⟨z, hnz, hz⟩
  · exact not_linked_of_fresh h (hnl ▸ hl.link_fresh) hn
  obtain rfl := hq.sound.single hz (hl.mem_attached h)
  rcases Relation.ReflTransGen.cases_tail hnz with rfl | ⟨w, hnw, hw⟩
  · change (attached a p link).target? p.arena.content = _ at ht
    rw [attached, Arena.target?_setItems (hl.find?_content h)] at ht
    simp [Arena.target?, hl.find?_content h] at ht
  obtain rfl := hq.sound.single hw (hl.content_attached h ▸ hq.sound.content_mem)
  rcases Reaches.eq_or_mem hnw with rfl | ⟨v, hv⟩
  · obtain ⟨g, hp⟩ := hq.find?_page
    simp [Arena.target?, hp] at ht
  · exact hq.root_loose v hv

/-- The link is put at the end of the page. -/
theorem newLink (h : p.Synced) {name : String}
    (hl : p.LooseLink a (Edit.categoryTarget p name) title link) :
    p.NewLink { p with arena := attached a p link } name ⟨p.arena.content, link⟩ where
  calm := hl.calm_attached h
  elements := rfl
  free := by
    obtain ⟨m, hm, hbare⟩ := hl.bare
    refine ⟨(Arena.evolves_setItems (hl.find?_content h) _).writes ⟨m, hm, ?_⟩,
      h.backing_ne_of_fresh hl.link_fresh⟩
    rw [← Kind.marks_bare, hbare]
    rfl
  unlinked := not_linked_of_fresh h hl.link_fresh
  mem := hl.mem_attached h
  target := (Arena.target?_setItems (hl.find?_content h) link).trans hl.target
  part := .tail (.single (hl.content_attached h ▸ (hl.calm_attached h).synced.sound.content_mem))
    (hl.mem_attached h)
  bare hr := not_linked_of_fresh h (hl.fresh_of_reaches h hr)
  apart := hl.not_linked_above h
  old hn hr := hl.reaches_old h hr (h.linked_lt hn)
  held x n hn := by
    have hx : x ≠ link := fun he => by
      rw [he, Arena.kids_eq_nil hl.link_fresh] at hn
      cases hn
    change n ∈ (attached a p link).kids x
    rw [hl.kids_attached h, hl.kids, if_neg hx]
    split
    · subst x
      exact List.mem_append_left _ hn
    · exact hn

end LooseLink

/-- A link without a title has been made and put at the end of the page. -/
structure AppendedLink (p : Page) (name : String) (l : PlacedLink) (q : Page) : Prop where
  container : l.container = p.arena.content
  made : ∃ title a, p.MadeLink a (Edit.categoryTarget p name) title l.link ∧
    q = { p with arena := LooseLink.attached a p l.link }

namespace AppendedLink

variable {name : String} {l : PlacedLink}

theorem newLink (hl : p.AppendedLink name l q) (h : p.Synced) : p.NewLink q name l := by
  obtain ⟨c, k⟩ := l
  obtain ⟨rfl, title, a, hmade, rfl⟩ := hl
  exact hmade.newLink h

theorem evolves (hl : p.AppendedLink name l q) (h : p.Synced) : p.arena.Evolves q.arena := by
  obtain ⟨-, title, a, hmade, rfl⟩ := hl
  exact hmade.evolves.trans (Arena.evolves_setItems (hmade.find?_content h) _)

theorem find?_old (hl : p.AppendedLink name l q) (h : p.Synced) {x : NodeId}
    (hx : x.index < p.arena.size) (hc : x ≠ p.arena.content) :
    q.arena.find? x = p.arena.find? x := by
  obtain ⟨-, title, a, hmade, rfl⟩ := hl
  exact (Arena.find?_setItems (hmade.find?_content h) x).trans
    ((if_neg hc).trans (hmade.exts.find?_eq x hx))

theorem find?_content (hl : p.AppendedLink name l q) (h : p.Synced) :
    q.arena.find? p.arena.content =
      some ⟨.list (p.arena.kids p.arena.content ++ [l.link]), none⟩ := by
  obtain ⟨-, title, a, hmade, rfl⟩ := hl
  exact (Arena.find?_setItems (hmade.find?_content h) _).trans (if_pos rfl)

theorem kids_old (hl : p.AppendedLink name l q) (h : p.Synced) {x : NodeId}
    (hx : x.index < p.arena.size) :
    q.arena.kids x = p.arena.kids x ++ if x = p.arena.content then [l.link] else [] := by
  by_cases hc : x = p.arena.content
  · subst x
    rw [if_pos rfl, Arena.kids_of_find? (hl.find?_content h)]
    rfl
  · rw [if_neg hc, List.append_nil, Arena.kids, Arena.kids, Tree.kids, Tree.kids, hl.find?_old h hx hc]

theorem kids_new (hl : p.AppendedLink name l q) (h : p.Synced) {x y : NodeId}
    (hx : p.arena.size ≤ x.index) (hy : y ∈ q.arena.kids x) : p.arena.size ≤ y.index := by
  obtain ⟨-, title, a, hmade, rfl⟩ := hl
  rw [hmade.kids_attached h, if_neg] at hy
  · exact hmade.kids_fresh hx hy
  · rintro rfl
    exact Nat.not_lt_of_le hx (LooseLink.content_lt h)

theorem find?_link (hl : p.AppendedLink name l q) (h : p.Synced) :
    p.arena.size ≤ l.link.index ∧ ∃ title, p.arena.size ≤ title.index ∧
      q.arena.find? l.link = some ⟨.link (Edit.categoryTarget p name) title,
        some (Glue.link (Edit.categoryTarget p name) false)⟩ ∧
      q.arena.find? title = some ⟨.list [], none⟩ := by
  obtain ⟨-, title, a, hmade, rfl⟩ := hl
  have hlt := LooseLink.content_lt h
  have hne {x : NodeId} (hx : p.arena.size ≤ x.index) : x ≠ p.arena.content := fun he =>
    Nat.not_lt_of_le hx (he ▸ hlt)
  refine ⟨hmade.link_fresh, title, hmade.fresh, ?_, ?_⟩
  · exact (Arena.find?_setItems (hmade.find?_content h) _).trans
      ((if_neg (hne hmade.link_fresh)).trans hmade.find?_link)
  · exact (Arena.find?_setItems (hmade.find?_content h) _).trans
      ((if_neg (hne hmade.fresh)).trans hmade.find?_title)

theorem eq_of_find?_link (hl : p.AppendedLink name l q) (h : p.Synced) {n title : NodeId}
    {target : String} {g : Option Glue} (hn : p.arena.size ≤ n.index)
    (hf : q.arena.find? n = some ⟨.link target title, g⟩) : n = l.link := by
  obtain ⟨-, t, a, hmade, rfl⟩ := hl
  have hne : n ≠ p.arena.content := by
    rintro rfl
    exact Nat.not_lt_of_le hn (LooseLink.content_lt h)
  replace hf := (Arena.find?_setItems (hmade.find?_content h) n).symm.trans hf
  rw [if_neg hne] at hf
  rcases hmade.new hn (Arena.index_lt_of_find? hf) with rfl | rfl
  · cases hmade.find?_title.symm.trans hf
  · rfl

end AppendedLink
end Page

namespace Edit

variable {α : Type} {p : Page} {id : ElementId}

theorem ends_makeLink (h : p.Synced) {target : String} {f : NodeId → Surgery α}
    {Q : α → Arena → Prop} {E : PageError → Arena → Prop}
    (hf : ∀ title link a, p.MadeLink a target title link → Ends (f link) a Q E) :
    Ends (do
      let title ← Surgery.make (.list [])
      let link ← Surgery.make (.link target title)
      Surgery.addGlue link
      f link) p.arena Q E := by
  refine Ends.bind (Surgery.ends_make ?_)
  have h₁ := h.calm_push_leaf (m := ⟨.list [], none⟩) rfl rfl Node.glueFits_none
  have hlt₁ := Arena.next_index_lt p.arena ⟨.list [], none⟩
  have hk₁ := Arena.kids_push_leaf p.arena (n := ⟨.list [], none⟩) rfl
  have hlist : (p.arena.push ⟨.list [], none⟩).ListOf .content p.arena.next :=
    .push_next (by simp)
  have hext₁ : p.arena.Extends (p.arena.push ⟨.list [], none⟩) := .push _ _
  have hfound₁ := Arena.find?_push_next p.arena ⟨.list [], none⟩
  have hsize₁ := Arena.size_push p.arena ⟨.list [], none⟩
  generalize p.arena.push ⟨.list [], none⟩ = a₁ at *
  refine Ends.bind (Surgery.ends_make ?_)
  have h₂ : p.Calm { p with arena := a₁.push ⟨.link target p.arena.next, none⟩ } := by
    refine h₁.trans (h₁.synced.calm_extends (h₁.synced.steady_push
      ⟨fun s hs => ?_, Node.glueFits_none⟩ (List.nodup_singleton _) (fun y hy => ?_)
      (fun y hy x hx => ?_) (fun y hy x => ?_) fun y hy => ?_) (.push _ _))
    · obtain rfl := List.mem_singleton.1 hs
      exact hlist
    all_goals obtain rfl := List.mem_singleton.1 hy
    · exact hlt₁
    · change p.arena.next ∈ a₁.kids x at hx
      rw [hk₁] at hx
      exact h.loose_of_fresh (y := p.arena.next) (Nat.le_refl _) x hx
    · exact h.backing_ne_of_fresh (y := p.arena.next) (Nat.le_refl _) x
    · exact h.apart_of_kids (y := p.arena.next) (Nat.le_refl _) hk₁
  have hn₂ := Arena.find?_push_next a₁ ⟨.link target p.arena.next, none⟩
  have hext₂ : a₁.Extends (a₁.push ⟨.link target p.arena.next, none⟩) := .push _ _
  have htitle := hext₂.find?_of_find? hfound₁
  refine Ends.bind (((Surgery.ends_addGlue_link hn₂ htitle).and
    (Surgery.ends_addGlue_link_eq hn₂ htitle)).mono
    (fun _ a₃ h₃ => hf p.arena.next a₁.next a₃ ?_) fun _ _ hf => hf.1.elim)
  obtain ⟨h₃, rfl⟩ := h₃
  have hne {x : NodeId} (hx : x.index < a₁.size) : x ≠ a₁.next := fun he =>
    Nat.lt_irrefl _ (he ▸ hx : a₁.next.index < a₁.size)
  refine ⟨⟨h₂.reglued h₃, (hext₁.trans hext₂).evolves.trans h₃.evolves, ?_, ?_, hlt₁, Nat.le_refl _,
    ?_, fun x => ?_⟩, ⟨?_, fun x hx => ?_⟩, ?_, ?_, fun {x} hx hlt => ?_⟩
  · exact h₃.find?_of_find? hn₂
  · rw [h₃.target?_eq]
    exact Arena.target?_of_find? hn₂ rfl
  · exact h₃.size_eq ▸ Arena.next_index_lt a₁ _
  · rw [h₃.kids_eq, Arena.kids_push, hk₁]
    rfl
  · exact h₃.size_eq ▸ (hext₁.trans hext₂).size_le
  · rw [Arena.find?_modify, if_neg (hne (Nat.lt_of_lt_of_le hx hext₁.size_le)),
      (hext₁.trans hext₂).find?_eq x hx]
  · simp [Arena.find?_modify, hn₂]
  · rw [Arena.find?_modify, if_neg (hne hlt₁), htitle]
  · rw [h₃.size_eq, Arena.size_push, hsize₁] at hlt
    rcases Nat.lt_succ_iff_lt_or_eq.1 hlt with hlt | he
    · exact .inl (NodeId.ext (Nat.le_antisymm (Nat.le_of_lt_succ hlt) hx))
    · exact .inr (NodeId.ext (he.trans hsize₁.symm))

theorem ends_appendCategoryLink_made (h : p.Synced) {name : String} :
    Ends (appendCategoryLink name) p (fun l q => p.AppendedLink name l q) fun _ _ => False := by
  refine Ends.bind (Ends.get (ends_surgery (ends_makeLink h fun title link a hl => ?_)))
  have hc := hl.find?_content h
  have hout : link ∉ p.arena.kids p.arena.content := fun hm =>
    hl.loose h p.arena.content ((Arena.kids_of_find? hc).symm ▸ hm)
  have happend := Arena.appendItem_eq_ok hc hout
  refine Ends.bind (Surgery.ends_change (fun b hb => ?_) fun e he => ?_)
  · obtain rfl := Except.ok.inj (happend.symm.trans hb)
    exact Ends.pure ⟨rfl, title, a, hl, rfl⟩
  · cases happend.symm.trans he

theorem ends_appendCategoryLink (h : p.Synced) {name : String} :
    Ends (appendCategoryLink name) p (fun l q => p.NewLink q name l) fun _ _ => False :=
  (ends_appendCategoryLink_made h).mono (fun _ _ hl => hl.newLink h) fun _ _ hf => hf

end Edit

namespace Arena

variable {a : Arena} {c n : NodeId}

theorem Sound.find?_of_mem_kids (h : a.Sound) (hk : n ∈ a.kids c) {m : Node}
    (hn : a.find? n = some m) (hm : m.payload.isList = false) :
    a.find? c = some ⟨.list (a.kids c), none⟩ := by
  cases hc : a.find? c with
  | none => simp [kids, Tree.kids, hc] at hk
  | some l =>
    by_cases hl : l.payload.isList = true
    · have hp : l.payload = .list (a.kids c) := by
        rw [kids_of_find? hc]
        cases hp : l.payload <;> simp_all [Payload.isList, Payload.children]
      have hc' : a.find? c = some ⟨.list (a.kids c), l.glue⟩ := by rw [hc, ← hp]
      rw [← hc, h.find?_of_list hc']
    · rw [kids_of_find? hc, Payload.children_eq_slots (Bool.eq_false_iff.2 hl)] at hk
      obtain ⟨s, hs, rfl⟩ := List.mem_map.1 hk
      obtain ⟨items, hi⟩ := h.find?_slot hc hs
      obtain rfl := Option.some.inj (hi.symm.trans hn)
      cases hm

end Arena

namespace Page

variable {p q : Page} {id : ElementId}

/-- A page from which links of a category have been taken; some are kept. -/
structure Dropped (p : Page) (id : ElementId) (gone kept : List PlacedLink) (q : Page) : Prop where
  synced : q.Synced
  site : q.site = p.site
  categories : q.categories = p.categories
  find?_eq : ∀ x, q.find? x =
    if x = id then (p.find? x).map fun e => { e with links := kept } else p.find? x
  owners : ∀ n, q.owners.find? n =
    if n ∈ gone.map PlacedLink.link then none else p.owners.find? n
  kids : ∀ c, q.arena.kids c = (p.arena.kids c).filter (· ∉ gone.map PlacedLink.link)
  target : ∀ n, q.arena.target? n = p.arena.target? n
  nodes : ∀ {n m}, p.arena.find? n = some m → m.payload.isList = false → q.arena.find? n = some m
  size_eq : q.arena.size = p.arena.size
  keepsTags : p.arena.KeepsTags q.arena

/-- Links that stand where they are recorded to stand, each recorded once. -/
def InPlace (p : Page) (links : List PlacedLink) : Prop :=
  (∀ l ∈ links, l.link ∈ p.arena.kids l.container) ∧ (links.map PlacedLink.link).Nodup

namespace Dropped

variable {gone kept : List PlacedLink}

theorem evolves (hd : p.Dropped id gone kept q) : p.arena.Evolves q.arena :=
  hd.keepsTags.toEvolves

theorem mirrored (hd : p.Dropped id gone kept q) (h : p.Synced) {whole : Prop}
    (hm : p.Mirrored whole) : q.Mirrored whole := by
  refine hm.spared h hd.synced.sound ⟨hd.keepsTags, fun _ => hd.target _⟩ fun {x e} he => .inl ?_
  rw [hd.find?_eq] at he
  split at he
  · obtain ⟨d, hd', rfl⟩ := Option.map_eq_some_iff.1 he
    exact ⟨d, hd', rfl, rfl, .inl rfl⟩
  · exact ⟨e, he, rfl, rfl, .inl rfl⟩

theorem form? (hd : p.Dropped id gone kept q) : q.form? = p.form? := by
  funext x
  rw [Page.form?, Page.form?, hd.find?_eq]
  split
  · cases p.find? x <;> rfl
  · rfl

theorem nameOf? (hd : p.Dropped id gone kept q) : q.nameOf? = p.nameOf? := by
  funext x
  rw [Page.nameOf?, Page.nameOf?, hd.find?_eq]
  split
  · cases p.find? x <;> rfl
  · rfl

theorem linksOf (hd : p.Dropped id gone kept q) (hid : p.find? id ≠ none) (x : ElementId) :
    q.linksOf x = if x = id then kept else p.linksOf x := by
  rw [Page.linksOf, hd.find?_eq]
  split
  · subst x
    cases he : p.find? id with
    | none => exact absurd he hid
    | some e => rfl
  · rfl

theorem nil (h : p.Synced) : p.Dropped id [] [] (p.update id fun e => { e with links := [] }) := by
  refine ⟨h.setLinks (by simp), rfl, rfl, fun x => find?_update p id x _, by simp [update],
    fun c => ?_, fun _ => rfl, fun hm _ => hm, rfl, .refl _⟩
  simp [update]

theorem keep (hd : p.Dropped id gone kept q) {l : PlacedLink} (hl : q.IsFreeLink l.link)
    (hk : ∀ k ∈ kept, q.IsFreeLink k.link) :
    p.Dropped id gone (kept ++ [l]) (q.update id fun e => { e with links := e.links ++ [l] }) where
  synced := by
    refine hd.synced.setLinks fun e he k hk' => ?_
    rw [hd.find?_eq, if_pos rfl] at he
    obtain ⟨e, -, rfl⟩ := Option.map_eq_some_iff.1 he
    rcases List.mem_append.1 hk' with hk' | hk'
    · exact hk k hk'
    · exact List.mem_singleton.1 hk' ▸ hl
  site := hd.site
  categories := hd.categories
  find?_eq x := by
    rw [find?_update, hd.find?_eq]
    split
    · cases p.find? x <;> rfl
    · rfl
  owners := hd.owners
  kids := hd.kids
  target := hd.target
  nodes := hd.nodes
  size_eq := hd.size_eq
  keepsTags := hd.keepsTags

theorem take (hd : p.Dropped id gone kept q) {l : PlacedLink} (hl : q.IsFreeLink l.link)
    {s t : List NodeId} (hc : q.arena.find? l.container = some ⟨.list (s ++ l.link :: t), none⟩) :
    p.Dropped id (gone ++ [l]) kept
      { q with arena := q.arena.setItems l.container (s ++ t), owners := q.owners.erase l.link } where
  synced := (hd.synced.remove_other hc hl.2 (hd.synced.not_written hl)).setOwners _
  site := hd.site
  categories := hd.categories
  find?_eq := hd.find?_eq
  owners n := by
    change (q.owners.erase l.link).find? n = _
    rw [Index.find?_erase, hd.owners]
    by_cases hn : n = l.link <;> simp [hn]
  kids c := by
    have hk : q.arena.kids l.container = s ++ l.link :: t := Arena.kids_of_find? hc
    have hmem : l.link ∈ q.arena.kids l.container := by simp [hk]
    have hout {c : NodeId} (hcl : c ≠ l.container) : l.link ∉ q.arena.kids c := fun hm =>
      hcl (hd.synced.sound.single hm hmem)
    have hd' := hk ▸ hd.synced.sound.nodup l.container
    rw [List.nodup_middle, List.nodup_cons, List.mem_append, not_or] at hd'
    have hf {r : List NodeId} (hr : l.link ∉ r) : r.filter (fun n => decide (n ≠ l.link)) = r := by
      refine List.filter_eq_self.2 fun n hn => ?_
      simpa using fun he : n = l.link => hr (he ▸ hn)
    have hsplit : (q.arena.setItems l.container (s ++ t)).kids c =
        (q.arena.kids c).filter (fun n => decide (n ≠ l.link)) := by
      rw [Arena.kids_setItems (Arena.index_lt_of_find? hc)]
      split
      · subst c
        rw [hk, List.filter_append, List.filter_cons_of_neg (by simp), hf hd'.1.1, hf hd'.1.2]
      · exact (hf (hout ‹_›)).symm
    change (q.arena.setItems l.container (s ++ t)).kids c = _
    rw [hsplit, hd.kids, List.filter_filter]
    refine List.filter_congr fun n _ => ?_
    by_cases hn : n = l.link <;> simp [hn]
  target n := (Arena.target?_setItems hc n).trans (hd.target n)
  nodes {n m} hm hlist := by
    rw [Arena.find?_setItems hc, if_neg, hd.nodes hm hlist]
    rintro rfl
    obtain rfl := Option.some.inj ((hd.nodes hm hlist).symm.trans hc)
    cases hlist
  size_eq := by
    rw [← hd.size_eq]
    exact Arena.size_modify ..
  keepsTags := by
    obtain ⟨⟨r, g⟩, hm, hk⟩ := hl.1
    refine hd.keepsTags.trans (Arena.keepsTags_setItems hc (hd.synced.sound.not_inTag_of_mem hc
      (List.mem_append_right s (List.mem_cons_self ..)) hm ?_ ?_))
    all_goals cases r <;> first | rfl | cases hk

end Dropped
end Page

namespace Edit

variable {p : Page} {id : ElementId}

/-- Links that stand in their places can be taken out. -/
theorem ends_dropLinks (h : p.Synced) (hid : p.find? id ≠ none) (hp : p.InPlace (p.linksOf id))
    {kept : Option NodeId} : Ends (dropLinks id kept) p
      (fun _ q => p.Dropped id ((p.linksOf id).filter fun l => some l.link ≠ kept)
        ((p.linksOf id).filter fun l => some l.link = kept) q) fun _ _ => False := by
  obtain ⟨e, he⟩ := Option.ne_none_iff_exists'.1 hid
  have hget := Page.get_eq_ok_iff.2 he
  refine Ends.bind (ends_ask (fun e' he' => ?_) fun _ herr => by cases herr.symm.trans hget)
  obtain rfl := Except.ok.inj (hget.symm.trans he')
  have hlinks : p.linksOf id = e.links := by simp [Page.linksOf, he]
  rw [hlinks] at hp ⊢
  refine Ends.bind (ends_update (fun _ _ => ?_) fun hn => by cases hn.symm.trans he)
  refine Ends.forM (I := fun done q => p.Dropped id (done.filter fun l => some l.link ≠ kept)
    (done.filter fun l => some l.link = kept) q) (fun done l rest q hsplit hd => ?_) (.nil h)
  have free {k : PlacedLink} (hk : k ∈ e.links) : q.IsFreeLink k.link :=
    (h.isFreeLink (Page.linked_of_mem (hlinks ▸ hk))).evolves hd.form? hd.evolves
  have hl : q.IsFreeLink l.link := free (hsplit ▸ by simp)
  simp only [List.filter_append]
  by_cases hk : some l.link = kept
  · rw [if_pos hk]
    refine ends_update (fun _ _ => ?_) fun hn => ?_
    · simpa [hk] using hd.keep hl fun k hk => free (hsplit ▸ by simp [(List.mem_filter.1 hk).1])
    · rw [hd.find?_eq, if_pos rfl, he] at hn
      cases hn
  · rw [if_neg hk]
    refine Ends.bind (ends_surgery (Surgery.ends_change (fun b hb => ?_) fun err herr => ?_))
    · obtain ⟨s, t, g, hg, rfl⟩ := Arena.exists_of_removeItem hb
      refine Ends.modify ?_
      simpa [hk] using hd.take hl (hd.synced.sound.find?_of_list hg)
    · rw [hsplit] at hp
      obtain ⟨hin, hnodup⟩ := hp
      have hmem : l.link ∈ q.arena.kids l.container := by
        rw [hd.kids]
        refine List.mem_filter.2 ⟨hin l (by simp), ?_⟩
        simp only [List.map_append, List.map_cons, List.nodup_append] at hnodup
        simp only [decide_eq_true_eq, List.mem_map, not_exists, not_and]
        rintro k hk' hkl
        exact hnodup.2.2 _ (List.mem_map_of_mem (List.mem_filter.1 hk').1) l.link (by simp) hkl
      obtain ⟨m, hm, hkind⟩ := hl.1
      have hlist : m.payload.isList = false := by
        cases hp : m.payload <;> simp_all [Kind.marks, Payload.isList]
      have hc := hd.synced.sound.find?_of_mem_kids hmem hm hlist
      obtain ⟨s, t, -, hok⟩ := Arena.removeItem_eq_ok hc (hd.synced.sound.nodup _) hmem
      cases hok.symm.trans herr

end Edit
end WikiPage
