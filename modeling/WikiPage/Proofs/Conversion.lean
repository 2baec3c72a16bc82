import WikiPage.EntityTable
import WikiPage.Proofs.Faithful
import WikiPage.Proofs.Locality
import WikiPage.Proofs.Nesting

/-!
# What a promotion changes

An element that is written in markup and becomes a tag keeps its place and what it holds. All other
elements stay as they are, but links that stand directly in the content are recorded under the body of
the tag. The text of the page changes around the content only. What has become a tag is one for good.
-/

namespace WikiPage

/-- The links of a category once the content of an element has moved into the body of a tag. -/
def Element.relink (content? : Option NodeId) (body : NodeId) (e : Element) : Element :=
  match content? with
  | some content => e.moveLinks content body
  | none => e

theorem Element.relink_of_links_nil {e : Element} (h : e.links = []) (content? : Option NodeId)
    (body : NodeId) : e.relink content? body = e := by
  cases content? with
  | none => rfl
  | some content => rw [relink, moveLinks, h, List.map_nil, ← h]

/-- A tag with its content between its two ends; that of a rule has no content. -/
def Kind.tagText (k : Kind) (name inner : String) : String :=
  if k = .rule then "<" ++ name ++ " />" else "<" ++ name ++ ">" ++ inner ++ "</" ++ name ++ ">"

namespace Page

variable {site : Site} {p q : Page} {t : Promoted} {b b' : Arena} {x y : ElementId} {c n : NodeId}
  {source : String}

theorem Wrapped.find?_settled_eq (hw : Wrapped p t b) (y : ElementId) : (t.settled p b').find? y =
    (if y = t.id then some { t.element with backing := some (.tag t.tag) } else p.find? y).map
      (Element.relink t.content? t.body) := by
  have htagged : (t.tagged p b').find? y = _ := hw.find?_tagged y
  rw [← htagged, Promoted.settled]
  cases t.content? with
  | some content => exact find?_moveLinks y
  | none => exact (Option.map_id' ..).symm

/-- What is printed of what an element holds. -/
def HoldsText (p : Page) (x : ElementId) (inner : String) : Prop :=
  match p.container? x with
  | some c => p.arena.print c = .ok inner
  | none => inner = ""

theorem exists_holdsText [Entities] (h : p.Synced) (hw : p.arena.Worded source) (x : ElementId) :
    ∃ inner, p.HoldsText x inner := by
  unfold HoldsText
  cases hc : p.container? x with
  | none => exact ⟨"", rfl⟩
  | some c =>
    obtain ⟨items, hi⟩ := h.find?_container hc
    exact h.sound.founded.exists_print hw (Arena.index_lt_of_find? hi)

namespace Converts

theorem tag? (hq : p.Converts t q) : t.element.kind.tag?.isSome = true := by
  obtain ⟨_, _, hw, -⟩ := hq
  exact hw.tag?

theorem find?_element (hq : p.Converts t q) : p.find? t.id = some t.element := by
  obtain ⟨_, _, hw, -⟩ := hq
  exact hw.find?_element

theorem container? (hq : p.Converts t q) : p.container? t.id = t.content? := by
  obtain ⟨_, _, hw, -⟩ := hq
  exact hw.container?

theorem backing? (hq : p.Converts t q) : p.backing? t.id = some t.node := by
  obtain ⟨_, _, hw, -⟩ := hq
  exact hw.backing?

theorem fresh (hq : p.Converts t q) : p.arena.size ≤ t.tag.index := by
  obtain ⟨_, _, hw, -⟩ := hq
  exact hw.fresh.1

theorem find?_eq (hq : p.Converts t q) (y : ElementId) : q.find? y =
    (if y = t.id then some { t.element with backing := some (.tag t.tag) } else p.find? y).map
      (Element.relink t.content? t.body) := by
  obtain ⟨_, _, hw, -, rfl, -⟩ := hq
  exact hw.find?_settled_eq y

theorem kids_eq (hq : p.Converts t q) : q.arena.kids = t.kids p := by
  obtain ⟨_, _, -, hkids, rfl, -⟩ := hq
  rw [t.arena_settled, hkids]

/-- Nothing is written anew but the tag with its lists, the list of the old content and the list in
which the element stands. -/
theorem find?_of_ne (hq : p.Converts t q) (h : p.Synced) (hn : n.index < p.arena.size)
    (hc : some n ≠ t.content?) (hp : ∀ y, p.parentOf t.id = some y → p.container? y ≠ some n) :
    q.arena.find? n = p.arena.find? n := by
  obtain ⟨b, b', hw, -, rfl, hplace⟩ := hq
  have hb : b.find? n = p.arena.find? n := by
    rw [hw.wraps.find?_old n (by rwa [Arena.size_emptied])]
    cases hcontent : t.content? with
    | none => rfl
    | some content =>
      obtain ⟨old, hi⟩ := h.find?_container (hw.container?.trans hcontent)
      rw [Arena.emptied, Arena.find?_setItems hi, if_neg]
      rintro rfl
      exact hc hcontent.symm
  rw [t.arena_settled]
  rcases hplace with ⟨-, rfl⟩ | ⟨y, c, hy, hyc, hrep⟩
  · exact hb
  · obtain ⟨_, _, _, hbc, -, rfl⟩ := Arena.exists_of_replaceItem hrep
    rw [Arena.find?_setItems hbc, if_neg, hb]
    rintro rfl
    exact hp y hy hyc

theorem find?_tag (hq : p.Converts t q) : q.arena.find? t.tag =
    some ⟨.element (t.element.kind.tag?.getD "") t.content?.isNone t.attributes t.body,
      some (Glue.element (t.element.kind.tag?.getD "") t.content?.isNone)⟩ := by
  obtain ⟨b, b', hw, -, rfl, hplace⟩ := hq
  rw [t.arena_settled, ← hw.wraps.find?_tag]
  rcases hplace with ⟨-, rfl⟩ | ⟨y, c, -, -, hrep⟩
  · rfl
  · obtain ⟨_, _, _, hbc, -, rfl⟩ := Arena.exists_of_replaceItem hrep
    rw [Arena.find?_setItems hbc, if_neg]
    rintro rfl
    cases hw.wraps.find?_tag.symm.trans hbc

theorem loose_node (hq : p.Converts t q) (h : p.Synced) : q.arena.Loose t.node := by
  intro y hy
  rw [hq.kids_eq, Promoted.kids] at hy
  obtain ⟨b, b', hw, -⟩ := hq
  obtain ⟨htag, hattributes, hbody⟩ := hw.old (h.backing_lt hw.backing?)
  split at hy
  · simp [hattributes, hbody] at hy
  · split at hy
    · cases hc : t.content? with
      | none => simp [hc] at hy
      | some content =>
        simp only [hc, Option.map_some, Option.getD_some] at hy
        exact h.sound.not_reaches hy (.single (hw.content_mem h hc))
    · split at hy
      · cases hy
      · obtain ⟨n, -, hn⟩ := List.mem_map.1 hy
        split at hn
        · exact htag hn.symm
        · contradiction

theorem agrees (hq : p.Converts t q) (h : p.Synced) : p.arena.AgreesBut q.arena fun n =>
    some n = t.content? ∨ ∃ y, p.parentOf t.id = some y ∧ p.container? y = some n := fun n m hd hm => by
  rw [hq.find?_of_ne h (Arena.index_lt_of_find? hm) (fun hc => hd (.inl hc))
    fun y hy hc => hd (.inr ⟨y, hy, hc⟩), hm]

theorem reaches_content (hq : p.Converts t q) (h : p.Synced) {y : ElementId} {content : NodeId}
    (hy : p.parentOf t.id = some y) (hc : p.container? y = some c) (ht : t.content? = some content) :
    t.node ∈ p.arena.kids c ∧ Reaches p.arena.kids t.node content := by
  obtain ⟨b, b', hw, -⟩ := hq
  exact ⟨(h.kept hc).subset (List.mem_filterMap.2 ⟨t.id, h.parent_iff.1 hy, hw.backing?⟩),
    .single (hw.content_mem h ht)⟩

theorem print_item (hq : p.Converts t q) (h : p.Synced) (hs : q.Synced) {content : NodeId}
    (ht : t.content? = some content) (hn : n ∈ p.arena.kids content) :
    q.arena.print n = p.arena.print n := by
  refine (hq.agrees h).print_eq h.sound.founded hs.sound.founded (h.sound.closed content n hn) ?_
  rintro c (hc | ⟨y, hy, hc⟩) hnc
  · obtain rfl := Option.some.inj (hc.trans ht)
    exact h.sound.not_reaches hn hnc
  · obtain ⟨hnode, hcontent⟩ := hq.reaches_content h hy hc ht
    exact h.sound.not_reaches hnode ((hcontent.tail hn).trans hnc)

theorem attributeList? (hq : p.Converts t q) :
    q.arena.attributeList? (some (.tag t.tag)) = some t.attributes := by
  simp [Arena.attributeList?, hq.find?_tag, attributesOf?]

theorem kids_attributes (hq : p.Converts t q) (hs : q.Synced) : q.arena.kids t.attributes = [] := by
  have hl := hq.attributeList?
  have hkids := hq.kids_eq
  obtain ⟨b, b', hw, -, rfl, -⟩ := hq
  rw [t.arena_settled] at hkids hl ⊢
  exact hw.kids_attributeList hkids (t.arena_settled p b' ▸ hs.sound) hl

theorem kids_body (hq : p.Converts t q) :
    q.arena.kids t.body = (t.content?.map p.arena.kids).getD [] := by
  rw [hq.kids_eq]
  obtain ⟨b, b', hw, -⟩ := hq
  rw [Promoted.kids, if_neg hw.wraps.ne.symm, if_pos rfl]

theorem content?_eq_none_iff (hq : p.Converts t q) (h : p.Synced) :
    t.content? = none ↔ t.element.kind = .rule := by
  obtain ⟨b, b', hw, -⟩ := hq
  obtain ⟨m, hm, hk⟩ := h.writes hw.form?
  obtain rfl := Option.some.inj (hw.find?_node.symm.trans hm)
  have ht := hw.tag?
  cases hkind : t.element.kind <;> rw [hkind] at hk ht <;> cases ht <;>
    cases hp : t.found.payload <;> rw [hp] at hk <;> first | cases hk | skip
  all_goals simp [Promoted.content?, hp, contentOf?]

theorem print_tag (hq : p.Converts t q) (h : p.Synced) (hs : q.Synced) {inner : String}
    (hi : p.HoldsText t.id inner) :
    q.arena.print t.tag = .ok (t.element.kind.tagText (t.element.kind.tag?.getD "") inner) := by
  have hf := hs.sound.founded
  have htag := hq.find?_tag
  have printed {l : NodeId} {role : Role}
      (hl : (l, role) ∈ [(t.attributes, Role.attributes), (t.body, Role.content)]) :
      q.arena.print l = Node.joined ((q.arena.kids l).map q.arena.print) := by
    obtain ⟨items, hitems⟩ := hs.sound.find?_slot htag hl
    rw [hf.print_list hitems, Arena.kids_of_find? hitems]
    rfl
  have hattributes : q.arena.print t.attributes = .ok "" := by
    rw [printed List.mem_cons_self, hq.kids_attributes hs]
    rfl
  have hbody : q.arena.print t.body = .ok inner := by
    rw [printed (List.mem_cons_of_mem _ (List.mem_singleton_self _)), hq.kids_body]
    unfold HoldsText at hi
    rw [hq.container?] at hi
    cases hc : t.content? with
    | none =>
      rw [hc] at hi
      rw [hi]
      rfl
    | some content =>
      rw [hc] at hi
      obtain ⟨items, hitems⟩ := h.find?_container (hq.container?.trans hc)
      rw [Option.map_some, Option.getD_some, List.map_congr_left fun n hn => hq.print_item h hs hc hn,
        Arena.kids_of_find? hitems]
      exact (h.sound.founded.print_list hitems).symm.trans hi
  rw [hf.print_eq_of_frame? htag rfl]
  simp only [Payload.children, List.map_cons, List.map_nil, hattributes, hbody]
  by_cases hk : t.element.kind = .rule
  · have hnone := (hq.content?_eq_none_iff h).2 hk
    have hinner : inner = "" := by
      rw [HoldsText, hq.container?, hnone] at hi
      exact hi
    simp [Kind.tagText, hk, hnone, hinner, Glue.element, Node.interleave, bind, Except.bind]
  · have hsome : t.content?.isNone = false := by
      rw [Option.isNone_eq_false_iff, Option.isSome_iff_ne_none]
      exact fun hc => hk ((hq.content?_eq_none_iff h).1 hc)
    simp [Kind.tagText, hk, hsome, Glue.element, Node.interleave, String.append_assoc, bind, Except.bind]

theorem exists_place (hq : p.Converts t q) (h : p.Synced) (hy : p.parentOf t.id = some y) :
    ∃ c s r, p.container? y = some c ∧ p.arena.find? c = some ⟨.list (s ++ t.node :: r), none⟩ ∧
      q.arena.find? c = some ⟨.list (s ++ t.tag :: r), none⟩ := by
  obtain ⟨b, b', hw, -, rfl, ⟨hnone, -⟩ | ⟨z, c, hz, hc, hrep⟩⟩ := hq
  · cases hy.symm.trans hnone
  obtain rfl := Option.some.inj (hy.symm.trans hz)
  obtain ⟨s, r, g, hbc, -, rfl⟩ := Arena.exists_of_replaceItem hrep
  obtain ⟨items, hi⟩ := h.find?_container hc
  obtain ⟨htag, -, hbody⟩ := hw.old (Arena.index_lt_of_find? hi)
  have hcc : some c ≠ t.content? := by
    rw [← hw.container?]
    intro hcc
    obtain rfl := h.container_inj hc hcc.symm
    exact h.forest.not_reaches (h.parent_iff.1 hy) .refl
  obtain rfl : items = s ++ t.node :: r := by
    have hk := hw.kids_eq h c
    rw [Arena.kids_of_find? hbc, if_neg htag, if_neg hbody, if_neg hcc, Arena.kids_of_find? hi] at hk
    exact hk.symm
  refine ⟨c, s, r, hc, hi, ?_⟩
  rw [t.arena_settled, Arena.find?_setItems (hw.wraps.sound.find?_of_list hbc), if_pos rfl]

/-- The text of the page changes where the element is printed. -/
theorem exists_texts [Entities] (hq : p.Converts t q) (h : p.Synced) (hs : q.Synced)
    (hw : p.arena.Worded source)
    (hx : p.OnPage t.id) {inner : String} (hi : p.HoldsText t.id inner) :
    ∃ before text behind, p.Shows t.id before text behind ∧ p.Rewrites q before text
      (t.element.kind.tagText (t.element.kind.tag?.getD "") inner) behind := by
  rcases Relation.ReflTransGen.cases_tail hx with hroot | ⟨y, hy, hxy⟩
  · have hk := h.root_form
    rw [← hroot, Page.form?_of_find? hq.find?_element] at hk
    have ht := hq.tag?
    rw [(Prod.mk.inj (Option.some.inj hk)).1] at ht
    cases ht
  have hup := h.parent_iff.2 hxy
  obtain ⟨c, s, r, hc, hold, hnew⟩ := hq.exists_place h hup
  have hsplices : p.arena.Splices q.arena c s [t.node] [t.tag] r := by
    refine ⟨fun n m hn => hq.agrees h n m fun hd => hn ?_, by simpa using hold, by simpa using hnew⟩
    rcases hd with hcontent | ⟨z, hz, hzn⟩
    · exact .inr ⟨t.node, List.mem_singleton_self _, (hq.reaches_content h hup hc hcontent.symm).2⟩
    · obtain rfl := Option.some.inj (hup.symm.trans hz)
      exact .inl (Option.some.inj (hzn.symm.trans hc))
  obtain ⟨before, left, right, behind, hstands, hl, hr, hsource, hsource'⟩ :=
    hsplices.exists_texts h.sound hs.sound.founded hw (OnPage.reaches_container hy h hc)
  obtain ⟨text, ht⟩ := h.sound.founded.exists_print hw (h.backing_lt hq.backing?)
  refine ⟨before ++ left, text, right ++ behind, ⟨t.node, hq.backing?, ht, hstands.item hold hl hr⟩,
    source_eq (hsource text ?_), source_eq (hsource' _ ?_)⟩
  · rw [List.map_singleton, ht, Node.joined_one]
  · rw [List.map_singleton, hq.print_tag h hs hi, Node.joined_one]

end Converts

/-- An element that was written in markup is a tag now. -/
structure BecomesTag (p : Page) (x : ElementId) (e : Element) (name : String) (old tag body : NodeId)
    (q : Page) : Prop where
  bare : e.attributes = []
  element : q.find? x = some { e with backing := some (.tag tag) }
  others : ∀ y, y ≠ x → q.find? y = (p.find? y).map (Element.relink (p.container? x) body)
  records : q.site = p.site ∧ q.categories = p.categories ∧ q.owners = p.owners
  fresh : p.arena.find? tag = none
  unwritten : ∃ l, q.attributeList? x = some l ∧ q.arena.kids l = []
  content : q.container? x = some body ∧
    q.arena.kids body = ((p.container? x).map p.arena.kids).getD []
  /-- The old node stands nowhere and holds nothing. -/
  loose : q.arena.Loose old
  emptied : ∀ c, p.container? x = some c → q.arena.kids c = []
  texts : p.OnPage x → ∃ before text inner behind, p.Shows x before text behind ∧ p.HoldsText x inner ∧
    p.Rewrites q before text (e.kind.tagText name inner) behind

theorem Converts.becomesTag [Entities] (hq : p.Converts t q) (h : p.Recorded) (hs : p.Steady q)
    (hw : p.arena.Worded source) (ha : t.element.attributes = []) {name : String}
    (ht : t.element.kind.tag? = some name) : p.BecomesTag t.id t.element name t.node t.tag t.body q := by
  have hp := h.toSynced
  have hlinks : t.element.links = [] := by
    by_contra hne
    have hlinks : p.linksOf t.id = t.element.links := by rw [linksOf, hq.find?_element]; rfl
    obtain ⟨o, ho⟩ := h.isCategory (hlinks ▸ hne)
    rw [Page.form?_of_find? hq.find?_element] at ho
    rw [(Prod.mk.inj (Option.some.inj ho)).1] at ht
    cases ht
  have helement : q.find? t.id = some { t.element with backing := some (.tag t.tag) } := by
    rw [hq.find?_eq, if_pos rfl]
    exact congrArg some (Element.relink_of_links_nil
      (e := { t.element with backing := some (.tag t.tag) }) hlinks _ _)
  have hform := Page.form?_of_find? helement
  have htag := hq.find?_tag
  obtain ⟨inner, hi⟩ := exists_holdsText hp hw t.id
  refine {
    bare := ha
    element := helement
    others := fun y hy => ?_
    records := ⟨hs.site, hs.categories, hs.owners⟩
    fresh := Arena.find?_eq_none_iff.2 hq.fresh
    unwritten := ⟨t.attributes, (attributeList?_of_form? hform).trans hq.attributeList?,
      hq.kids_attributes hs.synced⟩
    content := ⟨?_, hq.container?.symm ▸ hq.kids_body⟩
    loose := hq.loose_node hp
    emptied := fun c hc => ?_
    texts := fun hx => ?_ }
  · rw [hq.find?_eq, if_neg hy, hq.container?]
  · rw [container?_of_form? hform]
    simp [Arena.container?, htag, bodyOf?]
  · obtain ⟨items, hi⟩ := hp.find?_container hc
    rw [hq.kids_eq, Promoted.kids]
    obtain ⟨b, b', hw, -⟩ := hq
    obtain ⟨h₁, -, h₂⟩ := hw.old (Arena.index_lt_of_find? hi)
    rw [if_neg h₁, if_neg h₂, if_pos (hc.symm.trans hw.container?)]
  · obtain ⟨before, text, behind, hshows, htexts⟩ := hq.exists_texts hp hs.synced hw hx hi
    rw [ht] at htexts
    exact ⟨before, text, inner, behind, hshows, hi, htexts⟩

/-- On a page that is reached, every element that is written in markup and has a tag can be promoted. It
is promoted once and for all: a second promotion changes nothing, and no acts undo the first. -/
theorem promote_reached [Entities] (h : p.Reached site) {e : Element} {name : String} {old : NodeId}
    (he : p.find? x = some e) (ht : e.kind.tag? = some name) (hb : e.backing = some (.markup old)) :
    ∃ tag body q, Edit.promote x p = .ok () q ∧ p.BecomesTag x e name old tag body q ∧
      Edit.promote x q = .ok () q ∧
      ∀ acts, (Act.run acts q).form? x = some (e.kind, some (.tag tag)) := by
  have hr := h.orderly.recorded
  obtain ⟨whole, hm⟩ := h.exists_mirrored
  obtain ⟨source, hw⟩ := h.exists_worded
  have hne : e.kind.tag? ≠ none := by simp [ht]
  have succeeds {r : Page} (hr : r.Synced) {o : Option Backing} (hf : r.form? x = some (e.kind, o)) :
      ∃ q, Edit.promote x r = .ok () q ∧ Edit.MadeTag r x q := by
    obtain ⟨_, q, hok, hq⟩ := ((Edit.ends_promote hr).mono (fun _ _ hq => hq)
      fun _ _ hf' => hne (hf'.2 _ _ hf)).exists_ok
    exact ⟨q, hok, hq⟩
  have ha : e.attributes = [] := (hm x e he).bare hne hb
  obtain ⟨q, hok, hq⟩ := succeeds hr.toSynced (Page.form?_of_find? he)
  obtain ⟨t, hconverts, rfl, rfl, rfl⟩ := hq.converts he hb ha
  have hbecomes := hconverts.becomesTag hr hq.calm.toSteady hw ha ht
  have hform := Page.form?_of_find? hbecomes.element
  obtain ⟨r, hagain, hr⟩ := succeeds hq.calm.synced hform
  obtain rfl := hr.same hform
  refine ⟨t.tag, t.body, r, hok, hbecomes, hagain, fun acts => ?_⟩
  refine (Act.keepsLawAndTags_run acts r).tags t.id t.element.kind t.tag (fun hk => ?_) hform
  rw [hk] at ht
  cases ht

/-- A page with a category in the midst of bold text. -/
def boldlyFiled : Page :=
  ofText "x '''[[Category:B]]y''' z"

theorem promote_reached_boldlyFiled : boldlyFiled.Reached .default ∧
    ∃ e, boldlyFiled.find? ⟨4⟩ = some e ∧ e.kind.tag? = some "b" ∧ e.backing = some (.markup ⟨6⟩) ∧
      ∃ tag body q, Edit.promote ⟨4⟩ boldlyFiled = .ok () q ∧
        boldlyFiled.BecomesTag ⟨4⟩ e "b" ⟨6⟩ tag body q ∧ Edit.promote ⟨4⟩ q = .ok () q ∧
        ∀ acts, (Act.run acts q).form? ⟨4⟩ = some (e.kind, some (.tag tag)) := by
  have hreached : boldlyFiled.Reached .default := .read (read_ofText (by decide +kernel))
  have hform : boldlyFiled.form? ⟨4⟩ = some (.bold, some (.markup ⟨6⟩)) := by decide +kernel
  obtain ⟨e, he, hk, hb⟩ := Page.find?_of_form? hform
  have ht : e.kind.tag? = some "b" := by rw [hk]; rfl
  exact ⟨hreached, e, he, ht, hb, promote_reached hreached he ht hb⟩

end Page
end WikiPage
