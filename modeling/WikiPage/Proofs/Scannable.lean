import WikiPage.EntityTable
import WikiPage.Proofs.Faithful
import WikiPage.Proofs.Legible
import WikiPage.Proofs.Preserved

/-!
# Tags stay legible

An edit leaves the tag of an element alone, gives it the glue of its kind around other content, writes or
removes one of its attributes, or makes a new tag without attributes. So on every page that is reached the
tags of all elements are legible.
-/

namespace WikiPage

namespace Arena

variable {a b : Arena} {n m l body v : NodeId} {x : Tag.Attribute} {name key written value : String}
  {empty hasValue : Bool} {g : Option Glue}

theorem KeepsPart.below (h : a.KeepsPart n b) (hm : Reaches a.kids n m) : a.KeepsPart m b :=
  .of_agreesBut h fun _ hr hnot => hnot (hm.trans hr)

theorem KeepsPart.text_eq (h : a.KeepsPart n b) (ha : a.Founded) (hb : b.Founded) (hn : n.index < a.size) :
    b.text n = a.text n :=
  congrArg Node.text (AgreesBut.tree_eq h ha hb hn fun _ hm => hm)

theorem Signs.keepsPart [Entities] (h : a.Signs m x) (ha : a.Founded) (hb : b.Founded) (hk : a.KeepsPart m b) :
    b.Signs m x := by
  obtain ⟨name, v, hm, hname, hprint, htext⟩ := h.node
  have hv : v ∈ a.kids m := kids_of_find? hm ▸ List.mem_singleton_self v
  have hkv := hk.below (.single hv)
  have hlt := ha.closed m v hv
  exact ⟨h.written, name, v, hk.find? .refl hm, hname, (hkv.print_eq ha hb hlt).trans hprint,
    (hkv.text_eq ha hb hlt).trans htext⟩

/-- A tag has the name and the attributes that it had, and its glue or that of its kind. -/
def KeepsTag (n : NodeId) (a b : Arena) : Prop :=
  ∀ name empty l body g, a.find? n = some ⟨.element name empty l body, g⟩ →
    (∃ empty' g', b.find? n = some ⟨.element name empty' l body, g'⟩ ∧
      (g' = g ∨ g' = some (Glue.element name empty'))) ∧ a.KeepsPart l b

theorem KeepsTag.of_find?_eq (hn : b.find? n = a.find? n)
    (hl : ∀ {name empty l body g}, a.find? n = some ⟨.element name empty l body, g⟩ → a.KeepsPart l b) :
    a.KeepsTag n b :=
  fun _ _ _ _ _ h => ⟨⟨_, _, hn.trans h, .inl rfl⟩, hl h⟩

theorem exists_glue_element (name : String) (empty : Bool) : ∃ ending selfClosing closing,
    Glue.element name empty = ⟨["<" ++ name, String.ofList ending, closing]⟩ ∧
      StartTag.IsEnding ending selfClosing := by
  cases empty with
  | true => exact ⟨[' ', '/', '>'], true, "", by simp [Glue.element], [' '], by simp [Tag.isSpace], rfl⟩
  | false => exact ⟨['>'], false, "</" ++ name ++ ">", by simp [Glue.element], [], by simp, rfl⟩

theorem IsLegible.keepsTag [Entities] (h : a.IsLegible n) (ha : a.Sound) (hb : b.Sound) (hk : a.KeepsTag n b) :
    b.IsLegible n := by
  obtain ⟨name, l, body, ending, selfClosing, closing, ⟨empty, hn⟩, hname, hending, hsigns⟩ := h
  obtain ⟨⟨empty', g', hn', hg⟩, hpart⟩ := hk _ _ _ _ _ hn
  obtain ⟨items, hl⟩ := ha.find?_slot hn (List.mem_cons_self : (l, Role.attributes) ∈ _)
  have hkids : b.kids l = a.kids l :=
    (kids_of_find? (hpart.find? .refl hl)).trans (kids_of_find? hl).symm
  have hsigns' : ∀ m ∈ b.kids l, ∃ x, b.Signs m x := fun m hm => by
    rw [hkids] at hm
    obtain ⟨x, hx⟩ := hsigns m hm
    exact ⟨x, hx.keepsPart ha.founded hb.founded (hpart.below (.single hm))⟩
  rcases hg with rfl | rfl
  · exact ⟨name, l, body, ending, selfClosing, closing, ⟨empty', hn'⟩, hname, hending, hsigns'⟩
  · obtain ⟨ending', selfClosing', closing', hglue, hending'⟩ := exists_glue_element name empty'
    exact ⟨name, l, body, ending', selfClosing', closing', ⟨empty', hglue ▸ hn'⟩, hname, hending', hsigns'⟩

theorem isLegible_of_made [Entities] {name : String} (hn : a.find? n = some ⟨.element name empty l body,
    some (Glue.element name empty)⟩) (hname : StartTag.IsName name.toList) (hl : a.kids l = []) :
    a.IsLegible n := by
  obtain ⟨ending, selfClosing, closing, hglue, hending⟩ := exists_glue_element name empty
  exact ⟨name, l, body, ending, selfClosing, closing, ⟨empty, hglue ▸ hn⟩, hname, hending, fun m hm => by
    rw [hl] at hm
    cases hm⟩

theorem signs_quoted [Entities] (ha : a.Founded)
    (hn : a.find? n = some ⟨.attr written true v, some (Glue.attr key true)⟩) (hk : Tag.IsName key.toList)
    (hw : written.toLower = key.toLower) (hv : a.Encodes v value) (ht : a.text v = .ok value) :
    a.Signs n (.quoted key.toList (Span.escaped value.toList)) where
  written := Tag.Attribute.isWritten_quoted hk (Span.quote_not_mem_escaped _)
  node := by
    refine ⟨written, v, ?_, ?_, ?_, ?_⟩
    · rw [hn]
      simp [Tag.Attribute.quoted, Glue.attr, ← String.toList_inj]
    · rw [hw, Tag.Attribute.quoted, String.ofList_toList]
    · rw [hv.print_eq ha, spelling_eq]
      rfl
    · rw [ht, Tag.Attribute.quoted, Option.getD_some, Span.flatMap_meaning_list_escaped, String.ofList_toList]

theorem Signs.rewrite [Entities] (h : a.Signs n x) (hn : a.find? n = some ⟨.attr written hasValue l, g⟩)
    (hq : Surgery.isQuoted hasValue g = true) (hb : b.Founded)
    (hn' : b.find? n = some ⟨.attr written true v, g⟩) (hv : b.Encodes v value) (ht : b.text v = .ok value) :
    ∃ y, b.Signs n y := by
  obtain ⟨hwritten, _, _, hfind, hname, -, -⟩ := h
  obtain ⟨⟨rfl, rfl, rfl⟩, rfl⟩ : (written = _ ∧ hasValue = _ ∧ l = _) ∧ g = _ := by
    simpa using Option.some.inj (hn.symm.trans hfind)
  simp only [Surgery.isQuoted, Option.any_some, Glue.opensWith, Glue.slot?, Bool.and_eq_true,
    List.getElem?_cons_zero, String.toList_ofList, beq_iff_eq] at hq
  obtain ⟨hvalue, hlast⟩ := hq
  cases hwritten with
  | flag => cases hvalue
  | @quoted blank name before after old q hblank hs hname' hbefore hafter hq hold =>
    obtain rfl : q = '"' := Option.some.inj (List.getLast?_concat.symm.trans hlast)
    have hquoted := Tag.Attribute.IsWritten.quoted hblank hs hname' hbefore hafter (.inl rfl)
      (Span.quote_not_mem_escaped value.toList)
    refine ⟨_, hquoted, written, v, hn', hname, ?_, ?_⟩
    · rw [hv.print_eq hb, spelling_eq]
      rfl
    · rw [ht, Option.getD_some, Span.flatMap_meaning_list_escaped, String.ofList_toList]
  | @bare blank name before after old hblank hs hname' hbefore hafter =>
    -- the sign or a blank stands before a value without quotes
    obtain ⟨c, hc, hcq⟩ : ∃ c, ('=' :: after).getLast? = some c ∧ c ≠ '"' := by
      cases hafter' : after.getLast? with
      | none => exact ⟨'=', by simp [List.getLast?_cons, hafter'], by decide⟩
      | some c =>
        refine ⟨c, by simp [List.getLast?_cons, hafter'], ?_⟩
        rintro rfl
        cases hafter _ (List.mem_of_getLast? hafter')
    rw [List.getLast?_append, hc, Option.some_or] at hlast
    exact absurd (Option.some.inj hlast) hcq

/-- A scanned attribute is the one at a node: it has its name, in whatever letter case, it has a value if the
node has one, and the value reads as that of the node. -/
def ShowsAttribute [Entities] (a : Arena) (m : NodeId) (x : Tag.Attribute) : Prop :=
  ∃ name v g, a.find? m = some ⟨.attr name x.value.isSome v, g⟩ ∧
    name.toLower = (String.ofList x.name).toLower ∧
    ∀ value, x.value = some value → a.text v = .ok (String.ofList ((Span.list value).flatMap Span.meaning))

/-- A scanned tag is the one at a node: it has its name and, in their order, its attributes. -/
def ShowsTag [Entities] (a : Arena) (n : NodeId) (tag : StartTag) : Prop :=
  ∃ name empty l body g, a.find? n = some ⟨.element name empty l body, g⟩ ∧ tag.name = name.toList ∧
    List.Forall₂ a.ShowsAttribute (a.kids l) tag.attributes

theorem Signs.shows [Entities] (h : a.Signs m x) : a.ShowsAttribute m x := by
  obtain ⟨name, v, hm, hname, -, htext⟩ := h.node
  exact ⟨name, v, _, hm, hname, fun value hv => by rw [htext, hv, Option.getD_some]⟩

/-- What a legible tag is printed as begins with a tag that is scanned, unless its last value runs into its
end. -/
theorem IsLegible.scanAt?_print [Entities] (h : a.IsLegible n) (ha : a.Sound) {text : String}
    (hn : a.print n = .ok text) :
    ∃ tag rest, a.ShowsTag n tag ∧ text.toList = tag.source ++ rest ∧
      StartTag.scanAt? text 0 = if tag.attributes.getLast?.any (·.runsInto tag.ending) then none
        else some (tag, Text.byteSize tag.source) := by
  obtain ⟨name, l, body, ending, selfClosing, closing, h⟩ := h
  obtain ⟨xs, rest, hxs, htext, hscan⟩ := h.scanAt?_print ha hn
  obtain ⟨empty, hfind⟩ := h.node
  exact ⟨⟨name.toList, xs, ending, selfClosing⟩, rest,
    ⟨name, empty, l, body, _, hfind, rfl, hxs.imp fun _ _ => Signs.shows⟩, htext, hscan⟩

end Arena

namespace Page

variable {p q q' : Page} {x y : ElementId} {c k l m n : NodeId} {s r t made : List NodeId} {d : NodeId → Prop}
  {kind : Kind} {b : Arena} {payload : Payload} {e : Element}

/-- The tags of all elements are legible. -/
def IsLegible [Entities] (p : Page) : Prop :=
  ∀ x kind n, p.form? x = some (kind, some (.tag n)) → p.arena.IsLegible n

/-- The tags of another page are tags of the page. -/
def AddsNoTags (p q : Page) : Prop :=
  ∀ x kind n, q.form? x = some (kind, some (.tag n)) → p.form? x = some (kind, some (.tag n))

theorem AddsNoTags.of_form? (h : q.form? = p.form?) : p.AddsNoTags q :=
  fun _ _ _ hx => h ▸ hx

/-- A tag of a page that another page has as well, and that is kept there. -/
def RetainsTag (p : Page) (x : ElementId) (kind : Kind) (n : NodeId) (q : Page) : Prop :=
  p.form? x = some (kind, some (.tag n)) ∧ p.arena.KeepsTag n q.arena

/-- Every tag has been there before and is kept, or is legible anyway. -/
theorem IsLegible.leads [Entities] (hl : p.IsLegible) (h : p.Synced) (hq : q.arena.Sound)
    (hk : ∀ x kind n, q.form? x = some (kind, some (.tag n)) →
      p.RetainsTag x kind n q ∨ q.arena.IsLegible n) : q.IsLegible :=
  fun x kind n hx => (hk x kind n hx).elim (fun hn => (hl x kind n hn.1).keepsTag h.sound hq hn.2) id

theorem Synced.attributeList?_of_element (hx : p.form? x = some (kind, some (.tag n))) {name : String}
    {empty : Bool} {body : NodeId} {g : Option Glue}
    (hn : p.arena.find? n = some ⟨.element name empty l body, g⟩) : p.attributeList? x = some l := by
  rw [attributeList?_of_form? hx, Arena.attributeList?, hn]
  rfl

/-- A tag is kept where neither its node nor what is below its attributes is different. -/
theorem Synced.keepsTag (h : p.Synced) (hx : p.form? x = some (kind, some (.tag n)))
    (hd : p.arena.AgreesBut b d) (hn : ¬d n)
    (hm : ∀ l m, p.attributeList? x = some l → Reaches p.arena.kids l m → ¬d m) : p.arena.KeepsTag n b := by
  obtain ⟨v, hv, -⟩ := h.writes hx
  refine Arena.KeepsTag.of_find?_eq ((hd n v hn hv).trans hv.symm) fun hfind => ?_
  exact .of_agreesBut hd fun m => hm _ m (attributeList?_of_element hx hfind)

/-- A node that the tags of elements have nothing to do with, except that they may hold it. -/
def OffTags (p : Page) (n : NodeId) : Prop :=
  (∀ x kind, p.form? x ≠ some (kind, some (.tag n))) ∧
    ∀ x l, p.attributeList? x = some l → ¬Reaches p.arena.kids l n

theorem Synced.offTags_of_carries (h : p.Synced) (hn : p.Carries n)
    (ht : ∀ x kind, p.form? x ≠ some (kind, some (.tag n))) : p.OffTags n :=
  ⟨ht, fun _ _ hl hr => h.not_carries_of_attribute hl hr hn⟩

theorem Synced.offTags_of_container (h : p.Synced) (hc : p.container? x = some c) : p.OffTags c := by
  refine h.offTags_of_carries (.inr ⟨x, hc⟩) fun y kind hy => ?_
  obtain ⟨items, hi⟩ := h.find?_container hc
  obtain ⟨v, hv, ht⟩ := h.writes hy
  obtain rfl := Option.some.inj (hv.symm.trans hi)
  cases ht

theorem Synced.offTags_of_markup (h : p.Synced) (hx : p.form? x = some (kind, some (.markup n))) :
    p.OffTags n := by
  refine h.offTags_of_carries (.inl ⟨x, backing?_of_form? hx⟩) fun y kind' hy => ?_
  obtain rfl := h.backing_inj (backing?_of_form? hx) (backing?_of_form? hy)
  cases hx.symm.trans hy

theorem IsLegible.leads_of_offTags [Entities] (hl : p.IsLegible) (h : p.Synced) (hq : q.arena.Sound)
    (hf : p.AddsNoTags q)
    (hd : p.arena.AgreesBut q.arena d) (hoff : ∀ m, d m → p.OffTags m) : q.IsLegible :=
  hl.leads h hq fun x kind n hx => .inl ⟨hf x kind n hx, h.keepsTag (hf x kind n hx) hd
    (fun hn => (hoff n hn).1 _ _ (hf x kind n hx)) fun l m hl hr hm => (hoff m hm).2 _ l hl hr⟩

theorem IsLegible.congr [Entities] (hl : p.IsLegible) (ha : q.arena = p.arena) (hf : p.AddsNoTags q) :
    q.IsLegible :=
  fun x kind n hx => ha ▸ hl x kind n (hf x kind n hx)

theorem IsLegible.pushMade [Entities] (hl : p.IsLegible) (h : p.Synced)
    (hq : (p.pushMade b payload e).arena.Sound)
    (hb : p.arena.Extends b)
    (he : ∀ n, e.backing = some (.tag n) → (p.pushMade b payload e).arena.IsLegible n) :
    (p.pushMade b payload e).IsLegible := by
  refine hl.leads h hq fun x kind n hx => ?_
  have hext : p.arena.Extends (p.pushMade b payload e).arena := hb.trans (.push b _)
  obtain ⟨d, hd, -, hback⟩ := find?_of_form? hx
  rw [Page.pushMade, find?_push] at hd
  split at hd
  · obtain rfl := Option.some.inj hd
    exact .inr (he n hback)
  · have hx : p.form? x = some (kind, some (.tag n)) :=
      (form?_of_find? hd).trans
        ((form?_of_find? ((find?_push ..).trans ((if_neg ‹_›).trans hd))).symm.trans hx)
    exact .inl ⟨hx, h.keepsTag (d := fun _ => False) hx (fun _ _ _ hm => hext.find?_of_find? hm) id
      fun _ _ _ _ => id⟩

end Page

namespace Edit

open Page (Mirrored)

variable {α : Type} {p q q' : Page} {x y id : ElementId} {c k n l : NodeId} {s r b t : List NodeId}
  {e d : Element}
  {key name value new : String} {whole : Prop} {old : Option String}

theorem Exchange.isLegible [Entities] (hq : Exchange p x c s r b t q) (hl : p.IsLegible) (h : p.Synced)
    (hr : Refresh q x q') : q'.IsLegible := by
  have hqs := hq.synced h
  obtain ⟨items, hc⟩ := h.find?_container hq.container
  have hform : q.form? = p.form? := by
    obtain ⟨ch, hf, hfilled⟩ := hq.filled
    exact (hf.relinks h hfilled).form
  have hqc : q.IsLegible := by
    refine hl.leads_of_offTags h hqs.sound (.of_form? hform) (d := (· = c)) (fun m v hm hv => ?_) ?_
    · rw [hq.arena, Arena.find?_setItems hc, if_neg hm, hv]
    · rintro _ rfl
      exact h.offTags_of_container hq.container
  have hsound : q'.arena.Sound := by
    obtain ⟨_, hb, hk, rfl⟩ := (hr.refreshed hqs).tidied
    exact (TidiedPage.calm hqs ⟨_, hb, hk, rfl⟩).synced.sound
  refine hqc.leads hqs hsound fun z kind n hz => .inl ?_
  have hz : q.form? z = some (kind, some (.tag n)) := by cases hr <;> exact hz
  refine ⟨hz, ?_⟩
  have hagrees : q.arena.AgreesBut q'.arena fun m => q.backing? x = some m := fun m v hm hv =>
    (hr.find?_of_ne hm).trans hv
  have hlist {l m : NodeId} (hl : q.attributeList? z = some l) (hm : Reaches q.arena.kids l m) :
      q.backing? x ≠ some m := fun hx => hqs.not_carries_of_attribute hl hm (.inl ⟨x, hx⟩)
  by_cases hx : q.backing? x = some n
  · cases hr with
    | keep => exact Arena.KeepsTag.of_find?_eq rfl fun _ => .refl _ _
    | @renew n' payload glue b hn' hneed hset =>
      obtain rfl := Option.some.inj (hn'.symm.trans hx)
      obtain ⟨node, hnode, -, rfl⟩ := Arena.exists_of_setGlue hset
      intro name empty l body g hn
      have hpart : q.arena.KeepsPart l
          ((q.arena.setPayload n' payload).modify n' fun m => { m with glue := glue }) :=
        .of_agreesBut hagrees fun m => hlist (Page.Synced.attributeList?_of_element hz hn)
      cases Page.needs_of_neededGlue? hneed with
      | element hfind _ _ =>
        cases hn.symm.trans hfind
        refine ⟨⟨false, _, ?_, .inr rfl⟩, hpart⟩
        change ((q.arena.setPayload n' _).modify n' _).find? n' = _
        rw [Arena.find?_modify, if_pos rfl, Arena.setPayload, Arena.find?_modify, if_pos rfl, hn]
        rfl
      | link hfind _ _ => cases hn.symm.trans hfind
  · exact hqs.keepsTag hz hagrees hx fun _ _ => hlist

end Edit

namespace Page

variable {p q : Page} {x id : ElementId} {n l : NodeId} {kind : Kind} {ids : List ElementId}
  {gone kept : List PlacedLink}

theorem Synced.not_reaches_linked (h : p.Synced) (hl : p.attributeList? x = some l) (hn : p.Linked n) :
    ¬Reaches p.arena.kids l n := by
  intro hr
  obtain ⟨items, hi⟩ := h.find?_attributeList hl
  obtain ⟨target, ht⟩ := h.linked_target? hn
  obtain ⟨k, tag, v, -, hv, hs⟩ := exists_of_attributeList? hl
  rcases Relation.ReflTransGen.cases_head hr with rfl | ⟨m, hm, hr⟩
  · rw [Arena.target?, hi] at ht
    cases ht
  · obtain ⟨items', hi', hitems⟩ := (h.sound.fits hv).lists _ hs
    rw [Arena.kids_of_find? hi'] at hm
    exact h.not_isAttributePart hn hr (.inl (hitems m hm))

theorem Synced.offTags_of_linked (h : p.Synced) (hn : p.Linked n) : p.OffTags n :=
  ⟨fun x _ hx => h.unlinked hn x (backing?_of_form? hx), fun _ _ hl => h.not_reaches_linked hl hn⟩

/-- No link of a category stands in the tag of an element, so none is cut out of it. -/
theorem IsLegible.leads_of_trims [Entities] {gone : List NodeId} (hl : p.IsLegible) (h : p.Synced)
    (hq : q.arena.Sound)
    (hf : q.form? = p.form?) (hgone : ∀ m ∈ gone, p.Linked m)
    (hnodes : ∀ {n m}, p.arena.find? n = some m → m.payload.isList = false → q.arena.find? n = some m)
    (ht : ∀ x l, p.attributeList? x = some l → p.arena.Trims l gone none q.arena) : q.IsLegible := by
  refine hl.leads h hq fun x kind n hx => .inl ?_
  rw [hf] at hx
  refine ⟨hx, fun name empty l body g hn => ?_⟩
  have hlist := Synced.attributeList?_of_element hx hn
  exact ⟨⟨empty, g, hnodes hn rfl, .inl rfl⟩,
    (ht x l hlist).keepsPart (fun m hm => h.not_reaches_linked hlist (hgone m hm)) nofun⟩

theorem linked_of_mem_linkNodes (hn : n ∈ p.linkNodes x) : p.Linked n := by
  obtain ⟨l, hl, rfl⟩ := List.mem_map.1 hn
  exact linked_of_mem hl

theorem Dropped.isLegible [Entities] (hd : p.Dropped id gone kept q) (hl : p.IsLegible) (h : p.Synced)
    (hgone : ∀ l ∈ gone, p.Linked l.link) : q.IsLegible :=
  hl.leads_of_trims h hd.synced.sound hd.form?
    (fun m hm => by
      obtain ⟨l, hl, rfl⟩ := List.mem_map.1 hm
      exact hgone l hl)
    hd.nodes fun _ _ _ => hd.trims h

theorem Renews.isLegible [Entities] (hr : p.Renews ids q) (hl : p.IsLegible) (h : p.Synced) (hq : q.Synced) :
    q.IsLegible := by
  have hgone (m : NodeId) (hm : m ∈ ids.flatMap p.linkNodes) : p.Linked m := by
    obtain ⟨y, -, hm⟩ := List.mem_flatMap.1 hm
    exact linked_of_mem_linkNodes hm
  refine hl.leads_of_trims h hq.sound hr.form hgone hr.nodes fun x l hlist => ?_
  · obtain ⟨items, hi⟩ := h.find?_attributeList hlist
    exact hr.trims h hq (Arena.index_lt_of_find? hi) fun hc =>
      h.not_carries_of_attribute hlist hc (.inr ⟨body, h.body_container⟩)

end Page

namespace Edit

open Page (Mirrored)

variable {p q : Page} {x id : ElementId} {n link : NodeId} {e : Element} {name new target : String}
  {whole : Prop}

/-- An edit that leaves the tags of all elements legible, if it goes well. -/
abbrev KeepsLegible [Entities] {α : Type} (m : Edit α) (p : Page) : Prop :=
  Ends m p (fun _ q => q.IsLegible) fun _ _ => True

theorem keepsLegible_keepCategories [Entities] (hl : p.IsLegible) (h : p.Recorded)
    (hn : n.index < p.arena.size) :
    KeepsLegible (keepCategories n) p :=
  (renews_keepCategories h hn).mono (fun _ _ hq => hq.2.isLegible hl h.toSynced hq.1.toSynced)
    fun _ _ _ => trivial

theorem Relinked.isLegible [Entities] (hr : Relinked p link target q) (hl : p.IsLegible) (h : p.Synced)
    (ho : p.OffTags link) : q.IsLegible :=
  hl.leads_of_offTags h hr.synced.sound (.of_form? hr.form?_eq) (d := (· = link))
    (fun _ _ hm hv => (hr.arena.find?_of_ne hm).trans hv) fun _ hm => hm ▸ ho

theorem keepsLegible_renameLinks [Entities] (hl : p.IsLegible) (h : p.Recorded) (hc : p.IsCategory id) :
    KeepsLegible (renameLinks id (p.nameOf? id) (Normalization.words.apply new)) (renamed p id new) := by
  have hren : (renamed p id new).IsLegible := hl.congr rfl (.of_form? (Page.form?_update fun _ => ⟨rfl, rfl⟩))
  refine (ends_renameLinks h hc).mono (fun _ q hq => ?_) fun _ _ _ => trivial
  rcases hq with ⟨rfl, -⟩ | ⟨old, l, hlast, -, -, r, s, hr, hd, rfl⟩
  · exact hren
  · have hrs := h.renamed hc new
    have hlinked : (renamed p id new).Linked l.link :=
      Page.linked_of_mem (Page.Recorded.linksOf_renamed ▸ List.mem_of_getLast? hlast)
    have hrl : r.IsLegible := hr.isLegible hren hrs.toSynced (hrs.toSynced.offTags_of_linked hlinked)
    have hsl : s.IsLegible :=
      hd.isLegible hrl hr.synced fun k hk => Page.linked_of_mem (List.mem_filter.1 hk).1
    exact hsl.congr rfl (.of_form? rfl)

theorem keepsLegible_removeCategory [Entities] (hl : p.IsLegible) (h : p.Recorded) :
    KeepsLegible (removeCategory name) p := by
  refine (ends_removeCategory h.toSynced fun id hid => ⟨h.inPlace id, h.named (h.indexed hid)⟩).mono ?_
    fun _ _ _ => trivial
  rintro id q ⟨hid, r, stored, hd, -, rfl⟩
  have hroot := h.toSynced.ne_root_of_isCategory (h.indexed hid)
  refine (hd.isLegible hl h.toSynced fun _ => Page.linked_of_mem).congr arena_detached (.of_form? ?_)
  exact Page.form?_takeCategory hroot

theorem keepsLegible_addCategory [Entities] (hl : p.IsLegible) (h : p.Recorded) :
    KeepsLegible (addCategory name) p := by
  refine (ends_addCategory_made h.toSynced).mono ?_ fun _ _ _ => trivial
  rintro id q ⟨rfl, -, -, r, l, hlink, rfl⟩
  have hp := h.pushCategory (normalizeTitle name)
  have hpush : (p.push (Page.newCategory (normalizeTitle name))).IsLegible := by
    refine hl.congr rfl fun x kind n hx => ?_
    obtain ⟨d, hd, hk, hb⟩ := Page.find?_of_form? hx
    rw [Page.find?_push] at hd
    split at hd
    · obtain rfl := Option.some.inj hd
      cases hb
    · rw [Page.form?_of_find? hd, hk, hb]
  have hr : r.IsLegible := by
    refine hpush.leads_of_offTags hp.toSynced (hlink.newLink hp.toSynced).calm.synced.sound
      (.of_form? hlink.form?_eq) (d := (· = p.arena.content)) (fun m v hm hv => ?_) ?_
    · exact (hlink.find?_old hp.toSynced (Arena.index_lt_of_find? hv) hm).trans hv
    · rintro _ rfl
      exact hp.toSynced.offTags_of_container hp.toSynced.body_container
  exact hr.congr arena_attached (.of_form? (Page.form?_attached
    (hp.toSynced.ne_root_of_isCategory isCategory_pushCategory)))

theorem addsNoTags_setText (s : String) :
    Ends (setText x s) p (fun _ q => p.AddsNoTags q) fun _ _ => True := by
  refine ends_requireKind.step ?_ fun _ _ _ => trivial
  rintro _ q ⟨rfl, -⟩
  refine Ends.bind (ends_ask (fun node _ => Ends.bind (ends_ask (fun payload _ => ?_) fun _ _ => trivial))
    fun _ _ => trivial)
  have replaced : Ends (replaceText x node s) q (fun _ r => q.AddsNoTags r) fun _ _ => True := by
    have update (b : Arena) (new : NodeId) : Ends (update x fun e => { e with backing := some (.markup new) })
        { q with arena := b } (fun _ r => q.AddsNoTags r) fun _ _ => True := by
      refine ends_update (fun e he y kind n hy => ?_) fun _ => trivial
      have hform := Page.form?_update_backing (y := y) (f := fun e => { e with backing := some (.markup new) })
        he fun _ => ⟨rfl, rfl⟩
      rw [hform] at hy
      split at hy
      · cases hy
      · exact hy
    refine Ends.bind (ends_ask (fun c _ => Ends.bind (ends_surgery (Surgery.ends_make ?_))) fun _ _ => trivial)
    cases c with
    | none => exact update _ _
    | some c => exact Ends.bind (ends_surgery (Ends.all (fun _ b => update b _) fun _ _ => trivial))
  cases payload with
  | text old => exact ends_surgery (Ends.all (fun _ _ => .of_form? rfl) fun _ _ => trivial)
  | _ => exact replaced

theorem keepsLegible_setText [Entities] (hl : p.IsLegible) (h : p.Synced) (s : String) :
    KeepsLegible (setText x s) p := by
  by_cases hx : ∃ e, p.find? x = some e ∧ e.kind = .text
  · obtain ⟨e, he, hk⟩ := hx
    obtain ⟨node, hn⟩ := h.exists_backing_of_movable he (hk ▸ rfl)
    refine ((ends_setText h he hk hn).and (addsNoTags_setText s)).mono (fun _ q hq => ?_) fun _ _ _ => trivial
    obtain ⟨⟨hcalm, hset⟩, htags⟩ := hq
    have leads {d : NodeId → Prop} (hd : p.arena.AgreesBut q.arena d) (hoff : ∀ m, d m → p.OffTags m) :=
      hl.leads_of_offTags h hcalm.synced.sound htags hd hoff
    have hform : p.form? x = some (.text, some (.markup node)) :=
      h.form?_of_text he hk (Page.backingNode_of_backing? hn)
    generalize q.arena = b at hset leads
    cases hset with
    | stored hm =>
      refine leads (d := (· = node)) (fun m v hm hv => ?_) fun _ hm => hm ▸ h.offTags_of_markup hform
      rw [Arena.setPayload, Arena.find?_modify, if_neg hm, hv]
    | @replaced c u v hc =>
      have hext := Arena.Extends.push p.arena ⟨.text s, none⟩
      refine leads (d := (· = c)) (fun m v hm hv => ?_) ?_
      · rw [Arena.find?_setItems (hext.find?_of_find? hc), if_neg hm, hext.find?_of_find? hv]
      · rintro m rfl
        have hmem : node ∈ p.arena.kids m := by simp [Arena.kids_of_find? hc, Payload.children]
        obtain ⟨z, -, hz⟩ := h.home hn (h.leaf_of_saying hform (.inl rfl)).2.1 hmem
        exact h.offTags_of_container hz
    | loose _ =>
      exact leads (d := fun _ => False) (fun _ _ _ hv => (Arena.Extends.push _ _).find?_of_find? hv)
        fun _ hm => hm.elim
  · refine ends_requireKind.step ?_ fun _ _ _ => trivial
    rintro _ q ⟨rfl, he⟩
    exact absurd he hx

theorem ends_setComment_agrees (h : p.Synced) (s : String) : Ends (setComment x s) p (fun _ q =>
    q.form? = p.form? ∧ ∃ node, p.form? x = some (.comment, some (.markup node)) ∧
      p.arena.AgreesBut q.arena (· = node)) fun _ _ => True := by
  refine ends_requireKind.step ?_ fun _ _ _ => trivial
  rintro _ q ⟨rfl, e, he, hk⟩
  refine Ends.bind (ends_ask (fun _ _ => ?_) fun _ _ => trivial)
  refine Ends.bind (ends_ask (fun node hnode => ?_) fun _ _ => trivial)
  have hform : q.form? x = some (.comment, some (.markup node)) := by
    obtain ⟨k, b, hf, rfl⟩ := Page.exists_of_backing? (Page.backing?_of_backingNode hnode)
    obtain rfl : k = .comment :=
      hk ▸ (Prod.mk.inj (Option.some.inj (hf.symm.trans (Page.form?_of_find? he)))).1
    cases b with
    | markup node => exact hf
    | tag node =>
      obtain ⟨⟨payload, g⟩, -, ht⟩ := h.writes hf
      cases payload <;> cases ht
  have glued {b : Arena} (hb : ∀ m, m ≠ node → b.find? m = q.arena.find? m) :
      Ends (surgery (Surgery.setGlue node (Glue.comment s))) { q with arena := b }
        (fun _ r => r.form? = q.form? ∧ ∃ node, q.form? x = some (.comment, some (.markup node)) ∧
          q.arena.AgreesBut r.arena (· = node)) fun _ _ => True := by
    refine ends_surgery (Surgery.ends_change (fun b' hb' => ?_) fun _ _ => trivial)
    obtain ⟨_, -, -, rfl⟩ := Arena.exists_of_setGlue (PageError.eq_ok_of_ofArena hb')
    refine ⟨rfl, node, hform, fun m v hm hv => ?_⟩
    rw [Arena.find?_modify, if_neg hm, hb m hm, hv]
  refine Ends.bind (ends_ask (fun payload _ => ?_) fun _ _ => trivial)
  split
  · refine Ends.bind (ends_surgery (Surgery.ends_setPayload (glued fun m hm => ?_)))
    rw [Arena.setPayload, Arena.find?_modify, if_neg hm]
  · exact Ends.bind (Ends.pure (glued fun _ _ => rfl))

theorem keepsLegible_setComment [Entities] (hl : p.IsLegible) (h : p.Synced) (s : String) :
    KeepsLegible (setComment x s) p := by
  refine ((isCalm_setComment h).and (ends_setComment_agrees h s)).mono ?_ fun _ _ _ => trivial
  rintro _ q ⟨hcalm, hf, node, hx, hd⟩
  exact hl.leads_of_offTags h hcalm.synced.sound (.of_form? hf) hd fun _ hm => hm ▸ h.offTags_of_markup hx

theorem isName_of_tag? {kind : Kind} {name : String} (h : kind.tag? = some name) :
    StartTag.IsName name.toList := by
  cases kind <;> cases h
  · exact ⟨'p', [], rfl, by decide, nofun⟩
  · exact ⟨'b', [], rfl, by decide, nofun⟩
  · exact ⟨'i', [], rfl, by decide, nofun⟩
  · exact ⟨'h', ['r'], rfl, by decide, List.all_eq_true.1 rfl⟩
  · exact ⟨'d', ['i', 'v'], rfl, by decide, List.all_eq_true.1 rfl⟩

theorem MadeTag.isLegible [Entities] (hq : MadeTag p x q) (hl : p.IsLegible) (h : p.Synced)
    (hm : p.Mirrored whole)
    (he : p.find? x = some e) (hk : e.kind.tag? ≠ none) : q.IsLegible := by
  have hf := Page.form?_of_find? he
  cases hb : e.backing with
  | none =>
    rw [hb] at hf
    have hc : e.kind = .category := h.writes hf
    rw [hc] at hk
    exact absurd rfl hk
  | some b =>
    rw [hb] at hf
    cases b with
    | tag k =>
      obtain rfl := hq.same hf
      exact hl
    | markup k =>
      obtain ⟨t, hconverts, rfl, rfl, rfl⟩ := hq.converts he hb ((hm x e he).bare hk hb)
      have hqs := hq.calm.synced
      have hleaves := hconverts.leaves h hqs hq.calm.site
      refine hl.leads h hqs.sound fun z kind n hz => ?_
      by_cases hne : z = t.id
      · subst z
        obtain ⟨-, ⟨⟩⟩ := Prod.mk.inj (Option.some.inj (hconverts.form?_eq.symm.trans hz))
        obtain ⟨name, hname⟩ := Option.ne_none_iff_exists'.1 hk
        refine .inr (Arena.isLegible_of_made hconverts.find?_tag ?_ (hconverts.kids_attributes hqs))
        rw [hname]
        exact isName_of_tag? hname
      · rw [hleaves.form?_of_ne hne] at hz
        have hoff (m : NodeId)
            (hm : some m = t.content? ∨ ∃ y, p.parentOf t.id = some y ∧ p.container? y = some m) :
            p.OffTags m := by
          rcases hm with hm | ⟨y, -, hy⟩
          · exact h.offTags_of_container (hconverts.container?.trans hm.symm)
          · exact h.offTags_of_container hy
        exact .inl ⟨hz, h.keepsTag hz (hconverts.agrees h) (fun hn => (hoff n hn).1 z kind hz)
          fun l m hl hr hm => (hoff m hm).2 z l hl hr⟩

end Edit

namespace Page

variable {p q : Page} {x : ElementId} {l n : NodeId}

theorem IsLegible.leads_of_attributes [Entities] (hl : p.IsLegible) (h : p.Synced) (hq : q.arena.Sound)
    (hf : p.AddsNoTags q) (hx : p.attributeList? x = some l)
    (hd : p.arena.AgreesBut q.arena fun m => Reaches p.arena.kids l m)
    (hs : (∀ m ∈ p.arena.kids l, ∃ y, p.arena.Signs m y) → ∀ m ∈ q.arena.kids l, ∃ y, q.arena.Signs m y) :
    q.IsLegible := by
  intro z kind n hz
  have hz := hf z kind n hz
  have hn : ¬Reaches p.arena.kids l n := fun hr =>
    h.not_carries_of_attribute hx hr (.inl ⟨z, backing?_of_form? hz⟩)
  have hlegible := hl z kind n hz
  by_cases hne : z = x
  · subst z
    obtain ⟨name, l', body, ending, selfClosing, closing, ⟨empty, hfind⟩, hname, hending, hsigns⟩ := hlegible
    obtain rfl := Option.some.inj (hx.symm.trans (Synced.attributeList?_of_element hz hfind))
    exact ⟨name, l, body, ending, selfClosing, closing, ⟨empty, hd n _ hn hfind⟩, hname, hending, hs hsigns⟩
  · refine hlegible.keepsTag h.sound hq (h.keepsTag hz hd hn fun l' m hl' hr hm => ?_)
    exact (h.aside_of_reaches (h.aside_attributeList hl' hne) hr).attributes l hx hm

end Page

namespace Edit

open Page (Mirrored)

variable [Entities] {p q : Page} {x : ElementId} {n l : NodeId} {e : Element} {key name value : String}
  {whole : Prop}
  {policy : Policy}

theorem keepsLegible_removeAttribute (hl : p.IsLegible) (h : p.Synced) (name : String) :
    KeepsLegible (removeAttribute x name) p := by
  refine ((isCalm_removeAttribute h).and (ends_removeAttribute_run h)).mono ?_ fun _ _ _ => trivial
  rintro old q ⟨hcalm, e, policy, he, -, -, hq⟩
  have hstruck (name : String) : (struck p x name).form? = p.form? := Page.form?_update fun _ => ⟨rfl, rfl⟩
  cases hq with
  | absent _ => exact hl
  | stored _ _ => exact hl.congr rfl (.of_form? (hstruck _))
  | @written a node c s t _ _ hc hlist =>
    have hagrees : p.arena.AgreesBut (p.arena.setItems c (s ++ t)) (· = c) := fun m v hm hv =>
      (Arena.find?_setItems hlist m).trans ((if_neg hm).trans hv)
    refine hl.leads_of_attributes h hcalm.synced.sound (.of_form? (hstruck a.name)) hc
      (fun m v hm hv => hagrees m v (fun he => hm (he ▸ .refl)) hv) fun hsigns m hm => ?_
    have hm : m ∈ p.arena.kids c := by
      rw [show (_ : Page).arena = p.arena.setItems c (s ++ t) from rfl,
        Arena.kids_setItems (Arena.index_lt_of_find? hlist), if_pos rfl] at hm
      rw [Arena.kids_of_find? hlist]
      simp only [Payload.children, List.mem_append, List.mem_cons] at hm ⊢
      tauto
    obtain ⟨y, hy⟩ := hsigns m hm
    refine ⟨y, hy.keepsPart h.sound.founded hcalm.synced.sound.founded (.of_agreesBut hagrees ?_)⟩
    rintro _ hr rfl
    exact h.sound.not_reaches hm hr

/-- The attribute that is written is in double quotes, and the others are left alone. -/
theorem signs_of_pens (h : p.Synced) (hx : p.attributeList? x = some l) (he : p.find? x = some e)
    (hm : p.Mirrored whole) (hk : e.kind.tag? ≠ none) (hkey : key.toLower = key)
    (hn : checkXmlName key = .ok ())
    {b : Arena} (hb : b.Founded)
    (hp : p.arena.Pens l ((Attribute.find? e.attributes key).bind Attribute.node) key value n b)
    (hw : p.arena.Wrote l ((Attribute.find? e.attributes key).bind Attribute.node) key value n b)
    (hs : ∀ m ∈ p.arena.kids l, ∃ y, p.arena.Signs m y) : ∀ m ∈ b.kids l, ∃ y, b.Signs m y := by
  have hplace := Page.place_of_pens h hx he (hm x e he) hk hp
  have hmem : ∀ m ∈ b.kids l, m = n ∨ m ∈ p.arena.kids l ∧ m ≠ n := by
    intro m hm
    rw [or_iff_not_imp_left]
    refine fun hne => ⟨?_, hne⟩
    rw [hw.kids] at hm
    split at hm
    · rcases List.mem_append.1 hm with hm | hm
      · exact hm
      · exact absurd (List.mem_singleton.1 hm) hne
    · exact hm
  intro m hmb
  rcases hmem m hmb with rfl | ⟨hmem, hne⟩
  · obtain ⟨written, v, g, hfind, hencodes, hcase⟩ := hp.entry
    obtain ⟨written', ⟨hasValue, v', g', hfind', htext⟩, hcase'⟩ := hw.inscribes
    cases hfind.symm.trans hfind'
    rw [if_pos rfl] at htext
    have hname := Tag.isName_of_checkXmlName hn
    rcases hplace with ⟨a, ha, hnode, hmemb⟩ | ⟨ha, hfresh⟩
    · rw [ha, Option.bind_some, hnode] at hcase
      obtain ⟨-, hasValue, v', g', hold, rfl⟩ := hcase
      split at hfind
      · obtain ⟨y, hy⟩ := hs m hmemb
        exact hy.rewrite hold ‹_› hb hfind hencodes htext
      · -- the name in the tag is the one that is stored
        obtain ⟨k, tag, -, hform, -⟩ := Page.exists_of_attributeList? hx
        have hbacking : e.backing = some (.tag tag) :=
          (Prod.mk.inj (Option.some.inj ((Page.form?_of_find? he).symm.trans hform))).2
        obtain ⟨o, ho, _, _, _, ⟨_, _, _, hfind'', -⟩, hlower, -⟩ :=
          (hm x e he).written hk hbacking a (List.mem_of_find?_eq_some ha)
        obtain rfl := Option.some.inj (hnode.symm.trans ho)
        cases hold.symm.trans hfind''
        refine ⟨_, Arena.signs_quoted hb hfind hname ?_ hencodes htext⟩
        rw [hlower, Attribute.name_of_find? ha, hkey]
    · rw [ha, Option.bind_none] at hcase hcase'
      obtain ⟨-, rfl⟩ := hcase
      obtain rfl := hcase'
      exact ⟨_, Arena.signs_quoted hb hfind hname rfl hencodes htext⟩
  · obtain ⟨y, hy⟩ := hs m hmem
    refine ⟨y, hy.keepsPart h.sound.founded hb (.of_agreesBut hp.agrees fun z hz => ?_)⟩
    exact Page.not_reaches_of_pens h (hplace.imp (fun ⟨_, _, _, hn⟩ => hn) And.right) hmem hne hz

theorem keepsLegible_commit (hl : p.IsLegible) (h : p.Synced) (hm : p.Mirrored whole) (he : p.find? x = some e)
    (hp : Policy.find? e.kind name = some policy) (hkey : key.toLower = key) :
    Ends (commit x policy key value) p (fun _ q => q.IsLegible ∧
      (policy.synced = false → q = p.update x (store key value))) fun _ _ => True := by
  have update {q : Page} (hq : q.IsLegible) {f : Element → Element}
      (hf : ∀ e, (f e).kind = e.kind ∧ (f e).backing = e.backing) : (q.update x f).IsLegible :=
    hq.congr rfl (.of_form? (Page.form?_update hf))
  cases hs : policy.synced with
  | false =>
    refine (ends_commit_of_unsynced hs).mono ?_ fun _ _ _ => trivial
    rintro old q ⟨-, -, -, rfl⟩
    exact ⟨update hl fun _ => ⟨rfl, rfl⟩, fun _ => rfl⟩
  | true =>
    have hk := tag?_of_synced hp hs
    refine Ends.bind (ends_ask (fun stored _ => ?_) fun _ _ => trivial)
    rw [hs]
    refine Ends.bind (Ends.map ((ends_writeValue_run h he hk hkey).mono ?_ fun _ _ _ => trivial))
    rintro node r ⟨hname, q, d, hq, hd, hok⟩
    have hqs := hq.calm.synced
    have hqm := hq.calm.mirrored hm
    have hdk : d.kind = e.kind := hq.kind he hd
    obtain ⟨l, hlist⟩ := Option.ne_none_iff_exists'.1 hq.tagged
    have hnode (m : NodeId) (hm : (Attribute.find? d.attributes key).bind Attribute.node = some m) :
        m ∈ q.writtenOf x := Page.writtenOf_of_find? hd ▸ Attribute.mem_nodes_of_find? hm
    have hins := (ends_writeAttribute hqs hlist hnode).of_ok hok
    obtain ⟨b, hb, rfl⟩ := (pens_writeAttribute hqs hlist hnode).of_ok hok
    obtain ⟨c, hc, hwrote⟩ := hins.wrote
    obtain rfl := Option.some.inj (hlist.symm.trans hc)
    have hsound := hins.steady.synced.sound
    have hwritten : ({ q with arena := b } : Page).IsLegible := by
      refine (hq.isLegible hl h hm he hk).leads_of_attributes hqs hsound (.of_form? rfl) hlist
        (fun m v hnm hv => ?_) (signs_of_pens hqs hlist hd hqm (hdk ▸ hk) hkey hname hsound.founded hb hwrote)
      refine Page.agrees_of_pens hqs hlist hd (hqm x d hd) (hdk ▸ hk) hb m v ?_ hv
      rintro ⟨l', hl', hr⟩
      exact hnm (Option.some.inj (hlist.symm.trans hl') ▸ hr)
    exact Ends.bind (ends_update (fun _ _ => Ends.pure ⟨update hwritten fun _ => ⟨rfl, rfl⟩, nofun⟩)
      fun _ => trivial)

theorem keepsLegible_react (hl : p.IsLegible) (h : p.Synced) (he : p.find? x = some e) (hc : e.kind ≠ .category)
    (hp : Policy.find? e.kind name = some policy) (old : Option String) :
    KeepsLegible (react x old value policy.reaction) p := by
  cases hr : policy.reaction with
  | none => exact Ends.pure hl
  | some r =>
    obtain ⟨-, ⟨rfl, hk⟩ | ⟨rfl, hk⟩⟩ := kind_of_reaction hp hr
    · rw [react]
      split
      · exact Ends.pure hl
      · have hf : p.form? x = some (.link, e.backing) := by rw [Page.form?_of_find? he, hk]
        refine (ends_retarget h hf).mono ?_ fun _ _ _ => trivial
        rintro - q ⟨link, hb, hq, -⟩
        exact hq.isLegible hl h (h.offTags_of_markup (hb ▸ hf))
    · exact absurd hk hc

theorem keepsLegible_setAttribute (hl : p.IsLegible) (h : p.Recorded) (hm : p.Mirrored whole) :
    KeepsLegible (setAttribute x name value) p := by
  by_cases hc : p.IsCategory x
  · exact ends_setAttribute_name hc (fun _ _ _ => trivial) fun new _ _ => keepsLegible_renameLinks hl h hc
  refine Ends.bind (ends_ask (fun policy hpolicy => ?_) fun _ _ => trivial)
  obtain ⟨e, he, hpolicy⟩ := exists_of_policy hpolicy
  have hk : e.kind ≠ .category := fun hk => hc ⟨e.backing, by rw [Page.form?_of_find? he, hk]⟩
  refine Ends.bind (ends_ask (fun verified _ => ?_) fun _ _ => trivial)
  cases verified with
  | none => exact keepsLegible_removeAttribute hl h.toSynced name
  | some verified =>
    refine (keepsLegible_commit hl h.toSynced hm he hpolicy (toLower_toLower name)).step ?_ fun _ _ _ => trivial
    rintro old q ⟨hq, hstored⟩
    refine Ends.bind (Ends.mono (Q := fun _ r => r.IsLegible) ?_ (fun _ _ hr => Ends.pure hr) fun _ _ h => h)
    cases hr : policy.reaction with
    | none => exact Ends.pure hq
    | some r =>
      -- what reacts is not written
      obtain rfl := hstored (kind_of_reaction hpolicy hr).1
      have hfind := Page.find?_update p x x (store name.toLower (policy.normalization.apply verified))
      rw [if_pos rfl, he, Option.map_some] at hfind
      rw [← hr]
      exact keepsLegible_react hq (synced_store h.toSynced (toLower_toLower name)) hfind hk hpolicy old

theorem keepsLegible_made {m : Edit ElementId} {b : Arena} {payload : Payload} {kind : Kind}
    {E : PageError → Page → Prop} (hl : p.IsLegible) (h : p.Synced) (hmake : Makes kind m p p)
    (hb : p.arena.Extends b)
    (hm : Ends m p (fun _ q => ∃ e n, q = p.pushMade b payload e ∧ e.backing = some (.markup n)) E) :
    KeepsLegible m p := by
  refine (hm.and hmake).mono ?_ fun _ _ _ => trivial
  rintro id q ⟨⟨e, n, rfl, he⟩, hcalm, -⟩
  refine hl.pushMade h hcalm.synced.sound hb fun m hm => ?_
  cases he.symm.trans hm

theorem keepsLegible_createContaining {payload : NodeId → Payload} {kind : Kind} (hl : p.IsLegible)
    (h : p.Synced)
    (hm : Makes kind (createContaining kind payload) p p) (hs : ∀ n, (payload n).slots = [(n, .content)])
    (hg : ∃ g, (payload p.arena.next).madeGlue false = some g) :
    KeepsLegible (createContaining kind payload) p :=
  keepsLegible_made hl h hm (.push _ _)
    ((ends_createContaining_made hs hg).mono (fun _ _ hq => ⟨_, _, hq.2, rfl⟩)
    fun _ _ h => h)

theorem keepsLegible_createMarkup {payload : Payload} {kind : Kind} {g : Glue} (hl : p.IsLegible) (h : p.Synced)
    (hm : Makes kind (createMarkup kind payload) p p) (hs : payload.slots = [])
    (hg : payload.madeGlue false = some g) : KeepsLegible (createMarkup kind payload) p :=
  keepsLegible_made hl h hm (.refl _) ((ends_createMarkup_made (b := p.arena) (by simp [hs]) hg).mono
    (fun _ _ hq => ⟨_, _, hq.2, rfl⟩) fun _ _ h => h)

theorem keepsLegible_createText (hl : p.IsLegible) (h : p.Synced) (s : String) :
    KeepsLegible (createText s) p :=
  keepsLegible_made hl h (makes_createText h) (.refl _) ((ends_createText_made s).mono
    (fun _ _ hq => ⟨_, _, hq.2, rfl⟩) fun _ _ h => h)

theorem keepsLegible_createComment (hl : p.IsLegible) (h : p.Synced) (s : String) :
    KeepsLegible (createComment s) p :=
  Ends.bind (ends_ask (fun _ _ => keepsLegible_createMarkup hl h
    (makes_markup h (.leaf h rfl rfl (by decide) (by decide)) rfl (by decide)) rfl rfl) fun _ _ => trivial)

theorem keepsLegible_createLink (hl : p.IsLegible) (h : p.Synced) (s : String) :
    KeepsLegible (createLink s) p := by
  refine ((ends_createLink_made s).and (makes_createLink h)).mono ?_ fun _ _ _ => trivial
  rintro id q ⟨⟨-, t, e, -, rfl, -, -, he⟩, hcalm, -⟩
  refine hl.pushMade h hcalm.synced.sound (.push _ _) fun m hm => ?_
  cases he.symm.trans hm

theorem keepsLegible_createDiv (hl : p.IsLegible) (h : p.Synced) : KeepsLegible createDiv p := by
  refine (ends_createDiv_made.and (makes_createDiv h)).mono ?_ fun _ _ _ => trivial
  rintro id q ⟨⟨-, rfl⟩, hcalm, -⟩
  refine hl.pushMade h hcalm.synced.sound ((Arena.Extends.push _ _).trans (.push _ _)) fun n hn => ?_
  obtain rfl := Backing.tag.inj (Option.some.inj hn)
  have hlist := (find?_lists_of_div (p := p) _ List.mem_cons_self).2
  refine Arena.isLegible_of_made (Arena.find?_push_next _ _) (isName_of_tag? (rfl : Kind.div.tag? = _)) ?_
  exact Arena.kids_of_find? ((Arena.Extends.push _ _).find?_of_find? hlist)

theorem keepsLegible_promote (hl : p.IsLegible) (h : p.Synced) (hm : p.Mirrored whole) :
    KeepsLegible (promote x) p := by
  cases he : p.find? x with
  | none =>
    refine Ends.bind (ends_ask (fun e he' => ?_) fun _ _ => trivial)
    cases he.symm.trans (Page.get_eq_ok_iff.1 he')
  | some e =>
    by_cases hk : e.kind.tag? = none
    · exact (ends_promote_of_untagged h he hk).mono (fun _ q hq => hq ▸ hl) fun _ _ _ => trivial
    · exact (ends_promote h).mono (fun _ q hq => hq.isLegible hl h hm he hk) fun _ _ _ => trivial

end Edit

namespace Act

open Edit
open Page (Mirrored)

variable {p : Page} {act : Act} {whole : Prop}

/-- A checked act leaves the tags of all elements legible. -/
theorem keepsLegible_edit [Entities] (hl : p.IsLegible) (h : p.Recorded) (hm : p.Mirrored whole)
    (hc : act.isChecked = true) :
    KeepsLegible act.edit p := by
  have hp := h.toSynced
  have quiet {α : Type} {m : Edit α} (hm : KeepsLegible m p) : KeepsLegible (do let _ ← m) p :=
    hm.step (fun _ _ hq => Ends.pure hq) fun _ _ h => h
  have stored {id : ElementId} (name : String) (value : Option String) :
      KeepsLegible (setOrRemove id name value) p := by
    cases value with
    | none => exact quiet (keepsLegible_removeAttribute hl hp name)
    | some value => exact quiet (keepsLegible_setAttribute hl h hm)
  have checked {m : Edit Unit} {kinds : List Kind} {id : ElementId} (hm : KeepsLegible m p) :
      KeepsLegible (do ask (·.requireKind id kinds); m) p :=
    Ends.bind (ends_ask (fun _ _ => hm) fun _ _ => trivial)
  cases act with
  | createParagraph =>
    exact quiet (keepsLegible_createContaining hl hp (makes_createParagraph hp) (fun _ => rfl) ⟨_, rfl⟩)
  | createBold =>
    exact quiet (keepsLegible_createContaining hl hp (makes_createBold hp) (fun _ => rfl) ⟨_, rfl⟩)
  | createItalics =>
    exact quiet (keepsLegible_createContaining hl hp (makes_createItalics hp) (fun _ => rfl) ⟨_, rfl⟩)
  | createRule => exact quiet (keepsLegible_createMarkup hl hp (makes_createRule hp) rfl rfl)
  | createDiv => exact quiet (keepsLegible_createDiv hl hp)
  | createLink target => exact quiet (keepsLegible_createLink hl hp target)
  | createText s => exact quiet (keepsLegible_createText hl hp s)
  | createComment s => exact quiet (keepsLegible_createComment hl hp s)
  | insertChild parent child position =>
    refine (ends_insertChild_exchange hp).mono (fun _ q' hq' => ?_) fun _ _ _ => trivial
    obtain ⟨c, k, s, t, q, -, hq, -, hr⟩ := hq'
    exact hq.isLegible hl hp hr
  | removeChild parent child =>
    refine ends_removeChild_exchange hp (fun c k s t q q' hk hq hr => ?_) fun _ _ _ => trivial
    have hcut := hq.cut_refreshed hp hk (hr.refreshed (hq.synced hp))
    exact keepsLegible_keepCategories (hq.isLegible hl hp hr)
      (hcut.toSameRecords.leads h hcut.synced hcut.mirrored).recorded hcut.known
  | replaceChild parent new old =>
    refine ends_replaceChild_exchange hp (fun c k _ s t q q' hk _ hq hr => ?_) fun _ _ _ => trivial
    have hcut := hq.cut_refreshed hp hk (hr.refreshed (hq.synced hp))
    exact keepsLegible_keepCategories (hq.isLegible hl hp hr)
      (hcut.toSameRecords.leads h hcut.synced hcut.mirrored).recorded hcut.known
  | setText id s => exact keepsLegible_setText hl hp s
  | setComment id s => exact keepsLegible_setComment hl hp s
  | setAttribute id name value => exact quiet (keepsLegible_setAttribute hl h hm)
  | removeAttribute id name => exact quiet (keepsLegible_removeAttribute hl hp name)
  | assign id name value => cases hc
  | promote id => exact keepsLegible_promote hl hp hm
  | addCategory name => exact quiet (keepsLegible_addCategory hl h)
  | renameCategory old new =>
    refine ends_needCategory.step ?_ fun _ _ _ => trivial
    rintro id q ⟨-, rfl⟩
    exact quiet (keepsLegible_setAttribute hl h hm)
  | removeCategory name => exact quiet (keepsLegible_removeCategory hl h)
  | setTitle title => exact stored "title" (some title)
  | setNamespace name => exact stored _ _
  | setPath path => exact stored _ _
  | setAlignment id alignment => exact stored _ _
  | setNoShade id on => exact checked (stored _ _)
  | setThickness id pixels => exact checked (stored _ _)
  | setWidth id width => exact checked (stored _ _)
  | setLinkTarget id target => exact checked (stored _ _)
  | setCategoryName id name => exact checked (stored _ _)
  | setUniversal id name value => exact stored name value

end Act

namespace Page

variable {site : Site} {p : Page} {text title : String}

theorem Begins.isLegible [Entities] (h : p.Begins site) (hp : p.Synced) : p.IsLegible := by
  intro x kind n hx
  obtain ⟨⟨payload, g⟩, hn, ht⟩ := hp.writes hx
  obtain ⟨name, empty, l, body, rfl⟩ : ∃ name empty l body, payload = .element name empty l body := by
    cases payload <;> first | exact ⟨_, _, _, _, rfl⟩ | cases ht
  rcases h.arena with ha | ⟨text, ha⟩
  · rw [ha] at hn
    obtain ⟨i⟩ := n
    match i with
    | 0 => cases hn
    | 1 => cases hn
    | i + 2 => simp [Arena.find?_eq_none_iff.2 (show Arena.new.size ≤ i + 2 by simp [Arena.size_new])] at hn
  · rw [ha] at hn ⊢
    exact Arena.isLegible_read hn

theorem Reached.isLegible [Entities] (h : p.Reached site) : p.IsLegible := by
  induction h with
  | new h => exact Begins.isLegible (.new h) (Reached.new h).orderly.recorded.toSynced
  | read h => exact Begins.isLegible (.read h) (Reached.read h).orderly.recorded.toSynced
  | act h act hc ih =>
    obtain ⟨whole, hm⟩ := h.exists_mirrored
    exact Act.after_of_ok (P := IsLegible) h.orderly.recorded hc ih
      (Act.keepsLegible_edit ih h.orderly.recorded hm hc)

/-- The tag of an element is printed so that the tag is scanned again. -/
def ScansTags [Entities] (p : Page) : Prop :=
  ∀ x kind n, p.form? x = some (kind, some (.tag n)) → ∃ text tag k, p.arena.print n = .ok text ∧
    StartTag.scanAt? text 0 = some (tag, k) ∧ p.arena.ShowsTag n tag

/-- Whatever is done to a page, the text of an element with a tag begins with the name and the attributes that
the element has. They are scanned again, unless the last value has no quotes and runs into the end of the
tag: then nothing is. -/
theorem scanAt?_run [Entities] {acts : List Act}
    (h : new site title = .ok p ∨ ∃ text preserve, read text site title preserve = .ok p)
    (hc : acts.all Act.isChecked = true) {x : ElementId} {kind : Kind} {n : NodeId}
    (hx : (Act.run acts p).form? x = some (kind, some (.tag n))) :
    ∃ text tag rest, (Act.run acts p).arena.print n = .ok text ∧ (Act.run acts p).arena.ShowsTag n tag ∧
      text.toList = tag.source ++ rest ∧
      StartTag.scanAt? text 0 = if tag.attributes.getLast?.any (·.runsInto tag.ending) then none
        else some (tag, Text.byteSize tag.source) := by
  have hreached : (Act.run acts p).Reached site := by
    refine Reached.run ?_ hc
    rcases h with h | ⟨text, preserve, h⟩
    · exact .new h
    · exact .read h
  have hs := hreached.orderly.recorded.toSynced
  obtain ⟨source, hw⟩ := hreached.exists_worded
  obtain ⟨text, hprint⟩ := hs.sound.founded.exists_print hw (hs.backing_lt (backing?_of_form? hx))
  obtain ⟨tag, rest, hshows, htext, hscan⟩ := (hreached.isLegible x kind n hx).scanAt?_print hs.sound hprint
  exact ⟨text, tag, rest, hprint, hshows, htext, hscan⟩

/-- A rule with a value without quotes before one in quotes. -/
def ruledTwice : Page :=
  ofText "<hr a=b c=\"d\"/>"

theorem scanAt?_run_ruledTwice : ∃ n tag, (Act.run [.setAttribute ⟨2⟩ "c" "e"] ruledTwice).arena.print n =
      .ok "<hr a=b c=\"e\"/>" ∧
    (Act.run [.setAttribute ⟨2⟩ "c" "e"] ruledTwice).arena.ShowsTag n tag ∧
    StartTag.scanAt? "<hr a=b c=\"e\"/>" 0 = some (tag, 15) := by
  have hread : read "<hr a=b c=\"d\"/>" .default "Test" false = .ok ruledTwice :=
    read_ofText (by decide +kernel)
  obtain ⟨hform, hprint, hscan⟩ :
      (Act.run [.setAttribute ⟨2⟩ "c" "e"] ruledTwice).form? ⟨2⟩ = some (.rule, some (.tag ⟨10⟩)) ∧
        (Act.run [.setAttribute ⟨2⟩ "c" "e"] ruledTwice).arena.print ⟨10⟩ = .ok "<hr a=b c=\"e\"/>" ∧
        (StartTag.scanAt? "<hr a=b c=\"e\"/>" 0).map Prod.snd = some 15 := by
    decide +kernel
  obtain ⟨text, tag, rest, htext, hshows, -, hrun⟩ := scanAt?_run (.inr ⟨_, _, hread⟩) rfl hform
  obtain rfl := Except.ok.inj (htext.symm.trans hprint)
  refine ⟨_, tag, hprint, hshows, ?_⟩
  rw [hrun] at hscan ⊢
  split at hscan
  · cases hscan
  · rw [if_neg ‹_›]
    exact congrArg (fun k => some (tag, k)) (Option.some.inj hscan)

/-- Without the value in quotes, the other one takes the slash. -/
theorem not_scansTags_ruledTwice : read "<hr a=b c=\"d\"/>" .default "Test" false = .ok ruledTwice ∧
    ¬(Act.run [.removeAttribute ⟨2⟩ "c"] ruledTwice).ScansTags := by
  refine ⟨read_ofText (by decide +kernel), fun h => ?_⟩
  obtain ⟨hform, hprint, hscan⟩ :
      (Act.run [.removeAttribute ⟨2⟩ "c"] ruledTwice).form? ⟨2⟩ = some (.rule, some (.tag ⟨10⟩)) ∧
        (Act.run [.removeAttribute ⟨2⟩ "c"] ruledTwice).arena.print ⟨10⟩ = .ok "<hr a=b/>" ∧
        StartTag.scanAt? "<hr a=b/>" 0 = none := by
    decide +kernel
  obtain ⟨text, tag, k, htext, hsome, -⟩ := h _ _ _ hform
  obtain rfl := Except.ok.inj (htext.symm.trans hprint)
  cases hscan.symm.trans hsome

end Page
end WikiPage
