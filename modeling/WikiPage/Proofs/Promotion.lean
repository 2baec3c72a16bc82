import WikiPage.Page.Assign
import WikiPage.Proofs.Attributes
import WikiPage.Proofs.Spelling

/-!
# Promotion

An element that is written in markup of its own becomes a tag around its old content, in its old place.
This leaves the elements in step with the nodes and moves the links in the content along.
-/

namespace WikiPage

open Page (Synced)

namespace Arena

/-- A new element around items that no node referred to. -/
structure Wraps (a : Arena) (items : List NodeId) (b : Arena) (name : String) (empty : Bool)
    (tag attributes body : NodeId) : Prop where
  sound : b.Sound
  keepsTags : a.KeepsTags b
  find?_tag : b.find? tag =
    some ⟨.element name empty attributes body, some (Glue.element name empty)⟩
  find?_old : ∀ x : NodeId, x.index < a.size → b.find? x = a.find? x
  fresh : a.size ≤ tag.index ∧ a.size ≤ attributes.index ∧ a.size ≤ body.index
  ne : tag ≠ body
  loose : b.Loose tag
  kids : ∀ x, b.kids x =
    if x = tag then [attributes, body] else if x = body then items else a.kids x

/-- The attribute list and the body that a tag is made of, before the tag itself. -/
structure Parts (a : Arena) (items : List NodeId) (b : Arena) (attributes body : NodeId) : Prop where
  sound : b.Sound
  exts : a.Extends b
  holds_attributes : b.ListOf .attributes attributes
  holds_content : b.ListOf .content body
  fresh : a.size ≤ attributes.index
  attributes_lt : attributes.index < body.index
  body_lt : body.index < b.size
  kids : ∀ x, b.kids x = if x = body then items else a.kids x

section

variable {a b c : Arena} {items : List NodeId} {attributes body : NodeId} {name : String} {empty : Bool}

theorem parts_push (h : a.Sound) (hn : items.Nodup) (hb : ∀ x ∈ items, x.index < a.size)
    (hl : ∀ x ∈ items, a.Loose x) (hi : ∀ x ∈ items, a.Is Role.content.admits x) :
    a.Parts items ((a.push ⟨.list [], none⟩).push ⟨.list items, none⟩) a.next
      (a.push ⟨.list [], none⟩).next := by
  have h₁ : (a.push ⟨.list [], none⟩).Sound :=
    h.push ⟨by simp [Payload.slots], Node.glueFits_none⟩ .nil (by simp [Payload.children])
      (by simp [Payload.children])
  have hk₁ := kids_push_leaf a (n := ⟨.list [], none⟩) rfl
  have hext₁ : a.Extends (a.push ⟨.list [], none⟩) := .push a _
  exact {
    sound := h₁.push ⟨by simp [Payload.slots], Node.glueFits_none⟩ hn
      (fun y hy => Nat.lt_of_lt_of_le (hb y hy) hext₁.size_le)
      (fun y hy x hx => hl y hy x (hk₁ ▸ hx))
    exts := hext₁.trans (.push _ _)
    holds_attributes := ListOf.extends (.push_next (by simp)) (.push _ _)
    holds_content := .push_next fun x hx => (hi x hx).extends hext₁
    fresh := Nat.le_refl _
    attributes_lt := next_index_lt a _
    body_lt := next_index_lt _ _
    kids := fun x => by
      rw [kids_push, hk₁]
      rfl }

namespace Parts

theorem body_fresh (hp : a.Parts items b attributes body) : a.size ≤ body.index :=
  Nat.le_trans hp.fresh (Nat.le_of_lt hp.attributes_lt)

/-- New nodes stand nowhere, but for the items in the body. -/
theorem loose_of_fresh (hp : a.Parts items b attributes body) (h : a.Sound)
    (hb : ∀ x ∈ items, x.index < a.size) {y : NodeId} (hy : a.size ≤ y.index) : b.Loose y := by
  intro x hx
  rw [hp.kids] at hx
  split at hx
  · exact Nat.lt_irrefl _ (Nat.lt_of_lt_of_le (hb y hx) hy)
  · exact Nat.lt_irrefl _ (Nat.lt_of_lt_of_le (h.closed x y hx) hy)

theorem sound_element (hp : a.Parts items b attributes body) (h : a.Sound)
    (hb : ∀ x ∈ items, x.index < a.size) :
    (b.push ⟨.element name empty attributes body, none⟩).Sound := by
  have hne : attributes ≠ body := by
    rintro rfl
    exact Nat.lt_irrefl _ hp.attributes_lt
  refine hp.sound.push ⟨fun s hs => ?_, Node.glueFits_none⟩ ?_ (fun y hy => ?_) fun y hy => ?_
  · rcases List.mem_cons.1 hs with rfl | hs
    · exact hp.holds_attributes
    · obtain rfl := List.mem_singleton.1 hs
      exact hp.holds_content
  · simpa [Payload.children] using hne
  all_goals rcases List.mem_cons.1 hy with rfl | hy
  · exact Nat.lt_trans hp.attributes_lt hp.body_lt
  · obtain rfl := List.mem_singleton.1 hy
    exact hp.body_lt
  · exact hp.loose_of_fresh h hb hp.fresh
  · obtain rfl := List.mem_singleton.1 hy
    exact hp.loose_of_fresh h hb hp.body_fresh

theorem wraps (hp : a.Parts items b attributes body) (h : a.Sound)
    (hb : ∀ x ∈ items, x.index < a.size)
    (hc : (b.push ⟨.element name empty attributes body, none⟩).Reglued c)
    (hg : c = (b.push ⟨.element name empty attributes body, none⟩).modify b.next
      fun n => { n with glue := some (Glue.element name empty) }) :
    a.Wraps items c name empty b.next attributes body := by
  have hext := hp.exts.trans (.push b ⟨.element name empty attributes body, none⟩)
  have hkids (x : NodeId) : c.kids x =
      if x = b.next then [attributes, body] else if x = body then items else a.kids x := by
    rw [hc.kids_eq, kids_push, hp.kids]
    rfl
  refine ⟨hc.sound (hp.sound_element h hb), (hext.keepsTags h).trans hc.keepsTags, ?_, fun x hx => ?_,
    ⟨hp.exts.size_le, hp.fresh, hp.body_fresh⟩, ?_, ?_, hkids⟩
  · rw [hg, find?_modify, if_pos rfl, find?_push_next]
    rfl
  · rw [hg, find?_modify, if_neg, hext.find?_eq x hx]
    rintro rfl
    exact Nat.lt_irrefl _ (Nat.lt_of_lt_of_le hx hp.exts.size_le)
  · rintro rfl
    exact Nat.lt_irrefl _ hp.body_lt
  · intro x hx
    rw [hc.kids_eq, kids_push] at hx
    split at hx
    · have hlt := Nat.lt_trans hp.attributes_lt hp.body_lt
      rcases List.mem_cons.1 hx with he | hx
      · exact Nat.lt_irrefl _ (he ▸ hlt)
      · exact Nat.lt_irrefl _ (List.mem_singleton.1 hx ▸ hp.body_lt)
    · exact hp.loose_of_fresh h hb hp.exts.size_le x hx

end Parts
end
end Arena

namespace Surgery

variable {a : Arena}

theorem ends_makeElement {items : List NodeId} {name : String} {empty : Bool} (h : a.Sound)
    (hn : items.Nodup) (hb : ∀ x ∈ items, x.index < a.size) (hl : ∀ x ∈ items, a.Loose x)
    (hi : ∀ x ∈ items, a.Is Role.content.admits x) :
    Ends (do
        let attributes ← make (.list [])
        let body ← make (.list items)
        let element ← make (.element name empty attributes body)
        setGlue element (Glue.element name empty)
        pure element) a
      (fun tag b => ∃ attributes body, a.Wraps items b name empty tag attributes body)
      fun _ _ => False := by
  have hp := Arena.parts_push h hn hb hl hi
  have hsize : (Glue.element name empty).size = 3 := by cases empty <;> rfl
  refine Ends.bind (ends_make (Ends.bind (ends_make (Ends.bind (ends_make ?_)))))
  refine ((ends_setGlue_of_fits (Arena.find?_push_next _ _) rfl hsize).and
    (ends_setGlue_eq (Arena.find?_push_next _ _) rfl hsize)).step
    (fun _ c hc => Ends.pure ⟨_, _, hp.wraps h hb hc.1 hc.2⟩) fun _ _ hf => hf.1

end Surgery

namespace Arena

/-- An arena without what a list holds, if there is one. -/
def emptied (a : Arena) : Option NodeId → Arena
  | some c => a.setItems c []
  | none => a

variable {a : Arena} {native content : NodeId} {m : Node}

theorem Sound.setItems_nil (h : a.Sound) {c : NodeId} {old : List NodeId}
    (hc : a.find? c = some ⟨.list old, none⟩) : (a.setItems c []).Sound :=
  h.setItems hc .nil (by simp) (by simp) (by simp) (by simp)

theorem kids_emptied (h : a.Sound) (hm : a.find? native = some m) (x : NodeId) :
    (a.emptied (Page.contentOf? m.payload)).kids x =
      if some x = Page.contentOf? m.payload then [] else a.kids x := by
  cases hc : Page.contentOf? m.payload with
  | none => simp [emptied]
  | some c =>
    obtain ⟨old, hi⟩ := h.find?_slot hm (Page.mem_slots_of_contentOf? hc)
    rw [emptied, kids_setItems (index_lt_of_find? hi)]
    simp

theorem keepsTags_emptied (h : a.Sound) (hm : a.find? native = some m) :
    a.KeepsTags (a.emptied (Page.contentOf? m.payload)) := by
  cases hc : Page.contentOf? m.payload with
  | none => exact .refl a
  | some c =>
    have hs := Page.mem_slots_of_contentOf? hc
    obtain ⟨old, hi⟩ := h.find?_slot hm hs
    exact keepsTags_setItems hi (h.not_inTag_of_list hi fun hn hr => (h.role_unique hn hm hr hs).2)

theorem target?_emptied (h : a.Sound) (hm : a.find? native = some m) (x : NodeId) :
    (a.emptied (Page.contentOf? m.payload)).target? x = a.target? x := by
  cases hc : Page.contentOf? m.payload with
  | none => rfl
  | some c =>
    obtain ⟨old, hi⟩ := h.find?_slot hm (Page.mem_slots_of_contentOf? hc)
    exact target?_setItems hi x

theorem size_emptied (a : Arena) (o : Option NodeId) : (a.emptied o).size = a.size := by
  cases o with
  | none => rfl
  | some c => exact size_modify a c _

end Arena

namespace Surgery

variable {a : Arena}

theorem contentOf?_of_nativeContent {tag : String} {p : Payload} {content : Option NodeId}
    (h : nativeContent tag p = .ok content) : Page.contentOf? p = content := by
  cases p <;> first | exact Except.ok.inj h | cases h

theorem exists_nativeContent {kind : Kind} {p : Payload} {tag : String} (hk : kind.marks p = true)
    (ht : kind.tag? ≠ none) : ∃ content, nativeContent tag p = .ok content := by
  cases kind <;> cases p <;> first | exact ⟨_, rfl⟩ | exact absurd rfl ht | cases hk

theorem ends_toElement {kind : Kind} {native : NodeId} (h : a.Sound)
    (hw : a.Writes kind (some (.markup native))) :
    Ends (toElement kind native) a
      (fun tag b => ∃ m attributes body, a.find? native = some m ∧ kind.tag?.isSome = true ∧
        (a.emptied (Page.contentOf? m.payload)).Wraps
          (((Page.contentOf? m.payload).map a.kids).getD []) b (kind.tag?.getD "")
          (Page.contentOf? m.payload).isNone tag attributes body)
      fun _ b => b = a ∧ kind.tag? = none := by
  unfold toElement
  split
  · exact Ends.throw ⟨rfl, ‹_›⟩
  · rename_i tag htag
    obtain ⟨m, hm, hmarks⟩ := hw
    refine Ends.bind (ends_look (fun payload hp => ?_) fun e he => ?_)
    swap
    · cases (Arena.payload_of_find? hm).symm.trans he
    obtain rfl := Except.ok.inj ((Arena.payload_of_find? hm).symm.trans hp)
    have hnative : ∃ content, nativeContent tag m.payload = .ok content :=
      exists_nativeContent hmarks (by simp [htag])
    obtain ⟨content', hcontent'⟩ := hnative
    refine Ends.bind (ends_ask (fun content hcontent => ?_) fun e he => ?_)
    swap
    · cases hcontent'.symm.trans he
    obtain ⟨g, hg⟩ := Arena.find?_of_payload hp
    have hc := contentOf?_of_nativeContent hcontent
    have htag' : kind.tag?.isSome = true := by rw [htag]; rfl
    cases content with
    | none =>
      refine Ends.bind (Ends.pure ?_)
      refine (ends_makeElement h .nil (by simp) (by simp) (by simp)).mono ?_ fun _ _ hf => hf.elim
      rintro t b ⟨attributes, body, hw⟩
      refine ⟨_, attributes, body, hg, htag', ?_⟩
      simpa [hc, htag, Arena.emptied] using hw
    | some c =>
      have hslot := Page.mem_slots_of_contentOf? hc
      obtain ⟨items, hi, his⟩ := (h.fits hg).lists _ hslot
      have hk : a.kids c = items := Arena.kids_of_find? hi
      have hempty := h.setItems_nil hi
      refine Ends.bind (ends_look (fun items' hi' => ?_) fun e he => ?_)
      swap
      · cases (Arena.items_of_find? hi).symm.trans he
      obtain rfl : items = items' := Except.ok.inj ((Arena.items_of_find? hi).symm.trans hi')
      refine Ends.bind (ends_setItems ?_)
      refine Ends.bind (Ends.pure ?_)
      have hkids (x : NodeId) : (a.setItems c []).kids x = if x = c then [] else a.kids x :=
        Arena.kids_setItems (Arena.index_lt_of_find? hi) [] x
      refine (ends_makeElement hempty (hk ▸ h.nodup c) (fun x hx => ?_) (fun x hx y hy => ?_)
        fun x hx => ?_).mono ?_ fun _ _ hf => hf.elim
      · have hs : (a.setItems c []).size = a.size := Arena.size_modify a c _
        rw [hs]
        exact h.closed c x (hk ▸ hx)
      · rw [hkids] at hy
        split at hy
        · cases hy
        · exact ‹y ≠ c› (h.single hy (hk ▸ hx))
      · obtain ⟨n, hn, ha⟩ := his x hx
        refine ⟨n, ?_, ha⟩
        rw [Arena.find?_setItems hi, if_neg]
        · exact hn
        · rintro rfl
          obtain rfl := Option.some.inj (hi.symm.trans hn)
          cases ha
      · rintro t b ⟨attributes, body, hw⟩
        refine ⟨_, attributes, body, hg, htag', ?_⟩
        simpa [hc, htag, Arena.emptied, hk] using hw

end Surgery

namespace Page

/-- The page with the links of one container recorded under another. -/
def moveLinks (p : Page) (source target : NodeId) : Page :=
  { p with elements := p.elements.map (Element.moveLinks source target) }

section

variable {p : Page} {source target : NodeId}

theorem find?_moveLinks (x : ElementId) :
    (p.moveLinks source target).find? x = (p.find? x).map (Element.moveLinks source target) := by
  simp [moveLinks, Page.find?]

theorem form?_moveLinks : (p.moveLinks source target).form? = p.form? := by
  funext x
  rw [form?, form?, find?_moveLinks]
  cases p.find? x <;> rfl

theorem childrenOf_moveLinks : (p.moveLinks source target).childrenOf = p.childrenOf := by
  funext x
  rw [childrenOf, childrenOf, Tree.kids, Tree.kids, find?_moveLinks]
  cases p.find? x <;> rfl

theorem nameOf?_moveLinks : (p.moveLinks source target).nameOf? = p.nameOf? := by
  funext x
  rw [nameOf?, nameOf?, find?_moveLinks]
  cases p.find? x <;> rfl

theorem linksOf_moveLinks (x : ElementId) : (p.moveLinks source target).linksOf x =
    (p.linksOf x).map fun l => if l.container = source then { l with container := target } else l := by
  rw [linksOf, linksOf, find?_moveLinks]
  cases p.find? x <;> rfl

theorem links_moveLinks (x : ElementId) :
    ((p.moveLinks source target).linksOf x).map PlacedLink.link =
      (p.linksOf x).map PlacedLink.link := by
  rw [linksOf_moveLinks, List.map_map]
  refine List.map_congr_left fun l _ => ?_
  simp only [Function.comp]
  split <;> rfl

theorem Synced.moveLinks (h : p.Synced) : (p.moveLinks source target).Synced := by
  refine h.of_sameShape ⟨rfl, form?_moveLinks, childrenOf_moveLinks, ?_, fun x => .inl ?_,
    fun n hn => .inl ?_, fun _ _ hk => .inl hk⟩
  · funext x
    rw [parentOf, parentOf, find?_moveLinks]
    cases p.find? x <;> rfl
  · rw [writtenOf, writtenOf, find?_moveLinks]
    cases p.find? x <;> rfl
  · simp only [linked_iff, links_moveLinks] at hn ⊢
    exact hn

end

/-- An element, its node, and the nodes of its tag. -/
structure Promoted where
  id : ElementId
  element : Element
  node : NodeId
  found : Node
  tag : NodeId
  attributes : NodeId
  body : NodeId

namespace Promoted

/-- What the element had its content in. -/
def content? (t : Promoted) : Option NodeId :=
  contentOf? t.found.payload

/-- What stands below each node when the tag has taken the place of the node. -/
def kids (t : Promoted) (p : Page) (y : NodeId) : List NodeId :=
  if y = t.tag then [t.attributes, t.body] else
  if y = t.body then (t.content?.map p.arena.kids).getD [] else
  if some y = t.content? then [] else
  (p.arena.kids y).map fun n => if n = t.node then t.tag else n

/-- The element backed by its tag. -/
def tagged (t : Promoted) (p : Page) (b : Arena) : Page :=
  update { p with arena := b } t.id fun e => { e with backing := some (.tag t.tag) }

/-- The same with the links in the content recorded under the tag. -/
def settled (t : Promoted) (p : Page) (b : Arena) : Page :=
  match t.content? with
  | some content => (t.tagged p b).moveLinks content t.body
  | none => t.tagged p b

end Promoted

theorem Promoted.arena_settled (t : Promoted) (p : Page) (b : Arena) : (t.settled p b).arena = b := by
  unfold Promoted.settled
  split <;> rfl

/-- The content of an element has been wrapped in a tag, which has yet to take the place of its
node. -/
structure Wrapped (p : Page) (t : Promoted) (b : Arena) : Prop where
  find?_element : p.find? t.id = some t.element
  backing : t.element.backing = some (.markup t.node)
  tag? : t.element.kind.tag?.isSome = true
  find?_node : p.arena.find? t.node = some t.found
  wraps : (p.arena.emptied t.content?).Wraps ((t.content?.map p.arena.kids).getD []) b
    (t.element.kind.tag?.getD "") t.content?.isNone t.tag t.attributes t.body

namespace Wrapped

variable {p : Page} {t : Promoted} {b b' : Arena}

theorem form? (hw : Wrapped p t b) : p.form? t.id = some (t.element.kind, some (.markup t.node)) := by
  rw [Page.form?_of_find? hw.find?_element, hw.backing]

theorem backing? (hw : Wrapped p t b) : p.backing? t.id = some t.node :=
  backing?_of_form? hw.form?

theorem kind_ne_body (hw : Wrapped p t b) : t.element.kind ≠ .body := by
  intro he
  have ht := hw.tag?
  rw [he] at ht
  cases ht

theorem kind_ne_page (hw : Wrapped p t b) : t.element.kind ≠ .page := by
  intro he
  have ht := hw.tag?
  rw [he] at ht
  cases ht

theorem container? (hw : Wrapped p t b) : p.container? t.id = t.content? := by
  rw [container?_of_form? hw.form?]
  simp [Arena.container?, hw.kind_ne_body, hw.find?_node, Promoted.content?]

/-- Markup with a tag has nothing but its content below it. -/
theorem kids_node (h : p.Synced) (hw : Wrapped p t b) :
    p.arena.kids t.node = t.content?.toList := by
  rw [Arena.kids_of_find? hw.find?_node]
  obtain ⟨m, hm, hk⟩ := h.writes hw.form?
  obtain rfl := Option.some.inj (hw.find?_node.symm.trans hm)
  have ht := hw.tag?
  cases hkind : t.element.kind <;> rw [hkind] at hk ht <;> cases ht <;>
    cases hp : t.found.payload <;> rw [hp] at hk <;> first | cases hk | skip
  all_goals simp [Promoted.content?, hp, contentOf?, Payload.children]

theorem fresh (hw : Wrapped p t b) : p.arena.size ≤ t.tag.index ∧
    p.arena.size ≤ t.attributes.index ∧ p.arena.size ≤ t.body.index := by
  have hf := hw.wraps.fresh
  rwa [Arena.size_emptied] at hf

theorem old (hw : Wrapped p t b) {y : NodeId} (hy : y.index < p.arena.size) :
    y ≠ t.tag ∧ y ≠ t.attributes ∧ y ≠ t.body := by
  refine ⟨?_, ?_, ?_⟩ <;> rintro rfl
  · exact Nat.lt_irrefl _ (Nat.lt_of_lt_of_le hy hw.fresh.1)
  · exact Nat.lt_irrefl _ (Nat.lt_of_lt_of_le hy hw.fresh.2.1)
  · exact Nat.lt_irrefl _ (Nat.lt_of_lt_of_le hy hw.fresh.2.2)

theorem kids_eq (h : p.Synced) (hw : Wrapped p t b) (y : NodeId) :
    b.kids y = if y = t.tag then [t.attributes, t.body] else
      if y = t.body then (t.content?.map p.arena.kids).getD [] else
      if some y = t.content? then [] else p.arena.kids y := by
  rw [hw.wraps.kids, Promoted.content?, Arena.kids_emptied h.sound hw.find?_node]

theorem keepsTags (h : p.Synced) (hw : Wrapped p t b) : p.arena.KeepsTags b :=
  (Arena.keepsTags_emptied h.sound hw.find?_node).trans hw.wraps.keepsTags

theorem evolves (h : p.Synced) (hw : Wrapped p t b) : p.arena.Evolves b :=
  (hw.keepsTags h).toEvolves

theorem target?_eq (h : p.Synced) (hw : Wrapped p t b) {n : NodeId} (hn : n.index < p.arena.size) :
    b.target? n = p.arena.target? n := by
  rw [Arena.target?, hw.wraps.find?_old n (by rwa [Arena.size_emptied]), Promoted.content?]
  exact Arena.target?_emptied h.sound hw.find?_node n

theorem reaches (h : p.Synced) (hw : Wrapped p t b) {y : NodeId} (hr : Reaches b.kids t.tag y) :
    y = t.tag ∨ y = t.attributes ∨ y = t.body ∨ Reaches p.arena.kids t.node y := by
  induction hr with
  | refl => exact .inl rfl
  | @tail y z _ hz ih =>
    rw [hw.kids_eq h] at hz
    split at hz
    · simp at hz
      tauto
    · split at hz
      · cases hc : t.content? with
        | none => simp [hc] at hz
        | some c =>
          have hn : c ∈ p.arena.kids t.node := by simp [hw.kids_node h, hc]
          simp only [hc, Option.map_some, Option.getD_some] at hz
          exact .inr (.inr (.inr (.tail (.single hn) hz)))
      · split at hz
        · cases hz
        · rcases ih with ht | rfl | hb | hr
          · contradiction
          · rw [Arena.kids_eq_nil hw.fresh.2.1] at hz
            cases hz
          · contradiction
          · exact .inr (.inr (.inr (hr.tail hz)))

theorem written_mem (h : p.Synced) (hw : Wrapped p t b) (hkids : b'.kids = t.kids p)
    {x : ElementId} {n c : NodeId} (hn : n ∈ p.writtenOf x) (hc : n ∈ p.arena.kids c) :
    n ∈ b'.kids c := by
  have hl := h.attributeList?_of_written hn hc
  obtain ⟨k, tag, m, -, hm, hs⟩ := exists_of_attributeList? hl
  obtain ⟨items, hi⟩ := h.sound.find?_slot hm hs
  obtain ⟨h₁, -, h₂⟩ := hw.old (Arena.index_lt_of_find? hi)
  rw [hkids, Promoted.kids, if_neg h₁, if_neg h₂, if_neg, List.mem_map]
  · refine ⟨n, hc, if_neg ?_⟩
    rintro rfl
    obtain ⟨name, hasValue, value, g, hf⟩ := h.find?_written hn
    obtain ⟨m, hm, hk⟩ := h.writes hw.form?
    obtain rfl := Option.some.inj (hf.symm.trans hm)
    cases hkind : t.element.kind <;> rw [hkind] at hk <;> cases hk
  · intro hcc
    exact h.container?_ne_attributeList hl t.id (hw.container?.trans hcc.symm)

theorem not_mem_kids (h : p.Synced) (hw : Wrapped p t b) (hb : p.backing? y = some n)
    (hl : p.arena.Loose n) (l : NodeId) : n ∉ t.kids p l := by
  have hno : ∀ l, n ∉ p.arena.kids l := hl
  obtain ⟨h₁, h₂, h₃⟩ := hw.old (h.backing_lt hb)
  intro hn
  rw [Promoted.kids] at hn
  split at hn
  · simp [h₂, h₃] at hn
  · split at hn
    · cases hc : t.content? with
      | none => simp [hc] at hn
      | some c => exact hno c (by simpa [hc] using hn)
    · split at hn
      · cases hn
      · obtain ⟨n', hn', he⟩ := List.mem_map.1 hn
        split at he
        · exact h₁ he.symm
        · exact hno _ (he ▸ hn')

theorem sublist_body (h : p.Synced) (hw : Wrapped p t b) :
    ((p.childrenOf t.id).filterMap p.backing?).Sublist (t.kids p t.body) := by
  rw [Promoted.kids, if_neg hw.wraps.ne.symm, if_pos rfl, ← hw.container?]
  cases hxc : p.container? t.id with
  | none =>
    have hxr : t.id ≠ root := fun hx => by
      have hr := h.root_form
      rw [← hx, hw.form?] at hr
      exact hw.kind_ne_page (Prod.mk.inj (Option.some.inj hr)).1
    simp [h.bare hxc hxr]
  | some c => exact h.kept hxc

theorem rehangs (h : p.Synced) (hw : Wrapped p t b) (hs : b'.Sound) (he : b.Evolves b')
    (hf : b'.find? t.tag = b.find? t.tag) (hkids : b'.kids = t.kids p)
    (hloose : p.parentOf t.id = none → b'.Loose t.tag) :
    p.Rehangs t.id t.node t.tag t.element.kind (some (.tag t.tag)) (t.tagged p b') := by
  have hf := hf.trans hw.wraps.find?_tag
  have hnew : b'.container? t.element.kind (some (.tag t.tag)) = some t.body := by
    simp [Arena.container?, hf, bodyOf?]
  exact {
    sound := hs
    evolves := (hw.evolves h).trans he
    backing := hw.backing?
    old := ⟨_, hw.form?⟩
    movable := ⟨hw.kind_ne_page, hw.kind_ne_body⟩
    form := fun y => form?_update_backing (p := { p with arena := b' }) hw.find?_element fun _ => ⟨rfl, rfl⟩
    children := childrenOf_update fun _ => rfl
    parents := parentOf_update fun _ => rfl
    written := writtenOf_update fun _ => rfl
    linked := fun _ => linked_of_update (p := { p with arena := b' }) (x := t.id)
      (f := fun e => { e with backing := some (.tag t.tag) }) fun _ _ hl => hl
    categories := rfl
    node := rfl
    fresh := ⟨fun hl => (hw.old (h.linked_lt hl)).1 rfl, h.backing_ne_of_fresh hw.fresh.1⟩
    writes := ⟨_, hf, by simp [Kind.tags, hw.tag?]⟩
    kids := fun {y c} hc hy => by
      obtain ⟨items, hi⟩ := h.find?_container hc
      obtain ⟨h₁, -, h₂⟩ := hw.old (Arena.index_lt_of_find? hi)
      change b'.kids c = _
      rw [hkids, Promoted.kids, if_neg h₁, if_neg h₂, if_neg]
      intro hcc
      exact hy (h.container_inj hc (hw.container?.trans hcc.symm))
    bare := fun hc => by cases hnew.symm.trans hc
    kept := fun c hc => by
      obtain rfl := Option.some.inj (hnew.symm.trans hc)
      change List.Sublist _ (b'.kids t.body)
      exact hkids ▸ hw.sublist_body h
    loose_new := hloose
    loose := fun {y n} hy hb hl hyx l hn => by
      change n ∈ b'.kids l at hn
      exact hw.not_mem_kids h hb hl l (hkids ▸ hn)
    markup := attributeList?_of_form? hw.form?
    attributes := fun hn hc => hw.written_mem h hkids hn hc }

theorem synced (h : p.Synced) (hw : Wrapped p t b) (hs : b'.Sound) (he : b.Evolves b')
    (hf : b'.find? t.tag = b.find? t.tag) (hkids : b'.kids = t.kids p)
    (hloose : p.parentOf t.id = none → b'.Loose t.tag) : (t.tagged p b').Synced :=
  h.rehang (hw.rehangs h hs he hf hkids hloose)

theorem form?_tagged (hw : Wrapped p t b) :
    (t.tagged p b').form? t.id = some (t.element.kind, some (.tag t.tag)) := by
  have hf := form?_update_backing (p := { p with arena := b' }) (x := t.id) (y := t.id)
    (f := fun e => { e with backing := some (.tag t.tag) }) (o := some (.tag t.tag)) hw.find?_element
    fun _ => ⟨rfl, rfl⟩
  rwa [if_pos rfl] at hf

theorem container?_tagged (hw : Wrapped p t b) (hkids : b'.kids = t.kids p)
    (hs : (t.tagged p b').Synced) : (t.tagged p b').container? t.id = some t.body := by
  obtain ⟨m, hm, hk⟩ := hs.writes hw.form?_tagged
  rw [container?_of_form? hw.form?_tagged]
  have hc : b'.kids t.tag = m.payload.children := Arena.kids_of_find? hm
  rw [hkids, Promoted.kids, if_pos rfl] at hc
  cases hp : m.payload with
  | element name empty attributes body =>
    simp only [hp, Payload.children, List.cons.injEq] at hc
    simp [Arena.container?, hm, hp, bodyOf?, hc]
  | _ => simp [hp, Kind.tags] at hk

/-- Where a node stands once the tag has taken the place of the node `t.node`. -/
def image (t : Promoted) (y : NodeId) : NodeId :=
  if y = t.node then t.tag else if some y = t.content? then t.body else y

theorem content_mem (h : p.Synced) (hw : Wrapped p t b) {c : NodeId} (hc : t.content? = some c) :
    c ∈ p.arena.kids t.node := by
  simp [hw.kids_node h, hc]

theorem content_ne (h : p.Synced) (hw : Wrapped p t b) : t.content? ≠ some t.node := fun hc =>
  h.sound.not_reaches (hw.content_mem h hc) .refl

theorem image_mem (h : p.Synced) (hw : Wrapped p t b) {x y : NodeId} (hy : y ∈ p.arena.kids x) :
    image t y ∈ t.kids p (image t x) := by
  have hx : x.index < p.arena.size := by
    by_contra hx
    rw [Arena.kids_eq_nil (Nat.le_of_not_lt hx)] at hy
    cases hy
  by_cases hxn : x = t.node
  · subst hxn
    rw [hw.kids_node h, Option.mem_toList] at hy
    have hne : y ≠ t.node := fun hyn => hw.content_ne h (hyn ▸ hy)
    simp [image, hy, hne, Promoted.kids]
  · by_cases hxc : t.content? = some x
    · have hne : y ≠ t.node := by
        rintro rfl
        exact h.sound.not_reaches hy (.single (hw.content_mem h hxc))
      have hnc : t.content? ≠ some y := by
        rintro hyc
        exact hxn (h.sound.single hy (hw.content_mem h hyc))
      have hyx : ¬(y = x) := fun hyx => hnc (hyx ▸ hxc)
      simp [image, hxc, hne, hxn, Promoted.kids, hw.wraps.ne.symm, hyx, hy]
    · obtain ⟨h₁, -, h₂⟩ := hw.old hx
      have hix : image t x = x := by simp [image, hxn, Ne.symm hxc]
      rw [hix, Promoted.kids, if_neg h₁, if_neg h₂, if_neg (Ne.symm hxc)]
      by_cases hyn : y = t.node
      · refine List.mem_map.2 ⟨y, hy, ?_⟩
        simp [image, hyn]
      · have hnc : some y ≠ t.content? := by
          rintro hyc
          exact hxn (h.sound.single hy (hw.content_mem h hyc.symm))
        refine List.mem_map.2 ⟨y, hy, ?_⟩
        simp [image, hyn, hnc]

theorem image_reaches (h : p.Synced) (hw : Wrapped p t b) (hkids : b'.kids = t.kids p)
    {x y : NodeId} (hr : Reaches p.arena.kids x y) : Reaches b'.kids (image t x) (image t y) := by
  induction hr with
  | refl => exact .refl
  | tail _ hy ih => exact ih.tail (hkids ▸ hw.image_mem h hy)

theorem image_linked (h : p.Synced) (hw : Wrapped p t b) {n : NodeId} (hn : p.Linked n) :
    image t n = n := by
  rw [image, if_neg, if_neg]
  · intro hc
    obtain ⟨old, hi⟩ := h.find?_container (hw.container?.trans hc.symm)
    obtain ⟨m, hm, hk⟩ := h.linked hn
    obtain rfl := Option.some.inj (hi.symm.trans hm)
    cases hk
  · rintro rfl
    exact h.unlinked hn _ hw.backing?

theorem image_backing (h : p.Synced) (hw : Wrapped p t b) {y : ElementId} {n : NodeId}
    (hn : p.backing? y = some n) (hy : y ≠ t.id) : image t n = n := by
  rw [image, if_neg, if_neg]
  · intro hc
    have hcont : p.container? t.id = some n := hw.container?.trans hc.symm
    obtain ⟨old, hi⟩ := h.find?_container hcont
    by_cases hb : y = body
    · subst hb
      obtain rfl := Option.some.inj (h.body_backing.symm.trans hn)
      exact hy (h.container_inj h.body_container hcont)
    · obtain ⟨m, hm, hl⟩ := h.find?_backing hn hb
      obtain rfl := Option.some.inj (hi.symm.trans hm)
      cases hl
  · rintro rfl
    exact hy (h.backing_inj hn hw.backing?)

theorem image_root (h : p.Synced) (hw : Wrapped p t b) : image t Arena.root = Arena.root := by
  rw [image, if_neg, if_neg]
  · intro hc
    exact h.root_loose _ (hw.content_mem h hc.symm)
  · intro hr
    have hid := h.backing_inj h.root_backing (hr ▸ hw.backing?)
    have hf := h.root_form
    rw [hid, hw.form?] at hf
    exact hw.kind_ne_page (Prod.mk.inj (Option.some.inj hf)).1

theorem reaches_of_reaches (h : p.Synced) (hw : Wrapped p t b) (hkids : b'.kids = t.kids p)
    {x y : NodeId} (hx : x.index < p.arena.size) (hr : Reaches b'.kids x y) :
    (y = t.tag → Reaches p.arena.kids x t.node) ∧
      (y = t.body → ∀ c, t.content? = some c → Reaches p.arena.kids x c) ∧
      (y.index < p.arena.size → Reaches p.arena.kids x y) := by
  induction hr with
  | refl => exact ⟨fun he => absurd he (hw.old hx).1, fun he => absurd he (hw.old hx).2.2, fun _ => .refl⟩
  | @tail y z _ hz ih =>
    obtain ⟨ih₁, ih₂, ih₃⟩ := ih
    have fromOld {w : NodeId} (hzw : z ∈ p.arena.kids w) (hr : Reaches p.arena.kids x w) :
        (z = t.tag → Reaches p.arena.kids x t.node) ∧
          (z = t.body → ∀ c, t.content? = some c → Reaches p.arena.kids x c) ∧
          (z.index < p.arena.size → Reaches p.arena.kids x z) := by
      have hold := hw.old (h.sound.closed w z hzw)
      exact ⟨fun he => absurd he hold.1, fun he => absurd he hold.2.2, fun _ => hr.tail hzw⟩
    rw [hkids, Promoted.kids] at hz
    split at hz
    · have hr := ih₁ ‹_›
      have hzf : p.arena.size ≤ z.index := by
        rcases List.mem_pair.1 hz with rfl | rfl
        · exact hw.fresh.2.1
        · exact hw.fresh.2.2
      exact ⟨fun _ => hr, fun _ c hc => hr.tail (hw.content_mem h hc),
        fun hlt => absurd hlt (Nat.not_lt_of_le hzf)⟩
    · split at hz
      · cases hc : t.content? with
        | none => simp [hc] at hz
        | some c =>
          rw [hc] at hz
          have hf := fromOld hz (ih₂ ‹_› c hc)
          rwa [hc] at hf
      · split at hz
        · cases hz
        · obtain ⟨n, hn, hz⟩ := List.mem_map.1 hz
          have hy : y.index < p.arena.size := by
            by_contra hy
            rw [Arena.kids_eq_nil (Nat.le_of_not_lt hy)] at hn
            cases hn
          split at hz
          · subst n
            subst z
            exact ⟨fun _ => (ih₃ hy).tail hn, fun he => absurd he hw.wraps.ne,
              fun hlt => absurd hlt (Nat.not_lt_of_le hw.fresh.1)⟩
          · subst z
            exact fromOld hn (ih₃ hy)

theorem find?_tagged (hw : Wrapped p t b) (x : ElementId) : (t.tagged p b').find? x =
    if x = t.id then some { t.element with backing := some (.tag t.tag) } else p.find? x := by
  rw [Promoted.tagged, find?_update]
  split
  · subst x
    change Option.map _ (p.find? t.id) = _
    rw [hw.find?_element]
    rfl
  · rfl

theorem linksOf_tagged (hw : Wrapped p t b) (x : ElementId) :
    (t.tagged p b').linksOf x = p.linksOf x := by
  rw [linksOf, hw.find?_tagged]
  split
  · subst x
    simp [linksOf, hw.find?_element]
  · rfl

theorem nameOf?_tagged (hw : Wrapped p t b) : (t.tagged p b').nameOf? = p.nameOf? := by
  funext x
  rw [Page.nameOf?, hw.find?_tagged]
  split
  · subst x
    simp [Page.nameOf?, hw.find?_element]
  · rfl

theorem isCategory_tagged (hw : Wrapped p t b) (x : ElementId) :
    (t.tagged p b').IsCategory x ↔ p.IsCategory x := by
  rw [IsCategory, IsCategory, Page.form?, Page.form?, hw.find?_tagged]
  split
  · subst x
    simp [hw.find?_element, hw.backing]
  · rfl

theorem mem_kids_image (h : p.Synced) (hw : Wrapped p t b) (hkids : b'.kids = t.kids p)
    {l : PlacedLink} (hl : p.Linked l.link) (hk : l.link ∈ p.arena.kids l.container) :
    l.link ∈ b'.kids (image t l.container) := by
  have hi := hw.image_mem h hk
  rwa [hw.image_linked h hl, ← hkids] at hi

theorem container_ne_node (h : p.Synced) (hw : Wrapped p t b) {l : PlacedLink} (hl : p.Linked l.link)
    (hk : l.link ∈ p.arena.kids l.container) : l.container ≠ t.node := by
  intro hc
  rw [hc, hw.kids_node h, Option.mem_toList] at hk
  have hi := hw.image_linked h hl
  have hne : l.link ≠ t.node := fun he => hw.content_ne h (he ▸ hk)
  simp only [image, hne, if_false, hk, if_true] at hi
  exact (hw.old (h.linked_lt hl)).2.2 hi.symm

/-- What stands below the tag but for its lists stood below the old node. -/
theorem reaches_node_of_tag (h : p.Synced) (hw : Wrapped p t b) (hkids : b'.kids = t.kids p)
    {m : NodeId} (hm : m.index < p.arena.size) (hr : Reaches b'.kids t.tag m) :
    Reaches p.arena.kids t.node m := by
  obtain ⟨htag, hattr, hbody⟩ := hw.old hm
  have hempty (z : NodeId) : z ∉ b'.kids t.attributes := by
    intro hz
    have hz : z ∈ t.kids p t.attributes := hkids ▸ hz
    have hne := hw.wraps.sound.nodup t.tag
    rw [hw.kids_eq h, if_pos rfl] at hne
    have hnt : t.attributes ≠ t.tag := fun he => by
      have hmem : t.attributes ∈ b.kids t.tag := by simp [hw.kids_eq h]
      exact hw.wraps.sound.not_reaches hmem (he ▸ .refl)
    rw [Promoted.kids, if_neg hnt, if_neg (by simpa using hne)] at hz
    split at hz
    · cases hz
    · simp [Arena.kids_eq_nil hw.fresh.2.1] at hz
  rcases Relation.ReflTransGen.cases_head hr with he | ⟨y, hy, hr⟩
  · exact absurd he.symm htag
  rw [hkids, Promoted.kids, if_pos rfl] at hy
  rcases List.mem_pair.1 hy with rfl | rfl
  · rcases Relation.ReflTransGen.cases_head hr with he | ⟨z, hz, -⟩
    · exact absurd he.symm hattr
    · exact absurd hz (hempty z)
  · rcases Relation.ReflTransGen.cases_head hr with he | ⟨z, hz, hr⟩
    · exact absurd he.symm hbody
    · rw [hkids, Promoted.kids, if_neg hw.wraps.ne.symm, if_pos rfl] at hz
      cases hc : t.content? with
      | none => simp [hc] at hz
      | some c =>
        have hz : z ∈ p.arena.kids c := by simpa [hc] using hz
        have hzm := (hw.reaches_of_reaches h hkids (h.sound.closed c z hz) hr).2.2 hm
        exact .head (hw.content_mem h hc) (.head hz hzm)

theorem apart (h : p.Synced) (hw : Wrapped p t b) (hkids : b'.kids = t.kids p) (ha : p.Anchored)
    {x : ElementId} {n m : NodeId} (hx : x ≠ root) (hn : (t.tagged p b').backing? x = some n)
    (hl : b'.Loose n) (hm : p.Linked m) : ¬Reaches b'.kids n m := by
  intro hr
  -- what is held by no node now was held by none before
  have loose {k : NodeId} (hk : b'.Loose (image t k)) : p.arena.Loose k := fun z hz =>
    hk (image t z) (hkids ▸ hw.image_mem h hz)
  by_cases hid : x = t.id
  · subst hid
    rw [backing?_of_form? hw.form?_tagged] at hn
    obtain rfl := Option.some.inj hn
    refine ha t.id t.node hx hw.backing? (loose ?_) m hm
      (hw.reaches_node_of_tag h hkids (h.linked_lt hm) hr)
    rwa [image, if_pos rfl]
  · rw [Page.backing?, Page.form?, hw.find?_tagged, if_neg hid] at hn
    refine ha x n hx hn (loose ?_) m hm
      ((hw.reaches_of_reaches h hkids (h.backing_lt hn) hr).2.2 (h.linked_lt hm))
    rwa [hw.image_backing h hn hid]

/-- A promotion leaves the categories alone. -/
theorem steady (h : p.Synced) (hw : Wrapped p t b) (hkids : b'.kids = t.kids p)
    (ht : ∀ x, b'.target? x = b.target? x) (hs : (t.tagged p b').Synced) :
    p.Steady (t.settled p b') := by
  have hchildren : (t.tagged p b').childrenOf = p.childrenOf := childrenOf_update fun _ => rfl
  have hpart {n : NodeId} (hn : p.Linked n) (hr : Reaches p.arena.kids Arena.root n) :
      Reaches b'.kids Arena.root n := by
    have hi := hw.image_reaches h hkids hr
    rwa [hw.image_root h, hw.image_linked h hn] at hi
  have hbelow {m n : NodeId} (hm : p.Linked m) (hn : p.Linked n) (hr : Reaches b'.kids m n) :
      Reaches p.arena.kids m n :=
    (hw.reaches_of_reaches h hkids (h.linked_lt hm) hr).2.2 (h.linked_lt hn)
  unfold Promoted.settled
  split
  · rename_i c hc
    refine ⟨⟨rfl, rfl, rfl, ?_, ?_, ?_, fun x => ?_, fun hp x l hl => ?_, fun hn => ?_⟩, hs.moveLinks,
      hpart, fun _ _ _ hm hn hr => hbelow hm hn hr, fun ha x n hx hn hl m hm => ?_⟩
    · intro x
      rw [IsCategory, form?_moveLinks]
      exact hw.isCategory_tagged x
    · rw [nameOf?_moveLinks, hw.nameOf?_tagged]
    · rw [childrenOf_moveLinks, hchildren]
    · rw [links_moveLinks, hw.linksOf_tagged]
    · rw [linksOf_moveLinks, hw.linksOf_tagged] at hl
      obtain ⟨l', hl', rfl⟩ := List.mem_map.1 hl
      have hlk := linked_of_mem hl'
      have hi := hw.mem_kids_image h hkids hlk (hp x l' hl')
      rw [image, if_neg (hw.container_ne_node h hlk (hp x l' hl')), hc] at hi
      simp only [Option.some.injEq] at hi
      split at hi
      · rw [if_pos ‹_›]
        exact hi
      · rw [if_neg ‹_›]
        exact hi
    · exact (ht _).trans (hw.target?_eq h (h.linked_lt hn))
    · rw [Page.backing?, form?_moveLinks] at hn
      refine hw.apart h hkids ha hx hn hl (linked_iff.2 ?_)
      obtain ⟨y, hy⟩ := linked_iff.1 hm
      rw [links_moveLinks, hw.linksOf_tagged] at hy
      exact ⟨y, hy⟩
  · rename_i hc
    refine ⟨⟨rfl, rfl, rfl, fun {x} => hw.isCategory_tagged x, hw.nameOf?_tagged, by rw [hchildren],
      fun x => by rw [hw.linksOf_tagged], fun hp x l hl => ?_, fun hn => ?_⟩, hs, hpart,
      fun _ _ _ hm hn hr => hbelow hm hn hr, fun ha x n hx hn hl m hm => ?_⟩
    · rw [hw.linksOf_tagged] at hl
      have hlk := linked_of_mem hl
      have hi := hw.mem_kids_image h hkids hlk (hp x l hl)
      rwa [image, if_neg (hw.container_ne_node h hlk (hp x l hl)), hc,
        if_neg (Option.some_ne_none _)] at hi
    · exact (ht _).trans (hw.target?_eq h (h.linked_lt hn))
    · refine hw.apart h hkids ha hx hn hl (linked_iff.2 ?_)
      obtain ⟨y, hy⟩ := linked_iff.1 hm
      exact ⟨y, hw.linksOf_tagged y ▸ hy⟩

theorem kids_attributeList (hw : Wrapped p t b) (hkids : b'.kids = t.kids p)
    (hs : b'.Sound) {l : NodeId} (hl : b'.attributeList? (some (.tag t.tag)) = some l) :
    b'.kids l = [] := by
  obtain ⟨m, hm, hml⟩ := Option.bind_eq_some_iff.1 hl
  have htag : b'.kids t.tag = [t.attributes, t.body] := by rw [hkids, Promoted.kids, if_pos rfl]
  have hnodup := htag ▸ hs.nodup t.tag
  obtain rfl : l = t.attributes := by
    rw [Arena.kids_of_find? hm] at htag
    cases hp : m.payload <;> simp_all [attributesOf?, Payload.children]
  have hne : t.attributes ≠ t.tag := fun he =>
    hs.not_reaches (x := t.tag) (y := t.attributes) (by simp [htag]) (he ▸ .refl)
  rw [hkids, Promoted.kids, if_neg hne, if_neg (by simpa using hnodup),
    Arena.kids_eq_nil hw.fresh.2.1]
  split <;> rfl

theorem find?_settled (hw : Wrapped p t b) {x : ElementId} {e : Element}
    (he : (t.settled p b').find? x = some e) :
    (x = t.id ∧ e.kind = t.element.kind ∧ e.attributes = t.element.attributes ∧
      e.backing = some (.tag t.tag)) ∨ (x ≠ t.id ∧ p.Same x e) := by
  obtain ⟨d, hd, hk, ha, hb⟩ : ∃ d, (t.tagged p b').find? x = some d ∧ e.kind = d.kind ∧
      e.attributes = d.attributes ∧ e.backing = d.backing := by
    unfold Promoted.settled at he
    split at he
    · rw [find?_moveLinks] at he
      obtain ⟨d, hd, rfl⟩ := Option.map_eq_some_iff.1 he
      exact ⟨d, hd, rfl, rfl, rfl⟩
    · exact ⟨e, he, rfl, rfl, rfl⟩
  rw [Promoted.tagged, find?_update] at hd
  change (if x = t.id then (p.find? x).map _ else p.find? x) = _ at hd
  split at hd
  · subst x
    rw [hw.find?_element] at hd
    obtain rfl := Option.some.inj hd
    exact .inl ⟨rfl, hk, ha, hb⟩
  · exact .inr ⟨‹_›, d, hd, hk, ha, .inl hb⟩

theorem calm (h : p.Synced) (hw : Wrapped p t b) (hkids : b'.kids = t.kids p)
    (ht : ∀ x, b'.target? x = b.target? x) (hs : (t.tagged p b').Synced) (hb : b.KeepsTags b') :
    p.Calm (t.settled p b') := by
  have hsteady := hw.steady h hkids ht hs
  refine ⟨hsteady, fun {whole} hm => ?_⟩
  have harena := t.arena_settled p b'
  refine hm.spared h hsteady.synced.sound ⟨?_, fun hf => ?_⟩ fun {x e} he => ?_
  · rw [harena]
    exact (hw.keepsTags h).trans hb
  · rw [harena, ht]
    exact hw.target?_eq h (h.backing_lt (backing?_of_form? hf))
  rcases hw.find?_settled he with ⟨-, hk, ha, hbk⟩ | ⟨-, hsame⟩
  · have hnil := (hm _ _ hw.find?_element).bare (Option.isSome_iff_ne_none.1 hw.tag?) hw.backing
    rw [hk, ha, hbk, harena, hnil]
    refine .inr (.nil (fun hl => ?_) fun hl => hw.kids_attributeList hkids hs.sound hl)
    have ht := hw.tag?
    rw [hl] at ht
    cases ht
  · exact .inl hsame

theorem kids_of_detached (h : p.Synced) (hw : Wrapped p t b) (hp : p.parentOf t.id = none) :
    b.kids = t.kids p := by
  funext y
  rw [hw.kids_eq h, Promoted.kids, Arena.map_replace (h.loose hp hw.backing? y)]

theorem synced_of_detached (h : p.Synced) (hw : Wrapped p t b) (hp : p.parentOf t.id = none) :
    (t.tagged p b).Synced :=
  hw.synced h hw.wraps.sound (.refl b) rfl (hw.kids_of_detached h hp) fun _ => hw.wraps.loose

theorem exists_of_attached (h : p.Synced) (hw : Wrapped p t b) {y : ElementId} {c : NodeId}
    (hp : p.parentOf t.id = some y) (hc : p.container? y = some c) :
    ∃ b', b.replaceItem c t.node t.tag = .ok b' ∧ b'.kids = t.kids p ∧
      (∀ x, b'.target? x = b.target? x) ∧ (t.tagged p b').Synced ∧ b.KeepsTags b' := by
  obtain ⟨old, hpc⟩ := h.find?_container hc
  obtain ⟨hct, hca, hcb⟩ := hw.old (Arena.index_lt_of_find? hpc)
  have hcc : some c ≠ t.content? := by
    rw [← hw.container?]
    intro hcc
    obtain rfl := h.container_inj hc hcc.symm
    exact h.forest.not_reaches (h.parent_iff.1 hp) .refl
  have hbp : b.kids c = p.arena.kids c := by
    rw [hw.kids_eq h, if_neg hct, if_neg hcb, if_neg hcc]
  have hnode : t.node ∈ p.arena.kids c :=
    (h.kept hc).subset (List.mem_filterMap.2 ⟨t.id, h.parent_iff.1 hp, hw.backing?⟩)
  have hsound := hw.wraps.sound
  obtain ⟨g, hg⟩ := (hw.evolves h).find?_list hpc
  obtain ⟨l, r, hbk, hreplace⟩ := Arena.replaceItem_eq_ok hg (hsound.nodup c) (hbp ▸ hnode)
    (hw.wraps.loose c)
  have hk : p.arena.kids c = l ++ t.node :: r := hbp ▸ hbk
  have hbc : b.find? c = some ⟨.list (l ++ t.node :: r), none⟩ := hbk ▸ hsound.find?_of_list hg
  have hbt := hw.wraps.find?_tag
  have hkids : (b.setItems c (l ++ t.tag :: r)).kids = t.kids p := by
    funext z
    rw [Arena.kids_setItems (Arena.index_lt_of_find? hbc), Promoted.kids]
    split
    · subst z
      rw [if_neg hct, if_neg hcb, if_neg hcc, hk, Arena.map_replace_middle (hk ▸ h.sound.nodup c)]
    · have hz : t.node ∉ p.arena.kids z := fun hz => ‹¬z = c› (h.sound.single hz hnode)
      rw [hw.kids_eq h, Arena.map_replace hz]
  have hrole {id m role} (hm : b.find? id = some m) (hr : (c, role) ∈ m.payload.slots) :
      role = .content := by
    obtain ⟨n', m', hm', hs', -⟩ := h.container_slot hc
    obtain ⟨m'', hm'', hs''⟩ := (hw.evolves h).find?_slots hm' (List.ne_nil_of_mem hs')
    exact (hsound.role_unique hm hm'' hr (hs'' ▸ hs')).2
  refine ⟨_, hreplace, hkids, Arena.target?_setItems hbc, ?_,
    Arena.keepsTags_setItems hbc (hsound.not_inTag_of_list hbc hrole)⟩
  refine hw.synced h ?_ (Arena.evolves_setItems hbc _) ?_ hkids fun hn => ?_
  · refine hsound.replaceItem hbc hw.wraps.loose (fun hr => ?_) (Arena.index_lt_of_find? hbt)
      fun {id m role} hm hr => ?_
    · rcases hw.reaches h hr with hr | hr | hr | hr
      · exact hct hr
      · exact hca hr
      · exact hcb hr
      · exact h.sound.not_reaches hnode hr
    · obtain rfl := hrole hm hr
      exact ⟨_, hbt, rfl⟩
  · rw [Arena.find?_setItems hbc, if_neg hct.symm]
  · cases hn.symm.trans hp

end Wrapped

/-- A page on which an element has become a tag, which stands where its node stood. -/
structure Converts (p : Page) (t : Promoted) (q : Page) : Prop where
  arenas : ∃ b b', Wrapped p t b ∧ b'.kids = t.kids p ∧ q = t.settled p b' ∧
    (p.parentOf t.id = none ∧ b' = b ∨ ∃ y c, p.parentOf t.id = some y ∧ p.container? y = some c ∧
      b.replaceItem c t.node t.tag = .ok b')

end Page

namespace Edit

variable {p : Page} {id : ElementId}

/-- An element has been made a tag. One that was a tag is left as it is, and one without attributes has
nothing to be written. -/
structure MadeTag (p : Page) (id : ElementId) (q : Page) : Prop where
  calm : p.Calm q
  tagged : q.attributeList? id ≠ none
  kind : ∀ {e d}, p.find? id = some e → q.find? id = some d → d.kind = e.kind
  same : ∀ {k n}, p.form? id = some (k, some (.tag n)) → q = p
  converts : ∀ {e n}, p.find? id = some e → e.backing = some (.markup n) → e.attributes = [] →
    ∃ t, p.Converts t q ∧ t.id = id ∧ t.element = e ∧ t.node = n

/-- What is left of a promotion once the tag is in its place: what the element holds moves into the tag,
and its attributes are written. -/
def settle (id : ElementId) (content : Option NodeId) (tag : NodeId) : Edit Unit := do
  update id fun e => { e with backing := some (.tag tag) }
  match content with
  | some content => moveLinks content (← ask (·.childContainer id))
  | none => pure ()
  writeUnwritten id

theorem ends_settle (h : p.Synced) {t : Page.Promoted} {b b' : Arena} (hw : Page.Wrapped p t b)
    (hkids : b'.kids = t.kids p) (ht : ∀ x, b'.target? x = b.target? x)
    (hs : (t.tagged p b').Synced) (hb : b.KeepsTags b') (hq : p.Converts t (t.settled p b')) :
    Ends (settle t.id (p.childContainer t.id).toOption t.tag) { p with arena := b' }
      (fun _ q => MadeTag p t.id q) fun _ _ => False := by
  have hsteady := hw.calm h hkids ht hs hb
  have write {q : Page} (hset : t.settled p b' = q) (hq : p.Calm q)
      (hf : q.form? = (t.tagged p b').form?) (hat : ∀ e, q.find? t.id = some e →
        e.kind = t.element.kind ∧ e.attributes = t.element.attributes) :
      Ends (writeUnwritten t.id) q (fun _ r => MadeTag p t.id r) fun _ _ => False := by
    refine (ends_writeUnwritten hq.synced ?_).mono (fun _ r hr => ?_) fun _ _ hf => hf
    · exact hq.synced.attributeList?_ne_none (hf ▸ hw.form?_tagged)
    · refine ⟨⟨hq.toSteady.trans hr.steady, fun {whole} hm => ?_⟩, hr.tagged, fun {e d} he hd => ?_,
        fun hx => ?_, fun {e n} he hb ha => ⟨t, ?_, rfl, ?_⟩⟩
      · have hnil := (hm _ _ hw.find?_element).bare (Option.isSome_iff_ne_none.1 hw.tag?) hw.backing
        rw [hr.eq_of_nil fun e he => (hat e he).2.trans hnil]
        exact hq.mirrored hm
      · obtain ⟨e', he', -⟩ := Page.find?_of_form? (hf ▸ hw.form?_tagged)
        obtain rfl := Option.some.inj (hw.find?_element.symm.trans he)
        rw [hr.kind he' hd, (hat e' he').1]
      · cases hw.form?.symm.trans hx
      · obtain rfl := Option.some.inj (hw.find?_element.symm.trans he)
        rwa [hr.eq_of_nil fun e he => (hat e he).2.trans ha, ← hset]
      · obtain rfl := Option.some.inj (hw.find?_element.symm.trans he)
        exact ⟨rfl, Backing.markup.inj (Option.some.inj (hw.backing.symm.trans hb))⟩
  have hat (e : Element) (he : (t.settled p b').find? t.id = some e) :
      e.kind = t.element.kind ∧ e.attributes = t.element.attributes := by
    rcases hw.find?_settled he with ⟨-, hk, ha, -⟩ | ⟨hne, -⟩
    · exact ⟨hk, ha⟩
    · exact absurd rfl hne
  refine Ends.bind (ends_update (fun _ _ => ?_) fun hn => ?_)
  · cases hc : (p.childContainer t.id).toOption with
    | none =>
      have hcontent : t.content? = none := by
        rw [← hw.container?]
        cases hpc : p.container? t.id with
        | none => rfl
        | some c =>
          rw [Page.childContainer_of_container? hpc] at hc
          cases hc
      have hset : t.settled p b' = t.tagged p b' := by rw [Page.Promoted.settled, hcontent]
      rw [hset] at hsteady hat
      exact write hset hsteady rfl hat
    | some content =>
      have hcontent : t.content? = some content := by
        rw [← hw.container?]
        cases hpc : p.childContainer t.id with
        | error e => simp [hpc, Except.toOption] at hc
        | ok c =>
          obtain rfl : c = content := by simpa [hpc, Except.toOption] using hc
          exact Page.container?_of_childContainer hpc
      have hset : t.settled p b' = (t.tagged p b').moveLinks content t.body := by
        rw [Page.Promoted.settled, hcontent]
      rw [hset] at hsteady hat
      have hbody := hw.container?_tagged hkids hs
      refine Ends.bind (ends_ask (fun target htarget => ?_) fun e he => ?_)
      · obtain rfl := Option.some.inj
          (hbody.symm.trans (Page.container?_of_childContainer htarget))
        exact Ends.bind (Ends.modify (write hset hsteady Page.form?_moveLinks hat))
      · cases he.symm.trans (Page.childContainer_of_container? hbody)
  · cases hw.find?_element.symm.trans hn

theorem exists_place? (h : p.Synced) {kind : Kind} {o : Option Backing}
    (hx : p.form? id = some (kind, o)) (hb : kind ≠ .body) (hc : kind ≠ .category) :
    ∃ place, p.place? id = .ok place := by
  obtain ⟨e, he, hk, -⟩ := Page.find?_of_form? hx
  have hparent : p.parent id = .ok e.parent := by simp [Page.parent, Page.get_eq_ok_iff.2 he, Except.map]
  cases hp : e.parent with
  | none => exact ⟨none, by simp [Page.place?, hparent, hp, bind, Except.bind]⟩
  | some y =>
    have hpy : p.parentOf id = some y := (Page.parentOf_of_find? he).trans hp
    have hy : y ≠ Page.root := by
      rintro rfl
      rcases h.root_child hpy with rfl | ⟨o, ho⟩
      · exact hb (Prod.mk.inj (Option.some.inj (hx.symm.trans h.body_form))).1
      · exact hc (Prod.mk.inj (Option.some.inj (hx.symm.trans ho))).1
    cases hyc : p.container? y with
    | none =>
      have hmem := h.parent_iff.1 hpy
      rw [h.bare hyc hy] at hmem
      cases hmem
    | some c =>
      refine ⟨some c, ?_⟩
      simp [Page.place?, hparent, hp, Page.childContainer_of_container? hyc, bind, Except.bind, Except.map]

theorem ends_promoteMarkup (h : p.Synced) {kind : Kind} {node : NodeId}
    (hx : p.form? id = some (kind, some (.markup node))) :
    Ends (promoteMarkup id kind node) p (fun _ q => MadeTag p id q)
      fun _ q => q = p ∧ kind.tag? = none := by
  refine Ends.bind (ends_ask (fun place hplace => ?_) fun e he => ⟨rfl, ?_⟩)
  swap
  · by_contra ht
    obtain ⟨place, hplace⟩ := exists_place? h hx (fun hk => ht (hk ▸ rfl)) fun hk => ht (hk ▸ rfl)
    cases he.symm.trans hplace
  refine Ends.bind (Ends.get ?_)
  refine Ends.bind (ends_surgery ((Surgery.ends_toElement h.sound (h.writes hx)).mono ?_ ?_))
  · rintro tag b ⟨m, attributes, body, hm, hkind, hwraps⟩
    obtain ⟨e, hfind, rfl, hbacking⟩ := Page.find?_of_form? hx
    let t : Page.Promoted := ⟨id, e, node, m, tag, attributes, body⟩
    have hw : Page.Wrapped p t b := ⟨hfind, hbacking, hkind, hm, hwraps⟩
    rcases Page.parentOf_of_place? hplace with ⟨hp, rfl⟩ | ⟨y, c, hp, hc, rfl⟩
    · have hkids := hw.kids_of_detached h hp
      exact (ends_settle h hw hkids (fun _ => rfl) (hw.synced_of_detached h hp) (.refl b)
        ⟨b, b, hw, hkids, rfl, .inl ⟨hp, rfl⟩⟩).mono (fun _ _ hq => hq) fun _ _ hf => hf.elim
    · obtain ⟨b', hb', hkids, ht, hs, hkeeps⟩ := hw.exists_of_attached h hp hc
      refine Ends.bind (ends_surgery (Surgery.ends_change (fun b₁ hb₁ => ?_) fun _ he => ?_))
      · obtain rfl := Except.ok.inj (hb'.symm.trans hb₁)
        exact (ends_settle h hw hkids ht hs hkeeps ⟨b, b', hw, hkids, rfl, .inr ⟨y, c, hp, hc, hb'⟩⟩).mono
          (fun _ _ hq => hq) fun _ _ hf => hf.elim
      · cases hb'.symm.trans he
  · rintro _ b ⟨rfl, ht⟩
    exact ⟨rfl, ht⟩

/-- Whatever has a tag can be promoted; nothing changes for what has none. -/
theorem ends_promote (h : p.Synced) :
    Ends (promote id) p (fun _ q => MadeTag p id q)
      fun _ q => q = p ∧ ∀ k o, p.form? id = some (k, o) → k.tag? = none := by
  refine Ends.bind (ends_ask (fun e he => ?_) fun e he => ⟨rfl, fun k o hx => ?_⟩)
  swap
  · obtain ⟨e', he', -⟩ := Page.find?_of_form? hx
    cases he.symm.trans (Page.get_eq_ok_iff.2 he')
  have hf := Page.form?_of_find? (Page.get_eq_ok_iff.1 he)
  have unique {k : Kind} {o : Option Backing} (hx : p.form? id = some (k, o)) : k = e.kind :=
    (Prod.mk.inj (Option.some.inj (hx.symm.trans hf))).1
  split
  · rename_i node hb
    refine (ends_promoteMarkup h (by rw [hf, hb])).mono (fun _ _ hq => hq) fun _ _ hq => ?_
    exact ⟨hq.1, fun k o hx => unique hx ▸ hq.2⟩
  · rename_i node hb
    exact Ends.pure ⟨h.calm_refl, h.attributeList?_ne_none (by rw [hf, hb]), fun he hd => by simp_all,
      fun _ => rfl, fun he' hb' _ => by simp_all [Page.get_eq_ok_iff]⟩
  · rename_i hb
    refine Ends.throw ⟨rfl, fun k o hx => ?_⟩
    rw [hb] at hf
    have hk : e.kind = .category := h.writes hf
    rw [unique hx, hk]
    rfl

theorem neverFaults_checkXmlName (s : String) : NeverFaults (checkXmlName s) := by
  unfold checkXmlName
  split
  · exact .ok _
  · exact .refuse _

theorem tag?_of_synced {kind : Kind} {name : String} {policy : Policy}
    (hp : Policy.find? kind name = some policy) (hs : policy.synced = true) : kind.tag? ≠ none := by
  have hk : ∀ q ∈ Policy.specific kind, q.synced = true → kind.tag? ≠ none := by
    cases kind <;> decide
  exact (Policy.mem_of_find? hp).elim (fun hm => hk policy hm hs) And.left

theorem kind_of_unsynced {kind : Kind} {name : String} {policy : Policy}
    (hp : Policy.find? kind name = some policy) (hs : policy.synced = false)
    (hr : policy.reaction = none) : kind = .page := by
  have hk : ∀ q ∈ Policy.specific kind, q.synced = false → q.reaction = none → kind = .page := by
    cases kind <;> decide
  have hu : ∀ q ∈ Policy.generic :: Policy.universal, q.synced = true := by decide
  rcases Policy.mem_of_find? hp with hm | ⟨-, hm⟩
  · exact hk policy hm hs hr
  · cases hs.symm.trans (hu policy hm)

theorem kind_of_reaction {kind : Kind} {name : String} {policy : Policy} {r : Reaction}
    (hp : Policy.find? kind name = some policy) (hr : policy.reaction = some r) :
    policy.synced = false ∧
      (r = .retarget ∧ kind = .link ∨ r = .renameCategory ∧ kind = .category) := by
  have hk : ∀ q ∈ Policy.specific kind, q.reaction = some r → q.synced = false ∧
      (r = .retarget ∧ kind = .link ∨ r = .renameCategory ∧ kind = .category) := by
    cases kind <;> cases r <;> decide
  have hu : ∀ q ∈ Policy.generic :: Policy.universal, q.reaction = none := by decide
  rcases Policy.mem_of_find? hp with hm | ⟨-, hm⟩
  · exact hk policy hm hr
  · cases hr.symm.trans (hu policy hm)

theorem ends_writeValue_run (h : p.Synced) {e : Element} (he : p.find? id = some e) (hk : e.kind.tag? ≠ none)
    {key value : String} (hkey : key.toLower = key) :
    Ends (writeValue id key value) p
      (fun n r => checkXmlName key = .ok () ∧ ∃ q d, MadeTag p id q ∧ q.find? id = some d ∧
        writeAttribute id key value ((Attribute.find? d.attributes key).bind Attribute.node) q = .ok n r)
      fun err q => q = p ∧ checkXmlName key = .error err := by
  refine Ends.bind (ends_ask (fun _ hcheck => ?_) fun err herr => ⟨rfl, herr⟩)
  refine (ends_promote h).step (fun _ q hq => ?_) fun _ q hq =>
    absurd (hq.2 _ _ (Page.form?_of_find? he)) hk
  obtain ⟨c, hc⟩ := Option.ne_none_iff_exists'.1 hq.tagged
  obtain ⟨k, tag, m, hf, -⟩ := Page.exists_of_attributeList? hc
  obtain ⟨d, hd, -⟩ := Page.find?_of_form? hf
  have hstored : q.attribute? id key = .ok (Attribute.find? d.attributes key) := by
    simp [Page.attribute?, Page.get_eq_ok_iff.2 hd, Except.map, hkey]
  refine Ends.bind (ends_ask (fun stored hs => ?_) fun _ herr => by cases hstored.symm.trans herr)
  obtain rfl := Except.ok.inj (hstored.symm.trans hs)
  have hw := Page.writtenOf_of_find? hd
  exact (ends_writeAttribute hq.calm.synced hc fun n hn => hw ▸ Attribute.mem_nodes_of_find? hn).run.mono
    (fun n r hr => ⟨hcheck, q, d, hq, hd, hr.2⟩) fun _ _ hf => hf.1.elim

theorem MadeTag.inscribed {q r : Page} {d : Element} {n : NodeId} {key value : String}
    (hq : MadeTag p id q) (hd : q.find? id = some d)
    (hr : writeAttribute id key value ((Attribute.find? d.attributes key).bind Attribute.node) q = .ok n r) :
    q.Inscribed id ((Attribute.find? d.attributes key).bind Attribute.node) key value n r := by
  obtain ⟨c, hc⟩ := Option.ne_none_iff_exists'.1 hq.tagged
  have hw := Page.writtenOf_of_find? hd
  exact (ends_writeAttribute hq.calm.synced hc fun n hn =>
    hw ▸ Attribute.mem_nodes_of_find? hn).of_ok hr

/-- A value is written, and its attribute can be recorded with its node. -/
theorem ends_writeValue (h : p.Synced) {e : Element} (he : p.find? id = some e) {key value : String}
    {policy : Policy} (hp : Policy.find? e.kind key = some policy) (hs : policy.synced = true)
    (hkey : key.toLower = key) (hvalue : policy.normalization.apply value = value) :
    Ends (writeValue id key value) p
      (fun n q => q.find? id ≠ none ∧ p.Calm (q.update id fun e =>
        { e with attributes := Attribute.put e.attributes ⟨key, value, some n⟩ }))
      (p.Refuses [id]) := by
  refine (ends_writeValue_run h he (tag?_of_synced hp hs) hkey).mono ?_ fun err q hq => ?_
  · rintro n r ⟨-, q, d, hq, hd, hok⟩
    have hr := hq.inscribed hd hok
    have hrd : r.find? id = some d := by
      rw [Page.find?, hr.elements]
      exact hd
    obtain ⟨c, hc⟩ := Option.ne_none_iff_exists'.1 hq.tagged
    obtain ⟨k, tag, m, hf, -⟩ := Page.exists_of_attributeList? hc
    have hcat := not_isCategory hr.steady.synced (b := .tag tag) (k := k)
      (by rw [Page.form?_of_find? hrd, ← Page.form?_of_find? hd, hf])
    refine ⟨by simp [hrd], hq.calm.toSteady.trans (hr.steady.trans ?_), fun {whole} hm => ?_⟩
    · refine steady_setAttributes hr.steady.synced hcat fun e' he' => ?_
      obtain rfl := Option.some.inj (hrd.symm.trans he')
      exact hr.written_put he' fun m hm => hm
    · exact hr.mirrored hq.calm.synced hd rfl hkey (hq.kind he hd ▸ hp) hvalue (hq.calm.mirrored hm)
  · obtain ⟨rfl, herr⟩ := hq
    exact .of_not_isFatal (neverFaults_checkXmlName key err herr)

theorem policy_of_category {name : String} {policy : Policy}
    (h : Policy.find? .category name = some policy) :
    name.toLower = "name" ∧ policy.verifier = .categoryName ∧ policy.normalization = .words ∧
      policy.removable = false ∧ policy.synced = false ∧ policy.reaction = some .renameCategory := by
  simp only [Policy.find?, Policy.specific, List.find?_cons, List.find?_nil, Kind.tag?] at h
  split at h
  · rename_i q hq
    split at hq
    · obtain rfl := Option.some.inj hq
      obtain rfl := Option.some.inj h
      rename_i hn
      exact ⟨(beq_iff_eq.1 hn).symm, rfl, rfl, rfl, rfl, rfl⟩
    · cases hq
  · cases h

theorem policy_of_isCategory (hid : p.IsCategory id) {name : String} {policy : Policy}
    (hp : p.policy id name = .ok policy) : Policy.find? .category name = some policy := by
  obtain ⟨kind, hk, hp⟩ := Except.exists_of_bind hp
  obtain ⟨e, he, rfl⟩ := Page.find?_of_kind hk
  obtain ⟨o, ho⟩ := hid
  have hkind : e.kind = .category :=
    (Prod.mk.inj (Option.some.inj ((Page.form?_of_find? he).symm.trans ho))).1
  rw [hkind] at hp
  cases hf : Policy.find? .category name with
  | none => simp [hf, refuse] at hp
  | some q => simpa [hf] using hp

theorem exists_of_policy {name : String} {policy : Policy} (hp : p.policy id name = .ok policy) :
    ∃ e, p.find? id = some e ∧ Policy.find? e.kind name = some policy := by
  obtain ⟨kind, hk, hp⟩ := Except.exists_of_bind hp
  obtain ⟨e, he, rfl⟩ := Page.find?_of_kind hk
  cases hf : Policy.find? e.kind name with
  | none => simp [hf, refuse] at hp
  | some q => exact ⟨e, he, by simpa [hf] using hp⟩

theorem neverFaults_policy {e : Element} (he : p.find? id = some e) (name : String) :
    NeverFaults (p.policy id name) := by
  have hk : p.kind id = .ok e.kind := by simp [Page.kind, Page.get_eq_ok_iff.2 he, Except.map]
  unfold Page.policy
  rw [hk]
  refine .bind (.ok _) fun k _ => ?_
  split
  · exact .ok _
  · exact .refuse _

/-- Store a value beside the node that the attribute had. -/
def store (key value : String) (e : Element) : Element :=
  { e with
    attributes := Attribute.put e.attributes
      ⟨key, value, (Attribute.find? e.attributes key.toLower).bind Attribute.node⟩ }

theorem ends_commit_of_unsynced {policy : Policy} (hp : policy.synced = false)
    {key value : String} :
    Ends (commit id policy key value) p
      (fun old q => ∃ e, p.find? id = some e ∧
        old = (Attribute.find? e.attributes key.toLower).map Attribute.value ∧
        q = p.update id (store key value))
      fun _ q => q = p ∧ p.find? id = none := by
  refine Ends.bind (ends_ask (fun stored hs => ?_) fun _ he => ?_)
  · obtain ⟨e, he, rfl⟩ := Except.exists_of_map hs
    have he := Page.get_eq_ok_iff.1 he
    rw [hp]
    refine Ends.bind (Ends.pure (Ends.bind (ends_update (fun _ _ => ?_) fun hn => ?_)))
    · exact Ends.pure ⟨e, he, rfl, Page.update_congr he rfl⟩
    · cases hn.symm.trans he
  · cases hf : p.find? id with
    | none => exact ⟨rfl, rfl⟩
    | some e => simp [Page.attribute?, Page.get_eq_ok_iff.2 hf, Except.map] at he

theorem written_store (h : p.Synced) {key value : String} (hkey : key.toLower = key) {e : Element}
    (he : p.find? id = some e) :
    p.Written id ((store key value e).attributes.filterMap Attribute.node) := by
  refine Page.written_put h he fun n hn => ?_
  have hn : (Attribute.find? e.attributes key).bind Attribute.node = some n := hkey ▸ hn
  exact ⟨h.exists_of_written (Page.writtenOf_of_find? he ▸ Attribute.mem_nodes_of_find? hn), .inl hn⟩

theorem synced_store (h : p.Synced) {key value : String} (hkey : key.toLower = key) :
    (p.update id (store key value)).Synced :=
  synced_setAttributes h (f := fun e => (store key value e).attributes)
    fun _ he => written_store h hkey he

theorem calm_store (h : p.Synced) {key value : String} (hkey : key.toLower = key) {e : Element}
    (he : p.find? id = some e) (hk : e.kind = .page) : p.Calm (p.update id (store key value)) := by
  have hf := Page.form?_of_find? he
  have hid : ¬p.IsCategory id := by
    rintro ⟨o, ho⟩
    cases hk.symm.trans (Prod.mk.inj (Option.some.inj (hf.symm.trans ho))).1
  have hst : p.Steady (p.update id (store key value)) :=
    steady_setAttributes h hid (f := fun e => (store key value e).attributes)
      fun _ he => written_store h hkey he
  refine ⟨hst, fun {whole} hm => hm.spared h hst.synced.sound ⟨.refl _, fun _ => rfl⟩ fun {x d} hd => ?_⟩
  rw [Page.find?_update] at hd
  split at hd
  · subst x
    rw [he] at hd
    obtain rfl := Option.some.inj hd
    have hme := hm id e he
    refine .inr (.of_untagged (by rw [store, hk]; rfl) (by rw [store, hk]; nofun) (fun t ht => ?_)
      (Attribute.nodup_names_put hme.nodup))
    rcases Attribute.mem_put ht with ht | rfl
    · exact hme.lower t ht
    · exact hkey
  · exact .inl ⟨d, hd, rfl, rfl, .inl rfl⟩

theorem isCalm_commit (h : p.Synced) {policy : Policy} {name value : String}
    (hp : p.policy id name = .ok policy) (hr : policy.reaction = none)
    (hvalue : policy.normalization.apply value = value) :
    IsCalm (commit id policy name.toLower value) p [id] := by
  have hkey := toLower_toLower name
  obtain ⟨e, he, hpolicy⟩ := exists_of_policy hp
  cases hs : policy.synced with
  | false =>
    refine (ends_commit_of_unsynced hs).mono ?_ fun _ q hq => by cases hq.2.symm.trans he
    rintro _ q ⟨-, -, -, rfl⟩
    exact calm_store h hkey he (kind_of_unsynced hpolicy hs hr)
  | true =>
    have hstored : p.attribute? id name.toLower = .ok (Attribute.find? e.attributes name.toLower) := by
      simp [Page.attribute?, Page.get_eq_ok_iff.2 he, Except.map, hkey]
    refine Ends.bind (ends_ask (fun stored hst => ?_) fun _ herr => by cases hstored.symm.trans herr)
    rw [hs]
    have hkp : Policy.find? e.kind name.toLower = some policy := by simpa using hpolicy
    refine Ends.bind (Ends.map ((ends_writeValue h he hkp hs hkey hvalue).mono (fun n q hq => ?_)
      fun _ _ hq => hq))
    exact Ends.bind (ends_update (fun _ _ => Ends.pure hq.2) fun hn => absurd hn hq.1)

/-- A value that is stored without a check leaves the elements in step with the nodes, also where the
element is a link or a category that should follow it. -/
theorem ends_assign (h : p.Synced) {name value : String} :
    Ends (assign id name value) p (fun _ q => q.Synced) (p.Refuses [id]) := by
  refine Ends.bind (ends_ask_refuses (fun policy hp => ?_) fun hk => ?_)
  · obtain ⟨e, he, hpolicy⟩ := exists_of_policy hp
    cases hr : policy.reaction with
    | none =>
      exact (isCalm_commit h hp hr (policy.normalization.apply_apply value)).mono
        (fun _ _ hq => hq.synced) fun _ _ hq => hq
    | some r =>
      refine (ends_commit_of_unsynced (kind_of_reaction hpolicy hr).1).mono ?_ fun _ q hq => by
        cases hq.2.symm.trans he
      rintro _ q ⟨-, -, -, rfl⟩
      exact synced_store h (toLower_toLower name)
  · obtain ⟨e, he⟩ := hk id (List.mem_singleton_self _)
    exact neverFaults_policy he name

end Edit
end WikiPage
