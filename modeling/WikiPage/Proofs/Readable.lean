import WikiPage.Proofs.Counted
import WikiPage.Proofs.Shapes

/-!
# When a page can be read

Reading a page fails only for its title and for a tag of an unknown kind that is not to be kept. Of these
tags the first one on the page is named, and those in titles that are passed over are never come to.
-/

namespace WikiPage

theorem Except.exists_mapM {ε α β γ : Type} {f : α → Except ε β} {l : List α} (g : List β → γ)
    (h : ∀ x ∈ l, ∃ y, f x = .ok y) : ∃ z, (l.mapM f >>= fun r => .ok (g r)) = .ok z := by
  suffices hs : ∃ r, l.mapM f = .ok r by
    obtain ⟨r, hr⟩ := hs
    exact ⟨g r, by rw [hr]; rfl⟩
  induction l with
  | nil => exact ⟨[], rfl⟩
  | cons x l ih =>
    rw [List.forall_mem_cons] at h
    obtain ⟨y, hy⟩ := h.1
    obtain ⟨r, hr⟩ := ih h.2
    exact ⟨y :: r, by rw [List.mapM_cons, hy, hr]; rfl⟩

namespace Arena

variable {a : Arena} {site : Site} {preserve : Bool} {x y n : NodeId} {s : String}

/-- The tags of the kinds that the model knows. -/
def knownTags : List String :=
  ["p", "hr", "b", "i", "div"]

/-- A tag of an unknown kind, in the title of no link that is passed over. -/
structure Unsupported (a : Arena) (site : Site) (n : NodeId) (name : String) : Prop where
  element : ∃ empty attributes body g, a.find? n = some ⟨.element name empty attributes body, g⟩
  unknown : name.toLower ∉ knownTags
  shown : ∀ m, a.IsPassedOver site m → ¬Reaches a.kids m n

/-- A node that reading comes to. -/
def IsShown (a : Arena) (site : Site) (x : NodeId) : Prop :=
  ∀ m, a.IsPassedOver site m → Reaches a.kids m x → m = x

theorem Unsupported.of_isUnknownTag {empty : Bool} {attributes body : NodeId} {g : Option Glue}
    (hn : a.find? n = some ⟨.element s empty attributes body, g⟩) (hs : s.toLower ∉ knownTags)
    (hx : a.IsShown site n) : a.Unsupported site n s := by
  refine ⟨⟨_, _, _, _, hn⟩, hs, fun m hm hr => ?_⟩
  obtain rfl := hx m hm hr
  refine not_isPassedOver ?_ hm
  rw [target?, hn]
  rfl

end Arena

theorem Kind.ofTag?_eq_none_iff {tag : String} : ofTag? tag = none ↔ tag ∉ Arena.knownTags := by
  unfold ofTag? Arena.knownTags
  split <;> simp_all

namespace Findings

/-- A walk over nodes that ends well if none of them is refused, and stops at the first that is. -/
inductive Walks (U : NodeId → String → Prop) (ids : List NodeId) : Except PageError Findings → Prop
  | ends {f : Findings} (h : ∀ n ∈ ids, ∀ s, ¬U n s) : Walks U ids (.ok f)
  | stops {before after : List NodeId} {n : NodeId} {s : String} (hids : ids = before ++ n :: after)
    (hn : U n s) (hb : ∀ m ∈ before, ∀ s, ¬U m s) :
    Walks U ids (.error (.unsupportedElement n s))

namespace Walks

variable {U : NodeId → String → Prop} {ids ids' : List NodeId} {r r' : Except PageError Findings}

theorem cons {x : NodeId} (h : Walks U ids r) (hx : ∀ s, ¬U x s) : Walks U (x :: ids) r := by
  cases h with
  | ends h => exact .ends (List.forall_mem_cons.2 ⟨hx, h⟩)
  | stops hids hn hb =>
    exact .stops (congrArg (x :: ·) hids) hn (List.forall_mem_cons.2 ⟨hx, hb⟩)

theorem exists_ok_iff (h : Walks U ids r) : (∃ f, r = .ok f) ↔ ∀ n ∈ ids, ∀ s, ¬U n s := by
  cases h with
  | ends h => exact ⟨fun _ => h, fun _ => ⟨_, rfl⟩⟩
  | stops hids hn _ =>
    refine ⟨fun ⟨_, hf⟩ => (nomatch hf), fun h => absurd hn (h _ ?_ _)⟩
    rw [hids]
    exact List.mem_append_right _ List.mem_cons_self

theorem map (h : Walks U ids r) (g : Findings → Findings) : Walks U ids (r.map g) := by
  cases h with
  | ends h => exact .ends h
  | stops hids hn hb => exact .stops hids hn hb

theorem append (h : Walks U ids r) (h' : Walks U ids' r') (g : Findings → Findings → Findings) :
    Walks U (ids ++ ids') (do
      let f ← r
      let f' ← r'
      .ok (g f f')) := by
  cases h with
  | @stops before after n s hids hn hb =>
    have hall : ids ++ ids' = before ++ n :: (after ++ ids') := by
      rw [hids, List.append_assoc, List.cons_append]
    exact .stops hall hn hb
  | ends h =>
    cases h' with
    | ends h' =>
      refine .ends fun n hn => ?_
      rcases List.mem_append.1 hn with hn | hn
      · exact h n hn
      · exact h' n hn
    | @stops before after n s hids hn hb =>
      have hall : ids ++ ids' = (ids ++ before) ++ n :: after := by rw [hids, List.append_assoc]
      refine .stops hall hn fun m hm => ?_
      rcases List.mem_append.1 hm with hm | hm
      · exact h m hm
      · exact hb m hm

end Walks
end Findings

namespace Arena

variable {a : Arena} {site : Site} {preserve : Bool} {x y n : NodeId} {m : Node} {s : String}

/-- The tags that are refused. -/
def Refuses (a : Arena) (site : Site) (preserve : Bool) (n : NodeId) (name : String) : Prop :=
  preserve = false ∧ a.Unsupported site n name

theorem not_refuses_of_payload (hn : a.find? n = some m)
    (hm : ∀ name empty attributes body, m.payload ≠ .element name empty attributes body) :
    ¬a.Refuses site preserve n s := by
  rintro ⟨-, ⟨empty, attributes, body, g, he⟩, -, -⟩
  obtain rfl := Option.some.inj (hn.symm.trans he)
  exact hm _ _ _ _ rfl

theorem not_refuses_of_isPassedOver (hx : a.IsPassedOver site x) (hr : Reaches a.kids x n) :
    ¬a.Refuses site preserve n s :=
  fun h => h.2.shown x hx hr

theorem IsAttributePart.not_refuses (h : a.IsAttributePart n) : ¬a.Refuses site preserve n s := by
  rcases h with ⟨l, hl, ha⟩ | ⟨items, hi, -⟩ | ⟨l, hl, ha⟩
  · exact not_refuses_of_payload hl fun _ _ _ _ hp => by simp [hp, Role.admits] at ha
  · exact not_refuses_of_payload hi (by simp)
  · exact not_refuses_of_payload hl fun _ _ _ _ hp => by simp [hp, Role.admits] at ha

theorem IsShown.of_mem_kids (h : a.IsForest) (hx : a.IsShown site x) (hp : ¬a.IsPassedOver site x)
    (hy : y ∈ a.kids x) : a.IsShown site y := by
  intro m hm hr
  rcases Relation.ReflTransGen.cases_tail hr with rfl | ⟨z, hz, hyz⟩
  · rfl
  · obtain rfl := h.single hy hyz
    obtain rfl := hx m hm hz
    exact absurd hm hp

namespace Sound

theorem exists_text (h : a.Sound) (hx : a.ListOf .value x) : ∃ s, a.text x = .ok s := by
  obtain ⟨items, hi, ha⟩ := hx
  rw [h.text_list hi]
  clear hi
  induction items with
  | nil => exact ⟨"", rfl⟩
  | cons y items ih =>
    rw [List.forall_mem_cons] at ha
    obtain ⟨n, hn, hp⟩ := ha.1
    obtain ⟨s, hs⟩ := ih ha.2
    have hy : ∃ t, Node.text (a.tree y) = .ok t := by
      rw [h.founded.tree_eq hn, Node.text]
      cases hq : n.payload <;> simp_all [Role.admits]
    obtain ⟨t, ht⟩ := hy
    exact ⟨t ++ s, by simp [Node.texts, ht, hs, bind, Except.bind]⟩

theorem exists_attributes (h : a.Sound) {kind : Kind} {element : NodeId} {items : List NodeId}
    (hi : ∀ x ∈ items, a.Is Role.attributes.admits x) (l : List Attribute) :
    ∃ l', Attribute.read kind element l (items.map a.tree) = .ok l' := by
  induction items generalizing l with
  | nil => exact ⟨l, rfl⟩
  | cons x items ih =>
    rw [List.forall_mem_cons] at hi
    obtain ⟨⟨q, g⟩, hn, hq⟩ := hi.1
    cases q with
    | attr name hasValue value =>
      obtain ⟨s, hs⟩ := h.exists_text ((h.fits hn).lists (value, .value) List.mem_cons_self)
      obtain ⟨l', hl'⟩ := ih hi.2 (Attribute.adopt kind l name (if hasValue then s else name) x)
      refine ⟨l', ?_⟩
      have hs : Node.text (a.tree value) = .ok s := hs
      rw [List.map_cons, h.founded.tree_eq hn, Attribute.read]
      cases hasValue with
      | false => exact hl'
      | true =>
        simp only [Payload.children, List.map_cons, List.map_nil, Node.texts_singleton, hs, if_pos,
          bind, Except.bind]
        exact hl'
    | _ => cases hq

/-- A link below a node stands in a container at or below it. -/
theorem exists_findContainer? (h : a.Sound) (hn : a.find? n = some m) (hx : x ∈ a.below n)
    (ht : a.target? x ≠ none) : ∃ c, a.findContainer? n x = .ok (some c) := by
  obtain ⟨target, ht⟩ := Option.ne_none_iff_exists'.1 ht
  obtain ⟨o, ho, hlink⟩ := Option.bind_eq_some_iff.1 ht
  obtain ⟨y, hy, hr⟩ := List.mem_flatMap.1 hx
  have hr := h.mem_preorder_iff.1 hr
  -- the node right above the link
  obtain ⟨c, hc, hxc⟩ : ∃ c, Reaches a.kids n c ∧ x ∈ a.kids c := by
    rcases Relation.ReflTransGen.cases_tail hr with rfl | ⟨c, hc, hxc⟩
    · exact ⟨n, .refl, hy⟩
    · exact ⟨c, .head hy hc, hxc⟩
  have hlist := h.find?_of_mem_kids hxc ho (by cases hp : o.payload <;> simp_all [Payload.isList])
  have hmem := h.mem_preorder_iff.2 hc
  rw [h.preorder_tree hn] at hmem
  rw [findContainer?, h.descendants_eq hn]
  refine (Option.isSome_iff_exists.1 (List.find?_isSome.2 ⟨c, hmem, ?_⟩)).imp fun _ =>
    congrArg Except.ok
  simp [hlist, hxc]

theorem exists_linksWithin (h : a.Sound) (hn : a.find? n = some m) :
    ∃ links, Findings.linksWithin a site n = .ok links := by
  have hd : PageError.ofArena (a.descendants n) = .ok (a.below n) := by
    rw [h.descendants_eq hn]
    rfl
  rw [Findings.linksWithin, hd]
  refine Except.exists_mapM (l := a.below n) (fun links => links.filterMap id) fun x hx => ?_
  obtain ⟨y, hy, hr⟩ := List.mem_flatMap.1 hx
  have hr := h.mem_preorder_iff.1 hr
  obtain ⟨o, ho⟩ := exists_of_index_lt (h.index_lt_of_reaches hr (h.closed n y hy))
  simp only [linkedCategory?_of_find? ho, PageError.ofArena, bind, Except.bind]
  cases hc : a.categoryOf? site x with
  | none => exact ⟨none, rfl⟩
  | some name =>
    obtain ⟨c, hcont⟩ := h.exists_findContainer? hn hx fun ht => by
      rw [categoryOf?_eq_none ht] at hc
      cases hc
    exact ⟨some ⟨name, c, x⟩, by simp only [hcont]⟩

end Sound
end Arena

namespace Findings

open Arena (IsShown Refuses)

variable {a : Arena} {site : Site} {preserve : Bool} {c n : NodeId} {s : String}

theorem walks_unknown (h : a.Sound) {name : String} {empty : Bool} {attributes body : NodeId}
    {g : Option Glue} (hn : a.find? n = some ⟨.element name empty attributes body, g⟩)
    (hk : Kind.ofTag? name.toLower = none) (hx : a.IsShown site n) :
    Walks (a.Refuses site preserve) (n :: a.below n) (unknown a site preserve n name) := by
  cases preserve with
  | false =>
    exact .stops (List.nil_append _).symm
      ⟨rfl, .of_isUnknownTag hn (Kind.ofTag?_eq_none_iff.1 hk) hx⟩ (by simp)
  | true =>
    obtain ⟨links, hl⟩ : ∃ links, linksWithin a site n = .ok links := h.exists_linksWithin hn
    simp only [unknown, hl, if_pos, bind, Except.bind]
    exact .ends fun _ _ _ hr => nomatch hr.1

theorem walks_ofItems {items : List NodeId}
    (hi : ∀ y ∈ items, Walks (a.Refuses site preserve) (a.tree y).preorder
      (ofNode a site preserve c (a.tree y))) :
    Walks (a.Refuses site preserve) (items.flatMap fun y => (a.tree y).preorder)
      (ofItems a site preserve c (items.map a.tree)) := by
  induction items with
  | nil => exact .ends (by simp)
  | cons y items ih =>
    rw [List.forall_mem_cons] at hi
    rw [List.flatMap_cons, List.map_cons, ofItems]
    exact hi.1.append (ih hi.2) append

theorem walks_ofLists (h : a.Sound) {items : List NodeId} {g : Option Glue}
    (hc : a.find? c = some ⟨.list items, g⟩)
    (hi : ∀ y ∈ a.kids c, Walks (a.Refuses site preserve) (a.tree y).preorder
      (ofNode a site preserve c (a.tree y))) :
    Walks (a.Refuses site preserve) (a.tree c).preorder (ofLists a site preserve [a.tree c]) := by
  have hk : a.kids c = items := Arena.kids_of_find? hc
  have hnil : Walks (a.Refuses site preserve) [] (.ok {}) := .ends (by simp)
  have hwalk := (walks_ofItems (hk ▸ hi)).append hnil append
  rw [h.preorder_tree hc, h.founded.tree_eq hc, ofLists, Payload.isList, if_pos rfl]
  refine .cons ?_ fun s => Arena.not_refuses_of_payload hc (by simp)
  rw [List.append_nil] at hwalk
  rw [Arena.below, hk]
  exact hwalk

theorem walks_ofTag (h : a.Sound) {tag attributes body : NodeId} {name : String} {empty : Bool}
    {g : Option Glue} (kind : Kind)
    (hn : a.find? tag = some ⟨.element name empty attributes body, g⟩)
    (hbody : Walks (a.Refuses site preserve) (a.tree body).preorder
      (ofLists a site preserve [a.tree body])) :
    Walks (a.Refuses site preserve) (a.below tag)
      (ofTag a site preserve kind tag [a.tree attributes, a.tree body]) := by
  have hlist := (h.fits hn).lists (attributes, .attributes) List.mem_cons_self
  obtain ⟨items, hi, ha⟩ := id hlist
  obtain ⟨l, hl⟩ : ∃ l, Attribute.read kind tag [] (items.map a.tree) = .ok l :=
    h.exists_attributes ha []
  have hwalk : Walks (a.Refuses site preserve) (a.tree attributes).preorder (.ok {}) := by
    refine .ends fun m hm s => ?_
    rw [h.preorder_tree hi, List.mem_cons] at hm
    rcases hm with rfl | hm
    · exact Arena.not_refuses_of_payload hi (by simp)
    · obtain ⟨y, hy, hm⟩ := List.mem_flatMap.1 hm
      have hr := h.mem_preorder_iff.1 hm
      rw [Arena.kids_of_find? hi] at hy
      exact (h.isAttributePart_of_reaches (.inl (ha y hy)) hr).not_refuses
  have hwalks := hwalk.append hbody fun _ f => wrap kind (.tag tag) l f
  have hbelow : a.below tag = (a.tree attributes).preorder ++ (a.tree body).preorder := by
    simp [Arena.below, Arena.kids_of_find? hn, Payload.children]
  rw [hbelow, h.founded.tree_eq hi, ofTag, Payload.isList, if_pos rfl]
  rw [h.founded.tree_eq hi] at hwalks
  simp only [Payload.children, hl]
  exact hwalks

/-- What is read from a node is refused for the first tag that is not supported. -/
theorem walks_ofNode {id : NodeId} (h : a.Sound) : ∀ c, id ∈ a.kids c → a.IsShown site id →
    a.Is Role.content.admits id → Walks (a.Refuses site preserve) (a.tree id).preorder
      (ofNode a site preserve c (a.tree id)) := by
  induction id using h.wellFounded.transGen.induction with
  | _ id ih =>
    intro c hid hx hadmits
    obtain ⟨⟨q, g⟩, hn, hadmits⟩ := hadmits
    have hk : a.kids id = q.children := Arena.kids_of_find? hn
    -- a list below a node that is not passed over
    have below {l : NodeId} (hp : ¬a.IsPassedOver site id) (hl : (l, Role.content) ∈ q.slots) :
        Walks (a.Refuses site preserve) (a.tree l).preorder (ofLists a site preserve [a.tree l]) := by
      obtain ⟨items, (hi : a.find? l = some ⟨.list items, none⟩), ha⟩ := (h.fits hn).lists _ hl
      have hlk : l ∈ a.kids id := hk ▸ Payload.children_of_mem_slots hl
      refine walks_ofLists h hi fun y hy => ?_
      have hlp : ¬a.IsPassedOver site l := Arena.not_isPassedOver (by rw [Arena.target?, hi]; rfl)
      have hyi : y ∈ items := by
        rw [Arena.kids_of_find? hi] at hy
        exact hy
      refine ih y (.tail (.single hy) hlk) l hy ?_ (ha y hyi)
      exact (hx.of_mem_kids h.toIsForest hp hlk).of_mem_kids h.toIsForest hlp hy
    have passed {target : String} {f : Findings} (ht : a.target? id = some target)
        (hu : linkUse site target ≠ .element) :
        Walks (a.Refuses site preserve) (a.tree id).preorder (.ok f) :=
      .ends fun m hm _ => Arena.not_refuses_of_isPassedOver ⟨target, ht, hu⟩
        (h.mem_preorder_iff.1 hm)
    have hread := readAs_ofNode h hn site preserve c
    generalize ofNode a site preserve c (a.tree id) = r at hread ⊢
    cases hread with
    | refused hq => cases hadmits.symm.trans hq
    | skipped hu => exact passed (Arena.target?_of_find? hn rfl) (by simp [hu])
    | category hu => exact passed (Arena.target?_of_find? hn rfl) (by simp [hu])
    | @link target title hu =>
      have hp := Arena.not_isPassedOver_of_linkUse (Arena.target?_of_find? hn rfl) hu
      rw [h.preorder_tree hn, Arena.below, hk, Payload.children, List.flatMap_singleton]
      exact .cons ((below hp (List.mem_singleton_self _)).map _)
        fun s => Arena.not_refuses_of_payload hn (by simp)
    | markup kind hq =>
      rw [h.preorder_tree hn, Arena.below, hk, hq.children_eq]
      refine .cons (.map ?_ _) fun s => Arena.not_refuses_of_payload hn hq.ne_element
      cases hc : Page.contentOf? q with
      | none => exact .ends (by simp)
      | some content =>
        simpa using below (Arena.not_isPassedOver (hq.target?_eq_none hn))
          (Page.mem_slots_of_contentOf? hc)
    | unknown hkind =>
      rw [h.preorder_tree hn]
      exact walks_unknown h hn hkind hx
    | tag hkind =>
      have hp : ¬a.IsPassedOver site id := Arena.not_isPassedOver (by rw [Arena.target?, hn]; rfl)
      rw [h.preorder_tree hn]
      have hbody := below hp (List.mem_cons_of_mem _ List.mem_cons_self)
      refine .cons (walks_ofTag h _ hn hbody) fun s hr => ?_
      obtain ⟨empty', attributes', body', g', hn'⟩ := hr.2.element
      obtain ⟨⟨rfl, -⟩, -⟩ := by simpa using hn.symm.trans hn'
      rw [Kind.ofTag?_eq_none_iff.2 hr.2.unknown] at hkind
      cases hkind

end Findings

namespace Arena

variable {a : Arena} {site : Site} {preserve : Bool} {n : NodeId} {s : String}

/-- What the page holds is read, up to the first tag that is refused. -/
theorem Sound.walks_findings (h : a.Sound) (hr : a.Loose root) :
    Findings.Walks (a.Refuses site preserve) (a.below root) (a.findings site preserve) := by
  obtain ⟨content, g, hroot⟩ := h.page
  obtain ⟨items, (hi : a.find? content = some ⟨.list items, none⟩), ha⟩ :=
    (h.fits hroot).lists (content, .content) (List.mem_singleton_self _)
  have hk : a.kids root = [content] := kids_of_find? hroot
  have hshown : a.IsShown site root := fun m _ hm =>
    hm.eq_or_mem.resolve_right fun ⟨z, hz⟩ => hr z hz
  have hne : ¬a.IsPassedOver site root := not_isPassedOver (by rw [target?, hroot]; rfl)
  have hne' : ¬a.IsPassedOver site content := not_isPassedOver (by rw [target?, hi]; rfl)
  rw [below, hk, List.flatMap_singleton, findings, content_eq hroot]
  refine Findings.walks_ofLists h hi fun y hy => ?_
  have hyi : y ∈ items := by
    rw [kids_of_find? hi] at hy
    exact hy
  refine Findings.walks_ofNode h content hy ?_ (ha y hyi)
  exact (hshown.of_mem_kids h.toIsForest hne (by simp [hk])).of_mem_kids h.toIsForest hne' hy

theorem Unsupported.mem_below_read [Entities] {text : String} (hn : (read text).Unsupported site n s) :
    n ∈ (read text).below root := by
  obtain ⟨empty, attributes, body, g, hf⟩ := hn.element
  refine (sound_read text).mem_below_of_reaches (find?_read_root text)
    (reaches_read (index_lt_of_find? hf)) ?_
  rintro rfl
  cases (find?_read_root text).symm.trans hf

theorem walks_findings_read [Entities] (text : String) (site : Site) (preserve : Bool) :
    Findings.Walks ((read text).Refuses site preserve) ((read text).below root)
      ((read text).findings site preserve) :=
  (sound_read text).walks_findings (loose_root_read text)

theorem exists_findings_read [Entities] (text : String) (site : Site) :
    ∃ found, (read text).findings site true = .ok found :=
  (walks_findings_read text site true).exists_ok_iff.2 fun _ _ _ hr => nomatch hr.1

theorem exists_findings_read_iff [Entities] {text : String} :
    (∃ found, (read text).findings site false = .ok found) ↔
      ∀ n name, ¬(read text).Unsupported site n name := by
  rw [(walks_findings_read text site false).exists_ok_iff]
  exact ⟨fun h n name hn => h n hn.mem_below_read name ⟨rfl, hn⟩, fun h n _ name hr => h n name hr.2⟩

theorem findings_read_eq_error [Entities] {text : String} (hn : (read text).Unsupported site n s) :
    ∃ before m after name, (read text).descendants root = .ok (before ++ m :: after) ∧
      (read text).Unsupported site m name ∧
      (∀ x ∈ before, ∀ t, ¬(read text).Unsupported site x t) ∧
      (read text).findings site false = .error (.unsupportedElement m name) := by
  have hbelow := (sound_read text).descendants_eq (find?_read_root text)
  have hwalk := walks_findings_read text site false
  generalize (read text).findings site false = r at *
  cases hwalk with
  | ends h => exact absurd ⟨rfl, hn⟩ (h n hn.mem_below_read s)
  | @stops before after m name hids hm hb =>
    exact ⟨before, m, after, name, hbelow.trans (congrArg _ hids), hm.2,
      fun x hx t ht => hb x hx t ⟨rfl, ht⟩, rfl⟩

end Arena

namespace Page

variable {p : Page} {a : Arena} {site : Site} {title : String} {preserve : Bool}

theorem checkPageTitle_eq_ok (h : Valid.isTitle (Text.onChars Text.trim title) = true) :
    Verifier.checkPageTitle title = .ok (Text.onChars Text.trim title) := by
  rw [Verifier.checkPageTitle, checkTitle, if_pos h]
  rfl

theorem isTitle_of_ofArena (h : ofArena a site title preserve = .ok p) :
    Valid.isTitle (Text.onChars Text.trim title) = true := by
  by_contra hn
  obtain ⟨t, ht, -⟩ := Except.exists_of_bind h
  rw [Verifier.checkPageTitle, checkTitle, if_neg hn] at ht
  cases ht

theorem exists_ofArena_iff (ha : a.Sound) (hr : a.Loose Arena.root) :
    (∃ p, ofArena a site title preserve = .ok p) ↔
      Valid.isTitle (Text.onChars Text.trim title) = true ∧
        ∃ found, a.findings site preserve = .ok found := by
  constructor
  · intro ⟨p, hp⟩
    obtain ⟨t, found, hf, -⟩ := exists_of_ofArena ha hr hp Edit.keptByRegistering_true
      fun _ _ _ => trivial
    exact ⟨isTitle_of_ofArena hp, found, hf⟩
  · intro ⟨ht, found, hf⟩
    have hends := ends_registerFound ha hr hf (Text.onChars Text.trim title)
      Edit.keptByRegistering_true trivial
    obtain ⟨u, q, hq, -⟩ := hends.exists_ok
    refine ⟨q, ?_⟩
    rw [ofArena, checkPageTitle_eq_ok ht, hf]
    simp only [bind, Except.bind, Edit.exec, hq]

theorem ofArena_eq_error {e : PageError} (ht : Valid.isTitle (Text.onChars Text.trim title) = true)
    (hf : a.findings site preserve = .error e) : ofArena a site title preserve = .error e := by
  rw [ofArena, checkPageTitle_eq_ok ht, hf]
  rfl

theorem exists_read_iff [Entities] {text : String} : (∃ p, read text site title preserve = .ok p) ↔
    Valid.isTitle (Text.onChars Text.trim title) = true ∧
      (preserve = false → ∀ n name, ¬(Arena.read text).Unsupported site n name) := by
  rw [read, exists_ofArena_iff (Arena.sound_read text) (Arena.loose_root_read text)]
  cases preserve with
  | true => simp [Arena.exists_findings_read text site]
  | false => simp [Arena.exists_findings_read_iff]

/-- How the reading of a page from a text ends. -/
structure ReadsWell [Entities] (text : String) (site : Site) (title : String) : Prop where
  preserving : (∃ p, read text site title true = .ok p) ↔
    Valid.isTitle (Text.onChars Text.trim title) = true
  refusing : (∃ p, read text site title false = .ok p) ↔
    Valid.isTitle (Text.onChars Text.trim title) = true ∧
      ∀ n name, ¬(Arena.read text).Unsupported site n name
  /-- The error is about the first unsupported tag on the page. -/
  first : Valid.isTitle (Text.onChars Text.trim title) = true →
    (∃ n name, (Arena.read text).Unsupported site n name) → ∃ before n after name,
      (Arena.read text).descendants Arena.root = .ok (before ++ n :: after) ∧
      (Arena.read text).Unsupported site n name ∧
      (∀ m ∈ before, ∀ s, ¬(Arena.read text).Unsupported site m s) ∧
      read text site title false = .error (.unsupportedElement n name)
  unchanged : ∀ {preserve p}, read text site title preserve = .ok p →
    p.arena = Arena.read text ∧ p.source = .ok text

/-- A page can be read if its title is valid and, unless unknown tags are kept, it shows none. -/
theorem readsWell [Entities] (text : String) (site : Site) (title : String) : ReadsWell text site title where
  preserving := by simp [exists_read_iff]
  refusing := by simp [exists_read_iff]
  first ht := by
    intro ⟨n, s, hn⟩
    obtain ⟨before, m, after, name, hd, hm, hb, hf⟩ := Arena.findings_read_eq_error hn
    exact ⟨before, m, after, name, hd, hm, hb, ofArena_eq_error ht hf⟩
  unchanged {preserve p} hp := by
    refine ⟨arena_read hp, ?_⟩
    have hprint := Arena.print_content_read text
    rw [source, arena_read hp,
      (Arena.sound_read text).founded.printPage_eq (Arena.find?_read_root text) hprint]
    rfl

end Page
end WikiPage
