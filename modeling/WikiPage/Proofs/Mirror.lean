import Mathlib.Data.List.Pairwise
import WikiPage.Proofs.Steady
import WikiPage.Proofs.Surgery

/-!
# Stored attributes and tags

The attributes of an element are stored in the table and stand in its tag, and the two say the same; so do
the stored target of a link and the link itself. This stays so where a change leaves alone what stands in
tags and what links lead to.
-/

namespace WikiPage

theorem eq_of_nodup_filterMap {α β : Type} {f : α → Option β} {l : List α} {x y : α} {z : β}
    (h : (l.filterMap f).Nodup) (hx : x ∈ l) (hy : y ∈ l) (hxz : f x = some z) (hyz : f y = some z) :
    x = y := by
  have : Std.Symm fun a a' => ∀ b, f a = some b → ∀ b', f a' = some b' → b ≠ b' :=
    ⟨fun _ _ hr b hb c hc => (hr c hc b hb).symm⟩
  by_contra hne
  exact (List.pairwise_filterMap.1 h).forall hx hy hne z hxz z hyz rfl

namespace Node

theorem texts_congr {l : List NodeId} {f g : NodeId → Tree NodeId Node}
    (h : ∀ x ∈ l, text (f x) = text (g x)) : texts (l.map f) = texts (l.map g) := by
  induction l with
  | nil => rfl
  | cons x l ih =>
    rw [List.forall_mem_cons] at h
    rw [List.map_cons, List.map_cons, texts, texts, h.1, ih h.2]

@[simp] theorem texts_singleton (t : Tree NodeId Node) : texts [t] = text t := by
  rw [texts, texts]
  cases text t with
  | error e => rfl
  | ok s => exact congrArg Except.ok String.append_empty

end Node

namespace Arena

variable {a b c : Arena} {n : NodeId}

theorem kids_eq_of_payload (h : (b.find? n).map Node.payload = (a.find? n).map Node.payload) :
    b.kids n = a.kids n := by
  have hk := congrArg (fun o => (o.map Payload.children).getD []) h
  simpa [kids, Tree.kids, Option.map_map, Function.comp_def] using hk

theorem target?_eq_of_payload
    (h : (b.find? n).map Node.payload = (a.find? n).map Node.payload) : b.target? n = a.target? n := by
  unfold target?
  cases ha : a.find? n <;> cases hb : b.find? n <;> simp_all

theorem exists_of_payload {m : Node} (hn : a.find? n = some m)
    (h : (b.find? n).map Node.payload = (a.find? n).map Node.payload) :
    ∃ g, b.find? n = some ⟨m.payload, g⟩ := by
  rw [hn] at h
  obtain ⟨m', hm', hp⟩ := Option.map_eq_some_iff.1 h
  exact ⟨m'.glue, by rw [hm', ← hp]⟩

/-- A list of attributes or of the parts of a value. -/
def IsTagList (a : Arena) (l : NodeId) : Prop :=
  ∃ id m role, a.find? id = some m ∧ (l, role) ∈ m.payload.slots ∧ role ≠ Role.content

/-- A list of attributes, an attribute, or a part of one. -/
def InTag (a : Arena) (n : NodeId) : Prop :=
  ∃ l, a.IsTagList l ∧ (n = l ∨ n ∈ a.kids l)

/-- Whatever stands in a tag is left as it is. -/
structure KeepsTags (a b : Arena) : Prop extends Evolves a b where
  payload_eq : ∀ {n}, a.InTag n → (b.find? n).map Node.payload = (a.find? n).map Node.payload

theorem IsTagList.inTag (h : a.IsTagList n) : a.InTag n :=
  ⟨n, h, .inl rfl⟩

theorem IsTagList.evolves (h : a.IsTagList n) (hb : a.Evolves b) : b.IsTagList n := by
  obtain ⟨id, m, role, hm, hs, hr⟩ := h
  obtain ⟨m', hm', hs'⟩ := hb.find?_slots hm (List.ne_nil_of_mem hs)
  exact ⟨id, m', role, hm', hs' ▸ hs, hr⟩

theorem inTag_value {m : Node} {l : NodeId} (hm : a.find? n = some m)
    (hs : (l, Role.value) ∈ m.payload.slots) : a.IsTagList l :=
  ⟨n, m, .value, hm, hs, nofun⟩

namespace KeepsTags

theorem refl (a : Arena) : a.KeepsTags a :=
  ⟨.refl a, fun _ => rfl⟩

theorem kids_eq (h : a.KeepsTags b) (hn : a.InTag n) : b.kids n = a.kids n :=
  kids_eq_of_payload (h.payload_eq hn)

theorem inTag (h : a.KeepsTags b) (hn : a.InTag n) : b.InTag n := by
  obtain ⟨l, hl, hnl⟩ := hn
  refine ⟨l, hl.evolves h.toEvolves, hnl.imp_right fun hnl => ?_⟩
  rwa [h.kids_eq hl.inTag]

theorem trans (h : a.KeepsTags b) (h' : b.KeepsTags c) : a.KeepsTags c :=
  ⟨h.toEvolves.trans h'.toEvolves, fun hn => (h'.payload_eq (h.inTag hn)).trans (h.payload_eq hn)⟩

end KeepsTags

namespace Sound

variable {m : Node}

theorem inTag_lt (h : a.Sound) (hn : a.InTag n) : n.index < a.size := by
  obtain ⟨l, ⟨id, m, role, hm, hs, -⟩, rfl | hl⟩ := hn
  · obtain ⟨items, hi⟩ := h.find?_slot hm hs
    exact index_lt_of_find? hi
  · exact h.closed l n hl

theorem not_inTag_of_list (h : a.Sound) {items : List NodeId} {g : Option Glue}
    (hn : a.find? n = some ⟨.list items, g⟩)
    (hr : ∀ {id m role}, a.find? id = some m → (n, role) ∈ m.payload.slots → role = .content) :
    ¬a.InTag n := by
  rintro ⟨l, ⟨id, m, role, hm, hs, hne⟩, rfl | hl⟩
  · exact hne (hr hm hs)
  · obtain ⟨items', hi, his⟩ := (h.fits hm).lists _ hs
    rw [kids_of_find? hi] at hl
    obtain ⟨m', hm', ha⟩ := his n hl
    obtain rfl := Option.some.inj (hn.symm.trans hm')
    rw [Payload.admits_list] at ha
    cases ha

theorem not_inTag_of_admits (h : a.Sound) (hn : a.find? n = some m) (hl : m.payload.isList = false)
    (ha : Role.attributes.admits m.payload = false) (hv : Role.value.admits m.payload = false) :
    ¬a.InTag n := by
  rintro ⟨l, ⟨id, o, role, ho, hs, hne⟩, rfl | hk⟩
  · obtain ⟨items, hi⟩ := h.find?_slot ho hs
    obtain rfl := Option.some.inj (hn.symm.trans hi)
    cases hl
  · obtain ⟨items, hi, his⟩ := (h.fits ho).lists _ hs
    rw [kids_of_find? hi] at hk
    obtain ⟨m', hm', hr⟩ := his n hk
    obtain rfl := Option.some.inj (hn.symm.trans hm')
    cases role <;> simp_all

theorem not_inTag_of_mem (h : a.Sound) {items : List NodeId} {g : Option Glue} {x : NodeId}
    (hn : a.find? n = some ⟨.list items, g⟩) (hx : x ∈ items) (hm : a.find? x = some m)
    (ha : Role.attributes.admits m.payload = false) (hv : Role.value.admits m.payload = false) :
    ¬a.InTag n := by
  refine h.not_inTag_of_list hn fun {id o role} ho hr => ?_
  obtain ⟨items', hi, his⟩ := (h.fits ho).lists _ hr
  obtain rfl := Payload.list.inj (Node.mk.inj (Option.some.inj (hn.symm.trans hi))).1
  obtain ⟨m', hm', hadm⟩ := his x hx
  obtain rfl := Option.some.inj (hm.symm.trans hm')
  cases role <;> simp_all

theorem text_list (h : a.Sound) {items : List NodeId} {g : Option Glue}
    (hn : a.find? n = some ⟨.list items, g⟩) : a.text n = Node.texts (items.map a.tree) := by
  rw [Arena.text, h.founded.tree_eq hn, Node.text]
  rfl

end Sound

theorem Extends.keepsTags (h : a.Extends b) (ha : a.Sound) : a.KeepsTags b :=
  ⟨h.evolves, fun hn => congrArg _ (h.find?_eq _ (ha.inTag_lt hn))⟩

theorem Reglued.keepsTags (h : a.Reglued b) : a.KeepsTags b :=
  ⟨h.evolves, fun _ => h.payload_eq _⟩

theorem keepsTags_setItems {items : List NodeId} {old : List NodeId} {g : Option Glue}
    (hc : a.find? n = some ⟨.list old, g⟩) (hn : ¬a.InTag n) :
    a.KeepsTags (a.setItems n items) := by
  refine ⟨evolves_setItems hc items, fun {x} hx => ?_⟩
  rw [find?_setItems hc, if_neg]
  rintro rfl
  exact hn hx

theorem keepsTags_setPayload {m : Node} {p : Payload} (hm : a.find? n = some m)
    (hp : p.bare = m.payload.bare) (hn : ¬a.InTag n) : a.KeepsTags (a.setPayload n p) := by
  refine ⟨(Alike.setPayload hm hp).evolves, fun {x} hx => ?_⟩
  rw [setPayload, find?_modify, if_neg]
  rintro rfl
  exact hn hx

/-- The name of an attribute as written and what its value reads as. One without a value has its name
for a value. -/
def Inscribes (a : Arena) (n : NodeId) (written s : String) : Prop :=
  ∃ hasValue value g, a.find? n = some ⟨.attr written hasValue value, g⟩ ∧
    if hasValue then a.text value = .ok s else s = written

/-- Below an attribute there are its value and the parts of it. -/
theorem Sound.cases_of_reaches_attr (h : a.Sound) {written : String} {hasValue : Bool} {v y : NodeId}
    {g : Option Glue} (hn : a.find? n = some ⟨.attr written hasValue v, g⟩)
    (hr : Reaches a.kids n y) : y = n ∨ y = v ∨ y ∈ a.kids v ∧ a.Is Role.value.admits y := by
  obtain ⟨items, hi, his⟩ := (h.fits hn).lists (v, .value) (List.mem_singleton_self _)
  have hkv : a.kids v = items := kids_of_find? hi
  rcases Relation.ReflTransGen.cases_head hr with rfl | ⟨z, hz, hr⟩
  · exact .inl rfl
  rw [kids_of_find? hn] at hz
  obtain rfl := List.mem_singleton.1 hz
  rcases Relation.ReflTransGen.cases_head hr with rfl | ⟨w, hw, hr⟩
  · exact .inr (.inl rfl)
  have hpart := his w (hkv ▸ hw)
  rcases Relation.ReflTransGen.cases_head hr with rfl | ⟨u, hu, -⟩
  · exact .inr (.inr ⟨hw, hpart⟩)
  · obtain ⟨m, hm, ha⟩ := hpart
    rw [kids_of_find? hm] at hu
    cases hp : m.payload <;> simp_all [Role.admits, Payload.children]

/-- An attribute says the same where nothing at or below it has changed. -/
theorem Inscribes.of_payload {written s : String} (h : a.Inscribes n written s) (ha : a.Sound)
    (hb : b.Sound) (hp : ∀ {y}, Reaches a.kids n y →
      (b.find? y).map Node.payload = (a.find? y).map Node.payload) : b.Inscribes n written s := by
  obtain ⟨hasValue, v, g, hf, hs⟩ := h
  obtain ⟨g', hf'⟩ := exists_of_payload hf (hp .refl)
  refine ⟨hasValue, v, g', hf', ?_⟩
  obtain ⟨items, hi, his⟩ := (ha.fits hf).lists (v, .value) (List.mem_singleton_self _)
  have hv : Reaches a.kids n v := .single (by rw [kids_of_find? hf]; exact List.mem_singleton_self _)
  obtain ⟨g'', hi'⟩ := exists_of_payload hi (hp hv)
  have ht : b.text v = a.text v := by
    rw [ha.text_list hi, hb.text_list hi']
    refine Node.texts_congr fun y hy => ?_
    obtain ⟨m, hm, hr⟩ := his y hy
    obtain ⟨g, hg⟩ := exists_of_payload hm (hp (hv.tail (by rw [kids_of_find? hi]; exact hy)))
    rw [ha.founded.tree_eq hm, hb.founded.tree_eq hg]
    cases hq : m.payload <;> simp_all [Role.admits, Node.text]
  rwa [ht]

theorem Inscribes.keepsTags {written s : String} (h : a.Inscribes n written s) (ha : a.Sound)
    (hb : b.Sound) (hk : a.KeepsTags b) (hn : a.InTag n) : b.Inscribes n written s := by
  obtain ⟨hasValue, v, g, hf, -⟩ := id h
  have hl : a.IsTagList v := inTag_value hf (List.mem_singleton_self _)
  refine h.of_payload ha hb fun hr => hk.payload_eq ?_
  rcases ha.cases_of_reaches_attr hf hr with rfl | rfl | ⟨hy, -⟩
  · exact hn
  · exact hl.inTag
  · exact ⟨v, hl, .inr hy⟩

theorem isTagList_of_attributeList? {backing : Option Backing} {l : NodeId}
    (h : a.attributeList? backing = some l) : a.IsTagList l := by
  match backing, h with
  | some (.tag tag), h =>
    obtain ⟨m, hm, hs⟩ := Option.bind_eq_some_iff.1 h
    exact ⟨tag, m, .attributes, hm, Page.mem_slots_of_attributesOf? hs, nofun⟩

/-- The name of an attribute in lower case. -/
def attrName? (a : Arena) (n : NodeId) : Option String :=
  match a.find? n with
  | some ⟨.attr name _ _, _⟩ => some name.toLower
  | _ => none

def attrNames (a : Arena) (list : NodeId) : List String :=
  (a.kids list).filterMap a.attrName?

/-- No tag has two attributes whose names differ in case only. -/
def NamesOnce (a : Arena) : Prop :=
  ∀ i < a.size, (a.attrNames ⟨i⟩).Nodup

instance (a : Arena) : Decidable a.NamesOnce :=
  inferInstanceAs (Decidable (∀ i < a.size, (a.attrNames ⟨i⟩).Nodup))

theorem Inscribes.attrName? {written s : String} (h : a.Inscribes n written s) :
    a.attrName? n = some written.toLower := by
  obtain ⟨hasValue, value, g, hn, -⟩ := h
  rw [Arena.attrName?, hn]

theorem NamesOnce.eq (h : a.NamesOnce) {list m : NodeId} {s : String} (hm : m ∈ a.kids list)
    (hn : n ∈ a.kids list) (hms : a.attrName? m = some s) (hns : a.attrName? n = some s) : m = n := by
  refine eq_of_nodup_filterMap (h list.index ?_) hm hn hms hns
  by_contra hlt
  rw [kids_eq_nil (Nat.le_of_not_lt hlt)] at hm
  cases hm

/-- An attribute stands in a tag as it is stored. -/
def Records (a : Arena) (kind : Kind) (t : Attribute) (n : NodeId) : Prop :=
  ∃ written s policy, a.Inscribes n written s ∧ written.toLower = t.name ∧
    Policy.find? kind t.name = some policy ∧ policy.normalization.apply s = t.value

/-- What is stored for an element agrees with its node. If `whole` holds, everything in its tag is
stored. -/
structure Mirrors (a : Arena) (whole : Prop) (kind : Kind) (backing : Option Backing)
    (attributes : List Attribute) : Prop where
  lower : ∀ t ∈ attributes, t.name.toLower = t.name
  nodup : (attributes.map Attribute.name).Nodup
  /-- Markup that could be a tag has no attributes. -/
  bare : ∀ {n}, kind.tag? ≠ none → backing = some (.markup n) → attributes = []
  written : ∀ {n}, kind.tag? ≠ none → backing = some (.tag n) →
    ∀ t ∈ attributes, ∃ m, t.node = some m ∧ a.Records kind t m
  whole : whole → kind.tag? ≠ none → ∀ {l}, a.attributeList? backing = some l →
    a.kids l ⊆ attributes.filterMap Attribute.node
  target : ∀ {n}, kind = .link → backing = some (.markup n) →
    (Attribute.find? attributes "target").map Attribute.value =
      (a.target? n).map Normalization.words.apply

namespace Mirrors

variable {whole : Prop} {kind : Kind} {backing : Option Backing} {attributes : List Attribute}

theorem imp {whole' : Prop} (h : a.Mirrors whole kind backing attributes) (hw : whole' → whole) :
    a.Mirrors whole' kind backing attributes :=
  ⟨h.lower, h.nodup, h.bare, h.written, fun hwh => h.whole (hw hwh), h.target⟩

/-- Nothing else is asked of kinds that have no tag and are no links. -/
theorem of_untagged (hk : kind.tag? = none) (hl : kind ≠ .link)
    (lower : ∀ t ∈ attributes, t.name.toLower = t.name)
    (nodup : (attributes.map Attribute.name).Nodup) : a.Mirrors whole kind backing attributes :=
  ⟨lower, nodup, fun h => absurd hk h, fun h => absurd hk h, fun _ h => absurd hk h,
    fun h => absurd h hl⟩

theorem of_link (lower : ∀ t ∈ attributes, t.name.toLower = t.name)
    (nodup : (attributes.map Attribute.name).Nodup)
    (target : ∀ {n}, backing = some (.markup n) →
      (Attribute.find? attributes "target").map Attribute.value =
        (a.target? n).map Normalization.words.apply) : a.Mirrors whole .link backing attributes :=
  ⟨lower, nodup, fun h => absurd rfl h, fun h => absurd rfl h, fun _ h => absurd rfl h,
    fun _ hn => target hn⟩

theorem of_tag {l : NodeId} (hl : a.attributeList? backing = some l)
    (lower : ∀ t ∈ attributes, t.name.toLower = t.name)
    (nodup : (attributes.map Attribute.name).Nodup)
    (written : ∀ t ∈ attributes, ∃ m, t.node = some m ∧ a.Records kind t m)
    (hw : whole → a.kids l ⊆ attributes.filterMap Attribute.node) :
    a.Mirrors whole kind backing attributes where
  lower := lower
  nodup := nodup
  bare _ hn := by
    subst hn
    cases hl
  written _ _ := written
  whole h _ l' hl' := by
    obtain rfl := Option.some.inj (hl.symm.trans hl')
    exact hw h
  target _ hn := by
    subst hn
    cases hl

theorem nil (hl : kind ≠ .link) (hk : ∀ {l}, a.attributeList? backing = some l → a.kids l = []) :
    a.Mirrors whole kind backing [] :=
  ⟨by simp, .nil, fun _ _ => rfl, by simp, fun _ _ _ hl' => by simp [hk hl'], fun h => absurd h hl⟩

/-- What holds of an element in one arena holds in another where its attributes say the same and no
other ones have come to its tag. -/
theorem transport (h : a.Mirrors whole kind backing attributes)
    (hi : ∀ {n written s}, n ∈ attributes.filterMap Attribute.node → a.Inscribes n written s →
      b.Inscribes n written s)
    (hl : ∀ {l}, b.attributeList? backing = some l →
      a.attributeList? backing = some l ∧ b.kids l = a.kids l)
    (ht : ∀ {n}, kind = .link → backing = some (.markup n) → b.target? n = a.target? n) :
    b.Mirrors whole kind backing attributes where
  lower := h.lower
  nodup := h.nodup
  bare := h.bare
  written hk hn t hm := by
    obtain ⟨m, hnode, written, s, policy, hs, hr⟩ := h.written hk hn t hm
    exact ⟨m, hnode, written, s, policy, hi (List.mem_filterMap.2 ⟨t, hm, hnode⟩) hs, hr⟩
  whole hwh hk l hbl := by
    obtain ⟨hal, hkids⟩ := hl hbl
    exact hkids ▸ h.whole hwh hk hal
  target hk hn := ht hk hn ▸ h.target hk hn

theorem keepsTags (h : a.Mirrors whole kind backing attributes) (ha : a.Sound) (hb : b.Sound)
    (hk : a.KeepsTags b) (hw : a.Writes kind backing)
    (hin : ∀ n ∈ attributes.filterMap Attribute.node, a.InTag n)
    (ht : ∀ {n}, kind = .link → backing = some (.markup n) → b.target? n = a.target? n) :
    b.Mirrors whole kind backing attributes := by
  refine h.transport (fun hn hs => hs.keepsTags ha hb hk (hin _ hn)) (fun hl => ?_) ht
  rw [hk.attributeList?_eq hw] at hl
  exact ⟨hl, hk.kids_eq (isTagList_of_attributeList? hl).inTag⟩

end Mirrors

end Arena

namespace Page

variable {p q r : Page} {x : ElementId} {n : NodeId}

theorem isTagList_of_attributeList? (h : p.attributeList? x = some n) : p.arena.IsTagList n := by
  obtain ⟨f, -, h⟩ := Option.bind_eq_some_iff.1 h
  exact Arena.isTagList_of_attributeList? h

namespace Synced

theorem inTag_of_written (h : p.Synced) (hn : n ∈ p.writtenOf x) : p.arena.InTag n := by
  obtain ⟨c, hc, hk⟩ := h.exists_of_written hn
  exact ⟨c, isTagList_of_attributeList? hc, .inr hk⟩

theorem container_not_inTag (h : p.Synced) (hc : p.container? x = some n) : ¬p.arena.InTag n := by
  obtain ⟨items, hi⟩ := h.find?_container hc
  exact h.sound.not_inTag_of_list hi (h.role_of_container hc)

theorem backing_not_inTag (h : p.Synced) (hn : p.backing? x = some n) : ¬p.arena.InTag n := by
  by_cases hx : x = body
  · subst hx
    exact h.container_not_inTag (h.body_container.trans (h.body_backing.symm.trans hn))
  · obtain ⟨m, hm, hl⟩ := h.find?_backing hn hx
    rintro ⟨l, ⟨id, o, role, ho, hs, hne⟩, rfl | hk⟩
    · obtain ⟨items, hi⟩ := h.sound.find?_slot ho hs
      obtain rfl := Option.some.inj (hm.symm.trans hi)
      cases hl
    · obtain ⟨y, -, hc⟩ := h.home hn hx hk
      exact hne (h.role_of_container hc ho hs)

end Synced

/-- What is stored for the elements of a page agrees with their nodes. -/
def Mirrored (whole : Prop) (p : Page) : Prop :=
  ∀ x e, p.find? x = some e → p.arena.Mirrors whole e.kind e.backing e.attributes

theorem Mirrored.imp {whole whole' : Prop} (h : p.Mirrored whole) (hw : whole' → whole) :
    p.Mirrored whole' :=
  fun x e hx => (h x e hx).imp hw

/-- What stands in tags and what the links of elements lead to are left as they are. -/
structure Spares (p q : Page) : Prop where
  keepsTags : p.arena.KeepsTags q.arena
  target : ∀ {x n}, p.form? x = some (.link, some (.markup n)) →
    q.arena.target? n = p.arena.target? n

/-- An element with the attributes and the node that it had. Texts may be given other nodes. -/
def Same (p : Page) (x : ElementId) (e : Element) : Prop :=
  ∃ d, p.find? x = some d ∧ e.kind = d.kind ∧ e.attributes = d.attributes ∧
    (e.backing = d.backing ∨ e.kind = .text)

/-- The elements that are left as they are agree with their nodes where tags and the targets of links
are left as they are. -/
theorem Mirrored.carried {whole : Prop} (h : p.Mirrored whole) (hp : p.Synced) (hq : q.arena.Sound)
    (hk : p.arena.KeepsTags q.arena) (he : ∀ {x e}, q.find? x = some e →
      (p.Same x e ∧ ∀ {n}, p.form? x = some (.link, some (.markup n)) →
        q.arena.target? n = p.arena.target? n) ∨
      q.arena.Mirrors whole e.kind e.backing e.attributes) : q.Mirrored whole := by
  intro x e hx
  refine (he hx).elim ?_ id
  rintro ⟨⟨d, hd, hkind, hattr, hback⟩, ht⟩
  have hm := h x d hd
  by_cases htext : e.kind = .text
  · refine .of_untagged (by rw [htext]; rfl) (by rw [htext]; nofun) ?_ ?_
    · exact hattr ▸ hm.lower
    · exact hattr ▸ hm.nodup
  · rw [hkind, hattr, hback.resolve_right htext]
    refine hm.keepsTags hp.sound hq hk (hp.writes (form?_of_find? hd)) (fun n hn => ?_)
      fun hl hn => ht ?_
    · exact hp.inTag_of_written (x := x) (by rwa [writtenOf_of_find? hd])
    · rw [form?_of_find? hd, hl, hn]

theorem Mirrored.spared {whole : Prop} (h : p.Mirrored whole) (hp : p.Synced) (hq : q.arena.Sound)
    (hs : p.Spares q) (he : ∀ {x e}, q.find? x = some e →
      p.Same x e ∨ q.arena.Mirrors whole e.kind e.backing e.attributes) : q.Mirrored whole :=
  h.carried hp hq hs.keepsTags fun hx => (he hx).imp_left fun hx => ⟨hx, hs.target⟩

theorem Mirrored.of_map {whole : Prop} {g : ElementId → Element → Element} (h : p.Mirrored whole)
    (ha : q.arena = p.arena) (hf : ∀ x, q.find? x = (p.find? x).map (g x))
    (hg : ∀ x e, (g x e).kind = e.kind ∧ (g x e).backing = e.backing ∧
      (g x e).attributes = e.attributes) : q.Mirrored whole := by
  intro x e hx
  rw [hf] at hx
  obtain ⟨d, hd, rfl⟩ := Option.map_eq_some_iff.1 hx
  obtain ⟨hk, hb, hattr⟩ := hg x d
  rw [ha, hk, hb, hattr]
  exact h x d hd

/-- A change that leaves the categories alone and what is stored for the elements in agreement with
their nodes. -/
structure Calm (p q : Page) : Prop extends Steady p q where
  mirrored : ∀ {whole}, p.Mirrored whole → q.Mirrored whole

namespace Calm

theorem trans (h : p.Calm q) (h' : q.Calm r) : p.Calm r :=
  ⟨h.toSteady.trans h'.toSteady, fun hm => h'.mirrored (h.mirrored hm)⟩

end Calm

namespace Synced

variable {b : Arena}

theorem calm_refl (h : p.Synced) : p.Calm p :=
  ⟨h.steady_refl, id⟩

theorem calm_of_arena (h : p.Synced) (hs : p.Steady { p with arena := b })
    (hb : p.arena.KeepsTags b) (ht : ∀ {x n}, p.backing? x = some n →
      b.target? n = p.arena.target? n) : p.Calm { p with arena := b } :=
  ⟨hs, fun hm => hm.spared h hs.synced.sound ⟨hb, fun hf => ht (backing?_of_form? hf)⟩
    fun {_ e} he => .inl ⟨e, he, rfl, rfl, .inl rfl⟩⟩

theorem calm_tidied (h : p.Synced) (hb : p.arena.Tidied b) (hk : p.arena.KeepsTags b) :
    p.Calm { p with arena := b } :=
  h.calm_of_arena (h.steady_tidied hb) hk fun _ => hb.target?_eq _

theorem calm_reglued (h : p.Synced) (hb : p.arena.Reglued b) : p.Calm { p with arena := b } :=
  h.calm_tidied hb.toTidied hb.keepsTags

theorem calm_extends (h : p.Synced) (hs : p.Steady { p with arena := b }) (hb : p.arena.Extends b) :
    p.Calm { p with arena := b } :=
  h.calm_of_arena hs (hb.keepsTags h.sound) fun hn => hb.target?_eq (h.backing_lt hn)

theorem calm_push_leaf (h : p.Synced) {m : Node} (hc : m.payload.children = [])
    (hs : m.payload.slots = []) (hg : m.GlueFits) : p.Calm { p with arena := p.arena.push m } :=
  h.calm_extends (h.steady_push_leaf hc hs hg) (.push _ _)

theorem calm_setItems (h : p.Synced) {c : NodeId} {items old : List NodeId} {g : Option Glue}
    (hc : p.arena.find? c = some ⟨.list old, g⟩)
    (hs : p.Steady { p with arena := p.arena.setItems c items }) (hn : ¬p.arena.InTag c) :
    p.Calm { p with arena := p.arena.setItems c items } :=
  h.calm_of_arena hs (Arena.keepsTags_setItems hc hn) fun _ => Arena.target?_setItems hc _

end Synced

theorem Calm.reglued (h : p.Calm q) {b : Arena} (hb : q.arena.Reglued b) :
    p.Calm { q with arena := b } :=
  h.trans (h.synced.calm_reglued hb)

end Page
end WikiPage
