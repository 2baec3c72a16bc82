import WikiPage.Proofs.Forest

/-!
# Sound arenas

The lists of a node hold what they are for, and glue fits its node. Changes of texts, names and glue
keep an arena sound whatever they are; changes of what a list holds do so if the arena stays a forest
and the list holds what it is for.
-/

namespace WikiPage

/-- What a list is for. -/
inductive Role
  | attributes | value | content
  deriving DecidableEq

/-- What may stand in the lists of a role. -/
def Role.admits : Role → Payload → Bool
  | attributes, .attr _ _ _ => true
  | value, .text _ => true
  | value, .reference _ => true
  | content, .page _ => false
  | content, .list _ => false
  | content, .attr _ _ _ => false
  | content, _ => true
  | _, _ => false

namespace Payload

/-- The lists that a node has. -/
def slots : Payload → List (NodeId × Role)
  | page content => [(content, .content)]
  | paragraph content => [(content, .content)]
  | emphasis _ content => [(content, .content)]
  | link _ title => [(title, .content)]
  | element _ _ attributes body => [(attributes, .attributes), (body, .content)]
  | attr _ _ value => [(value, .value)]
  | _ => []

/-- A payload without its texts, names and flags: what it is and what stands below it. -/
def bare : Payload → Payload
  | text _ => text ""
  | newline _ => newline ""
  | link _ title => link "" title
  | element _ _ attributes body => element "" false attributes body
  | attr _ _ value => attr "" false value
  | comment _ => comment ""
  | reference _ => reference (.char 0)
  | p => p

theorem children_eq_slots {p : Payload} (h : p.isList = false) :
    p.children = p.slots.map Prod.fst := by
  cases p <;> first | rfl | cases h

theorem children_of_mem_slots {p : Payload} {s : NodeId × Role} (h : s ∈ p.slots) :
    s.1 ∈ p.children := by
  cases p with
  | element name empty attributes body => grind [slots, children]
  | _ => simp_all [slots, children]

theorem admits_list (r : Role) (items : List NodeId) : r.admits (.list items) = false := by
  cases r <;> rfl

@[simp] theorem children_bare (p : Payload) : p.bare.children = p.children := by
  cases p <;> rfl

@[simp] theorem isList_bare (p : Payload) : p.bare.isList = p.isList := by
  cases p <;> rfl

@[simp] theorem slots_bare (p : Payload) : p.bare.slots = p.slots := by
  cases p <;> rfl

@[simp] theorem admits_bare (r : Role) (p : Payload) : r.admits p.bare = r.admits p := by
  cases p <;> cases r <;> rfl

theorem eq_list_of_bare {p : Payload} {items : List NodeId} (h : p.bare = .list items) :
    p = .list items := by
  cases p <;> simp_all [bare]

theorem eq_page_of_bare {p : Payload} {content : NodeId} (h : p.bare = .page content) :
    p = .page content := by
  cases p <;> simp_all [bare]

end Payload

namespace Node

/-- Glue has its slots, and a list has none. -/
def GlueFits (n : Node) : Prop :=
  ∀ g, n.glue = some g → n.payload.isList = false ∧ g.size = n.payload.children.length + 1

theorem glueFits_none {p : Payload} : GlueFits ⟨p, none⟩ :=
  fun _ h => nomatch h

theorem GlueFits.of_bare {n : Node} {p : Payload} (h : n.GlueFits) (hp : p.bare = n.payload.bare) :
    GlueFits { n with payload := p } := by
  intro g hg
  have hl : p.isList = n.payload.isList := by
    rw [← Payload.isList_bare, hp, Payload.isList_bare]
  have hc : p.children = n.payload.children := by
    rw [← Payload.children_bare, hp, Payload.children_bare]
  exact ⟨hl ▸ (h g hg).1, hc ▸ (h g hg).2⟩

end Node

namespace Arena

/-- A node of a kind. -/
def Is (a : Arena) (kind : Payload → Bool) (id : NodeId) : Prop :=
  ∃ n, a.find? id = some n ∧ kind n.payload = true

/-- A list for a role. -/
def ListOf (a : Arena) (role : Role) (id : NodeId) : Prop :=
  ∃ items, a.find? id = some ⟨.list items, none⟩ ∧ ∀ x ∈ items, a.Is role.admits x

structure Fits (a : Arena) (n : Node) : Prop where
  lists : ∀ s ∈ n.payload.slots, a.ListOf s.2 s.1
  glue : n.GlueFits

structure Sound (a : Arena) : Prop extends a.IsForest where
  fits : ∀ {id n}, a.find? id = some n → a.Fits n
  page : ∃ content g, a.find? root = some ⟨.page content, g⟩

/-- An arena with more nodes. -/
structure Extends (a b : Arena) : Prop where
  size_le : a.size ≤ b.size
  find?_eq : ∀ id : NodeId, id.index < a.size → b.find? id = a.find? id

namespace Extends

variable {a b c : Arena}

theorem refl (a : Arena) : a.Extends a :=
  ⟨Nat.le_refl _, fun _ _ => rfl⟩

theorem trans (h : a.Extends b) (h' : b.Extends c) : a.Extends c :=
  ⟨Nat.le_trans h.size_le h'.size_le, fun id hid =>
    (h'.find?_eq id (Nat.lt_of_lt_of_le hid h.size_le)).trans (h.find?_eq id hid)⟩

theorem push (a : Arena) (n : Node) : a.Extends (a.push n) := by
  refine ⟨by simp, fun id hid => ?_⟩
  rw [find?_push, if_neg]
  rintro rfl
  exact Nat.lt_irrefl _ hid

theorem find?_of_find? (h : a.Extends b) {id : NodeId} {n : Node} (hn : a.find? id = some n) :
    b.find? id = some n :=
  (h.find?_eq id (index_lt_of_find? hn)).trans hn

theorem kids_eq (h : a.Extends b) {x : NodeId} (hx : x.index < a.size) : b.kids x = a.kids x := by
  rw [kids, Tree.kids, h.find?_eq x hx]
  rfl

end Extends

variable {a b : Arena} {role : Role} {id : NodeId}

theorem Is.extends {kind : Payload → Bool} (h : a.Is kind id) (hb : a.Extends b) : b.Is kind id := by
  obtain ⟨n, hn, hr⟩ := h
  exact ⟨n, hb.find?_of_find? hn, hr⟩

theorem ListOf.extends (h : a.ListOf role id) (hb : a.Extends b) : b.ListOf role id := by
  obtain ⟨items, hi, hr⟩ := h
  exact ⟨items, hb.find?_of_find? hi, fun x hx => (hr x hx).extends hb⟩

theorem Fits.extends {n : Node} (hb : a.Extends b) (h : a.Fits n) : b.Fits n :=
  ⟨fun s hs => (h.lists s hs).extends hb, h.glue⟩

theorem next_index_lt (a : Arena) (n : Node) : a.next.index < (a.push n).size := by
  rw [size_push]
  exact Nat.lt_succ_self _

theorem find?_push_next (a : Arena) (n : Node) : (a.push n).find? a.next = some n := by
  simp

theorem Is.push_next {kind : Payload → Bool} {n : Node} (h : kind n.payload = true) :
    (a.push n).Is kind a.next :=
  ⟨n, find?_push_next a n, h⟩

theorem ListOf.push_next {items : List NodeId} (h : ∀ x ∈ items, a.Is role.admits x) :
    (a.push ⟨.list items, none⟩).ListOf role a.next :=
  ⟨items, find?_push_next a _, fun x hx => (h x hx).extends (.push _ _)⟩

namespace Sound

theorem push (h : a.Sound) {n : Node} (hf : a.Fits n) (hn : n.payload.children.Nodup)
    (hb : ∀ y ∈ n.payload.children, y.index < a.size)
    (hl : ∀ y ∈ n.payload.children, a.Loose y) : (a.push n).Sound where
  toIsForest := h.toIsForest.push hn hb hl
  fits {id m} hm := by
    rw [find?_push] at hm
    split at hm
    · obtain rfl := Option.some.inj hm
      exact hf.extends (.push _ _)
    · exact (h.fits hm).extends (.push _ _)
  page := by
    obtain ⟨c, g, hp⟩ := h.page
    exact ⟨c, g, (Extends.push a n).find?_of_find? hp⟩

theorem find?_of_list (h : a.Sound) {items : List NodeId} {g : Option Glue}
    (hn : a.find? id = some ⟨.list items, g⟩) : a.find? id = some ⟨.list items, none⟩ := by
  cases g with
  | none => exact hn
  | some g => exact absurd ((h.fits hn).glue g rfl).1 (by simp [Payload.isList])

theorem find?_slot (h : a.Sound) {n : Node} (hn : a.find? id = some n) {s : NodeId × Role}
    (hs : s ∈ n.payload.slots) : ∃ items, a.find? s.1 = some ⟨.list items, none⟩ := by
  obtain ⟨items, hi, _⟩ := (h.fits hn).lists s hs
  exact ⟨items, hi⟩

end Sound

namespace Sound

/-- A list has one role. -/
theorem role_unique (h : a.Sound) {x y c : NodeId} {m n : Node} {r r' : Role}
    (hm : a.find? x = some m) (hn : a.find? y = some n) (hr : (c, r) ∈ m.payload.slots)
    (hr' : (c, r') ∈ n.payload.slots) : x = y ∧ r = r' := by
  have hx : c ∈ a.kids x := by
    rw [kids_of_find? hm]
    exact Payload.children_of_mem_slots hr
  have hy : c ∈ a.kids y := by
    rw [kids_of_find? hn]
    exact Payload.children_of_mem_slots hr'
  obtain rfl := h.single hx hy
  obtain rfl := Option.some.inj (hm.symm.trans hn)
  have hd := h.nodup x
  rw [kids_of_find? hm] at hd
  refine ⟨rfl, ?_⟩
  cases hp : m.payload with
  | element name empty attributes body => grind [Payload.slots, Payload.children]
  | _ => simp_all [Payload.slots]

end Sound

theorem exists_of_setGlue {g : Option Glue} (h : a.setGlue id g = .ok b) :
    ∃ n, a.find? id = some n ∧ Node.GlueFits ⟨n.payload, g⟩ ∧
      b = a.modify id fun n => { n with glue := g } := by
  cases hn : a.find? id with
  | none => simp [setGlue, get, hn, bind, Except.bind] at h
  | some n =>
    refine ⟨n, rfl, ?_⟩
    simp only [setGlue, get, hn, bind, Except.bind] at h
    cases g with
    | none => exact ⟨Node.glueFits_none, (Except.ok.inj h).symm⟩
    | some g =>
      dsimp only at h
      split at h
      · cases h
      · split at h
        · refine ⟨fun g' hg' => ?_, (Except.ok.inj h).symm⟩
          obtain rfl := Option.some.inj hg'
          exact ⟨by simp_all, ‹_›⟩
        · cases h

/-- An arena with other texts, names, flags and glue. -/
structure Alike (a b : Arena) : Prop where
  bare : ∀ id, (b.find? id).map (·.payload.bare) = (a.find? id).map (·.payload.bare)
  glue : ∀ {id m}, b.find? id = some m → ∃ n, a.find? id = some n ∧ (n.GlueFits → m.GlueFits)

namespace Alike

variable {c : Arena}

theorem refl (a : Arena) : a.Alike a :=
  ⟨fun _ => rfl, fun hm => ⟨_, hm, fun h => h⟩⟩

theorem trans (h : a.Alike b) (h' : b.Alike c) : a.Alike c := by
  refine ⟨fun id => (h'.bare id).trans (h.bare id), fun hm => ?_⟩
  obtain ⟨n, hn, hg⟩ := h'.glue hm
  obtain ⟨o, ho, hg'⟩ := h.glue hn
  exact ⟨o, ho, hg ∘ hg'⟩

theorem find?_of_find? (h : a.Alike b) {n : Node} (hn : a.find? id = some n) :
    ∃ m, b.find? id = some m ∧ m.payload.bare = n.payload.bare := by
  have hb := h.bare id
  rw [hn] at hb
  cases hm : b.find? id with
  | none => simp [hm] at hb
  | some m => exact ⟨m, rfl, by simpa [hm] using hb⟩

theorem exists_of_find? (h : a.Alike b) {m : Node} (hm : b.find? id = some m) :
    ∃ n, a.find? id = some n ∧ m.payload.bare = n.payload.bare := by
  have hb := h.bare id
  rw [hm] at hb
  cases hn : a.find? id with
  | none => simp [hn] at hb
  | some n => exact ⟨n, rfl, by simpa [hn] using hb⟩

theorem size_eq (h : a.Alike b) : b.size = a.size := by
  refine Nat.le_antisymm ?_ ?_
  · have hb := h.bare ⟨a.size⟩
    have hn : a.find? ⟨a.size⟩ = none := find?_eq_none_iff.2 (Nat.le_refl a.size)
    rw [hn] at hb
    exact find?_eq_none_iff.1 (Option.map_eq_none_iff.1 hb)
  · have hb := h.bare ⟨b.size⟩
    have hn : b.find? ⟨b.size⟩ = none := find?_eq_none_iff.2 (Nat.le_refl b.size)
    rw [hn] at hb
    exact find?_eq_none_iff.1 (Option.map_eq_none_iff.1 hb.symm)

theorem kids_eq (h : a.Alike b) : b.kids = a.kids := by
  funext x
  have hc (p : Payload) : p.children = p.bare.children := (Payload.children_bare p).symm
  have hb := congrArg (Option.map Payload.children) (h.bare x)
  simp only [Option.map_map] at hb
  simp only [kids, Tree.kids]
  rw [show (fun n : Node => n.payload.children) = Payload.children ∘ fun n => n.payload.bare from
    funext fun n => hc n.payload, hb]

theorem is (h : a.Alike b) (hi : a.Is role.admits id) : b.Is role.admits id := by
  obtain ⟨n, hn, hr⟩ := hi
  obtain ⟨m, hm, hb⟩ := h.find?_of_find? hn
  exact ⟨m, hm, by rw [← Payload.admits_bare, hb, Payload.admits_bare, hr]⟩

theorem isForest (h : a.Alike b) (ha : a.IsForest) : b.IsForest where
  toForest := h.kids_eq ▸ ha.toForest
  closed := by
    rw [h.kids_eq, h.size_eq]
    exact ha.closed

theorem sound (h : a.Alike b) (ha : a.Sound) : b.Sound where
  toIsForest := h.isForest ha.toIsForest
  fits {id m} hm := by
    obtain ⟨n, hn, hg⟩ := h.glue hm
    obtain ⟨n', hn', hb⟩ := h.exists_of_find? hm
    obtain rfl : n = n' := Option.some.inj (hn.symm.trans hn')
    refine ⟨fun s hs => ?_, hg (ha.fits hn).glue⟩
    rw [← Payload.slots_bare, hb, Payload.slots_bare] at hs
    obtain ⟨items, hi, hr⟩ := (ha.fits hn).lists s hs
    obtain ⟨m', hm', hb'⟩ := h.find?_of_find? hi
    refine ⟨items, ?_, fun x hx => h.is (hr x hx)⟩
    obtain ⟨o, ho, hg'⟩ := h.glue hm'
    obtain rfl : _ = o := Option.some.inj (hi.symm.trans ho)
    have hp := Payload.eq_list_of_bare hb'
    cases hmg : m'.glue with
    | none =>
      rw [hm', ← hp, ← hmg]
    | some g =>
      have := (hg' (ha.fits hi).glue g hmg).1
      rw [hp] at this
      cases this
  page := by
    obtain ⟨c, g, hp⟩ := ha.page
    obtain ⟨m, hm, hb⟩ := h.find?_of_find? hp
    exact ⟨c, m.glue, by rw [hm, ← Payload.eq_page_of_bare hb]⟩

theorem find?_slots (h : a.Alike b) {n : Node} (hn : a.find? id = some n) :
    ∃ m, b.find? id = some m ∧ m.payload.slots = n.payload.slots := by
  obtain ⟨m, hm, hp⟩ := h.find?_of_find? hn
  exact ⟨m, hm, by rw [← Payload.slots_bare, hp, Payload.slots_bare]⟩

theorem setPayload {n : Node} {p : Payload} (hn : a.find? id = some n)
    (hp : p.bare = n.payload.bare) : a.Alike (a.setPayload id p) := by
  refine ⟨fun x => ?_, fun {x m} hm => ?_⟩
  · rw [Arena.setPayload, find?_modify]
    split
    · subst x
      simp [hn, hp]
    · rfl
  · rw [Arena.setPayload, find?_modify] at hm
    split at hm
    · subst x
      rw [hn] at hm
      obtain rfl := Option.some.inj hm
      exact ⟨n, hn, fun h => h.of_bare hp⟩
    · exact ⟨m, hm, fun h => h⟩

theorem setGlue {g : Option Glue} (h : a.setGlue id g = .ok b) : a.Alike b := by
  obtain ⟨n, hn, hg, rfl⟩ := exists_of_setGlue h
  refine ⟨fun x => ?_, fun {x m} hm => ?_⟩
  · rw [find?_modify]
    split
    · subst x
      simp [hn]
    · rfl
  · rw [find?_modify] at hm
    split at hm
    · subst x
      rw [hn] at hm
      obtain rfl := Option.some.inj hm
      exact ⟨n, hn, fun _ => hg⟩
    · exact ⟨m, hm, fun h => h⟩

end Alike

/-- The target of a link. -/
def target? (a : Arena) (id : NodeId) : Option String :=
  (a.find? id).bind fun n => match n.payload with
    | .link target _ => some target
    | _ => none

theorem target?_of_find? {n : Node} {target : String} {title : NodeId} (hn : a.find? id = some n)
    (hp : n.payload = .link target title) : a.target? id = some target := by
  simp [target?, hn, hp]

theorem Extends.target?_eq (h : a.Extends b) (hid : id.index < a.size) :
    b.target? id = a.target? id := by
  rw [target?, h.find?_eq id hid]
  rfl

/-- An arena with other texts, names, flags and glue, but with the same targets. -/
structure Tidied (a b : Arena) : Prop extends Alike a b where
  target?_eq : ∀ id, b.target? id = a.target? id

namespace Tidied

variable {c : Arena}

theorem refl (a : Arena) : a.Tidied a :=
  ⟨.refl a, fun _ => rfl⟩

theorem trans (h : a.Tidied b) (h' : b.Tidied c) : a.Tidied c :=
  ⟨h.toAlike.trans h'.toAlike, fun id => (h'.target?_eq id).trans (h.target?_eq id)⟩

theorem setPayload {n : Node} {p : Payload} (hn : a.find? id = some n)
    (hp : p.bare = n.payload.bare) (ht : (a.setPayload id p).target? id = a.target? id) :
    a.Tidied (a.setPayload id p) := by
  refine ⟨.setPayload hn hp, fun x => ?_⟩
  by_cases hx : x = id
  · exact hx ▸ ht
  · rw [target?, Arena.setPayload, find?_modify, if_neg hx]
    rfl

theorem setGlue {g : Option Glue} (h : a.setGlue id g = .ok b) : a.Tidied b := by
  refine ⟨.setGlue h, fun x => ?_⟩
  obtain ⟨n, hn, -, rfl⟩ := exists_of_setGlue h
  rw [target?, find?_modify]
  split
  · subst x
    simp [target?, hn]
  · rfl

end Tidied

/-- An arena with other glue and nothing else. -/
structure Reglued (a b : Arena) : Prop extends Tidied a b where
  payload_eq : ∀ id, (b.find? id).map Node.payload = (a.find? id).map Node.payload

namespace Reglued

theorem refl (a : Arena) : a.Reglued a :=
  ⟨.refl a, fun _ => rfl⟩

theorem setGlue {g : Option Glue} (h : a.setGlue id g = .ok b) : a.Reglued b := by
  refine ⟨.setGlue h, fun x => ?_⟩
  obtain ⟨n, hn, -, rfl⟩ := exists_of_setGlue h
  rw [find?_modify]
  split
  · subst x
    simp [hn]
  · rfl

end Reglued

/-- A part of an attribute, up to the attribute itself. -/
def IsAttributePart (a : Arena) (n : NodeId) : Prop :=
  a.Is Role.attributes.admits n ∨ a.ListOf .value n ∨ a.Is Role.value.admits n

theorem Sound.isAttributePart_of_reaches (h : a.Sound) {m n : NodeId} (hm : a.IsAttributePart m)
    (hr : Reaches a.kids m n) : a.IsAttributePart n := by
  induction hr with
  | refl => exact hm
  | @tail x y _ hy ih =>
    rcases ih with ⟨l, hl, ha⟩ | ⟨items, hi, ha⟩ | ⟨l, hl, ha⟩
    · rw [kids_of_find? hl] at hy
      cases hp : l.payload with
      | attr name hasValue value =>
        rw [hp] at hy
        obtain rfl := List.mem_singleton.1 hy
        exact .inr (.inl ((h.fits hl).lists (y, .value) (hp ▸ List.mem_singleton_self _)))
      | _ => simp [hp, Role.admits] at ha
    · rw [kids_of_find? hi] at hy
      exact .inr (.inr (ha y hy))
    · rw [kids_of_find? hl] at hy
      cases hp : l.payload <;> simp_all [Role.admits, Payload.children]

theorem IsAttributePart.target?_eq_none {n : NodeId} (h : a.IsAttributePart n) :
    a.target? n = none := by
  rcases h with ⟨l, hl, ha⟩ | ⟨items, hi, ha⟩ | ⟨l, hl, ha⟩
  · cases hp : l.payload <;> simp_all [Role.admits, target?]
  · simp [target?, hi]
  · cases hp : l.payload <;> simp_all [Role.admits, target?]

theorem find?_setItems {items old : List NodeId} {g : Option Glue}
    (hc : a.find? id = some ⟨.list old, g⟩) (x : NodeId) :
    (a.setItems id items).find? x = if x = id then some ⟨.list items, g⟩ else a.find? x := by
  rw [Arena.setItems, Arena.setPayload, find?_modify]
  split
  · subst x
    rw [hc]
    rfl
  · rfl

theorem target?_setItems {items old : List NodeId} {g : Option Glue}
    (hc : a.find? id = some ⟨.list old, g⟩) (x : NodeId) :
    (a.setItems id items).target? x = a.target? x := by
  rw [target?, find?_setItems hc]
  split
  · subst x
    simp [target?, hc]
  · rfl

theorem Sound.setItems (h : a.Sound) {c : NodeId} {items old : List NodeId}
    (hc : a.find? c = some ⟨.list old, none⟩) (hn : items.Nodup)
    (hl : ∀ y ∈ items, ∀ x, x ≠ c → y ∉ a.kids x) (hr : ∀ y ∈ items, ¬Reaches a.kids y c)
    (hb : ∀ y ∈ items, y.index < a.size)
    (hk : ∀ {id n role}, a.find? id = some n → (c, role) ∈ n.payload.slots →
      ∀ x ∈ items, a.Is role.admits x) : (a.setItems c items).Sound where
  toIsForest := h.toIsForest.setItems (index_lt_of_find? hc) hn hb hl hr
  fits {id m} hm := by
    have is {role : Role} {x} (hx : a.Is role.admits x) : (a.setItems c items).Is role.admits x := by
      obtain ⟨n, hn, ha⟩ := hx
      refine ⟨n, ?_, ha⟩
      rw [find?_setItems hc, if_neg]
      · exact hn
      · rintro rfl
        obtain rfl := Option.some.inj (hc.symm.trans hn)
        rw [Payload.admits_list] at ha
        cases ha
    rw [find?_setItems hc] at hm
    split at hm
    · obtain rfl := Option.some.inj hm
      exact ⟨by simp [Payload.slots], Node.glueFits_none⟩
    · refine ⟨fun ⟨l, role⟩ hs => ?_, (h.fits hm).glue⟩
      by_cases hlc : l = c
      · subst hlc
        refine ⟨items, ?_, fun x hx => is (hk hm hs x hx)⟩
        rw [find?_setItems hc, if_pos rfl]
      · obtain ⟨its, hi, hrs⟩ := (h.fits hm).lists _ hs
        refine ⟨its, ?_, fun x hx => is (hrs x hx)⟩
        rw [find?_setItems hc, if_neg hlc]
        exact hi
  page := by
    obtain ⟨content, g, hp⟩ := h.page
    refine ⟨content, g, ?_⟩
    rw [find?_setItems hc, if_neg]
    · exact hp
    · rintro rfl
      cases hc.symm.trans hp

/-- No node stops being what it is, whatever its texts, its glue and, for a list, its items. -/
structure Evolves (a b : Arena) : Prop where
  find? : ∀ {id n}, a.find? id = some n → ∃ m, b.find? id = some m ∧
    (m.payload.bare = n.payload.bare ∨ n.payload.isList = true ∧ m.payload.isList = true)

namespace Evolves

variable {c : Arena}

theorem refl (a : Arena) : a.Evolves a :=
  ⟨fun hn => ⟨_, hn, .inl rfl⟩⟩

theorem trans (h : a.Evolves b) (h' : b.Evolves c) : a.Evolves c := by
  refine ⟨fun {id n} hn => ?_⟩
  obtain ⟨m, hm, hb⟩ := h.find? hn
  obtain ⟨o, ho, hb'⟩ := h'.find? hm
  refine ⟨o, ho, ?_⟩
  have hl {p q : Payload} (he : p.bare = q.bare) : p.isList = q.isList := by
    rw [← Payload.isList_bare, he, Payload.isList_bare]
  rcases hb with hb | ⟨hb₁, hb₂⟩ <;> rcases hb' with hb' | ⟨hb'₁, hb'₂⟩
  · exact .inl (hb'.trans hb)
  · exact .inr ⟨hl hb ▸ hb'₁, hb'₂⟩
  · exact .inr ⟨hb₁, hl hb' ▸ hb₂⟩
  · exact .inr ⟨hb₁, hb'₂⟩

theorem size_le (h : a.Evolves b) : a.size ≤ b.size := by
  by_contra hlt
  have hin : (⟨b.size⟩ : NodeId).index < a.size := Nat.lt_of_not_le hlt
  obtain ⟨n, hn⟩ := exists_of_index_lt hin
  obtain ⟨m, hm, -⟩ := h.find? hn
  exact Nat.lt_irrefl _ (index_lt_of_find? hm)

end Evolves

theorem Evolves.find?_list (h : a.Evolves b) {old : List NodeId} {g : Option Glue}
    (hn : a.find? id = some ⟨.list old, g⟩) : ∃ g', b.find? id = some ⟨.list (b.kids id), g'⟩ := by
  obtain ⟨⟨p, g'⟩, hm, hb⟩ := h.find? hn
  have hl : p.isList = true := by
    rcases hb with hb | ⟨-, hl⟩
    · rw [← Payload.isList_bare, hb]
      rfl
    · exact hl
  cases p <;> cases hl
  rw [kids_of_find? hm]
  exact ⟨g', hm⟩

/-- What is no list is as it was, if all that was no list is. -/
theorem Evolves.find?_eq (h : a.Evolves b) (hb : ∀ {x n}, a.find? x = some n →
    n.payload.isList = false → b.find? x = some n) {n : Node} (hid : id.index < a.size)
    (hn : b.find? id = some n) (hl : n.payload.isList = false) : a.find? id = some n := by
  obtain ⟨⟨p, g⟩, ha⟩ := exists_of_index_lt hid
  cases hp : p.isList with
  | false => exact ha.trans ((hb ha hp).symm.trans hn)
  | true =>
    cases p <;> cases hp
    obtain ⟨g', hlist⟩ := h.find?_list ha
    obtain rfl := Option.some.inj (hlist.symm.trans hn)
    cases hl

theorem Evolves.find?_slots (h : a.Evolves b) {n : Node} (hn : a.find? id = some n)
    (hs : n.payload.slots ≠ []) : ∃ m, b.find? id = some m ∧ m.payload.slots = n.payload.slots := by
  obtain ⟨m, hm, hb | ⟨hl, -⟩⟩ := h.find? hn
  · exact ⟨m, hm, by rw [← Payload.slots_bare, hb, Payload.slots_bare]⟩
  · cases hp : n.payload <;> simp_all [Payload.isList, Payload.slots]

theorem Extends.evolves (h : a.Extends b) : a.Evolves b :=
  ⟨fun hn => ⟨_, h.find?_of_find? hn, .inl rfl⟩⟩

theorem Alike.evolves (h : a.Alike b) : a.Evolves b := by
  refine ⟨fun {id n} hn => ?_⟩
  obtain ⟨m, hm, hb⟩ := h.find?_of_find? hn
  exact ⟨m, hm, .inl hb⟩

theorem evolves_setItems {old : List NodeId} {g : Option Glue}
    (hc : a.find? id = some ⟨.list old, g⟩) (items : List NodeId) :
    a.Evolves (a.setItems id items) := by
  refine ⟨fun {x n} hn => ?_⟩
  rw [find?_setItems hc]
  split
  · subst x
    obtain rfl := Option.some.inj (hc.symm.trans hn)
    exact ⟨_, rfl, .inr ⟨rfl, rfl⟩⟩
  · exact ⟨n, hn, .inl rfl⟩

end Arena
end WikiPage
