import WikiPage.Page.Category
import WikiPage.Proofs.Synced

/-!
# Changes that leave the categories alone

Most edits have nothing to do with the categories of the page. They leave the records of categories and
links as they are, and every link that is part of the page stays part of it.
-/

namespace WikiPage
namespace Page

def linksOf (p : Page) (x : ElementId) : List PlacedLink :=
  ((p.find? x).map Element.links).getD []

/-- The stored name of a category. -/
def nameOf? (p : Page) (x : ElementId) : Option String :=
  (p.find? x).bind fun e =>
    if e.kind = .category then (Attribute.find? e.attributes "name").map Attribute.value else none

def IsCategory (p : Page) (x : ElementId) : Prop :=
  ∃ o, p.form? x = some (.category, o)

/-- No link is at or below a node. -/
def Apart (p : Page) (n : NodeId) : Prop :=
  ∀ m, p.Linked m → ¬Reaches p.arena.kids n m

/-- No link is in an element that is on no page. -/
def Anchored (p : Page) : Prop :=
  ∀ x n, x ≠ root → p.backing? x = some n → p.arena.Loose n → p.Apart n

/-- Every link stands where it is recorded to stand. -/
def Placed (p : Page) : Prop :=
  ∀ x, ∀ l ∈ p.linksOf x, l.link ∈ p.arena.kids l.container

theorem linked_iff {p : Page} {n : NodeId} :
    p.Linked n ↔ ∃ x, n ∈ (p.linksOf x).map PlacedLink.link := by
  constructor
  · rintro ⟨x, e, he, hn⟩
    exact ⟨x, by simpa [linksOf, he] using hn⟩
  · rintro ⟨x, hn⟩
    cases he : p.find? x with
    | none => simp [linksOf, he] at hn
    | some e => exact ⟨x, e, he, by simpa [linksOf, he] using hn⟩

theorem linked_of_mem {p : Page} {x : ElementId} {l : PlacedLink} (hl : l ∈ p.linksOf x) :
    p.Linked l.link :=
  linked_iff.2 ⟨x, List.mem_map_of_mem hl⟩

/-- The records of categories and links are the same. -/
structure SameRecords (p q : Page) : Prop where
  site : q.site = p.site
  categories : q.categories = p.categories
  owners : q.owners = p.owners
  isCategory : ∀ {x}, q.IsCategory x ↔ p.IsCategory x
  nameOf? : q.nameOf? = p.nameOf?
  rootChildren : q.childrenOf root = p.childrenOf root
  links : ∀ x, (q.linksOf x).map PlacedLink.link = (p.linksOf x).map PlacedLink.link
  placed : p.Placed → q.Placed
  target : ∀ {n}, p.Linked n → q.arena.target? n = p.arena.target? n

namespace SameRecords

variable {p q r : Page}

theorem refl (p : Page) : p.SameRecords p :=
  ⟨rfl, rfl, rfl, .rfl, rfl, rfl, fun _ => rfl, fun h => h, fun _ => rfl⟩

theorem linked_iff (h : p.SameRecords q) {n : NodeId} : q.Linked n ↔ p.Linked n := by
  simp only [Page.linked_iff, h.links]

theorem trans (h : p.SameRecords q) (h' : q.SameRecords r) : p.SameRecords r where
  site := h'.site.trans h.site
  categories := h'.categories.trans h.categories
  owners := h'.owners.trans h.owners
  isCategory := h'.isCategory.trans h.isCategory
  nameOf? := h'.nameOf?.trans h.nameOf?
  rootChildren := h'.rootChildren.trans h.rootChildren
  links x := (h'.links x).trans (h.links x)
  placed := h'.placed ∘ h.placed
  target hn := (h'.target (h.linked_iff.2 hn)).trans (h.target hn)

end SameRecords

/-- The links that are part of the page stay part of it, and none comes to stand in another or in an
element that is on no page. -/
structure Steady (p q : Page) : Prop extends SameRecords p q where
  synced : q.Synced
  part : ∀ {n}, p.Linked n → Reaches p.arena.kids Arena.root n → Reaches q.arena.kids Arena.root n
  below : p.Anchored → ∀ {m n}, p.Linked m → p.Linked n → Reaches q.arena.kids m n →
    Reaches p.arena.kids m n
  anchored : p.Anchored → q.Anchored

theorem Synced.steady_refl {p : Page} (h : p.Synced) : p.Steady p :=
  ⟨.refl p, h, fun _ h => h, fun _ _ _ _ _ h => h, fun ha => ha⟩

namespace Steady

variable {p q r : Page}

theorem trans (h : p.Steady q) (h' : q.Steady r) : p.Steady r where
  toSameRecords := h.toSameRecords.trans h'.toSameRecords
  synced := h'.synced
  part hn hr := h'.part (h.linked_iff.2 hn) (h.part hn hr)
  below ha _ _ hm hn hr :=
    h.below ha hm hn (h'.below (h.anchored ha) (h.linked_iff.2 hm) (h.linked_iff.2 hn) hr)
  anchored := h'.anchored ∘ h.anchored

end Steady

namespace Synced

variable {p q : Page}

theorem root_loose (h : p.Synced) : p.arena.Loose Arena.root :=
  h.loose h.root_parent h.root_backing

/-- What stands above a part of the page is part of the page. -/
theorem reaches_of_reaches_part (h : p.Synced) {m n : NodeId}
    (hn : Reaches p.arena.kids Arena.root n) (hm : Reaches p.arena.kids m n) :
    Reaches p.arena.kids Arena.root m := by
  rcases h.sound.total hn hm with hr | hr
  · exact hr
  · rcases hr.eq_or_mem with rfl | ⟨z, hz⟩
    · exact .refl
    · exact absurd hz (h.root_loose z)

/-- No part of the page is in an element that is on no page. -/
theorem not_reaches_part (h : p.Synced) {x : ElementId} {m n : NodeId} (hx : x ≠ root)
    (hn : p.backing? x = some n) (hl : p.arena.Loose n) (hm : Reaches p.arena.kids Arena.root m) :
    ¬Reaches p.arena.kids n m := by
  intro hr
  rcases (h.reaches_of_reaches_part hm hr).eq_or_mem with rfl | ⟨z, hz⟩
  · exact hx (h.backing_inj hn h.root_backing)
  · exact hl z hz

theorem reaches_of_keeps {kids kids' : NodeId → List NodeId} {m n : NodeId}
    (hk : ∀ {x y}, y ∈ kids x → Reaches kids y n → y ∈ kids' x) (hm : Reaches kids m n) :
    Reaches kids' m n := by
  induction hm using Relation.ReflTransGen.head_induction_on with
  | refl => exact .refl
  | head hy hr ih => exact .head (hk hy hr) ih

/-- Where the way up from each link is kept, a link comes to be below no other node than before. Only elements
are put below other nodes, and those that are on no page have no links in them. -/
theorem reaches_of_kept (hp : p.Synced) (hq : q.Synced)
    (hk : ∀ {x y n}, p.Linked n → y ∈ p.arena.kids x → Reaches p.arena.kids y n →
      y ∈ q.arena.kids x)
    (hheld : ∀ {x y n}, p.Linked n → Reaches p.arena.kids y n → p.arena.Loose y →
      y ∈ q.arena.kids x → ∃ z, p.backing? z = some y)
    (ha : p.Anchored) {m n : NodeId} (hn : p.Linked n) (hr : Reaches q.arena.kids m n) :
    Reaches p.arena.kids m n := by
  induction hr using Relation.ReflTransGen.head_induction_on with
  | refl => exact .refl
  | @head u v hv _ hvn =>
    -- no node on the way is loose
    by_cases hvl : p.arena.Loose v
    · obtain ⟨z, hz⟩ := hheld hn hvn hvl hv
      by_cases hroot : z = root
      · subst hroot
        obtain rfl := Option.some.inj (hp.root_backing.symm.trans hz)
        exact absurd hv (hq.root_loose u)
      · exact absurd hvn (ha z v hroot hz hvl n hn)
    · obtain ⟨w, hw⟩ := not_forall_not.1 hvl
      obtain rfl := hq.sound.single (hk hn hw hvn) hv
      exact .head hw hvn

/-- A link comes to be in no other element either, as what backs an element has no links in it when it
comes to. -/
theorem anchored_of_kept (hp : p.Synced) (hq : q.Synced) (hlinked : ∀ {n}, q.Linked n → p.Linked n)
    (hk : ∀ {x y n}, p.Linked n → y ∈ p.arena.kids x → Reaches p.arena.kids y n →
      y ∈ q.arena.kids x)
    (hheld : ∀ {x y n}, p.Linked n → Reaches p.arena.kids y n → p.arena.Loose y →
      y ∈ q.arena.kids x → ∃ z, p.backing? z = some y)
    (hback : ∀ {x n m}, p.Linked m → Reaches p.arena.kids n m → q.backing? x = some n →
      p.backing? x = some n) (ha : p.Anchored) : q.Anchored := by
  intro x n hx hn hloose m hm hr
  have hm := hlinked hm
  have hr := hp.reaches_of_kept hq hk hheld ha hm hr
  exact ha x n hx (hback hm hr hn) (fun z hz => hloose z (hk hm hz hr)) m hm hr

end Synced

section

variable {p q : Page}

theorem sameRecords_of_map (hsite : q.site = p.site) (hcat : q.categories = p.categories)
    (hown : q.owners = p.owners) {g : ElementId → Element → Element}
    (hf : ∀ x, q.find? x = (p.find? x).map (g x))
    (hg : ∀ x e, p.find? x = some e → (g x e).kind = e.kind ∧ (g x e).links = e.links ∧
      (e.kind = .category → (g x e).attributes = e.attributes) ∧
      (x = root → (g x e).children = e.children))
    (hk : ∀ {x n}, p.Linked n → n ∈ p.arena.kids x → n ∈ q.arena.kids x)
    (ht : ∀ {n}, p.Linked n → q.arena.target? n = p.arena.target? n) : p.SameRecords q := by
  have hlinks (x : ElementId) : q.linksOf x = p.linksOf x := by
    rw [linksOf, linksOf, hf]
    cases he : p.find? x with
    | none => rfl
    | some e => simp [(hg x e he).2.1]
  refine ⟨hsite, hcat, hown, fun {x} => ?_, funext fun x => ?_, ?_, fun x => by rw [hlinks],
    fun h x l hl => ?_, ht⟩
  · rw [IsCategory, IsCategory, form?, form?, hf]
    cases he : p.find? x with
    | none => rfl
    | some e => simp [(hg x e he).1]
  · rw [Page.nameOf?, Page.nameOf?, hf]
    cases he : p.find? x with
    | none => rfl
    | some e =>
      obtain ⟨hkind, -, ha, -⟩ := hg x e he
      by_cases hc : e.kind = .category <;> simp [hkind, hc, ha]
  · rw [childrenOf, Tree.kids, hf]
    cases he : p.find? root with
    | none => simp [childrenOf, Tree.kids, he]
    | some e => simp [childrenOf, Tree.kids, he, (hg root e he).2.2.2 rfl]
  · rw [hlinks] at hl
    exact hk (linked_of_mem hl) (h x l hl)

end

namespace Synced

variable {p q : Page}

theorem steady_of_map (hp : p.Synced) (hq : q.Synced) (hsite : q.site = p.site)
    (hcat : q.categories = p.categories) (hown : q.owners = p.owners)
    {g : ElementId → Element → Element} (hf : ∀ x, q.find? x = (p.find? x).map (g x))
    (hg : ∀ x e, p.find? x = some e → (g x e).kind = e.kind ∧ (g x e).links = e.links ∧
      (e.kind = .category → (g x e).attributes = e.attributes) ∧
      (x = root → (g x e).children = e.children))
    (hk : ∀ {x y n}, p.Linked n → y ∈ p.arena.kids x → Reaches p.arena.kids y n →
      y ∈ q.arena.kids x)
    (hheld : ∀ {x y n}, p.Linked n → Reaches p.arena.kids y n → p.arena.Loose y →
      y ∈ q.arena.kids x → ∃ z, p.backing? z = some y)
    (hback : ∀ {x n m}, p.Linked m → Reaches p.arena.kids n m → q.backing? x = some n →
      p.backing? x = some n)
    (ht : ∀ {n}, p.Linked n → q.arena.target? n = p.arena.target? n) : p.Steady q :=
  have hsame := sameRecords_of_map hsite hcat hown hf hg (fun hn hy => hk hn hy .refl) ht
  ⟨hsame, hq, fun hn hr => reaches_of_keeps (fun hy hr => hk hn hy hr) hr,
    fun ha _ _ _ hn hr => hp.reaches_of_kept hq hk hheld ha hn hr,
    hp.anchored_of_kept hq hsame.linked_iff.1 hk hheld hback⟩

theorem steady_of_arena (hp : p.Synced) {b : Arena} (hq : Synced { p with arena := b })
    (hk : ∀ {x y n}, p.Linked n → y ∈ p.arena.kids x → Reaches p.arena.kids y n → y ∈ b.kids x)
    (hheld : ∀ {x y n}, p.Linked n → Reaches p.arena.kids y n → p.arena.Loose y → y ∈ b.kids x →
      ∃ z, p.backing? z = some y)
    (ht : ∀ {n}, p.Linked n → b.target? n = p.arena.target? n) : p.Steady { p with arena := b } :=
  hp.steady_of_map hq rfl rfl rfl (g := fun _ => id) (fun _ => Option.map_id'.symm)
    (fun _ _ _ => ⟨rfl, rfl, fun _ => rfl, fun _ => rfl⟩) hk hheld (fun _ _ hn => hn) ht

theorem steady_of_kids (hp : p.Synced) {b : Arena} (hq : Synced { p with arena := b })
    (hk : b.kids = p.arena.kids) (ht : ∀ {n}, p.Linked n → b.target? n = p.arena.target? n) :
    p.Steady { p with arena := b } :=
  hp.steady_of_arena hq (fun _ hy _ => hk ▸ hy) (fun _ _ hl hy => absurd (hk ▸ hy) (hl _)) ht

theorem steady_update (hp : p.Synced) {id : ElementId} {f : Element → Element}
    (hq : (p.update id f).Synced)
    (hf : ∀ e, p.find? id = some e → (f e).links = e.links ∧ ((f e).kind = e.kind) ∧
      (e.kind = .category → (f e).attributes = e.attributes) ∧ (f e).children = e.children)
    (hb : ∀ e, (f e).backing = e.backing) : p.Steady (p.update id f) := by
  refine hp.steady_of_map hq rfl rfl rfl (g := fun x e => if x = id then f e else e) (fun x => ?_)
    (fun x e he => ?_) (fun _ hy _ => hy) (fun _ _ hl hy => absurd hy (hl _))
    (fun {x n m} _ _ hn => ?_) fun _ => rfl
  · rw [find?_update]
    split
    · rfl
    · exact Option.map_id'.symm
  · split
    · subst x
      obtain ⟨hl, hk, ha, hc⟩ := hf e he
      exact ⟨hk, hl, ha, fun _ => hc⟩
    · exact ⟨rfl, rfl, fun _ => rfl, fun _ => rfl⟩
  · rw [backing?, form?, find?_update] at hn
    split at hn
    · rw [backing?, form?]
      cases he : p.find? x <;> simp_all
    · exact hn

theorem linked_target? (h : p.Synced) {n : NodeId} (hn : p.Linked n) :
    ∃ target, p.arena.target? n = some target := by
  obtain ⟨m, hm, hk⟩ := h.linked hn
  cases hp : m.payload with
  | link target title => exact ⟨target, Arena.target?_of_find? hm hp⟩
  | _ => simp [hp, Kind.marks] at hk

theorem not_isAttributePart (h : p.Synced) {n : NodeId} (hn : p.Linked n) {m : NodeId}
    (hr : Reaches p.arena.kids m n) : ¬p.arena.IsAttributePart m := by
  intro hm
  obtain ⟨target, ht⟩ := h.linked_target? hn
  cases ht.symm.trans (h.sound.isAttributePart_of_reaches hm hr).target?_eq_none

theorem steady_tidied (h : p.Synced) {b : Arena} (hb : p.arena.Tidied b) :
    p.Steady { p with arena := b } :=
  h.steady_of_kids (h.alike hb.toAlike) hb.kids_eq fun _ => hb.target?_eq _

theorem steady_push (h : p.Synced) {m : Node} (hf : p.arena.Fits m) (hn : m.payload.children.Nodup)
    (hb : ∀ y ∈ m.payload.children, y.index < p.arena.size)
    (hl : ∀ y ∈ m.payload.children, p.arena.Loose y)
    (hx : ∀ y ∈ m.payload.children, ∀ x, p.backing? x ≠ some y)
    (hu : ∀ y ∈ m.payload.children, p.Apart y) :
    p.Steady { p with arena := p.arena.push m } := by
  refine h.steady_of_arena (h.push hf hn hb hl hx) (fun {x y n} _ hy _ => ?_)
    (fun {x y n} hn hr hl hy => ?_) fun {n} hn => ?_
  · rw [Arena.kids_push, if_neg]
    · exact hy
    · rintro rfl
      rw [Arena.kids_eq_nil (x := p.arena.next) (Nat.le_refl _)] at hy
      cases hy
  · rw [Arena.kids_push] at hy
    split at hy
    · exact absurd hr (hu y hy n hn)
    · exact absurd hy (hl x)
  · exact (Arena.Extends.push p.arena m).target?_eq (h.linked_lt hn)

theorem steady_push_leaf (h : p.Synced) {m : Node} (hc : m.payload.children = [])
    (hs : m.payload.slots = []) (hg : m.GlueFits) :
    p.Steady { p with arena := p.arena.push m } :=
  h.steady_push ⟨by simp [hs], hg⟩ (by simp [hc]) (by simp [hc]) (by simp [hc]) (by simp [hc])
    (by simp [hc])

/-- Items that are left out have no link in them, and neither have those that come in, unless they back
elements. -/
theorem steady_setItems (h : p.Synced) {c : NodeId} {items old : List NodeId}
    (hc : p.arena.find? c = some ⟨.list old, none⟩)
    (hs : Synced { p with arena := p.arena.setItems c items })
    (hk : ∀ {y n}, p.Linked n → y ∈ old → Reaches p.arena.kids y n → y ∈ items)
    (hnew : ∀ y ∈ items, y ∈ old ∨ (∃ z, p.backing? z = some y) ∨ p.Apart y) :
    p.Steady { p with arena := p.arena.setItems c items } := by
  have hkids := Arena.kids_setItems (Arena.index_lt_of_find? hc) items
  have hold : p.arena.kids c = old := Arena.kids_of_find? hc
  refine h.steady_of_arena hs (fun {x y n} hn hy hr => ?_) (fun {x y n} hn hr hl hy => ?_)
    fun {n} _ => Arena.target?_setItems hc n
  · rw [hkids]
    split
    · subst x
      exact hk hn (hold ▸ hy) hr
    · exact hy
  · rw [hkids] at hy
    split at hy
    · rcases hnew y hy with ho | hz | hu
      · exact absurd (hold ▸ ho) (hl c)
      · exact hz
      · exact absurd hr (hu n hn)
    · exact absurd hy (hl x)

theorem steady_append_other (h : p.Synced) {s : List NodeId} {c n : NodeId}
    (hc : p.arena.find? c = some ⟨.list s, none⟩) (hn : n.index < p.arena.size)
    (hl : p.arena.Loose n) (hx : ∀ x, p.backing? x ≠ some n) (hr : ¬Reaches p.arena.kids n c)
    (hk : ∀ {id m role}, p.arena.find? id = some m → (c, role) ∈ m.payload.slots →
      p.arena.Is role.admits n) (hu : p.Apart n) :
    p.Steady { p with arena := p.arena.setItems c (s ++ [n]) } := by
  refine h.steady_setItems hc (h.append_other hc hn hl hx hr hk)
    (fun _ hy _ => List.mem_append_left _ hy)
    fun y hy => (List.mem_append.1 hy).imp_right fun hy => .inr ?_
  rwa [List.mem_singleton.1 hy]

end Synced

namespace Steady

variable {p q : Page}

theorem tidied (h : p.Steady q) {b : Arena} (hb : q.arena.Tidied b) :
    p.Steady { q with arena := b } :=
  h.trans (h.synced.steady_tidied hb)

end Steady

end Page
end WikiPage
