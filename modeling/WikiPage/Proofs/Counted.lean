import WikiPage.EntityTable
import WikiPage.Proofs.Agreement

/-!
# Links that count

A page is in the categories that are named by the links that reading comes to. These are not all: links
to images, links to categories and links with unreadable targets are passed over with their titles, and
what stands in such a title is not looked at. In a tag that is kept as it stands every link counts.
-/

namespace WikiPage
namespace Arena

variable {a : Arena} {site : Site} {x y n : NodeId}

/-- A link that becomes no element. -/
def IsPassedOver (a : Arena) (site : Site) (x : NodeId) : Prop :=
  ∃ target, a.target? x = some target ∧ Findings.linkUse site target ≠ .element

/-- A tag of an unknown kind. -/
def IsUnknownTag (a : Arena) (x : NodeId) : Prop :=
  ∃ name empty attributes body g, a.find? x = some ⟨.element name empty attributes body, g⟩ ∧
    Kind.ofTag? name.toLower = none

/-- From one node, reading comes to another. -/
inductive Reads (a : Arena) (site : Site) : NodeId → NodeId → Prop
  | refl (x : NodeId) : Reads a site x x
  | head {x y n : NodeId} (hx : ¬a.IsPassedOver site x) (hy : y ∈ a.kids x) (hn : Reads a site y n) :
    Reads a site x n
  /-- What is kept as it stands is searched all the way down. -/
  | within {x n : NodeId} (hx : a.IsUnknownTag x) (hn : Reaches a.kids x n) : Reads a site x n

/-- From one node, reading comes to a link to a category. -/
def Counts (a : Arena) (site : Site) (x n : NodeId) : Prop :=
  (a.categoryOf? site n).isSome = true ∧ a.Reads site x n

theorem Reads.reaches (h : a.Reads site x n) : Reaches a.kids x n := by
  induction h with
  | refl => exact .refl
  | head _ hy _ ih => exact .head hy ih
  | within _ hn => exact hn

theorem IsUnknownTag.target?_eq_none (h : a.IsUnknownTag x) : a.target? x = none := by
  obtain ⟨name, empty, attributes, body, g, hx, -⟩ := h
  rw [target?, hx]
  rfl

theorem not_isPassedOver (h : a.target? x = none) : ¬a.IsPassedOver site x := by
  rintro ⟨target, ht, -⟩
  cases h.symm.trans ht

theorem not_isPassedOver_of_linkUse {target : String} (ht : a.target? x = some target)
    (hu : Findings.linkUse site target = .element) : ¬a.IsPassedOver site x := by
  rintro ⟨target', ht', hne⟩
  obtain rfl := Option.some.inj (ht.symm.trans ht')
  exact hne hu

theorem categoryOf?_eq_none (h : a.target? x = none) : a.categoryOf? site x = none := by
  rw [categoryOf?, h]
  rfl

theorem Counts.target?_ne_none (h : a.Counts site x n) : a.target? n ≠ none := by
  intro hn
  have hsome := h.1
  rw [categoryOf?_eq_none hn] at hsome
  cases hsome

theorem counts_of_isPassedOver (hx : a.IsPassedOver site x) :
    a.Counts site x n ↔ (a.categoryOf? site n).isSome = true ∧ n = x := by
  refine and_congr_right fun _ => ⟨fun h => ?_, ?_⟩
  · cases h with
    | refl => rfl
    | head hx' => exact absurd hx hx'
    | within hu => exact absurd hx (not_isPassedOver hu.target?_eq_none)
  · rintro rfl
    exact .refl n

theorem counts_of_isUnknownTag (hx : a.IsUnknownTag x) :
    a.Counts site x n ↔ (a.categoryOf? site n).isSome = true ∧ Reaches a.kids x n :=
  and_congr_right fun _ => ⟨Reads.reaches, .within hx⟩

theorem counts_iff_of_kids (hx : a.categoryOf? site x = none) (hp : ¬a.IsPassedOver site x)
    (hu : ¬a.IsUnknownTag x) : a.Counts site x n ↔ ∃ y ∈ a.kids x, a.Counts site y n := by
  constructor
  · rintro ⟨hn, h⟩
    cases h with
    | refl =>
      rw [hx] at hn
      cases hn
    | head _ hy h => exact ⟨_, hy, hn, h⟩
    | within hu' => exact absurd hu' hu
  · rintro ⟨y, hy, hn, h⟩
    exact ⟨hn, .head hp hy h⟩

theorem counts_iff_of_payload {m : Node} (hx : a.find? x = some m) (ht : a.target? x = none)
    (hm : ∀ name empty attributes body, m.payload = .element name empty attributes body →
      Kind.ofTag? name.toLower ≠ none) :
    a.Counts site x n ↔ ∃ y ∈ a.kids x, a.Counts site y n := by
  refine counts_iff_of_kids (categoryOf?_eq_none ht) (not_isPassedOver ht) ?_
  rintro ⟨name, empty, attributes, body, g, hx', hk⟩
  obtain rfl := Option.some.inj (hx.symm.trans hx')
  exact hm name empty attributes body rfl hk

theorem counts_iff_of_list {items : List NodeId} {g : Option Glue}
    (hx : a.find? x = some ⟨.list items, g⟩) :
    a.Counts site x n ↔ ∃ y ∈ items, a.Counts site y n := by
  have hk : a.kids x = items := kids_of_find? hx
  rw [counts_iff_of_payload hx (by rw [target?, hx]; rfl) (by simp), hk]

theorem Sound.not_counts_of_attributes (h : a.Sound) (hx : a.ListOf .attributes x) :
    ¬a.Counts site x n := by
  obtain ⟨items, hi, ha⟩ := hx
  rw [counts_iff_of_list hi]
  rintro ⟨y, hy, hc⟩
  exact hc.target?_ne_none
    (h.isAttributePart_of_reaches (.inl (ha y hy)) hc.2.reaches).target?_eq_none

end Arena

theorem Except.exists_of_mapM {ε α β : Type} {f : α → Except ε β} {l : List α} {r : List β} {x : α}
    (h : l.mapM f = .ok r) (hx : x ∈ l) : ∃ y ∈ r, f x = .ok y := by
  induction l generalizing r with
  | nil => cases hx
  | cons z l ih =>
    rw [List.mapM_cons] at h
    obtain ⟨y, hy, h⟩ := exists_of_bind h
    obtain ⟨r', hr, h⟩ := exists_of_bind h
    cases h
    rcases List.mem_cons.1 hx with rfl | hx
    · exact ⟨y, List.mem_cons_self, hy⟩
    · obtain ⟨y', hy', hf⟩ := ih hr hx
      exact ⟨y', List.mem_cons_of_mem y hy', hf⟩

namespace Findings

variable {a : Arena} {site : Site} {preserve : Bool} {c n : NodeId} {f g : Findings}
  {P Q : NodeId → Prop}

theorem linkUse_of_categoryOf? {target s : String} (h : site.categoryOf? target = some s) :
    linkUse site target = .category s := by
  unfold Site.categoryOf? at h
  unfold linkUse
  split at h
  · split at h
    · obtain rfl := Option.some.inj h
      simp [*]
    · cases h
  · cases h

/-- The links that were found are those of a kind. -/
def FindsAll (f : Findings) (P : NodeId → Prop) : Prop :=
  ∀ n, n ∈ f.links.map (fun l => l.placed.link) ↔ P n

theorem FindsAll.nil (h : ∀ n, ¬P n) : FindsAll {} P :=
  fun n => iff_of_false List.not_mem_nil (h n)

theorem FindsAll.append (hf : f.FindsAll P) (hg : g.FindsAll Q) :
    (f.append g).FindsAll fun n => P n ∨ Q n := by
  intro n
  rw [Findings.append, List.map_append, List.mem_append, hf n, hg n]

theorem FindsAll.congr (hf : f.FindsAll P) (h : ∀ n, P n ↔ Q n) : f.FindsAll Q :=
  fun n => (hf n).trans (h n)

theorem findsAll_linksWithin {top : NodeId} {links : List FoundLink} (h : a.IsForest)
    (hu : a.IsUnknownTag top) (hl : linksWithin a site top = .ok links) :
    FindsAll ⟨[], links⟩ (a.Counts site top) := by
  obtain ⟨name, empty, attributes, body, g, hn, -⟩ := id hu
  have hfound := found_linksWithin h hn hl
  intro n
  rw [Arena.counts_of_isUnknownTag hu]
  constructor
  · intro hm
    refine ⟨?_, ?_⟩
    · obtain ⟨l, hl, rfl⟩ := List.mem_map.1 hm
      rw [hfound.named l hl]
      rfl
    · have hm := hfound.links.subset hm
      rw [← h.preorder_tree hn] at hm
      exact h.mem_preorder_iff.1 hm
  · rintro ⟨hc, hr⟩
    have hne : top ≠ n := by
      rintro rfl
      rw [Arena.categoryOf?_eq_none hu.target?_eq_none] at hc
      cases hc
    obtain ⟨below, hb, hl⟩ := Except.exists_of_bind hl
    obtain ⟨r, hr', hl⟩ := Except.exists_of_bind hl
    cases hl
    obtain rfl := Except.ok.inj ((h.descendants_eq hn).symm.trans (PageError.eq_ok_of_ofArena hb))
    obtain ⟨o, ho, hf⟩ := Except.exists_of_mapM hr' (h.mem_below_of_reaches hn hr hne)
    obtain ⟨cat, hcat, hf⟩ := Except.exists_of_bind hf
    obtain rfl := Arena.categoryOf?_of_linkedCategory? (PageError.eq_ok_of_ofArena hcat)
    obtain ⟨s, hs⟩ := Option.isSome_iff_exists.1 hc
    rw [hs] at hf
    obtain ⟨container, -, hf⟩ := Except.exists_of_bind hf
    split at hf
    · cases hf
      exact List.mem_map.2 ⟨_, List.mem_filterMap.2 ⟨_, ho, rfl⟩, rfl⟩
    · cases hf

theorem findsAll_unknown {id : NodeId} {name : String} (h : a.IsForest) (hu : a.IsUnknownTag id)
    (hf : unknown a site preserve id name = .ok f) : f.FindsAll (a.Counts site id) := by
  unfold unknown at hf
  split at hf
  · obtain ⟨links, hl, hf⟩ := Except.exists_of_bind hf
    cases hf
    have hlinks := findsAll_linksWithin h hu hl
    exact fun n => by simpa [append, wrap] using hlinks n
  · cases hf

theorem findsAll_ofItems {items : List NodeId}
    (hi : ∀ y ∈ items, ∀ f, ofNode a site preserve c (a.tree y) = .ok f →
      f.FindsAll (a.Counts site y))
    (hf : ofItems a site preserve c (items.map a.tree) = .ok f) :
    f.FindsAll fun n => ∃ y ∈ items, a.Counts site y n := by
  induction items generalizing f with
  | nil =>
    cases hf
    exact .nil (by simp)
  | cons y items ih =>
    rw [List.map_cons, ofItems] at hf
    obtain ⟨f₁, h₁, hf⟩ := Except.exists_of_bind hf
    obtain ⟨f₂, h₂, hf⟩ := Except.exists_of_bind hf
    cases hf
    have hfirst := hi y List.mem_cons_self f₁ h₁
    have hrest := ih (fun y hy => hi y (List.mem_cons_of_mem _ hy)) h₂
    exact (hfirst.append hrest).congr (by simp)

theorem findsAll_ofLists (h : a.Sound) (hc : c.index < a.size)
    (hi : ∀ y ∈ a.kids c, ∀ f, ofNode a site preserve c (a.tree y) = .ok f →
      f.FindsAll (a.Counts site y))
    (hf : ofLists a site preserve [a.tree c] = .ok f) : f.FindsAll (a.Counts site c) := by
  obtain ⟨⟨q, g⟩, hn⟩ := Arena.exists_of_index_lt hc
  rw [h.founded.tree_eq hn, ofLists] at hf
  split at hf
  · cases q with
    | list items =>
      obtain ⟨f₁, h₁, hf⟩ := Except.exists_of_bind hf
      obtain ⟨f₂, h₂, hf⟩ := Except.exists_of_bind hf
      cases h₂
      cases hf
      have hk : a.kids c = items := Arena.kids_of_find? hn
      have hitems := findsAll_ofItems (hk ▸ hi) h₁
      refine (hitems.append (.nil (P := fun _ => False) fun _ => not_false)).congr fun n => ?_
      rw [or_false, Arena.counts_iff_of_list hn]
      rfl
    | _ => simp_all [Payload.isList]
  · cases hf

theorem findsAll_ofTag {tag attributes body : NodeId} {name : String} {empty : Bool}
    {g : Option Glue} {kind : Kind} (h : a.Sound)
    (hn : a.find? tag = some ⟨.element name empty attributes body, g⟩)
    (hk : Kind.ofTag? name.toLower = some kind)
    (hbody : ∀ f, ofLists a site preserve [a.tree body] = .ok f → f.FindsAll (a.Counts site body))
    (hf : ofTag a site preserve kind tag [a.tree attributes, a.tree body] = .ok f) :
    f.FindsAll (a.Counts site tag) := by
  have hlist := (h.fits hn).lists (attributes, .attributes) List.mem_cons_self
  obtain ⟨items, hi, -⟩ := id hlist
  rw [h.founded.tree_eq hi, ofTag, Payload.isList, if_pos rfl] at hf
  obtain ⟨l, -, hf⟩ := Except.exists_of_bind hf
  obtain ⟨f, hfound, hf⟩ := Except.exists_of_bind hf
  cases hf
  have hkids : a.kids tag = [attributes, body] := Arena.kids_of_find? hn
  refine FindsAll.congr (f := wrap kind (.tag tag) l f) (hbody f hfound) fun n => ?_
  rw [Arena.counts_iff_of_payload hn (by rw [Arena.target?, hn]; rfl), hkids]
  · simp [h.not_counts_of_attributes hlist]
  · rintro _ _ _ _ ⟨⟩
    simp [hk]

theorem findsAll_ofNode {id : NodeId} (h : a.Sound) : ∀ c f, id ∈ a.kids c →
    ofNode a site preserve c (a.tree id) = .ok f → f.FindsAll (a.Counts site id) := by
  induction id using h.wellFounded.transGen.induction with
  | _ id ih =>
    intro c f hid hf
    obtain ⟨⟨q, g⟩, hn⟩ := Arena.exists_of_index_lt (h.closed c id hid)
    have hk : a.kids id = q.children := Arena.kids_of_find? hn
    have below {l : NodeId} {f : Findings} (hl : l ∈ q.children)
        (hf : ofLists a site preserve [a.tree l] = .ok f) : f.FindsAll (a.Counts site l) := by
      rw [← hk] at hl
      exact findsAll_ofLists h (h.closed id l hl)
        (fun y hy f hf => ih y (.tail (.single hy) hl) l f hy hf) hf
    have hread := readAs_ofNode h hn site preserve c
    rw [hf] at hread
    generalize hr : Except.ok f = r at hread
    cases hread with
    | refused => cases hr
    | unknown hkind => exact findsAll_unknown h.toIsForest ⟨_, _, _, _, _, hn, hkind⟩ hr.symm
    | tag hkind =>
      exact findsAll_ofTag h hn hkind (fun f => below (by simp [Payload.children])) hr.symm
    | markup kind hq =>
      obtain ⟨f, hfound, rfl⟩ := Except.exists_of_map hr.symm
      have hbelow : f.FindsAll fun m => ∃ y ∈ q.children, a.Counts site y m := by
        rw [hq.children_eq] at hfound below ⊢
        cases hc : Page.contentOf? q with
        | none =>
          rw [hc] at hfound
          cases hfound
          exact .nil (by simp)
        | some content =>
          rw [hc] at hfound below
          exact (below (List.mem_singleton_self _) hfound).congr (by simp)
      refine FindsAll.congr (f := f) hbelow fun m => ?_
      rw [Arena.counts_iff_of_payload hn (hq.target?_eq_none hn)
        fun _ _ _ _ he => absurd he (hq.ne_element _ _ _ _), hk]
    | @skipped target title hu =>
      cases hr
      have htarget : a.target? id = some target := Arena.target?_of_find? hn rfl
      refine .nil fun m hm => ?_
      obtain ⟨hc, rfl⟩ := (Arena.counts_of_isPassedOver ⟨target, htarget, by simp [hu]⟩).1 hm
      obtain ⟨s, hs⟩ := Option.isSome_iff_exists.1 hc
      cases hu.symm.trans (linkUse_of_categoryOf? ((Arena.categoryOf?_of_target? htarget).symm.trans hs))
    | @category target name title hu =>
      cases hr
      have htarget : a.target? id = some target := Arena.target?_of_find? hn rfl
      have hc := (Arena.categoryOf?_of_target? htarget).trans (categoryOf?_of_linkUse hu)
      intro m
      rw [Arena.counts_of_isPassedOver ⟨target, htarget, by simp [hu]⟩]
      constructor
      · intro hm
        obtain rfl : m = id := by simpa using hm
        exact ⟨by rw [hc]; rfl, rfl⟩
      · rintro ⟨-, rfl⟩
        exact List.mem_singleton_self _
    | @link target title hu =>
      obtain ⟨f, hfound, rfl⟩ := Except.exists_of_map hr.symm
      have htarget : a.target? id = some target := Arena.target?_of_find? hn rfl
      have hc := (Arena.categoryOf?_of_target? htarget).trans (categoryOf?_eq_none_of_linkUse hu)
      have ht : ¬a.IsUnknownTag id := fun ht => by cases htarget.symm.trans ht.target?_eq_none
      refine FindsAll.congr (f := f) (below List.mem_cons_self hfound) fun m => ?_
      rw [Arena.counts_iff_of_kids hc (Arena.not_isPassedOver_of_linkUse htarget hu) ht, hk]
      simp [Payload.children]

end Findings

/-- What the content of an arena is read as has all the links that count. -/
theorem Arena.Sound.findsAll {a : Arena} {site : Site} {preserve : Bool} {f : Findings} (h : a.Sound)
    (hf : a.findings site preserve = .ok f) : f.FindsAll (a.Counts site a.content) :=
  Findings.findsAll_ofLists h (h.closed root _ h.content_mem)
    (fun _ hy f hf => Findings.findsAll_ofNode h _ f hy hf) hf

namespace Page

variable {p : Page} {site : Site} {title : String} {n : NodeId}

theorem mem_categoryIds {x : ElementId} (h : p.Synced) :
    x ∈ p.categoryIds ↔ p.parentOf x = some root ∧ x ≠ body := by
  obtain ⟨r, hr⟩ := h.exists_root
  rw [h.parent_iff, childrenOf_of_find? hr, categoryIds, hr]
  simp

/-- The links of the categories on the page are all that are on record. -/
theorem Recorded.linked_iff_of_attaches (h : p.Recorded) (ha : p.Attaches) :
    (∃ x ∈ p.categoryIds, ∃ links, p.categoryLinks x = .ok links ∧ n ∈ links) ↔ p.Linked n := by
  constructor
  · rintro ⟨x, -, links, hl, hn⟩
    obtain ⟨-, rfl⟩ := categoryLinks_eq_ok_iff.1 hl
    exact linked_iff.2 ⟨x, hn⟩
  · intro hn
    obtain ⟨x, hx⟩ := linked_iff.1 hn
    have hne : p.linksOf x ≠ [] := fun hnil => by simp [hnil] at hx
    have hc := h.isCategory hne
    exact ⟨x, (mem_categoryIds h.toSynced).2 ⟨ha.linked hne, h.ne_body_of_isCategory hc⟩, _,
      categoryLinks_eq_ok_iff.2 ⟨hc, rfl⟩, hx⟩

theorem linked_iff_of_ofArena {a : Arena} {preserve : Bool} (ha : a.Sound) (hr : a.Loose Arena.root)
    (h : ofArena a site title preserve = .ok p) :
    p.arena = a ∧ p.Attaches ∧ (p.Linked n ↔ a.Counts site a.content n) := by
  obtain ⟨t, found, hf, hd, hp, -⟩ := exists_of_ofArena ha hr h Edit.keptByRegistering_true fun _ _ _ => trivial
  refine ⟨hp.arena, hp.attaches (attaches_ofDrafts hd), ?_⟩
  rw [hp.linked_iff, or_iff_right (not_linked_ofDrafts hd), ha.findsAll hf n]

theorem arena_read [Entities] {text : String} {preserve : Bool} (h : read text site title preserve = .ok p) :
    p.arena = Arena.read text :=
  (linked_iff_of_ofArena (n := Arena.root) (Arena.sound_read text) (Arena.loose_root_read text) h).1

theorem linked_read_iff [Entities] {text : String} {preserve : Bool} (h : read text site title preserve = .ok p) :
    p.Linked n ↔ p.arena.Counts site p.arena.content n := by
  rw [arena_read h]
  exact (linked_iff_of_ofArena (Arena.sound_read text) (Arena.loose_root_read text) h).2.2

/-- On a page that has been read the links of the categories are those links to categories that reading
comes to from the content of the page. -/
theorem backsCategory_iff_reads [Entities] {text : String} {preserve : Bool}
    (h : read text site title preserve = .ok p) :
    (∃ x ∈ p.categoryIds, ∃ links, p.categoryLinks x = .ok links ∧ n ∈ links) ↔
      (∃ name, p.arena.linkedCategory? site n = .ok (some name)) ∧
        p.arena.Reads site p.arena.content n := by
  obtain ⟨ha, hatt, hlinked⟩ :=
    linked_iff_of_ofArena (n := n) (Arena.sound_read text) (Arena.loose_root_read text) h
  rw [(begun_read h).recorded.linked_iff_of_attaches hatt, hlinked, ← ha, Arena.Counts,
    Option.isSome_iff_exists]
  simp only [Arena.linkedCategory?_eq_some_iff]

/-- A page with a category link in the title of an image. -/
def captioned : Page :=
  (read "[[Category:A]][[File:x.png|[[Category:B]]]]" .default "Test" false).toOption.getD
    (ofDrafts .new .default "Test" [])

theorem categoryLinks_captioned [Entities] {x : ElementId} (hx : x ∈ captioned.categoryIds) {links : List NodeId}
    (hl : captioned.categoryLinks x = .ok links) : links = [⟨3⟩] := by
  have hids : captioned.categoryIds = [⟨3⟩] := by decide +kernel
  have hlinks : captioned.categoryLinks ⟨3⟩ = .ok [⟨3⟩] := by decide +kernel
  rw [hids, List.mem_singleton] at hx
  subst hx
  exact Except.ok.inj (hl.symm.trans hlinks)

theorem backsCategory_iff_reads_captioned :
    read "[[Category:A]][[File:x.png|[[Category:B]]]]" .default "Test" false = .ok captioned ∧
      captioned.arena.Reads .default captioned.arena.content ⟨3⟩ ∧
      ¬captioned.arena.Reads .default captioned.arena.content ⟨5⟩ := by
  have h : read "[[Category:A]][[File:x.png|[[Category:B]]]]" .default "Test" false =
      .ok captioned := by
    decide +kernel
  refine ⟨h, ((backsCategory_iff_reads h).1 ?_).2, fun hr => ?_⟩
  · exact ⟨⟨3⟩, by decide +kernel, [⟨3⟩], by decide +kernel, List.mem_singleton_self _⟩
  · obtain ⟨x, hx, links, hl, hn⟩ := (backsCategory_iff_reads h).2 ⟨⟨"B", by decide +kernel⟩, hr⟩
    rw [categoryLinks_captioned hx hl] at hn
    exact absurd hn (by decide)

/-- Every link to a category on the page is a link of one of its categories. -/
def CountsEveryLink (p : Page) : Prop :=
  ∃ below, p.arena.descendants Arena.root = .ok below ∧ ∀ n,
    (∃ x ∈ p.categoryIds, ∃ links, p.categoryLinks x = .ok links ∧ n ∈ links) ↔
      n ∈ below ∧ ∃ name, p.arena.linkedCategory? p.site n = .ok (some name)

theorem not_countsEveryLink_captioned :
    read "[[Category:A]][[File:x.png|[[Category:B]]]]" .default "Test" false = .ok captioned ∧
      ¬captioned.CountsEveryLink := by
  refine ⟨by decide +kernel, fun ⟨below, hbelow, h⟩ => ?_⟩
  have hbelow' : captioned.arena.descendants Arena.root =
      .ok [⟨0⟩, ⟨9⟩, ⟨8⟩, ⟨3⟩, ⟨2⟩, ⟨7⟩, ⟨6⟩, ⟨5⟩, ⟨4⟩] := by
    decide +kernel
  obtain rfl := Except.ok.inj (hbelow.symm.trans hbelow')
  obtain ⟨x, hx, links, hl, hn⟩ := (h ⟨5⟩).2 ⟨by decide, "B", by decide +kernel⟩
  rw [categoryLinks_captioned hx hl] at hn
  exact absurd hn (by decide)

end Page
end WikiPage
