import WikiPage.EntityTable
import WikiPage.Proofs.Filing

/-!
# Keys of categories

A name of a category is normalized as a title, as the value of an attribute, or as both in either order,
before it is compared, stored or looked up, and each of these takes something else for a blank. None of them
changes the key. So a link to a category is filed, stored and looked up under one key, that of the title
which it is read to have.
-/

namespace WikiPage

/-- A rule by which a name is spelled anew. -/
inductive Respelling
  | title
  | value (mode : Normalization)
  deriving DecidableEq, Repr

namespace Respelling

def apply : Respelling → String → String
  | title => normalizeTitle
  | value mode => mode.apply

/-- Spell a name by rules one after the other. -/
def applyAll (rules : List Respelling) (name : String) : String :=
  rules.foldl (fun s rule => rule.apply s) name

end Respelling

theorem categoryKey_apply_cdata (s : String) :
    categoryKey (Normalization.cdata.apply s) = categoryKey s := by
  refine categoryKey_congr ?_
  rw [Normalization.apply, Text.toList_onChars, words_spaces]

theorem Respelling.categoryKey_apply (rule : Respelling) (s : String) :
    categoryKey (rule.apply s) = categoryKey s := by
  cases rule with
  | title => exact categoryKey_normalizeTitle s
  | value mode =>
    cases mode with
    | cdata => exact categoryKey_apply_cdata s
    | words => exact categoryKey_apply_words s

/-- No rules, in whatever order, tell two spellings of a category apart. -/
theorem Respelling.categoryKey_applyAll (rules : List Respelling) (s : String) :
    categoryKey (applyAll rules s) = categoryKey s := by
  induction rules generalizing s with
  | nil => rfl
  | cons rule rules ih => exact (ih (rule.apply s)).trans (rule.categoryKey_apply s)

namespace Page

variable {p q : Page} {x : ElementId} {name : String} {l : PlacedLink}

/-- A category is kept under the key of a name: it is in the index there, the name that is stored for it has
that key, and it is found by the name however it is spelled. -/
structure KeptUnder (p : Page) (x : ElementId) (name : String) : Prop where
  indexed : p.categories.find? (categoryKey name) = some x
  stored : ∃ s, p.storedName x = .ok s ∧ categoryKey s = categoryKey name
  found : ∀ rules, p.category? (Respelling.applyAll rules name) = some x

theorem keptUnder_of_key? (hc : p.IsCategory x) (hi : p.categories.find? (categoryKey name) = some x)
    (hk : p.key? x = some (categoryKey name)) : p.KeptUnder x name where
  indexed := hi
  stored := by
    obtain ⟨s, hs, hkey⟩ := Option.map_eq_some_iff.1 hk
    exact ⟨s, (storedName_eq_ok hc).2 hs, hkey⟩
  found rules := by rw [category?, Respelling.categoryKey_applyAll, hi]

end Page

namespace Edit

/-- A link is filed under the name by which it is recorded. -/
theorem keptUnder_registerLink {p : Page} (h : p.Synced) (name : String) (l : PlacedLink) :
    Ends (registerLink name l) p
      (fun _ q => ∃ x, q.owners.find? l.link = some x ∧ q.KeptUnder x name) fun _ _ => False := by
  refine (ends_registerLink h).mono (fun _ q hq => ?_) fun _ _ hf => hf
  rcases hq with ⟨x, hx, rfl⟩ | ⟨-, rfl⟩
  · have hc : (p.addLink x l).IsCategory x := (Page.isCategory_congr Page.form?_addLink).2 (h.indexed hx)
    have howners : (renamed (p.addLink x l) x name).owners = p.owners.insert l.link x := rfl
    have hindex : (renamed (p.addLink x l) x name).categories = p.categories := rfl
    have hform : (renamed (p.addLink x l) x name).form? = (p.addLink x l).form? :=
      Page.form?_update fun _ => ⟨rfl, rfl⟩
    refine ⟨x, by rw [howners, Index.find?_insert, if_pos rfl], ?_⟩
    refine Page.keptUnder_of_key? ((Page.isCategory_congr hform).2 hc) ?_ (Page.key?_renamed hc name)
    rw [hindex]
    exact hx
  · have hpush := h.pushCategory name
    have hc : (p.push (Page.newCategory name)).IsCategory p.next := isCategory_pushCategory
    have hroot := hpush.ne_root_of_isCategory hc
    have howners : (attached (p.push (Page.newCategory name)) p.next name l).owners =
        p.owners.insert l.link p.next := rfl
    refine ⟨p.next, by rw [howners, Index.find?_insert, if_pos rfl], ?_⟩
    refine Page.keptUnder_of_key? ((Page.isCategory_congr (Page.form?_attached hroot)).2 hc) ?_ ?_
    · rw [categories_attached, Index.find?_insert, if_pos rfl]
    · rw [Page.key?, Page.nameOf?_attached hroot, Page.nameOf?_pushCategory, if_pos rfl, Option.map_some,
        categoryKey_apply_words]

end Edit

namespace Page

variable {p : Page} {site : Site} {target text title : String} {preserve : Bool} {t : Target}
variable {links : List FoundLink} {n : NodeId}

theorem Files.keptUnder (h : p.Files links) (hr : p.Recorded) {l : FoundLink} (hl : l ∈ links) :
    ∃ x, p.owners.find? l.placed.link = some x ∧ p.KeptUnder x l.name := by
  obtain ⟨x, hx⟩ := h.exists_of_mem (FoundLink.mem_keys.2 ⟨l, hl, rfl⟩)
  refine ⟨x, hr.owner_iff.2 (List.mem_map_of_mem ?_), keptUnder_of_key? (hr.indexed hx) hx (h.key?_eq hr hx)⟩
  rw [h.links_eq hx]
  exact List.mem_map_of_mem (List.mem_filter.2 ⟨hl, decide_eq_true rfl⟩)

theorem categoryOf?_of_parseTarget (ht : site.parseTarget target = .ok t) (hc : site.isCategory t = true) :
    site.categoryOf? target = some t.title := by
  rw [Site.categoryOf?, ht]
  exact if_pos hc

theorem keptUnder_read [Entities] (h : read text site title preserve = .ok p) (hn : p.arena.target? n = some target)
    (hr : p.arena.Reads site p.arena.content n) (ht : site.parseTarget target = .ok t)
    (hc : site.isCategory t = true) : ∃ x, p.owners.find? n = some x ∧ p.KeptUnder x t.title := by
  have ha := Arena.sound_read text
  obtain ⟨_, found, hf, -, hreg, hfiles⟩ := exists_of_ofArena ha (Arena.loose_root_read text) h
    keptByRegistering_files fun _ _ _ => files_ofDrafts ..
  have hname : p.arena.categoryOf? site n = some t.title := by
    rw [Arena.categoryOf?_of_target? hn, categoryOf?_of_parseTarget ht hc]
  have hcounts : p.arena.Counts site p.arena.content n := ⟨by rw [hname]; rfl, hr⟩
  have harena : p.arena = Arena.read text := hreg.arena
  rw [harena] at hcounts hname
  obtain ⟨l, hl, rfl⟩ := List.mem_map.1 ((ha.findsAll hf n).2 hcounts)
  have htitle : t.title = l.name := Option.some.inj (hname.symm.trans ((ha.found hf).named l hl))
  exact htitle ▸ hfiles.keptUnder hreg.recorded hl

/-- No normalization changes the key of a category. So a link whose target is read as one to a category is
filed and stored under the key of its title, and found by that title however it is spelled: when it is recorded
on any page, and on every page that has been read. -/
theorem categoryKey_sees_through [Entities] :
    (∀ name, categoryKey (normalizeTitle name) = categoryKey name ∧
      categoryKey (Normalization.words.apply name) = categoryKey name ∧
      categoryKey (Normalization.words.apply (normalizeTitle name)) = categoryKey name) ∧
    (∀ rules name, categoryKey (Respelling.applyAll rules name) = categoryKey name) ∧
    ∀ site target t, Site.parseTarget site target = .ok t → site.isCategory t = true →
      (∀ (p : Page) (l : PlacedLink), p.Synced → p.site = site → p.arena.target? l.link = some target →
        ∃ name, p.arena.linkedCategory? p.site l.link = .ok (some name) ∧
          ∃ q x, Edit.registerLink name l p = .ok () q ∧ q.owners.find? l.link = some x ∧
            q.KeptUnder x t.title) ∧
      ∀ text title preserve p n, read text site title preserve = .ok p → p.arena.target? n = some target →
        p.arena.Reads site p.arena.content n → ∃ x, p.owners.find? n = some x ∧ p.KeptUnder x t.title := by
  refine ⟨fun name => ⟨categoryKey_normalizeTitle name, categoryKey_apply_words name, ?_⟩,
    Respelling.categoryKey_applyAll, fun site target t ht hc => ⟨?_, ?_⟩⟩
  · rw [categoryKey_apply_words, categoryKey_normalizeTitle]
  · rintro p l hs rfl hl
    refine ⟨t.title, Arena.linkedCategory?_eq_some_iff.2 ?_, ?_⟩
    · rw [Arena.categoryOf?_of_target? hl, categoryOf?_of_parseTarget ht hc]
    · obtain ⟨⟨⟩, q, hq, x, hx⟩ := (Edit.keptUnder_registerLink hs t.title l).exists_ok
      exact ⟨q, x, hq, hx⟩
  · intro text title preserve p n h hn hr
    exact keptUnder_read h hn hr ht hc

/-- A page with two links to one category. The first has underscores in its title, the second has blanks
that are no spaces. -/
def spelledTwice : Page :=
  (read "[[Category:Foo__bar]]\n[[category:\u3000FOO\u2003bar\t]]" .default "Test" false).toOption.getD
    (ofDrafts .new .default "Test" [])

theorem categoryKey_sees_through_spelledTwice :
    read "[[Category:Foo__bar]]\n[[category:\u3000FOO\u2003bar\t]]" .default "Test" false = .ok spelledTwice ∧
      (∃ name, spelledTwice.arena.linkedCategory? spelledTwice.site ⟨3⟩ = .ok (some name) ∧
        ∃ q x, Edit.registerLink name ⟨⟨7⟩, ⟨3⟩⟩ spelledTwice = .ok () q ∧ q.owners.find? ⟨3⟩ = some x ∧
          q.KeptUnder x "Foo  bar") ∧
      ∃ x, spelledTwice.owners.find? ⟨6⟩ = some x ∧ spelledTwice.KeptUnder x "FOO\u2003bar" := by
  have hread : read "[[Category:Foo__bar]]\n[[category:\u3000FOO\u2003bar\t]]" .default "Test" false =
      .ok spelledTwice := by decide +kernel
  have htargets : spelledTwice.arena.target? ⟨3⟩ = some "Category:Foo__bar" ∧
      spelledTwice.arena.target? ⟨6⟩ = some "category:\u3000FOO\u2003bar\t" := by decide +kernel
  have hlinks : spelledTwice.categoryLinks ⟨4⟩ = .ok [⟨3⟩, ⟨6⟩] := by decide +kernel
  have hlinked : spelledTwice.Linked ⟨6⟩ := by
    refine linked_iff.2 ⟨⟨4⟩, ?_⟩
    rw [(categoryLinks_eq_ok_iff.1 hlinks).2]
    simp
  have hreads : spelledTwice.arena.Reads .default spelledTwice.arena.content ⟨6⟩ :=
    ((linked_read_iff hread).1 hlinked).2
  obtain ⟨-, -, hkept⟩ := categoryKey_sees_through
  refine ⟨hread, ?_, ?_⟩
  · exact (hkept .default "Category:Foo__bar" ⟨14, "Foo  bar", none, false⟩ (by decide +kernel)
      (by decide +kernel)).1 spelledTwice ⟨⟨7⟩, ⟨3⟩⟩ (begun_read hread).recorded.toSynced (by decide +kernel)
        htargets.1
  · exact (hkept .default "category:\u3000FOO\u2003bar\t" ⟨14, "FOO\u2003bar", none, false⟩
      (by decide +kernel) (by decide +kernel)).2 _ _ _ _ _ hread htargets.2 hreads

end Page
end WikiPage
