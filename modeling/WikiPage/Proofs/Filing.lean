import Mathlib.Data.List.Forall2
import WikiPage.EntityTable
import WikiPage.Proofs.Counted
import WikiPage.Proofs.Renewal

/-!
# Links that are filed

When a page is read, the links to categories on it are filed one after the other, each under the key of
the category that it names. A key that is new makes a new category, at the end of the others. The last
link under a key has the say in how the category is spelled.
-/

namespace WikiPage

namespace FoundLink

/-- The key under which a link is filed. -/
def key (l : FoundLink) : String :=
  categoryKey l.name

/-- The keys of links, each at the place of the first link that has it. -/
def keys (links : List FoundLink) : List String :=
  (links.map key).eraseDups

/-- The links under a key. -/
def under (links : List FoundLink) (k : String) : List FoundLink :=
  links.filter (·.key = k)

variable {links : List FoundLink} {l : FoundLink} {k : String}

theorem mem_keys : k ∈ keys links ↔ ∃ l ∈ links, l.key = k := by
  rw [keys, List.mem_eraseDups, List.mem_map]

theorem keys_append_of_mem (h : l.key ∈ keys links) : keys (links ++ [l]) = keys links := by
  have hm : l.key ∈ links.map key := List.mem_eraseDups.1 h
  have hrest : [l.key].removeAll (links.map key) = [] :=
    List.filter_eq_nil_iff.2 fun k hk => by simpa [List.mem_singleton.1 hk] using hm
  rw [keys, List.map_append, List.eraseDups_append, List.map_singleton, hrest, List.eraseDups_nil,
    List.append_nil, ← keys]

theorem keys_append_of_not_mem (h : l.key ∉ keys links) :
    keys (links ++ [l]) = keys links ++ [l.key] := by
  have hm : l.key ∉ links.map key := fun hm => h (List.mem_eraseDups.2 hm)
  have hrest : [l.key].removeAll (links.map key) = [l.key] :=
    List.filter_eq_self.2 fun k hk => by simpa [List.mem_singleton.1 hk] using hm
  rw [keys, List.map_append, List.eraseDups_append, List.map_singleton, hrest, ← keys]
  rfl

theorem under_append (links : List FoundLink) (l : FoundLink) (k : String) :
    under (links ++ [l]) k = if l.key = k then under links k ++ [l] else under links k := by
  rw [under, List.filter_append]
  split <;> simp [under, *]

theorem under_eq_nil (h : k ∉ keys links) : under links k = [] :=
  List.filter_eq_nil_iff.2 fun l hl hk => h (mem_keys.2 ⟨l, hl, of_decide_eq_true hk⟩)

end FoundLink

namespace Page

variable {p q : Page} {x id : ElementId} {links done : List FoundLink} {l : FoundLink} {k : String}

/-- The categories on the page are those of the links that have been filed. -/
structure Files (p : Page) (links : List FoundLink) : Prop where
  ids : (FoundLink.keys links).map p.categories.find? = p.categoryIds.map some
  links_eq : ∀ {k x}, p.categories.find? k = some x →
    p.linksOf x = (FoundLink.under links k).map FoundLink.placed
  name_eq : ∀ {k x}, p.categories.find? k = some x →
    p.nameOf? x = (FoundLink.under links k).getLast?.map fun l => Normalization.words.apply l.name

namespace Files

theorem exists_of_mem (h : p.Files links) (hk : k ∈ FoundLink.keys links) :
    ∃ x, p.categories.find? k = some x := by
  have hm : p.categories.find? k ∈ p.categoryIds.map some := h.ids ▸ List.mem_map_of_mem hk
  obtain ⟨x, -, hx⟩ := List.mem_map.1 hm
  exact ⟨x, hx.symm⟩

/-- A category that is filed goes by the key under which it is filed. -/
theorem key?_eq (h : p.Files links) (hr : p.Recorded) (hx : p.categories.find? k = some x) :
    p.key? x = some k := by
  have hname := h.name_eq hx
  obtain ⟨s, hs⟩ := Option.ne_none_iff_exists'.1 (hr.named (hr.indexed hx))
  rw [hs] at hname
  obtain ⟨l, hl, rfl⟩ := Option.map_eq_some_iff.1 hname.symm
  have hkey := (List.mem_filter.1 (List.mem_of_getLast? hl)).2
  rw [key?, hs, Option.map_some, categoryKey_apply_words]
  exact congrArg some (of_decide_eq_true hkey)

theorem add (h : p.Files done) (hr : p.Recorded) (hf : p.IsFreeLink l.placed.link)
    (hid : p.category? l.name = some id) :
    (Edit.renamed (p.addLink id l.placed) id l.name).Files (done ++ [l]) := by
  have hc : p.IsCategory id := hr.indexed hid
  have hac : (p.addLink id l.placed).IsCategory id := (isCategory_congr form?_addLink).2 hc
  have hrev : p.Revises id (Edit.renamed (p.addLink id l.placed) id l.name) :=
    (Revises.of_addLink hr.toSynced hc hf).trans (.of_renamed (hr.toSynced.addLink hf))
  have hmem : l.key ∈ FoundLink.keys done := by
    by_contra hnot
    have hname := h.name_eq (k := l.key) hid
    rw [FoundLink.under_eq_nil hnot] at hname
    exact hr.named hc hname
  -- no other key leads to the category
  have hkey {k : String} {x : ElementId} (hx : p.categories.find? k = some x) : l.key = k ↔ x = id := by
    constructor
    · rintro rfl
      exact Option.some.inj (hx.symm.trans hid)
    · rintro rfl
      exact Option.some.inj ((h.key?_eq hr hid).symm.trans (h.key?_eq hr hx))
  refine ⟨?_, fun {k x} hx => ?_, fun {k x} hx => ?_⟩
  · rw [FoundLink.keys_append_of_mem hmem, categoryIds_eq, hrev.rootChildren, ← categoryIds_eq]
    exact h.ids
  · have hx : p.categories.find? k = some x := hx
    rw [FoundLink.under_append, Recorded.linksOf_renamed, linksOf_addLink hc.find?_ne_none]
    by_cases hxid : x = id
    · rw [if_pos hxid, if_pos ((hkey hx).2 hxid), ← hxid, h.links_eq hx, List.map_append]
      rfl
    · rw [if_neg hxid, if_neg (mt (hkey hx).1 hxid), h.links_eq hx]
  · have hx : p.categories.find? k = some x := hx
    rw [FoundLink.under_append]
    by_cases hxid : x = id
    · rw [if_pos ((hkey hx).2 hxid), hxid, Recorded.nameOf?_renamed hac, List.getLast?_append]
      rfl
    · rw [if_neg (mt (hkey hx).1 hxid), hrev.name hxid, h.name_eq hx]

theorem make (h : p.Files done) (hr : p.Recorded) (hf : p.IsFreeLink l.placed.link)
    (hnone : p.category? l.name = none) :
    (Edit.attached (p.push (newCategory l.name)) p.next l.name l.placed).Files (done ++ [l]) := by
  have hpush := hr.pushCategory l.name
  have hc : (p.push (newCategory l.name)).IsCategory p.next := Edit.isCategory_pushCategory
  have hroot := hpush.ne_root_of_isCategory hc
  have hnot : l.key ∉ FoundLink.keys done := fun hm => by
    obtain ⟨x, hx⟩ := h.exists_of_mem hm
    cases hnone.symm.trans hx
  have hfind (k : String) :
      (Edit.attached (p.push (newCategory l.name)) p.next l.name l.placed).categories.find? k =
        if k = l.key then some p.next else p.categories.find? k :=
    Index.find?_insert ..
  have hold {k : String} {x : ElementId} (hx : p.categories.find? k = some x) : x ≠ p.next := by
    rintro rfl
    exact IsCategory.find?_ne_none (hr.indexed hx) (find?_next p)
  refine ⟨?_, fun {k x} hx => ?_, fun {k x} hx => ?_⟩
  · rw [FoundLink.keys_append_of_not_mem hnot, categoryIds_eq,
      childrenOf_attached (hpush.toSynced.addLink (hf.pushCategory _)) hc, childrenOf_pushCategory,
      List.filter_append, ← categoryIds_eq, List.map_append, List.map_append, ← h.ids]
    have hbody : p.next ≠ body := hpush.ne_body_of_isCategory hc
    have hsame : (FoundLink.keys done).map
        (Edit.attached (p.push (newCategory l.name)) p.next l.name l.placed).categories.find? =
          (FoundLink.keys done).map p.categories.find? :=
      List.map_congr_left fun k hk => by
        rw [hfind, if_neg]
        rintro rfl
        exact hnot hk
    rw [hsame]
    simp [hfind, hbody]
  · rw [hfind] at hx
    rw [linksOf_attached hc.find?_ne_none hroot, linksOf_pushCategory, FoundLink.under_append]
    split at hx
    · subst k
      obtain rfl := Option.some.inj hx
      rw [if_pos rfl, if_pos rfl, FoundLink.under_eq_nil hnot, linksOf, find?_next]
      rfl
    · rw [if_neg (hold hx), if_neg (Ne.symm ‹_›), h.links_eq hx]
  · rw [hfind] at hx
    rw [nameOf?_attached hroot, nameOf?_pushCategory, FoundLink.under_append]
    split at hx
    · subst k
      obtain rfl := Option.some.inj hx
      rw [if_pos rfl, if_pos rfl, FoundLink.under_eq_nil hnot]
      rfl
    · rw [if_neg (hold hx), if_neg (Ne.symm ‹_›), h.name_eq hx]

end Files

theorem keptByRegistering_files : Edit.KeptByRegistering fun done p => p.Files done := by
  intro p done l h hf _ hp
  refine (Edit.ends_registerLink h.toSynced).mono (fun _ q hq => ?_) fun _ _ hf => hf
  rcases hq with ⟨id, hid, rfl⟩ | ⟨hnone, rfl⟩
  · exact hp.add h hf hid
  · exact hp.make h hf hnone

theorem files_ofDrafts (arena : Arena) (site : Site) (title : String) (drafts : List Draft) :
    (ofDrafts arena site title drafts).Files [] where
  ids := rfl
  links_eq hx := by cases hx
  name_eq hx := by cases hx

/-- The key of the category that a node names, if it is a link that names one. -/
def linkKey? (p : Page) (n : NodeId) : Option String :=
  (p.arena.categoryOf? p.site n).map categoryKey

/-- The categories on a page are made up of links. There is one for each key, in the order of the first
links that have them. It has all links of its key, and is spelled as in the last of them, up to blanks. -/
def IsFiledFrom (p : Page) (links : List NodeId) : Prop :=
  List.Forall₂ (fun x k =>
      p.categoryLinks x = .ok (links.filter (p.linkKey? · = some k)) ∧
      ∃ last name, (links.filter (p.linkKey? · = some k)).getLast? = some last ∧
        p.arena.linkedCategory? p.site last = .ok (some name) ∧
        p.categoryName x = .ok (Normalization.words.apply name))
    p.categoryIds (links.filterMap p.linkKey?).eraseDups

theorem Files.isFiledFrom (h : p.Files links) (hr : p.Recorded)
    (hnamed : ∀ l ∈ links, p.arena.categoryOf? p.site l.placed.link = some l.name) :
    p.IsFiledFrom (links.map fun l => l.placed.link) := by
  have hkey (l : FoundLink) (hl : l ∈ links) : p.linkKey? l.placed.link = some l.key := by
    rw [linkKey?, hnamed l hl]
    rfl
  have hkeys : (links.map fun l => l.placed.link).filterMap p.linkKey? = links.map FoundLink.key := by
    rw [List.filterMap_map, ← List.filterMap_eq_map]
    exact List.filterMap_congr fun l hl => hkey l hl
  have hunder (k : String) : (links.map fun l => l.placed.link).filter (p.linkKey? · = some k) =
      (FoundLink.under links k).map fun l => l.placed.link := by
    rw [List.filter_map]
    refine congrArg _ (List.filter_congr fun l hl => ?_)
    simp [hkey l hl]
  have hpairs : List.Forall₂ (fun x k => p.categories.find? k = some x) p.categoryIds
      (FoundLink.keys links) := by
    have hids := h.ids
    rw [← List.forall₂_eq_eq_eq, List.forall₂_map_left_iff, List.forall₂_map_right_iff] at hids
    exact hids.flip
  rw [IsFiledFrom, hkeys]
  refine hpairs.imp fun x k hx => ?_
  have hc : p.IsCategory x := hr.indexed hx
  obtain ⟨s, hs⟩ := Option.ne_none_iff_exists'.1 (hr.named hc)
  obtain ⟨l, hl, hls⟩ := Option.map_eq_some_iff.1 ((h.name_eq hx).symm.trans hs)
  have hmem : l ∈ links := (List.mem_filter.1 (List.mem_of_getLast? hl)).1
  refine ⟨?_, l.placed.link, l.name, ?_, ?_, ?_⟩
  · rw [hunder, hc.categoryLinks_eq_ok, linkNodes, h.links_eq hx, List.map_map]
    rfl
  · rw [hunder, List.getLast?_map, hl, Option.map_some]
  · exact Arena.linkedCategory?_eq_some_iff.2 (hnamed l hmem)
  · exact categoryName_eq_ok_iff.2 ⟨hc, hls ▸ hs⟩

/-- The categories of a page that has been read are made up of the links to categories that reading comes
to, in the order of the page. -/
theorem isFiledFrom_read [Entities] {site : Site} {text title : String} {preserve : Bool}
    (h : read text site title preserve = .ok p) :
    p.arena = Arena.read text ∧ p.site = site ∧ ∃ below links,
      p.arena.descendants p.arena.content = .ok below ∧ below.Nodup ∧ links.Sublist below ∧
      (∀ n, n ∈ links ↔ (∃ name, p.arena.linkedCategory? site n = .ok (some name)) ∧
        p.arena.Reads site p.arena.content n) ∧
      p.IsFiledFrom links := by
  have ha := Arena.sound_read text
  obtain ⟨t, found, hf, -, hreg, hfiles⟩ := exists_of_ofArena ha (Arena.loose_root_read text) h
    keptByRegistering_files fun _ _ _ => files_ofDrafts ..
  have hfound := ha.found hf
  have harena : p.arena = Arena.read text := hreg.arena
  have hsite : p.site = site := hreg.site
  have hlt := ha.closed Arena.root _ ha.content_mem
  obtain ⟨m, hm⟩ := Arena.exists_of_index_lt hlt
  have hnodup := ha.nodup_preorder hlt
  rw [ha.preorder_tree hm, List.nodup_cons] at hnodup
  refine ⟨harena, hsite, _, found.links.map fun l => l.placed.link, ?_, hnodup.2, hfound.links,
    fun n => ?_, hfiles.isFiledFrom hreg.recorded ?_⟩
  · rw [harena]
    exact ha.descendants_eq hm
  · rw [ha.findsAll hf n, Arena.Counts, Option.isSome_iff_exists, harena]
    simp only [Arena.linkedCategory?_eq_some_iff]
  · rw [harena, hsite]
    exact hfound.named

/-- A page with three links to two categories, and one that is passed over. -/
def interleaved : Page :=
  (read "[[Category:B]][[Category:A]][[File:x|[[Category:C]]]][[category:b_]]" .default "Test"
    false).toOption.getD (ofDrafts .new .default "Test" [])

theorem isFiledFrom_read_interleaved :
    read "[[Category:B]][[Category:A]][[File:x|[[Category:C]]]][[category:b_]]" .default "Test" false =
        .ok interleaved ∧
      (∃ links, interleaved.IsFiledFrom links) ∧
      interleaved.categoryIds.map interleaved.categoryLinks = [.ok [⟨3⟩, ⟨11⟩], .ok [⟨5⟩]] ∧
      interleaved.categoryIds.map interleaved.categoryName = [.ok "b", .ok "A"] := by
  obtain ⟨hread, hlinks, hnames⟩ :
      read "[[Category:B]][[Category:A]][[File:x|[[Category:C]]]][[category:b_]]" .default "Test" false =
          .ok interleaved ∧
        interleaved.categoryIds.map interleaved.categoryLinks = [.ok [⟨3⟩, ⟨11⟩], .ok [⟨5⟩]] ∧
        interleaved.categoryIds.map interleaved.categoryName = [.ok "b", .ok "A"] := by
    decide +kernel
  obtain ⟨-, -, -, links, -, -, -, -, hfiled⟩ := isFiledFrom_read hread
  exact ⟨hread, ⟨links, hfiled⟩, hlinks, hnames⟩

end Page
end WikiPage
