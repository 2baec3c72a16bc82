import WikiPage.EntityTable
import WikiPage.Proofs.Glued
import WikiPage.Proofs.Naming
import WikiPage.Proofs.Renewal
import WikiPage.Proofs.Setting

/-!
# Categories under other names

A category takes a valid name that no other attached category goes by. Its canonical link is all that is
left of its links then, and names it. A category that is renamed as it is called already is left alone,
with its links, if the canonical link spells the name as it is stored.
-/

namespace WikiPage

namespace Attribute

theorem put_eq_self {l : List Attribute} {a : Attribute} (h : find? l a.name = some a) : put l a = l := by
  induction l with
  | nil => cases h
  | cons b l ih =>
    rw [put]
    by_cases hb : b.name = a.name
    · rw [find?, List.find?_cons_of_pos (by simpa using hb)] at h
      rw [if_pos hb, Option.some.inj h]
    · rw [find?, List.find?_cons_of_neg (by simpa using hb)] at h
      rw [if_neg hb, ih h]

end Attribute

namespace Page

variable {p q : Page} {id x y : ElementId} {e : Element} {name new old s : String} {l : PlacedLink}

theorem update_eq_self {f : Element → Element} (he : p.find? id = some e) (hf : f e = e) :
    p.update id f = p := by
  rw [update_congr (g := fun e => e) he hf, update]
  have hm : p.elements.modify id.index (fun e => e) = p.elements :=
    Array.ext_getElem? fun i => by rw [Array.getElem?_modify]; simp
  rw [hm]

theorem checkCategoryName_eq_ok_iff (hc : p.IsCategory id) {o : Option String} :
    p.checkCategoryName id s = .ok o ↔ o = some (normalizeTitle s) ∧
      Valid.isCategory (normalizeTitle s) = true ∧ (p.key? id = some (categoryKey s) ∨
        p.parentOf id = none ∨ p.category? s = none) := by
  obtain ⟨e, he, hk⟩ := hc.exists_find?
  have hname : p.nameOf? id = (Attribute.find? e.attributes "name").map Attribute.value := by
    simp [nameOf?, he, hk]
  have hparent : p.parentOf id = e.parent := by
    rw [parentOf, he]
    rfl
  have hcategory : p.hasCategory (normalizeTitle s) = (p.category? s).isSome := by
    rw [hasCategory, category?, category?, categoryKey_normalizeTitle]
  have hsame : (p.nameOf? id).any (categoryKey · == categoryKey (normalizeTitle s)) = true ↔
      p.key? id = some (categoryKey s) := by
    rw [key?, categoryKey_normalizeTitle]
    cases p.nameOf? id <;> simp
  unfold checkCategoryName checkCategory
  rw [value?_of_find? he, Edit.toLower_name, ← hname, parent_of_find? he, ← hparent]
  dsimp only
  rw [hcategory]
  by_cases hvalid : Valid.isCategory (normalizeTitle s) = true
  · simp only [hvalid, if_true, bind, Except.bind, true_and]
    rw [← hsame]
    cases (p.nameOf? id).any (categoryKey · == categoryKey (normalizeTitle s)) <;>
      cases p.parentOf id <;> cases p.category? s <;> simp [eq_comm]
  · rw [if_neg hvalid]
    exact iff_of_false (by simp [refuse, bind, Except.bind]) fun h => hvalid h.2.1

theorem renamed_eq_self (h : p.Recorded) (hn : p.nameOf? id = some s) : Edit.renamed p id s = p := by
  obtain ⟨e, he, hname⟩ := Option.bind_eq_some_iff.1 hn
  split at hname
  swap
  · cases hname
  obtain ⟨a, ha, rfl⟩ := Option.map_eq_some_iff.1 hname
  refine update_eq_self he ?_
  have hself : (⟨"name", Normalization.words.apply a.value, a.node⟩ : Attribute) = a := by
    rw [h.normal hn, ← Attribute.name_of_find? ha]
  rw [Edit.store, Edit.toLower_name, ha, Option.bind_some, hself,
    Attribute.put_eq_self (by rwa [Attribute.name_of_find? ha])]

/-- The canonical link of a category is read as a link to a name. -/
def ReadsAs (p : Page) (x : ElementId) (name : String) : Prop :=
  ∃ links link, p.categoryLinks x = .ok links ∧ links.getLast? = some link ∧
    p.arena.linkedCategory? p.site link = .ok (some name)

theorem readsAs_iff (hc : p.IsCategory x) : p.ReadsAs x name ↔
    ∃ l, (p.linksOf x).getLast? = some l ∧ p.arena.categoryOf? p.site l.link = some name := by
  constructor
  · rintro ⟨links, link, hlinks, hlast, hnamed⟩
    obtain ⟨-, rfl⟩ := categoryLinks_eq_ok_iff.1 hlinks
    rw [List.getLast?_map] at hlast
    obtain ⟨l, hl, rfl⟩ := Option.map_eq_some_iff.1 hlast
    exact ⟨l, hl, Arena.linkedCategory?_eq_some_iff.1 hnamed⟩
  · rintro ⟨l, hl, hnamed⟩
    exact ⟨_, l.link, categoryLinks_eq_ok_iff.2 ⟨hc, rfl⟩, by rw [List.getLast?_map, hl]; rfl,
      Arena.linkedCategory?_eq_some_iff.2 hnamed⟩

theorem normalizeTitle_of_categoryOf? {site : Site} {target : String} (h : site.categoryOf? target = some s) :
    normalizeTitle s = s := by
  rw [normalizeTitle, Text.onChars, Site.categoryOf?_eq_some h, String.toList_ofList, normalTitle_normalTitle]

theorem ReadsAs.normalizeTitle_eq (hc : p.IsCategory x) (h : p.ReadsAs x s) : normalizeTitle s = s := by
  obtain ⟨l, -, hl⟩ := (readsAs_iff hc).1 h
  obtain ⟨target, -, htarget⟩ := Option.bind_eq_some_iff.1 hl
  exact normalizeTitle_of_categoryOf? htarget

/-- A category is given a name. Its canonical link names it so already, or is made to. -/
def GoesBy (p : Page) (x : ElementId) (name : String) (q : Page) : Prop :=
  q = Edit.renamed p x name ∧ (∀ l, (p.linksOf x).getLast? = some l →
      p.arena.categoryOf? p.site l.link = some (Normalization.words.apply name)) ∨
    ∃ old l, Edit.Retitled p x old name l q

/-- A category that goes by its name already is left alone, if its canonical link says so. -/
theorem GoesBy.eq_self (hq : p.GoesBy x s q) (h : p.Recorded) (hn : p.nameOf? x = some s)
    (hl : ∀ l, (p.linksOf x).getLast? = some l → p.arena.categoryOf? p.site l.link = some s) : q = p := by
  rcases hq with ⟨rfl, -⟩ | ⟨old, l, hq⟩
  · exact renamed_eq_self h hn
  · -- the canonical link would have to be read otherwise
    exact absurd (hl l hq.canonical) (h.normal hn ▸ hq.differs)

namespace Recorded

theorem ends_setAttribute_category (h : p.Recorded) (hc : p.IsCategory x) :
    Ends (Edit.setAttribute x name new) p
      (fun old q => old = p.nameOf? x ∧ name.toLower = "name" ∧
        p.checkCategoryName x new = .ok (some (normalizeTitle new)) ∧ p.GoesBy x (normalizeTitle new) q)
      fun err q => q = p ∧ (p.policy x name = .error err ∨ p.checkCategoryName x new = .error err) := by
  refine Edit.ends_setAttribute_name_run hc (fun err herr => ⟨rfl, .inl herr⟩) (fun err herr => ⟨rfl, .inr herr⟩)
    fun verified hname hok => ?_
  obtain ⟨hverified, -⟩ := exists_of_checkCategoryName hok
  obtain rfl := Option.some.inj hverified
  exact (Edit.ends_renameLinks h hc).mono (fun _ q hq => ⟨rfl, hname, hok, hq⟩) fun _ _ hf => hf.elim

theorem ends_renameCategory (h : p.Recorded) (hx : p.category? old = some x) :
    Ends (Edit.renameCategory old new) p
      (fun _ q => p.checkCategoryName x new = .ok (some (normalizeTitle new)) ∧
        p.GoesBy x (normalizeTitle new) q)
      fun err q => q = p ∧ p.checkCategoryName x new = .error err := by
  have hc : p.IsCategory x := h.indexed hx
  obtain ⟨e, he, hk⟩ := hc.exists_find?
  refine Ends.bind (Edit.ends_ask (fun id hid => ?_) fun err herr => ?_)
  · rw [hx] at hid
    obtain rfl := Except.ok.inj hid
    refine (h.ends_setAttribute_category hc).step (fun _ q hq => Ends.pure hq.2.2) fun err q hq =>
      ⟨hq.1, hq.2.resolve_left fun herr => ?_⟩
    rw [policy_eq_get he, hk, Policy.get_eq_ok_iff.2 Edit.find?_namePolicy] at herr
    cases herr
  · rw [hx] at herr
    cases herr

end Recorded

/-- A category that is renamed as it is called already is left alone with the rest of the page, if its
canonical link spells the name as it is stored, or the name is refused. -/
theorem Reached.renameCategory_same [Entities] {site : Site} (h : p.Reached site)
    (hx : p.category? old = some x) (hn : p.categoryName x = .ok s)
    (hs : p.ReadsAs x s ∨ ∃ err q, Edit.renameCategory old s p = .error err q) :
    (Act.renameCategory old s).after p = p := by
  obtain ⟨hc, hn⟩ := categoryName_eq_ok_iff.1 hn
  have hrecorded := h.orderly.recorded
  have hends : Ends (Edit.renameCategory old s) p _ _ := hrecorded.ends_renameCategory hx
  have hrun : (Act.renameCategory old s).edit p = Edit.renameCategory old s p := rfl
  rw [Act.after, hrun]
  cases hm : Edit.renameCategory old s p with
  | error err q => exact (hends.of_error hm).1
  | ok u q =>
    have hr : p.ReadsAs x s := hs.resolve_right fun ⟨err, q', herr⟩ => by cases hm.symm.trans herr
    obtain ⟨l, hlast, hl⟩ := (readsAs_iff hc).1 hr
    have hgoes := (hends.of_ok hm).2
    rw [hr.normalizeTitle_eq hc] at hgoes
    exact hgoes.eq_self hrecorded hn fun k hk => Option.some.inj (hlast.symm.trans hk) ▸ hl

theorem renameCategory_same_categorized : (categorized "Foo").Reached .default ∧
    (categorized "Foo").category? "foo" = some ⟨2⟩ ∧ (categorized "Foo").categoryName ⟨2⟩ = .ok "Foo" ∧
    (categorized "Foo").ReadsAs ⟨2⟩ "Foo" ∧
    (Act.renameCategory "foo" "Foo").after (categorized "Foo") = categorized "Foo" := by
  have hnew : Page.new .default "Test" = .ok (ofDrafts .new .default "Test" []) := rfl
  have h : (categorized "Foo").Reached .default := .run (.new hnew) rfl
  obtain ⟨hx, hn, hlinks, hlink⟩ : (categorized "Foo").category? "foo" = some ⟨2⟩ ∧
      (categorized "Foo").categoryName ⟨2⟩ = .ok "Foo" ∧ (categorized "Foo").categoryLinks ⟨2⟩ = .ok [⟨3⟩] ∧
      (categorized "Foo").arena.linkedCategory? (categorized "Foo").site ⟨3⟩ = .ok (some "Foo") := by
    decide +kernel
  have hr : (categorized "Foo").ReadsAs ⟨2⟩ "Foo" := ⟨[⟨3⟩], ⟨3⟩, hlinks, rfl, hlink⟩
  exact ⟨h, hx, hn, hr, h.renameCategory_same hx hn (.inl hr)⟩

/-- A page with a link to a category whose name has two blanks side by side. -/
def doublySpaced : Page :=
  (read "[[Category:Foo  Bar]]" .default "Test" false).toOption.getD (ofDrafts .new .default "Test" [])

/-- The name is stored with one blank. When the category is renamed as it is called, its link is written
anew. -/
theorem not_renameCategory_same_doublySpaced :
    read "[[Category:Foo  Bar]]" .default "Test" false = .ok doublySpaced ∧
      doublySpaced.category? "Foo Bar" = some ⟨3⟩ ∧ doublySpaced.categoryName ⟨3⟩ = .ok "Foo Bar" ∧
      doublySpaced.source = .ok "[[Category:Foo  Bar]]" ∧
      ((Act.renameCategory "Foo Bar" "Foo Bar").after doublySpaced).source = .ok "[[Category:Foo Bar]]" := by
  decide +kernel

end Page

/-- A link leads to another target and has the title that it had, which it is printed with if it is not
empty. -/
def Arena.RedirectsLink (a : Arena) (link : NodeId) (target : String) (b : Arena) : Prop :=
  ∃ old title items text, a.payload link = .ok (.link old title) ∧ b.payload link = .ok (.link target title) ∧
    a.items title = .ok items ∧ b.tree title = a.tree title ∧ b.print title = .ok text ∧
    b.print link = .ok ("[[" ++ target ++ (if items = [] then "" else "|" ++ text) ++ "]]")

namespace Edit

variable {p q : Page} {id : ElementId} {old new : String} {l : PlacedLink}

theorem Retitled.kids_eq (hq : Retitled p id old new l q) (c : NodeId) : q.arena.kids c =
    (p.arena.kids c).filter fun m => m ∈ p.linkNodes id → m = l.link := by
  obtain ⟨r, s, hr, hs, rfl⟩ := hq.page
  have hlinks : r.linksOf id = p.linksOf id := by
    rw [hr.linksOf_eq, Page.Recorded.linksOf_renamed]
  have hkids : r.arena.kids = p.arena.kids := hr.arena.alike.kids_eq
  refine (hs.kids c).trans ?_
  rw [hkids, hlinks]
  refine List.filter_congr fun m _ => decide_eq_decide.2 ⟨fun hm hlink => ?_, fun hm hgone => ?_⟩
  · obtain ⟨k, hk, rfl⟩ := List.mem_map.1 hlink
    by_contra hne
    exact hm (List.mem_map_of_mem (List.mem_filter.2 ⟨hk, by simpa using hne⟩))
  · obtain ⟨k, hk, rfl⟩ := List.mem_map.1 hgone
    rw [List.mem_filter] at hk
    simpa [hm (List.mem_map_of_mem hk.1)] using hk.2

theorem Retitled.agrees (hq : Retitled p id old new l q) (h : p.Recorded) (hqs : q.Synced) :
    p.arena.AgreesBut q.arena fun y =>
      y = l.link ∨ ∃ m ∈ p.linkNodes id, m ≠ l.link ∧ m ∈ p.arena.kids y := by
  intro y n hy hn
  rw [not_or] at hy
  -- none of the items is one of the links that are taken out
  have hsame : q.arena.kids y = p.arena.kids y := by
    rw [hq.kids_eq]
    exact List.filter_eq_self.2 fun m hm => decide_eq_true fun hlink => by_contra fun hne => hy.2 ⟨m, hlink, hne, hm⟩
  obtain ⟨r, s, hr, hs, rfl⟩ := hq.page
  have hry : r.arena.find? y = some n := (hr.arena.find?_of_ne hy.1).trans hn
  cases hlist : n.payload.isList with
  | false => exact hs.nodes hry hlist
  | true =>
    obtain ⟨payload, g⟩ := n
    cases payload <;> cases hlist
    have hnone := h.sound.find?_of_list hn
    obtain rfl : none = g := congrArg Node.glue (Option.some.inj (hnone.symm.trans hn))
    obtain ⟨g', hlist⟩ : ∃ g', s.arena.find? y = some ⟨.list (s.arena.kids y), g'⟩ := hs.evolves.find?_list hry
    have hkids : s.arena.kids y = _ := hsame.trans (Arena.kids_of_find? hn)
    rw [hkids] at hlist
    exact hqs.sound.find?_of_list hlist

/-- The canonical link is written anew. -/
theorem Retitled.find?_link (hq : Retitled p id old new l q) : ∃ target title g,
    p.arena.find? l.link = some ⟨.link target title, g⟩ ∧
    q.arena.find? l.link = some ⟨.link (categoryTarget p (Normalization.words.apply new)) title,
      some (Glue.link (categoryTarget p (Normalization.words.apply new)) !(p.arena.kids title).isEmpty)⟩ := by
  obtain ⟨r, s, hr, hs, rfl⟩ := hq.page
  obtain ⟨target, title, g, hp, hlink⟩ := hr.arena.find?_link
  exact ⟨target, title, g, hp, hs.nodes hlink rfl⟩

/-- The canonical link leads to the category under its new name. No link that is taken out stands in its
title. -/
theorem Retitled.redirectsLink [Entities] (hq : Retitled p id old new l q) (h : p.Recorded) (hroot : p.IsRooted)
    (hqs : q.Synced) {source : String} (hw : q.arena.Worded source) :
    p.arena.RedirectsLink l.link (categoryTarget p (Normalization.words.apply new)) q.arena := by
  have hagrees := hq.agrees h hqs
  have hl := List.mem_of_getLast? hq.canonical
  have hf := hqs.sound.founded
  obtain ⟨target, title, g, hp, hlink⟩ := hq.find?_link
  have hkid : title ∈ p.arena.kids l.link := by
    have hk : p.arena.kids l.link = _ := Arena.kids_of_find? hp
    rw [hk]
    exact List.mem_singleton_self _
  obtain ⟨items, htitle⟩ : ∃ items, p.arena.find? title = some ⟨.list items, none⟩ :=
    h.sound.find?_slot (s := (title, .content)) hp (List.mem_singleton_self _)
  have hspared (y : NodeId) (hy : y = l.link ∨ ∃ m ∈ p.linkNodes id, m ≠ l.link ∧ m ∈ p.arena.kids y) :
      ¬Reaches p.arena.kids title y := by
    intro hreach
    rcases hy with rfl | ⟨m, hm, hne, hmy⟩
    · exact h.sound.not_reaches hkid hreach
    · obtain ⟨k, hk, rfl⟩ := List.mem_map.1 hm
      exact hne (hroot.apart (Page.linked_of_mem hl) (Page.linked_of_mem hk) ((hreach.tail hmy).head hkid)).symm
  have htree := hagrees.tree_eq h.sound.founded hf (Arena.index_lt_of_find? htitle) hspared
  have hqtitle := hagrees title _ (fun hd => hspared title hd .refl) htitle
  obtain ⟨text, htext⟩ := hf.exists_print hw (Arena.index_lt_of_find? hqtitle)
  refine ⟨target, title, items, text, Arena.payload_of_find? hp, Arena.payload_of_find? hlink,
    Arena.items_of_find? htitle, htree, htext, (hf.print_glued hlink htext).trans ?_⟩
  have hkids : p.arena.kids title = items := Arena.kids_of_find? htitle
  rw [hkids]
  cases items with
  | nil =>
    have hempty : q.arena.print title = .ok "" := hf.print_list hqtitle
    obtain rfl := Except.ok.inj (htext.symm.trans hempty)
    simp
  | cons m items => simp [String.append_assoc]

theorem Retitled.respells (hq : Retitled p id old new l q) (h : p.Recorded) (hqs : q.Synced) :
    p.Respells id (Normalization.words.apply new) q := by
  have hl := List.mem_of_getLast? hq.canonical
  obtain ⟨r, s, hr, hs, rfl⟩ := hq.page
  obtain ⟨hrespells, -⟩ := h.respells_retitled (h.isCategory (List.ne_nil_of_mem hl)) hl hr hs
  exact
    { synced := hqs
      site := hrespells.site
      form := hrespells.form
      rootChildren := hrespells.rootChildren
      name := hrespells.name
      links := hrespells.links
      target := hrespells.target
      stored := hrespells.stored
      targets := hrespells.targets }

theorem Retitled.linkNodes_eq (hq : Retitled p id old new l q) (h : p.Recorded) :
    q.linkNodes id = [l.link] ∧ ∀ n ∈ p.linkNodes id, n ≠ l.link → q.arena.Loose n := by
  have hl := List.mem_of_getLast? hq.canonical
  obtain ⟨e, he, -⟩ := (h.isCategory (List.ne_nil_of_mem hl)).exists_find?
  have hlinks : q.linksOf id = (p.linksOf id).filter fun k => k.link = l.link := by
    rw [Page.linksOf_of_find? he, Page.linksOf, hq.find?_eq he, if_pos rfl]
    rfl
  constructor
  · have hmap : q.linkNodes id = (p.linkNodes id).filter (· = l.link) := by
      rw [Page.linkNodes, hlinks, Page.linkNodes, List.filter_map]
      rfl
    have hcount : (p.linkNodes id).count l.link = 1 :=
      List.count_eq_one_of_mem (h.links_nodup id) (List.mem_map_of_mem hl)
    rw [hmap, List.filter_eq, hcount]
    rfl
  · intro n hn hne c hm
    rw [hq.kids_eq, List.mem_filter] at hm
    exact hne (of_decide_eq_true hm.2 hn)

end Edit

namespace Page

variable {p q : Page} {x : ElementId} {old new name : String} {l : PlacedLink}

/-- A page on which a category goes by another name. It has its place among the categories, and of its links
it has the canonical one left, which names it. Nothing else about the categories has changed. -/
structure Renames (p : Page) (x : ElementId) (name : String) (q : Page) : Prop where
  categoryIds : q.categoryIds = p.categoryIds
  categoryName : q.categoryName x = .ok name
  links : ∃ links link, p.categoryLinks x = .ok links ∧ links.getLast? = some link ∧
    q.categoryLinks x = .ok [link] ∧
    p.arena.RedirectsLink link (p.site.categoryPrefix ++ ":" ++ name) q.arena ∧
    ∀ n ∈ links, n ≠ link → q.arena.Loose n
  category? : ∀ s, q.category? s = some x ↔ categoryKey s = categoryKey name
  others : ∀ y, y ≠ x → q.categoryName y = p.categoryName y ∧ q.categoryLinks y = p.categoryLinks y ∧
    ∀ s, q.category? s = some y ↔ p.category? s = some y

theorem renames_of_retitled [Entities] (hq : Edit.Retitled p x old new l q) (h : p.Recorded) (hi : p.Indexed)
    (hroot : p.IsRooted) (hqr : q.Recorded) (hqi : q.Indexed) {source : String} (hw : q.arena.Worded source) :
    p.Renames x (Normalization.words.apply new) q := by
  have hl := List.mem_of_getLast? hq.canonical
  have hne := List.ne_nil_of_mem hl
  have hc := h.isCategory hne
  have hs := hq.respells h hqr.toSynced
  obtain ⟨hlinks, hgone⟩ := hq.linkNodes_eq h
  have hattached (y : ElementId) : q.parentOf y = some root ↔ p.parentOf y = some root :=
    h.toSynced.parentOf_eq_root_iff hqr.toSynced hs.rootChildren
  have hindex (r : Page) (hr : r.Indexed) (s : String) (y : ElementId) :
      r.category? s = some y ↔ r.parentOf y = some root ∧ r.key? y = some (categoryKey s) := hr.index_iff
  have hcategory (y : ElementId) : q.IsCategory y ↔ p.IsCategory y := hs.isCategory_iff
  obtain ⟨e, he, -⟩ := hc.exists_find?
  have hget (y : ElementId) (hy : y ≠ x) : q.get y = p.get y := by
    rw [get, get, hq.find?_eq he, if_neg hy]
  refine ⟨?_, categoryName_eq_ok_iff.2 ⟨(hcategory x).2 hc, hs.stored⟩, ?_, fun s => ?_,
    fun y hy => ⟨?_, ?_, fun s => ?_⟩⟩
  · rw [categoryIds_eq, categoryIds_eq, hs.rootChildren]
  · exact ⟨p.linkNodes x, l.link, hc.categoryLinks_eq_ok, by rw [linkNodes, List.getLast?_map, hq.canonical]; rfl,
      (hlinks ▸ ((hcategory x).2 hc).categoryLinks_eq_ok), hq.redirectsLink h hroot hqr.toSynced hw, hgone⟩
  · rw [hindex q hqi, hattached, hi.attached_iff hc, key?, hs.stored, Option.map_some, Option.some.injEq]
    exact ⟨fun hk => hk.2.symm, fun hk => ⟨hne, hk.symm⟩⟩
  · simp only [Page.categoryName, requireKind, kind, storedName, value?, attribute?, hget y hy]
  · simp only [Page.categoryLinks, hget y hy]
  · rw [hindex q hqi, hindex p hi, hattached, key?, key?, hs.name hy]

theorem WellIndexed.checkCategoryName_iff (hw : p.WellIndexed) (hx : p.category? old = some x) :
    p.checkCategoryName x new = .ok (some (normalizeTitle new)) ↔ Valid.isCategory (normalizeTitle new) = true ∧
      ∀ y s, y ≠ x → p.IsAttached y → p.categoryName y = .ok s →
        categoryKey s ≠ categoryKey (normalizeTitle new) := by
  obtain ⟨hattached, name, hname, -⟩ := hw.index_iff.1 hx
  obtain ⟨hc, hparent⟩ := isAttached_iff.1 hattached
  have hkey : p.key? x = some (categoryKey name) := by
    rw [key?, (categoryName_eq_ok_iff.1 hname).2, Option.map_some]
  rw [checkCategoryName_eq_ok_iff hc, hkey, hparent, categoryKey_normalizeTitle]
  simp only [true_and, reduceCtorEq, false_or, Option.some.injEq]
  refine and_congr_right fun _ => ⟨?_, fun hother => ?_⟩
  · rintro hfree y s hne hy hs hkeys
    rcases hfree with hsame | hnone
    · exact hne (hw.key_inj hy hattached hs hname (hkeys.trans hsame.symm))
    · cases hnone.symm.trans (hw.index_iff.2 ⟨hy, s, hs, hkeys⟩)
  · rw [or_iff_not_imp_right]
    intro hsome
    obtain ⟨y, hy⟩ := Option.ne_none_iff_exists'.1 hsome
    obtain ⟨hyattached, s, hs, hkeys⟩ := hw.index_iff.1 hy
    by_cases hne : y = x
    · subst hne
      obtain rfl := Except.ok.inj (hs.symm.trans hname)
      exact hkeys
    · exact absurd hkeys (hother y s hne hyattached hs)

/-- A category can be renamed where the name is valid and no other category on the page goes by it, and not
otherwise. Unless its canonical link is read as a link to the stored name already, the category is left with
that link then, which names it anew. -/
theorem Reached.renameCategory_iff [Entities] {site : Site} (h : p.Reached site) (hroot : p.IsRooted)
    (hs : site.NamesCategories) (hx : p.category? old = some x) (new : String) :
    ((∃ q, Edit.renameCategory old new p = .ok () q) ↔ Valid.isCategory (normalizeTitle new) = true ∧
      ∀ y s, y ≠ x → p.IsAttached y → p.categoryName y = .ok s →
        categoryKey s ≠ categoryKey (normalizeTitle new)) ∧
    ∀ q, Edit.renameCategory old new p = .ok () q →
      ¬p.ReadsAs x (Normalization.words.apply (normalizeTitle new)) →
        p.Renames x (Normalization.words.apply (normalizeTitle new)) q := by
  have hrecorded := h.orderly.recorded
  have hindexed := h.orderly.indexed hs
  have hends : Ends (Edit.renameCategory old new) p _ _ := hrecorded.ends_renameCategory hx
  rw [← (WellIndexed.of_indexed hrecorded hindexed).checkCategoryName_iff hx]
  refine ⟨⟨fun ⟨q, hok⟩ => (hends.of_ok hok).1, fun hcheck => ?_⟩, fun q hok hread => ?_⟩
  · cases hm : Edit.renameCategory old new p with
    | ok u q => exact ⟨q, rfl⟩
    | error err q => cases hcheck.symm.trans (hends.of_error hm).2
  · have hafter : (Act.renameCategory old new).after p = q := by
      have hrun : (Act.renameCategory old new).edit p = .ok () q := hok
      rw [Act.after, hrun]
    have hq : q.Reached site := hafter ▸ h.act _ rfl
    obtain ⟨source, hw⟩ := hq.exists_worded
    rcases (hends.of_ok hok).2 with ⟨-, hnamed⟩ | ⟨previous, l, hretitled⟩
    · have hc := hrecorded.indexed hx
      obtain ⟨hattached, -⟩ := hindexed.index_iff.1 hx
      obtain ⟨l, hlast⟩ := Option.ne_none_iff_exists'.1
        (mt List.getLast?_eq_none_iff.1 ((hindexed.attached_iff hc).1 hattached))
      exact absurd ((readsAs_iff hc).2 ⟨l, hlast, hnamed l hlast⟩) hread
    · exact renames_of_retitled hretitled hrecorded hindexed hroot hq.orderly.recorded (hq.orderly.indexed hs) hw

theorem renameCategory_run [Entities] {site : Site} {title : String} {acts : List Act} {p₀ : Page}
    (hs : site.NamesCategories)
    (h : Page.new site title = .ok p₀ ∨ ∃ text preserve, read text site title preserve = .ok p₀ ∧
      (preserve = true → p₀.Unnested))
    (ha : acts.all Act.isChecked = true) (hp : Act.run acts p₀ = p) (hx : p.category? old = some x)
    (new : String) :
    ((∃ q, Edit.renameCategory old new p = .ok () q) ↔ Valid.isCategory (normalizeTitle new) = true ∧
      ∀ y s, y ≠ x → p.IsAttached y → p.categoryName y = .ok s →
        categoryKey s ≠ categoryKey (normalizeTitle new)) ∧
    ∀ q, Edit.renameCategory old new p = .ok () q →
      ¬p.ReadsAs x (Normalization.words.apply (normalizeTitle new)) →
        p.Renames x (Normalization.words.apply (normalizeTitle new)) q := by
  subst hp
  obtain ⟨hreached, hroot⟩ := rooted_run h ha
  exact hreached.renameCategory_iff hroot hs hx new

/-- A page with two links to one category, the second one with a title. -/
def twiceFiled : Page :=
  (read "[[Category:Foo]][[category:foo|F]]" .default "Test" false).toOption.getD
    (ofDrafts .new .default "Test" [])

theorem renameCategory_run_twiceFiled :
    read "[[Category:Foo]][[category:foo|F]]" .default "Test" false = .ok twiceFiled ∧
      twiceFiled.category? "Foo" = some ⟨3⟩ ∧
      ∃ q, Edit.renameCategory "Foo" "Bar_" twiceFiled = .ok () q ∧ twiceFiled.Renames ⟨3⟩ "Bar" q := by
  obtain ⟨hread, hx, hname, hlinks, hlink, hrun⟩ :
      read "[[Category:Foo]][[category:foo|F]]" .default "Test" false = .ok twiceFiled ∧
        twiceFiled.category? "Foo" = some ⟨3⟩ ∧ Normalization.words.apply (normalizeTitle "Bar_") = "Bar" ∧
        twiceFiled.categoryLinks ⟨3⟩ = .ok [⟨3⟩, ⟨6⟩] ∧
        twiceFiled.arena.linkedCategory? twiceFiled.site ⟨6⟩ = .ok (some "foo") ∧
        ((Edit.renameCategory "Foo" "Bar_").exec twiceFiled).isOk = true := by
    decide +kernel
  obtain ⟨⟨⟩, q, hok⟩ := Edit.exists_of_isOk hrun
  have hall : ([] : List Act).all Act.isChecked = true := rfl
  obtain ⟨-, hrenames⟩ := renameCategory_run Site.namesCategories_default
    (.inr ⟨_, false, hread, nofun⟩) hall rfl hx "Bar_"
  refine ⟨hread, hx, q, hok, hname ▸ hrenames q hok ?_⟩
  rintro ⟨links, link, hlinks', hlast, hnamed⟩
  obtain rfl := Except.ok.inj (hlinks.symm.trans hlinks')
  obtain rfl := Option.some.inj hlast
  rw [hname] at hnamed
  exact absurd (hlink.symm.trans hnamed) (by simp)

end Page
end WikiPage
