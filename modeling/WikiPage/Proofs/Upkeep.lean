import WikiPage.Page.Draft
import WikiPage.Proofs.Rooted
import WikiPage.Proofs.Values

/-!
# Upkeep of the records

Every edit of a category keeps the records of the page and its index in agreement, whether it adds,
removes or renames the category or gives it another link.
-/

namespace WikiPage

open Page (Synced)

theorem Valid.not_mem_of_isCategory {s : String} (h : isCategory s = true) {c : Char}
    (hc : isCategoryChar c = false) : c ∉ s.toList := by
  intro hm
  rw [isCategory, Bool.and_eq_true, List.all_eq_true] at h
  exact Bool.false_ne_true (hc.symm.trans (h.2 c hm))

theorem Valid.hash_not_mem {s : String} (h : isCategory s = true) : '#' ∉ s.toList :=
  not_mem_of_isCategory h rfl

namespace Page

variable {p q r s : Page} {id x : ElementId} {name new : String} {l : PlacedLink}

theorem Recorded.detached (h : p.Recorded) (hc : p.IsCategory id)
    (hr : p.Dropped id (p.linksOf id) [] r) (name : String) : (Edit.detached r id name).Recorded := by
  have hrc := hr.isCategory hc
  refine ((h.dropped_all hc hr).setIndex fun k x hx => ?_).takeCategory hrc
  rw [Index.find?_erase] at hx
  split at hx
  · cases hx
  · exact .inl hx

theorem Indexed.detached (h : p.Synced) (hi : p.Indexed) (hc : p.IsCategory id)
    (hp : p.parentOf id = some root) (hr : p.Dropped id (p.linksOf id) [] r)
    (hn : p.nameOf? id = some name) : (Edit.detached r id name).Indexed := by
  have hrc := hr.isCategory hc
  have hroot := h.ne_root_of_isCategory hc
  have hrs : (r.setIndex (r.categories.erase (categoryKey name))).Synced := hr.synced.eraseIndex _
  have hlinks (x : ElementId) : (Edit.detached r id name).linksOf x =
      if x = id then [] else p.linksOf x :=
    (congrFun (linksOf_detached hroot) x).trans (hr.linksOf hc.find?_ne_none x)
  have hname : (Edit.detached r id name).nameOf? = p.nameOf? := (nameOf?_detached hroot).trans hr.nameOf?
  have hkey (x : ElementId) : (Edit.detached r id name).key? x = p.key? x := by
    rw [key?, key?, hname]
  have hchildren : (Edit.detached r id name).childrenOf root =
      (p.childrenOf root).filter (· ≠ id) := by
    refine (hrs.childrenOf_takeCategory hrc root).trans ?_
    rw [if_pos rfl]
    exact congrArg _ (Revises.of_dropped hc.find?_ne_none hr).rootChildren
  have hpar (x : ElementId) : (Edit.detached r id name).parentOf x = some root ↔
      x ≠ id ∧ p.parentOf x = some root := by
    rw [(Edit.synced_detached hr.synced hrc).parent_iff, hchildren, h.parent_iff, List.mem_filter,
      decide_eq_true_eq, and_comm]
  have hid : p.categories.find? (categoryKey name) = some id :=
    hi.index_iff.2 ⟨hp, by rw [key?, hn, Option.map_some]⟩
  constructor
  case index_iff =>
    intro k x
    rw [hpar, hkey, and_assoc, ← hi.index_iff]
    change (r.categories.erase (categoryKey name)).find? k = some x ↔ _
    rw [Index.find?_erase, hr.categories]
    split
    · subst k
      rw [hid, Option.some.injEq]
      exact iff_of_false (Option.some_ne_none _).symm fun hx => hx.1 hx.2.symm
    · refine (and_iff_right_of_imp fun hx => ?_).symm
      rintro rfl
      have hk := (hi.index_iff.1 hx).2.symm.trans (hi.index_iff.1 hid).2
      exact absurd (Option.some.inj hk) ‹_›
  case attached_iff =>
    intro x hx
    rw [hpar, hlinks]
    split
    · simp [*]
    · rw [and_iff_right ‹_›]
      exact hi.attached_iff ((isCategory_congr
        ((form?_detached hroot).trans hr.form?)).1 hx)
  case keyed =>
    intro x k c hk hc'
    rw [hlinks] at hk
    rw [hkey]
    split at hk
    · cases hk
    · have hc' : r.arena.categoryOf? r.site k.link = some c := hc'
      rw [Arena.categoryOf?, hr.target, hr.site] at hc'
      exact hi.keyed hk hc'
  case plain =>
    intro x s hs
    rw [hname] at hs
    exact hi.plain hs
  case front =>
    obtain ⟨ids, hids⟩ := hi.front
    refine ⟨ids.filter (· ≠ id), ?_⟩
    rw [hchildren, hids, List.filter_cons_of_pos]
    simpa using (h.ne_body_of_isCategory hc).symm

/-- The index stands if the category goes by the same key. -/
theorem Revises.indexed_of_key (h : p.Revises id q) (hp : p.Synced) (hi : p.Indexed)
    (hcat : q.categories = p.categories) (hkey : q.key? id = p.key? id)
    (hlinks : q.linksOf id ≠ [] ↔ p.linksOf id ≠ [])
    (hkeyed : ∀ l c, l ∈ q.linksOf id → q.arena.categoryOf? q.site l.link = some c →
      p.key? id = some (categoryKey c))
    (hplain : ∀ s, q.nameOf? id = some s → '#' ∉ s.toList) : q.Indexed := by
  refine h.indexed hp hi hlinks (fun l c hl hc => hkey.trans (hkeyed l c hl hc)) hplain
    fun k x => ?_
  rw [hcat, hi.index_iff]
  by_cases hx : x = id
  · rw [hx, hkey]
  · rw [key?, key?, h.name hx]

theorem key?_renamed (hc : p.IsCategory id) (name : String) :
    (Edit.renamed p id name).key? id = some (categoryKey name) := by
  rw [key?, Recorded.nameOf?_renamed hc, Option.map_some, categoryKey_apply_words]

/-- A page in which one category has a name and only links that are made for it. -/
structure Respells (p : Page) (id : ElementId) (title : String) (q : Page) : Prop
    extends Revises p id q where
  stored : q.nameOf? id = some title
  targets : ∀ l ∈ q.linksOf id, q.arena.target? l.link = some (Edit.categoryTarget p title)

/-- All links of a category are given up for a new one. -/
theorem respells_renewed (hc : p.IsCategory id) (hn : p.nameOf? id = some name)
    (hr : p.Dropped id (p.linksOf id) [] r) (hs : r.NewLink s name l) :
    p.Respells id name (s.addLink id l) ∧ (s.addLink id l).linksOf id = [l] := by
  have hsc : s.IsCategory id := hs.calm.isCategory.2 (hr.isCategory hc)
  have hlinks : (s.addLink id l).linksOf id = [l] := by
    rw [linksOf_addLink hsc.find?_ne_none, if_pos rfl, hr.linksOf_newLink hc hs, List.nil_append]
  refine ⟨⟨((Revises.of_dropped hc.find?_ne_none hr).trans (.of_newLink hs)).trans
    (.of_addLink hs.calm.synced hsc hs.free), ?_, fun k hk => ?_⟩, hlinks⟩
  · rw [nameOf?_addLink, hs.calm.nameOf?, hr.nameOf?, hn]
  · rw [hlinks, List.mem_singleton] at hk
    subst hk
    rw [Edit.categoryTarget, ← hr.site]
    exact hs.target

theorem Recorded.leads_renewed (h : p.Recorded) (hc : p.IsCategory id) (hl : p.linksOf id ≠ [])
    (hn : p.nameOf? id = some name) (hr : p.Dropped id (p.linksOf id) [] r) (hs : r.NewLink s name l) :
    p.Leads (s.addLink id l) := by
  have hrec := h.dropped_all hc hr
  have hsrec := hs.calm.toSameRecords.recorded hrec hs.calm.synced
  have hsc : s.IsCategory id := hs.calm.isCategory.2 (hr.isCategory hc)
  have hun : ¬s.Linked l.link := fun hx => hs.unlinked (hs.calm.linked_iff.1 hx)
  obtain ⟨hrev, hlinks⟩ := respells_renewed hc hn hr hs
  refine ⟨hsrec.addLink hsc hs.free hun hs.mem, hrev.site, hrev.isCategory_iff.2, fun hsite hi => ?_,
    fun hm => (hs.calm.mirrored (hr.mirrored h.toSynced hm)).addLink⟩
  refine hrev.indexed_of_key h.toSynced hi (hs.calm.categories.trans hr.categories)
    (by rw [key?, key?, hrev.stored, hn]) (by simp [hlinks, hl]) (fun k c hk hkc => ?_) fun t ht => ?_
  · rw [Arena.categoryOf?_of_target? (hrev.targets k hk), hrev.site, Edit.categoryTarget] at hkc
    rw [key?, hn, Option.map_some, hsite.categoryKey_eq (hi.plain hn) hkc]
  · exact hi.plain (hn.trans (hrev.stored.symm.trans ht))

theorem Recorded.leads_registered (h : p.Recorded) (hid : p.category? name = some id)
    (hf : p.IsFreeLink l.link) (hl : ¬p.Linked l.link) (hm : l.link ∈ p.arena.kids l.container)
    (hn : '#' ∉ name.toList) (hk : p.arena.categoryOf? p.site l.link = some name) :
    p.Leads (Edit.renamed (p.addLink id l) id name) := by
  have hc : p.IsCategory id := h.indexed hid
  have hadd := h.addLink hc hf hl hm
  have hac : (p.addLink id l).IsCategory id := (isCategory_congr form?_addLink).2 hc
  have hrev : p.Revises id (Edit.renamed (p.addLink id l) id name) :=
    (Revises.of_addLink h.toSynced hc hf).trans (.of_renamed hadd.toSynced)
  have hlinks : (Edit.renamed (p.addLink id l) id name).linksOf id = p.linksOf id ++ [l] := by
    rw [linksOf_renamed, linksOf_addLink hc.find?_ne_none, if_pos rfl]
  refine ⟨hadd.renamed hac name, hrev.site, hrev.isCategory_iff.2, fun _ hi => ?_,
    fun hm => hm.addLink.renamed hac⟩
  obtain ⟨hroot, hkey⟩ := hi.index_iff.1 hid
  refine hrev.indexed_of_key h.toSynced hi rfl ((key?_renamed hac name).trans hkey.symm) ?_
    (fun k c hm hkc => ?_) fun t ht => ?_
  · simp [hlinks, (hi.attached_iff hc).1 hroot]
  · rw [hlinks, List.mem_append, List.mem_singleton] at hm
    rcases hm with hm | rfl
    · exact hi.keyed hm hkc
    · obtain rfl := Option.some.inj (hk.symm.trans hkc)
      exact hkey
  · rw [nameOf?_renamed hac] at ht
    exact Option.some.inj ht ▸ hash_not_mem_apply_words hn

/-- A name may be given to a category where no other attached category has its key. -/
def Admits (p : Page) (id : ElementId) (name : String) : Prop :=
  p.key? id = some (categoryKey name) ∨ p.parentOf id ≠ some root ∨ p.category? name = none

theorem admits_of_checkCategoryName {s : String} (hc : p.IsCategory id)
    (h : p.checkCategoryName id s = .ok (some new)) : p.Admits id new := by
  obtain ⟨hnew, -⟩ := exists_of_checkCategoryName h
  obtain rfl := Option.some.inj hnew
  obtain ⟨e, he, hk⟩ := hc.exists_find?
  have hname : p.nameOf? id = (Attribute.find? e.attributes "name").map Attribute.value := by
    simp [nameOf?, he, hk]
  obtain ⟨_, -, h⟩ := Except.exists_of_bind h
  rw [value?_of_find? he, Edit.toLower_name, ← hname] at h
  obtain ⟨_, hcur, h⟩ := Except.exists_of_bind h
  obtain rfl := Except.ok.inj hcur
  obtain ⟨up, hup, h⟩ := Except.exists_of_bind h
  have hup : p.parentOf id = up := by
    rw [parent, get_eq_ok_iff.2 he] at hup
    rw [parentOf, he]
    exact Except.ok.inj hup
  by_contra hno
  rw [Admits, not_or, not_or] at hno
  obtain ⟨hkey, hroot, hcat⟩ := hno
  have hsame : (p.nameOf? id).any (categoryKey · == categoryKey (normalizeTitle s)) = false := by
    cases hn : p.nameOf? id with
    | none => rfl
    | some name => simpa [key?, hn] using hkey
  rw [hsame, ← hup, not_not.1 hroot, hasCategory, Option.isSome_iff_ne_none.2 hcat] at h
  cases h

theorem Anchored.renamed (ha : p.Anchored) (h : p.Synced) : (Edit.renamed p id new).Anchored := by
  have hrev : p.Revises id (Edit.renamed p id new) := .of_renamed h
  exact moored_iff.1 ((moored_iff.2 ha).of_same Recorded.linksOf_renamed (backing?_congr hrev.form) rfl)

theorem Recorded.keeps_renamed (h : p.Recorded) (hc : p.IsCategory id) (hn : '#' ∉ new.toList)
    (hl : p.Indexed → p.linksOf id ≠ [] → p.key? id = some (categoryKey new)) :
    p.Keeps (Edit.renamed p id new) := by
  have hrev : p.Revises id (Edit.renamed p id new) := .of_renamed h.toSynced
  have hkey := key?_renamed hc new
  refine ⟨⟨h.renamed hc new, hrev.site, hrev.isCategory_iff.2, fun _ hi => ?_,
    fun hm => hm.renamed hc⟩, fun hr => hr.of_same linksOf_renamed rfl, fun ha => ha.renamed h.toSynced,
    fun _ ho => ho.of_same linksOf_renamed rfl⟩
  refine hrev.indexed h.toSynced hi (by rw [linksOf_renamed]) (fun l c hm hlc => ?_) (fun t ht => ?_)
    fun k x => ?_
  · rw [linksOf_renamed] at hm
    rw [hkey, ← hl hi (List.ne_nil_of_mem hm)]
    exact hi.keyed hm hlc
  · rw [nameOf?_renamed hc] at ht
    exact Option.some.inj ht ▸ hash_not_mem_apply_words hn
  · refine hi.index_iff.trans (and_congr_right fun hx => ?_)
    by_cases hxid : x = id
    · subst x
      rw [hkey, hl hi ((hi.attached_iff hc).1 hx)]
    · rw [key?, key?, hrev.name hxid]

theorem Revises.indexed_of_new_key (h : p.Revises id q) (hp : p.Synced) (hi : p.Indexed)
    (hroot : p.parentOf id = some root) (hname : p.nameOf? id = some name) (ha : p.Admits id new)
    (hcat : q.categories = (p.categories.erase (categoryKey name)).insert (categoryKey new) id)
    (hkey : q.key? id = some (categoryKey new)) (hlinks : q.linksOf id ≠ [] ↔ p.linksOf id ≠ [])
    (hkeyed : ∀ l c, l ∈ q.linksOf id → q.arena.categoryOf? q.site l.link = some c →
      categoryKey c = categoryKey new)
    (hplain : ∀ s, q.nameOf? id = some s → '#' ∉ s.toList) : q.Indexed := by
  have hpkey : p.key? id = some (categoryKey name) := by rw [key?, hname, Option.map_some]
  have hold : p.categories.find? (categoryKey name) = some id := hi.index_iff.2 ⟨hroot, hpkey⟩
  have hother {x : ElementId} {k : String} (hx : x ≠ id) :
      p.parentOf x = some root ∧ q.key? x = some k ↔ p.categories.find? k = some x := by
    rw [hi.index_iff, key?, key?, h.name hx]
  -- no other category that is attached has the new key
  have hfree {x : ElementId} (hx : x ≠ id) : p.categories.find? (categoryKey new) ≠ some x := by
    intro hf
    rcases ha with ha | ha | ha
    · obtain ⟨-, hk⟩ := hi.index_iff.1 hf
      have hkx := hi.index_iff.2 ⟨hroot, ha⟩
      exact hx (Option.some.inj (hf.symm.trans hkx))
    · exact ha hroot
    · cases ha.symm.trans hf
  refine h.indexed hp hi hlinks (fun l c hl hc => ?_) hplain fun k x => ?_
  · rw [hkey, hkeyed l c hl hc]
  rw [hcat, Index.find?_insert, Index.find?_erase]
  by_cases hx : x = id
  · subst x
    rw [hkey, and_iff_right hroot, Option.some.injEq]
    by_cases hk : k = categoryKey new
    · simp [hk]
    · rw [if_neg hk]
      refine iff_of_false (fun hf => ?_) fun he => hk he.symm
      split at hf
      · cases hf
      · have hk' := (hi.index_iff.1 hf).2.symm.trans hpkey
        exact absurd (Option.some.inj hk') ‹_›
  · rw [hother hx]
    by_cases hk : k = categoryKey new
    · subst k
      rw [if_pos rfl, Option.some.injEq]
      exact iff_of_false (fun he => hx he.symm) (hfree hx)
    · rw [if_neg hk]
      split
      · subst k
        rw [hold, Option.some.injEq]
        exact iff_of_false (Option.some_ne_none _).symm fun he => hx he.symm
      · rfl

/-- The canonical link of a category follows its name, and the other links are given up. -/
theorem Recorded.respells_retitled (h : p.Recorded) (hc : p.IsCategory id) (hl : l ∈ p.linksOf id)
    (hr : Edit.Relinked (Edit.renamed p id new) l.link
      (Edit.categoryTarget p (Normalization.words.apply new)) r)
    (hs : r.Dropped id ((r.linksOf id).filter fun k => some k.link ≠ some l.link)
      ((r.linksOf id).filter fun k => some k.link = some l.link) s) :
    p.Respells id (Normalization.words.apply new) s ∧ l ∈ s.linksOf id := by
  have hren := h.renamed hc new
  have hpr : p.Revises id (Edit.renamed p id new) := .of_renamed h.toSynced
  have hrl : (Edit.renamed p id new).Revises id r := by
    refine .of_relinked hren ?_ hr
    rw [linksOf_renamed]
    exact List.mem_map_of_mem hl
  have hrc : r.IsCategory id := (hpr.trans hrl).isCategory_iff.2 hc
  have hlinks (k : PlacedLink) : k ∈ s.linksOf id ↔ k ∈ p.linksOf id ∧ k.link = l.link := by
    rw [hs.linksOf hrc.find?_ne_none, if_pos rfl, hr.linksOf_eq, linksOf_renamed, List.mem_filter,
      decide_eq_true_eq, Option.some.injEq]
  refine ⟨⟨(hpr.trans hrl).trans (.of_dropped hrc.find?_ne_none hs), ?_, fun k hk => ?_⟩,
    (hlinks l).2 ⟨hl, rfl⟩⟩
  · rw [hs.nameOf?, hr.eq]
    exact nameOf?_renamed hc new
  · rw [hs.target, hr.arena.target, if_pos ((hlinks k).1 hk).2]

theorem Recorded.leads_retitled (h : p.Recorded) (hc : p.IsCategory id) (hn : '#' ∉ new.toList)
    (ha : p.Admits id new) (hl : l ∈ p.linksOf id)
    (hr : Edit.Relinked (Edit.renamed p id new) l.link
      (Edit.categoryTarget p (Normalization.words.apply new)) r)
    (hs : r.Dropped id ((r.linksOf id).filter fun k => some k.link ≠ some l.link)
      ((r.linksOf id).filter fun k => some k.link = some l.link) s)
    (hname : p.nameOf? id = some name) :
    p.Leads (s.setIndex ((s.categories.erase (categoryKey name)).insert
      (categoryKey (Normalization.words.apply new)) id)) := by
  rw [categoryKey_apply_words]
  obtain ⟨hps, hmem⟩ := h.respells_retitled hc hl hr hs
  have hrc := hr.isCategory ((Revises.of_renamed h.toSynced).isCategory_iff.2 hc)
  have hsrec : s.Recorded := ((h.renamed hc new).relinked hr).dropped_but hrc hs
  have hindex (k : String) (x : ElementId)
      (hx : ((s.categories.erase (categoryKey name)).insert (categoryKey new) id).find? k = some x) :
      s.categories.find? k = some x ∨ s.IsCategory x := by
    rw [Index.find?_insert, Index.find?_erase] at hx
    split at hx
    · exact .inr (Option.some.inj hx ▸ hps.isCategory_iff.2 hc)
    · split at hx
      · cases hx
      · exact .inl hx
  have hpq := hps.toRevises.trans (.of_setIndex hsrec.toSynced hindex)
  have hren := h.renamed hc new
  have hfree : (Edit.renamed p id new).IsFreeLink l.link := by
    refine hren.isFreeLink (linked_of_mem (x := id) ?_)
    rwa [linksOf_renamed]
  refine ⟨hsrec.setIndex hindex, hpq.site, hpq.isCategory_iff.2, fun hsite hi => ?_,
    fun hm => hs.mirrored hr.synced ((hm.renamed hc).relinked hren.toSynced hr hfree)⟩
  have hne := List.ne_nil_of_mem hl
  refine hpq.indexed_of_new_key h.toSynced hi ((hi.attached_iff hc).2 hne) hname ha ?_ ?_ ?_
    (fun k c hk hkc => ?_) fun t ht => ?_
  · change (s.categories.erase _).insert _ _ = _
    rw [hs.categories, hr.eq]
    rfl
  · change (s.nameOf? id).map categoryKey = _
    rw [hps.stored, Option.map_some, categoryKey_apply_words]
  · exact iff_of_true (List.ne_nil_of_mem hmem) hne
  · have hkc : s.arena.categoryOf? s.site k.link = some c := hkc
    rw [Arena.categoryOf?_of_target? (hps.targets k hk), hps.site, Edit.categoryTarget] at hkc
    rw [hsite.categoryKey_eq (hash_not_mem_apply_words hn) hkc, categoryKey_apply_words]
  · obtain rfl := Option.some.inj (hps.stored.symm.trans ht)
    exact hash_not_mem_apply_words hn

/-- The categories that are in the index or have links are on the page. -/
structure Attaches (p : Page) : Prop where
  indexed : ∀ {k x}, p.categories.find? k = some x → p.parentOf x = some root
  linked : ∀ {x}, p.linksOf x ≠ [] → p.parentOf x = some root

/-- The links of a page are put on record, and nothing else is done. -/
structure Registers (p : Page) (links : List NodeId) (q : Page) : Prop extends Leads p q where
  arena : q.arena = p.arena
  free : ∀ {n}, p.IsFreeLink n → q.IsFreeLink n
  linked_iff : ∀ {n}, q.Linked n ↔ p.Linked n ∨ n ∈ links
  attaches : p.Attaches → q.Attaches

namespace Registers

variable {links links' : List NodeId}

theorem nil (h : p.Recorded) : p.Registers [] p :=
  ⟨h.leads_refl, rfl, fun hn => hn, by simp, fun ha => ha⟩

theorem trans (h : p.Registers links q) (h' : q.Registers links' r) :
    p.Registers (links ++ links') r where
  toLeads := h.toLeads.trans h'.toLeads
  arena := h'.arena.trans h.arena
  free hn := h'.free (h.free hn)
  linked_iff {n} := by rw [h'.linked_iff, h.linked_iff, List.mem_append, or_assoc]
  attaches ha := h'.attaches (h.attaches ha)

end Registers

theorem IsFreeLink.congr {n : NodeId} (hn : p.IsFreeLink n) (ha : q.arena = p.arena)
    (hf : q.form? = p.form?) : q.IsFreeLink n := by
  rw [IsFreeLink, ha, backing?_congr hf]
  exact hn

theorem linked_iff_of_linksOf {n : NodeId}
    (h : ∀ x, q.linksOf x = if x = id then p.linksOf id ++ [l] else p.linksOf x) :
    q.Linked n ↔ p.Linked n ∨ n ∈ [l.link] := by
  simp only [linked_iff, h]
  constructor
  · rintro ⟨x, hx⟩
    split at hx
    · rw [List.map_append, List.mem_append] at hx
      exact hx.imp_left fun hx => ⟨id, hx⟩
    · exact .inl ⟨x, hx⟩
  · rintro (⟨x, hx⟩ | hn)
    · refine ⟨x, ?_⟩
      split
      · subst x
        rw [List.map_append]
        exact List.mem_append_left _ hx
      · exact hx
    · refine ⟨id, ?_⟩
      rw [if_pos rfl, List.map_append]
      exact List.mem_append_right _ hn

theorem parentOf_attached (h : (p.addLink id l).Synced) (hc : p.IsCategory id) (x : ElementId) :
    (Edit.attached p id name l).parentOf x = if x = id then some root else p.parentOf x := by
  rw [Edit.attached, parentOf_setIndex, h.parentOf_putCategory ((isCategory_congr form?_addLink).2 hc),
    parentOf_addLink]

theorem Attaches.addLink (h : p.Attaches) (hid : p.find? id ≠ none)
    (hp : p.parentOf id = some root) : (p.addLink id l).Attaches where
  indexed hx := by
    rw [parentOf_addLink]
    exact h.indexed hx
  linked {x} hx := by
    rw [parentOf_addLink]
    rw [linksOf_addLink hid] at hx
    split at hx
    · exact ‹x = id› ▸ hp
    · exact h.linked hx

theorem Attaches.renamed (h : p.Attaches) : (Edit.renamed p id name).Attaches := by
  have hpar : (Edit.renamed p id name).parentOf = p.parentOf := parentOf_update fun _ => rfl
  refine ⟨fun hx => ?_, fun hx => ?_⟩
  · rw [hpar]
    exact h.indexed hx
  · rw [hpar]
    rw [Recorded.linksOf_renamed] at hx
    exact h.linked hx

theorem Attaches.pushCategory (h : p.Attaches) : (p.push (newCategory name)).Attaches := by
  refine ⟨fun hx => ?_, fun hx => ?_⟩
  · rw [parentOf_pushCategory_eq]
    exact h.indexed hx
  · rw [parentOf_pushCategory_eq]
    rw [linksOf_pushCategory] at hx
    exact h.linked hx

theorem Attaches.attached (h : p.Attaches) (hs : (p.addLink id l).Synced) (hc : p.IsCategory id) :
    (Edit.attached p id name l).Attaches := by
  have hpar (x : ElementId) : (Edit.attached p id name l).parentOf x =
      if x = id then some root else p.parentOf x := parentOf_attached hs hc x
  refine ⟨fun {k x} hx => ?_, fun {x} hx => ?_⟩
  · rw [hpar]
    rw [Edit.categories_attached, Index.find?_insert] at hx
    split
    · rfl
    · split at hx
      · exact absurd (Option.some.inj hx).symm ‹_›
      · exact h.indexed hx
  · rw [hpar]
    rw [linksOf_attached hc.find?_ne_none (hs.ne_root_of_isCategory
      ((isCategory_congr form?_addLink).2 hc))] at hx
    split
    · rfl
    · rw [if_neg ‹_›] at hx
      exact h.linked hx

theorem IsFreeLink.pushCategory {n : NodeId} (hn : p.IsFreeLink n) (name : String) :
    (p.push (newCategory name)).IsFreeLink n := by
  refine ⟨hn.1, fun x => ?_⟩
  rw [backing?, form?, find?_push]
  split
  · simp [newCategory]
  · exact hn.2 x

/-- The categories with links at or below a node, in the order of the first of these links. -/
def linkedWithin (p : Page) (n : NodeId) : List ElementId :=
  ((p.arena.tree n).preorder.filterMap p.owners.find?).eraseDups

theorem Recorded.mem_linkedWithin (h : p.Recorded) {n : NodeId} :
    x ∈ p.linkedWithin n ↔ ∃ l ∈ p.linksOf x, Reaches p.arena.kids n l.link := by
  rw [linkedWithin, List.mem_eraseDups, List.mem_filterMap]
  constructor
  · rintro ⟨m, hm, ho⟩
    obtain ⟨l, hl, rfl⟩ := List.mem_map.1 (h.owner_iff.1 ho)
    exact ⟨l, hl, h.sound.mem_preorder_iff.1 hm⟩
  · rintro ⟨l, hl, hr⟩
    exact ⟨l.link, h.sound.mem_preorder_iff.2 hr, h.owner_iff.2 (List.mem_map_of_mem hl)⟩

theorem Recorded.categoriesWithin_eq_ok (h : p.Recorded) {n : NodeId} (hn : n.index < p.arena.size) :
    Edit.categoriesWithin p n = .ok (p.linkedWithin n) := by
  obtain ⟨m, hm⟩ := Arena.exists_of_index_lt hn
  rw [Edit.categoriesWithin, h.sound.descendants_eq hm, linkedWithin, h.sound.preorder_tree hm]
  rfl

end Page

namespace Edit

variable {p : Page} {id : ElementId} {name new : String} {l : PlacedLink}

/-- An edit that keeps the records in agreement. It fails for a fault only where the page lacks one of
the elements that it is about. -/
abbrev IsSafe {α : Type} (m : Edit α) (p : Page) (ids : List ElementId) : Prop :=
  Ends m p (fun _ q => p.Keeps q) (p.Refuses ids)

theorem isSafe_of_isCalm {α : Type} {m : Edit α} {ids : List ElementId} (h : p.Recorded)
    (hm : IsCalm m p ids) : IsSafe m p ids :=
  hm.mono (fun _ _ hq => hq.keeps h) fun _ _ hq => hq

theorem isSafe_addCategory (h : p.Recorded) : IsSafe (addCategory name) p [] := by
  refine (ends_addCategory h.toSynced).mono (fun id q hq => ?_) fun _ _ hq => hq
  obtain ⟨rfl, hv, hnew, r, l, hl, rfl⟩ := hq
  have hn := Valid.hash_not_mem hv
  refine ⟨?_, fun hr => hr.attached hl, fun ha => ha.attached hl, fun _ ho => ho.attached hl⟩
  refine h.leads_attached hl.calm hl.free (fun hx => hl.unlinked (hl.calm.linked_iff.1 hx))
    hl.mem hn (by simpa [Page.hasCategory] using hnew) fun hs c hc => ?_
  rw [Arena.categoryOf?_of_target? hl.target, hl.calm.site] at hc
  exact hs.categoryKey_eq hn hc

theorem isSafe_removeCategory (h : p.Recorded) : IsSafe (removeCategory name) p [] := by
  refine (ends_removeCategory h.toSynced fun id hid => ⟨h.inPlace id, h.named (h.indexed hid)⟩).mono
    (fun id q hq => ?_) fun _ _ hq => hq.2
  obtain ⟨hid, r, stored, hr, hstored, rfl⟩ := hq
  have hc : p.IsCategory id := h.indexed hid
  have hform : (detached r id stored).form? = p.form? :=
    (Page.form?_takeCategory (h.ne_root_of_isCategory hc)).trans hr.form?
  refine ⟨⟨h.detached hc hr stored, hr.site, (Page.isCategory_congr hform).2, fun _ hi => ?_,
    fun hm => (hr.mirrored h.toSynced hm).detached (h.ne_root_of_isCategory hc)⟩,
    fun hroot => hroot.detached h hc hr, fun ha => ha.detached h hc hr, fun _ ho => ho.detached h hc hr⟩
  exact hi.detached h.toSynced hc (hi.index_iff.1 hid).1 hr hstored

/-- A category that has links has one of them afterwards, and that is part of the page. -/
theorem leads_renewLink (h : p.Recorded) (hl : p.linksOf id ≠ []) : Ends (renewLink id) p
    (fun _ q => p.Leads q ∧ (∀ x, p.linksOf x ≠ [] → q.linksOf x ≠ []) ∧ p.Settles (· = id) q)
    fun _ _ => False := by
  have hc := h.isCategory hl
  obtain ⟨name, hn⟩ := Option.ne_none_iff_exists'.1 (h.named hc)
  refine (ends_renewLink h.toSynced hc (h.inPlace id) hn).mono (fun _ q hq => ?_) fun _ _ hf => hf
  obtain ⟨r, s, l, hr, hs, rfl⟩ := hq
  have hsc : s.IsCategory id := hs.calm.isCategory.2 (hr.isCategory hc)
  refine ⟨h.leads_renewed hc hl hn hr hs, fun x hx => ?_,
    fun hroot => hroot.renewed h hc hr hs, fun hm => hm.renewed h hc hr hs, fun ho => ho.renewed hc hr hs⟩
  rw [Page.linksOf_addLink hsc.find?_ne_none]
  split
  · simp
  · rwa [hs.calm.linksOf_ne_nil_iff, hr.linksOf hc.find?_ne_none, if_neg ‹_›]

/-- Another property that stays as a category is given a new link. -/
def KeptByRenewal (I : Page → Prop) : Prop :=
  ∀ {p : Page} {id : ElementId}, p.Recorded → p.linksOf id ≠ [] → I p →
    Ends (renewLink id) p (fun _ q => I q) fun _ _ => False

/-- The categories with links at or below a node are given new ones. -/
theorem leads_keepCategories {I : Page → Prop} (h : p.Recorded) {node : NodeId} {n : Node}
    (hn : p.arena.find? node = some n) (hI : KeptByRenewal I) (hp : I p) :
    Ends (keepCategories node) p (fun _ q => (p.Leads q ∧
      p.Settles (fun x => ∃ l ∈ p.linksOf x, Reaches p.arena.kids node l.link) q) ∧ I q)
      fun _ _ => False := by
  have hlt := Arena.index_lt_of_find? hn
  have hok := h.categoriesWithin_eq_ok hlt
  refine Ends.bind (ends_ask (fun ids hids => ?_) fun _ he => by cases hok.symm.trans he)
  obtain rfl := Except.ok.inj (hok.symm.trans hids)
  have hlinks {x : ElementId} (hx : x ∈ p.linkedWithin node) : p.linksOf x ≠ [] := by
    obtain ⟨l, hl, -⟩ := h.mem_linkedWithin.1 hx
    exact List.ne_nil_of_mem hl
  refine (Ends.forM (I := fun done q => (p.Leads q ∧ (∀ x, p.linksOf x ≠ [] → q.linksOf x ≠ []) ∧
    p.Settles (· ∈ done) q) ∧ I q) (fun done x rest q hsplit hq => ?_)
    ⟨⟨h.leads_refl, fun _ hx => hx, .refl fun _ => List.not_mem_nil⟩, hp⟩).mono (fun _ q hq => ?_)
    fun _ _ hf => hf
  · obtain ⟨⟨hleads, hkept, hsettles⟩, hIq⟩ := hq
    have hx : q.linksOf x ≠ [] := hkept x (hlinks (hsplit ▸ by simp))
    refine ((leads_renewLink hleads.recorded hx).and (hI hleads.recorded hx hIq)).mono
      (fun _ r hr => ⟨?_, hr.2⟩) fun _ _ hf => hf.1
    obtain ⟨hr, -⟩ := hr
    exact ⟨hleads.trans hr.1, fun y hy => hr.2.1 y (hkept y hy),
      hsettles.trans hr.2.2 fun y hy => (List.mem_append.1 hy).imp_right List.mem_singleton.1⟩
  · -- all whose links are at or below the node have been given new ones in the end
    obtain ⟨⟨hleads, -, hsettles⟩, hIq⟩ := hq
    exact ⟨⟨hleads, hsettles.trans (.refl fun _ => not_false) fun x hx =>
      .inl (h.mem_linkedWithin.2 hx)⟩, hIq⟩

/-- What is left of a category whose links have been given up for one that names it anew. -/
structure Retitled (p : Page) (id : ElementId) (old new : String) (l : PlacedLink) (q : Page) :
    Prop where
  canonical : (p.linksOf id).getLast? = some l
  stored : p.nameOf? id = some old
  differs : p.arena.categoryOf? p.site l.link ≠ some (Normalization.words.apply new)
  page : ∃ r s, Relinked (renamed p id new) l.link
      (categoryTarget p (Normalization.words.apply new)) r ∧
    r.Dropped id ((r.linksOf id).filter fun k => some k.link ≠ some l.link)
      ((r.linksOf id).filter fun k => some k.link = some l.link) s ∧
    q = s.setIndex ((s.categories.erase (categoryKey old)).insert
      (categoryKey (Normalization.words.apply new)) id)

theorem ends_renameLinks (h : p.Recorded) (hc : p.IsCategory id) :
    Ends (renameLinks id (p.nameOf? id) (Normalization.words.apply new)) (renamed p id new)
      (fun _ q => q = renamed p id new ∧ (∀ l, (p.linksOf id).getLast? = some l →
          p.arena.categoryOf? p.site l.link = some (Normalization.words.apply new)) ∨
        ∃ old l, Retitled p id old new l q) fun _ _ => False := by
  have hren := h.renamed hc new
  have hrenc : (renamed p id new).IsCategory id :=
    (Page.Revises.of_renamed h.toSynced).isCategory_iff.2 hc
  obtain ⟨e, he, -⟩ := hrenc.exists_find?
  have hlinks : e.links = p.linksOf id := by
    have hren : (renamed p id new).linksOf = p.linksOf := Page.Recorded.linksOf_renamed
    rw [← hren, Page.linksOf, he]
    rfl
  have hget := Page.get_eq_ok_iff.2 he
  refine Ends.bind (ends_ask (fun e' he' => ?_) fun _ herr => by cases hget.symm.trans herr)
  obtain rfl := Except.ok.inj (hget.symm.trans he')
  rw [hlinks]
  cases hlast : (p.linksOf id).getLast? with
  | none => exact Ends.pure (.inl ⟨rfl, by simp⟩)
  | some l =>
    have hl : l ∈ p.linksOf id := List.mem_of_getLast? hlast
    have hfree : (renamed p id new).IsFreeLink l.link := by
      refine hren.isFreeLink (Page.linked_of_mem (x := id) ?_)
      rwa [Page.Recorded.linksOf_renamed]
    obtain ⟨target, title, g, hfind⟩ := find?_link hfree
    have hok : (renamed p id new).arena.linkedCategory? p.site l.link =
        .ok ((renamed p id new).arena.categoryOf? p.site l.link) :=
      Arena.linkedCategory?_of_find? hfind
    refine Ends.bind (ends_ask (fun o ho => ?_) fun _ herr => ?_)
    swap
    · change PageError.ofArena ((renamed p id new).arena.linkedCategory? p.site l.link) = _ at herr
      rw [hok] at herr
      cases herr
    obtain rfl := Except.ok.inj (hok.symm.trans (PageError.eq_ok_of_ofArena ho))
    split
    case isTrue hother =>
      -- the canonical link names the category otherwise
      obtain ⟨old, hold⟩ := Option.ne_none_iff_exists'.1 (h.named hc)
      refine (ends_retitle hren.toSynced hrenc (hren.inPlace id) hfree).mono (fun _ q hq => ?_)
        fun _ _ hf => hf
      obtain ⟨r, s, hr, hs, rfl⟩ := hq
      rw [hold]
      exact .inr ⟨old, l, hlast, hold, hother, r, s, hr, hs, rfl⟩
    case isFalse hsame =>
      refine Ends.pure (.inl ⟨rfl, fun k hk => ?_⟩)
      obtain rfl := Option.some.inj hk
      exact not_not.1 hsame

theorem keeps_renameLinks (h : p.Recorded) (hc : p.IsCategory id) (hn : '#' ∉ new.toList)
    (ha : p.Admits id new) :
    Ends (renameLinks id (p.nameOf? id) (Normalization.words.apply new)) (renamed p id new)
      (fun _ q => p.Keeps q) fun _ _ => False := by
  refine (ends_renameLinks h hc).mono (fun _ q hq => ?_) fun _ _ hf => hf
  rcases hq with ⟨rfl, hnamed⟩ | ⟨old, l, hlast, hold, -, r, s, hr, hs, rfl⟩
  · refine h.keeps_renamed hc hn fun hi hl => ?_
    obtain ⟨l, hlast⟩ := Option.ne_none_iff_exists'.1 (mt List.getLast?_eq_none_iff.1 hl)
    rw [hi.keyed (List.mem_of_getLast? hlast) (hnamed l hlast), categoryKey_apply_words]
  · have hl := List.mem_of_getLast? hlast
    have hrenc : (renamed p id new).IsCategory id :=
      (Page.Revises.of_renamed h.toSynced).isCategory_iff.2 hc
    refine ⟨h.leads_retitled hc hn ha hl hr hs hold, fun hroot => ?_, fun hanchored =>
      (hanchored.renamed h.toSynced).retitled (h.renamed hc new) hrenc hr hs, fun _ ho => ?_⟩
    · have hsame : (renamed p id new).IsRooted := hroot.of_same Page.Recorded.linksOf_renamed rfl
      exact hsame.retitled (h.renamed hc new) hrenc hr hs
    · have hsame : (renamed p id new).InOrder := ho.of_same Page.Recorded.linksOf_renamed rfl
      exact hsame.retitled hrenc hr hs

theorem isSafe_setAttribute (h : p.Recorded) {value : String} :
    IsSafe (setAttribute id name value) p [id] := by
  by_cases hc : p.IsCategory id
  · refine ends_setAttribute_name (Q := fun _ q => p.Keeps q) hc (fun _ _ hq => hq)
      fun new _ hok => ?_
    obtain ⟨hnew, hv⟩ := Page.exists_of_checkCategoryName hok
    obtain rfl := Option.some.inj hnew
    exact (keeps_renameLinks h hc (Valid.hash_not_mem hv) (Page.admits_of_checkCategoryName hc hok)).mono
      (fun _ _ hq => hq) fun _ _ hf => hf.elim
  · exact isSafe_of_isCalm h (isCalm_setAttribute h.toSynced hc)

/-- Another property that stays as a link is recorded, which may be about the links that have been. -/
def KeptByRegistering (I : List FoundLink → Page → Prop) : Prop :=
  ∀ ⦃p : Page⦄ ⦃done : List FoundLink⦄ ⦃l : FoundLink⦄, p.Recorded → p.IsFreeLink l.placed.link →
    p.arena.categoryOf? p.site l.placed.link = some l.name → I done p →
      Ends (registerLink l.name l.placed) p (fun _ q => I (done ++ [l]) q) fun _ _ => False

theorem registers_registerLink (h : p.Recorded) (hf : p.IsFreeLink l.link) (hl : ¬p.Linked l.link)
    (hm : l.link ∈ p.arena.kids l.container) (hk : p.arena.categoryOf? p.site l.link = some name)
    (hn : '#' ∉ name.toList) :
    Ends (registerLink name l) p (fun _ q => p.Registers [l.link] q) fun _ _ => False := by
  refine (ends_registerLink h.toSynced).mono (fun _ q hq => ?_) fun _ _ hf => hf
  rcases hq with ⟨id, hid, rfl⟩ | ⟨hnone, rfl⟩
  · have hform : (renamed (p.addLink id l) id name).form? = p.form? :=
      (Page.Revises.of_renamed (h.toSynced.addLink hf)).form.trans Page.form?_addLink
    have hfind := Page.IsCategory.find?_ne_none (h.indexed hid)
    have hlinks (x : ElementId) : (renamed (p.addLink id l) id name).linksOf x =
        if x = id then p.linksOf id ++ [l] else p.linksOf x := by
      rw [Page.Recorded.linksOf_renamed, Page.linksOf_addLink hfind]
    refine ⟨h.leads_registered hid hf hl hm hn hk, rfl, fun hx => hx.congr rfl hform,
      Page.linked_iff_of_linksOf hlinks, fun ha => ?_⟩
    · exact (ha.addLink hfind (ha.indexed hid)).renamed
  · have hpush := h.pushCategory name
    have hc : (p.push (Page.newCategory name)).IsCategory p.next := isCategory_pushCategory
    have hroot := hpush.ne_root_of_isCategory hc
    have hfree := hf.pushCategory name
    have hlinked : ¬(p.push (Page.newCategory name)).Linked l.link := by
      rwa [Page.linked_iff, Page.linksOf_pushCategory, ← Page.linked_iff]
    have hkey (c : String) (hc : p.arena.categoryOf? p.site l.link = some c) :
        categoryKey c = categoryKey name :=
      congrArg categoryKey (Option.some.inj (hc.symm.trans hk))
    refine ⟨h.leads_attached hpush.toSynced.calm_refl hfree hlinked hm hn hnone fun _ => hkey,
      arena_attached, fun hx => (hx.pushCategory name).congr arena_attached
        (Page.form?_attached hroot), ?_, fun ha => ?_⟩
    · intro n
      have hiff : (attached (p.push (Page.newCategory name)) p.next name l).Linked n ↔ _ :=
        Page.linked_iff_of_linksOf (Page.linksOf_attached hc.find?_ne_none hroot)
      rwa [Page.linked_iff (p := p.push _), Page.linksOf_pushCategory, ← Page.linked_iff] at hiff
    · exact ha.pushCategory.attached (hpush.toSynced.addLink hfree) hc

theorem keptByRegistering_true : KeptByRegistering fun _ _ => True := fun _ _ _ h _ _ _ =>
  (ends_registerLink h.toSynced).mono (fun _ _ _ => trivial) fun _ _ hf => hf

end Edit
end WikiPage
