import WikiPage.EntityTable
import WikiPage.Proofs.Agreement
import WikiPage.Proofs.Spelling

/-!
# Links name their categories

A link that is made for a category is read back as a link to it if the name is one that links carry. So
the links of a category name it, and the last of them spells it as it is stored, as long as no name
comes in that links do not carry.
-/

namespace WikiPage
namespace Page

variable {p q r : Page} {id x : ElementId} {name s : String} {l : PlacedLink}

/-- The links of an element are read as links to a category, and the last one spells its name. -/
structure Spells (p : Page) (x : ElementId) : Prop where
  stored : ∀ {s}, p.nameOf? x = some s → IsLinkable s ∧ Normalization.words.apply s = s
  links : ∀ {n}, n ∈ (p.linksOf x).map PlacedLink.link →
    (p.arena.categoryOf? p.site n).isSome = true
  canonical : ∀ {n}, ((p.linksOf x).map PlacedLink.link).getLast? = some n →
    ∃ c, p.arena.categoryOf? p.site n = some c ∧ p.nameOf? x = some (Normalization.words.apply c)

def SpelledOut (p : Page) : Prop :=
  ∀ x, p.Spells x

theorem Spells.congr (h : p.Spells x) (hsite : q.site = p.site) (hname : q.nameOf? x = p.nameOf? x)
    (hlinks : (q.linksOf x).map PlacedLink.link = (p.linksOf x).map PlacedLink.link)
    (htarget : ∀ n ∈ (p.linksOf x).map PlacedLink.link, q.arena.target? n = p.arena.target? n) :
    q.Spells x := by
  have hc {n : NodeId} (hn : n ∈ (p.linksOf x).map PlacedLink.link) :
      q.arena.categoryOf? q.site n = p.arena.categoryOf? p.site n := by
    rw [Arena.categoryOf?, Arena.categoryOf?, htarget n hn, hsite]
  refine ⟨fun hs => h.stored (hname ▸ hs), fun hn => ?_, fun hn => ?_⟩
  · rw [hlinks] at hn
    rw [hc hn]
    exact h.links hn
  · rw [hlinks] at hn
    rw [hc (List.mem_of_getLast? hn), hname]
    exact h.canonical hn

theorem spells_of_linksOf_eq_nil (hl : p.linksOf x = [])
    (hs : ∀ s, p.nameOf? x = some s → IsLinkable s ∧ Normalization.words.apply s = s) : p.Spells x :=
  ⟨fun h => hs _ h, by simp [hl], by simp [hl]⟩

theorem SpelledOut.of_sameRecords (h : p.SpelledOut) (hq : p.SameRecords q) : q.SpelledOut :=
  fun x => (h x).congr hq.site (congrFun hq.nameOf? x) (hq.links x)
    fun _ hn => hq.target (linked_iff.2 ⟨x, hn⟩)

theorem SpelledOut.revise (h : p.SpelledOut) (hq : p.Revises id q) (hid : q.Spells id) :
    q.SpelledOut := by
  intro x
  by_cases hx : x = id
  · exact hx ▸ hid
  · refine (h x).congr hq.site (hq.name hx) (by rw [hq.links hx]) fun n hn => ?_
    obtain ⟨l, hl, rfl⟩ := List.mem_map.1 hn
    exact hq.target hx hl

/-- Links that are made for a name spell it. -/
theorem Respells.spells (h : p.Respells id s q) (hs : p.site.NamesCategories) (hl : IsLinkable s)
    (hw : Normalization.words.apply s = s) : q.Spells id := by
  have hc {n : NodeId} (hn : n ∈ (q.linksOf id).map PlacedLink.link) :
      q.arena.categoryOf? q.site n = some s := by
    obtain ⟨l, hl', rfl⟩ := List.mem_map.1 hn
    rw [Arena.categoryOf?_of_target? (h.targets l hl'), h.site, Edit.categoryTarget,
      hl.categoryOf?_eq hs]
  refine ⟨fun ht => ?_, fun hn => ?_, fun hn => ⟨s, hc (List.mem_of_getLast? hn), ?_⟩⟩
  · obtain rfl := Option.some.inj (h.stored.symm.trans ht)
    exact ⟨hl, hw⟩
  · rw [hc hn]
    rfl
  · rw [hw, h.stored]

theorem SpelledOut.pushCategory (h : p.SpelledOut) (hl : IsLinkable name) :
    (p.push (newCategory name)).SpelledOut := by
  intro x
  by_cases hx : x = p.next
  · subst hx
    refine spells_of_linksOf_eq_nil ?_ fun s hs => ?_
    · rw [linksOf_pushCategory, linksOf, find?_next]
      rfl
    · rw [nameOf?_pushCategory, if_pos rfl] at hs
      obtain rfl := Option.some.inj hs
      exact ⟨hl.words, Normalization.apply_apply _ _⟩
  · exact (h x).congr rfl (by rw [nameOf?_pushCategory, if_neg hx]) (by rw [linksOf_pushCategory])
      fun _ _ => rfl

theorem SpelledOut.attached (h : p.SpelledOut) (hid : p.find? id ≠ none) (hr : id ≠ root)
    (hnil : p.linksOf id = []) (hname : p.nameOf? id = some (Normalization.words.apply name))
    (hl : p.arena.categoryOf? p.site l.link = some name) :
    (Edit.attached p id name l).SpelledOut := by
  have hlinks (x : ElementId) : (Edit.attached p id name l).linksOf x =
      if x = id then p.linksOf id ++ [l] else p.linksOf x := linksOf_attached hid hr x
  have hstored : (Edit.attached p id name l).nameOf? = p.nameOf? := nameOf?_attached hr
  intro x
  by_cases hx : x = id
  · subst hx
    have hlx : (Edit.attached p x name l).linksOf x = [l] := by rw [hlinks, if_pos rfl, hnil]; rfl
    have hl' : (Edit.attached p x name l).arena.categoryOf? (Edit.attached p x name l).site l.link =
        some name := by rw [Edit.arena_attached, Edit.site_attached, hl]
    refine ⟨fun hs => (h x).stored (hstored ▸ hs), fun hn => ?_, fun hn => ⟨name, ?_, ?_⟩⟩
    · rw [hlx] at hn
      rw [List.mem_singleton.1 hn, hl']
      rfl
    · rw [hlx] at hn
      exact Option.some.inj hn ▸ hl'
    · rw [hstored, hname]
  · exact (h x).congr Edit.site_attached (congrFun hstored x) (by rw [hlinks, if_neg hx])
      fun _ _ => by rw [Edit.arena_attached]

theorem SpelledOut.detached (h : p.SpelledOut) (hid : p.find? id ≠ none) (hr : id ≠ root)
    (hd : p.Dropped id (p.linksOf id) [] r) : (Edit.detached r id name).SpelledOut := by
  have hrev : p.Revises id r := .of_dropped hid hd
  have hspelled : r.SpelledOut := h.revise hrev
    (spells_of_linksOf_eq_nil (by rw [hd.linksOf hid, if_pos rfl])
      fun s hs => (h id).stored (congrFun hd.nameOf? id ▸ hs))
  exact fun x => (hspelled x).congr rfl (congrFun (nameOf?_detached hr) x)
    (congrArg _ (congrFun (linksOf_detached hr) x)) fun _ _ => rfl

theorem SpelledOut.registered (h : p.SpelledOut) (hs : p.Synced) (hc : p.IsCategory id)
    (hf : p.IsFreeLink l.link) (hl : p.arena.categoryOf? p.site l.link = some name)
    (hn : IsLinkable name) : (Edit.renamed (p.addLink id l) id name).SpelledOut := by
  have hac : (p.addLink id l).IsCategory id := (isCategory_congr form?_addLink).2 hc
  have hrev : p.Revises id (Edit.renamed (p.addLink id l) id name) :=
    (Revises.of_addLink hs hc hf).trans (.of_renamed (hs.addLink hf))
  have hname := Recorded.nameOf?_renamed hac name
  have hlinks : (Edit.renamed (p.addLink id l) id name).linksOf id = p.linksOf id ++ [l] := by
    rw [Recorded.linksOf_renamed, linksOf_addLink hc.find?_ne_none, if_pos rfl]
  refine h.revise hrev ⟨fun ht => ?_, fun {n} hm => ?_, fun {n} hm => ⟨name, ?_, hname⟩⟩
  · obtain rfl := Option.some.inj (hname.symm.trans ht)
    exact ⟨hn.words, Normalization.apply_apply _ _⟩
  · change (p.arena.categoryOf? p.site n).isSome = true
    rw [hlinks, List.map_append, List.mem_append] at hm
    rcases hm with hm | hm
    · exact (h id).links hm
    · rw [List.mem_singleton.1 hm, hl]
      rfl
  · rw [hlinks] at hm
    obtain rfl : l.link = n := by simpa using hm
    exact hl

end Page

namespace Edit

open Page

variable {α : Type} {p : Page} {id : ElementId} {name : String} {l : PlacedLink}

/-- An edit after which the links of categories name them still. -/
abbrev KeepsSpelling (m : Edit α) (p : Page) : Prop :=
  Ends m p (fun _ q => p.SpelledOut → q.SpelledOut) fun _ q => q = p

theorem IsCalm.keepsSpelling {m : Edit α} {ids : List ElementId} (h : IsCalm m p ids) :
    KeepsSpelling m p :=
  h.mono (fun _ _ hq hp => hp.of_sameRecords hq.toSameRecords) fun _ _ hq => hq.1

/-- A name that may be given to a category: as it is normalized, it has no control characters. -/
def IsPlain (name : String) : Prop :=
  (normalizeTitle name).toList.any Text.isControl = false

theorem keepsSpelling_addCategory (h : p.Synced) (hs : p.site.NamesCategories) (hn : IsPlain name) :
    KeepsSpelling (addCategory name) p := by
  refine (ends_addCategory h).mono (fun id q hq hp => ?_) fun _ _ hq => hq.1
  obtain ⟨rfl, hv, -, r, l, hl, rfl⟩ := hq
  have hlink : IsLinkable (normalizeTitle name) := .of_isCategory hv hn
  have hrc : r.IsCategory p.next := hl.calm.isCategory.2 isCategory_pushCategory
  have hrs := hl.calm.synced
  have hsite : r.site = p.site := hl.calm.site
  refine ((hp.pushCategory hlink).of_sameRecords hl.calm.toSameRecords).attached
    hrc.find?_ne_none (hrs.ne_root_of_isCategory hrc) ?_ ?_ ?_
  · rw [← List.map_eq_nil_iff, hl.calm.links, linksOf_pushCategory, linksOf, find?_next]
    rfl
  · rw [hl.calm.nameOf?, nameOf?_pushCategory, if_pos rfl]
  · rw [Arena.categoryOf?_of_target? hl.target, hsite]
    exact hlink.categoryOf?_eq hs

theorem keepsSpelling_removeCategory (h : p.Recorded) : KeepsSpelling (removeCategory name) p := by
  refine (ends_removeCategory h.toSynced fun id hid => ⟨h.inPlace id, h.named (h.indexed hid)⟩).mono
    (fun id q hq hp => ?_) fun _ _ hq => hq.2.1
  obtain ⟨hid, r, stored, hr, -, rfl⟩ := hq
  have hc : p.IsCategory id := h.indexed hid
  exact hp.detached hc.find?_ne_none (h.ne_root_of_isCategory hc) hr

theorem keptByRenewal_spelledOut :
    KeptByRenewal fun p => p.site.NamesCategories → p.SpelledOut := by
  intro p id h hl hp
  have hc := h.isCategory hl
  obtain ⟨name, hn⟩ := Option.ne_none_iff_exists'.1 (h.named hc)
  refine (ends_renewLink h.toSynced hc (h.inPlace id) hn).mono (fun _ q hq hs => ?_) fun _ _ hf => hf
  obtain ⟨r, s, l, hr, hns, rfl⟩ := hq
  obtain ⟨hrev, -⟩ := respells_renewed hc hn hr hns
  have hs : p.site.NamesCategories := hrev.site ▸ hs
  obtain ⟨hlink, hw⟩ := (hp hs id).stored hn
  exact (hp hs).revise hrev.toRevises (hrev.spells hs hlink hw)

theorem keepsSpelling_renameLinks (h : p.Recorded) (hc : p.IsCategory id)
    (hs : p.site.NamesCategories) {new : String} (hn : IsLinkable new) :
    Ends (renameLinks id (p.nameOf? id) (Normalization.words.apply new)) (renamed p id new)
      (fun _ q => p.SpelledOut → q.SpelledOut) fun _ _ => False := by
  refine (ends_renameLinks h hc).mono (fun _ q hq hp => ?_) fun _ _ hf => hf
  have hw := Normalization.apply_apply .words new
  rcases hq with ⟨rfl, hnamed⟩ | ⟨old, l, hlast, -, -, r, s, hr, hd, rfl⟩
  · have hname := Recorded.nameOf?_renamed hc new
    have hlinks : (renamed p id new).linksOf = p.linksOf := Recorded.linksOf_renamed
    refine hp.revise (.of_renamed h.toSynced) ⟨fun ht => ?_, fun hm => ?_, fun {n} hm => ?_⟩
    · obtain rfl := Option.some.inj (hname.symm.trans ht)
      exact ⟨hn.words, hw⟩
    · rw [hlinks] at hm
      exact (hp id).links hm
    · rw [hlinks, List.getLast?_map] at hm
      obtain ⟨l, hl, rfl⟩ := Option.map_eq_some_iff.1 hm
      exact ⟨_, hnamed l hl, by rw [hname, hw]⟩
  · obtain ⟨hrev, -⟩ := h.respells_retitled hc (List.mem_of_getLast? hlast) hr hd
    have hspelled : s.SpelledOut := hp.revise hrev.toRevises (hrev.spells hs hn.words hw)
    exact fun x => (hspelled x).congr rfl rfl rfl fun _ _ => rfl

theorem keepsSpelling_setAttribute (h : p.Recorded) (hs : p.site.NamesCategories) {value : String}
    (hn : name.toLower = "name" → IsPlain value) : KeepsSpelling (setAttribute id name value) p := by
  by_cases hc : p.IsCategory id
  · refine ends_setAttribute_name (Q := fun _ q => p.SpelledOut → q.SpelledOut) hc
      (fun _ _ hq => hq.1) fun new hname hok => ?_
    obtain ⟨hnew, hv⟩ := exists_of_checkCategoryName hok
    obtain rfl := Option.some.inj hnew
    exact (keepsSpelling_renameLinks h hc hs (.of_isCategory hv (hn hname))).mono (fun _ _ hq => hq)
      fun _ _ hf => hf.elim
  · exact IsCalm.keepsSpelling (isCalm_setAttribute h.toSynced hc)

theorem KeepsSpelling.quiet {m : Edit α} (hm : KeepsSpelling m p) :
    KeepsSpelling (do let _ ← m) p :=
  hm.step (fun _ _ hq => Ends.pure hq) fun _ _ hq => hq

theorem keepsSpelling_of_makes {kind : Kind} {m : Edit ElementId} (hm : Makes kind m p p) :
    KeepsSpelling (do let _ ← m) p :=
  hm.step (fun _ _ hq => Ends.pure fun hp => hp.of_sameRecords hq.1.toSameRecords) fun _ _ hq => hq.1

theorem keepsSpelling_setOrRemove (h : p.Recorded) (hs : p.site.NamesCategories) (name : String)
    (value : Option String) (hn : name.toLower = "name" → ∀ s ∈ value, IsPlain s) :
    KeepsSpelling (setOrRemove id name value) p := by
  cases value with
  | some value => exact .quiet (keepsSpelling_setAttribute h hs fun hl => hn hl value rfl)
  | none => exact .quiet (IsCalm.keepsSpelling (isCalm_removeAttribute h.toSynced))

theorem keepsSpelling_requireKind {kinds : List Kind} {f : Edit α} (hf : KeepsSpelling f p) :
    KeepsSpelling (do ask (·.requireKind id kinds); f) p :=
  Ends.bind (ends_ask (fun _ _ => hf) fun _ _ => rfl)

/-- The categories of links that stood in a part that was cut out are spelled anew. -/
theorem spelled_keepCategories (h : p.Recorded) (hs : p.site.NamesCategories) {n : NodeId} {q : Page}
    (hq : p.Cut n q) : Ends (keepCategories n) q (fun _ r => p.SpelledOut → r.SpelledOut)
      fun _ r => r = p := by
  by_cases hp : p.SpelledOut
  · refine (keeps_keepCategories_of_cut h keptByRenewal_spelledOut hq fun _ =>
      hp.of_sameRecords hq.toSameRecords).mono (fun _ r hr _ => hr.2 ?_) fun _ _ hf => hf.elim
    exact hr.1.site.symm ▸ hs
  · exact (keeps_keepCategories_of_cut h keptByRenewal_true hq trivial).mono
      (fun _ _ _ hp' => absurd hp' hp) fun _ _ hf => hf.elim

end Edit

namespace Act

open Edit Page

variable {site : Site} {p : Page} {act : Act}

/-- The names that an act would give to categories. -/
def categoryNames : Act → List String
  | addCategory name => [name]
  | renameCategory _ new => [new]
  | setCategoryName _ name => [name]
  | setAttribute _ name value => if name.toLower = "name" then [value] else []
  | setUniversal _ name value => if name.toLower = "name" then value.toList else []
  | _ => []

theorem keepsSpelling_edit [Entities] (h : p.Recorded) (hs : p.site.NamesCategories) (hc : act.isChecked = true)
    (hn : ∀ name ∈ act.categoryNames, IsPlain name) : KeepsSpelling act.edit p := by
  have hp := h.toSynced
  cases act with
  | createParagraph => exact keepsSpelling_of_makes (makes_createParagraph hp)
  | createBold => exact keepsSpelling_of_makes (makes_createBold hp)
  | createItalics => exact keepsSpelling_of_makes (makes_createItalics hp)
  | createRule => exact keepsSpelling_of_makes (makes_createRule hp)
  | createDiv => exact keepsSpelling_of_makes (makes_createDiv hp)
  | createLink target => exact keepsSpelling_of_makes (makes_createLink hp)
  | createText s => exact keepsSpelling_of_makes (makes_createText hp)
  | createComment s => exact keepsSpelling_of_makes (makes_createComment hp)
  | insertChild parent child position => exact IsCalm.keepsSpelling (isCalm_insertChild hp)
  | removeChild parent child =>
    exact ends_removeChild hp (fun _ _ hq _ => spelled_keepCategories h hs hq) fun _ _ hq => hq.1
  | replaceChild parent new old =>
    exact ends_replaceChild hp (fun _ _ hq _ => spelled_keepCategories h hs hq) fun _ _ hq => hq.1
  | setText id s => exact IsCalm.keepsSpelling (isCalm_setText hp)
  | setComment id s => exact IsCalm.keepsSpelling (isCalm_setComment hp)
  | setAttribute id name value =>
    refine .quiet (keepsSpelling_setAttribute h hs fun hl => hn value ?_)
    simp [categoryNames, hl]
  | removeAttribute id name => exact .quiet (IsCalm.keepsSpelling (isCalm_removeAttribute hp))
  | assign id name value => cases hc
  | promote id =>
    exact (ends_promote hp).mono (fun _ _ hq hp => hp.of_sameRecords hq.1.toSameRecords)
      fun _ _ hq => hq.1
  | addCategory name => exact .quiet (keepsSpelling_addCategory hp hs (hn name List.mem_cons_self))
  | renameCategory old new =>
    refine ends_needCategory.step (fun id q hq => ?_) fun _ _ hq => hq.2.1
    obtain ⟨-, rfl⟩ := hq
    exact KeepsSpelling.quiet (keepsSpelling_setAttribute h hs fun _ => hn new List.mem_cons_self)
  | removeCategory name => exact .quiet (keepsSpelling_removeCategory h)
  | setTitle title =>
    exact keepsSpelling_setOrRemove h hs "title" (some title) fun hl => absurd hl (by decide +kernel)
  | setNamespace name =>
    exact keepsSpelling_setOrRemove h hs "namespace" name fun hl => absurd hl (by decide +kernel)
  | setPath path =>
    exact keepsSpelling_setOrRemove h hs "path" path fun hl => absurd hl (by decide +kernel)
  | setAlignment id alignment =>
    exact keepsSpelling_setOrRemove h hs "align" _ fun hl => absurd hl (by decide +kernel)
  | setNoShade id on =>
    exact keepsSpelling_requireKind
      (keepsSpelling_setOrRemove h hs "noshade" _ fun hl => absurd hl (by decide +kernel))
  | setThickness id pixels =>
    exact keepsSpelling_requireKind
      (keepsSpelling_setOrRemove h hs "size" _ fun hl => absurd hl (by decide +kernel))
  | setWidth id width =>
    exact keepsSpelling_requireKind
      (keepsSpelling_setOrRemove h hs "width" _ fun hl => absurd hl (by decide +kernel))
  | setLinkTarget id target =>
    exact keepsSpelling_requireKind
      (keepsSpelling_setOrRemove h hs "target" _ fun hl => absurd hl (by decide +kernel))
  | setCategoryName id name =>
    refine keepsSpelling_requireKind (keepsSpelling_setOrRemove h hs "name" _ fun _ s hs => hn s ?_)
    obtain rfl := Option.some.inj hs
    exact List.mem_cons_self
  | setUniversal id name value =>
    refine keepsSpelling_setOrRemove h hs name value fun hl s hs => hn s ?_
    simpa [categoryNames, hl] using hs

theorem spelledOut_run [Entities] {acts : List Act} (h : p.Orderly site) (hs : site.NamesCategories)
    (hc : acts.all isChecked = true) (hn : ∀ act ∈ acts, ∀ name ∈ act.categoryNames, IsPlain name)
    (hp : p.SpelledOut) : (run acts p).SpelledOut := by
  induction acts generalizing p with
  | nil => exact hp
  | cons act acts ih =>
    rw [List.all_cons, Bool.and_eq_true] at hc
    rw [List.forall_mem_cons] at hn
    have hends := keepsSpelling_edit h.recorded (h.site_eq.symm ▸ hs) hc.1 hn.1
    refine ih (p := act.after p) (h.leads (act.keeps_after h.recorded hc.1).toLeads) hc.2 hn.2 ?_
    exact after_of_ok h.recorded hc.1 hp (hends.mono (fun _ _ hq => hq hp) fun _ _ _ => trivial)

end Act

namespace Page

variable {p : Page} {a : Arena} {site : Site} {title : String} {drafts : List Draft}

theorem spelledOut_ofDrafts (h : Drafted a site drafts) :
    (ofDrafts a site title drafts).SpelledOut := by
  intro x
  refine spells_of_linksOf_eq_nil (linksOf_ofDrafts h) fun s hs => ?_
  rw [nameOf?_eq_none (not_isCategory_ofDrafts h)] at hs
  cases hs

/-- A link that has been found carries its name, unless that is empty. -/
theorem keptByRegistering_spelledOut :
    Edit.KeptByRegistering fun _ p => p.hasCategory "" = false → p.SpelledOut := by
  rintro p - ⟨name, l⟩ h hf hl hp
  obtain ⟨target, -, htarget⟩ := Option.bind_eq_some_iff.1 hl
  refine (Edit.ends_registerLink h.toSynced).mono (fun _ q hq hempty => ?_) fun _ _ hf => hf
  rcases hq with ⟨id, hid, rfl⟩ | ⟨-, rfl⟩
  · have hold : p.hasCategory "" = false := hempty
    have hname : name ≠ "" := by
      rintro rfl
      rw [hasCategory, hid] at hold
      cases hold
    exact (hp hold).registered h.toSynced (h.indexed hid) hf hl (.of_categoryOf? htarget hname)
  · have hfind : (Edit.attached (p.push (newCategory name)) p.next name l).category? "" =
        if categoryKey "" = categoryKey name then some p.next else p.category? "" :=
      Index.find?_insert ..
    rw [hasCategory, hfind] at hempty
    have hname : name ≠ "" := by
      rintro rfl
      cases hempty
    have hold : p.hasCategory "" = false := by
      rw [hasCategory]
      split at hempty
      · cases hempty
      · exact hempty
    have hpush := h.pushCategory name
    have hc : (p.push (newCategory name)).IsCategory p.next := Edit.isCategory_pushCategory
    refine ((hp hold).pushCategory (.of_categoryOf? htarget hname)).attached hc.find?_ne_none
      (hpush.ne_root_of_isCategory hc) ?_ ?_ hl
    · rw [linksOf_pushCategory, linksOf, find?_next]
      rfl
    · rw [nameOf?_pushCategory, if_pos rfl]

theorem spelledOut_new (h : new site title = .ok p) : p.SpelledOut := by
  obtain ⟨t, -, h⟩ := Except.exists_of_bind h
  obtain rfl := Except.ok.inj h
  exact spelledOut_ofDrafts
    ⟨Arena.sound_new, Arena.loose_root_new, by simp, by simp, by simp [Draft.nodesOf]⟩

theorem spelledOut_read [Entities] {text : String} {preserve : Bool} (h : read text site title preserve = .ok p)
    (hempty : p.hasCategory "" = false) : p.SpelledOut := by
  have ha := Arena.sound_read text
  have hr := Arena.loose_root_read text
  obtain ⟨-, -, -, -, -, hp⟩ := exists_of_ofArena ha hr h keptByRegistering_spelledOut
    fun t found hf _ => by
      have hfound := ha.found hf
      exact spelledOut_ofDrafts ⟨ha, hr, hfound.fits, hfound.kept, hfound.nodes⟩
  exact hp hempty

/-- Every link of a category on the page names it, and the last one spells it as it is stored, up to
blanks. -/
def LinksNameCategories (p : Page) : Prop :=
  ∀ x, p.IsAttached x → ∃ name links last, p.categoryName x = .ok name ∧
    p.categoryLinks x = .ok links ∧ links.getLast? = some last ∧
    (∀ n ∈ links, ∃ c, p.arena.linkedCategory? p.site n = .ok (some c) ∧
      categoryKey c = categoryKey name) ∧
    ∃ c, p.arena.linkedCategory? p.site last = .ok (some c) ∧ Normalization.words.apply c = name

theorem SpelledOut.linksNameCategories (h : p.SpelledOut) (hr : p.Recorded) (hi : p.Indexed) :
    p.LinksNameCategories := by
  intro x hx
  obtain ⟨hc, hp⟩ := isAttached_iff.1 hx
  obtain ⟨name, hn⟩ := Option.ne_none_iff_exists'.1 (hr.named hc)
  have hlinks := (hi.attached_iff hc).1 hp
  obtain ⟨last, hlast⟩ := Option.ne_none_iff_exists'.1
    (mt List.getLast?_eq_none_iff.1 (mt List.map_eq_nil_iff.1 hlinks))
  refine ⟨name, _, last, categoryName_eq_ok_iff.2 ⟨hc, hn⟩, categoryLinks_eq_ok_iff.2 ⟨hc, rfl⟩, hlast,
    fun n hmem => ?_, ?_⟩
  · obtain ⟨c, hnc⟩ := Option.isSome_iff_exists.1 ((h x).links hmem)
    obtain ⟨l, hl, rfl⟩ := List.mem_map.1 hmem
    refine ⟨c, Arena.linkedCategory?_eq_some_iff.2 hnc, ?_⟩
    have hkey := hi.keyed hl hnc
    rw [key?, hn, Option.map_some] at hkey
    exact (Option.some.inj hkey).symm
  · obtain ⟨c, hlc, hname⟩ := (h x).canonical hlast
    exact ⟨c, Arena.linkedCategory?_eq_some_iff.2 hlc, Option.some.inj (hname.symm.trans hn)⟩

/-- The links of categories name them on every page that began without a category of an empty name, if
no act gave a category a name with control characters. -/
theorem linksNameCategories_run [Entities] {acts : List Act} (hs : site.NamesCategories)
    (h : new site title = .ok p ∨ ∃ text preserve, read text site title preserve = .ok p ∧
      p.hasCategory "" = false)
    (ha : acts.all Act.isChecked = true)
    (hn : ∀ act ∈ acts, ∀ name ∈ act.categoryNames, Edit.IsPlain name) :
    (Act.run acts p).LinksNameCategories := by
  obtain ⟨hp, hspelled⟩ : p.Orderly site ∧ p.SpelledOut := by
    rcases h with h | ⟨text, preserve, h, hempty⟩
    · exact ⟨(begun_new h false).toOrderly, spelledOut_new h⟩
    · exact ⟨(begun_read h).toOrderly, spelledOut_read h hempty⟩
  have ho := hp.leads (Act.keeps_run hp.recorded ha).toLeads
  exact (Act.spelledOut_run hp hs ha hn hspelled).linksNameCategories ho.recorded (ho.indexed hs)

/-- An empty page that is put into a category. -/
def categorized (name : String) : Page :=
  Act.run [.addCategory name] (ofDrafts .new .default "Test" [])

theorem linksNameCategories_run_categorized : Site.default.NamesCategories ∧
    Edit.IsPlain "Foo_ Bar" ∧ (categorized "Foo_ Bar").hasCategory "foo bar" = true ∧
    (categorized "Foo_ Bar").LinksNameCategories := by
  have h : new .default "Test" = .ok (ofDrafts .new .default "Test" []) := rfl
  have hn : Edit.IsPlain "Foo_ Bar" :=
    (by decide +kernel : (normalizeTitle "Foo_ Bar").toList.any Text.isControl = false)
  exact ⟨Site.namesCategories_default, hn, by decide +kernel,
    linksNameCategories_run Site.namesCategories_default (.inl h) rfl
      (by simpa [Act.categoryNames] using hn)⟩

/-- The link that is made for a name with a control character is no link to a category. -/
theorem not_linksNameCategories_categorized : ¬(categorized "Foo\u0080").LinksNameCategories := by
  intro h
  obtain ⟨name, links, last, -, hlinks, hlast, -, c, hc, -⟩ :=
    h ⟨2⟩ ⟨by decide +kernel, by decide +kernel⟩
  have hlinks' : (categorized "Foo\u0080").categoryLinks ⟨2⟩ = .ok [⟨3⟩] := by decide +kernel
  obtain rfl := Except.ok.inj (hlinks.symm.trans hlinks')
  obtain rfl := Option.some.inj hlast
  have hnone : (categorized "Foo\u0080").arena.linkedCategory? (categorized "Foo\u0080").site ⟨3⟩ =
      .ok none := by
    decide +kernel
  cases hc.symm.trans hnone

end Page
end WikiPage
