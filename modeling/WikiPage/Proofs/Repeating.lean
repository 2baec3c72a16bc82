import WikiPage.EntityTable
import WikiPage.Proofs.Canonical
import WikiPage.Proofs.Commuting
import WikiPage.Proofs.Renaming

/-!
# Stored values that are stored again

What is stored of a value for an attribute can be given to the attribute, which has it then as before, and
the wikitext and the outline stay as they are. That is so for every value that stands, as most do. It is so
for all names of categories. Where the link of a category cannot carry its name, the link is written anew as it
was: it has kept its title, as no link of the category that is taken out stands in it.
-/

namespace WikiPage

namespace Attribute

theorem put_put (l : List Attribute) (a : Attribute) : put (put l a) a = put l a := by
  induction l with
  | nil => simp [put]
  | cons b l ih =>
    rw [put]
    by_cases hb : b.name = a.name
    · simp [hb, put]
    · rw [if_neg hb, put, if_neg hb, ih]

end Attribute

namespace Sheet

variable {s t : Sheet} {check check' : Verifier → Except PageError (Option String)}
  {name key value new : String}
  {old : Option String} {policy : Policy}

theorem Entry.rewrite_rewrite (key value : String) (e : Entry) :
    (e.rewrite key value).rewrite key value = e.rewrite key value := by
  have hquoted : Surgery.isQuoted e.hasValue e.glue = true → Surgery.isQuoted true e.glue = true := by
    unfold Surgery.isQuoted
    rw [Bool.and_eq_true]
    exact fun h => h.2
  unfold Entry.rewrite
  grind

/-- The attributes in the tag are those of stored ones, and others that are not stored. -/
def Owned (s : Sheet) : Prop :=
  ∀ e ∈ s.entries, ∀ key, e.owner = some key → Attribute.find? s.rows key ≠ none

/-- What has been written for an attribute says what it is to say. -/
theorem Owned.rewrite_eq_self (h : s.Owned) {e : Entry} (he : e ∈ (s.write key value).entries)
    (hk : e.owner = some key) : e.rewrite key value = e := by
  rw [write] at he
  cases hold : Attribute.find? s.rows key with
  | some a =>
    rw [hold] at he
    obtain ⟨d, -, rfl⟩ := List.mem_map.1 he
    split at hk
    · rw [if_pos ‹_›, Entry.rewrite_rewrite]
    · exact absurd hk ‹_›
  | none =>
    rw [hold] at he
    rcases List.mem_append.1 he with he | he
    · exact absurd hold (h e he key hk)
    · obtain rfl := List.mem_singleton.1 he
      simp [Entry.rewrite]

theorem Owned.write_write (h : s.Owned) : (s.write key value).write key value = s.write key value := by
  have hstore : (s.write key value).rows = Attribute.put s.rows ⟨key, value, none⟩ := rfl
  have hentries : (s.write key value).entries.map
      (fun e => if e.owner = some key then e.rewrite key value else e) = (s.write key value).entries := by
    refine (List.map_congr_left fun e he => ?_).trans (List.map_id _)
    split
    · exact h.rewrite_eq_self he ‹_›
    · rfl
  generalize s.write key value = t at hstore hentries
  rw [write, store, hstore, Attribute.put_put, Attribute.find?_put, if_pos rfl, ← hstore]
  simp only [hentries]

@[simp] theorem rows_promote (s : Sheet) : s.promote.rows = s.rows := by
  unfold promote
  split <;> rfl

@[simp] theorem entries_promote (s : Sheet) : s.promote.entries = s.entries := by
  unfold promote
  split <;> rfl

theorem isTag_promote (s : Sheet) : s.promote.isTag = true := by
  unfold promote
  split
  · assumption
  · rfl

theorem Owned.commit_commit (h : s.Owned) (ht : s.commit policy key value = .ok t) :
    t.commit policy key value = .ok t := by
  unfold commit at ht ⊢
  split at ht
  · rename_i hs
    obtain ⟨_, hname, rfl⟩ := Except.exists_of_map ht
    have howned : s.promote.Owned := by
      intro e he key
      rw [rows_promote]
      exact h e (entries_promote s ▸ he) key
    have hpromote : (s.promote.write key value).promote = s.promote.write key value :=
      if_pos (isTag_promote s)
    rw [if_pos hs, hname, hpromote, howned.write_write]
    rfl
  · rename_i hs
    obtain rfl := Except.ok.inj ht
    rw [if_neg hs, store, store, Attribute.put_put]

@[simp] theorem kind_react (s : Sheet) (policy : Policy) (old : Option String) (value : String) :
    (s.react policy old value).kind = s.kind := by
  unfold react
  split <;> rfl

theorem kind_of_set (hp : Policy.find? s.kind name = some policy) (hc : check policy.verifier = .ok (some new))
    (hset : s.set check name = .ok (old, t)) : t.kind = s.kind := by
  rw [set_of_some hp hc] at hset
  obtain ⟨u, hu, hset⟩ := Except.exists_of_map hset
  obtain ⟨-, rfl⟩ := Prod.mk.inj hset
  rw [kind_react, kind_of_commit hu]

theorem Owned.set_again (h : s.Owned) (hp : Policy.find? s.kind name = some policy)
    (hc : check policy.verifier = .ok (some new)) (hset : s.set check name = .ok (old, t))
    (hc' : check' policy.verifier = .ok (some (policy.normalization.apply new))) :
    t.set check' name = .ok (some (policy.normalization.apply new), t) := by
  rw [set_of_some hp hc] at hset
  obtain ⟨u, hu, hset⟩ := Except.exists_of_map hset
  obtain ⟨rfl, rfl⟩ := Prod.mk.inj hset
  have hgives := gives_of_commit hu
  have hrows := (gives_react u policy (s.value? name.toLower) (policy.normalization.apply new)).1
  have hagain : (u.react policy (s.value? name.toLower) (policy.normalization.apply new)).commit policy
      name.toLower (policy.normalization.apply new) =
        .ok (u.react policy (s.value? name.toLower) (policy.normalization.apply new)) := by
    unfold react
    split
    · exact h.commit_commit hu
    · -- only what is not written into a tag has a reaction
      rename_i hr
      obtain ⟨r, hr⟩ := Option.ne_none_iff_exists'.1 (not_or.1 hr).1
      have hs : policy.synced = false := (Edit.kind_of_reaction hp hr).1
      have hrows : u.rows = Attribute.put s.rows ⟨name.toLower, policy.normalization.apply new, none⟩ :=
        hgives.rows
      rw [commit, hs, if_neg (by decide), store]
      simp only [retarget, hrows, Attribute.put_put]
  have hkind : (u.react policy (s.value? name.toLower) (policy.normalization.apply new)).kind = s.kind := by
    rw [kind_react, kind_of_commit hu]
  have hvalue : (u.react policy (s.value? name.toLower) (policy.normalization.apply new)).value? name.toLower =
      some (policy.normalization.apply new) := by
    rw [value?, hrows, hgives.rows, Attribute.give, Attribute.find?_put, if_pos rfl]
    rfl
  rw [set_of_some (hkind ▸ hp) hc', policy.normalization.apply_apply, hagain, hvalue, Except.map,
    react, if_pos (.inr rfl)]

end Sheet

namespace Edit

variable {p q r : Page} {x : ElementId} {old old' new : String} {l k : PlacedLink}

/-- The canonical link keeps its title, as no other link of the category stands in it. -/
theorem Retitled.kids_title (hq : Retitled p x old new l q) (ho : p.InOrder) {target : String} {title : NodeId}
    {g : Option Glue} (hl : p.arena.find? l.link = some ⟨.link target title, g⟩) :
    q.arena.kids title = p.arena.kids title := by
  obtain ⟨before, hlinks⟩ := List.getLast?_eq_some_iff.1 hq.canonical
  have hkid : title ∈ p.arena.kids l.link := by
    have hk : p.arena.kids l.link = [title] := Arena.kids_of_find? hl
    exact hk ▸ List.mem_singleton_self _
  have hpairs := ho x
  rw [hlinks, List.map_append, List.pairwise_append] at hpairs
  rw [hq.kids_eq]
  refine List.filter_eq_self.2 fun m hm => decide_eq_true fun hlink => by_contra fun hne => ?_
  rw [Page.linkNodes, hlinks, List.map_append, List.mem_append] at hlink
  have hbefore := hlink.resolve_right (by simpa using hne)
  exact hpairs.2.2 m hbefore l.link (by simp) (.head hkid (.single hm))

theorem Retitled.size_eq (hq : Retitled p x old new l q) : q.arena.size = p.arena.size := by
  obtain ⟨r, s, hr, hs, rfl⟩ := hq.page
  exact hs.size_eq.trans hr.arena.alike.size_eq

theorem Retitled.again (hq : Retitled p x old new l q)
    (hr : Retitled q x old' (Normalization.words.apply new) k r) (h : p.Recorded) (ho : p.InOrder)
    (hqr : q.Recorded) (hrs : r.Synced) : r.arena = q.arena ∧ r.find? = q.find? := by
  have hwords := Normalization.words.apply_apply new
  have hrespells := hq.respells h hqr.toSynced
  obtain ⟨hnodes, -⟩ := hq.linkNodes_eq h
  -- the canonical link is the only one that is left
  obtain ⟨hlinks, hkl⟩ : q.linksOf x = [k] ∧ k.link = l.link := by
    obtain ⟨k', hlinks, hk'⟩ := List.map_eq_singleton_iff.1 hnodes
    have hlast := hr.canonical
    rw [hlinks] at hlast
    obtain rfl := Option.some.inj hlast
    exact ⟨hlinks, hk'⟩
  have hc : q.IsCategory x := hqr.isCategory (by simp [hlinks])
  obtain ⟨e, he, -⟩ := hc.exists_find?
  constructor
  · obtain ⟨target, title, g, hp, hql⟩ := hq.find?_link
    obtain ⟨target', title', g', hql', hrl⟩ := hr.find?_link
    rw [hkl, hql] at hql'
    cases hql'
    rw [hq.kids_title ho hp, hwords, categoryTarget, hrespells.site, ← categoryTarget, hkl, ← hql] at hrl
    refine Arena.ext_find? (funext fun n => ?_)
    cases hnode : q.arena.find? n with
    | none =>
      rw [Arena.find?_eq_none_iff] at hnode ⊢
      rwa [hr.size_eq]
    | some m =>
      by_cases hnl : n = l.link
      · rw [hnl, hrl, ← hnl, hnode]
      · refine hr.agrees hqr hrs n m (fun hd => ?_) hnode
        rw [hkl] at hd
        obtain ⟨j, hj, hne, -⟩ := hd.resolve_left hnl
        rw [hnodes, List.mem_singleton] at hj
        exact hne hj
  · funext y
    have hstored : store "name" (Normalization.words.apply (Normalization.words.apply new)) e = e := by
      have hfind : (renamed q x (Normalization.words.apply new)).find? x = _ := find?_renamed he x
      rw [Page.renamed_eq_self hqr hrespells.stored, if_pos rfl, he] at hfind
      exact (Option.some.inj hfind).symm
    have hfilter : e.links.filter (fun j => j.link = k.link) = e.links := by
      rw [← Page.linksOf_of_find? he, hlinks]
      simp
    rw [hr.find?_eq he, hstored, hfilter]
    split
    · rw [‹y = x›, he]
    · rfl

end Edit
namespace Page

variable {site : Site} {p q r : Page} {x : ElementId} {e : Element} {k : Kind} {name value s : String}
  {old : Option String}

theorem owned_sheetOf (p : Page) (x : ElementId) (e : Element) : (p.sheetOf x e).Owned := by
  intro d hd key hk
  obtain ⟨n, -, hn⟩ := List.mem_filterMap.1 hd
  rw [Arena.owner_of_entry? hn, Attribute.owner?] at hk
  obtain ⟨a, ha, rfl⟩ := Option.map_eq_some_iff.1 hk
  have hfound : Attribute.find? e.attributes a.name ≠ none := by
    rw [Attribute.find?, ne_eq, List.find?_eq_none]
    exact fun h => h a (List.mem_of_find?_eq_some ha) (by simp)
  change Attribute.find? (e.attributes.map Attribute.placeless) a.name ≠ none
  rwa [Attribute.find?_map_placeless, ne_eq, Option.map_eq_none_iff]

/-- What is stored of a value passes the check of the attribute as it stands, and it can be stored again.
Then the element has it as before, and the page reads the same. -/
structure StoresAgain (p : Page) (x : ElementId) (name s : String) : Prop where
  checked : ∀ policy, p.policy x name = .ok policy → p.verify x s policy.verifier = .ok (some s)
  stored : ∃ q, Edit.setAttribute x name s p = .ok (some s) q ∧ q.value? x name = .ok (some s) ∧
    q.source = p.source ∧ q.outline = p.outline

theorem normalizeTitle_words (s : String) : normalizeTitle (Normalization.words.apply (normalizeTitle s)) =
    Normalization.words.apply (normalizeTitle s) := by
  have hnormal : normalTitle (Normalization.words.apply (normalizeTitle s)).toList =
      (Normalization.words.apply (normalizeTitle s)).toList := by
    refine normalTitle_eq_self_iff.2 ⟨fun hm => ?_, ?_⟩
    · rcases Normalization.mem_words hm with hm | hm
      · cases hm
      · rw [normalizeTitle, Text.toList_onChars] at hm
        exact underscore_not_mem_normalTitle _ hm
    · rw [Normalization.toList_words, Text.trim_squeeze]
  rw [normalizeTitle, Text.onChars, hnormal, String.ofList_toList]

theorem isCategory_words (h : Valid.isCategory (normalizeTitle s) = true) :
    Valid.isCategory (Normalization.words.apply (normalizeTitle s)) = true := by
  refine Verifier.all_words rfl ?_ h
  rw [normalizeTitle, Text.toList_onChars]
  exact (normalTitle_eq_self_iff.1 (normalTitle_normalTitle _)).2

theorem GoesBy.named (hq : p.GoesBy x name q) (h : p.Recorded) (hc : p.IsCategory x) (hqs : q.Synced) :
    q.IsCategory x ∧ q.nameOf? x = some (Normalization.words.apply name) := by
  rcases hq with ⟨rfl, -⟩ | ⟨previous, l, hq⟩
  · have hrevises : p.Revises x (Edit.renamed p x name) := .of_renamed h.toSynced
    exact ⟨hrevises.isCategory_iff.2 hc, Recorded.nameOf?_renamed hc name⟩
  · have hs := hq.respells h hqs
    exact ⟨hs.isCategory_iff.2 hc, hs.stored⟩

/-- A category is given the name that it goes by. Its link is written anew then, if it names the category
otherwise, and is as it was. -/
theorem GoesBy.again (hq : p.GoesBy x name q) (hr : q.GoesBy x (Normalization.words.apply name) r)
    (h : p.Recorded) (ho : p.InOrder) (hc : p.IsCategory x) (hqr : q.Recorded) (hrs : r.Synced) :
    r.arena = q.arena ∧ r.find? = q.find? := by
  obtain ⟨-, hstored⟩ := hq.named h hc hqr.toSynced
  rcases hr with ⟨rfl, -⟩ | ⟨previous, k, hr⟩
  · rw [renamed_eq_self hqr hstored]
    exact ⟨rfl, rfl⟩
  · rcases hq with ⟨rfl, hnamed⟩ | ⟨previous', l, hq⟩
    · -- the canonical link would have to be read otherwise
      have hk := hr.canonical
      rw [Recorded.linksOf_renamed] at hk
      exact absurd (hnamed k hk) (Normalization.words.apply_apply name ▸ hr.differs)
    · exact hq.again hr h ho hqr hrs

theorem Synced.texts_of_same (hp : p.Synced) (hq : q.Synced) (ha : q.arena = p.arena) (hf : q.find? = p.find?) :
    q.source = p.source ∧ q.outline = p.outline := by
  obtain ⟨hsource, hsheets⟩ : q.source = p.source ∧ q.sheet? = p.sheet? := by
    obtain ⟨a, site, elements, categories, owners⟩ := p
    obtain ⟨a', site', elements', categories', owners'⟩ := q
    obtain rfl : elements' = elements := Array.ext_getElem? fun i => congrFun hf ⟨i⟩
    obtain rfl : a' = a := ha
    exact ⟨rfl, rfl⟩
  exact ⟨hsource, outlineTree_congr hq hp hsheets root 0⟩

/-- What is stored of a name that a category has been given is stored again. -/
theorem storesAgain_of_isCategory (h : p.Recorded) (ho : p.InOrder) (hc : p.IsCategory x) (hqr : q.Recorded)
    (hset : Edit.setAttribute x name value p = .ok old q) (hs : q.value? x name = .ok (some s)) :
    q.StoresAgain x name s := by
  obtain ⟨-, hlower, hcheck, hgoes⟩ := (h.ends_setAttribute_category hc).of_ok hset
  obtain ⟨-, hvalid⟩ := exists_of_checkCategoryName hcheck
  obtain ⟨hqc, hstored⟩ := hgoes.named h hc hqr.toSynced
  obtain ⟨e, he, hk⟩ := hqc.exists_find?
  obtain rfl : s = Normalization.words.apply (normalizeTitle value) := by
    have hvalue := (value?_of_find? he name).symm.trans hs
    rw [nameOf?, he, Option.bind_some, if_pos hk, ← hlower] at hstored
    rw [hstored] at hvalue
    exact (Option.some.inj (Except.ok.inj hvalue)).symm
  have hpolicy : q.policy x name = .ok Edit.namePolicy := by
    rw [policy_eq_get he, Policy.get_eq_ok_iff, hk, ← Policy.find?_toLower, hlower]
    exact Edit.find?_namePolicy
  have hagain : q.checkCategoryName x (Normalization.words.apply (normalizeTitle value)) =
      .ok (some (Normalization.words.apply (normalizeTitle value))) := by
    rw [checkCategoryName_eq_ok_iff hqc, normalizeTitle_words, key?, hstored]
    exact ⟨rfl, isCategory_words hvalid, .inl rfl⟩
  refine ⟨fun policy hp => ?_, ?_⟩
  · obtain rfl := Except.ok.inj (hpolicy.symm.trans hp)
    exact hagain
  · have hends : Ends (Edit.setAttribute x name (Normalization.words.apply (normalizeTitle value))) q _ _ :=
      hqr.ends_setAttribute_category hqc
    cases hrun : Edit.setAttribute x name (Normalization.words.apply (normalizeTitle value)) q with
    | error err r =>
      rcases (hends.of_error hrun).2 with herr | herr
      · cases hpolicy.symm.trans herr
      · cases hagain.symm.trans herr
    | ok previous r =>
      obtain ⟨rfl, -, -, hsame⟩ := hends.of_ok hrun
      rw [normalizeTitle_words] at hsame
      have hrs := ((Edit.isSafe_setAttribute hqr).of_ok hrun).recorded.toSynced
      obtain ⟨harena, hfind⟩ := hgoes.again hsame h ho hc hqr hrs
      refine ⟨r, by rw [hstored], ?_, hqr.texts_of_same hrs harena hfind⟩
      rw [← hs, value?_of_find? he, value?_of_find? ((congrFun hfind x).trans he)]

theorem value?_of_sheet? {t : Sheet} (ht : p.sheet? x = some t) (name : String) :
    p.value? x name = .ok (t.value? name.toLower) := by
  obtain ⟨e, he, rfl⟩ := Option.map_eq_some_iff.1 ht
  rw [value?_of_find? he, value?_sheetOf]

theorem Updates.sheet?_eq {t : Sheet} (hq : q.Updates x t r) (ht : q.sheet? x = some t) :
    r.sheet? = q.sheet? := by
  funext z
  by_cases hz : z = x
  · rw [hz, hq.self, ht]
  · exact hq.others z hz

theorem Reached.of_setAttribute [Entities] (h : p.Reached site)
    (hset : Edit.setAttribute x name value p = .ok old q) :
    q.Reached site := by
  have hq := h.amend x name (some value)
  have hrun : Edit.amend x name (some value) p = .ok old q := hset
  rwa [Edit.outcome, hrun] at hq

theorem storesAgain_of_ne_category [Entities] (h : p.Reached site) (he : p.find? x = some e)
    (hk : e.kind ≠ .category)
    (hset : Edit.setAttribute x name value p = .ok old q) (hs : q.value? x name = .ok (some s))
    (hstands : ∀ policy, Policy.find? e.kind name = some policy → p.site.Stands s policy.verifier) :
    q.StoresAgain x name s := by
  have hq := h.of_setAttribute hset
  obtain ⟨whole, hm⟩ := h.exists_mirrored
  obtain ⟨t, ht, hupdates⟩ := (Edit.followsSheet_setAttribute h.orderly.recorded.toSynced hm he hk).of_ok hset
  obtain ⟨policy, verified, hpolicy, hverified, -, -, hgives⟩ := Sheet.gives_of_set ht
  -- what is stored has been verified
  have hvalue : t.value? name.toLower = verified.map policy.normalization.apply := by
    have hnames : ((p.sheetOf x e).rows.map Attribute.name).Nodup := by
      rw [sheetOf, List.map_map]
      exact (hm x e he).nodup
    rw [Sheet.value?, hgives.rows, Attribute.value_find?_give hnames]
  obtain ⟨new, rfl, rfl⟩ : ∃ new, verified = some new ∧ policy.normalization.apply new = s := by
    rw [value?_of_sheet? hupdates.self, hvalue] at hs
    exact Option.map_eq_some_iff.1 (Except.ok.inj hs)
  have hagain : q.verify x (policy.normalization.apply new) policy.verifier =
      .ok (some (policy.normalization.apply new)) :=
    (verify_congr hupdates.site (Policy.verifier_ne hk hpolicy)).trans
      (verify_again hpolicy hk hverified (hstands policy hpolicy))
  have hset' := (p.owned_sheetOf x e).set_again hpolicy hverified ht hagain
  obtain ⟨d, hd, rfl⟩ := Option.map_eq_some_iff.1 hupdates.self
  have hkind : d.kind = e.kind := Sheet.kind_of_set hpolicy hverified ht
  refine ⟨fun policy' hp' => ?_, ?_⟩
  · rw [policy_eq_get hd, hkind, Policy.get_eq_ok_iff] at hp'
    exact Option.some.inj (hpolicy.symm.trans hp') ▸ hagain
  · obtain ⟨whole', hm'⟩ := hq.exists_mirrored
    have hends : Edit.FollowsSheet (Edit.setAttribute x name (policy.normalization.apply new)) q x _ :=
      Edit.followsSheet_setAttribute hupdates.synced hm' hd (hkind ▸ hk)
    rw [hset'] at hends
    cases hrun : Edit.setAttribute x name (policy.normalization.apply new) q with
    | error err r => cases (hends.of_error hrun).2
    | ok previous r =>
      obtain ⟨t, ht, hr⟩ := hends.of_ok hrun
      obtain ⟨rfl, rfl⟩ := Prod.mk.inj (Except.ok.inj ht)
      obtain ⟨source, hw⟩ := hq.exists_worded
      obtain ⟨source', hw'⟩ := (hq.of_setAttribute hrun).exists_worded
      obtain ⟨hsource, houtline⟩ := texts_congr hr.synced hw' hupdates.synced hw (hr.sheet?_eq hupdates.self)
      refine ⟨r, rfl, ?_, hsource, houtline⟩
      rw [value?_of_sheet? hr.self, ← value?_of_sheet? hupdates.self]
      exact hs

theorem stands_of_verify {policy : Policy} {new : String} (hp : Policy.find? k name = some policy)
    (hverify : p.verify x value policy.verifier = .ok (some new)) (hwords : p.site.NamesAreWords)
    (hpath : policy.verifier = .pagePath → (policy.normalization.apply new).toList.getLast? ≠ some '/') :
    p.site.Stands (policy.normalization.apply new) policy.verifier := by
  have hnormalization := Policy.normalization_of_find? hp
  cases hv : policy.verifier with
  | pagePath => exact hpath hv
  | linkTarget =>
    rw [hnormalization (by simp [hv])]
    rw [hv] at hverify
    exact hwords.leadsToPage ((Site.vouches_ledToPage p.site).stored (checkLinkTarget_of_verify hverify))
  | _ => trivial

/-- On a site that names its namespaces by single words, what is stored of a value stands, but for a path that is
left with a slash at its end. -/
theorem Reached.stands [Entities] (h : p.Reached site) (hwords : site.NamesAreWords) (hx : p.kind x = .ok k)
    (hset : Edit.setAttribute x name value p = .ok old q) (hs : q.value? x name = .ok (some s))
    {policy : Policy}
    (hp : Policy.find? k name = some policy)
    (hpath : policy.verifier = .pagePath → s.toList.getLast? ≠ some '/') : site.Stands s policy.verifier := by
  have hsite : p.site = site := h.orderly.site_eq
  obtain ⟨_, ⟨policy', verified, hp', hverify, -, rfl⟩, hsets⟩ := (h.accepts_of_setAttribute hx hset)
  obtain rfl := Option.some.inj (hp.symm.trans hp')
  obtain ⟨new, rfl, rfl⟩ : ∃ new, verified = some new ∧ policy.normalization.apply new = s :=
    Option.map_eq_some_iff.1 (Except.ok.inj (hsets.after.symm.trans hs))
  rw [← hsite] at hwords ⊢
  exact stands_of_verify hp hverify hwords hpath

/-- On a page that is reached, what is stored of a value for an attribute of an element is stored again if it
stands, and then nothing changes. -/
theorem Reached.storesAgain [Entities] (h : p.Reached site) (hx : p.kind x = .ok k)
    (hset : Edit.setAttribute x name value p = .ok old q) (hs : q.value? x name = .ok (some s))
    (hstands : ∀ policy, Policy.find? k name = some policy → site.Stands s policy.verifier) :
    q.StoresAgain x name s := by
  obtain ⟨e, he, rfl⟩ := find?_of_kind hx
  have hsite : p.site = site := h.orderly.site_eq
  rw [← hsite] at hstands
  by_cases hk : e.kind = .category
  · have hc : p.IsCategory x := ⟨e.backing, by rw [form?_of_find? he, hk]⟩
    exact storesAgain_of_isCategory h.orderly.recorded h.inOrder hc (h.of_setAttribute hset).orderly.recorded
      hset hs
  · exact storesAgain_of_ne_category h he hk hset hs hstands

theorem setAttribute_eq_ok {a : Option String}
    (h : ((Edit.setAttribute x name value).outcome p).1 = .ok a) :
    Edit.setAttribute x name value p = .ok a ((Act.setAttribute x name value).after p) := by
  have hafter : (Act.setAttribute x name value).after p = ((Edit.setAttribute x name value).outcome p).2 :=
    Act.after_eq_outcome rfl p
  rw [hafter]
  unfold Edit.outcome at h ⊢
  cases hrun : Edit.setAttribute x name value p with
  | ok old q =>
    rw [hrun] at h
    exact congrArg (EStateM.Result.ok · q) (Except.ok.inj h)
  | error err q =>
    rw [hrun] at h
    cases h

/-- A page that has got a path. -/
def withPath (path : String) : Page :=
  Act.run [.setAttribute root "path" path] (ofDrafts .new .default "Test" [])

/-- The slash at the end of a path and the blanks around it are not stored. -/
theorem storesAgain_withPath : (ofDrafts .new .default "Test" []).Reached .default ∧
    (ofDrafts .new .default "Test" []).kind root = .ok .page ∧
    Edit.setAttribute root "path" " a/b/ " (ofDrafts .new .default "Test" []) = .ok none (withPath " a/b/ ") ∧
    (withPath " a/b/ ").value? root "path" = .ok (some "a/b") ∧
    (withPath " a/b/ ").StoresAgain root "path" "a/b" := by
  have hnew : Page.new .default "Test" = .ok (ofDrafts .new .default "Test" []) := rfl
  have h : (ofDrafts .new .default "Test" []).Reached .default := .new hnew
  have hkind : (ofDrafts .new .default "Test" []).kind root = .ok .page := rfl
  obtain ⟨hrun, hvalue, hpolicy⟩ :
      ((Edit.setAttribute root "path" " a/b/ ").outcome (ofDrafts .new .default "Test" [])).1 = .ok none ∧
      (withPath " a/b/ ").value? root "path" = .ok (some "a/b") ∧
      (Policy.find? .page "path").map Policy.verifier = some .pagePath := by
    decide +kernel
  have hset := setAttribute_eq_ok hrun
  refine ⟨h, hkind, hset, hvalue, h.storesAgain hkind hset hvalue fun policy hp => ?_⟩
  rw [hp] at hpolicy
  rw [Option.some.inj hpolicy]
  exact (by decide : "a/b".toList.getLast? ≠ some '/')

/-- The last slash of a path is dropped before the blanks in front of it are. So another slash may come to stand
at the end, and is dropped when what is stored is stored again. -/
theorem not_storesAgain_withPath : (withPath "a/ /").Reached .default ∧
    Edit.setAttribute root "path" "a/ /" (ofDrafts .new .default "Test" []) = .ok none (withPath "a/ /") ∧
    (withPath "a/ /").value? root "path" = .ok (some "a/") ∧
    ¬(withPath "a/ /").StoresAgain root "path" "a/" := by
  have hnew : Page.new .default "Test" = .ok (ofDrafts .new .default "Test" []) := rfl
  obtain ⟨hrun, hvalue, hagain⟩ :
      ((Edit.setAttribute root "path" "a/ /").outcome (ofDrafts .new .default "Test" [])).1 = .ok none ∧
      (withPath "a/ /").value? root "path" = .ok (some "a/") ∧
      ((Act.setAttribute root "path" "a/").after (withPath "a/ /")).value? root "path" = .ok (some "a") := by
    decide +kernel
  refine ⟨.run (.new hnew) rfl, setAttribute_eq_ok hrun, hvalue, fun h => ?_⟩
  obtain ⟨q, hset, hq, -⟩ := h.stored
  have hafter : (Act.setAttribute root "path" "a/").after (withPath "a/ /") = q := by
    have houtcome : (Act.setAttribute root "path" "a/").after (withPath "a/ /") =
        ((Edit.setAttribute root "path" "a/").outcome (withPath "a/ /")).2 :=
      Act.after_eq_outcome rfl _
    rw [houtcome, Edit.outcome, hset]
  rw [hafter] at hagain
  exact absurd (hagain.symm.trans hq) (by simp)

end Page
end WikiPage
