import WikiPage.Proofs.Building
import WikiPage.Proofs.Stored
import WikiPage.Proofs.Upkeep

/-!
# Pages as they begin

A page that is new, or has been read, has its records in agreement from the start. The links that were
found on it are put on record one after the other.
-/

namespace WikiPage
namespace Page

variable {p : Page} {a : Arena} {site : Site} {title : String} {drafts : List Draft} {x : ElementId}
  {n : NodeId}

/-- A page over a site with all on record that has to be. -/
structure Orderly (site : Site) (p : Page) : Prop where
  recorded : p.Recorded
  site_eq : p.site = site
  indexed : site.NamesCategories → p.Indexed

theorem Orderly.leads {q : Page} (h : p.Orderly site) (hq : p.Leads q) : q.Orderly site where
  recorded := hq.recorded
  site_eq := hq.site.trans h.site_eq
  indexed hs := hq.indexed (h.site_eq.symm ▸ hs) (h.indexed hs)

theorem nameOf?_eq_none (hx : ¬p.IsCategory x) : p.nameOf? x = none := by
  cases he : p.find? x with
  | none => simp [nameOf?, he]
  | some e =>
    have hk : e.kind ≠ .category := fun hk => hx ⟨e.backing, by rw [form?_of_find? he, hk]⟩
    simp [nameOf?, he, hk]

theorem orderly_ofDrafts (h : Drafted a site drafts) : (ofDrafts a site title drafts).Orderly site where
  recorded :=
    { synced_ofDrafts h with
      placed := fun x l hl => by
        rw [linksOf_ofDrafts h] at hl
        cases hl
      links_nodup := fun x => by
        rw [linksOf_ofDrafts h]
        exact .nil
      owner_iff := fun {n x} => by
        rw [linksOf_ofDrafts h]
        exact iff_of_false (Option.some_ne_none _).symm List.not_mem_nil
      isCategory := fun hx => absurd (linksOf_ofDrafts h) hx
      named := fun hx => absurd hx (not_isCategory_ofDrafts h)
      normal := fun {x s} hs => by
        rw [nameOf?_eq_none (not_isCategory_ofDrafts h)] at hs
        cases hs }
  site_eq := rfl
  indexed _ :=
    { index_iff := fun {k x} => by
        rw [key?, nameOf?_eq_none (not_isCategory_ofDrafts h)]
        exact iff_of_false (Option.some_ne_none _).symm fun hx => (Option.some_ne_none _).symm hx.2
      attached_iff := fun hx => absurd hx (not_isCategory_ofDrafts h)
      keyed := fun {x l c} hl => by
        rw [linksOf_ofDrafts h] at hl
        cases hl
      plain := fun {x s} hs => by
        rw [nameOf?_eq_none (not_isCategory_ofDrafts h)] at hs
        cases hs
      front := ⟨[], rfl⟩ }

/-- No element is written as a link to a category. -/
theorem isFreeLink_ofDrafts (h : Drafted a site drafts) (hn : (a.categoryOf? site n).isSome) :
    (ofDrafts a site title drafts).IsFreeLink n := by
  obtain ⟨name, hname⟩ := Option.isSome_iff_exists.1 hn
  obtain ⟨target, ht, -⟩ := Option.bind_eq_some_iff.1 hname
  obtain ⟨m, hm, hp⟩ := Option.bind_eq_some_iff.1 ht
  have hlink : Kind.link.marks m.payload = true := by
    cases hpay : m.payload <;> simp_all [Kind.marks]
  have hother {k : Kind} (hk : k ≠ .link) : ¬a.Writes k (some (.markup n)) := by
    rintro ⟨m', hm', hmarks⟩
    obtain rfl := Option.some.inj (hm.symm.trans hm')
    cases hpay : m.payload <;> simp_all [Kind.marks]
  refine ⟨⟨m, hm, hlink⟩, fun x hx => ?_⟩
  obtain ⟨f, hf, hb⟩ := Option.bind_eq_some_iff.1 hx
  obtain ⟨k, o⟩ := f
  have hs : (ofDrafts a site title drafts).Synced := synced_ofDrafts h
  have hw : a.Writes k o := hs.writes hf
  rcases form_cases h hf with ⟨-, rfl, rfl⟩ | ⟨-, rfl, rfl⟩ | ⟨backing, _, _, rfl, hfits, -⟩
  · obtain rfl := Option.some.inj hb
    exact hother (by decide) hw
  · obtain rfl := Option.some.inj hb
    exact hother (by decide) hw
  · obtain rfl := Option.some.inj hb
    cases hfits with
    | node _ _ hlink =>
      cases hname.symm.trans (Findings.categoryOf?_eq_none hlink)

theorem ends_registerAll {links : List FoundLink} {I : List FoundLink → Page → Prop} (h : p.Recorded)
    (hnone : ∀ n, ¬p.Linked n) (hlinks : (links.map fun l => l.placed.link).Nodup)
    (hfree : ∀ l ∈ links, p.IsFreeLink l.placed.link)
    (hplaced : ∀ l ∈ links, l.placed.link ∈ p.arena.kids l.placed.container)
    (hnamed : ∀ l ∈ links, p.arena.categoryOf? p.site l.placed.link = some l.name)
    (hI : Edit.KeptByRegistering I) (hp : I [] p) :
    Ends (registerAll links) p
      (fun _ q => p.Registers (links.map fun l => l.placed.link) q ∧ I links q) fun _ _ => False := by
  refine Ends.forM (I := fun (done : List FoundLink) q =>
    p.Registers (done.map fun l => l.placed.link) q ∧ I done q) (fun done l rest q hsplit hq => ?_)
    ⟨.nil h, hp⟩
  obtain ⟨hq, hIq⟩ := hq
  have hl : l ∈ links := hsplit ▸ by simp
  have hnew : ¬q.Linked l.placed.link := fun hn => by
    rcases hq.linked_iff.1 hn with hn | hn
    · exact hnone _ hn
    · rw [hsplit, List.map_append, List.map_cons, List.nodup_append'] at hlinks
      exact hlinks.2.2 hn List.mem_cons_self
  have hname : q.arena.categoryOf? q.site l.placed.link = some l.name := by
    rw [hq.arena, hq.site]
    exact hnamed l hl
  obtain ⟨target, -, hc⟩ := Option.bind_eq_some_iff.1 hname
  have hf := hq.free (hfree l hl)
  have hreg := Edit.registers_registerLink hq.recorded hf hnew (hq.arena ▸ hplaced l hl) hname
    (Site.hash_not_mem_of_categoryOf? hc)
  refine (hreg.and (hI hq.recorded hf hname hIq)).mono (fun _ r hr => ⟨?_, hr.2⟩) fun _ _ hf => hf.1
  rw [List.map_append]
  exact hq.trans hr.1

/-- A page in order, as it begins. The links of categories on record are part of it, those of each category in
the order of the page, and none stands in another unless tags are kept as they stand. -/
structure Begun (site : Site) (preserve : Bool) (p : Page) : Prop extends Orderly site p where
  part : ∀ {n}, p.Linked n → Reaches p.arena.kids Arena.root n
  apart : preserve = false → ∀ {m n}, p.Linked m → p.Linked n → Reaches p.arena.kids m n → m = n
  mirrored : p.Mirrored p.arena.NamesOnce
  inOrder : p.InOrder

/-- The links of each category are among those that have been found, in the same order. -/
def Lists (p : Page) (done : List FoundLink) : Prop :=
  ∀ x, ((p.linksOf x).map PlacedLink.link).Sublist (done.map fun l => l.placed.link)

theorem lists_ofDrafts (h : Drafted a site drafts) : (ofDrafts a site title drafts).Lists [] := fun x => by
  rw [linksOf_ofDrafts h]
  exact List.Sublist.refl _

theorem keptByRegistering_lists : Edit.KeptByRegistering fun done p => p.Lists done := by
  intro p done l h _ _ hp
  have last {q : Page} (id : ElementId)
      (hq : ∀ x, q.linksOf x = if x = id then p.linksOf id ++ [l.placed] else p.linksOf x) :
      q.Lists (done ++ [l]) := fun x => by
    rw [hq, List.map_append]
    split
    · rw [List.map_append]
      exact (hp id).append (List.Sublist.refl _)
    · exact (hp x).trans (List.sublist_append_left _ _)
  refine (Edit.ends_registerLink h.toSynced).mono (fun _ q hq => ?_) fun _ _ hf => hf
  rcases hq with ⟨id, hid, rfl⟩ | ⟨-, rfl⟩
  · refine last id fun x => ?_
    rw [Recorded.linksOf_renamed, linksOf_addLink (IsCategory.find?_ne_none (h.indexed hid))]
  · have hc : (p.push (newCategory l.name)).IsCategory p.next := Edit.isCategory_pushCategory
    refine last p.next fun x => ?_
    rw [linksOf_attached hc.find?_ne_none ((h.pushCategory _).ne_root_of_isCategory hc), linksOf_pushCategory]

theorem attaches_ofDrafts (h : Drafted a site drafts) : (ofDrafts a site title drafts).Attaches where
  indexed hx := by
    change (Index.empty : Index String ElementId).find? _ = _ at hx
    cases hx
  linked hx := absurd (linksOf_ofDrafts h) hx

theorem drafted_of_findings {preserve : Bool} {found : Findings} (ha : a.Sound)
    (hr : a.Loose Arena.root) (hf : a.findings site preserve = .ok found) :
    Drafted a site found.drafts :=
  have hfound := ha.found hf
  ⟨ha, hr, hfound.fits, hfound.kept, hfound.nodes⟩

theorem ends_registerFound {preserve : Bool} {found : Findings} {I : List FoundLink → Page → Prop}
    (ha : a.Sound)
    (hr : a.Loose Arena.root) (hf : a.findings site preserve = .ok found) (title : String)
    (hI : Edit.KeptByRegistering I) (hd : I [] (ofDrafts a site title found.drafts)) :
    Ends (registerAll found.links) (ofDrafts a site title found.drafts)
      (fun _ q => (ofDrafts a site title found.drafts).Registers
        (found.links.map fun l => l.placed.link) q ∧ I found.links q) fun _ _ => False := by
  have hfound := ha.found hf
  have hdraft := drafted_of_findings ha hr hf
  have hlt := ha.closed Arena.root a.content ha.content_mem
  obtain ⟨m, hm⟩ := Arena.exists_of_index_lt hlt
  have hnodup := ha.nodup_preorder hlt
  rw [ha.preorder_tree hm, List.nodup_cons] at hnodup
  exact ends_registerAll (orderly_ofDrafts hdraft).recorded (fun _ => not_linked_ofDrafts hdraft)
    (hfound.links.nodup hnodup.2)
    (fun l hl => isFreeLink_ofDrafts hdraft (by simp [hfound.named l hl]))
    hfound.placed hfound.named hI hd

/-- The page over an arena is what its content is drafted as, with the links that were found. -/
theorem exists_of_ofArena {preserve : Bool} {I : List FoundLink → Page → Prop} (ha : a.Sound)
    (hr : a.Loose Arena.root) (h : ofArena a site title preserve = .ok p) (hI : Edit.KeptByRegistering I)
    (hd : ∀ t found, a.findings site preserve = .ok found → I [] (ofDrafts a site t found.drafts)) :
    ∃ t found, a.findings site preserve = .ok found ∧ Drafted a site found.drafts ∧
      (ofDrafts a site t found.drafts).Registers (found.links.map fun l => l.placed.link) p ∧
      I found.links p := by
  obtain ⟨t, -, h⟩ := Except.exists_of_bind h
  obtain ⟨found, hf, h⟩ := Except.exists_of_bind h
  obtain ⟨_, hok⟩ := Edit.exists_of_exec h
  exact ⟨t, found, hf, drafted_of_findings ha hr hf,
    (ends_registerFound ha hr hf _ hI (hd t found hf)).of_ok hok⟩

theorem arena_of_ofArena {preserve : Bool} (ha : a.Sound) (hr : a.Loose Arena.root)
    (h : ofArena a site title preserve = .ok p) : p.arena = a := by
  obtain ⟨_, _, -, -, hp, -⟩ := exists_of_ofArena ha hr h Edit.keptByRegistering_true
    fun _ _ _ => trivial
  exact hp.arena

theorem begun_ofArena {preserve : Bool} (ha : a.Sound) (hr : a.Loose Arena.root)
    (h : ofArena a site title preserve = .ok p) : p.Begun site preserve := by
  obtain ⟨t, found, hf, hd, hp, hlists⟩ := exists_of_ofArena ha hr h keptByRegistering_lists
    fun _ _ hf => lists_ofDrafts (drafted_of_findings ha hr hf)
  have hfound := ha.found hf
  have ho : (ofDrafts a site t found.drafts).Orderly site := orderly_ofDrafts hd
  have hlt := ha.closed Arena.root a.content ha.content_mem
  obtain ⟨m, hm⟩ := Arena.exists_of_index_lt hlt
  have hlinked {n : NodeId} (hn : p.Linked n) : ∃ l ∈ found.links, l.placed.link = n :=
    List.mem_map.1 ((hp.linked_iff.1 hn).resolve_left (not_linked_ofDrafts hd))
  refine ⟨ho.leads hp.toLeads, fun {n} hn => ?_, fun hpre {m n} hm hn hmn => ?_,
    hp.arena ▸ hp.mirrored (mirrored_ofDrafts hd), fun x => ?_⟩
  · obtain ⟨l, hl, rfl⟩ := hlinked hn
    rw [hp.arena]
    refine .head ha.content_mem (ha.mem_preorder_iff.1 ?_)
    rw [ha.preorder_tree hm]
    exact List.mem_cons_of_mem _ (hfound.links.subset (List.mem_map_of_mem hl))
  · obtain ⟨k, hk, rfl⟩ := hlinked hm
    obtain ⟨l, hl, rfl⟩ := hlinked hn
    obtain ⟨y, hy, hyl⟩ := hfound.plain hpre l hl
    obtain ⟨c, g, hroot⟩ := ha.page
    have hk : a.categoryOf? site k.placed.link ≠ none := by simp [hfound.named k hk]
    rw [hp.arena] at hmn
    refine ha.eq_of_reaches_plainKids hr ?_ hmn hk
    refine (ha.reaches_plainKids hroot (List.mem_singleton_self (c, Role.content)) ?_ ?_).trans hyl
    · rw [Arena.categoryOf?, Arena.target?, hroot]
      rfl
    · rwa [← Arena.content_eq hroot]
  · have hpairwise := ha.pairwise_preorder hlt
    rw [ha.preorder_tree hm, List.pairwise_cons] at hpairwise
    rw [hp.arena]
    exact hpairwise.2.sublist ((hlists x).trans hfound.links)

theorem drafted_new (site : Site) : Drafted .new site [] :=
  ⟨Arena.sound_new, Arena.loose_root_new, by simp, by simp, by simp [Draft.nodesOf]⟩

theorem begun_new (h : new site title = .ok p) (preserve : Bool) : p.Begun site preserve := by
  obtain ⟨t, -, h⟩ := Except.exists_of_bind h
  obtain rfl := Except.ok.inj h
  have hd := drafted_new site
  exact ⟨orderly_ofDrafts hd, fun hn => absurd hn (not_linked_ofDrafts hd),
    fun _ _ _ hm => absurd hm (not_linked_ofDrafts hd), mirrored_ofDrafts hd,
    fun x => by rw [linksOf_ofDrafts hd]; exact .nil⟩

theorem begun_read [Entities] {text : String} {preserve : Bool} (h : read text site title preserve = .ok p) :
    p.Begun site preserve :=
  begun_ofArena (Arena.sound_read text) (Arena.loose_root_read text) h

end Page
end WikiPage
