import WikiPage.EntityTable
import WikiPage.Proofs.Readable
import WikiPage.Proofs.Removal
import WikiPage.Proofs.Renaming
import WikiPage.Proofs.Tight

/-!
# Categories that last

A page whose text is tight can be put into categories and taken out of them, and it is in the same ones when
it is saved and read again. On other pages a link that is put at the end may run into what stands there.
-/

namespace WikiPage

namespace Arena

variable {a b : Arena} {x y n : NodeId} {l : Landmark} {site : Site}

/-- A page with tight content. -/
structure IsTight (a : Arena) : Prop where
  page : a.find? root = some ⟨.page a.content, none⟩
  content : a.Tight a.content

theorem isTitledPlainly_of_landmark? (h : a.landmark? x = some l) : l.isTitledPlainly = true := by
  obtain ⟨m, -, hl⟩ := Option.bind_eq_some_iff.1 h
  cases hp : m.payload <;> simp [hp, Payload.landmark?] at hl <;> subst hl <;> rfl

theorem Charts.isPlainlyTitled {text : String} {ls : List Landmark} (h : a.Charts x text ls) :
    Inline.IsPlainlyTitled text.toList := by
  intro l hl
  rw [h.yields.landmarks_eq, h.mem] at hl
  obtain ⟨y, -, hy⟩ := hl
  exact isTitledPlainly_of_landmark? hy

/-- A page whose content is tight says the same when it is read again. -/
theorem Charts.hasLandmark_read_iff [Entities] {text : String} {ls : List Landmark} (h : a.Charts x text ls)
    (l : Landmark) : (read text).HasLandmark (read text).content l ↔ a.HasLandmark x l := by
  rw [Arena.hasLandmark_read_iff h.isPlainlyTitled, h.yields.landmarks_eq, h.mem]

theorem Sound.reaches_content (h : a.Sound) (hr : Reaches a.kids root x) (hx : x ≠ root) :
    Reaches a.kids a.content x := by
  obtain ⟨g, hpage⟩ := h.find?_page
  rcases Reaches.head_iff.1 hr with rfl | ⟨y, hy, hr⟩
  · exact absurd rfl hx
  · rw [kids_of_find? hpage] at hy
    obtain rfl := List.mem_singleton.1 hy
    exact hr

theorem isTight_read [Entities] {text : String} (h : Text.isTight text.toList = true) : (read text).IsTight where
  page := by rw [content_read, find?_read_root]
  content := tight_read h

theorem isFlat_of_isTight [Entities] {text : String} (h : Text.isTight text.toList = true) : (read text).IsFlat := by
  obtain ⟨text', ls, hcharts⟩ := (tight_read h).exists_charts (sound_read text)
  have hprint := hcharts.print
  rw [content_read, print_content_read] at hprint
  obtain rfl := Except.ok.inj hprint
  exact isFlat_read hcharts.isPlainlyTitled

/-- Lists have lost items or been given tight ones, and links lead elsewhere; nothing else has changed. -/
structure Rearranges (a b : Arena) : Prop where
  lists : ∀ {x items}, a.find? x = some ⟨.list items, none⟩ →
    ∃ items', b.find? x = some ⟨.list items', none⟩ ∧ ∀ y ∈ items', y ∈ items ∨ b.Tight y
  nodes : ∀ {x n}, a.find? x = some n → n.payload.isList = false → b.find? x = some n ∨
    ∃ old title g target titled, n = ⟨.link old title, g⟩ ∧
      b.find? x = some ⟨.link target title, some (Glue.link target titled)⟩ ∧
      Block.IsPlainTarget target.toList ∧ (titled = false → a.kids title = [])
  agrees : a.AgreesBut b fun y => y = a.content ∨ ∃ l, a.HasLandmark y l

namespace Rearranges

/-- What has no landmarks in it and is not around the content of the page is printed as before. -/
theorem print_eq (h : a.Rearranges b) (ha : a.Sound) (hb : b.Founded) (hr : a.Loose root)
    (hx : x ∈ a.kids y) (hy : y ≠ root) (hn : ∀ l, ¬a.HasLandmark x l) : b.print x = a.print x := by
  refine h.agrees.print_eq ha.founded hb (ha.closed y x hx) fun z hz hxz => ?_
  rcases hz with rfl | ⟨l, z', hzz', hl⟩
  · -- above the content there is the page only
    rcases Relation.ReflTransGen.cases_tail hxz with rfl | ⟨w, hxw, hw⟩
    · exact hy (ha.single hx ha.content_mem)
    · obtain rfl := ha.single hw ha.content_mem
      rcases Reaches.eq_or_mem hxw with rfl | ⟨v, hv⟩
      · exact hr y hx
      · exact hr v hv
  · exact hn l ⟨z', hxz.trans hzz', hl⟩

theorem tight (h : a.Rearranges b) (ha : a.Sound) (hb : b.Sound) (hr : a.Loose root) (hx : a.Tight x) :
    b.Tight x := by
  obtain ⟨page, g, hpage⟩ := ha.page
  have ne_root {x : NodeId} {n : Node} (hn : a.find? x = some n) (hp : n.payload ≠ .page page) : x ≠ root := by
    rintro rfl
    exact hp (congrArg Node.payload (Option.some.inj (hn.symm.trans hpage)))
  induction hx with
  | @leaf x n text hn hl hc hp hy =>
    rcases h.nodes hn hl with hbn | ⟨old, title, g, target, titled, rfl, -⟩
    · refine .leaf hbn hl hc ?_ hy
      rw [ha.founded.print_eq hn, hc] at hp
      rw [hb.founded.print_eq hbn, hc]
      exact hp
    · cases hc
  | list hn _ ih =>
    obtain ⟨items', hbn, hall⟩ := h.lists hn
    exact .list hbn fun y hy => (hall y hy).elim (ih y) id
  | around hn hk hb hy _ ih =>
    rcases h.nodes hn (by rcases hk with rfl | ⟨style, rfl⟩ <;> rfl) with hbn |
      ⟨old, title, g, target, titled, he, -⟩
    · exact .around hbn hk hb hy ih
    · obtain ⟨rfl, -⟩ := Node.mk.inj he
      rcases hk with hk | ⟨style, hk⟩ <;> cases hk
  | @element x attributes content name opening ending closing inside empty hn hp ho hy _ ih =>
    rcases h.nodes hn rfl with hbn | ⟨old, title, g, target, titled, he, -⟩
    · refine .element hbn ?_ ho hy ih
      have hne : x ≠ root := ne_root hn fun hp => by cases hp
      rw [h.print_eq ha hb.founded hr (y := x) (by simp [kids_of_find? hn, Payload.children]) hne, hp]
      exact fun l => ha.not_hasLandmark_of_attributes ((ha.fits hn).lists (attributes, .attributes) List.mem_cons_self)
    · cases he
  | @link x title target inside titled hn ht hp hi he htitle ih =>
    obtain ⟨text, ls, hcharts⟩ := htitle.exists_charts ha
    obtain rfl := Except.ok.inj (hp.symm.trans hcharts.print)
    have hne : x ≠ root := ne_root hn fun hp => by cases hp
    have hprint : b.print title = .ok inside := by
      rw [h.print_eq ha hb.founded hr (y := x) (by simp [kids_of_find? hn, Payload.children]) hne, hp]
      exact fun l => Tight.not_hasLandmark_of_isPlain hcharts hi
    rcases h.nodes hn rfl with hbn | ⟨old, title', g, target', titled', heq, hbn, htarget, hempty⟩
    · exact .link hbn ht hprint hi he ih
    · obtain ⟨⟨rfl, rfl⟩, -⟩ := by simpa using heq
      refine .link hbn htarget hprint hi (fun hf => ?_) ih
      obtain ⟨items, hlist⟩ := ha.find?_slot hn (s := (title, .content)) (List.mem_singleton_self _)
      obtain rfl : items = [] := (kids_of_find? hlist).symm.trans (hempty hf)
      rw [ha.founded.print_list hlist] at hp
      exact (Except.ok.inj hp).symm

theorem isTight (h : a.Rearranges b) (ha : a.Sound) (hb : b.Sound) (hr : a.Loose root) (ht : a.IsTight) :
    b.IsTight := by
  have hpage : b.find? root = some ⟨.page a.content, none⟩ := by
    rcases h.nodes ht.page rfl with hbn | ⟨old, title, g, target, titled, he, -⟩
    · exact hbn
    · cases he
  refine ⟨by rw [content_eq hpage, hpage], ?_⟩
  rw [content_eq hpage]
  exact h.tight ha hb hr ht.content

end Rearranges

end Arena

/-- A landmark that is a link to a category of a name. -/
def Landmark.Names (site : Site) (name : String) : Landmark → Prop
  | link target _ => ∃ c, site.categoryOf? (String.ofList target) = some c ∧ categoryKey c = categoryKey name
  | tag _ => False

namespace Arena

variable {a b : Arena} {x y n : NodeId} {l : Landmark} {site : Site} {name : String}

theorem exists_names_iff : (∃ l, a.HasLandmark x l ∧ l.Names site name) ↔
    ∃ n, Reaches a.kids x n ∧ ∃ c, a.categoryOf? site n = some c ∧ categoryKey c = categoryKey name := by
  constructor
  · rintro ⟨l, ⟨n, hr, hl⟩, hnames⟩
    obtain ⟨⟨p, g⟩, hn, hp⟩ := Option.bind_eq_some_iff.1 hl
    cases p with
    | link target title =>
      obtain rfl := Option.some.inj hp
      obtain ⟨c, hc, hkey⟩ := hnames
      rw [String.ofList_toList] at hc
      exact ⟨n, hr, c, (categoryOf?_of_target? (target?_of_find? hn rfl)).trans hc, hkey⟩
    | element =>
      obtain rfl := Option.some.inj hp
      exact hnames.elim
    | _ => cases hp
  · rintro ⟨n, hr, c, hc, hkey⟩
    obtain ⟨target, htarget, hc⟩ := Option.bind_eq_some_iff.1 hc
    exact ⟨_, ⟨n, hr, landmark?_of_target? htarget⟩, c, by rwa [String.ofList_toList], hkey⟩

/-- Where no link has landmarks in its title, every link to a category counts. -/
theorem IsFlat.counts_iff (h : a.IsFlat) :
    a.Counts site x n ↔ (a.categoryOf? site n).isSome = true ∧ Reaches a.kids x n := by
  refine and_congr_right fun hn => ⟨Reads.reaches, fun hr => ?_⟩
  obtain ⟨c, hc⟩ := Option.isSome_iff_exists.1 hn
  obtain ⟨target, htarget, -⟩ := Option.bind_eq_some_iff.1 hc
  induction hr using Relation.ReflTransGen.head_induction_on with
  | refl => exact .refl n
  | @head x y hy hr ih =>
    by_cases hx : a.IsPassedOver site x
    · obtain ⟨t, ht, -⟩ := hx
      obtain rfl := h.eq_of_reaches ht (hr.head hy) (landmark?_of_target? htarget)
      exact .refl x
    · exact .head hx hy ih

/-- The links to categories are those on record. -/
structure Files (a : Arena) (site : Site) (linked : NodeId → Prop) : Prop where
  named : ∀ {n}, linked n → (a.categoryOf? site n).isSome = true
  counted : ∀ {n}, Reaches a.kids a.content n → (a.categoryOf? site n).isSome = true → linked n

end Arena

namespace Page

variable {p q : Page} {site : Site} {title name text : String} {preserve : Bool} {n : NodeId}

theorem Rooted.reaches_content (h : p.IsRooted) (hp : p.Synced) (hn : p.Linked n) :
    Reaches p.arena.kids p.arena.content n :=
  hp.sound.reaches_content (h.linked_part hn) (hp.linked_ne_root hn)

theorem hasCategory_iff_of_files (h : p.arena.Files p.site p.Linked) (hp : p.Recorded) (hi : p.Indexed)
    (hroot : p.IsRooted) :
    p.hasCategory name = true ↔ ∃ l, p.arena.HasLandmark p.arena.content l ∧ l.Names p.site name := by
  have hindex (x : ElementId) : p.category? name = some x ↔
      p.parentOf x = some root ∧ p.key? x = some (categoryKey name) := hi.index_iff
  rw [Arena.exists_names_iff]
  constructor
  · intro hname
    obtain ⟨x, hx⟩ := Option.isSome_iff_exists.1 hname
    obtain ⟨hparent, hkey⟩ := (hindex x).1 hx
    obtain ⟨l, hl⟩ := List.exists_mem_of_ne_nil _ ((hi.attached_iff (hp.indexed hx)).1 hparent)
    have hlinked : p.Linked l.link := linked_of_mem hl
    obtain ⟨c, hc⟩ := Option.isSome_iff_exists.1 (h.named hlinked)
    exact ⟨l.link, hroot.reaches_content hp.toSynced hlinked, c, hc,
      Option.some.inj ((hi.keyed hl hc).symm.trans hkey)⟩
  · rintro ⟨n, hr, c, hc, hkey⟩
    obtain ⟨x, hx⟩ := linked_iff.1 (h.counted hr (by rw [hc]; rfl))
    obtain ⟨l, hl, rfl⟩ := List.mem_map.1 hx
    have hne := List.ne_nil_of_mem hl
    rw [hasCategory, (hindex x).2 ⟨(hi.attached_iff (hp.isCategory hne)).2 hne, hkey ▸ hi.keyed hl hc⟩]
    rfl

section

variable [Entities] (h : read text site title preserve = .ok p) (hf : (Arena.read text).IsFlat)
include h hf

theorem files_read : p.arena.Files p.site p.Linked := by
  rw [← arena_read h] at hf
  rw [(begun_read h).toOrderly.site_eq]
  exact
    { named := fun hn => (hf.counts_iff.1 ((linked_read_iff h).1 hn)).1
      counted := fun hr hn => (linked_read_iff h).2 (hf.counts_iff.2 ⟨hn, hr⟩) }

theorem rooted_read : p.IsRooted := by
  have hp := (begun_read h).recorded
  refine (begun_read h).isRooted fun _ => ?_
  intro x y links links' m n below hx hy hm hn hbelow hmem
  obtain ⟨-, rfl⟩ := categoryLinks_eq_ok_iff.1 hx
  obtain ⟨-, rfl⟩ := categoryLinks_eq_ok_iff.1 hy
  obtain ⟨t, ht⟩ := hp.linked_target? (linked_iff.2 ⟨x, hm⟩)
  obtain ⟨u, hu⟩ := hp.linked_target? (linked_iff.2 ⟨y, hn⟩)
  obtain ⟨title, g, hfind⟩ := Arena.target?_eq_some_iff.1 ht
  obtain rfl := Except.ok.inj ((hp.sound.descendants_eq hfind).symm.trans hbelow)
  obtain ⟨z, hz, hr⟩ := List.mem_flatMap.1 hmem
  have hr := hp.sound.mem_preorder_iff.1 hr
  rw [← arena_read h] at hf
  obtain rfl := hf.eq_of_reaches ht (hr.head hz) (Arena.landmark?_of_target? hu)
  exact hp.sound.not_reaches hz hr

theorem toLower_mem_knownTags {s : List Char} (hpre : preserve = false)
    (hl : p.arena.HasLandmark p.arena.content (.tag s)) : (String.ofList s).toLower ∈ Arena.knownTags := by
  subst hpre
  rw [arena_read h] at hl
  obtain ⟨n, -, hn⟩ := hl
  by_contra hunknown
  refine (exists_read_iff.1 ⟨p, h⟩).2 rfl n (String.ofList s) ⟨?_, hunknown, fun m hm hr => ?_⟩
  · obtain ⟨⟨p, g⟩, hfind, hp⟩ := Option.bind_eq_some_iff.1 hn
    cases p <;> cases hp
    exact ⟨_, _, _, g, by rw [String.ofList_toList]; exact hfind⟩
  · obtain ⟨t, ht, -⟩ := hm
    obtain rfl := hf.eq_of_reaches ht hr hn
    cases hn.symm.trans (Arena.landmark?_of_target? ht)

end

end Page

/-- A tight page that is in the categories that its links name, and on which no tag would be refused. -/
structure Arena.Durable (a : Arena) (site : Site) (preserve : Bool) (linked : NodeId → Prop) : Prop
    extends a.Files site linked where
  tight : a.IsTight
  known : preserve = false → ∀ {s}, a.HasLandmark a.content (.tag s) →
    (String.ofList s).toLower ∈ Arena.knownTags

namespace Arena

variable {a b : Arena} {x y n : NodeId} {site : Site} {preserve : Bool} {linked linked' : NodeId → Prop}

theorem Rearranges.landmark?_of_tag (h : a.Rearranges b) (ha : a.Sound) (hx : x.index < a.size)
    {s : List Char} (hl : b.landmark? x = some (.tag s)) : a.landmark? x = some (.tag s) := by
  obtain ⟨⟨p, g⟩, hn⟩ := exists_of_index_lt hx
  cases hp : p.isList with
  | false =>
    rcases h.nodes hn hp with hbn | ⟨old, title, g', target, titled, he, hbn, -⟩
    · rwa [landmark?_of_find? hbn, ← landmark?_of_find? hn] at hl
    · rw [landmark?_of_find? hbn] at hl
      cases hl
  | true =>
    cases p with
    | list items =>
      obtain ⟨items', hbn, -⟩ := h.lists (ha.find?_of_list hn)
      rw [landmark?_of_find? hbn] at hl
      cases hl
    | _ => cases hp

/-- A page is durable still if the links on record are right and no tags have come in. -/
theorem Durable.rearrange (h : a.Durable site preserve linked) (hab : a.Rearranges b) (ha : a.Sound)
    (hb : b.Sound) (hr : a.Loose root) (hf : b.Files site linked')
    (ht : ∀ {n s}, Reaches b.kids b.content n → b.landmark? n = some (.tag s) → Reaches a.kids a.content n) :
    b.Durable site preserve linked' where
  toFiles := hf
  tight := hab.isTight ha hb hr h.tight
  known hp s := by
    rintro ⟨n, hn, hl⟩
    have hna := ht hn hl
    have hlt := ha.index_lt_of_reaches hna (ha.closed root _ ha.content_mem)
    exact h.known hp ⟨n, hna, hab.landmark?_of_tag ha hlt hl⟩

end Arena

namespace Page

variable {p q : Page} {site : Site} {preserve : Bool} {x : ElementId} {gone kept : List PlacedLink}

abbrev IsDurable (p : Page) (preserve : Bool) : Prop :=
  p.arena.Durable p.site preserve p.Linked

theorem IsDurable.congr (h : p.IsDurable preserve) (ha : q.arena = p.arena) (hs : q.site = p.site)
    (hl : ∀ n, q.Linked n ↔ p.Linked n) : q.IsDurable preserve := by
  rw [IsDurable, ha, hs, funext fun n => propext (hl n)]
  exact h

theorem Dropped.isDurable (hd : p.Dropped x gone kept q) (h : p.IsDurable preserve) (hp : p.Synced)
    (hx : p.find? x ≠ none) (hall : ∀ l, l ∈ p.linksOf x ↔ l ∈ gone ∨ l ∈ kept) :
    q.IsDurable preserve := by
  have hcontent : q.arena.content = p.arena.content := hd.evolves.content_eq hp.sound
  have hlinks := hd.linksOf hx
  have hcategory (n : NodeId) : q.arena.categoryOf? p.site n = p.arena.categoryOf? p.site n := by
    rw [Arena.categoryOf?, Arena.categoryOf?, hd.target]
  have hkids (c : NodeId) : q.arena.kids c ⊆ p.arena.kids c := by
    rw [hd.kids]
    exact List.filter_subset_self _
  have hreaches {n : NodeId} (hn : Reaches q.arena.kids q.arena.content n) :
      Reaches p.arena.kids p.arena.content n := hcontent ▸ hn.mono hkids
  have hrearranges : p.arena.Rearranges q.arena := by
    refine ⟨fun {c items} hc => ?_, fun hn hl => .inl (hd.nodes hn hl), fun c n hc hn => ?_⟩
    · obtain ⟨g, hq⟩ := hd.evolves.find?_list hc
      refine ⟨_, hd.synced.sound.find?_of_list hq, fun y hy => .inl ?_⟩
      have hy := hkids c hy
      rwa [Arena.kids_of_find? hc] at hy
    · cases hlist : n.payload.isList with
      | false => exact hd.nodes hn hlist
      | true =>
        obtain ⟨payload, g⟩ := n
        cases payload with
        | list items =>
          have hnone := hp.sound.find?_of_list hn
          obtain rfl : none = g := congrArg Node.glue (Option.some.inj (hnone.symm.trans hn))
          have hsame : q.arena.kids c = items := by
            rw [hd.kids, Arena.kids_of_find? hn]
            refine List.filter_eq_self.2 fun m hm => decide_eq_true fun hgone => hc (.inr ?_)
            obtain ⟨l, hl, rfl⟩ := List.mem_map.1 hgone
            obtain ⟨target, ht⟩ := hp.linked_target? (linked_of_mem ((hall l).2 (.inl hl)))
            exact ⟨_, l.link, .single (Arena.kids_of_find? hn ▸ hm), Arena.landmark?_of_target? ht⟩
          obtain ⟨g, hq⟩ : ∃ g, q.arena.find? c = some ⟨.list (q.arena.kids c), g⟩ := hd.evolves.find?_list hn
          rw [hsame] at hq
          exact hd.synced.sound.find?_of_list hq
        | _ => cases hlist
  rw [IsDurable, hd.site]
  refine h.rearrange hrearranges hp.sound hd.synced.sound hp.root_loose ⟨fun {n} hn => ?_, fun {n} hr hn => ?_⟩
    fun hr _ => hreaches hr
  · rw [hcategory]
    refine h.named ?_
    obtain ⟨y, hy⟩ := linked_iff.1 hn
    obtain ⟨l, hl, rfl⟩ := List.mem_map.1 hy
    rw [hlinks] at hl
    split at hl
    · exact linked_of_mem ((hall l).2 (.inr hl))
    · exact linked_of_mem hl
  · rw [hcategory] at hn
    obtain ⟨y, hy⟩ := linked_iff.1 (h.counted (hreaches hr) hn)
    obtain ⟨l, hl, rfl⟩ := List.mem_map.1 hy
    by_cases hyx : y = x
    · subst hyx
      rcases (hall l).1 hl with hgone | hkept
      · obtain ⟨c, hc⟩ : ∃ c, l.link ∈ q.arena.kids c := by
          rcases Reaches.eq_or_mem hr with hr | hr
          · exact ⟨_, hr ▸ hd.synced.sound.content_mem⟩
          · exact hr
        rw [hd.kids, List.mem_filter, decide_eq_true_eq] at hc
        exact absurd (List.mem_map_of_mem hgone) hc.2
      · exact linked_of_mem (x := y) (by rwa [hlinks, if_pos rfl])
    · exact linked_of_mem (x := y) (by rwa [hlinks, if_neg hyx])

end Page

theorem Edit.Relinked.isDurable {p q : Page} {preserve : Bool} {link : NodeId} {target : String}
    (hq : Relinked p link target q) (h : p.IsDurable preserve) (hp : p.Synced) (hl : p.Linked link)
    (ht : Block.IsPlainTarget target.toList) (hc : (p.site.categoryOf? target).isSome = true) :
    q.IsDurable preserve := by
  obtain ⟨old, title, g, hold, hnew⟩ := hq.arena.find?_link
  have hcontent : q.arena.content = p.arena.content := hq.arena.keepsTags.toEvolves.content_eq hp.sound
  have hkids : q.arena.kids = p.arena.kids := hq.arena.alike.kids_eq
  have hlandmark := Arena.landmark?_of_target? (Arena.target?_of_find? hold rfl)
  have hrearranges : p.arena.Rearranges q.arena := by
    refine ⟨fun {x items} hx => ?_, fun {x n} hn hl => ?_, fun x n hx hn => ?_⟩
    · have hne : x ≠ link := by
        rintro rfl
        cases hold.symm.trans hx
      exact ⟨items, (hq.arena.find?_of_ne hne).trans hx, fun _ hy => .inl hy⟩
    · by_cases hx : x = link
      · subst hx
        refine .inr ⟨old, title, g, target, _, Option.some.inj (hn.symm.trans hold), hnew, ht, fun he => ?_⟩
        simpa using he
      · exact .inl ((hq.arena.find?_of_ne hx).trans hn)
    · refine (hq.arena.find?_of_ne ?_).trans hn
      rintro rfl
      exact hx (.inr ⟨_, x, .refl, hlandmark⟩)
  have hlinked (n : NodeId) : q.Linked n ↔ p.Linked n := by
    rw [hq.eq]
    rfl
  have hsite : q.site = p.site := by rw [hq.eq]
  -- the link was one to a category before
  have hnamed (n : NodeId) : (q.arena.categoryOf? p.site n).isSome = true ↔
      n = link ∨ (p.arena.categoryOf? p.site n).isSome = true := by
    rw [Arena.categoryOf?, hq.arena.target]
    by_cases hn : n = link
    · simp [hn, hc]
    · simp [hn, Arena.categoryOf?]
  rw [Page.IsDurable, hsite, funext fun n => propext (hlinked n)]
  refine h.rearrange hrearranges hp.sound hq.synced.sound hp.root_loose
    ⟨fun hn => (hnamed _).2 (.inr (h.named hn)), fun {n} hr hn => ?_⟩ fun hr _ => ?_
  · rw [hkids, hcontent] at hr
    rcases (hnamed n).1 hn with rfl | hn
    · exact hl
    · exact h.counted hr hn
  · rwa [hkids, hcontent] at hr

namespace Page

variable {p q r : Page} {site : Site} {preserve : Bool} {name : String} {l : PlacedLink}

theorem AppendedLink.reaches_old (hl : p.AppendedLink name l r) (h : p.Synced) {m n : NodeId}
    (hr : Reaches r.arena.kids m n) (hn : n.index < p.arena.size) : Reaches p.arena.kids m n := by
  obtain ⟨-, title, a, hmade, rfl⟩ := hl
  exact hmade.reaches_old h hr hn

theorem AppendedLink.find?_new (hl : p.AppendedLink name l r) (h : p.Synced) {n : NodeId}
    (hn : p.arena.size ≤ n.index) (hlt : n.index < r.arena.size) :
    n = l.link ∨ r.arena.find? n = some ⟨.list [], none⟩ := by
  obtain ⟨-, title, a, hmade, rfl⟩ := hl
  have hsize : n.index < a.size := by
    have hset : (LooseLink.attached a p l.link).size = a.size := Arena.size_modify ..
    exact hset ▸ hlt
  rcases hmade.new hn hsize with rfl | rfl
  · refine .inr ((Arena.find?_setItems (hmade.find?_content h) n).trans ((if_neg ?_).trans hmade.find?_title))
    rintro rfl
    exact Nat.not_lt_of_le hn (LooseLink.content_lt h)
  · exact .inl rfl

theorem AppendedLink.target?_old (hl : p.AppendedLink name l r) (h : p.Synced) {n : NodeId}
    (hn : n.index < p.arena.size) : r.arena.target? n = p.arena.target? n := by
  by_cases hnc : n = p.arena.content
  · obtain ⟨items, hitems⟩ := h.find?_container h.body_container
    subst hnc
    rw [Arena.target?, Arena.target?, hl.find?_content h, hitems]
    rfl
  · rw [Arena.target?, Arena.target?, hl.find?_old h hn hnc]

theorem AppendedLink.rearranges (hl : p.AppendedLink name l r) (h : p.Synced)
    (ht : Block.IsPlainTarget (Edit.categoryTarget p name).toList) : p.arena.Rearranges r.arena := by
  have hr := (hl.newLink h).calm.synced.sound.founded
  obtain ⟨-, title, -, hlink, htitle⟩ := hl.find?_link h
  obtain ⟨items, hitems⟩ := h.find?_container h.body_container
  refine ⟨fun {x items} hx => ?_, fun {x n} hn hlist => ?_, fun x n hx hn => ?_⟩
  · by_cases hxc : x = p.arena.content
    · subst hxc
      refine ⟨_, hl.find?_content h, fun y hy => ?_⟩
      rw [Arena.kids_of_find? hx, List.mem_append] at hy
      refine hy.imp_right fun hy => ?_
      obtain rfl := List.mem_singleton.1 hy
      exact .link hlink ht (hr.print_list htitle) (by simp) (fun _ => rfl) (.list htitle (by simp))
    · exact ⟨items, (hl.find?_old h (Arena.index_lt_of_find? hx) hxc).trans hx, fun _ hy => .inl hy⟩
  · refine .inl ((hl.find?_old h (Arena.index_lt_of_find? hn) ?_).trans hn)
    rintro rfl
    obtain rfl := Option.some.inj (hn.symm.trans hitems)
    cases hlist
  · exact (hl.find?_old h (Arena.index_lt_of_find? hn) fun hxc => hx (.inl hxc)).trans hn

theorem AppendedLink.durable (hl : p.AppendedLink name l r) (h : p.IsDurable preserve) (hp : p.Synced)
    (ht : Block.IsPlainTarget (Edit.categoryTarget p name).toList)
    (hc : (p.site.categoryOf? (Edit.categoryTarget p name)).isSome = true) :
    r.arena.Durable p.site preserve fun n => p.Linked n ∨ n = l.link := by
  have hr := (hl.newLink hp).calm.synced.sound
  have hcontent : r.arena.content = p.arena.content := (hl.evolves hp).content_eq hp.sound
  obtain ⟨-, title, -, hlink, -⟩ := hl.find?_link hp
  have htarget : r.arena.target? l.link = some (Edit.categoryTarget p name) := Arena.target?_of_find? hlink rfl
  have hold {n : NodeId} (hn : n.index < p.arena.size) :
      r.arena.categoryOf? p.site n = p.arena.categoryOf? p.site n := by
    rw [Arena.categoryOf?, Arena.categoryOf?, hl.target?_old hp hn]
  -- what is part of the page and not the link was part of it before, or is the title
  have hreached {n : NodeId} (hn : Reaches r.arena.kids r.arena.content n) :
      n.index < p.arena.size ∧ Reaches p.arena.kids p.arena.content n ∨
        n = l.link ∨ r.arena.find? n = some ⟨.list [], none⟩ := by
    rcases Nat.lt_or_ge n.index p.arena.size with hlt | hge
    · exact .inl ⟨hlt, hcontent ▸ hl.reaches_old hp hn hlt⟩
    · exact .inr (hl.find?_new hp hge (hr.index_lt_of_reaches hn (hr.closed Arena.root _ hr.content_mem)))
  refine h.rearrange (hl.rearranges hp ht) hp.sound hr hp.root_loose ⟨fun {n} hn => ?_, fun {n} hn hcat => ?_⟩
    fun {n s} hn hls => ?_
  · rcases hn with hn | rfl
    · rw [hold (hp.linked_lt hn)]
      exact h.named hn
    · rw [Arena.categoryOf?_of_target? htarget]
      exact hc
  · rcases hreached hn with ⟨hlt, hn⟩ | rfl | hlist
    · rw [hold hlt] at hcat
      exact .inl (h.counted hn hcat)
    · exact .inr rfl
    · rw [Arena.categoryOf?, Arena.target?, hlist] at hcat
      cases hcat
  · rcases hreached hn with ⟨-, hn⟩ | rfl | hlist
    · exact hn
    · cases hls.symm.trans (Arena.landmark?_of_target? htarget)
    · cases hls.symm.trans (Arena.landmark?_of_find? hlist)

theorem GoesBy.isDurable {x : ElementId} {new : String} (hq : p.GoesBy x new q) (h : p.IsDurable preserve)
    (hp : p.Recorded) (hc : p.IsCategory x)
    (ht : Block.IsPlainTarget (Edit.categoryTarget p (Normalization.words.apply new)).toList)
    (hcat : (p.site.categoryOf? (Edit.categoryTarget p (Normalization.words.apply new))).isSome = true) :
    q.IsDurable preserve := by
  have hlinks : (Edit.renamed p x new).linksOf = p.linksOf := Recorded.linksOf_renamed
  have hrenamed : (Edit.renamed p x new).IsDurable preserve :=
    h.congr rfl rfl fun n => by rw [linked_iff, linked_iff, hlinks]
  rcases hq with ⟨rfl, -⟩ | ⟨old, l, hq⟩
  · exact hrenamed
  obtain ⟨r, s, hr, hs, rfl⟩ := hq.page
  have hl : (Edit.renamed p x new).Linked l.link :=
    linked_of_mem (x := x) (by rw [hlinks]; exact List.mem_of_getLast? hq.canonical)
  have hrelinked : r.IsDurable preserve :=
    hr.isDurable hrenamed (Edit.synced_renamed hp.toSynced) hl ht hcat
  have hx := (hr.isCategory ((Revises.of_renamed hp.toSynced).isCategory_iff.2 hc)).find?_ne_none
  refine (hs.isDurable hrelinked hr.synced hx fun k => ?_).congr rfl rfl fun _ => .rfl
  rw [List.mem_filter, List.mem_filter, ← and_or_left]
  simp [em']

end Page

namespace Edit

open Page

variable {p : Page} {preserve : Bool} {name old new : String}

theorem isPlainTarget_categoryTarget (hs : p.site = .default) (hn : IsLinkable name) :
    Block.IsPlainTarget (categoryTarget p name).toList := by
  have htarget : (categoryTarget p name).toList = "Category:".toList ++ name.toList := by
    have hprefix : p.site.categoryPrefix = "Category" := by rw [hs]; rfl
    rw [categoryTarget, hprefix, String.toList_append, String.toList_append]
    rfl
  have hout {c : Char} (hc : c ∉ "Category:".toList) (hi : Target.isIllegal c = true) :
      c ∉ (categoryTarget p name).toList := by
    rw [htarget, List.mem_append, not_or]
    exact ⟨hc, fun hm => by cases hi.symm.trans (hn.legal c hm)⟩
  exact ⟨hout (by decide) rfl, hout (by decide) rfl, hout (by decide) rfl⟩

theorem isSome_categoryOf?_categoryTarget (hs : p.site = .default) (hn : IsLinkable name) :
    (p.site.categoryOf? (categoryTarget p name)).isSome = true := by
  rw [categoryTarget, hn.categoryOf?_eq (hs ▸ Site.namesCategories_default)]
  rfl

theorem keepsDurable_addCategory (h : p.Synced) (hs : p.site = .default) (hn : IsPlain name) :
    Ends (addCategory name) p (fun _ q => p.IsDurable preserve → q.IsDurable preserve) fun _ _ => True := by
  refine (ends_addCategory_made h).mono (fun id q hq hd => ?_) fun _ _ _ => trivial
  obtain ⟨rfl, hv, -, r, l, hl, rfl⟩ := hq
  have hpush := h.pushCategory (normalizeTitle name)
  have hlink : IsLinkable (normalizeTitle name) := .of_isCategory hv hn
  have hlinked (n : NodeId) : (p.push (newCategory (normalizeTitle name))).Linked n ↔ p.Linked n := by
    rw [linked_iff, linked_iff, linksOf_pushCategory]
  have hdurable := hl.durable (hd.congr rfl rfl hlinked) hpush (isPlainTarget_categoryTarget hs hlink)
    (isSome_categoryOf?_categoryTarget hs hlink)
  have hnew := hl.newLink hpush
  have hc : r.IsCategory p.next := hnew.calm.isCategory.2 isCategory_pushCategory
  have hsite : r.site = p.site := hnew.calm.site
  have hattached (n : NodeId) : (attached r p.next (normalizeTitle name) l).Linked n ↔
      (p.push (newCategory (normalizeTitle name))).Linked n ∨ n = l.link := by
    rw [← hnew.calm.linked_iff, ← List.mem_singleton]
    exact linked_iff_of_linksOf
      (linksOf_attached hc.find?_ne_none (hnew.calm.synced.ne_root_of_isCategory hc))
  rw [Page.IsDurable, arena_attached, site_attached, hsite, funext fun n => propext (hattached n)]
  exact hdurable

theorem keepsDurable_removeCategory (h : p.Recorded) :
    Ends (removeCategory name) p (fun _ q => p.IsDurable preserve → q.IsDurable preserve) fun _ _ => True := by
  refine (ends_removeCategory h.toSynced fun id hid => ⟨h.inPlace id, h.named (h.indexed hid)⟩).mono
    (fun id q hq hd => ?_) fun _ _ _ => trivial
  obtain ⟨hid, r, stored, hr, -, rfl⟩ := hq
  have hc : p.IsCategory id := h.indexed hid
  have hlinks : (detached r id stored).linksOf = r.linksOf := linksOf_detached (h.ne_root_of_isCategory hc)
  exact (hr.isDurable hd h.toSynced hc.find?_ne_none (by simp)).congr arena_detached rfl
    fun n => by rw [linked_iff, linked_iff, hlinks]

theorem keepsDurable_renameCategory (h : p.Recorded) (hs : p.site = .default) (hn : IsPlain new) :
    Ends (renameCategory old new) p (fun _ q => p.IsDurable preserve → q.IsDurable preserve) fun _ _ => True := by
  cases hx : p.category? old with
  | none =>
    exact ends_needCategory.step (fun id q hq => by cases hq.1.symm.trans hx) fun _ _ _ => trivial
  | some x =>
    refine (h.ends_renameCategory hx).mono (fun _ q hq hd => ?_) fun _ _ _ => trivial
    obtain ⟨hcheck, hgoes⟩ := hq
    have hlink : IsLinkable (Normalization.words.apply (normalizeTitle new)) :=
      (IsLinkable.of_isCategory (exists_of_checkCategoryName hcheck).2 hn).words
    exact hgoes.isDurable hd h (h.indexed hx) (isPlainTarget_categoryTarget hs hlink)
      (isSome_categoryOf?_categoryTarget hs hlink)

end Edit

namespace Act

open Edit

variable {p : Page} {preserve : Bool} {act : Act}

/-- Whether the act is about a category. -/
def editsCategories : Act → Bool
  | addCategory _ => true
  | renameCategory _ _ => true
  | removeCategory _ => true
  | _ => false

theorem isChecked_of_editsCategories (h : act.editsCategories = true) : act.isChecked = true := by
  cases act <;> first | rfl | cases h

theorem isDurable_run [Entities] {acts : List Act} (h : p.Orderly .default) (ha : acts.all editsCategories = true)
    (hn : ∀ act ∈ acts, ∀ name ∈ act.categoryNames, IsPlain name) (hd : p.IsDurable preserve) :
    (run acts p).IsDurable preserve := by
  induction acts generalizing p with
  | nil => exact hd
  | cons act acts ih =>
    rw [List.all_cons, Bool.and_eq_true] at ha
    rw [List.forall_mem_cons] at hn
    have hc := isChecked_of_editsCategories ha.1
    refine ih (p := act.after p) (h.leads (act.keeps_after h.recorded hc).toLeads) ha.2 hn.2
      (after_of_ok (P := (·.IsDurable preserve)) h.recorded hc hd ?_)
    cases act with
    | addCategory name =>
      exact (keepsDurable_addCategory h.recorded.toSynced h.site_eq (hn.1 name List.mem_cons_self)).step
        (fun _ _ hq => Ends.pure (hq hd)) fun _ _ _ => trivial
    | renameCategory old new =>
      exact (keepsDurable_renameCategory h.recorded h.site_eq (hn.1 new List.mem_cons_self)).mono
        (fun _ _ hq => hq hd) fun _ _ _ => trivial
    | removeCategory name =>
      exact (keepsDurable_removeCategory h.recorded).step (fun _ _ hq => Ends.pure (hq hd)) fun _ _ _ => trivial
    | _ => cases ha.1

end Act

namespace Page

variable {p q : Page} {site : Site} {title text source : String} {preserve : Bool}

theorem isDurable_read [Entities] (h : read text site title preserve = .ok p) (ht : Text.isTight text.toList = true) :
    p.IsDurable preserve := by
  have hflat := Arena.isFlat_of_isTight ht
  exact
    { toFiles := files_read h hflat
      tight := arena_read h ▸ Arena.isTight_read ht
      known := fun hp _ => toLower_mem_knownTags h hflat hp }

/-- A durable page is in the same categories when it is saved and read again. -/
theorem IsDurable.exists_reread [Entities] (h : p.IsDurable preserve) (hp : p.Orderly site) (hroot : p.IsRooted)
    (hs : site.NamesCategories) {p₀ : Page} (hread : read text site title preserve = .ok p₀) :
    ∃ source q, p.source = .ok source ∧ read source site title preserve = .ok q ∧
      ∀ name, q.hasCategory name = p.hasCategory name := by
  have hsound := hp.recorded.sound
  obtain ⟨source, ls, hcharts⟩ := h.tight.content.exists_charts hsound
  have hprint : p.arena.printPage = .ok source :=
    hsound.founded.printPage_eq h.tight.page hcharts.print
  have hsame := hcharts.hasLandmark_read_iff
  have hflat := Arena.isFlat_read hcharts.isPlainlyTitled
  obtain ⟨q, hq⟩ : ∃ q, read source site title preserve = .ok q := by
    refine exists_read_iff.2 ⟨(exists_read_iff.1 ⟨p₀, hread⟩).1, fun hpre n name hu => hu.unknown ?_⟩
    obtain ⟨empty, attributes, body, g, hn⟩ := hu.element
    have hne : n ≠ Arena.root := by
      rintro rfl
      cases (Arena.find?_read_root source).symm.trans hn
    have hr := (Arena.sound_read source).reaches_content (Arena.reaches_read (Arena.index_lt_of_find? hn)) hne
    have hknown := h.known hpre ((hsame _).1 ⟨n, hr, Arena.landmark?_of_find? hn⟩)
    rwa [String.ofList_toList] at hknown
  refine ⟨source, q, by rw [Page.source, hprint]; rfl, hq, fun name => ?_⟩
  have hbegun := (begun_read hq).toOrderly
  have hqi : q.hasCategory name = true ↔ _ :=
    hasCategory_iff_of_files (files_read hq hflat) hbegun.recorded (hbegun.indexed hs) (rooted_read hq hflat)
  have hpi : p.hasCategory name = true ↔ _ :=
    hasCategory_iff_of_files h.toFiles hp.recorded (hp.indexed hs) hroot
  rw [hbegun.site_eq, arena_read hq] at hqi
  rw [hp.site_eq] at hpi
  rw [Bool.eq_iff_iff, hqi, hpi]
  simp only [hsame]

/-- A page whose text is tight is saved and read again after any acts about categories, with plain names, and
is then in the same categories. -/
theorem hasCategory_reread_run [Entities] {acts : List Act} (h : read text .default title preserve = .ok p)
    (ht : Text.isTight text.toList = true) (ha : acts.all Act.editsCategories = true)
    (hn : ∀ act ∈ acts, ∀ name ∈ act.categoryNames, Edit.IsPlain name) :
    ∃ source q, (Act.run acts p).source = .ok source ∧ read source .default title preserve = .ok q ∧
      ∀ name, q.hasCategory name = (Act.run acts p).hasCategory name := by
  have hb := (begun_read h).toOrderly
  have hc : acts.all Act.isChecked = true :=
    List.all_eq_true.2 fun act hact => Act.isChecked_of_editsCategories (List.all_eq_true.1 ha act hact)
  have hrun := Act.keeps_run hb.recorded hc
  have hroot := hrun.rooted (rooted_read h (Arena.isFlat_of_isTight ht))
  exact (Act.isDurable_run hb ha hn (isDurable_read h ht)).exists_reread (hb.leads hrun.toLeads) hroot
    Site.namesCategories_default h

/-- A paragraph on a page that is in a category. -/
def filedOnce : Page :=
  (read "[[Category:Foo]]\nIn <b>bold</b>, [[B|b]]." .default "Test" false).toOption.getD
    (ofDrafts .new .default "Test" [])

theorem hasCategory_reread_run_filedOnce :
    read "[[Category:Foo]]\nIn <b>bold</b>, [[B|b]]." .default "Test" false = .ok filedOnce ∧
      ∃ source q, (Act.run [.addCategory "Bar", .renameCategory "Foo" "Baz"] filedOnce).source = .ok source ∧
        read source .default "Test" false = .ok q ∧ ∀ name, q.hasCategory name =
          (Act.run [.addCategory "Bar", .renameCategory "Foo" "Baz"] filedOnce).hasCategory name := by
  have hread : read "[[Category:Foo]]\nIn <b>bold</b>, [[B|b]]." .default "Test" false = .ok filedOnce := by
    decide +kernel
  have hplain : Edit.IsPlain "Bar" ∧ Edit.IsPlain "Baz" := by
    unfold Edit.IsPlain
    decide +kernel
  refine ⟨hread, hasCategory_reread_run hread (by decide +kernel) (by decide) fun act hact name hname => ?_⟩
  simp only [List.mem_cons, List.not_mem_nil, or_false] at hact
  rcases hact with rfl | rfl
  · exact List.mem_singleton.1 hname ▸ hplain.1
  · exact List.mem_singleton.1 hname ▸ hplain.2

/-- A page that ends with a bracket. -/
def leftOpen : Page :=
  (read "[" .default "Test" false).toOption.getD (ofDrafts .new .default "Test" [])

/-- The bracket at the end of a page takes the link of a new category for its own. -/
theorem not_hasCategory_reread_leftOpen :
    read "[" .default "Test" false = .ok leftOpen ∧
      (Act.run [.addCategory "Foo"] leftOpen).hasCategory "Foo" = true ∧
      ¬∃ source q, (Act.run [.addCategory "Foo"] leftOpen).source = .ok source ∧
        read source .default "Test" false = .ok q ∧ q.hasCategory "Foo" = true := by
  have hruns : read "[" .default "Test" false = .ok leftOpen ∧
      (Act.run [.addCategory "Foo"] leftOpen).hasCategory "Foo" = true ∧
      (Act.run [.addCategory "Foo"] leftOpen).source = .ok "[[[Category:Foo]]" ∧
      (read "[[[Category:Foo]]" .default "Test" false).toOption.all (fun q => !q.hasCategory "Foo") = true := by
    decide +kernel
  obtain ⟨hread, hhas, hsource, hlost⟩ := hruns
  refine ⟨hread, hhas, fun ⟨source, q, hs, hq, hin⟩ => ?_⟩
  obtain rfl := Except.ok.inj (hsource.symm.trans hs)
  simp [hq, hin, Except.toOption] at hlost

end Page
end WikiPage
