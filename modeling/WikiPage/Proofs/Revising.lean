import WikiPage.Proofs.Conversion
import WikiPage.Proofs.Penning
import WikiPage.Proofs.Touching

/-!
# Edits of attributes on sheets

An attribute is written, taken away or stored by changing one sheet, and how the sheet changes depends on
nothing but the sheet.
-/

namespace WikiPage

namespace Attribute

variable {l : List Attribute} {a : Attribute} {key value : String} {m n : NodeId}

theorem put_map_placeless (l : List Attribute) (a : Attribute) :
    put (l.map placeless) a.placeless = (put l a).map placeless := by
  induction l with
  | nil => rfl
  | cons b l ih =>
    rw [List.map_cons, put, put, ih]
    by_cases hb : b.name = a.name
    · rw [if_pos hb]
      exact if_pos hb
    · rw [if_neg hb]
      exact if_neg hb

theorem find?_map_placeless (l : List Attribute) (key : String) :
    find? (l.map placeless) key = (find? l key).map placeless := by
  rw [find?, find?, List.find?_map]
  rfl

theorem erase_map_placeless (l : List Attribute) (key : String) :
    erase (l.map placeless) key = (erase l key).map placeless := by
  rw [erase, erase, List.eraseP_map]
  rfl

theorem find?_eq_some_of_mem (hl : (l.map name).Nodup) (ha : a ∈ l) : find? l a.name = some a := by
  induction l with
  | nil => cases ha
  | cons b l ih =>
    rw [List.map_cons, List.nodup_cons] at hl
    rcases List.mem_cons.1 ha with rfl | ha
    · simp [find?]
    · have hne : b.name ≠ a.name := fun hb => hl.1 (hb ▸ List.mem_map_of_mem ha)
      rw [find?, List.find?_cons_of_neg (by simpa using hne)]
      exact ih hl.2 ha

theorem owner?_eq_some_iff (hl : (l.filterMap node).Nodup) :
    owner? l n = some key ↔ ∃ a ∈ l, a.node = some n ∧ a.name = key := by
  unfold owner?
  constructor
  · intro h
    obtain ⟨a, ha, hname⟩ := Option.map_eq_some_iff.1 h
    exact ⟨a, List.mem_of_find?_eq_some ha, by simpa using List.find?_some ha, hname⟩
  · rintro ⟨a, ha, hn, rfl⟩
    cases hfind : l.find? (·.node == some n) with
    | none => exact absurd hn (by simpa using List.find?_eq_none.1 hfind a ha)
    | some b =>
      have hb : b.node = some n := by simpa using List.find?_some hfind
      obtain rfl := eq_of_nodup_filterMap hl (List.mem_of_find?_eq_some hfind) ha hb hn
      rfl

theorem owner?_eq_some_iff_of_find? (hl : (l.filterMap node).Nodup) (hnames : (l.map name).Nodup)
    (ha : find? l key = some a) (hn : a.node = some n) : owner? l m = some key ↔ m = n := by
  rw [owner?_eq_some_iff hl]
  constructor
  · rintro ⟨b, hb, hm, hname⟩
    have hfind := find?_eq_some_of_mem hnames hb
    rw [hname, ha] at hfind
    obtain rfl := Option.some.inj hfind
    exact Option.some.inj (hm.symm.trans hn)
  · rintro rfl
    exact ⟨a, List.mem_of_find?_eq_some ha, hn, name_of_find? ha⟩

theorem owner?_put (hkey : ∀ a ∈ l, a.node = some n → a.name = key)
    (hn : ∀ a ∈ l, a.name = key → ∀ m, a.node = some m → m = n) :
    owner? (put l ⟨key, value, some n⟩) m = if m = n then some key else owner? l m := by
  induction l with
  | nil =>
    by_cases h : m = n
    · simp [put, owner?, h]
    · simp [put, owner?, h, Ne.symm h]
  | cons b l ih =>
    rw [List.forall_mem_cons] at hkey hn
    rw [put]
    by_cases hb : b.name = key
    · rw [if_pos hb]
      by_cases h : m = n
      · simp [owner?, h]
      · have hne : b.node ≠ some m := fun hm => h (hn.1 hb m hm)
        simp [owner?, h, Ne.symm h, hne]
    · rw [if_neg hb]
      have hne : b.node ≠ some n := fun hm => hb (hkey.1 hm)
      have ih := ih hkey.2 hn.2
      unfold owner? at ih ⊢
      by_cases hm : b.node = some m
      · have h : m ≠ n := by
          rintro rfl
          exact hne hm
        simp [hm, h]
      · simpa [hm] using ih

/-- An attribute is put with the node that it has, or with a new one. -/
theorem owner?_put_of_place (hl : (l.filterMap node).Nodup) (hnames : (l.map name).Nodup)
    (hn : (∃ a, find? l key = some a ∧ a.node = some n) ∨ find? l key = none ∧ n ∉ l.filterMap node) :
    owner? (put l ⟨key, value, some n⟩) m = if m = n then some key else owner? l m := by
  rcases hn with ⟨a, ha, hn⟩ | ⟨hkey, hn⟩
  · have hamem := List.mem_of_find?_eq_some ha
    refine owner?_put (fun b hb hbn => ?_) fun b hb hname m hm => ?_
    · obtain rfl := eq_of_nodup_filterMap hl hb hamem hbn hn
      exact name_of_find? ha
    · have hfind := find?_eq_some_of_mem hnames hb
      rw [hname, ha] at hfind
      obtain rfl := Option.some.inj hfind
      exact Option.some.inj (hm.symm.trans hn)
  · refine owner?_put (fun b hb hbn => absurd (List.mem_filterMap.2 ⟨b, hb, hbn⟩) hn)
      fun b hb hname => ?_
    rw [← hname, find?_eq_some_of_mem hnames hb] at hkey
    cases hkey

theorem owner?_erase (hn : ∀ a ∈ l, a.name = key → a.node ≠ some m) :
    owner? (erase l key) m = owner? l m := by
  induction l with
  | nil => rfl
  | cons b l ih =>
    rw [List.forall_mem_cons] at hn
    have ih := ih hn.2
    unfold owner? erase at ih ⊢
    rw [List.eraseP_cons, cond_eq_ite]
    by_cases hb : b.name = key
    · simp [hb, hn.1 hb]
    · by_cases hm : b.node = some m
      · simp [hb, hm]
      · simpa [hb, hm] using ih

end Attribute

namespace Sheet

def promote (s : Sheet) : Sheet :=
  if s.isTag then s else
    { s with
      isTag := true
      shell := .around (Glue.element (s.kind.tag?.getD "") (s.kind = .rule)).slots }

/-- Store a value without writing it. -/
def store (key value : String) (s : Sheet) : Sheet :=
  { s with rows := Attribute.put s.rows ⟨key, value, none⟩ }

/-- Store a value and write it into the tag. -/
def write (key value : String) (s : Sheet) : Sheet :=
  { s.store key value with
    entries := match Attribute.find? s.rows key with
      | some _ => s.entries.map fun e => if e.owner = some key then e.rewrite key value else e
      | none => s.entries ++ [⟨some key, true, some (Glue.attr key true), spelling value⟩] }

def erase (key : String) (s : Sheet) : Sheet :=
  { s with
    rows := Attribute.erase s.rows key
    entries := s.entries.filter (·.owner ≠ some key) }

def retarget (target : String) (s : Sheet) : Sheet :=
  { s with shell := .around (Glue.link target !s.items.isEmpty).slots }

end Sheet

theorem Element.unlinked_relink (content? : Option NodeId) (body : NodeId) (e : Element) :
    (e.relink content? body).unlinked = e.unlinked := by
  cases content? <;> rfl

theorem Element.eq_of_relink (content? : Option NodeId) (body : NodeId) (e : Element) :
    (e.relink content? body).kind = e.kind ∧ (e.relink content? body).backing = e.backing ∧
      (e.relink content? body).attributes = e.attributes ∧
      (e.relink content? body).children = e.children :=
  Element.eq_of_unlinked (e.unlinked_relink ..)

namespace Page

variable {p q r : Page} {x y z : ElementId} {s s' : Sheet} {e : Element} {t : Promoted} {n : NodeId}
  {whole : Prop}

/-- A page on which one element has another sheet. -/
structure Updates (p : Page) (x : ElementId) (s : Sheet) (q : Page) : Prop where
  synced : q.Synced
  site : q.site = p.site
  self : q.sheet? x = some s
  others : ∀ z, z ≠ x → q.sheet? z = p.sheet? z

theorem Updates.trans (h : p.Updates x s q) (h' : q.Updates x s' r) : p.Updates x s' r :=
  ⟨h'.synced, h'.site.trans h.site, h'.self, fun z hz => (h'.others z hz).trans (h.others z hz)⟩

theorem Updates.refl (h : p.Synced) (hs : p.sheet? x = some s) : p.Updates x s p :=
  ⟨h, rfl, hs, fun _ _ => rfl⟩

theorem Touches.updates (hq : p.Touches x q) (h : p.Synced) (hs : q.sheet? x = some s) :
    p.Updates x s q :=
  ⟨hq.synced, hq.site, hs, fun _ hz => hq.sheet?_of_ne h hz⟩

theorem sheet?_of_find? (he : p.find? x = some e) : p.sheet? x = some (p.sheetOf x e) := by
  rw [sheet?, he]
  rfl

theorem Converts.leaves (hq : p.Converts t q) (h : p.Synced) (hs : q.Synced) (hsite : q.site = p.site) :
    p.Leaves t.id q where
  synced := hs
  site := hsite
  others z hz := by
    rw [hq.find?_eq, if_neg hz, Option.map_map]
    exact congrArg (fun f => (p.find? z).map f) (funext fun e => Element.unlinked_relink ..)
  self := by
    rw [hq.find?_eq, if_pos rfl, hq.find?_element, Option.map_some, Option.map_some]
    obtain ⟨hk, -, -, hch⟩ := Element.eq_of_relink t.content? t.body
      { t.element with backing := some (.tag t.tag) }
    rw [hk, hch]
    rfl
  agrees n m hn hm := hq.agrees h n m (fun hd => hn (by
    rcases hd with hc | ⟨y, hy, hc⟩
    · exact .inr (.inl (hq.container?.trans hc.symm))
    · exact .inr (.inr (.inl ⟨y, hy, hc⟩)))) hm

namespace Converts

theorem form?_eq (hq : p.Converts t q) : q.form? t.id = some (t.element.kind, some (.tag t.tag)) := by
  obtain ⟨hk, hb, -, -⟩ := Element.eq_of_relink t.content? t.body
    { t.element with backing := some (.tag t.tag) }
  rw [form?, hq.find?_eq, if_pos rfl, Option.map_some, Option.map_some, hk, hb]

theorem container?_eq (hq : p.Converts t q) : q.container? t.id = some t.body := by
  rw [container?_of_form? hq.form?_eq, Arena.container?, hq.find?_tag]
  rfl

theorem ne_of_untagged (hq : p.Converts t q) {k : Kind} {o : Option Backing}
    (hf : p.form? x = some (k, o)) (hk : k.tag? = none) : x ≠ t.id := by
  rintro rfl
  obtain rfl : t.element.kind = k :=
    (Prod.mk.inj (Option.some.inj ((form?_of_find? hq.find?_element).symm.trans hf))).1
  have ht := hq.tag?
  rw [hk] at ht
  cases ht

theorem touches (hq : p.Converts t q) (h : p.Synced) (hs : q.Synced) (hsite : q.site = p.site) :
    p.Touches t.id q where
  toLeaves := hq.leaves h hs hsite
  items := by
    have hleaves := hq.leaves h hs hsite
    have hbody : body ≠ t.id := hq.ne_of_untagged h.body_form rfl
    refine ⟨t.node, t.tag, hq.backing?, backing?_of_form? hq.form?_eq, .inr hq.fresh, fun z => ?_⟩
    by_cases hz : z = t.id
    · subst hz
      have hitems : p.itemsOf t.id = (t.content?.map p.arena.kids).getD [] := by
        rw [itemsOf, if_neg (hq.ne_of_untagged h.root_form rfl).symm, hq.container?]
      rw [hs.itemsOf_eq hq.container?_eq, hq.kids_body, ← hitems, Arena.map_replace]
      intro hn
      exact h.forest.not_reaches (h.mem_childrenOf_of_item hn hq.backing?) .refl
    · rcases eq_or_ne z root with rfl | hroot
      · have hcontent : q.arena.content = p.arena.content :=
          Option.some.inj (hs.body_backing.symm.trans ((hleaves.backing?_of_ne hbody).trans h.body_backing))
        have hne : p.arena.content ≠ t.node := fun hn =>
          hbody (h.backing_inj h.body_backing (hn ▸ hq.backing?))
        rw [hs.itemsOf_root, h.itemsOf_root, hcontent, List.map_singleton, if_neg hne]
      · have hcontainer := (hleaves.lists_of_ne h hz).1
        cases hc : p.container? z with
        | none => simp only [itemsOf, hroot, if_false, hcontainer, hc, Option.map_none, Option.getD_none, List.map_nil]
        | some c =>
          have hold := Arena.index_lt_of_find? (h.find?_container hc).choose_spec
          have hcontent : some c ≠ t.content? := fun hct =>
            hz (h.container_inj hc (hq.container?.trans hct.symm))
          rw [hs.itemsOf_eq (hcontainer.trans hc), h.itemsOf_eq hc, hq.kids_eq, Promoted.kids]
          obtain ⟨_, _, hw, -⟩ := hq
          obtain ⟨htag, -, hb⟩ := hw.old hold
          rw [if_neg htag, if_neg hb, if_neg hcontent]

theorem sheet?_eq (hq : p.Converts t q) (h : p.Synced) (hs : q.Synced) (hsite : q.site = p.site)
    (ha : t.element.attributes = []) : q.sheet? t.id = (p.sheet? t.id).map Sheet.promote := by
  have htag := hq.tag?
  have hkind : t.element.kind ≠ .preserved ∧ ¬(t.element.kind = .text ∨ t.element.kind = .comment) := by
    constructor
    · intro hk
      simp [hk, Kind.tag?] at htag
    · rintro (hk | hk) <;> simp [hk, Kind.tag?] at htag
  obtain ⟨hbacking, hform⟩ : t.element.backing = some (.markup t.node) ∧
      p.form? t.id = some (t.element.kind, some (.markup t.node)) := by
    obtain ⟨_, _, hw, -⟩ := hq
    exact ⟨hw.backing, hw.form?⟩
  have hfind := hq.find?_eq t.id
  rw [if_pos rfl, Option.map_some] at hfind
  have hd := Element.eq_of_relink t.content? t.body { t.element with backing := some (.tag t.tag) }
  generalize Element.relink t.content? t.body _ = d at hfind hd
  obtain ⟨hk, hb, hattributes, hch⟩ := hd
  have hlabel : q.label t.id d.kind = p.label t.id t.element.kind := by
    rw [label_eq_name hfind (hk ▸ hkind.1), label_eq_name hq.find?_element hkind.1, hk]
  have hshell : q.shell t.id = .around
      (Glue.element (t.element.kind.tag?.getD "") (t.element.kind = .rule)).slots := by
    have hrule : t.content?.isNone = decide (t.element.kind = .rule) := by
      rw [Bool.eq_iff_iff, decide_eq_true_iff, ← hq.content?_eq_none_iff h, Option.isNone_iff_eq_none]
    refine shell_eq_around (backing?_of_form? hq.form?_eq) (.inr ?_) hq.find?_tag (hrule ▸ rfl)
    simp [hq.container?_eq]
  have hentries : q.entries t.id [] = p.entries t.id [] := by
    have hl : q.attributeList? t.id = some t.attributes :=
      (attributeList?_of_form? hq.form?_eq).trans hq.attributeList?
    rw [entries, entries, hl, attributeList?_of_form? hform, Option.map_some, Option.getD_some,
      hq.kids_attributes hs]
    rfl
  rw [sheet?_of_find? hfind, sheet?_of_find? hq.find?_element, Option.map_some, sheetOf, sheetOf, hlabel,
    hshell, (hq.touches h hs hsite).items_eq h, hattributes, ha, hentries, hk, hb, hch, hbacking]
  simp only [saying, if_neg hkind.2]
  rfl

end Converts

theorem updates_of_madeTag (hq : Edit.MadeTag p x q) (h : p.Synced) (hm : p.Mirrored whole)
    (he : p.find? x = some e) (hk : e.kind.tag? ≠ none) :
    p.Updates x (p.sheetOf x e).promote q := by
  have hs := sheet?_of_find? he
  have hf := form?_of_find? he
  cases hb : e.backing with
  | none =>
    rw [hb] at hf
    have hc : e.kind = .category := h.writes hf
    rw [hc] at hk
    exact absurd rfl hk
  | some b =>
    rw [hb] at hf
    cases b with
    | tag n =>
      obtain rfl := hq.same hf
      have hpromote : (q.sheetOf x e).promote = q.sheetOf x e := by
        rw [Sheet.promote, if_pos (show (q.sheetOf x e).isTag = true by rw [sheetOf, hb]; rfl)]
      exact hpromote.symm ▸ .refl h hs
    | markup n =>
      have ha := (hm x e he).bare hk hb
      obtain ⟨t, hconverts, rfl, rfl, rfl⟩ := hq.converts he hb ha
      have hsynced := hq.calm.toSteady.synced
      have hsite := hq.calm.toSteady.site
      exact (hconverts.touches h hsynced hsite).updates h
        ((hconverts.sheet?_eq h hsynced hsite ha).trans (by rw [hs]; rfl))

/-- Another page on which one element has other attributes. In the arena nothing has changed but the list of
its attributes and what stands below it. -/
structure Relists (p : Page) (x : ElementId) (attributes : List Attribute) (q : Page) : Prop where
  synced : q.Synced
  site : q.site = p.site
  others : ∀ z, z ≠ x → q.find? z = p.find? z
  self : q.find? x = (p.find? x).map fun e => { e with attributes := attributes }
  agrees : p.arena.AgreesBut q.arena fun n =>
    ∃ l, p.attributeList? x = some l ∧ Reaches p.arena.kids l n

namespace Relists

variable {attributes : List Attribute}

theorem form?_eq (hq : p.Relists x attributes q) : q.form? = p.form? := by
  funext z
  by_cases hz : z = x
  · rw [form?, hz, hq.self, Option.map_map]
    rfl
  · rw [form?, hq.others z hz]
    rfl

theorem find?_carried (hq : p.Relists x attributes q) (h : p.Synced) (hn : p.Carries n) :
    q.arena.find? n = p.arena.find? n := by
  obtain ⟨m, hm⟩ := Arena.exists_of_index_lt (h.carries_lt hn)
  rw [hm, hq.agrees n m (fun ⟨l, hl, hr⟩ => h.not_carries_of_attribute hl hr hn) hm]

theorem backing?_eq (hq : p.Relists x attributes q) : q.backing? = p.backing? := by
  funext z
  rw [backing?, hq.form?_eq]
  rfl

theorem lists_eq (hq : p.Relists x attributes q) (h : p.Synced) (z : ElementId) :
    q.container? z = p.container? z ∧ q.attributeList? z = p.attributeList? z :=
  h.lists_congr (congrFun hq.form?_eq z) fun _ _ hn => hq.find?_carried h (.inl ⟨z, hn⟩)

theorem kids_carried (hq : p.Relists x attributes q) (h : p.Synced) (hn : p.Carries n) :
    q.arena.kids n = p.arena.kids n :=
  Arena.kids_eq_of_payload (by rw [hq.find?_carried h hn])

theorem itemsOf_eq (hq : p.Relists x attributes q) (h : p.Synced) (z : ElementId) :
    q.itemsOf z = p.itemsOf z := by
  unfold itemsOf
  rw [(hq.lists_eq h z).1, hq.kids_carried h (.inl ⟨root, h.root_backing⟩)]
  cases hc : p.container? z with
  | none => rfl
  | some c => rw [Option.map_some, Option.map_some, hq.kids_carried h (.inr ⟨z, hc⟩)]

theorem touches (hq : p.Relists x attributes q) (h : p.Synced) (hn : p.backing? x = some n) :
    p.Touches x q where
  synced := hq.synced
  site := hq.site
  others z hz := by rw [hq.others z hz]
  self := by
    rw [hq.self, Option.map_map]
    rfl
  agrees n m hc hm := hq.agrees n m (fun hl => hc (.inr (.inr (.inr hl)))) hm
  items := by
    refine ⟨n, n, hn, hq.backing?_eq ▸ hn, .inl rfl, fun z => ?_⟩
    have hid : (fun m => if m = n then n else m) = id := funext fun m => by by_cases hm : m = n <;> simp [hm]
    rw [hq.itemsOf_eq h, hid, List.map_id]

theorem shell_eq (hq : p.Relists x attributes q) (h : p.Synced) : q.shell x = p.shell x := by
  unfold shell
  rw [hq.backing?_eq, (hq.lists_eq h x).1]
  cases hn : p.backing? x with
  | none => rfl
  | some n =>
    simp only [hq.find?_carried h (.inl ⟨x, hn⟩)]
    split
    case isFalse => rfl
    case isTrue hleaf =>
      refine congrArg _ (hq.agrees.print_eq h.sound.founded hq.synced.sound.founded (h.backing_lt hn) ?_)
      rintro m ⟨l, hl, -⟩
      cases hl.symm.trans (Synced.attributeList?_eq_none hleaf.2)

theorem sheet?_eq (hq : p.Relists x attributes q) (h : p.Synced) (he : p.find? x = some e)
    (hn : p.backing? x = some n)
    (hk : e.kind ≠ .preserved ∧ ¬(e.kind = .text ∨ e.kind = .comment)) : q.sheet? x = some
      { p.sheetOf x e with
        rows := attributes.map Attribute.placeless
        entries := q.entries x attributes } := by
  have hfind : q.find? x = some { e with attributes := attributes } := by
    rw [hq.self, he]
    rfl
  rw [sheet?_of_find? hfind, sheetOf, sheetOf, hq.shell_eq h, (hq.touches h hn).items_eq h,
    label_eq_name hfind hk.1, label_eq_name he hk.1]
  simp only [saying, if_neg hk.2]

end Relists

section

variable {l : NodeId} {key value : String} {b : Arena} {attributes : List Attribute}

/-- A value is written in the place of the value before, or else as a new attribute. -/
theorem place_of_pens (h : p.Synced) (hl : p.attributeList? x = some l) (he : p.find? x = some e)
    (hm : p.arena.Mirrors whole e.kind e.backing e.attributes) (hk : e.kind.tag? ≠ none)
    (hp : p.arena.Pens l ((Attribute.find? e.attributes key).bind Attribute.node) key value n b) :
    (∃ a, Attribute.find? e.attributes key = some a ∧ a.node = some n ∧ n ∈ p.arena.kids l) ∨
      Attribute.find? e.attributes key = none ∧ p.arena.size ≤ n.index := by
  obtain ⟨_, _, _, _, _, hcase⟩ := hp.entry
  cases ha : Attribute.find? e.attributes key with
  | none =>
    rw [ha] at hcase
    exact .inr ⟨rfl, hcase.1⟩
  | some a =>
    obtain ⟨k, tag, -, hform, -⟩ := exists_of_attributeList? hl
    have hbacking : e.backing = some (.tag tag) :=
      (Prod.mk.inj (Option.some.inj ((form?_of_find? he).symm.trans hform))).2
    have hamem := List.mem_of_find?_eq_some ha
    obtain ⟨o, ho, -⟩ := hm.written hk hbacking a hamem
    rw [ha, Option.bind_some, ho] at hcase
    obtain ⟨rfl, -⟩ := hcase
    obtain ⟨c, hc, hmem⟩ := h.exists_of_written (x := x) (n := o)
      (writtenOf_of_find? he ▸ List.mem_filterMap.2 ⟨a, hamem, ho⟩)
    obtain rfl := Option.some.inj (hl.symm.trans hc)
    exact .inl ⟨a, rfl, ho, hmem⟩

theorem not_reaches_of_pens (h : p.Synced) (hn : n ∈ p.arena.kids l ∨ p.arena.size ≤ n.index)
    {m y : NodeId} (hm : m ∈ p.arena.kids l) (hne : m ≠ n) (hy : Reaches p.arena.kids m y) :
    ¬(y = l ∨ Reaches p.arena.kids n y) := by
  rintro (rfl | hr)
  · exact h.sound.not_reaches hm hy
  · rcases hn with hn | hn
    · exact h.sound.not_reaches_of_sibling hn hm hne hr hy
    · rcases Relation.ReflTransGen.cases_head hr with rfl | ⟨z, hz, -⟩
      · exact Nat.lt_irrefl _
          (Nat.lt_of_lt_of_le (h.sound.index_lt_of_reaches hy (h.sound.closed l m hm)) hn)
      · rw [Arena.kids_eq_nil hn] at hz
        cases hz

theorem entry?_congr (h : p.Synced) {d : NodeId → Prop} (hp : p.arena.AgreesBut b d) (hb : b.Founded)
    {m : NodeId} (hm : m.index < p.arena.size) (hd : ∀ y, Reaches p.arena.kids m y → ¬d y)
    {attributes attributes' : List Attribute}
    (ho : Attribute.owner? attributes' m = Attribute.owner? attributes m) :
    b.entry? attributes' m = p.arena.entry? attributes m := by
  obtain ⟨v, hv⟩ := Arena.exists_of_index_lt hm
  unfold Arena.entry?
  rw [hv, hp m v (hd m .refl) hv, ho]
  split
  case h_1 name hasValue value g hattr =>
    have hkid : value ∈ p.arena.kids m := by
      rw [hattr] at hv
      simp [Arena.kids_of_find? hv, Payload.children]
    rw [hp.print_eq h.sound.founded hb (h.sound.closed m value hkid) fun y hy hr =>
      hd y (hr.head hkid) hy]
  case h_2 => rfl

theorem entries_of_attributeList? (hl : p.attributeList? x = some l) (attributes : List Attribute) :
    p.entries x attributes = (p.arena.kids l).filterMap (p.arena.entry? attributes) := by
  rw [entries, hl]
  rfl

/-- The attributes in the tag after a value has been written and recorded. -/
theorem entries_of_pens (h : p.Synced) (hl : p.attributeList? x = some l) (he : p.find? x = some e)
    (hm : p.arena.Mirrors whole e.kind e.backing e.attributes) (hk : e.kind.tag? ≠ none)
    (hp : p.arena.Pens l ((Attribute.find? e.attributes key).bind Attribute.node) key value n b)
    (hb : b.Founded) (hkids : b.kids l =
      if (Attribute.find? e.attributes key).bind Attribute.node = none then p.arena.kids l ++ [n]
      else p.arena.kids l) :
    (b.kids l).filterMap (b.entry? (Attribute.put e.attributes ⟨key, value, some n⟩)) =
      ((p.sheetOf x e).write key value).entries := by
  have hnodes : (e.attributes.filterMap Attribute.node).Nodup :=
    writtenOf_of_find? he ▸ (h.written x).1
  have hrows : Attribute.find? (p.sheetOf x e).rows key =
      (Attribute.find? e.attributes key).map Attribute.placeless := Attribute.find?_map_placeless ..
  have hplace := place_of_pens h hl he hm hk hp
  have hother (m : NodeId) : Attribute.owner? (Attribute.put e.attributes ⟨key, value, some n⟩) m =
      if m = n then some key else Attribute.owner? e.attributes m := by
    refine Attribute.owner?_put_of_place hnodes hm.nodup (hplace.imp ?_ (And.imp_right fun hfresh hn => ?_))
    · rintro ⟨a, ha, hn, -⟩
      exact ⟨a, ha, hn⟩
    · obtain ⟨c, -, hc⟩ := h.exists_of_written (x := x) (n := n) (writtenOf_of_find? he ▸ hn)
      exact Nat.lt_irrefl _ (Nat.lt_of_lt_of_le (h.sound.closed c n hc) hfresh)
  have hsame {m : NodeId} (hmem : m ∈ p.arena.kids l) (hne : m ≠ n) :
      b.entry? (Attribute.put e.attributes ⟨key, value, some n⟩) m = p.arena.entry? e.attributes m :=
    entry?_congr h hp.agrees hb (h.sound.closed l m hmem) (fun y hy => not_reaches_of_pens h
      (hplace.imp (fun ⟨_, _, _, hn⟩ => hn) And.right) hmem hne hy) ((hother m).trans (if_neg hne))
  obtain ⟨written, v, g, hbn, hv, hcase⟩ := hp.entry
  have hnew : b.entry? (Attribute.put e.attributes ⟨key, value, some n⟩) n =
      some ⟨some key, true, g, Sheet.spelling value⟩ := by
    rw [Arena.entry?, hbn, hother, if_pos rfl]
    simp only [hv.print_eq hb]
  rw [Sheet.write, hrows, hkids]
  have hentries : (p.sheetOf x e).entries = (p.arena.kids l).filterMap (p.arena.entry? e.attributes) :=
    entries_of_attributeList? hl _
  rcases hplace with ⟨a, ha, hn, -⟩ | ⟨ha, hfresh⟩
  · rw [ha, Option.bind_some, hn] at hcase
    obtain ⟨-, hasValue, v', g', hold, rfl⟩ := hcase
    have howner (m : NodeId) : Attribute.owner? e.attributes m = some key ↔ m = n :=
      Attribute.owner?_eq_some_iff_of_find? hnodes hm.nodup ha hn
    rw [ha, Option.bind_some, hn, if_neg (Option.some_ne_none n)]
    refine Eq.trans (List.filterMap_congr fun m hmem => ?_)
      ((List.map_filterMap ..).symm.trans (congrArg (List.map _) hentries.symm))
    by_cases hne : m = n
    · subst hne
      have holde : p.arena.entry? e.attributes m = some ⟨some key, hasValue, g', p.arena.print v'⟩ := by
        rw [Arena.entry?, hold, (howner m).2 rfl]
      rw [hnew, holde, Option.map_some, if_pos rfl]
      rfl
    · rw [hsame hmem hne]
      cases hentry : p.arena.entry? e.attributes m with
      | none => rfl
      | some d =>
        have hd : d.owner ≠ some key := by
          rw [Arena.owner_of_entry? hentry]
          exact fun hown => hne ((howner m).1 hown)
        rw [Option.map_some, if_neg hd]
  · rw [ha] at hcase
    obtain ⟨-, rfl⟩ := hcase
    rw [ha, Option.bind_none, if_pos rfl, List.filterMap_append, List.filterMap_cons_some hnew]
    refine congrArg (· ++ _) (Eq.trans (List.filterMap_congr fun m hmem => hsame hmem ?_) hentries.symm)
    rintro rfl
    exact Nat.lt_irrefl _ (Nat.lt_of_lt_of_le (h.sound.closed l m hmem) hfresh)

end

end Page
end WikiPage
