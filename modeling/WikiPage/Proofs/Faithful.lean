import Mathlib
import WikiPage.EntityTable
import WikiPage.Proofs.Reached

/-!
# Stored values and written ones

On a page that is reached, what is stored for an element is what is written in its tag or what its link
leads to. Where a tag has a name twice, only the first attribute of that name is stored, and the other one
stays when the attribute is removed.
-/

namespace WikiPage
namespace Page

variable {p q : Page} {site : Site} {title : String} {id : ElementId} {name : String}

/-- A stored attribute and the node that stands for it in the tag of its element. -/
structure WrittenAs (p : Page) (id : ElementId) (t : Attribute) (n : NodeId) : Prop where
  node : t.node = some n
  once : ∃ list items, p.attributeList id = .ok list ∧ p.arena.items list = .ok items ∧
    items.count n = 1
  /-- No other stored attribute has the node. -/
  alone : ∀ {x e u}, p.find? x = some e → u ∈ e.attributes → u.node = some n → x = id ∧ u = t
  /-- An attribute without a value has its name as written for one. -/
  value : ∃ written hasValue list g s policy,
    p.arena.find? n = some ⟨.attr written hasValue list, g⟩ ∧ written.toLower = t.name ∧
      (if hasValue then p.arena.text list else .ok written) = .ok s ∧
      p.policy id t.name = .ok policy ∧ policy.normalization.apply s = t.value

/-- What is stored for the elements of a page is what is written. The elements with a tag are
paragraphs, bold and italic ones, rules and divisions. -/
structure Faithful (p : Page) : Prop where
  lower : ∀ {x e}, p.find? x = some e → ∀ t ∈ e.attributes, t.name.toLower = t.name
  nodup : ∀ {x e}, p.find? x = some e → (e.attributes.map Attribute.name).Nodup
  /-- Markup has no attributes. -/
  bare : ∀ {x e n}, p.find? x = some e → e.kind.tag? ≠ none → e.backing = some (.markup n) →
    e.attributes = []
  written : ∀ {x e n}, p.find? x = some e → e.kind.tag? ≠ none → e.backing = some (.tag n) →
    ∀ t ∈ e.attributes, ∃ m, p.WrittenAs x t m
  target : ∀ {x e}, p.find? x = some e → e.kind = .link →
    ∃ n target list g, e.backing = some (.markup n) ∧
      p.arena.find? n = some ⟨.link target list, g⟩ ∧
      p.value? x "target" = .ok (some (Normalization.words.apply target))

namespace Mirrored

variable {whole : Prop}

/-- An attribute that stands in a tag as it is stored stands there once and for no other. -/
theorem writtenAs (h : p.Mirrored whole) (hp : p.Synced) {e : Element} (he : p.find? id = some e)
    (hk : e.kind.tag? ≠ none) {tag : NodeId} (hb : e.backing = some (.tag tag)) {t : Attribute}
    (ht : t ∈ e.attributes) : ∃ n, p.WrittenAs id t n := by
  obtain ⟨n, hn, written, s, policy, ⟨hasValue, list, g, hf, hs⟩, hname, hpolicy, hvalue⟩ :=
    (h id e he).written hk hb t ht
  have hw := writtenOf_of_find? he
  have hmem : n ∈ p.writtenOf id := hw ▸ List.mem_filterMap.2 ⟨t, ht, hn⟩
  refine ⟨n, hn, ?_, fun {x d u} hd hu hun => ?_, written, hasValue, list, g, s, policy, hf, hname, ?_,
    ?_, hvalue⟩
  · obtain ⟨c, hc, hk⟩ := hp.exists_of_written hmem
    obtain ⟨k, tag, m, -, hm, hslot⟩ := exists_of_attributeList? hc
    obtain ⟨items, hi⟩ := hp.sound.find?_slot hm hslot
    have hkc : p.arena.kids c = items := Arena.kids_of_find? hi
    exact ⟨c, items, attributeList_of_attributeList? hc, Arena.items_of_find? hi,
      List.count_eq_one_of_mem (hkc ▸ hp.sound.nodup c) (hkc ▸ hk)⟩
  · have hmx : n ∈ p.writtenOf x := writtenOf_of_find? hd ▸ List.mem_filterMap.2 ⟨u, hu, hun⟩
    obtain rfl := hp.written_inj hmx hmem
    obtain rfl := Option.some.inj (he.symm.trans hd)
    exact ⟨rfl, eq_of_nodup_filterMap (hw ▸ (hp.written x).1) hu ht hun hn⟩
  · cases hasValue with
    | true => exact hs
    | false => exact congrArg Except.ok hs.symm
  · simp [Page.policy, kind_of_find? he, bind, Except.bind, hpolicy]

theorem toFaithful (h : p.Mirrored whole) (hp : p.Synced) : p.Faithful where
  lower hx := (h _ _ hx).lower
  nodup hx := (h _ _ hx).nodup
  bare hx := (h _ _ hx).bare
  written hx hk hb _ := h.writtenAs hp hx hk hb
  target {x e} hx hk := by
    have hw := hp.writes (form?_of_find? hx)
    obtain ⟨kind, parent, children, backing, attributes, links⟩ := e
    obtain rfl : kind = .link := hk
    match backing, hw with
    | none, hw => cases hw
    | some (.tag n), ⟨⟨q, g⟩, _, ht⟩ => cases q <;> cases ht
    | some (.markup n), ⟨⟨q, g⟩, hn, hm⟩ =>
      cases q with
      | link target list =>
        have ht := (h _ _ hx).target rfl rfl
        rw [Arena.target?_of_find? hn rfl] at ht
        refine ⟨n, target, list, g, rfl, hn, ?_⟩
        rw [value?_of_find? hx, toLower_target]
        exact congrArg Except.ok ht
      | _ => cases hm

end Mirrored

theorem Reached.exists_mirrored [Entities] (h : p.Reached site) : ∃ whole, p.Mirrored whole := by
  induction h with
  | new h => exact ⟨_, (begun_new h false).mirrored⟩
  | read h => exact ⟨_, (begun_read h).mirrored⟩
  | act h act hc ih =>
    exact ih.imp fun _ hm => (act.keeps_after h.orderly.recorded hc).mirrored hm

/-- On a page that is reached what is stored is what is written. -/
theorem Reached.faithful [Entities] (h : p.Reached site) : p.Faithful := by
  obtain ⟨whole, hm⟩ := h.exists_mirrored
  exact hm.toFaithful h.orderly.recorded.toSynced

/-- The page of a text, or an empty one if the text cannot be read. -/
def ofText [Entities] (text : String) : Page :=
  (Page.read text .default "Test" false).toOption.getD (ofDrafts .new .default "Test" [])

theorem read_ofText [Entities] {text : String} (h : (Page.read text .default "Test" false).toOption.isSome = true) :
    Page.read text .default "Test" false = .ok (ofText text) := by
  unfold ofText
  cases hr : Page.read text .default "Test" false with
  | ok p => rfl
  | error e => simp [hr, Except.toOption] at h

/-- A rule with an alignment that is given a thickness. -/
def ruled : Page :=
  Act.run [.setThickness ⟨2⟩ (some 3)] (ofText "<hr Align=left />")

theorem Reached.faithful_ruled : ruled.Reached .default ∧ ruled.value? ⟨2⟩ "size" = .ok (some "3") ∧
    ruled.Faithful :=
  have h : ruled.Reached .default := .run (.read (read_ofText (by decide +kernel))) rfl
  ⟨h, by decide +kernel, faithful h⟩

/-- An attribute that is removed is neither stored any more nor written in the tag of its element. -/
def RemovesAttributes (p : Page) : Prop :=
  ∀ id name old q, Edit.removeAttribute id name p = .ok old q →
    q.value? id name = .ok none ∧
      ∀ list, q.attributeList id = .ok list → name.toLower ∉ q.arena.attrNames list

/-- Of what has a tag, all is removed where all that stands in the tag is stored. -/
theorem Mirrored.removesAttributes (h : p.Mirrored True) (hp : p.Synced) : p.RemovesAttributes := by
  intro id name old q hok
  obtain ⟨hq, e, policy, he, hpolicy, hd⟩ := (Edit.ends_removeAttribute hp).of_ok hok
  have hgone : Attribute.find? (Attribute.erase e.attributes name.toLower) name.toLower = none :=
    Attribute.find?_erase (h id e he).nodup
  refine ⟨by rw [value?_of_find? hd, hgone]; rfl, fun list hlist hmem => ?_⟩
  obtain ⟨k, tag, tagName, empty, body, g, hf, htag⟩ := find?_of_attributeList hlist
  obtain ⟨rfl, hb⟩ := Prod.mk.inj (Option.some.inj ((form?_of_find? hd).symm.trans hf))
  have hk : e.kind.tag? ≠ none := by
    obtain ⟨m, hm, ht⟩ := hq.synced.writes hf
    obtain rfl := Option.some.inj (htag.symm.trans hm)
    intro hnone
    have hkind : e.kind = .preserved := by simpa [Kind.tags, hnone] using ht
    rw [hkind] at hpolicy
    cases hpolicy
  have hmir := hq.mirrored h id _ hd
  have hl : q.arena.attributeList? e.backing = some list := by
    rw [show e.backing = some (.tag tag) from hb, Arena.attributeList?, htag]
    rfl
  -- a node of that name would be that of a stored attribute
  obtain ⟨n, hn, hname⟩ := List.mem_filterMap.1 hmem
  obtain ⟨t, ht, hnode⟩ := List.mem_filterMap.1 (hmir.whole trivial hk hl hn)
  obtain ⟨m, hm, written, s, -, hs, hlower, -⟩ := hmir.written hk hb t ht
  obtain rfl := Option.some.inj (hnode.symm.trans hm)
  refine List.find?_eq_none.1 hgone t ht (beq_iff_eq.2 ?_)
  exact hlower.symm.trans (Option.some.inj (hs.attrName?.symm.trans hname))

/-- An attribute that is removed is gone on every page that began with no name twice in a tag. -/
theorem removesAttributes_run [Entities] {acts : List Act}
    (h : new site title = .ok p ∨ ∃ text preserve, read text site title preserve = .ok p ∧
      p.arena.NamesOnce)
    (ha : acts.all Act.isChecked = true) : (Act.run acts p).RemovesAttributes := by
  obtain ⟨hp, hm⟩ : p.Orderly site ∧ p.Mirrored True := by
    rcases h with h | ⟨text, preserve, h, honce⟩
    · have hb := begun_new h false
      have hnew : p.arena = .new := by
        obtain ⟨t, -, h⟩ := Except.exists_of_bind h
        exact (Except.ok.inj h) ▸ rfl
      exact ⟨hb.toOrderly, hb.mirrored.imp fun _ => hnew ▸ (by decide : Arena.new.NamesOnce)⟩
    · have hb := begun_read h
      exact ⟨hb.toOrderly, hb.mirrored.imp fun _ => honce⟩
  have hq := Act.keeps_run hp.recorded ha
  exact (hq.mirrored hm).removesAttributes hq.recorded.toSynced

theorem removesAttributes_run_ruled : (ofText "<hr Align=left />").arena.NamesOnce ∧
    ruled.RemovesAttributes :=
  have h : Page.read "<hr Align=left />" .default "Test" false = _ := read_ofText (by decide +kernel)
  have honce : (ofText "<hr Align=left />").arena.NamesOnce := by decide +kernel
  ⟨honce, removesAttributes_run (.inr ⟨_, _, h, honce⟩) rfl⟩

/-- A rule with two attributes of one name. -/
def doubled : Arena :=
  ⟨#[⟨.list [⟨10⟩], none⟩, ⟨.page ⟨0⟩, none⟩, ⟨.text "left", none⟩, ⟨.list [⟨2⟩], none⟩,
    ⟨.attr "align" true ⟨3⟩, some ⟨[" align=", ""]⟩⟩, ⟨.text "right", none⟩, ⟨.list [⟨5⟩], none⟩,
    ⟨.attr "ALIGN" true ⟨6⟩, some ⟨[" ALIGN=", ""]⟩⟩, ⟨.list [⟨4⟩, ⟨7⟩], none⟩, ⟨.list [], none⟩,
    ⟨.element "hr" true ⟨8⟩ ⟨9⟩, some ⟨["<hr", " />", ""]⟩⟩]⟩

theorem read_doubled : Page.read "<hr align=left ALIGN=right />" .default "Test" false =
    .ok (ofDrafts doubled .default "Test"
      [.node .rule (.tag ⟨10⟩) [⟨"align", "left", some ⟨4⟩⟩] []]) := by
  have harena : Arena.read "<hr align=left ALIGN=right />" = doubled := by decide +kernel
  have hfound : doubled.findings .default false =
      .ok ⟨[.node .rule (.tag ⟨10⟩) [⟨"align", "left", some ⟨4⟩⟩] []], []⟩ := by
    cbv
  have htitle : Verifier.checkPageTitle "Test" = .ok "Test" := by decide +kernel
  rw [Page.read, ofArena, harena, htitle, hfound]
  rfl

/-- The other one stays in the tag when the attribute is removed. -/
theorem not_removesAttributes_doubled : ∃ p,
    Page.read "<hr align=left ALIGN=right />" .default "Test" false = .ok p ∧
      ¬p.RemovesAttributes := by
  have hq : ((Edit.removeAttribute ⟨2⟩ "align").exec (ofDrafts doubled .default "Test"
      [.node .rule (.tag ⟨10⟩) [⟨"align", "left", some ⟨4⟩⟩] []])).toOption.any (fun q =>
        q.attributeList ⟨2⟩ = .ok ⟨8⟩ ∧ q.arena.attrNames ⟨8⟩ = ["align"]) = true := by
    decide +kernel
  have hr := read_doubled
  generalize ofDrafts doubled .default "Test"
    [.node .rule (.tag ⟨10⟩) [⟨"align", "left", some ⟨4⟩⟩] []] = p at hq hr
  refine ⟨p, hr, fun h => ?_⟩
  cases hexec : (Edit.removeAttribute ⟨2⟩ "align").exec p with
  | error e => simp [hexec, Except.toOption] at hq
  | ok q =>
    obtain ⟨hlist, hnames⟩ : q.attributeList ⟨2⟩ = .ok ⟨8⟩ ∧ q.arena.attrNames ⟨8⟩ = ["align"] := by
      simpa [hexec, Except.toOption] using hq
    obtain ⟨old, hok⟩ := Edit.exists_of_exec hexec
    refine (h _ _ _ _ hok).2 _ hlist ?_
    rw [hnames, List.mem_singleton]
    decide +kernel

end Page
end WikiPage
