import WikiPage.EntityTable
import WikiPage.Proofs.Naming
import WikiPage.Proofs.Renewal
import WikiPage.Proofs.Setting
import WikiPage.Proofs.Surroundings

/-!
# Categories that are taken away

A page can be taken out of a category that it is in. All links of the category go, each from the container
in which it stands, and the text of the page is what it was without them. No other category and no other
element is concerned.
-/

namespace WikiPage

namespace Arena

/-- A text in which nodes are printed one after the other, and what is left of the text without them. -/
inductive Weaves (a : Arena) : List NodeId → String → String → Prop
  | text (s : String) : Weaves a [] s s
  | node {n : NodeId} {nodes : List NodeId} {text whole rest : String} (s : String)
      (hn : a.print n = .ok text) (h : Weaves a nodes whole rest) :
      Weaves a (n :: nodes) (s ++ text ++ whole) (s ++ rest)

namespace Weaves

variable {a : Arena} {n : NodeId} {nodes others : List NodeId} {text whole rest whole' rest' : String}

theorem single (hn : a.print n = .ok text) : a.Weaves [n] text "" := by
  simpa using (Weaves.text "").node "" hn

theorem prepend (s : String) (h : a.Weaves nodes whole rest) : a.Weaves nodes (s ++ whole) (s ++ rest) := by
  cases h with
  | text t => exact .text _
  | node t hn h => simpa only [String.append_assoc] using h.node (s ++ t) hn

theorem append (h : a.Weaves nodes whole rest) (h' : a.Weaves others whole' rest') :
    a.Weaves (nodes ++ others) (whole ++ whole') (rest ++ rest') := by
  induction h with
  | text s => exact h'.prepend s
  | node s hn _ ih =>
    rw [List.cons_append]
    simpa only [String.append_assoc] using ih.node s hn

end Weaves

/-- The nodes below a node that are in a list, in the order of the text. -/
def marked (a : Arena) (nodes : List NodeId) (x : NodeId) : List NodeId :=
  (a.tree x).preorder.filter (· ∈ nodes)

variable {a b : Arena} {gone : List NodeId} {x : NodeId}

/-- A node prints with all of a list of nodes in its text, and is left to print without them. -/
def Sheds (a : Arena) (gone : List NodeId) (x : NodeId) (part : Except Error String) : Prop :=
  ∃ whole rest, a.print x = .ok whole ∧ part = .ok rest ∧ a.Weaves (a.marked gone x) whole rest

theorem weaves_interleave {items : List NodeId} {part : NodeId → Except Error String}
    (h : ∀ y ∈ items, a.Sheds gone y (part y)) (slots : List String) :
    ∃ whole rest, Node.interleave slots (items.map a.print) = .ok whole ∧
      Node.interleave slots (items.map part) = .ok rest ∧
      a.Weaves (items.flatMap (a.marked gone)) whole rest := by
  induction items generalizing slots with
  | nil => exact ⟨_, _, rfl, rfl, .text _⟩
  | cons y items ih =>
    obtain ⟨text, left, hw, hr, hy⟩ := h y List.mem_cons_self
    obtain ⟨whole, rest, hw', hr', hitems⟩ := ih (fun z hz => h z (List.mem_cons_of_mem _ hz)) slots.tail
    refine ⟨slots.headD "" ++ text ++ whole, slots.headD "" ++ left ++ rest, ?_, ?_, ?_⟩
    · simp [Node.interleave, hw, hw', bind, Except.bind]
    · simp [Node.interleave, hr, hr', bind, Except.bind]
    · rw [List.flatMap_cons, String.append_assoc, String.append_assoc]
      exact (hy.append hitems).prepend _

theorem joined_filter (items : List NodeId) (part : NodeId → Except Error String) :
    Node.joined ((items.filter (· ∉ gone)).map part) =
      Node.joined (items.map fun y => if y ∈ gone then .ok "" else part y) := by
  induction items with
  | nil => rfl
  | cons y items ih =>
    by_cases hy : y ∈ gone
    · rw [List.filter_cons_of_neg (by simpa using hy), ih, List.map_cons, if_pos hy, Node.joined]
      cases Node.joined (items.map fun y => if y ∈ gone then .ok "" else part y) <;>
        simp [bind, Except.bind]
    · rw [List.filter_cons_of_pos (by simpa using hy), List.map_cons, List.map_cons, if_neg hy,
        Node.joined, Node.joined, ih]

theorem IsForest.marked_eq (h : a.IsForest) (hx : x.index < a.size) (hout : x ∉ gone) :
    a.marked gone x = (a.kids x).flatMap (a.marked gone) := by
  obtain ⟨n, hn⟩ := exists_of_index_lt hx
  rw [marked, h.preorder_tree hn, List.filter_cons_of_neg (by simpa using hout), below, List.filter_flatMap]
  rfl

/-- Nodes that do not stand in one another have none of each other below them. -/
theorem IsForest.marked_of_mem (h : a.IsForest) (hx : x.index < a.size) (hin : x ∈ gone)
    (hapart : ∀ y ∈ gone, Reaches a.kids x y → x = y) : a.marked gone x = [x] := by
  obtain ⟨n, hn⟩ := exists_of_index_lt hx
  have hbelow : (a.below x).filter (· ∈ gone) = [] := by
    refine List.filter_eq_nil_iff.2 fun y hy => ?_
    rw [decide_eq_true_eq]
    intro hm
    have hmem : y ∈ (a.tree x).preorder := h.preorder_tree hn ▸ List.mem_cons_of_mem x hy
    obtain rfl := hapart y hm (h.mem_preorder_iff.1 hmem)
    have hnodup := h.nodup_preorder hx
    rw [h.preorder_tree hn, List.nodup_cons] at hnodup
    exact hnodup.1 hy
  rw [marked, h.preorder_tree hn, List.filter_cons_of_pos (by simpa using hin), hbelow]

/-- An arena in which the lists are without some of the nodes, and nothing else differs. -/
structure DropsItems (a : Arena) (gone : List NodeId) (b : Arena) : Prop where
  evolves : a.Evolves b
  kids : ∀ c, b.kids c = (a.kids c).filter (· ∉ gone)
  nodes : ∀ {n m}, a.find? n = some m → m.payload.isList = false → b.find? n = some m

/-- No node of a list stands in another one of it. -/
def Apart (a : Arena) (nodes : List NodeId) : Prop :=
  ∀ {m n}, m ∈ nodes → n ∈ nodes → Reaches a.kids m n → m = n

namespace DropsItems

variable [Entities] {source : String} {items : List NodeId} {n : Node}

/-- The items of a list that are to go are printed as nothing, the others as what is left of them. -/
theorem sheds_list (h : a.DropsItems gone b) (ha : a.Sound) (hb : b.Sound) (hw : a.Worded source)
    (hapart : a.Apart gone) (hn : a.find? x = some ⟨.list items, none⟩) (hout : x ∉ gone)
    (ih : ∀ y ∈ items, y ∉ gone → a.Sheds gone y (b.print y)) : a.Sheds gone x (b.print x) := by
  have hkids : a.kids x = items := kids_of_find? hn
  obtain ⟨g, hnew⟩ := h.evolves.find?_list hn
  have hparts (y : NodeId) (hy : y ∈ items) :
      a.Sheds gone y (if y ∈ gone then .ok "" else b.print y) := by
    by_cases hin : y ∈ gone
    · have hyx := ha.closed x y (hkids.symm ▸ hy)
      obtain ⟨text, ht⟩ := ha.founded.exists_print hw hyx
      refine ⟨text, "", ht, if_pos hin, ?_⟩
      rw [ha.marked_of_mem hyx hin fun z hz => hapart hin hz]
      exact .single ht
    · rw [if_neg hin]
      exact ih y hy hin
  obtain ⟨whole, rest, hwhole, hrest, hweaves⟩ := weaves_interleave hparts []
  refine ⟨whole, rest, ?_, ?_, ?_⟩
  · rw [ha.founded.print_list hn, ← Node.interleave_nil, hwhole]
  · rw [hb.founded.print_list (hb.find?_of_list hnew), h.kids, hkids, joined_filter,
      ← Node.interleave_nil, hrest]
  · rw [ha.marked_eq (index_lt_of_find? hn) hout, hkids]
    exact hweaves

theorem sheds_node (h : a.DropsItems gone b) (ha : a.Sound) (hb : b.Sound) (hw : a.Worded source)
    (hn : a.find? x = some n) (hl : n.payload.isList = false) (hout : x ∉ gone)
    (ih : ∀ y ∈ a.kids x, y ∉ gone → a.Sheds gone y (b.print y)) : a.Sheds gone x (b.print x) := by
  have hkids := kids_of_find? hn
  have hnew := h.nodes hn hl
  have hmarked := ha.marked_eq (index_lt_of_find? hn) hout
  cases hf : n.frame? with
  | some slots =>
    have hkept (y : NodeId) (hy : y ∈ n.payload.children) : a.Sheds gone y (b.print y) := by
      have hyb : y ∈ b.kids x := kids_of_find? hnew ▸ hy
      rw [h.kids] at hyb
      exact ih y (hkids ▸ hy) (of_decide_eq_true (List.mem_filter.1 hyb).2)
    obtain ⟨whole, rest, hwhole, hrest, hweaves⟩ := weaves_interleave hkept slots
    refine ⟨whole, rest, ?_, ?_, ?_⟩
    · rw [ha.founded.print_eq_of_frame? hn hf, hwhole]
    · rw [hb.founded.print_eq_of_frame? hnew hf, hrest]
    · rw [hmarked, hkids]
      exact hweaves
  | none =>
    obtain ⟨hg, hnil, text, ht⟩ := (hw x n hn).1.plain_of_frame? hf
    refine ⟨text, text, ?_, ?_, ?_⟩
    · rw [ha.founded.print_eq hn, hg]
      exact ht _ _
    · rw [hb.founded.print_eq hnew, hg]
      exact ht _ _
    · rw [hmarked, hkids, hnil]
      exact .text _

/-- Without the nodes, all that is left of a node is printed as it was. -/
theorem sheds (h : a.DropsItems gone b) (ha : a.Sound) (hb : b.Sound) (hw : a.Worded source)
    (hapart : a.Apart gone) (hx : x.index < a.size) (hout : x ∉ gone) :
    a.Sheds gone x (b.print x) := by
  induction x using ha.founded.wellFounded.induction with
  | _ x ih =>
    have ih (y : NodeId) (hy : y ∈ a.kids x) : y ∉ gone → a.Sheds gone y (b.print y) :=
      ih y hy (ha.closed x y hy)
    obtain ⟨n, hn⟩ := exists_of_index_lt hx
    cases hl : n.payload.isList with
    | true =>
      obtain ⟨items, hi⟩ : ∃ items, n.payload = .list items := by
        cases hp : n.payload <;> rw [hp] at hl <;> cases hl
        exact ⟨_, rfl⟩
      have hn : a.find? x = some ⟨.list items, n.glue⟩ := by rw [hn, ← hi]
      have hkids : a.kids x = items := kids_of_find? hn
      exact h.sheds_list ha hb hw hapart (ha.find?_of_list hn) hout (hkids ▸ ih)
    | false => exact h.sheds_node ha hb hw hn hl hout ih

/-- The page is printed with all of the nodes that are part of it, and left to print without them. -/
theorem weaves_page (h : a.DropsItems gone b) (ha : a.Sound) (hb : b.Sound) (hw : a.Worded source)
    (hapart : a.Apart gone) (hroot : root ∉ gone) : ∃ below whole rest, a.descendants root = .ok below ∧
      a.printPage = .ok whole ∧ b.printPage = .ok rest ∧
      a.Weaves (below.filter (· ∈ gone)) whole rest := by
  obtain ⟨c, g, hpage⟩ := ha.page
  obtain ⟨whole, rest, hwhole, hrest, hweaves⟩ :=
    h.sheds ha hb hw hapart (index_lt_of_find? hpage) hroot
  refine ⟨_, whole, rest, ha.descendants_eq hpage, hwhole, hrest, ?_⟩
  rwa [marked, ha.preorder_tree hpage, List.filter_cons_of_neg (by simpa using hroot)] at hweaves

end DropsItems

end Arena

namespace Page

variable {p q r : Page} {x y : ElementId} {name s : String}

theorem Dropped.dropsItems {gone kept : List PlacedLink} (hd : p.Dropped x gone kept q) :
    p.arena.DropsItems (gone.map PlacedLink.link) q.arena :=
  ⟨hd.evolves, hd.kids, hd.nodes⟩

/-- A page that has been taken out of a category. The category stands nowhere and has no links, and no name
leads to it. Its links are cut out of the text, and all other elements are as they were. -/
structure Removes (p : Page) (name : String) (x : ElementId) (q : Page) : Prop where
  parent : q.parent x = .ok none
  links : q.categoryLinks x = .ok []
  loose : ∀ n, p.owners.find? n = some x → q.arena.Loose n
  category? : ∀ s, q.category? s = if categoryKey s = categoryKey name then none else p.category? s
  categoryIds : q.categoryIds = p.categoryIds.filter (· ≠ x)
  others : ∀ y, y ≠ x → y ≠ root → q.find? y = p.find? y ∧ q.children y = p.children y ∧
    q.categoryName y = p.categoryName y ∧ q.categoryLinks y = p.categoryLinks y
  source : ∃ below analogs whole rest, p.arena.descendants Arena.root = .ok below ∧
    p.categoryLinks x = .ok analogs ∧ (below.filter (· ∈ analogs)).Perm analogs ∧
    p.source = .ok whole ∧ q.source = .ok rest ∧ p.arena.Weaves (below.filter (· ∈ analogs)) whole rest

theorem find?_detached (h : p.Recorded) (hc : p.IsCategory x) (hd : p.Dropped x (p.linksOf x) [] r)
    (y : ElementId) : (Edit.detached r x s).find? y = (p.find? y).map fun e => { e with
      parent := if y = x then none else e.parent
      links := if y = x then [] else e.links
      children := if y = root then e.children.filter (· ≠ x) else e.children } := by
  refine (find?_takeCategory (p := r.setIndex (r.categories.erase (categoryKey s)))
    (h.ne_root_of_isCategory hc) y).trans ?_
  change (r.find? y).map _ = _
  rw [hd.find?_eq]
  by_cases hy : y = x
  · cases p.find? y <;> simp [hy]
  · cases p.find? y <;> simp [hy]

theorem Synced.linked_ne_root (h : p.Synced) {n : NodeId} (hn : p.Linked n) : n ≠ Arena.root := by
  rintro rfl
  obtain ⟨target, title, g, hlink⟩ := Edit.find?_link (h.isFreeLink hn)
  obtain ⟨c, g', hpage⟩ := h.sound.page
  cases hlink.symm.trans hpage

theorem IsRooted.perm_linkNodes (hroot : p.IsRooted) (h : p.Recorded) {below : List NodeId}
    (hb : p.arena.descendants Arena.root = .ok below) :
    (below.filter (· ∈ p.linkNodes x)).Perm (p.linkNodes x) := by
  obtain ⟨c, g, hpage⟩ := h.sound.page
  obtain rfl := Except.ok.inj ((h.sound.descendants_eq hpage).symm.trans hb)
  have hnodup := h.sound.nodup_preorder (Arena.index_lt_of_find? hpage)
  rw [h.sound.preorder_tree hpage, List.nodup_cons] at hnodup
  refine (List.perm_ext_iff_of_nodup (hnodup.2.filter _) (h.links_nodup x)).2 fun n => ?_
  rw [List.mem_filter, decide_eq_true_eq]
  refine and_iff_right_of_imp fun hn => ?_
  have hlinked : p.Linked n := linked_iff.2 ⟨x, hn⟩
  exact h.sound.mem_below_of_reaches hpage (hroot.linked_part hlinked) (h.linked_ne_root hlinked).symm

theorem removes_of_dropped [Entities] (h : p.Recorded) (hi : p.Indexed) (hroot : p.IsRooted) {source : String}
    (hw : p.arena.Worded source) (hx : p.category? name = some x) (hd : p.Dropped x (p.linksOf x) [] r)
    (hs : p.nameOf? x = some s) : p.Removes name x (Edit.detached r x s) := by
  obtain ⟨hparent, hkey⟩ := hi.index_iff.1 hx
  have hc : p.IsCategory x := h.indexed hx
  have hne := h.ne_root_of_isCategory hc
  have hq : (Edit.detached r x s).Recorded := h.detached hc hd s
  have hfind := find?_detached (s := s) h hc hd
  obtain ⟨e, he, hkind⟩ := hc.exists_find?
  have hlinks : (Edit.detached r x s).linksOf x = [] := by
    rw [linksOf, hfind, he]
    simp
  have hcq : (Edit.detached r x s).IsCategory x :=
    (isCategory_congr ((form?_takeCategory hne).trans hd.form?)).2 hc
  obtain ⟨below, whole, rest, hbelow, hwhole, hrest, hweaves⟩ :=
    hd.dropsItems.weaves_page h.sound hq.sound hw
      (fun hm hn => hroot.apart (linked_iff.2 ⟨x, hm⟩) (linked_iff.2 ⟨x, hn⟩))
      fun hm => h.linked_ne_root (linked_iff.2 ⟨x, hm⟩) rfl
  refine ⟨?_, ?_, fun n hn c hm => ?_, fun k => ?_, ?_, fun y hy hyr => ?_, ?_⟩
  · exact parent_eq_ok_iff.2 ⟨_, (hfind x).trans (congrArg _ he), if_pos rfl⟩
  · rw [hcq.categoryLinks_eq_ok, linkNodes, hlinks]
    rfl
  · change n ∈ r.arena.kids c at hm
    rw [hd.kids, List.mem_filter, decide_eq_true_eq] at hm
    exact hm.2 (h.owner_iff.1 hn)
  · have hname : categoryKey s = categoryKey name := by
      rw [key?, hs] at hkey
      exact Option.some.inj hkey
    change (r.categories.erase (categoryKey s)).find? (categoryKey k) = _
    rw [Index.find?_erase, hd.categories, hname]
    rfl
  · rw [categoryIds_eq, categoryIds_eq, childrenOf, Tree.kids, hfind]
    rw [childrenOf, Tree.kids]
    cases p.find? root <;> simp [List.filter_filter, Bool.and_comm]
  · have hsame : (Edit.detached r x s).find? y = p.find? y := by
      rw [hfind]
      cases p.find? y <;> simp [hy, hyr]
    have hget : (Edit.detached r x s).get y = p.get y := by rw [get, get, hsame]
    refine ⟨hsame, ?_, ?_, ?_⟩
    · simp only [Page.children, hget]
    · simp only [Page.categoryName, requireKind, kind, storedName, value?, attribute?, hget]
    · simp only [Page.categoryLinks, hget]
  · exact ⟨below, p.linkNodes x, whole, rest, hbelow, hc.categoryLinks_eq_ok,
      hroot.perm_linkNodes h hbelow, by rw [Page.source, hwhole]; rfl,
      by rw [Page.source]; exact congrArg _ hrest, hweaves⟩

theorem Reached.removeCategory_iff [Entities] {site : Site} (h : p.Reached site) (hroot : p.IsRooted)
    (hs : site.NamesCategories) (name : String) :
    ((∃ x q, Edit.removeCategory name p = .ok x q) ↔ p.hasCategory name = true) ∧
    ∀ x q, Edit.removeCategory name p = .ok x q →
      p.category? name = some x ∧ p.Removes name x q := by
  have hr := h.orderly.recorded
  have hends : Ends (Edit.removeCategory name) p _ _ := Edit.ends_removeCategory hr.toSynced
    fun id hid => ⟨hr.inPlace id, hr.named (hr.indexed hid)⟩
  refine ⟨⟨fun ⟨x, q, hok⟩ => ?_, fun hin => ?_⟩, fun x q hok => ?_⟩
  · rw [hasCategory, (hends.of_ok hok).1]
    rfl
  · cases hm : Edit.removeCategory name p with
    | ok x q => exact ⟨x, q, rfl⟩
    | error err q =>
      rw [hasCategory, (hends.of_error hm).1] at hin
      cases hin
  · obtain ⟨hx, r, stored, hd, hstored, rfl⟩ := hends.of_ok hok
    obtain ⟨source, hw⟩ := h.exists_worded
    exact ⟨hx, removes_of_dropped hr (h.orderly.indexed hs) hroot hw hx hd hstored⟩

theorem removeCategory_run [Entities] {site : Site} {title : String} {acts : List Act} {p₀ : Page}
    (hs : site.NamesCategories)
    (h : Page.new site title = .ok p₀ ∨ ∃ text preserve, read text site title preserve = .ok p₀ ∧
      (preserve = true → p₀.Unnested))
    (ha : acts.all Act.isChecked = true) (hp : Act.run acts p₀ = p) (name : String) :
    ((∃ x q, Edit.removeCategory name p = .ok x q) ↔ p.hasCategory name = true) ∧
    ∀ x q, Edit.removeCategory name p = .ok x q →
      p.category? name = some x ∧ p.Removes name x q := by
  subst hp
  obtain ⟨hreached, hroot⟩ := rooted_run h ha
  exact hreached.removeCategory_iff hroot hs name

/-- A page with two links to a category, one of them in bold, and one to another. -/
def scattered : Page :=
  (read "[[Category:Foo]]'''a[[category:foo]]'''[[Category:Bar]]" .default "Test" false).toOption.getD
    (ofDrafts .new .default "Test" [])

theorem removeCategory_run_scattered :
    read "[[Category:Foo]]'''a[[category:foo]]'''[[Category:Bar]]" .default "Test" false = .ok scattered ∧
      ∃ x q, Edit.removeCategory "foo" scattered = .ok x q ∧ scattered.Removes "foo" x q ∧
        q.source = .ok "'''a'''[[Category:Bar]]" := by
  obtain ⟨hread, hin, hsource⟩ :
      read "[[Category:Foo]]'''a[[category:foo]]'''[[Category:Bar]]" .default "Test" false = .ok scattered ∧
        scattered.hasCategory "foo" = true ∧
        ((Edit.removeCategory "foo").exec scattered >>= Page.source) =
          .ok "'''a'''[[Category:Bar]]" := by
    decide +kernel
  have hall : ([] : List Act).all Act.isChecked = true := rfl
  have hrun (p : Page) : Act.run [] p = p := rfl
  obtain ⟨hiff, hremoves⟩ := removeCategory_run Site.namesCategories_default
    (.inr ⟨_, false, hread, fun h => by cases h⟩) hall (hrun scattered) "foo"
  obtain ⟨x, q, hok⟩ := hiff.2 hin
  rw [Edit.exec, hok] at hsource
  exact ⟨hread, x, q, hok, (hremoves x q hok).2, hsource⟩

end Page
end WikiPage
