import WikiPage.Proofs.Nesting

/-!
# Nothing is put into what is kept

A tag of an unknown kind may be kept as it stands. It is an element then, but what stands in the tag is
not read into elements, and no act ever puts one there: no element that is kept as it stands has children.
-/

namespace WikiPage

/-- A draft in which what is kept as it stands has nothing below it. -/
inductive Draft.Seals : Draft → Prop
  | node {kind : Kind} {backing : Backing} {attributes : List Attribute} {children : List Draft}
    (bare : kind = .preserved → children = [])
    (below : ∀ d ∈ children, Seals d) : Seals (node kind backing attributes children)

namespace Draft

mutual

theorem Seals.children_eq_nil {parent next : Nat} : (d : Draft) → d.Seals →
    ∀ e ∈ elements parent next d, e.kind = .preserved → e.children = []
  | .node kind backing attributes children, h, e, he, hk => by
    obtain ⟨hbare, hbelow⟩ := h
    rw [elements] at he
    rcases List.mem_cons.1 he with rfl | he
    · rw [hbare hk]
      rfl
    · exact Seals.children_eq_nil_of_mem children hbelow e he hk

theorem Seals.children_eq_nil_of_mem {parent next : Nat} : (ds : List Draft) → (∀ d ∈ ds, d.Seals) →
    ∀ e ∈ elementsOf parent next ds, e.kind = .preserved → e.children = []
  | [], _, _, he, _ => absurd he List.not_mem_nil
  | d :: ds, h, e, he, hk => by
    rw [elementsOf] at he
    rcases List.mem_append.1 he with he | he
    · exact Seals.children_eq_nil d (h d List.mem_cons_self) e he hk
    · exact Seals.children_eq_nil_of_mem ds (fun d hd => h d (List.mem_cons_of_mem _ hd)) e he hk

end

end Draft

namespace Findings

variable {a : Arena} {site : Site} {preserve : Bool} {f g : Findings} {id : NodeId}

/-- All drafts that were found are such. -/
def Seals (f : Findings) : Prop :=
  ∀ d ∈ f.drafts, d.Seals

theorem Seals.nil : Seals {} :=
  fun _ hd => absurd hd List.not_mem_nil

theorem Seals.append (hf : f.Seals) (hg : g.Seals) : (f.append g).Seals :=
  fun d hd => (List.mem_append.1 hd).elim (hf d) (hg d)

theorem Seals.wrap {kind : Kind} (hk : kind = .preserved → f.drafts = []) (hf : f.Seals) (backing : Backing)
    (attributes : List Attribute) : (f.wrap kind backing attributes).Seals := by
  intro d hd
  obtain rfl := List.mem_singleton.1 hd
  exact .node hk hf

theorem Seals.of_map {kind : Kind} (hk : kind ≠ .preserved) {backing : Backing} {attributes : List Attribute}
    {r : Except PageError Findings} (hr : ∀ f, r = .ok f → f.Seals)
    (hf : r.map (Findings.wrap kind backing attributes) = .ok f) : f.Seals := by
  obtain ⟨g, hg, rfl⟩ := Except.exists_of_map hf
  exact .wrap (fun h => absurd h hk) (hr g hg) backing attributes

theorem seals_unknown {name : String} (hf : unknown a site preserve id name = .ok f) : f.Seals := by
  unfold unknown at hf
  split at hf
  · obtain ⟨links, -, hf⟩ := Except.exists_of_bind hf
    cases hf
    exact .append .nil (.wrap (fun _ => rfl) .nil _ _)
  · cases hf

mutual

/-- What a node is read as puts nothing below what is kept. The recursion is that of reading. -/
theorem seals_ofNode (c : NodeId) : (t : Tree NodeId Node) → ∀ f,
    ofNode a site preserve c t = .ok f → f.Seals
  | .missing _, _, hf => by cases hf
  | .node id ⟨payload, g⟩ below, f, hf => by
    have hlists := seals_ofLists below
    have leaf {kind : Kind} (hk : kind ≠ .preserved)
        (hf : (.ok (Findings.leaf kind id) : Except PageError Findings) = .ok f) : f.Seals := by
      cases hf
      exact .wrap (fun h => absurd h hk) .nil _ _
    cases payload with
    | text s => exact leaf (by decide) hf
    | newline s => exact leaf (by decide) hf
    | reference r => exact leaf (by decide) hf
    | comment s => exact leaf (by decide) hf
    | rule => exact leaf (by decide) hf
    | paragraph content => exact .of_map (by decide) hlists hf
    | emphasis style content => cases style <;> exact .of_map (by decide) hlists hf
    | link target title =>
      rw [ofNode] at hf
      dsimp only at hf
      split at hf
      · cases hf
        exact .nil
      · cases hf
        exact fun _ hd => absurd hd List.not_mem_nil
      · exact .of_map (by decide) hlists hf
    | element name empty attributes body =>
      rw [ofNode] at hf
      dsimp only at hf
      split at hf
      · exact seals_unknown hf
      · rename_i kind hk
        exact seals_ofTag id (Kind.isSome_tag?_of_ofTag? hk).1 below f hf
    | page content => cases hf
    | list items => cases hf
    | attr name hasValue value => cases hf

theorem seals_ofTag {kind : Kind} (id : NodeId) (hk : kind.tag?.isSome) :
    (ts : List (Tree NodeId Node)) → ∀ f,
    ofTag a site preserve kind id ts = .ok f → f.Seals
  | [], _, hf => by
    cases hf
    exact .wrap (fun _ => rfl) .nil _ _
  | .missing _ :: _, _, hf => by cases hf
  | .node _ n _ :: body, f, hf => by
    rw [ofTag] at hf
    split at hf
    · obtain ⟨attributes, -, hf⟩ := Except.exists_of_bind hf
      obtain ⟨f, hfound, hf⟩ := Except.exists_of_bind hf
      cases hf
      refine .wrap (fun h => ?_) (seals_ofLists body f hfound) _ _
      rw [h] at hk
      cases hk
    · cases hf

theorem seals_ofLists : (ts : List (Tree NodeId Node)) → ∀ f,
    ofLists a site preserve ts = .ok f → f.Seals
  | [], _, hf => by
    cases hf
    exact .nil
  | .missing _ :: _, _, hf => by cases hf
  | .node list n below :: rest, f, hf => by
    rw [ofLists] at hf
    split at hf
    · obtain ⟨f, hfound, hf⟩ := Except.exists_of_bind hf
      obtain ⟨g, hrest, hf⟩ := Except.exists_of_bind hf
      cases hf
      exact (seals_ofItems list below f hfound).append (seals_ofLists rest g hrest)
    · cases hf

theorem seals_ofItems (c : NodeId) : (ts : List (Tree NodeId Node)) → ∀ f,
    ofItems a site preserve c ts = .ok f → f.Seals
  | [], _, hf => by
    cases hf
    exact .nil
  | t :: ts, f, hf => by
    rw [ofItems] at hf
    obtain ⟨f, hfound, hf⟩ := Except.exists_of_bind hf
    obtain ⟨g, hrest, hf⟩ := Except.exists_of_bind hf
    cases hf
    exact (seals_ofNode c t f hfound).append (seals_ofItems c ts g hrest)

end

end Findings

namespace Page

variable {a : Arena} {site : Site} {title text : String} {drafts : List Draft} {p q : Page} {x y id : ElementId}
  {l : PlacedLink} {ch : List ElementId}

theorem kindOf?_eq_form? (p : Page) (x : ElementId) : p.kindOf? x = (p.form? x).map Prod.fst := by
  rw [kindOf?, form?]
  cases p.find? x <;> rfl

theorem kindOf?_of_form? {x : ElementId} {k : Kind} {b : Option Backing} (hx : p.form? x = some (k, b)) :
    p.kindOf? x = some k := by
  rw [kindOf?_eq_form?, hx, Option.map_some]

theorem parentOf_next_pushCategory {name : String} : (p.push (newCategory name)).parentOf p.next = none := by
  rw [parentOf_pushCategory_eq, parentOf, find?_next]
  rfl

theorem not_takes_of_preserved {x y : ElementId} (hx : p.kindOf? x = some .preserved) : ¬p.Takes x y := by
  rintro ⟨k, k', hk, -, ht⟩
  obtain rfl := Option.some.inj (hx.symm.trans hk)
  cases ht

theorem Synced.kindOf?_root_ne (h : p.Synced) : p.kindOf? root ≠ some .preserved := by
  rw [kindOf?_of_form? h.root_form]
  nofun

/-- No element that is kept as it stands has children. -/
def Seals (p : Page) : Prop :=
  ∀ x, p.kindOf? x = some .preserved → p.childrenOf x = []

namespace Seals

theorem sameSpots (h : p.Seals) (hq : p.SameSpots q) : q.Seals := by
  intro x hx
  rcases hq x with hs | ⟨-, -, hch⟩
  · rw [childrenOf_eq_spot?, hs, ← childrenOf_eq_spot?]
    exact h x (by rwa [kindOf?_eq_spot?, ← hs, ← kindOf?_eq_spot?])
  · exact hch

theorem of_elements (h : p.Seals) (hq : q.elements = p.elements) : q.Seals :=
  h.sameSpots (.of_elements hq)

theorem relinks (h : p.Seals) (hq : p.Relinks x ch q) (hx : p.kindOf? x ≠ some .preserved) : q.Seals := by
  intro y hy
  rw [kindOf?_eq_form?, hq.form, ← kindOf?_eq_form?] at hy
  rw [hq.children, if_neg fun (hyx : y = x) => hx (hyx ▸ hy)]
  exact h y hy

theorem pushCategory (h : p.Seals) (name : String) : (p.push (newCategory name)).Seals :=
  h.sameSpots (.push ⟨rfl, rfl⟩)

theorem addLink (h : p.Seals) (l : PlacedLink) : (p.addLink id l).Seals := by
  intro x hx
  rw [kindOf?_eq_form?, form?_addLink, ← kindOf?_eq_form?] at hx
  rw [childrenOf_addLink]
  exact h x hx

theorem attached (hs : p.Seals) (h : p.Synced) (hc : p.IsCategory id) (hp : p.parentOf id = none)
    (hl : p.IsFreeLink l.link) (name : String) : (Edit.attached p id name l).Seals := by
  have hadd : (p.addLink id l).Synced := h.addLink hl
  have hac : (p.addLink id l).IsCategory id := (isCategory_congr form?_addLink).2 hc
  have hput := hadd.relinks_putCategory hac (by rw [parentOf_addLink, hp])
  exact ((hs.addLink l).relinks hput hadd.kindOf?_root_ne).of_elements rfl

end Seals

theorem seals_ofDrafts (h : ∀ d ∈ drafts, d.Seals) : (ofDrafts a site title drafts).Seals := by
  intro x hx
  cases he : (ofDrafts a site title drafts).find? x with
  | none =>
    rw [kindOf?, he] at hx
    cases hx
  | some e =>
    rw [kindOf?, he, Option.map_some, Option.some.injEq] at hx
    rw [childrenOf_of_find? he]
    obtain ⟨_ | _ | i⟩ := x
    · cases he
      cases hx
    · cases he
      cases hx
    · rw [show i + 1 + 1 = 2 + i by omega, find?_ofDrafts] at he
      exact Draft.Seals.children_eq_nil_of_mem drafts h e (List.mem_of_getElem? he) hx

end Page

namespace Edit

open Page (Seals)

variable {p q q' : Page} {x y id : ElementId} {c k : NodeId} {s r b t : List NodeId} {name : String}
  {l : PlacedLink}

theorem Exchange.seals (hq : Exchange p x c s r b t q) (h : p.Synced) (hs : p.Seals)
    (hx : p.kindOf? x ≠ some .preserved) (hr : Refresh q x q') : q'.Seals := by
  obtain ⟨ch, hfill, hre⟩ := hq.filled
  have hqs := hs.relinks (hfill.relinks h hre) hx
  cases hr with
  | keep _ => exact hqs
  | renew _ _ _ => exact hqs.of_elements rfl

theorem Exchange.childrenOf_ne_nil (hq : Exchange p x c s [k] b t q) (h : p.Synced)
    (hy : p.backing? y = some k) : p.childrenOf x ≠ [] :=
  List.ne_nil_of_mem (h.mem_childrenOf_of_mem_kids hq.container hy (by simp [hq.kids]))

theorem StaysPut.seals {α : Type} {m : Edit α} (hm : StaysPut m) (hs : p.Seals) :
    Ends m p (fun _ q => q.Seals) fun _ _ => True :=
  (hm p).mono (fun _ _ hq => hs.sameSpots hq.spots) fun _ _ _ => trivial

theorem seals_addCategory (h : p.Synced) (hs : p.Seals) :
    Ends (addCategory name) p (fun _ q => q.Seals) fun _ _ => True := by
  refine (ends_addCategory_made h).mono ?_ fun _ _ _ => trivial
  rintro id q ⟨rfl, -, -, r, l, hl, rfl⟩
  have hnew := hl.newLink (h.pushCategory _)
  refine ((hs.pushCategory _).of_elements hnew.elements).attached hnew.calm.synced
    (hnew.calm.isCategory.2 isCategory_pushCategory) ?_ hnew.free _
  rw [Page.parentOf, Page.find?, hnew.elements]
  exact Page.parentOf_next_pushCategory

theorem seals_removeCategory (h : p.Recorded) (hs : p.Seals) :
    Ends (removeCategory name) p (fun _ q => q.Seals) fun _ _ => True := by
  refine (ends_removeCategory h.toSynced fun id hid => ⟨h.inPlace id, h.named (h.indexed hid)⟩).mono ?_
    fun _ _ _ => trivial
  rintro id q ⟨hid, r, stored, hd, -, rfl⟩
  have hrs : r.Seals := by
    refine hs.sameSpots fun x => .inl ?_
    rw [Page.spot?, hd.find?_eq, Page.spot?]
    split
    · cases p.find? x <;> rfl
    · rfl
  have hrc := hd.isCategory (h.indexed hid)
  have hset := hd.synced.eraseIndex (categoryKey stored)
  have hsealed : (r.setIndex (r.categories.erase (categoryKey stored))).Seals := hrs.of_elements rfl
  exact hsealed.relinks (hset.relinks_takeCategory hrc) hset.kindOf?_root_ne

theorem seals_registerLink (h : p.Recorded) (hs : p.Seals) (hf : p.IsFreeLink l.link) :
    Ends (registerLink name l) p (fun _ q => q.Seals) fun _ _ => False := by
  refine (ends_registerLink h.toSynced).mono (fun _ q hq => ?_) fun _ _ hf => hf
  rcases hq with ⟨id, hid, rfl⟩ | ⟨-, rfl⟩
  · exact (hs.addLink l).sameSpots (.update fun _ => ⟨rfl, rfl, rfl⟩)
  · exact (hs.pushCategory name).attached (h.toSynced.pushCategory name) isCategory_pushCategory
      Page.parentOf_next_pushCategory (hf.pushCategory name) name

end Edit

namespace Act

open Edit

variable {p : Page} {act : Act}

theorem seals_edit (h : p.Recorded) (hs : p.Seals) : Ends act.edit p (fun _ q => q.Seals) fun _ _ => True := by
  cases hm : act.moves with
  | false => exact (staysPut_edit hm).seals hs
  | true =>
    cases act with
    | insertChild parent child position =>
      by_cases hx : p.kindOf? parent = some .preserved
      · exact Ends.bind (ends_ask (fun _ hok => absurd (Page.takes_of_checkInsertable hok)
          (Page.not_takes_of_preserved hx)) fun _ _ => trivial)
      · refine (ends_insertChild_exchange h.toSynced).mono (fun _ q' hq' => ?_) fun _ _ _ => trivial
        obtain ⟨c, k, s, t, q, -, hq, -, hr⟩ := hq'
        exact hq.seals h.toSynced hs hx hr
    | removeChild parent child =>
      refine ends_removeChild_exchange h.toSynced (fun _ _ _ _ _ _ hk hq hr => ?_) fun _ _ _ => trivial
      have hx : p.kindOf? parent ≠ some .preserved := fun hx => hq.childrenOf_ne_nil h.toSynced hk (hs parent hx)
      exact (staysPut_keepCategories _).seals (hq.seals h.toSynced hs hx hr)
    | replaceChild parent new old =>
      refine ends_replaceChild_exchange h.toSynced (fun _ _ _ _ _ _ _ hk _ hq hr => ?_) fun _ _ _ => trivial
      have hx : p.kindOf? parent ≠ some .preserved := fun hx => hq.childrenOf_ne_nil h.toSynced hk (hs parent hx)
      exact (staysPut_keepCategories _).seals (hq.seals h.toSynced hs hx hr)
    | addCategory name =>
      exact (seals_addCategory h.toSynced hs).step (fun _ _ hq => Ends.pure hq) fun _ _ h => h
    | removeCategory name => exact (seals_removeCategory h hs).step (fun _ _ hq => Ends.pure hq) fun _ _ h => h
    | _ => cases hm

end Act

namespace Page

variable [Entities] {site : Site} {title text : String} {p : Page}

theorem seals_read {preserve : Bool} (h : read text site title preserve = .ok p) : p.Seals := by
  have hnew : Edit.KeptByRegistering fun _ q => q.Seals :=
    fun _ _ _ hrec hf _ hs => Edit.seals_registerLink hrec hs hf
  obtain ⟨-, -, -, -, -, hs⟩ := exists_of_ofArena (Arena.sound_read text) (Arena.loose_root_read text) h
    hnew fun _ _ hf => seals_ofDrafts (Findings.seals_ofLists _ _ hf)
  exact hs

theorem Reached.seals (h : p.Reached site) : p.Seals := by
  induction h with
  | new h =>
    obtain ⟨_, -, h⟩ := Except.exists_of_bind h
    cases h
    exact seals_ofDrafts nofun
  | read h => exact seals_read h
  | act hp act hc ih => exact Act.after_of_ok hp.orderly.recorded hc ih (act.seals_edit hp.orderly.recorded ih)

end Page
end WikiPage
