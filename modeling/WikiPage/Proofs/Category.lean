import WikiPage.Proofs.Links

/-!
# Categories

What the edits of categories leave behind. A category has no node of its own, so attaching and detaching
one changes only the table of elements and the indexes; its links come and go on their own.
-/

namespace WikiPage

open Page (Synced)

theorem modify_push_size {α : Type} (xs : Array α) (x : α) (f : α → α) :
    (xs.push x).modify xs.size f = xs.push (f x) := by
  refine Array.ext (by simp) fun i h₁ h₂ => ?_
  simp only [Array.size_push] at h₂
  rw [Array.getElem_modify, Array.getElem_push, Array.getElem_push]
  by_cases hi : i < xs.size
  · simp [hi, Nat.ne_of_gt hi]
  · have hi' : i = xs.size := by omega
    simp [hi']

namespace Page

variable {p : Page} {id : ElementId}

/-- The element that is made for a category. -/
def newCategory (name : String) : Element :=
  { kind := .category, backing := none
    attributes := [⟨"name", Normalization.words.apply name, none⟩] }

/-- The page with one more link of a category on record. -/
def addLink (p : Page) (id : ElementId) (l : PlacedLink) : Page :=
  update { p with owners := p.owners.insert l.link id } id fun e => { e with links := e.links ++ [l] }

/-- The page with a category put below the root. -/
def putCategory (p : Page) (id : ElementId) : Page :=
  (p.update id fun e => { e with parent := some root }).update root fun e =>
    { e with children := e.children ++ [id] }

/-- The page with a category taken from below the root. -/
def takeCategory (p : Page) (id : ElementId) : Page :=
  (p.update root fun e => { e with children := e.children.filter (· ≠ id) }).update id fun e =>
    { e with parent := none }

def setIndex (p : Page) (categories : Index String ElementId) : Page :=
  { p with categories := categories }

theorem find?_setIndex {categories : Index String ElementId} (y : ElementId) :
    (p.setIndex categories).find? y = p.find? y := rfl

theorem childrenOf_setIndex {categories : Index String ElementId} (y : ElementId) :
    (p.setIndex categories).childrenOf y = p.childrenOf y := rfl

theorem parentOf_setIndex {categories : Index String ElementId} (y : ElementId) :
    (p.setIndex categories).parentOf y = p.parentOf y := rfl

theorem find?_putCategory (hid : id ≠ root) (y : ElementId) : (p.putCategory id).find? y =
    (p.find? y).map fun e => { e with
      parent := if y = id then some root else e.parent
      children := if y = root then e.children ++ [id] else e.children } := by
  rw [putCategory, find?_update, find?_update]
  by_cases hr : y = root
  · subst y
    cases p.find? root <;> simp [hid.symm]
  · by_cases hy : y = id <;> cases p.find? y <;> simp [hr, hy, hid]

theorem find?_takeCategory (hid : id ≠ root) (y : ElementId) : (p.takeCategory id).find? y =
    (p.find? y).map fun e => { e with
      parent := if y = id then none else e.parent
      children := if y = root then e.children.filter (· ≠ id) else e.children } := by
  rw [takeCategory, find?_update, find?_update]
  by_cases hr : y = root
  · subst y
    cases p.find? root <;> simp [hid.symm]
  · by_cases hy : y = id <;> cases p.find? y <;> simp [hr, hy, hid]

theorem find?_addLink {l : PlacedLink} (y : ElementId) : (p.addLink id l).find? y =
    if y = id then (p.find? y).map fun e => { e with links := e.links ++ [l] } else p.find? y :=
  find?_update _ id y _

theorem form?_addLink {l : PlacedLink} : (p.addLink id l).form? = p.form? := by
  funext y
  rw [form?, form?, find?_addLink]
  split
  · cases p.find? y <;> rfl
  · rfl

theorem parentOf_addLink {l : PlacedLink} : (p.addLink id l).parentOf = p.parentOf := by
  funext y
  rw [parentOf, parentOf, find?_addLink]
  split
  · cases p.find? y <;> rfl
  · rfl

theorem IsCategory.exists_find? (hc : p.IsCategory id) :
    ∃ e, p.find? id = some e ∧ e.kind = .category := by
  obtain ⟨o, ho⟩ := hc
  obtain ⟨e, he, hk, -⟩ := find?_of_form? ho
  exact ⟨e, he, hk⟩

theorem Synced.exists_root (h : p.Synced) : ∃ e, p.find? root = some e := by
  obtain ⟨e, he, -⟩ := find?_of_form? h.root_form
  exact ⟨e, he⟩

theorem isCategory_congr {q : Page} (h : q.form? = p.form?) : q.IsCategory id ↔ p.IsCategory id := by
  rw [IsCategory, IsCategory, h]

theorem Dropped.isCategory {q : Page} {x : ElementId} {gone kept : List PlacedLink}
    (hd : p.Dropped x gone kept q) (hc : p.IsCategory id) : q.IsCategory id :=
  (isCategory_congr hd.form?).2 hc

theorem form?_putCategory (hid : id ≠ root) : (p.putCategory id).form? = p.form? :=
  form?_of_map (find?_putCategory hid) fun _ _ => ⟨rfl, rfl⟩

theorem form?_takeCategory (hid : id ≠ root) : (p.takeCategory id).form? = p.form? :=
  form?_of_map (find?_takeCategory hid) fun _ _ => ⟨rfl, rfl⟩

namespace Synced

theorem ne_root_of_isCategory (h : p.Synced) (hc : p.IsCategory id) : id ≠ root := by
  rintro rfl
  obtain ⟨o, ho⟩ := hc
  cases ho.symm.trans h.root_form

theorem ne_body_of_isCategory (h : p.Synced) (hc : p.IsCategory id) : id ≠ body := by
  rintro rfl
  obtain ⟨o, ho⟩ := hc
  cases ho.symm.trans h.body_form

theorem setIndex (h : p.Synced) {categories : Index String ElementId}
    (hc : ∀ k x, categories.find? k = some x → p.categories.find? k = some x ∨ p.IsCategory x) :
    (p.setIndex categories).Synced :=
  h.of_sameShape ⟨rfl, rfl, rfl, rfl, fun _ => .inl rfl, fun _ hn => .inl hn, hc⟩

theorem insertIndex (h : p.Synced) (hc : p.IsCategory id) (k : String) :
    (p.setIndex (p.categories.insert k id)).Synced := by
  refine h.setIndex fun k' x hx => ?_
  rw [Index.find?_insert] at hx
  split at hx
  · exact .inr (Option.some.inj hx ▸ hc)
  · exact .inl hx

theorem eraseIndex (h : p.Synced) (k : String) : (p.setIndex (p.categories.erase k)).Synced := by
  refine h.setIndex fun k' x hx => ?_
  rw [Index.find?_erase] at hx
  split at hx
  · cases hx
  · exact .inl hx

theorem addLink (h : p.Synced) {l : PlacedLink} (hl : p.IsFreeLink l.link) :
    (p.addLink id l).Synced := by
  refine (h.setOwners _).setLinks fun e he k hk => ?_
  rcases List.mem_append.1 hk with hk | hk
  · exact h.isFreeLink ⟨id, e, he, List.mem_map_of_mem hk⟩
  · exact List.mem_singleton.1 hk ▸ hl

theorem pushElement (h : p.Synced) {e : Element} (hp : e.parent = none) (hc : e.children = [])
    (hl : e.links = []) (ha : e.attributes.filterMap Attribute.node = [])
    (hk : e.kind ≠ .page ∧ e.kind ≠ .body) (hw : p.arena.Writes e.kind e.backing)
    (hnode : ∀ n, e.backing.map Backing.node = some n →
      p.arena.Loose n ∧ ¬p.Linked n ∧ ∀ y, p.backing? y ≠ some n) : (p.push e).Synced := by
  have hnext : p.find? p.next = none := by simp [find?, next]
  have hadds : p.Adds p.next e.kind e.backing (p.push e) :=
    { arena := rfl
      free := by simp [form?, hnext]
      form := fun y => by
        rw [form?, find?_push]
        split <;> rfl
      children := by
        funext y
        rw [childrenOf, childrenOf, Tree.kids, Tree.kids, find?_push]
        split
        · simp [*]
        · rfl
      parents := by
        funext y
        rw [parentOf, parentOf, find?_push]
        split
        · simp [*]
        · rfl
      written := by
        funext y
        rw [writtenOf, writtenOf, find?_push]
        split
        · simp [*]
        · rfl
      linked := by
        rintro n ⟨x, e', he, hn⟩
        rw [find?_push] at he
        split at he
        · obtain rfl := Option.some.inj he
          simp [hl] at hn
        · exact ⟨x, e', he, hn⟩
      categories := rfl
      movable := hk
      writes := hw
      node := hnode }
  exact h.add hadds

theorem pushCategory (h : p.Synced) (name : String) : (p.push (newCategory name)).Synced :=
  h.pushElement rfl rfl rfl rfl ⟨nofun, nofun⟩ rfl nofun

theorem childrenOf_putCategory (h : p.Synced) (hc : p.IsCategory id) (y : ElementId) :
    (p.putCategory id).childrenOf y =
      if y = root then p.childrenOf root ++ [id] else p.childrenOf y := by
  rw [childrenOf, Tree.kids, find?_putCategory (h.ne_root_of_isCategory hc)]
  by_cases hy : y = root
  · obtain ⟨r, hr, -⟩ := find?_of_form? h.root_form
    simp [childrenOf, Tree.kids, hy, hr]
  · cases he : p.find? y <;> simp [childrenOf, Tree.kids, he, hy]

theorem parentOf_putCategory (h : p.Synced) (hc : p.IsCategory id) (y : ElementId) :
    (p.putCategory id).parentOf y = if y = id then some root else p.parentOf y := by
  rw [parentOf, find?_putCategory (h.ne_root_of_isCategory hc)]
  by_cases hy : y = id
  · obtain ⟨o, ho⟩ := hc
    obtain ⟨e, he, -⟩ := find?_of_form? ho
    simp [hy, he]
  · cases he : p.find? y <;> simp [parentOf, he, hy]

theorem relinks_putCategory (h : p.Synced) (hc : p.IsCategory id) (hp : p.parentOf id = none) :
    p.Relinks root (p.childrenOf root ++ [id]) (p.putCategory id) where
  sound := h.sound
  evolves := .refl _
  form := form?_putCategory (h.ne_root_of_isCategory hc)
  written := writtenOf_of_map (find?_putCategory (h.ne_root_of_isCategory hc)) fun _ _ => rfl
  linked _ := linked_of_map (find?_putCategory (h.ne_root_of_isCategory hc)) fun _ _ => rfl
  categories := rfl
  children := h.childrenOf_putCategory hc
  parents y := by
    rw [h.parentOf_putCategory hc]
    by_cases hy : y = id
    · simp [hy]
    · by_cases hyr : y ∈ p.childrenOf root
      · simp [hy, hyr, h.parent_iff.2 hyr]
      · simp [hy, hyr]
  nodup := by
    refine List.nodup_append'.2 ⟨h.forest.nodup root, List.nodup_singleton _, ?_⟩
    have hout : id ∉ p.childrenOf root := fun hm => by cases hp.symm.trans (h.parent_iff.2 hm)
    simpa using hout
  new y hy hyr := by
    obtain rfl : y = id := by simpa [hyr] using hy
    refine ⟨h.ne_root_of_isCategory hc, hp, fun hre => ?_⟩
    rcases hre.eq_or_mem with hre | ⟨z, hz⟩
    · exact h.ne_root_of_isCategory hc hre
    · cases h.root_parent.symm.trans (h.parent_iff.2 hz)
  page _ := by
    refine ⟨List.mem_append_left _ (h.parent_iff.1 h.body_parent), fun y hy => ?_⟩
    rcases List.mem_append.1 hy with hy | hy
    · exact h.root_child (h.parent_iff.2 hy)
    · exact .inr (List.mem_singleton.1 hy ▸ hc)
  category _ _ _ _ := rfl
  container hx := absurd rfl hx
  kids _ _ := rfl
  kept c hr := by cases h.root_container.symm.trans hr
  back c hr := by cases h.root_container.symm.trans hr

theorem putCategory (h : p.Synced) (hc : p.IsCategory id) (hp : p.parentOf id = none) :
    (p.putCategory id).Synced :=
  h.relink (h.relinks_putCategory hc hp)

theorem childrenOf_takeCategory (h : p.Synced) (hc : p.IsCategory id) (y : ElementId) :
    (p.takeCategory id).childrenOf y =
      if y = root then (p.childrenOf root).filter (· ≠ id) else p.childrenOf y := by
  rw [childrenOf, Tree.kids, find?_takeCategory (h.ne_root_of_isCategory hc)]
  by_cases hy : y = root
  · cases he : p.find? root <;> simp [childrenOf, Tree.kids, hy, he]
  · cases he : p.find? y <;> simp [childrenOf, Tree.kids, he, hy]

theorem parentOf_takeCategory (h : p.Synced) (hc : p.IsCategory id) (y : ElementId) :
    (p.takeCategory id).parentOf y = if y = id then none else p.parentOf y := by
  rw [parentOf, find?_takeCategory (h.ne_root_of_isCategory hc)]
  by_cases hy : y = id
  · cases he : p.find? id <;> simp [hy, he]
  · cases he : p.find? y <;> simp [parentOf, he, hy]

theorem relinks_takeCategory (h : p.Synced) (hc : p.IsCategory id) :
    p.Relinks root ((p.childrenOf root).filter (· ≠ id)) (p.takeCategory id) where
  sound := h.sound
  evolves := .refl _
  form := form?_takeCategory (h.ne_root_of_isCategory hc)
  written := writtenOf_of_map (find?_takeCategory (h.ne_root_of_isCategory hc)) fun _ _ => rfl
  linked _ := linked_of_map (find?_takeCategory (h.ne_root_of_isCategory hc)) fun _ _ => rfl
  categories := rfl
  children := h.childrenOf_takeCategory hc
  parents y := by
    rw [h.parentOf_takeCategory hc]
    by_cases hy : y = id
    · subst y
      by_cases hm : id ∈ p.childrenOf root
      · simp [hm]
      · cases hp : p.parentOf id with
        | none => simp [hm]
        | some x =>
          obtain ⟨o, ho⟩ := hc
          obtain rfl := h.category_parent ho hp
          exact absurd (h.parent_iff.1 hp) hm
    · by_cases hyr : y ∈ p.childrenOf root
      · simp [hy, hyr, h.parent_iff.2 hyr]
      · simp [hy, hyr]
  nodup := (h.forest.nodup root).filter _
  new _ hy hyr := absurd (List.mem_filter.1 hy).1 hyr
  page _ := by
    refine ⟨?_, fun y hy => h.root_child (h.parent_iff.2 (List.mem_filter.1 hy).1)⟩
    exact List.mem_filter.2 ⟨h.parent_iff.1 h.body_parent,
      by simpa using (h.ne_body_of_isCategory hc).symm⟩
  category _ _ _ _ := rfl
  container hx := absurd rfl hx
  kids _ _ := rfl
  kept c hr := by cases h.root_container.symm.trans hr
  back c hr := by cases h.root_container.symm.trans hr

theorem takeCategory (h : p.Synced) (hc : p.IsCategory id) : (p.takeCategory id).Synced :=
  h.relink (h.relinks_takeCategory hc)

end Synced

theorem storedName_eq_ok {s : String} (hc : p.IsCategory id) :
    p.storedName id = .ok s ↔ p.nameOf? id = some s := by
  obtain ⟨o, ho⟩ := hc
  obtain ⟨e, he, hk, -⟩ := find?_of_form? ho
  have hn : "name".toLower = "name" := by decide +kernel
  have hv : p.value? id "name" =
      .ok ((Attribute.find? e.attributes "name").map Attribute.value) := by
    simp [value?, attribute?, get_eq_ok_iff.2 he, Except.map, hn]
  rw [storedName, hv, nameOf?, he]
  simp only [Option.bind_some, hk, if_true]
  cases Attribute.find? e.attributes "name" with
  | none => simp [bind, Except.bind]
  | some a => simp [bind, Except.bind]

theorem update_push_next (e : Element) (f : Element → Element) :
    (p.push e).update p.next f = p.push (f e) := by
  simp only [push, update, next, modify_push_size]

end Page

namespace Edit

variable {p : Page} {id : ElementId} {link : NodeId}

theorem ends_addLink (hid : p.find? id ≠ none) {l : PlacedLink} :
    Ends (addLink id l) p (fun _ q => q = p.addLink id l) fun _ _ => False :=
  Ends.bind (Ends.modify (ends_update (fun _ _ => rfl) fun hn => hid hn))

theorem ends_attachCategory {e r : Element} {name : String} {l : PlacedLink}
    (he : p.find? id = some e) (hr : p.find? Page.root = some r) :
    Ends (attachCategory id name l) p
      (fun _ q => q = ((p.addLink id l).putCategory id).setIndex
        (p.categories.insert (categoryKey name) id)) fun _ _ => False := by
  refine (ends_addLink (by simp [he])).step (fun _ q hq => ?_) fun _ _ hf => hf.elim
  subst hq
  refine Ends.bind (ends_update (fun _ _ => ?_) fun hn => ?_)
  · refine Ends.bind (ends_update (fun _ _ => Ends.modify rfl) fun hn => ?_)
    rw [Page.find?_update, Page.find?_addLink] at hn
    split at hn <;> simp_all
  · simp [Page.find?_addLink, he] at hn

/-- The page with a category attached to it. -/
def attached (p : Page) (id : ElementId) (name : String) (l : PlacedLink) : Page :=
  ((p.addLink id l).putCategory id).setIndex (p.categories.insert (categoryKey name) id)

section

variable {name : String} {l : PlacedLink}

theorem arena_attached : (attached p id name l).arena = p.arena := by
  simp only [attached, Page.setIndex, Page.putCategory, Page.addLink, Page.arena_update]

theorem site_attached : (attached p id name l).site = p.site := by
  simp only [attached, Page.setIndex, Page.putCategory, Page.addLink, Page.update]

theorem categories_attached : (attached p id name l).categories =
    p.categories.insert (categoryKey name) id := rfl

theorem find?_attached (hid : id ≠ Page.root) (y : ElementId) : (attached p id name l).find? y =
    ((p.addLink id l).find? y).map fun e => { e with
      parent := if y = id then some Page.root else e.parent
      children := if y = Page.root then e.children ++ [id] else e.children } := by
  rw [attached, Page.find?_setIndex, Page.find?_putCategory hid]

end

theorem synced_attached (h : p.Synced) (hc : p.IsCategory id) (hp : p.parentOf id = none)
    {name : String} {l : PlacedLink} (hl : p.IsFreeLink l.link) : (attached p id name l).Synced := by
  have h₁ : (p.addLink id l).Synced := h.addLink hl
  have hc₁ : (p.addLink id l).IsCategory id := (Page.isCategory_congr Page.form?_addLink).2 hc
  have h₂ := h₁.putCategory hc₁ (by rw [Page.parentOf_addLink, hp])
  have hc₂ := (Page.isCategory_congr (Page.form?_putCategory (h.ne_root_of_isCategory hc))).2 hc₁
  exact h₂.insertIndex hc₂ (categoryKey name)

def namePolicy : Policy :=
  { name := "name", verifier := .categoryName, removable := false, synced := false
    reaction := some .renameCategory }

theorem find?_namePolicy : Policy.find? .category "name" = some namePolicy := by decide +kernel

theorem toLower_name : "name".toLower = "name" := by decide +kernel

/-- The page with another name for a category. -/
def renamed (p : Page) (id : ElementId) (name : String) : Page :=
  p.update id (store "name" (Normalization.words.apply name))

theorem ends_assign_name {e : Element} (he : p.find? id = some e) (hk : e.kind = .category)
    {name : String} : Ends (assign id "name" name) p (fun _ q => q = renamed p id name)
      fun _ _ => False := by
  have hget := Page.get_eq_ok_iff.2 he
  have hok : p.policy id "name" = .ok namePolicy := by
    simp [Page.policy, Page.kind, hget, Except.map, bind, Except.bind, hk, find?_namePolicy]
  refine Ends.bind (ends_ask (fun policy hp => ?_) fun _ herr => by cases hok.symm.trans herr)
  obtain rfl := Except.ok.inj (hok.symm.trans hp)
  refine (ends_commit_of_unsynced rfl).mono ?_ fun _ _ hq => by cases hq.2.symm.trans he
  rintro _ q ⟨-, -, -, rfl⟩
  rw [toLower_name]
  rfl

theorem ends_makeCategory {name : String} : Ends (makeCategory name) p
    (fun id q => id = p.next ∧ q = p.push (Page.newCategory name)) fun _ _ => False := by
  refine Ends.bind (ends_make ?_)
  have hfind : (p.push { kind := .category, backing := none }).find? p.next =
      some { kind := .category, backing := none } := by simp
  refine (ends_assign_name hfind rfl).step (fun _ q hq => Ends.pure ⟨rfl, ?_⟩) fun _ _ hf => hf
  rw [hq, renamed, Page.update_push_next]
  rfl

theorem isCategory_pushCategory {name : String} :
    (p.push (Page.newCategory name)).IsCategory p.next :=
  ⟨none, by simp [Page.form?, Page.newCategory]⟩

theorem neverFaults_checkCategory (s : String) : NeverFaults (checkCategory (some s)) := by
  rw [checkCategory]
  split
  · exact .ok _
  · exact .refuse _

theorem isCategory_of_checkCategory {s : String} {u : Unit} (h : checkCategory (some s) = .ok u) :
    Valid.isCategory s = true := by
  by_contra hn
  simp [checkCategory, hn, refuse] at h

/-- A category is added if its name is valid and no other category goes by it. -/
theorem ends_addCategory_made (h : p.Synced) {name : String} : Ends (addCategory name) p
    (fun id q => id = p.next ∧ Valid.isCategory (normalizeTitle name) = true ∧
      p.hasCategory (normalizeTitle name) = false ∧
      ∃ r l, (p.push (Page.newCategory (normalizeTitle name))).AppendedLink (normalizeTitle name) l r ∧
        q = attached r id (normalizeTitle name) l)
    fun err q => p.Refuses [] err q ∧
      ¬(Valid.isCategory (normalizeTitle name) = true ∧ p.hasCategory (normalizeTitle name) = false) := by
  unfold addCategory
  extract_lets n
  have hcheck : (do
      checkCategory (some n)
      if p.hasCategory n then throw (PageError.nameCollision n) : Except PageError Unit) = .ok () ↔
        Valid.isCategory n = true ∧ p.hasCategory n = false := by
    cases hv : Valid.isCategory n <;> cases hh : p.hasCategory n <;>
      simp [checkCategory, hv, refuse, bind, Except.bind, throw, throwThe, MonadExceptOf.throw, pure,
        Except.pure]
  refine Ends.bind (ends_ask (fun _ hok => ?_) fun err herr => ⟨⟨rfl, fun hf => ?_⟩, fun hok => ?_⟩)
  · obtain ⟨hv, hh⟩ := hcheck.1 hok
    refine ends_makeCategory.step (fun id q hq => ?_) fun _ _ hf => hf.elim
    obtain ⟨rfl, rfl⟩ := hq
    refine (ends_appendCategoryLink_made (h.pushCategory n)).step (fun l r hl => ?_) fun _ _ hf => hf.elim
    have hnew := hl.newLink (h.pushCategory n)
    obtain ⟨e, he⟩ := hnew.calm.synced.exists_root
    have hre : r.find? p.next = some (Page.newCategory n) := by
      rw [Page.find?, hnew.elements]
      exact (Page.find?_push p _ p.next).trans (if_pos rfl)
    refine (ends_attachCategory hre he).step (fun _ q hq => ?_) fun _ _ hf => hf.elim
    exact Ends.pure ⟨rfl, hv, hh, r, l, hl, hq⟩
  · have hnever : NeverFaults (do
        checkCategory (some n)
        if p.hasCategory n then throw (PageError.nameCollision n) : Except PageError Unit) := by
      refine .bind (neverFaults_checkCategory n) fun _ _ => ?_
      split
      · exact .error rfl
      · exact .ok _
    rw [hnever err herr] at hf
    cases hf
  · rw [hcheck.2 hok] at herr
    cases herr

theorem ends_addCategory (h : p.Synced) {name : String} : Ends (addCategory name) p
    (fun id q => id = p.next ∧ Valid.isCategory (normalizeTitle name) = true ∧
      p.hasCategory (normalizeTitle name) = false ∧
      ∃ r l, (p.push (Page.newCategory (normalizeTitle name))).NewLink r (normalizeTitle name) l ∧
        q = attached r id (normalizeTitle name) l) (p.Refuses []) := by
  refine (ends_addCategory_made h).mono (fun id q hq => ?_) fun _ _ hq => hq.1
  obtain ⟨hid, hv, hh, r, l, hl, hq⟩ := hq
  exact ⟨hid, hv, hh, r, l, hl.newLink (h.pushCategory _), hq⟩

theorem ends_needCategory {name : String} : Ends (needCategory name) p
    (fun id q => p.category? name = some id ∧ q = p)
    fun err q => p.category? name = none ∧ p.Refuses [] err q := by
  refine ends_ask (fun id hid => ?_) fun err herr => ?_
  · cases hc : p.category? name with
    | none =>
      rw [hc] at hid
      cases hid
    | some y =>
      rw [hc] at hid
      exact ⟨congrArg some (Except.ok.inj hid), rfl⟩
  · cases hc : p.category? name with
    | none =>
      rw [hc] at herr
      obtain rfl := Except.error.inj herr
      exact ⟨rfl, .of_not_isFatal rfl⟩
    | some y =>
      rw [hc] at herr
      cases herr

def detached (p : Page) (id : ElementId) (name : String) : Page :=
  (p.setIndex (p.categories.erase (categoryKey name))).takeCategory id

theorem arena_detached {name : String} : (detached p id name).arena = p.arena := by
  simp only [detached, Page.setIndex, Page.takeCategory, Page.arena_update]

theorem synced_detached (h : p.Synced) (hc : p.IsCategory id) {name : String} :
    (detached p id name).Synced :=
  (h.eraseIndex _).takeCategory hc

theorem ends_removeCategory (h : p.Synced) {name : String}
    (hp : ∀ id, p.category? name = some id → p.InPlace (p.linksOf id) ∧ p.nameOf? id ≠ none) :
    Ends (removeCategory name) p
      (fun id q => p.category? name = some id ∧ ∃ r stored, p.Dropped id (p.linksOf id) [] r ∧
        p.nameOf? id = some stored ∧ q = detached r id stored)
      fun err q => p.category? name = none ∧ p.Refuses [] err q := by
  refine ends_needCategory.step (fun id q hq => ?_) fun _ _ hq => hq
  obtain ⟨hid, rfl⟩ := hq
  have hc : q.IsCategory id := h.indexed hid
  obtain ⟨e, he, -⟩ := hc.exists_find?
  obtain ⟨hin, hname⟩ := hp id hid
  obtain ⟨stored, hstored⟩ := Option.ne_none_iff_exists'.1 hname
  refine (ends_dropLinks h (by simp [he]) hin).step (fun _ r hr => ?_) fun _ _ hf => hf.elim
  have hr : q.Dropped id (q.linksOf id) [] r := by simpa using hr
  have hrc := hr.isCategory hc
  have hok : r.storedName id = .ok stored :=
    (Page.storedName_eq_ok hrc).2 (by rw [hr.nameOf?, hstored])
  obtain ⟨root, hroot⟩ := hr.synced.exists_root
  obtain ⟨c, hrid, -⟩ := hrc.exists_find?
  refine Ends.bind (ends_ask (fun s hs => ?_) fun _ hs => by cases hs.symm.trans hok)
  obtain rfl := Except.ok.inj (hok.symm.trans hs)
  refine Ends.bind (Ends.modify (Ends.bind (ends_update (fun _ _ => ?_) fun hn => ?_)))
  · refine Ends.bind (ends_update (fun _ _ => ?_) fun hn => ?_)
    · exact Ends.pure ⟨hid, r, stored, hr, hstored, rfl⟩
    · rw [Page.find?_update, if_neg (hr.synced.ne_root_of_isCategory hrc)] at hn
      cases hn.symm.trans hrid
  · cases hn.symm.trans hroot

theorem synced_renamed (h : p.Synced) {name : String} : (renamed p id name).Synced :=
  synced_store h toLower_name

theorem ends_registerLink (h : p.Synced) {name : String} {l : PlacedLink} :
    Ends (registerLink name l) p
      (fun _ q => (∃ id, p.category? name = some id ∧ q = renamed (p.addLink id l) id name) ∨
        p.category? name = none ∧ q = attached (p.push (Page.newCategory name)) p.next name l)
      fun _ _ => False := by
  refine Ends.bind (Ends.get ?_)
  cases hid : p.category? name with
  | some id =>
    obtain ⟨e, he, hk⟩ := Page.IsCategory.exists_find? (h.indexed hid)
    refine (ends_addLink (by simp [he])).step (fun _ q hq => ?_) fun _ _ hf => hf
    obtain rfl := hq
    have he' : (p.addLink id l).find? id = some { e with links := e.links ++ [l] } := by
      rw [Page.find?_addLink, if_pos rfl, he]
      rfl
    refine (ends_assign_name he' hk).step (fun _ r hr => ?_) fun _ _ hf => hf
    exact Ends.pure (.inl ⟨id, rfl, hr⟩)
  | none =>
    refine ends_makeCategory.step (fun id q hq => ?_) fun _ _ hf => hf.elim
    obtain ⟨rfl, rfl⟩ := hq
    obtain ⟨r, hr⟩ := (h.pushCategory name).exists_root
    have hnew : (p.push (Page.newCategory name)).find? p.next = some (Page.newCategory name) := by simp
    exact (ends_attachCategory hnew hr).mono (fun _ _ hq => .inr ⟨rfl, hq⟩) fun _ _ hf => hf.elim

/-- A link is written anew with another target, and nothing else changes. -/
structure Retargets (a : Arena) (link : NodeId) (target : String) (b : Arena) : Prop where
  alike : a.Alike b
  keepsTags : a.KeepsTags b
  find?_link : ∃ old title g, a.find? link = some ⟨.link old title, g⟩ ∧ b.find? link =
    some ⟨.link target title, some (Glue.link target !(a.kids title).isEmpty)⟩
  find?_of_ne : ∀ {x}, x ≠ link → b.find? x = a.find? x
  target : ∀ x, b.target? x = if x = link then some target else a.target? x

/-- The page with a link written anew. -/
structure Relinked (p : Page) (link : NodeId) (target : String) (q : Page) : Prop where
  synced : q.Synced
  arena : Retargets p.arena link target q.arena
  eq : q = { p with arena := q.arena }

theorem Relinked.of_retargets (h : p.Synced) {link : NodeId} {target : String} {b : Arena}
    (hb : Retargets p.arena link target b) : Relinked p link target { p with arena := b } :=
  ⟨h.alike hb.alike, hb, rfl⟩

namespace Relinked

variable {q : Page} {target : String}

theorem form?_eq (hr : Relinked p link target q) : q.form? = p.form? := by
  rw [hr.eq]
  rfl

theorem linksOf_eq (hr : Relinked p link target q) : q.linksOf = p.linksOf := by
  rw [hr.eq]
  rfl

theorem isCategory (hr : Relinked p link target q) (hc : p.IsCategory id) : q.IsCategory id :=
  (Page.isCategory_congr hr.form?_eq).2 hc

end Relinked

theorem find?_link (hl : p.IsFreeLink link) :
    ∃ target title g, p.arena.find? link = some ⟨.link target title, g⟩ := by
  obtain ⟨⟨q, g⟩, hm, hk⟩ := hl.1
  cases q with
  | link target title => exact ⟨target, title, g, hm⟩
  | _ => cases hk

theorem ends_setTarget {β : Type} (h : p.Synced) {title : NodeId} {old target : String}
    {g : Option Glue} (hl : p.arena.find? link = some ⟨.link old title, g⟩) {f : Edit β}
    {Q : β → Page → Prop} {E : PageError → Page → Prop}
    (hf : ∀ q, Relinked p link target q → Ends f q Q E) :
    Ends (do
      surgery (Surgery.setPayload link (.link target title))
      surgery (Surgery.addGlue link)
      f) p Q E := by
  obtain ⟨items, hi⟩ := h.sound.find?_slot hl (s := (title, .content)) (List.mem_singleton_self _)
  refine Ends.bind (ends_surgery (Surgery.ends_setPayload ?_))
  have hfind (x : NodeId) : (p.arena.setPayload link (.link target title)).find? x =
      if x = link then some ⟨.link target title, g⟩ else p.arena.find? x := by
    rw [Arena.setPayload, Arena.find?_modify]
    split
    · subst x
      simp [hl]
    · rfl
  have hne : title ≠ link := by
    rintro rfl
    cases hi.symm.trans hl
  have hlink := (hfind link).trans (if_pos rfl)
  have htitle := (hfind title).trans ((if_neg hne).trans hi)
  refine Ends.bind (ends_surgery (((Surgery.ends_addGlue_link hlink htitle).and
    (Surgery.ends_addGlue_link_eq hlink htitle)).mono ?_ fun _ _ hf => hf.1.elim))
  rintro - b ⟨hb, heq⟩
  refine hf _ (.of_retargets h
    ⟨?_, ?_, ⟨old, title, g, hl, ?_⟩, fun {x} hx => ?_, fun x => ?_⟩)
  · exact Arena.Alike.trans (.setPayload hl (p := .link target title) rfl) hb.toAlike
  · exact (Arena.keepsTags_setPayload hl (p := .link target title) rfl
      (h.sound.not_inTag_of_admits hl rfl rfl rfl)).trans hb.keepsTags
  · rw [heq, Arena.find?_modify, if_pos rfl, hlink, Arena.kids_of_find? hi]
    rfl
  · rw [heq, Arena.find?_modify, if_neg hx, hfind, if_neg hx]
  · rw [hb.target?_eq, Arena.target?, hfind]
    split <;> rfl

theorem ends_retitle (h : p.Synced) (hc : p.IsCategory id) (hp : p.InPlace (p.linksOf id))
    {link : NodeId} (hl : p.IsFreeLink link) {old : Option String} {new : String} :
    Ends (retitle id link old new) p
      (fun _ q => ∃ r s, Relinked p link (categoryTarget p new) r ∧
        r.Dropped id ((r.linksOf id).filter fun l => some l.link ≠ some link)
          ((r.linksOf id).filter fun l => some l.link = some link) s ∧
        q = s.setIndex (((old.map fun o => s.categories.erase (categoryKey o)).getD
          s.categories).insert (categoryKey new) id)) fun _ _ => False := by
  obtain ⟨target, title, g, hfind⟩ := find?_link hl
  have hpayload := Page.payload_of_find? hfind
  refine Ends.bind (Ends.get (Ends.bind (ends_ask (fun payload hok => ?_) fun _ he => ?_)))
  swap
  · cases hpayload.symm.trans he
  obtain rfl := Except.ok.inj (hpayload.symm.trans hok)
  refine ends_setTarget h hfind fun r hr => ?_
  have hlinks : r.linksOf id = p.linksOf id := congrFun hr.linksOf_eq id
  have hkids : r.arena.kids = p.arena.kids := hr.arena.alike.kids_eq
  have hin : r.InPlace (r.linksOf id) := by
    rw [hlinks, Page.InPlace, hkids]
    exact hp
  have hrc := hr.isCategory hc
  obtain ⟨e, he, -⟩ := hrc.exists_find?
  refine (ends_dropLinks hr.synced (by simp [he]) hin).step (fun _ s hs => ?_) fun _ _ hf => hf
  cases old with
  | none => exact Ends.modify ⟨r, s, hr, hs, rfl⟩
  | some old => exact Ends.bind (Ends.modify (Ends.modify ⟨r, s, hr, hs, rfl⟩))

theorem ends_renewLink_appended (h : p.Synced) (hc : p.IsCategory id)
    (hp : p.InPlace (p.linksOf id)) {name : String} (hn : p.nameOf? id = some name) :
    Ends (renewLink id) p
      (fun _ q => ∃ r s l, p.Dropped id (p.linksOf id) [] r ∧ r.AppendedLink name l s ∧
        q = s.addLink id l) fun _ _ => False := by
  have hok := (Page.storedName_eq_ok hc).2 hn
  refine Ends.bind (ends_ask (fun s hs => ?_) fun _ hs => by cases hs.symm.trans hok)
  obtain rfl := Except.ok.inj (hok.symm.trans hs)
  obtain ⟨e, he, -⟩ := hc.exists_find?
  refine (ends_dropLinks h (by simp [he]) hp).step (fun _ r hr => ?_) fun _ _ hf => hf
  obtain ⟨c, hrid, -⟩ := Page.IsCategory.exists_find? (hr.isCategory hc)
  refine (ends_appendCategoryLink_made hr.synced).step (fun l s hl => ?_) fun _ _ hf => hf.elim
  have hsid : s.find? id = some c := by
    rw [Page.find?, (hl.newLink hr.synced).elements]
    exact hrid
  exact (ends_addLink (by simp [hsid])).mono (fun _ q hq => ⟨r, s, l, by simpa using hr, hl, hq⟩)
    fun _ _ hf => hf

theorem ends_renewLink (h : p.Synced) (hc : p.IsCategory id) (hp : p.InPlace (p.linksOf id))
    {name : String} (hn : p.nameOf? id = some name) : Ends (renewLink id) p
      (fun _ q => ∃ r s l, p.Dropped id (p.linksOf id) [] r ∧ r.NewLink s name l ∧ q = s.addLink id l)
      fun _ _ => False :=
  (ends_renewLink_appended h hc hp hn).mono
    (fun _ _ ⟨r, s, l, hr, hl, hq⟩ => ⟨r, s, l, hr, hl.newLink hr.synced, hq⟩) fun _ _ hf => hf

end Edit
end WikiPage
