import WikiPage.EntityTable
import WikiPage.Proofs.Agreement
import WikiPage.Proofs.Amending
import WikiPage.Proofs.Faithful

/-!
# What it takes to set an attribute, and what it does

An attribute takes the values that the check of its policy lets through. Then the element has the
normalized value in its place among the attributes, or the attribute no more, and nothing else about any
element has changed.
-/

namespace WikiPage

namespace Attribute

variable {l : List Attribute} {key : String} {value : Option String}

/-- Give an attribute a value, or take it away. -/
def give (l : List Attribute) (key : String) : Option String → List Attribute
  | some value => put l ⟨key, value, none⟩
  | none => erase l key

theorem value_find?_give (hl : (l.map name).Nodup) :
    (find? (give l key value) key).map Attribute.value = value := by
  cases value with
  | some value => simp [give]
  | none => rw [give, find?_erase hl]; rfl

theorem filter_give (l : List Attribute) (key : String) (value : Option String) :
    (give l key value).filter (·.name ≠ key) = l.filter (·.name ≠ key) := by
  induction l with
  | nil => cases value <;> simp [give, put, erase]
  | cons a l ih =>
    by_cases ha : a.name = key
    · cases value <;> simp [give, put, erase, ha]
    · cases value <;> simp_all [give, put, erase]

end Attribute

/-- Whether an attribute takes what a check has found: a value that is to be written needs a name that
can stand in a tag, and no value an attribute that can be removed. -/
def Policy.Takes (policy : Policy) (name : String) : Option String → Prop
  | some _ => policy.synced = true → Valid.isXmlName name.toLower = true
  | none => policy.removable = true

namespace Sheet

variable {s s' : Sheet} {check : Verifier → Except PageError (Option String)} {name key value : String}
  {old : Option String} {policy : Policy}

/-- A sheet with another value for an attribute, or none. -/
structure Gives (s : Sheet) (key : String) (value : Option String) (s' : Sheet) : Prop where
  children : s'.children = s.children
  rows : s'.rows = Attribute.give s.rows key value

theorem gives_commit : (∃ t, s.commit policy key value = .ok t) ↔
    (policy.synced = true → Valid.isXmlName key = true) := by
  unfold commit
  cases policy.synced with
  | false => simp
  | true =>
    rw [if_pos rfl, ← checkXmlName_eq_ok_iff]
    cases checkXmlName key <;> simp [Except.map]

theorem gives_of_commit (h : s.commit policy key value = .ok s') : s.Gives key (some value) s' := by
  have hpromote : s.promote.rows = s.rows ∧ s.promote.children = s.children := by
    unfold promote
    split <;> exact ⟨rfl, rfl⟩
  unfold commit at h
  split at h
  · obtain ⟨_, -, rfl⟩ := Except.exists_of_map h
    exact ⟨hpromote.2, congrArg (Attribute.put · _) hpromote.1⟩
  · obtain rfl := Except.ok.inj h
    exact ⟨rfl, rfl⟩

theorem gives_react (s : Sheet) (policy : Policy) (old : Option String) (value : String) :
    (s.react policy old value).rows = s.rows ∧ (s.react policy old value).children = s.children := by
  unfold react
  split <;> exact ⟨rfl, rfl⟩

/-- An attribute is taken away where it may be missing. -/
theorem exists_remove_iff (hp : Policy.find? s.kind name = some policy) :
    (∃ r, s.remove name = .ok r) ↔ policy.removable = true := by
  cases hr : policy.removable with
  | false => simp [remove_of_not_removable hp hr]
  | true => simp [remove_eq hp hr]

theorem gives_of_remove (h : s.remove name = .ok (old, s')) :
    old = s.value? name.toLower ∧ s.Gives name.toLower none s' := by
  cases hp : Policy.find? s.kind name with
  | none => simp [remove_of_error (s := s) (by rw [Policy.get, hp]; rfl)] at h
  | some policy =>
    cases hr : policy.removable with
    | false => simp [remove_of_not_removable hp hr] at h
    | true =>
      rw [remove_eq hp hr] at h
      obtain ⟨rfl, rfl⟩ := Prod.mk.inj (Except.ok.inj h)
      refine ⟨rfl, ?_⟩
      split
      · rename_i hnone
        exact ⟨rfl, (Attribute.erase_of_find? (Option.map_eq_none_iff.1 hnone)).symm⟩
      · exact ⟨rfl, rfl⟩

/-- A value is taken if there is a policy whose check lets it through, and the policy takes what the check
has found. -/
theorem exists_set_iff : (∃ r, s.set check name = .ok r) ↔ ∃ policy verified,
    Policy.find? s.kind name = some policy ∧ check policy.verifier = .ok verified ∧
      policy.Takes name verified := by
  cases hp : Policy.find? s.kind name with
  | none =>
    have hget : Policy.get s.kind name = .error (.validation (.noAttribute s.kind name)) := by rw [Policy.get, hp]; rfl
    simp [set_of_error hget]
  | some policy =>
    simp only [Option.some.injEq, exists_and_left, exists_eq_left']
    cases hc : check policy.verifier with
    | error err => simp [set_of_refused hp hc]
    | ok verified =>
      simp only [Except.ok.injEq, exists_eq_left']
      cases verified with
      | none => rw [set_of_none hp hc, exists_remove_iff hp, Policy.Takes]
      | some verified =>
        rw [set_of_some hp hc, Policy.Takes, ← gives_commit]
        cases s.commit policy name.toLower (policy.normalization.apply verified) <;> simp [Except.map]

theorem gives_of_set (h : s.set check name = .ok (old, s')) : ∃ policy verified,
    Policy.find? s.kind name = some policy ∧ check policy.verifier = .ok verified ∧
      policy.Takes name verified ∧ old = s.value? name.toLower ∧
      s.Gives name.toLower (verified.map policy.normalization.apply) s' := by
  obtain ⟨policy, verified, hp, hc, htakes⟩ := exists_set_iff.1 ⟨_, h⟩
  refine ⟨policy, verified, hp, hc, htakes, ?_⟩
  cases verified with
  | none =>
    rw [set_of_none hp hc] at h
    exact gives_of_remove h
  | some verified =>
    rw [set_of_some hp hc] at h
    obtain ⟨t, ht, h⟩ := Except.exists_of_map h
    obtain ⟨rfl, rfl⟩ := Prod.mk.inj h
    obtain ⟨hrows, hchildren⟩ := gives_react t policy (s.value? name.toLower) (policy.normalization.apply verified)
    have hgives := gives_of_commit ht
    exact ⟨rfl, hchildren.trans hgives.children, hrows.trans hgives.rows⟩

end Sheet

namespace Element

/-- The attributes of an element without their nodes. -/
def rows (e : Element) : List Attribute :=
  e.attributes.map Attribute.placeless

end Element

namespace Page

variable {site : Site} {p q : Page} {x y : ElementId} {e : Element} {s : Sheet} {rows : List Attribute}
  {name : String} {old new : Option String}

/-- Another page on which one element has other attributes, and all else about the elements is as it
was. -/
structure Restocks (p : Page) (x : ElementId) (rows : List Attribute) (q : Page) : Prop where
  self : (q.find? x).map Element.rows = some rows
  others : ∀ y, y ≠ x → (q.find? y).map Element.rows = (p.find? y).map Element.rows
  parent : q.parent = p.parent
  children : q.children = p.children

theorem get_congr {α : Type} {f : Element → α} (h : (q.find? y).map f = (p.find? y).map f) :
    (q.get y).map f = (p.get y).map f := by
  unfold get
  cases hp : p.find? y <;> cases hq : q.find? y <;> simp_all [Except.map]

theorem parent_congr (hp : p.Synced) (hq : q.Synced) (h : ∀ y, (q.find? y).map Element.children =
    (p.find? y).map Element.children) (y : ElementId) : q.parent y = p.parent y := by
  have hchildren : q.childrenOf = p.childrenOf :=
    funext fun z => congrArg (fun c : Option (List ElementId) => c.getD []) (h z)
  have hparent : q.parentOf y = p.parentOf y :=
    Option.ext fun z => by rw [hq.parent_iff, hp.parent_iff, hchildren]
  unfold parent get
  have hy := h y
  unfold parentOf at hparent
  cases hpy : p.find? y <;> cases hqy : q.find? y <;> simp_all [Except.map]

theorem Updates.restocks (hq : p.Updates x s q) (h : p.Synced) (he : p.find? x = some e)
    (hs : s.children = e.children) : p.Restocks x s.rows q := by
  have hview {α : Type} {f : Sheet → α} {g : Element → α} (hfg : ∀ (r : Page) z d, f (r.sheetOf z d) = g d)
      (r : Page) (z : ElementId) : (r.sheet? z).map f = (r.find? z).map g := by
    rw [sheet?, Option.map_map]
    exact congrArg (fun k => (r.find? z).map k) (funext (hfg r z))
  have hrows (r : Page) (z : ElementId) : (r.sheet? z).map Sheet.rows = (r.find? z).map Element.rows :=
    hview (fun _ _ _ => rfl) r z
  have hkids (r : Page) (z : ElementId) : (r.sheet? z).map Sheet.children = (r.find? z).map Element.children :=
    hview (fun _ _ _ => rfl) r z
  have hchildren (z : ElementId) : (q.find? z).map Element.children = (p.find? z).map Element.children := by
    rw [← hkids, ← hkids]
    by_cases hz : z = x
    · rw [hz, hq.self, sheet?_of_find? he, Option.map_some, hs]
      rfl
    · rw [hq.others z hz]
  exact
    { self := by rw [← hrows, hq.self]; rfl
      others := fun y hy => by rw [← hrows, ← hrows, hq.others y hy]
      parent := funext (parent_congr h hq.synced hchildren)
      children := funext fun z => get_congr (hchildren z) }

/-- The attributes of an element by name and value, in their order. -/
def values (p : Page) (x : ElementId) : Except PageError (List (String × String)) :=
  (p.attributes x).map fun l => l.map fun a => (a.name, a.value)

/-- Another page on which one attribute has another value, or none, and all else about the elements is as
it was. The old value is that of the page before. -/
structure Sets (p : Page) (x : ElementId) (name : String) (old new : Option String) (q : Page) : Prop where
  before : p.value? x name = .ok old
  after : q.value? x name = .ok new
  rest : (q.values x).map (·.filter (·.1 ≠ name.toLower)) = (p.values x).map (·.filter (·.1 ≠ name.toLower))
  others : ∀ y, y ≠ x → q.values y = p.values y
  parent : q.parent = p.parent
  children : q.children = p.children

theorem values_of_find? (he : p.find? x = some e) :
    p.values x = .ok (e.rows.map fun a => (a.name, a.value)) := by
  rw [values, attributes, get_eq_ok_iff.2 he, Element.rows, List.map_map]
  rfl

theorem values_congr (h : (q.find? y).map Element.rows = (p.find? y).map Element.rows) :
    q.values y = p.values y := by
  cases hp : p.find? y with
  | none =>
    rw [hp, Option.map_none, Option.map_eq_none_iff] at h
    rw [values, values, attributes, attributes, get, get, hp, h]
  | some e =>
    rw [hp] at h
    obtain ⟨d, hd, hrows⟩ := Option.map_eq_some_iff.1 h
    rw [values_of_find? hd, values_of_find? hp, hrows]

theorem Restocks.sets (hq : p.Restocks x (Attribute.give e.rows name.toLower new) q) (he : p.find? x = some e)
    (hnames : (e.attributes.map Attribute.name).Nodup) :
    p.Sets x name ((Attribute.find? e.attributes name.toLower).map Attribute.value) new q := by
  obtain ⟨d, hd, hrows⟩ := Option.map_eq_some_iff.1 hq.self
  have hvalue (e : Element) (key : String) : (Attribute.find? e.attributes key).map Attribute.value =
      (Attribute.find? e.rows key).map Attribute.value := by
    rw [Element.rows, Attribute.find?_map_placeless, Option.map_map]
    rfl
  have hnodup : (e.rows.map Attribute.name).Nodup := by
    rw [Element.rows, List.map_map]
    exact hnames
  refine ⟨value?_of_find? he name, ?_, ?_, fun y hy => values_congr (hq.others y hy), hq.parent, hq.children⟩
  · rw [value?_of_find? hd, hvalue, hrows, Attribute.value_find?_give hnodup]
  · have hfilter (l : List Attribute) : (l.map fun a => (a.name, a.value)).filter (·.1 ≠ name.toLower) =
        (l.filter (·.name ≠ name.toLower)).map fun a => (a.name, a.value) := List.filter_map
    rw [values_of_find? hd, values_of_find? he, hrows, Except.map, Except.map, hfilter, hfilter,
      Attribute.filter_give]

/-- What an attribute of an element of a kind is to have for a value, as the check of its policy finds. -/
def Accepts (p : Page) (x : ElementId) (kind : Kind) (name value : String) (new : Option String) : Prop :=
  ∃ policy verified, Policy.find? kind name = some policy ∧ p.verify x value policy.verifier = .ok verified ∧
    policy.Takes name verified ∧ new = verified.map policy.normalization.apply

end Page

namespace Edit

variable {p q : Page} {id : ElementId} {e : Element} {l : PlacedLink} {name value new old : String}

theorem find?_renamed (he : p.find? id = some e) (y : ElementId) : (renamed p id new).find? y =
    if y = id then some (store "name" (Normalization.words.apply new) e) else p.find? y := by
  rw [renamed, Page.find?_update]
  split
  · subst y
    rw [he]
    rfl
  · rfl

theorem Retitled.find?_eq (hq : Retitled p id old new l q) (he : p.find? id = some e) (y : ElementId) :
    q.find? y = if y = id then some { store "name" (Normalization.words.apply new) e with
      links := e.links.filter fun k => k.link = l.link } else p.find? y := by
  obtain ⟨r, s, hr, hs, rfl⟩ := hq.page
  have hrfind : r.find? = (renamed p id new).find? := by
    rw [hr.eq]
    rfl
  have hlinks : r.linksOf id = e.links := by
    rw [Page.linksOf, hrfind, find?_renamed he, if_pos rfl]
    rfl
  refine (hs.find?_eq y).trans ?_
  rw [hrfind, find?_renamed he, hlinks]
  split
  · simp
  · rfl

theorem restocks_of_find? {d : Element} (he : p.find? id = some e)
    (hq : ∀ y, q.find? y = if y = id then some d else p.find? y) (hp : d.parent = e.parent)
    (hc : d.children = e.children) : p.Restocks id d.rows q := by
  have hview {α : Type} {f : Element → α} (hf : f d = f e) (y : ElementId) :
      (q.find? y).map f = (p.find? y).map f := by
    rw [hq]
    split
    · subst y
      rw [he, Option.map_some, Option.map_some, hf]
    · rfl
  exact
    { self := by rw [hq, if_pos rfl, Option.map_some]
      others := fun y hy => by rw [hq, if_neg hy]
      parent := funext fun y => Page.get_congr (hview hp y)
      children := funext fun y => Page.get_congr (hview hc y) }

/-- How an edit sets an attribute to a new value. -/
def Restocking (m : Edit (Option String)) (p : Page) (x : ElementId) (e : Element) (name value : String) :
    Prop :=
  Ends m p (fun old q => old = (Attribute.find? e.attributes name.toLower).map Attribute.value ∧
      ∃ new, p.Accepts x e.kind name value new ∧ p.Restocks x (Attribute.give e.rows name.toLower new) q)
    fun _ _ => ¬∃ new, p.Accepts x e.kind name value new

theorem restocking_setAttribute_name (h : p.Recorded) (he : p.find? id = some e) (hk : e.kind = .category) :
    Restocking (setAttribute id name value) p id e name value := by
  have hc : p.IsCategory id := ⟨e.backing, by rw [Page.form?_of_find? he, hk]⟩
  refine ends_setAttribute_name_run hc (fun err herr => ?_) (fun err herr => ?_) fun new hname hok => ?_
  · rintro ⟨_, policy, verified, hp, -⟩
    rw [Page.policy_eq_get he, Policy.get_eq_ok_iff.2 hp] at herr
    cases herr
  · rintro ⟨_, policy, verified, hp, hv, -⟩
    rw [(policy_of_category (hk ▸ hp)).2.1] at hv
    cases herr.symm.trans hv
  · obtain ⟨hnew, -⟩ := Page.exists_of_checkCategoryName hok
    have haccepts : p.Accepts id e.kind name value (some (Normalization.words.apply new)) := by
      refine ⟨namePolicy, some new, ?_, hok, nofun, rfl⟩
      rw [hk, ← Policy.find?_toLower, hname]
      exact find?_namePolicy
    have hrows (links : List PlacedLink) : ({ store "name" (Normalization.words.apply new) e with
        links := links } : Element).rows =
          Attribute.give e.rows name.toLower (some (Normalization.words.apply new)) := by
      rw [hname]
      exact (Attribute.put_map_placeless ..).symm
    have hold : p.nameOf? id = (Attribute.find? e.attributes name.toLower).map Attribute.value := by
      simp [Page.nameOf?, he, hk, hname]
    refine (ends_renameLinks h hc).mono (fun _ q hq => ⟨hold, _, haccepts, ?_⟩) fun _ _ hf => hf.elim
    rcases hq with ⟨rfl, -⟩ | ⟨old, l, hq⟩
    · exact hrows e.links ▸ restocks_of_find? he (find?_renamed he) rfl rfl
    · exact hrows _ ▸ restocks_of_find? he (hq.find?_eq he) rfl rfl

theorem restocking_setAttribute (h : p.Recorded) {whole : Prop} (hm : p.Mirrored whole)
    (he : p.find? id = some e) : Restocking (setAttribute id name value) p id e name value := by
  by_cases hk : e.kind = .category
  · exact restocking_setAttribute_name h he hk
  · refine Ends.mono (followsSheet_setAttribute h.toSynced hm he hk) ?_ ?_
    · rintro old q ⟨s, hs, hq⟩
      obtain ⟨policy, verified, hp, hv, htakes, rfl, hgives⟩ := Sheet.gives_of_set hs
      exact ⟨Page.value?_sheetOf .., _, ⟨policy, verified, hp, hv, htakes, rfl⟩,
        hgives.rows ▸ hq.restocks h.toSynced he hgives.children⟩
    · rintro err q ⟨-, herr⟩ ⟨-, policy, verified, hp, hv, htakes, -⟩
      obtain ⟨r, hr⟩ := (Sheet.exists_set_iff (s := p.sheetOf id e)).2 ⟨policy, verified, hp, hv, htakes⟩
      cases hr.symm.trans herr

end Edit

namespace Page

variable {site : Site} {p : Page} {x : ElementId} {k : Kind}

/-- What is set has been accepted. -/
theorem Reached.accepts_of_setAttribute [Entities] (h : p.Reached site) (hx : p.kind x = .ok k) {q : Page}
    {name value : String} {old : Option String} (hset : Edit.setAttribute x name value p = .ok old q) :
    ∃ new, p.Accepts x k name value new ∧ p.Sets x name old new q := by
  obtain ⟨e, he, rfl⟩ := find?_of_kind hx
  obtain ⟨whole, hm⟩ := h.exists_mirrored
  obtain ⟨rfl, new, hnew, hq⟩ := Ends.of_ok (Edit.restocking_setAttribute h.orderly.recorded hm he) hset
  exact ⟨new, hnew, hq.sets he (hm x e he).nodup⟩

/-- On a page that is reached an attribute can be set where the policy of its name takes the value, and not
otherwise. Then it has the normalized value, or is gone, and nothing else about any element has changed. -/
theorem Reached.setAttribute_iff [Entities] (h : p.Reached site) (hx : p.kind x = .ok k) (name value : String) :
    ((∃ old q, Edit.setAttribute x name value p = .ok old q) ↔ ∃ new, p.Accepts x k name value new) ∧
      ∀ old q, Edit.setAttribute x name value p = .ok old q →
        ∃ new, p.Accepts x k name value new ∧ p.Sets x name old new q := by
  refine ⟨⟨fun ⟨old, q, hok⟩ => ?_, fun hnew => ?_⟩, fun _ _ => h.accepts_of_setAttribute hx⟩
  · obtain ⟨new, hnew, -⟩ := h.accepts_of_setAttribute hx hok
    exact ⟨new, hnew⟩
  · obtain ⟨e, he, rfl⟩ := find?_of_kind hx
    obtain ⟨whole, hm⟩ := h.exists_mirrored
    have hends : Edit.Restocking (Edit.setAttribute x name value) p x e name value :=
      Edit.restocking_setAttribute h.orderly.recorded hm he
    cases hrun : Edit.setAttribute x name value p with
    | ok old q => exact ⟨old, q, rfl⟩
    | error err q => exact absurd hnew (Ends.of_error hends hrun)

/-- A page with a rule that has yet to be put on it. -/
def looseRule : Page :=
  Act.run [.createRule] (ofDrafts .new .default "Test" [])

theorem setAttribute_iff_looseRule : looseRule.Reached .default ∧ looseRule.kind ⟨2⟩ = .ok .rule ∧
    ((∃ old q, Edit.setAttribute ⟨2⟩ "Size" "03" looseRule = .ok old q) ↔
      ∃ new, looseRule.Accepts ⟨2⟩ .rule "Size" "03" new) ∧
    ∀ old q, Edit.setAttribute ⟨2⟩ "Size" "03" looseRule = .ok old q →
      ∃ new, looseRule.Accepts ⟨2⟩ .rule "Size" "03" new ∧ looseRule.Sets ⟨2⟩ "Size" old new q := by
  have hnew : Page.new .default "Test" = .ok (ofDrafts .new .default "Test" []) := rfl
  have h : looseRule.Reached .default := .run (.new hnew) rfl
  have hkind : looseRule.kind ⟨2⟩ = .ok .rule := rfl
  exact ⟨h, hkind, h.setAttribute_iff hkind "Size" "03"⟩

end Page
end WikiPage
