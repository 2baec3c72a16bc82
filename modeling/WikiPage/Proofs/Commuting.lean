import WikiPage.EntityTable
import WikiPage.Proofs.Amending
import WikiPage.Proofs.Faithful
import WikiPage.Proofs.Glued

/-!
# Edits of attributes in either order

Edits of the attributes of two elements do not meet: each follows the sheet of its own element, which
the other leaves alone. So they can be done in either order.
-/

namespace WikiPage

namespace Edit

variable {α β : Type}

/-- Give an attribute a value, or take it away. The answer is the value that it had. -/
def amend (id : ElementId) (name : String) : Option String → Edit (Option String)
  | some value => setAttribute id name value
  | none => removeAttribute id name

/-- The answer of an edit and the page that it leaves behind, also where it fails. -/
def outcome (m : Edit α) (p : Page) : Except PageError α × Page :=
  match m p with
  | .ok a q => (.ok a, q)
  | .error e q => (.error e, q)

/-- The two answers of one edit after the other, and the page that they leave behind. -/
def inTurn (m : Edit α) (m' : Edit β) (p : Page) : (Except PageError α × Except PageError β) × Page :=
  let first := m.outcome p
  let second := m'.outcome first.2
  ((first.1, second.1), second.2)

end Edit

theorem Act.after_eq_outcome {α : Type} {m : Edit α} {act : Act} (h : act.edit = do let _ ← m)
    (p : Page) : act.after p = (m.outcome p).2 := by
  have hrun : act.edit p = EStateM.bind m (fun _ => pure ()) p := by rw [h]; rfl
  unfold EStateM.bind at hrun
  cases hm : m p with
  | ok a q =>
    rw [hm] at hrun
    rw [Edit.outcome, hm, Act.after, hrun]
    rfl
  | error err q =>
    rw [hm] at hrun
    rw [Edit.outcome, hm, Act.after, hrun]

namespace Sheet

variable {α : Type}

/-- Give an attribute a value, or take it away. -/
def amend (check : String → Verifier → Except PageError (Option String)) (name : String) (s : Sheet) :
    Option String → Except PageError (Option String × Sheet)
  | some value => s.set (check value) name
  | none => s.remove name

/-- The sheet that an edit leaves behind. -/
def after (s : Sheet) : Except PageError (α × Sheet) → Sheet
  | .ok (_, t) => t
  | .error _ => s

theorem amend_congr {check check' : String → Verifier → Except PageError (Option String)} {name : String}
    {s : Sheet} (hk : s.kind ≠ .category) (h : ∀ value v, v ≠ .categoryName → check value v = check' value v)
    (value : Option String) : s.amend check name value = s.amend check' name value := by
  cases value with
  | none => rfl
  | some value => exact set_congr hk (h value)

end Sheet

namespace Edit

variable {α : Type} {p q : Page} {x y : ElementId} {e : Element} {name : String} {value : Option String}
  {whole : Prop} {m : Edit α} {f : Except PageError (α × Sheet)}

/-- The outcome of an edit by what another function does to a sheet. -/
theorem FollowsSheet.outcome (hm : FollowsSheet m p x f) (h : p.Synced) {s : Sheet} (hs : p.sheet? x = some s) :
    (m.outcome p).1 = f.map Prod.fst ∧ p.Updates x (s.after f) (m.outcome p).2 := by
  unfold Edit.outcome
  cases hrun : m p with
  | ok a q =>
    obtain ⟨t, rfl, hu⟩ := Ends.of_ok hm hrun
    exact ⟨rfl, hu⟩
  | error err q =>
    obtain ⟨rfl, rfl⟩ := Ends.of_error hm hrun
    exact ⟨rfl, .refl h hs⟩

theorem followsSheet_amend (h : p.Synced) (hm : p.Mirrored whole) (he : p.find? x = some e)
    (hc : e.kind ≠ .category) : FollowsSheet (amend x name value) p x
      ((p.sheetOf x e).amend (p.verify x) name value) := by
  cases value with
  | some value => exact followsSheet_setAttribute h hm he hc
  | none => exact followsSheet_removeAttribute h hm he hc

end Edit

namespace Page

variable {site : Site} {p q : Page} {x y : ElementId} {s : Sheet} {k l : Kind}

theorem Reached.amend [Entities] (h : p.Reached site) (x : ElementId) (name : String) (value : Option String) :
    ((Edit.amend x name value).outcome p).2.Reached site := by
  cases value with
  | some value =>
    have hafter : (Act.setAttribute x name value).after p = ((Edit.setAttribute x name value).outcome p).2 :=
      Act.after_eq_outcome rfl p
    exact hafter ▸ h.act _ rfl
  | none =>
    have hafter : (Act.removeAttribute x name).after p = ((Edit.removeAttribute x name).outcome p).2 :=
      Act.after_eq_outcome rfl p
    exact hafter ▸ h.act _ rfl

/-- An edit of an attribute on a page that is reached, by the sheet of the element. The checks may be
made on any page over the site. -/
theorem Reached.outcome_amend [Entities] (h : p.Reached site) (hs : p.sheet? x = some s) (hk : s.kind ≠ .category)
    (hq : q.site = p.site) (name : String) (value : Option String) :
    ((Edit.amend x name value).outcome p).1 = (s.amend (q.verify x) name value).map Prod.fst ∧
      p.Updates x (s.after (s.amend (q.verify x) name value)) ((Edit.amend x name value).outcome p).2 := by
  have hsynced := h.orderly.recorded.toSynced
  obtain ⟨whole, hm⟩ := h.exists_mirrored
  obtain ⟨e, he, rfl⟩ := Option.map_eq_some_iff.1 hs
  rw [Sheet.amend_congr hk fun value v hv => verify_congr hq hv]
  exact (Edit.followsSheet_amend hsynced hm he hk).outcome hsynced hs

theorem exists_sheet? (hx : p.kind x = .ok k) : ∃ s, p.sheet? x = some s ∧ s.kind = k := by
  obtain ⟨e, he, rfl⟩ := find?_of_kind hx
  exact ⟨_, sheet?_of_find? he, rfl⟩

/-- Edits of the attributes of two elements that are no categories can be done in either order: they have
the same answers and leave the same wikitext and the same outline behind. -/
theorem Reached.amend_comm [Entities] (h : p.Reached site) (hne : x ≠ y) (hx : p.kind x = .ok k)
    (hy : p.kind y = .ok l) (hk : k ≠ .category) (hl : l ≠ .category) (name name' : String)
    (value value' : Option String) :
    let one := (Edit.amend x name value).inTurn (Edit.amend y name' value') p
    let other := (Edit.amend y name' value').inTurn (Edit.amend x name value) p
    one.1 = other.1.swap ∧ one.2.source = other.2.source ∧ one.2.outline = other.2.outline := by
  obtain ⟨s, hs, rfl⟩ := exists_sheet? hx
  obtain ⟨t, ht, rfl⟩ := exists_sheet? hy
  let s' := s.after (s.amend (p.verify x) name value)
  let t' := t.after (t.amend (p.verify y) name' value')
  obtain ⟨hfirst, hxp⟩ := h.outcome_amend hs hk rfl name value
  obtain ⟨hfirst', hyp⟩ := h.outcome_amend ht hl rfl name' value'
  have hrx := h.amend x name value
  have hry := h.amend y name' value'
  obtain ⟨hsecond, hyx⟩ := hrx.outcome_amend ((hxp.others y hne.symm).trans ht) hl hxp.site.symm name' value'
  obtain ⟨hsecond', hxy⟩ := hry.outcome_amend ((hyp.others x hne).trans hs) hk hyp.site.symm name value
  have hsheets : ((Edit.amend x name value).inTurn (Edit.amend y name' value') p).2.sheet? =
      ((Edit.amend y name' value').inTurn (Edit.amend x name value) p).2.sheet? := by
    funext z
    unfold Edit.inTurn
    by_cases hzx : z = x
    · subst hzx
      rw [hyx.others z hne, hxp.self, hxy.self]
    · by_cases hzy : z = y
      · subst hzy
        rw [hyx.self, hxy.others z hzx, hyp.self]
      · rw [hyx.others z hzy, hxp.others z hzx, hxy.others z hzx, hyp.others z hzy]
  have hone := hrx.amend y name' value'
  have hother := hry.amend x name value
  obtain ⟨source, hw⟩ := hone.exists_worded
  obtain ⟨source', hw'⟩ := hother.exists_worded
  refine ⟨Prod.ext (hfirst.trans hsecond'.symm) (hsecond.trans hfirst'.symm), ?_⟩
  exact texts_congr hone.orderly.recorded.toSynced hw hother.orderly.recorded.toSynced hw' hsheets

/-- A page with italics in bold text, both in markup of their own. -/
def boldItalics : Page :=
  Act.run [.createParagraph, .createBold, .createItalics, .insertChild ⟨3⟩ ⟨4⟩ .last,
    .insertChild ⟨2⟩ ⟨3⟩ .last, .insertChild body ⟨2⟩ .last] (ofDrafts .new .default "Test" [])

/-- An element and one that it holds both become tags, in either order. -/
theorem amend_comm_boldItalics :
    boldItalics.Reached .default ∧ boldItalics.kind ⟨3⟩ = .ok .bold ∧ boldItalics.kind ⟨4⟩ = .ok .italics ∧
      let one := (Edit.amend ⟨3⟩ "id" (some " x ")).inTurn (Edit.amend ⟨4⟩ "class" (some "y")) boldItalics
      let other := (Edit.amend ⟨4⟩ "class" (some "y")).inTurn (Edit.amend ⟨3⟩ "id" (some " x ")) boldItalics
      one.1 = other.1.swap ∧ one.2.source = other.2.source ∧ one.2.outline = other.2.outline := by
  have hnew : Page.new .default "Test" = .ok (ofDrafts .new .default "Test" []) := rfl
  have h : boldItalics.Reached .default := .run (.new hnew) rfl
  have hbold : boldItalics.kind ⟨3⟩ = .ok .bold := rfl
  have hitalics : boldItalics.kind ⟨4⟩ = .ok .italics := rfl
  exact ⟨h, hbold, hitalics, h.amend_comm (by decide) hbold hitalics (by decide) (by decide) _ _ _ _⟩

end Page
end WikiPage
