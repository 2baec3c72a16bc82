import WikiPage.Proofs.Nesting

/-!
# Inline content holds no blocks

The check of a new child compares two kinds, those of the child and of its new parent, while the child
may bring a whole tree along. It is enough all the same: what an inline element takes is inline or has
no children, so what is inline passes down every path.
-/

namespace WikiPage

namespace Kind

/-- The kinds of elements that start a block of their own on the page. -/
def isBlock : Kind → Bool
  | paragraph => true
  | div => true
  | rule => true
  | _ => false

/-- The kinds of elements that hold inline content. -/
def holdsInline : Kind → Bool
  | paragraph => true
  | bold => true
  | italics => true
  | link => true
  | _ => false

/-- The kinds of elements that hold nothing. -/
def isLeaf : Kind → Bool
  | rule => true
  | text => true
  | comment => true
  | category => true
  | _ => false

variable {up kind : Kind}

theorem isBlock_eq_false_of_accepts (h : ContentModel.inline.accepts kind = true) :
    kind.isBlock = false := by
  cases kind <;> first | rfl | cases h

theorem inline_accepts_of_takes
    (hu : up.holdsInline = true ∨ ContentModel.inline.accepts up = true) (h : up.takes kind = true) :
    ContentModel.inline.accepts kind = true := by
  cases up <;> simp [holdsInline, ContentModel.accepts, ContentModel.acceptsInTitle] at hu <;>
    cases kind <;> first | rfl | cases h

theorem takes_eq_false_of_isLeaf (h : up.isLeaf = true) : up.takes kind = false := by
  cases up <;> cases h <;> rfl

end Kind

namespace Page

variable {site : Site} {title : String} {p : Page} {x y z : ElementId}

/-- An element has another among its children or is named by it as its parent. -/
def Joined (p : Page) (y x : ElementId) : Prop :=
  x ∈ p.childrenOf y ∨ p.parentOf x = some y

/-- An element stands below another, at whatever depth and by either account. -/
def Below (p : Page) (x y : ElementId) : Prop :=
  Relation.TransGen p.Joined y x

/-- No block stands in what holds inline content, at whatever depth, and leaves hold nothing. -/
structure InlineHoldsNoBlocks (p : Page) : Prop where
  below : ∀ x y up, p.kindOf? y = some up → up.holdsInline = true → p.Below x y →
    ∃ k, p.kindOf? x = some k ∧ k.isBlock = false
  leaf : ∀ x k, p.kindOf? x = some k → k.isLeaf = true →
    p.childrenOf x = [] ∧ ∀ z, p.parentOf z ≠ some x

namespace Lawful

theorem takes_of_joined (h : p.Lawful) {k : Kind} (hy : p.kindOf? y = some k) (hk : k ≠ .page)
    (hx : p.Joined y x) : ∃ k', p.kindOf? x = some k' ∧ k.takes k' = true := by
  have hr : y ≠ root := by
    rintro rfl
    exact hk (Option.some.inj (hy.symm.trans h.root_kind))
  obtain ⟨k₁, k', hy', hx', ht⟩ := hx.elim (fun hx => h.holds hx hr) fun hx => h.takes hx hr
  obtain rfl := Option.some.inj (hy.symm.trans hy')
  exact ⟨k', hx', ht⟩

/-- What stands below inline content is inline. The induction is on the way down. -/
theorem inline_of_below (h : p.Lawful) {up : Kind} (hy : p.kindOf? y = some up)
    (hu : up.holdsInline = true) (hx : p.Below x y) :
    ∃ k, p.kindOf? x = some k ∧ ContentModel.inline.accepts k = true := by
  have step {z x : ElementId} {k : Kind} (hz : p.kindOf? z = some k)
      (hk : k.holdsInline = true ∨ ContentModel.inline.accepts k = true) (hx : p.Joined z x) :
      ∃ k', p.kindOf? x = some k' ∧ ContentModel.inline.accepts k' = true := by
    obtain ⟨k', hx', ht⟩ := h.takes_of_joined hz (by rintro rfl; rcases hk with hk | hk <;> cases hk) hx
    exact ⟨k', hx', Kind.inline_accepts_of_takes hk ht⟩
  induction hx with
  | single hx => exact step hy (.inl hu) hx
  | tail _ hx ih =>
    obtain ⟨k, hz, hk⟩ := ih
    exact step hz (.inr hk) hx

theorem not_joined_of_isLeaf (h : p.Lawful) {k : Kind} (hx : p.kindOf? x = some k)
    (hk : k.isLeaf = true) : ¬p.Joined x z := by
  intro hz
  obtain ⟨k', -, ht⟩ := h.takes_of_joined hx (by rintro rfl; cases hk) hz
  rw [Kind.takes_eq_false_of_isLeaf hk] at ht
  cases ht

theorem inlineHoldsNoBlocks (h : p.Lawful) : p.InlineHoldsNoBlocks where
  below _ _ _ hy hu hx := by
    obtain ⟨k, hk, ha⟩ := h.inline_of_below hy hu hx
    exact ⟨k, hk, Kind.isBlock_eq_false_of_accepts ha⟩
  leaf _ _ hx hk :=
    ⟨List.eq_nil_iff_forall_not_mem.2 fun _ hz => h.not_joined_of_isLeaf hx hk (.inl hz),
      fun _ hz => h.not_joined_of_isLeaf hx hk (.inr hz)⟩

end Lawful

/-- On every page that began empty, whatever was done to it since and however it went, no paragraph,
div or rule stands at any depth below a paragraph, bold text, italics or a link, and rules, texts,
comments and categories have no children. -/
theorem inlineHoldsNoBlocks_run {acts : List Act} (h : new site title = .ok p) :
    (Act.run acts p).InlineHoldsNoBlocks :=
  (Act.lawful_run acts (lawful_new h)).inlineHoldsNoBlocks

/-- A paragraph with bold text in it, put together from the inside, and a refused rule. -/
def boldInParagraph : Page :=
  Act.run [.createText "a", .createBold, .insertChild ⟨3⟩ ⟨2⟩ .last, .createParagraph,
    .insertChild ⟨4⟩ ⟨3⟩ .last, .createRule, .insertChild ⟨3⟩ ⟨5⟩ .last, .insertChild Page.body ⟨4⟩ .last]
    (ofDrafts .new .default "Test" [])

theorem inlineHoldsNoBlocks_run_boldInParagraph :
    new .default "Test" = .ok (ofDrafts .new .default "Test" []) ∧
      boldInParagraph.kindOf? ⟨4⟩ = some .paragraph ∧ boldInParagraph.Below ⟨2⟩ ⟨4⟩ ∧
      boldInParagraph.InlineHoldsNoBlocks := by
  have h : new .default "Test" = .ok (ofDrafts .new .default "Test" []) := rfl
  have outer : boldInParagraph.parentOf ⟨3⟩ = some ⟨4⟩ := by decide +kernel
  have inner : boldInParagraph.parentOf ⟨2⟩ = some ⟨3⟩ := by decide +kernel
  exact ⟨h, by decide +kernel, .tail (.single (.inr outer)) (.inr inner), inlineHoldsNoBlocks_run h⟩

end Page
end WikiPage
