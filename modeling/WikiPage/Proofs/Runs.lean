import WikiPage.Proofs.Reading

/-!
# Facts about all that is read

The readers of runs, items and bodies call each other. A fact about what they read is shown construct by
construct, from the run that a construct holds, which is read with the construct on the stack.
-/

namespace WikiPage

open Token (First first?)

theorem Token.rest_suffix {s : List Char} {t : First} (h : first? s = some t) : t.rest <:+ s :=
  ⟨_, text_append_rest h⟩

/-- An end tag that a scan finds. -/
def EndTag.IsFound (tag : EndTag) : Prop :=
  ∃ s rest, scan? s = some (tag, rest)

theorem EndTag.isFound_of_take {name : String} {s : List Char} {tag : EndTag}
    (h : (take name s).1 = some tag) : tag.IsFound := by
  rw [take] at h
  split at h
  · split at h
    · obtain rfl := Option.some.inj h
      exact ⟨_, _, ‹_›⟩
    · cases h
  · cases h

namespace Inline

variable {opened : List Open} {s : List Char} {t : First}

theorem suffix_item [Entities] (h : first? s = some t) : (item opened s t h).val.2 <:+ s :=
  ⟨_, source_item opened s t h⟩

theorem suffix_linkHead (s : List Char) : (linkHead s).2 <:+ s :=
  ⟨_, linkHead_append s⟩

theorem not_stops_nil (h : first? s = some t) (hk : t.kind ≠ .newline) : ¬stops [] s = true := by
  rw [stops]
  cases hkind : t.kind <;> simp_all
  split <;> simp

/-- A fact about items and one about runs, given the constructs that are open and the text that is read.
Each construct has the one because what it holds has the other. -/
structure Inherits [Entities] (P : List Open → List Char → Inline → Prop)
    (R : List Open → List Char → List Inline → Prop) : Prop where
  nil : ∀ opened s, R opened s []
  cons : ∀ {opened s t items} (h : first? s = some t), ¬stops opened s = true →
    P opened s (item opened s t h).val.1 → R opened (item opened s t h).val.2 items →
    R opened s (Inline.cons (item opened s t h).val.1 items)
  text : ∀ {opened s w}, w ≠ [] → P opened s (.text w)
  newline : ∀ {opened s} w, P opened s (.newline w)
  reference : ∀ {opened s} raw meaning, P opened s (.reference raw meaning)
  comment : ∀ {opened s t}, first? s = some t → t.kind = .commentOpen →
    P opened s (.comment (commentBody t.rest).1 (commentBody t.rest).2.1)
  emphasis : ∀ {opened s t style body closed}, first? s = some t → t.kind = closer style →
    ¬stops opened s = true → R (.emphasis style :: opened) t.rest body →
    P opened s (.emphasis style body closed)
  link : ∀ {opened s t piped title closed}, first? s = some t → linkCloses t.rest = true →
    (piped = false → title = []) → R (.title :: opened) (linkHead t.rest).2 title →
    P opened s (.link (linkHead t.rest).1.1 piped title closed)
  element : ∀ {opened s tag rest body closing}, StartTag.scan? s = some (tag, rest) →
    (tag.isEmpty = true → body = []) → (∀ e ∈ closing, EndTag.IsFound e) →
    R (.tag tag.lowerName :: opened) rest body → P opened s (.element tag body closing)

namespace Inherits

variable {P : List Open → List Char → Inline → Prop} {R : List Open → List Char → List Inline → Prop}

theorem runs [Entities] (h : Inherits P R) :
    (∀ opened s, R opened s (run opened s).val.1) ∧
    (∀ opened s t ht, ¬stops opened s = true → P opened s (item opened s t ht).val.1) ∧
    (∀ opened tag s, (tag.isEmpty = true → (enclosed opened tag s).val.1.1 = []) ∧
      (∀ e ∈ (enclosed opened tag s).val.1.2, EndTag.IsFound e) ∧
      R (.tag tag.lowerName :: opened) s (enclosed opened tag s).val.1.1) ∧
    (∀ opened rest, ∀ s t, first? s = some t → t.rest = rest → linkCloses rest = true →
      P opened s (linked opened rest).val.1) ∧
    (∀ opened style rest, ∀ s t, first? s = some t → t.rest = rest → t.kind = closer style →
      ¬stops opened s = true → P opened s (emphasized opened style rest).val.1) := by
  refine run.mutual_induct _ _ _ _ _
    ?nothing ?stops ?onward ?bold ?italics ?link ?looseLink ?comment ?element ?endTag ?loneBracket
    ?newline ?reference ?text ?void ?body ?titled ?untitled ?emphasis
  case nothing =>
    intro opened s ht
    rw [run_of_none ht]
    exact h.nil opened s
  case stops =>
    intro opened s t ht hs
    rw [run_of_stops hs]
    exact h.nil opened s
  case onward =>
    intro opened s t ht hs x _ hi hr _
    rw [run_of_item ht hs]
    exact h.cons ht hs (hi hs) hr
  case bold =>
    intro opened s t ht _ hk ih hs
    rw [item_of_bold ht hk]
    exact ih s t ht rfl hk hs
  case italics =>
    intro opened s t ht _ hk ih hs
    rw [item_of_italics ht hk]
    exact ih s t ht rfl hk hs
  case link =>
    intro opened s t ht _ hk hc ih _
    rw [item_of_linkOpen ht hk, if_pos hc]
    exact ih s t ht rfl hc
  case looseLink =>
    intro opened s t ht _ hk hc _
    rw [item_of_linkOpen ht hk, if_neg hc]
    exact h.text (Token.text_ne_nil ht)
  case comment =>
    intro opened s t ht _ hk _
    rw [item_of_commentOpen ht hk]
    exact h.comment ht hk
  case element =>
    intro opened s t ht _ hk tag rest hs _ ih _
    rw [item_of_startTag ht hk hs]
    exact h.element hs ih.1 ih.2.1 ih.2.2
  case endTag =>
    intro opened s t ht _ hk hs e rest he _
    rw [item_of_endTag ht hk hs he]
    exact h.text (EndTag.raw_ne_nil_of_scan? he)
  case loneBracket =>
    intro opened s t ht _ hk hs he _
    rw [item_of_lt ht hk hs he]
    exact h.text (Token.text_ne_nil ht)
  case newline =>
    intro opened s t ht _ hk _
    rw [item_of_newline ht hk]
    exact h.newline _
  case reference =>
    intro opened s t ht _ r _ _ _ _ _ _ hr _
    rw [item_of_reference ht hr]
    exact h.reference _ _
  case text =>
    intro opened s t ht _ h1 h2 h3 h4 h5 h6 hr _
    rw [item_of_text ht (not_mem_openers h1 h2 h3 h4 h5 h6) hr]
    exact h.text (Token.text_ne_nil ht)
  case void =>
    intro opened tag s he
    rw [enclosed_of_isEmpty he]
    exact ⟨fun _ => rfl, by simp, h.nil _ s⟩
  case body =>
    intro opened tag s he ih
    rw [enclosed_of_not_isEmpty he]
    exact ⟨fun hempty => absurd hempty he, fun _ => EndTag.isFound_of_take, ih⟩
  case titled =>
    rintro opened _ head _ hp ih _ s t ht rfl hc
    rw [linked_of_piped hp]
    exact h.link ht hc (fun h => Bool.noConfusion h) ih
  case untitled =>
    rintro opened _ head _ hp s t ht rfl hc
    rw [linked_of_not_piped hp]
    exact h.link ht hc (fun _ => rfl) (h.nil _ _)
  case emphasis =>
    rintro opened style _ ih s t ht rfl hk hs
    rw [emphasized_eq]
    exact h.emphasis ht hk hs ih

end Inherits

end Inline

namespace Block

/-- The facts about items and runs, for a block that stands at the beginning of a text. -/
def Has (P : List Open → List Char → Inline → Prop) (R : List Open → List Char → List Inline → Prop)
    (s : List Char) : Block → Prop
  | newline _ => True
  | rule _ => True
  | paragraph items => R [] s items
  | element tag body closing => P [] s (.element tag body closing)

/-- All blocks that are read have what the constructs inherit. -/
theorem has_parse [Entities] {P : List Open → List Char → Inline → Prop}
    {R : List Open → List Char → List Inline → Prop} (h : Inline.Inherits P R) (lineStart : Bool)
    (s : List Char) : ∀ b ∈ parse lineStart s, ∃ rest, rest <:+ s ∧ b.Has P R rest := by
  have before {b : Block} {bs : List Block} {rest s : List Char} (hr : rest <:+ s) (hb : b.Has P R s)
      (ih : ∀ b ∈ bs, ∃ r, r <:+ rest ∧ b.Has P R r) :
      ∀ x ∈ b :: bs, ∃ r, r <:+ s ∧ x.Has P R r := by
    refine List.forall_mem_cons.2 ⟨⟨s, List.suffix_refl s, hb⟩, fun x hx => ?_⟩
    obtain ⟨r, hs, hx⟩ := ih x hx
    exact ⟨r, hs.trans hr, hx⟩
  obtain ⟨hrun, hitem, henclosed, -⟩ := h.runs
  fun_induction parse lineStart s with
  | case1 => simp
  | case2 lineStart s t ht _ ih => exact before (b := newline t.text) (Token.rest_suffix ht) trivial ih
  | case3 lineStart s t ht _ _ ih => exact before (b := rule t.text) (Token.rest_suffix ht) trivial ih
  | case4 lineStart s t ht _ _ tag rest hb p ih =>
    have hs := (Option.filter_eq_some_iff.1 hb).1
    have hr : rest <:+ s := ⟨_, StartTag.source_append_of_scan? hs⟩
    have hp : p.val.2 <:+ rest := ⟨_, Inline.source_enclosed [] tag rest⟩
    have hbody := henclosed [] tag rest
    exact before (b := element tag _ _) (hp.trans hr) (h.element hs hbody.1 hbody.2.1 hbody.2.2) ih
  | case5 lineStart s t ht hk _ hb x xs ih =>
    have hx : x.val.2 <:+ s := Inline.suffix_item ht
    have hxs : xs.val.2 <:+ x.val.2 := ⟨_, Inline.sources_run [] x.val.2⟩
    have hs := Inline.not_stops_nil ht hk
    exact before (b := paragraph _) (hxs.trans hx) (h.cons ht hs (hitem [] s t ht hs) (hrun [] _)) ih

end Block
end WikiPage
