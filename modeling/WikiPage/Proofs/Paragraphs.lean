import WikiPage.Proofs.Bracketing

/-!
# Where paragraphs begin and end

The blocks of a page and the items of a run are read independently, each by looking one token ahead. They
agree all the same: a run takes a line break only if something stands behind it that goes on with the
paragraph, so what a paragraph leaves is a line break or nothing at all.
-/

namespace WikiPage

open Token (First first? firstKind?)

namespace Inline

/-- No two line breaks are side by side, and none is the last. -/
structure IsLines (items : List Inline) : Prop where
  apart : Apart isNewline items
  last : ∀ x, items.getLast? = some x → isNewline x = false

theorem isLines_nil : IsLines [] :=
  ⟨.nil, by simp⟩

theorem cons_ne_nil (x : Inline) (items : List Inline) : cons x items ≠ [] := by
  rw [cons.eq_def]
  split <;> simp

theorem isNewline_of_head?_cons {x y : Inline} {items : List Inline}
    (h : (cons x items).head? = some y) : isNewline y = isNewline x := by
  rw [cons.eq_def] at h
  split at h <;> obtain rfl := Option.some.inj h <;> rfl

theorem last_cons {P : Inline → Prop} {x : Inline} {items : List Inline} (hx : items = [] → P x)
    (h : ∀ y, items.getLast? = some y → P y) : ∀ y, (x :: items).getLast? = some y → P y := by
  cases items with
  | nil => simpa using hx rfl
  | cons z items => simpa only [List.getLast?_cons_cons] using h

theorem IsLines.cons {x : Inline} {items : List Inline} (h : IsLines items)
    (hx : isNewline x = true → ∃ y ys, items = y :: ys ∧ isNewline y = false) :
    IsLines (Inline.cons x items) := by
  rw [cons.eq_def]
  split
  · rename_i s t items
    refine ⟨h.apart.of_head rfl, last_cons (fun _ => rfl) fun y hy => h.last y ?_⟩
    rw [List.getLast?_cons, hy]
    rfl
  · refine ⟨h.apart.cons fun y ys hy => ?_, last_cons (fun hnil => ?_) h.last⟩
    · cases hn : isNewline x with
      | false => exact .inl rfl
      | true =>
        obtain ⟨z, zs, hz, hl⟩ := hx hn
        obtain ⟨rfl, -⟩ := List.cons.inj (hy.symm.trans hz)
        exact .inr hl
    · by_contra hn
      obtain ⟨y, ys, hy, -⟩ := hx (by simpa using hn)
      cases hnil.symm.trans hy

variable {s : List Char} {t : First}

/-- A line break that does not end the paragraph has something behind it that goes on with it. -/
theorem exists_of_not_stops (h : first? s = some t) (hk : t.kind = .newline)
    (hs : ¬stops [] s = true) :
    ∃ u, first? t.rest = some u ∧ u.kind ≠ .newline := by
  simp only [stops, h, hk, paragraphEnds] at hs
  cases hu : first? t.rest with
  | none => simp [hu] at hs
  | some u =>
    simp only [hu, Bool.or_eq_true, decide_eq_true_eq, not_or] at hs
    exact ⟨u, rfl, hs.1.1⟩

/-- What a run of items leaves when nothing is open: a line break or nothing. -/
def AtLineEnd (s : List Char) : Prop :=
  ∀ t, first? s = some t → t.kind = .newline

theorem firstKind?_of_head?_run [Entities] {x : Inline} (h : (run [] s).val.1.head? = some x)
    (hx : isNewline x = true) : firstKind? s = some .newline := by
  cases ht : first? s with
  | none => simp [run_of_none ht] at h
  | some t =>
    by_cases hs : stops [] s = true
    · simp [run_of_stops hs] at h
    · rw [run_of_item ht hs] at h
      rw [isNewline_of_head?_cons h, isNewline_item ht, beq_iff_eq] at hx
      rw [firstKind?, ht, Option.map_some, hx]

theorem run_ne_nil [Entities] (h : first? s = some t) (hk : t.kind ≠ .newline) : (run [] s).val.1 ≠ [] := by
  rw [run_of_item h (not_stops_nil h hk)]
  exact cons_ne_nil _ _

theorem isLines_run [Entities] (s : List Char) : IsLines (run [] s).val.1 ∧ AtLineEnd (run [] s).val.2 := by
  induction s using (measure (List.length (α := Char))).wf.induction with
  | _ s ih =>
    cases ht : first? s with
    | none =>
      rw [run_of_none ht]
      exact ⟨isLines_nil, fun t h => by cases ht.symm.trans h⟩
    | some t =>
      by_cases hs : stops [] s = true
      · rw [run_of_stops hs]
        refine ⟨isLines_nil, fun u hu => ?_⟩
        by_contra hk
        exact not_stops_nil hu hk hs
      · rw [run_of_item ht hs]
        obtain ⟨hl, he⟩ := ih _ (item [] s t ht).property
        refine ⟨hl.cons fun hx => ?_, he⟩
        rw [isNewline_item ht, beq_iff_eq] at hx
        obtain ⟨u, hu, hk⟩ := exists_of_not_stops ht hx hs
        rw [item_of_newline ht hx]
        obtain ⟨y, ys, hy⟩ := List.exists_cons_of_ne_nil (run_ne_nil hu hk)
        refine ⟨y, ys, hy, ?_⟩
        by_contra hnew
        rw [Bool.not_eq_false] at hnew
        have hfirst := firstKind?_of_head?_run (hy ▸ List.head?_cons) hnew
        rw [firstKind?, hu, Option.map_some, Option.some.injEq] at hfirst
        exact hk hfirst

end Inline

namespace Block

def isNewline : Block → Bool
  | newline _ => true
  | _ => false

def isRule : Block → Bool
  | rule _ => true
  | _ => false

def isParagraph : Block → Bool
  | paragraph _ => true
  | _ => false

/-- Two blocks may stand one after the other. -/
def Precedes (x y : Block) : Prop :=
  (x.isParagraph = true → y.isNewline = true) ∧ (y.isRule = true → x.isNewline = true)

/-- A block as it is read. -/
def IsRead : Block → Prop
  | newline _ => True
  | rule _ => True
  | paragraph items => items ≠ [] ∧ (∀ x, items.head? = some x → x.isNewline = false) ∧
    Inline.IsLines items
  | element tag _ _ => tag.isBlock = true

theorem isRead_parse [Entities] (lineStart : Bool) (s : List Char) : ∀ b ∈ parse lineStart s, b.IsRead := by
  fun_induction parse lineStart s with
  | case1 => simp
  | case2 lineStart s t h _ ih => exact List.forall_mem_cons.2 ⟨trivial, ih⟩
  | case3 lineStart s t h _ _ ih => exact List.forall_mem_cons.2 ⟨trivial, ih⟩
  | case4 lineStart s t h _ _ tag rest hb p ih =>
    exact List.forall_mem_cons.2 ⟨(Option.filter_eq_some_iff.1 hb).2, ih⟩
  | case5 lineStart s t h hk _ hb x xs ih =>
    have hx : x.val.1.isNewline = false := by
      rw [Inline.isNewline_item h, beq_eq_false_iff_ne]
      exact hk
    refine List.forall_mem_cons.2 ⟨⟨Inline.cons_ne_nil _ _, fun y hy => ?_, ?_⟩, ih⟩
    · exact (Inline.isNewline_of_head?_cons hy).trans hx
    · exact (Inline.isLines_run _).1.cons fun hn => Bool.noConfusion (hx.symm.trans hn)

variable {lineStart : Bool} {s : List Char} {t : First} {b : Block}

theorem parse_of_none [Entities] (h : first? s = none) : parse lineStart s = [] := by
  rw [parse]
  split
  · rfl
  · cases h.symm.trans ‹_›

theorem parse_of_newline [Entities] (h : first? s = some t) (hk : t.kind = .newline) :
    parse lineStart s = newline t.text :: parse true t.rest := by
  rw [parse]
  split
  · cases h.symm.trans ‹_›
  · obtain rfl := Option.some.inj (h.symm.trans ‹_›)
    rw [if_pos hk]

/-- The first block is a rule only at the beginning of a line. -/
theorem lineStart_of_head?_parse [Entities] (hb : b.isRule = true) :
    (parse lineStart s).head? = some b → lineStart = true := by
  fun_cases parse lineStart s with
  | case1 hs => exact fun h => by cases h
  | case3 t hs hk hd => exact fun _ => hd.2
  | case2 | case4 | case5 =>
    intro h
    obtain rfl := Option.some.inj h
    cases hb

theorem isNewline_of_head?_parse [Entities] (hs : Inline.AtLineEnd s) (h : (parse lineStart s).head? = some b) :
    b.isNewline = true := by
  cases ht : first? s with
  | none => simp [parse_of_none ht] at h
  | some t =>
    rw [parse_of_newline ht (hs t ht)] at h
    obtain rfl := Option.some.inj h
    rfl

theorem isRule_of_isNewline (h : b.isNewline = true) : b.isRule = false := by
  cases b <;> first | rfl | cases h

theorem isChain_parse [Entities] (lineStart : Bool) (s : List Char) : (parse lineStart s).IsChain Precedes := by
  have before {lineStart : Bool} {x : Block} {s : List Char} (ih : (parse lineStart s).IsChain Precedes)
      (h : ∀ y, (parse lineStart s).head? = some y → x.Precedes y) :
      (x :: parse lineStart s).IsChain Precedes := List.isChain_cons.2 ⟨h, ih⟩
  -- no rule stands behind what does not end its line
  have apart {x y : Block} {s : List Char} (hx : x.isParagraph = false)
      (hy : (parse false s).head? = some y) : x.Precedes y :=
    ⟨fun h => Bool.noConfusion (hx.symm.trans h), fun h => Bool.noConfusion (lineStart_of_head?_parse h hy)⟩
  fun_induction parse lineStart s with
  | case1 => exact .nil
  | case2 lineStart s t h _ ih => exact before ih fun y _ => ⟨Bool.noConfusion, fun _ => rfl⟩
  | case3 lineStart s t h _ _ ih => exact before ih fun y hy => apart rfl hy
  | case4 lineStart s t h _ _ tag rest hb p ih => exact before ih fun y hy => apart rfl hy
  | case5 lineStart s t h hk _ hb x xs ih =>
    refine before ih fun y hy => ?_
    have hnew := isNewline_of_head?_parse (Inline.isLines_run _).2 hy
    exact ⟨fun _ => hnew, fun hr => Bool.noConfusion ((isRule_of_isNewline hnew).symm.trans hr)⟩

end Block

namespace Payload

def isParagraph : Payload → Bool
  | paragraph _ => true
  | _ => false

def isRule : Payload → Bool
  | rule => true
  | _ => false

/-- What stands in the content of a page as it is read. -/
def isBlock : Payload → Bool
  | newline _ => true
  | rule => true
  | paragraph _ => true
  | element name _ _ _ =>
    ["blockquote", "center", "div", "dl", "hr", "ol", "p", "pre", "table", "ul"].contains name.toLower
  | _ => false

end Payload

namespace Arena

/-- The items of a paragraph: there are some, and line breaks stand singly between others. -/
structure IsLines (a : Arena) (items : List NodeId) : Prop where
  filled : items ≠ []
  first : ∀ x, items.head? = some x → ¬a.Is Payload.isNewline x
  last : ∀ x, items.getLast? = some x → ¬a.Is Payload.isNewline x
  apart : items.IsChain fun x y => ¬(a.Is Payload.isNewline x ∧ a.Is Payload.isNewline y)

/-- How the content of a page is divided. -/
structure Divided (a : Arena) (items : List NodeId) : Prop where
  content : a.find? a.content = some ⟨.list items, none⟩
  kinds : ∀ x ∈ items, a.Is Payload.isBlock x
  paragraph : items.IsChain fun x y => a.Is Payload.isParagraph x → a.Is Payload.isNewline y
  rule : items.IsChain fun x y => a.Is Payload.isRule y → a.Is Payload.isNewline x
  lines : ∀ {x content g}, a.find? x = some ⟨.paragraph content, g⟩ →
    ∃ ids, a.find? content = some ⟨.list ids, none⟩ ∧ a.IsLines ids

theorem Is.of_find? {a : Arena} {kind : Payload → Bool} {x : NodeId} {n : Node} (h : a.Is kind x)
    (hn : a.find? x = some n) : kind n.payload = true := by
  obtain ⟨m, hm, hk⟩ := h
  obtain rfl := Option.some.inj (hn.symm.trans hm)
  exact hk

end Arena

theorem Block.StandsAt.exists_find? {a : Arena} {b : Block} {x : NodeId} (h : b.StandsAt a x) :
    ∃ n, a.find? x = some n ∧ n.payload.isNewline = b.isNewline ∧ n.payload.isRule = b.isRule ∧
      n.payload.isParagraph = b.isParagraph ∧ (b.IsRead → n.payload.isBlock = true) := by
  cases h with
  | newline hx | rule hx | paragraph hx _ _ => exact ⟨_, hx, rfl, rfl, rfl, fun _ => rfl⟩
  | element hx =>
    cases hx with
    | element hx _ _ _ => exact ⟨_, hx, rfl, rfl, rfl, id⟩

namespace Arena

variable {a : Arena} {items : List Inline} {ids : List NodeId}

theorem isLines_of_forall₂ (hb : List.Forall₂ (Inline.StandsAt a) items ids) (hne : items ≠ [])
    (hf : ∀ x, items.head? = some x → x.isNewline = false) (hl : Inline.IsLines items) :
    a.IsLines ids where
  filled := by
    rintro rfl
    exact hne (List.forall₂_nil_right_iff.1 hb)
  first y hy hn := by
    obtain ⟨x, hx, hs⟩ := exists_head?_of_forall₂ hb hy
    exact Bool.noConfusion ((hs.isNewline_eq hn).symm.trans (hf x hx))
  last y hy hn := by
    rw [← List.head?_reverse] at hy
    obtain ⟨x, hx, hs⟩ := exists_head?_of_forall₂ (List.forall₂_reverse_iff.2 hb) hy
    rw [List.head?_reverse] at hx
    exact Bool.noConfusion ((hs.isNewline_eq hn).symm.trans (hl.last x hx))
  apart := by
    refine isChain_of_forall₂ hb hl.apart fun hx hx' hs hn => ?_
    rw [hx.isNewline_eq hn.1, hx'.isNewline_eq hn.2] at hs
    simp at hs

/-- Whatever the text, the page that it is read into is divided into line breaks, rules, paragraphs and
block elements. -/
theorem divided_read [Entities] (text : String) : ∃ items, (read text).Divided items := by
  have hs := standsAt_read text
  have hchain := Block.isChain_parse true text.toList
  refine ⟨(stored text).1, ?_, fun x hx => ?_, ?_, ?_, fun {x content g} hx => ?_⟩
  · rw [Arena.content, find?_read_root]
    exact find?_read_content text
  · obtain ⟨block, hblock, hs⟩ := exists_mem_of_forall₂ hs hx
    obtain ⟨n, hn, -, -, -, hk⟩ := hs.exists_find?
    exact ⟨n, hn, hk (Block.isRead_parse true _ block hblock)⟩
  · refine isChain_of_forall₂ hs hchain fun hx hy hp hk => ?_
    obtain ⟨n, hn, -, -, hpar, -⟩ := hx.exists_find?
    obtain ⟨m, hm, hnew, -, -, -⟩ := hy.exists_find?
    exact ⟨m, hm, hnew.trans (hp.1 (hpar.symm.trans (hk.of_find? hn)))⟩
  · refine isChain_of_forall₂ hs hchain fun hx hy hp hk => ?_
    obtain ⟨n, hn, hnew, -, -, -⟩ := hx.exists_find?
    obtain ⟨m, hm, -, hrule, -, -⟩ := hy.exists_find?
    exact ⟨n, hn, hnew.trans (hp.2 (hrule.symm.trans (hk.of_find? hm)))⟩
  · obtain ⟨block, hblock, hs | ⟨item, -, hs⟩⟩ := exists_of_find?_read hx rfl rfl
    · have hread := Block.isRead_parse true _ block hblock
      cases hs with
      | newline hy | rule hy => cases hx.symm.trans hy
      | paragraph hy hc hb =>
        cases hx.symm.trans hy
        exact ⟨_, hc, isLines_of_forall₂ hb hread.1 hread.2.1 hread.2.2⟩
      | element hs =>
        cases hs with
        | element hy _ _ _ => cases hx.symm.trans hy
    · cases hs with
      | text hy | newline hy | reference hy | comment hy | emphasis hy _ _ | link hy _ _ | element hy _ _ _ =>
        cases hx.symm.trans hy

end Arena
end WikiPage
