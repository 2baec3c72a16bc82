import Mathlib.Tactic.SplitIfs
import WikiPage.Markup.Parse

/-!
# Reading keeps the text

Every reader accounts for the text it takes: what it read, spelled out again, and the text it left
make up the text it was given.
-/

namespace WikiPage

open Token (First first?)

namespace Token

/-- The spelling of the tokens that have only one. -/
def marker? : Kind → Option (List Char)
  | .bold => some ['\'', '\'', '\'']
  | .italics => some ['\'', '\'']
  | .linkOpen => some ['[', '[']
  | .linkClose => some [']', ']']
  | .pipe => some ['|']
  | .commentOpen => some ['<', '!', '-', '-']
  | .lt => some ['<']
  | .gt => some ['>']
  | _ => none

theorem lead_apostrophe (s : List Char) : lead '\'' s =
    if ['\'', '\''].isPrefixOf s then (.bold, 2)
    else if s.head? = some '\'' then (.italics, 1) else (.punct, 0) := rfl

theorem lead_openBracket (s : List Char) :
    lead '[' s = if s.head? = some '[' then (.linkOpen, 1) else (.punct, 0) := rfl

theorem lead_closeBracket (s : List Char) :
    lead ']' s = if s.head? = some ']' then (.linkClose, 1) else (.punct, 0) := rfl

theorem lead_lt (s : List Char) :
    lead '<' s = if ['!', '-', '-'].isPrefixOf s then (.commentOpen, 3) else (.lt, 0) := rfl

theorem marker?_reference (s : List Char) : marker? (reference s).1 = none := by
  unfold reference referenceBody
  repeat' split
  all_goals grind [marker?]

theorem marker?_lead_eq_none {c : Char} (hc : c ∉ ['\'', '[', ']', '|', '<', '>']) (s : List Char) :
    marker? (lead c s).1 = none := by
  simp only [List.mem_cons, List.not_mem_nil, or_false, not_or] at hc
  obtain ⟨h1, h2, h3, h4, h5, h6⟩ := hc
  simp only [lead, if_neg h1, if_neg h2, if_neg h3, if_neg h4, if_neg h5, if_neg h6]
  split
  · rfl
  split
  · rfl
  split
  · split <;> rfl
  split
  · exact marker?_reference s
  split
  · split <;> rfl
  · rfl

theorem take_of_isPrefixOf {l s : List Char} (h : l.isPrefixOf s = true) : s.take l.length = l :=
  (List.prefix_iff_eq_take.1 (List.isPrefixOf_iff_prefix.1 h)).symm

theorem take_of_head? {s : List Char} {c : Char} (h : s.head? = some c) : s.take 1 = [c] := by
  cases s <;> simp_all

theorem take_lead_of_marker? {c : Char} {s m : List Char} (hm : marker? (lead c s).1 = some m) :
    c :: s.take (lead c s).2 = m := by
  by_cases hc : c ∈ ['\'', '[', ']', '|', '<', '>']
  · simp only [List.mem_cons, List.not_mem_nil, or_false] at hc
    rcases hc with rfl | rfl | rfl | rfl | rfl | rfl
    · rw [lead_apostrophe] at hm ⊢
      split_ifs at hm ⊢ with h h
      · exact (congrArg _ (take_of_isPrefixOf h)).trans (Option.some.inj hm)
      · exact (congrArg _ (take_of_head? h)).trans (Option.some.inj hm)
      · cases hm
    · rw [lead_openBracket] at hm ⊢
      split_ifs at hm ⊢ with h
      · exact (congrArg _ (take_of_head? h)).trans (Option.some.inj hm)
      · cases hm
    · rw [lead_closeBracket] at hm ⊢
      split_ifs at hm ⊢ with h
      · exact (congrArg _ (take_of_head? h)).trans (Option.some.inj hm)
      · cases hm
    · exact Option.some.inj hm
    · rw [lead_lt] at hm ⊢
      split_ifs at hm ⊢ with h
      · exact (congrArg _ (take_of_isPrefixOf h)).trans (Option.some.inj hm)
      · exact Option.some.inj hm
    · exact Option.some.inj hm
  · rw [marker?_lead_eq_none hc] at hm
    simp at hm

theorem text_eq_of_marker? {s m : List Char} {t : First} (h : first? s = some t)
    (hm : marker? t.kind = some m) : t.text = m := by
  cases s with
  | nil => simp at h
  | cons c s =>
    obtain rfl : _ = t := by simpa [first?] using h
    exact take_lead_of_marker? hm

theorem take_append {kind : Kind} {m : List Char} (hm : marker? kind = some m) (s : List Char) :
    (if (take kind s).1 then m else []) ++ (take kind s).2 = s := by
  rw [take]
  split
  · rename_i t h
    split
    · rename_i hk
      rw [if_pos rfl, ← text_eq_of_marker? h (m := m) (by rw [hk, hm]), text_append_rest h]
    · simp
  · simp

end Token

theorem EndTag.take_append (name : String) (s : List Char) :
    ((EndTag.take name s).1.map EndTag.raw).getD [] ++ (EndTag.take name s).2 = s := by
  rw [EndTag.take]
  split
  · rename_i t rest h
    split
    · simpa using raw_append_of_scan? h
    · simp
  · simp

namespace Inline

theorem linkHead_append (s : List Char) :
    (linkHead s).1.1 ++ (if (linkHead s).1.2 then ['|'] else []) ++ (linkHead s).2 = s := by
  calc (linkHead s).1.1 ++ (if (linkHead s).1.2 then ['|'] else []) ++ (linkHead s).2
      = (linkTarget s).1 ++ (linkTarget s).2 := by
        rw [List.append_assoc]
        exact congrArg _ (Token.take_append (m := ['|']) rfl _)
    _ = s := linkTarget_append s

theorem commentBody_append (s : List Char) :
    (commentBody s).1 ++ (if (commentBody s).2.1 then ['-', '-', '>'] else []) ++
      (commentBody s).2.2 = s := by
  fun_induction commentBody s with
  | case1 => rfl
  | case2 c s h =>
    obtain ⟨r, hr⟩ := List.isPrefixOf_iff_prefix.1 h
    obtain ⟨rfl, rfl⟩ : '-' = c ∧ ['-', '>'] ++ r = s := by simpa using hr
    simp
  | case3 c s _ p ih => simpa [p] using ih

variable {opened : List Open} {s : List Char} {t : First}

theorem run_of_none [Entities] (h : first? s = none) : (run opened s).val = ([], s) := by
  rw [run]
  split <;> simp_all

theorem run_of_stops [Entities] (hs : stops opened s = true) : (run opened s).val = ([], s) := by
  rw [run]
  split <;> simp_all

theorem run_of_item [Entities] (h : first? s = some t) (hs : ¬stops opened s = true) :
    (run opened s).val =
      (cons (item opened s t h).val.1 (run opened (item opened s t h).val.2).val.1,
        (run opened (item opened s t h).val.2).val.2) := by
  rw [run]
  split
  · simp_all
  · rename_i u hu
    obtain rfl : t = u := Option.some.inj (h.symm.trans hu)
    rw [if_neg hs]

theorem item_of_bold [Entities] (h : first? s = some t) (hk : t.kind = .bold) :
    (item opened s t h).val = (emphasized opened .bold t.rest).val := by
  rw [item]
  split <;> simp_all

theorem item_of_italics [Entities] (h : first? s = some t) (hk : t.kind = .italics) :
    (item opened s t h).val = (emphasized opened .italics t.rest).val := by
  rw [item]
  split <;> simp_all

theorem item_of_linkOpen [Entities] (h : first? s = some t) (hk : t.kind = .linkOpen) :
    (item opened s t h).val =
      if linkCloses t.rest then (linked opened t.rest).val else (text t.text, t.rest) := by
  rw [item]
  split <;> simp_all
  split <;> rfl

theorem item_of_commentOpen [Entities] (h : first? s = some t) (hk : t.kind = .commentOpen) :
    (item opened s t h).val =
      (comment (commentBody t.rest).1 (commentBody t.rest).2.1, (commentBody t.rest).2.2) := by
  rw [item]
  split <;> simp_all

theorem item_of_startTag [Entities] {tag : StartTag} {rest : List Char} (h : first? s = some t)
    (hk : t.kind = .lt) (hs : StartTag.scan? s = some (tag, rest)) :
    (item opened s t h).val =
      (element tag (enclosed opened tag rest).val.1.1 (enclosed opened tag rest).val.1.2,
        (enclosed opened tag rest).val.2) := by
  rw [item]
  split <;> simp_all
  split
  · rename_i h'
    obtain ⟨rfl, rfl⟩ : tag = _ ∧ rest = _ := by simpa [hs] using h'
    rfl
  · simp_all

theorem item_of_endTag [Entities] {e : EndTag} {rest : List Char} (h : first? s = some t)
    (hk : t.kind = .lt) (hs : StartTag.scan? s = none) (he : EndTag.scan? s = some (e, rest)) :
    (item opened s t h).val = (text e.raw, rest) := by
  rw [item]
  split <;> simp_all
  split <;> simp_all
  split <;> simp_all

theorem item_of_lt [Entities] (h : first? s = some t)
    (hk : t.kind = .lt) (hs : StartTag.scan? s = none) (he : EndTag.scan? s = none) :
    (item opened s t h).val = (text t.text, t.rest) := by
  rw [item]
  split <;> simp_all
  split <;> simp_all
  split <;> simp_all

theorem item_of_newline [Entities] (h : first? s = some t) (hk : t.kind = .newline) :
    (item opened s t h).val = (newline t.text, t.rest) := by
  rw [item]
  split <;> simp_all

/-- The kinds of tokens that begin something other than text and references. -/
def openers : List Token.Kind :=
  [.bold, .italics, .linkOpen, .commentOpen, .lt, .newline]

theorem not_mem_openers {k : Token.Kind} (hb : k ≠ .bold) (hi : k ≠ .italics) (hl : k ≠ .linkOpen)
    (hc : k ≠ .commentOpen) (ht : k ≠ .lt) (hn : k ≠ .newline) : k ∉ openers := by
  simp only [openers, List.mem_cons, List.not_mem_nil, or_false, not_or]
  exact ⟨hb, hi, hl, hc, ht, hn⟩

theorem item_of_reference [Entities] {r : Reference} (h : first? s = some t)
    (hr : Reference.ofToken? t.kind t.text = some r) :
    (item opened s t h).val = (reference t.text r, t.rest) := by
  rw [item]
  split <;> simp_all [Reference.ofToken?]

theorem item_of_text [Entities] (h : first? s = some t) (hk : t.kind ∉ openers)
    (hr : Reference.ofToken? t.kind t.text = none) :
    (item opened s t h).val = (text t.text, t.rest) := by
  rw [item]
  split <;> simp_all [openers]

/-- The closing marker of emphasis. -/
def closer : Emphasis → Token.Kind
  | .bold => .bold
  | .italics => .italics

theorem emphasized_eq [Entities] (opened : List Open) (style : Emphasis) (s : List Char) :
    (emphasized opened style s).val =
      let body := (run (.emphasis style :: opened) s).val
      (emphasis style body.1 (Token.take (closer style) body.2).1,
        (Token.take (closer style) body.2).2) := by
  rw [emphasized.eq_def]
  cases style <;> rfl

theorem linked_of_piped [Entities] (hp : (linkHead s).1.2 = true) :
    (linked opened s).val =
      let title := (run (.title :: opened) (linkHead s).2).val
      (link (linkHead s).1.1 true title.1 (Token.take .linkClose title.2).1,
        (Token.take .linkClose title.2).2) := by
  rw [linked]
  simp [hp]

theorem linked_of_not_piped [Entities] (hp : ¬(linkHead s).1.2 = true) :
    (linked opened s).val =
      (link (linkHead s).1.1 false [] (Token.take .linkClose (linkHead s).2).1,
        (Token.take .linkClose (linkHead s).2).2) := by
  rw [linked]
  simp [hp]

theorem enclosed_of_isEmpty [Entities] {tag : StartTag} (h : tag.isEmpty = true) :
    (enclosed opened tag s).val = (([], none), s) := by
  rw [enclosed, if_pos h]

theorem enclosed_of_not_isEmpty [Entities] {tag : StartTag} (h : ¬tag.isEmpty = true) :
    (enclosed opened tag s).val =
      let body := (run (.tag tag.lowerName :: opened) s).val
      ((body.1, (EndTag.take tag.lowerName body.2).1), (EndTag.take tag.lowerName body.2).2) := by
  rw [enclosed, if_neg h]

theorem marker?_closer (style : Emphasis) : Token.marker? (closer style) = some style.marker := by
  cases style <;> rfl

theorem reads_text [Entities] :
    (∀ opened s, sources (run opened s).val.1 ++ (run opened s).val.2 = s) ∧
    (∀ opened s t h, (item opened s t h).val.1.source ++ (item opened s t h).val.2 = s) ∧
    (∀ opened tag s, sources (enclosed opened tag s).val.1.1 ++
      ((enclosed opened tag s).val.1.2.map EndTag.raw).getD [] ++ (enclosed opened tag s).val.2 = s) ∧
    (∀ opened s, (linked opened s).val.1.source ++ (linked opened s).val.2 = '[' :: '[' :: s) ∧
    (∀ opened style s, (emphasized opened style s).val.1.source ++ (emphasized opened style s).val.2 =
      style.marker ++ s) := by
  refine run.mutual_induct _ _ _ _ _
    ?nothing ?stops ?onward ?bold ?italics ?link ?looseLink ?comment ?element ?endTag ?loneBracket
    ?newline ?reference ?text ?void ?body ?titled ?untitled ?emphasis
  case nothing =>
    intro opened s h
    rw [run_of_none h]
    rfl
  case stops =>
    intro opened s t h hs
    rw [run_of_stops hs]
    rfl
  case onward =>
    intro opened s t h hs x _ hi hr _
    rw [run_of_item h hs, sources_cons, List.append_assoc, hr, hi]
  case bold =>
    intro opened s t h _ hk ih
    rw [item_of_bold h hk, ih, ← Token.text_append_rest h]
    rw [Token.text_eq_of_marker? h (m := Emphasis.bold.marker) (by rw [hk]; rfl)]
  case italics =>
    intro opened s t h _ hk ih
    rw [item_of_italics h hk, ih, ← Token.text_append_rest h]
    rw [Token.text_eq_of_marker? h (m := Emphasis.italics.marker) (by rw [hk]; rfl)]
  case link =>
    intro opened s t h _ hk hc ih
    rw [item_of_linkOpen h hk, if_pos hc, ih, ← Token.text_append_rest h]
    rw [Token.text_eq_of_marker? h (m := ['[', '[']) (by rw [hk]; rfl)]
    rfl
  case looseLink =>
    intro opened s t h _ hk hc
    rw [item_of_linkOpen h hk, if_neg hc, source, Token.text_append_rest h]
  case comment =>
    intro opened s t h _ hk
    rw [item_of_commentOpen h hk, source, List.append_assoc, List.append_assoc,
      ← List.append_assoc (commentBody t.rest).1, commentBody_append, ← Token.text_append_rest h]
    rw [Token.text_eq_of_marker? h (m := ['<', '!', '-', '-']) (by rw [hk]; rfl)]
  case element =>
    intro opened s t h _ hk tag rest hs _ ih
    rw [item_of_startTag h hk hs, source, ← StartTag.source_append_of_scan? hs]
    simpa using ih
  case endTag =>
    intro opened s t h _ hk hs e rest he
    rw [item_of_endTag h hk hs he, source, EndTag.raw_append_of_scan? he]
  case loneBracket =>
    intro opened s t h _ hk hs he
    rw [item_of_lt h hk hs he, source, Token.text_append_rest h]
  case newline =>
    intro opened s t h _ hk
    rw [item_of_newline h hk, source, Token.text_append_rest h]
  case reference =>
    intro opened s t h _ r _ _ _ _ _ _ hr
    rw [item_of_reference h hr, source, Token.text_append_rest h]
  case text =>
    intro opened s t h _ h1 h2 h3 h4 h5 h6 hr
    rw [item_of_text h (not_mem_openers h1 h2 h3 h4 h5 h6) hr, source, Token.text_append_rest h]
  case void =>
    intro opened tag s he
    rw [enclosed_of_isEmpty he]
    rfl
  case body =>
    intro opened tag s he ih
    rw [enclosed_of_not_isEmpty he, List.append_assoc, EndTag.take_append, ih]
  case titled =>
    intro opened s head _ hp ih _
    have hh := linkHead_append s
    rw [if_pos hp] at hh
    rw [linked_of_piped hp, source]
    simp only [List.append_assoc]
    rw [Token.take_append (m := [']', ']']) rfl, ih]
    simpa using hh
  case untitled =>
    intro opened s head _ hp
    have hh := linkHead_append s
    rw [if_neg hp] at hh
    rw [linked_of_not_piped hp, source]
    simp only [List.append_assoc, sources]
    rw [Token.take_append (m := [']', ']']) rfl]
    simpa using hh
  case emphasis =>
    intro opened style s ih
    rw [emphasized_eq, source, List.append_assoc, List.append_assoc,
      Token.take_append (marker?_closer style), ih]

theorem sources_run [Entities] (opened : List Open) (s : List Char) :
    sources (run opened s).val.1 ++ (run opened s).val.2 = s :=
  reads_text.1 opened s

theorem source_item [Entities] (opened : List Open) (s : List Char) (t : First) (h : first? s = some t) :
    (item opened s t h).val.1.source ++ (item opened s t h).val.2 = s :=
  reads_text.2.1 opened s t h

theorem source_enclosed [Entities] (opened : List Open) (tag : StartTag) (s : List Char) :
    sources (enclosed opened tag s).val.1.1 ++
      ((enclosed opened tag s).val.1.2.map EndTag.raw).getD [] ++ (enclosed opened tag s).val.2 = s :=
  reads_text.2.2.1 opened tag s

end Inline

namespace Block

/-- The blocks of a page, spelled out again, are its text. -/
theorem flatMap_source_parse [Entities] (lineStart : Bool) (s : List Char) :
    (parse lineStart s).flatMap source = s := by
  fun_induction parse lineStart s with
  | case1 lineStart s h => simp_all
  | case2 lineStart s t h _ ih =>
    rw [List.flatMap_cons, ih, source, Token.text_append_rest h]
  | case3 lineStart s t h _ _ ih =>
    rw [List.flatMap_cons, ih, source, Token.text_append_rest h]
  | case4 lineStart s t h _ _ tag rest hb p ih =>
    rw [List.flatMap_cons, ih, source, Inline.source, List.append_assoc, List.append_assoc,
      ← List.append_assoc (Inline.sources _), Inline.source_enclosed]
    exact StartTag.source_append_of_scan? (Option.filter_eq_some_iff.1 hb).1
  | case5 lineStart s t h _ _ hb x xs ih =>
    rw [List.flatMap_cons, ih, source, Inline.sources_cons, List.append_assoc, Inline.sources_run, Inline.source_item]

end Block
end WikiPage
