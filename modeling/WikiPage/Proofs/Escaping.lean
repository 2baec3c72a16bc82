import WikiPage.Proofs.Regular
import WikiPage.Proofs.Surgery

/-!
# Values that are escaped

A value is written with references for the characters that would end it or begin markup. So it can be
told where it ends, and as its spans are read back they stand for the value again: a reference that was
put in is a token, and no other token has an ampersand.
-/

namespace WikiPage

namespace Token

theorem lead_ne_reference {c : Char} (hc : c ≠ '&') (s : List Char) :
    (lead c s).1 ≠ .charRef ∧ (lead c s).1 ≠ .entityRef := by
  have branch {b : Prop} [Decidable b] {x y : Kind × Nat} (hx : x.1 ≠ .charRef ∧ x.1 ≠ .entityRef)
      (hy : y.1 ≠ .charRef ∧ y.1 ≠ .entityRef) :
      (if b then x else y).1 ≠ .charRef ∧ (if b then x else y).1 ≠ .entityRef := by
    split
    · exact hx
    · exact hy
  rw [lead, if_neg hc]
  repeat' apply branch
  all_goals exact ⟨Kind.noConfusion, Kind.noConfusion⟩

end Token

theorem Reference.ofToken?_eq_none [Entities] {kind : Token.Kind} (hc : kind ≠ .charRef) (he : kind ≠ .entityRef)
    (s : List Char) : ofToken? kind s = none := by
  cases kind with
  | charRef => exact absurd rfl hc
  | entityRef => exact absurd rfl he
  | _ => rfl

namespace Span

/-- The characters that a value is written with. -/
def escaped (s : List Char) : List Char :=
  (encode s).flatMap source

@[simp] theorem escaped_nil : escaped [] = [] := rfl

theorem escaped_cons_of_escape? {c : Char} {name : String} (h : escape? c = some name) (s : List Char) :
    escaped (c :: s) = '&' :: name.toList ++ ';' :: escaped s := by
  rw [escaped, encode, h, flatMap_source_cons]
  simp [source, escaped]

theorem escaped_cons {c : Char} (h : escape? c = none) (s : List Char) :
    escaped (c :: s) = c :: escaped s := by
  rw [escaped, encode, h, flatMap_source_cons]
  simp [source, escaped]

theorem escape?_eq_none_iff {c : Char} : escape? c = none ↔ c ≠ '"' ∧ c ≠ '<' ∧ c ≠ '&' := by
  unfold escape?
  split <;> simp_all

theorem quote_not_mem_escaped (s : List Char) : '"' ∉ escaped s := by
  induction s with
  | nil => simp
  | cons c s ih =>
    cases hc : escape? c with
    | none =>
      rw [escaped_cons hc, List.mem_cons, not_or]
      exact ⟨(escape?_eq_none_iff.1 hc).1.symm, ih⟩
    | some name =>
      have hname : '"' ∉ name.toList := by
        unfold escape? at hc
        split at hc <;> cases hc <;> decide
      rw [escaped_cons_of_escape? hc]
      simp [hname, ih]

/-- Up to the first ampersand, a value is written as it is. -/
theorem exists_of_escaped_eq_append {s t r : List Char} (h : escaped s = t ++ r) (ht : '&' ∉ t) :
    ∃ u, s = t ++ u ∧ r = escaped u := by
  induction t generalizing s with
  | nil => exact ⟨s, rfl, h.symm⟩
  | cons d t ih =>
    rw [List.mem_cons, not_or] at ht
    cases s with
    | nil => cases h
    | cons c s =>
      cases hc : escape? c with
      | none =>
        rw [escaped_cons hc, List.cons_append, List.cons.injEq] at h
        obtain ⟨rfl, h⟩ := h
        obtain ⟨u, rfl, hr⟩ := ih h ht.2
        exact ⟨u, rfl, hr⟩
      | some name =>
        rw [escaped_cons_of_escape? hc, List.cons_append, List.cons_append, List.cons.injEq] at h
        exact absurd h.1 ht.1

theorem list_of_reference [Entities] {s : List Char} {t : Token.First} {r : Reference} (h : Token.first? s = some t)
    (hr : Reference.ofToken? t.kind t.text = some r) : list s = cons (reference t.text r) (list t.rest) := by
  rw [list]
  split
  · cases h.symm.trans ‹_›
  · obtain rfl := Option.some.inj (h.symm.trans ‹_›)
    rw [hr]

theorem list_of_text [Entities] {s : List Char} {t : Token.First} (h : Token.first? s = some t)
    (hr : Reference.ofToken? t.kind t.text = none) : list s = cons (text t.text) (list t.rest) := by
  rw [list]
  split
  · cases h.symm.trans ‹_›
  · obtain rfl := Option.some.inj (h.symm.trans ‹_›)
    rw [hr]

theorem find?_of_escape? [Entities] {c : Char} {name : String} (h : escape? c = some name) :
    Entities.find? name = some c := by
  unfold escape? at h
  split at h <;> cases h
  · exact Entities.find?_quot
  · exact Entities.find?_lt
  · exact Entities.find?_amp

theorem first?_escaped [Entities] {c : Char} {name : String} (h : escape? c = some name) (s : List Char) :
    Token.first? (escaped (c :: s)) =
        some ⟨.entityRef, '&' :: name.toList ++ [';'], escaped s⟩ ∧
      Reference.ofToken? .entityRef ('&' :: name.toList ++ [';']) =
        some (.entity name (String.singleton c)) := by
  have hname := find?_of_escape? h
  rw [escaped_cons_of_escape? h]
  refine ⟨?_, by simp [Reference.ofToken?, hname]⟩
  unfold escape? at h
  split at h <;> cases h <;> rfl

theorem flatMap_meaning_list_escaped [Entities] (s : List Char) : (list (escaped s)).flatMap meaning = s := by
  induction hn : s.length using Nat.strong_induction_on generalizing s with
  | _ n ih =>
    subst hn
    cases s with
    | nil =>
      rw [escaped_nil, list]
      rfl
    | cons c s =>
      cases hc : escape? c with
      | some name =>
        obtain ⟨hfirst, htoken⟩ := first?_escaped hc s
        rw [list_of_reference hfirst htoken, flatMap_meaning_cons, ih s.length (Nat.lt_succ_self _) s rfl]
        simp [meaning, Reference.meaning]
      | none =>
        -- the token is a part of the value, as it has no ampersand
        have hamp := (escape?_eq_none_iff.1 hc).2.2
        obtain ⟨hchar, hentity⟩ := Token.lead_ne_reference hamp (escaped s)
        have hmem := Token.not_mem_take_lead (.inr rfl) hamp (escaped s)
        obtain ⟨u, hu, hrest⟩ := exists_of_escaped_eq_append
          (List.take_append_drop (Token.lead c (escaped s)).2 (escaped s)).symm hmem
        have hlt : u.length < (c :: s).length := by
          have hlen := congrArg List.length hu
          rw [List.length_append] at hlen
          rw [List.length_cons]
          omega
        have hfirst : Token.first? (escaped (c :: s)) = some ⟨(Token.lead c (escaped s)).1,
            c :: (escaped s).take (Token.lead c (escaped s)).2, escaped u⟩ := by
          rw [escaped_cons hc, Token.first?, hrest]
        rw [list_of_text hfirst (Reference.ofToken?_eq_none hchar hentity _), flatMap_meaning_cons,
          ih u.length hlt u rfl, meaning, List.cons_append, ← hu]

end Span

namespace Text

theorem cutAt_append {c : Char} {s : List Char} (h : c ∉ s) (t : List Char) :
    cutAt c (s ++ c :: t) = some (s, t) := by
  induction s with
  | nil => rw [List.nil_append, cutAt, if_pos rfl]
  | cons d s ih =>
    rw [List.mem_cons, not_or] at h
    rw [List.cons_append, cutAt, if_neg (Ne.symm h.1), ih h.2]
    rfl

end Text

namespace Tag

variable {name value rest : List Char}

/-- An attribute with its value in double quotes, set off by a blank. -/
def Attribute.quoted (name value : List Char) : Attribute :=
  ⟨name, ' ' :: name ++ ['=', '"'], some value, ['"']⟩

theorem source_quoted : (Attribute.quoted name value).source = ' ' :: name ++ '=' :: '"' :: value ++ ['"'] := by
  simp [Attribute.quoted, Attribute.source]

/-- The names of attributes that can be told from what is around them. -/
def IsName (name : List Char) : Prop :=
  name ≠ [] ∧ ∀ c ∈ name, isNameChar c = true

theorem isSpace_eq_false {c : Char} (h : isNameChar c = true) : isSpace c = false := by
  by_contra hs
  rw [Bool.not_eq_false, isSpace] at hs
  simp only [Bool.or_eq_true, beq_iff_eq] at hs
  rcases hs with ((rfl | rfl) | rfl) | rfl <;> revert h <;> decide

theorem isName_of_checkXmlName {name : String} (h : checkXmlName name = .ok ()) : IsName name.toList := by
  rw [checkXmlName_eq_ok_iff, Valid.isXmlName] at h
  cases hs : name.toList with
  | nil => simp [hs] at h
  | cons c s =>
    simp only [hs, Bool.and_eq_true, List.all_eq_true] at h
    refine ⟨List.cons_ne_nil c s, List.forall_mem_cons.2 ⟨?_, fun d hd => ?_⟩⟩
    · have hc := h.1
      simp only [Valid.isNameStart, Bool.or_eq_true] at hc
      simp only [isNameChar, Char.isAlphanum, Bool.or_eq_true]
      tauto
    · have hc := h.2 d hd
      simp only [Valid.isNameChar, Bool.or_eq_true] at hc
      simp only [isNameChar, Bool.or_eq_true]
      tauto

theorem attribute?_quoted (hn : IsName name) (hv : '"' ∉ value) :
    attribute? [' '] (name ++ '=' :: '"' :: (value ++ '"' :: rest)) =
      some (Attribute.quoted name value, rest) := by
  have htake : (name ++ '=' :: '"' :: (value ++ '"' :: rest)).takeWhile isNameChar = name := by
    rw [List.takeWhile_append_of_pos hn.2, List.takeWhile_cons_of_neg (by decide), List.append_nil]
  have hdrop : (name ++ '=' :: '"' :: (value ++ '"' :: rest)).dropWhile isNameChar =
      '=' :: '"' :: (value ++ '"' :: rest) := by
    rw [List.dropWhile_append_of_pos hn.2, List.dropWhile_cons_of_neg (by decide)]
  rw [attribute?, htake, hdrop, List.dropWhile_cons_of_neg (by decide), List.takeWhile_cons_of_neg (by decide)]
  change value? name ([' '] ++ name ++ [] ++ '=' :: ('"' :: (value ++ '"' :: rest)).takeWhile isSpace)
    (('"' :: (value ++ '"' :: rest)).dropWhile isSpace) = _
  rw [List.dropWhile_cons_of_neg (by decide), List.takeWhile_cons_of_neg (by decide), value?, if_pos (.inl rfl),
    quotedValue?, Text.cutAt_append hv]
  simp [Attribute.quoted]

end Tag

namespace StartTag

open Tag

variable {name value rest : List Char}

theorem behindName?_quoted (hn : IsName name) (hv : '"' ∉ value) (s : List Char) :
    behindName? ((Attribute.quoted name value).source ++ s) =
      (behindName? s).map fun p => ((Attribute.quoted name value :: p.1.1, p.1.2), p.2) := by
  obtain ⟨c, cs, rfl⟩ := List.exists_cons_of_ne_nil hn.1
  have hc := hn.2 c List.mem_cons_self
  have hspace := isSpace_eq_false hc
  have hsource : (Attribute.quoted (c :: cs) value).source ++ s =
      ' ' :: (c :: cs ++ '=' :: '"' :: (value ++ '"' :: s)) := by
    simp [source_quoted]
  have hblank : isSpace ' ' = true := by decide
  have hdrop : (' ' :: (c :: cs ++ '=' :: '"' :: (value ++ '"' :: s))).dropWhile isSpace =
      c :: (cs ++ '=' :: '"' :: (value ++ '"' :: s)) := by
    rw [List.dropWhile_cons_of_pos hblank, List.cons_append, List.dropWhile_cons_of_neg (by simp [hspace])]
  have htake : (' ' :: (c :: cs ++ '=' :: '"' :: (value ++ '"' :: s))).takeWhile isSpace = [' '] := by
    rw [List.takeWhile_cons_of_pos hblank, List.cons_append, List.takeWhile_cons_of_neg (by simp [hspace])]
  have hattribute : attribute? [' '] (c :: (cs ++ '=' :: '"' :: (value ++ '"' :: s))) = _ :=
    attribute?_quoted hn hv
  rw [hsource, behindName?]
  split
  · obtain ⟨rfl, -⟩ := List.cons.inj (hdrop.symm.trans ‹_›)
    exact absurd hc (by decide)
  · obtain ⟨rfl, -⟩ := List.cons.inj (hdrop.symm.trans ‹_›)
    exact absurd hc (by decide)
  · cases hdrop.symm.trans ‹_›
  · obtain ⟨rfl, rfl⟩ := List.cons.inj (hdrop.symm.trans ‹_›)
    rw [dif_pos ⟨hc, by rw [htake]; simp⟩, htake, hattribute]

/-- The end of a tag. -/
def closing (empty : Bool) : List Char :=
  if empty then [' ', '/', '>'] else ['>']

theorem behindName?_closing (empty : Bool) (s : List Char) :
    behindName? (closing empty ++ s) = some (([], closing empty, empty), s) := by
  cases empty with
  | false =>
    rw [closing, if_neg (by simp), behindName?]
    rfl
  | true =>
    rw [closing, if_pos rfl, behindName?]
    rfl

theorem behindName?_attributes {attributes : List (List Char × List Char)}
    (h : ∀ x ∈ attributes, IsName x.1 ∧ '"' ∉ x.2) (empty : Bool) (s : List Char) :
    behindName? ((attributes.map fun x => Attribute.quoted x.1 x.2).flatMap Attribute.source ++
        (closing empty ++ s)) =
      some ((attributes.map fun x => Attribute.quoted x.1 x.2, closing empty, empty), s) := by
  induction attributes with
  | nil => exact behindName?_closing empty s
  | cons x attributes ih =>
    rw [List.forall_mem_cons] at h
    rw [List.map_cons, List.flatMap_cons, List.append_assoc, behindName?_quoted h.1.1 h.1.2, ih h.2]
    rfl

/-- The names of tags: a letter, and letters and digits behind it. -/
def IsName (name : List Char) : Prop :=
  ∃ c s, name = c :: s ∧ c.isAlpha = true ∧ ∀ d ∈ s, d.isAlphanum = true

/-- A tag as it is written is scanned. -/
theorem scan?_attributes {name : List Char} (hn : IsName name) {attributes : List (List Char × List Char)}
    (h : ∀ x ∈ attributes, Tag.IsName x.1 ∧ '"' ∉ x.2) (empty : Bool) (s : List Char) :
    scan? ('<' :: name ++ (attributes.map fun x => Attribute.quoted x.1 x.2).flatMap Attribute.source ++
        closing empty ++ s) =
      some (⟨name, attributes.map fun x => Attribute.quoted x.1 x.2, closing empty, empty⟩, s) := by
  obtain ⟨c, cs, rfl, hc, hcs⟩ := hn
  have hscan := behindName?_attributes h empty s
  have hall (t : List Char) : '<' :: (c :: cs) ++ t ++ closing empty ++ s =
      '<' :: c :: (cs ++ (t ++ (closing empty ++ s))) := by
    simp
  rw [hall]
  -- the name ends where an attribute or the end of the tag begins
  obtain ⟨d, t, hbehind, hd⟩ : ∃ d t, (attributes.map fun x => Attribute.quoted x.1 x.2).flatMap
      Attribute.source ++ (closing empty ++ s) = d :: t ∧ ¬d.isAlphanum = true := by
    cases attributes with
    | nil => cases empty <;> exact ⟨_, _, rfl, by decide⟩
    | cons x attributes => exact ⟨_, _, rfl, by decide⟩
  rw [hbehind] at hscan ⊢
  rw [scan?, if_pos hc, List.takeWhile_append_of_pos hcs, List.dropWhile_append_of_pos hcs,
    List.takeWhile_cons_of_neg hd, List.dropWhile_cons_of_neg hd, hscan, List.append_nil]
  rfl

theorem scanAt?_zero {s rest : List Char} {t : StartTag} (h : scan? s = some (t, rest)) :
    scanAt? (String.ofList s) 0 = some (t, 0 + Text.byteSize t.source) := by
  rw [scanAt?, String.toList_ofList, Text.dropBytes?_zero, Option.bind_eq_bind, Option.bind_some, h]
  rfl

end StartTag

end WikiPage
