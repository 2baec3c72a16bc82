import WikiPage.Proofs.Escaping
import WikiPage.Proofs.Slices

/-!
# Tags that are put together again

A tag may be made of attributes and an end that were cut out of different tags. Scanned again, it has
these attributes and this end, unless its last value has no quotes and runs into the end: such a value
takes the slash of an end that begins with it, and a value that ends with a slash makes one of the bracket
behind it. Then nothing is scanned.
-/

namespace WikiPage

namespace Tag

variable {name blank before after opening value rest : List Char} {q : Char}

/-- An attribute in one of the forms that a scan finds. -/
inductive Attribute.IsWritten : Attribute → Prop
  | flag {blank name : List Char} (hb : blank ≠ []) (hs : ∀ c ∈ blank, isSpace c = true) (hn : IsName name) :
    IsWritten ⟨name, blank ++ name, none, []⟩
  | quoted {blank name before after value : List Char} {q : Char} (hb : blank ≠ [])
    (hs : ∀ c ∈ blank, isSpace c = true) (hn : IsName name) (hbefore : ∀ c ∈ before, isSpace c = true)
    (hafter : ∀ c ∈ after, isSpace c = true) (hq : q = '"' ∨ q = '\'') (hv : q ∉ value) :
    IsWritten ⟨name, blank ++ name ++ before ++ '=' :: after ++ [q], some value, [q]⟩
  | bare {blank name before after value : List Char} (hb : blank ≠ [])
    (hs : ∀ c ∈ blank, isSpace c = true) (hn : IsName name) (hbefore : ∀ c ∈ before, isSpace c = true)
    (hafter : ∀ c ∈ after, isSpace c = true) (hne : value ≠ []) (hv : ∀ c ∈ value, isUnquoted c = true) :
    IsWritten ⟨name, blank ++ name ++ before ++ '=' :: after, some value, []⟩

theorem isName_takeWhile {s : List Char} (h : s.takeWhile isNameChar ≠ []) :
    IsName (s.takeWhile isNameChar) :=
  ⟨h, fun c hc => List.all_eq_true.1 List.all_takeWhile c hc⟩

theorem isWritten_of_attribute? {s : List Char} {x : Attribute} (h : attribute? blank s = some (x, rest))
    (hb : blank ≠ []) (hs : ∀ c ∈ blank, isSpace c = true) (hn : s.takeWhile isNameChar ≠ []) :
    x.IsWritten := by
  have hn := isName_takeWhile hn
  rw [attribute?] at h
  split at h
  · rename_i r hr
    generalize hd : r.dropWhile isSpace = t at h
    cases t with
    | nil => cases h
    | cons q t =>
      rw [value?] at h
      split at h
      · obtain ⟨⟨value, after⟩, hcut, he⟩ := Option.map_eq_some_iff.1 h
        obtain ⟨rfl, -⟩ := Prod.mk.inj he
        exact .quoted hb hs hn (fun _ => isSpace_of_mem_takeWhile) (fun _ => isSpace_of_mem_takeWhile) ‹_›
          (Text.not_mem_of_cutAt hcut)
      · rw [bareValue?] at h
        split at h
        · cases h
        · rename_i hbare
          obtain ⟨rfl, -⟩ := Prod.mk.inj (Option.some.inj h)
          exact .bare hb hs hn (fun _ => isSpace_of_mem_takeWhile) (fun _ => isSpace_of_mem_takeWhile)
            (fun hnil => hbare (.inl hnil)) (List.all_eq_true.1 List.all_takeWhile)
  · obtain ⟨rfl, -⟩ := Prod.mk.inj (Option.some.inj h)
    exact .flag hb hs hn

theorem Attribute.isWritten_quoted (hn : IsName name) (hv : '"' ∉ value) : (quoted name value).IsWritten := by
  have hwritten : (⟨name, [' '] ++ name ++ [] ++ '=' :: [] ++ ['"'], some value, ['"']⟩ : Attribute).IsWritten :=
    .quoted (by simp) (List.forall_mem_singleton.2 rfl) hn (by simp) (by simp) (.inl rfl) hv
  simpa [quoted] using hwritten

theorem takeWhile_dropWhile_append {p : Char → Bool} {s : List Char} (hs : ∀ c ∈ s, p c = true)
    (hrest : ∀ c t, rest = c :: t → p c = false) :
    (s ++ rest).takeWhile p = s ∧ (s ++ rest).dropWhile p = rest := by
  rw [List.takeWhile_append_of_pos hs, List.dropWhile_append_of_pos hs]
  cases rest with
  | nil => simp
  | cons c t => simp [hrest c t rfl]

theorem takeWhile_dropWhile_append_cons {p : Char → Bool} {s : List Char} {c : Char}
    (hs : ∀ d ∈ s, p d = true) (hc : p c = false) (t : List Char) :
    (s ++ c :: t).takeWhile p = s ∧ (s ++ c :: t).dropWhile p = c :: t :=
  takeWhile_dropWhile_append hs fun _ _ h => (List.cons.inj h).1 ▸ hc

theorem attribute?_flag (hn : IsName name) (hr : ∀ c t, rest = c :: t → isNameChar c = false)
    (he : (rest.dropWhile isSpace).head? ≠ some '=') :
    attribute? blank (name ++ rest) = some (⟨name, blank ++ name, none, []⟩, rest) := by
  obtain ⟨htake, hdrop⟩ := takeWhile_dropWhile_append hn.2 hr
  rw [attribute?, htake, hdrop]
  split
  · rw [‹rest.dropWhile isSpace = _›] at he
    exact absurd rfl he
  · rfl

theorem attribute?_value (hn : IsName name) (hb : ∀ c ∈ before, isSpace c = true)
    (ha : ∀ c ∈ after, isSpace c = true) (hr : ∀ c t, rest = c :: t → isSpace c = false) :
    attribute? blank (name ++ before ++ '=' :: after ++ rest) =
      value? name (blank ++ name ++ before ++ '=' :: after) rest := by
  have hsign {c : Char} {t : List Char} (h : before ++ '=' :: (after ++ rest) = c :: t) :
      isNameChar c = false := by
    cases before with
    | nil =>
      obtain ⟨rfl, -⟩ := List.cons.inj h
      rfl
    | cons d before =>
      obtain ⟨rfl, -⟩ := List.cons.inj h
      by_contra hc
      rw [Bool.not_eq_false] at hc
      cases (isSpace_eq_false hc).symm.trans (hb _ List.mem_cons_self)
  obtain ⟨htake, hdrop⟩ := takeWhile_dropWhile_append hn.2 fun c t => hsign (c := c) (t := t)
  obtain ⟨hbtake, hbdrop⟩ := takeWhile_dropWhile_append_cons (c := '=') hb rfl (after ++ rest)
  obtain ⟨hatake, hadrop⟩ := takeWhile_dropWhile_append ha hr
  have hall : name ++ before ++ '=' :: after ++ rest = name ++ (before ++ '=' :: (after ++ rest)) := by simp
  rw [hall, attribute?, htake, hdrop, hbdrop, hbtake]
  change value? name (blank ++ name ++ before ++ '=' :: (after ++ rest).takeWhile isSpace)
    ((after ++ rest).dropWhile isSpace) = _
  rw [hatake, hadrop]

/-- A text that may stand behind an attribute: blanks before the next one, or the end of the tag. -/
def IsBehind (s : List Char) : Prop :=
  ∃ blank c t, s = blank ++ c :: t ∧ (∀ d ∈ blank, isSpace d = true) ∧ isSpace c = false ∧ c ≠ '=' ∧
    (blank ≠ [] ∨ c = '>' ∨ c = '/' ∧ t.head? = some '>')

namespace IsBehind

variable {s : List Char}

theorem cases (h : IsBehind s) :
    (∃ d t, s = d :: t ∧ isSpace d = true) ∨ (∃ t, s = '>' :: t) ∨ ∃ t, s = '/' :: '>' :: t := by
  obtain ⟨blank, c, t, rfl, hs, -, -, hc⟩ := h
  cases blank with
  | cons d blank => exact .inl ⟨d, _, rfl, hs d List.mem_cons_self⟩
  | nil =>
    rcases hc with hne | rfl | ⟨rfl, ht⟩
    · exact absurd rfl hne
    · exact .inr (.inl ⟨t, rfl⟩)
    · obtain ⟨u, rfl⟩ := List.head?_eq_some_iff.1 ht
      exact .inr (.inr ⟨u, rfl⟩)

theorem head?_dropWhile (h : IsBehind s) : (s.dropWhile isSpace).head? ≠ some '=' := by
  obtain ⟨blank, c, t, rfl, hs, hc, hne, -⟩ := h
  obtain ⟨-, hdrop⟩ := takeWhile_dropWhile_append_cons hs hc t
  rw [hdrop]
  exact fun he => hne (Option.some.inj he)

theorem isNameChar_eq_false (h : IsBehind s) : ∀ c t, s = c :: t → isNameChar c = false := by
  rintro c t rfl
  rcases h.cases with ⟨d, u, he, hd⟩ | ⟨u, he⟩ | ⟨u, he⟩ <;> obtain ⟨rfl, -⟩ := List.cons.inj he
  · by_contra hc
    rw [Bool.not_eq_false] at hc
    cases (isSpace_eq_false hc).symm.trans hd
  · rfl
  · rfl

end IsBehind

theorem isUnquoted_eq_false {c : Char} (h : isSpace c = true) : isUnquoted c = false := by
  simp only [isSpace, Bool.or_eq_true, beq_iff_eq] at h
  rcases h with ((rfl | rfl) | rfl) | rfl <;> rfl

theorem value?_quoted (hq : q = '"' ∨ q = '\'') (hv : q ∉ value) :
    value? name opening (q :: (value ++ q :: rest)) = some (⟨name, opening ++ [q], some value, [q]⟩, rest) := by
  rw [value?, if_pos hq, quotedValue?, Text.cutAt_append hv]
  rfl

theorem not_quote_of_isUnquoted {c : Char} (h : isUnquoted c = true) : ¬(c = '"' ∨ c = '\'') := by
  rintro (rfl | rfl) <;> cases h

theorem value?_bare (hne : value ≠ []) (hv : ∀ c ∈ value, isUnquoted c = true)
    (hr : ∀ c t, rest = c :: t → isUnquoted c = false)
    (hslash : ¬(value.getLast? = some '/' ∧ rest.head? = some '>')) :
    value? name opening (value ++ rest) = some (⟨name, opening, some value, []⟩, rest) := by
  obtain ⟨htake, hdrop⟩ := takeWhile_dropWhile_append hv hr
  obtain ⟨c, value, rfl⟩ := List.exists_cons_of_ne_nil hne
  rw [List.cons_append, value?, if_neg (not_quote_of_isUnquoted (hv c List.mem_cons_self)), ← List.cons_append,
    bareValue?, htake, hdrop, if_neg (by simpa using hslash)]

theorem value?_bare_of_slash (hne : value ≠ []) (hv : ∀ c ∈ value, isUnquoted c = true)
    (hslash : value.getLast? = some '/') : value? name opening (value ++ '>' :: rest) = none := by
  obtain ⟨htake, hdrop⟩ := takeWhile_dropWhile_append_cons (c := '>') hv rfl rest
  obtain ⟨c, value, rfl⟩ := List.exists_cons_of_ne_nil hne
  rw [List.cons_append, value?, if_neg (not_quote_of_isUnquoted (hv c List.mem_cons_self)), ← List.cons_append,
    bareValue?, htake, hdrop, if_pos (.inr ⟨hslash, rfl⟩)]

/-- Whether a value without quotes takes the slash behind it, or makes a slash of the bracket behind it
with its own last character. -/
def Attribute.runsInto (s : List Char) : Attribute → Bool
  | ⟨_, _, some value, []⟩ => s.head? == some '/' || (s.head? == some '>' && value.getLast? == some '/')
  | _ => false

end Tag

namespace StartTag

open Tag

variable {name blank ending rest s : List Char} {x y : Tag.Attribute} {xs : List Tag.Attribute}
  {selfClosing : Bool}

theorem isWritten_of_behindName? {p : List Tag.Attribute × List Char × Bool}
    (h : behindName? s = some (p, rest)) : ∀ x ∈ p.1, x.IsWritten := by
  fun_induction behindName? s generalizing p rest with
  | case1 | case2 =>
    obtain ⟨rfl, -⟩ := Prod.mk.inj (Option.some.inj h)
    simp
  | case3 => cases h
  | case4 => cases h
  | case5 s c t _ _ hs hc a r ha ih =>
    obtain ⟨⟨q, u⟩, hq, he⟩ := Option.map_eq_some_iff.1 h
    obtain ⟨rfl, -⟩ := Prod.mk.inj he
    refine List.forall_mem_cons.2
      ⟨isWritten_of_attribute? ha hc.2 (fun _ => isSpace_of_mem_takeWhile) ?_, ih hq⟩
    rw [List.takeWhile_cons_of_pos hc.1]
    exact List.cons_ne_nil _ _
  | case6 => cases h

theorem isWritten_of_scan? {t : StartTag} (h : scan? s = some (t, rest)) :
    IsName t.name ∧ ∀ x ∈ t.attributes, x.IsWritten := by
  unfold scan? at h
  split at h
  · split at h
    · obtain ⟨_, hp, he⟩ := Option.map_eq_some_iff.1 h
      obtain ⟨rfl, -⟩ := Prod.mk.inj he
      exact ⟨⟨_, _, rfl, ‹_›, List.all_eq_true.1 List.all_takeWhile⟩, isWritten_of_behindName? hp⟩
    · cases h
  · cases h

theorem behindName?_name (hb : blank ≠ []) (hs : ∀ c ∈ blank, isSpace c = true) (hn : Tag.IsName name)
    (s : List Char) :
    behindName? (blank ++ (name ++ s)) = (attribute? blank (name ++ s)).bind fun p =>
      (behindName? p.2).map fun q => ((p.1 :: q.1.1, q.1.2), q.2) := by
  obtain ⟨c, name, rfl⟩ := List.exists_cons_of_ne_nil hn.1
  have hc := hn.2 c List.mem_cons_self
  obtain ⟨htake, hdrop⟩ := takeWhile_dropWhile_append_cons hs (isSpace_eq_false hc) (name ++ s)
  rw [List.cons_append, behindName?]
  split
  · obtain ⟨rfl, -⟩ := List.cons.inj (hdrop.symm.trans ‹_›)
    cases hc
  · obtain ⟨rfl, -⟩ := List.cons.inj (hdrop.symm.trans ‹_›)
    cases hc
  · cases hdrop.symm.trans ‹_›
  · obtain ⟨rfl, rfl⟩ := List.cons.inj (hdrop.symm.trans ‹_›)
    rw [dif_pos ⟨hc, by rwa [htake]⟩, htake]
    cases attribute? blank (c :: (name ++ s)) <;> rfl

theorem behindName?_ending (h : IsEnding ending selfClosing) (s : List Char) :
    behindName? (ending ++ s) = some (([], ending, selfClosing), s) := by
  obtain ⟨blank, hs, rfl⟩ := h
  cases selfClosing with
  | true =>
    obtain ⟨htake, hdrop⟩ := takeWhile_dropWhile_append_cons (c := '/') hs rfl ('>' :: s)
    have hall : blank ++ ['/', '>'] ++ s = blank ++ '/' :: '>' :: s := by simp
    rw [if_pos rfl, hall, behindName?]
    split
    · cases hdrop.symm.trans ‹_›
    · obtain ⟨-, h⟩ := List.cons.inj (hdrop.symm.trans ‹_›)
      obtain ⟨-, rfl⟩ := List.cons.inj h
      rw [htake]
    · cases hdrop.symm.trans ‹_›
    · rename_i hslash hcons
      obtain ⟨rfl, rfl⟩ := List.cons.inj (hdrop.symm.trans hcons)
      exact (hslash s rfl rfl).elim
  | false =>
    obtain ⟨htake, hdrop⟩ := takeWhile_dropWhile_append_cons (c := '>') hs rfl s
    have hall : blank ++ ['>'] ++ s = blank ++ '>' :: s := by simp
    rw [if_neg (by simp), hall, behindName?]
    split
    · obtain ⟨-, rfl⟩ := List.cons.inj (hdrop.symm.trans ‹_›)
      rw [htake]
    · cases hdrop.symm.trans ‹_›
    · cases hdrop.symm.trans ‹_›
    · rename_i hbracket _ hcons
      obtain ⟨rfl, rfl⟩ := List.cons.inj (hdrop.symm.trans hcons)
      exact (hbracket rfl).elim

theorem behindName?_sign {before after : List Char} (hb : blank ≠ []) (hs : ∀ c ∈ blank, isSpace c = true)
    (hn : Tag.IsName name) (hbefore : ∀ c ∈ before, isSpace c = true) (hafter : ∀ c ∈ after, isSpace c = true)
    (hr : ∀ c t, rest = c :: t → isSpace c = false) :
    behindName? (blank ++ name ++ before ++ '=' :: after ++ rest) =
      (value? name (blank ++ name ++ before ++ '=' :: after) rest).bind fun p =>
        (behindName? p.2).map fun q => ((p.1 :: q.1.1, q.1.2), q.2) := by
  have hall : blank ++ name ++ before ++ '=' :: after ++ rest =
      blank ++ (name ++ (before ++ '=' :: after ++ rest)) := by simp
  rw [hall, behindName?_name hb hs hn, ← attribute?_value hn hbefore hafter hr]
  simp

/-- A value without quotes is read up to what is behind it, or runs into it. -/
theorem value?_behind {opening value : List Char} (hne : value ≠ []) (hv : ∀ c ∈ value, isUnquoted c = true)
    (h : IsBehind s) : value? name opening (value ++ s) =
      if Tag.Attribute.runsInto s ⟨name, opening, some value, []⟩ then none
      else some (⟨name, opening, some value, []⟩, s) := by
  rcases h.cases with ⟨d, t, rfl, hd⟩ | ⟨t, rfl⟩ | ⟨t, rfl⟩
  · have hslash : d ≠ '/' ∧ d ≠ '>' := by constructor <;> rintro rfl <;> cases hd
    rw [if_neg (by simp [Tag.Attribute.runsInto, hslash]), value?_bare hne hv fun c u he => ?_]
    · simp [hslash]
    · exact (List.cons.inj he).1 ▸ isUnquoted_eq_false hd
  · by_cases hslash : value.getLast? = some '/'
    · rw [if_pos (by simp [Tag.Attribute.runsInto, hslash]), value?_bare_of_slash hne hv hslash]
    · rw [if_neg (by simp [Tag.Attribute.runsInto, hslash]),
        value?_bare hne hv (fun c u he => ?_) (by simp [hslash])]
      exact (List.cons.inj he).1 ▸ rfl
  · have hall : value ++ '/' :: '>' :: t = (value ++ ['/']) ++ '>' :: t := by simp
    have hruns : Tag.Attribute.runsInto ('/' :: '>' :: t) ⟨name, opening, some value, []⟩ = true := rfl
    rw [if_pos hruns, hall, value?_bare_of_slash (by simp) (fun c hc => ?_) (by simp)]
    rcases List.mem_append.1 hc with hc | hc
    · exact hv c hc
    · obtain rfl := List.mem_singleton.1 hc
      rfl

/-- An attribute that is written is scanned, unless it runs into what is behind it. -/
theorem behindName?_written (hx : x.IsWritten) (h : IsBehind s) : behindName? (x.source ++ s) =
    if x.runsInto s then none else (behindName? s).map fun p => ((x :: p.1.1, p.1.2), p.2) := by
  cases hx with
  | @flag blank name hb hs hn =>
    have hall : Tag.Attribute.source ⟨name, blank ++ name, none, []⟩ ++ s = blank ++ (name ++ s) := by
      simp [Tag.Attribute.source]
    rw [if_neg (by simp [Tag.Attribute.runsInto]), hall, behindName?_name hb hs hn,
      attribute?_flag hn h.isNameChar_eq_false h.head?_dropWhile, Option.bind_some]
  | @quoted blank name before after value q hb hs hn hbefore hafter hq hv =>
    have hall :
        Tag.Attribute.source ⟨name, blank ++ name ++ before ++ '=' :: after ++ [q], some value, [q]⟩ ++ s =
          blank ++ name ++ before ++ '=' :: after ++ q :: (value ++ q :: s) := by
      simp [Tag.Attribute.source]
    rw [if_neg (by simp [Tag.Attribute.runsInto]), hall, behindName?_sign hb hs hn hbefore hafter,
      value?_quoted hq hv, Option.bind_some]
    rintro c t he
    obtain ⟨rfl, -⟩ := List.cons.inj he
    rcases hq with rfl | rfl <;> rfl
  | @bare blank name before after value hb hs hn hbefore hafter hne hv =>
    have hall : Tag.Attribute.source ⟨name, blank ++ name ++ before ++ '=' :: after, some value, []⟩ ++ s =
        blank ++ name ++ before ++ '=' :: after ++ (value ++ s) := by
      simp [Tag.Attribute.source]
    rw [hall, behindName?_sign hb hs hn hbefore hafter, value?_behind hne hv h]
    · split <;> rfl
    · obtain ⟨c, value, rfl⟩ := List.exists_cons_of_ne_nil hne
      rintro d t he
      obtain ⟨rfl, -⟩ := List.cons.inj he
      by_contra hd
      rw [Bool.not_eq_false] at hd
      cases (isUnquoted_eq_false hd).symm.trans (hv _ List.mem_cons_self)

theorem isBehind_source (hx : x.IsWritten) (s : List Char) : IsBehind (x.source ++ s) ∧
    ∃ c t, x.source ++ s = c :: t ∧ isSpace c = true := by
  have main {blank name : List Char} (t : List Char) (hb : blank ≠ []) (hs : ∀ c ∈ blank, isSpace c = true)
      (hn : Tag.IsName name) : IsBehind (blank ++ (name ++ t)) ∧
        ∃ c u, blank ++ (name ++ t) = c :: u ∧ isSpace c = true := by
    obtain ⟨c, name, rfl⟩ := List.exists_cons_of_ne_nil hn.1
    have hc := hn.2 c List.mem_cons_self
    refine ⟨⟨blank, c, name ++ t, rfl, hs, isSpace_eq_false hc, ?_, .inl hb⟩, ?_⟩
    · rintro rfl
      cases hc
    · obtain ⟨d, blank, rfl⟩ := List.exists_cons_of_ne_nil hb
      exact ⟨d, _, rfl, hs d List.mem_cons_self⟩
  cases hx with
  | flag hb hs hn => simpa [Tag.Attribute.source] using main s hb hs hn
  | @quoted blank name before after value q hb hs hn =>
    simpa [Tag.Attribute.source] using main (before ++ '=' :: (after ++ q :: (value ++ q :: s))) hb hs hn
  | @bare blank name before after value hb hs hn =>
    simpa [Tag.Attribute.source] using main (before ++ '=' :: (after ++ (value ++ s))) hb hs hn

theorem isBehind_ending (h : IsEnding ending selfClosing) (s : List Char) : IsBehind (ending ++ s) := by
  obtain ⟨blank, hs, rfl⟩ := h
  cases selfClosing with
  | true => exact ⟨blank, '/', '>' :: s, by simp, hs, rfl, by decide, .inr (.inr ⟨rfl, rfl⟩)⟩
  | false => exact ⟨blank, '>', s, by simp, hs, rfl, by decide, .inr (.inl rfl)⟩

theorem runsInto_congr {s t : List Char} (h : s.head? = t.head?) (x : Tag.Attribute) :
    x.runsInto s = x.runsInto t := by
  unfold Tag.Attribute.runsInto
  split
  · rw [h]
  · rfl

theorem behindName?_flatMap (hxs : ∀ x ∈ xs, x.IsWritten) (h : IsEnding ending selfClosing) (s : List Char) :
    behindName? (xs.flatMap Tag.Attribute.source ++ (ending ++ s)) =
      if xs.getLast?.any (·.runsInto ending) then none else some ((xs, ending, selfClosing), s) := by
  induction xs with
  | nil => exact behindName?_ending h s
  | cons x xs ih =>
    rw [List.forall_mem_cons] at hxs
    rw [List.flatMap_cons, List.append_assoc]
    cases xs with
    | nil =>
      have hhead : (ending ++ s).head? = ending.head? := by
        obtain ⟨blank, -, rfl⟩ := h
        cases blank <;> cases selfClosing <;> rfl
      rw [List.flatMap_nil, List.nil_append, behindName?_written hxs.1 (isBehind_ending h s),
        behindName?_ending h, runsInto_congr hhead]
      rfl
    | cons y ys =>
      obtain ⟨hbehind, c, t, hc, hspace⟩ :=
        isBehind_source (hxs.2 y List.mem_cons_self) (ys.flatMap Tag.Attribute.source ++ (ending ++ s))
      have ih := ih hxs.2
      rw [List.flatMap_cons, List.append_assoc] at ih ⊢
      have hruns : x.runsInto (y.source ++ (ys.flatMap Tag.Attribute.source ++ (ending ++ s))) = false := by
        have hslash : c ≠ '/' ∧ c ≠ '>' := by constructor <;> rintro rfl <;> cases hspace
        rw [hc]
        unfold Tag.Attribute.runsInto
        split
        · simp [hslash]
        · rfl
      rw [behindName?_written hxs.1 hbehind, hruns, if_neg Bool.false_ne_true, ih, List.getLast?_cons_cons]
      split <;> rfl

/-- A tag that is put together from a name, attributes and an end is scanned as it is, unless the last
attribute runs into the end. Then there is no tag. -/
theorem scan?_source (hn : IsName name) (hxs : ∀ x ∈ xs, x.IsWritten) (h : IsEnding ending selfClosing)
    (s : List Char) : scan? ((⟨name, xs, ending, selfClosing⟩ : StartTag).source ++ s) =
      if xs.getLast?.any (·.runsInto ending) then none else some (⟨name, xs, ending, selfClosing⟩, s) := by
  obtain ⟨c, cs, rfl, hc, hcs⟩ := hn
  have hbehind : IsBehind (xs.flatMap Tag.Attribute.source ++ (ending ++ s)) := by
    cases xs with
    | nil => exact isBehind_ending h s
    | cons x xs =>
      rw [List.flatMap_cons, List.append_assoc]
      exact (isBehind_source (hxs x List.mem_cons_self) _).1
  have hall : (⟨c :: cs, xs, ending, selfClosing⟩ : StartTag).source ++ s =
      '<' :: c :: (cs ++ (xs.flatMap Tag.Attribute.source ++ (ending ++ s))) := by
    simp [source]
  obtain ⟨htake, hdrop⟩ := takeWhile_dropWhile_append hcs fun d t hd => by
    have hd := hbehind.isNameChar_eq_false d t hd
    simp only [isNameChar, Bool.or_eq_false_iff] at hd
    exact hd.1.1.1.1
  rw [hall, scan?, if_pos hc, htake, hdrop, behindName?_flatMap hxs h]
  split <;> rfl

end StartTag
end WikiPage
