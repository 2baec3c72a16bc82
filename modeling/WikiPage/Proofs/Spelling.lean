import WikiPage.Proofs.Titles

/-!
# Names that links carry

A title that is read from a link has no blanks around it, no underscore and no sign that titles lack. A
link that is made for such a name is read back as a link to that name. Normal forms of texts are their
own normal forms, and the normal form of a name is a name again.
-/

namespace WikiPage

namespace Text

variable {s t : List Char} {c : Char}

theorem trim_eq_self_of_ends (hs : ∀ c, s.head? = some c → isBlank c = false)
    (ht : ∀ c, s.getLast? = some c → isBlank c = false) : trim s = s := by
  have hstart : trimStart s = s := by
    cases s with
    | nil => rfl
    | cons c s => rw [trimStart_cons, hs c rfl]; rfl
  rw [trim, hstart]
  rcases List.eq_nil_or_concat s with rfl | ⟨l, c, rfl⟩
  · rfl
  · rw [List.concat_eq_append, trimEnd_concat, ht c (by simp)]
    rfl

theorem not_isBlank_of_head?_trimStart (h : (trimStart s).head? = some c) : isBlank c = false := by
  have hd := List.head?_dropWhile_not isBlank s
  rw [show s.dropWhile isBlank = trimStart s from rfl, h] at hd
  simpa using hd

theorem not_isBlank_of_getLast?_trimEnd (h : (trimEnd s).getLast? = some c) : isBlank c = false := by
  rw [trimEnd, List.getLast?_reverse] at h
  exact not_isBlank_of_head?_trimStart h

theorem head?_of_head?_trimEnd (h : (trimEnd s).head? = some c) : s.head? = some c := by
  have hp : trimEnd s <+: s := List.rdropWhile_prefix isBlank s
  obtain ⟨t, ht⟩ := hp
  cases hs : trimEnd s with
  | nil => simp [hs] at h
  | cons d r =>
    rw [hs] at h ht
    rw [← ht]
    simpa using h

theorem trim_trim (s : List Char) : trim (trim s) = trim s :=
  trim_eq_self_of_ends (fun _ h => not_isBlank_of_head?_trimStart (head?_of_head?_trimEnd h))
    fun _ h => not_isBlank_of_getLast?_trimEnd h

theorem trimEnd_trim (s : List Char) : trimEnd (trim s) = trim s :=
  List.rdropWhile_idempotent _ _

theorem trimEnd_append_blanks {blanks : List Char} (s : List Char) (hb : ∀ c ∈ blanks, isBlank c = true) :
    trimEnd (s ++ blanks) = trimEnd s := by
  induction blanks using List.reverseRecOn with
  | nil => rw [List.append_nil]
  | append_singleton blanks c ih =>
    rw [List.forall_mem_append] at hb
    rw [← List.append_assoc, trimEnd_concat, if_pos (hb.2 c (List.mem_singleton_self c)), ih hb.1]

theorem not_isBlank_of_mem_words {w : List Char} (hw : w ∈ words s) (hc : c ∈ w) :
    isBlank c = false := by
  have main (s : List Char) : ∀ w ∈ s.splitOnP isBlank, ∀ c ∈ w, isBlank c = false := by
    induction s with
    | nil => simp
    | cons d s ih =>
      rw [List.splitOnP_cons_eq_if_modifyHead]
      split
      · simpa using ih
      · cases hs : s.splitOnP isBlank with
        | nil => simp
        | cons v vs =>
          rw [hs, List.forall_mem_cons] at ih
          refine List.forall_mem_cons.2 ⟨List.forall_mem_cons.2 ⟨by simp_all, ih.1⟩, ih.2⟩
  exact main s w (List.mem_filter.1 hw).1 c hc

theorem mem_squeeze (h : c ∈ squeeze s) : c = ' ' ∨ c ∈ s ∧ isBlank c = false := by
  by_cases hc : isBlank c = true
  · left
    have main (ws : List (List Char)) (hw : ∀ w ∈ ws, c ∉ w) (h : c ∈ [' '].intercalate ws) :
        c = ' ' := by
      induction ws with
      | nil => cases h
      | cons w ws ih =>
        cases ws with
        | nil => exact absurd (by simpa using h) (hw w List.mem_cons_self)
        | cons v ws =>
          rw [List.intercalate_cons_cons, List.append_assoc, List.mem_append, List.mem_append,
            List.mem_singleton] at h
          rcases h with h | h | h
          · exact absurd h (hw w List.mem_cons_self)
          · exact h
          · exact ih (fun u hu => hw u (List.mem_cons_of_mem w hu)) h
    refine main _ (fun w hw hcw => ?_) h
    rw [not_isBlank_of_mem_words hw hcw] at hc
    cases hc
  · exact .inr ⟨mem_of_mem_squeeze h (by simpa using hc), by simpa using hc⟩

theorem words_squeeze (s : List Char) : words (squeeze s) = words s := by
  have h := words_map_squeeze (f := id) (fun _ hc => hc) s
  rwa [List.map_id, List.map_id] at h

theorem squeeze_squeeze (s : List Char) : squeeze (squeeze s) = squeeze s := by
  rw [squeeze, words_squeeze, squeeze]

theorem trim_squeeze (s : List Char) : trim (squeeze s) = squeeze s := by
  have main (ws : List (List Char)) (hn : ∀ w ∈ ws, w ≠ [])
      (hw : ∀ w ∈ ws, ∀ c ∈ w, isBlank c = false) :
      (∀ c, ([' '].intercalate ws).head? = some c → isBlank c = false) ∧
        ∀ c, ([' '].intercalate ws).getLast? = some c → isBlank c = false := by
    induction ws with
    | nil => simp [List.intercalate]
    | cons w ws ih =>
      rw [List.forall_mem_cons] at hn hw
      cases ws with
      | nil =>
        simp only [List.intercalate_singleton]
        exact ⟨fun c hc => hw.1 c (List.mem_of_head? hc), fun c hc => hw.1 c (List.mem_of_getLast? hc)⟩
      | cons v ws =>
        obtain ⟨d, r, rfl⟩ := List.exists_cons_of_ne_nil hn.1
        obtain ⟨-, hlast⟩ := ih hn.2 hw.2
        rw [List.intercalate_cons_cons]
        refine ⟨fun c hc => hw.1 c ?_, fun c hc => ?_⟩
        · simp only [List.cons_append, List.head?_cons, Option.some.injEq] at hc
          exact hc ▸ List.mem_cons_self
        · rw [List.getLast?_append, List.getLast?_append] at hc
          cases hl : ([' '].intercalate (v :: ws)).getLast? with
          | some d =>
            rw [hl] at hc
            exact Option.some.inj hc ▸ hlast d hl
          | none =>
            rw [List.getLast?_eq_none_iff] at hl
            obtain ⟨e, u, rfl⟩ := List.exists_cons_of_ne_nil (hn.2 v List.mem_cons_self)
            cases ws <;> simp [List.intercalate] at hl
  obtain ⟨hs, ht⟩ := main (words s) (fun _ hw => ne_nil_of_mem_words hw)
    fun _ hw _ hc => not_isBlank_of_mem_words hw hc
  exact trim_eq_self_of_ends hs ht

theorem words_ne_nil (h : c ∈ s) (hc : isBlank c = false) : words s ≠ [] := by
  induction s with
  | nil => cases h
  | cons d s ih =>
    by_cases hd : isBlank d = true
    · rw [words_cons s hd]
      refine ih ((List.mem_cons.1 h).resolve_left ?_)
      rintro rfl
      cases hd.symm.trans hc
    · rw [words, List.splitOnP_cons_eq_if_modifyHead, if_neg hd]
      cases hs : s.splitOnP isBlank with
      | nil => exact absurd hs (List.splitOnP_ne_nil _ _)
      | cons v vs => simp

theorem squeeze_ne_nil (h : c ∈ s) (hc : isBlank c = false) : squeeze s ≠ [] := by
  intro hs
  refine words_ne_nil h hc ?_
  rw [← words_squeeze, hs, words_nil]

end Text

namespace Normalization

variable {s : List Char} {c : Char}

theorem mem_spaces (h : c ∈ spaces s) : c = ' ' ∨ c ∈ s := by
  obtain ⟨d, hd, rfl⟩ := List.mem_map.1 h
  split
  · exact .inl rfl
  · exact .inr hd

theorem spaces_eq_self (h : ∀ c ∈ s, c ≠ '\t' ∧ c ≠ '\n' ∧ c ≠ '\r') : spaces s = s := by
  refine List.map_congr_left (g := id) (fun c hc => ?_) |>.trans (List.map_id s)
  obtain ⟨ht, hn, hr⟩ := h c hc
  simp [ht, hn, hr]

theorem spaces_spaces (s : List Char) : spaces (spaces s) = spaces s := by
  refine spaces_eq_self fun c hc => ?_
  obtain ⟨d, -, rfl⟩ := List.mem_map.1 hc
  split
  · decide
  · simp_all

theorem spaces_squeeze (s : List Char) : spaces (Text.squeeze s) = Text.squeeze s := by
  refine spaces_eq_self fun c hc => ?_
  rcases Text.mem_squeeze hc with rfl | ⟨-, hb⟩
  · decide
  · refine ⟨?_, ?_, ?_⟩ <;> rintro rfl <;> cases hb

theorem apply_apply (m : Normalization) (s : String) : m.apply (m.apply s) = m.apply s := by
  cases m with
  | cdata => simp only [apply, Text.onChars, String.toList_ofList, spaces_spaces]
  | words =>
    simp only [apply, Text.onChars, String.toList_ofList, spaces_squeeze, Text.squeeze_squeeze]

end Normalization

theorem underscore_not_mem_normalTitle (s : List Char) : '_' ∉ normalTitle s := by
  intro hm
  obtain ⟨c, -, hc⟩ := List.mem_map.1 (Text.trim_subset _ hm)
  split at hc
  · cases hc
  · exact ‹¬c = '_'› hc

theorem map_readUnderscore_eq_self {s : List Char} (h : '_' ∉ s) : s.map readUnderscore = s := by
  refine (List.map_congr_left (g := id) fun c hc => ?_).trans (List.map_id s)
  refine if_neg ?_
  rintro rfl
  exact h hc

theorem normalTitle_eq_self_iff {s : List Char} :
    normalTitle s = s ↔ '_' ∉ s ∧ Text.trim s = s := by
  constructor
  · intro h
    have hu : '_' ∉ s := h ▸ underscore_not_mem_normalTitle s
    exact ⟨hu, by rwa [normalTitle_eq, map_readUnderscore_eq_self hu] at h⟩
  · rintro ⟨hu, ht⟩
    rw [normalTitle_eq, map_readUnderscore_eq_self hu, ht]

theorem normalTitle_normalTitle (s : List Char) : normalTitle (normalTitle s) = normalTitle s :=
  normalTitle_eq_self_iff.2 ⟨underscore_not_mem_normalTitle s, Text.trim_trim _⟩

/-- A name that a link to a category carries. -/
structure IsLinkable (s : String) : Prop where
  normal : normalTitle s.toList = s.toList
  nonempty : s.toList ≠ []
  legal : ∀ c ∈ s.toList, Target.isIllegal c = false
  plain : '#' ∉ s.toList

namespace IsLinkable

variable {site : Site} {s target : String}

theorem legal_of_categoryOf? (h : site.categoryOf? target = some s) {c : Char} (hc : c ∈ s.toList) :
    Target.isIllegal c = false := by
  unfold Site.categoryOf? Site.parseTarget at h
  simp only at h
  split at h
  swap
  · cases h
  rename_i t ht
  split at ht
  · cases ht
  split at ht
  · cases ht
  rename_i hfind
  cases ht
  split at h
  swap
  · cases h
  have he := Option.some.inj h
  rw [← he, String.toList_ofList] at hc
  simpa using List.find?_eq_none.1 hfind c hc

/-- What a link is read as is linkable, but for the empty name that stands before a fragment. -/
theorem of_categoryOf? (h : site.categoryOf? target = some s) (hs : s ≠ "") : IsLinkable s := by
  refine ⟨?_, fun hnil => hs ?_, fun c hc => legal_of_categoryOf? h hc,
    Site.hash_not_mem_of_categoryOf? h⟩
  · rw [Site.categoryOf?_eq_some h, String.toList_ofList, normalTitle_normalTitle]
  · rw [← String.ofList_toList (s := s), hnil]

/-- A link that is made for a linkable name is read back. -/
theorem categoryOf?_eq (h : IsLinkable s) (hs : site.NamesCategories) :
    site.categoryOf? (site.categoryPrefix ++ ":" ++ s) = some s := by
  obtain ⟨page, hsplit, hspace⟩ := hs.split_eq h.plain
  obtain ⟨-, htrim⟩ := normalTitle_eq_self_iff.1 h.normal
  have hend : Text.trimEnd s.toList = s.toList := by rw [← htrim, Text.trimEnd_trim]
  have hfind : s.toList.find? Target.isIllegal = none :=
    List.find?_eq_none.2 fun c hc => by simp [h.legal c hc]
  generalize site.categoryPrefix ++ ":" ++ s = target at hsplit ⊢
  have hparse : site.parseTarget target = .ok ⟨site.categoryNamespace, s, none, false⟩ := by
    unfold Site.parseTarget
    simp only [hsplit, hspace, hend, h.normal, h.nonempty, false_and, if_false, hfind,
      String.ofList_toList, Option.map_none]
  rw [Site.categoryOf?, hparse]
  simp [Site.isCategory]

theorem words (h : IsLinkable s) : IsLinkable (Normalization.words.apply s) := by
  obtain ⟨hu, htrim⟩ := normalTitle_eq_self_iff.1 h.normal
  have hlist : (Normalization.words.apply s).toList = Text.squeeze (Normalization.spaces s.toList) := by
    rw [Normalization.apply, Text.toList_onChars]
  -- beside spaces there is only what was there
  have hmem {c : Char} (hc : c ∈ (Normalization.words.apply s).toList) : c = ' ' ∨ c ∈ s.toList := by
    rw [hlist] at hc
    rcases Text.mem_squeeze hc with hc | ⟨hc, -⟩
    · exact .inl hc
    · exact Normalization.mem_spaces hc
  refine ⟨?_, ?_, fun c hc => ?_, fun hc => ?_⟩
  · refine normalTitle_eq_self_iff.2 ⟨fun hm => ?_, by rw [hlist, Text.trim_squeeze]⟩
    exact (hmem hm).elim (by decide) hu
  · obtain ⟨c, r, hcr⟩ := List.exists_cons_of_ne_nil h.nonempty
    have hb : Text.isBlank c = false := by
      refine Text.not_isBlank_of_head?_trimStart (s := s.toList) (Text.head?_of_head?_trimEnd ?_)
      rw [show Text.trimEnd (Text.trimStart s.toList) = s.toList from htrim, hcr]
      rfl
    have hne : c ≠ '\t' ∧ c ≠ '\n' ∧ c ≠ '\r' := by
      refine ⟨?_, ?_, ?_⟩ <;> rintro rfl <;> cases hb
    rw [hlist]
    refine Text.squeeze_ne_nil (c := c) ?_ hb
    rw [hcr, Normalization.spaces, List.map_cons]
    simp [hne]
  · rcases hmem hc with rfl | hc
    · decide
    · exact h.legal c hc
  · exact (hmem hc).elim (by decide) h.plain

/-- A valid name of a category is linkable if it has no control characters. -/
theorem of_isCategory (h : Valid.isCategory (normalizeTitle s) = true)
    (hc : (normalizeTitle s).toList.any Text.isControl = false) : IsLinkable (normalizeTitle s) := by
  rw [Valid.isCategory, Bool.and_eq_true, List.all_eq_true] at h
  obtain ⟨hne, hall⟩ := h
  refine ⟨?_, by simpa using hne, fun c hm => ?_, fun hm => ?_⟩
  · rw [normalizeTitle, Text.toList_onChars, normalTitle_normalTitle]
  · have hctl : Text.isControl c = false := by simpa using List.any_eq_false.1 hc c hm
    have hchar := hall c hm
    simp only [Valid.isCategoryChar, Valid.isTitleChar, List.contains_cons, List.contains_nil,
      Bool.and_eq_true, Bool.not_eq_true', Bool.or_eq_false_iff] at hchar
    simp only [Target.isIllegal, List.contains_cons, List.contains_nil, hctl, Bool.or_false,
      Bool.or_eq_false_iff]
    simp_all
  · exact absurd (hall _ hm) (by decide)

end IsLinkable
end WikiPage
