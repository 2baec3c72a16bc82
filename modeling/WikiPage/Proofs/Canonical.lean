import WikiPage.Proofs.Amending
import WikiPage.Proofs.Targets

/-!
# Values that have been checked once

A value is checked first, and normalized after that. The check finds nothing to mend in a normalized value,
with two exceptions: single blanks can leave a path with a slash at its end, and they can turn what stands
in front of a colon into the name of a namespace.
-/

namespace WikiPage

theorem Except.ok_of_map_some {ε α : Type} {x : Except ε α} {a : α} (h : some <$> x = .ok (some a)) :
    x = .ok a := by
  obtain ⟨b, rfl, hb⟩ := Except.exists_of_map h
  rw [Option.some.inj hb]

namespace Text

variable {s t ending : List Char} {c : Char}

theorem not_isBlank_of_trim (h : trim s = s) (hc : s.head? = some c) : isBlank c = false :=
  not_isBlank_of_head?_trimStart (s := s) (head?_of_head?_trimEnd ((congrArg List.head? h).trans hc))

theorem trim_of_no_blank (h : ∀ c ∈ s, isBlank c = false) : trim s = s :=
  trim_eq_self_of_ends (fun c hc => h c (List.mem_of_head? hc)) fun c hc => h c (List.mem_of_getLast? hc)

theorem squeeze_of_no_blank (h : ∀ c ∈ s, isBlank c = false) : squeeze s = s := by
  rw [squeeze_eq_collapse, trim_of_no_blank h, collapse_of_no_blank h]

theorem squeeze_eq_collapse_trimEnd (h : s.head?.any isBlank = false) :
    squeeze s = collapse (trimEnd s) := by
  rw [collapse_trimEnd, if_neg (by simp [h]), List.nil_append]

theorem dropEnding?_eq_none (ending : List Char) (h : s.getLast? ≠ some c) : dropEnding? (ending ++ [c]) s = none := by
  refine if_neg fun hs => h ?_
  obtain ⟨t, rfl⟩ := List.isSuffixOf_iff_suffix.1 hs
  simp

theorem eq_append_of_dropEnding? (h : dropEnding? ending s = some t) : s = t ++ ending := by
  unfold dropEnding? at h
  split at h
  · rename_i hs
    obtain ⟨r, rfl⟩ := List.isSuffixOf_iff_suffix.1 hs
    obtain rfl := Option.some.inj h
    simp
  · cases h

theorem dropEnding?_append (s ending : List Char) : dropEnding? ending (s ++ ending) = some s := by
  simp [dropEnding?]

theorem exists_mem_splitOn {d : Char} (h : c ∈ s) (hd : c ≠ d) : ∃ part ∈ s.splitOn d, c ∈ part := by
  induction s with
  | nil => cases h
  | cons e s ih =>
    obtain ⟨v, vs, hs⟩ := List.exists_cons_of_ne_nil (List.splitOnP_ne_nil (· == d) s)
    rw [List.splitOn] at ih ⊢
    rw [List.splitOnP_cons_eq_if_modifyHead, hs]
    rw [hs] at ih
    by_cases he : e = d
    · obtain ⟨part, hpart, hmem⟩ := ih ((List.mem_cons.1 h).resolve_left (he ▸ hd))
      exact ⟨part, by simp [he, hpart], hmem⟩
    · rcases List.mem_cons.1 h with rfl | h
      · exact ⟨c :: v, by simp [he], List.mem_cons_self⟩
      · obtain ⟨part, hpart, hmem⟩ := ih h
        rcases List.mem_cons.1 hpart with rfl | hpart
        · exact ⟨e :: part, by simp [he], List.mem_cons_of_mem _ hmem⟩
        · exact ⟨part, by simp [he, hpart], hmem⟩

theorem numeral_eq_ofDigitChars (h : ∀ c ∈ s, c.isDigit = true) :
    numeral 10 s = Nat.ofDigitChars 10 s 0 := by
  rw [numeral, Nat.ofDigitChars]
  generalize 0 = n
  induction s generalizing n with
  | nil => rfl
  | cons c s ih =>
    rw [List.forall_mem_cons] at h
    rw [List.foldl_cons, List.foldl_cons, ih h.2, digitValue, if_pos h.1, Nat.mul_comm]

theorem natural?_of_digits {bound : Nat} (hs : s ≠ []) (h : ∀ c ∈ s, c.isDigit = true)
    (hb : numeral 10 s < bound) : natural? bound s = some (numeral 10 s) := by
  have hunsigned (ds : List Char) : s ≠ '+' :: ds := by
    rintro rfl
    cases h '+' List.mem_cons_self
  unfold natural?
  simp only
  exact if_pos ⟨hs, List.all_eq_true.2 h, hb⟩

theorem natural?_toDigits {n bound : Nat} (h : n < bound) :
    natural? bound (Nat.toDigits 10 n) = some n := by
  have hdigits : ∀ c ∈ Nat.toDigits 10 n, c.isDigit = true := fun c =>
    Nat.isDigit_of_mem_toDigits (by decide) (by decide)
  have hnumeral : numeral 10 (Nat.toDigits 10 n) = n :=
    (numeral_eq_ofDigitChars hdigits).trans Nat.ofDigitChars_ten_toDigits
  rw [natural?_of_digits Nat.toDigits_ne_nil hdigits (hnumeral.symm ▸ h), hnumeral]

theorem not_isBlank_of_isAlphanum (h : c.isAlphanum = true) : isBlank c = false := by
  have hall : ∀ n ∈ blankCodes, (Char.ofNat n).isAlphanum = false := by decide
  by_contra hb
  have hc := hall _ (mem_blankCodes (by simpa using hb))
  rw [Char.ofNat_toNat, h] at hc
  cases hc

theorem not_isBlank_of_isDigit (h : c.isDigit = true) : isBlank c = false :=
  not_isBlank_of_isAlphanum (by rw [Char.isAlphanum, h, Bool.or_true])

end Text

namespace Normalization

variable {s : String} {c : Char}

theorem toList_words (s : String) : (words.apply s).toList = Text.squeeze (spaces s.toList) := by
  rw [apply, Text.toList_onChars]

theorem mem_words (h : c ∈ (words.apply s).toList) : c = ' ' ∨ c ∈ s.toList := by
  rw [toList_words] at h
  rcases Text.mem_squeeze h with h | ⟨h, -⟩
  · exact .inl h
  · exact mem_spaces h

theorem trim_words (s : String) : Text.onChars Text.trim (words.apply s) = words.apply s := by
  rw [Text.onChars, toList_words, Text.trim_squeeze, ← toList_words, String.ofList_toList]

theorem words_of_no_blank (h : ∀ c ∈ s.toList, Text.isBlank c = false) : words.apply s = s := by
  have hspaces : spaces s.toList = s.toList := by
    refine spaces_eq_self fun c hc => ?_
    refine ⟨?_, ?_, ?_⟩ <;> rintro rfl <;> cases h _ hc
  rw [apply, Text.onChars, hspaces, Text.squeeze_of_no_blank h, String.ofList_toList]

theorem words_ne_nil (ht : Text.trim s.toList = s.toList) (hs : s.toList ≠ []) :
    (words.apply s).toList ≠ [] := by
  obtain ⟨c, r, hcr⟩ := List.exists_cons_of_ne_nil hs
  have hb : Text.isBlank c = false := Text.not_isBlank_of_trim ht (by rw [hcr]; rfl)
  have hne : c ≠ '\t' ∧ c ≠ '\n' ∧ c ≠ '\r' := by
    refine ⟨?_, ?_, ?_⟩ <;> rintro rfl <;> cases hb
  rw [toList_words]
  refine Text.squeeze_ne_nil (c := c) ?_ hb
  rw [hcr, spaces, List.map_cons]
  simp [hne]

end Normalization

namespace Length

theorem toList_render (l : Length) : ∃ n : UInt32, l = pixels n ∧ l.render.toList = Nat.toDigits 10 n.toNat ∨
    l = percent n ∧ l.render.toList = Nat.toDigits 10 n.toNat ++ ['%'] := by
  cases l with
  | pixels n => exact ⟨n, .inl ⟨rfl, by rw [render, Nat.toString_eq_ofList_toDigits, String.toList_ofList]⟩⟩
  | percent n =>
    refine ⟨n, .inr ⟨rfl, ?_⟩⟩
    rw [render, String.toList_append, Nat.toString_eq_ofList_toDigits, String.toList_ofList]
    rfl

theorem isDigit_of_mem_toDigits {n : Nat} {c : Char} (h : c ∈ Nat.toDigits 10 n) : c.isDigit = true :=
  Nat.isDigit_of_mem_toDigits (by decide) (by decide) h

theorem not_isBlank_of_mem_render {l : Length} {c : Char} (h : c ∈ l.render.toList) :
    Text.isBlank c = false := by
  obtain ⟨n, ⟨-, hl⟩ | ⟨-, hl⟩⟩ := l.toList_render <;> rw [hl] at h
  · exact Text.not_isBlank_of_isDigit (isDigit_of_mem_toDigits h)
  · rcases List.mem_append.1 h with h | h
    · exact Text.not_isBlank_of_isDigit (isDigit_of_mem_toDigits h)
    · obtain rfl := List.mem_singleton.1 h
      rfl

theorem number_toDigits (n : UInt32) : number (Nat.toDigits 10 n.toNat) = some n := by
  have htrim : Text.trimEnd (Nat.toDigits 10 n.toNat) = Nat.toDigits 10 n.toNat := by
    rw [← Text.trim_of_no_blank fun c hc => Text.not_isBlank_of_isDigit (isDigit_of_mem_toDigits hc),
      Text.trimEnd_trim]
  rw [number, htrim, Text.natural?_toDigits n.toNat_lt]
  simp

theorem read?_render (l : Length) : read? l.render = some l := by
  rw [read?, Text.trim_of_no_blank fun c hc => not_isBlank_of_mem_render hc, readChars?]
  obtain ⟨n, ⟨rfl, hl⟩ | ⟨rfl, hl⟩⟩ := l.toList_render <;> rw [hl]
  · have hlast {c : Char} (hc : c.isDigit = false) : (Nat.toDigits 10 n.toNat).getLast? ≠ some c := by
      intro h
      cases hc.symm.trans (isDigit_of_mem_toDigits (List.mem_of_getLast? h))
    have hpercent : Text.dropEnding? ['%'] (Nat.toDigits 10 n.toNat) = none :=
      Text.dropEnding?_eq_none [] (hlast rfl)
    have hpx : Text.dropEnding? ['p', 'x'] (Nat.toDigits 10 n.toNat) = none :=
      Text.dropEnding?_eq_none ['p'] (hlast rfl)
    rw [hpercent, hpx]
    simp [number_toDigits]
  · rw [Text.dropEnding?_append]
    simp [number_toDigits]

end Length

namespace Valid

/-- Whether a text goes on with a path; a slash needs another character of a title before it. -/
def goesOn : Bool → List Char → Bool
  | _, [] => true
  | begun, c :: s => if c = '/' then begun && goesOn false s else isTitleChar c && goesOn true s

theorem goesOn_eq (begun : Bool) {s part : List Char} {parts : List (List Char)}
    (h : s.splitOn '/' = part :: parts) : goesOn begun s =
      ((part :: parts).all (·.all isTitleChar) && (begun || !part.isEmpty || parts.isEmpty) &&
        parts.dropLast.all (!·.isEmpty)) := by
  induction s generalizing begun part parts with
  | nil =>
    obtain ⟨rfl, rfl⟩ : [] = part ∧ [] = parts := by simpa using h
    simp [goesOn]
  | cons c s ih =>
    obtain ⟨v, vs, hs⟩ := List.exists_cons_of_ne_nil (List.splitOnP_ne_nil (· == '/') s)
    rw [List.splitOn, List.splitOnP_cons_eq_if_modifyHead, hs] at h
    rw [goesOn, ih _ hs, ih _ hs]
    by_cases hc : c = '/'
    · obtain ⟨rfl, rfl⟩ : [] = part ∧ v :: vs = parts := by simpa [hc] using h
      cases vs <;> simp [hc] <;> grind
    · obtain ⟨rfl, rfl⟩ : c :: v = part ∧ vs = parts := by simpa [hc] using h
      simp [hc, Bool.and_assoc]

theorem isPath_eq (s : String) : isPath s = goesOn false s.toList := by
  obtain ⟨v, vs, hs⟩ := List.exists_cons_of_ne_nil (List.splitOnP_ne_nil (· == '/') s.toList)
  have hs : s.toList.splitOn '/' = v :: vs := hs
  rw [isPath, goesOn_eq _ hs, hs]
  cases vs <;> simp [Bool.and_assoc]

theorem goesOn_of_append {begun : Bool} {s t : List Char} (h : goesOn begun (s ++ t) = true) :
    goesOn begun s = true := by
  induction s generalizing begun with
  | nil => rfl
  | cons c s ih =>
    rw [List.cons_append] at h
    unfold goesOn at h ⊢
    grind

theorem mem_of_goesOn {begun : Bool} {s : List Char} (h : goesOn begun s = true) {c : Char} (hc : c ∈ s) :
    c = '/' ∨ isTitleChar c = true := by
  induction s generalizing begun with
  | nil => cases hc
  | cons d s ih =>
    unfold goesOn at h
    grind

theorem goesOn_collapse {begun : Bool} {s : List Char} (h : goesOn begun s = true) :
    goesOn begun (Text.collapse s) = true := by
  induction s generalizing begun with
  | nil => rfl
  | cons c s ih =>
    rw [goesOn] at h
    by_cases hc : Text.isBlank c = true
    · have hne : c ≠ '/' := by
        rintro rfl
        cases hc
      rw [if_neg hne, Bool.and_eq_true] at h
      by_cases hs : s.head?.any Text.isBlank = true
      · -- what a blank is followed by goes on in the same way, whether a name has begun or not
        rw [Text.collapse_blanks hc hs]
        refine ih ?_
        cases s with
        | nil => rfl
        | cons d s =>
          have hd : d ≠ '/' := by
            rintro rfl
            cases hs
          rw [goesOn, if_neg hd] at h ⊢
          exact h.2
      · rw [Text.collapse_blank hc (by simpa using hs), goesOn, if_neg (by decide), ih h.2]
        rfl
    · rw [Text.collapse_cons (by simpa using hc), goesOn]
      grind

end Valid

namespace Verifier

variable {site : Site} {s t : String} {allowed : List String} {justify : Bool}

theorem onChars_trim_of_no_blank (h : ∀ c ∈ t.toList, Text.isBlank c = false) :
    Text.onChars Text.trim t = t := by
  rw [Text.onChars, Text.trim_of_no_blank h, String.ofList_toList]

theorem choice_again (hwords : ∀ a ∈ allowed, ∀ c ∈ a.toList, Text.isBlank c = false)
    (h : choice allowed s = .ok t) :
    choice allowed (Normalization.words.apply t) = .ok (Normalization.words.apply t) := by
  unfold choice at h
  dsimp only at h
  split at h
  swap
  · cases h
  rename_i hmem
  obtain rfl := Except.ok.inj h
  have hblank := hwords _ (by simpa using hmem)
  rw [Normalization.words_of_no_blank hblank, choice, onChars_trim_of_no_blank hblank,
    toLower_toLower]
  exact if_pos hmem

theorem read?_eq_some_iff {a : Alignment} :
    Alignment.read? s = some a ↔ (Text.onChars Text.trim s).toLower = a.name := by
  unfold Alignment.read?
  cases a <;> split <;> simp_all [Alignment.name]

theorem checkAlignment_again (h : checkAlignment justify s = .ok t) :
    checkAlignment justify (Normalization.words.apply t) = .ok (Normalization.words.apply t) := by
  obtain ⟨a, ha, h⟩ := Except.exists_of_bind h
  split at h
  · cases h
  rename_i hjustify
  obtain rfl := Except.ok.inj h
  have hread : Alignment.read? s = some a := by
    unfold Alignment.read at ha
    split at ha
    · rwa [← Except.ok.inj ha]
    · cases ha
  have hblank : ∀ c ∈ a.name.toList, Text.isBlank c = false := by
    have hall : (a.name.toList.all fun c => !Text.isBlank c) = true := by cases a <;> rfl
    simpa using hall
  have hagain : Alignment.read? a.name = some a := by
    rw [read?_eq_some_iff] at hread ⊢
    rw [onChars_trim_of_no_blank hblank, ← hread, toLower_toLower]
  rw [Normalization.words_of_no_blank hblank, checkAlignment, Alignment.read, hagain]
  exact if_neg hjustify

theorem checkLength_again (h : checkLength s = .ok t) :
    checkLength (Normalization.words.apply t) = .ok (Normalization.words.apply t) := by
  obtain ⟨l, -, rfl⟩ := Except.exists_of_map h
  rw [Normalization.words_of_no_blank fun c hc => Length.not_isBlank_of_mem_render hc, checkLength,
    Length.read, Length.read?_render]
  rfl

theorem checkPixels_again (h : checkPixels s = .ok t) :
    checkPixels (Normalization.words.apply t) = .ok (Normalization.words.apply t) := by
  unfold checkPixels at h
  split at h
  swap
  · cases h
  obtain rfl := Except.ok.inj h
  rw [Normalization.words_of_no_blank fun c hc => Length.not_isBlank_of_mem_render hc, checkPixels,
    Length.read?_render]

theorem checkId_again (h : checkId s = .ok t) :
    checkId (Normalization.words.apply t) = .ok (Normalization.words.apply t) := by
  unfold checkId at h
  dsimp only at h
  split at h
  · cases h
  rename_i hid
  obtain rfl := Except.ok.inj h
  have hblank : ∀ c ∈ (Text.onChars Text.trim s).toList, Text.isBlank c = false := by
    simp only [Text.toList_onChars, Bool.or_eq_true, List.isEmpty_iff, List.any_eq_true, not_or,
      not_exists, not_and, Bool.not_eq_true] at hid ⊢
    exact hid.2
  rw [Normalization.words_of_no_blank hblank, checkId, onChars_trim_of_no_blank hblank]
  exact if_neg hid

theorem not_isBlank_of_isLanguage {s : List Char} (h : isLanguage s = true) {c : Char} (hc : c ∈ s) :
    Text.isBlank c = false := by
  by_cases hdash : c = '-'
  · subst hdash
    rfl
  obtain ⟨part, hpart, hc⟩ := Text.exists_mem_splitOn hc hdash
  have hall : ∀ part ∈ s.splitOn '-', part.all Char.isAlphanum = true := by
    unfold isLanguage at h
    dsimp only at h
    split at h
    · cases h
    · rename_i first others hs
      simp only [Bool.and_eq_true, List.all_eq_true] at h
      rw [hs, List.forall_mem_cons]
      refine ⟨List.all_eq_true.2 fun c hc => ?_, fun part hpart => List.all_eq_true.2 (h.2 part hpart).2⟩
      rw [Char.isAlphanum, h.1.2 c hc, Bool.true_or]
  exact Text.not_isBlank_of_isAlphanum (List.all_eq_true.1 (hall part hpart) c hc)

theorem checkLanguage_again (h : checkLanguage s = .ok t) :
    checkLanguage (Normalization.words.apply t) = .ok (Normalization.words.apply t) := by
  unfold checkLanguage at h
  dsimp only at h
  split at h
  swap
  · cases h
  rename_i hlanguage
  obtain rfl := Except.ok.inj h
  have hblank := fun c => not_isBlank_of_isLanguage hlanguage (c := c)
  rw [Normalization.words_of_no_blank hblank, checkLanguage, onChars_trim_of_no_blank hblank]
  exact if_pos hlanguage

/-- Single blanks in the place of others leave the characters of a kind that has the space. -/
theorem all_words {p : Char → Bool} (hp : p ' ' = true) (ht : Text.trim t.toList = t.toList)
    (h : (!t.toList.isEmpty && t.toList.all p) = true) :
    (!(Normalization.words.apply t).toList.isEmpty && (Normalization.words.apply t).toList.all p) = true := by
  rw [Bool.and_eq_true, Bool.not_eq_true', List.isEmpty_eq_false_iff, List.all_eq_true] at h ⊢
  refine ⟨Normalization.words_ne_nil ht h.1, fun c hc => ?_⟩
  rcases Normalization.mem_words hc with rfl | hc
  · exact hp
  · exact h.2 c hc

theorem checkPageTitle_again (h : checkPageTitle s = .ok t) :
    checkPageTitle (Normalization.words.apply t) = .ok (Normalization.words.apply t) := by
  obtain ⟨_, hv, h⟩ := Except.exists_of_bind h
  obtain rfl := Except.ok.inj h
  have hvalid : Valid.isTitle (Text.onChars Text.trim s) = true := by
    unfold checkTitle at hv
    dsimp only at hv
    split at hv
    · rename_i hvalid
      exact hvalid
    · cases hv
  have htrim : Text.trim (Text.onChars Text.trim s).toList = (Text.onChars Text.trim s).toList := by
    rw [Text.toList_onChars, Text.trim_trim]
  have hwords : Valid.isTitle (Normalization.words.apply (Text.onChars Text.trim s)) = true :=
    all_words rfl htrim hvalid
  rw [checkPageTitle, Normalization.trim_words, checkTitle, if_pos hwords]
  rfl

theorem checkNamespace_again (h : checkNamespace (some (Text.onChars Text.trim s)) = .ok (some t)) :
    checkNamespace (some (Normalization.words.apply t)) = .ok (some (Normalization.words.apply t)) := by
  unfold checkNamespace at h
  dsimp only at h
  split at h
  · cases h
  split at h
  swap
  · cases h
  rename_i hvalid
  obtain rfl := Option.some.inj (Except.ok.inj h)
  have htrim : Text.trim (Text.onChars Text.trim s).toList = (Text.onChars Text.trim s).toList := by
    rw [Text.toList_onChars, Text.trim_trim]
  have hwords : Valid.isTitle (Normalization.words.apply (Text.onChars Text.trim s)) = true :=
    all_words rfl htrim hvalid
  have hne : Normalization.words.apply (Text.onChars Text.trim s) ≠ "" := by
    intro hnil
    rw [hnil] at hwords
    cases hwords
  rw [checkNamespace, if_neg hne, if_pos hwords]

theorem goesOn_of_checkPath (h : checkPath (some s) = .ok (some t)) :
    Valid.goesOn false t.toList = true ∧ t.toList ≠ [] ∧ t.toList.head? = s.toList.head? := by
  unfold checkPath at h
  dsimp only at h
  split at h
  · cases h
  rename_i hne
  split at h
  swap
  · cases h
  rename_i hpath
  obtain rfl := Option.some.inj (Except.ok.inj h)
  rw [Valid.isPath_eq] at hpath
  rw [Text.toList_onChars]
  cases hend : Text.dropEnding? ['/'] s.toList with
  | none =>
    refine ⟨hpath, fun hnil => hne ?_, rfl⟩
    rw [← String.ofList_toList (s := s)]
    exact congrArg String.ofList hnil
  | some r =>
    have happ := Text.eq_append_of_dropEnding? hend
    rw [happ] at hpath ⊢
    cases r with
    | nil => cases hpath
    | cons c r => exact ⟨Valid.goesOn_of_append hpath, List.cons_ne_nil _ _, rfl⟩

/-- A slash at the end of a path is dropped but once. -/
theorem checkPath_again (h : checkPath (some (Text.onChars Text.trim s)) = .ok (some t))
    (hlast : (Normalization.words.apply t).toList.getLast? ≠ some '/') :
    checkPath (some (Normalization.words.apply t)) = .ok (some (Normalization.words.apply t)) := by
  obtain ⟨hgoes, hne, hhead⟩ := goesOn_of_checkPath h
  obtain ⟨c, hc⟩ := Option.ne_none_iff_exists'.1 (mt List.head?_eq_none_iff.1 hne)
  have hblank : Text.isBlank c = false := by
    rw [hc, Text.toList_onChars] at hhead
    exact Text.not_isBlank_of_trim (Text.trim_trim _) hhead.symm
  have hspaces : Normalization.spaces t.toList = t.toList := by
    refine Normalization.spaces_eq_self fun d hd => ?_
    have hd := Valid.mem_of_goesOn hgoes hd
    refine ⟨?_, ?_, ?_⟩ <;> rintro rfl <;> revert hd <;> decide
  have hlist : (Normalization.words.apply t).toList = Text.squeeze t.toList := by
    rw [Normalization.toList_words, hspaces]
  have hwords : Valid.isPath (Normalization.words.apply t) = true := by
    obtain ⟨r, hr⟩ := List.rdropWhile_prefix Text.isBlank t.toList
    rw [Valid.isPath_eq, hlist, Text.squeeze_eq_collapse_trimEnd (by rw [hc]; exact hblank)]
    refine Valid.goesOn_collapse (Valid.goesOn_of_append (t := r) ?_)
    exact hr.symm ▸ hgoes
  have hnonempty : Normalization.words.apply t ≠ "" := by
    intro hnil
    rw [hnil] at hlist
    exact Text.squeeze_ne_nil (List.mem_of_head? hc) hblank hlist.symm
  have hend : Text.dropEnding? ['/'] (Normalization.words.apply t).toList = none :=
    Text.dropEnding?_eq_none [] hlast
  rw [checkPath, if_neg hnonempty, if_pos hwords, Text.onChars, hend, Option.getD_none,
    String.ofList_toList]

theorem checkLinkTarget_again (h : checkLinkTarget site s = .ok t)
    (hleads : site.LeadsToPage (Normalization.words.apply t)) :
    checkLinkTarget site (Normalization.words.apply t) = .ok (Normalization.words.apply t) := by
  have hvalid := isTarget_of_checkLinkTarget h
  obtain ⟨rfl, -⟩ := Site.leadsToPage_of_checkLinkTarget h
  have htrim : Text.trim (Text.onChars Text.trim s).toList = (Text.onChars Text.trim s).toList := by
    rw [Text.toList_onChars, Text.trim_trim]
  have hwords : Valid.isTarget (Normalization.words.apply (Text.onChars Text.trim s)) = true :=
    all_words rfl htrim hvalid
  obtain ⟨target, hparse, hcategory, himage⟩ := hleads
  rw [checkLinkTarget, Normalization.trim_words, checkTarget, if_pos hwords]
  simp [hparse, hcategory, himage]
  rfl

end Verifier

/-- Whether what is stored of a value passes the check of its attribute once more. Single blanks can leave
a path with a slash at its end, and a link with a target that the check refuses. -/
def Site.Stands (site : Site) (s : String) : Verifier → Prop
  | .pagePath => s.toList.getLast? ≠ some '/'
  | .linkTarget => site.LeadsToPage s
  | _ => True

theorem Policy.normalization_of_find? {kind : Kind} {name : String} {policy : Policy}
    (h : find? kind name = some policy) (hv : policy.verifier ≠ .any) : policy.normalization = .words := by
  have hs : ∀ q ∈ specific kind, q.normalization = .words := by cases kind <;> decide
  have hu : ∀ q ∈ generic :: universal, q.verifier ≠ .any → q.normalization = .words := by decide
  exact (mem_of_find? h).elim (hs policy) fun hm => hu policy hm.2 hv

/-- The check of an attribute finds nothing to mend in what is stored of a value that it has found. -/
theorem Page.verify_again {p : Page} {x : ElementId} {kind : Kind} {name value new : String} {policy : Policy}
    (hp : Policy.find? kind name = some policy) (hk : kind ≠ .category)
    (h : p.verify x value policy.verifier = .ok (some new))
    (hs : p.site.Stands (policy.normalization.apply new) policy.verifier) :
    p.verify x (policy.normalization.apply new) policy.verifier = .ok (some (policy.normalization.apply new)) := by
  have hcategory := Policy.verifier_ne hk hp
  by_cases hany : policy.verifier = .any
  · rw [hany, verify]
  rw [Policy.normalization_of_find? hp hany] at hs ⊢
  generalize policy.verifier = v at h hs hany hcategory
  have hblank {allowed : List String} (h : (allowed.all fun a => a.toList.all fun c => !Text.isBlank c) = true) :
      ∀ a ∈ allowed, ∀ c ∈ a.toList, Text.isBlank c = false := by simpa using h
  cases v with
  | any => exact absurd rfl hany
  | elementId => exact congrArg (some <$> ·) (Verifier.checkId_again (Except.ok_of_map_some h))
  | language => exact congrArg (some <$> ·) (Verifier.checkLanguage_again (Except.ok_of_map_some h))
  | direction => exact congrArg (some <$> ·) (Verifier.choice_again (hblank rfl) (Except.ok_of_map_some h))
  | alignment => exact congrArg (some <$> ·) (Verifier.checkAlignment_again (Except.ok_of_map_some h))
  | blockAlignment => exact congrArg (some <$> ·) (Verifier.checkAlignment_again (Except.ok_of_map_some h))
  | shade => exact congrArg (some <$> ·) (Verifier.choice_again (hblank rfl) (Except.ok_of_map_some h))
  | pixels => exact congrArg (some <$> ·) (Verifier.checkPixels_again (Except.ok_of_map_some h))
  | length => exact congrArg (some <$> ·) (Verifier.checkLength_again (Except.ok_of_map_some h))
  | pageTitle => exact congrArg (some <$> ·) (Verifier.checkPageTitle_again (Except.ok_of_map_some h))
  | pageNamespace =>
    rw [verify] at h
    rw [verify, Normalization.trim_words]
    exact Verifier.checkNamespace_again h
  | pagePath =>
    rw [verify] at h
    rw [verify, Normalization.trim_words]
    exact Verifier.checkPath_again h hs
  | linkTarget => exact congrArg (some <$> ·) (Verifier.checkLinkTarget_again (Except.ok_of_map_some h) hs)
  | categoryName => exact absurd rfl hcategory

end WikiPage
