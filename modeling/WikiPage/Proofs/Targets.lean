import Mathlib.Data.List.Find
import WikiPage.EntityTable
import WikiPage.Proofs.Glued
import WikiPage.Proofs.Lasting
import WikiPage.Proofs.Spelling

/-!
# Where links lead

A link that is an element leads to a page when it is read or made. A target that it is given is checked
as it was written and stored with single blanks. So it leads to a page as well, unless the single blanks
turn what stands in front of its colon into the name of a namespace.
-/

namespace WikiPage

namespace Text

variable {s : List Char} {c d : Char}

/-- A single space in the place of blanks that follow each other. -/
def collapse : List Char → List Char
  | [] => []
  | c :: s =>
    if isBlank c then if s.head?.any isBlank then collapse s else ' ' :: collapse s
    else c :: collapse s

theorem collapse_cons (hc : isBlank c = false) (s : List Char) :
    collapse (c :: s) = c :: collapse s := by
  rw [collapse, hc, if_neg (by decide)]

theorem collapse_blank (hc : isBlank c = true) (hs : s.head?.any isBlank = false) :
    collapse (c :: s) = ' ' :: collapse s := by
  rw [collapse, if_pos hc, hs, if_neg (by decide)]

theorem collapse_blanks (hc : isBlank c = true) (hs : s.head?.any isBlank = true) :
    collapse (c :: s) = collapse s := by
  rw [collapse, if_pos hc, if_pos hs]

theorem mem_collapse (h : c ∈ collapse s) : c = ' ' ∨ c ∈ s ∧ isBlank c = false := by
  induction s with
  | nil => cases h
  | cons d s ih =>
    unfold collapse at h
    grind

theorem collapse_eq_nil_iff : collapse s = [] ↔ s = [] := by
  induction s with
  | nil => exact Iff.rfl
  | cons c s ih =>
    unfold collapse
    grind [cases List]

theorem collapse_eq_self (h : ∀ c ∈ collapse s, isBlank c = false) : collapse s = s := by
  induction s with
  | nil => rfl
  | cons c s ih =>
    by_cases hc : isBlank c = true
    · by_cases hs : s.head?.any isBlank = true
      · rw [collapse_blanks hc hs] at h
        rw [ih h] at h
        obtain ⟨d, hd, hb⟩ := (Option.any_eq_true _ _).1 hs
        cases (h d (List.mem_of_head? hd)).symm.trans hb
      · rw [collapse_blank hc (by simpa using hs)] at h
        cases h ' ' List.mem_cons_self
    · rw [collapse_cons (by simpa using hc)] at h ⊢
      rw [ih fun d hd => h d (List.mem_cons_of_mem _ hd)]

theorem cutAt_collapse (hc : isBlank c = false) (s : List Char) :
    cutAt c (collapse s) = (cutAt c s).map (Prod.map collapse collapse) := by
  induction s with
  | nil => rfl
  | cons d s ih =>
    by_cases hd : isBlank d = true
    · have hne : d ≠ c := by
        rintro rfl
        cases hc.symm.trans hd
      have hspace : ' ' ≠ c := by
        rintro rfl
        cases hc
      rw [cutAt, if_neg hne, Option.map_map]
      by_cases hs : s.head?.any isBlank = true
      · rw [collapse_blanks hd hs, ih]
        cases hcut : cutAt c s with
        | none => rfl
        | some p =>
          have happ := eq_append_of_cutAt hcut
          have hp : p.1.head?.any isBlank = true := by
            cases hp : p.1 with
            | nil => simp [happ, hp, hc] at hs
            | cons e r => simpa [happ, hp] using hs
          simp [Prod.map, collapse_blanks hd hp]
      · have hs' : s.head?.any isBlank = false := by simpa using hs
        rw [collapse_blank hd hs', cutAt, if_neg hspace, ih, Option.map_map]
        cases hcut : cutAt c s with
        | none => rfl
        | some p =>
          have happ := eq_append_of_cutAt hcut
          have hp : p.1.head?.any isBlank = false := by
            cases hp : p.1 with
            | nil => rfl
            | cons e r => simpa [happ, hp] using hs'
          simp [Prod.map, collapse_blank hd hp]
    · rw [collapse_cons (by simpa using hd), cutAt, cutAt]
      split
      · rfl
      · rw [ih, Option.map_map, Option.map_map]
        congr 1
        funext p
        simp [Prod.map, collapse_cons (show isBlank d = false by simpa using hd)]

theorem trimStart_collapse (s : List Char) : trimStart (collapse s) = collapse (trimStart s) := by
  induction s with
  | nil => rfl
  | cons c s ih =>
    rw [trimStart_cons]
    by_cases hc : isBlank c = true
    · rw [if_pos hc, ← ih]
      by_cases hs : s.head?.any isBlank = true
      · rw [collapse_blanks hc hs]
      · rw [collapse_blank hc (by simpa using hs)]
        rfl
    · have hc : isBlank c = false := by simpa using hc
      rw [hc, if_neg (by decide), collapse_cons hc, trimStart_cons, hc, if_neg (by decide)]

theorem trimEnd_cons (c : Char) (s : List Char) :
    trimEnd (c :: s) = if isBlank c ∧ trimEnd s = [] then [] else c :: trimEnd s := by
  simp only [trimEnd, List.reverse_cons, List.dropWhile_append, List.isEmpty_iff,
    List.reverse_eq_nil_iff]
  by_cases hs : s.reverse.dropWhile isBlank = []
  · by_cases hc : isBlank c = true <;> simp [hs, hc]
  · simp [hs]

theorem head?_trimEnd (h : trimEnd s ≠ []) : (trimEnd s).head? = s.head? := by
  cases s with
  | nil => rfl
  | cons c s =>
    rw [trimEnd_cons] at h ⊢
    rw [if_neg fun hc => h (if_pos hc)]
    rfl

theorem trimEnd_collapse (s : List Char) : trimEnd (collapse s) = collapse (trimEnd s) := by
  induction s with
  | nil => rfl
  | cons c s ih =>
    by_cases hc : isBlank c = true
    · by_cases hs : s.head?.any isBlank = true
      · rw [collapse_blanks hc hs, ih, trimEnd_cons]
        split
        · rename_i h
          rw [h.2]
        · rename_i h
          rw [collapse_blanks hc]
          rw [head?_trimEnd fun he => h ⟨hc, he⟩]
          exact hs
      · have hs : s.head?.any isBlank = false := by simpa using hs
        simp only [collapse_blank hc hs, trimEnd_cons, ih, collapse_eq_nil_iff]
        by_cases he : trimEnd s = []
        · simp [he, hc, show isBlank ' ' = true from rfl, collapse]
        · rw [if_neg fun h => he h.2, if_neg fun h => he h.2, collapse_blank hc]
          rw [head?_trimEnd he]
          exact hs
    · have hc : isBlank c = false := by simpa using hc
      rw [collapse_cons hc, trimEnd_cons, trimEnd_cons, ih, hc]
      simp [collapse_cons hc]

theorem trim_collapse (s : List Char) : trim (collapse s) = collapse (trim s) := by
  rw [trim, trimStart_collapse, trimEnd_collapse, trim]

theorem words_cons_cons (hc : isBlank c = false) (hd : isBlank d = false) (s : List Char) :
    words (c :: d :: s) = (words (d :: s)).modifyHead (c :: ·) := by
  obtain ⟨w, ws, hw⟩ := List.exists_cons_of_ne_nil (List.splitOnP_ne_nil isBlank s)
  simp [words, List.splitOnP_cons_eq_if_modifyHead, hc, hd, hw]

theorem squeeze_cons_cons (hc : isBlank c = false) (hd : isBlank d = false) (s : List Char) :
    squeeze (c :: d :: s) = c :: squeeze (d :: s) := by
  obtain ⟨w, ws, hw⟩ := List.exists_cons_of_ne_nil (words_ne_nil List.mem_cons_self hd)
  rw [squeeze, squeeze, words_cons_cons hc hd, hw]
  cases ws <;> simp [List.intercalate_cons_cons]

theorem squeeze_cons_blank (hc : isBlank c = false) (hd : isBlank d = true) (s : List Char) :
    squeeze (c :: d :: s) = c :: if words s = [] then [] else ' ' :: squeeze s := by
  have hw : words (c :: d :: s) = [c] :: words s := by
    have h := words_append_cons [c] s hd
    rwa [show words [c] = [[c]] by simp [words, List.splitOnP_cons_eq_if_modifyHead, hc]] at h
  rw [squeeze, squeeze, hw]
  cases hs : words s with
  | nil => simp
  | cons w ws => simp [List.intercalate_cons_cons]

theorem trimEnd_eq_nil_iff : trimEnd s = [] ↔ words s = [] := by
  induction s with
  | nil => simp
  | cons c s ih =>
    rw [trimEnd_cons]
    by_cases hc : isBlank c = true
    · simp [hc, words_cons s hc, ih]
    · have hw := words_ne_nil (List.mem_cons_self (l := s)) (by simpa using hc)
      simp [hc, hw]

theorem collapse_trimEnd (s : List Char) :
    collapse (trimEnd s) =
      (if s.head?.any isBlank ∧ words s ≠ [] then [' '] else []) ++ squeeze s := by
  induction s with
  | nil => rfl
  | cons c s ih =>
    simp only [trimEnd_cons, trimEnd_eq_nil_iff]
    by_cases hc : isBlank c = true
    · have hw := words_cons s hc
      have hsq : squeeze (c :: s) = squeeze s := by rw [squeeze, hw, squeeze]
      by_cases hs : words s = []
      · simp [hc, hw, hs, collapse, squeeze]
      · have hend : trimEnd s ≠ [] := fun h => hs (trimEnd_eq_nil_iff.1 h)
        rw [if_neg fun h => hs h.2, hsq, hw]
        by_cases hh : s.head?.any isBlank = true
        · rw [collapse_blanks hc (by rwa [head?_trimEnd hend]), ih]
          simp [hc, hs, hh]
        · rw [collapse_blank hc (by rw [head?_trimEnd hend]; simpa using hh), ih]
          simp [hc, hs, hh]
    · have hc : isBlank c = false := by simpa using hc
      rw [if_neg (by simp [hc]), collapse_cons hc, ih]
      cases s with
      | nil => simp [hc, squeeze, words, List.splitOnP_cons_eq_if_modifyHead]
      | cons d s =>
        by_cases hd : isBlank d = true
        · have hw := words_cons s hd
          have hsq : squeeze (d :: s) = squeeze s := by rw [squeeze, hw, squeeze]
          rw [squeeze_cons_blank hc hd, hw, hsq]
          by_cases hs : words s = []
          · have hnil : squeeze s = [] := by rw [squeeze, hs, List.intercalate_nil]
            simp [hc, hs, hnil]
          · simp [hc, hd, hs]
        · have hd : isBlank d = false := by simpa using hd
          simp [squeeze_cons_cons hc hd, hc, hd]

theorem squeeze_eq_collapse (s : List Char) : squeeze s = collapse (trim s) := by
  have hw := words_map_trimStart (f := id) (fun _ hc => hc) s
  rw [List.map_id, List.map_id] at hw
  have hhead : ¬((trimStart s).head?.any isBlank = true) := by
    intro h
    obtain ⟨c, hc, hb⟩ := (Option.any_eq_true _ _).1 h
    cases (not_isBlank_of_head?_trimStart hc).symm.trans hb
  rw [trim, collapse_trimEnd, if_neg fun h => hhead h.1, List.nil_append, squeeze, squeeze, hw]

theorem words_collapse (s : List Char) : words (collapse s) = words s := by
  have htrim (t : List Char) : words (trim t) = words t := by
    have h := words_map_trim (f := id) (fun _ hc => hc) t
    rwa [List.map_id, List.map_id] at h
  rw [← htrim (collapse s), trim_collapse, ← squeeze_eq_collapse, words_squeeze]

theorem trim_eq_nil_iff : trim s = [] ↔ words s = [] := by
  have hw := words_map_trimStart (f := id) (fun _ hc => hc) s
  rw [List.map_id, List.map_id] at hw
  rw [trim, trimEnd_eq_nil_iff, hw]

theorem mem_trim_of_mem (h : c ∈ s) (hc : isBlank c = false) : c ∈ trim s := by
  have hstart : c ∈ trimStart s := by
    induction s with
    | nil => cases h
    | cons d s ih =>
      rw [trimStart_cons]
      grind
  have hend (t : List Char) (ht : c ∈ t) : c ∈ trimEnd t := by
    induction t with
    | nil => cases ht
    | cons d t ih =>
      rw [trimEnd_cons]
      grind
  exact hend _ hstart

end Text

section

variable {s : List Char} {c : Char}

theorem words_map_collapse (s : List Char) :
    Text.words ((Text.collapse s).map readUnderscore) = Text.words (s.map readUnderscore) := by
  have h (t : List Char) := Text.words_map (fun _ => readUnderscore_of_isBlank) t
  rw [h, Text.words_collapse, ← h]

theorem normalTitle_collapse_eq_nil_iff : normalTitle (Text.collapse s) = [] ↔ normalTitle s = [] := by
  rw [normalTitle_eq, normalTitle_eq, Text.trim_eq_nil_iff, Text.trim_eq_nil_iff, words_map_collapse]

theorem mem_normalTitle_collapse (h : c ∈ normalTitle (Text.collapse s)) :
    c = ' ' ∨ c ∈ normalTitle s := by
  obtain ⟨d, hd, hread⟩ := List.mem_map.1 (Text.trim_subset _ h)
  by_cases hu : d = '_' ∨ d = ' '
  · left
    rcases hu with rfl | rfl <;> exact hread.symm
  · right
    obtain ⟨hunderscore, hspace⟩ := not_or.1 hu
    obtain rfl : d = c := (if_neg hunderscore).symm.trans hread
    obtain ⟨hd, hb⟩ := (Text.mem_collapse hd).resolve_left hspace
    exact Text.mem_trim_of_mem (List.mem_map.2 ⟨d, hd, hread⟩) hb

end

namespace Site

variable {site : Site} {target s t : String}

/-- A target that leads to a page, neither a category nor an image. -/
def LeadsToPage (site : Site) (target : String) : Prop :=
  ∃ t, site.parseTarget target = .ok t ∧ site.isCategory t = false ∧ site.isImage t = false

theorem leadsToPage_of_linkUse (h : Findings.linkUse site target = .element) :
    site.LeadsToPage target := by
  unfold Findings.linkUse at h
  split at h
  · cases h
  · rename_i t ht
    split at h
    · cases h
    · split at h
      · cases h
      · exact ⟨t, ht, by simpa using ‹¬site.isCategory t = true›, by simpa using ‹¬site.isImage t = true›⟩

/-- A checked target has no blanks around it and leads to a page. -/
theorem leadsToPage_of_checkLinkTarget (h : Verifier.checkLinkTarget site s = .ok t) :
    t = Text.onChars Text.trim s ∧ site.LeadsToPage t := by
  obtain ⟨_, -, h⟩ := Except.exists_of_bind h
  split at h
  · cases h
  · rename_i target ht
    split at h
    · cases h
    · split at h
      · cases h
      · obtain rfl := Except.ok.inj h
        exact ⟨rfl, target, ht, by simpa using ‹¬site.isCategory target = true›,
          by simpa using ‹¬site.isImage target = true›⟩

theorem leadsToPage_iff {parts : Target.Parts} {space : Int} {page : List Char}
    (hp : Target.split target.toList = parts) (hs : site.splitNamespace parts.page = (space, page)) :
    site.LeadsToPage target ↔ ¬(normalTitle page = [] ∧ parts.fragment = none) ∧
      (∀ c ∈ normalTitle page, Target.isIllegal c = false) ∧
      (parts.leadingColon = true ∨ space ≠ site.categoryNamespace ∧ space ∉ site.imageNamespaces) := by
  unfold LeadsToPage parseTarget
  simp only [hp, hs]
  split
  · simp [*]
  · split
    · rename_i hfind
      have hmem := List.mem_of_find?_eq_some hfind
      have hc := List.find?_some hfind
      grind
    · rename_i hne hfind
      rw [List.find?_eq_none] at hfind
      cases hl : parts.leadingColon <;> simp_all [isCategory, isImage]

variable {page : List Char}

/-- Where the title of a page stands does not change with the blanks, if what stands in front of the
colon names the same namespace. -/
theorem splitNamespace_collapse (hsame : ∀ name title, Text.cutAt ':' page = some (name, title) →
    site.resolve? (Text.collapse name) = site.resolve? name) :
    site.splitNamespace (Text.collapse page) = (site.splitNamespace page).map id Text.collapse := by
  unfold splitNamespace
  rw [Text.cutAt_collapse rfl]
  cases hcut : Text.cutAt ':' page with
  | none => rfl
  | some p =>
    obtain ⟨name, title⟩ := p
    simp only [Option.map_some, Prod.map, hsame name title hcut, Text.trim_collapse,
      Text.collapse_eq_nil_iff]
    cases site.resolve? name with
    | none => rfl
    | some ns => dsimp only; split <;> rfl

end Site

namespace Target

variable {s : List Char}

/-- The page and the fragment of what stands behind a leading colon. -/
def cutFragment (colon : Bool) (rest : List Char) : Parts :=
  match Text.cutAt '#' rest with
  | some (page, fragment) => ⟨colon, page, some fragment⟩
  | none => ⟨colon, rest, none⟩

theorem split_of_colon {rest : List Char} (h : Text.trim s = ':' :: rest) :
    split s = cutFragment true (Text.trimStart rest) := by
  simp only [split, h]
  rfl

theorem split_of_no_colon (h : (Text.trim s).head? ≠ some ':') :
    split s = cutFragment false (Text.trim s) := by
  cases ht : Text.trim s with
  | nil => rw [split, ht]; rfl
  | cons c r =>
    have hc : c ≠ ':' := fun hc => h (by rw [ht, hc]; rfl)
    simp only [split, ht, cutFragment]
    grind

def Parts.collapse (parts : Parts) : Parts :=
  ⟨parts.leadingColon, Text.collapse parts.page, parts.fragment.map Text.collapse⟩

theorem cutFragment_collapse (colon : Bool) (rest : List Char) :
    cutFragment colon (Text.collapse rest) = (cutFragment colon rest).collapse := by
  unfold cutFragment
  rw [Text.cutAt_collapse rfl]
  cases Text.cutAt '#' rest <;> rfl

theorem split_squeeze (s : List Char) : split (Text.squeeze s) = (split s).collapse := by
  have htrim : Text.trim (Text.squeeze s) = Text.collapse (Text.trim s) := by
    rw [Text.trim_squeeze, Text.squeeze_eq_collapse]
  cases ht : Text.trim s with
  | nil =>
    rw [ht] at htrim
    rw [split_of_no_colon (by simp [htrim, Text.collapse]), split_of_no_colon (by simp [ht]), htrim, ht,
      cutFragment_collapse]
  | cons c r =>
    have hc : Text.isBlank c = false :=
      Text.not_isBlank_of_head?_trimStart (Text.head?_of_head?_trimEnd (congrArg List.head? ht))
    rw [ht, Text.collapse_cons hc] at htrim
    by_cases hcolon : c = ':'
    · subst hcolon
      rw [split_of_colon htrim, split_of_colon ht, Text.trimStart_collapse, cutFragment_collapse]
    · rw [split_of_no_colon (by simp [htrim, hcolon]), split_of_no_colon (by simp [ht, hcolon]), htrim, ht,
        ← Text.collapse_cons hc, cutFragment_collapse]

end Target

/-- A target that leads to a page does so with single blanks as well, unless these make a name of what
stands in front of its colon. -/
theorem Site.LeadsToPage.squeeze {site : Site} {target : String} (h : site.LeadsToPage target)
    (hsame : ∀ name title, Text.cutAt ':' (Target.split target.toList).page = some (name, title) →
      site.resolve? (Text.collapse name) = site.resolve? name) :
    site.LeadsToPage (Text.onChars Text.squeeze target) := by
  obtain ⟨space, page, hpage⟩ : ∃ space page,
      site.splitNamespace (Target.split target.toList).page = (space, page) := ⟨_, _, rfl⟩
  have hsplit : Target.split (Text.onChars Text.squeeze target).toList =
      (Target.split target.toList).collapse := by
    rw [Text.toList_onChars, Target.split_squeeze]
  have hcollapse := splitNamespace_collapse hsame
  rw [hpage] at hcollapse
  obtain ⟨hempty, hlegal, hspace⟩ := (leadsToPage_iff rfl hpage).1 h
  rw [leadsToPage_iff hsplit hcollapse]
  refine ⟨?_, fun c hc => ?_, hspace⟩
  · rwa [normalTitle_collapse_eq_nil_iff, Target.Parts.collapse, Option.map_eq_none_iff]
  · rcases mem_normalTitle_collapse hc with rfl | hc
    · decide
    · exact hlegal c hc

namespace Text

def blankCodes : List Nat :=
  [0x9, 0xA, 0xB, 0xC, 0xD, 0x20, 0x85, 0xA0, 0x1680, 0x2000, 0x2001, 0x2002, 0x2003, 0x2004, 0x2005,
    0x2006, 0x2007, 0x2008, 0x2009, 0x200A, 0x2028, 0x2029, 0x202F, 0x205F, 0x3000]

variable {s : List Char} {c : Char}

theorem mem_blankCodes (hc : isBlank c = true) : c.toNat ∈ blankCodes := by
  simp only [isBlank, Bool.or_eq_true, Bool.and_eq_true, decide_eq_true_eq, beq_iff_eq] at hc
  simp only [blankCodes, List.mem_cons, List.not_mem_nil]
  omega

theorem lower_of_isBlank (hc : isBlank c = true) : lower c = [c] := by
  have hall : ∀ n ∈ blankCodes, lower (Char.ofNat n) = [Char.ofNat n] := by decide +kernel
  simpa using hall _ (mem_blankCodes hc)

theorem mem_lowercase (h : c ∈ s) (hc : isBlank c = true) : c ∈ lowercase s := by
  have hsigma : c ≠ 'Σ' := by
    rintro rfl
    exact absurd hc (by decide)
  have main (before : List Char) : c ∈ lowercaseAfter before s := by
    induction s generalizing before with
    | nil => cases h
    | cons d s ih =>
      rw [lowercaseAfter, List.mem_append]
      rcases List.mem_cons.1 h with rfl | h
      · rw [if_neg hsigma, lower_of_isBlank hc]
        exact .inl (List.mem_singleton_self _)
      · exact .inr (ih h _)
  exact main []

theorem collapse_of_no_blank (h : ∀ c ∈ s, isBlank c = false) : collapse s = s := by
  induction s with
  | nil => rfl
  | cons c s ih =>
    rw [List.forall_mem_cons] at h
    rw [collapse_cons h.1, ih h.2]

end Text

/-- The names of namespaces, and those that they go by as well, are single words. -/
def Site.NamesAreWords (site : Site) : Prop :=
  ∀ ns ∈ site.namespaces, ∀ name ∈ ns.name :: ns.aliases, ∀ c ∈ Namespace.fold name.toList,
    Text.isBlank c = false

theorem Site.namesAreWords_default : Site.default.NamesAreWords := by
  have hall : (default.namespaces.all fun ns => (ns.name :: ns.aliases).all fun name =>
      (Namespace.fold name.toList).all fun c => !Text.isBlank c) = true := by decide +kernel
  simpa [NamesAreWords] using hall

/-- Single blanks make no other word of a title. -/
theorem normalTitle_collapse_eq_iff {s w : List Char} (hw : ∀ c ∈ w, Text.isBlank c = false) :
    normalTitle (Text.collapse s) = w ↔ normalTitle s = w := by
  have trimmed (t : List Char) : Text.squeeze (normalTitle t) = Text.collapse (normalTitle t) := by
    rw [Text.squeeze_eq_collapse, normalTitle_eq, Text.trim_trim]
  have hcollapse : Text.collapse (normalTitle (Text.collapse s)) = Text.collapse (normalTitle s) := by
    have hwords (t : List Char) : Text.words (normalTitle t) = Text.words (t.map readUnderscore) := by
      have h := Text.words_map_trim (f := id) (fun _ hc => hc) (t.map readUnderscore)
      rwa [List.map_id, List.map_id] at h
    rw [← trimmed, ← trimmed, Text.squeeze, Text.squeeze, hwords, hwords, words_map_collapse]
  have main {t u : List Char} (h : Text.collapse t = Text.collapse u) (hu : u = w) : t = w := by
    rw [hu, Text.collapse_of_no_blank hw] at h
    rw [← h, Text.collapse_eq_self (by rwa [h])]
  exact ⟨main hcollapse.symm, main hcollapse⟩

theorem Site.NamesAreWords.resolve?_collapse {site : Site} (h : site.NamesAreWords) (s : List Char) :
    site.resolve? (Text.collapse s) = site.resolve? s := by
  have hno {name : List Char} {t : List Char} (hn : ∀ c ∈ Namespace.fold name, Text.isBlank c = false)
      (ht : Namespace.fold name = Namespace.fold t) : ∀ c ∈ normalTitle t, Text.isBlank c = false := by
    intro c hc
    by_contra hb
    rw [Bool.not_eq_false] at hb
    cases (hn c (ht ▸ Text.mem_lowercase hc hb)).symm.trans hb
  refine List.find?_congr fun ns hns => ?_
  rw [Bool.eq_iff_iff, Namespace.matches, Namespace.matches, List.any_eq_true, List.any_eq_true]
  refine exists_congr fun name => and_congr_right fun hname => ?_
  have hname := h ns hns name hname
  rw [beq_iff_eq, beq_iff_eq]
  constructor
  · intro heq
    rw [heq, Namespace.fold, Namespace.fold, (normalTitle_collapse_eq_iff (hno hname heq)).1 rfl]
  · intro heq
    rw [heq, Namespace.fold, Namespace.fold, (normalTitle_collapse_eq_iff (hno hname heq)).2 rfl]

namespace Site

variable {site : Site}

/-- A target that leads to a page, or did so before it was stored with single blanks. These have changed
the namespace that what stands in front of its colon names, if it names one. -/
def LedToPage (site : Site) (target : String) : Prop :=
  site.LeadsToPage target ∨ ∃ old name title, site.LeadsToPage old ∧
    target = Normalization.words.apply old ∧
    Text.cutAt ':' (Target.split old.toList).page = some (name, title) ∧
    site.resolve? (Text.collapse name) ≠ site.resolve? name

/-- What is checked leads to a page, and what is stored did so. -/
theorem vouches_ledToPage (site : Site) : site.Vouches site.LedToPage where
  checked h := .inl (leadsToPage_of_checkLinkTarget h).2
  stored {s t} h := by
    obtain ⟨-, hleads⟩ := leadsToPage_of_checkLinkTarget h
    have hvalid := Verifier.isTarget_of_checkLinkTarget h
    rw [Valid.isTarget, Bool.and_eq_true, List.all_eq_true] at hvalid
    have happly : Normalization.words.apply t = Text.onChars Text.squeeze t := by
      rw [Normalization.apply, Text.onChars, Text.onChars, Normalization.spaces_eq_self]
      intro c hc
      refine ⟨?_, ?_, ?_⟩ <;> rintro rfl <;> exact Bool.false_ne_true (hvalid.2 _ hc)
    by_cases hsame : ∀ name title, Text.cutAt ':' (Target.split t.toList).page = some (name, title) →
        site.resolve? (Text.collapse name) = site.resolve? name
    · exact .inl (happly ▸ hleads.squeeze hsame)
    · push Not at hsame
      obtain ⟨name, title, hcut, hne⟩ := hsame
      exact .inr ⟨t, name, title, hleads, rfl, hcut, hne⟩

theorem NamesAreWords.leadsToPage (h : site.NamesAreWords) {target : String}
    (ht : site.LedToPage target) : site.LeadsToPage target := by
  rcases ht with ht | ⟨_, name, _, -, -, -, hne⟩
  · exact ht
  · exact absurd (h.resolve?_collapse name) hne

end Site

namespace Page

variable {site : Site} {p : Page}

/-- The links that are elements are written as links, with targets of some kind. -/
def LinkTargets (p : Page) (good : String → Prop) : Prop :=
  ∀ x e, p.find? x = some e → e.kind = .link →
    ∃ n t, e.backing = some (.markup n) ∧ p.arena.target? n = some t ∧ good t

theorem Synced.linkTargets {good : String → Prop} (h : p.Synced)
    (hp : ∀ {x n t}, p.form? x = some (.link, some (.markup n)) → p.arena.target? n = some t → good t) :
    p.LinkTargets good := by
  intro x e he hk
  have hf : p.form? x = some (.link, e.backing) := hk ▸ form?_of_find? he
  obtain ⟨n, t, title, g, hb, hn⟩ := h.exists_link hf
  have ht := Arena.target?_of_find? hn rfl
  exact ⟨n, t, hb, ht, hp (hb ▸ hf) ht⟩

theorem Reached.linkTargets_ledToPage [Entities] (h : p.Reached site) : p.LinkTargets site.LedToPage := by
  obtain ⟨p₀, hbegins, hlasts⟩ := h.exists_begins
  obtain ⟨a, title, drafts, hd, hdrafts⟩ := hbegins.exists_drafted
  have hl := (hdrafts _).trans (hlasts _ site.vouches_ledToPage)
  exact h.orderly.recorded.toSynced.linkTargets fun hf ht => hl.targets
    (fun hf ht => .inl (Site.leadsToPage_of_linkUse (linkUse_ofDrafts hd hf ht))) hf ht

/-- Every link that is an element leads to a page, or did so before its target was stored with single
blanks. If the names of namespaces are single words, it leads to one. -/
theorem linkTargets_reached [Entities] (h : p.Reached site) :
    p.LinkTargets site.LedToPage ∧ (site.NamesAreWords → p.LinkTargets site.LeadsToPage) :=
  ⟨h.linkTargets_ledToPage, fun hs x e he hk => by
    obtain ⟨n, t, hb, ht, hled⟩ := h.linkTargets_ledToPage x e he hk
    exact ⟨n, t, hb, ht, hs.leadsToPage hled⟩⟩

/-- A site whose categories are in a namespace with two words for a name. -/
def spacedSite : Site where
  categoryNamespace := 14
  imageNamespaces := [6]
  namespaces := [{ id := 0, name := "" }, { id := 14, name := "My Cat" }]

/-- A page on which a link has got a target with two spaces in front of its colon. -/
def spacedLink : Page :=
  Act.run [.createLink "A", .setAttribute ⟨2⟩ "target" "My  Cat:Foo"]
    (ofDrafts .new spacedSite "Test" [])

theorem reached_spacedLink : spacedLink.Reached spacedSite := by
  have h : new spacedSite "Test" = .ok (ofDrafts .new spacedSite "Test" []) := rfl
  exact .run (.new h) rfl

theorem linkTargets_reached_spacedLink :
    spacedLink.Reached spacedSite ∧ spacedLink.LinkTargets spacedSite.LedToPage :=
  ⟨reached_spacedLink, (linkTargets_reached reached_spacedLink).1⟩

/-- The target is no category as it is checked, and one as it is stored. -/
theorem not_linkTargets_spacedLink :
    spacedLink.Reached spacedSite ∧ ¬spacedLink.LinkTargets spacedSite.LeadsToPage := by
  refine ⟨reached_spacedLink, fun h => ?_⟩
  have hbacking : (spacedLink.find? ⟨2⟩).map (fun e => (e.kind, e.backing)) =
      some (.link, some (.markup ⟨3⟩)) := by decide +kernel
  have htarget : spacedLink.arena.target? ⟨3⟩ = some "My Cat:Foo" := by decide +kernel
  have hparse : spacedSite.parseTarget "My Cat:Foo" = .ok ⟨14, "Foo", none, false⟩ := by
    decide +kernel
  obtain ⟨e, he, hk⟩ := Option.map_eq_some_iff.1 hbacking
  obtain ⟨hkind, hb⟩ := Prod.mk.inj hk
  obtain ⟨n, t, hb', ht, target, hok, hcat, -⟩ := h _ e he hkind
  obtain rfl := Backing.markup.inj (Option.some.inj (hb'.symm.trans hb))
  obtain rfl := Option.some.inj (ht.symm.trans htarget)
  obtain rfl := Except.ok.inj (hok.symm.trans hparse)
  cases hcat

end Page
end WikiPage
