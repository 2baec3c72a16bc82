import WikiPage.Proofs.Targets

/-!
# Variants of a target

A target can be written in many ways: with any name of its namespace, in any case, with underscores for
spaces and with blanks around its parts. All of them are read as one target, and so is the one way of
writing it that has the first name of the namespace. Underscores are spaces in front of the fragment, as
long as they are not all that stands in front of the first colon.
-/

namespace WikiPage

namespace Text

variable {s t blanks : List Char} {c : Char}

theorem trimStart_blanks_append (hb : ∀ c ∈ blanks, isBlank c = true) (s : List Char) :
    trimStart (blanks ++ s) = trimStart s := by
  rw [trimStart, List.dropWhile_append_of_pos hb, trimStart]

theorem trimStart_trimEnd (s : List Char) : trimStart (trimEnd s) = trim s := by
  induction s with
  | nil => rfl
  | cons c s ih =>
    rw [trimEnd_cons, trim, trimStart_cons]
    by_cases hc : isBlank c = true
    · rw [if_pos hc, ← trim, ← ih]
      split
      · rename_i hs
        rw [hs.2]
      · rw [trimStart_cons, if_pos hc]
    · rw [if_neg hc, if_neg fun h => hc h.1, trimStart_cons, if_neg hc, trimEnd_cons, if_neg fun h => hc h.1]

theorem cutAt_append_of_not_mem (h : c ∉ s) (t : List Char) :
    cutAt c (s ++ t) = (cutAt c t).map fun p => (s ++ p.1, p.2) := by
  induction s with
  | nil => simp
  | cons d s ih =>
    rw [List.mem_cons, not_or] at h
    rw [List.cons_append, cutAt, if_neg (Ne.symm h.1), ih h.2, Option.map_map]
    rfl

end Text

open Text (trim trimStart trimEnd cutAt)

section

variable {s t : List Char}

theorem normalTitle_trimEnd (s : List Char) : normalTitle (trimEnd s) = normalTitle s := by
  have h : trimEnd ((trimEnd s).map readUnderscore) = trimEnd (s.map readUnderscore) := by
    induction s using List.reverseRecOn with
    | nil => rfl
    | append_singleton s c ih =>
      rw [Text.trimEnd_concat]
      split
      · rw [ih, List.map_append, List.map_singleton, Text.trimEnd_concat,
          if_pos (readUnderscore_of_isBlank ‹_›)]
      · rfl
  rw [normalTitle_eq, normalTitle_eq, ← Text.trimStart_trimEnd, ← Text.trimStart_trimEnd, h]

theorem normalTitle_trim (s : List Char) : normalTitle (trim s) = normalTitle s := by
  rw [trim, normalTitle_trimEnd, normalTitle_trimStart]

theorem normalTitle_map (s : List Char) : normalTitle (s.map readUnderscore) = normalTitle s := by
  rw [normalTitle_eq, normalTitle_eq, List.map_map]
  exact congrArg trim (List.map_congr_left fun c _ => readUnderscore_readUnderscore c)

theorem not_mem_map_readUnderscore {c : Char} (hc : c ≠ ' ') (h : c ∉ s) : c ∉ s.map readUnderscore := by
  intro hm
  obtain ⟨d, hd, hread⟩ := List.mem_map.1 hm
  unfold readUnderscore at hread
  split at hread
  · exact hc hread.symm
  · exact h (hread ▸ hd)

theorem normalTitle_append_cons {c : Char} (hc : Text.isBlank c = false) (hu : c ≠ '_') (s t : List Char) :
    normalTitle (s ++ c :: t) = trimStart (s.map readUnderscore) ++ c :: trimEnd (t.map readUnderscore) := by
  have hread : readUnderscore c = c := if_neg hu
  have hstart : trimStart (s.map readUnderscore ++ c :: t.map readUnderscore) =
      trimStart (s.map readUnderscore) ++ c :: t.map readUnderscore := by
    generalize s.map readUnderscore = r
    induction r with
    | nil => simp [Text.trimStart_cons, hc]
    | cons d r ih =>
      rw [List.cons_append, Text.trimStart_cons, Text.trimStart_cons, ih]
      split <;> rfl
  rw [normalTitle_eq, List.map_append, List.map_cons, hread, trim, hstart, Text.trimEnd_append_cons _ _ hc]

end

namespace Site

variable {site : Site} {name page : List Char}

theorem resolve?_congr {other : List Char} (h : normalTitle name = normalTitle other) :
    site.resolve? name = site.resolve? other := by
  simp only [resolve?, Namespace.matches, Namespace.fold, h]

/-- The namespace and the title of a page are those of its normal spelling, if underscores are not all that
stands in front of its colon. -/
theorem splitNamespace_normalTitle (h : ∀ name title, cutAt ':' page = some (name, title) →
    normalTitle name = [] → trim name = []) :
    (site.splitNamespace (normalTitle page)).1 = (site.splitNamespace page).1 ∧
      normalTitle (site.splitNamespace (normalTitle page)).2 = normalTitle (site.splitNamespace page).2 := by
  cases hcut : cutAt ':' page with
  | none =>
    have hcolon : ':' ∉ page := Text.not_mem_of_cutAt_eq_none hcut
    have hnormal : ':' ∉ normalTitle page := fun hm =>
      not_mem_map_readUnderscore (by decide) hcolon (Text.trim_subset _ hm)
    simp only [splitNamespace, hcut, Text.cutAt_of_not_mem hnormal]
    exact ⟨trivial, normalTitle_normalTitle page⟩
  | some p =>
    obtain ⟨name, title⟩ := p
    have hpage : normalTitle page =
        trimStart (name.map readUnderscore) ++ ':' :: trimEnd (title.map readUnderscore) := by
      rw [Text.eq_append_of_cutAt hcut, normalTitle_append_cons rfl (by decide)]
    have hname : ':' ∉ trimStart (name.map readUnderscore) := fun hm =>
      not_mem_map_readUnderscore (by decide) (Text.not_mem_of_cutAt hcut) (Text.trimStart_subset _ hm)
    have hcut' : cutAt ':' (normalTitle page) =
        some (trimStart (name.map readUnderscore), trimEnd (title.map readUnderscore)) := by
      rw [hpage, Text.cutAt_append_cons hname]
    have hresolve : site.resolve? (trimStart (name.map readUnderscore)) = site.resolve? name :=
      resolve?_congr (by rw [normalTitle_trimStart, normalTitle_map])
    -- behind the underscores a name is blank exactly if it is blank as it stands
    have hblank : trim (trimStart (name.map readUnderscore)) = [] ↔ trim name = [] := by
      have htrim : trim (trimStart (name.map readUnderscore)) = normalTitle name := by
        rw [trim, trimStart, trimStart, List.dropWhile_idempotent, normalTitle_eq, trim, trimStart]
      rw [htrim]
      refine ⟨h name title hcut, fun hn => ?_⟩
      rw [← normalTitle_trim, hn]
      rfl
    have htitle : normalTitle (trimEnd (title.map readUnderscore)) = normalTitle title := by
      rw [normalTitle_trimEnd, normalTitle_map]
    simp only [splitNamespace, hcut, hcut', hresolve, hblank]
    cases site.resolve? name with
    | none => exact ⟨rfl, normalTitle_normalTitle page⟩
    | some ns =>
      dsimp only
      split
      · exact ⟨rfl, normalTitle_normalTitle page⟩
      · exact ⟨rfl, htitle⟩

end Site

namespace Target

variable {s page rest : List Char} {colon : Bool}

/-- Nothing but blanks and underscores stands in front of the first colon of a page, and not blanks
alone. -/
def HidesColon (target : String) : Prop :=
  ∃ name title, cutAt ':' (split target.toList).page = some (name, title) ∧ normalTitle name = [] ∧
    trim name ≠ []

/-- A target with spaces for underscores. -/
def spaced (target : String) : String :=
  Text.onChars (List.map readUnderscore) target

/-- A fragment with spaces for underscores, and with none at its end. -/
def spacedFragment (fragment : List Char) : List Char :=
  trimEnd (fragment.map readUnderscore)

theorem trim_map_readUnderscore (s : List Char) : trim (s.map readUnderscore) = normalTitle (trim s) := by
  rw [normalTitle_trim, normalTitle_eq]

theorem cutFragment_normalTitle (colon : Bool) (rest : List Char) :
    normalTitle (cutFragment colon (normalTitle rest)).page = normalTitle (cutFragment colon rest).page ∧
      (cutFragment colon (normalTitle rest)).fragment = (cutFragment colon rest).fragment.map spacedFragment := by
  cases hcut : cutAt '#' rest with
  | none =>
    have hhash := hash_not_mem_normalTitle (Text.not_mem_of_cutAt_eq_none hcut)
    simp only [cutFragment, hcut, Text.cutAt_of_not_mem hhash]
    exact ⟨normalTitle_normalTitle rest, rfl⟩
  | some p =>
    obtain ⟨page, fragment⟩ := p
    have hpage : '#' ∉ trimStart (page.map readUnderscore) := fun hm =>
      not_mem_map_readUnderscore (by decide) (Text.not_mem_of_cutAt hcut) (Text.trimStart_subset _ hm)
    have hcut' : cutAt '#' (normalTitle rest) =
        some (trimStart (page.map readUnderscore), spacedFragment fragment) := by
      rw [Text.eq_append_of_cutAt hcut, normalTitle_append_cons rfl (by decide), Text.cutAt_append_cons hpage]
      rfl
    simp only [cutFragment, hcut, hcut']
    exact ⟨by rw [normalTitle_trimStart, normalTitle_map], rfl⟩

theorem exists_of_head?_normalTitle {c : Char} (h : (normalTitle s).head? = some c) (hc : c ≠ ' ') :
    ∃ front back, s = front ++ c :: back ∧ ∀ d ∈ front, Text.isBlank (readUnderscore d) = true := by
  replace h : (trimStart (s.map readUnderscore)).head? = some c := Text.head?_of_head?_trimEnd h
  induction s with
  | nil => cases h
  | cons d s ih =>
    rw [List.map_cons, Text.trimStart_cons] at h
    split at h
    · obtain ⟨front, back, rfl, hfront⟩ := ih h
      exact ⟨d :: front, back, rfl, List.forall_mem_cons.2 ⟨‹_›, hfront⟩⟩
    · obtain rfl := Option.some.inj h
      by_cases hd : d = '_'
      · exact absurd (if_pos hd) hc
      · exact ⟨[], s, by rw [show readUnderscore d = d from if_neg hd]; rfl, nofun⟩

/-- No colon comes to the front of a target with the spaces, unless underscores hide it. -/
theorem head?_normalTitle_trim {target : String} (h : ¬HidesColon target)
    (hcolon : (trim target.toList).head? ≠ some ':') : (normalTitle (trim target.toList)).head? ≠ some ':' := by
  intro hhead
  obtain ⟨front, back, hs, hfront⟩ := exists_of_head?_normalTitle hhead (by decide)
  have hnot {c : Char} (hc : Text.isBlank (readUnderscore c) = false) : c ∉ front := fun hm => by
    cases hc.symm.trans (hfront c hm)
  have hpage : ∃ rest, (split target.toList).page = front ++ ':' :: rest := by
    have hhash : '#' ∉ front ++ [':'] := by
      simpa using hnot rfl
    rw [split_of_no_colon hcolon, hs, cutFragment, List.append_cons, Text.cutAt_append_of_not_mem hhash]
    cases cutAt '#' back <;> simp
  obtain ⟨rest, hpage⟩ := hpage
  refine h ⟨front, rest, by rw [hpage, Text.cutAt_append_cons (hnot rfl)], ?_, fun hfr => ?_⟩
  · rw [normalTitle_eq, trim, trimStart, List.dropWhile_eq_nil_iff.2 (by simpa using hfront)]
    rfl
  · cases front with
    | nil => exact hcolon (by rw [hs]; rfl)
    | cons d front =>
      have hd : Text.isBlank d = false := by
        refine Text.not_isBlank_of_head?_trimStart (s := target.toList) (Text.head?_of_head?_trimEnd ?_)
        exact congrArg List.head? hs
      rw [trim, Text.trimStart_cons, hd, if_neg (by decide), Text.trimEnd_cons, if_neg (by simp [hd])] at hfr
      cases hfr

theorem split_spaced {target : String} (h : ¬HidesColon target) :
    (split (spaced target).toList).leadingColon = (split target.toList).leadingColon ∧
      normalTitle (split (spaced target).toList).page = normalTitle (split target.toList).page ∧
      (split (spaced target).toList).fragment = (split target.toList).fragment.map spacedFragment := by
  obtain ⟨colon, rest, hs, hspaced⟩ : ∃ colon rest, split target.toList = cutFragment colon rest ∧
      split (spaced target).toList = cutFragment colon (normalTitle rest) := by
    rw [spaced, Text.toList_onChars]
    by_cases hcolon : ∃ rest, trim target.toList = ':' :: rest
    · obtain ⟨rest, ht⟩ := hcolon
      have ht' : trim (target.toList.map readUnderscore) = ':' :: trimEnd (rest.map readUnderscore) := by
        rw [trim_map_readUnderscore, ht]
        exact normalTitle_append_cons rfl (by decide) [] rest
      refine ⟨true, trimStart rest, split_of_colon ht, ?_⟩
      rw [split_of_colon ht', Text.trimStart_trimEnd, normalTitle_trimStart, normalTitle_eq]
    · have hhead : (trim target.toList).head? ≠ some ':' := by
        rw [Ne, List.head?_eq_some_iff]
        exact hcolon
      refine ⟨false, trim target.toList, split_of_no_colon hhead, ?_⟩
      have hhead' := head?_normalTitle_trim h hhead
      rw [← trim_map_readUnderscore] at hhead' ⊢
      exact split_of_no_colon hhead'
  obtain ⟨hpage, hfragment⟩ := cutFragment_normalTitle colon rest
  have hlead (rest : List Char) : (cutFragment colon rest).leadingColon = colon := by
    unfold cutFragment
    split <;> rfl
  rw [hs, hspaced, hlead, hlead]
  exact ⟨rfl, hpage, hfragment⟩

theorem page_subset (s : List Char) : (split s).page ⊆ s := by
  have hcut (colon : Bool) {rest : List Char} (hr : rest ⊆ s) : (cutFragment colon rest).page ⊆ s := by
    unfold cutFragment
    split
    · rename_i hcut
      intro c hc
      exact hr (Text.eq_append_of_cutAt hcut ▸ List.mem_append_left _ hc)
    · exact hr
  by_cases hcolon : ∃ rest, trim s = ':' :: rest
  · obtain ⟨rest, ht⟩ := hcolon
    rw [split_of_colon ht]
    refine hcut true fun c hc => Text.trim_subset s ?_
    exact ht ▸ List.mem_cons_of_mem _ (Text.trimStart_subset _ hc)
  · rw [split_of_no_colon (by rwa [Ne, List.head?_eq_some_iff])]
    exact hcut false (Text.trim_subset s)

theorem not_hidesColon_spaced (target : String) : ¬HidesColon (spaced target) := by
  rintro ⟨name, title, hcut, hnormal, hne⟩
  have hname : '_' ∉ name := by
    intro hm
    have hpage : '_' ∈ (spaced target).toList :=
      page_subset _ (Text.eq_append_of_cutAt hcut ▸ List.mem_append_left _ hm)
    rw [spaced, Text.toList_onChars] at hpage
    obtain ⟨c, -, hread⟩ := List.mem_map.1 hpage
    unfold readUnderscore at hread
    split at hread
    · cases hread
    · exact ‹¬c = '_'› hread
  rw [normalTitle_eq, map_readUnderscore_eq_self hname] at hnormal
  exact hne hnormal

theorem not_hidesColon_iff {target : String} : ¬HidesColon target ↔ ∀ name title,
    cutAt ':' (split target.toList).page = some (name, title) → normalTitle name = [] → trim name = [] := by
  simp only [HidesColon, not_exists, not_and, not_not]

/-- The error of another target. -/
def Error.about (target : String) : Error → Error
  | emptyTitle _ => emptyTitle target
  | illegalCharacter _ c => illegalCharacter target c

end Target

namespace Site

open Target (HidesColon spaced spacedFragment)

variable {site : Site} {target : String}

/-- The namespace and the title of a target with spaces are those of the target. -/
theorem splitNamespace_spaced (h : ¬HidesColon target) :
    (site.splitNamespace (Target.split (spaced target).toList).page).1 =
        (site.splitNamespace (Target.split target.toList).page).1 ∧
      normalTitle (site.splitNamespace (Target.split (spaced target).toList).page).2 =
        normalTitle (site.splitNamespace (Target.split target.toList).page).2 := by
  obtain ⟨-, hpage, -⟩ := Target.split_spaced h
  have hs := site.splitNamespace_normalTitle (Target.not_hidesColon_iff.1 h)
  have hspaced := site.splitNamespace_normalTitle
    (Target.not_hidesColon_iff.1 (Target.not_hidesColon_spaced target))
  rw [hpage] at hspaced
  exact ⟨hspaced.1.symm.trans hs.1, hspaced.2.symm.trans hs.2⟩

/-- A target is read as it would be with spaces for its underscores, but for its fragment and where
underscores hide its first colon. -/
theorem parseTarget_spaced (site : Site) (h : ¬HidesColon target) :
    site.parseTarget (spaced target) =
      ((site.parseTarget target).map fun t =>
        { t with fragment := t.fragment.map (Text.onChars spacedFragment) }).mapError (.about (spaced target)) := by
  obtain ⟨hcolon, -, hfragment⟩ := Target.split_spaced h
  obtain ⟨hspace, htitle⟩ := site.splitNamespace_spaced h
  have hnone : (Target.split (spaced target).toList).fragment = none ↔
      (Target.split target.toList).fragment = none := by rw [hfragment, Option.map_eq_none_iff]
  simp only [parseTarget, hspace, htitle, hcolon, hnone]
  split
  · rfl
  · split
    · rfl
    · rw [hfragment]
      simp [Except.map, Except.mapError, Function.comp_def, Text.onChars]

theorem parseTarget_spaced_category : ¬HidesColon ":_category_:_A_b_#c_d_" ∧
    Site.default.parseTarget (spaced ":_category_:_A_b_#c_d_") = .ok ⟨14, "A b", some "c d", true⟩ := by
  have hcut : cutAt ':' (Target.split ":_category_:_A_b_#c_d_".toList).page =
      some ("_category_".toList, "_A_b_".toList) := by decide +kernel
  have h : ¬HidesColon ":_category_:_A_b_#c_d_" := by
    rintro ⟨name, title, hname, hnormal, -⟩
    obtain ⟨rfl, -⟩ := Prod.mk.inj (Option.some.inj (hcut.symm.trans hname))
    exact absurd hnormal (by decide +kernel)
  exact ⟨h, (Site.default.parseTarget_spaced h).trans (by decide +kernel)⟩

/-- Both targets are refused, for one kind of reason, or they are read alike but for underscores in their
fragments. -/
def ReadsAlike (site : Site) (target other : String) : Prop :=
  match site.parseTarget target, site.parseTarget other with
  | .ok t, .ok u => t.namespaceId = u.namespaceId ∧ t.title = u.title ∧ t.leadingColon = u.leadingColon ∧
    t.fragment.map spaced = u.fragment.map spaced
  | .error (.emptyTitle _), .error (.emptyTitle _) => True
  | .error (.illegalCharacter _ _), .error (.illegalCharacter _ _) => True
  | _, _ => False

/-- A blank at the end of a fragment is trimmed and an underscore is not, and an underscore hides a leading
colon. -/
theorem not_readsAlike_spaced : ¬Site.default.ReadsAlike "Foo#a_" (spaced "Foo#a_") ∧
    ¬Site.default.ReadsAlike "_:Foo" (spaced "_:Foo") := by
  have hfragment : Site.default.parseTarget "Foo#a_" = .ok ⟨0, "Foo", some "a_", false⟩ := by decide +kernel
  have hfragment' : Site.default.parseTarget (spaced "Foo#a_") = .ok ⟨0, "Foo", some "a", false⟩ := by
    decide +kernel
  have hcolon : Site.default.parseTarget "_:Foo" = .ok ⟨0, "Foo", none, false⟩ := by decide +kernel
  have hcolon' : Site.default.parseTarget (spaced "_:Foo") = .ok ⟨0, "Foo", none, true⟩ := by decide +kernel
  refine ⟨fun h => ?_, fun h => ?_⟩
  · rw [ReadsAlike, hfragment, hfragment'] at h
    exact absurd h.2.2.2 (by decide +kernel)
  · rw [ReadsAlike, hcolon, hcolon'] at h
    exact absurd h.2.2.1 (by decide)

end Site

namespace Target

/-- A way to write a target with a namespace, and perhaps with a colon in front that has blanks behind
it. -/
structure Writing where
  front : List Char
  colon : Option (List Char)
  name : List Char
  title : List Char
  fragment : Option (List Char)
  back : List Char

namespace Writing

def lead (w : Writing) : List Char :=
  w.colon.elim [] (':' :: ·)

def behind (w : Writing) : List Char :=
  w.title ++ w.fragment.elim [] ('#' :: ·) ++ w.back

def text (w : Writing) : String :=
  String.ofList (w.front ++ w.lead ++ w.name ++ ':' :: w.behind)

end Writing

/-- The targets that are read: their titles are normal and legal, and no blanks end their fragments. -/
structure IsRead (t : Target) : Prop where
  nonempty : ¬(t.title.toList = [] ∧ t.fragment = none)
  normal : normalTitle t.title.toList = t.title.toList
  plain : '#' ∉ t.title.toList
  legal : ∀ c ∈ t.title.toList, isIllegal c = false
  ends : ∀ f ∈ t.fragment, trimEnd f.toList = f.toList

theorem trimEnd_trimStart (h : trimEnd s = s) : trimEnd (trimStart s) = trimStart s := by
  conv_rhs => rw [← h, Text.trimStart_trimEnd]
  rfl

theorem trimEnd_of_append_cons {c : Char} {t : List Char} (hc : Text.isBlank c = false)
    (h : trimEnd (s ++ c :: t) = s ++ c :: t) : trimEnd t = t := by
  rw [Text.trimEnd_append_cons s t hc] at h
  exact (List.cons.inj (List.append_cancel_left h)).2

theorem trimEnd_fragment {fragment : List Char} (h : (split s).fragment = some fragment) :
    trimEnd fragment = fragment := by
  have hcut {colon : Bool} {rest : List Char} (hr : trimEnd rest = rest)
      (h : (cutFragment colon rest).fragment = some fragment) : trimEnd fragment = fragment := by
    unfold cutFragment at h
    split at h
    · rename_i hcut
      obtain rfl := Option.some.inj h
      exact trimEnd_of_append_cons rfl (Text.eq_append_of_cutAt hcut ▸ hr)
    · cases h
  have htrim := Text.trimEnd_trim s
  by_cases hcolon : ∃ rest, trim s = ':' :: rest
  · obtain ⟨rest, ht⟩ := hcolon
    rw [split_of_colon ht] at h
    rw [ht] at htrim
    exact hcut (trimEnd_trimStart (trimEnd_of_append_cons (s := []) rfl htrim)) h
  · rw [split_of_no_colon (by rwa [Ne, List.head?_eq_some_iff])] at h
    exact hcut htrim h

end Target

namespace Site

open Target (Writing)

variable {site : Site} {target : String} {t : Target}

theorem splitNamespace_subset (site : Site) (page : List Char) : (site.splitNamespace page).2 ⊆ page := by
  unfold splitNamespace
  split
  · exact List.Subset.refl _
  · rename_i hcut
    split
    · split
      · exact List.Subset.refl _
      · exact fun c hc => Text.eq_append_of_cutAt hcut ▸ List.mem_append_right _ (List.mem_cons_of_mem _ hc)
    · exact List.Subset.refl _

theorem isRead_of_parseTarget (h : site.parseTarget target = .ok t) : t.IsRead := by
  have hhash := hash_not_mem_normalTitle fun hm =>
    hash_not_mem_page target.toList (site.splitNamespace_subset _ hm)
  unfold parseTarget at h
  dsimp only at h
  split at h
  · cases h
  rename_i hne
  split at h
  · cases h
  rename_i hlegal
  obtain rfl := Except.ok.inj h
  rw [List.find?_eq_none] at hlegal
  refine ⟨?_, ?_, ?_, ?_, ?_⟩ <;> simp only [String.toList_ofList, Option.map_eq_none_iff]
  · exact hne
  · exact normalTitle_normalTitle _
  · exact hhash
  · simpa using hlegal
  · rintro f hf
    obtain ⟨fragment, hfragment, rfl⟩ := Option.map_eq_some_iff.1 hf
    rw [String.toList_ofList, Target.trimEnd_fragment hfragment]

/-- A name by which a target can refer to a namespace. -/
structure Refers (site : Site) (name : List Char) (id : Int) : Prop where
  nonblank : normalTitle name ≠ []
  colon : ':' ∉ name
  hash : '#' ∉ name
  resolves : (site.resolve? name).map Namespace.id = some id

/-- A target is written with a name of its namespace, and with its title and its fragment. -/
structure Writes (site : Site) (w : Writing) (t : Target) : Prop where
  refers : site.Refers w.name t.namespaceId
  colon : w.colon.isSome = t.leadingColon
  title : normalTitle w.title = t.title.toList
  plain : '#' ∉ w.title
  fragment : w.fragment.map String.ofList = t.fragment
  front : ∀ c ∈ w.front, Text.isBlank c = true
  behind : ∀ blanks ∈ w.colon, ∀ c ∈ blanks, Text.isBlank c = true
  back : ∀ c ∈ w.back, Text.isBlank c = true

variable {w : Writing}

namespace Refers

variable {name : List Char} {id : Int}

theorem trimStart_ne (h : site.Refers name id) : trimStart name ≠ [] := by
  intro hn
  apply h.nonblank
  rw [← normalTitle_trimStart, hn]
  rfl

theorem splitNamespace_eq (h : site.Refers name id) (title : List Char) :
    site.splitNamespace (trimStart name ++ ':' :: title) = (id, title) := by
  obtain ⟨ns, hns, rfl⟩ := Option.map_eq_some_iff.1 h.resolves
  have hcolon : ':' ∉ trimStart name := fun hm => h.colon (Text.trimStart_subset _ hm)
  have hblank : trim (trimStart name) ≠ [] := by
    intro hn
    apply h.nonblank
    rw [← normalTitle_trimStart, ← normalTitle_trim, hn]
    rfl
  rw [splitNamespace, Text.cutAt_append_cons hcolon]
  simp only [resolve?_trimStart, hns]
  rw [if_neg hblank]

end Refers

/-- Blanks in front of the name of a namespace, and behind a leading colon, are left out. -/
theorem Writes.split_eq (h : site.Writes w t) : Target.split w.text.toList =
    Target.cutFragment t.leadingColon (trimStart w.name ++ ':' :: trimEnd w.behind) := by
  have hname {blanks : List Char} (hb : ∀ c ∈ blanks, Text.isBlank c = true) (s : List Char) :
      trimStart (blanks ++ (w.name ++ s)) = trimStart w.name ++ s := by
    rw [Text.trimStart_blanks_append hb, Text.trimStart_append h.refers.trimStart_ne]
  rw [Writing.text, String.toList_ofList, List.append_assoc, List.append_assoc, Writing.lead]
  cases hc : w.colon with
  | none =>
    have htrim : trim (w.front ++ ([] ++ (w.name ++ ':' :: w.behind))) =
        trimStart w.name ++ ':' :: trimEnd w.behind := by
      rw [List.nil_append, trim, hname h.front, Text.trimEnd_append_cons _ _ rfl]
    have hhead : (trim (w.front ++ ([] ++ (w.name ++ ':' :: w.behind)))).head? ≠ some ':' := by
      rw [htrim]
      intro hhead
      obtain ⟨c, s, hcs⟩ := List.exists_cons_of_ne_nil h.refers.trimStart_ne
      rw [hcs] at hhead
      obtain rfl := Option.some.inj hhead
      exact h.refers.colon (Text.trimStart_subset _ (hcs ▸ List.mem_cons_self))
    rw [← h.colon, hc]
    exact (Target.split_of_no_colon hhead).trans (by rw [htrim]; rfl)
  | some blanks =>
    have htrim : trim (w.front ++ (':' :: blanks ++ (w.name ++ ':' :: w.behind))) =
        ':' :: (blanks ++ (w.name ++ ':' :: trimEnd w.behind)) := by
      rw [trim, Text.trimStart_blanks_append h.front]
      have happ : ':' :: blanks ++ (w.name ++ ':' :: w.behind) = (':' :: (blanks ++ w.name)) ++ ':' :: w.behind := by
        simp
      rw [happ, List.cons_append, Text.trimStart_cons, if_neg (by decide), ← List.cons_append,
        Text.trimEnd_append_cons _ _ rfl]
      simp
    rw [← h.colon, hc]
    exact (Target.split_of_colon htrim).trans (by rw [hname (h.behind _ hc)]; rfl)

/-- What is written is read. -/
theorem Writes.parseTarget_text (h : site.Writes w t) (ht : t.IsRead) : site.parseTarget w.text = .ok t := by
  obtain ⟨title, htitle, hparts⟩ : ∃ title, normalTitle title = normalTitle w.title ∧
      Target.cutFragment t.leadingColon (trimStart w.name ++ ':' :: trimEnd w.behind) =
        ⟨t.leadingColon, trimStart w.name ++ ':' :: title, w.fragment⟩ := by
    have hhash : '#' ∉ trimStart w.name ++ [':'] := by
      simpa using fun hm => h.refers.hash (Text.trimStart_subset _ hm)
    rw [Target.cutFragment, List.append_cons, Text.cutAt_append_of_not_mem hhash, Writing.behind]
    have hfragment := h.fragment
    cases hf : w.fragment with
    | none =>
      rw [Option.elim_none, List.append_nil, Text.trimEnd_append_blanks _ h.back,
        Text.cutAt_of_not_mem fun hm => h.plain (Text.trimEnd_subset _ hm)]
      exact ⟨trimEnd w.title, normalTitle_trimEnd _, by simp⟩
    | some f =>
      rw [hf] at hfragment
      have hend : trimEnd f = f := by simpa using ht.ends _ hfragment.symm
      rw [Option.elim_some, Text.trimEnd_append_blanks _ h.back, Text.trimEnd_append_cons _ _ rfl, hend,
        Text.cutAt_append_cons h.plain]
      exact ⟨w.title, rfl, by simp⟩
  have hlegal : t.title.toList.find? Target.isIllegal = none :=
    List.find?_eq_none.2 fun c hc => by simp [ht.legal c hc]
  have hempty : ¬(t.title.toList = [] ∧ w.fragment = none) := by
    rw [← Option.map_eq_none_iff (f := String.ofList), h.fragment]
    exact ht.nonempty
  unfold parseTarget
  simp only [h.split_eq, hparts, h.refers.splitNamespace_eq, htitle, h.title, if_neg hempty, hlegal, h.fragment,
    String.ofList_toList]

end Site

namespace Target

/-- A target as it is spelled with one name of its namespace. -/
def spell (t : Target) (name : String) : String :=
  (if t.leadingColon then ":" else "") ++ name ++ ":" ++ t.title ++ (t.fragment.map ("#" ++ ·)).getD ""

def spelling (t : Target) (name : String) : Writing where
  front := []
  colon := if t.leadingColon then some [] else none
  name := name.toList
  title := t.title.toList
  fragment := t.fragment.map String.toList
  back := []

theorem text_spelling (t : Target) (name : String) : (t.spelling name).text = t.spell name := by
  rw [← String.toList_inj, Writing.text, String.toList_ofList]
  simp only [spelling, spell, Writing.lead, Writing.behind, String.toList_append]
  cases t.leadingColon <;> cases t.fragment <;> simp

theorem IsRead.writes_spelling {site : Site} {t : Target} {name : String} (h : t.IsRead)
    (hn : site.Refers name.toList t.namespaceId) : site.Writes (t.spelling name) t where
  refers := hn
  colon := by cases hc : t.leadingColon <;> simp [spelling, hc]
  title := h.normal
  plain := h.plain
  fragment := by cases hf : t.fragment <;> simp [spelling, hf]
  front := nofun
  behind := by
    intro blanks hb
    obtain ⟨-, rfl⟩ : t.leadingColon = true ∧ blanks = [] := by simpa [spelling] using hb
    nofun
  back := nofun

end Target

namespace Site

open Target (Writing)

variable {site : Site} {target : String} {t : Target}

/-- A target that is read, spelled with the first name of its namespace. -/
def normalForm? (site : Site) (target : String) : Option String :=
  match site.parseTarget target with
  | .ok t => (site.namespace? t.namespaceId).map fun ns => t.spell ns.name
  | .error _ => none

/-- The normal form of a target is read as the target is, and so is every way to write it: they all have
that normal form, and the links to them are of one use. -/
theorem normal_form_of_parseTarget {ns : Namespace} (h : site.parseTarget target = .ok t)
    (hns : site.namespace? t.namespaceId = some ns) (hname : site.Refers ns.name.toList t.namespaceId) :
    site.parseTarget (t.spell ns.name) = .ok t ∧
      ∀ w : Writing, site.Writes w t → site.parseTarget w.text = .ok t ∧
        site.normalForm? w.text = some (t.spell ns.name) ∧
        Findings.linkUse site w.text = Findings.linkUse site (t.spell ns.name) := by
  have ht := isRead_of_parseTarget h
  have hspell : site.parseTarget (t.spell ns.name) = .ok t :=
    t.text_spelling ns.name ▸ (ht.writes_spelling hname).parseTarget_text ht
  refine ⟨hspell, fun w hw => ?_⟩
  have hread := hw.parseTarget_text ht
  refine ⟨hread, ?_, ?_⟩
  · rw [normalForm?, hread]
    exact congrArg (Option.map _) hns
  · rw [Findings.linkUse, Findings.linkUse, hread, hspell]

/-- A target in another case, by an alias, and with blanks and underscores about it. -/
def writtenImage : Writing where
  front := [' ']
  colon := some [' ', '\t']
  name := "_iMAGE ".toList
  title := "_A: B_".toList
  fragment := some "b_#c".toList
  back := ['\n']

theorem normal_form_of_image : Site.default.parseTarget ":Image:A:_B#b_#c" = .ok ⟨6, "A: B", some "b_#c", true⟩ ∧
    Site.default.parseTarget ":File:A: B#b_#c" = .ok ⟨6, "A: B", some "b_#c", true⟩ ∧
    writtenImage.text = " : \t_iMAGE :_A: B_#b_#c\n" ∧
    Site.default.normalForm? " : \t_iMAGE :_A: B_#b_#c\n" = some ":File:A: B#b_#c" := by
  have hread : Site.default.parseTarget ":Image:A:_B#b_#c" = .ok ⟨6, "A: B", some "b_#c", true⟩ := by
    decide +kernel
  have hfile : Site.default.Refers "File".toList 6 :=
    ⟨by decide +kernel, by decide +kernel, by decide +kernel, by decide +kernel⟩
  have hwrites : Site.default.Writes writtenImage ⟨6, "A: B", some "b_#c", true⟩ :=
    { refers := ⟨by decide +kernel, by decide +kernel, by decide +kernel, by decide +kernel⟩
      colon := rfl
      title := by decide +kernel
      plain := by decide +kernel
      fragment := by decide +kernel
      front := List.all_eq_true.1 (by decide +kernel)
      behind := by
        rintro _ ⟨⟩
        exact List.all_eq_true.1 (by decide +kernel)
      back := List.all_eq_true.1 (by decide +kernel) }
  have htext : writtenImage.text = " : \t_iMAGE :_A: B_#b_#c\n" := by decide +kernel
  have hspell : Target.spell ⟨6, "A: B", some "b_#c", true⟩ "File" = ":File:A: B#b_#c" := by decide +kernel
  obtain ⟨hspelled, hwritten⟩ := normal_form_of_parseTarget hread rfl hfile
  obtain ⟨-, hform, -⟩ := hwritten writtenImage hwrites
  exact ⟨hread, hspell ▸ hspelled, htext, htext ▸ hspell ▸ hform⟩

end Site

end WikiPage
