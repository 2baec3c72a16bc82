import Mathlib.Data.List.DropRight
import WikiPage.Page.Category
import WikiPage.Proofs.Surgery

/-!
# Spellings of one category

Spacing, underscores and letter case tell no two spellings of a category apart: whatever rewrites them
keeps the key. So the category that a link to a name leads to has the key of that name.
-/

namespace WikiPage

namespace Text

variable {f g : Char → Char} {s t : List Char} {c : Char}

theorem words_append_cons (s t : List Char) (hc : isBlank c = true) :
    words (s ++ c :: t) = words s ++ words t := by
  rw [words, List.splitOnP_append_cons _ _ hc, List.filter_append]
  rfl

theorem words_cons (t : List Char) (hc : isBlank c = true) : words (c :: t) = words t :=
  words_append_cons [] t hc

theorem words_concat (s : List Char) (hc : isBlank c = true) : words (s ++ [c]) = words s := by
  rw [words_append_cons s [] hc, words_nil, List.append_nil]

/-- Words do not depend on which blanks stand between them. -/
theorem words_map_congr (h : ∀ c, f c = g c ∨ isBlank (f c) = true ∧ isBlank (g c) = true) :
    words (s.map f) = words (s.map g) := by
  have hs : (s.map f).splitOnP isBlank = (s.map g).splitOnP isBlank := by
    induction s with
    | nil => rfl
    | cons c s ih =>
      rw [List.map_cons, List.map_cons, List.splitOnP_cons_eq_if_modifyHead,
        List.splitOnP_cons_eq_if_modifyHead, ih]
      rcases h c with hc | ⟨hf, hg⟩
      · rw [hc]
      · rw [hf, hg, if_pos rfl, if_pos rfl]
  rw [words, words, hs]

section

variable (hf : ∀ c, isBlank c = true → isBlank (f c) = true)
include hf

theorem words_map_trimStart (s : List Char) : words ((trimStart s).map f) = words (s.map f) := by
  induction s with
  | nil => rfl
  | cons c s ih =>
    rw [trimStart_cons]
    split
    · rw [ih, List.map_cons, words_cons _ (hf c ‹_›)]
    · rfl

theorem words_map_trimEnd (s : List Char) : words ((trimEnd s).map f) = words (s.map f) := by
  induction s using List.reverseRecOn with
  | nil => rfl
  | append_singleton s c ih =>
    rw [trimEnd_concat]
    split
    · rw [ih, List.map_append, List.map_singleton, words_concat _ (hf c ‹_›)]
    · rfl

theorem words_map_trim (s : List Char) : words ((trim s).map f) = words (s.map f) := by
  rw [trim, words_map_trimEnd hf, words_map_trimStart hf]

theorem words_map (s : List Char) : words (s.map f) = (words s).flatMap fun w => words (w.map f) := by
  have hid (pieces : List (List Char)) : pieces.modifyHead ([] ++ ·) = pieces := by
    cases pieces <;> rfl
  -- with a text before that has been read already
  have main (p : List Char) : words ((p ++ s).map f) =
      ((s.splitOnP isBlank).modifyHead (p ++ ·)).flatMap fun w => words (w.map f) := by
    induction s generalizing p with
    | nil => simp
    | cons c s ih =>
      rw [List.splitOnP_cons_eq_if_modifyHead]
      split
      · have hs := ih []
        rw [hid, List.nil_append] at hs
        rw [List.map_append, List.map_cons, words_append_cons _ _ (hf c ‹_›), hs]
        simp
      · have hs := ih (p ++ [c])
        rw [List.append_assoc, List.singleton_append] at hs
        rw [hs, List.modifyHead_modifyHead]
        simp [Function.comp_def]
  have hs := main []
  rw [hid, List.nil_append] at hs
  rw [hs, words]
  -- an empty piece has no words
  induction s.splitOnP isBlank with
  | nil => rfl
  | cons w ws ih =>
    cases w with
    | nil => simpa using ih
    | cons c w => simpa using ih

theorem words_map_squeeze (s : List Char) : words ((squeeze s).map f) = words (s.map f) := by
  have main (ws : List (List Char)) :
      words (([' '].intercalate ws).map f) = ws.flatMap fun w => words (w.map f) := by
    induction ws with
    | nil => rfl
    | cons w ws ih =>
      cases ws with
      | nil => simp
      | cons v ws =>
        rw [List.intercalate_cons_cons, List.flatMap_cons, ← ih, List.append_assoc,
          List.singleton_append, List.map_append, List.map_cons, words_append_cons _ _ (hf ' ' rfl)]
  rw [squeeze, main, words_map hf]

end

end Text

/-- An underscore in a title is read as a space. -/
def readUnderscore (c : Char) : Char :=
  if c = '_' then ' ' else c

theorem normalTitle_eq (s : List Char) : normalTitle s = Text.trim (s.map readUnderscore) := rfl

theorem readUnderscore_of_isBlank {c : Char} (h : Text.isBlank c = true) :
    Text.isBlank (readUnderscore c) = true := by
  unfold readUnderscore
  split
  · rfl
  · exact h

theorem readUnderscore_readUnderscore (c : Char) :
    readUnderscore (readUnderscore c) = readUnderscore c := by
  unfold readUnderscore
  split <;> simp_all

/-- Two names have one key if they have the same words. -/
theorem categoryKey_congr {s t : String}
    (h : Text.words (s.toList.map readUnderscore) = Text.words (t.toList.map readUnderscore)) :
    categoryKey s = categoryKey t := by
  have main (l : List Char) :
      Text.words (normalTitle l) = Text.words (l.map readUnderscore) := by
    have hw := Text.words_map_trim (f := id) (fun _ hc => hc) (l.map readUnderscore)
    rwa [List.map_id, List.map_id] at hw
  rw [categoryKey, categoryKey, Text.squeeze, Text.squeeze, main, main, h]

theorem words_normalTitle (s : List Char) :
    Text.words ((normalTitle s).map readUnderscore) = Text.words (s.map readUnderscore) := by
  rw [normalTitle_eq, Text.words_map_trim fun _ => readUnderscore_of_isBlank, List.map_map]
  exact Text.words_map_congr fun c => .inl (readUnderscore_readUnderscore c)

theorem categoryKey_normalizeTitle (s : String) : categoryKey (normalizeTitle s) = categoryKey s := by
  refine categoryKey_congr ?_
  rw [normalizeTitle, Text.toList_onChars, words_normalTitle]

theorem words_spaces (s : List Char) :
    Text.words ((Normalization.spaces s).map readUnderscore) = Text.words (s.map readUnderscore) := by
  rw [Normalization.spaces, List.map_map]
  refine Text.words_map_congr fun c => ?_
  by_cases hc : c = '\t' ∨ c = '\n' ∨ c = '\r'
  · right
    rcases hc with rfl | rfl | rfl <;> decide
  · left
    simp [hc]

theorem categoryKey_apply_words (s : String) :
    categoryKey (Normalization.words.apply s) = categoryKey s := by
  refine categoryKey_congr ?_
  rw [Normalization.apply, Text.toList_onChars,
    Text.words_map_squeeze fun _ => readUnderscore_of_isBlank, words_spaces]

namespace Text

variable {s t : List Char} {c : Char}

theorem trimStart_append (h : trimStart s ≠ []) (t : List Char) :
    trimStart (s ++ t) = trimStart s ++ t := by
  rw [trimStart, List.dropWhile_append, if_neg]
  · rfl
  · simpa [trimStart] using h

theorem trimEnd_append_cons (s t : List Char) (hc : isBlank c = false) :
    trimEnd (s ++ c :: t) = s ++ c :: trimEnd t := by
  induction t using List.reverseRecOn with
  | nil =>
    rw [trimEnd_concat, hc]
    rfl
  | append_singleton t d ih =>
    rw [← List.cons_append, ← List.append_assoc, trimEnd_concat, trimEnd_concat, ih]
    split
    · rfl
    · rw [List.append_assoc, List.cons_append]

theorem cutAt_of_not_mem (h : c ∉ s) : cutAt c s = none := by
  induction s with
  | nil => rfl
  | cons d s ih =>
    rw [List.mem_cons, not_or] at h
    obtain ⟨hd, hs⟩ := h
    rw [cutAt, if_neg (Ne.symm hd), ih hs, Option.map_none]

theorem cutAt_append_cons (h : c ∉ s) (t : List Char) : cutAt c (s ++ c :: t) = some (s, t) := by
  induction s with
  | nil => simp [cutAt]
  | cons d s ih =>
    rw [List.mem_cons, not_or] at h
    obtain ⟨hd, hs⟩ := h
    rw [List.cons_append, cutAt, if_neg (Ne.symm hd), ih hs, Option.map_some]

theorem not_mem_of_cutAt {before after : List Char} (h : cutAt c s = some (before, after)) :
    c ∉ before := by
  induction s generalizing before with
  | nil => cases h
  | cons d s ih =>
    rw [cutAt] at h
    split at h
    · cases h
      exact List.not_mem_nil
    · obtain ⟨⟨b, r⟩, hb, hp⟩ := Option.map_eq_some_iff.1 h
      cases hp
      rw [List.mem_cons, not_or]
      exact ⟨fun hc => ‹¬d = c› hc.symm, ih hb⟩

theorem not_mem_of_cutAt_eq_none (h : cutAt c s = none) : c ∉ s := by
  induction s with
  | nil => exact List.not_mem_nil
  | cons d s ih =>
    rw [cutAt] at h
    split at h
    · cases h
    · rw [List.mem_cons, not_or]
      exact ⟨fun hc => ‹¬d = c› hc.symm, ih (Option.map_eq_none_iff.1 h)⟩

theorem subset_of_mem_words {w : List Char} (hw : w ∈ words s) : w ⊆ s := by
  have main (s : List Char) : ∀ w ∈ s.splitOnP isBlank, w ⊆ s := by
    induction s with
    | nil => simp
    | cons d s ih =>
      rw [List.splitOnP_cons_eq_if_modifyHead]
      intro w hw
      split at hw
      · rcases List.mem_cons.1 hw with rfl | hw
        · exact List.nil_subset _
        · exact List.subset_cons_of_subset d (ih w hw)
      · cases hs : s.splitOnP isBlank with
        | nil => simp [hs] at hw
        | cons v vs =>
          rw [hs] at hw ih
          rcases List.mem_cons.1 hw with rfl | hw
          · exact List.cons_subset_cons d (ih v List.mem_cons_self)
          · exact List.subset_cons_of_subset d (ih w (List.mem_cons_of_mem v hw))
  exact main s w (List.mem_filter.1 hw).1

theorem mem_of_mem_squeeze (h : c ∈ squeeze s) (hc : isBlank c = false) : c ∈ s := by
  have main (ws : List (List Char)) (h : c ∈ [' '].intercalate ws) : ∃ w ∈ ws, c ∈ w := by
    induction ws with
    | nil => cases h
    | cons w ws ih =>
      cases ws with
      | nil => exact ⟨w, List.mem_singleton_self w, by simpa using h⟩
      | cons v ws =>
        rw [List.intercalate_cons_cons, List.append_assoc, List.mem_append, List.mem_append,
          List.mem_singleton] at h
        rcases h with h | rfl | h
        · exact ⟨w, List.mem_cons_self, h⟩
        · cases hc
        · obtain ⟨u, hu, hcu⟩ := ih h
          exact ⟨u, List.mem_cons_of_mem w hu, hcu⟩
  obtain ⟨w, hw, hcw⟩ := main _ h
  exact subset_of_mem_words hw hcw

theorem trimStart_subset (s : List Char) : trimStart s ⊆ s :=
  (List.dropWhile_sublist _).subset

theorem trimEnd_subset (s : List Char) : trimEnd s ⊆ s := fun c hc => by
  have h := (List.dropWhile_sublist isBlank).subset (List.mem_reverse.1 hc)
  exact List.mem_reverse.1 h

theorem trim_subset (s : List Char) : trim s ⊆ s :=
  fun _ hc => trimStart_subset s (trimEnd_subset _ hc)

end Text

open Text (trim trimStart trimEnd)

theorem hash_not_mem_normalTitle {s : List Char} (h : '#' ∉ s) : '#' ∉ normalTitle s := by
  intro hm
  obtain ⟨c, hc, he⟩ := List.mem_map.1 (Text.trim_subset _ hm)
  split at he
  · cases he
  · exact h (he ▸ hc)

theorem not_mem_apply_words {s : String} {c : Char} (hc : Text.isBlank c = false)
    (h : c ∉ s.toList) : c ∉ (Normalization.words.apply s).toList := by
  rw [Normalization.apply, Text.toList_onChars]
  intro hm
  obtain ⟨d, hd, he⟩ := List.mem_map.1 (Text.mem_of_mem_squeeze hm hc)
  split at he
  · cases he ▸ hc
  · exact h (he ▸ hd)

theorem hash_not_mem_apply_words {s : String} (h : '#' ∉ s.toList) :
    '#' ∉ (Normalization.words.apply s).toList :=
  not_mem_apply_words rfl h

theorem normalTitle_trimStart (s : List Char) : normalTitle (trimStart s) = normalTitle s := by
  have h : trimStart ((trimStart s).map readUnderscore) = trimStart (s.map readUnderscore) := by
    induction s with
    | nil => rfl
    | cons c s ih =>
      rw [Text.trimStart_cons]
      split
      · rw [ih, List.map_cons, Text.trimStart_cons, if_pos (readUnderscore_of_isBlank ‹_›)]
      · rfl
  rw [normalTitle_eq, normalTitle_eq, trim, trim, h]

theorem Target.split_append_cons {before after : List Char} (hb : trim before ≠ [])
    (hc : ':' ∉ before) (hh : '#' ∉ before) (ha : '#' ∉ after) :
    Target.split (before ++ ':' :: after) =
      ⟨false, trimStart before ++ ':' :: trimEnd after, none⟩ := by
  have hne : trimStart before ≠ [] := fun h => hb (by rw [trim, h, Text.trimEnd_nil])
  have htrim : trim (before ++ ':' :: after) = trimStart before ++ ':' :: trimEnd after := by
    rw [trim, Text.trimStart_append hne, Text.trimEnd_append_cons _ _ rfl]
  have hsub := Text.trimStart_subset before
  have hhash : '#' ∉ trimStart before ++ ':' :: trimEnd after := by
    intro hm
    rcases List.mem_append.1 hm with hm | hm
    · exact hh (hsub hm)
    · rcases List.mem_cons.1 hm with hm | hm
      · cases hm
      · exact ha (Text.trimEnd_subset _ hm)
  obtain ⟨d, ds, hd⟩ := List.exists_cons_of_ne_nil hne
  have hdc : d ≠ ':' := fun he => hc (hsub (by rw [hd, he]; exact List.mem_cons_self))
  have hcut := Text.cutAt_of_not_mem hhash
  rw [hd, List.cons_append] at hcut
  unfold Target.split
  rw [htrim, hd, List.cons_append]
  simp [hdc, hcut]

/-- Links that are made for a category lead to the namespace of categories. -/
structure Site.NamesCategories (site : Site) : Prop where
  nonblank : Text.trim site.categoryPrefix.toList ≠ []
  colon : ':' ∉ site.categoryPrefix.toList
  hash : '#' ∉ site.categoryPrefix.toList
  resolves : ∃ ns, site.resolve? site.categoryPrefix.toList = some ns ∧
    ns.id = site.categoryNamespace

theorem Site.namesCategories_default : Site.default.NamesCategories :=
  ⟨by decide, by decide, by decide, ⟨_, rfl, rfl⟩⟩

namespace Site

variable {site : Site} {target name c : String}

theorem resolve?_trimStart (site : Site) (s : List Char) :
    site.resolve? (trimStart s) = site.resolve? s := by
  simp only [resolve?, Namespace.matches, Namespace.fold, normalTitle_trimStart]

theorem categoryOf?_eq_some (h : site.categoryOf? target = some c) :
    c = String.ofList (normalTitle (site.splitNamespace (Target.split target.toList).page).2) := by
  unfold categoryOf? parseTarget at h
  simp only at h
  split at h
  · rename_i t ht
    split at ht
    · cases ht
    · split at ht
      · cases ht
      · cases ht
        split at h
        · exact (Option.some.inj h).symm
        · cases h
  · cases h

theorem hash_not_mem_page (s : List Char) : '#' ∉ (Target.split s).page := by
  unfold Target.split
  simp only
  split
  · exact Text.not_mem_of_cutAt ‹_›
  · exact Text.not_mem_of_cutAt_eq_none ‹_›

theorem hash_not_mem_of_categoryOf? (h : site.categoryOf? target = some c) : '#' ∉ c.toList := by
  have hpage := hash_not_mem_page target.toList
  rw [categoryOf?_eq_some h, String.toList_ofList]
  refine hash_not_mem_normalTitle fun hm => hpage ?_
  unfold splitNamespace at hm
  split at hm
  · exact hm
  · rename_i hcut
    have happ := Text.eq_append_of_cutAt hcut
    split at hm
    · split at hm
      · exact hm
      · rw [happ]
        exact List.mem_append_right _ (List.mem_cons_of_mem _ hm)
    · exact hm

/-- The parts of the target that is made for a category. -/
theorem NamesCategories.split_eq (h : site.NamesCategories) (hn : '#' ∉ name.toList) :
    ∃ page, Target.split (site.categoryPrefix ++ ":" ++ name).toList = ⟨false, page, none⟩ ∧
      site.splitNamespace page = (site.categoryNamespace, trimEnd name.toList) := by
  obtain ⟨ns, hns, hid⟩ := h.resolves
  have hlist : (site.categoryPrefix ++ ":" ++ name).toList =
      site.categoryPrefix.toList ++ ':' :: name.toList := by simp
  have htrim : trim (trimStart site.categoryPrefix.toList) ≠ [] := by
    have hidem : trimStart (trimStart site.categoryPrefix.toList) =
        trimStart site.categoryPrefix.toList :=
      List.dropWhile_idempotent _ _
    rw [trim, hidem]
    exact h.nonblank
  have hcut : Text.cutAt ':' (trimStart site.categoryPrefix.toList ++ ':' :: trimEnd name.toList) =
      some (trimStart site.categoryPrefix.toList, trimEnd name.toList) :=
    Text.cutAt_append_cons (fun hm => h.colon (Text.trimStart_subset _ hm)) _
  refine ⟨_, hlist ▸ Target.split_append_cons h.nonblank h.colon h.hash hn, ?_⟩
  rw [splitNamespace, hcut]
  simp only [resolve?_trimStart, hns, if_neg htrim, hid]

/-- A link that is made for a category leads to it, if it leads to a category at all. -/
theorem NamesCategories.categoryKey_eq (h : site.NamesCategories) (hn : '#' ∉ name.toList)
    (hc : site.categoryOf? (site.categoryPrefix ++ ":" ++ name) = some c) :
    categoryKey c = categoryKey name := by
  obtain ⟨page, hsplit, hspace⟩ := h.split_eq hn
  refine categoryKey_congr ?_
  rw [categoryOf?_eq_some hc, String.toList_ofList, words_normalTitle, hsplit, hspace]
  exact Text.words_map_trimEnd (fun _ => readUnderscore_of_isBlank) _

end Site
namespace Arena

variable {a : Arena} {site : Site} {id : NodeId}

/-- The category that a node puts its page into, if it is a link that does so. -/
def categoryOf? (a : Arena) (site : Site) (id : NodeId) : Option String :=
  (a.target? id).bind site.categoryOf?

theorem categoryOf?_of_target? {target : String} (h : a.target? id = some target) :
    a.categoryOf? site id = site.categoryOf? target := by
  rw [categoryOf?, h, Option.bind_some]

theorem linkedCategory?_of_find? {n : Node} (hn : a.find? id = some n) :
    a.linkedCategory? site id = .ok (a.categoryOf? site id) := by
  obtain ⟨q, g⟩ := n
  rw [linkedCategory?, payload_of_find? hn, categoryOf?, target?, hn]
  simp only [bind, Except.bind, Option.bind_some]
  cases q <;> simp only [Option.bind_some, Option.bind_none]

theorem categoryOf?_of_linkedCategory? {o : Option String} (h : a.linkedCategory? site id = .ok o) :
    a.categoryOf? site id = o := by
  obtain ⟨q, hq, -⟩ := Except.exists_of_bind h
  obtain ⟨g, hn⟩ := find?_of_payload hq
  exact Except.ok.inj ((linkedCategory?_of_find? hn).symm.trans h)

theorem linkedCategory?_eq_some_iff {s : String} :
    a.linkedCategory? site id = .ok (some s) ↔ a.categoryOf? site id = some s := by
  refine ⟨categoryOf?_of_linkedCategory?, fun h => ?_⟩
  obtain ⟨target, ht, -⟩ := Option.bind_eq_some_iff.1 h
  obtain ⟨m, hm, -⟩ := Option.bind_eq_some_iff.1 ht
  rw [linkedCategory?_of_find? hm, h]

end Arena
end WikiPage
