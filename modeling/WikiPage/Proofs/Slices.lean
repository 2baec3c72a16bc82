import WikiPage.Proofs.Bracketing
import WikiPage.Proofs.Titles

/-!
# The parts of a scanned tag

A start tag is scanned from a byte offset, and its parts are slices of the text that lie side by side:
the bracket and the name, then each attribute with what stands before and behind its value, then the
end. A quote around a value does not stand in the value, and a value without quotes holds nothing that
could end it. The last character of the tag is the bracket that closes it.
-/

namespace WikiPage

namespace Text

theorem eq_append_of_dropBytes? {n : Nat} {s t : List Char} (h : dropBytes? n s = some t) :
    ∃ before, s = before ++ t ∧ byteSize before = n := by
  fun_induction dropBytes? n s with
  | case1 s => exact ⟨[], Option.some.inj h, rfl⟩
  | case2 => cases h
  | case3 n c s hc ih =>
    obtain ⟨before, rfl, hn⟩ := ih h
    refine ⟨c :: before, rfl, ?_⟩
    rw [byteSize_cons, hn]
    omega
  | case4 => cases h

theorem scan_at_eq_map {α : Type} {scan? : List Char → Option (α × List Char)} {source : α → List Char}
    {src : String} {offset : Nat} {s : List Char} (h : dropBytes? offset src.toList = some s) :
    (do
      let s ← dropBytes? offset src.toList
      let (x, _) ← scan? s
      pure (x, offset + byteSize (source x))) =
    (scan? s).map fun p => (p.1, offset + byteSize (source p.1)) := by
  rw [h, Option.bind_eq_bind, Option.bind_some]
  cases scan? s <;> rfl

/-- A scan from an offset finds what stands there. -/
theorem scan_at_eq_some_iff {α : Type} {scan? : List Char → Option (α × List Char)} {source : α → List Char}
    (hscan : ∀ {s x rest}, scan? s = some (x, rest) → source x ++ rest = s) {src : String} {offset stop : Nat}
    {x : α} :
    (do
      let s ← dropBytes? offset src.toList
      let (x, _) ← scan? s
      pure (x, offset + byteSize (source x))) = some (x, stop) ↔
    ∃ before rest, src.toList = before ++ (source x ++ rest) ∧ byteSize before = offset ∧
      scan? (source x ++ rest) = some (x, rest) ∧ stop = offset + byteSize (source x) := by
  constructor
  · intro h
    obtain ⟨s, hs, h⟩ := Option.bind_eq_some_iff.1 h
    obtain ⟨⟨y, rest⟩, hy, h⟩ := Option.bind_eq_some_iff.1 h
    obtain ⟨rfl, rfl⟩ := Prod.mk.inj (Option.some.inj h)
    obtain ⟨before, hsrc, hsize⟩ := eq_append_of_dropBytes? hs
    have hsource := hscan hy
    exact ⟨before, rest, by rw [hsrc, hsource], hsize, by rw [hsource, hy], rfl⟩
  · rintro ⟨before, rest, hsrc, rfl, hx, rfl⟩
    rw [hsrc, dropBytes?_byteSize_append, Option.bind_eq_bind, Option.bind_some, hx]
    rfl

end Text

namespace Tag

/-- What may stand before a value, as the value, and behind it. -/
inductive Quoting : List Char → Option (List Char) → List Char → Prop
  | absent (opening : List Char) : Quoting opening none []
  | quoted (before : List Char) {quote : Char} {value : List Char} (hq : quote = '"' ∨ quote = '\'')
    (h : quote ∉ value) : Quoting (before ++ [quote]) (some value) [quote]
  | bare (opening : List Char) {value : List Char} (hne : value ≠ [])
    (h : ∀ c ∈ value, c ∉ [' ', '\t', '\r', '\n', '"', '\'', '<', '=', '>']) :
    Quoting opening (some value) []

/-- An attribute as it is cut out of a tag. -/
structure Attribute.IsCut (a : Attribute) : Prop where
  /-- It is set off by blanks, which its name follows. -/
  opening : ∃ blank rest, a.opening = blank ++ a.name ++ rest ∧ blank ≠ [] ∧ ∀ c ∈ blank, isSpace c = true
  quoting : Quoting a.opening a.value a.closing

theorem not_mem_of_isUnquoted {c : Char} (h : isUnquoted c = true) :
    c ∉ [' ', '\t', '\r', '\n', '"', '\'', '<', '=', '>'] := by
  simp only [isUnquoted, Bool.not_eq_true', List.contains_eq_mem, decide_eq_false_iff_not, List.mem_cons,
    List.not_mem_nil, or_false, not_or] at h ⊢
  tauto

theorem quoting_of_value? {name opening s rest : List Char} {a : Attribute}
    (h : value? name opening s = some (a, rest)) : Quoting a.opening a.value a.closing := by
  cases s with
  | nil => cases h
  | cons q s =>
    rw [value?] at h
    split at h
    · obtain ⟨⟨value, after⟩, hcut, he⟩ := Option.map_eq_some_iff.1 h
      obtain ⟨rfl, -⟩ := Prod.mk.inj he
      exact .quoted opening ‹_› (Text.not_mem_of_cutAt hcut)
    · rw [bareValue?] at h
      split at h
      · cases h
      · rename_i hbare
        obtain ⟨rfl, -⟩ := Prod.mk.inj (Option.some.inj h)
        exact .bare opening (fun hnil => hbare (.inl hnil))
          fun c hc => not_mem_of_isUnquoted (List.all_eq_true.1 List.all_takeWhile c hc)

theorem quoting_of_attribute? {blank s rest : List Char} {a : Attribute}
    (h : attribute? blank s = some (a, rest)) : Quoting a.opening a.value a.closing := by
  rw [attribute?] at h
  split at h
  · exact quoting_of_value? h
  · obtain ⟨rfl, -⟩ := Prod.mk.inj (Option.some.inj h)
    exact .absent _

end Tag

namespace StartTag

open Tag

theorem quoting_of_behindName? {s rest : List Char} {p : List Tag.Attribute × List Char × Bool}
    (h : behindName? s = some (p, rest)) : ∀ a ∈ p.1, Quoting a.opening a.value a.closing := by
  fun_induction behindName? s generalizing p rest with
  | case1 s r hs =>
    obtain ⟨rfl, -⟩ := Prod.mk.inj (Option.some.inj h)
    simp
  | case2 s r hs =>
    obtain ⟨rfl, -⟩ := Prod.mk.inj (Option.some.inj h)
    simp
  | case3 => cases h
  | case4 => cases h
  | case5 s c t _ _ hs hc a r ha ih =>
    obtain ⟨⟨q, u⟩, hq, he⟩ := Option.map_eq_some_iff.1 h
    obtain ⟨rfl, -⟩ := Prod.mk.inj he
    rw [List.forall_mem_cons]
    exact ⟨quoting_of_attribute? ha, ih hq⟩
  | case6 => cases h

variable {s rest : List Char} {t : StartTag}

theorem quoting_of_scan? (h : scan? s = some (t, rest)) :
    ∀ a ∈ t.attributes, Quoting a.opening a.value a.closing := by
  unfold scan? at h
  split at h
  · split at h
    · obtain ⟨_, hp, he⟩ := Option.map_eq_some_iff.1 h
      obtain ⟨rfl, -⟩ := Prod.mk.inj he
      exact quoting_of_behindName? hp
    · cases h
  · cases h

theorem isCut_of_scan? (h : scan? s = some (t, rest)) : ∀ a ∈ t.attributes, a.IsCut := by
  intro a ha
  obtain ⟨blank, sign, hopening, hne, hblank, -⟩ := opens_of_scan? h a ha
  exact ⟨⟨blank, sign, hopening, hne, hblank⟩, quoting_of_scan? h a ha⟩

theorem exists_ending_eq_append (h : scan? s = some (t, rest)) : ∃ u, t.ending = u ++ ['>'] := by
  obtain ⟨blank, -, hending⟩ := isEnding_of_scan? h
  rw [hending]
  cases t.selfClosing with
  | true => exact ⟨blank ++ ['/'], by simp⟩
  | false => exact ⟨blank, rfl⟩

theorem scanAt?_eq_some_iff {src : String} {offset stop : Nat} : scanAt? src offset = some (t, stop) ↔
    ∃ before rest, src.toList = before ++ (t.source ++ rest) ∧ Text.byteSize before = offset ∧
      scan? (t.source ++ rest) = some (t, rest) ∧ stop = offset + Text.byteSize t.source :=
  Text.scan_at_eq_some_iff source_append_of_scan?

/-- A tag whose parts make up the text between two byte offsets, the second of which is behind the
bracket that closes the tag. -/
structure IsSlice (src : String) (offset : Nat) (t : StartTag) (stop : Nat) : Prop where
  between : ∃ before after, Text.byteSize before = offset ∧
    Text.byteSize (before ++ ('<' :: t.name ++
      t.attributes.flatMap (fun a => a.opening ++ a.value.getD [] ++ a.closing) ++ t.ending)) = stop ∧
    src.toList = before ++ ('<' :: t.name ++
      t.attributes.flatMap (fun a => a.opening ++ a.value.getD [] ++ a.closing) ++ t.ending) ++ after
  attributes : ∀ a ∈ t.attributes, a.IsCut
  closed : ∃ u, t.ending = u ++ ['>']

/-- A scan may begin at any offset, also at one that is behind the text or inside of a character. It finds
a tag that is a slice of the text, or nothing. -/
theorem scanAt?_isSlice (src : String) (offset : Nat) :
    scanAt? src offset = none ∨ ∃ t stop, scanAt? src offset = some (t, stop) ∧ IsSlice src offset t stop := by
  cases h : scanAt? src offset with
  | none => exact .inl rfl
  | some p =>
    obtain ⟨t, stop⟩ := p
    obtain ⟨before, after, hsrc, rfl, hscan, rfl⟩ := scanAt?_eq_some_iff.1 h
    refine .inr ⟨t, _, rfl, ⟨before, after, rfl, Text.byteSize_append before t.source, ?_⟩,
      isCut_of_scan? hscan, exists_ending_eq_append hscan⟩
    rw [hsrc, List.append_assoc]
    rfl

end StartTag
end WikiPage
