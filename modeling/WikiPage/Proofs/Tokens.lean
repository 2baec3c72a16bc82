import WikiPage.Proofs.Reading

/-!
# The characters of tokens

A token ends before the first character that could not belong to it, so the character that it begins
with tells which others may stand in it.
-/

namespace WikiPage.Token

theorem of_mem_take_run {p : Char → Bool} {s : List Char} {d : Char} (h : d ∈ s.take (run p s)) :
    p d = true := by
  rw [run, ← List.prefix_iff_eq_take.1 (s.takeWhile_prefix p)] at h
  exact List.all_eq_true.1 List.all_takeWhile d h

theorem isPlain_of_class {p : Char → Bool} {d : Char}
    (hp : [' ', '\t', '\r', '\n', '\'', '[', ']', '|', '<', '>', '&', '-'].any p = false)
    (h : p d = true) : isPlain d = true := by
  rw [isPlain, Bool.not_eq_true', List.contains_eq_mem, decide_eq_false_iff_not]
  exact fun hd => List.any_eq_false.1 hp d hd h

theorem isPlain_of_mem_take_referenceBody {s : List Char} {kind : Kind} {n : Nat} {d : Char}
    (h : referenceBody s = some (kind, n)) (hd : d ∈ s.take n) : isPlain d = true := by
  unfold referenceBody at h
  split at h
  · rename_i c s
    split at h
    · rename_i hc
      split at h
      · cases h
      · obtain ⟨-, rfl⟩ := Prod.mk.inj (Option.some.inj h)
        rw [List.take_succ_cons, List.take_succ_cons, List.mem_cons, List.mem_cons] at hd
        rcases hd with rfl | rfl | hd
        · rfl
        · rcases hc with rfl | rfl <;> rfl
        · exact isPlain_of_class (p := isHexDigit) rfl (of_mem_take_run hd)
    · split at h
      · rename_i hc
        obtain ⟨-, rfl⟩ := Prod.mk.inj (Option.some.inj h)
        rw [List.take_succ_cons, List.take_succ_cons, List.mem_cons, List.mem_cons] at hd
        rcases hd with rfl | rfl | hd
        · rfl
        · exact isPlain_of_class (p := Char.isDigit) rfl hc
        · exact isPlain_of_class (p := Char.isDigit) rfl (of_mem_take_run hd)
      · cases h
  · split at h
    · rename_i hc
      obtain ⟨-, rfl⟩ := Prod.mk.inj (Option.some.inj h)
      rw [List.take_succ_cons, List.mem_cons] at hd
      rcases hd with rfl | hd
      · exact isPlain_of_class (p := Char.isAlpha) rfl hc
      · exact isPlain_of_class (p := Char.isAlphanum) rfl (of_mem_take_run hd)
    · cases h
  · cases h

theorem isPlain_of_mem_take_reference {s : List Char} {d : Char} (h : d ∈ s.take (reference s).2) :
    isPlain d = true := by
  unfold reference at h
  split at h
  · simp at h
  · rename_i n hn
    split at h
    · rename_i hend
      rw [List.head?_drop] at hend
      rw [List.take_add_one, hend, List.mem_append] at h
      rcases h with h | h
      · exact isPlain_of_mem_take_referenceBody hn h
      · obtain rfl := List.mem_singleton.1 h
        rfl
    · exact isPlain_of_mem_take_referenceBody hn h

/-- A token that begins with `c` may have `d` behind it. -/
def Follows (c d : Char) : Prop :=
  isPlain d = true ∨ d = c ∨ (isSpaceOrTab c = true ∧ isSpaceOrTab d = true) ∨
    (c = '\r' ∧ d = '\n') ∨ (c = '<' ∧ d = '-')

/-- A marker stands in a token only behind its like. -/
theorem Follows.eq {c d : Char} (h : Follows c d) (hd : d ∈ ['\'', '[', ']', '|', '<', '>', '&', '\r']) :
    d = c := by
  simp only [List.mem_cons, List.not_mem_nil, or_false] at hd
  rcases h with hp | h | ⟨-, hs⟩ | ⟨-, rfl⟩ | ⟨-, rfl⟩
  · rcases hd with rfl | rfl | rfl | rfl | rfl | rfl | rfl | rfl <;> cases hp
  · exact h
  · rcases hd with rfl | rfl | rfl | rfl | rfl | rfl | rfl | rfl <;> cases hs
  · simp at hd
  · simp at hd

theorem follows_of_mem_take_lead {c d : Char} {s : List Char} (h : d ∈ s.take (lead c s).2) :
    Follows c d := by
  have none {p : Prop} {k : Kind} (h : d ∈ s.take (k, 0).2) : p := by simp at h
  have same {m : List Char} (hm : m.isPrefixOf s = true) (hc : ∀ x ∈ m, Follows c x)
      (h : d ∈ s.take m.length) : Follows c d := by
    rw [take_of_isPrefixOf hm] at h
    exact hc d h
  have head {x : Char} (hx : s.head? = some x) (hc : Follows c x) (h : d ∈ s.take 1) :
      Follows c d := by
    rw [take_of_head? hx, List.mem_singleton] at h
    exact h ▸ hc
  by_cases hm : c ∈ ['\'', '[', ']', '|', '<', '>']
  · simp only [List.mem_cons, List.not_mem_nil, or_false] at hm
    rcases hm with rfl | rfl | rfl | rfl | rfl | rfl
    · rw [lead_apostrophe] at h
      split_ifs at h
      · exact same (m := ['\'', '\'']) ‹_› (by simp [Follows]) h
      · exact head ‹_› (.inr (.inl rfl)) h
      · exact none h
    · rw [lead_openBracket] at h
      split_ifs at h
      · exact head ‹_› (.inr (.inl rfl)) h
      · exact none h
    · rw [lead_closeBracket] at h
      split_ifs at h
      · exact head ‹_› (.inr (.inl rfl)) h
      · exact none h
    · exact none h
    · rw [lead_lt] at h
      split_ifs at h
      · exact same (m := ['!', '-', '-']) ‹_› (by simp [Follows, isPlain]) h
      · exact none h
    · exact none h
  · simp only [List.mem_cons, List.not_mem_nil, or_false, not_or] at hm
    obtain ⟨h1, h2, h3, h4, h5, h6⟩ := hm
    simp only [lead, if_neg h1, if_neg h2, if_neg h3, if_neg h4, if_neg h5, if_neg h6] at h
    split at h
    · exact .inr (.inr (.inl ⟨‹_›, of_mem_take_run h⟩))
    split at h
    · exact none h
    split at h
    · split at h
      · exact head ‹_› (.inr (.inr (.inr (.inl ⟨‹_›, rfl⟩)))) h
      · exact none h
    split at h
    · exact .inl (isPlain_of_mem_take_reference h)
    split at h
    · rename_i hc
      split at h
      · exact .inr (.inl (hc ▸ by simpa using of_mem_take_run h))
      · exact none h
    · exact .inl (of_mem_take_run h)

theorem lead_le_length {c d : Char} {s r : List Char} (h : ¬Follows c d) :
    (lead c (s ++ d :: r)).2 ≤ s.length := by
  rw [← Nat.not_lt]
  intro hlt
  refine h (follows_of_mem_take_lead (s := s ++ d :: r) ?_)
  obtain ⟨n, hn⟩ := Nat.exists_eq_add_of_lt hlt
  rw [hn, Nat.add_assoc, List.take_append, Nat.add_sub_cancel_left, List.take_succ_cons]
  simp

/-- A first token that ends before a character leaves what is before it and the character. -/
theorem exists_first?_of_lead_le {c d : Char} {s r : List Char} (h : (lead c (s ++ d :: r)).2 ≤ s.length) :
    ∃ t v, first? (c :: s ++ d :: r) = some t ∧ c :: s = t.text ++ v ∧ t.rest = v ++ d :: r ∧
      v.length < (c :: s).length := by
  refine ⟨⟨(lead c (s ++ d :: r)).1, c :: s.take (lead c (s ++ d :: r)).2,
    s.drop (lead c (s ++ d :: r)).2 ++ d :: r⟩, s.drop (lead c (s ++ d :: r)).2, ?_, ?_, rfl, ?_⟩
  · rw [List.cons_append, first?, List.take_append_of_le_length h, List.drop_append_of_le_length h]
  · rw [List.cons_append, List.take_append_drop]
  · rw [List.length_cons, List.length_drop]
    omega

end WikiPage.Token
