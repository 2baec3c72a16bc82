import WikiPage.Proofs.Slices

/-!
# Where scans end

A page is divided into tokens, and tags and comments are scanned without regard to them: a scan goes
through quotes and dashes that are parts of other tokens. But a closing bracket is a token of its own
wherever it stands. So a scan ends between two tokens or at the end of the text, and to take the tokens
that begin before its end is to take what was scanned.
-/

namespace WikiPage

open Token (First first?)

theorem Text.byteSize_pos {s : List Char} (h : s ≠ []) : 0 < byteSize s := by
  obtain ⟨c, s, rfl⟩ := List.exists_cons_of_ne_nil h
  exact Nat.add_pos_left (Char.utf8Size_pos c) _

theorem Text.eq_of_append_of_byteSize_eq {s t u v : List Char} (h : s ++ t = u ++ v)
    (hs : byteSize s = byteSize u) : t = v := by
  have ht := dropBytes?_byteSize_append s t
  rw [h, hs, dropBytes?_byteSize_append] at ht
  exact (Option.some.inj ht).symm

namespace Token

/-- Tokens that make up a text, each from the offset that it has. -/
structure Tiles (tokens : List Token) (s : List Char) : Prop where
  text : tokens.flatMap Token.text = s
  filled : ∀ t ∈ tokens, t.text ≠ []
  offset : ∀ before t after, tokens = before ++ t :: after →
    t.offset = Text.byteSize (before.flatMap Token.text)

variable {s u v r : List Char} {offset : Nat} {t : Token} {before after tokens : List Token}

theorem flatMap_text_listFrom (offset : Nat) (s : List Char) :
    (listFrom offset s).flatMap Token.text = s := by
  fun_induction listFrom offset s with
  | case1 offset s h => rw [first?_eq_none_iff.1 h, List.flatMap_nil]
  | case2 offset s t h ih => rw [List.flatMap_cons, ih, text_append_rest h]

theorem text_ne_nil_of_mem (h : t ∈ listFrom offset s) : t.text ≠ [] := by
  fun_induction listFrom offset s with
  | case1 => cases h
  | case2 offset s u hu ih =>
    rcases List.mem_cons.1 h with rfl | h
    · exact text_ne_nil hu
    · exact ih h

theorem eq_listFrom_of_append (h : listFrom offset s = before ++ after) :
    after = listFrom (offset + Text.byteSize (before.flatMap Token.text)) (after.flatMap Token.text) := by
  induction before generalizing offset s with
  | nil =>
    obtain rfl : listFrom offset s = after := h
    rw [flatMap_text_listFrom]
    rfl
  | cons t before ih =>
    cases hs : first? s with
    | none =>
      rw [first?_eq_none_iff.1 hs, listFrom_nil] at h
      cases h
    | some u =>
      rw [listFrom_of_first? offset hs] at h
      obtain ⟨rfl, hrest⟩ := List.cons.inj h
      have := ih hrest
      rwa [List.flatMap_cons, Text.byteSize_append, ← Nat.add_assoc]

theorem offset_eq_of_cons (h : listFrom offset s = t :: after) : t.offset = offset := by
  cases hs : first? s with
  | none =>
    rw [first?_eq_none_iff.1 hs, listFrom_nil] at h
    cases h
  | some u =>
    rw [listFrom_of_first? offset hs] at h
    obtain ⟨rfl, -⟩ := List.cons.inj h
    rfl

theorem offset_eq_of_append (h : listFrom offset s = before ++ t :: after) :
    t.offset = offset + Text.byteSize (before.flatMap Token.text) :=
  offset_eq_of_cons (eq_listFrom_of_append h).symm

theorem tiles_list (text : String) : Tiles (list text) text.toList where
  text := flatMap_text_listFrom 0 text.toList
  filled _ ht := text_ne_nil_of_mem ht
  offset before t after h := by rw [offset_eq_of_append h, Nat.zero_add]

/-- No token of the text `u ++ r` reaches from `u` into `r`, and those of `r` are what they are
without `u`. -/
def Splits (u r : List Char) : Prop :=
  ∀ offset, ∃ tokens, listFrom offset (u ++ r) = tokens ++ listFrom (offset + Text.byteSize u) r ∧
    tokens.flatMap Token.text = u

theorem splits_nil (r : List Char) : Splits [] r :=
  fun _ => ⟨[], rfl, rfl⟩

theorem splits_all (u : List Char) : Splits u [] := fun offset =>
  ⟨listFrom offset u, by rw [listFrom_nil, List.append_nil, List.append_nil], flatMap_text_listFrom offset u⟩

theorem splits_of_first? {t : First} (h : first? s = some t) : Splits t.text t.rest := fun offset =>
  ⟨[⟨t.kind, t.text, offset⟩], by rw [text_append_rest h, listFrom_of_first? offset h]; rfl, by simp⟩

theorem Splits.append (hu : Splits u (v ++ r)) (hv : Splits v r) : Splits (u ++ v) r := by
  intro offset
  obtain ⟨before, hb, hbu⟩ := hu offset
  obtain ⟨after, ha, hav⟩ := hv (offset + Text.byteSize u)
  refine ⟨before ++ after, ?_, by rw [List.flatMap_append, hbu, hav]⟩
  rw [List.append_assoc, hb, ha, List.append_assoc, Text.byteSize_append, Nat.add_assoc]

/-- A closing bracket belongs to no token that begins before it. -/
theorem lead_le_of_gt (c : Char) (s r : List Char) : (lead c (s ++ '>' :: r)).2 ≤ s.length := by
  by_cases h : Follows c '>'
  · obtain rfl := h.eq (by decide)
    exact Nat.zero_le _
  · exact lead_le_length h

theorem splits_before_gt (u r : List Char) : Splits u ('>' :: r) := by
  induction u using (measure (List.length (α := Char))).wf.induction with
  | _ u ih =>
    cases u with
    | nil => exact splits_nil _
    | cons c u =>
      obtain ⟨t, v, ht, hcu, hrest, hlt⟩ := exists_first?_of_lead_le (lead_le_of_gt c u r)
      have hfirst := splits_of_first? ht
      rw [hrest] at hfirst
      exact hcu ▸ hfirst.append (ih v hlt)

theorem splits_gt (r : List Char) : Splits ['>'] r :=
  splits_of_first? (s := '>' :: r) (t := ⟨.gt, ['>'], r⟩) rfl

theorem splits_behind_gt (u r : List Char) : Splits (u ++ ['>']) r :=
  (splits_before_gt u r).append (splits_gt r)

theorem gt_mem_list {text : String} {before after : List Char}
    (h : text.toList = before ++ '>' :: after) : ⟨.gt, ['>'], Text.byteSize before⟩ ∈ list text := by
  obtain ⟨tokens, htokens, -⟩ := splits_before_gt before after 0
  rw [list, h, htokens, Nat.zero_add, listFrom_of_first? (t := ⟨.gt, ['>'], after⟩) _ rfl]
  exact List.mem_append_right _ List.mem_cons_self

/-- Take the tokens that begin before an offset. -/
def skipTo (stop : Nat) (tokens : List Token) : List Token × List Token :=
  (tokens.takeWhile fun t => t.offset < stop, tokens.dropWhile fun t => t.offset < stop)

theorem skipTo_append {stop : Nat} (hb : ∀ t ∈ before, t.offset < stop)
    (ha : ∀ t ∈ after.head?, ¬t.offset < stop) : skipTo stop (before ++ after) = (before, after) := by
  have hstop : after.takeWhile (fun t => t.offset < stop) = [] ∧
      after.dropWhile (fun t => t.offset < stop) = after := by
    cases after with
    | nil => exact ⟨rfl, rfl⟩
    | cons t after =>
      have ht : ¬decide (t.offset < stop) = true := by simpa using ha t rfl
      exact ⟨List.takeWhile_cons_of_neg ht, List.dropWhile_cons_of_neg ht⟩
  have hb' : ∀ t ∈ before, decide (t.offset < stop) = true := fun t ht => decide_eq_true (hb t ht)
  rw [skipTo, List.takeWhile_append_of_pos hb', List.dropWhile_append_of_pos hb', hstop.1, hstop.2,
    List.append_nil]

/-- Where the text is split, the tokens that begin before the point are those of the text before it. -/
theorem skipTo_listFrom (h : Splits u r) (offset : Nat) : ∃ tokens,
    skipTo (offset + Text.byteSize u) (listFrom offset (u ++ r)) =
      (tokens, listFrom (offset + Text.byteSize u) r) ∧
    listFrom offset (u ++ r) = tokens ++ listFrom (offset + Text.byteSize u) r ∧
    tokens.flatMap Token.text = u := by
  obtain ⟨tokens, htokens, htext⟩ := h offset
  refine ⟨tokens, ?_, htokens, htext⟩
  rw [htokens]
  refine skipTo_append (fun t ht => ?_) fun t ht => ?_
  · obtain ⟨before, after, rfl⟩ := List.append_of_mem ht
    have hmem : t ∈ listFrom offset (u ++ r) := htokens ▸ List.mem_append_left _ ht
    have hpos := Text.byteSize_pos (text_ne_nil_of_mem hmem)
    rw [List.append_assoc, List.cons_append] at htokens
    rw [offset_eq_of_append htokens, ← htext, List.flatMap_append, List.flatMap_cons, Text.byteSize_append,
      Text.byteSize_append]
    omega
  · obtain ⟨after, hafter⟩ := List.head?_eq_some_iff.1 ht
    rw [offset_eq_of_cons hafter]
    exact Nat.lt_irrefl _

end Token

/-- A comment as it is scanned, up to the first arrow or the end of the text. -/
structure Comment where
  text : List Char
  closed : Bool
  deriving DecidableEq, Repr

namespace Comment

def source (c : Comment) : List Char :=
  (Inline.comment c.text c.closed).source

def scan? : List Char → Option (Comment × List Char)
  | '<' :: '!' :: '-' :: '-' :: s =>
    let p := Inline.commentBody s
    some (⟨p.1, p.2.1⟩, p.2.2)
  | _ => none

/-- Scan the comment at a byte offset; the answer has the offset behind the comment. -/
def scanAt? (src : String) (offset : Nat) : Option (Comment × Nat) := do
  let s ← Text.dropBytes? offset src.toList
  let (c, _) ← scan? s
  pure (c, offset + Text.byteSize c.source)

variable {s rest : List Char} {c : Comment}

theorem source_append_of_scan? (h : scan? s = some (c, rest)) : c.source ++ rest = s := by
  unfold scan? at h
  split at h
  · rename_i s
    obtain ⟨rfl, rfl⟩ := Prod.mk.inj (Option.some.inj h)
    have hbody := Inline.commentBody_append s
    rw [List.append_assoc] at hbody
    rw [source, Inline.source, List.append_assoc, List.append_assoc, hbody]
    rfl
  · cases h

theorem scanAt?_eq_some_iff {src : String} {offset stop : Nat} : scanAt? src offset = some (c, stop) ↔
    ∃ before rest, src.toList = before ++ (c.source ++ rest) ∧ Text.byteSize before = offset ∧
      scan? (c.source ++ rest) = some (c, rest) ∧ stop = offset + Text.byteSize c.source :=
  Text.scan_at_eq_some_iff source_append_of_scan?

theorem exists_source_eq_append (h : scan? s = some (c, rest)) :
    rest = [] ∨ ∃ u, c.source = u ++ ['>'] := by
  unfold scan? at h
  split at h
  · rename_i s
    obtain ⟨rfl, rfl⟩ := Prod.mk.inj (Option.some.inj h)
    have hbody := Inline.commentBody_append s
    cases hclosed : (Inline.commentBody s).2.1 with
    | false =>
      rw [hclosed, if_neg Bool.false_ne_true, List.append_nil, Inline.commentBody_of_open hclosed] at hbody
      exact .inl (List.append_right_eq_self.1 hbody)
    | true =>
      exact .inr ⟨['<', '!', '-', '-'] ++ (Inline.commentBody s).1 ++ ['-', '-'],
        by simp [source, Inline.source]⟩
  · cases h

theorem splits_of_scan? (h : scan? s = some (c, rest)) : Token.Splits c.source rest := by
  rcases exists_source_eq_append h with rfl | ⟨u, hu⟩
  · exact Token.splits_all _
  · exact hu ▸ Token.splits_behind_gt u rest

end Comment

namespace StartTag

variable {s rest : List Char} {t : StartTag}

theorem exists_source_eq_append (h : scan? s = some (t, rest)) : ∃ u, t.source = u ++ ['>'] := by
  obtain ⟨u, hu⟩ := exists_ending_eq_append h
  exact ⟨'<' :: t.name ++ t.attributes.flatMap Tag.Attribute.source ++ u, by rw [List.append_assoc, ← hu]; rfl⟩

theorem splits_of_scan? (h : scan? s = some (t, rest)) : Token.Splits t.source rest := by
  obtain ⟨u, hu⟩ := exists_source_eq_append h
  exact hu ▸ Token.splits_behind_gt u rest

end StartTag

namespace EndTag

variable {s rest : List Char} {t : EndTag}

theorem scanAt?_eq_some_iff {src : String} {offset stop : Nat} : scanAt? src offset = some (t, stop) ↔
    ∃ before rest, src.toList = before ++ (t.raw ++ rest) ∧ Text.byteSize before = offset ∧
      scan? (t.raw ++ rest) = some (t, rest) ∧ stop = offset + Text.byteSize t.raw :=
  Text.scan_at_eq_some_iff raw_append_of_scan?

theorem exists_raw_eq_append (h : scan? s = some (t, rest)) : ∃ u, t.raw = u ++ ['>'] := by
  rw [scan?.eq_def] at h
  split at h
  · split at h
    · split at h
      · obtain ⟨rfl, -⟩ := Prod.mk.inj (Option.some.inj h)
        exact ⟨_, rfl⟩
      · cases h
    · cases h
  · cases h

theorem splits_of_scan? (h : scan? s = some (t, rest)) : Token.Splits t.raw rest := by
  obtain ⟨u, hu⟩ := exists_raw_eq_append h
  exact hu ▸ Token.splits_behind_gt u rest

end EndTag

/-- What is scanned from a byte offset of a text: a tag or a comment, as it is written, and the offset
behind it. -/
inductive Scans (src : String) (offset : Nat) : List Char → Nat → Prop
  | startTag {t : StartTag} {stop : Nat} (h : StartTag.scanAt? src offset = some (t, stop)) :
    Scans src offset t.source stop
  | endTag {t : EndTag} {stop : Nat} (h : EndTag.scanAt? src offset = some (t, stop)) :
    Scans src offset t.raw stop
  | comment {c : Comment} {stop : Nat} (h : Comment.scanAt? src offset = some (c, stop)) :
    Scans src offset c.source stop

/-- A scan takes a piece of the text, and no token reaches out of the piece. -/
theorem Scans.exists_splits {src : String} {offset stop : Nat} {raw : List Char}
    (h : Scans src offset raw stop) : ∃ before rest, src.toList = before ++ (raw ++ rest) ∧
      Text.byteSize before = offset ∧ stop = offset + Text.byteSize raw ∧ raw ≠ [] ∧
      Token.Splits raw rest := by
  cases h with
  | startTag h =>
    obtain ⟨before, rest, hsrc, hoffset, hscan, hstop⟩ := StartTag.scanAt?_eq_some_iff.1 h
    exact ⟨before, rest, hsrc, hoffset, hstop, List.cons_ne_nil _ _, StartTag.splits_of_scan? hscan⟩
  | endTag h =>
    obtain ⟨before, rest, hsrc, hoffset, hscan, hstop⟩ := EndTag.scanAt?_eq_some_iff.1 h
    exact ⟨before, rest, hsrc, hoffset, hstop, EndTag.raw_ne_nil_of_scan? hscan, EndTag.splits_of_scan? hscan⟩
  | comment h =>
    obtain ⟨before, rest, hsrc, hoffset, hscan, hstop⟩ := Comment.scanAt?_eq_some_iff.1 h
    exact ⟨before, rest, hsrc, hoffset, hstop, List.cons_ne_nil _ _, Comment.splits_of_scan? hscan⟩

/-- To take the tokens that begin before `stop` is to take the text `raw`: all of it, and not a part of a
token more. -/
structure Token.Takes (stop : Nat) (tokens : List Token) (raw : List Char) : Prop where
  taken : (skipTo stop tokens).1.flatMap Token.text = raw
  left : ∃ rest, tokens.flatMap Token.text = raw ++ rest ∧ (skipTo stop tokens).2 = listFrom stop rest

/-- The tokens of a text make it up, each closing bracket of it is a token, and whatever is scanned from
where a token begins ends behind that, at the end of the text or where another token begins; so the tokens
that begin before the end are what was scanned. -/
theorem scans_end_between_tokens (src : String) :
    Token.Tiles (Token.list src) src.toList ∧
    (∀ before after, src.toList = before ++ '>' :: after →
      ⟨.gt, ['>'], Text.byteSize before⟩ ∈ Token.list src) ∧
    ∀ before t after raw stop, Token.list src = before ++ t :: after → Scans src t.offset raw stop →
      t.offset < stop ∧ (stop = Text.byteSize src.toList ∨ ∃ u ∈ after, u.offset = stop) ∧
        Token.Takes stop (t :: after) raw := by
  refine ⟨Token.tiles_list src, fun _ _ => Token.gt_mem_list, fun before t after raw stop hlist hscan => ?_⟩
  obtain ⟨front, rest, hsrc, hfront, rfl, hne, hsplits⟩ := hscan.exists_splits
  have htiles := (Token.tiles_list src).text
  have hoffset := Token.offset_eq_of_append hlist
  rw [Nat.zero_add] at hoffset
  -- the scan begins where the token does, so what is left for both is the same text
  have hleft : (t :: after).flatMap Token.text = raw ++ rest := by
    rw [hlist, List.flatMap_append, hsrc] at htiles
    exact Text.eq_of_append_of_byteSize_eq htiles (hoffset.symm.trans hfront.symm)
  have htokens : t :: after = Token.listFrom t.offset (raw ++ rest) := by
    rw [← hleft, hoffset, ← Nat.zero_add (Text.byteSize _)]
    exact Token.eq_listFrom_of_append hlist
  obtain ⟨tokens, hskip, happend, htext⟩ := Token.skipTo_listFrom hsplits t.offset
  have hlt : t.offset < t.offset + Text.byteSize raw := Nat.lt_add_of_pos_right (Text.byteSize_pos hne)
  refine ⟨hlt, ?_, ⟨by rw [htokens, hskip]; exact htext, rest, hleft, by rw [htokens, hskip]⟩⟩
  cases hrest : Token.listFrom (t.offset + Text.byteSize raw) rest with
  | nil =>
    have hnil := Token.flatMap_text_listFrom (t.offset + Text.byteSize raw) rest
    rw [hrest, List.flatMap_nil] at hnil
    left
    rw [hsrc, ← hnil, List.append_nil, Text.byteSize_append, hfront]
  | cons u _ =>
    have hu : u.offset = t.offset + Text.byteSize raw := Token.offset_eq_of_cons hrest
    have hmem : u ∈ t :: after := by
      rw [htokens, happend, hrest]
      exact List.mem_append_right _ List.mem_cons_self
    refine .inr ⟨u, (List.mem_cons.1 hmem).resolve_left ?_, hu⟩
    rintro rfl
    exact Nat.ne_of_lt hlt hu

/-- In the value of a tag stand what is no reference, a bracket and a marker. -/
theorem scans_end_between_tokens_quoted :
    ∃ t : StartTag, StartTag.scanAt? "a<b c=\"&x>''\">d" 1 = some (t, 14) ∧
      (∃ u ∈ (Token.list "a<b c=\"&x>''\">d").drop 2, u.offset = 14) ∧
      Token.Takes 14 ((Token.list "a<b c=\"&x>''\">d").drop 1) t.source := by
  have hscan : StartTag.scanAt? "a<b c=\"&x>''\">d" 1 = some (⟨['b'],
      [⟨['c'], [' ', 'c', '=', '"'], some ['&', 'x', '>', '\'', '\''], ['"']⟩], ['>'], false⟩, 14) := by
    decide +kernel
  have hlist : Token.list "a<b c=\"&x>''\">d" =
      [⟨.text, ['a'], 0⟩] ++ ⟨.lt, ['<'], 1⟩ :: (Token.list "a<b c=\"&x>''\">d").drop 2 := by
    decide +kernel
  obtain ⟨-, hend, htakes⟩ := (scans_end_between_tokens _).2.2 _ _ _ _ _ hlist (.startTag hscan)
  refine ⟨_, hscan, hend.resolve_left (by decide), ?_⟩
  rw [hlist]
  exact htakes

end WikiPage
