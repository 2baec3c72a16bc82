import WikiPage.Proofs.Cursor

/-!
# Reading makes progress

Wherever the cursor is and whatever is open, a reader comes to an end, with the cursor further on and
with the same constructs open. For the cursor is always before a token, where an ending of the text
begins; the reader answers what is read of that ending, and leaves the cursor before the ending that is
left then. So every reader takes tokens because text is taken.
-/

namespace WikiPage

open Token (First first? firstKind?)

theorem StartTag.firstKind?_of_scan? {s rest : List Char} {t : StartTag} (h : scan? s = some (t, rest)) :
    firstKind? s = some .lt := by
  unfold scan? at h
  split at h
  · rename_i c s
    split at h
    · rename_i hc
      have hcomment : ¬['!', '-', '-'].isPrefixOf (c :: s) = true := by
        rw [List.isPrefixOf_iff_prefix, List.cons_prefix_cons]
        rintro ⟨rfl, -⟩
        exact absurd hc (by decide)
      rw [firstKind?, first?, Token.lead_lt, if_neg hcomment]
      rfl
    · cases h
  · cases h

theorem EndTag.firstKind?_of_scan? {s rest : List Char} {t : EndTag} (h : scan? s = some (t, rest)) :
    firstKind? s = some .lt := by
  unfold scan? at h
  split at h
  · rfl
  · cases h

variable {text : String} {c d : Cursor} {s u r : List Char} {t : First} {α β : Type}

namespace Cursor

/-- The cursor is before the ending `s` of the text, and a token begins there. -/
structure At (text : String) (c : Cursor) (s : List Char) : Prop where
  position_le : c.position ≤ (Token.list text).length
  exists_left : ∃ before, text.toList = before ++ s ∧
    c.left text = Token.listFrom (Text.byteSize before) s

theorem At.of_position (h : c.At text s) (hp : d.position = c.position) : d.At text s := by
  obtain ⟨hle, hleft⟩ := h
  exact ⟨hp ▸ hle, by rwa [Cursor.left, hp]⟩

theorem at_start (text : String) (opened : List Open) : At text ⟨0, opened⟩ text.toList :=
  ⟨Nat.zero_le _, [], rfl, rfl⟩

theorem exists_at (h : c.position ≤ (Token.list text).length) : ∃ s, c.At text s := by
  have htiles := (Token.tiles_list text).text
  have hsplit := (List.take_append_drop c.position (Token.list text)).symm
  refine ⟨(c.left text).flatMap Token.text, h, ((Token.list text).take c.position).flatMap Token.text, ?_, ?_⟩
  · rw [left, ← List.flatMap_append, List.take_append_drop, htiles]
  · have := Token.eq_listFrom_of_append hsplit
    rwa [Nat.zero_add] at this

theorem At.flatMap_left (h : c.At text s) : (c.left text).flatMap Token.text = s := by
  obtain ⟨-, before, -, hleft⟩ := h
  rw [hleft, Token.flatMap_text_listFrom]

theorem At.position_lt (h : c.At text s) (hd : d.At text u) (hlt : u.length < s.length) :
    c.position < d.position := by
  by_contra hle
  rw [Nat.not_lt] at hle
  have hdrop : d.left text = ((Token.list text).drop d.position).take (c.position - d.position) ++ c.left text := by
    rw [left, left, ← Nat.add_sub_of_le hle, ← List.drop_drop, Nat.add_sub_cancel_left, List.take_append_drop]
  rw [← h.flatMap_left, ← hd.flatMap_left, hdrop, List.flatMap_append, List.length_append] at hlt
  omega

theorem At.position_eq (h : c.At text s) (hd : d.At text u) (hlength : u.length = s.length) :
    c.position = d.position := by
  obtain ⟨hle, before, htext, hleft⟩ := h
  obtain ⟨hle', before', htext', hleft'⟩ := hd
  obtain ⟨rfl, rfl⟩ := List.append_inj' (htext.symm.trans htext') hlength.symm
  have hsame := congrArg List.length (hleft.trans hleft'.symm)
  rw [left, left, List.length_drop, List.length_drop] at hsame
  omega

theorem At.position_le_position (h : c.At text s) (hd : d.At text u) (hle : u.length ≤ s.length) :
    c.position ≤ d.position := by
  rcases Nat.lt_or_eq_of_le hle with hlt | heq
  · exact Nat.le_of_lt (h.position_lt hd hlt)
  · exact Nat.le_of_eq (h.position_eq hd heq)

theorem At.position_eq_length (h : c.At text []) : c.position = (Token.list text).length := by
  obtain ⟨hle, before, -, hleft⟩ := h
  rw [Token.listFrom_nil, left, List.drop_eq_nil_iff] at hleft
  exact Nat.le_antisymm hle hleft

theorem At.advance {before : List Char} {tokens : List Token} (hle : c.position ≤ (Token.list text).length)
    (htext : text.toList = before ++ (u ++ r))
    (hleft : c.left text = tokens ++ Token.listFrom (Text.byteSize before + Text.byteSize u) r) :
    At text ⟨c.position + tokens.length, c.opened⟩ r := by
  refine ⟨?_, before ++ u, by rw [htext, List.append_assoc], ?_⟩
  · have hlength := congrArg List.length hleft
    rw [left, List.length_drop, List.length_append] at hlength
    show c.position + tokens.length ≤ _
    omega
  · show (Token.list text).drop (c.position + tokens.length) = _
    rw [← List.drop_drop, ← left, hleft, List.drop_left, Text.byteSize_append]

theorem At.next (h : c.At text s) (ht : first? s = some t) :
    At text ⟨c.position + 1, c.opened⟩ t.rest := by
  obtain ⟨hle, before, htext, hleft⟩ := h
  rw [← Token.text_append_rest ht] at htext
  rw [Token.listFrom_of_first? _ ht] at hleft
  have hone : c.left text = [⟨t.kind, t.text, Text.byteSize before⟩] ++
      Token.listFrom (Text.byteSize before + Text.byteSize t.text) t.rest := hleft
  exact At.advance hle htext hone

theorem kindAt?_succ (text : String) (c : Cursor) (n : Nat) :
    c.kindAt? text (n + 1) = kindAt? text ⟨c.position + 1, c.opened⟩ n := by
  rw [kindAt?, kindAt?, left, left, List.getElem?_drop, List.getElem?_drop, Nat.add_comm n 1, Nat.add_assoc]

theorem offsetAt_succ (text : String) (c : Cursor) (n : Nat) :
    c.offsetAt text (n + 1) = offsetAt text ⟨c.position + 1, c.opened⟩ n := by
  rw [offsetAt, offsetAt, left, left, List.getElem?_drop, List.getElem?_drop, Nat.add_comm n 1, Nat.add_assoc]

theorem At.kindAt?_zero (h : c.At text s) : c.kindAt? text 0 = firstKind? s := by
  obtain ⟨-, before, -, hleft⟩ := h
  rw [kindAt?, hleft, firstKind?]
  cases hs : first? s with
  | none =>
    rw [Token.first?_eq_none_iff.1 hs, Token.listFrom_nil]
    rfl
  | some t =>
    rw [Token.listFrom_of_first? _ hs]
    rfl

theorem At.exists_offsetAt (h : c.At text s) : ∃ before, text.toList = before ++ s ∧
    c.left text = Token.listFrom (Text.byteSize before) s ∧ c.offsetAt text 0 = Text.byteSize before := by
  obtain ⟨-, before, htext, hleft⟩ := h
  refine ⟨before, htext, hleft, ?_⟩
  rw [offsetAt, hleft]
  cases hs : first? s with
  | none =>
    rw [htext, Token.first?_eq_none_iff.1 hs, Token.listFrom_nil, List.append_nil]
    rfl
  | some t =>
    rw [Token.listFrom_of_first? _ hs]
    rfl

theorem At.dropBytes?_offsetAt (h : c.At text s) :
    Text.dropBytes? (c.offsetAt text 0) text.toList = some s := by
  obtain ⟨before, htext, -, hoffset⟩ := h.exists_offsetAt
  rw [htext, hoffset, Text.dropBytes?_byteSize_append]

theorem At.startTag_scanAt? (h : c.At text s) : StartTag.scanAt? text (c.offsetAt text 0) =
    (StartTag.scan? s).map fun p => (p.1, c.offsetAt text 0 + Text.byteSize p.1.source) :=
  Text.scan_at_eq_map h.dropBytes?_offsetAt

theorem At.endTag_scanAt? (h : c.At text s) : EndTag.scanAt? text (c.offsetAt text 0) =
    (EndTag.scan? s).map fun p => (p.1, c.offsetAt text 0 + Text.byteSize p.1.raw) :=
  Text.scan_at_eq_map h.dropBytes?_offsetAt

theorem At.comment_scanAt? (h : c.At text s) : Comment.scanAt? text (c.offsetAt text 0) =
    (Comment.scan? s).map fun p => (p.1, c.offsetAt text 0 + Text.byteSize p.1.source) :=
  Text.scan_at_eq_map h.dropBytes?_offsetAt

theorem blockTagAt?_succ (text : String) (c : Cursor) (n : Nat) :
    c.blockTagAt? text (n + 1) = blockTagAt? text ⟨c.position + 1, c.opened⟩ n := by
  rw [blockTagAt?, blockTagAt?, kindAt?_succ, offsetAt_succ]

theorem At.blockTagAt?_zero (h : c.At text s) : c.blockTagAt? text 0 =
    (StartTag.block? s).map fun p => (p.1, c.offsetAt text 0 + Text.byteSize p.1.source) := by
  rw [blockTagAt?, h.kindAt?_zero, h.startTag_scanAt?, StartTag.block?]
  cases hs : StartTag.scan? s with
  | none => exact ite_self _
  | some p =>
    rw [if_pos (StartTag.firstKind?_of_scan? hs), Option.map_some, Option.filter_some, Option.filter_some]
    split <;> rfl

theorem At.paragraphEnds_eq (h : c.At text s) (ht : first? s = some t) :
    c.paragraphEnds text = Inline.paragraphEnds t.rest := by
  have hnext := h.next ht
  rw [paragraphEnds, kindAt?_succ, blockTagAt?_succ, hnext.kindAt?_zero, hnext.blockTagAt?_zero,
    Inline.paragraphEnds, firstKind?, Option.isSome_map]
  cases hu : first? t.rest with
  | none => rfl
  | some u =>
    have hblock (hk : u.kind ≠ .lt) : StartTag.block? t.rest = none := by
      rw [StartTag.block?, Option.filter_eq_none_iff]
      intro p hp
      have hlt := StartTag.firstKind?_of_scan? hp
      rw [firstKind?, hu, Option.map_some, Option.some.injEq] at hlt
      exact absurd hlt hk
    rw [Option.map_some]
    cases hk : u.kind <;> simp_all

theorem At.stops_eq (h : c.At text s) : c.stops text = Inline.stops c.opened s := by
  rw [stops, h.kindAt?_zero, h.endTag_scanAt?, Inline.stops, firstKind?]
  cases ht : first? s with
  | none => rfl
  | some t =>
    rw [Option.map_some, h.paragraphEnds_eq ht]
    obtain ⟨kind, w, rest⟩ := t
    cases kind with
    | lt => cases EndTag.scan? s <;> rfl
    | _ => rfl

theorem any_takeWhile_listFrom (offset : Nat) (s : List Char) :
    (((Token.listFrom offset s).takeWhile fun t => t.kind ≠ .newline).any fun t => t.kind = .linkClose) =
      Inline.linkCloses s := by
  fun_induction Inline.linkCloses s generalizing offset with
  | case1 s h => rw [Token.first?_eq_none_iff.1 h, Token.listFrom_nil]; rfl
  | case2 s t h hk => rw [Token.listFrom_of_first? _ h, List.takeWhile_cons_of_neg (by simpa using hk)]; rfl
  | case3 s t h hk hc =>
    rw [Token.listFrom_of_first? _ h, List.takeWhile_cons_of_pos (by simpa using hk), List.any_cons]
    simp [hc]
  | case4 s t h hk hc ih =>
    rw [Token.listFrom_of_first? _ h, List.takeWhile_cons_of_pos (by simpa using hk), List.any_cons, ih]
    simp [hc]

theorem At.linkCloses_eq (h : c.At text s) (ht : first? s = some t) (hk : t.kind = .linkOpen) :
    c.linkCloses text = Inline.linkCloses t.rest := by
  obtain ⟨-, before, -, hleft⟩ := h
  rw [linkCloses, hleft, any_takeWhile_listFrom, Inline.linkCloses_eq ht, hk, if_neg (by decide),
    if_neg (by decide)]

/-- From the cursor `c` the reader answers `x`, leaves the cursor before the ending `s` of the text, and
leaves those constructs open that were open. -/
def Reads (text : String) (m : Reader α) (c : Cursor) (x : α) (s : List Char) : Prop :=
  ∃ d, m c = some (x, d) ∧ d.At text s ∧ d.opened = c.opened

variable {m : Reader α} {f : α → Reader β} {x : α} {y : β}

theorem At.reads_pure (h : c.At text s) (x : α) : Reads text (pure x) c x s :=
  ⟨c, rfl, h, rfl⟩

theorem reads_get {f : Cursor → Reader β} (h : Reads text (f c) c y s) : Reads text (get >>= f) c y s :=
  h

theorem Reads.bind (hm : Reads text m c x s)
    (hf : ∀ d : Cursor, d.At text s → d.opened = c.opened → Reads text (f x) d y r) :
    Reads text (m >>= f) c y r := by
  obtain ⟨d, hd, hat, hopened⟩ := hm
  obtain ⟨e, he, hate, hopened'⟩ := hf d hat hopened
  refine ⟨e, ?_, hate, hopened'.trans hopened⟩
  show (m c).bind (fun p => f p.1 p.2) = _
  rw [hd]
  exact he

theorem Reads.map {g : α → β} (hm : Reads text m c x s) : Reads text (g <$> m) c (g x) s := by
  obtain ⟨d, hd, hat, hopened⟩ := hm
  refine ⟨d, ?_, hat, hopened⟩
  show (m c).bind (fun p => some (g p.1, p.2)) = _
  rw [hd]
  rfl

/-- A construct is open while what it holds is read, and not afterwards. -/
theorem Reads.within {o : Open} (hm : Reads text m ⟨c.position, o :: c.opened⟩ x s)
    (hf : ∀ d : Cursor, d.At text s → d.opened = c.opened → Reads text (f x) d y r) :
    Reads text (do enter o; let x ← m; leave; f x) c y r := by
  obtain ⟨d, hd, hat, hopened⟩ := hm
  have hleave : d.opened.tail = c.opened := by rw [hopened, List.tail_cons]
  obtain ⟨e, he, hate, hopened'⟩ := hf ⟨d.position, d.opened.tail⟩ (hat.of_position rfl) hleave
  refine ⟨e, ?_, hate, hopened'.trans hleave⟩
  show (m ⟨c.position, o :: c.opened⟩).bind (fun p => f p.1 ⟨p.2.position, p.2.opened.tail⟩) = _
  rw [hd]
  exact he

theorem At.reads_take (h : c.At text s) (ht : first? s = some t) :
    Reads text (take text) c t.text t.rest := by
  have hnext := h.next ht
  obtain ⟨-, before, -, hleft⟩ := h
  rw [Token.listFrom_of_first? _ ht] at hleft
  refine ⟨_, ?_, hnext, rfl⟩
  rw [take, hleft]
  rfl

/-- To take the tokens up to the end of a scan is to take what was scanned. -/
theorem At.reads_takeTo (h : c.At text (u ++ r)) (hu : Token.Splits u r) :
    Reads text (takeTo text (c.offsetAt text 0 + Text.byteSize u)) c () r := by
  obtain ⟨before, htext, hleft, hoffset⟩ := h.exists_offsetAt
  obtain ⟨tokens, hskip, happend, -⟩ := Token.skipTo_listFrom hu (Text.byteSize before)
  refine ⟨_, ?_, At.advance h.position_le htext (hleft.trans happend), rfl⟩
  rw [takeTo, hoffset, hleft, hskip]

theorem At.reads_takeIf (h : c.At text s) (kind : Token.Kind) :
    Reads text (takeIf text kind) c (Token.take kind s).1 (Token.take kind s).2 := by
  refine reads_get ?_
  rw [h.kindAt?_zero, firstKind?, Token.take]
  cases ht : first? s with
  | none => exact h.reads_pure false
  | some t =>
    simp only [Option.map_some, Option.some.injEq]
    split
    · exact (h.reads_take ht).bind fun d hd _ => hd.reads_pure true
    · exact h.reads_pure false

theorem At.reads_takeEndTag (h : c.At text s) (name : String) :
    Reads text (takeEndTag text name) c (EndTag.take name s).1 (EndTag.take name s).2 := by
  refine reads_get ?_
  rw [h.endTag_scanAt?, EndTag.take]
  cases hs : EndTag.scan? s with
  | none => exact h.reads_pure none
  | some p =>
    obtain ⟨e, rest⟩ := p
    have hfirst := h.kindAt?_zero.trans (EndTag.firstKind?_of_scan? hs)
    simp only [Option.map_some, hfirst, true_and]
    split
    · rw [← EndTag.raw_append_of_scan? hs] at h
      exact (h.reads_takeTo (EndTag.splits_of_scan? hs)).bind fun d hd _ => hd.reads_pure _
    · exact h.reads_pure none

theorem At.reads_linkTarget (h : c.At text s) {depth : Nat} (hdepth : s.length + 1 ≤ depth) :
    Reads text (linkTarget text depth) c (Inline.linkTarget s).1 (Inline.linkTarget s).2 := by
  obtain ⟨depth, rfl⟩ := Nat.exists_eq_add_one_of_ne_zero (Nat.ne_zero_of_lt hdepth)
  fun_induction Inline.linkTarget s generalizing c depth with
  | case1 s ht =>
    refine reads_get ?_
    rw [if_pos (.inl (by rw [h.kindAt?_zero, firstKind?, ht]; rfl))]
    exact h.reads_pure []
  | case2 s t ht hk =>
    refine reads_get ?_
    rw [h.kindAt?_zero, firstKind?, ht, Option.map_some, if_pos (by simpa using hk)]
    exact h.reads_pure []
  | case3 s t ht hk p =>
    rename_i ih
    have hlt := Token.length_rest_lt ht
    obtain ⟨depth, rfl⟩ : ∃ n, depth = n + 1 := Nat.exists_eq_add_one_of_ne_zero (by omega)
    refine reads_get ?_
    rw [h.kindAt?_zero, firstKind?, ht, Option.map_some, if_neg (by simpa using hk)]
    refine (h.reads_take ht).bind fun d hd _ => ?_
    exact (ih hd depth (by omega)).bind fun e he _ => he.reads_pure _

theorem At.reads_comment (h : c.At text s) (ht : first? s = some t) (hk : t.kind = .commentOpen) :
    Reads text (comment text) c (.comment (Inline.commentBody t.rest).1 (Inline.commentBody t.rest).2.1)
      (Inline.commentBody t.rest).2.2 := by
  have hopening : ['<', '!', '-', '-'] ++ t.rest = s := by
    rw [← Token.text_append_rest ht, Token.text_eq_of_marker? ht (m := ['<', '!', '-', '-']) (by rw [hk]; rfl)]
  have hs : Comment.scan? s = some (⟨(Inline.commentBody t.rest).1, (Inline.commentBody t.rest).2.1⟩,
      (Inline.commentBody t.rest).2.2) := by
    rw [← hopening]
    rfl
  refine reads_get ?_
  rw [h.comment_scanAt?, hs]
  rw [← Comment.source_append_of_scan? hs] at h
  exact (h.reads_takeTo (Comment.splits_of_scan? hs)).bind fun d hd _ => hd.reads_pure _

theorem At.reads_plain [Entities] (h : c.At text s) (ht : first? s = some t) :
    Reads text (plain text) c (match Reference.ofToken? t.kind t.text with
      | some r => .reference t.text r
      | none => .text t.text) t.rest := by
  refine reads_get ?_
  rw [h.kindAt?_zero, firstKind?, ht, Option.map_some]
  refine (h.reads_take ht).bind fun d hd _ => ?_
  rw [Option.bind_some]
  cases Reference.ofToken? t.kind t.text with
  | none => exact hd.reads_pure _
  | some r => exact hd.reads_pure _

/-- Wherever the cursor is before `s`, the reader of runs answers the run that `s` begins with. From a run the
calls go to an item, to markup, to an element, and to the run in its body, which begins behind a token: so
they go four deeper for each character at most. -/
def ReadsRun [Entities] (text : String) (opened : List Open) (s : List Char) : Prop :=
  ∀ (c : Cursor) depth, 4 * s.length + 1 ≤ depth → c.At text s → c.opened = opened →
    Reads text (run text depth) c (Inline.run opened s).val.1 (Inline.run opened s).val.2

section

variable [Entities] {depth : Nat} {tag : StartTag} {rest : List Char}

theorem At.reads_emphasis (h : c.At text s) (ht : first? s = some t) {style : Emphasis}
    (hbody : ReadsRun text (.emphasis style :: c.opened) t.rest) (hdepth : 4 * t.rest.length + 2 ≤ depth) :
    Reads text (emphasis text style depth) c (Inline.emphasized c.opened style t.rest).val.1
      (Inline.emphasized c.opened style t.rest).val.2 := by
  obtain ⟨depth, rfl⟩ : ∃ n, depth = n + 1 := Nat.exists_eq_add_one_of_ne_zero (by omega)
  rw [emphasis, Inline.emphasized_eq]
  refine (h.reads_take ht).bind fun d hd hopened => ?_
  refine Reads.within (hbody _ depth (by omega) (hd.of_position rfl) (congrArg _ hopened)) fun e he _ => ?_
  exact (he.reads_takeIf _).bind fun d hd _ => hd.reads_pure _

theorem At.reads_link (h : c.At text s) (ht : first? s = some t) (hk : t.kind = .linkOpen)
    (hc : Inline.linkCloses t.rest = true) (htitle : ReadsRun text (.title :: c.opened) (Inline.linkHead t.rest).2)
    (hdepth : 4 * t.rest.length + 2 ≤ depth) :
    Reads text (link text depth) c (Inline.linked c.opened t.rest).val.1
      (Inline.linked c.opened t.rest).val.2 := by
  obtain ⟨depth, rfl⟩ : ∃ n, depth = n + 1 := Nat.exists_eq_add_one_of_ne_zero (by omega)
  have hlength := Inline.length_linkHead_le t.rest
  rw [link]
  refine reads_get ?_
  rw [if_pos ((h.linkCloses_eq ht hk).trans hc)]
  refine (h.reads_take ht).bind fun d hd ho => (hd.reads_linkTarget (by omega)).bind fun d hd ho' => ?_
  refine (hd.reads_takeIf .pipe).bind fun d hd ho'' => ?_
  by_cases hp : (Inline.linkHead t.rest).1.2 = true
  · rw [Inline.linked_of_piped hp, if_pos (show (Token.take .pipe (Inline.linkTarget t.rest).2).1 = true from hp)]
    have hopened := ho''.trans (ho'.trans ho)
    refine Reads.within (htitle _ depth (by omega) (hd.of_position rfl) (congrArg _ hopened)) fun e he _ => ?_
    exact (he.reads_takeIf _).bind fun d hd _ => hd.reads_pure _
  · rw [Inline.linked_of_not_piped hp,
      if_neg (show ¬(Token.take .pipe (Inline.linkTarget t.rest).2).1 = true from hp)]
    exact (hd.reads_takeIf _).bind fun d hd _ => hd.reads_pure _

theorem At.reads_element (h : c.At text s) (hs : StartTag.scan? s = some (tag, rest))
    (hbody : ReadsRun text (.tag tag.lowerName :: c.opened) rest) (hdepth : 4 * rest.length + 2 ≤ depth) :
    Reads text (element text tag (c.offsetAt text 0 + Text.byteSize tag.source) depth) c
      (Inline.enclosed c.opened tag rest).val.1 (Inline.enclosed c.opened tag rest).val.2 := by
  obtain ⟨depth, rfl⟩ : ∃ n, depth = n + 1 := Nat.exists_eq_add_one_of_ne_zero (by omega)
  rw [← StartTag.source_append_of_scan? hs] at h
  rw [element]
  refine (h.reads_takeTo (StartTag.splits_of_scan? hs)).bind fun d hd hopened => ?_
  by_cases he : tag.isEmpty = true
  · rw [Inline.enclosed_of_isEmpty he, if_pos he]
    exact hd.reads_pure _
  · rw [Inline.enclosed_of_not_isEmpty he, if_neg he]
    refine Reads.within (hbody _ depth (by omega) (hd.of_position rfl) (congrArg _ hopened)) fun e he _ => ?_
    exact (he.reads_takeEndTag _).bind fun d hd _ => hd.reads_pure _

theorem At.reads_markup (h : c.At text s) (ht : first? s = some t) (hk : t.kind = .lt)
    (hbody : ∀ tag rest, StartTag.scan? s = some (tag, rest) →
      ReadsRun text (.tag tag.lowerName :: c.opened) rest) (hdepth : 4 * s.length ≤ depth + 1) :
    Reads text (markup text depth) c (Inline.item c.opened s t ht).val.1 (Inline.item c.opened s t ht).val.2 := by
  have hlt := Token.length_rest_lt ht
  obtain ⟨depth, rfl⟩ : ∃ n, depth = n + 1 := Nat.exists_eq_add_one_of_ne_zero (by omega)
  rw [markup]
  refine reads_get ?_
  rw [h.startTag_scanAt?]
  cases hs : StartTag.scan? s with
  | some p =>
    have hlt := StartTag.length_rest_lt hs
    rw [Inline.item_of_startTag ht hk hs]
    exact (h.reads_element hs (hbody _ _ hs) (by omega)).bind fun d hd _ => hd.reads_pure _
  | none =>
    rw [h.endTag_scanAt?]
    cases he : EndTag.scan? s with
    | some p =>
      rw [Inline.item_of_endTag ht hk hs he]
      rw [← EndTag.raw_append_of_scan? he] at h
      exact (h.reads_takeTo (EndTag.splits_of_scan? he)).bind fun d hd _ => hd.reads_pure _
    | none =>
      rw [Inline.item_of_lt ht hk hs he]
      exact (h.reads_take ht).map

theorem At.reads_item_of_runs (h : c.At text s) (ht : first? s = some t)
    (hruns : ∀ opened r, r.length < s.length → ReadsRun text opened r) (hdepth : 4 * s.length ≤ depth) :
    Reads text (item text depth) c (Inline.item c.opened s t ht).val.1 (Inline.item c.opened s t ht).val.2 := by
  have hlt := Token.length_rest_lt ht
  obtain ⟨depth, rfl⟩ : ∃ n, depth = n + 1 := Nat.exists_eq_add_one_of_ne_zero (by omega)
  rw [item]
  refine reads_get ?_
  rw [h.kindAt?_zero, firstKind?, ht, Option.map_some]
  cases hk : t.kind with
  | bold =>
    rw [Inline.item_of_bold ht hk]
    exact h.reads_emphasis ht (hruns _ _ hlt) (by omega)
  | italics =>
    rw [Inline.item_of_italics ht hk]
    exact h.reads_emphasis ht (hruns _ _ hlt) (by omega)
  | linkOpen =>
    rw [Inline.item_of_linkOpen ht hk]
    by_cases hc : Inline.linkCloses t.rest = true
    · have hhead := Nat.lt_of_le_of_lt (Inline.length_linkHead_le t.rest) hlt
      rw [if_pos hc]
      exact h.reads_link ht hk hc (hruns _ _ hhead) (by omega)
    · obtain ⟨depth, rfl⟩ : ∃ n, depth = n + 1 := Nat.exists_eq_add_one_of_ne_zero (by omega)
      rw [if_neg hc]
      show Reads text (link text (depth + 1)) _ _ _
      rw [link]
      refine reads_get ?_
      rw [if_neg (by rwa [h.linkCloses_eq ht hk])]
      exact (h.reads_take ht).map
  | commentOpen =>
    rw [Inline.item_of_commentOpen ht hk]
    exact h.reads_comment ht hk
  | lt => exact h.reads_markup ht hk (fun _ _ hs => hruns _ _ (StartTag.length_rest_lt hs)) hdepth
  | newline =>
    rw [Inline.item_of_newline ht hk]
    exact (h.reads_take ht).map
  | _ =>
    have hm := h.reads_plain ht
    have hopener : t.kind ∉ Inline.openers := by simp [hk, Inline.openers]
    cases hr : Reference.ofToken? t.kind t.text with
    | some r =>
      rw [Inline.item_of_reference ht hr]
      rwa [hr] at hm
    | none =>
      rw [Inline.item_of_text ht hopener hr]
      rwa [hr] at hm

/-- Wherever the cursor is, what is answered for a run is what is read of the text that is left. -/
theorem readsRun (text : String) (opened : List Open) (s : List Char) : ReadsRun text opened s := by
  induction s using (measure (List.length (α := Char))).wf.induction generalizing opened with
  | _ s ih =>
    rintro c (_ | depth) hdepth h rfl
    · cases hdepth
    rw [run]
    refine reads_get ?_
    rw [h.stops_eq]
    cases ht : first? s with
    | none =>
      rw [if_pos (by rw [Inline.stops, ht]), Inline.run_of_none ht]
      exact h.reads_pure []
    | some t =>
      by_cases hs : Inline.stops c.opened s = true
      · rw [if_pos hs, Inline.run_of_stops hs]
        exact h.reads_pure []
      · have hlt := (Inline.item c.opened s t ht).property
        rw [if_neg hs, Inline.run_of_item ht hs]
        refine (h.reads_item_of_runs ht (fun opened r hr => ih r hr opened) (by omega)).bind fun d hd hopened => ?_
        exact (ih _ hlt _ d depth (by omega) hd hopened).bind fun e he _ => he.reads_pure _

theorem At.reads_item (h : c.At text s) (ht : first? s = some t) (hdepth : 4 * s.length ≤ depth) :
    Reads text (item text depth) c (Inline.item c.opened s t ht).val.1 (Inline.item c.opened s t ht).val.2 :=
  h.reads_item_of_runs ht (fun opened r _ => readsRun text opened r) hdepth

end

theorem At.atLineStart_next (h : c.At text s) (ht : first? s = some t) (hd : d.At text t.rest) :
    d.atLineStart text = (t.kind == .newline) := by
  have hposition : d.position = c.position + 1 := hd.position_eq (h.next ht) rfl
  obtain ⟨-, before, -, hleft⟩ := h
  have hhead := congrArg (fun l : List Token => l[0]?) hleft
  simp only [left, Token.listFrom_of_first? _ ht, List.getElem?_drop, Nat.add_zero,
    List.getElem?_cons_zero] at hhead
  rw [atLineStart, hposition, Nat.add_sub_cancel, hhead]
  rfl

theorem At.atLineStart_of_gt (hd : d.At text r) (htext : text.toList = u ++ '>' :: r) :
    d.atLineStart text = false := by
  obtain ⟨tokens, htokens, -⟩ := Token.splits_before_gt u r 0
  have hc : At text ⟨0 + tokens.length, []⟩ ('>' :: r) := by
    have hleft : left text ⟨0, []⟩ = tokens ++ Token.listFrom (Text.byteSize [] + Text.byteSize u) ('>' :: r) := by
      show Token.listFrom 0 text.toList = _
      rw [htext, htokens]
      rfl
    exact At.advance (Nat.zero_le _) htext hleft
  exact hc.atLineStart_next (t := ⟨.gt, ['>'], r⟩) rfl hd

end Cursor

namespace Inline

theorem stops_run [Entities] (opened : List Open) (s : List Char) : stops opened (run opened s).val.2 = true := by
  induction s using (measure (List.length (α := Char))).wf.induction with
  | _ s ih =>
    cases ht : first? s with
    | none => rw [run_of_none ht, stops, ht]
    | some t =>
      by_cases hs : stops opened s = true
      · rwa [run_of_stops hs]
      · rw [run_of_item ht hs]
        exact ih _ (item opened s t ht).property

theorem exists_of_stops_tag {name : String} (h : stops [.tag name] s = true) :
    s = [] ∨ ∃ e rest, EndTag.scan? s = some (e, rest) ∧ e.lowerName = name := by
  rw [stops] at h
  cases ht : first? s with
  | none => exact .inl (Token.first?_eq_none_iff.1 ht)
  | some t =>
    right
    rw [ht] at h
    obtain ⟨kind, w, rest⟩ := t
    cases kind with
    | lt =>
      cases he : EndTag.scan? s with
      | none => simp [he] at h
      | some p => exact ⟨p.1, p.2, rfl, by simpa [he] using h⟩
    | _ => simp at h

theorem exists_of_enclosed [Entities] (tag : StartTag) (s : List Char) : (enclosed [] tag s).val.2 = [] ∨
    ∃ u, '>' :: s = u ++ '>' :: (enclosed [] tag s).val.2 := by
  by_cases he : tag.isEmpty = true
  · rw [enclosed_of_isEmpty he]
    exact .inr ⟨[], rfl⟩
  · have hrest : (enclosed [] tag s).val.2 =
        (EndTag.take tag.lowerName (run [.tag tag.lowerName] s).val.2).2 := by
      rw [enclosed_of_not_isEmpty he]
    have hs := sources_run [.tag tag.lowerName] s
    rcases exists_of_stops_tag (stops_run [.tag tag.lowerName] s) with hnil | ⟨e, rest, hscan, hname⟩
    · left
      rw [hrest, hnil]
      rfl
    · right
      obtain ⟨u, hu⟩ := EndTag.exists_raw_eq_append hscan
      refine ⟨'>' :: sources (run [.tag tag.lowerName] s).val.1 ++ u, ?_⟩
      simp only [hrest, EndTag.take, hscan, if_pos hname]
      rw [← EndTag.raw_append_of_scan? hscan, hu] at hs
      simpa using hs.symm

end Inline

namespace Cursor

theorem At.reads_block [Entities] {lineStart : Bool} (h : c.At text s) (hopened : c.opened = []) (hne : s ≠ [])
    (hline : firstKind? s = some .dashes → c.atLineStart text = lineStart) :
    ∃ b r next, (∀ depth, 4 * s.length + 1 ≤ depth → Reads text (block text depth) c b r) ∧ r.length < s.length ∧
      (∀ d : Cursor, d.At text r → firstKind? r = some .dashes → d.atLineStart text = next) ∧
        Block.parse lineStart s = b :: Block.parse next r := by
  fun_cases Block.parse lineStart s with
  | case1 ht => exact absurd (Token.first?_eq_none_iff.1 ht) hne
  | case2 t ht hk =>
    refine ⟨_, _, _, fun depth _ => reads_get ?_, Token.length_rest_lt ht, fun d hd _ => ?_, rfl⟩
    · rw [if_pos (by rw [h.kindAt?_zero, firstKind?, ht, Option.map_some, hk])]
      exact (h.reads_take ht).map
    · rw [h.atLineStart_next ht hd, hk]
      rfl
  | case3 t ht hk hd =>
    have hfirst : firstKind? s = some .dashes := by rw [firstKind?, ht, Option.map_some, hd.1]
    refine ⟨_, _, _, fun depth _ => reads_get ?_, Token.length_rest_lt ht, fun d hd _ => ?_, rfl⟩
    · rw [h.kindAt?_zero, hfirst, if_neg (by decide), if_pos ⟨rfl, (hline hfirst).trans hd.2⟩]
      exact (h.reads_take ht).map
    · rw [h.atLineStart_next ht hd, beq_eq_false_iff_ne]
      exact hk
  | case4 t ht hk hd tag rest hb p =>
    have hs := (Option.filter_eq_some_iff.1 hb).1
    have hlt := StartTag.length_rest_lt hs
    refine ⟨_, _, _, fun depth hdepth => reads_get ?_, Nat.lt_of_le_of_lt p.property hlt,
      fun d hd hfirst => ?_, rfl⟩
    · have helement := h.reads_element hs (readsRun text _ _) (show 4 * rest.length + 2 ≤ depth by omega)
      rw [hopened] at helement
      rw [h.kindAt?_zero, StartTag.firstKind?_of_scan? hs, if_neg (by decide), if_neg (by simp),
        h.blockTagAt?_zero, hb]
      exact helement.bind fun d hd _ => hd.reads_pure _
    · -- a bracket is before the cursor, so no rule stands there
      obtain ⟨-, before, htext, -⟩ := h
      obtain ⟨u, hu⟩ := StartTag.exists_source_eq_append hs
      rw [← StartTag.source_append_of_scan? hs, hu] at htext
      rcases Inline.exists_of_enclosed tag rest with hnil | ⟨v, hv⟩
      · rw [hnil] at hfirst
        cases hfirst
      · refine hd.atLineStart_of_gt (u := before ++ u ++ v) ?_
        calc text.toList = before ++ u ++ '>' :: rest := by rw [htext]; simp
          _ = before ++ u ++ (v ++ '>' :: p.val.2) := congrArg _ hv
          _ = before ++ u ++ v ++ '>' :: p.val.2 := (List.append_assoc ..).symm
  | case5 t ht hk hd hb x xs =>
    have hns := Inline.not_stops_nil ht hk
    refine ⟨_, _, _, fun depth hdepth => reads_get ?_, Nat.lt_of_le_of_lt xs.property x.property,
      fun d _ hd => ?_, rfl⟩
    · have hrule : ¬(firstKind? s = some .dashes ∧ c.atLineStart text = true) := by
        rintro ⟨hfirst, hstart⟩
        rw [hline hfirst] at hstart
        rw [firstKind?, ht, Option.map_some, Option.some.injEq] at hfirst
        exact hd ⟨hfirst, hstart⟩
      have hrun := readsRun text [] s c depth hdepth h hopened
      rw [Inline.run_of_item ht hns] at hrun
      rw [h.kindAt?_zero, if_neg (by simpa [firstKind?, ht] using hk), if_neg hrule, h.blockTagAt?_zero, hb]
      exact hrun.map
    · -- a paragraph leaves a line break or nothing
      obtain ⟨u, hu, hdash⟩ := Option.map_eq_some_iff.1 hd
      have hnewline := (Inline.isLines_run x.val.2).2 u hu
      cases hnewline.symm.trans hdash

theorem At.reads_document [Entities] {lineStart : Bool} {depth : Nat} (h : c.At text s) (hopened : c.opened = [])
    (hdepth : 4 * s.length + 2 ≤ depth)
    (hline : firstKind? s = some .dashes → c.atLineStart text = lineStart) :
    Reads text (document text depth) c (Block.parse lineStart s) [] := by
  induction s using (measure (List.length (α := Char))).wf.induction generalizing c lineStart depth with
  | _ s ih =>
    obtain ⟨depth, rfl⟩ : ∃ n, depth = n + 1 := Nat.exists_eq_add_one_of_ne_zero (by omega)
    rw [document]
    refine reads_get ?_
    by_cases hne : s = []
    · subst hne
      rw [if_pos (show c.kindAt? text 0 = none from h.kindAt?_zero), Block.parse_of_none rfl]
      exact h.reads_pure []
    · have hkind : firstKind? s ≠ none := fun hk => hne (Token.first?_eq_none_iff.1 (Option.map_eq_none_iff.1 hk))
      obtain ⟨b, r, next, hblock, hlt, hnext, hparse⟩ := h.reads_block hopened hne hline
      rw [if_neg (by rwa [h.kindAt?_zero]), hparse]
      refine (hblock depth (by omega)).bind fun d hd ho => ?_
      exact (ih r hlt hd (ho.trans hopened) (by omega) (hnext d hd)).bind fun e he _ => he.reads_pure _

/-- A depth that no call exceeds. -/
def depthFor (text : String) : Nat :=
  4 * text.toList.length + 2

/-- The reader comes to an end, however deep the calls may go beyond what the text takes: with the cursor at
least `n` tokens further on and not beyond the last one, and with those constructs open that were open. -/
def Advances (text : String) (n : Nat) (m : Nat → Reader α) (c : Cursor) : Prop :=
  ∃ x d, (∀ depth, depthFor text ≤ depth → m depth c = some (x, d)) ∧ c.position + n ≤ d.position ∧
    d.position ≤ (Token.list text).length ∧ d.opened = c.opened

theorem At.depth_le (h : c.At text s) {depth : Nat} (hdepth : depthFor text ≤ depth) :
    4 * s.length + 2 ≤ depth := by
  obtain ⟨-, before, htext, -⟩ := h
  rw [depthFor, htext, List.length_append] at hdepth
  omega

/-- The cursor that a reader leaves is known from the text that is left. -/
theorem advances_of_reads {n : Nat} {m : Nat → Reader α} {x : α}
    (hm : ∀ depth, depthFor text ≤ depth → Reads text (m depth) c x r)
    (hn : ∀ d : Cursor, d.At text r → c.position + n ≤ d.position) : Advances text n m c := by
  obtain ⟨d, -, hat, hopened⟩ := hm _ (Nat.le_refl _)
  refine ⟨x, d, fun depth hdepth => ?_, hn d hat, hat.position_le, hopened⟩
  obtain ⟨e, he, hate, hopened'⟩ := hm depth hdepth
  have hposition : e.position = d.position := hate.position_eq hat rfl
  obtain ⟨position, opened⟩ := e
  obtain rfl : position = d.position := hposition
  obtain rfl : opened = d.opened := hopened'.trans hopened.symm
  exact he

theorem At.advances_item [Entities] (h : c.At text s) (ht : first? s = some t) : Advances text 1 (item text) c :=
  advances_of_reads (fun _ hdepth => h.reads_item ht (Nat.le_of_add_right_le (h.depth_le hdepth)))
    fun _ hd => h.position_lt hd (Inline.item c.opened s t ht).property

theorem At.exists_first? (h : c.At text s) {kind : Token.Kind} (hk : c.kindAt? text 0 = some kind) :
    ∃ t, first? s = some t ∧ t.kind = kind := by
  rwa [h.kindAt?_zero, firstKind?, Option.map_eq_some_iff] at hk

/-- What is read where the kind of the token tells which construct begins there. -/
theorem item_eq [Entities] (text : String) (depth : Nat) (c : Cursor) :
    item text (depth + 1) c = (match c.kindAt? text 0 with
      | some .bold => emphasis text .bold depth
      | some .italics => emphasis text .italics depth
      | some .linkOpen => link text depth
      | some .commentOpen => comment text
      | some .lt => markup text depth
      | some .newline => Inline.newline <$> take text
      | _ => plain text) c := by
  rw [item]
  rfl

/-- Reading makes progress from the cursor on. -/
structure Progresses [Entities] (text : String) (c : Cursor) : Prop where
  run : Advances text 0 (run text) c
  item : c.stops text = false → Advances text 1 (item text) c
  emphasis : ∀ style, c.kindAt? text 0 = some (Inline.closer style) → Advances text 1 (emphasis text style) c
  link : c.kindAt? text 0 = some .linkOpen → Advances text 1 (link text) c
  comment : c.kindAt? text 0 = some .commentOpen → Advances text 1 (fun _ => comment text) c
  markup : c.kindAt? text 0 = some .lt → Advances text 1 (markup text) c
  element : ∀ tag stop, StartTag.scanAt? text (c.offsetAt text 0) = some (tag, stop) →
    Advances text 1 (element text tag stop) c
  /-- Nothing is open between blocks. -/
  paragraph : c.opened = [] → c.kindAt? text 0 ≠ none → c.kindAt? text 0 ≠ some .newline →
    Advances text 1 (paragraph text) c
  block : c.opened = [] → c.kindAt? text 0 ≠ none → Advances text 1 (block text) c
  document : c.opened = [] → ∃ blocks, ∀ depth, depthFor text ≤ depth →
    document text depth c = some (blocks, ⟨(Token.list text).length, []⟩)

theorem Reads.eq_some_of_nil {m : Reader α} {x : α} (hm : Reads text m c x []) (hopened : c.opened = []) :
    m c = some (x, ⟨(Token.list text).length, []⟩) := by
  obtain ⟨⟨position, opened⟩, hd, hat, ho⟩ := hm
  obtain rfl : position = (Token.list text).length := hat.position_eq_length
  obtain rfl : opened = [] := ho.trans hopened
  exact hd

theorem At.progresses [Entities] (h : c.At text s) : Progresses text c := by
  -- an item is the construct that its first token begins
  have hsame {m : Nat → Reader Inline} {kind : Token.Kind} (hk : c.kindAt? text 0 = some kind)
      (hm : ∀ depth, item text (depth + 1) c = m depth c) : Advances text 1 m c := by
    obtain ⟨t, ht, -⟩ := h.exists_first? hk
    obtain ⟨x, d, hd, hle⟩ := h.advances_item ht
    exact ⟨x, d, fun depth hdepth => hm depth ▸ hd (depth + 1) (Nat.le_succ_of_le hdepth), hle⟩
  have hne (hk : c.kindAt? text 0 ≠ none) : ∃ t, first? s = some t := by
    obtain ⟨kind, hkind⟩ := Option.ne_none_iff_exists'.1 hk
    obtain ⟨t, ht, -⟩ := h.exists_first? hkind
    exact ⟨t, ht⟩
  refine ⟨?_, fun hs => ?_, fun style hk => ?_, fun hk => ?_, fun hk => ?_, fun hk => ?_, fun tag stop hs => ?_,
    fun ho hk hn => ?_, fun ho hk => ?_, fun ho => ?_⟩
  · refine advances_of_reads (fun depth hdepth => readsRun text c.opened s c depth ?_ h rfl) fun d hd => ?_
    · exact Nat.le_of_succ_le (h.depth_le hdepth)
    · exact h.position_le_position hd (Inline.run c.opened s).property
  · rw [h.stops_eq] at hs
    cases ht : first? s with
    | none => simp [Inline.stops, ht] at hs
    | some t => exact h.advances_item ht
  · refine hsame hk fun depth => ?_
    rw [item_eq, hk]
    cases style <;> rfl
  · exact hsame hk fun depth => by rw [item_eq, hk]
  · exact hsame hk fun depth => by rw [item_eq, hk]
  · exact hsame hk fun depth => by rw [item_eq, hk]
  · rw [h.startTag_scanAt?] at hs
    obtain ⟨⟨tag, rest⟩, hscan, hp⟩ := Option.map_eq_some_iff.1 hs
    obtain ⟨rfl, rfl⟩ := Prod.mk.inj hp
    have hlt := StartTag.length_rest_lt hscan
    refine advances_of_reads (fun depth hdepth => h.reads_element hscan (readsRun _ _ _) ?_) fun d hd => ?_
    · have := h.depth_le hdepth
      omega
    · exact h.position_lt hd (Nat.lt_of_le_of_lt (Inline.enclosed c.opened tag rest).property hlt)
  · obtain ⟨t, ht⟩ := hne hk
    have hkind : t.kind ≠ .newline := by
      rw [h.kindAt?_zero, firstKind?, ht, Option.map_some] at hn
      exact fun hk => hn (congrArg some hk)
    have hlt : (Inline.run [] s).val.2.length < s.length := by
      rw [Inline.run_of_item ht (Inline.not_stops_nil ht hkind)]
      exact Nat.lt_of_le_of_lt (Inline.run [] _).property (Inline.item [] s t ht).property
    refine advances_of_reads (fun depth hdepth => (readsRun text [] s c depth ?_ h ho).map)
      fun d hd => h.position_lt hd hlt
    exact Nat.le_of_succ_le (h.depth_le hdepth)
  · obtain ⟨t, ht⟩ := hne hk
    have hs : s ≠ [] := fun hs => by cases (congrArg first? hs).symm.trans ht
    obtain ⟨b, r, next, hread, hlt, -, -⟩ := h.reads_block ho hs fun _ => rfl
    exact advances_of_reads (fun depth hdepth => hread depth (Nat.le_of_succ_le (h.depth_le hdepth)))
      fun d hd => h.position_lt hd hlt
  · exact ⟨_, fun depth hdepth =>
      (h.reads_document ho (h.depth_le hdepth) fun _ => rfl).eq_some_of_nil ho⟩

end Cursor

/-- Wherever the cursor is in a text and whatever is open, reading makes progress. So the document comes to
an end with all tokens taken and nothing open, and its blocks are those that the text is read into. -/
theorem reading_progresses [Entities] (text : String) :
    (∀ c : Cursor, c.position ≤ (Token.list text).length → c.Progresses text) ∧
    ∀ depth, Cursor.depthFor text ≤ depth → Cursor.document text depth ⟨0, []⟩ =
      some (Block.parse true text.toList, ⟨(Token.list text).length, []⟩) := by
  refine ⟨fun c hc => ?_, fun depth hdepth => ?_⟩
  · obtain ⟨s, h⟩ := Cursor.exists_at hc
    exact h.progresses
  · exact ((Cursor.at_start text []).reads_document rfl hdepth fun _ => rfl).eq_some_of_nil rfl

end WikiPage
