import WikiPage.EntityTable
import WikiPage.Proofs.Paragraphs
import WikiPage.Proofs.Targets

/-!
# What is accepted reads back

The checks of targets and comments leave out what would end a link or a comment early. The other
characters may still make up tokens of several kinds, but none of these reaches beyond the text, and
none begins anything in it.
-/

namespace WikiPage

open Token (First first?)

namespace Token

variable {s r : List Char} {c d : Char} {t : First}

/-- The first token ends before a pipe or bracket, unless that begins it. -/
theorem exists_first?_append (hd : d ∈ ['|', ']']) (hs : s ≠ []) (hn : d ∉ s) (r : List Char) :
    ∃ t v, first? (s ++ d :: r) = some t ∧ s = t.text ++ v ∧ t.rest = v ++ d :: r ∧
      v.length < s.length := by
  obtain ⟨c, s, rfl⟩ := List.exists_cons_of_ne_nil hs
  have hf : ¬Follows c d := by
    intro hf
    obtain rfl := hf.eq (by simp only [List.mem_cons] at hd ⊢; tauto)
    exact hn List.mem_cons_self
  exact exists_first?_of_lead_le (lead_le_length hf)

theorem kind_reference_ne (s : List Char) : (reference s).1 ≠ .newline := by
  unfold reference referenceBody
  repeat' split
  all_goals grind

theorem newline_mem_text (h : first? s = some t) (hk : t.kind = .newline) : '\n' ∈ t.text := by
  cases s with
  | nil => cases h
  | cons c s =>
    obtain rfl : _ = t := Option.some.inj h
    by_cases hn : c = '\n'
    · exact hn ▸ List.mem_cons_self
    by_cases hr : c = '\r'
    · subst hr
      rw [lead_return] at hk ⊢
      split_ifs at hk ⊢ with hs
      · rw [take_of_head? hs]
        simp
    · have branch {b : Prop} [Decidable b] {x y : Kind × Nat} (hx : x.1 ≠ .newline)
          (hy : y.1 ≠ .newline) : (if b then x else y).1 ≠ .newline := by
        split
        · exact hx
        · exact hy
      refine absurd hk ?_
      rw [lead, if_neg hn, if_neg hr]
      repeat' apply branch
      all_goals first | exact kind_reference_ne s | exact Kind.noConfusion

theorem kind_of_isPlain (hc : isPlain c = true ∨ isSpaceOrTab c = true)
    (h : first? (c :: s) = some t) : t.kind = .text ∨ t.kind = .whitespace := by
  obtain rfl : _ = t := Option.some.inj h
  by_cases hs : isSpaceOrTab c = true
  · right
    simp [lead, hs]
  · left
    have hp := hc.resolve_right hs
    simp only [isPlain, Bool.not_eq_true', List.contains_eq_mem, decide_eq_false_iff_not, List.mem_cons,
      List.not_mem_nil, or_false, not_or] at hp
    simp [lead, hs, hp]

end Token

namespace Inline

variable {s t r : List Char}

theorem linkTarget_of_end {u : First} (h : first? s = some u)
    (hk : u.kind = .pipe ∨ u.kind = .linkClose) : linkTarget s = ([], s) := by
  rw [linkTarget]
  split
  · rfl
  · obtain rfl := Option.some.inj (h.symm.trans ‹_›)
    rw [if_pos hk]

theorem linkTarget_of_token {u : First} (h : first? s = some u)
    (hk : ¬(u.kind = .pipe ∨ u.kind = .linkClose)) :
    linkTarget s = (u.text ++ (linkTarget u.rest).1, (linkTarget u.rest).2) := by
  rw [linkTarget]
  split
  · cases h.symm.trans ‹_›
  · obtain rfl := Option.some.inj (h.symm.trans ‹_›)
    rw [if_neg hk]

theorem not_ends_of_not_mem {u : First} (h : first? s = some u) (hp : '|' ∉ u.text)
    (hb : ']' ∉ u.text) : ¬(u.kind = .pipe ∨ u.kind = .linkClose) := by
  rintro (hk | hk)
  · exact hp (by rw [Token.text_eq_of_marker? h (m := ['|']) (by rw [hk]; rfl)]; decide)
  · exact hb (by rw [Token.text_eq_of_marker? h (m := [']', ']']) (by rw [hk]; rfl)]; decide)

theorem linkTarget_append_of {c : Char} (hc : c ∈ ['|', ']']) (hp : '|' ∉ s) (hb : ']' ∉ s) {u : First}
    (hr : first? (c :: r) = some u) (hu : u.kind = .pipe ∨ u.kind = .linkClose) :
    linkTarget (s ++ c :: r) = (s, c :: r) := by
  induction s using (measure (List.length (α := Char))).wf.induction with
  | _ s ih =>
    by_cases hs : s = []
    · rw [hs, List.nil_append, linkTarget_of_end hr hu]
    · have hn : c ∉ s := by
        simp only [List.mem_cons, List.not_mem_nil, or_false] at hc
        rcases hc with rfl | rfl <;> assumption
      obtain ⟨t, v, ht, rfl, hrest, hlt⟩ := Token.exists_first?_append hc hs hn r
      rw [List.mem_append, not_or] at hp hb
      rw [linkTarget_of_token ht (not_ends_of_not_mem ht hp.1 hb.1), hrest, ih v hlt hp.2 hb.2]

/-- A link closes at its brackets if no line break and no other brackets are before them. -/
theorem linkCloses_append (hn : '\n' ∉ s) (hb : ']' ∉ s) (r : List Char) :
    linkCloses (s ++ ']' :: ']' :: r) = true := by
  induction s using (measure (List.length (α := Char))).wf.induction with
  | _ s ih =>
    by_cases hs : s = []
    · subst hs
      rw [List.nil_append, linkCloses_eq (t := ⟨.linkClose, [']', ']'], r⟩) rfl]
      rfl
    · obtain ⟨t, v, ht, rfl, hrest, hlt⟩ := Token.exists_first?_append (by simp) hs hb (']' :: r)
      rw [List.mem_append, not_or] at hn hb
      rw [linkCloses_eq ht, if_neg fun hk => hn.1 (Token.newline_mem_text ht hk), hrest]
      split
      · rfl
      · exact ih v hlt hn.2 hb.2

theorem not_stops_of_text {opened : List Open} {u : First} (h : first? s = some u)
    (hk : u.kind = .text ∨ u.kind = .whitespace) : ¬stops opened s = true := by
  rcases hk with hk | hk <;> simp [stops, h, hk]

theorem run_append_of_isPlain [Entities] {opened : List Open}
    (hs : ∀ c ∈ s, Token.isPlain c = true ∨ Token.isSpaceOrTab c = true) (r : List Char) :
    (run (.title :: opened) (s ++ ']' :: ']' :: r)).val =
      (if s = [] then [] else [text s], ']' :: ']' :: r) := by
  induction s using (measure (List.length (α := Char))).wf.induction with
  | _ s ih =>
    cases s with
    | nil =>
      have hstop : stops (.title :: opened) (']' :: ']' :: r) = true := by
        simp [stops, Token.first?, Token.lead_closeBracket]
      rw [List.nil_append, run_of_stops hstop, if_pos rfl]
    | cons c s =>
      have hb : ']' ∉ c :: s := fun hm => absurd (hs _ hm) (by decide)
      obtain ⟨t, v, ht, hsv, hrest, hlt⟩ :=
        Token.exists_first?_append (by simp) (List.cons_ne_nil c s) hb (']' :: r)
      have hk := Token.kind_of_isPlain (hs c List.mem_cons_self) ht
      have hitem : (item (.title :: opened) (c :: s ++ ']' :: ']' :: r) t ht).val = (text t.text, t.rest) := by
        refine item_of_text ht ?_ ?_ <;> rcases hk with hk | hk <;> simp [hk, openers, Reference.ofToken?]
      have hv := ih v hlt fun d hd => hs d (hsv ▸ List.mem_append_right _ hd)
      rw [run_of_item ht (not_stops_of_text ht hk), hitem, hrest, hv, if_neg (List.cons_ne_nil c s), hsv]
      by_cases hnil : v = [] <;> simp [hnil, cons]

theorem commentBody_of_valid (hd : Valid.hasDashes s = false) (hl : s.getLast? ≠ some '-') (r : List Char) :
    commentBody (s ++ '-' :: '-' :: '>' :: r) = (s, true, r) := by
  induction s with
  | nil => rfl
  | cons c s ih =>
    -- an arrow that begins here would need a second dash in the text, or the first one at its end
    have hc : ¬['-', '-', '>'].isPrefixOf (c :: (s ++ '-' :: '-' :: '>' :: r)) = true := by
      intro h
      obtain ⟨rfl, hp⟩ := List.cons_prefix_cons.1 (List.isPrefixOf_iff_prefix.1 h)
      cases s with
      | nil => exact hl rfl
      | cons d s =>
        obtain ⟨rfl, -⟩ := List.cons_prefix_cons.1 hp
        cases hd
    have hd' : Valid.hasDashes s = false := by
      rw [Valid.hasDashes.eq_def] at hd
      split at hd <;> simp_all
    have hl' : s.getLast? ≠ some '-' := by
      intro h
      rw [List.getLast?_cons, h] at hl
      exact hl rfl
    rw [List.cons_append, commentBody, if_neg hc, ih hd' hl']

end Inline

namespace Block

variable {lineStart : Bool} {s u r : List Char} {t : First}

theorem parse_of_paragraph [Entities] (h : first? s = some t) (hk : t.kind ≠ .newline) (hd : t.kind ≠ .dashes)
    (hb : StartTag.block? s = none) :
    parse lineStart s =
      paragraph (Inline.cons (Inline.item [] s t h).val.1
        (Inline.run [] (Inline.item [] s t h).val.2).val.1) ::
      parse false (Inline.run [] (Inline.item [] s t h).val.2).val.2 := by
  rw [parse]
  split
  · cases h.symm.trans ‹_›
  · rename_i v hv
    obtain rfl : t = v := Option.some.inj (h.symm.trans hv)
    rw [if_neg hk, if_neg fun hl => hd hl.1]
    split
    · rename_i hsome
      cases hb.symm.trans hsome
    · rfl

/-- A comment at the beginning of a line begins a paragraph, and what stands behind it goes on with it. -/
theorem parse_comment [Entities] (hd : Valid.hasDashes s = false) (hl : s.getLast? ≠ some '-') (r : List Char) :
    parse lineStart (['<', '!', '-', '-'] ++ s ++ ['-', '-', '>'] ++ r) =
      paragraph (.comment s true :: (Inline.run [] r).val.1) :: parse false (Inline.run [] r).val.2 := by
  have hbody := Inline.commentBody_of_valid hd hl r
  have hfirst : first? ('<' :: '!' :: '-' :: '-' :: (s ++ '-' :: '-' :: '>' :: r)) =
      some ⟨.commentOpen, ['<', '!', '-', '-'], s ++ '-' :: '-' :: '>' :: r⟩ := rfl
  have hitem : (Inline.item [] _ _ hfirst).val = _ := Inline.item_of_commentOpen hfirst rfl
  rw [hbody] at hitem
  have hall : ['<', '!', '-', '-'] ++ s ++ ['-', '-', '>'] ++ r =
      '<' :: '!' :: '-' :: '-' :: (s ++ '-' :: '-' :: '>' :: r) := by simp
  rw [hall, parse_of_paragraph hfirst (by simp) (by simp) rfl, hitem]
  rfl

theorem parse_of_link [Entities] {item : Inline} (hc : Inline.linkCloses s = true)
    (hl : (Inline.linked [] s).val = (item, [])) :
    parse lineStart ('[' :: '[' :: s) = [paragraph [item]] := by
  have hfirst : first? ('[' :: '[' :: s) = some ⟨.linkOpen, ['[', '['], s⟩ := rfl
  have hitem : (Inline.item [] _ _ hfirst).val = _ := Inline.item_of_linkOpen hfirst rfl
  rw [if_pos hc, hl] at hitem
  rw [parse_of_paragraph hfirst (by simp) (by simp) rfl, hitem, Inline.run_of_none rfl, parse_of_none rfl]
  cases item <;> rfl

/-- What may stand in the target of a link. -/
def IsPlainTarget (s : List Char) : Prop :=
  '|' ∉ s ∧ ']' ∉ s ∧ '\n' ∉ s

theorem parse_link [Entities] (h : IsPlainTarget s) :
    parse lineStart ('[' :: '[' :: (s ++ [']', ']'])) = [paragraph [.link s false [] true]] := by
  obtain ⟨hp, hb, hn⟩ := h
  have hclose : first? [']', ']'] = some ⟨.linkClose, [']', ']'], []⟩ := rfl
  have htarget := Inline.linkTarget_append_of (by simp) hp hb hclose (.inr rfl)
  have hhead : Inline.linkHead (s ++ [']', ']']) = ((s, false), [']', ']']) := by
    rw [Inline.linkHead, htarget]
    rfl
  refine parse_of_link (Inline.linkCloses_append hn hb []) ?_
  rw [Inline.linked_of_not_piped (by simp [hhead]), hhead]
  rfl

theorem parse_titledLink [Entities] (h : IsPlainTarget s)
    (hu : ∀ c ∈ u, Token.isPlain c = true ∨ Token.isSpaceOrTab c = true) (hne : u ≠ []) :
    parse lineStart ('[' :: '[' :: (s ++ '|' :: (u ++ [']', ']']))) =
      [paragraph [.link s true [.text u] true]] := by
  obtain ⟨hp, hb, hn⟩ := h
  have hpipe : first? ('|' :: (u ++ [']', ']'])) = some ⟨.pipe, ['|'], u ++ [']', ']']⟩ := rfl
  have htarget := Inline.linkTarget_append_of (by simp) hp hb hpipe (.inl rfl)
  have hhead : Inline.linkHead (s ++ '|' :: (u ++ [']', ']'])) = ((s, true), u ++ [']', ']']) := by
    rw [Inline.linkHead, htarget]
    rfl
  have hclose : Inline.linkCloses (s ++ '|' :: (u ++ [']', ']'])) = true := by
    have hun : '\n' ∉ u := fun hm => absurd (hu _ hm) (by decide)
    have hub : ']' ∉ u := fun hm => absurd (hu _ hm) (by decide)
    have := Inline.linkCloses_append (s := s ++ '|' :: u) (by simp [hn, hun]) (by simp [hb, hub]) []
    simpa using this
  refine parse_of_link hclose ?_
  rw [Inline.linked_of_piped (by simp [hhead]), hhead]
  simp only [Inline.run_append_of_isPlain hu, if_neg hne]
  rfl

end Block

namespace Valid

theorem isPlainTarget_of_isTarget {s : String} (h : isTarget s = true) : Block.IsPlainTarget s.toList := by
  rw [isTarget, Bool.and_eq_true, List.all_eq_true] at h
  exact ⟨fun hm => absurd (h.2 _ hm) (by decide), fun hm => absurd (h.2 _ hm) (by decide),
    fun hm => absurd (h.2 _ hm) (by decide)⟩

theorem isPlain_of_not_mem {c : Char}
    (h : c ∉ ['\r', '\n', '\'', '[', ']', '|', '<', '>', '&', '-']) :
    Token.isPlain c = true ∨ Token.isSpaceOrTab c = true := by
  by_cases hs : Token.isSpaceOrTab c = true
  · exact .inr hs
  · left
    simp only [Token.isSpaceOrTab, Bool.or_eq_true, beq_iff_eq, not_or] at hs
    simp only [List.mem_cons, List.not_mem_nil, or_false, not_or] at h
    simp [Token.isPlain, hs, h]

end Valid

namespace Node

theorem exists_of_joined_cons {part : Except Arena.Error String} {parts : List (Except Arena.Error String)}
    {s : String} (h : joined (part :: parts) = .ok s) :
    ∃ u v, part = .ok u ∧ joined parts = .ok v ∧ u ++ v = s := by
  obtain ⟨u, hu, h⟩ := Except.exists_of_bind h
  obtain ⟨v, hv, h⟩ := Except.exists_of_bind h
  exact ⟨u, v, hu, hv, Except.ok.inj h⟩

end Node

namespace Arena

variable {a : Arena} {t r : String}

theorem content_read [Entities] (text : String) : (read text).content = new.content := by
  rw [Arena.content, find?_read_root]

/-- The page begins with a paragraph, and that with a comment; what stands behind it prints as `r`. -/
def BeginsWithComment (a : Arena) (t r : String) : Prop :=
  ∃ p blocks content l items, a.find? a.content = some ⟨.list (p :: blocks), none⟩ ∧
    a.find? p = some ⟨.paragraph content, some ⟨["", ""]⟩⟩ ∧
    a.find? content = some ⟨.list (l :: items), none⟩ ∧
    a.find? l = some ⟨.comment t, some ⟨["<!--" ++ t ++ "-->"]⟩⟩ ∧
    Node.joined ((items ++ blocks).map a.print) = .ok r

theorem Founded.print_paragraph (h : a.Founded) {p content : NodeId} {items : List NodeId}
    (hp : a.find? p = some ⟨.paragraph content, some ⟨["", ""]⟩⟩)
    (hc : a.find? content = some ⟨.list items, none⟩) :
    a.print p = Node.joined (items.map a.print) := by
  have hcontent : a.print content = Node.joined (items.map a.print) := h.print_eq hc
  rw [h.print_eq hp]
  cases hj : Node.joined (items.map a.print) <;>
    simp [Payload.children, Node.interleave, hcontent, hj, bind, Except.bind]

theorem joined_read [Entities] (text : String) :
    Node.joined ((stored text).1.map (read text).print) = .ok text := by
  have hprints := (makes_stored text).prints _ (sound_read text).founded (shares_read text)
  rwa [Block.flatMap_source_parse, String.ofList_toList] at hprints

theorem beginsWithComment_read [Entities] (h : checkCommentText t = .ok ()) (r : String) :
    (read ("<!--" ++ t ++ "-->" ++ r)).BeginsWithComment t r := by
  rw [checkCommentText_eq_ok_iff, Valid.isCommentText, Bool.and_eq_true, Bool.not_eq_true', bne_iff_ne] at h
  have htext : ("<!--" ++ t ++ "-->" ++ r).toList =
      ['<', '!', '-', '-'] ++ t.toList ++ ['-', '-', '>'] ++ r.toList := by
    simp only [String.toList_append]
    rfl
  have hf := (sound_read ("<!--" ++ t ++ "-->" ++ r)).founded
  have hjoined := joined_read ("<!--" ++ t ++ "-->" ++ r)
  have hs := standsAt_read ("<!--" ++ t ++ "-->" ++ r)
  have hcontent := find?_read_content ("<!--" ++ t ++ "-->" ++ r)
  rw [htext, Block.parse_comment h.1 h.2] at hs
  generalize (stored ("<!--" ++ t ++ "-->" ++ r)).1 = ids at hjoined hs hcontent
  obtain ⟨p, blocks, hp, -, rfl⟩ := List.forall₂_cons_left_iff.1 hs
  cases hp with
  | @paragraph _ _ content _ hp hc hb =>
    obtain ⟨l, items, hl, -, rfl⟩ := List.forall₂_cons_left_iff.1 hb
    cases hl with
    | comment hl =>
      rw [String.ofList_toList, if_pos rfl] at hl
      refine ⟨p, blocks, content, l, items, ?_, hp, hc, hl, ?_⟩
      · rw [content_read]
        exact hcontent
      · obtain ⟨u, v, hu, hv, huv⟩ := Node.exists_of_joined_cons hjoined
        rw [hf.print_paragraph hp hc] at hu
        obtain ⟨x, w, hx, hw, rfl⟩ := Node.exists_of_joined_cons hu
        obtain rfl : "<!--" ++ t ++ "-->" = x := by
          rw [hf.print_eq hl] at hx
          exact Except.ok.inj hx
        rw [List.map_append, Node.joined_append hw hv]
        rw [String.append_assoc] at huv
        exact congrArg _ ((String.append_right_inj _).1 huv)

/-- The page is one paragraph with one link in it, the title of which is texts. -/
structure HoldsLink (a : Arena) (l : NodeId) (target : String) (titles : List String) : Prop where
  content : ∃ p items, a.find? a.content = some ⟨.list [p], none⟩ ∧
    a.find? p = some ⟨.paragraph items, some ⟨["", ""]⟩⟩ ∧ a.find? items = some ⟨.list [l], none⟩
  link : ∃ title g ids, a.find? l = some ⟨.link target title, some g⟩ ∧
    a.find? title = some ⟨.list ids, none⟩ ∧
    List.Forall₂ (fun x u => a.find? x = some ⟨.text u, none⟩) ids titles

theorem holdsLink_read [Entities] {text : String} {s : List Char} {piped closed : Bool} {us : List (List Char)}
    (h : Block.parse true text.toList = [.paragraph [.link s piped (us.map .text) closed]]) :
    ∃ l, (read text).HoldsLink l (String.ofList s) (us.map String.ofList) := by
  have hs := standsAt_read text
  have hcontent := find?_read_content text
  rw [h] at hs
  generalize (stored text).1 = ids at hs hcontent
  obtain ⟨p, blocks, hp, hblocks, rfl⟩ := List.forall₂_cons_left_iff.1 hs
  obtain rfl := List.forall₂_nil_left_iff.1 hblocks
  cases hp with
  | paragraph hp hc hb =>
    obtain ⟨l, items, hl, hitems, rfl⟩ := List.forall₂_cons_left_iff.1 hb
    obtain rfl := List.forall₂_nil_left_iff.1 hitems
    cases hl with
    | link hl ht hb =>
      refine ⟨l, ⟨p, _, (content_read text).symm ▸ hcontent, hp, hc⟩, _, _, _, hl, ht, ?_⟩
      rw [List.forall₂_map_left_iff] at hb
      rw [List.forall₂_map_right_iff]
      refine (hb.imp fun u x hx => ?_).flip
      cases hx with
      | text hx => exact hx

end Arena

/-- A paragraph with one link in it, the title of which is texts. -/
def Draft.ofLink (p l : NodeId) (target : String) (texts : List NodeId) : Draft :=
  .node .paragraph (.markup p) []
    [.node .link (.markup l) [⟨"target", Normalization.words.apply target, none⟩]
      (texts.map fun x => .node .text (.markup x) [] [])]

namespace Findings

theorem linkUse_of_leadsToPage {site : Site} {target : String} (h : site.LeadsToPage target) :
    linkUse site target = .element := by
  obtain ⟨t, ht, hc, hi⟩ := h
  simp [linkUse, ht, hc, hi]

theorem ofItems_texts {a : Arena} {site : Site} {preserve : Bool} {container : NodeId} (hf : a.Founded)
    {ids : List NodeId} {us : List String}
    (h : List.Forall₂ (fun x u => a.find? x = some ⟨.text u, none⟩) ids us) :
    ofItems a site preserve container (ids.map a.tree) =
      .ok ⟨ids.map fun x => .node .text (.markup x) [] [], []⟩ := by
  induction h with
  | nil => rfl
  | cons hx _ ih =>
    rw [List.map_cons, hf.tree_eq hx, ofItems, ih, ofNode]
    rfl

end Findings

namespace Arena.HoldsLink

variable {a : Arena} {site : Site} {l : NodeId} {target : String} {titles : List String}

theorem findings_eq (h : a.HoldsLink l target titles) (hf : a.Founded) (ht : site.LeadsToPage target)
    (preserve : Bool) : ∃ (p : NodeId) (ids : List NodeId), a.findings site preserve =
      .ok ⟨[.ofLink p l target ids], []⟩ := by
  obtain ⟨p, items, hcontent, hp, hitems⟩ := h.content
  obtain ⟨title, g, ids, hl, htitle, hb⟩ := h.link
  refine ⟨p, ids, ?_⟩
  rw [findings, hf.tree_eq hcontent]
  simp [hf.tree_eq hp, hf.tree_eq hitems, hf.tree_eq hl, hf.tree_eq htitle, Findings.ofLists,
    Findings.ofItems, Findings.ofNode, Payload.children, Payload.isList,
    Findings.linkUse_of_leadsToPage ht, Findings.ofItems_texts hf hb, Findings.append, Findings.wrap,
    Draft.ofLink, Except.map, bind, Except.bind]

end Arena.HoldsLink

namespace Page

/-- One element of the page is a link, made of a node. -/
def HasOneLink (p : Page) (l : NodeId) (target : String) : Prop :=
  ∃ e, p.elements.toList.filter (·.kind = .link) = [e] ∧ e.backing = some (.markup l) ∧
    e.attributes = [⟨"target", Normalization.words.apply target, none⟩]

theorem filter_elementsOf_texts (parent next : Nat) (ids : List NodeId) :
    (Draft.elementsOf parent next (ids.map fun x => .node .text (.markup x) [] [])).filter (·.kind = .link) =
      [] := by
  induction ids generalizing next with
  | nil => rfl
  | cons x ids ih => simp [Draft.elementsOf, Draft.elements, ih]

theorem hasOneLink_ofDrafts (a : Arena) (site : Site) (title target : String) (x l : NodeId)
    (texts : List NodeId) : (ofDrafts a site title [.ofLink x l target texts]).HasOneLink l target := by
  refine ⟨⟨.link, some ⟨2⟩, Draft.ids 4 (texts.map fun x => .node .text (.markup x) [] []),
    some (.markup l), [⟨"target", Normalization.words.apply target, none⟩], []⟩, ?_, rfl, rfl⟩
  simp [ofDrafts, Draft.ofLink, Draft.elementsOf, Draft.elements, filter_elementsOf_texts]

theorem exists_ofArena {a : Arena} {site : Site} {l : NodeId} {target title name : String}
    {titles : List String} (h : a.HoldsLink l target titles) (hf : a.Founded)
    (ht : site.LeadsToPage target) (hn : Verifier.checkPageTitle title = .ok name) (preserve : Bool) :
    ∃ p, ofArena a site title preserve = .ok p ∧ p.HasOneLink l target := by
  obtain ⟨x, ids, hfound⟩ := h.findings_eq hf ht preserve
  refine ⟨_, ?_, hasOneLink_ofDrafts a site name target x l ids⟩
  rw [ofArena, hn, hfound]
  rfl

end Page

/-- A text that is read as one link, from which every page makes one link element. -/
def Site.ReadsLink [Entities] (site : Site) (text target : String) (titles : List String) : Prop :=
  ∃ l, (Arena.read text).HoldsLink l target titles ∧
    ∀ title name preserve, Verifier.checkPageTitle title = .ok name →
      ∃ p, Page.read text site title preserve = .ok p ∧ p.HasOneLink l target

theorem Site.readsLink_of_parse [Entities] {site : Site} {text target : String} {piped closed : Bool}
    (us : List (List Char)) (ht : site.LeadsToPage target)
    (h : Block.parse true text.toList = [.paragraph [.link target.toList piped (us.map .text) closed]]) :
    site.ReadsLink text target (us.map String.ofList) := by
  obtain ⟨l, hl⟩ := Arena.holdsLink_read h
  rw [String.ofList_toList] at hl
  exact ⟨l, hl, fun _ _ preserve hn =>
    Page.exists_ofArena hl (Arena.sound_read text).founded ht hn preserve⟩

/-- Whatever passes the checks reads back: a comment with that text, and right behind it the text that
follows; a link with that target, with and without a title, of which a page makes one link. -/
theorem reads_accepted [Entities] :
    (∀ t r, checkCommentText t = .ok () → (Arena.read ("<!--" ++ t ++ "-->" ++ r)).BeginsWithComment t r) ∧
    ∀ site v t, Verifier.checkLinkTarget site v = .ok t →
      site.ReadsLink ("[[" ++ t ++ "]]") t [] ∧
      ∀ u, u ≠ "" → (∀ c ∈ u.toList, c ∉ ['\r', '\n', '\'', '[', ']', '|', '<', '>', '&', '-']) →
        site.ReadsLink ("[[" ++ t ++ "|" ++ u ++ "]]") t [u] := by
  refine ⟨fun t r h => Arena.beginsWithComment_read h r, fun site v t h => ?_⟩
  have hplain := Valid.isPlainTarget_of_isTarget (Verifier.isTarget_of_checkLinkTarget h)
  have hleads := (Site.leadsToPage_of_checkLinkTarget h).2
  refine ⟨?_, fun u hne hu => ?_⟩
  · have htext : ("[[" ++ t ++ "]]").toList = '[' :: '[' :: (t.toList ++ [']', ']']) := by
      simp [String.toList_append]
    exact Site.readsLink_of_parse [] hleads (htext ▸ Block.parse_link hplain)
  · have htext : ("[[" ++ t ++ "|" ++ u ++ "]]").toList =
        '[' :: '[' :: (t.toList ++ '|' :: (u.toList ++ [']', ']'])) := by
      simp [String.toList_append]
    have hreads := Site.readsLink_of_parse [u.toList] hleads (htext ▸ Block.parse_titledLink hplain
      (fun c hc => Valid.isPlain_of_not_mem (hu c hc)) (mt String.toList_eq_nil_iff.1 hne))
    rwa [List.map_singleton, String.ofList_toList] at hreads

/-- A comment that begins like an arrow, and a target with markers and a reference in it. -/
theorem reads_accepted_marked :
    checkCommentText "->'''" = .ok () ∧
      Verifier.checkLinkTarget .default " it''s&amp;---&so#on " = .ok "it''s&amp;---&so#on" ∧
      (Arena.read ("<!--" ++ "->'''" ++ "-->" ++ "-->")).BeginsWithComment "->'''" "-->" ∧
      ∃ p l, Page.read ("[[" ++ "it''s&amp;---&so#on" ++ "|" ++ "a b" ++ "]]") .default "Test" false = .ok p ∧
        p.HasOneLink l "it''s&amp;---&so#on" := by
  have hcomment : checkCommentText "->'''" = .ok () := rfl
  have htarget : Verifier.checkLinkTarget .default " it''s&amp;---&so#on " = .ok "it''s&amp;---&so#on" := by
    decide +kernel
  have htitle : Verifier.checkPageTitle "Test" = .ok "Test" := by decide +kernel
  have hplain : ∀ c ∈ "a b".toList, c ∉ ['\r', '\n', '\'', '[', ']', '|', '<', '>', '&', '-'] := by
    simp
  obtain ⟨l, -, hpage⟩ := (reads_accepted.2 _ _ _ htarget).2 "a b" (by decide) hplain
  obtain ⟨p, hp, hl⟩ := hpage _ _ false htitle
  exact ⟨hcomment, htarget, reads_accepted.1 _ "-->" hcomment, p, l, hp, hl⟩

end WikiPage
