import WikiPage.Proofs.Standing

/-!
# How markup nests

A construct is read with those around it on a stack, and a token that closes one of them is never read
as the beginning of another. So emphasis does not stand in emphasis of its own style, at whatever depth;
and no line break stands directly in what ends with the line.
-/

namespace WikiPage

open Token (First first?)

namespace StartTag

/-- The end of a start tag, behind blanks. -/
def IsEnding (ending : List Char) (selfClosing : Bool) : Prop :=
  ∃ blank, (∀ c ∈ blank, Tag.isSpace c = true) ∧
    ending = blank ++ if selfClosing then ['/', '>'] else ['>']

theorem isEnding_of_behindName? {s rest : List Char} {p : List Tag.Attribute × List Char × Bool}
    (h : behindName? s = some (p, rest)) : IsEnding p.2.1 p.2.2 := by
  fun_induction behindName? s generalizing p rest with
  | case1 s r hs =>
    obtain ⟨rfl, -⟩ := Prod.mk.inj (Option.some.inj h)
    exact ⟨_, fun _ => Tag.isSpace_of_mem_takeWhile, rfl⟩
  | case2 s r hs =>
    obtain ⟨rfl, -⟩ := Prod.mk.inj (Option.some.inj h)
    exact ⟨_, fun _ => Tag.isSpace_of_mem_takeWhile, rfl⟩
  | case3 => cases h
  | case4 => cases h
  | case5 s c t _ _ hs hc a r ha ih =>
    obtain ⟨⟨q, u⟩, hq, he⟩ := Option.map_eq_some_iff.1 h
    obtain ⟨rfl, -⟩ := Prod.mk.inj he
    have hend := ih hq
    exact hend
  | case6 => cases h

theorem isEnding_of_scan? {s rest : List Char} {t : StartTag} (h : scan? s = some (t, rest)) :
    IsEnding t.ending t.selfClosing := by
  unfold scan? at h
  split at h
  · split at h
    · obtain ⟨_, hp, he⟩ := Option.map_eq_some_iff.1 h
      obtain ⟨rfl, -⟩ := Prod.mk.inj he
      exact isEnding_of_behindName? hp
    · cases h
  · cases h

/-- A tag that closes itself can be told by its last two characters. -/
theorem IsEnding.selfClosing_iff {ending : List Char} {selfClosing : Bool}
    (h : IsEnding ending selfClosing) : selfClosing = true ↔ ['/', '>'] <:+ ending := by
  obtain ⟨blank, hb, rfl⟩ := h
  cases selfClosing with
  | true => exact ⟨fun _ => List.suffix_append blank _, fun _ => rfl⟩
  | false =>
    refine ⟨Bool.noConfusion, fun ⟨s, hs⟩ => ?_⟩
    have happend : s ++ ['/'] ++ ['>'] = blank ++ ['>'] := by simpa using hs
    obtain rfl := List.append_cancel_right happend
    simpa [Tag.isSpace] using hb '/' (by simp)

end StartTag

namespace Token

theorem lead_return (s : List Char) :
    lead '\r' s = if s.head? = some '\n' then (.newline, 1) else (.punct, 0) := rfl

theorem newline_not_mem_text {s : List Char} {t : First} (h : first? s = some t)
    (hk : t.kind ≠ .newline) : '\n' ∉ t.text := by
  cases s with
  | nil => cases h
  | cons c s =>
    obtain rfl : _ = t := Option.some.inj h
    intro hn
    rcases List.mem_cons.1 hn with rfl | hn
    · exact hk rfl
    · rcases follows_of_mem_take_lead hn with hp | rfl | ⟨-, hs⟩ | ⟨rfl, -⟩ | ⟨-, hd⟩
      · cases hp
      · exact hk rfl
      · cases hs
      · rw [lead_return] at hn hk
        split_ifs at hn hk
        · exact hk rfl
        · cases hn
      · cases hd

theorem closeBracket_mem_text {s : List Char} {t : First} (h : first? s = some t)
    (hk : t.kind ≠ .linkClose) (hb : ']' ∈ t.text) : t.text = [']'] ∧ t.rest.head? ≠ some ']' := by
  cases s with
  | nil => cases h
  | cons c s =>
    obtain rfl : _ = t := Option.some.inj h
    obtain rfl : ']' = c := by
      rcases List.mem_cons.1 hb with hc | hb
      · exact hc
      · exact (follows_of_mem_take_lead hb).eq (by decide)
    rw [lead_closeBracket] at hk ⊢
    split_ifs at hk ⊢ with hs
    · exact absurd rfl hk
    · exact ⟨rfl, hs⟩

end Token

namespace Inline

variable {s : List Char} {t : First}

theorem linkCloses_eq (h : first? s = some t) : linkCloses s =
    if t.kind = .newline then false else if t.kind = .linkClose then true else linkCloses t.rest := by
  rw [linkCloses]
  split
  · cases h.symm.trans ‹_›
  · obtain rfl := Option.some.inj (h.symm.trans ‹_›)
    rfl

theorem newline_not_mem_linkTarget {s : List Char} (h : linkCloses s = true) :
    '\n' ∉ (linkTarget s).1 := by
  fun_induction linkTarget s with
  | case1 => exact List.not_mem_nil
  | case2 => exact List.not_mem_nil
  | case3 s t ht hk p ih =>
    rw [linkCloses_eq ht] at h
    split_ifs at h with hn hc
    · exact absurd (.inr hc) hk
    · rw [List.mem_append, not_or]
      exact ⟨Token.newline_not_mem_text ht hn, ih h⟩

theorem infix_of_append {x y : List Char} (hx : ']' ∉ x) (h : [']', ']'] <:+: x ++ y) :
    [']', ']'] <:+: y := by
  induction x with
  | nil => exact h
  | cons c x ih =>
    rw [List.mem_cons, not_or] at hx
    rw [List.cons_append, List.infix_cons_iff, List.cons_prefix_cons] at h
    exact ih hx.2 (h.resolve_left fun hp => hx.1 hp.1)

theorem brackets_not_infix_linkTarget (s : List Char) : ¬[']', ']'] <:+: (linkTarget s).1 := by
  fun_induction linkTarget s with
  | case1 => simp
  | case2 => simp
  | case3 s t ht hk p ih =>
    intro h
    by_cases hb : ']' ∈ t.text
    · obtain ⟨htext, hhead⟩ := Token.closeBracket_mem_text ht (fun hc => hk (.inr hc)) hb
      rw [htext, List.singleton_append, List.infix_cons_iff, List.cons_prefix_cons] at h
      rcases h with ⟨-, r, hr⟩ | h
      · refine hhead ?_
        rw [← linkTarget_append t.rest, show (linkTarget t.rest).1 = _ from hr.symm]
        rfl
      · exact ih h
    · exact ih (infix_of_append hb h)

end Inline

/-- Constructs that end with the line. -/
def Open.endsWithLine : Open → Bool
  | emphasis _ => true
  | title => true
  | tag _ => false

namespace Inline

def isNewline : Inline → Bool
  | newline _ => true
  | _ => false

/-- An item among the constructs that are open around it. -/
inductive Nested : List Open → Inline → Prop
  | text {opened : List Open} (s : List Char) : Nested opened (.text s)
  | newline {opened : List Open} (s : List Char) : Nested opened (.newline s)
  | reference {opened : List Open} (raw : List Char) (meaning : Reference) :
    Nested opened (.reference raw meaning)
  | comment {opened : List Open} (text : List Char) (closed : Bool) :
    Nested opened (.comment text closed)
  | emphasis {opened : List Open} {style : Emphasis} {body : List Inline} {closed : Bool}
    (hs : .emphasis style ∉ opened) (hl : ∀ x ∈ body, isNewline x = false)
    (h : ∀ x ∈ body, Nested (.emphasis style :: opened) x) :
    Nested opened (.emphasis style body closed)
  | link {opened : List Open} {target : List Char} {piped : Bool} {title : List Inline} {closed : Bool}
    (ht : '\n' ∉ target) (hb : ¬[']', ']'] <:+: target) (hl : ∀ x ∈ title, isNewline x = false)
    (h : ∀ x ∈ title, Nested (.title :: opened) x) : Nested opened (.link target piped title closed)
  | element {opened : List Open} {tag : StartTag} {body : List Inline} {closing : Option EndTag}
    (ht : StartTag.IsEnding tag.ending tag.selfClosing)
    (h : ∀ x ∈ body, Nested (.tag tag.lowerName :: opened) x) :
    Nested opened (.element tag body closing)

/-- What stands in an item has the same constructs around it, and the item. -/
theorem Nested.of_mem_inner {opened : List Open} {x y : Inline} (h : Nested opened x)
    (hy : y ∈ x.inner) : ∃ o, Nested (o :: opened) y := by
  cases h with
  | text | newline | reference | comment => cases hy
  | emphasis _ _ h => exact ⟨_, h y hy⟩
  | link _ _ _ h => exact ⟨_, h y hy⟩
  | element _ h => exact ⟨_, h y hy⟩

theorem Nested.of_reaches {opened : List Open} {x y : Inline} (h : Nested opened x)
    (hr : Reaches inner x y) : ∃ more, Nested (more ++ opened) y := by
  induction hr with
  | refl => exact ⟨[], h⟩
  | tail _ hy ih =>
    obtain ⟨more, hm⟩ := ih
    obtain ⟨o, ho⟩ := hm.of_mem_inner hy
    exact ⟨o :: more, ho⟩

/-- The items of a construct; the constructs that are open begin with it. -/
structure NestedRun (opened : List Open) (items : List Inline) : Prop where
  nested : ∀ x ∈ items, Nested opened x
  line : ∀ o, opened.head? = some o → o.endsWithLine = true → ∀ x ∈ items, isNewline x = false

theorem nestedRun_nil (opened : List Open) : NestedRun opened [] :=
  ⟨by simp, by simp⟩

theorem forall_mem_cons {P : Inline → Prop} {x : Inline} {items : List Inline} (ht : ∀ s, P (text s))
    (hx : P x) (h : ∀ y ∈ items, P y) : ∀ y ∈ cons x items, P y := by
  rw [cons.eq_def]
  split
  · rw [List.forall_mem_cons] at h ⊢
    exact ⟨ht _, h.2⟩
  · exact List.forall_mem_cons.2 ⟨hx, h⟩

theorem NestedRun.cons {opened : List Open} {x : Inline} {items : List Inline}
    (h : NestedRun opened items) (hx : Nested opened x)
    (hl : ∀ o, opened.head? = some o → o.endsWithLine = true → isNewline x = false) :
    NestedRun opened (Inline.cons x items) :=
  ⟨forall_mem_cons .text hx h.nested, fun o ho he =>
    forall_mem_cons (fun _ => rfl) (hl o ho he) (h.line o ho he)⟩

variable {opened : List Open} {s : List Char} {t : First}

theorem stops_of_closer {style : Emphasis} (h : first? s = some t) (hk : t.kind = closer style) :
    stops opened s = opened.contains (.emphasis style) := by
  rw [stops]
  cases style <;> simp_all [closer]

theorem stops_of_newline {o : Open} (h : first? s = some t) (hk : t.kind = .newline) :
    stops (o :: opened) s = o.endsWithLine := by
  rw [stops]
  cases o <;> simp_all [Open.endsWithLine]

/-- What does not stop a run closes none of the open constructs. -/
theorem emphasis_not_mem (style : Emphasis) (h : first? s = some t) (hk : t.kind = closer style)
    (hs : ¬stops opened s = true) : .emphasis style ∉ opened := by
  rw [stops_of_closer h hk, List.contains_eq_mem, decide_eq_true_eq] at hs
  exact hs

theorem isNewline_linked [Entities] (opened : List Open) (s : List Char) :
    isNewline (linked opened s).val.1 = false := by
  by_cases hp : (linkHead s).1.2 = true
  · rw [linked_of_piped hp]
    rfl
  · rw [linked_of_not_piped hp]
    rfl

theorem isNewline_item [Entities] (h : first? s = some t) :
    isNewline (item opened s t h).val.1 = (t.kind == .newline) := by
  cases hk : t.kind with
  | bold =>
    rw [item_of_bold h hk, emphasized_eq]
    rfl
  | italics =>
    rw [item_of_italics h hk, emphasized_eq]
    rfl
  | linkOpen =>
    rw [item_of_linkOpen h hk]
    split
    · exact isNewline_linked _ _
    · rfl
  | commentOpen =>
    rw [item_of_commentOpen h hk]
    rfl
  | lt =>
    cases hs : StartTag.scan? s with
    | some p =>
      rw [item_of_startTag h hk hs]
      rfl
    | none =>
      cases he : EndTag.scan? s with
      | some p =>
        rw [item_of_endTag h hk hs he]
        rfl
      | none =>
        rw [item_of_lt h hk hs he]
        rfl
  | newline =>
    rw [item_of_newline h hk]
    rfl
  | _ =>
    cases hr : Reference.ofToken? t.kind t.text with
    | some r =>
      rw [item_of_reference h hr]
      rfl
    | none =>
      rw [item_of_text h (by simp [hk, openers]) hr]
      rfl

theorem inherits_nested [Entities] :
    Inherits (fun opened _ item => Nested opened item) fun opened _ items => NestedRun opened items where
  nil opened _ := nestedRun_nil opened
  cons ht hs hx hr := by
    refine hr.cons hx fun o ho he => ?_
    obtain ⟨rest, rfl⟩ := List.head?_eq_some_iff.1 ho
    rw [isNewline_item ht, beq_eq_false_iff_ne]
    exact fun hk => hs ((stops_of_newline ht hk).trans he)
  text _ := .text _
  newline w := .newline w
  reference raw r := .reference raw r
  comment _ _ := .comment _ _
  emphasis {opened s t style body closed} ht hk hs hb :=
    .emphasis (emphasis_not_mem style ht hk hs) (hb.line (.emphasis style) rfl rfl) hb.nested
  link {opened s t piped title closed} _ hc _ hb :=
    .link (newline_not_mem_linkTarget hc) (brackets_not_infix_linkTarget t.rest) (hb.line .title rfl rfl)
      hb.nested
  element hs _ _ hb := .element (StartTag.isEnding_of_scan? hs) hb.nested

end Inline

theorem Block.nested_parse [Entities] (lineStart : Bool) (s : List Char) :
    ∀ b ∈ parse lineStart s, ∀ x ∈ b.items, Inline.Nested [] x := by
  intro b hb
  obtain ⟨rest, -, hb⟩ := has_parse Inline.inherits_nested lineStart s b hb
  cases b with
  | newline _ => exact List.forall_mem_nil _
  | rule _ => exact List.forall_mem_nil _
  | paragraph _ => exact hb.nested
  | element _ _ _ => exact List.forall_mem_singleton.2 hb

def Payload.isNewline : Payload → Bool
  | newline _ => true
  | _ => false

namespace Arena

/-- A list with no line break directly in it. -/
def IsLine (a : Arena) (id : NodeId) : Prop :=
  ∃ items, a.find? id = some ⟨.list items, none⟩ ∧ ∀ x ∈ items, ¬a.Is Payload.isNewline x

/-- How the nodes of a page that was read nest. -/
structure WellNested (a : Arena) : Prop where
  /-- Emphasis does not stand below emphasis of its own style. -/
  emphasis : ∀ {x y style content content' g g'}, a.find? x = some ⟨.emphasis style content, g⟩ →
    a.find? y = some ⟨.emphasis style content', g'⟩ → ∀ z ∈ a.kids x, ¬Reaches a.kids z y
  bodies : ∀ {x style content g}, a.find? x = some ⟨.emphasis style content, g⟩ → a.IsLine content
  titles : ∀ {x target title g}, a.find? x = some ⟨.link target title, g⟩ → a.IsLine title
  targets : ∀ {x target title g}, a.find? x = some ⟨.link target title, g⟩ →
    '|' ∉ target.toList ∧ '\n' ∉ target.toList ∧ ¬[']', ']'] <:+: target.toList
  /-- Elements that never have a body, and those whose start tag closes itself. -/
  elements : ∀ {x name empty attributes body g},
    a.find? x = some ⟨.element name empty attributes body, g⟩ →
    ∃ opening ending closing, g = some ⟨[opening, ending, closing]⟩ ∧
      (empty = true ↔ name.toLower ∈ ["br", "hr"] ∨ ['/', '>'] <:+ ending.toList) ∧
      (empty = true → a.find? body = some ⟨.list [], none⟩)

end Arena

namespace Inline.StandsAt

variable {a : Arena} {item : Inline} {x content : NodeId} {g : Option Glue}

theorem of_emphasis {style : Emphasis} (h : item.StandsAt a x)
    (hn : a.find? x = some ⟨.emphasis style content, g⟩) :
    ∃ body closed ids, item = .emphasis style body closed ∧
      a.find? content = some ⟨.list ids, none⟩ ∧ List.Forall₂ (StandsAt a) body ids := by
  cases h with
  | emphasis hx hc hb =>
    cases hn.symm.trans hx
    exact ⟨_, _, _, rfl, hc, hb⟩
  | text hx | newline hx | reference hx | comment hx | link hx _ _ | element hx _ _ _ =>
    cases hn.symm.trans hx

theorem of_link {target : String} (h : item.StandsAt a x)
    (hn : a.find? x = some ⟨.link target content, g⟩) :
    ∃ piped title closed ids, item = .link target.toList piped title closed ∧
      a.find? content = some ⟨.list ids, none⟩ ∧ List.Forall₂ (StandsAt a) title ids := by
  cases h with
  | link hx hc hb =>
    cases hn.symm.trans hx
    exact ⟨_, _, _, _, by rw [String.toList_ofList], hc, hb⟩
  | text hx | newline hx | reference hx | comment hx | emphasis hx _ _ | element hx _ _ _ =>
    cases hn.symm.trans hx

theorem of_element {name : String} {empty : Bool} {attributes : NodeId} (h : item.StandsAt a x)
    (hn : a.find? x = some ⟨.element name empty attributes content, g⟩) :
    ∃ tag body closing, item = .element tag body closing ∧ name = String.ofList tag.name ∧
      empty = tag.isEmpty ∧ g = some ⟨[String.ofList ('<' :: tag.name), String.ofList tag.ending,
        String.ofList ((closing.map EndTag.raw).getD [])]⟩ := by
  cases h with
  | element hx _ _ _ =>
    cases hn.symm.trans hx
    exact ⟨_, _, _, rfl, rfl, rfl, rfl⟩
  | text hx | newline hx | reference hx | comment hx | emphasis hx _ _ | link hx _ _ =>
    cases hn.symm.trans hx

theorem isNewline_eq (h : item.StandsAt a x) (hx : a.Is Payload.isNewline x) :
    item.isNewline = true := by
  obtain ⟨n, hn, hk⟩ := hx
  cases h with
  | newline _ => rfl
  | text hx | reference hx | comment hx | emphasis hx _ _ | link hx _ _ | element hx _ _ _ =>
    cases hn.symm.trans hx
    cases hk

end Inline.StandsAt

namespace Arena

theorem isLine_of_forall₂ {a : Arena} {content : NodeId} {items : List Inline} {ids : List NodeId}
    (hc : a.find? content = some ⟨.list ids, none⟩)
    (hb : List.Forall₂ (Inline.StandsAt a) items ids)
    (hl : ∀ x ∈ items, x.isNewline = false) : a.IsLine content := by
  refine ⟨ids, hc, fun y hy hn => ?_⟩
  obtain ⟨item, hitem, hs⟩ := exists_mem_of_forall₂ hb hy
  exact Bool.noConfusion ((hs.isNewline_eq hn).symm.trans (hl item hitem))

theorem Shaped.body_of_empty {whole : List Char} {a : Arena} {name : String} {empty : Bool}
    {attributes body : NodeId} {g : Option Glue}
    (h : Shaped whole a ⟨.element name empty attributes body, g⟩) (he : empty = true) :
    a.find? body = some ⟨.list [], none⟩ := by
  cases h with
  | element hbody => exact hbody he

theorem nested_of_find?_read [Entities] {text : String} {x : NodeId} {n : Node}
    (hn : (read text).find? x = some n) (he : n.payload.encloses = true) :
    ∃ opened item, Inline.Nested opened item ∧ item.StandsAt (read text) x := by
  obtain ⟨block, hblock, item, ⟨top, htop, hr⟩, hs⟩ := exists_item_of_find?_read hn he
  obtain ⟨more, hm⟩ := (Block.nested_parse true text.toList block hblock top htop).of_reaches hr
  exact ⟨_, item, hm, hs⟩

/-- Whatever the text, what it is read into is well nested. -/
theorem wellNested_read [Entities] (text : String) : (read text).WellNested where
  emphasis {x y style content content' g g'} hx hy z hz hr := by
    obtain ⟨opened, item, hn, hs⟩ := nested_of_find?_read hx rfl
    obtain ⟨body, closed, ids, rfl, hc, hb⟩ := hs.of_emphasis hx
    rw [kids_of_find? hx] at hz
    obtain rfl := List.mem_singleton.1 hz
    rcases belongs_of_reaches_list (sound_read text) hc hb hr with rfl | ⟨top, htop, hs⟩
    · cases hc.symm.trans hy
    obtain ⟨part, hp, hs⟩ := hs.exists_part hy rfl rfl
    obtain ⟨_, _, _, rfl, -, -⟩ := hs.of_emphasis hy
    cases hn with
    | emphasis _ _ hbody =>
      obtain ⟨more, hm⟩ := (hbody top htop).of_reaches hp
      cases hm with
      | emphasis hstyle _ _ => exact hstyle (by simp)
  bodies {x style content g} hx := by
    obtain ⟨opened, item, hn, hs⟩ := nested_of_find?_read hx rfl
    obtain ⟨body, closed, ids, rfl, hc, hb⟩ := hs.of_emphasis hx
    cases hn with
    | emphasis _ hl _ => exact isLine_of_forall₂ hc hb hl
  titles {x target title g} hx := by
    obtain ⟨opened, item, hn, hs⟩ := nested_of_find?_read hx rfl
    obtain ⟨piped, body, closed, ids, rfl, hc, hb⟩ := hs.of_link hx
    cases hn with
    | link _ _ hl _ => exact isLine_of_forall₂ hc hb hl
  targets {x target title g} hx := by
    obtain ⟨opened, item, hn, hs⟩ := nested_of_find?_read hx rfl
    obtain ⟨piped, body, closed, ids, rfl, -, -⟩ := hs.of_link hx
    refine ⟨?_, ?_⟩
    · cases shaped_read hx with
      | link ht _ => exact ht
    · cases hn with
      | link ht hb _ _ => exact ⟨ht, hb⟩
  elements {x name empty attributes body g} hx := by
    obtain ⟨opened, item, hn, hs⟩ := nested_of_find?_read hx rfl
    obtain ⟨tag, body, closing, rfl, rfl, rfl, rfl⟩ := hs.of_element hx
    refine ⟨_, _, _, rfl, ?_, ?_⟩
    · cases hn with
      | element ht _ =>
        rw [String.toList_ofList, ← ht.selfClosing_iff, StartTag.isEmpty, Bool.or_eq_true,
          List.contains_eq_mem, decide_eq_true_eq, StartTag.lowerName, or_comm]
    · exact (shaped_read hx).body_of_empty

end Arena
end WikiPage
