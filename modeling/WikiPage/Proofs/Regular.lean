import Mathlib.Data.List.Chain
import WikiPage.Markup.Span
import WikiPage.Proofs.Runs
import WikiPage.Proofs.Tokens

/-!
# Regular markup

Whatever the text, the tree that it is read into is regular. No text in it is empty or stands beside
another, a link without a pipe has no title, an element that is written empty has no body, an attribute
is set off by blanks, and a comment that is left open ends with the text.
-/

namespace WikiPage

open Token (First first?)

namespace Tag

/-- What leads from the name of an attribute to its value: an equals sign among blanks, and a quote at
most. -/
def IsSign (s : List Char) : Prop :=
  ∃ before after quote, s = before ++ '=' :: (after ++ quote) ∧ (∀ c ∈ before, isSpace c = true) ∧
    (∀ c ∈ after, isSpace c = true) ∧ quote ∈ [[], ['"'], ['\'']]

/-- An opening of an attribute: blanks, its name, and a sign if it has a value. -/
def Opens (name : List Char) (hasValue : Bool) (opening : List Char) : Prop :=
  ∃ blank sign, opening = blank ++ name ++ sign ∧ blank ≠ [] ∧ (∀ c ∈ blank, isSpace c = true) ∧
    if hasValue then IsSign sign else sign = []

theorem isSpace_of_mem_takeWhile {c : Char} {s : List Char} (h : c ∈ s.takeWhile isSpace) :
    isSpace c = true :=
  List.all_eq_true.1 List.all_takeWhile c h

theorem exists_of_value? {name opening s rest : List Char} {a : Attribute}
    (h : value? name opening s = some (a, rest)) :
    a.name = name ∧ a.value.isSome = true ∧
      ∃ quote ∈ [[], ['"'], ['\'']], a.opening = opening ++ quote := by
  cases s with
  | nil => cases h
  | cons q s =>
    rw [value?] at h
    split at h
    · rename_i hq
      obtain ⟨_, _, he⟩ := Option.map_eq_some_iff.1 h
      obtain ⟨rfl, -⟩ := Prod.mk.inj he
      exact ⟨rfl, rfl, [q], by rcases hq with rfl | rfl <;> simp, rfl⟩
    · rw [bareValue?] at h
      split at h
      · cases h
      · obtain ⟨rfl, -⟩ := Prod.mk.inj (Option.some.inj h)
        exact ⟨rfl, rfl, [], by simp, (List.append_nil _).symm⟩

theorem opens_of_attribute? {blank s rest : List Char} {a : Attribute}
    (h : attribute? blank s = some (a, rest)) (hb : blank ≠ [])
    (hs : ∀ c ∈ blank, isSpace c = true) : Opens a.name a.value.isSome a.opening := by
  rw [attribute?] at h
  split at h
  · rename_i r hr
    obtain ⟨hname, hvalue, quote, hq, ho⟩ := exists_of_value? h
    refine ⟨blank, (s.dropWhile isNameChar).takeWhile isSpace ++ '=' :: (r.takeWhile isSpace ++ quote),
      ?_, hb, hs, ?_⟩
    · rw [ho, hname]
      simp only [List.append_assoc, List.cons_append]
    · rw [if_pos hvalue]
      exact ⟨_, _, quote, rfl, fun _ => isSpace_of_mem_takeWhile,
        fun _ => isSpace_of_mem_takeWhile, hq⟩
  · obtain ⟨rfl, -⟩ := Prod.mk.inj (Option.some.inj h)
    exact ⟨blank, [], (List.append_nil _).symm, hb, hs, rfl⟩

end Tag

namespace StartTag

theorem opens_of_behindName? {s rest : List Char} {p : List Tag.Attribute × List Char × Bool}
    (h : behindName? s = some (p, rest)) :
    ∀ x ∈ p.1, Tag.Opens x.name x.value.isSome x.opening := by
  fun_induction behindName? s generalizing p rest with
  | case1 s r hs =>
    obtain ⟨rfl, -⟩ := Prod.mk.inj (Option.some.inj h)
    simp
  | case2 s r hs =>
    obtain ⟨rfl, -⟩ := Prod.mk.inj (Option.some.inj h)
    simp
  | case3 => cases h
  | case4 => cases h
  | case5 s c t _ _ hs hc a r ha ih =>
    obtain ⟨⟨q, u⟩, hq, he⟩ := Option.map_eq_some_iff.1 h
    obtain ⟨rfl, -⟩ := Prod.mk.inj he
    rw [List.forall_mem_cons]
    exact ⟨Tag.opens_of_attribute? ha hc.2 fun _ => Tag.isSpace_of_mem_takeWhile, ih hq⟩
  | case6 => cases h

theorem opens_of_scan? {s rest : List Char} {t : StartTag} (h : scan? s = some (t, rest)) :
    ∀ x ∈ t.attributes, Tag.Opens x.name x.value.isSome x.opening := by
  unfold scan? at h
  split at h
  · split at h
    · obtain ⟨_, hp, he⟩ := Option.map_eq_some_iff.1 h
      obtain ⟨rfl, -⟩ := Prod.mk.inj he
      exact opens_of_behindName? hp
    · cases h
  · cases h

end StartTag

namespace Token

/-- A token that is no reference has no pipe and no ampersand behind its first character. -/
theorem not_mem_take_lead {c d : Char} (hd : d = '|' ∨ d = '&') (hc : c ≠ '&') (s : List Char) :
    d ∉ s.take (lead c s).2 := by
  intro h
  have hf := follows_of_mem_take_lead h
  rcases hd with rfl | rfl
  · obtain rfl := hf.eq (by decide)
    cases h
  · exact hc (hf.eq (by decide)).symm

theorem pipe_not_mem_take_lead (c : Char) (s : List Char) : '|' ∉ s.take (lead c s).2 := by
  intro h
  obtain rfl := (follows_of_mem_take_lead h).eq (by decide)
  cases h

theorem pipe_not_mem_text {s : List Char} {t : First} (h : first? s = some t)
    (hk : t.kind ≠ .pipe) : '|' ∉ t.text := by
  cases s with
  | nil => cases h
  | cons c s =>
    obtain rfl : _ = t := Option.some.inj h
    refine List.not_mem_cons_of_ne_of_not_mem ?_ (pipe_not_mem_take_lead c s)
    rintro rfl
    exact hk rfl

end Token

/-- The target of a link ends at the first pipe. -/
theorem Inline.pipe_not_mem_linkTarget (s : List Char) : '|' ∉ (linkTarget s).1 := by
  fun_induction linkTarget s with
  | case1 => exact List.not_mem_nil
  | case2 => exact List.not_mem_nil
  | case3 s t h hk p ih =>
    rw [List.mem_append, not_or]
    exact ⟨Token.pipe_not_mem_text h fun hp => hk (.inl hp), ih⟩

theorem Inline.commentBody_of_open {s : List Char} (h : (commentBody s).2.1 = false) :
    (commentBody s).1 = s := by
  fun_induction commentBody s with
  | case1 => rfl
  | case2 => cases h
  | case3 c s _ p ih => exact congrArg _ (ih h)

/-- Of two neighbours one at least is no text. -/
def Apart {α : Type} (isText : α → Bool) (xs : List α) : Prop :=
  xs.IsChain fun x y => isText x = false ∨ isText y = false

theorem Apart.of_head {α : Type} {isText : α → Bool} {x y : α} {xs : List α}
    (h : Apart isText (x :: xs)) (hy : isText y = isText x) : Apart isText (y :: xs) :=
  List.IsChain.imp_head (fun hz => hy ▸ hz) h

theorem Apart.cons {α : Type} {isText : α → Bool} {x : α} {xs : List α} (h : Apart isText xs)
    (hx : ∀ y ys, xs = y :: ys → isText x = false ∨ isText y = false) : Apart isText (x :: xs) := by
  cases xs with
  | nil => exact .singleton x
  | cons y ys => exact .cons_cons (hx y ys rfl) h

namespace Span

def isText : Span → Bool
  | text _ => true
  | reference _ _ => false

def IsFilled : Span → Prop
  | text s => s ≠ []
  | reference _ _ => True

/-- No text is empty, and none stands beside another. -/
structure Regular (spans : List Span) : Prop where
  filled : ∀ x ∈ spans, x.IsFilled
  apart : Apart isText spans

theorem Regular.cons {span : Span} {spans : List Span} (h : Regular spans) (hs : span.IsFilled) :
    Regular (Span.cons span spans) := by
  rw [Span.cons.eq_def]
  split
  · rename_i s t spans
    refine ⟨fun x hx => ?_, h.apart.of_head rfl⟩
    rcases List.mem_cons.1 hx with rfl | hx
    · exact List.append_ne_nil_of_left_ne_nil hs t
    · exact h.filled x (List.mem_cons_of_mem _ hx)
  · rename_i hne
    refine ⟨List.forall_mem_cons.2 ⟨hs, h.filled⟩, h.apart.cons fun y ys hy => ?_⟩
    cases span with
    | reference raw r => exact .inl rfl
    | text s =>
      cases y with
      | reference raw r => exact .inr rfl
      | text t => exact absurd hy (hne s t ys rfl)

theorem regular_list [Entities] (s : List Char) : Regular (list s) := by
  fun_induction list s with
  | case1 => exact ⟨by simp, .nil⟩
  | case2 s t h span ih =>
    refine ih.cons ?_
    simp only [span]
    split
    · trivial
    · exact Token.text_ne_nil h

end Span

namespace Inline

def isText : Inline → Bool
  | text _ => true
  | _ => false

/-- An item as it is read from the beginning of `whole`. -/
inductive Regular (whole : List Char) : Inline → Prop
  | text {s : List Char} (h : s ≠ []) : Regular whole (.text s)
  | newline (s : List Char) : Regular whole (.newline s)
  | reference (raw : List Char) (meaning : Reference) : Regular whole (.reference raw meaning)
  | comment {s : List Char} {closed : Bool}
    (h : closed = false → ['<', '!', '-', '-'] ++ s <:+ whole) : Regular whole (.comment s closed)
  | emphasis {style : Emphasis} {body : List Inline} {closed : Bool}
    (h : ∀ x ∈ body, Regular whole x) (ha : Apart isText body) :
    Regular whole (.emphasis style body closed)
  | link {target : List Char} {piped : Bool} {title : List Inline} {closed : Bool}
    (ht : '|' ∉ target) (hp : piped = false → title = [])
    (h : ∀ x ∈ title, Regular whole x) (ha : Apart isText title) :
    Regular whole (.link target piped title closed)
  | element {tag : StartTag} {body : List Inline} {closing : Option EndTag}
    (ht : ∀ x ∈ tag.attributes, Tag.Opens x.name x.value.isSome x.opening)
    (he : tag.isEmpty = true → body = []) (h : ∀ x ∈ body, Regular whole x)
    (ha : Apart isText body) : Regular whole (.element tag body closing)

theorem Regular.of_suffix {whole rest : List Char} {x : Inline} (h : Regular rest x)
    (hs : rest <:+ whole) : Regular whole x := by
  induction h with
  | text h => exact .text h
  | newline s => exact .newline s
  | reference raw r => exact .reference raw r
  | comment h => exact .comment fun hc => (h hc).trans hs
  | emphasis _ ha ih => exact .emphasis ih ha
  | link ht hp _ ha ih => exact .link ht hp ih ha
  | element ht he _ ha ih => exact .element ht he ih ha

/-- Items as they are read one after the other from the beginning of `whole`. -/
structure RegularRun (whole : List Char) (items : List Inline) : Prop where
  regular : ∀ x ∈ items, Regular whole x
  apart : Apart isText items

theorem regularRun_nil (whole : List Char) : RegularRun whole [] :=
  ⟨by simp, .nil⟩

theorem RegularRun.of_suffix {whole rest : List Char} {items : List Inline}
    (h : RegularRun rest items) (hs : rest <:+ whole) : RegularRun whole items :=
  ⟨fun x hx => (h.regular x hx).of_suffix hs, h.apart⟩

theorem RegularRun.cons {whole : List Char} {x : Inline} {items : List Inline}
    (h : RegularRun whole items) (hx : Regular whole x) : RegularRun whole (Inline.cons x items) := by
  rw [Inline.cons.eq_def]
  split
  · rename_i s t items
    refine ⟨fun y hy => ?_, h.apart.of_head rfl⟩
    rcases List.mem_cons.1 hy with rfl | hy
    · cases hx with
      | text hs => exact .text (by simp [hs])
    · exact h.regular y (List.mem_cons_of_mem _ hy)
  · rename_i hne
    refine ⟨List.forall_mem_cons.2 ⟨hx, h.regular⟩, h.apart.cons fun y ys hy => ?_⟩
    by_contra hc
    rw [not_or, Bool.not_eq_false, Bool.not_eq_false] at hc
    cases x <;> cases hc.1
    cases y <;> cases hc.2
    exact hne _ _ _ rfl hy

theorem inherits_regular [Entities] :
    Inherits (fun _ s item => Regular s item) fun _ s items => RegularRun s items where
  nil _ s := regularRun_nil s
  cons ht _ hx hr := (hr.of_suffix (suffix_item ht)).cons hx
  text := .text
  newline w := .newline w
  reference raw r := .reference raw r
  comment {opened s t} ht hk := by
    refine .comment fun hc => ?_
    have htext := Token.text_eq_of_marker? ht (m := ['<', '!', '-', '-']) (by rw [hk]; rfl)
    exact ⟨[], by rw [List.nil_append, commentBody_of_open hc, ← htext, Token.text_append_rest ht]⟩
  emphasis ht _ _ hb :=
    have hr := hb.of_suffix (Token.rest_suffix ht)
    .emphasis hr.regular hr.apart
  link {opened s t piped title closed} ht _ hp hb :=
    have hr := hb.of_suffix ((suffix_linkHead t.rest).trans (Token.rest_suffix ht))
    .link (pipe_not_mem_linkTarget t.rest) hp hr.regular hr.apart
  element hs he _ hb :=
    have hr := hb.of_suffix ⟨_, StartTag.source_append_of_scan? hs⟩
    .element (StartTag.opens_of_scan? hs) he hr.regular hr.apart

end Inline

namespace Block

/-- A block as it is read from the beginning of `whole`. -/
def Regular (whole : List Char) : Block → Prop
  | newline _ => True
  | rule _ => True
  | paragraph items => Inline.RegularRun whole items
  | element tag body closing => Inline.Regular whole (.element tag body closing)

theorem Regular.of_suffix {whole rest : List Char} {b : Block} (h : b.Regular rest)
    (hs : rest <:+ whole) : b.Regular whole := by
  cases b with
  | newline s => trivial
  | rule dashes => trivial
  | paragraph items => exact Inline.RegularRun.of_suffix h hs
  | element tag body closing => exact Inline.Regular.of_suffix h hs

theorem regular_parse [Entities] (lineStart : Bool) (s : List Char) : ∀ b ∈ parse lineStart s, b.Regular s := by
  intro b hb
  obtain ⟨rest, hr, hb⟩ := has_parse Inline.inherits_regular lineStart s b hb
  refine Regular.of_suffix ?_ hr
  cases b with
  | newline _ => trivial
  | rule _ => trivial
  | paragraph _ => exact hb
  | element _ _ _ => exact hb

end Block
end WikiPage
