import WikiPage.Proofs.Accepted
import WikiPage.Proofs.Rescanned

/-!
# Landmarks of a text

The links and tags of a text can be found without the tree that it is read into: only comments, tags and the
targets of links are passed over, whatever else is open around them. So they are the same in every text that
is put together from the same pieces, as long as no piece reaches into the next.
-/

namespace WikiPage

open Token (First first?)

/-- A link or a start tag. -/
inductive Landmark
  /-- A link, and whether its title is plain. -/
  | link (target : List Char) (plain : Bool)
  | tag (name : List Char)
  deriving DecidableEq, Repr

namespace Landmark

/-- A title is plain if it has characters of this kind only, so nothing in it could begin a link or a tag
or end the line. -/
def isPlain (c : Char) : Bool :=
  !(['[', ']', '<', '\n'].contains c)

/-- Whether a link with a plain title, or without one, ends behind a target. -/
def endsPlainly : List Char → Bool
  | '|' :: s => [']', ']'].isPrefixOf (s.dropWhile isPlain)
  | s => [']', ']'].isPrefixOf s

def isTitledPlainly : Landmark → Bool
  | link _ plain => plain
  | tag _ => true

end Landmark

open Landmark (isPlain endsPlainly isTitledPlainly)

namespace Text

/-- The landmarks of a text from the left. -/
def landmarks (s : List Char) : List Landmark :=
  match _h : first? s with
  | none => []
  | some t =>
    match t.kind with
    | .linkOpen =>
      if Inline.linkCloses t.rest then
        let p := Inline.linkTarget t.rest
        .link p.1 (endsPlainly p.2) :: landmarks p.2
      else landmarks t.rest
    | .commentOpen => landmarks (Inline.commentBody t.rest).2.2
    | .lt =>
      match _hs : StartTag.scan? s with
      | some (tag, rest) => .tag tag.name :: landmarks rest
      | none => landmarks t.rest
    | _ => landmarks t.rest
termination_by s.length
decreasing_by
  · have hlt := Token.length_rest_lt _h
    have happend := congrArg List.length (Inline.linkTarget_append t.rest)
    rw [List.length_append] at happend
    omega
  · exact Token.length_rest_lt _h
  · exact Nat.lt_of_le_of_lt (Inline.length_commentBody_le _) (Token.length_rest_lt _h)
  · exact StartTag.length_rest_lt _hs
  · exact Token.length_rest_lt _h
  · exact Token.length_rest_lt _h

section
variable {s rest : List Char} {t : First}

theorem landmarks_nil : landmarks [] = [] := by
  rw [landmarks]
  rfl

theorem landmarks_of_linkOpen (h : first? s = some t) (hk : t.kind = .linkOpen)
    (hc : Inline.linkCloses t.rest = true) : landmarks s =
      .link (Inline.linkTarget t.rest).1 (endsPlainly (Inline.linkTarget t.rest).2) ::
        landmarks (Inline.linkTarget t.rest).2 := by
  rw [landmarks]
  split
  · cases h.symm.trans ‹_›
  · obtain rfl := Option.some.inj (h.symm.trans ‹_›)
    simp only [hk, if_pos hc]

theorem landmarks_of_looseLink (h : first? s = some t) (hk : t.kind = .linkOpen)
    (hc : ¬Inline.linkCloses t.rest = true) : landmarks s = landmarks t.rest := by
  rw [landmarks]
  split
  · cases h.symm.trans ‹_›
  · obtain rfl := Option.some.inj (h.symm.trans ‹_›)
    simp only [hk, if_neg hc]

theorem landmarks_of_commentOpen (h : first? s = some t) (hk : t.kind = .commentOpen) :
    landmarks s = landmarks (Inline.commentBody t.rest).2.2 := by
  rw [landmarks]
  split
  · cases h.symm.trans ‹_›
  · obtain rfl := Option.some.inj (h.symm.trans ‹_›)
    simp only [hk]

theorem landmarks_of_startTag {tag : StartTag} (h : first? s = some t) (hk : t.kind = .lt)
    (hs : StartTag.scan? s = some (tag, rest)) : landmarks s = .tag tag.name :: landmarks rest := by
  rw [landmarks]
  split
  · cases h.symm.trans ‹_›
  · obtain rfl := Option.some.inj (h.symm.trans ‹_›)
    simp only [hk]
    split
    · obtain ⟨rfl, rfl⟩ := Prod.mk.inj (Option.some.inj (hs.symm.trans ‹_›))
      rfl
    · cases hs.symm.trans ‹_›

theorem landmarks_of_lt (h : first? s = some t) (hk : t.kind = .lt) (hs : StartTag.scan? s = none) :
    landmarks s = landmarks t.rest := by
  rw [landmarks]
  split
  · cases h.symm.trans ‹_›
  · obtain rfl := Option.some.inj (h.symm.trans ‹_›)
    simp only [hk]
    split
    · cases hs.symm.trans ‹_›
    · rfl

theorem landmarks_of_token (h : first? s = some t) (hk : t.kind ∉ [.linkOpen, .commentOpen, .lt]) :
    landmarks s = landmarks t.rest := by
  simp only [List.mem_cons, List.not_mem_nil, or_false, not_or] at hk
  rw [landmarks]
  split
  · cases h.symm.trans ‹_›
  · obtain rfl := Option.some.inj (h.symm.trans ‹_›)
    split <;> simp_all

end

end Text

/-- A character that no link, tag or comment begins with. -/
def Landmark.IsCalm (c : Char) : Prop :=
  c ≠ '[' ∧ c ≠ '<'

open Landmark (IsCalm)

/-- Characters of a class without the two brackets. -/
theorem Landmark.isCalm_of_class {p : Char → Bool} {c : Char} (hp : p '[' = false ∧ p '<' = false)
    (h : p c = true) : IsCalm c := by
  constructor <;> rintro rfl
  · exact Bool.noConfusion (hp.1.symm.trans h)
  · exact Bool.noConfusion (hp.2.symm.trans h)

namespace Token

variable {s : List Char} {c d : Char}

theorem lead_not_mem_openers (hc : IsCalm c) (s : List Char) :
    (lead c s).1 ∉ [Kind.linkOpen, .commentOpen, .lt] := by
  have hopen {m : List Char} (hm : marker? (lead c s).1 = some m) : m.head? = some c := by
    rw [← take_lead_of_marker? hm]
    rfl
  simp only [List.mem_cons, List.not_mem_nil, or_false, not_or]
  refine ⟨fun hk => ?_, fun hk => ?_, fun hk => ?_⟩
  · exact hc.1 (Option.some.inj (hopen (m := ['[', '[']) (by rw [hk]; rfl))).symm
  · exact hc.2 (Option.some.inj (hopen (m := ['<', '!', '-', '-']) (by rw [hk]; rfl))).symm
  · exact hc.2 (Option.some.inj (hopen (m := ['<']) (by rw [hk]; rfl))).symm

theorem isCalm_of_mem_take_lead (hc : IsCalm c) (hd : d ∈ s.take (lead c s).2) : IsCalm d := by
  have hf := follows_of_mem_take_lead hd
  constructor <;> rintro rfl
  · exact hc.1 (hf.eq (by simp)).symm
  · exact hc.2 (hf.eq (by simp)).symm

end Token

namespace Text

/-- A text that has the same landmarks whatever stands behind it. -/
def Yields (s : List Char) (ls : List Landmark) : Prop :=
  ∀ r, landmarks (s ++ r) = ls ++ landmarks r

namespace Yields

variable {s t target title : List Char} {ls ms : List Landmark}

theorem nil : Yields [] [] :=
  fun _ => rfl

theorem append (h : Yields s ls) (h' : Yields t ms) : Yields (s ++ t) (ls ++ ms) := by
  intro r
  rw [List.append_assoc, h, h', List.append_assoc]

theorem landmarks_eq (h : Yields s ls) : landmarks s = ls := by
  simpa [landmarks_nil] using h []

theorem calm (hs : ∀ c ∈ s, IsCalm c) : Yields s [] := by
  intro r
  rw [List.nil_append]
  -- a token may reach from one of the characters into what stands behind
  induction h : (s ++ r).length using Nat.strong_induction_on generalizing s r with
  | _ n ih =>
    cases s with
    | nil => rfl
    | cons c s =>
      rw [List.forall_mem_cons] at hs
      rw [List.cons_append, List.length_cons] at h
      have hsplit := (s ++ r).take_append_drop (Token.lead c (s ++ r)).2
      have htake (d : Char) (hd : d ∈ (s ++ r).take (Token.lead c (s ++ r)).2) : IsCalm d :=
        Token.isCalm_of_mem_take_lead hs.1 hd
      have hrest := ih (s ++ r).length (by omega) hs.2 r rfl
      have hdrop := ih (s ++ r).length (by omega) htake _ (by rw [hsplit])
      rw [hsplit] at hdrop
      rw [List.cons_append, landmarks_of_token rfl (Token.lead_not_mem_openers hs.1 _), ← hdrop, hrest]

end Yields

/-- A text that begins no link, tag or comment, whatever stands behind it. -/
def isQuiet : List Char → Bool
  | [] => true
  | '[' :: s => s.head?.any (· != '[') && isQuiet s
  | '<' :: s => s.head?.any (fun c => !c.isAlpha && c != '!') && isQuiet s
  | _ :: s => isQuiet s

namespace Yields

variable {s target title : List Char}

theorem quiet (h : isQuiet s = true) : Yields s [] := by
  fun_induction isQuiet s with
  | case1 => exact .nil
  | case2 s ih =>
    rw [Bool.and_eq_true] at h
    cases s with
    | nil => cases h.1
    | cons d s =>
      have hd : d ≠ '[' := by simpa using h.1
      intro r
      have hfirst : first? ('[' :: (d :: s ++ r)) = some ⟨.punct, ['['], d :: s ++ r⟩ := by
        simp [first?, Token.lead_openBracket, hd]
      rw [List.cons_append, landmarks_of_token hfirst (by simp), ih h.2]
  | case3 s ih =>
    rw [Bool.and_eq_true] at h
    cases s with
    | nil => cases h.1
    | cons d s =>
      obtain ⟨ha, hd⟩ : d.isAlpha = false ∧ d ≠ '!' := by simpa using h.1
      intro r
      have hfirst : first? ('<' :: (d :: s ++ r)) = some ⟨.lt, ['<'], d :: s ++ r⟩ := by
        simp [first?, Token.lead_lt, hd.symm]
      have hscan : StartTag.scan? ('<' :: (d :: s ++ r)) = none := by
        rw [List.cons_append, StartTag.scan?, if_neg (by simp [ha])]
      rw [List.cons_append, landmarks_of_lt hfirst rfl hscan, ih h.2]
  | case4 c s hb hl ih =>
    have hc : Yields [c] [] := .calm (List.forall_mem_singleton.2 ⟨hb, hl⟩)
    exact hc.append (ih h)

theorem link (h : Block.IsPlainTarget target) :
    Yields ('[' :: '[' :: (target ++ [']', ']'])) [.link target true] := by
  obtain ⟨hp, hb, hn⟩ := h
  intro r
  have hclose : first? (']' :: ']' :: r) = some ⟨.linkClose, [']', ']'], r⟩ := rfl
  have htarget := Inline.linkTarget_append_of (by simp) hp hb hclose (.inr rfl)
  have hcalm : Yields [']', ']'] [] := .calm (by simp [IsCalm])
  have hfirst : first? ('[' :: '[' :: (target ++ ']' :: ']' :: r)) =
      some ⟨.linkOpen, ['[', '['], target ++ ']' :: ']' :: r⟩ := rfl
  have hall : '[' :: '[' :: (target ++ [']', ']']) ++ r = '[' :: '[' :: (target ++ ']' :: ']' :: r) := by simp
  rw [hall, landmarks_of_linkOpen hfirst rfl (Inline.linkCloses_append hn hb r), htarget]
  exact congrArg _ (hcalm r)

theorem titledLink (h : Block.IsPlainTarget target) (ht : ∀ c ∈ title, isPlain c = true) :
    Yields ('[' :: '[' :: (target ++ '|' :: (title ++ [']', ']']))) [.link target true] := by
  obtain ⟨hp, hb, hn⟩ := h
  intro r
  have hpipe : first? ('|' :: (title ++ ']' :: ']' :: r)) = some ⟨.pipe, ['|'], title ++ ']' :: ']' :: r⟩ := rfl
  have htarget := Inline.linkTarget_append_of (by simp) hp hb hpipe (.inl rfl)
  have hcloses : Inline.linkCloses (target ++ '|' :: (title ++ ']' :: ']' :: r)) = true := by
    have htn : '\n' ∉ title := fun hm => absurd (ht _ hm) (by decide)
    have htb : ']' ∉ title := fun hm => absurd (ht _ hm) (by decide)
    have hc := Inline.linkCloses_append (s := target ++ '|' :: title) (by simp [hn, htn]) (by simp [hb, htb]) r
    simpa using hc
  have hdrop := (Tag.takeWhile_dropWhile_append_cons (c := ']') ht rfl (']' :: r)).2
  have hcalm : Yields ('|' :: (title ++ [']', ']'])) [] := by
    refine .calm (List.forall_mem_cons.2 ⟨by simp [IsCalm], fun c hc => ?_⟩)
    rcases List.mem_append.1 hc with hc | hc
    · exact Landmark.isCalm_of_class (p := isPlain) ⟨rfl, rfl⟩ (ht c hc)
    · obtain rfl : c = ']' := by simpa using hc
      simp [IsCalm]
  have hfirst : first? ('[' :: '[' :: (target ++ '|' :: (title ++ ']' :: ']' :: r))) =
      some ⟨.linkOpen, ['[', '['], target ++ '|' :: (title ++ ']' :: ']' :: r)⟩ := rfl
  have hall : '[' :: '[' :: (target ++ '|' :: (title ++ [']', ']'])) ++ r =
      '[' :: '[' :: (target ++ '|' :: (title ++ ']' :: ']' :: r)) := by simp
  have hrest : landmarks ('|' :: (title ++ ']' :: ']' :: r)) = landmarks r := by simpa using hcalm r
  rw [hall, landmarks_of_linkOpen hfirst rfl hcloses, htarget, hrest, endsPlainly, hdrop]
  rfl

end Yields

theorem isQuiet_of_calm {s : List Char} (h : ∀ c ∈ s, IsCalm c) : isQuiet s = true := by
  induction s with
  | nil => rfl
  | cons c s ih =>
    rw [List.forall_mem_cons] at h
    rw [isQuiet.eq_4 _ _ h.1.1 h.1.2, ih h.2]

end Text

theorem Inline.commentBody_of_closed {s r : List Char} (h : (commentBody s).2.1 = true) :
    commentBody ((commentBody s).1 ++ '-' :: '-' :: '>' :: r) = ((commentBody s).1, true, r) := by
  fun_induction commentBody s with
  | case1 => cases h
  | case2 => rfl
  | case3 c s hc p ih =>
    have hne : ¬['-', '-', '>'].isPrefixOf (c :: (p.1 ++ '-' :: '-' :: '>' :: r)) = true := by
      have hs := commentBody_append s
      rw [show (commentBody s).2.1 = true from h, if_pos rfl] at hs
      rw [← hs] at hc
      change ¬['-', '-', '>'].isPrefixOf (c :: ((commentBody s).1 ++ '-' :: '-' :: '>' :: r)) = true
      generalize (commentBody s).1 = body at hc ⊢
      rcases body with _ | ⟨d, _ | ⟨e, body⟩⟩
      · simp
      · simp
      · simpa using hc
    rw [List.cons_append, commentBody, if_neg hne, ih h]

theorem Text.Yields.comment {s : List Char} (h : (Inline.commentBody s).2.1 = true) :
    Yields (['<', '!', '-', '-'] ++ (Inline.commentBody s).1 ++ ['-', '-', '>']) [] := by
  intro r
  have hfirst : first? ('<' :: '!' :: '-' :: '-' :: ((Inline.commentBody s).1 ++ '-' :: '-' :: '>' :: r)) =
      some ⟨.commentOpen, ['<', '!', '-', '-'], (Inline.commentBody s).1 ++ '-' :: '-' :: '>' :: r⟩ := rfl
  have hopen := landmarks_of_commentOpen hfirst rfl
  rw [Inline.commentBody_of_closed h] at hopen
  simpa using hopen

theorem StartTag.first?_of_scan? {s rest : List Char} {tag : StartTag} (h : scan? s = some (tag, rest)) :
    first? s = some ⟨.lt, ['<'], s.tail⟩ := by
  obtain ⟨c, cs, hc, ha, -⟩ := (isWritten_of_scan? h).1
  have hd : c ≠ '!' := by
    rintro rfl
    cases ha
  rw [← source_append_of_scan? h]
  simp [source, hc, first?, Token.lead_lt, hd.symm]

theorem Text.Yields.startTag {s rest : List Char} {tag : StartTag} (h : StartTag.scan? s = some (tag, rest)) :
    Yields tag.source [.tag tag.name] := by
  obtain ⟨hname, hwritten⟩ := StartTag.isWritten_of_scan? h
  have hending := StartTag.isEnding_of_scan? h
  have hscan (r : List Char) := StartTag.scan?_source hname hwritten hending r
  intro r
  have hone : StartTag.scan? (tag.source ++ r) = some (tag, r) := by
    have hs := hscan rest
    rw [StartTag.source_append_of_scan? h, h] at hs
    rw [hscan r]
    split at hs
    · cases hs
    · rw [if_neg ‹_›]
  rw [landmarks_of_startTag (StartTag.first?_of_scan? hone) rfl hone]
  rfl

theorem EndTag.IsFound.isQuiet_raw {t : EndTag} (h : t.IsFound) : Text.isQuiet t.raw = true := by
  obtain ⟨s, rest, h⟩ := h
  rw [scan?.eq_def] at h
  split at h
  · rename_i c s
    split at h
    · rename_i hc
      split at h
      · obtain ⟨rfl, -⟩ := Prod.mk.inj (Option.some.inj h)
        have hcalm : ∀ d ∈ '/' :: c :: (s.takeWhile Char.isAlphanum ++
            ((s.dropWhile Char.isAlphanum).takeWhile Tag.isSpace ++ ['>'])), IsCalm d := by
          have htake {p : Char → Bool} (u : List Char) (hp : p '[' = false ∧ p '<' = false) :
              ∀ d ∈ u.takeWhile p, IsCalm d := fun d hd =>
            Landmark.isCalm_of_class hp (List.all_eq_true.1 List.all_takeWhile d hd)
          simp only [List.forall_mem_cons, List.forall_mem_append, List.not_mem_nil, false_implies,
            implies_true, and_true]
          exact ⟨by simp [IsCalm], Landmark.isCalm_of_class (p := Char.isAlpha) ⟨rfl, rfl⟩ hc,
            htake _ ⟨rfl, rfl⟩, htake _ ⟨rfl, rfl⟩, by simp [IsCalm]⟩
        simp only [List.cons_append, List.append_assoc]
        rw [Text.isQuiet, Text.isQuiet_of_calm hcalm]
        rfl
      · cases h
    · cases h
  · cases h

open Text (landmarks)

/-- Taking a marker away takes no landmark away. -/
theorem Token.landmarks_take {kind : Kind} {m : List Char} (hm : marker? kind = some m)
    (hc : ∀ c ∈ m, IsCalm c) (s : List Char) : landmarks (take kind s).2 = landmarks s := by
  have happend := take_append hm s
  have hcalm : ∀ c ∈ if (take kind s).1 then m else [], IsCalm c := by
    split
    · exact hc
    · simp
  have hyields := Text.Yields.calm hcalm (take kind s).2
  rw [happend] at hyields
  exact hyields.symm

theorem EndTag.landmarks_take (name : String) (s : List Char) :
    landmarks (EndTag.take name s).2 = landmarks s := by
  have happend := take_append name s
  have hquiet : Text.isQuiet (((EndTag.take name s).1.map EndTag.raw).getD []) = true := by
    cases hn : (EndTag.take name s).1 with
    | none => rfl
    | some e => exact (isFound_of_take hn).isQuiet_raw
  have hyields := Text.Yields.quiet hquiet (EndTag.take name s).2
  rw [happend] at hyields
  exact hyields.symm

namespace Inline

mutual

/-- The landmarks in an item, with every title taken to be plain. -/
def landmarks : Inline → List Landmark
  | link target _ title _ => .link target true :: landmarksAll title
  | emphasis _ body _ => landmarksAll body
  | element tag body _ => .tag tag.name :: landmarksAll body
  | _ => []

def landmarksAll : List Inline → List Landmark
  | [] => []
  | item :: items => landmarks item ++ landmarksAll items

end

@[simp] theorem landmarksAll_cons (item : Inline) (items : List Inline) :
    landmarksAll (cons item items) = landmarks item ++ landmarksAll items := by
  rw [cons.eq_def]
  split
  · simp [landmarksAll, landmarks]
  · rw [landmarksAll]

theorem landmarksAll_append (items more : List Inline) :
    landmarksAll (items ++ more) = landmarksAll items ++ landmarksAll more := by
  induction items with
  | nil => rfl
  | cons x items ih => simp [landmarksAll, ih]

theorem mem_landmarksAll {l : Landmark} {items : List Inline} :
    l ∈ landmarksAll items ↔ ∃ x ∈ items, l ∈ landmarks x := by
  induction items with
  | nil => simp [landmarksAll]
  | cons x items ih => simp [landmarksAll, ih]

/-- An item in which no link has landmarks in its title. -/
inductive Flat : Inline → Prop
  | text (s : List Char) : Flat (.text s)
  | newline (s : List Char) : Flat (.newline s)
  | reference (raw : List Char) (meaning : Reference) : Flat (.reference raw meaning)
  | comment (s : List Char) (closed : Bool) : Flat (.comment s closed)
  | emphasis {style : Emphasis} {body : List Inline} {closed : Bool} (h : ∀ x ∈ body, Flat x) :
    Flat (.emphasis style body closed)
  | link {target : List Char} {piped : Bool} {title : List Inline} {closed : Bool}
    (h : landmarksAll title = []) : Flat (.link target piped title closed)
  | element {tag : StartTag} {body : List Inline} {closing : Option EndTag} (h : ∀ x ∈ body, Flat x) :
    Flat (.element tag body closing)

variable {opened : List Open} {s r u : List Char} {t : First}

theorem closer_ne_linkClose (style : Emphasis) : closer style ≠ .linkClose := by
  cases style <;> simp [closer]

theorem exists_take_of_title {kind : Token.Kind} (hk : kind ≠ .linkClose) (hu : ∀ c ∈ u, isPlain c = true)
    (r : List Char) : ∃ v, (Token.take kind (u ++ ']' :: ']' :: r)).2 = v ++ ']' :: ']' :: r ∧
      (∀ c ∈ v, isPlain c = true) ∧ v.length ≤ u.length := by
  by_cases hnil : u = []
  · refine ⟨[], ?_, by simp, by simp⟩
    rw [hnil, List.nil_append, Token.take]
    simp [first?, Token.lead_closeBracket, hk.symm]
  · have hb : ']' ∉ u := fun hm => absurd (hu _ hm) (by decide)
    obtain ⟨t, v, ht, rfl, hrest, hlt⟩ := Token.exists_first?_append (by simp) hnil hb (']' :: r)
    rw [Token.take, ht]
    split
    · obtain rfl := Option.some.inj ‹some t = _›
      split
      · exact ⟨v, hrest, fun c hc => hu c (List.mem_append_right _ hc), Nat.le_of_lt hlt⟩
      · exact ⟨_, rfl, hu, Nat.le_refl _⟩
    · cases ‹some t = none›

/-- In the title of a link, no run of items goes beyond the first brackets behind a plain text. -/
theorem exists_run_of_title [Entities] (ho : .title ∈ opened) (hu : ∀ c ∈ u, isPlain c = true) (r : List Char) :
    ∃ v, (run opened (u ++ ']' :: ']' :: r)).val.2 = v ++ ']' :: ']' :: r ∧
      (∀ c ∈ v, isPlain c = true) ∧ v.length ≤ u.length := by
  induction hn : u.length using Nat.strong_induction_on generalizing opened u with
  | _ n ih =>
    subst hn
    by_cases hnil : u = []
    · subst hnil
      have hstop : stops opened (']' :: ']' :: r) = true := by
        simp [stops, first?, Token.lead_closeBracket, ho]
      exact ⟨[], by rw [List.nil_append, run_of_stops hstop], by simp, Nat.le_refl _⟩
    have hb : ']' ∉ u := fun hm => absurd (hu _ hm) (by decide)
    obtain ⟨t, v, ht, hsplit, hrest, hlt⟩ := Token.exists_first?_append (by simp) hnil hb (']' :: r)
    by_cases hs : stops opened (u ++ ']' :: ']' :: r) = true
    · exact ⟨u, by rw [run_of_stops hs], hu, Nat.le_refl _⟩
    have hv : ∀ c ∈ v, isPlain c = true := fun c hc => hu c (hsplit ▸ List.mem_append_right _ hc)
    have htext : ∀ c ∈ t.text, isPlain c = true := fun c hc => hu c (hsplit ▸ List.mem_append_left _ hc)
    have hitem : ∃ w, (item opened _ t ht).val.2 = w ++ ']' :: ']' :: r ∧ (∀ c ∈ w, isPlain c = true) ∧
        w.length < u.length := by
      have emphasized (style : Emphasis) : ∃ w, (emphasized opened style t.rest).val.2 = w ++ ']' :: ']' :: r ∧
          (∀ c ∈ w, isPlain c = true) ∧ w.length < u.length := by
        obtain ⟨w, hw, hwp, hwl⟩ := ih v.length hlt (List.mem_cons_of_mem (.emphasis style) ho) hv rfl
        obtain ⟨w', hw', hwp', hwl'⟩ := exists_take_of_title (closer_ne_linkClose style) hwp r
        refine ⟨w', ?_, hwp', by omega⟩
        rw [emphasized_eq, hrest, ← hw', ← hw]
      have plain (hx : (item opened _ t ht).val.2 = t.rest) : ∃ w,
          (item opened _ t ht).val.2 = w ++ ']' :: ']' :: r ∧ (∀ c ∈ w, isPlain c = true) ∧
            w.length < u.length :=
        ⟨v, hx.trans hrest, hv, hlt⟩
      have marker {m : List Char} (hm : Token.marker? t.kind = some m) : ∀ c ∈ m, isPlain c = true :=
        Token.text_eq_of_marker? ht hm ▸ htext
      cases hk : t.kind with
      | bold => rw [item_of_bold ht hk]; exact emphasized .bold
      | italics => rw [item_of_italics ht hk]; exact emphasized .italics
      | linkOpen => exact absurd (marker (m := ['[', '[']) (by rw [hk]; rfl) '[' (by simp)) (by decide)
      | commentOpen => exact absurd (marker (m := ['<', '!', '-', '-']) (by rw [hk]; rfl) '<' (by simp)) (by decide)
      | lt => exact absurd (marker (m := ['<']) (by rw [hk]; rfl) '<' (by simp)) (by decide)
      | newline => exact absurd (htext _ (Token.newline_mem_text ht hk)) (by decide)
      | _ =>
        refine plain ?_
        cases hr : Reference.ofToken? t.kind t.text with
        | some m => rw [item_of_reference ht hr]
        | none => rw [item_of_text ht (by simp [hk, openers]) hr]
    obtain ⟨w, hw, hwp, hwl⟩ := hitem
    obtain ⟨w', hw', hwp', hwl'⟩ := ih w.length hwl ho hwp rfl
    rw [run_of_item ht hs, hw]
    exact ⟨w', hw', hwp', by omega⟩

/-- All links of a text have plain titles. -/
def IsPlainlyTitled (s : List Char) : Prop :=
  ∀ l ∈ Text.landmarks s, isTitledPlainly l = true

theorem isPlainlyTitled_congr (h : Text.landmarks s = Text.landmarks r) :
    IsPlainlyTitled s ↔ IsPlainlyTitled r := by
  rw [IsPlainlyTitled, IsPlainlyTitled, h]

/-- Items that are read from the beginning of a text, and the rest of it: they divide its landmarks among
them. -/
structure Divides (s : List Char) (items : List Inline) (rest : List Char) : Prop where
  landmarks : Text.landmarks s = landmarksAll items ++ Text.landmarks rest
  flat : ∀ x ∈ items, Flat x

namespace Divides

variable {items more : List Inline} {x : Inline} {rest rest' : List Char}

theorem nil (s : List Char) : Divides s [] s :=
  ⟨rfl, List.forall_mem_nil _⟩

theorem rest_isPlainlyTitled (h : Divides s items rest) (hs : IsPlainlyTitled s) : IsPlainlyTitled rest :=
  fun l hl => hs l (h.landmarks ▸ List.mem_append_right _ hl)

theorem congr (h : Divides s items rest) (hs : Text.landmarks r = Text.landmarks s)
    (hr : Text.landmarks rest' = Text.landmarks rest) : Divides r items rest' :=
  ⟨by rw [hs, hr, h.landmarks], h.flat⟩

theorem cons (h : Divides s [x] rest) (h' : Divides rest items rest') :
    Divides s (Inline.cons x items) rest' := by
  refine ⟨?_, forall_mem_cons .text (h.flat x List.mem_cons_self) h'.flat⟩
  rw [h.landmarks, h'.landmarks, landmarksAll_cons, landmarksAll, landmarksAll, List.append_nil, List.append_assoc]

theorem append (h : Divides s items rest) (h' : Divides rest more rest') : Divides s (items ++ more) rest' :=
  ⟨by rw [h.landmarks, h'.landmarks, landmarksAll_append, List.append_assoc],
    List.forall_mem_append.2 ⟨h.flat, h'.flat⟩⟩

theorem leaf (hl : x.landmarks = []) (hf : Flat x) (hr : Text.landmarks s = Text.landmarks rest) :
    Divides s [x] rest :=
  ⟨by rw [hr, landmarksAll, landmarksAll, hl]; rfl, List.forall_mem_singleton.2 hf⟩

theorem element {tag : StartTag} {closing : Option EndTag} (h : Divides r items rest)
    (hs : Text.landmarks s = .tag tag.name :: Text.landmarks r) :
    Divides s [.element tag items closing] rest := by
  refine ⟨?_, List.forall_mem_singleton.2 (.element h.flat)⟩
  rw [hs, h.landmarks, landmarksAll, landmarksAll, Inline.landmarks]
  simp

theorem emphasis {style : Emphasis} {closed : Bool} (h : Divides s items rest)
    (hr : Text.landmarks rest = Text.landmarks rest') :
    Divides s [.emphasis style items closed] rest' := by
  refine ⟨?_, List.forall_mem_singleton.2 (.emphasis h.flat)⟩
  rw [h.landmarks, hr, landmarksAll, landmarksAll, Inline.landmarks, List.append_nil]

end Divides

theorem linkTarget_of_piped (h : (linkHead s).1.2 = true) : (linkTarget s).2 = '|' :: (linkHead s).2 := by
  have hpiped : (Token.take .pipe (linkTarget s).2).1 = true := h
  have happend : _ ++ (Token.take .pipe (linkTarget s).2).2 = _ := Token.take_append (m := ['|']) rfl _
  rw [hpiped, if_pos rfl] at happend
  exact happend.symm

theorem linkTarget_of_not_piped (h : ¬(linkHead s).1.2 = true) : (linkTarget s).2 = (linkHead s).2 := by
  have hpiped : ¬(Token.take .pipe (linkTarget s).2).1 = true := h
  have happend : _ ++ (Token.take .pipe (linkTarget s).2).2 = _ := Token.take_append (m := ['|']) rfl _
  rw [if_neg hpiped] at happend
  exact happend.symm

/-- A title that is plain holds no landmarks. -/
theorem divides_linked_of_piped [Entities] (hc : linkCloses s = true) (hp : (linkHead s).1.2 = true)
    (hs : IsPlainlyTitled ('[' :: '[' :: s))
    (ih : IsPlainlyTitled (linkHead s).2 → Divides (linkHead s).2 (run (.title :: opened) (linkHead s).2).val.1
      (run (.title :: opened) (linkHead s).2).val.2) :
    Divides ('[' :: '[' :: s) [(linked opened s).val.1] (linked opened s).val.2 := by
  have hopen := Text.landmarks_of_linkOpen (s := '[' :: '[' :: s) (t := ⟨.linkOpen, ['[', '['], s⟩) rfl rfl hc
  have hpipe : Text.landmarks ('|' :: (linkHead s).2) = Text.landmarks (linkHead s).2 :=
    Text.Yields.calm (s := ['|']) (by simp [IsCalm]) _
  rw [linkTarget_of_piped hp, hpipe] at hopen
  rw [IsPlainlyTitled, hopen, List.forall_mem_cons] at hs
  have hplain : endsPlainly ('|' :: (linkHead s).2) = true := hs.1
  have htitle := ih hs.2
  -- what is left behind the title has all the landmarks that are left behind the pipe
  obtain ⟨r, hr⟩ := List.isPrefixOf_iff_prefix.1 hplain
  have hu : ∀ c ∈ (linkHead s).2.takeWhile isPlain, isPlain c = true := List.all_eq_true.1 List.all_takeWhile
  have hsplit : (linkHead s).2 = (linkHead s).2.takeWhile isPlain ++ ']' :: ']' :: r := by
    rw [show ']' :: ']' :: r = (linkHead s).2.dropWhile isPlain from hr, List.takeWhile_append_dropWhile]
  obtain ⟨v, hv, hvp, -⟩ := exists_run_of_title (List.mem_cons_self (l := opened)) hu r
  have hcalm {w : List Char} (hw : ∀ c ∈ w, isPlain c = true) :
      Text.landmarks (w ++ ']' :: ']' :: r) = Text.landmarks r := by
    have hall : Text.Yields (w ++ [']', ']']) [] := .calm fun c hc => by
      rcases List.mem_append.1 hc with hc | hc
      · exact Landmark.isCalm_of_class (p := isPlain) ⟨rfl, rfl⟩ (hw c hc)
      · obtain rfl : c = ']' := by simpa using hc
        simp [IsCalm]
    simpa using hall r
  rw [← hsplit] at hv
  have hnone : landmarksAll (run (.title :: opened) (linkHead s).2).val.1 = [] := by
    have hlandmarks := htitle.landmarks
    have hhead : Text.landmarks (linkHead s).2 = Text.landmarks r := (congrArg _ hsplit).trans (hcalm hu)
    rw [hv, hcalm hvp, hhead] at hlandmarks
    exact List.append_left_eq_self.1 hlandmarks.symm
  rw [linked_of_piped hp]
  refine ⟨?_, List.forall_mem_singleton.2 (.link hnone)⟩
  rw [hopen, hplain, htitle.landmarks, hnone, landmarksAll, landmarksAll, landmarks, hnone,
    Token.landmarks_take (m := [']', ']']) rfl (by simp [IsCalm])]
  rfl

theorem divides_linked_of_not_piped [Entities] (hc : linkCloses s = true) (hp : ¬(linkHead s).1.2 = true)
    (hs : IsPlainlyTitled ('[' :: '[' :: s)) :
    Divides ('[' :: '[' :: s) [(linked opened s).val.1] (linked opened s).val.2 := by
  have hopen := Text.landmarks_of_linkOpen (s := '[' :: '[' :: s) (t := ⟨.linkOpen, ['[', '['], s⟩) rfl rfl hc
  rw [IsPlainlyTitled, hopen, List.forall_mem_cons] at hs
  have hplain : endsPlainly (linkTarget s).2 = true := hs.1
  rw [linked_of_not_piped hp]
  refine ⟨?_, List.forall_mem_singleton.2 (.link rfl)⟩
  rw [hopen, hplain, linkTarget_of_not_piped hp, landmarksAll, landmarksAll, landmarks, landmarksAll,
    Token.landmarks_take (m := [']', ']']) rfl (by simp [IsCalm])]
  rfl

/-- The landmarks of a text are those of the items that it is read into, whatever is open around them. -/
theorem divides_all [Entities] :
    (∀ opened s, IsPlainlyTitled s → Divides s (run opened s).val.1 (run opened s).val.2) ∧
    (∀ opened s t h, IsPlainlyTitled s → Divides s [(item opened s t h).val.1] (item opened s t h).val.2) ∧
    (∀ opened tag s, IsPlainlyTitled s →
      Divides s (enclosed opened tag s).val.1.1 (enclosed opened tag s).val.2) ∧
    (∀ opened s, linkCloses s = true → IsPlainlyTitled ('[' :: '[' :: s) →
      Divides ('[' :: '[' :: s) [(linked opened s).val.1] (linked opened s).val.2) ∧
    (∀ opened style s, IsPlainlyTitled s →
      Divides s [(emphasized opened style s).val.1] (emphasized opened style s).val.2) := by
  refine run.mutual_induct _ _ _ _ _
    ?nothing ?stops ?onward ?bold ?italics ?link ?looseLink ?comment ?element ?endTag ?loneBracket
    ?newline ?reference ?text ?void ?body ?titled ?untitled ?emphasis
  case nothing =>
    intro opened s ht _
    rw [run_of_none ht]
    exact .nil s
  case stops =>
    intro opened s t ht hs _
    rw [run_of_stops hs]
    exact .nil s
  case onward =>
    intro opened s t ht hs x _ hi hr _ hp
    rw [run_of_item ht hs]
    have hx := hi hp
    exact hx.cons (hr (hx.rest_isPlainlyTitled hp))
  case bold =>
    intro opened s t ht _ hk ih hp
    have hs := Text.landmarks_of_token ht (by simp [hk])
    rw [item_of_bold ht hk]
    exact (ih ((isPlainlyTitled_congr hs).1 hp)).congr hs rfl
  case italics =>
    intro opened s t ht _ hk ih hp
    have hs := Text.landmarks_of_token ht (by simp [hk])
    rw [item_of_italics ht hk]
    exact (ih ((isPlainlyTitled_congr hs).1 hp)).congr hs rfl
  case link =>
    intro opened s t ht _ hk hc ih hp
    have hs : s = '[' :: '[' :: t.rest := by
      rw [← Token.text_append_rest ht, Token.text_eq_of_marker? ht (m := ['[', '[']) (by rw [hk]; rfl)]
      rfl
    rw [item_of_linkOpen ht hk, if_pos hc, hs]
    exact ih hc (hs ▸ hp)
  case looseLink =>
    intro opened s t ht _ hk hc _
    rw [item_of_linkOpen ht hk, if_neg hc]
    exact .leaf rfl (.text _) (Text.landmarks_of_looseLink ht hk hc)
  case comment =>
    intro opened s t ht _ hk _
    rw [item_of_commentOpen ht hk]
    exact .leaf rfl (.comment _ _) (Text.landmarks_of_commentOpen ht hk)
  case element =>
    intro opened s t ht _ hk tag rest hs _ ih hp
    have hopen := Text.landmarks_of_startTag ht hk hs
    rw [item_of_startTag ht hk hs]
    exact (ih fun l hl => hp l (hopen ▸ List.mem_cons_of_mem _ hl)).element hopen
  case endTag =>
    intro opened s t ht _ hk hs e rest he _
    rw [item_of_endTag ht hk hs he]
    refine .leaf rfl (.text _) ?_
    rw [← EndTag.raw_append_of_scan? he]
    exact Text.Yields.quiet (EndTag.IsFound.isQuiet_raw ⟨s, rest, he⟩) rest
  case loneBracket =>
    intro opened s t ht _ hk hs he _
    rw [item_of_lt ht hk hs he]
    exact .leaf rfl (.text _) (Text.landmarks_of_lt ht hk hs)
  case newline =>
    intro opened s t ht _ hk _
    rw [item_of_newline ht hk]
    exact .leaf rfl (.newline _) (Text.landmarks_of_token ht (by simp [hk]))
  case reference =>
    intro opened s t ht _ r h1 h2 h3 h4 h5 h6 hr _
    rw [item_of_reference ht hr]
    exact .leaf rfl (.reference _ _) (Text.landmarks_of_token ht (by simpa using ⟨h3, h4, h5⟩))
  case text =>
    intro opened s t ht _ h1 h2 h3 h4 h5 h6 hr _
    rw [item_of_text ht (not_mem_openers h1 h2 h3 h4 h5 h6) hr]
    exact .leaf rfl (.text _) (Text.landmarks_of_token ht (by simpa using ⟨h3, h4, h5⟩))
  case void =>
    intro opened tag s he _
    rw [enclosed_of_isEmpty he]
    exact .nil s
  case body =>
    intro opened tag s he ih hp
    rw [enclosed_of_not_isEmpty he]
    exact (ih hp).congr rfl (EndTag.landmarks_take _ _)
  case titled =>
    intro opened s head _ hp ih _ hc hs
    exact divides_linked_of_piped hc hp hs ih
  case untitled =>
    intro opened s head _ hp hc hs
    exact divides_linked_of_not_piped hc hp hs
  case emphasis =>
    intro opened style s ih hp
    rw [emphasized_eq]
    have hcalm : ∀ c ∈ style.marker, IsCalm c := by cases style <;> simp [IsCalm, Emphasis.marker]
    exact (ih hp).emphasis (Token.landmarks_take (marker?_closer style) hcalm _).symm

end Inline

theorem Block.divides_parse [Entities] (lineStart : Bool) {s : List Char} (h : Inline.IsPlainlyTitled s) :
    Inline.Divides s ((parse lineStart s).flatMap items) [] := by
  obtain ⟨hrun, hitem, henclosed, -⟩ := Inline.divides_all
  fun_induction parse lineStart s with
  | case1 lineStart s hs =>
    obtain rfl := Token.first?_eq_none_iff.1 hs
    exact .nil []
  | case2 lineStart s t ht hk ih =>
    have hs := Text.landmarks_of_token ht (by simp [hk])
    exact (ih ((Inline.isPlainlyTitled_congr hs).1 h)).congr hs rfl
  | case3 lineStart s t ht _ hk ih =>
    have hs := Text.landmarks_of_token ht (by simp [hk.1])
    exact (ih ((Inline.isPlainlyTitled_congr hs).1 h)).congr hs rfl
  | case4 lineStart s t ht _ _ tag rest hb p ih =>
    have hs := (Option.filter_eq_some_iff.1 hb).1
    have hopen := Text.landmarks_of_startTag (StartTag.first?_of_scan? hs) rfl hs
    have hbody := henclosed [] tag rest fun l hl => h l (hopen ▸ List.mem_cons_of_mem _ hl)
    have hrest := ih (hbody.rest_isPlainlyTitled fun l hl => h l (hopen ▸ List.mem_cons_of_mem _ hl))
    exact (hbody.element hopen).append hrest
  | case5 lineStart s t ht hk _ hb x xs ih =>
    have hx := hitem [] s t ht h
    have hxs := hrun [] x.val.2 (hx.rest_isPlainlyTitled h)
    exact (hx.cons hxs).append (ih ((hx.cons hxs).rest_isPlainlyTitled h))

end WikiPage
