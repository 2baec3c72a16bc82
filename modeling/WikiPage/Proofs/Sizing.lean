import WikiPage.EntityTable
import WikiPage.Proofs.Canonical
import WikiPage.Proofs.Lasting

/-!
# Lengths and the rules that have them

A length is spelled as a number, behind a plus sign perhaps, with a unit behind it. What is read of a text
is settled by that spelling, and a length is written as one of its own spellings. So every length that a
rule is given is the length that it has then, whatever has been done to the page before.
-/

namespace WikiPage

namespace Text

variable {s blanks : List Char} {n bound : Nat}

/-- What may stand before the digits of a number. -/
def signs : List (List Char) := [[], ['+']]

/-- A number is read of one sign at most and digits behind it that stay below the bound. -/
theorem natural?_eq_some_iff : natural? bound s = some n ↔ ∃ sign ∈ signs, ∃ digits, s = sign ++ digits ∧
    digits ≠ [] ∧ (∀ c ∈ digits, c.isDigit = true) ∧ Nat.ofDigitChars 10 digits 0 = n ∧ n < bound := by
  constructor
  · intro h
    obtain ⟨sign, hsign, digits, hs, h⟩ : ∃ sign ∈ signs, ∃ digits, s = sign ++ digits ∧
        (if digits ≠ [] ∧ digits.all Char.isDigit ∧ numeral 10 digits < bound then some (numeral 10 digits)
          else none) = some n := by
      unfold natural? at h
      dsimp only at h
      split at h
      · exact ⟨['+'], by simp [signs], _, rfl, h⟩
      · exact ⟨[], by simp [signs], _, rfl, h⟩
    split at h
    swap
    · cases h
    rename_i hd
    obtain rfl := Option.some.inj h
    have hdigits := List.all_eq_true.1 hd.2.1
    exact ⟨sign, hsign, digits, hs, hd.1, hdigits, (numeral_eq_ofDigitChars hdigits).symm, hd.2.2⟩
  · rintro ⟨sign, hsign, digits, rfl, hne, hdigits, rfl, hb⟩
    rw [← numeral_eq_ofDigitChars hdigits] at hb ⊢
    have hread := natural?_of_digits hne hdigits hb
    rcases List.mem_pair.1 hsign with rfl | rfl
    · exact hread
    · unfold natural?
      simp only [List.cons_append, List.nil_append]
      exact if_pos ⟨hne, List.all_eq_true.2 hdigits, hb⟩

theorem exists_blanks_trimEnd (s : List Char) :
    ∃ blanks, s = trimEnd s ++ blanks ∧ ∀ c ∈ blanks, isBlank c = true :=
  ⟨s.rtakeWhile isBlank, (List.rdropWhile_append_rtakeWhile (p := isBlank)).symm,
    fun _ => List.mem_rtakeWhile_imp⟩

end Text

namespace Length

/-- A way to write a length. -/
structure Spelling where
  sign : List Char
  digits : List Char
  blanks : List Char
  unit : List Char
  sign_mem : sign ∈ Text.signs
  digits_ne : digits ≠ []
  isDigit : ∀ c ∈ digits, c.isDigit = true
  isBlank : ∀ c ∈ blanks, Text.isBlank c = true
  unit_mem : unit ∈ [[], ['p', 'x'], ['%']]
  number_lt : Nat.ofDigitChars 10 digits 0 < 2 ^ 32

namespace Spelling

def text (w : Spelling) : List Char :=
  w.sign ++ w.digits ++ w.blanks ++ w.unit

/-- The length that is written: its number is that of the digits, and only a percent sign makes it a share
of the width. -/
def length (w : Spelling) : Length :=
  let n := UInt32.ofNat (Nat.ofDigitChars 10 w.digits 0)
  if w.unit = ['%'] then percent n else pixels n

theorem number_eq (w : Spelling) : number (w.sign ++ w.digits ++ w.blanks) =
    some (UInt32.ofNat (Nat.ofDigitChars 10 w.digits 0)) := by
  have htrim : Text.trimEnd (w.sign ++ w.digits) = w.sign ++ w.digits := by
    obtain ⟨ds, d, hds⟩ := (List.eq_nil_or_concat w.digits).resolve_left w.digits_ne
    have hd : Text.isBlank d = false := Text.not_isBlank_of_isDigit (w.isDigit d (by simp [hds]))
    rw [hds, List.concat_eq_append, ← List.append_assoc, Text.trimEnd_concat, if_neg (by simp [hd])]
  have hread : Text.natural? UInt32.size (w.sign ++ w.digits) = some (Nat.ofDigitChars 10 w.digits 0) :=
    Text.natural?_eq_some_iff.2 ⟨w.sign, w.sign_mem, w.digits, rfl, w.digits_ne, w.isDigit, rfl, w.number_lt⟩
  rw [number, Text.trimEnd_append_blanks _ w.isBlank, htrim, hread, Option.map_some]

theorem getLast?_ne (w : Spelling) {c : Char} (hd : c.isDigit = false) (hb : Text.isBlank c = false) :
    (w.sign ++ w.digits ++ w.blanks).getLast? ≠ some c := by
  intro h
  rw [List.append_assoc, List.getLast?_append_of_ne_nil _ (by simp [w.digits_ne])] at h
  rcases List.mem_append.1 (List.mem_of_getLast? h) with hc | hc
  · cases hd.symm.trans (w.isDigit c hc)
  · cases hb.symm.trans (w.isBlank c hc)

theorem readChars?_text (w : Spelling) : readChars? w.text = some w.length := by
  have hnumber := w.number_eq
  have hpercent : Text.dropEnding? ['%'] (w.sign ++ w.digits ++ w.blanks) = none :=
    Text.dropEnding?_eq_none [] (w.getLast?_ne rfl rfl)
  have hpx : Text.dropEnding? ['p', 'x'] (w.sign ++ w.digits ++ w.blanks) = none :=
    Text.dropEnding?_eq_none ['p'] (w.getLast?_ne rfl rfl)
  have hunit := w.unit_mem
  rw [readChars?, text, length]
  generalize w.sign ++ w.digits ++ w.blanks = s at hnumber hpercent hpx
  simp only [List.mem_cons, List.not_mem_nil, or_false] at hunit
  rcases hunit with hu | hu | hu <;> rw [hu]
  · simp [hpercent, hpx, hnumber]
  · have hlast : Text.dropEnding? ['%'] (s ++ ['p', 'x']) = none :=
      Text.dropEnding?_eq_none [] (c := '%') (by simp)
    simp [hlast, Text.dropEnding?_append, hnumber]
  · simp [Text.dropEnding?_append, hnumber]

end Spelling

theorem exists_of_number {s : List Char} {n : UInt32} (h : number s = some n) (unit : List Char)
    (hu : unit ∈ [[], ['p', 'x'], ['%']]) : ∃ w : Spelling, s ++ unit = w.text ∧ w.unit = unit ∧
      UInt32.ofNat (Nat.ofDigitChars 10 w.digits 0) = n := by
  obtain ⟨m, hm, rfl⟩ := Option.map_eq_some_iff.1 h
  obtain ⟨sign, hsign, digits, htrim, hne, hdigits, rfl, hlt⟩ := Text.natural?_eq_some_iff.1 hm
  obtain ⟨blanks, hs, hblanks⟩ := Text.exists_blanks_trimEnd s
  refine ⟨⟨sign, digits, blanks, unit, hsign, hne, hdigits, hblanks, hu, hlt⟩, ?_, rfl, rfl⟩
  rw [hs, htrim]
  rfl

theorem readChars?_eq_some_iff {s : List Char} {l : Length} :
    readChars? s = some l ↔ ∃ w : Spelling, s = w.text ∧ w.length = l := by
  constructor
  · intro h
    unfold readChars? at h
    split at h
    · rename_i r hr
      obtain ⟨n, hn, rfl⟩ := Option.map_eq_some_iff.1 h
      obtain ⟨w, hw, hu, rfl⟩ := exists_of_number hn ['%'] (by simp)
      exact ⟨w, Text.eq_append_of_dropEnding? hr ▸ hw, by simp [Spelling.length, hu]⟩
    · obtain ⟨n, hn, rfl⟩ := Option.map_eq_some_iff.1 h
      cases hr : Text.dropEnding? ['p', 'x'] s with
      | none =>
        rw [hr] at hn
        obtain ⟨w, hw, hu, rfl⟩ := exists_of_number hn [] (by simp)
        exact ⟨w, by rw [← hw]; simp, by simp [Spelling.length, hu]⟩
      | some r =>
        rw [hr] at hn
        obtain ⟨w, hw, hu, rfl⟩ := exists_of_number hn ['p', 'x'] (by simp)
        exact ⟨w, Text.eq_append_of_dropEnding? hr ▸ hw, by simp [Spelling.length, hu]⟩
  · rintro ⟨w, rfl, rfl⟩
    exact w.readChars?_text

end Length

namespace Edit

variable {p : Page} {x : ElementId} {e : Element} {name key value : String} {policy : Policy}

theorem ends_commit_of_synced (h : p.Synced) (he : p.find? x = some e) (hk : e.kind.tag? ≠ none)
    (hs : policy.synced = true) (hkey : key.toLower = key) (hname : Valid.isXmlName key = true) :
    Ends (commit x policy key value) p (fun _ q => q.kind x = .ok e.kind ∧ q.value? x key = .ok (some value))
      fun _ _ => False := by
  have hstored : p.attribute? x key = .ok (Attribute.find? e.attributes key) := by
    simp [Page.attribute?, Page.get_eq_ok_iff.2 he, Except.map, hkey]
  refine Ends.bind (ends_ask (fun stored _ => ?_) fun _ herr => by cases hstored.symm.trans herr)
  rw [hs]
  refine Ends.bind (Ends.map ((ends_writeValue_run h he hk hkey).mono (fun n q hq => ?_)
    fun err _ hq => by cases (checkXmlName_eq_ok_iff.2 hname).symm.trans hq.2))
  obtain ⟨-, r, d, hr, hd, hok⟩ := hq
  have hqd : q.find? x = some d := by
    rw [Page.find?, (hr.inscribed hd hok).elements]
    exact hd
  refine Ends.bind (ends_update (fun _ _ => Ends.pure ?_) fun hn => by cases hqd.symm.trans hn)
  have hfind : (q.update x fun d =>
      { d with attributes := Attribute.put d.attributes ⟨key, value, some n⟩ }).find? x =
        some { d with attributes := Attribute.put d.attributes ⟨key, value, some n⟩ } := by
    rw [Page.find?_update, if_pos rfl, hqd]
    rfl
  refine ⟨?_, ?_⟩
  · rw [Page.kind, Page.get_eq_ok_iff.2 hfind, ← hr.kind he hd]
    rfl
  · rw [Page.value?_of_find? hfind, hkey, Attribute.find?_put, if_pos rfl]
    rfl

variable {new : String}

theorem ends_setAttribute_of_synced (h : p.Synced) (he : p.find? x = some e)
    (hp : Policy.find? e.kind name = some policy) (hs : policy.synced = true) (hr : policy.reaction = none)
    (hname : Valid.isXmlName name.toLower = true) (hv : p.verify x value policy.verifier = .ok (some new)) :
    Ends (setAttribute x name value) p (fun _ q => q.kind x = .ok e.kind ∧
      q.value? x name = .ok (some (policy.normalization.apply new))) fun _ _ => False := by
  have hpolicy : p.policy x name = .ok policy := by
    simp [Page.policy, Page.kind, Page.get_eq_ok_iff.2 he, Except.map, bind, Except.bind, hp]
  refine Ends.bind (ends_ask (fun found hf => ?_) fun _ herr => by cases hpolicy.symm.trans herr)
  obtain rfl := Except.ok.inj (hpolicy.symm.trans hf)
  refine Ends.bind (ends_ask (fun verified hf => ?_) fun _ herr => by cases hv.symm.trans herr)
  obtain rfl := Except.ok.inj (hv.symm.trans hf)
  refine (ends_commit_of_synced h he (tag?_of_synced hp hs) hs (toLower_toLower name) hname).step
    (fun old q hq => ?_) fun _ _ hf => hf
  rw [hr]
  refine Ends.bind (Ends.pure (Ends.pure ⟨hq.1, ?_⟩))
  have hkey : q.value? x name.toLower = q.value? x name := by
    rw [Page.value?, Page.attribute?, toLower_toLower]
    rfl
  exact hkey ▸ hq.2

end Edit

theorem Policy.normalization_of_reaction {kind : Kind} {name : String} {policy : Policy} {r : Reaction}
    (hp : find? kind name = some policy) (hr : policy.reaction = some r) : policy.normalization = .words := by
  have hs : ∀ q ∈ specific kind, q.normalization = .words := by cases kind <;> decide
  have hu : ∀ q ∈ generic :: universal, q.reaction = none := by decide
  rcases mem_of_find? hp with hm | ⟨-, hm⟩
  · exact hs policy hm
  · cases hr.symm.trans (hu policy hm)

namespace Page

variable {p q : Page} {x : ElementId} {site : Site}

theorem Recorded.store (h : p.Recorded) {name value : String} {policy : Policy} (hp : p.policy x name = .ok policy)
    (hn : policy.normalization = .words) :
    (p.update x (Edit.store name.toLower (policy.normalization.apply value))).Recorded := by
  refine h.of_links (Edit.synced_store h.toSynced (toLower_toLower name)) rfl (form?_update fun _ => ⟨rfl, rfl⟩)
    ?_ rfl fun y => ?_
  · funext y
    simp only [linksOf, find?_update]
    split
    · cases p.find? y <;> rfl
    · rfl
  · rw [nameOf?, find?_update]
    split
    swap
    · exact .inl rfl
    obtain ⟨e, he, -⟩ := Edit.exists_of_policy hp
    rename_i hy
    rw [hy, he, nameOf?, he]
    simp only [Option.map_some, Option.bind_some, Edit.store, Attribute.find?_put]
    by_cases hk : e.kind = .category ∧ name.toLower = "name"
    · exact .inr ⟨value, by simp [hk, hn]⟩
    · exact .inl (by grind)

end Page

namespace Edit

variable {p : Page} {x : ElementId}

theorem recorded_assign (h : p.Recorded) {name value : String} :
    Ends (assign x name value) p (fun _ q => q.Recorded) fun _ q => q.Recorded := by
  refine Ends.bind (ends_ask (fun policy hp => ?_) fun _ _ => h)
  obtain ⟨e, he, hpolicy⟩ := exists_of_policy hp
  cases hr : policy.reaction with
  | none =>
    refine (isCalm_commit h.toSynced hp hr (policy.normalization.apply_apply value)).mono
      (fun _ _ hq => (hq.leads h).recorded) fun _ _ hq => hq.1 ▸ h
  | some r =>
    have hk := kind_of_reaction hpolicy hr
    refine (ends_commit_of_unsynced hk.1).mono ?_ fun _ q hq => by cases hq.2.symm.trans he
    rintro _ q ⟨-, -, -, rfl⟩
    exact h.store hp (Policy.normalization_of_reaction hpolicy hr)

end Edit

namespace Page

variable [Entities] {p q : Page} {x : ElementId} {site : Site}

/-- Every act leaves the records in agreement, whether it checks what it stores or not. -/
theorem Recorded.after (h : p.Recorded) (act : Act) : (act.after p).Recorded := by
  by_cases hc : act.isChecked = true
  · exact (act.keeps_after h hc).recorded
  cases act with
  | assign id name value =>
    have hassign : Ends (Act.assign id name value).edit p (fun _ q => q.Recorded) fun _ q => q.Recorded :=
      (Edit.recorded_assign h).step (fun _ _ hq => Ends.pure hq) fun _ _ hq => hq
    exact Act.after_of_ends hassign
  | _ => exact absurd rfl hc

theorem Recorded.run (h : p.Recorded) (acts : List Act) : (Act.run acts p).Recorded := by
  induction acts generalizing p with
  | nil => exact h
  | cons act acts ih => exact ih (h.after act)

theorem Begins.recorded (h : p.Begins site) : p.Recorded := by
  cases h with
  | new h => exact (begun_new h false).recorded
  | read h => exact (begun_read h).recorded

end Page

namespace Edit

variable {p : Page} {x : ElementId} {l : Length}

/-- A rule is given a length by any of its attributes that take it as it is written. -/
theorem ends_setOrRemove_length (h : p.Synced) (hx : p.kind x = .ok .rule) {name : String} {policy : Policy}
    (hp : Policy.find? .rule name = some policy) (hs : policy.synced = true) (hr : policy.reaction = none)
    (hn : policy.normalization = .words) (hname : Valid.isXmlName name.toLower = true)
    (hv : p.verify x l.render policy.verifier = .ok (some l.render)) :
    Ends (do ask (·.requireKind x [.rule]); setOrRemove x name (some l.render)) p
      (fun _ q => q.requireKind x [.rule] = .ok () ∧ q.value? x name = .ok (some l.render)) fun _ _ => False := by
  have hrequire {q : Page} (hq : q.kind x = .ok .rule) : q.requireKind x [.rule] = .ok () := by
    simp [Page.requireKind, hq, bind, Except.bind]
  obtain ⟨e, he, hk⟩ := Page.find?_of_kind hx
  refine Ends.bind (ends_ask (fun _ _ => ?_) fun _ herr => by cases (hrequire hx).symm.trans herr)
  refine (ends_setAttribute_of_synced h he (hk ▸ hp) hs hr hname hv).step (fun _ q hq => Ends.pure ?_)
    fun _ _ hf => hf
  rw [hn, Normalization.words_of_no_blank fun c hc => Length.not_isBlank_of_mem_render hc, hk] at hq
  exact ⟨hrequire hq.1, hq.2⟩

theorem ends_setWidth (h : p.Synced) (hx : p.kind x = .ok .rule) (l : Length) :
    Ends (setWidth x (some l)) p (fun _ q => q.width? x = .ok (some l)) fun _ _ => False := by
  have hv : p.verify x l.render .length = .ok (some l.render) := by
    rw [Page.verify, Verifier.checkLength, Length.read, Length.read?_render]
    rfl
  have hp : Policy.find? .rule "width" = some { name := "width", verifier := .length } := by decide +kernel
  refine (ends_setOrRemove_length h hx hp rfl rfl rfl (by decide +kernel) hv).mono (fun _ q hq => ?_)
    fun _ _ hf => hf
  simp [Page.width?, hq.1, hq.2, bind, Except.bind, Length.read?_render]

theorem ends_setThickness (h : p.Synced) (hx : p.kind x = .ok .rule) (n : UInt32) :
    Ends (setThickness x (some n)) p (fun _ q => q.thickness? x = .ok (some (.pixels n))) fun _ _ => False := by
  have hv : p.verify x (Length.pixels n).render .pixels = .ok (some (Length.pixels n).render) := by
    rw [Page.verify, Verifier.checkPixels, Length.read?_render]
    rfl
  have hp : Policy.find? .rule "size" = some { name := "size", verifier := .pixels } := by decide +kernel
  refine (ends_setOrRemove_length h hx hp rfl rfl rfl (by decide +kernel) hv).mono (fun _ q hq => ?_)
    fun _ _ hf => hf
  simp [Page.thickness?, hq.1, hq.2, bind, Except.bind, Length.read?_render]

end Edit

namespace Page

/-- A text is read as a length exactly if it spells one, and a length is written as it is read. Every rule
of a page that has come about by any acts takes every width and every thickness, and has it then. -/
theorem lengths_read_and_given [Entities] :
    (∀ s l, Length.read? s = some l ↔ ∃ w : Length.Spelling, Text.trim s.toList = w.text ∧ w.length = l) ∧
    (∀ l : Length, Length.read? l.render = some l) ∧
    ∀ (site : Site) (p₀ p : Page) (acts : List Act) (x : ElementId), p₀.Begins site → Act.run acts p₀ = p →
      p.kind x = .ok .rule →
      (∀ l, ∃ q, Edit.setWidth x (some l) p = .ok () q ∧ q.width? x = .ok (some l)) ∧
      ∀ n, ∃ q, Edit.setThickness x (some n) p = .ok () q ∧ q.thickness? x = .ok (some (.pixels n)) := by
  refine ⟨fun s l => Length.readChars?_eq_some_iff, Length.read?_render, ?_⟩
  rintro site p₀ p acts x hb rfl hx
  have hp : (Act.run acts p₀).Synced := (hb.recorded.run acts).toSynced
  refine ⟨fun l => ?_, fun n => ?_⟩
  · obtain ⟨⟨⟩, q, hrun, hq⟩ := (Edit.ends_setWidth hp hx l).exists_ok
    exact ⟨q, hrun, hq⟩
  · obtain ⟨⟨⟩, q, hrun, hq⟩ := (Edit.ends_setThickness hp hx n).exists_ok
    exact ⟨q, hrun, hq⟩

/-- A rule on a page, with a width that is none. -/
def wideRule : Page :=
  Act.run [.createRule, .insertChild body ⟨2⟩ .last, .assign ⟨2⟩ "width" "wide"]
    (ofDrafts .new .default "Test" [])

theorem lengths_of_wideRule : wideRule.kind ⟨2⟩ = .ok .rule ∧ wideRule.width? ⟨2⟩ = .ok none ∧
    wideRule.parent ⟨2⟩ = .ok (some body) ∧
    (∃ w : Length.Spelling, Text.trim " +007 px\n".toList = w.text ∧ w.length = .pixels 7) ∧
    (∃ q, Edit.setWidth ⟨2⟩ (some (.percent 4294967295)) wideRule = .ok () q ∧
      q.width? ⟨2⟩ = .ok (some (.percent 4294967295))) ∧
    ∃ q, Edit.setThickness ⟨2⟩ (some 0) wideRule = .ok () q ∧ q.thickness? ⟨2⟩ = .ok (some (.pixels 0)) := by
  have hnew : Page.new .default "Test" = .ok (ofDrafts .new .default "Test" []) := rfl
  have hkind : wideRule.kind ⟨2⟩ = .ok .rule := by cbv
  have hread : Length.read? " +007 px\n" = some (.pixels 7) := by decide +kernel
  obtain ⟨hspelled, -, hgiven⟩ := lengths_read_and_given
  obtain ⟨hwidth, hthickness⟩ := hgiven .default _ wideRule _ ⟨2⟩ (.new hnew) rfl hkind
  exact ⟨hkind, by cbv, by cbv, (hspelled _ _).1 hread, hwidth _, hthickness _⟩

end Page
end WikiPage
