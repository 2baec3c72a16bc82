import WikiPage.Proofs.Dressing
import WikiPage.Proofs.Surroundings

/-!
# Glue of new nodes and the plain form

Markup is put together in two places: a node without glue is printed in the plainest markup for its kind,
and a node made by an edit is given glue. The text is the same on both sides, so nothing that is printed
changes when a bare node is given its glue.
-/

namespace WikiPage

namespace Node

theorem plain_congr {p : Payload} {below below' : List (Tree NodeId Node)}
    (h : ∀ target title, p = .link target title → untitled below' = untitled below)
    (parts : List (Except Arena.Error String)) : plain p below' parts = plain p below parts := by
  cases p with
  | link target title => rw [plain, plain, h target title rfl]
  | emphasis style _ => cases style <;> rfl
  | attr _ hasValue _ => cases hasValue <;> rfl
  | element _ empty _ _ => cases empty <;> rcases parts with _ | ⟨_, _ | ⟨_, _ | _⟩⟩ <;> rfl
  | reference meaning => cases meaning <;> rfl
  | _ => rfl

theorem enclose_one (opening closing : String) (part : Except Arena.Error String) :
    enclose opening closing [part] = interleave [opening, closing] [part] := by
  cases part <;> simp [enclose, joined, interleave, bind, Except.bind]

end Node

namespace Arena

variable {a : Arena} {n title value attributes body : NodeId} {items l : List NodeId}
  {name target : String} {hasValue empty : Bool}

/-- A list that holds nothing and is printed as nothing. -/
def IsVoid (a : Arena) (l : NodeId) : Prop :=
  a.find? l = some ⟨.list [], none⟩

def IsBareAttribute (a : Arena) (n : NodeId) : Prop :=
  ∃ name hasValue value, a.find? n = some ⟨.attr name hasValue value, none⟩ ∧
    (hasValue = false → a.IsVoid value)

/-- A node without glue that has a form in markup, and no glue on its attributes either. The lists that the
form leaves out are empty and have no glue. -/
inductive IsBare (a : Arena) (n : NodeId) : Prop
  | emphasis {style : Emphasis} {content : NodeId}
      (h : a.find? n = some ⟨.emphasis style content, none⟩)
  | link {target : String} {title : NodeId} (h : a.find? n = some ⟨.link target title, none⟩)
      (ht : ∀ g, a.find? title ≠ some ⟨.list [], some g⟩)
  | comment {text : String} (h : a.find? n = some ⟨.comment text, none⟩)
  | attr (h : a.IsBareAttribute n)
  | element {name : String} {empty : Bool} {attributes body : NodeId} {items : List NodeId}
      {g : Option Glue} (h : a.find? n = some ⟨.element name empty attributes body, none⟩)
      (ha : a.find? attributes = some ⟨.list items, g⟩) (hi : ∀ x ∈ items, a.IsBareAttribute x)
      (hb : empty = true → a.IsVoid body)

/-- Glue with which a node is printed as it is without. -/
def Suits (a : Arena) (p : Payload) (g : Glue) : Prop :=
  Node.plain p (p.children.map a.tree) (p.children.map a.print) =
    Node.interleave g.slots (p.children.map a.print)

/-- A node without glue that the glue of its kind suits. -/
def IsSuited (a : Arena) (n : NodeId) : Prop :=
  ∃ p g, a.find? n = some ⟨p, none⟩ ∧ a.newGlue? p = some g ∧ a.Suits p g

theorem print_missing (hn : a.find? n = none) : a.print n = .error (.unknownNode n) := by
  rw [print, tree, Tree.grow_of_missing hn, Node.print]

namespace Acyclic

theorem print_void (h : a.Acyclic) (hn : a.IsVoid n) : a.print n = .ok "" :=
  h.print_eq hn

/-- Whether a link is printed with a title depends on the items of its title list. -/
theorem untitled_eq (h : a.Acyclic) (title : NodeId) :
    Node.untitled [a.tree title] = (a.items title).map List.isEmpty := by
  cases ht : a.find? title with
  | none =>
    rw [tree, Tree.grow_of_missing ht]
    simp [Node.untitled, items, payload, get, ht, Except.map, bind, Except.bind]
  | some m =>
    obtain ⟨p, g⟩ := m
    rw [h.tree_eq ht]
    cases p <;> simp [Node.untitled, items, payload, get, ht, Except.map, bind, Except.bind]

theorem suits_attr (h : a.Acyclic) (hv : hasValue = false → a.IsVoid value) :
    a.Suits (.attr name hasValue value) (Glue.attr name hasValue) := by
  cases hasValue with
  | true => exact Node.enclose_one ..
  | false =>
    simp [Suits, Node.plain, Glue.attr, Payload.children, h.print_void (hv rfl), Node.interleave, bind,
      Except.bind]

theorem suits_element (h : a.Acyclic) (hb : empty = true → a.IsVoid body) :
    a.Suits (.element name empty attributes body) (Glue.element name empty) := by
  cases empty with
  | true =>
    simp only [Suits, Node.plain, Glue.element, Payload.children, List.map_cons, List.map_nil,
      h.print_void (hb rfl), if_true]
    cases a.print attributes <;> simp [Node.enclose, Node.joined, Node.interleave, bind, Except.bind]
  | false =>
    simp only [Suits, Node.plain, Glue.element, Payload.children, List.map_cons, List.map_nil]
    cases a.print attributes <;> cases a.print body <;>
      simp [Node.enclose, Node.joined, Node.interleave, bind, Except.bind, String.append_assoc]

theorem suits_link (h : a.Acyclic) {g : Option Glue} (ht : a.find? title = some ⟨.list items, g⟩)
    (hg : items = [] → g = none) :
    a.Suits (.link target title) (Glue.link target !items.isEmpty) := by
  have hu := h.untitled_eq title
  rw [items_of_find? ht] at hu
  cases items with
  | nil =>
    obtain rfl := hg rfl
    have hp : a.print title = .ok "" := h.print_void ht
    simp [Suits, Node.plain, Glue.link, Payload.children, hu, hp, Node.interleave, Except.map, bind,
      Except.bind]
  | cons y items =>
    have he := Node.enclose_one ("[[" ++ target ++ "|") "]]" (a.print title)
    simpa [Suits, Node.plain, Glue.link, Payload.children, hu, Except.map, bind, Except.bind] using he

end Acyclic

theorem Acyclic.dress (h : a.Acyclic) (l : List NodeId) : (a.dress l).Acyclic := by
  unfold Acyclic
  rwa [kids_eq_of_payload_eq (map_payload_dress a l)]

/-- Where nodes are given glue that suits them, every node is printed as before. -/
theorem Acyclic.print_dress (h : a.Acyclic) (hl : ∀ x ∈ l, a.IsSuited x) (n : NodeId) :
    (a.dress l).print n = a.print n := by
  have hd := h.dress l
  induction n using h.wellFounded.induction with
  | _ n ih =>
    cases hn : a.find? n with
    | none =>
      have hn' : (a.dress l).find? n = none := by simp [find?_dress, hn]
      rw [print_missing hn, print_missing hn']
    | some m =>
      have hparts : m.payload.children.map (a.dress l).print = m.payload.children.map a.print :=
        List.map_congr_left fun y hy => ih y (by rwa [kids_of_find? hn])
      by_cases hx : n ∈ l
      · obtain ⟨p, g, hf, hg, hs⟩ := hl n hx
        obtain rfl := Option.some.inj (hn.symm.trans hf)
        have hn' : (a.dress l).find? n = some ⟨p, some g⟩ := by simp [find?_dress, hx, hn, dressed, hg]
        rw [h.print_eq hn, hd.print_eq hn', hparts]
        exact hs.symm
      · have hn' : (a.dress l).find? n = some m := by simp [find?_dress, hx, hn]
        rw [h.print_eq hn, hd.print_eq hn', hparts]
        cases m.glue with
        | some g => rfl
        | none =>
          refine Node.plain_congr (fun target title hp => ?_) _
          simp only [hp, Payload.children, List.map_cons, List.map_nil, h.untitled_eq, hd.untitled_eq,
            items_eq_of_payload_eq (payload_dress a l)]

end Arena

namespace Surgery

variable {a : Arena} {n : NodeId}

/-- The arena that surgery leaves, whether it ends well or not. -/
def leaves {α : Type} (s : Surgery α) (a : Arena) : Arena :=
  match s a with
  | .ok _ b => b
  | .error _ b => b

theorem leaves_eq {α : Type} {s : Surgery α} {b : Arena}
    (h : Ends s a (fun _ c => c = b) fun _ c => c = b) : s.leaves a = b := by
  unfold leaves
  cases hs : s a with
  | ok _ _ => exact h.of_ok hs
  | error _ _ => exact h.of_error hs

theorem ends_addGlue_untitled {target : String} {title : NodeId} {e : Arena.Error}
    (hp : a.payload n = .ok (.link target title)) (ht : a.items title = .error e) :
    Ends (addGlue n) a (fun _ _ => False) fun _ b => b = a := by
  obtain ⟨_, hn⟩ := Arena.find?_of_payload hp
  obtain ⟨k, hk⟩ := Nat.exists_eq_succ_of_ne_zero (Nat.ne_zero_of_lt (Arena.index_lt_of_find? hn))
  refine Ends.bind (Ends.get ?_)
  rw [hk, renewGlue]
  refine Ends.bind (ends_look (fun p hp' => ?_) fun _ he => by cases he.symm.trans hp)
  obtain rfl := Except.ok.inj (hp.symm.trans hp')
  exact Ends.bind (ends_look (fun _ hi => by cases hi.symm.trans ht) fun _ _ => rfl)

end Surgery

namespace Arena

open Surgery

variable {a : Arena} {n : NodeId}

theorem Acyclic.isSuited_attribute (h : a.Acyclic) (hn : a.IsBareAttribute n) : a.IsSuited n := by
  obtain ⟨name, hasValue, value, hf, hv⟩ := hn
  exact ⟨_, _, hf, rfl, h.suits_attr hv⟩

/-- Every node that gets glue together with a bare node is suited by it. -/
theorem IsBare.exists_gluesWith (h : a.IsBare n) (ha : a.Acyclic)
    (ht : ∀ target title, a.payload n = .ok (.link target title) → ∃ items, a.items title = .ok items) :
    ∃ l, a.GluesWith n l ∧ ∀ x ∈ l, a.IsSuited x := by
  have single {p : Payload} {g : Glue} (hn : a.find? n = some ⟨p, none⟩)
      (he : ∀ name empty attributes body, p ≠ .element name empty attributes body)
      (hg : a.newGlue? p = some g) (hs : a.Suits p g) : ∃ l, a.GluesWith n l ∧ ∀ x ∈ l, a.IsSuited x :=
    ⟨[n], .single (payload_of_find? hn) he hg, List.forall_mem_singleton.2 ⟨p, g, hn, hg, hs⟩⟩
  cases h with
  | @emphasis style content hn =>
    refine single hn (fun _ _ _ _ => Payload.noConfusion) rfl ?_
    cases style <;> exact Node.enclose_one ..
  | @comment text hn => exact single hn (fun _ _ _ _ => Payload.noConfusion) rfl rfl
  | attr hn =>
    obtain ⟨name, hasValue, value, hf, hv⟩ := hn
    exact single hf (fun _ _ _ _ => Payload.noConfusion) rfl (ha.suits_attr hv)
  | @link target title hn hvoid =>
    obtain ⟨items, hi⟩ := ht target title (payload_of_find? hn)
    obtain ⟨g, hf⟩ := find?_of_items hi
    refine single hn (fun _ _ _ _ => Payload.noConfusion) (by rw [newGlue?, hi])
      (ha.suits_link hf fun hnil => ?_)
    subst hnil
    cases g with
    | none => rfl
    | some g => exact absurd hf (hvoid g)
  | @element name empty attributes body items g hn hl hi hb =>
    refine ⟨items ++ [n], .element (payload_of_find? hn) (items_of_find? hl) fun x hx => ?_, ?_⟩
    · obtain ⟨name, hasValue, value, hf, -⟩ := hi x hx
      exact ⟨name, hasValue, value, payload_of_find? hf⟩
    · simp only [List.mem_append, List.mem_singleton]
      rintro x (hx | rfl)
      · exact ha.isSuited_attribute (hi x hx)
      · exact ⟨_, _, hn, rfl, ha.suits_element hb⟩

theorem IsBare.glue_eq_none {p : Payload} {g : Option Glue} (h : a.IsBare n)
    (hf : a.find? n = some ⟨p, g⟩) : g = none := by
  have same {q : Payload} (hq : a.find? n = some ⟨q, none⟩) : g = none :=
    (Node.mk.inj (Option.some.inj (hf.symm.trans hq))).2
  cases h with
  | attr h =>
    obtain ⟨_, _, _, hq, -⟩ := h
    exact same hq
  | emphasis hq => exact same hq
  | link hq _ => exact same hq
  | comment hq => exact same hq
  | element hq _ _ _ => exact same hq

theorem Acyclic.print_untitled (h : a.Acyclic) {target : String} {title : NodeId} {e : Arena.Error}
    (hn : a.find? n = some ⟨.link target title, none⟩) (ht : a.items title = .error e) :
    a.print n = .error e := by
  rw [h.print_eq hn]
  simp [Node.plain, Payload.children, h.untitled_eq, ht, Except.map, bind, Except.bind]

/-- A bare node is printed with the glue of its kind as it is without, and glue that is given once more
changes nothing. It is given wherever the node can be printed. -/
theorem addGlue_prints_plain (ha : a.Acyclic) (hn : a.IsBare n) :
    ((addGlue n).leaves a).print n = a.print n ∧
      (addGlue n).leaves ((addGlue n).leaves a) = (addGlue n).leaves a ∧
      ((a.print n).isOk = true → ∃ b, addGlue n a = .ok () b) := by
  by_cases ht : ∃ target title e, a.payload n = .ok (.link target title) ∧ a.items title = .error e
  · -- a link that cannot be printed is left as it is
    obtain ⟨target, title, e, hp, hi⟩ := ht
    obtain ⟨g, hf⟩ := find?_of_payload hp
    obtain rfl := hn.glue_eq_none hf
    have hleaves : (addGlue n).leaves a = a :=
      leaves_eq ((ends_addGlue_untitled hp hi).mono (fun _ _ h => h.elim) fun _ _ h => h)
    rw [hleaves, hleaves, ha.print_untitled hf hi]
    exact ⟨rfl, rfl, fun hok => by cases hok⟩
  · have listed (target : String) (title : NodeId) (hp : a.payload n = .ok (.link target title)) :
        ∃ items, a.items title = .ok items := by
      cases hi : a.items title with
      | ok items => exact ⟨items, rfl⟩
      | error e => exact absurd ⟨target, title, e, hp, hi⟩ ht
    obtain ⟨l, hl, hsuits⟩ := hn.exists_gluesWith ha listed
    have leave {b : Arena} (hb : b.GluesWith n l) : (addGlue n).leaves b = b.dress l :=
      leaves_eq ((ends_addGlue_dress hb).mono (fun _ _ h => h) fun _ _ h => h.elim)
    have hagain := leave (hl.of_payload_eq (payload_dress a l))
    rw [leave hl, hagain, dress_dress]
    refine ⟨ha.print_dress hsuits n, rfl, fun _ => ?_⟩
    obtain ⟨⟨⟩, b, hrun, -⟩ := (ends_addGlue_dress hl).exists_ok
    exact ⟨b, hrun⟩

/-- A rule of a given size. -/
def sizedRule : Arena :=
  (((((new.push ⟨.text "1", none⟩).push ⟨.list [⟨2⟩], none⟩).push ⟨.attr "size" true ⟨3⟩, none⟩).push
    ⟨.list [⟨4⟩], none⟩).push ⟨.list [], none⟩).push ⟨.element "hr" true ⟨5⟩ ⟨6⟩, none⟩

theorem acyclic_sizedRule : sizedRule.Acyclic := by
  have hvalue : ((new.push ⟨.text "1", none⟩).push ⟨.list [⟨2⟩], none⟩).Founded :=
    (isForest_new.founded.push (List.forall_mem_nil _)).push (List.forall_mem_singleton.2 (by decide))
  have hattributes := (hvalue.push (n := ⟨.attr "size" true ⟨3⟩, none⟩)
    (List.forall_mem_singleton.2 (by decide))).push (n := ⟨.list [⟨4⟩], none⟩)
      (List.forall_mem_singleton.2 (by decide))
  refine ((hattributes.push (n := ⟨.list [], none⟩) (List.forall_mem_nil _)).push ?_).acyclic
  exact List.forall_mem_cons.2 ⟨by decide, List.forall_mem_singleton.2 (by decide)⟩

/-- The rule is printed alike before and after it is given its glue. -/
theorem addGlue_sizedRule :
    sizedRule.Acyclic ∧ sizedRule.IsBare ⟨7⟩ ∧
      sizedRule.print ⟨7⟩ = .ok "<hr size=\"1\" />" ∧
      ((addGlue ⟨7⟩).leaves sizedRule).print ⟨7⟩ = .ok "<hr size=\"1\" />" ∧
      (addGlue ⟨7⟩).leaves ((addGlue ⟨7⟩).leaves sizedRule) = (addGlue ⟨7⟩).leaves sizedRule ∧
      ∃ b, addGlue ⟨7⟩ sizedRule = .ok () b := by
  have hbare : sizedRule.IsBare ⟨7⟩ := by
    refine .element rfl rfl (fun x hx => ?_) fun _ => rfl
    obtain rfl := List.mem_singleton.1 hx
    exact ⟨"size", true, ⟨3⟩, rfl, fun h => by cases h⟩
  obtain ⟨hprint, hagain, hrun⟩ := addGlue_prints_plain acyclic_sizedRule hbare
  exact ⟨acyclic_sizedRule, hbare, rfl, hprint.trans rfl, hagain, hrun rfl⟩

/-- An untitled link whose title list was a comment before it became a list, and kept the glue of one. -/
def gluedTitle : Arena :=
  (new.push ⟨.list [], some ⟨["x"]⟩⟩).push ⟨.link "t" ⟨2⟩, none⟩

/-- The plain form of an untitled link leaves its title list out, glue does not. So the two differ where an
empty list has glue of its own. -/
theorem addGlue_gluedTitle :
    (do
      let title ← make (.comment "")
      Surgery.setGlue title ⟨["x"]⟩
      Surgery.setPayload title (.list [])
      make (.link "t" title) : Surgery NodeId) new = .ok ⟨3⟩ gluedTitle ∧
    gluedTitle.Acyclic ∧
    gluedTitle.find? ⟨3⟩ = some ⟨.link "t" ⟨2⟩, none⟩ ∧
    gluedTitle.print ⟨3⟩ = .ok "[[t]]" ∧
    ((addGlue ⟨3⟩).leaves gluedTitle).print ⟨3⟩ = .ok "[[tx]]" := by
  have hacyclic : gluedTitle.Acyclic :=
    ((isForest_new.founded.push (List.forall_mem_nil _)).push
      (List.forall_mem_singleton.2 (by decide))).acyclic
  exact ⟨rfl, hacyclic, rfl, rfl, rfl⟩

end Arena
end WikiPage
