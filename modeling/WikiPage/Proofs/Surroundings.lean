import WikiPage.Proofs.Rooted
import WikiPage.Proofs.Stored
import WikiPage.Proofs.Wording

/-!
# What is printed around a node

A node that is part of the page is printed once, and the text before it and the text behind it come from
the nodes that it stands in and from those beside it. So both stay as they are when nothing changes but
what is at or below the node.
-/

namespace WikiPage

namespace Node

theorem interleave_nil (parts : List (Except Arena.Error String)) :
    interleave [] parts = joined parts := by
  induction parts with
  | nil => rfl
  | cons part parts ih =>
    cases part with
    | error e => rfl
    | ok text =>
      simp only [interleave, joined, List.tail_nil, ih, bind, Except.bind]
      cases joined parts <;> simp

theorem exists_interleave {parts : List (Except Arena.Error String)}
    (h : ∀ part ∈ parts, ∃ text, part = .ok text) (slots : List String) :
    ∃ text, interleave slots parts = .ok text := by
  induction parts generalizing slots with
  | nil => exact ⟨_, rfl⟩
  | cons part parts ih =>
    obtain ⟨text, rfl⟩ := h part List.mem_cons_self
    obtain ⟨rest, hrest⟩ := ih (fun p hp => h p (List.mem_cons_of_mem _ hp)) slots.tail
    exact ⟨slots.headD "" ++ text ++ rest, by simp [interleave, hrest, bind, Except.bind]⟩

theorem exists_joined {parts : List (Except Arena.Error String)}
    (h : ∀ part ∈ parts, ∃ text, part = .ok text) : ∃ text, joined parts = .ok text := by
  simpa only [interleave_nil] using exists_interleave h []

/-- A part with what stands on either side of it. -/
theorem interleave_middle {slots : List String} {l r : List (Except Arena.Error String)}
    {left text right : String} (hl : interleave slots l = .ok left)
    (hr : interleave (slots.drop (l.length + 1)) r = .ok right) :
    interleave slots (l ++ .ok text :: r) = .ok (left ++ text ++ right) := by
  induction l generalizing slots left with
  | nil =>
    obtain rfl := Except.ok.inj hl
    rw [List.length_nil, List.drop_one] at hr
    simp [interleave, hr, bind, Except.bind]
  | cons part l ih =>
    obtain ⟨first, rfl, hfirst⟩ := Except.exists_of_bind hl
    obtain ⟨rest, hrest, heq⟩ := Except.exists_of_bind hfirst
    obtain rfl := Except.ok.inj heq
    have hdrop : slots.drop ((Except.ok first :: l).length + 1) = slots.tail.drop (l.length + 1) := by
      rw [← List.drop_one, List.drop_drop, Nat.add_comm 1]
      rfl
    rw [hdrop] at hr
    simp [interleave, ih hrest hr, String.append_assoc, bind, Except.bind]

/-- The text around the children of a node that is printed with all of them. -/
def frame? : Node → Option (List String)
  | ⟨_, some g⟩ => some g.slots
  | ⟨.page _, none⟩ => some []
  | ⟨.list _, none⟩ => some []
  | ⟨.paragraph _, none⟩ => some []
  | ⟨.emphasis .bold _, none⟩ => some ["'''", "'''"]
  | ⟨.emphasis .italics _, none⟩ => some ["''", "''"]
  | _ => none

theorem plain_eq_of_frame? {p : Payload} {slots : List String} (h : frame? ⟨p, none⟩ = some slots)
    (below : List (Tree NodeId Node)) (part : NodeId → Except Arena.Error String) :
    plain p below (p.children.map part) = interleave slots (p.children.map part) := by
  cases p with
  | emphasis style content =>
    cases style <;> cases h <;> rw [plain] <;> simp only [Payload.children, List.map_cons, List.map_nil,
      enclose, joined, interleave, bind, Except.bind] <;> cases part content <;> simp
  | page _ => cases h; rw [interleave_nil]; rfl
  | list _ => cases h; rw [interleave_nil]; rfl
  | paragraph _ => cases h; rw [interleave_nil]; rfl
  | _ => cases h

theorem Worded.plain_of_frame? [Entities] {source : String} {id : NodeId} {n : Node} (h : n.Worded source id)
    (hn : n.frame? = none) : n.glue = none ∧ n.payload.children = [] ∧
      ∃ text, ∀ below parts, plain n.payload below parts = .ok text := by
  obtain ⟨p, g⟩ := n
  cases g with
  | some g => cases hn
  | none =>
    cases p with
    | text s => exact ⟨rfl, rfl, s, fun _ _ => rfl⟩
    | newline s => exact ⟨rfl, rfl, s, fun _ _ => rfl⟩
    | rule => exact ⟨rfl, rfl, "----", fun _ _ => rfl⟩
    | reference r => cases r <;> exact ⟨rfl, rfl, _, fun _ _ => rfl⟩
    | emphasis style _ => cases style <;> cases hn
    | link _ _ =>
      obtain ⟨-, _, _, hg, -⟩ := h
      cases hg
    | element _ _ _ _ =>
      obtain ⟨_, _, hg⟩ := h
      cases hg
    | comment _ =>
      rcases h with hg | ⟨hg, -⟩
      · cases hg
      · cases hg
    | attr _ _ _ =>
      obtain ⟨_, _, _, hg, -⟩ := h
      cases hg
    | _ => cases hn

end Node

namespace Arena

variable {a b : Arena} {source : String} {c x y : NodeId} {n : Node}

theorem Founded.print_eq_of_frame? (h : a.Founded) (hn : a.find? x = some n) {slots : List String}
    (hs : n.frame? = some slots) :
    a.print x = Node.interleave slots (n.payload.children.map a.print) := by
  rw [h.print_eq hn]
  obtain ⟨p, g⟩ := n
  cases g with
  | some g =>
    obtain rfl := Option.some.inj hs
    rfl
  | none => exact Node.plain_eq_of_frame? hs _ _

theorem Founded.print_list (h : a.Founded) {items : List NodeId}
    (hn : a.find? x = some ⟨.list items, none⟩) : a.print x = Node.joined (items.map a.print) := by
  rw [h.print_eq_of_frame? hn rfl, Node.interleave_nil]
  rfl

/-- A node is printed around the one that it has in it. -/
theorem Founded.print_around (h : a.Founded) {p : Payload} {before behind text : String}
    (hn : a.find? x = some ⟨p, some ⟨[before, behind]⟩⟩) (hc : p.children = [y])
    (hy : a.print y = .ok text) : a.print x = .ok (before ++ text ++ behind) := by
  rw [h.print_eq_of_frame? hn rfl, hc]
  simp [hy, Node.interleave, bind, Except.bind, String.append_assoc]

theorem Founded.print_glued (h : a.Founded) {link title : NodeId} {target text : String} {titled : Bool}
    (hl : a.find? link = some ⟨.link target title, some (Glue.link target titled)⟩)
    (ht : a.print title = .ok text) : a.print link =
      .ok ("[[" ++ target ++ (if titled then "|" else "") ++ text ++ "]]") :=
  h.print_around hl rfl ht

theorem Founded.exists_print [Entities] (h : a.Founded) (hw : a.Worded source) (hx : x.index < a.size) :
    ∃ text, a.print x = .ok text := by
  induction x using h.wellFounded.induction with
  | _ x ih =>
    obtain ⟨n, hn⟩ := exists_of_index_lt hx
    cases hf : n.frame? with
    | some slots =>
      rw [h.print_eq_of_frame? hn hf]
      refine Node.exists_interleave (fun part hp => ?_) slots
      obtain ⟨z, hz, rfl⟩ := List.mem_map.1 hp
      have hzk : z ∈ a.kids x := kids_of_find? hn ▸ hz
      exact ih z hzk (h.closed x z hzk)
    | none =>
      obtain ⟨hg, -, text, ht⟩ := (hw x n hn).1.plain_of_frame? hf
      rw [h.print_eq hn, hg]
      exact ⟨text, ht _ _⟩

theorem Founded.exists_joined [Entities] (h : a.Founded) (hw : a.Worded source) {items : List NodeId}
    (hi : ∀ x ∈ items, x.index < a.size) : ∃ text, Node.joined (items.map a.print) = .ok text := by
  refine Node.exists_joined fun part hp => ?_
  obtain ⟨z, hz, rfl⟩ := List.mem_map.1 hp
  exact h.exists_print hw (hi z hz)

/-- What the page is printed with before a node and behind it. -/
inductive Stands (a : Arena) : NodeId → String → String → Prop
  | root : Stands a root "" ""
  | inside {x y : NodeId} {n : Node} {slots : List String} {l r : List NodeId}
      {before behind left right : String} (hx : Stands a x before behind) (hn : a.find? x = some n)
      (hs : n.frame? = some slots) (hc : n.payload.children = l ++ y :: r)
      (hl : Node.interleave slots (l.map a.print) = .ok left)
      (hr : Node.interleave (slots.drop (l.length + 1)) (r.map a.print) = .ok right) :
      Stands a y (before ++ left) (right ++ behind)

variable {before behind text : String}

theorem Stands.printPage (h : a.Stands x before behind) (ha : a.Founded) (ht : a.print x = .ok text) :
    a.printPage = .ok (before ++ text ++ behind) := by
  induction h generalizing text with
  | root => simpa [Arena.printPage] using ht
  | @inside x y n slots l r before behind left right _ hn hs hc hl hr ih =>
    have hp : a.print x = .ok (left ++ text ++ right) := by
      rw [ha.print_eq_of_frame? hn hs, hc, List.map_append, List.map_cons, ht]
      exact Node.interleave_middle hl (by rwa [List.length_map])
    rw [ih hp]
    simp only [String.append_assoc]

theorem Sound.exists_stands [Entities] (h : a.Sound) (hw : a.Worded source) (hx : Reaches a.kids root x) :
    ∃ before behind, a.Stands x before behind := by
  induction hx with
  | refl => exact ⟨"", "", .root⟩
  | @tail x y _ hy ih =>
    obtain ⟨before, behind, hs⟩ := ih
    obtain ⟨n, hn⟩ : ∃ n, a.find? x = some n := by
      cases hn : a.find? x with
      | none => simp [kids, Tree.kids, hn] at hy
      | some n => exact ⟨n, rfl⟩
    obtain ⟨l, r, hlr⟩ := List.append_of_mem hy
    have hc := (kids_of_find? hn).symm.trans hlr
    cases hf : n.frame? with
    | none =>
      obtain ⟨-, hnil, -⟩ := (hw x n hn).1.plain_of_frame? hf
      rw [hnil] at hc
      simp at hc
    | some slots =>
      have printed (items : List NodeId) (slots : List String) (hi : items ⊆ a.kids x) :
          ∃ text, Node.interleave slots (items.map a.print) = .ok text := by
        refine Node.exists_interleave (fun part hp => ?_) slots
        obtain ⟨z, hz, rfl⟩ := List.mem_map.1 hp
        exact h.founded.exists_print hw (h.closed x z (hi hz))
      obtain ⟨left, hl⟩ := printed l slots (by simp [hlr])
      obtain ⟨right, hr⟩ := printed r (slots.drop (l.length + 1)) (by simp [hlr])
      exact ⟨_, _, hs.inside hn hf hc hl hr⟩

theorem Stands.item (h : a.Stands c before behind) {l r : List NodeId} {left right : String}
    (hc : a.find? c = some ⟨.list (l ++ x :: r), none⟩)
    (hl : Node.joined (l.map a.print) = .ok left) (hr : Node.joined (r.map a.print) = .ok right) :
    a.Stands x (before ++ left) (right ++ behind) := by
  refine h.inside hc rfl rfl ?_ ?_
  · rw [Node.interleave_nil, hl]
  · rw [List.drop_nil, Node.interleave_nil, hr]

/-- Two arenas that agree on all nodes that one of them has, but for some. -/
def AgreesBut (a b : Arena) (d : NodeId → Prop) : Prop :=
  ∀ x n, ¬d x → a.find? x = some n → b.find? x = some n

variable {d : NodeId → Prop}

theorem AgreesBut.tree_eq (h : a.AgreesBut b d) (ha : a.Founded) (hb : b.Founded)
    (hx : x.index < a.size) (hr : ∀ y, d y → ¬Reaches a.kids x y) : b.tree x = a.tree x := by
  induction x using ha.wellFounded.induction with
  | _ x ih =>
    obtain ⟨n, hn⟩ := exists_of_index_lt hx
    have hb' := h x n (fun hd => hr x hd .refl) hn
    rw [ha.tree_eq hn, hb.tree_eq hb', Tree.node.injEq]
    refine ⟨rfl, rfl, List.map_congr_left fun y hy => ?_⟩
    have hyk : y ∈ a.kids x := kids_of_find? hn ▸ hy
    exact ih y hyk (ha.closed x y hyk) fun z hz hyz => hr z hz (hyz.head hyk)

theorem AgreesBut.print_eq (h : a.AgreesBut b d) (ha : a.Founded) (hb : b.Founded)
    (hx : x.index < a.size) (hr : ∀ y, d y → ¬Reaches a.kids x y) : b.print x = a.print x :=
  congrArg Node.print (h.tree_eq ha hb hx hr)

/-- What is printed around a node is the same if all that differs is at or below it. -/
theorem AgreesBut.stands (h : a.AgreesBut b d) (ha : a.IsForest) (hb : b.Founded)
    (hd : ∀ y, d y → Reaches a.kids c y) (hc : a.Stands c before behind) : b.Stands c before behind := by
  suffices hs : ∀ {x before behind}, a.Stands x before behind → Reaches a.kids x c →
      b.Stands x before behind from hs hc .refl
  intro x before behind hx
  induction hx with
  | root => exact fun _ => .root
  | @inside x y n slots l r before behind left right _ hn hs hch hl hr ih =>
    intro hyc
    have hk := kids_of_find? hn
    have hy : y ∈ a.kids x := by simp [hk, hch]
    -- what differs is below `y`, so neither `x` nor a sibling of `y` has it at or below it
    have hxd : ¬d x := fun hdx => ha.not_reaches hy (hyc.trans (hd x hdx))
    have hnd : (l ++ y :: r).Nodup := hch ▸ hk ▸ ha.nodup x
    have same (items : List NodeId) (hi : items ⊆ a.kids x) (hne : y ∉ items) :
        items.map b.print = items.map a.print := by
      refine List.map_congr_left fun z hz =>
        h.print_eq ha.founded hb (ha.closed x z (hi hz)) fun w hw => ?_
      exact ha.not_reaches_of_sibling hy (hi hz) (fun he => hne (he ▸ hz)) (hyc.trans (hd w hw))
    rw [List.nodup_middle, List.nodup_cons, List.mem_append, not_or] at hnd
    have hsl := same l (by simp [hk, hch]) hnd.1.1
    have hsr := same r (by simp [hk, hch]) hnd.1.2
    exact (ih (hyc.head hy)).inside (h x n hxd hn) hs hch (hsl ▸ hl) (hsr ▸ hr)

/-- A list has other items in one place. Apart from the list, nothing differs but what is at or below the
items that were there. -/
structure Splices (a b : Arena) (c : NodeId) (s r r' t : List NodeId) : Prop where
  agrees : a.AgreesBut b fun y => y = c ∨ ∃ m ∈ r, Reaches a.kids m y
  old : a.find? c = some ⟨.list (s ++ r ++ t), none⟩
  new : b.find? c = some ⟨.list (s ++ r' ++ t), none⟩

variable {s r r' t : List NodeId}

theorem Splices.of_find? (ho : a.find? c = some ⟨.list (s ++ r ++ t), none⟩)
    (hn : b.find? c = some ⟨.list (s ++ r' ++ t), none⟩)
    (h : ∀ y n, y ≠ c → a.find? y = some n → b.find? y = some n) : a.Splices b c s r r' t :=
  ⟨fun y n hy => h y n fun he => hy (.inl he), ho, hn⟩

/-- What is printed around the place in which a list has other items. -/
theorem Splices.exists_texts [Entities] (h : a.Splices b c s r r' t) (ha : a.Sound) (hb : b.Founded)
    (hw : a.Worded source) (hc : Reaches a.kids root c) :
    ∃ before left right behind, a.Stands c before behind ∧
      Node.joined (s.map a.print) = .ok left ∧ Node.joined (t.map a.print) = .ok right ∧
      (∀ text, Node.joined (r.map a.print) = .ok text →
        a.printPage = .ok ((before ++ left) ++ text ++ (right ++ behind))) ∧
      ∀ text, Node.joined (r'.map b.print) = .ok text →
        b.printPage = .ok ((before ++ left) ++ text ++ (right ++ behind)) := by
  obtain ⟨before, behind, hs⟩ := ha.exists_stands hw hc
  have hk : a.kids c = s ++ r ++ t := kids_of_find? h.old
  have known (items : List NodeId) (hi : items ⊆ a.kids c) :
      ∃ text, Node.joined (items.map a.print) = .ok text :=
    ha.founded.exists_joined hw fun x hx => ha.closed c x (hi hx)
  obtain ⟨left, hl⟩ := known s (by simp [hk])
  obtain ⟨right, hr⟩ := known t (by simp [hk])
  have hnd : (s ++ r ++ t).Nodup := hk ▸ ha.nodup c
  -- what stands beside the place is printed as before
  have same (items : List NodeId) (hi : items ⊆ a.kids c) (hne : ∀ x ∈ items, x ∉ r) :
      items.map b.print = items.map a.print := by
    refine List.map_congr_left fun x hx =>
      h.agrees.print_eq ha.founded hb (ha.closed c x (hi hx)) fun y hy => ?_
    rcases hy with rfl | ⟨m, hm, hmy⟩
    · exact ha.not_reaches (hi hx)
    · exact ha.not_reaches_of_sibling (by simp [hk, hm]) (hi hx) (fun he => hne x hx (he ▸ hm)) hmy
  have whole {d : Arena} {m : List NodeId} {text : String} (hd : d.Founded)
      (hc : d.find? c = some ⟨.list (s ++ m ++ t), none⟩) (hst : d.Stands c before behind)
      (hl : Node.joined (s.map d.print) = .ok left) (hm : Node.joined (m.map d.print) = .ok text)
      (hr : Node.joined (t.map d.print) = .ok right) :
      d.printPage = .ok ((before ++ left) ++ text ++ (right ++ behind)) := by
    have hp : d.print c = .ok (left ++ text ++ right) := by
      rw [hd.print_list hc, List.map_append, List.map_append]
      exact Node.joined_append (Node.joined_append hl hm) hr
    rw [hst.printPage hd hp]
    simp only [String.append_assoc]
  refine ⟨before, left, right, behind, hs, hl, hr, fun text hm => whole ha.founded h.old hs hl hm hr,
    fun text hm => whole hb h.new (h.agrees.stands ha.toIsForest hb ?_ hs) ?_ hm ?_⟩
  · rintro y (rfl | ⟨m, hm, hmy⟩)
    · exact .refl
    · exact hmy.head (by simp [hk, hm])
  · rwa [same s (by simp [hk]) fun x hs hr => List.disjoint_of_nodup_append (List.nodup_append.1 hnd).1 hs hr]
  · rwa [same t (by simp [hk]) fun x ht hr => List.disjoint_of_nodup_append hnd (List.mem_append_right s hr) ht]

end Arena
end WikiPage
