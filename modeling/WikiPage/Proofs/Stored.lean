import WikiPage.Arena.Read
import WikiPage.Proofs.Reading
import WikiPage.Proofs.Sound

/-!
# Storing nodes

What is stored node by node extends an arena: the nodes that were there stay, and each new node refers
to new nodes made before it, no two to the same. So a text that has been read makes a forest.
-/

namespace WikiPage

namespace Arena

/-- Nodes made from one arena to another, and those of them that no new node refers to. -/
inductive Builds (P : Arena → Node → Prop) : Arena → Arena → List NodeId → Prop
  | none {a : Arena} : Builds P a a []
  | append {a b c : Arena} {ids ids' : List NodeId} (h : Builds P a b ids)
    (h' : Builds P b c ids') : Builds P a c (ids ++ ids')
  | perm {a b : Arena} {ids ids' : List NodeId} (h : Builds P a b ids) (hp : ids.Perm ids') :
    Builds P a b ids'
  | push {a b : Arena} {ids : List NodeId} {n : Node} (h : Builds P a b (ids ++ n.payload.children))
    (hn : P b n) : Builds P a (b.push n) (ids ++ [b.next])

namespace Builds

variable {P : Arena → Node → Prop} {a b : Arena} {ids : List NodeId}

theorem exts (h : Builds P a b ids) : a.Extends b := by
  induction h with
  | none => exact .refl _
  | append _ _ ih ih' => exact ih.trans ih'
  | perm _ _ ih => exact ih
  | push _ _ ih => exact ih.trans (.push _ _)

theorem range (h : Builds P a b ids) : ∀ x ∈ ids, a.size ≤ x.index ∧ x.index < b.size := by
  induction h with
  | none => simp
  | append h h' ih ih' =>
    intro x hx
    have hs := h.exts.size_le
    have hs' := h'.exts.size_le
    rcases List.mem_append.1 hx with hx | hx
    · exact ⟨(ih x hx).1, Nat.lt_of_lt_of_le (ih x hx).2 hs'⟩
    · exact ⟨Nat.le_trans hs (ih' x hx).1, (ih' x hx).2⟩
  | perm _ hp ih => exact fun x hx => ih x (hp.mem_iff.2 hx)
  | @push _ b ids n h _ ih =>
    intro x hx
    rw [size_push]
    rcases List.mem_append.1 hx with hx | hx
    · have := ih x (List.mem_append_left _ hx)
      omega
    · obtain rfl := List.mem_singleton.1 hx
      exact ⟨h.exts.size_le, Nat.lt_succ_self _⟩

theorem founded (h : Builds P a b ids) (ha : a.Founded) : b.Founded := by
  induction h with
  | none => exact ha
  | append _ _ ih ih' => exact ih' (ih ha)
  | perm _ _ ih => exact ih ha
  | push h _ ih => exact (ih ha).push fun y hy => (h.range y (List.mem_append_right _ hy)).2

theorem le_of_mem_kids (h : Builds P a b ids) {x y : NodeId} (hx : a.size ≤ x.index)
    (hy : y ∈ b.kids x) : a.size ≤ y.index := by
  induction h with
  | none => simp [kids_eq_nil hx] at hy
  | @append a b c _ _ h h' ih ih' =>
    rcases Nat.lt_or_ge x.index b.size with hb | hb
    · rw [h'.exts.kids_eq hb] at hy
      exact ih hx hy
    · exact Nat.le_trans h.exts.size_le (ih' hb hy)
  | perm _ _ ih => exact ih hx hy
  | push h _ ih =>
    rw [kids_push] at hy
    split at hy
    · exact (h.range y (List.mem_append_right _ hy)).1
    · exact ih hx hy

theorem forest (h : Builds P a b ids) (ha : a.IsForest) :
    b.IsForest ∧ ids.Nodup ∧ ∀ y ∈ ids, b.Loose y := by
  induction h with
  | none => exact ⟨ha, .nil, by simp⟩
  | @append a b c ids ids' h h' ih ih' =>
    obtain ⟨hb, hn, hl⟩ := ih ha
    obtain ⟨hc, hn', hl'⟩ := ih' hb
    refine ⟨hc, List.nodup_append'.2 ⟨hn, hn', ?_⟩, ?_⟩
    · intro x hx hx'
      have := (h.range x hx).2
      have := (h'.range x hx').1
      omega
    · intro y hy x hx
      rcases List.mem_append.1 hy with hy | hy
      · have hyb := (h.range y hy).2
        rcases Nat.lt_or_ge x.index b.size with hxb | hxb
        · exact hl y hy x (by rwa [h'.exts.kids_eq hxb] at hx)
        · exact Nat.lt_irrefl _ (Nat.lt_of_lt_of_le hyb (h'.le_of_mem_kids hxb hx))
      · exact hl' y hy x hx
  | perm _ hp ih =>
    obtain ⟨hb, hn, hl⟩ := ih ha
    exact ⟨hb, hp.nodup_iff.1 hn, fun y hy => hl y (hp.mem_iff.2 hy)⟩
  | @push a b ids n h _ ih =>
    obtain ⟨hb, hn, hl⟩ := ih ha
    obtain ⟨hn₁, hn₂, hd⟩ := List.nodup_append'.1 hn
    have hr (y : NodeId) (hy : y ∈ ids ++ n.payload.children) : y.index < b.size :=
      (h.range y hy).2
    refine ⟨hb.push hn₂ (fun y hy => hr y (List.mem_append_right _ hy))
      (fun y hy => hl y (List.mem_append_right _ hy)), ?_, ?_⟩
    · refine List.nodup_append'.2 ⟨hn₁, List.nodup_singleton _, fun x hx hx' => ?_⟩
      obtain rfl := List.mem_singleton.1 hx'
      exact Nat.lt_irrefl _ (hr _ (List.mem_append_left _ hx))
    · intro y hy x hx
      rw [kids_push] at hx
      rcases List.mem_append.1 hy with hy | hy
      · split at hx
        · exact hd hy hx
        · exact hl y (List.mem_append_left _ hy) x hx
      · obtain rfl := List.mem_singleton.1 hy
        split at hx
        · exact Nat.lt_irrefl _ (hr _ (List.mem_append_right _ hx))
        · exact Nat.lt_irrefl _ (hb.closed x _ hx)

/-- What holds of the nodes made, and does not depend on later ones, holds of all nodes. -/
theorem forall_of_extends (h : Builds P a b ids)
    (hP : ∀ {a b n}, Extends a b → P a n → P b n)
    (ha : ∀ id n, a.find? id = some n → P a n) : ∀ id n, b.find? id = some n → P b n := by
  induction h with
  | none => exact ha
  | append _ _ ih ih' => exact ih' (ih ha)
  | perm _ _ ih => exact ih ha
  | push _ hn ih =>
    intro id m hm
    rw [find?_push] at hm
    split at hm
    · obtain rfl := Option.some.inj hm
      exact hP (.push _ _) hn
    · exact hP (.push _ _) (ih ha id m hm)

end Builds

end Arena

namespace Node

theorem joined_one (text : String) : joined [.ok text] = .ok text := by
  simp [joined, bind, Except.bind]

theorem joined_append {l l' : List (Except Arena.Error String)} {s t : String}
    (h : joined l = .ok s) (h' : joined l' = .ok t) : joined (l ++ l') = .ok (s ++ t) := by
  induction l generalizing s with
  | nil =>
    obtain rfl : "" = s := by simpa [joined] using h
    simpa using h'
  | cons part parts ih =>
    cases part with
    | error e => cases h
    | ok u =>
      cases hp : joined parts with
      | error e => simp [joined, hp, bind, Except.bind] at h
      | ok v =>
        obtain rfl : u ++ v = s := by simpa [joined, hp, bind, Except.bind] using h
        have hv := ih hp
        simp only [List.cons_append, joined, hv, bind, Except.bind, String.append_assoc]

theorem joined_singleton {part : Except Arena.Error String} {s : String}
    (h : joined [part] = .ok s) : part = .ok s := by
  cases part with
  | error e => cases h
  | ok u => simpa [joined, bind, Except.bind] using h

end Node

namespace Arena

variable {a b c : Arena} {kind : Payload → Bool}

/-- An arena that has what was made from one arena to another. -/
def Shares (a b c : Arena) : Prop :=
  ∀ id : NodeId, a.size ≤ id.index → id.index < b.size → c.find? id = b.find? id

theorem Shares.left {d : Arena} (h : Shares a c d) (hb : b.Extends c) : Shares a b d :=
  fun id hl hu => (h id hl (Nat.lt_of_lt_of_le hu hb.size_le)).trans (hb.find?_eq id hu)

theorem Shares.right {d : Arena} (h : Shares a c d) (ha : a.Extends b) : Shares b c d :=
  fun id hl hu => h id (Nat.le_trans ha.size_le hl) hu

/-- Nodes of a kind made from one arena to another, and the text that they print as. -/
structure Makes (kind : Payload → Bool) (a b : Arena) (ids : List NodeId) (s : List Char) : Prop where
  builds : Builds Fits a b ids
  kinds : ∀ x ∈ ids, b.Is kind x
  prints : ∀ c : Arena, c.Founded → Shares a b c →
    Node.joined (ids.map c.print) = .ok (String.ofList s)

namespace Makes

variable {ids ids' : List NodeId} {s t : List Char}

theorem nil (a : Arena) : Makes kind a a [] [] :=
  ⟨.none, by simp, fun _ _ _ => rfl⟩

theorem append (h : Makes kind a b ids s) (h' : Makes kind b c ids' t) :
    Makes kind a c (ids ++ ids') (s ++ t) := by
  refine ⟨h.builds.append h'.builds, fun x hx => ?_, fun d hd hs => ?_⟩
  · rcases List.mem_append.1 hx with hx | hx
    · exact (h.kinds x hx).extends h'.builds.exts
    · exact h'.kinds x hx
  · rw [List.map_append, String.ofList_append]
    exact Node.joined_append (h.prints d hd (hs.left h'.builds.exts))
      (h'.prints d hd (hs.right h.builds.exts))

/-- Two nodes made the other way round. -/
theorem append_swap (h : Makes kind a b ids s) (h' : Makes kind b c ids' t) :
    Makes kind a c (ids' ++ ids) (t ++ s) := by
  have hc := h.append h'
  refine ⟨hc.builds.perm List.perm_append_comm, fun x hx => hc.kinds x ?_, fun d hd hs => ?_⟩
  · exact List.mem_append.2 (List.mem_append.1 hx).symm
  · rw [List.map_append, String.ofList_append]
    exact Node.joined_append (h'.prints d hd (hs.right h.builds.exts))
      (h.prints d hd (hs.left h'.builds.exts))

theorem node {n : Node} (hb : Builds Fits a b n.payload.children) (hf : b.Fits n)
    (hk : kind n.payload = true)
    (hs : ∀ c : Arena, c.Founded → Shares a b c → (match n.glue with
      | some g => Node.interleave g.slots (n.payload.children.map c.print)
      | none => Node.plain n.payload (n.payload.children.map c.tree)
          (n.payload.children.map c.print)) = .ok (String.ofList s)) :
    Makes kind a (b.push n) [b.next] s := by
  have hb' : Builds Fits a b ([] ++ n.payload.children) := hb
  refine ⟨hb'.push hf, ?_, fun c hc hsh => ?_⟩
  · intro x hx
    obtain rfl := List.mem_singleton.1 hx
    exact .push_next hk
  · have hlt := next_index_lt b n
    have hn : c.find? b.next = some n :=
      (hsh b.next hb.exts.size_le hlt).trans (find?_push_next b n)
    have hprint := (hc.print_eq hn).trans (hs c hc (hsh.left (.push _ _)))
    simp [hprint, Node.joined, bind, Except.bind]

theorem leaf {p : Payload} {g : Option Glue} (a : Arena) (hl : p.isList = false) (hp : p.slots = [])
    (hg : Node.GlueFits ⟨p, g⟩) (hk : kind p = true)
    (hs : (match g with
      | some g => Node.interleave g.slots []
      | none => Node.plain p [] []) = .ok (String.ofList s)) :
    Makes kind a (a.push ⟨p, g⟩) [a.next] s := by
  have hc : p.children = [] := by
    rw [Payload.children_eq_slots hl, hp]
    rfl
  refine .node (n := ⟨p, g⟩) ?_ ⟨by simp [hp], hg⟩ hk fun c _ _ => ?_
  · rw [hc]
    exact .none
  · rw [hc]
    exact hs

theorem list (h : Makes kind a b ids s) :
    Makes Payload.isList a (b.push ⟨.list ids, none⟩) [b.next] s :=
  .node (n := ⟨.list ids, none⟩) h.builds ⟨by simp [Payload.slots], Node.glueFits_none⟩ rfl h.prints

theorem print_eq {x : NodeId} (h : Makes kind a b [x] s) (hc : c.Founded) (hs : Shares a b c) :
    c.print x = .ok (String.ofList s) :=
  Node.joined_singleton (h.prints c hc hs)

theorem around {role : Role} {p : Payload} {opening closing : List Char}
    (h : Makes role.admits a b ids s) (hl : p.isList = false) (hp : p.slots = [(b.next, role)])
    (hk : kind p = true) :
    Makes kind a ((b.push ⟨.list ids, none⟩).push
        ⟨p, some ⟨[String.ofList opening, String.ofList closing]⟩⟩)
      [(b.push ⟨.list ids, none⟩).next] (opening ++ s ++ closing) := by
  have hc : p.children = [b.next] := by
    rw [Payload.children_eq_slots hl, hp]
    rfl
  refine .node (n := ⟨p, _⟩) ?_ ⟨fun x hx => ?_, fun g hg => ?_⟩ hk fun c hf hs => ?_
  · rw [hc]
    exact h.list.builds
  · rw [hp] at hx
    obtain rfl := List.mem_singleton.1 hx
    exact .push_next h.kinds
  · obtain rfl := Option.some.inj hg
    exact ⟨hl, by rw [hc]; rfl⟩
  · simp only [hc, List.map_cons, List.map_nil, h.list.print_eq hf hs, Node.interleave, bind,
      Except.bind, List.headD, List.tail_cons, String.ofList_append]

theorem around₂ {role role' : Role} {p : Payload} {opening middle closing : List Char}
    (h : Makes role.admits a b ids s)
    (h' : Makes role'.admits (b.push ⟨.list ids, none⟩) c ids' t) (hl : p.isList = false)
    (hp : p.slots = [(b.next, role), (c.next, role')]) (hk : kind p = true) :
    Makes kind a ((c.push ⟨.list ids', none⟩).push
        ⟨p, some ⟨[String.ofList opening, String.ofList middle, String.ofList closing]⟩⟩)
      [(c.push ⟨.list ids', none⟩).next] (opening ++ s ++ middle ++ t ++ closing) := by
  have hb := h.list.append h'.list
  have hext : (b.push ⟨.list ids, none⟩).Extends (c.push ⟨.list ids', none⟩) :=
    h'.builds.exts.trans (.push _ _)
  have hc : p.children = [b.next, c.next] := by
    rw [Payload.children_eq_slots hl, hp]
    rfl
  refine .node (n := ⟨p, _⟩) ?_ ⟨fun x hx => ?_, fun g hg => ?_⟩ hk fun d hd hs => ?_
  · rw [hc]
    exact hb.builds
  · rw [hp] at hx
    rcases List.mem_cons.1 hx with rfl | hx
    · exact (ListOf.push_next h.kinds).extends hext
    · obtain rfl := List.mem_singleton.1 hx
      exact .push_next h'.kinds
  · obtain rfl := Option.some.inj hg
    exact ⟨hl, by rw [hc]; rfl⟩
  · simp only [hc, List.map_cons, List.map_nil, h.list.print_eq hd (hs.left hext),
      h'.list.print_eq hd (hs.right (h.builds.exts.trans (.push _ _))), Node.interleave, bind,
      Except.bind, List.headD, List.tail_cons, String.ofList_append, String.append_assoc]

end Makes
end Arena

open Arena (Makes)

theorem Span.makes_store (span : Span) (a : Arena) :
    Makes Role.value.admits a (span.store a).2 [(span.store a).1] span.source := by
  cases span with
  | text s => exact .leaf a rfl rfl Node.glueFits_none rfl rfl
  | reference raw r =>
    exact .leaf a rfl rfl (fun _ hg => Option.some.inj hg ▸ ⟨rfl, rfl⟩) rfl rfl

theorem Span.makes_storeAll (spans : List Span) (a : Arena) :
    Makes Role.value.admits a (storeAll spans a).2 (storeAll spans a).1
      (spans.flatMap Span.source) := by
  induction spans using Span.storeAll.induct generalizing a with
  | case1 => exact .nil a
  | case2 s span spans ih =>
    have h := (Span.makes_store span a).append_swap (Span.makes_store (.text s) _)
    rw [List.flatMap_cons, List.flatMap_cons, ← List.append_assoc]
    exact h.append (ih _)
  | case3 span spans hne ih =>
    rw [storeAll, List.flatMap_cons]
    · exact (Span.makes_store span a).append (ih _)
    · exact hne

theorem Tag.Attribute.makes_store [Entities] (x : Tag.Attribute) (a : Arena) :
    Makes Role.attributes.admits a (x.store a).2 [(x.store a).1] x.source := by
  have h : Makes Role.attributes.admits a (x.store a).2 [(x.store a).1]
      (x.opening ++ (Span.list (x.value.getD [])).flatMap Span.source ++ x.closing) :=
    (Span.makes_storeAll (Span.list (x.value.getD [])) a).around rfl rfl rfl
  rw [Span.flatMap_source_list] at h
  exact h

/-- One action after another, as the list of its results. -/
theorem Storing.makes_mapM {α : Type} {f : α → Storing NodeId} {source : α → List Char}
    {kind : Payload → Bool} (h : ∀ x a, Makes kind a (f x a).2 [(f x a).1] (source x))
    (xs : List α) (a : Arena) :
    Makes kind a (xs.mapM f a).2 (xs.mapM f a).1 (xs.flatMap source) := by
  induction xs generalizing a with
  | nil => exact .nil a
  | cons x xs ih =>
    rw [List.mapM_cons, List.flatMap_cons]
    exact (h x a).append (ih _)

namespace Inline

theorem makes_store_and_storeAll [Entities] :
    (∀ item a, Makes Role.content.admits a (store item a).2 [(store item a).1] item.source) ∧
    (∀ items a, Makes Role.content.admits a (storeAll items a).2 (storeAll items a).1
      (sources items)) := by
  refine store.mutual_induct _ _ ?text ?newline ?reference ?comment ?emphasis ?link
    ?element ?nil ?textCons ?cons
  case text => exact fun s a => .leaf a rfl rfl Node.glueFits_none rfl rfl
  case newline => exact fun s a => .leaf a rfl rfl Node.glueFits_none rfl rfl
  case reference =>
    exact fun raw r a => .leaf a rfl rfl (fun _ hg => Option.some.inj hg ▸ ⟨rfl, rfl⟩) rfl rfl
  case comment =>
    exact fun s closed a =>
      .leaf a rfl rfl (fun _ hg => Option.some.inj hg ▸ ⟨rfl, rfl⟩) rfl rfl
  case emphasis =>
    intro style body closed ih a
    rw [store, source]
    exact (ih a).around rfl rfl rfl
  case link =>
    intro target piped title closed ih a
    rw [store, source]
    exact (ih a).around rfl rfl rfl
  case element =>
    intro tag body closing ih a
    rw [store, source, StartTag.source]
    exact (Storing.makes_mapM Tag.Attribute.makes_store tag.attributes a).around₂ (ih _) rfl rfl rfl
  case nil => exact fun a => .nil a
  case textCons =>
    intro s item items ih ihs ih' a
    have h := (ih a).append_swap (ihs _)
    rw [sources, sources, ← List.append_assoc]
    exact h.append (ih' _)
  case cons =>
    intro item items hne ih ih' a
    rw [storeAll, sources]
    · exact (ih a).append (ih' _)
    · exact hne

theorem makes_store [Entities] (item : Inline) (a : Arena) :
    Makes Role.content.admits a (store item a).2 [(store item a).1] item.source :=
  makes_store_and_storeAll.1 item a

theorem makes_storeAll [Entities] (items : List Inline) (a : Arena) :
    Makes Role.content.admits a (storeAll items a).2 (storeAll items a).1 (sources items) :=
  makes_store_and_storeAll.2 items a

end Inline

theorem Block.makes_store [Entities] (block : Block) (a : Arena) :
    Makes Role.content.admits a (block.store a).2 [(block.store a).1] block.source := by
  cases block with
  | newline s => exact .leaf a rfl rfl Node.glueFits_none rfl rfl
  | rule dashes => exact .leaf a rfl rfl (fun _ hg => Option.some.inj hg ▸ ⟨rfl, rfl⟩) rfl rfl
  | paragraph items =>
    have h : Makes Role.content.admits a (store (.paragraph items) a).2
        [(store (.paragraph items) a).1] ([] ++ Inline.sources items ++ []) :=
      (Inline.makes_storeAll items a).around rfl rfl rfl
    rw [List.nil_append, List.append_nil] at h
    exact h
  | element tag body closing => exact Inline.makes_store (.element tag body closing) a

namespace Arena

/-- What a text is read into, before the page takes it for its content. -/
def stored [Entities] (text : String) : List NodeId × Arena :=
  ((Block.parse true text.toList).mapM Block.store).run new

theorem makes_stored [Entities] (text : String) :
    Makes Role.content.admits new (stored text).2 (stored text).1
      ((Block.parse true text.toList).flatMap Block.source) :=
  Storing.makes_mapM Block.makes_store _ new

theorem read_eq [Entities] (text : String) :
    read text = (stored text).2.setItems new.content (stored text).1 := rfl

theorem size_new : new.size = 2 := rfl

theorem find?_new_root : new.find? root = some ⟨.page new.content, none⟩ := rfl

theorem find?_new_content : new.find? new.content = some ⟨.list [], none⟩ := rfl

theorem sound_new : new.Sound where
  toIsForest := isForest_new
  fits {id n} hn := by
    have hlist : new.ListOf .content new.content := ⟨[], rfl, by simp⟩
    obtain ⟨i⟩ := id
    match i with
    | 0 =>
      obtain rfl : _ = n := Option.some.inj (find?_new_content.symm.trans hn)
      exact ⟨by simp [Payload.slots], Node.glueFits_none⟩
    | 1 =>
      obtain rfl : _ = n := Option.some.inj (find?_new_root.symm.trans hn)
      refine ⟨fun s hs => ?_, Node.glueFits_none⟩
      obtain rfl := List.mem_singleton.1 hs
      exact hlist
    | i + 2 => simp [find?_eq_none_iff.2 (show new.size ≤ i + 2 by simp [size_new])] at hn
  page := ⟨_, _, find?_new_root⟩

theorem sound_stored [Entities] (text : String) : (stored text).2.Sound where
  toIsForest := ((makes_stored text).builds.forest isForest_new).1
  fits {_ _} hn := (makes_stored text).builds.forall_of_extends (fun hb h => h.extends hb)
    (fun _ _ => sound_new.fits) _ _ hn
  page := ⟨_, _, (makes_stored text).builds.exts.find?_of_find? find?_new_root⟩

theorem find?_stored_content [Entities] (text : String) :
    (stored text).2.find? new.content = some ⟨.list [], none⟩ :=
  (makes_stored text).builds.exts.find?_of_find? find?_new_content

theorem sound_read [Entities] (text : String) : (read text).Sound := by
  have hm := makes_stored text
  have hs := sound_stored text
  obtain ⟨hf, hn, hl⟩ := hm.builds.forest isForest_new
  have hroot := hm.builds.exts.find?_of_find? find?_new_root
  refine hs.setItems (find?_stored_content text) hn (fun y hy x _ => hl y hy x) ?_
    (fun y hy => (hm.builds.range y hy).2) ?_
  · have apart {x y : NodeId} (h : Reaches (stored text).2.kids y x) (hy : new.size ≤ y.index) :
        new.size ≤ x.index := by
      induction h with
      | refl => exact hy
      | tail _ hx ih => exact hm.builds.le_of_mem_kids ih hx
    intro y hy hr
    exact absurd (apart hr (hm.builds.range y hy).1) (by decide)
  · intro id n role hid hrole x hx
    have hk : new.content ∈ (stored text).2.kids id := by
      rw [kids_of_find? hid]
      exact Payload.children_of_mem_slots hrole
    have hr : new.content ∈ (stored text).2.kids root := by
      rw [kids_of_find? hroot]
      exact List.mem_singleton_self _
    obtain rfl := hs.single hk hr
    obtain rfl := Option.some.inj (hroot.symm.trans hid)
    obtain ⟨-, rfl⟩ := Prod.mk.inj (List.mem_singleton.1 hrole)
    exact hm.kinds x hx

theorem find?_read_root [Entities] (text : String) :
    (read text).find? root = some ⟨.page new.content, none⟩ := by
  rw [read_eq, find?_setItems (find?_stored_content text), if_neg (by decide)]
  exact (makes_stored text).builds.exts.find?_of_find? find?_new_root

theorem find?_read_content [Entities] (text : String) :
    (read text).find? new.content = some ⟨.list (stored text).1, none⟩ := by
  rw [read_eq, find?_setItems (find?_stored_content text), if_pos rfl]

theorem loose_root_new : new.Loose root := by
  intro x hx
  rcases Nat.lt_or_ge x.index new.size with hlt | hge
  · obtain ⟨i⟩ := x
    match i, hlt with
    | 0, _ => cases hx
    | 1, _ => cases List.mem_singleton.1 hx
  · rw [kids_eq_nil hge] at hx
    cases hx

theorem loose_root_read [Entities] (text : String) : (read text).Loose root := by
  have hm := makes_stored text
  have hold : ¬new.size ≤ root.index := by decide
  intro x hx
  rw [read_eq, kids_setItems (index_lt_of_find? (find?_stored_content text))] at hx
  split at hx
  · exact hold (hm.builds.range root hx).1
  rcases Nat.lt_or_ge x.index new.size with hlt | hge
  · rw [hm.builds.exts.kids_eq hlt] at hx
    exact loose_root_new x hx
  · exact hold (hm.builds.le_of_mem_kids hge hx)

/-- A page prints as its content does. -/
theorem Founded.printPage_eq {a : Arena} {content : NodeId} {text : String} (h : a.Founded)
    (hn : a.find? root = some ⟨.page content, none⟩) (ht : a.print content = .ok text) :
    a.printPage = .ok text := by
  rw [printPage, h.print_eq hn]
  exact (congrArg (fun part => Node.joined [part]) ht).trans (Node.joined_one text)

theorem print_content_read [Entities] (text : String) : (read text).print new.content = .ok text := by
  have hm := makes_stored text
  have hf := (sound_read text).founded
  have hs : Shares new (stored text).2 (read text) := by
    intro id hid _
    rw [read_eq, find?_setItems (find?_stored_content text), if_neg]
    rintro rfl
    exact absurd hid (by decide)
  rw [hf.print_eq (find?_read_content text)]
  refine (hm.prints _ hf hs).trans ?_
  rw [Block.flatMap_source_parse, String.ofList_toList]

/-- A text that has been read prints as it stands. -/
theorem printPage_read [Entities] (text : String) : (read text).printPage = .ok text :=
  (sound_read text).founded.printPage_eq (find?_read_root text) (print_content_read text)

end Arena
end WikiPage
