import Mathlib.Data.List.Perm.Subperm
import Mathlib.Data.List.Nodup
import Mathlib.Order.WellFounded
import WikiPage.Arena.Print

/-!
# Forests

In a forest nothing stands at two places or below itself. A tree is grown to the depth of the size of
its table, and in a forest that shows the whole tree: a chain of children never comes back to where it
was, so it is no longer than the table.
-/

namespace WikiPage

/-- One identifier at or below another, by what stands directly below each. -/
def Reaches {ι : Type} (kids : ι → List ι) : ι → ι → Prop :=
  Relation.ReflTransGen fun x y => y ∈ kids x

structure Forest {ι : Type} (kids : ι → List ι) : Prop where
  wellFounded : WellFounded fun y x => y ∈ kids x
  nodup : ∀ x, (kids x).Nodup
  single : ∀ {x x' y}, y ∈ kids x → y ∈ kids x' → x = x'

section

variable {ι : Type} {kids kids' : ι → List ι}

theorem WellFounded.not_reaches (h : WellFounded fun y x => y ∈ kids x) {x y : ι}
    (hy : y ∈ kids x) : ¬Reaches kids y x := by
  intro hr
  have ht : Relation.TransGen (fun x y => y ∈ kids x) x x := .head' hy hr
  exact h.transGen.irrefl.irrefl x (Relation.transGen_swap.1 ht)

theorem Forest.not_reaches (h : Forest kids) {x y : ι} (hy : y ∈ kids x) : ¬Reaches kids y x :=
  WellFounded.not_reaches h.wellFounded hy

theorem Reaches.eq_or_mem {x y : ι} (h : Reaches kids x y) : x = y ∨ ∃ z, y ∈ kids z := by
  rcases Relation.ReflTransGen.cases_tail h with rfl | ⟨z, _, hz⟩
  · exact .inl rfl
  · exact .inr ⟨z, hz⟩

theorem Reaches.head_iff {x y : ι} :
    Reaches kids x y ↔ y = x ∨ ∃ z ∈ kids x, Reaches kids z y := by
  rw [Reaches, Relation.ReflTransGen.cases_head_iff, eq_comm]

theorem Reaches.mono {x y : ι} (h : Reaches kids x y) (hk : ∀ z, kids z ⊆ kids' z) :
    Reaches kids' x y :=
  Relation.ReflTransGen.mono (fun z _ hw => hk z hw) x y h

variable {c : ι}

/-- Well-foundedness is kept when only one identifier gets other children, which it does not stand
below. -/
theorem WellFounded.of_kids_eq (h : WellFounded fun y x => y ∈ kids x)
    (hk : ∀ x, x ≠ c → kids' x ⊆ kids x) (hc : ∀ y ∈ kids' c, ¬Reaches kids y c) :
    WellFounded fun y x => y ∈ kids' x := by
  have apart (x : ι) : ¬Reaches kids x c → Acc (fun y x => y ∈ kids' x) x := by
    induction x using h.induction with
    | _ x ih =>
      intro hx
      have hxc : x ≠ c := by
        rintro rfl
        exact hx .refl
      refine .intro x fun y hy => ?_
      have hy' := hk x hxc hy
      exact ih y hy' fun hr => hx (.head hy' hr)
  have accC : Acc (fun y x => y ∈ kids' x) c := .intro c fun y hy => apart y (hc y hy)
  refine ⟨fun x => ?_⟩
  induction x using h.induction with
  | _ x ih =>
    by_cases hxc : x = c
    · exact hxc ▸ accC
    · exact .intro x fun y hy => ih y (hk x hxc hy)

namespace Forest

theorem of_kids_eq (h : Forest kids) (hk : ∀ x, x ≠ c → kids' x = kids x)
    (hn : (kids' c).Nodup) (hl : ∀ y ∈ kids' c, ∀ x, x ≠ c → y ∉ kids x)
    (hc : ∀ y ∈ kids' c, ¬Reaches kids y c) : Forest kids' where
  wellFounded :=
    WellFounded.of_kids_eq h.wellFounded (fun x hx => hk x hx ▸ List.Subset.refl _) hc
  nodup x := by
    by_cases hx : x = c
    · exact hx ▸ hn
    · exact hk x hx ▸ h.nodup x
  single {x x' y} hy hy' := by
    by_cases hx : x = c <;> by_cases hx' : x' = c
    · rw [hx, hx']
    · rw [hk x' hx'] at hy'
      exact absurd hy' (hl y (hx ▸ hy) x' hx')
    · rw [hk x hx] at hy
      exact absurd hy (hl y (hx' ▸ hy') x hx)
    · rw [hk x hx] at hy
      rw [hk x' hx'] at hy'
      exact h.single hy hy'

theorem total (h : Forest kids) {x y z : ι} (hx : Reaches kids x z) (hy : Reaches kids y z) :
    Reaches kids x y ∨ Reaches kids y x := by
  have hu : Relator.RightUnique fun z x => z ∈ kids x := fun _ _ _ h₁ h₂ => h.single h₁ h₂
  rcases Relation.ReflTransGen.total_of_right_unique hu hx.swap hy.swap with hr | hr
  · exact .inr (Relation.reflTransGen_swap.1 hr)
  · exact .inl (Relation.reflTransGen_swap.1 hr)

/-- Two identifiers that stand side by side have nothing below them in common. -/
theorem not_reaches_of_sibling (h : Forest kids) {x y z w : ι} (hy : y ∈ kids x) (hz : z ∈ kids x)
    (hne : z ≠ y) (hw : Reaches kids y w) : ¬Reaches kids z w := by
  have apart {y z : ι} (hy : y ∈ kids x) (hz : z ∈ kids x) (hne : z ≠ y) : ¬Reaches kids y z := by
    intro hr
    rcases Relation.ReflTransGen.cases_tail hr with rfl | ⟨u, hu, huz⟩
    · exact hne rfl
    · exact h.not_reaches hy (h.single huz hz ▸ hu)
  intro hzw
  rcases h.total hw hzw with hyz | hzy
  · exact apart hy hz hne hyz
  · exact apart hz hy hne.symm hzy

theorem of_nil (h : ∀ x, kids x = []) : Forest kids := by
  refine ⟨⟨fun x => .intro x ?_⟩, ?_, ?_⟩ <;> simp [h]

end Forest

/-- Identifiers with all that stands below them, in preorder: the first one, what is below it, then the
others in the same way. -/
inductive Preordered (kids : ι → List ι) : List ι → List ι → Prop
  | nil : Preordered kids [] []
  | cons {x : ι} {xs below rest : List ι} (hb : Preordered kids (kids x) below)
    (hr : Preordered kids xs rest) : Preordered kids (x :: xs) (x :: (below ++ rest))

namespace Preordered

variable {xs ys l m : List ι} {y : ι}

theorem append (h : Preordered kids xs l) (h' : Preordered kids ys m) :
    Preordered kids (xs ++ ys) (l ++ m) := by
  induction h with
  | nil => exact h'
  | cons hb _ _ ih =>
    rw [List.cons_append, List.cons_append, List.append_assoc]
    exact .cons hb ih

theorem unique (h : Preordered kids xs l) (h' : Preordered kids xs m) : l = m := by
  induction h generalizing m with
  | nil => cases h'; rfl
  | cons _ _ ihb ihr =>
    cases h' with
    | cons hb hr => rw [ihb hb, ihr hr]

theorem of_each {f : ι → List ι} (h : ∀ x ∈ xs, Preordered kids (kids x) (f x)) :
    Preordered kids xs (xs.flatMap fun x => x :: f x) := by
  induction xs with
  | nil => exact .nil
  | cons x xs ih =>
    obtain ⟨hx, hxs⟩ := List.forall_mem_cons.1 h
    exact .cons hx (ih hxs)

theorem mem_iff (h : Preordered kids xs l) : y ∈ l ↔ ∃ x ∈ xs, Reaches kids x y := by
  induction h with
  | nil => simp
  | cons _ _ ihb ihr =>
    rw [List.mem_cons, List.mem_append, ihb, ihr, ← or_assoc, ← Reaches.head_iff]
    simp

end Preordered

/-- No chain of children that begins at an identifier has more than a number of members. -/
inductive Within (kids : ι → List ι) : Nat → ι → Prop
  | step {n : Nat} {i : ι} (h : ∀ j ∈ kids i, Within kids n j) : Within kids (n + 1) i

/-- The members of a chain above an identifier are all different, so they are no more than there
are known identifiers. -/
theorem within_of_chain (hi : ∀ i j, j ∈ kids i → ¬Reaches kids j i) {known : List ι}
    (hc : ∀ i, ∀ j ∈ kids i, j ∈ known) (n : Nat) :
    ∀ (i : ι) (above : List ι), i ∈ known → above ⊆ known → above.Nodup →
      (∀ j ∈ above, Relation.TransGen (fun x y => y ∈ kids x) j i) →
      above.length + n = known.length → Within kids n i := by
  have fresh {i : ι} {above : List ι}
      (ha : ∀ j ∈ above, Relation.TransGen (fun x y => y ∈ kids x) j i) : i ∉ above := by
    intro hm
    obtain ⟨j, hj, hr⟩ := Relation.TransGen.head'_iff.1 (ha i hm)
    exact hi i j hj hr
  induction n with
  | zero =>
    intro i above hi hs hd ha hl
    have hle := ((List.nodup_cons.2 ⟨fresh ha, hd⟩).subperm (List.cons_subset.2 ⟨hi, hs⟩)).length_le
    rw [List.length_cons] at hle
    omega
  | succ n ih =>
    intro i above hi hs hd ha hl
    refine .step fun j hj => ih j (i :: above) (hc i j hj) (List.cons_subset.2 ⟨hi, hs⟩)
      (List.nodup_cons.2 ⟨fresh ha, hd⟩) ?_ ?_
    · intro k hk
      rcases List.mem_cons.1 hk with rfl | hk
      · exact .single hj
      · exact .tail (ha k hk) hj
    · rw [List.length_cons]
      omega

theorem within_of_known (hi : ∀ i j, j ∈ kids i → ¬Reaches kids j i) {known : List ι}
    (hc : ∀ i, ∀ j ∈ kids i, j ∈ known) {i : ι} (hk : i ∈ known) : Within kids known.length i :=
  within_of_chain hi hc known.length i [] hk (by simp) (by simp) (by simp) (by simp)

end

namespace Tree

variable {ι α : Type} {find? : ι → Option α} {children : α → List ι}

/-- What the table has directly below an identifier. -/
def kids (find? : ι → Option α) (children : α → List ι) (i : ι) : List ι :=
  ((find? i).map children).getD []

theorem kids_of_find? {i : ι} {v : α} (h : find? i = some v) :
    kids find? children i = children v := by
  simp [kids, h]

/-- What the table has directly below an identifier and holds itself. -/
def heldKids (find? : ι → Option α) (children : α → List ι) (i : ι) : List ι :=
  (kids find? children i).filter fun j => (find? j).isSome

theorem mem_heldKids {i j : ι} {v w : α} (hv : find? i = some v) (hj : j ∈ children v)
    (hw : find? j = some w) : j ∈ heldKids find? children i :=
  List.mem_filter.2 ⟨by rwa [kids_of_find? hv], by rw [hw]; rfl⟩

theorem grow_of_missing {i : ι} (h : find? i = none) (n : Nat) :
    grow find? children n i = missing i := by
  cases n with
  | zero => rfl
  | succ n => rw [grow, h]

theorem grow_eq_of_within {n : Nat} {i : ι} (h : Within (heldKids find? children) n i) :
    grow find? children n i = grow find? children (n + 1) i := by
  induction h with
  | @step n i _ ih =>
    rw [grow, grow]
    cases hv : find? i with
    | none => rfl
    | some v =>
      simp only [node.injEq, true_and]
      apply List.map_congr_left
      intro j hj
      cases hw : find? j with
      | none => rw [grow_of_missing hw, grow_of_missing hw]
      | some w => exact ih j (mem_heldKids hv hj hw)

variable {known : List ι}

/-- An identifier that the table lacks ends every chain that comes to it, so only those that it holds
count. -/
theorem within_of_find? (hi : ∀ i, ∀ j ∈ kids find? children i, ¬Reaches (kids find? children) j i)
    (hk : ∀ i v, find? i = some v → i ∈ known) {i : ι} {v : α} (hv : find? i = some v) :
    Within (heldKids find? children) known.length i := by
  refine within_of_known (fun x y hy hr => ?_) (fun x y hy => ?_) (hk i v hv)
  · exact hi x y (List.mem_of_mem_filter hy) (hr.mono fun _ => List.filter_subset_self _)
  · obtain ⟨w, hw⟩ := Option.isSome_iff_exists.1 (List.mem_filter.1 hy).2
    exact hk y w hw

theorem grow_eq_node (hi : ∀ i, ∀ j ∈ kids find? children i, ¬Reaches (kids find? children) j i)
    (hk : ∀ i v, find? i = some v → i ∈ known) {i : ι} {v : α} (hv : find? i = some v) :
    grow find? children known.length i =
      node i v ((children v).map (grow find? children known.length)) := by
  have hw := within_of_find? hi hk hv
  generalize known.length = n at hw ⊢
  cases hw with
  | @step n _ hn =>
    rw [grow]
    simp only [hv, node.injEq, true_and]
    apply List.map_congr_left
    intro j hj
    cases hw : find? j with
    | none => rw [grow_of_missing hw, grow_of_missing hw]
    | some w => exact grow_eq_of_within (hn j (mem_heldKids hv hj hw))

theorem acc_of_within {n : Nat} {i : ι} (h : Within (heldKids find? children) n i) :
    Acc (fun j i => j ∈ kids find? children i) i := by
  induction h with
  | @step n i _ ih =>
    refine .intro i fun j hj => ?_
    cases hw : find? j with
    | none => exact .intro j fun k hk => by simp [kids, hw] at hk
    | some w => exact ih j (List.mem_filter.2 ⟨hj, by rw [hw]; rfl⟩)

end Tree

namespace Arena

/-- The nodes directly below a node; there are none below one that is not there. -/
def kids (a : Arena) : NodeId → List NodeId :=
  Tree.kids a.find? (·.payload.children)

theorem kids_of_find? {a : Arena} {id : NodeId} {n : Node} (h : a.find? id = some n) :
    a.kids id = n.payload.children :=
  Tree.kids_of_find? h

theorem ext_find? {a b : Arena} (h : b.find? = a.find?) : b = a := by
  obtain ⟨nodes⟩ := a
  obtain ⟨nodes'⟩ := b
  exact congrArg Arena.mk (Array.ext_getElem? fun i => congrFun h ⟨i⟩)

theorem find?_isSome_iff {a : Arena} {id : NodeId} :
    (a.find? id).isSome ↔ id.index < a.size := by
  simp [find?, size]

theorem index_lt_of_find? {a : Arena} {id : NodeId} {n : Node} (h : a.find? id = some n) :
    id.index < a.size :=
  find?_isSome_iff.1 (by simp [h])

theorem exists_of_index_lt {a : Arena} {id : NodeId} (h : id.index < a.size) :
    ∃ n, a.find? id = some n :=
  Option.isSome_iff_exists.1 (find?_isSome_iff.2 h)

theorem mem_range_of_find? {a : Arena} {id : NodeId} {n : Node} (h : a.find? id = some n) :
    id ∈ (List.range a.size).map NodeId.mk :=
  List.mem_map.2 ⟨id.index, List.mem_range.2 (index_lt_of_find? h), rfl⟩

/-- No node stands below itself. -/
def Acyclic (a : Arena) : Prop :=
  ∀ x, ∀ y ∈ a.kids x, ¬Reaches a.kids y x

namespace Acyclic

variable {a : Arena} {id : NodeId} {n : Node}

theorem tree_eq (h : a.Acyclic) (hn : a.find? id = some n) :
    a.tree id = .node id n (n.payload.children.map a.tree) := by
  have hg := Tree.grow_eq_node h (fun _ _ => mem_range_of_find?) hn
  rwa [List.length_map, List.length_range] at hg

theorem wellFounded (h : a.Acyclic) : WellFounded fun y x => y ∈ a.kids x := by
  refine ⟨fun x => ?_⟩
  cases hx : a.find? x with
  | none => exact .intro x fun y hy => by simp [kids, Tree.kids, hx] at hy
  | some n => exact Tree.acc_of_within (Tree.within_of_find? h (fun _ _ => mem_range_of_find?) hx)

theorem print_eq (h : a.Acyclic) (hn : a.find? id = some n) :
    a.print id = match n.glue with
      | some g => Node.interleave g.slots (n.payload.children.map a.print)
      | none => Node.plain n.payload (n.payload.children.map a.tree)
          (n.payload.children.map a.print) := by
  have hp (l : List NodeId) : Node.prints (l.map a.tree) = l.map a.print := by
    induction l with
    | nil => rfl
    | cons x l ih => rw [List.map_cons, Node.prints, ih]; rfl
  rw [Arena.print, h.tree_eq hn, Node.print]
  cases n.glue with
  | none => simp only [hp]
  | some g => simp only [hp]

end Acyclic

/-- Every node that is referred to is there, and none stands below itself. -/
structure Founded (a : Arena) : Prop where
  closed : ∀ x, ∀ y ∈ a.kids x, y.index < a.size
  wellFounded : WellFounded fun y x => y ∈ a.kids x

namespace Founded

variable {a : Arena} {id : NodeId} {n : Node}

theorem acyclic (h : a.Founded) : a.Acyclic :=
  fun _ _ hy => WellFounded.not_reaches h.wellFounded hy

theorem tree_eq (h : a.Founded) (hn : a.find? id = some n) :
    a.tree id = .node id n (n.payload.children.map a.tree) :=
  h.acyclic.tree_eq hn

theorem print_eq (h : a.Founded) (hn : a.find? id = some n) :
    a.print id = match n.glue with
      | some g => Node.interleave g.slots (n.payload.children.map a.print)
      | none => Node.plain n.payload (n.payload.children.map a.tree)
          (n.payload.children.map a.print) :=
  h.acyclic.print_eq hn

end Founded

theorem index_lt_of_print {a : Arena} {n : NodeId} {text : String} (h : a.print n = .ok text) :
    n.index < a.size := by
  by_contra hn
  have hnone := find?_eq_none_iff.2 (Nat.le_of_not_lt hn)
  rw [print, tree] at h
  cases hs : a.size <;> simp [hs, Tree.grow, hnone, Node.print] at h

@[simp] theorem kids_push (a : Arena) (n : Node) (x : NodeId) :
    (a.push n).kids x = if x = a.next then n.payload.children else a.kids x := by
  simp only [kids, Tree.kids, find?_push]
  split <;> rfl

theorem kids_setPayload {a : Arena} {id : NodeId} (h : id.index < a.size) (p : Payload)
    (x : NodeId) :
    (a.setPayload id p).kids x = if x = id then p.children else a.kids x := by
  obtain ⟨n, hn⟩ := exists_of_index_lt h
  by_cases hx : x = id
  · subst hx
    simp [kids, Tree.kids, setPayload, hn]
  · simp [kids, Tree.kids, setPayload, hx]

theorem kids_setItems {a : Arena} {id : NodeId} (h : id.index < a.size) (items : List NodeId)
    (x : NodeId) :
    (a.setItems id items).kids x = if x = id then items else a.kids x :=
  kids_setPayload h (.list items) x

theorem kids_eq_nil {a : Arena} {x : NodeId} (h : a.size ≤ x.index) : a.kids x = [] := by
  simp [kids, Tree.kids, find?_eq_none_iff.2 h]

theorem kids_push_leaf (a : Arena) {n : Node} (hn : n.payload.children = []) :
    (a.push n).kids = a.kids := by
  funext x
  rw [kids_push, hn]
  split
  · subst x
    exact (kids_eq_nil (x := a.next) (Nat.le_refl _)).symm
  · rfl

theorem kids_eq_of_payload_eq {a b : Arena}
    (hp : ∀ n, (b.find? n).map Node.payload = (a.find? n).map Node.payload) : b.kids = a.kids := by
  have hk (d : Arena) (x : NodeId) :
      d.kids x = (((d.find? x).map Node.payload).map Payload.children).getD [] := by
    rw [Option.map_map]
    rfl
  exact funext fun x => by rw [hk, hk, hp]

namespace Founded

variable {a b : Arena}

theorem push (h : a.Founded) {n : Node} (hn : ∀ y ∈ n.payload.children, y.index < a.size) :
    (a.push n).Founded where
  closed x y hy := by
    rw [size_push]
    rw [kids_push] at hy
    split at hy
    · exact Nat.lt_succ_of_lt (hn y hy)
    · exact Nat.lt_succ_of_lt (h.closed x y hy)
  wellFounded := by
    refine WellFounded.of_kids_eq (c := a.next) h.wellFounded (fun x hx => ?_) fun y hy hr => ?_
    · rw [kids_push, if_neg hx]
      exact List.Subset.refl _
    · rw [kids_push, if_pos rfl] at hy
      rcases hr.eq_or_mem with rfl | ⟨z, hz⟩
      · exact Nat.lt_irrefl _ (hn _ hy)
      · exact Nat.lt_irrefl _ (h.closed z _ hz)

theorem of_kids_eq (h : a.Founded) (hk : b.kids = a.kids) (hs : a.size ≤ b.size) : b.Founded where
  closed x y hy := Nat.lt_of_lt_of_le (h.closed x y (hk ▸ hy)) hs
  wellFounded := hk ▸ h.wellFounded

theorem of_payload_eq (h : a.Founded)
    (hp : ∀ n, (b.find? n).map Node.payload = (a.find? n).map Node.payload) : b.Founded := by
  refine h.of_kids_eq (kids_eq_of_payload_eq hp) (Nat.le_of_not_lt fun hlt => ?_)
  obtain ⟨m, hm⟩ := exists_of_index_lt (show (⟨b.size⟩ : NodeId).index < a.size from hlt)
  obtain ⟨o, ho, -⟩ := Option.map_eq_some_iff.1 ((hp _).trans (congrArg _ hm))
  exact Nat.lt_irrefl _ (index_lt_of_find? ho)

end Founded

/-- No node refers to this one. -/
def Loose (a : Arena) (y : NodeId) : Prop :=
  ∀ x, y ∉ a.kids x

/-- An arena in which every node stands at one place at most. -/
structure IsForest (a : Arena) : Prop extends Forest a.kids where
  closed : ∀ x, ∀ y ∈ a.kids x, y.index < a.size

namespace IsForest

variable {a : Arena}

theorem founded (h : a.IsForest) : a.Founded :=
  ⟨h.closed, h.wellFounded⟩

theorem index_lt_of_reaches (h : a.IsForest) {x y : NodeId} (hr : Reaches a.kids x y)
    (hx : x.index < a.size) : y.index < a.size := by
  rcases hr.eq_or_mem with rfl | ⟨z, hz⟩
  · exact hx
  · exact h.closed z y hz

theorem loose_next (h : a.IsForest) : a.Loose a.next :=
  fun x hx => Nat.lt_irrefl _ (h.closed x _ hx)

theorem push (h : a.IsForest) {n : Node} (hn : n.payload.children.Nodup)
    (hb : ∀ y ∈ n.payload.children, y.index < a.size)
    (hl : ∀ y ∈ n.payload.children, a.Loose y) : (a.push n).IsForest where
  toForest := by
    have hc : (a.push n).kids a.next = n.payload.children := by rw [kids_push, if_pos rfl]
    refine h.toForest.of_kids_eq (c := a.next) (fun x hx => ?_) (hc ▸ hn) ?_ ?_
    · rw [kids_push, if_neg hx]
    · exact fun y hy x _ => hl y (hc ▸ hy) x
    · intro y hy hr
      rcases hr.eq_or_mem with rfl | ⟨z, hz⟩
      · exact Nat.lt_irrefl _ (hb _ (hc ▸ hy))
      · exact h.loose_next z hz
  closed := (h.founded.push hb).closed

theorem setItems (h : a.IsForest) {c : NodeId} {items : List NodeId} (hc : c.index < a.size)
    (hn : items.Nodup) (hb : ∀ y ∈ items, y.index < a.size)
    (hl : ∀ y ∈ items, ∀ x, x ≠ c → y ∉ a.kids x) (hr : ∀ y ∈ items, ¬Reaches a.kids y c) :
    (a.setItems c items).IsForest where
  toForest := by
    have hk : (a.setItems c items).kids c = items := by rw [kids_setItems hc, if_pos rfl]
    refine h.toForest.of_kids_eq (c := c) (fun x hx => ?_) ?_ ?_ ?_
    · rw [kids_setItems hc, if_neg hx]
    · rwa [hk]
    · rwa [hk]
    · rwa [hk]
  closed x y hy := by
    have hs : (a.setItems c items).size = a.size := size_modify a c _
    rw [hs]
    rw [kids_setItems hc] at hy
    split at hy
    · exact hb y hy
    · exact h.closed x y hy

end IsForest

theorem isForest_empty : (⟨#[]⟩ : Arena).IsForest :=
  have hk (x : NodeId) : (⟨#[]⟩ : Arena).kids x = [] := kids_eq_nil (Nat.zero_le _)
  ⟨.of_nil hk, by simp [hk]⟩

theorem isForest_new : new.IsForest := by
  have h : ((⟨#[]⟩ : Arena).push ⟨.list [], none⟩).IsForest :=
    isForest_empty.push .nil (by simp [Payload.children]) (by simp [Payload.children])
  refine h.push (n := ⟨.page ⟨0⟩, none⟩) (List.nodup_singleton _) ?_ ?_
  · simp [Payload.children, size, Arena.push]
  · intro y _ x
    rw [kids_push]
    split
    · simp [Payload.children]
    · simp [kids_eq_nil (a := ⟨#[]⟩) (Nat.zero_le _)]

end Arena
namespace Tree

variable {ι α : Type} {find? : ι → Option α} {children : α → List ι} {t : ι → Tree ι α} {i j : ι} {v : α}

theorem preorders_eq_flatMap (ts : List (Tree ι α)) : preorders ts = ts.flatMap preorder := by
  induction ts with
  | nil => rfl
  | cons t ts ih => rw [preorders, ih, List.flatMap_cons]

/-- The trees at the identifiers of a table in which nothing stands below itself. -/
structure Unfolds (find? : ι → Option α) (children : α → List ι) (t : ι → Tree ι α) : Prop where
  wellFounded : WellFounded fun j i => j ∈ kids find? children i
  missing : ∀ {i}, find? i = none → t i = .missing i
  node : ∀ {i v}, find? i = some v → t i = .node i v ((children v).map t)

/-- What the trees list below an identifier. -/
def listed (find? : ι → Option α) (children : α → List ι) (t : ι → Tree ι α) (i : ι) : List ι :=
  (kids find? children i).flatMap fun j => (t j).preorder

namespace Unfolds

theorem preorder_of_find? (h : Unfolds find? children t) (hv : find? i = some v) :
    (t i).preorder = i :: listed find? children t i := by
  rw [h.node hv, preorder, preorders_eq_flatMap, List.flatMap_map, listed, kids_of_find? hv]

theorem preorder_eq (h : Unfolds find? children t) (i : ι) :
    (t i).preorder = i :: listed find? children t i := by
  cases hv : find? i with
  | none => rw [h.missing hv, preorder, listed, kids, hv]; rfl
  | some v => exact h.preorder_of_find? hv

theorem preordered (h : Unfolds find? children t) (i : ι) :
    Preordered (kids find? children) (kids find? children i) (listed find? children t i) := by
  induction i using h.wellFounded.induction with
  | _ i ih =>
    rw [listed, List.flatMap_congr fun j _ => h.preorder_eq j]
    exact .of_each ih

theorem mem_preorder_iff (h : Unfolds find? children t) :
    j ∈ (t i).preorder ↔ Reaches (kids find? children) i j := by
  rw [h.preorder_eq, List.mem_cons, (h.preordered i).mem_iff, ← Reaches.head_iff]

/-- Of the identifiers that the table lacks, the first in preorder is the first in the tree. -/
theorem firstMissing?_eq (h : Unfolds find? children t) (i : ι) :
    (t i).firstMissing? = (t i).preorder.find? fun j => (find? j).isNone := by
  induction i using h.wellFounded.induction with
  | _ i ih =>
    have hlist {l : List ι} (hl : l ⊆ kids find? children i) : firstMissingOf? (l.map t) =
        (l.flatMap fun j => (t j).preorder).find? fun j => (find? j).isNone := by
      induction l with
      | nil => rfl
      | cons j l ihl =>
        obtain ⟨hj, hl⟩ := List.cons_subset.1 hl
        rw [List.map_cons, firstMissingOf?, ih j hj, ihl hl, List.flatMap_cons, List.find?_append]
    cases hv : find? i with
    | none => simp [h.missing hv, firstMissing?, preorder, hv]
    | some v =>
      have hk : kids find? children i = children v := kids_of_find? hv
      rw [h.preorder_eq, h.node hv, firstMissing?, List.find?_cons_of_neg (by simp [hv]), listed, hk]
      exact hlist (hk ▸ List.Subset.refl _)

theorem below?_eq (h : Unfolds find? children t) (hv : find? i = some v) :
    (t i).below? = ((listed find? children t i).find? fun j => (find? j).isNone).elim
      (.ok (listed find? children t i)) .error := by
  have hp := h.preorder_of_find? hv
  have hm := h.firstMissing?_eq i
  rw [hp, List.find?_cons_of_neg (by simp [hv])] at hm
  rw [h.node hv, preorder, List.cons.injEq] at hp
  rw [h.node hv, firstMissing?] at hm
  rw [h.node hv, below?, hm, hp.2]
  cases List.find? (fun j => (find? j).isNone) (listed find? children t i) <;> rfl

theorem known_of_mem_listed (h : Unfolds find? children t)
    (hk : ∀ i, ∀ j ∈ kids find? children i, find? j ≠ none) (hj : j ∈ listed find? children t i) :
    find? j ≠ none := by
  obtain ⟨z, hz, hr⟩ := (h.preordered i).mem_iff.1 hj
  rcases hr.eq_or_mem with rfl | ⟨y, hy⟩
  · exact hk i z hz
  · exact hk y j hy

theorem below?_of_known (h : Unfolds find? children t)
    (hk : ∀ i, ∀ j ∈ kids find? children i, find? j ≠ none) (hv : find? i = some v) :
    (t i).below? = .ok (listed find? children t i) := by
  rw [h.below?_eq hv, List.find?_eq_none.2 fun j hj => ?_, Option.elim_none]
  simpa using h.known_of_mem_listed hk hj

end Unfolds
end Tree

namespace Arena

variable {a : Arena} {id : NodeId} {n : Node}

theorem Acyclic.unfolds (h : a.Acyclic) : Tree.Unfolds a.find? (·.payload.children) a.tree where
  wellFounded := h.wellFounded
  missing hid := Tree.grow_of_missing hid a.size
  node hid := h.tree_eq hid

/-- The nodes below a node, each before its own children. -/
def below (a : Arena) (id : NodeId) : List NodeId :=
  (a.kids id).flatMap fun y => (a.tree y).preorder

theorem Founded.find?_kid (h : a.Founded) (x : NodeId) : ∀ y ∈ a.kids x, a.find? y ≠ none :=
  fun y hy => Option.isSome_iff_ne_none.1 (find?_isSome_iff.2 (h.closed x y hy))

theorem Founded.descendants_eq (h : a.Founded) (hn : a.find? id = some n) :
    a.descendants id = .ok (a.below id) := by
  rw [descendants, h.acyclic.unfolds.below?_of_known h.find?_kid hn]
  rfl

namespace IsForest

theorem preorder_tree (h : a.IsForest) (hn : a.find? id = some n) :
    (a.tree id).preorder = id :: a.below id :=
  h.founded.acyclic.unfolds.preorder_of_find? hn

theorem mem_preorder_iff (h : a.IsForest) {z : NodeId} :
    z ∈ (a.tree id).preorder ↔ Reaches a.kids id z :=
  h.founded.acyclic.unfolds.mem_preorder_iff

theorem pairwise_preorder (h : a.IsForest) (hid : id.index < a.size) :
    (a.tree id).preorder.Pairwise fun x y => ¬Reaches a.kids y x := by
  induction id using h.wellFounded.induction with
  | _ id ih =>
    obtain ⟨n, hn⟩ := exists_of_index_lt hid
    rw [h.preorder_tree hn, List.pairwise_cons]
    refine ⟨fun z hz hr => ?_, List.pairwise_flatMap.2 ⟨fun y hy => ih y hy (h.closed id y hy), ?_⟩⟩
    · obtain ⟨y, hy, hz⟩ := List.mem_flatMap.1 hz
      exact h.not_reaches hy ((h.mem_preorder_iff.1 hz).trans hr)
    · refine (h.nodup id).imp_of_mem fun {y y'} hy hy' hne z hz z' hz' hr => ?_
      have hyz := h.mem_preorder_iff.1 hz
      have hyz' := (h.mem_preorder_iff.1 hz').trans hr
      exact h.not_reaches_of_sibling hy hy' hne.symm hyz hyz'

theorem nodup_preorder (h : a.IsForest) (hid : id.index < a.size) : (a.tree id).preorder.Nodup := by
  refine (h.pairwise_preorder hid).imp fun {x y} hr => ?_
  rintro rfl
  exact hr .refl

theorem preorder_congr {b : Arena} (h : a.IsForest) (hb : b.IsForest) (hid : id.index < a.size)
    (hs : a.size ≤ b.size) (hk : ∀ y, Reaches a.kids id y → b.kids y = a.kids y) :
    (b.tree id).preorder = (a.tree id).preorder := by
  induction id using h.wellFounded.induction with
  | _ id ih =>
    obtain ⟨n, hn⟩ := exists_of_index_lt hid
    obtain ⟨m, hm⟩ := exists_of_index_lt (Nat.lt_of_lt_of_le hid hs)
    rw [h.preorder_tree hn, hb.preorder_tree hm, below, below, hk id .refl]
    exact congrArg _ (List.flatMap_congr fun y hy =>
      ih y hy (h.closed id y hy) fun z hz => hk z (hz.head hy))

theorem descendants_eq (h : a.IsForest) (hn : a.find? id = some n) :
    a.descendants id = .ok (a.below id) :=
  h.founded.descendants_eq hn

end IsForest
end Arena

end WikiPage
