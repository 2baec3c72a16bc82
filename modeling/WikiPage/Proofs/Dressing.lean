import Mathlib.Data.List.Induction
import WikiPage.Proofs.Surgery

/-!
# How nodes are given glue

The glue that a node is given depends on what the node is, and on nothing that giving glue changes. So it
does not matter in which order nodes are given theirs, or how often.
-/

namespace WikiPage

namespace Arena

variable {a b : Arena} {n x : NodeId} {m : Node} {p : Payload} {g : Glue} {l : List NodeId}

/-- The glue that a node of a kind is given. -/
def newGlue? (a : Arena) : Payload → Option Glue
  | .element name empty _ _ => some (Glue.element name empty)
  | .attr name hasValue _ => some (Glue.attr name hasValue)
  | .emphasis style _ => some (Glue.emphasis style)
  | .link target title =>
    match a.items title with
    | .ok items => some (Glue.link target !items.isEmpty)
    | .error _ => none
  | .comment text => some (Glue.comment text)
  | .rule => some Glue.rule
  | .paragraph _ => some Glue.paragraph
  | _ => none

theorem size_of_newGlue? (h : a.newGlue? p = some g) :
    p.isList = false ∧ g.size = p.children.length + 1 := by
  cases p with
  | link target title =>
    rw [newGlue?] at h
    cases hi : a.items title with
    | error e => simp [hi] at h
    | ok items =>
      rw [hi] at h
      obtain rfl := Option.some.inj h
      exact ⟨rfl, rfl⟩
  | element _ empty _ _ => cases h; cases empty <;> exact ⟨rfl, rfl⟩
  | attr _ hasValue _ => cases h; cases hasValue <;> exact ⟨rfl, rfl⟩
  | emphasis style _ => cases h; cases style <;> exact ⟨rfl, rfl⟩
  | comment _ => cases h; exact ⟨rfl, rfl⟩
  | rule => cases h; exact ⟨rfl, rfl⟩
  | paragraph _ => cases h; exact ⟨rfl, rfl⟩
  | _ => cases h

theorem payload_eq_of_find? (h : ∀ n, (b.find? n).map Node.payload = (a.find? n).map Node.payload) :
    b.payload = a.payload := by
  funext n
  have hn := h n
  rw [payload, payload, get, get]
  cases hb : b.find? n <;> cases ha : a.find? n <;> simp_all [Except.map]

theorem items_eq_of_payload_eq (h : b.payload = a.payload) : b.items = a.items := by
  funext n
  rw [items, items, h]

theorem newGlue?_eq_of_payload_eq (h : b.payload = a.payload) : b.newGlue? = a.newGlue? := by
  funext p
  cases p <;> simp only [newGlue?, items_eq_of_payload_eq h]

/-- A node with the glue of its kind. -/
def dressed (a : Arena) (m : Node) : Node :=
  match a.newGlue? m.payload with
  | some g => { m with glue := some g }
  | none => m

/-- The arena with the glue of their kinds on some nodes. -/
def dress (a : Arena) (l : List NodeId) : Arena :=
  l.foldl (fun b x => b.modify x b.dressed) a

@[simp] theorem payload_dressed (a : Arena) (m : Node) : (a.dressed m).payload = m.payload := by
  unfold dressed
  split <;> rfl

theorem dressed_eq_of_payload_eq (h : b.payload = a.payload) : b.dressed = a.dressed := by
  funext m
  rw [dressed, dressed, newGlue?_eq_of_payload_eq h]

@[simp] theorem map_dressed_dressed (a : Arena) (m : Option Node) :
    (m.map a.dressed).map a.dressed = m.map a.dressed := by
  cases m with
  | none => rfl
  | some m => cases h : a.newGlue? m.payload <;> simp [dressed, h]

theorem dress_snoc (a : Arena) (l : List NodeId) (x : NodeId) :
    a.dress (l ++ [x]) = (a.dress l).modify x (a.dress l).dressed :=
  List.foldl_concat ..

/-- Glue does not change what a node is. -/
theorem map_payload_dress (a : Arena) (l : List NodeId) (n : NodeId) :
    ((a.dress l).find? n).map Node.payload = (a.find? n).map Node.payload := by
  induction l using List.reverseRecOn with
  | nil => rfl
  | append_singleton l x ih =>
    rw [dress_snoc, find?_modify, ← ih]
    split <;> simp [Option.map_map, Function.comp_def]

theorem payload_dress (a : Arena) (l : List NodeId) : (a.dress l).payload = a.payload :=
  payload_eq_of_find? (map_payload_dress a l)

theorem find?_dress (a : Arena) (l : List NodeId) (n : NodeId) :
    (a.dress l).find? n = if n ∈ l then (a.find? n).map a.dressed else a.find? n := by
  induction l using List.reverseRecOn with
  | nil => rfl
  | append_singleton l x ih =>
    rw [dress_snoc, find?_modify, dressed_eq_of_payload_eq (payload_dress a l), ih]
    by_cases hx : n = x
    · subst hx
      by_cases hl : n ∈ l
      · simp only [if_true, hl, List.mem_append, true_or, map_dressed_dressed]
      · simp [hl]
    · simp [hx]

theorem find?_dress_of_newGlue? (hn : a.find? n = some m) (hm : a.newGlue? m.payload = none) :
    (a.dress l).find? n = some m := by
  rw [find?_dress, hn]
  split
  · simp [dressed, hm]
  · rfl

@[simp] theorem size_dress (a : Arena) (l : List NodeId) : (a.dress l).size = a.size := by
  induction l using List.reverseRecOn with
  | nil => rfl
  | append_singleton l x ih => rw [dress_snoc, size_modify, ih]

theorem dress_dress (a : Arena) (l : List NodeId) : (a.dress l).dress l = a.dress l := by
  refine ext_find? (funext fun n => ?_)
  rw [find?_dress, dressed_eq_of_payload_eq (payload_dress a l), find?_dress]
  split
  · exact map_dressed_dressed ..
  · rfl

theorem modify_eq_of_find? {f f' : Node → Node} (hn : a.find? n = some m) (h : f m = f' m) :
    a.modify n f = a.modify n f' := by
  refine ext_find? (funext fun x => ?_)
  rw [find?_modify, find?_modify]
  split
  · subst x
    rw [hn, Option.map_some, Option.map_some, h]
  · rfl

/-- The nodes that get glue together with a node: the attributes of an element, and itself. -/
inductive GluesWith (a : Arena) (n : NodeId) : List NodeId → Prop
  | single {p : Payload} {g : Glue} (hp : a.payload n = .ok p)
      (he : ∀ name empty attributes body, p ≠ .element name empty attributes body)
      (hg : a.newGlue? p = some g) : GluesWith a n [n]
  | element {name : String} {empty : Bool} {attributes body : NodeId} {items : List NodeId}
      (hp : a.payload n = .ok (.element name empty attributes body))
      (hi : a.items attributes = .ok items)
      (ha : ∀ x ∈ items, ∃ name hasValue value, a.payload x = .ok (.attr name hasValue value)) :
      GluesWith a n (items ++ [n])

theorem GluesWith.of_payload_eq (h : a.GluesWith n l) (hp : b.payload = a.payload) : b.GluesWith n l := by
  cases h with
  | single hn he hg => exact .single (hp ▸ hn) he (newGlue?_eq_of_payload_eq hp ▸ hg)
  | element hn hi ha => exact .element (hp ▸ hn) (items_eq_of_payload_eq hp ▸ hi) (by rwa [hp])

end Arena

namespace Surgery

open Arena (GluesWith)

variable {a : Arena} {n : NodeId} {p : Payload} {g : Glue} {l : List NodeId}

theorem ends_setGlue_dress (hp : a.payload n = .ok p) (hg : a.newGlue? p = some g) :
    Ends (setGlue n g) a (fun _ b => b = a.dress [n]) fun _ _ => False := by
  obtain ⟨old, hn⟩ := Arena.find?_of_payload hp
  obtain ⟨hl, hs⟩ := Arena.size_of_newGlue? hg
  refine (ends_setGlue_eq hn hl hs).mono (fun _ b hb => ?_) fun _ _ h => h
  rw [hb]
  exact Arena.modify_eq_of_find? hn (by simp [Arena.dressed, hg])

theorem ends_renewGlue_single (hp : a.payload n = .ok p)
    (he : ∀ name empty attributes body, p ≠ .element name empty attributes body)
    (hg : a.newGlue? p = some g) (k : Nat) :
    Ends (renewGlue (k + 1) n) a (fun _ b => b = a.dress [n]) fun _ _ => False := by
  rw [renewGlue]
  refine Ends.bind (ends_look (fun q hq => ?_) fun _ he => by cases he.symm.trans hp)
  obtain rfl := Except.ok.inj (hp.symm.trans hq)
  have hset := ends_setGlue_dress hp hg
  cases p with
  | element name empty attributes body => exact absurd rfl (he name empty attributes body)
  | link target title =>
    refine Ends.bind (ends_look (fun items hi => ?_) fun e hi => ?_) <;> rw [Arena.newGlue?, hi] at hg
    · obtain rfl := Option.some.inj hg
      exact hset
    · cases hg
  | attr _ _ _ => cases hg; exact hset
  | emphasis _ _ => cases hg; exact hset
  | comment _ => cases hg; exact hset
  | rule => cases hg; exact hset
  | paragraph _ => cases hg; exact hset
  | _ => cases hg

theorem ends_addGlue_dress (h : a.GluesWith n l) :
    Ends (addGlue n) a (fun _ b => b = a.dress l) fun _ _ => False := by
  refine Ends.bind (Ends.get ?_)
  cases h with
  | single hp he hg =>
    obtain ⟨_, hn⟩ := Arena.find?_of_payload hp
    obtain ⟨k, hk⟩ := Nat.exists_eq_succ_of_ne_zero (Nat.ne_zero_of_lt (Arena.index_lt_of_find? hn))
    rw [hk]
    exact ends_renewGlue_single hp he hg k
  | @element name empty attributes body items hp hi ha =>
    -- the element and its list of attributes are two nodes, so there is fuel for the attributes
    obtain ⟨_, hn⟩ := Arena.find?_of_payload hp
    obtain ⟨_, hl⟩ := Arena.find?_of_items hi
    have hne : n.index ≠ attributes.index := fun heq => by
      rw [NodeId.ext heq, hl] at hn
      cases hn
    have hnlt := Arena.index_lt_of_find? hn
    have hllt := Arena.index_lt_of_find? hl
    obtain ⟨k, hk⟩ : ∃ k, a.size = k + 1 + 1 := ⟨a.size - 2, by omega⟩
    rw [hk, renewGlue]
    refine Ends.bind (ends_look (fun p hp' => ?_) fun _ he => by cases he.symm.trans hp)
    obtain rfl := Except.ok.inj (hp.symm.trans hp')
    refine Ends.bind (ends_look (fun items' hi' => ?_) fun _ he => by cases he.symm.trans hi)
    obtain rfl := Except.ok.inj (hi.symm.trans hi')
    refine (Ends.forM (I := fun done b => b = a.dress done) (fun done x rest b hitems hb => ?_) rfl).step
      (fun _ b hb => ?_) fun _ _ h => h
    · subst hb
      obtain ⟨name, hasValue, value, hx⟩ := ha x (by simp [hitems])
      rw [← Arena.payload_dress a done] at hx
      have hattr := ends_renewGlue_single hx (fun _ _ _ _ => Payload.noConfusion) rfl k
      exact hattr.mono (fun _ b hb => hb.trans (a.dress_snoc done x).symm) fun _ _ h => h
    · subst hb
      rw [← Arena.payload_dress a items] at hp
      exact (ends_setGlue_dress hp rfl).mono (fun _ b hb => hb.trans (a.dress_snoc items n).symm) fun _ _ h => h

end Surgery
end WikiPage
