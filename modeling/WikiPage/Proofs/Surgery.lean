import WikiPage.Arena.Attribute
import WikiPage.Proofs.Ends
import WikiPage.Proofs.Sound

/-!
# How surgery ends

What the steps of surgery leave behind, whether they end well or not.
-/

namespace WikiPage

open Arena (Alike)

namespace Arena

variable {a b : Arena} {c n : NodeId}

theorem find?_of_items {items : List NodeId} (h : a.items c = .ok items) :
    ∃ g, a.find? c = some ⟨.list items, g⟩ := by
  unfold Arena.items payload get at h
  cases hn : a.find? c with
  | none => simp [hn, bind, Except.bind, Except.map] at h
  | some m =>
    obtain ⟨p, g⟩ := m
    cases p <;> simp [hn, bind, Except.bind, Except.map] at h
    exact ⟨g, by rw [h]⟩

theorem items_of_find? {items : List NodeId} {g : Option Glue}
    (h : a.find? c = some ⟨.list items, g⟩) : a.items c = .ok items := by
  simp [Arena.items, payload, get, h, bind, Except.bind, Except.map]

theorem find?_of_payload {p : Payload} (h : a.payload n = .ok p) :
    ∃ g, a.find? n = some ⟨p, g⟩ := by
  unfold payload get at h
  cases hn : a.find? n with
  | none => simp [hn, Except.map] at h
  | some m =>
    obtain ⟨q, g⟩ := m
    obtain rfl : q = p := by simpa [hn, Except.map] using h
    exact ⟨g, rfl⟩

theorem payload_of_find? {m : Node} (h : a.find? n = some m) : a.payload n = .ok m.payload := by
  simp [payload, get, h, Except.map]

theorem glue_of_find? {m : Node} (h : a.find? n = some m) : a.glue n = .ok m.glue := by
  simp [glue, get, h, Except.map]

theorem setItems_setItems {items old : List NodeId} {g : Option Glue} (hc : a.find? c = some ⟨.list old, g⟩) :
    (a.setItems c items).setItems c old = a := by
  have hc' : (a.setItems c items).find? c = some ⟨.list items, g⟩ := by
    rw [find?_setItems hc, if_pos rfl]
  refine ext_find? (funext fun n => ?_)
  rw [find?_setItems hc', find?_setItems hc]
  split
  · subst n
    exact hc.symm
  · rfl

theorem exists_of_changeItems {change : List NodeId → Except PageError (List NodeId)}
    (h : a.changeItems c change = .ok b) :
    ∃ items changed g, a.find? c = some ⟨.list items, g⟩ ∧ change items = .ok changed ∧
      b = a.setItems c changed := by
  obtain ⟨items, hi, h⟩ := Except.exists_of_bind h
  obtain ⟨changed, hc, h⟩ := Except.exists_of_bind h
  obtain ⟨g, hg⟩ := find?_of_items (PageError.eq_ok_of_ofArena hi)
  exact ⟨items, changed, g, hg, hc, (Except.ok.inj h).symm⟩

theorem insertIdx_length {α : Type} (x : α) (s t : List α) :
    (s ++ t).insertIdx s.length x = s ++ x :: t := by
  induction s with
  | nil => rfl
  | cons y s ih => simpa using ih

theorem map_replace {α : Type} [DecidableEq α] {m n : α} {l : List α} (hn : m ∉ l) :
    (l.map fun x => if x = m then n else x) = l := by
  refine (List.map_congr_left fun x hx => ?_).trans (List.map_id l)
  have hne : x ≠ m := by
    rintro rfl
    exact hn hx
  simp [hne]

theorem map_replace_middle {α : Type} [DecidableEq α] {m n : α} {s t : List α}
    (h : (s ++ m :: t).Nodup) :
    ((s ++ m :: t).map fun x => if x = m then n else x) = s ++ n :: t := by
  rw [List.nodup_middle, List.nodup_cons, List.mem_append, not_or] at h
  simp [map_replace h.1.1, map_replace h.1.2]

theorem split_of_idxOf? {α : Type} [DecidableEq α] {x : α} {l : List α} {i : Nat}
    (h : l.idxOf? x = some i) : ∃ s t, l = s ++ x :: t ∧ s.length = i ∧ x ∉ s := by
  induction l generalizing i with
  | nil => cases h
  | cons y l ih =>
    rw [List.idxOf?_cons] at h
    by_cases hy : y = x
    · subst hy
      obtain rfl : 0 = i := by simpa using h
      exact ⟨[], l, rfl, rfl, List.not_mem_nil⟩
    · rw [if_neg (by simpa using hy)] at h
      obtain ⟨j, hj, rfl⟩ := Option.map_eq_some_iff.1 h
      obtain ⟨s, t, rfl, rfl, hs⟩ := ih hj
      exact ⟨y :: s, t, rfl, rfl, by simp [hs, Ne.symm hy]⟩

theorem split_of_position {items : List NodeId} {i : Nat} (h : position c n items = .ok i) :
    ∃ s t, items = s ++ n :: t ∧ s.length = i :=
  have ⟨s, t, hst, hi, _⟩ := split_of_idxOf? (position_eq_ok_iff.1 h).1
  ⟨s, t, hst, hi⟩

theorem exists_of_removeItem (h : a.removeItem c n = .ok b) :
    ∃ s t g, a.find? c = some ⟨.list (s ++ n :: t), g⟩ ∧ b = a.setItems c (s ++ t) := by
  obtain ⟨items, changed, g, hg, hc, rfl⟩ := exists_of_changeItems h
  obtain ⟨i, hp, hc⟩ := Except.exists_of_bind hc
  obtain ⟨s, t, rfl, rfl⟩ := split_of_position hp
  refine ⟨s, t, g, hg, ?_⟩
  rw [← Except.ok.inj hc]
  simp [List.eraseIdx_append_of_length_le]

theorem exists_position {items : List NodeId} (hn : items.Nodup) (hx : n ∈ items) :
    ∃ i, position c n items = .ok i := by
  obtain ⟨i, hi⟩ : ∃ i, items.idxOf? n = some i :=
    Option.isSome_iff_exists.1 (List.isSome_idxOf?.2 hx)
  exact ⟨i, position_eq_ok_iff.2 ⟨hi, List.count_eq_one_of_mem hn hx⟩⟩

/-- A node that stands in a list once can be taken out of it. -/
theorem removeItem_eq_ok {items : List NodeId} {g : Option Glue}
    (hc : a.find? c = some ⟨.list items, g⟩) (hn : items.Nodup) (hx : n ∈ items) :
    ∃ s t, items = s ++ n :: t ∧ a.removeItem c n = .ok (a.setItems c (s ++ t)) := by
  obtain ⟨i, hp⟩ := exists_position (c := c) hn hx
  obtain ⟨s, t, rfl, rfl⟩ := split_of_position hp
  refine ⟨s, t, rfl, ?_⟩
  rw [removeItem, changeItems_of_items (items_of_find? hc)]
  simp [hp, List.eraseIdx_append_of_length_le, bind, Except.bind, Except.map]

theorem exists_of_replaceItem {old : NodeId} (h : a.replaceItem c old n = .ok b) :
    ∃ s t g, a.find? c = some ⟨.list (s ++ old :: t), g⟩ ∧ (n ≠ old → n ∉ s ++ old :: t) ∧
      b = a.setItems c (s ++ n :: t) := by
  obtain ⟨items, changed, g, hg, hc, rfl⟩ := exists_of_changeItems h
  obtain ⟨i, hp, hc⟩ := Except.exists_of_bind hc
  obtain ⟨s, t, rfl, rfl⟩ := split_of_position hp
  refine ⟨s, t, g, hg, ?_⟩
  by_cases hn : n = old
  · rw [if_neg (by simpa using hn)] at hc
    refine ⟨fun h => absurd hn h, ?_⟩
    rw [← Except.ok.inj hc]
    simp
  · rw [if_pos hn] at hc
    obtain ⟨_, ha, hc⟩ := Except.exists_of_bind hc
    refine ⟨fun _ => requireAbsent_eq_ok_iff.1 ha, ?_⟩
    rw [← Except.ok.inj hc]
    simp

theorem replaceItem_eq_ok {old : NodeId} {items : List NodeId} {g : Option Glue}
    (hc : a.find? c = some ⟨.list items, g⟩) (hn : items.Nodup) (ho : old ∈ items)
    (hx : n ∉ items) : ∃ s t, items = s ++ old :: t ∧
      a.replaceItem c old n = .ok (a.setItems c (s ++ n :: t)) := by
  obtain ⟨i, hp⟩ := exists_position (c := c) hn ho
  obtain ⟨s, t, rfl, rfl⟩ := split_of_position hp
  refine ⟨s, t, rfl, ?_⟩
  have hne : n ≠ old := fun he => hx (he ▸ ho)
  rw [replaceItem, changeItems_of_items (items_of_find? hc)]
  simp [hp, hne, requireAbsent_eq_ok_iff.2 hx, bind, Except.bind, Except.map]

theorem insertBefore_eq_ok {r : NodeId} {items : List NodeId} {g : Option Glue}
    (hc : a.find? c = some ⟨.list items, g⟩) (hn : items.Nodup) (hr : r ∈ items) (hx : n ∉ items) :
    ∃ b, a.insertBefore c n r = .ok b := by
  obtain ⟨i, hi⟩ := exists_position (c := c) hn hr
  refine ⟨a.setItems c (items.insertIdx i n), ?_⟩
  rw [insertBefore, changeItems_of_items (items_of_find? hc)]
  simp [hi, requireAbsent_eq_ok_iff.2 hx, bind, Except.bind, Except.map]

theorem insertAfter_eq_ok {r : NodeId} {items : List NodeId} {g : Option Glue}
    (hc : a.find? c = some ⟨.list items, g⟩) (hn : items.Nodup) (hr : r ∈ items) (hx : n ∉ items) :
    ∃ b, a.insertAfter c n r = .ok b := by
  obtain ⟨i, hi⟩ := exists_position (c := c) hn hr
  refine ⟨a.setItems c (items.insertIdx (i + 1) n), ?_⟩
  rw [insertAfter, changeItems_of_items (items_of_find? hc)]
  simp [hi, requireAbsent_eq_ok_iff.2 hx, bind, Except.bind, Except.map]

theorem prependItem_eq_ok {items : List NodeId} {g : Option Glue}
    (hc : a.find? c = some ⟨.list items, g⟩) (hx : n ∉ items) :
    a.prependItem c n = .ok (a.setItems c (n :: items)) := by
  rw [prependItem, changeItems_of_items (items_of_find? hc)]
  simp [requireAbsent_eq_ok_iff.2 hx, bind, Except.bind, Except.map]

/-- A node put in at a place of a list. -/
structure PutsIn (a : Arena) (c n : NodeId) (s t : List NodeId) (b : Arena) : Prop where
  find? : ∃ g, a.find? c = some ⟨.list (s ++ t), g⟩
  not_mem : n ∉ s ++ t
  eq : b = a.setItems c (s ++ n :: t)

theorem exists_of_insertBefore {r : NodeId} (h : a.insertBefore c n r = .ok b) :
    ∃ s t, r ∉ s ∧ a.PutsIn c n s (r :: t) b := by
  obtain ⟨items, changed, g, hg, hc, rfl⟩ := exists_of_changeItems h
  obtain ⟨i, hp, hc⟩ := Except.exists_of_bind hc
  obtain ⟨_, ha, hc⟩ := Except.exists_of_bind hc
  obtain ⟨s, t, rfl, rfl, hr⟩ := split_of_idxOf? (position_eq_ok_iff.1 hp).1
  refine ⟨s, t, hr, ⟨g, hg⟩, requireAbsent_eq_ok_iff.1 ha, ?_⟩
  rw [← Except.ok.inj hc, insertIdx_length]

theorem exists_of_insertAfter {r : NodeId} (h : a.insertAfter c n r = .ok b) :
    ∃ s t, r ∉ s ∧ a.PutsIn c n (s ++ [r]) t b := by
  obtain ⟨items, changed, g, hg, hc, rfl⟩ := exists_of_changeItems h
  obtain ⟨i, hp, hc⟩ := Except.exists_of_bind hc
  obtain ⟨_, ha, hc⟩ := Except.exists_of_bind hc
  obtain ⟨s, t, rfl, rfl, hr⟩ := split_of_idxOf? (position_eq_ok_iff.1 hp).1
  refine ⟨s, t, hr, ⟨g, by simpa using hg⟩, by simpa using requireAbsent_eq_ok_iff.1 ha, ?_⟩
  rw [← Except.ok.inj hc, ← insertIdx_length n (s ++ [r]) t]
  simp

theorem exists_of_prependItem (h : a.prependItem c n = .ok b) : ∃ t, a.PutsIn c n [] t b := by
  obtain ⟨items, changed, g, hg, hc, rfl⟩ := exists_of_changeItems h
  obtain ⟨_, ha, hc⟩ := Except.exists_of_bind hc
  exact ⟨items, ⟨g, hg⟩, requireAbsent_eq_ok_iff.1 ha, by rw [← Except.ok.inj hc]; rfl⟩

theorem exists_of_appendItem (h : a.appendItem c n = .ok b) : ∃ s, a.PutsIn c n s [] b := by
  obtain ⟨items, changed, g, hg, hc, rfl⟩ := exists_of_changeItems h
  obtain ⟨_, ha, hc⟩ := Except.exists_of_bind hc
  refine ⟨items, ⟨g, by simpa using hg⟩, ?_, by rw [← Except.ok.inj hc]⟩
  simpa using requireAbsent_eq_ok_iff.1 ha

theorem appendItem_eq_ok {items : List NodeId} {g : Option Glue}
    (hc : a.find? c = some ⟨.list items, g⟩) (hx : n ∉ items) :
    a.appendItem c n = .ok (a.setItems c (items ++ [n])) := by
  rw [appendItem, changeItems_of_items (items_of_find? hc)]
  simp [requireAbsent_eq_ok_iff.2 hx, bind, Except.bind, Except.map]

namespace Sound

variable {s t : List NodeId} {old : NodeId}

theorem replaceItem (h : a.Sound) (hc : a.find? c = some ⟨.list (s ++ old :: t), none⟩)
    (hn : a.Loose n) (hr : ¬Reaches a.kids n c) (hb : n.index < a.size)
    (hk : ∀ {id m role}, a.find? id = some m → (c, role) ∈ m.payload.slots → a.Is role.admits n) :
    (a.setItems c (s ++ n :: t)).Sound := by
  have hkids : a.kids c = s ++ old :: t := kids_of_find? hc
  have hd := hkids ▸ h.nodup c
  have hmem {x : NodeId} (hx : x ∈ s ++ n :: t) : x = n ∨ x ∈ a.kids c := by
    rw [hkids]
    simp only [List.mem_append, List.mem_cons] at hx ⊢
    tauto
  refine h.setItems hc ?_ (fun x hx y hy hxy => ?_) (fun x hx hxc => ?_) (fun x hx => ?_)
    fun {id m role} hm hrole x hx => ?_
  · have hnc := hn c
    rw [hkids] at hnc
    simp only [List.mem_append, List.mem_cons, not_or] at hnc
    rw [List.nodup_middle] at hd ⊢
    exact List.nodup_cons.2 ⟨by simp [hnc], (List.nodup_cons.1 hd).2⟩
  all_goals rcases hmem hx with rfl | hx
  · exact hn y hxy
  · exact hy (h.single hxy hx)
  · exact hr hxc
  · exact h.not_reaches hx hxc
  · exact hb
  · exact h.closed c x hx
  · exact hk hm hrole
  · obtain ⟨items, hi, his⟩ := (h.fits hm).lists _ hrole
    rw [kids_of_find? hi] at hx
    exact his x hx

theorem kids_replaceItem (h : a.Sound) (hc : a.find? c = some ⟨.list (s ++ old :: t), none⟩)
    (x : NodeId) : (a.setItems c (s ++ n :: t)).kids x =
      (a.kids x).map fun m => if m = old then n else m := by
  have hkids : a.kids c = s ++ old :: t := kids_of_find? hc
  rw [kids_setItems (index_lt_of_find? hc)]
  split
  · subst x
    rw [hkids, map_replace_middle (hkids ▸ h.nodup c)]
  · have hold : old ∉ a.kids x := fun hx => ‹¬x = c› (h.single hx (by simp [hkids]))
    rw [map_replace hold]

end Sound

end Arena

namespace Surgery

variable {a : Arena} {id : NodeId}

theorem ends_setGlue_of_fits {id : NodeId} {n : Node} {g : Glue} (hn : a.find? id = some n)
    (hl : n.payload.isList = false) (hg : g.size = n.payload.children.length + 1) :
    Ends (setGlue id g) a (fun _ b => a.Reglued b) fun _ _ => False := by
  refine ends_change (fun b hb => .setGlue (PageError.eq_ok_of_ofArena hb)) fun e he => ?_
  simp [Arena.setGlue, Arena.get, hn, hl, hg, PageError.ofArena, bind, Except.bind] at he

theorem ends_setGlue_eq {id : NodeId} {n : Node} {g : Glue} (hn : a.find? id = some n)
    (hl : n.payload.isList = false) (hg : g.size = n.payload.children.length + 1) :
    Ends (setGlue id g) a (fun _ b => b = a.modify id fun n => { n with glue := some g })
      fun _ _ => False := by
  refine ends_change (fun b hb => ?_) fun e he => ?_
  · obtain ⟨_, _, _, rfl⟩ := Arena.exists_of_setGlue (PageError.eq_ok_of_ofArena hb)
    rfl
  · simp [Arena.setGlue, Arena.get, hn, hl, hg, PageError.ofArena, bind, Except.bind] at he

/-- The glue of a node can be renewed, unless it is an element with attributes. -/
theorem ends_addGlue {payload : Payload} {g : Option Glue}
    (hn : a.find? id = some ⟨payload, g⟩) (hl : payload.isList = false)
    (hs : ∀ s ∈ payload.slots, ∃ items g, a.find? s.1 = some ⟨.list items, g⟩)
    (he : ∀ name empty attributes body, payload = .element name empty attributes body →
      a.items attributes = .ok []) :
    Ends (addGlue id) a (fun _ b => a.Reglued b) fun _ _ => False := by
  obtain ⟨k, hk⟩ := Nat.exists_eq_succ_of_ne_zero (Nat.ne_zero_of_lt (Arena.index_lt_of_find? hn))
  refine Ends.bind (Ends.get ?_)
  rw [hk, renewGlue]
  refine Ends.bind (ends_look (fun p hp => ?_) fun e he => ?_)
  swap
  · cases he.symm.trans (Arena.payload_of_find? hn)
  obtain rfl := Except.ok.inj ((Arena.payload_of_find? hn).symm.trans hp)
  cases payload with
  | element name empty attributes body =>
    have hitems := he name empty attributes body rfl
    refine Ends.bind (ends_look (fun items hi => ?_) fun _ he => by cases he.symm.trans hitems)
    obtain rfl := Except.ok.inj (hitems.symm.trans hi)
    refine Ends.bind (Ends.pure (ends_setGlue_of_fits hn rfl ?_))
    cases empty <;> rfl
  | link target title =>
    obtain ⟨items, g', hi⟩ := hs (title, .content) (List.mem_singleton_self _)
    have hitems := Arena.items_of_find? hi
    refine Ends.bind (ends_look (fun _ _ => ?_) fun _ he => by cases he.symm.trans hitems)
    exact ends_setGlue_of_fits hn rfl rfl
  | attr name hasValue value =>
    refine ends_setGlue_of_fits hn rfl ?_
    cases hasValue <;> rfl
  | emphasis style content =>
    refine ends_setGlue_of_fits hn rfl ?_
    cases style <;> rfl
  | list items => cases hl
  | comment text => exact ends_setGlue_of_fits hn rfl rfl
  | rule => exact ends_setGlue_of_fits hn rfl rfl
  | paragraph content => exact ends_setGlue_of_fits hn rfl rfl
  | _ => exact Ends.pure (.refl a)

theorem ends_addGlue_link_eq {target : String} {title : NodeId} {items : List NodeId}
    {g g' : Option Glue} (hn : a.find? id = some ⟨.link target title, g⟩)
    (ht : a.find? title = some ⟨.list items, g'⟩) :
    Ends (addGlue id) a
      (fun _ b => b = a.modify id fun n => { n with glue := some (Glue.link target !items.isEmpty) })
      fun _ _ => False := by
  obtain ⟨k, hk⟩ := Nat.exists_eq_succ_of_ne_zero (Nat.ne_zero_of_lt (Arena.index_lt_of_find? hn))
  have hp := Arena.payload_of_find? hn
  have hi := Arena.items_of_find? ht
  refine Ends.bind (Ends.get ?_)
  rw [hk, renewGlue]
  refine Ends.bind (ends_look (fun p hp' => ?_) fun _ he => by cases he.symm.trans hp)
  obtain rfl := Except.ok.inj (hp.symm.trans hp')
  refine Ends.bind (ends_look (fun items' hi' => ?_) fun _ he => by cases he.symm.trans hi)
  obtain rfl := Except.ok.inj (hi.symm.trans hi')
  exact ends_setGlue_eq hn rfl rfl

theorem ends_addGlue_link {target : String} {title : NodeId} {items : List NodeId}
    {g g' : Option Glue} (hn : a.find? id = some ⟨.link target title, g⟩)
    (ht : a.find? title = some ⟨.list items, g'⟩) :
    Ends (addGlue id) a (fun _ b => a.Reglued b) fun _ _ => False := by
  refine ends_addGlue hn rfl (fun s hs => ?_) fun _ _ _ _ he => by cases he
  rw [List.mem_singleton.1 hs]
  exact ⟨items, g', ht⟩

end Surgery

namespace Arena

/-- New nodes with nothing below them. -/
structure Sprouts (role : Role) (a b : Arena) (items : List NodeId) : Prop where
  exts : a.Extends b
  kids_eq : b.kids = a.kids
  range : ∀ x ∈ items, a.size ≤ x.index ∧ x.index < b.size
  nodup : items.Nodup
  is : ∀ x ∈ items, b.Is role.admits x
  sound : a.Sound → b.Sound

namespace Sprouts

variable {a b : Arena} {role : Role}

theorem nil (a : Arena) : Sprouts role a a [] :=
  ⟨.refl a, rfl, by simp, .nil, by simp, fun h => h⟩

theorem cons {p : Payload} {items : List NodeId} (hp : p.children = []) (hs : p.slots = [])
    (hr : role.admits p = true) (h : Sprouts role (a.push ⟨p, none⟩) b items) :
    Sprouts role a b (a.next :: items) := by
  have hlt := next_index_lt a ⟨p, none⟩
  refine ⟨(Extends.push a _).trans h.exts, ?_, ?_, ?_, ?_, ?_⟩
  · rw [h.kids_eq]
    funext x
    rw [kids_push]
    split
    · subst x
      exact hp.trans (kids_eq_nil (Nat.le_refl a.size)).symm
    · rfl
  · intro x hx
    rcases List.mem_cons.1 hx with rfl | hx
    · exact ⟨Nat.le_refl _, Nat.lt_of_lt_of_le hlt h.exts.size_le⟩
    · have := h.range x hx
      rw [size_push] at this
      exact ⟨Nat.le_of_succ_le this.1, this.2⟩
  · refine List.nodup_cons.2 ⟨fun hx => ?_, h.nodup⟩
    exact Nat.lt_irrefl _ (Nat.lt_of_lt_of_le hlt (h.range _ hx).1)
  · intro x hx
    rcases List.mem_cons.1 hx with rfl | hx
    · exact (Is.push_next hr).extends h.exts
    · exact h.is x hx
  · intro ha
    refine h.sound (ha.push ⟨by simp [hs], Node.glueFits_none⟩ ?_ ?_ ?_)
    · simp [hp]
    · simp [hp]
    · simp [hp]

end Sprouts
end Arena

namespace Span

/-- The characters that a span stands for. -/
def meaning : Span → List Char
  | text s => s
  | reference _ r => r.meaning.toList

theorem flatMap_meaning_cons (span : Span) (spans : List Span) :
    (cons span spans).flatMap meaning = span.meaning ++ spans.flatMap meaning := by
  rw [cons.eq_def]
  split <;> simp [meaning]

/-- An encoded value stands for the value. -/
theorem flatMap_meaning_encode (s : List Char) : (encode s).flatMap meaning = s := by
  induction s with
  | nil => rfl
  | cons c s ih =>
    rw [encode, flatMap_meaning_cons, ih]
    cases escape? c <;> simp [meaning, Reference.meaning]

theorem text_payload (span : Span) (x : NodeId) (g : Option Glue) (below : List (Tree NodeId Node)) :
    Node.text (.node x ⟨span.payload, g⟩ below) = .ok (String.ofList span.meaning) := by
  cases span <;> simp [payload, Node.text, meaning]

end Span

namespace Arena

/-- Nodes that read as a text one after the other, wherever they are the same. -/
def Spells (a : Arena) (items : List NodeId) (s : List Char) : Prop :=
  ∀ b : Arena, b.Founded → (∀ x ∈ items, (b.find? x).map Node.payload = (a.find? x).map Node.payload) →
    Node.texts (items.map b.tree) = .ok (String.ofList s)

theorem Spells.cons {a : Arena} {n : NodeId} {items : List NodeId} {span : Span} {g : Option Glue}
    {s : List Char} (hn : a.find? n = some ⟨span.payload, g⟩) (h : a.Spells items s) :
    a.Spells (n :: items) (span.meaning ++ s) := by
  intro b hb hp
  rw [List.forall_mem_cons, hn] at hp
  obtain ⟨⟨q, g'⟩, hm, hq⟩ := Option.map_eq_some_iff.1 hp.1
  obtain rfl : q = span.payload := hq
  rw [List.map_cons, Node.texts, hb.tree_eq hm, Span.text_payload, h b hb hp.2]
  simp [bind, Except.bind]

end Arena

namespace Surgery

theorem ends_makeSpans (spans : List Span) (a : Arena) :
    Ends (spans.mapM fun span => make span.payload) a
      (fun items b => Arena.Sprouts .value a b items ∧ b.Spells items (spans.flatMap Span.meaning))
      fun _ _ => False := by
  induction spans generalizing a with
  | nil => exact Ends.pure ⟨.nil a, fun _ _ _ => rfl⟩
  | cons span spans ih =>
    rw [List.mapM_cons]
    refine Ends.bind (ends_make ?_)
    refine (ih _).step (fun items b hb => ?_) fun _ _ h => h
    refine Ends.pure ⟨hb.1.cons ?_ ?_ ?_, hb.2.cons (hb.1.exts.find?_of_find? (Arena.find?_push_next a _))⟩
    all_goals cases span <;> rfl

theorem ends_encodeValue (value : String) (a : Arena) :
    Ends (encodeValue value) a
      (fun items b => Arena.Sprouts .value a b items ∧ b.Spells items value.toList)
      fun _ _ => False := by
  have h := ends_makeSpans (Span.encode value.toList) a
  rwa [Span.flatMap_meaning_encode] at h

end Surgery
end WikiPage
