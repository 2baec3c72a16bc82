import WikiPage.Proofs.Surgery

/-!
# Surgery on one container

Six operations change the items of a container. Each looks its nodes up first and writes last, and it
writes only if all that it looked up was as it should be. So an operation that fails leaves the arena as it
was, and one that succeeds changes one list at one place. This is true of every arena, also of one where
nodes stand in a list more than once or where a node is put next to itself.
-/

namespace WikiPage

/-- What is done to a container. -/
inductive Stitch
  | replace (old new : NodeId)
  | remove (node : NodeId)
  | insertBefore (node reference : NodeId)
  | insertAfter (node reference : NodeId)
  | prepend (node : NodeId)
  | append (node : NodeId)
  deriving DecidableEq, Repr

namespace Surgery

theorem ask_bind {α β : Type} (f : Arena → Except PageError α) (k : α → Surgery β) (a : Arena) :
    (ask f >>= k) a = match f a with
      | .ok x => k x a
      | .error error => .error error a := by
  show EStateM.bind _ _ _ = _
  rw [EStateM.bind, ask]
  cases f a <;> rfl

def findIndex (container node : NodeId) : Surgery Nat :=
  ask fun a => a.indexIn container node

def ensureAbsent (container node : NodeId) : Surgery Unit :=
  ask fun a => do
    let items ← PageError.ofArena (a.items container)
    Arena.requireAbsent container node items

def writeItems (container : NodeId) (f : List NodeId → List NodeId) : Surgery Unit := do
  let items ← look fun a => a.items container
  setItems container (f items)

end Surgery

namespace Stitch

open Arena (position requireAbsent position_eq_ok_iff requireAbsent_eq_ok_iff)

def apply (e : Stitch) (c : NodeId) (a : Arena) : Except PageError Arena :=
  match e with
  | replace old new => a.replaceItem c old new
  | remove node => a.removeItem c node
  | insertBefore node reference => a.insertBefore c node reference
  | insertAfter node reference => a.insertAfter c node reference
  | prepend node => a.prependItem c node
  | append node => a.appendItem c node

/-- The operation look-up by look-up, with the arena that is changed. -/
def steps (e : Stitch) (c : NodeId) : Surgery Unit :=
  match e with
  | replace old new => do
    let i ← Surgery.findIndex c old
    if new ≠ old then Surgery.ensureAbsent c new
    Surgery.writeItems c fun items => items.set i new
  | remove node => do
    let i ← Surgery.findIndex c node
    Surgery.writeItems c fun items => items.eraseIdx i
  | insertBefore node reference => do
    let i ← Surgery.findIndex c reference
    Surgery.ensureAbsent c node
    Surgery.writeItems c fun items => items.insertIdx i node
  | insertAfter node reference => do
    let i ← Surgery.findIndex c reference
    Surgery.ensureAbsent c node
    Surgery.writeItems c fun items => items.insertIdx (i + 1) node
  | prepend node => do
    Surgery.ensureAbsent c node
    Surgery.writeItems c fun items => items.insertIdx 0 node
  | append node => do
    Surgery.ensureAbsent c node
    Surgery.writeItems c fun items => items ++ [node]

/-- The items that are left, and what goes wrong. -/
def onItems (e : Stitch) (c : NodeId) (items : List NodeId) : Except PageError (List NodeId) :=
  match e with
  | replace old new => do
    let i ← position c old items
    if new ≠ old then requireAbsent c new items
    .ok (items.set i new)
  | remove node => do
    let i ← position c node items
    .ok (items.eraseIdx i)
  | insertBefore node reference => do
    let i ← position c reference items
    requireAbsent c node items
    .ok (items.insertIdx i node)
  | insertAfter node reference => do
    let i ← position c reference items
    requireAbsent c node items
    .ok (items.insertIdx (i + 1) node)
  | prepend node => do
    requireAbsent c node items
    .ok (node :: items)
  | append node => do
    requireAbsent c node items
    .ok (items ++ [node])

/-- The node that is searched for. -/
def searched? : Stitch → Option NodeId
  | replace old _ => some old
  | remove node => some node
  | insertBefore _ reference => some reference
  | insertAfter _ reference => some reference
  | prepend _ => none
  | append _ => none

/-- The node that is put between others. -/
def inserted? : Stitch → Option NodeId
  | replace _ _ => none
  | remove _ => none
  | insertBefore node _ => some node
  | insertAfter node _ => some node
  | prepend node => some node
  | append node => some node

/-- The node that must not be there yet. -/
def absent? : Stitch → Option NodeId
  | replace old new => if new = old then none else some new
  | e => e.inserted?

structure Fits (e : Stitch) (items : List NodeId) : Prop where
  once : ∀ x, e.searched? = some x → items.count x = 1
  absent : ∀ x, e.absent? = some x → x ∉ items

/-- What a list becomes. -/
inductive Turns : Stitch → List NodeId → List NodeId → Prop
  | replace (old new : NodeId) (s t : List NodeId) : Turns (.replace old new) (s ++ old :: t) (s ++ new :: t)
  | remove (node : NodeId) (s t : List NodeId) : Turns (.remove node) (s ++ node :: t) (s ++ t)
  | insertBefore (node reference : NodeId) (s t : List NodeId) :
    Turns (.insertBefore node reference) (s ++ reference :: t) (s ++ node :: reference :: t)
  | insertAfter (node reference : NodeId) (s t : List NodeId) :
    Turns (.insertAfter node reference) (s ++ reference :: t) (s ++ reference :: node :: t)
  | prepend (node : NodeId) (items : List NodeId) : Turns (.prepend node) items (node :: items)
  | append (node : NodeId) (items : List NodeId) : Turns (.append node) items (items ++ [node])

variable {e : Stitch} {c n : NodeId} {a b : Arena} {s t items changed : List NodeId}

theorem position_middle (h : (s ++ n :: t).count n = 1) : position c n (s ++ n :: t) = .ok s.length := by
  have hs : n ∉ s := by
    rw [List.count_append, List.count_cons_self] at h
    exact List.count_eq_zero.1 (by omega)
  refine position_eq_ok_iff.2 ⟨List.idxOf?_eq_some_iff.2 ⟨by simp, by simp, fun j hj hn => hs ?_⟩, h⟩
  rw [List.getElem_append_left hj] at hn
  exact hn ▸ List.getElem_mem hj

theorem indexIn_of_items (h : a.items c = .ok items) (n : NodeId) : a.indexIn c n = position c n items := by
  rw [Arena.indexIn, h]
  rfl

theorem requireAbsent_of_items (h : a.items c = .ok items) (n : NodeId) :
    (do
      let items ← PageError.ofArena (a.items c)
      requireAbsent c n items) = requireAbsent c n items := by
  rw [h]
  rfl

theorem writeItems_of_items (h : a.items c = .ok items) (f : List NodeId → List NodeId) :
    Surgery.writeItems c f a = .ok () (a.setItems c (f items)) := by
  rw [Surgery.writeItems, Surgery.look, Surgery.ask_bind, h]
  rfl

theorem steps_of_items (h : a.items c = .ok items) : e.steps c a = match e.onItems c items with
    | .ok changed => .ok () (a.setItems c changed)
    | .error error => .error error a := by
  -- nothing is written before the last look-up, so each of them sees the items as they were
  cases e with
  | replace old new =>
    rw [steps, onItems, Surgery.findIndex, Surgery.ask_bind, indexIn_of_items h]
    cases position c old items with
    | error _ => rfl
    | ok i =>
      by_cases hn : new = old
      · simp only [hn, ne_eq, not_true_eq_false, if_false]
        exact writeItems_of_items h _
      · simp only [ne_eq, hn, not_false_eq_true, if_true]
        rw [Surgery.ensureAbsent, Surgery.ask_bind, requireAbsent_of_items h]
        cases requireAbsent c new items with
        | error _ => rfl
        | ok _ => exact writeItems_of_items h _
  | remove node =>
    rw [steps, onItems, Surgery.findIndex, Surgery.ask_bind, indexIn_of_items h]
    cases position c node items with
    | error _ => rfl
    | ok i => exact writeItems_of_items h _
  | insertBefore node reference | insertAfter node reference =>
    rw [steps, onItems, Surgery.findIndex, Surgery.ask_bind, indexIn_of_items h]
    cases position c reference items with
    | error _ => rfl
    | ok i =>
      dsimp only
      rw [Surgery.ensureAbsent, Surgery.ask_bind, requireAbsent_of_items h]
      cases requireAbsent c node items with
      | error _ => rfl
      | ok _ => exact writeItems_of_items h _
  | prepend node | append node =>
    rw [steps, onItems, Surgery.ensureAbsent, Surgery.ask_bind, requireAbsent_of_items h]
    cases requireAbsent c node items with
    | error _ => rfl
    | ok _ => exact writeItems_of_items h _

theorem steps_of_error {error : Arena.Error} (h : a.items c = .error error) :
    e.steps c a = .error (.arena error) a := by
  have hfind (n : NodeId) : Surgery.findIndex c n a = .error (.arena error) a := by
    rw [Surgery.findIndex, Surgery.ask, Arena.indexIn, h]
    rfl
  have habsent (n : NodeId) : Surgery.ensureAbsent c n a = .error (.arena error) a := by
    rw [Surgery.ensureAbsent, Surgery.ask, h]
    rfl
  cases e <;> simp only [steps, bind, EStateM.bind, hfind, habsent]

theorem apply_eq_changeItems (e : Stitch) (c : NodeId) (a : Arena) :
    e.apply c a = a.changeItems c (e.onItems c) := by
  cases e <;> rfl

theorem steps_eq_change (e : Stitch) (c : NodeId) : e.steps c = Surgery.change (e.apply c) := by
  funext a
  rw [Surgery.change, apply_eq_changeItems]
  cases h : a.items c with
  | error error =>
    rw [steps_of_error h, Arena.changeItems, h]
    rfl
  | ok items =>
    rw [steps_of_items h, Arena.changeItems_of_items h]
    cases e.onItems c items <;> rfl

theorem fits_and_turns_of_onItems (h : e.onItems c items = .ok changed) :
    e.Fits items ∧ e.Turns items changed := by
  have once {r : NodeId} {i : Nat} (hp : position c r items = .ok i) : items.count r = 1 :=
    (position_eq_ok_iff.1 hp).2
  have absent {n : NodeId} {u : Unit} (ha : requireAbsent c n items = .ok u) : n ∉ items :=
    requireAbsent_eq_ok_iff.1 ha
  cases e with
  | replace old new =>
    obtain ⟨i, hp, h⟩ := Except.exists_of_bind h
    obtain ⟨s, t, hitems, rfl⟩ := Arena.split_of_position hp
    obtain ⟨habsent, hset⟩ : (new ≠ old → new ∉ items) ∧ items.set s.length new = changed := by
      by_cases hn : new = old
      · rw [if_neg (by simpa using hn)] at h
        exact ⟨fun hne => absurd hn hne, Except.ok.inj h⟩
      · rw [if_pos hn] at h
        obtain ⟨_, ha, h⟩ := Except.exists_of_bind h
        exact ⟨fun _ => absent ha, Except.ok.inj h⟩
    refine ⟨⟨fun x hx => Option.some.inj hx ▸ once hp, fun x hx => ?_⟩, ?_⟩
    · rw [absent?, Option.ite_none_left_eq_some, Option.some.injEq] at hx
      obtain ⟨hn, rfl⟩ := hx
      exact habsent hn
    · rw [← hset, hitems, List.set_append_right _ _ (Nat.le_refl _), Nat.sub_self]
      exact .replace old new s t
  | remove node =>
    obtain ⟨i, hp, h⟩ := Except.exists_of_bind h
    obtain ⟨s, t, hitems, rfl⟩ := Arena.split_of_position hp
    refine ⟨⟨fun x hx => Option.some.inj hx ▸ once hp, fun _ => nofun⟩, ?_⟩
    rw [← Except.ok.inj h, hitems, List.eraseIdx_append_of_length_le (Nat.le_refl _), Nat.sub_self]
    exact .remove node s t
  | insertBefore node reference =>
    obtain ⟨i, hp, h⟩ := Except.exists_of_bind h
    obtain ⟨_, ha, h⟩ := Except.exists_of_bind h
    obtain ⟨s, t, hitems, rfl⟩ := Arena.split_of_position hp
    refine ⟨⟨fun x hx => Option.some.inj hx ▸ once hp, fun x hx => Option.some.inj hx ▸ absent ha⟩, ?_⟩
    rw [← Except.ok.inj h, hitems, Arena.insertIdx_length]
    exact .insertBefore node reference s t
  | insertAfter node reference =>
    obtain ⟨i, hp, h⟩ := Except.exists_of_bind h
    obtain ⟨_, ha, h⟩ := Except.exists_of_bind h
    obtain ⟨s, t, hitems, rfl⟩ := Arena.split_of_position hp
    refine ⟨⟨fun x hx => Option.some.inj hx ▸ once hp, fun x hx => Option.some.inj hx ▸ absent ha⟩, ?_⟩
    have hplace := Arena.insertIdx_length node (s ++ [reference]) t
    rw [List.append_assoc, List.append_assoc, List.length_append] at hplace
    rw [← Except.ok.inj h, hitems]
    exact hplace ▸ .insertAfter node reference s t
  | prepend node =>
    obtain ⟨_, ha, h⟩ := Except.exists_of_bind h
    refine ⟨⟨fun _ => nofun, fun x hx => Option.some.inj hx ▸ absent ha⟩, ?_⟩
    rw [← Except.ok.inj h]
    exact .prepend node items
  | append node =>
    obtain ⟨_, ha, h⟩ := Except.exists_of_bind h
    refine ⟨⟨fun _ => nofun, fun x hx => Option.some.inj hx ▸ absent ha⟩, ?_⟩
    rw [← Except.ok.inj h]
    exact .append node items

theorem exists_of_fits (h : e.Fits items) : ∃ changed, e.onItems c items = .ok changed := by
  have found {r : NodeId} (hr : items.count r = 1) : ∃ i, position c r items = .ok i := by
    obtain ⟨i, hi⟩ := Option.isSome_iff_exists.1
      (List.isSome_idxOf?.2 (List.count_pos_iff.1 (hr ▸ Nat.zero_lt_one)))
    exact ⟨i, position_eq_ok_iff.2 ⟨hi, hr⟩⟩
  have passed {n : NodeId} (hn : n ∉ items) : requireAbsent c n items = .ok () :=
    requireAbsent_eq_ok_iff.2 hn
  cases e with
  | replace old new =>
    obtain ⟨i, hi⟩ := found (h.once old rfl)
    refine ⟨items.set i new, ?_⟩
    rw [onItems, hi]
    by_cases hn : new = old
    · simp [hn, bind, Except.bind]
    · have ha := passed (h.absent new (by rw [absent?, if_neg hn]))
      simp [hn, ha, bind, Except.bind]
  | remove node =>
    obtain ⟨i, hi⟩ := found (h.once node rfl)
    exact ⟨items.eraseIdx i, by rw [onItems, hi]; rfl⟩
  | insertBefore node reference =>
    obtain ⟨i, hi⟩ := found (h.once reference rfl)
    exact ⟨items.insertIdx i node, by rw [onItems, hi, passed (h.absent node rfl)]; rfl⟩
  | insertAfter node reference =>
    obtain ⟨i, hi⟩ := found (h.once reference rfl)
    exact ⟨items.insertIdx (i + 1) node, by rw [onItems, hi, passed (h.absent node rfl)]; rfl⟩
  | prepend node => exact ⟨node :: items, by rw [onItems, passed (h.absent node rfl)]; rfl⟩
  | append node => exact ⟨items ++ [node], by rw [onItems, passed (h.absent node rfl)]; rfl⟩

/-- What is put between others stands between what was there. -/
theorem Turns.exists_of_inserted (h : e.Turns items changed) (hn : e.inserted? = some n) :
    ∃ s t, items = s ++ t ∧ changed = s ++ n :: t := by
  cases h with
  | replace | remove => cases hn
  | insertBefore node reference s t =>
    obtain rfl := Option.some.inj hn
    exact ⟨s, reference :: t, rfl, rfl⟩
  | insertAfter node reference s t =>
    obtain rfl := Option.some.inj hn
    exact ⟨s ++ [reference], t, by simp, by simp⟩
  | prepend node items =>
    obtain rfl := Option.some.inj hn
    exact ⟨[], items, rfl, rfl⟩
  | append node items =>
    obtain rfl := Option.some.inj hn
    exact ⟨items, [], (List.append_nil _).symm, rfl⟩

theorem absent?_of_inserted? (h : e.inserted? = some n) : e.absent? = some n := by
  cases e with
  | replace | remove => cases h
  | _ => exact h

theorem Turns.nodup (h : e.Turns items changed) (hf : e.Fits items) (hd : items.Nodup) : changed.Nodup := by
  cases hi : e.inserted? with
  | some n =>
    obtain ⟨s, t, rfl, rfl⟩ := h.exists_of_inserted hi
    exact List.nodup_middle.2 (List.nodup_cons.2 ⟨hf.absent n (absent?_of_inserted? hi), hd⟩)
  | none =>
    cases h with
    | replace old new s t =>
      by_cases hn : new = old
      · exact hn ▸ hd
      · have hnew := hf.absent new (by rw [absent?, if_neg hn])
        rw [List.nodup_middle, List.nodup_cons] at hd ⊢
        refine ⟨fun hmem => hnew ?_, hd.2⟩
        rw [List.mem_append] at hmem ⊢
        exact hmem.imp_right (List.mem_cons_of_mem old)
    | remove node s t => exact hd.sublist (List.Sublist.append_left (List.sublist_cons_self node t) s)
    | _ => cases hi

/-- What was put in can be taken out, and that leaves what was there. -/
theorem Turns.remove_onItems (h : e.Turns items changed) (hf : e.Fits items) (hn : e.inserted? = some n) :
    (Stitch.remove n).onItems c changed = .ok items := by
  obtain ⟨s, t, rfl, rfl⟩ := h.exists_of_inserted hn
  have habsent := hf.absent n (absent?_of_inserted? hn)
  have hcount : (s ++ n :: t).count n = 1 := by
    rw [List.count_append, List.count_cons_self, ← Nat.add_assoc, ← List.count_append,
      List.count_eq_zero.2 habsent]
  rw [onItems, position_middle hcount]
  show Except.ok ((s ++ n :: t).eraseIdx s.length) = _
  rw [List.eraseIdx_append_of_length_le (Nat.le_refl _), Nat.sub_self]
  rfl

/-- The container is there, is a list, and has what is looked up in it. -/
def Possible (e : Stitch) (c : NodeId) (a : Arena) : Prop :=
  ∃ items g, a.find? c = some ⟨.list items, g⟩ ∧ e.Fits items

/-- What is done to an arena: one list is changed at one place. -/
structure Made (e : Stitch) (c : NodeId) (a b : Arena) : Prop where
  container : ∃ items changed g, a.find? c = some ⟨.list items, g⟩ ∧ b.find? c = some ⟨.list changed, g⟩ ∧
    e.Turns items changed ∧ (items.Nodup → changed.Nodup)
  others : ∀ x, x ≠ c → b.find? x = a.find? x
  size : b.size = a.size

theorem made_setItems {g : Option Glue} (hc : a.find? c = some ⟨.list items, g⟩) (hf : e.Fits items)
    (h : e.Turns items changed) : e.Made c a (a.setItems c changed) where
  container := ⟨items, changed, g, hc, by rw [Arena.find?_setItems hc, if_pos rfl], h, h.nodup hf⟩
  others x hx := by rw [Arena.find?_setItems hc, if_neg hx]
  size := Arena.size_modify ..

theorem steps_of_possible (h : e.Possible c a) : ∃ b, e.steps c a = .ok () b ∧ e.Made c a b ∧
    ∀ n, e.inserted? = some n → (remove n).steps c b = .ok () a := by
  obtain ⟨items, g, hc, hf⟩ := h
  obtain ⟨changed, hchanged⟩ := exists_of_fits (c := c) hf
  have hturns := (fits_and_turns_of_onItems hchanged).2
  refine ⟨a.setItems c changed, ?_, made_setItems hc hf hturns, fun n hn => ?_⟩
  · rw [steps_of_items (Arena.items_of_find? hc), hchanged]
  · have hc' : (a.setItems c changed).find? c = some ⟨.list changed, g⟩ := by
      rw [Arena.find?_setItems hc, if_pos rfl]
    rw [steps_of_items (Arena.items_of_find? hc'), hturns.remove_onItems hf hn]
    simp only [Arena.setItems_setItems hc]

theorem steps_of_not_possible (h : ¬e.Possible c a) : ∃ error, e.steps c a = .error error a := by
  cases hi : a.items c with
  | error error => exact ⟨_, steps_of_error hi⟩
  | ok items =>
    obtain ⟨g, hc⟩ := Arena.find?_of_items hi
    rw [steps_of_items hi]
    cases ho : e.onItems c items with
    | error error => exact ⟨error, rfl⟩
    | ok changed => exact absurd ⟨items, g, hc, (fits_and_turns_of_onItems ho).1⟩ h

/-- Done look-up by look-up, an operation on a container is what it is as one step. It fails just if the
container is no list or does not have what is looked up in it, and then the arena is as it was; else one
list is changed at one place, and what was put in can be taken out again. -/
theorem steps_exact (e : Stitch) (c : NodeId) (a : Arena) :
    e.steps c = Surgery.change (e.apply c) ∧
    ((∃ error b, e.steps c a = .error error b) ↔ ¬e.Possible c a) ∧
    (∀ error b, e.steps c a = .error error b → b = a) ∧
    ∀ b, e.steps c a = .ok () b → e.Made c a b ∧
      ∀ n, e.inserted? = some n → (remove n).steps c b = .ok () a := by
  refine ⟨steps_eq_change e c, ?_⟩
  by_cases h : e.Possible c a
  · obtain ⟨b, hb, hmade, hundo⟩ := steps_of_possible h
    refine ⟨⟨fun ⟨_, _, he⟩ => ?_, fun hn => absurd h hn⟩, fun error b' he => ?_, fun b' he => ?_⟩
    · cases hb.symm.trans he
    · cases hb.symm.trans he
    · cases hb.symm.trans he
      exact ⟨hmade, hundo⟩
  · obtain ⟨error, hb⟩ := steps_of_not_possible h
    refine ⟨⟨fun _ => h, fun _ => ⟨error, a, hb⟩⟩, fun error b' he => ?_, fun b' he => ?_⟩
    · cases hb.symm.trans he
      rfl
    · cases hb.symm.trans he

end Stitch
end WikiPage
