import WikiPage.Proofs.Sheets

/-!
# Attributes as they are written

The nodes that writing an attribute leaves behind: the attribute has the glue that it had if that quotes a
value, and the spans of the new value below it. All other nodes stay but the list of the attributes.
-/

namespace WikiPage

namespace Sheet

/-- The text of an encoded value. -/
def spelling (value : String) : Except Arena.Error String :=
  Node.joined ((Span.encode value.toList).map fun span => Node.plain span.payload [] [])

/-- An attribute with another value. -/
def Entry.rewrite (key value : String) (e : Entry) : Entry :=
  { e with
    hasValue := true
    glue := if Surgery.isQuoted e.hasValue e.glue then e.glue else some (Glue.attr key true)
    value := spelling value }

end Sheet

namespace Arena

variable {a b c : Arena} {spans : List Span} {items old : List NodeId} {n v list node : NodeId}
  {name value written : String} {hasValue : Bool} {g : Option Glue}

/-- New nodes have been made for spans. -/
structure Lays (a : Arena) (spans : List Span) (items : List NodeId) (b : Arena) : Prop where
  exts : a.Extends b
  range : ∀ n ∈ items, a.size ≤ n.index ∧ n.index < b.size
  nodes : items.map b.find? = spans.map fun span => some ⟨span.payload, none⟩

/-- A list of the spans of a value. -/
def Encodes (a : Arena) (v : NodeId) (value : String) : Prop :=
  ∃ items, a.find? v = some ⟨.list items, none⟩ ∧
    items.map a.find? = (Span.encode value.toList).map fun span => some ⟨span.payload, none⟩

/-- An attribute has been written, in the place of a node if one is given. -/
structure Pens (a : Arena) (list : NodeId) (node : Option NodeId) (name value : String) (n : NodeId)
    (b : Arena) : Prop where
  agrees : a.AgreesBut b fun y => y = list ∨ Reaches a.kids n y
  entry : ∃ written v g, b.find? n = some ⟨.attr written true v, g⟩ ∧ b.Encodes v value ∧
    match node with
    | some o => o = n ∧ ∃ hasValue v' g', a.find? o = some ⟨.attr written hasValue v', g'⟩ ∧
      g = if Surgery.isQuoted hasValue g' then g' else some (Glue.attr name true)
    | none => a.size ≤ n.index ∧ g = some (Glue.attr name true)

theorem map_print_spans (h : a.Founded) :
    ∀ {items : List NodeId} {spans : List Span},
      items.map a.find? = spans.map (fun span => some ⟨span.payload, none⟩) →
      items.map a.print = spans.map fun span => Node.plain span.payload [] []
  | [], [], _ => rfl
  | n :: items, span :: spans, hn => by
    rw [List.map_cons, List.map_cons, List.cons.injEq] at hn
    rw [List.map_cons, List.map_cons, map_print_spans h hn.2, h.print_eq hn.1]
    cases span <;> rfl

theorem Encodes.print_eq (h : a.Founded) (hv : a.Encodes v value) : a.print v = Sheet.spelling value := by
  obtain ⟨items, hi, hnodes⟩ := hv
  rw [h.print_list hi, map_print_spans h hnodes]
  rfl

end Arena

namespace Surgery

open Arena (Lays)

variable {a : Arena} {items old : List NodeId} {v list node : NodeId} {name value written : String}
  {hasValue : Bool} {g g' : Option Glue}

theorem lays_makeSpans (spans : List Span) (a : Arena) :
    Ends (spans.mapM fun span => make span.payload) a (fun items b => a.Lays spans items b)
      fun _ _ => False := by
  induction spans generalizing a with
  | nil => exact Ends.pure ⟨.refl a, List.forall_mem_nil _, rfl⟩
  | cons span spans ih =>
    rw [List.mapM_cons]
    refine Ends.bind (ends_make ((ih _).step (fun items b hb => Ends.pure ?_) fun _ _ h => h))
    have hfirst := hb.exts.find?_of_find? (Arena.find?_push_next a ⟨span.payload, none⟩)
    refine ⟨(Arena.Extends.push a _).trans hb.exts, fun n hn => ?_, ?_⟩
    · rcases List.mem_cons.1 hn with rfl | hn
      · exact ⟨Nat.le_refl _, Arena.index_lt_of_find? hfirst⟩
      · obtain ⟨hle, hlt⟩ := hb.range n hn
        rw [Arena.size_push] at hle
        exact ⟨Nat.le_of_succ_le hle, hlt⟩
    · rw [List.map_cons, List.map_cons, hfirst, hb.nodes]

theorem ends_rewriteAttribute_eq (hn : a.find? node = some ⟨.attr written hasValue v, g⟩)
    (hv : a.find? v = some ⟨.list old, none⟩) :
    Ends (rewriteAttribute node name items) a (fun _ b => ∀ y, b.find? y =
      if y = node then some ⟨.attr written true v, if isQuoted hasValue g then g else some (Glue.attr name true)⟩
      else if y = v then some ⟨.list items, none⟩ else a.find? y) fun _ _ => False := by
  have hne : node ≠ v := by
    rintro rfl
    cases hv.symm.trans hn
  refine Ends.bind (ends_look (fun payload hp => ?_) fun e he => ?_)
  swap
  · simp [Arena.payload_of_find? hn] at he
  obtain rfl := Except.ok.inj ((Arena.payload_of_find? hn).symm.trans hp)
  refine Ends.bind (ends_look (fun glue hglue => ?_) fun e he => ?_)
  swap
  · simp [Arena.glue_of_find? hn] at he
  obtain rfl := Except.ok.inj ((Arena.glue_of_find? hn).symm.trans hglue)
  refine Ends.bind (ends_look (fun _ _ => ?_) fun e he => ?_)
  swap
  · simp [Arena.items_of_find? hv] at he
  refine Ends.bind (ends_setItems (Ends.bind (ends_setPayload ?_)))
  have hfind (y : NodeId) : ((a.setItems v items).setPayload node (.attr written true v)).find? y =
      if y = node then some ⟨.attr written true v, g⟩ else if y = v then some ⟨.list items, none⟩
      else a.find? y := by
    rw [Arena.setPayload, Arena.find?_modify, Arena.find?_setItems hv]
    by_cases hy : y = node
    · simp [hy, hne, hn]
    · simp [hy]
  split
  case isTrue hquoted =>
    refine (ends_setGlue_eq ((hfind node).trans (if_pos rfl)) rfl rfl).mono ?_ fun _ _ hf => hf
    rintro - b rfl y
    have hquoted : isQuoted hasValue g = false := by simpa using hquoted
    rw [Arena.find?_modify, hfind]
    by_cases hy : y = node
    · simp [hy, hquoted]
    · simp [hy]
  case isFalse hquoted =>
    refine Ends.pure fun y => ?_
    have hquoted : isQuoted hasValue g = true := by simpa using hquoted
    rw [hfind, if_pos hquoted]

theorem ends_addAttribute_eq (hl : a.find? list = some ⟨.list old, none⟩)
    (hold : ∀ x ∈ old, x.index < a.size) :
    Ends (addAttribute list name items) a (fun n b => ∃ v : NodeId, a.size ≤ v.index ∧ a.size ≤ n.index ∧
      v ≠ n ∧ ∀ y, b.find? y =
        if y = n then some ⟨.attr name true v, some (Glue.attr name true)⟩
        else if y = v then some ⟨.list items, none⟩
        else if y = list then some ⟨.list (old ++ [n]), none⟩ else a.find? y) fun _ _ => False := by
  refine Ends.bind (ends_make (Ends.bind (ends_make ?_)))
  have hlt := Arena.index_lt_of_find? hl
  have hnext : (a.push ⟨.list items, none⟩).next.index = a.size + 1 := Arena.size_push ..
  generalize hw : (a.push ⟨.list items, none⟩).next = n at hnext
  have hfind (y : NodeId) :
      ((a.push ⟨.list items, none⟩).push ⟨.attr name true a.next, none⟩).find? y =
        if y = n then some ⟨.attr name true a.next, none⟩
        else if y = a.next then some ⟨.list items, none⟩ else a.find? y := by
    rw [Arena.find?_push, Arena.find?_push, hw]
  have apart {y : NodeId} {k : Nat} (hy : y.index < k) {z : NodeId} (hz : k ≤ z.index) : y ≠ z := by
    rintro rfl
    exact Nat.lt_irrefl _ (Nat.lt_of_lt_of_le hy hz)
  have hfresh : a.size ≤ n.index := hnext ▸ Nat.le_succ _
  have hne : a.next ≠ n := apart (k := a.size + 1) (Nat.lt_succ_self _) (Nat.le_of_eq hnext.symm)
  refine (ends_setGlue_eq ((hfind n).trans (if_pos rfl)) rfl rfl).step ?_ fun _ _ hf => hf
  rintro - b rfl
  have hb (y : NodeId) : (((a.push ⟨.list items, none⟩).push ⟨.attr name true a.next, none⟩).modify n
      fun m => { m with glue := some (Glue.attr name true) }).find? y =
        if y = n then some ⟨.attr name true a.next, some (Glue.attr name true)⟩
        else if y = a.next then some ⟨.list items, none⟩ else a.find? y := by
    rw [Arena.find?_modify, hfind]
    by_cases hy : y = n <;> simp [hy]
  generalize Arena.modify _ n _ = b at hb
  obtain ⟨hln, hlv⟩ : list ≠ n ∧ list ≠ a.next := ⟨apart hlt hfresh, apart hlt (Nat.le_refl a.size)⟩
  have hbl : b.find? list = some ⟨.list old, none⟩ := by rw [hb, if_neg hln, if_neg hlv, hl]
  have happend := Arena.appendItem_eq_ok hbl fun hn => apart (hold n hn) hfresh rfl
  refine Ends.bind (ends_change (fun c hc => ?_) fun e he => by cases happend.symm.trans he)
  obtain rfl := Except.ok.inj (happend.symm.trans hc)
  refine Ends.pure ⟨a.next, Nat.le_refl _, hfresh, hne, fun y => ?_⟩
  rw [Arena.find?_setItems hbl, hb]
  by_cases hy : y = list
  · subst hy
    rw [if_pos rfl, if_neg hln, if_neg hlv, if_pos rfl]
  · rw [if_neg hy, if_neg hy]

/-- A value is written into an attribute list. -/
theorem pens_writeAttribute (h : a.Sound) (hl : a.find? list = some ⟨.list old, none⟩)
    (hattr : ∀ x ∈ old, a.Is Role.attributes.admits x) {node : Option NodeId}
    (hnode : ∀ n, node = some n → n ∈ old) :
    Ends (writeAttribute list name value node) a
      (fun n b => a.Pens list node name value n b) fun _ _ => False := by
  refine (lays_makeSpans _ a).step (fun items b hb => ?_) fun _ _ hf => hf
  have hold (x) (hx : x ∈ old) : x.index < a.size :=
    h.closed list x (by rwa [Arena.kids_of_find? hl])
  cases node with
  | none =>
    refine (ends_addAttribute_eq (hb.exts.find?_of_find? hl) fun x hx =>
      Nat.lt_of_lt_of_le (hold x hx) hb.exts.size_le).mono (fun n c hc => ?_) fun _ _ hf => hf
    obtain ⟨v, hv, hn, hne, hc⟩ := hc
    have hlt {y : NodeId} (hy : y.index < b.size) : y ≠ n ∧ y ≠ v := by
      constructor <;> rintro rfl
      · exact Nat.lt_irrefl _ (Nat.lt_of_lt_of_le hy hn)
      · exact Nat.lt_irrefl _ (Nat.lt_of_lt_of_le hy hv)
    refine ⟨fun y m hy hm => ?_, name, v, _, (hc n).trans (if_pos rfl), ⟨items, ?_, ?_⟩,
      Nat.le_trans hb.exts.size_le hn, rfl⟩
    · obtain ⟨hyn, hyv⟩ := hlt (Arena.index_lt_of_find? (hb.exts.find?_of_find? hm))
      rw [hc, if_neg hyn, if_neg hyv, if_neg fun hl => hy (.inl hl), hb.exts.find?_of_find? hm]
    · rw [hc, if_neg hne, if_pos rfl]
    · rw [← hb.nodes]
      refine List.map_congr_left fun x hx => ?_
      obtain ⟨hle, hx⟩ := hb.range x hx
      rw [hc, if_neg (hlt hx).1, if_neg (hlt hx).2, if_neg]
      rintro rfl
      exact Nat.lt_irrefl _ (Nat.lt_of_lt_of_le (Arena.index_lt_of_find? hl) hle)
  | some n =>
    obtain ⟨⟨payload, g⟩, hn, hadmits⟩ := hattr n (hnode n rfl)
    cases payload with
    | attr written hasValue v =>
      obtain ⟨vs, hv⟩ := h.find?_slot hn (List.mem_singleton_self (v, Role.value))
      have hkid : v ∈ a.kids n := by simp [Arena.kids_of_find? hn, Payload.children]
      have hvn : v ≠ n := by
        rintro rfl
        cases hv.symm.trans hn
      refine Ends.bind ((ends_rewriteAttribute_eq (hb.exts.find?_of_find? hn)
        (hb.exts.find?_of_find? hv)).mono (fun _ c hc => Ends.pure ?_) fun _ _ hf => hf)
      refine ⟨fun y m hy hm => ?_, written, v, _, (hc n).trans (if_pos rfl), ⟨items, ?_, ?_⟩, rfl,
        hasValue, v, g, hn, rfl⟩
      · rw [hc, if_neg, if_neg, hb.exts.find?_of_find? hm]
        · rintro rfl
          exact hy (.inr (.single hkid))
        · rintro rfl
          exact hy (.inr .refl)
      · rw [hc, if_neg hvn, if_pos rfl]
      · rw [← hb.nodes]
        refine List.map_congr_left fun x hx => ?_
        have hle := (hb.range x hx).1
        rw [hc, if_neg, if_neg] <;> rintro rfl
        · exact Nat.lt_irrefl _ (Nat.lt_of_lt_of_le (Arena.index_lt_of_find? hv) hle)
        · exact Nat.lt_irrefl _ (Nat.lt_of_lt_of_le (Arena.index_lt_of_find? hn) hle)
    | _ => cases hadmits

end Surgery
end WikiPage
