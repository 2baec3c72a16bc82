import WikiPage.Page.Promotion
import WikiPage.Proofs.Mirror

/-!
# Written attributes

Attributes stand in lists that hold no children, so writing them leaves the elements in step with the
nodes. No link stands in an attribute, so it leaves the categories alone as well.
-/

namespace WikiPage

open Page (Synced)

theorem Reaches.le_index {kids : NodeId → List NodeId} {k : Nat} {x y : NodeId}
    (h : Reaches kids x y) (hk : ∀ x, k ≤ x.index → ∀ y ∈ kids x, k ≤ y.index)
    (hx : k ≤ x.index) : k ≤ y.index := by
  induction h with
  | refl => exact hx
  | tail _ hy ih => exact hk _ ih _ hy

namespace Arena

/-- A value has been written into an attribute list, in the place of an attribute if one is given. -/
structure Wrote (a : Arena) (list : NodeId) (node : Option NodeId) (name value : String) (n : NodeId)
    (b : Arena) : Prop where
  inscribes : ∃ written, b.Inscribes n written value ∧
    match node with
    | some o => o = n ∧ ∃ hasValue v g, a.find? o = some ⟨.attr written hasValue v, g⟩
    | none => written = name
  kids : b.kids list = if node = none then a.kids list ++ [n] else a.kids list
  /-- Nothing else has changed, unless it is a part of the attribute. -/
  others : ∀ {y : NodeId}, y.index < a.size → y ≠ list → node ≠ some y →
    (∀ o, node = some o → y ∉ a.kids o) → (b.find? y).map Node.payload = (a.find? y).map Node.payload

namespace Wrote

variable {a b : Arena} {list tag n : NodeId} {node : Option NodeId} {name value : String} {m : Node}

theorem find?_node (h : a.Wrote list node name value n b) {o : NodeId} (ho : node = some o) :
    ∃ written hasValue v g, a.find? o = some ⟨.attr written hasValue v, g⟩ := by
  obtain ⟨written, -, hn⟩ := h.inscribes
  subst ho
  exact ⟨written, hn.2⟩

theorem payload_eq (h : a.Wrote list node name value n b) (ha : a.Sound)
    (hm : a.find? tag = some m) (hs : (list, Role.attributes) ∈ m.payload.slots) {y : NodeId}
    {my : Node} (hy : a.find? y = some my) (hl : my.payload.isList = false) (hne : node ≠ some y) :
    (b.find? y).map Node.payload = (a.find? y).map Node.payload := by
  refine h.others (index_lt_of_find? hy) ?_ hne fun o ho hk => ?_
  · rintro rfl
    obtain ⟨items, hi⟩ := ha.find?_slot hm hs
    obtain rfl := Option.some.inj (hy.symm.trans hi)
    cases hl
  · obtain ⟨written, hasValue, v, g, hf⟩ := h.find?_node ho
    rw [kids_of_find? hf] at hk
    obtain rfl := List.mem_singleton.1 hk
    obtain ⟨items, hi⟩ := ha.find?_slot hf (List.mem_singleton_self (y, Role.value))
    obtain rfl := Option.some.inj (hy.symm.trans hi)
    cases hl

theorem payload_eq_of_slot (h : a.Wrote list node name value n b) (ha : a.Sound)
    (hm : a.find? tag = some m) (hs : (list, Role.attributes) ∈ m.payload.slots) {x l : NodeId}
    {mx : Node} {role : Role} (hx : a.find? x = some mx) (hr : (l, role) ∈ mx.payload.slots)
    (hxt : x ≠ tag) (hne : node ≠ some x) :
    (b.find? l).map Node.payload = (a.find? l).map Node.payload := by
  obtain ⟨items, hi⟩ := ha.find?_slot hx hr
  refine h.others (index_lt_of_find? hi) ?_ (fun hn => ?_) fun o ho hk => ?_
  · rintro rfl
    exact hxt (ha.role_unique hx hm hr hs).1
  · obtain ⟨written, hasValue, v, g, hf⟩ := h.find?_node hn
    cases hf.symm.trans hi
  · obtain ⟨written, hasValue, v, g, hf⟩ := h.find?_node ho
    rw [kids_of_find? hf] at hk
    obtain rfl := List.mem_singleton.1 hk
    exact hne (ho.trans (congrArg some (ha.role_unique hf hx (List.mem_singleton_self _) hr).1))

theorem inscribes_other (h : a.Wrote list node name value n b) (ha : a.Sound) (hb : b.Sound)
    (hm : a.find? tag = some m) (hs : (list, Role.attributes) ∈ m.payload.slots) {x : NodeId}
    {written s : String} (hne : node ≠ some x) (hx : a.Inscribes x written s) :
    b.Inscribes x written s := by
  obtain ⟨hasValue, v, g, hf, -⟩ := id hx
  have hxt : x ≠ tag := by
    rintro rfl
    obtain rfl := Option.some.inj (hf.symm.trans hm)
    cases List.mem_singleton.1 hs
  refine hx.of_payload ha hb fun hr => ?_
  rcases ha.cases_of_reaches_attr hf hr with rfl | rfl | ⟨-, my, hmy, hadm⟩
  · exact h.payload_eq ha hm hs hf rfl hne
  · exact h.payload_eq_of_slot ha hm hs hf (List.mem_singleton_self (_, Role.value)) hxt hne
  · refine h.payload_eq ha hm hs hmy ?_ fun hn => ?_
    · cases hp : my.payload <;> simp_all [Role.admits, Payload.isList]
    · obtain ⟨written, hasValue, v, g, hf⟩ := h.find?_node hn
      obtain rfl := Option.some.inj (hf.symm.trans hmy)
      cases hadm

end Wrote

variable {a b c : Arena} {list node value : NodeId} {items : List NodeId} {name s : String}

theorem wrote_of_setItems (h : a.Sound) (hb : a.Sprouts .value b items) (hs : b.Spells items s.toList)
    {written : String} {hasValue : Bool} {g : Option Glue}
    (hn : a.find? node = some ⟨.attr written hasValue value, g⟩)
    (hc : ((b.setItems value items).setPayload node (.attr written true value)).Reglued c)
    (hcs : c.Sound) (hl : node ∈ a.kids list) : a.Wrote list (some node) name s node c := by
  obtain ⟨old, hv, -⟩ := (h.fits hn).lists (value, .value) (List.mem_singleton_self _)
  have hnb := hb.exts.find?_of_find? hn
  have hvb := hb.exts.find?_of_find? hv
  have hne : value ≠ node := by
    rintro rfl
    cases hv.symm.trans hn
  have hlist : list ≠ value := by
    rintro rfl
    obtain ⟨items', hi, his⟩ := (h.fits hn).lists (list, .value) (List.mem_singleton_self _)
    obtain ⟨m, hm, ha⟩ := his node (by rwa [← show a.kids list = items' from kids_of_find? hi])
    obtain rfl := Option.some.inj (hn.symm.trans hm)
    cases ha
  have hpay (y : NodeId) : (c.find? y).map Node.payload =
      if y = node then some (.attr written true value) else
      if y = value then some (.list items) else (b.find? y).map Node.payload := by
    rw [hc.payload_eq, setPayload, find?_modify, find?_setItems hvb]
    by_cases hy : y = node
    · simp [hy, hne.symm, hnb]
    · by_cases hyv : y = value <;> simp [hy, hyv, hne]
  have hold {y : NodeId} (hy : y.index < a.size) (hyn : y ≠ node) (hyv : y ≠ value) :
      (c.find? y).map Node.payload = (a.find? y).map Node.payload := by
    rw [hpay, if_neg hyn, if_neg hyv, hb.exts.find?_eq y hy]
  obtain ⟨⟨q, g'⟩, hcn, hq⟩ := Option.map_eq_some_iff.1 ((hpay node).trans (if_pos rfl))
  obtain ⟨⟨q', g''⟩, hcv, hq'⟩ := Option.map_eq_some_iff.1
    ((hpay value).trans ((if_neg hne).trans (if_pos rfl)))
  obtain rfl : q = _ := hq
  obtain rfl : q' = _ := hq'
  refine ⟨⟨written, ⟨true, value, g', hcn, ?_⟩, rfl, hasValue, value, g, hn⟩, ?_,
    fun hy _ hyn hyk => hold hy (fun he => hyn (he ▸ rfl)) fun he => hyk node rfl ?_⟩
  · rw [if_pos rfl, hcs.text_list hcv, hs c hcs.founded fun x hx => ?_, String.ofList_toList]
    have hx := (hb.range x hx).1
    rw [hpay, if_neg, if_neg] <;> rintro rfl <;> refine Nat.lt_irrefl _ (Nat.lt_of_lt_of_le ?_ hx)
    · exact index_lt_of_find? hv
    · exact index_lt_of_find? hn
  · refine kids_eq_of_payload (hold ?_ ?_ hlist)
    · by_contra hlt
      rw [kids_eq_nil (Nat.le_of_not_lt hlt)] at hl
      cases hl
    · rintro rfl
      exact h.not_reaches hl .refl
  · rw [he, kids_of_find? hn]
    exact List.mem_singleton_self _

theorem wrote_of_append (hb : a.Sprouts .value b items) (hs : b.Spells items s.toList)
    (hc : ((b.push ⟨.list items, none⟩).push ⟨.attr name true b.next, none⟩).Reglued c)
    {old : List NodeId} (hl : c.find? list = some ⟨.list old, none⟩) (hlt : list.index < a.size)
    (hd : (c.setItems list (old ++ [(b.push ⟨.list items, none⟩).next])).Sound) :
    a.Wrote list none name s (b.push ⟨.list items, none⟩).next
      (c.setItems list (old ++ [(b.push ⟨.list items, none⟩).next])) := by
  have hext : b.Extends ((b.push ⟨.list items, none⟩).push ⟨.attr name true b.next, none⟩) :=
    (Extends.push b _).trans (.push _ _)
  have hpay {y : NodeId} (hy : y ≠ list) :
      ((c.setItems list (old ++ [(b.push ⟨.list items, none⟩).next])).find? y).map Node.payload =
        (((b.push ⟨.list items, none⟩).push ⟨.attr name true b.next, none⟩).find? y).map
          Node.payload := by
    rw [find?_setItems hl, if_neg hy, hc.payload_eq]
  have hne {y : NodeId} (hy : a.size ≤ y.index) : y ≠ list := by
    rintro rfl
    exact Nat.lt_irrefl _ (Nat.lt_of_lt_of_le hlt hy)
  have hvalue := (Extends.push (b.push ⟨.list items, none⟩) ⟨.attr name true b.next, none⟩).find?_of_find?
    (find?_push_next b ⟨.list items, none⟩)
  have hsize := hb.exts.size_le
  have hfresh : a.size ≤ (b.push ⟨.list items, none⟩).next.index :=
    Nat.le_trans hsize (Nat.le_of_lt (next_index_lt b _))
  obtain ⟨g, hn⟩ := exists_of_payload (find?_push_next _ _) (hpay (hne hfresh))
  obtain ⟨g', hv⟩ := exists_of_payload hvalue (hpay (hne (y := b.next) hsize))
  refine ⟨⟨name, ⟨true, b.next, g, hn, ?_⟩, rfl⟩, ?_, fun {y} hy hyl _ _ => ?_⟩
  · rw [if_pos rfl, hd.text_list hv, hs _ hd.founded fun x hx => ?_, String.ofList_toList]
    rw [hpay (hne (hb.range x hx).1), hext.find?_eq x (hb.range x hx).2]
  · have hkids : a.kids list = old := by
      rw [← hb.kids_eq, ← hext.kids_eq (Nat.lt_of_lt_of_le hlt hsize), ← hc.kids_eq, kids_of_find? hl]
      rfl
    rw [if_pos rfl, kids_setItems (index_lt_of_find? hl), if_pos rfl, hkids]
  · rw [hpay hyl, hext.find?_eq y (Nat.lt_of_lt_of_le hy hsize), hb.exts.find?_eq y hy]

end Arena

namespace Page.Synced

variable {p : Page} {role : Role} {items : List NodeId} {b : Arena}

theorem steady_sprouts (h : p.Synced) (hb : p.arena.Sprouts role b items) :
    p.Steady { p with arena := b } := by
  have hs : Synced { p with arena := b } := by
    refine h.of_arena (hb.sound h.sound) hb.exts.evolves (fun hc => ?_) (fun hp hn l => ?_)
      fun _ hk => hb.kids_eq ▸ hk
    · rw [hb.kids_eq]
      exact h.kept hc
    · rw [hb.kids_eq]
      exact h.loose hp hn l
  exact h.steady_of_kids hs hb.kids_eq fun hn => hb.exts.target?_eq (h.linked_lt hn)

theorem loose_of_fresh (h : p.Synced) {y : NodeId} (hy : p.arena.size ≤ y.index) :
    p.arena.Loose y :=
  fun x hx => Nat.lt_irrefl _ (Nat.lt_of_lt_of_le (h.sound.closed x y hx) hy)

theorem backing_ne_of_fresh (h : p.Synced) {y : NodeId} (hy : p.arena.size ≤ y.index)
    (x : ElementId) : p.backing? x ≠ some y :=
  fun hx => Nat.lt_irrefl _ (Nat.lt_of_lt_of_le (h.backing_lt hx) hy)

theorem apart_of_fresh (h : p.Synced) {a : Arena} {y : NodeId} (hy : p.arena.size ≤ y.index)
    (hk : ∀ x, p.arena.size ≤ x.index → ∀ z ∈ a.kids x, p.arena.size ≤ z.index) :
    Apart { p with arena := a } y :=
  fun _ hm hr => Nat.lt_irrefl _ (Nat.lt_of_lt_of_le (h.linked_lt hm) (hr.le_index hk hy))

theorem apart_of_kids (h : p.Synced) {a : Arena} {y : NodeId} (hy : p.arena.size ≤ y.index)
    (hk : a.kids = p.arena.kids) : Apart { p with arena := a } y := by
  refine h.apart_of_fresh hy fun x hx z hz => ?_
  rw [hk, Arena.kids_eq_nil hx] at hz
  cases hz

end Page.Synced

namespace Surgery

variable {p : Page} {a : Arena}

theorem steady_setItems_value (h : p.Synced) {items : List NodeId} {node value : NodeId} {m : Node}
    (hb : p.arena.Sprouts .value a items) (hm : p.arena.find? node = some m)
    (hs : (value, Role.value) ∈ m.payload.slots) :
    p.Steady { p with arena := a.setItems value items } := by
  have hst := h.steady_sprouts hb
  have ha := hst.synced
  have hma := hb.exts.find?_of_find? hm
  obtain ⟨old, hv, hold⟩ := (ha.sound.fits hma).lists _ hs
  have hlt : value.index < p.arena.size := by
    obtain ⟨_, hv⟩ := h.sound.find?_slot hm hs
    exact Arena.index_lt_of_find? hv
  refine hst.trans (ha.steady_setItems hv ?_ (fun hn hy hr => ?_) fun y hy =>
    .inr (.inr (h.apart_of_kids (hb.range y hy).1 hb.kids_eq)))
  · refine ha.setItems hv hb.nodup (fun y hy x _ => ?_) (fun y hy hr => ?_)
      (fun y hy => (hb.range y hy).2) (fun {id n role} hn hr x hx => ?_) (fun x hx => ?_)
      (fun {x y} _ hy hyi => ?_) fun {x n} hn hno => ?_
    · change y ∉ a.kids x
      rw [hb.kids_eq]
      exact h.loose_of_fresh (hb.range y hy).1 x
    · change Reaches a.kids y value at hr
      rw [hb.kids_eq] at hr
      have hle := hr.le_index (k := p.arena.size) (fun x hx z hz => by
        rw [Arena.kids_eq_nil hx] at hz
        cases hz) (hb.range y hy).1
      exact Nat.lt_irrefl _ (Nat.lt_of_lt_of_le hlt hle)
    · obtain ⟨-, rfl⟩ := ha.sound.role_unique hma hn hs hr
      exact hb.is x hx
    · cases ha.role_of_container hx hma hs
    · exact h.backing_ne_of_fresh (hb.range y hyi).1 x hy
    · have hk : n ∈ a.kids value := by rwa [Arena.kids_of_find? hv]
      obtain ⟨k, tag, m', -, hm', hs'⟩ :=
        Page.exists_of_attributeList? (ha.attributeList?_of_written hn hk)
      cases (ha.sound.role_unique hma hm' hs hs').2
  · exact absurd (.inr (.inr (hold _ hy))) (ha.not_isAttributePart hn hr)

theorem ends_rewriteAttribute (h : p.Synced) {items : List NodeId} {node value : NodeId}
    {name written s : String} {hasValue : Bool} {g : Option Glue}
    (hb : p.arena.Sprouts .value a items) (hsp : a.Spells items s.toList)
    (hn : p.arena.find? node = some ⟨.attr written hasValue value, g⟩) :
    Ends (rewriteAttribute node name items) a
      (fun _ b => p.Steady { p with arena := b } ∧ p.arena.Evolves b ∧
        ∀ l, node ∈ p.arena.kids l → p.arena.Wrote l (some node) name s node b) fun _ _ => False := by
  have hst := h.steady_sprouts hb
  have hg := hb.exts.find?_of_find? hn
  refine Ends.bind (ends_look (fun payload hp => ?_) fun e he => ?_)
  swap
  · simp [Arena.payload_of_find? hg] at he
  obtain rfl := Except.ok.inj ((Arena.payload_of_find? hg).symm.trans hp)
  refine Ends.bind (ends_look (fun glue hglue => ?_) fun e he => ?_)
  swap
  · simp [Arena.glue_of_find? hg] at he
  obtain rfl := Except.ok.inj ((Arena.glue_of_find? hg).symm.trans hglue)
  obtain ⟨old, hv⟩ : ∃ old, a.find? value = some ⟨.list old, none⟩ :=
    hst.synced.sound.find?_slot hg (s := (value, .value)) (List.mem_singleton_self _)
  refine Ends.bind (ends_look (fun _ _ => ?_) fun e he => ?_)
  swap
  · simp [Arena.items_of_find? hv] at he
  have hs := steady_setItems_value h hb hn (List.mem_singleton_self _)
  refine Ends.bind (ends_setItems ?_)
  have hne : node ≠ value := by
    rintro rfl
    cases hv.symm.trans hg
  have hg' : (a.setItems value items).find? node = some ⟨.attr written hasValue value, g⟩ := by
    rw [Arena.find?_setItems hv, if_neg hne, hg]
  have htidied : (a.setItems value items).Tidied
      ((a.setItems value items).setPayload node (.attr written true value)) := by
    refine .setPayload hg' rfl ?_
    simp [Arena.target?, Arena.setPayload, hg']
  have hset := hs.tidied htidied
  have hev := (hb.exts.evolves.trans (Arena.evolves_setItems hv items)).trans htidied.toAlike.evolves
  refine Ends.bind (ends_setPayload ?_)
  have hfind : ((a.setItems value items).setPayload node (.attr written true value)).find? node =
      some ⟨.attr written true value, g⟩ := by
    rw [Arena.setPayload, Arena.find?_modify, if_pos rfl, hg']
    rfl
  split
  · refine (ends_setGlue_of_fits hfind rfl rfl).mono (fun _ b hb' => ?_) fun _ _ hf => hf
    have hb := hset.tidied hb'.toTidied
    exact ⟨hb, hev.trans hb'.evolves, fun l => Arena.wrote_of_setItems h.sound ‹_› hsp hn hb' hb.synced.sound⟩
  · exact Ends.pure ⟨hset, hev, fun l =>
      Arena.wrote_of_setItems h.sound hb hsp hn (.refl _) hset.synced.sound⟩

theorem steady_pushValue (h : p.Synced) {items : List NodeId} (hb : p.arena.Sprouts .value a items) :
    p.Steady { p with arena := a.push ⟨.list items, none⟩ } := by
  have hst := h.steady_sprouts hb
  have hia (x) (hx : x ∈ items) : p.arena.size ≤ x.index := (hb.range x hx).1
  refine hst.trans (hst.synced.steady_push ⟨by simp [Payload.slots], Node.glueFits_none⟩ hb.nodup
    (fun y hy => (hb.range y hy).2) (fun y hy x => ?_) (fun y hy x => ?_)
    fun y hy => h.apart_of_kids (hia y hy) hb.kids_eq)
  · rw [hb.kids_eq]
    exact h.loose_of_fresh (hia y hy) x
  · exact h.backing_ne_of_fresh (hia y hy) x

theorem kids_pushAttribute {items : List NodeId} (hb : p.arena.Sprouts .value a items) (name : String)
    (x : NodeId) : ((a.push ⟨.list items, none⟩).push ⟨.attr name true a.next, none⟩).kids x =
      if x = (a.push ⟨.list items, none⟩).next then [a.next] else
        if x = a.next then items else p.arena.kids x := by
  rw [Arena.kids_push, Arena.kids_push, hb.kids_eq]
  rfl

theorem steady_pushAttribute (h : p.Synced) {items : List NodeId} (hb : p.arena.Sprouts .value a items)
    (name : String) :
    p.Steady { p with arena := (a.push ⟨.list items, none⟩).push ⟨.attr name true a.next, none⟩ } := by
  have hv := steady_pushValue h hb
  have hsize := hb.exts.size_le
  have hvk (x : NodeId) : (a.push ⟨.list items, none⟩).kids x =
      if x = a.next then items else p.arena.kids x := by
    rw [Arena.kids_push, hb.kids_eq]
    rfl
  refine hv.trans (hv.synced.steady_push ⟨fun s hs => ?_, Node.glueFits_none⟩
    (List.nodup_singleton _) (fun y hy => ?_) (fun y hy x hx => ?_) (fun y hy x => ?_) fun y hy => ?_)
  · obtain rfl := List.mem_singleton.1 hs
    exact .push_next hb.is
  all_goals obtain rfl := List.mem_singleton.1 hy
  · exact Arena.next_index_lt a _
  · change a.next ∈ (a.push ⟨.list items, none⟩).kids x at hx
    rw [hvk] at hx
    split at hx
    · exact Nat.lt_irrefl _ (hb.range _ hx).2
    · exact h.loose_of_fresh (y := a.next) hsize x hx
  · exact h.backing_ne_of_fresh (y := a.next) hsize x
  · refine h.apart_of_fresh (y := a.next) hsize fun x hx z hz => ?_
    rw [hvk] at hz
    split at hz
    · exact (hb.range z hz).1
    · rw [Arena.kids_eq_nil hx] at hz
      cases hz

theorem loose_pushAttribute (h : p.Synced) {items : List NodeId} (hb : p.arena.Sprouts .value a items)
    (name : String) : ((a.push ⟨.list items, none⟩).push ⟨.attr name true a.next, none⟩).Loose
      (a.push ⟨.list items, none⟩).next := by
  have hlt := Arena.next_index_lt a ⟨.list items, none⟩
  intro x hx
  rw [kids_pushAttribute hb] at hx
  split at hx
  · exact Nat.lt_irrefl _ (congrArg NodeId.index (List.mem_singleton.1 hx) ▸ hlt)
  · split at hx
    · exact Nat.lt_irrefl _ (Nat.lt_trans (hb.range _ hx).2 hlt)
    · exact h.loose_of_fresh (Nat.le_trans hb.exts.size_le (Nat.le_of_lt hlt)) x hx

/-- Nothing old stands below the nodes of a new attribute. -/
theorem le_index_of_mem_kids_pushAttribute {items : List NodeId} (hb : p.arena.Sprouts .value a items)
    {name : String} {x y : NodeId} (hx : p.arena.size ≤ x.index)
    (hy : y ∈ ((a.push ⟨.list items, none⟩).push ⟨.attr name true a.next, none⟩).kids x) :
    p.arena.size ≤ y.index := by
  rw [kids_pushAttribute hb] at hy
  split at hy
  · exact List.mem_singleton.1 hy ▸ hb.exts.size_le
  · split at hy
    · exact (hb.range y hy).1
    · rw [Arena.kids_eq_nil hx] at hy
      cases hy

theorem ends_addAttribute (h : p.Synced) {items : List NodeId} {list tag : NodeId}
    {name s : String} {m : Node} (hb : p.arena.Sprouts .value a items)
    (hsp : a.Spells items s.toList) (hm : p.arena.find? tag = some m)
    (hs : (list, Role.attributes) ∈ m.payload.slots) :
    Ends (addAttribute list name items) a
      (fun node b => p.Steady { p with arena := b } ∧ p.arena.Evolves b ∧
        p.arena.size ≤ node.index ∧ p.arena.Wrote list none name s node b) fun _ _ => False := by
  have hfresh : p.arena.size ≤ (a.push ⟨.list items, none⟩).next.index :=
    Nat.le_trans hb.exts.size_le (Nat.le_of_lt (Arena.next_index_lt a ⟨.list items, none⟩))
  have hext : p.arena.Extends ((a.push ⟨.list items, none⟩).push ⟨.attr name true a.next, none⟩) :=
    (hb.exts.trans (.push _ _)).trans (.push _ _)
  refine Ends.bind (ends_make (Ends.bind (ends_make ?_)))
  refine (ends_setGlue_of_fits (Arena.find?_push_next _ _) rfl rfl).step (fun _ c hc => ?_)
    fun _ _ hf => hf
  have hcst := (steady_pushAttribute h hb name).tidied hc.toTidied
  have hcs := hcst.synced
  -- the attribute is put at the end of the list
  obtain ⟨old, hlist⟩ := h.sound.find?_slot hm hs
  have hlt := Arena.index_lt_of_find? hlist
  have hev := hext.evolves.trans hc.evolves
  obtain ⟨g, hg⟩ := hev.find?_list hlist
  have hcl := hcs.sound.find?_of_list hg
  have hloose : c.Loose (a.push ⟨.list items, none⟩).next := fun x hx =>
    loose_pushAttribute h hb name x (hc.kids_eq ▸ hx)
  have hcfresh (x : NodeId) (hx : p.arena.size ≤ x.index) (y : NodeId) (hy : y ∈ c.kids x) :
      p.arena.size ≤ y.index := le_index_of_mem_kids_pushAttribute hb hx (hc.kids_eq ▸ hy)
  have happend := Arena.appendItem_eq_ok hcl (Arena.kids_of_find? hcl ▸ hloose list)
  refine Ends.bind (ends_change (fun d hd => ?_) fun e he => ?_)
  swap
  · cases happend.symm.trans he
  obtain rfl := Except.ok.inj (happend.symm.trans hd)
  have hd := hcs.steady_append_other hcl ?_ hloose
    (h.backing_ne_of_fresh hfresh) (fun hr => ?_) (fun {id m' role} hm' hr => ?_)
    (h.apart_of_fresh hfresh hcfresh)
  · exact Ends.pure ⟨hcst.trans hd, hev.trans (Arena.evolves_setItems hcl _), hfresh,
      Arena.wrote_of_append hb hsp hc hcl hlt hd.synced.sound⟩
  · change _ < c.size
    rw [hc.size_eq]
    exact Arena.next_index_lt _ _
  · have hle := hr.le_index (k := p.arena.size) hcfresh hfresh
    exact Nat.lt_irrefl _ (Nat.lt_of_lt_of_le hlt hle)
  · obtain ⟨m₂, hm₂, hs₂⟩ := hc.find?_slots (hext.find?_of_find? hm)
    obtain ⟨-, rfl⟩ := hcs.sound.role_unique hm₂ hm' (hs₂ ▸ hs) hr
    exact hc.is (.push_next rfl)

/-- A value can be written into the list of a tag, in a node that stands there or in a new one. -/
theorem ends_writeAttribute (h : p.Synced) {list tag : NodeId} {name value : String}
    {node : Option NodeId} {m : Node} (hm : p.arena.find? tag = some m)
    (hs : (list, Role.attributes) ∈ m.payload.slots)
    (hnode : ∀ n, node = some n → n ∈ p.arena.kids list) :
    Ends (writeAttribute list name value node) p.arena
      (fun n b => p.Steady { p with arena := b } ∧ p.arena.Evolves b ∧
        p.arena.Wrote list node name value n b ∧
        (node = some n ∨ node = none ∧ p.arena.size ≤ n.index)) fun _ _ => False := by
  refine (ends_encodeValue value p.arena).step (fun items a hb => ?_) fun _ _ hf => hf.elim
  cases node with
  | none =>
    refine (ends_addAttribute h hb.1 hb.2 hm hs).mono (fun n b hn => ?_) fun _ _ hf => hf
    exact ⟨hn.1, hn.2.1, hn.2.2.2, .inr ⟨rfl, hn.2.2.1⟩⟩
  | some n =>
    have hn := hnode n rfl
    obtain ⟨old, hi, his⟩ := (h.sound.fits hm).lists _ hs
    have hki : p.arena.kids list = old := Arena.kids_of_find? hi
    obtain ⟨⟨q, g⟩, hq, ha⟩ := his n (hki ▸ hn)
    cases q with
    | attr written hasValue v =>
      refine (ends_rewriteAttribute h hb.1 hb.2 hq).step (fun _ b hb' => Ends.pure ?_) fun _ _ hf => hf
      exact ⟨hb'.1, hb'.2.1, hb'.2.2 list hn, .inl rfl⟩
    | _ => cases ha

end Surgery

namespace Page

/-- An edit about elements has failed. Nothing has changed, and if the failure is a fault the page lacks
one of the elements. -/
def Refuses (p : Page) (ids : List ElementId) (e : PageError) (q : Page) : Prop :=
  q = p ∧ (e.isFatal = true → ∃ x ∈ ids, p.find? x = none)

theorem Refuses.of_not_isFatal {p : Page} {ids : List ElementId} {e : PageError}
    (he : e.isFatal = false) : p.Refuses ids e p :=
  ⟨rfl, fun hf => by simp [he] at hf⟩

theorem Refuses.mono {p q : Page} {ids ids' : List ElementId} {e : PageError}
    (h : p.Refuses ids e q) (hs : ids ⊆ ids') : p.Refuses ids' e q :=
  ⟨h.1, fun hf => (h.2 hf).imp fun _ hx => ⟨hs hx.1, hx.2⟩⟩

end Page

namespace Edit

variable {α : Type} {p : Page} {id : ElementId}

/-- An edit about elements that leaves the categories alone. It fails for a fault only where the page
lacks one of the elements. -/
abbrev IsCalm (m : Edit α) (p : Page) (ids : List ElementId) : Prop :=
  Ends m p (fun _ q => p.Calm q) (p.Refuses ids)

theorem ends_ask_refuses {f : Page → Except PageError α} {ids : List ElementId}
    {Q : α → Page → Prop} (hQ : ∀ x, f p = .ok x → Q x p)
    (hE : (∀ x ∈ ids, ∃ e, p.find? x = some e) → NeverFaults (f p)) :
    Ends (ask f) p Q (p.Refuses ids) := by
  refine ends_ask hQ fun e he => ⟨rfl, fun hf => ?_⟩
  by_contra hn
  push Not at hn
  have hk := hE (fun x hx => Option.ne_none_iff_exists'.1 (hn x hx)) e he
  simp [hf] at hk

theorem synced_setAttributes (h : p.Synced) {f : Element → List Attribute}
    (hf : ∀ e, p.find? id = some e → p.Written id ((f e).filterMap Attribute.node)) :
    (p.update id fun e => { e with attributes := f e }).Synced := by
  refine h.of_sameShape ⟨rfl, Page.form?_update fun _ => ⟨rfl, rfl⟩, Page.childrenOf_update fun _ => rfl,
    Page.parentOf_update fun _ => rfl, fun x => ?_, fun n hn => .inl ?_, fun _ _ hk => .inl hk⟩
  · cases he : p.find? x with
    | none =>
      refine .inl ?_
      rw [Page.writtenOf, Page.writtenOf, Page.find?_update, he]
      split <;> rfl
    | some e =>
      by_cases hx : x = id
      · subst x
        refine .inr ?_
        rw [Page.writtenOf, Page.find?_update, if_pos rfl, he]
        exact hf e he
      · refine .inl ?_
        rw [Page.writtenOf, Page.writtenOf, Page.find?_update, if_neg hx]
  · exact Page.linked_of_update (f := fun e => { e with attributes := f e }) (fun _ _ hl => hl) hn

theorem steady_setAttributes (h : p.Synced) (hid : ¬p.IsCategory id) {f : Element → List Attribute}
    (hf : ∀ e, p.find? id = some e → p.Written id ((f e).filterMap Attribute.node)) :
    p.Steady (p.update id fun e => { e with attributes := f e }) := by
  refine h.steady_update (synced_setAttributes h hf) (fun e he =>
    ⟨rfl, rfl, fun hk => absurd ?_ hid, rfl⟩) fun _ => rfl
  exact ⟨e.backing, by rw [Page.form?_of_find? he, hk]⟩

theorem not_isCategory (h : p.Synced) {k : Kind} {b : Backing}
    (hx : p.form? id = some (k, some b)) : ¬p.IsCategory id := by
  rintro ⟨o, ho⟩
  obtain ⟨rfl, rfl⟩ := Prod.mk.inj (Option.some.inj (hx.symm.trans ho))
  cases (Page.backing?_of_form? hx).symm.trans (h.category_backing hx)

end Edit

theorem toLower_toLower (s : String) : s.toLower.toLower = s.toLower := by
  have hc (c : Char) : c.toLower.toLower = c.toLower := by
    unfold Char.toLower
    grind
  change (s.map Char.toLower).map Char.toLower = s.map Char.toLower
  simp [Function.comp_def, hc]

theorem toLower_target : "target".toLower = "target" := by decide +kernel

namespace Policy

variable {kind : Kind} {name : String} {policy : Policy}

theorem mem_of_find? (h : find? kind name = some policy) :
    policy ∈ specific kind ∨ kind.tag? ≠ none ∧ policy ∈ generic :: universal := by
  unfold find? at h
  split at h
  · rename_i q hq
    exact .inl (Option.some.inj h ▸ List.mem_of_find?_eq_some hq)
  · split at h
    · refine .inr ⟨Option.isSome_iff_ne_none.1 ‹_›, ?_⟩
      rw [← Option.some.inj h]
      cases hf : universal.find? (·.name == name.toLower) with
      | none => exact List.mem_cons_self ..
      | some q => exact List.mem_cons_of_mem _ (List.mem_of_find?_eq_some hf)
    · cases h

@[simp] theorem find?_toLower : find? kind name.toLower = find? kind name := by
  simp only [find?, toLower_toLower]

theorem exists_of_tag? (h : kind.tag?.isSome = true) (name : String) :
    ∃ policy, find? kind name = some policy := by
  rw [find?]
  split
  · exact ⟨_, rfl⟩
  · exact ⟨_, if_pos h⟩

end Policy

namespace Attribute

variable {l : List Attribute} {a : Attribute}

theorem mem_put {b : Attribute} (h : b ∈ put l a) : b ∈ l ∨ b = a := by
  induction l with
  | nil => exact .inr (List.mem_singleton.1 h)
  | cons c cs ih =>
    rw [put] at h
    split at h <;> grind

theorem name_of_find? {s : String} (h : find? l s = some a) : a.name = s := by
  simpa using List.find?_some h

theorem mem_put_of_nodup (hl : (l.map name).Nodup) {b : Attribute} (h : b ∈ put l a) :
    b = a ∨ b ∈ l ∧ b.name ≠ a.name := by
  induction l with
  | nil => exact .inl (List.mem_singleton.1 h)
  | cons c cs ih =>
    rw [List.map_cons, List.nodup_cons] at hl
    rw [put] at h
    split at h
    · rcases List.mem_cons.1 h with rfl | hb
      · exact .inl rfl
      · refine .inr ⟨List.mem_cons_of_mem c hb, fun hn => hl.1 ?_⟩
        rw [‹c.name = a.name›, ← hn]
        exact List.mem_map_of_mem hb
    · rcases List.mem_cons.1 h with rfl | hb
      · exact .inr ⟨List.mem_cons_self .., ‹_›⟩
      · exact (ih hl.2 hb).imp_right fun hb => ⟨List.mem_cons_of_mem c hb.1, hb.2⟩

theorem mem_names_put {s : String} (h : s ∈ (put l a).map name) : s ∈ l.map name ∨ s = a.name := by
  obtain ⟨b, hb, rfl⟩ := List.mem_map.1 h
  exact (mem_put hb).imp List.mem_map_of_mem (congrArg name)

theorem nodup_names_put (hl : (l.map name).Nodup) : ((put l a).map name).Nodup := by
  induction l with
  | nil => exact List.nodup_singleton _
  | cons c cs ih =>
    rw [List.map_cons, List.nodup_cons] at hl
    rw [put]
    split
    · rename_i hc
      rw [List.map_cons, List.nodup_cons, ← hc]
      exact hl
    · rw [List.map_cons, List.nodup_cons]
      exact ⟨fun hm => (mem_names_put hm).elim hl.1 ‹_›, ih hl.2⟩

/-- No node is given up but that of the attribute of the same name. -/
theorem mem_put_nodes {n : NodeId} (h : n ∈ l.filterMap node) :
    n ∈ (put l a).filterMap node ∨ (find? l a.name).bind node = some n := by
  induction l with
  | nil => cases h
  | cons c cs ih =>
    obtain ⟨b, hb, hn⟩ := List.mem_filterMap.1 h
    rw [put]
    split
    · rcases List.mem_cons.1 hb with rfl | hb
      · exact .inr (by simp [find?, *])
      · exact .inl (List.mem_filterMap.2 ⟨b, List.mem_cons_of_mem a hb, hn⟩)
    · rcases List.mem_cons.1 hb with rfl | hb
      · exact .inl (List.mem_filterMap.2 ⟨b, List.mem_cons_self .., hn⟩)
      · refine (ih (List.mem_filterMap.2 ⟨b, hb, hn⟩)).imp (fun hm => ?_) fun hf => ?_
        · exact ((List.sublist_cons_self c _).filterMap node).subset hm
        · simpa [find?, *] using hf

theorem mem_nodes_put {n : NodeId} (h : n ∈ (put l a).filterMap node) :
    n ∈ l.filterMap node ∨ a.node = some n := by
  obtain ⟨b, hb, hn⟩ := List.mem_filterMap.1 h
  rcases mem_put hb with hb | rfl
  · exact .inl (List.mem_filterMap.2 ⟨b, hb, hn⟩)
  · exact .inr hn

theorem self_mem_put (l : List Attribute) (a : Attribute) : a ∈ put l a := by
  induction l with
  | nil => exact List.mem_singleton_self a
  | cons c cs ih =>
    rw [put]
    split
    · exact List.mem_cons_self ..
    · exact List.mem_cons_of_mem c ih

theorem mem_nodes_of_find? {name : String} {n : NodeId} (h : (find? l name).bind node = some n) :
    n ∈ l.filterMap node := by
  obtain ⟨b, hb, hn⟩ := Option.bind_eq_some_iff.1 h
  exact List.mem_filterMap.2 ⟨b, List.mem_of_find?_eq_some hb, hn⟩

theorem nodup_nodes_put (hl : (l.filterMap node).Nodup)
    (ha : ∀ n, a.node = some n → (find? l a.name).bind node = some n ∨ n ∉ l.filterMap node) :
    ((put l a).filterMap node).Nodup := by
  induction l with
  | nil => cases h : a.node <;> simp [put, h]
  | cons b bs ih =>
    have hbs : (bs.filterMap node).Nodup :=
      ((List.sublist_cons_self b bs).filterMap node).nodup hl
    rw [put]
    split
    · rename_i hname
      cases hn : a.node with
      | none => rwa [List.filterMap_cons_none hn]
      | some n =>
        rw [List.filterMap_cons_some hn]
        refine List.nodup_cons.2 ⟨fun hmem => ?_, hbs⟩
        rcases ha n hn with hf | hf
        · have hb : b.node = some n := by simpa [find?, hname] using hf
          rw [List.filterMap_cons_some hb] at hl
          exact (List.nodup_cons.1 hl).1 hmem
        · exact hf (((List.sublist_cons_self b bs).filterMap node).subset hmem)
    · rename_i hname
      have ha' (n : NodeId) (hn : a.node = some n) :
          (find? bs a.name).bind node = some n ∨ n ∉ bs.filterMap node := by
        refine (ha n hn).imp (fun hf => ?_) fun hf hm => hf ?_
        · simpa [find?, hname] using hf
        · exact ((List.sublist_cons_self b bs).filterMap node).subset hm
      cases hb : b.node with
      | none =>
        rw [List.filterMap_cons_none hb]
        exact ih hbs ha'
      | some n =>
        rw [List.filterMap_cons_some hb] at hl ⊢
        refine List.nodup_cons.2 ⟨fun hmem => ?_, ih hbs ha'⟩
        -- the node stands behind this attribute only
        rcases mem_nodes_put hmem with hm | hm
        · exact (List.nodup_cons.1 hl).1 hm
        · rcases ha n hm with hf | hf
          · have hfind : (find? bs a.name).bind node = some n := by simpa [find?, hname] using hf
            exact (List.nodup_cons.1 hl).1 (mem_nodes_of_find? hfind)
          · exact hf (by rw [List.filterMap_cons_some hb]; exact List.mem_cons_self ..)

end Attribute

namespace Page

/-- A node stands in the tag of an element as an attribute: in the place given, or as a new one. -/
structure Inscribed (p : Page) (id : ElementId) (node : Option NodeId) (name value : String)
    (n : NodeId) (q : Page) : Prop where
  steady : p.Steady q
  elements : q.elements = p.elements
  evolves : p.arena.Evolves q.arena
  wrote : ∃ c, p.attributeList? id = some c ∧ p.arena.Wrote c node name value n q.arena
  mem : ∃ c, q.attributeList? id = some c ∧ n ∈ q.arena.kids c
  place : node = some n ∨ node = none ∧ n ∉ q.writtenOf id

variable {p q : Page} {id : ElementId} {n : NodeId}

theorem written_put (h : p.Synced) {e : Element} (he : p.find? id = some e) {a : Attribute}
    (hn : ∀ n, a.node = some n → (∃ c, p.attributeList? id = some c ∧ n ∈ p.arena.kids c) ∧
      ((Attribute.find? e.attributes a.name).bind Attribute.node = some n ∨ n ∉ p.writtenOf id)) :
    p.Written id ((Attribute.put e.attributes a).filterMap Attribute.node) := by
  have hw := h.written id
  rw [writtenOf_of_find? he] at hw hn
  refine ⟨Attribute.nodup_nodes_put hw.1 fun n hna => (hn n hna).2, fun n hmem => ?_⟩
  exact (Attribute.mem_nodes_put hmem).elim (hw.2 n) fun hna => (hn n hna).1

theorem Inscribed.written_put {node : Option NodeId} {name key value : String}
    (hq : p.Inscribed id node name value n q) {e : Element} (he : q.find? id = some e)
    (hnode : ∀ m, node = some m → (Attribute.find? e.attributes key).bind Attribute.node = some m) :
    q.Written id ((Attribute.put e.attributes ⟨key, value, some n⟩).filterMap Attribute.node) := by
  refine Page.written_put hq.steady.synced he fun m hm => ?_
  obtain rfl := Option.some.inj hm
  exact ⟨hq.mem, hq.place.imp (hnode n) And.right⟩

variable {node : Option NodeId} {key value : String} {e : Element} {whole : Prop}

section

variable {list tag : NodeId} {m : Node}

theorem records_put (h : p.Synced) (hw : p.arena.Wrote list node key value n q.arena)
    (hq : q.arena.Sound) (htag : p.arena.find? tag = some m)
    (hslot : (list, Role.attributes) ∈ m.payload.slots) (he : p.find? id = some e)
    (hb : e.backing = some (.tag tag))
    (hnode : (Attribute.find? e.attributes key).bind Attribute.node = node)
    (hkey : key.toLower = key) {policy : Policy} (hpolicy : Policy.find? e.kind key = some policy)
    (hvalue : policy.normalization.apply value = value)
    (hm : p.arena.Mirrors whole e.kind e.backing e.attributes) (hk : e.kind.tag? ≠ none)
    {t : Attribute} (ht : t ∈ Attribute.put e.attributes ⟨key, value, some n⟩) :
    ∃ m, t.node = some m ∧ q.arena.Records e.kind t m := by
  rcases Attribute.mem_put_of_nodup hm.nodup ht with rfl | ⟨ht, hne⟩
  · obtain ⟨written, hins, hplace⟩ := hw.inscribes
    refine ⟨n, rfl, written, value, policy, hins, ?_, hpolicy, hvalue⟩
    cases node with
    | none => rw [hplace, hkey]
    | some o =>
      -- the attribute was recorded before and keeps its spelling
      obtain ⟨rfl, hasValue, v, g, ho⟩ := hplace
      obtain ⟨t, ht, hto⟩ := Option.bind_eq_some_iff.1 hnode
      obtain ⟨m, hm', w, s, -, ⟨hasValue', v', g', hw', -⟩, hl, -⟩ :=
        hm.written hk hb t (List.mem_of_find?_eq_some ht)
      obtain rfl := Option.some.inj (hto.symm.trans hm')
      obtain ⟨rfl, -⟩ := Payload.attr.inj (Node.mk.inj (Option.some.inj (ho.symm.trans hw'))).1
      exact hl.trans (Attribute.name_of_find? ht)
  · obtain ⟨m, htm, w, s, policy, hs, hr⟩ := hm.written hk hb t ht
    refine ⟨m, htm, w, s, policy, hw.inscribes_other h.sound hq htag hslot (fun hnm => hne ?_) hs, hr⟩
    obtain ⟨u, hu, hum⟩ := Option.bind_eq_some_iff.1 (hnode.trans hnm)
    have hut := eq_of_nodup_filterMap (writtenOf_of_find? he ▸ (h.written id).1)
      (List.mem_of_find?_eq_some hu) ht hum htm
    exact hut ▸ Attribute.name_of_find? hu

theorem kids_subset_put {a b : Arena} (hw : a.Wrote list node key value n b)
    (hnode : (Attribute.find? e.attributes key).bind Attribute.node = node)
    (hs : a.kids list ⊆ e.attributes.filterMap Attribute.node) :
    b.kids list ⊆ (Attribute.put e.attributes ⟨key, value, some n⟩).filterMap Attribute.node := by
  have hput {m : NodeId} (hmk : m ∈ a.kids list) (hnm : node ≠ some m) :
      m ∈ (Attribute.put e.attributes ⟨key, value, some n⟩).filterMap Attribute.node :=
    (Attribute.mem_put_nodes (hs hmk)).resolve_right fun hf => hnm (hnode.symm.trans hf)
  have hnew : n ∈ (Attribute.put e.attributes ⟨key, value, some n⟩).filterMap Attribute.node :=
    List.mem_filterMap.2 ⟨_, Attribute.self_mem_put _ _, rfl⟩
  intro m hmk
  rw [hw.kids] at hmk
  cases node with
  | none =>
    rw [if_pos rfl] at hmk
    rcases List.mem_append.1 hmk with hmk | hmk
    · exact hput hmk nofun
    · exact List.mem_singleton.1 hmk ▸ hnew
  | some o =>
    obtain ⟨-, -, rfl, -⟩ := hw.inscribes
    by_cases hmo : m = o
    · exact hmo ▸ hnew
    · exact hput hmk fun ho => hmo (Option.some.inj ho).symm

/-- Writing for one element leaves the others as they were. -/
theorem mirrors_of_wrote (h : p.Synced) (hw : p.arena.Wrote list node key value n q.arena)
    (hq : q.arena.Sound) (hev : p.arena.Evolves q.arena) (htag : p.arena.find? tag = some m)
    (hslot : (list, Role.attributes) ∈ m.payload.slots) (hback : p.backing? id = some tag)
    (hnode : ∀ o, node = some o → o ∈ p.writtenOf id) {x : ElementId} {ex : Element}
    (hx : p.find? x = some ex) (hne : x ≠ id)
    (hm : p.arena.Mirrors whole ex.kind ex.backing ex.attributes) :
    q.arena.Mirrors whole ex.kind ex.backing ex.attributes := by
  have hf := form?_of_find? hx
  refine hm.transport (fun hn hs => ?_) (fun {l} hl => ?_) fun {y} hk hb => ?_
  · refine hw.inscribes_other h.sound hq htag hslot (fun hnm => hne ?_) hs
    exact h.written_inj (writtenOf_of_find? hx ▸ hn) (hnode _ hnm)
  · rw [hev.attributeList?_eq (h.writes hf)] at hl
    refine ⟨hl, Arena.kids_eq_of_payload ?_⟩
    have hlx : p.attributeList? x = some l := by rwa [attributeList?_of_form? hf]
    obtain ⟨k', tag', m', hf', htag', hslot'⟩ := exists_of_attributeList? hlx
    refine hw.payload_eq_of_slot h.sound htag hslot htag' hslot' (fun ht => hne ?_) fun hn => ?_
    · exact h.backing_inj (backing?_of_form? hf') (ht ▸ hback)
    · obtain ⟨w, hasValue, v, g, ho⟩ := hw.find?_node hn
      obtain rfl := Option.some.inj (ho.symm.trans htag')
      cases List.mem_singleton.1 hslot'
  · rw [hk, hb] at hf
    obtain ⟨⟨r, g⟩, hr, hmark⟩ := h.writes hf
    cases r with
    | link target title =>
      refine Arena.target?_eq_of_payload (hw.payload_eq h.sound htag hslot hr rfl fun hn => ?_)
      obtain ⟨w, hasValue, v, g', ho⟩ := hw.find?_node hn
      cases ho.symm.trans hr
    | _ => cases hmark

end

theorem Inscribed.mirrored (h : p.Synced) (hq : p.Inscribed id node key value n q)
    (he : p.find? id = some e)
    (hnode : (Attribute.find? e.attributes key).bind Attribute.node = node)
    (hkey : key.toLower = key) {policy : Policy} (hpolicy : Policy.find? e.kind key = some policy)
    (hvalue : policy.normalization.apply value = value) (hm : p.Mirrored whole) :
    (q.update id fun e => { e with attributes := Attribute.put e.attributes ⟨key, value, some n⟩
      }).Mirrored whole := by
  obtain ⟨list, hlist, hw⟩ := hq.wrote
  obtain ⟨k, tag, m, hf, htag, hslot⟩ := exists_of_attributeList? hlist
  have hsq := hq.steady.synced.sound
  intro x ex hx
  rw [find?_update, find?, hq.elements] at hx
  change (if x = id then (p.find? x).map _ else p.find? x) = _ at hx
  split at hx
  · subst x
    rw [he] at hx
    obtain rfl := Option.some.inj hx
    have hfe := form?_of_find? he
    obtain ⟨-, hb⟩ := Prod.mk.inj (Option.some.inj (hfe.symm.trans hf))
    have hme := hm id e he
    refine ⟨fun t ht => ?_, Attribute.nodup_names_put hme.nodup, fun _ hb' => ?_,
      fun hk _ _ => records_put h hw hsq htag hslot he hb hnode hkey hpolicy hvalue hme hk,
      fun hwh hk l hl => ?_, fun _ hb' => ?_⟩
    · rcases Attribute.mem_put ht with ht | rfl
      · exact hme.lower t ht
      · exact hkey
    · cases hb'.symm.trans hb
    · change Arena.attributeList? q.arena e.backing = some l at hl
      rw [hq.evolves.attributeList?_eq (h.writes hfe)] at hl
      rw [attributeList?_of_form? hfe] at hlist
      obtain rfl := Option.some.inj (hlist.symm.trans hl)
      exact kids_subset_put hw hnode (hme.whole hwh hk hl)
    · cases hb'.symm.trans hb
  · exact mirrors_of_wrote h hw hsq hq.evolves htag hslot (backing?_of_form? hf)
      (fun o ho => writtenOf_of_find? he ▸ Attribute.mem_nodes_of_find? (hnode.trans ho)) hx
      ‹¬x = id› (hm x ex hx)

end Page

namespace Edit

variable {p : Page} {id : ElementId}

theorem ends_writeAttribute (h : p.Synced) {c : NodeId} (hc : p.attributeList? id = some c)
    {name value : String} {node : Option NodeId}
    (hnode : ∀ n, node = some n → n ∈ p.writtenOf id) :
    Ends (writeAttribute id name value node) p (fun n q => p.Inscribed id node name value n q)
      fun _ _ => False := by
  have hlist := Page.attributeList_of_attributeList? hc
  refine Ends.bind (ends_ask (fun list hl => ?_) fun _ he => by cases hlist.symm.trans he)
  obtain rfl := Except.ok.inj (hlist.symm.trans hl)
  obtain ⟨k, tag, m, hf, hm, hs⟩ := Page.exists_of_attributeList? hc
  have hmem (n : NodeId) (hn : node = some n) : n ∈ p.arena.kids c := by
    obtain ⟨l, hl, hk⟩ := h.exists_of_written (hnode n hn)
    obtain rfl := Option.some.inj (hc.symm.trans hl)
    exact hk
  refine ends_surgery ((Surgery.ends_writeAttribute h hm hs hmem).mono ?_ fun _ _ hf => hf)
  · rintro n b ⟨hst, hev, hw, hplace⟩
    refine ⟨hst, rfl, hev, ⟨c, hc, hw⟩, ⟨c, (h.attributeList?_of_arena hev id).trans hc, ?_⟩,
      hplace.imp_right (And.imp_right fun hfresh hw => ?_)⟩
    · rcases hplace with rfl | ⟨rfl, -⟩
      · exact hw.kids ▸ hmem n rfl
      · rw [hw.kids, if_pos rfl]
        exact List.mem_append_right _ (List.mem_singleton_self n)
    · obtain ⟨l, -, hk⟩ := h.exists_of_written hw
      exact Nat.lt_irrefl _ (Nat.lt_of_lt_of_le (h.sound.closed l n hk) hfresh)

theorem attributeList?_setAttributes {f : Element → List Attribute} :
    (p.update id fun e => { e with attributes := f e }).attributeList? = p.attributeList? := by
  funext x
  have hform : (p.update id fun e => { e with attributes := f e }).form? = p.form? :=
    Page.form?_update fun _ => ⟨rfl, rfl⟩
  rw [Page.attributeList?, hform]
  rfl

/-- What had yet to be written for an element has been written. -/
structure WrittenOut (p : Page) (id : ElementId) (q : Page) : Prop where
  steady : p.Steady q
  tagged : q.attributeList? id ≠ none
  kind : ∀ {e d}, p.find? id = some e → q.find? id = some d → d.kind = e.kind
  eq_of_nil : (∀ e, p.find? id = some e → e.attributes = []) → q = p

theorem ends_writeUnwritten (h : p.Synced) (hc : p.attributeList? id ≠ none) :
    Ends (writeUnwritten id) p (fun _ q => WrittenOut p id q) fun _ _ => False := by
  obtain ⟨c, hc⟩ := Option.ne_none_iff_exists'.1 hc
  obtain ⟨k, tag, m, hf, -⟩ := Page.exists_of_attributeList? hc
  obtain ⟨e, he, -⟩ := Page.find?_of_form? hf
  have hget := Page.get_eq_ok_iff.2 he
  refine Ends.bind (ends_ask (fun e' he' => ?_) fun _ herr => by cases hget.symm.trans herr)
  obtain rfl := Except.ok.inj (hget.symm.trans he')
  refine Ends.forM_of_keeps (I := fun q => WrittenOut p id q) (fun a ha q hq => ?_)
    ⟨h.steady_refl, by simp [hc], fun he hd => by simp_all, fun _ => rfl⟩
  have hne : e.attributes ≠ [] := List.ne_nil_of_mem (List.mem_filter.1 ha).1
  obtain ⟨c, hc⟩ := Option.ne_none_iff_exists'.1 hq.tagged
  have hnone : ∀ n, (none : Option NodeId) = some n → n ∈ q.writtenOf id := by simp
  refine (ends_writeAttribute hq.steady.synced hc hnone).step (fun n r hr => ?_) fun _ _ hf => hf
  obtain ⟨c', hc', -⟩ := hr.mem
  obtain ⟨k, tag, m, hf, -⟩ := Page.exists_of_attributeList? hc'
  obtain ⟨e₁, he₁, -⟩ := Page.find?_of_form? hf
  refine ends_update (fun e' he' => ⟨hq.steady.trans (hr.steady.trans ?_), ?_, fun he hd => ?_,
    fun hn => absurd (hn e he) hne⟩) fun hn => ?_
  · refine steady_setAttributes hr.steady.synced (not_isCategory hr.steady.synced hf) fun e he => ?_
    exact hr.written_put he (by simp)
  · rw [attributeList?_setAttributes, hc']
    exact Option.some_ne_none _
  · rw [Page.find?_update, if_pos rfl, Page.find?, hr.elements] at hd
    obtain ⟨d', hd', rfl⟩ := Option.map_eq_some_iff.1 hd
    exact (hq.kind he hd' :)
  · cases hn.symm.trans he₁

end Edit
end WikiPage
