import WikiPage.Page.Child
import WikiPage.Proofs.Category
import WikiPage.Proofs.Wording

/-!
# Children

A child goes into the list of children and its node into the container, between the neighbours that the
list has there; so the nodes keep the order of the children whatever else stands between them.
-/

namespace WikiPage

open Page (Synced)

section

variable {α : Type} {u v s t : List α} {m : α}

theorem sublist_of_middle (h : (u ++ m :: v).Sublist (s ++ m :: t)) (hn : (s ++ m :: t).Nodup) :
    u.Sublist s ∧ v.Sublist t := by
  rw [List.nodup_middle, List.nodup_cons, List.mem_append, not_or] at hn
  obtain ⟨⟨hs, ht⟩, -⟩ := hn
  obtain ⟨l₁, l₂, hl, h₁, h₂⟩ := List.sublist_append_iff.1 h
  have hm₁ : m ∉ l₁ := fun hm => hs (h₁.subset hm)
  cases h₂ with
  | cons _ h₂ =>
    have hm : m ∈ l₁ ++ l₂ := hl ▸ List.mem_append_right u (List.mem_cons_self ..)
    rcases List.mem_append.1 hm with hm | hm
    · exact absurd hm hm₁
    · exact absurd (h₂.subset hm) ht
  | @cons_cons l₂ _ _ h₂ =>
    have hm₂ : m ∉ l₂ := fun hm => ht (h₂.subset hm)
    obtain ⟨rfl, -, rfl⟩ := (List.append_cons_inj_of_notMem hm₁ hm₂).1 hl.symm
    exact ⟨h₁, h₂⟩

theorem nodup_of_replace {w w' : List α} (h : (u ++ w ++ v).Nodup) (hw : w'.Nodup)
    (hd : ∀ x ∈ w', x ∉ u ++ w ++ v) : (u ++ w' ++ v).Nodup := by
  simp only [List.nodup_append, List.mem_append] at h hd ⊢
  grind

end

namespace Page

variable {p : Page} {x y : ElementId}

theorem find?_of_backing? {n : NodeId} (hn : p.backing? x = some n) : ∃ e, p.find? x = some e := by
  obtain ⟨k, b, hx, -⟩ := exists_of_backing? hn
  obtain ⟨e, he, -⟩ := find?_of_form? hx
  exact ⟨e, he⟩

theorem find?_of_container? {c : NodeId} (hc : p.container? x = some c) :
    ∃ e, p.find? x = some e := by
  obtain ⟨k, b, hx, -⟩ := exists_of_container? hc
  obtain ⟨e, he, -⟩ := find?_of_form? hx
  exact ⟨e, he⟩

theorem mem_lineage {n : Nat} (h : Within (fun x => (p.parentOf x).toList) n x)
    (hr : Reaches (fun x => (p.parentOf x).toList) x y) : y ∈ p.lineage n x := by
  induction h with
  | @step n x _ ih =>
    rw [lineage]
    rcases Relation.ReflTransGen.cases_head hr with rfl | ⟨z, hz, hr⟩
    · exact List.mem_cons_self ..
    · refine List.mem_cons_of_mem _ ?_
      have hp : (p.find? x).bind Element.parent = some z := by
        simpa [parentOf, eq_comm] using hz
      rw [hp]
      exact ih z hz hr

namespace Synced

theorem mem_parents (h : p.Synced) : y ∈ (p.parentOf x).toList ↔ x ∈ p.childrenOf y := by
  rw [Option.mem_toList, h.parent_iff]

theorem reaches_parents (h : p.Synced) :
    Reaches (fun x => (p.parentOf x).toList) x y ↔ Reaches p.childrenOf y x := by
  rw [Reaches, Reaches, ← Relation.reflTransGen_swap]
  simp only [h.mem_parents]

theorem within_parents (h : p.Synced) (hx : x.index < p.size) :
    Within (fun x => (p.parentOf x).toList) (p.size + 1) x := by
  have known {x : ElementId} (hx : x.index < p.size + 1) :
      x ∈ (List.range (p.size + 1)).map ElementId.mk :=
    List.mem_map.2 ⟨x.index, List.mem_range.2 hx, rfl⟩
  have hin : Within (fun x => (p.parentOf x).toList) _ x := within_of_known
    (fun i j hj hr => h.forest.not_reaches (h.mem_parents.1 hj) (h.reaches_parents.1 hr))
    (fun i j hj => known ?_) (known (Nat.lt_succ_of_lt hx))
  · rwa [List.length_map, List.length_range] at hin
  · have hj := h.mem_parents.1 hj
    refine Nat.lt_succ_of_lt ?_
    by_contra hlt
    have hn : p.find? j = none := by
      simpa [find?, size] using hlt
    rw [childrenOf, Tree.kids, hn] at hj
    cases hj

theorem not_reaches_of_isWithin (h : p.Synced) (hx : x.index < p.size) (hw : p.isWithin x y = false) :
    ¬Reaches p.childrenOf y x := by
  intro hr
  rw [isWithin, List.contains_eq_mem, decide_eq_false_iff_not] at hw
  exact hw (mem_lineage (h.within_parents hx) (h.reaches_parents.2 hr))

end Synced

/-- What an element is within stands above it. -/
theorem Synced.reaches_of_isWithin (h : p.Synced) (hw : p.isWithin x y = true) :
    Reaches p.childrenOf y x := by
  rw [isWithin, List.contains_eq_mem, decide_eq_true_eq] at hw
  generalize p.size + 1 = n at hw
  induction n generalizing x with
  | zero => cases hw
  | succ n ih =>
    rw [lineage] at hw
    rcases List.mem_cons.1 hw with rfl | hw
    · exact .refl
    · cases hp : (p.find? x).bind Element.parent with
      | none =>
        rw [hp] at hw
        cases hw
      | some z =>
        rw [hp] at hw
        exact (ih hw).tail (h.parent_iff.1 hp)

/-- A node is cut out of the page, and what stands below it with it. -/
structure Cut (p : Page) (n : NodeId) (q : Page) : Prop extends SameRecords p q where
  synced : q.Synced
  known : n.index < q.arena.size
  part : ∀ {m}, p.Linked m → Reaches p.arena.kids Arena.root m → ¬Reaches p.arena.kids n m →
    Reaches q.arena.kids Arena.root m
  below : p.Anchored → ∀ {m k}, p.Linked m → p.Linked k → Reaches q.arena.kids m k →
    Reaches p.arena.kids m k
  under : ∀ {m}, Reaches p.arena.kids n m → Reaches q.arena.kids n m
  /-- No links but those that are cut out come to be in an element that is on no page. -/
  anchored : p.Anchored → ∀ x k, x ≠ root → k ≠ n → q.backing? x = some k → q.arena.Loose k → q.Apart k
  mirrored : ∀ {whole}, p.Mirrored whole → q.Mirrored whole

theorem Cut.tidied {q : Page} {n : NodeId} (h : p.Cut n q) {b : Arena} (hb : q.arena.Tidied b)
    (hk : q.arena.KeepsTags b) : p.Cut n { q with arena := b } := by
  have hs := h.synced.calm_tidied hb hk
  have hkids : b.kids = q.arena.kids := hb.kids_eq
  refine ⟨h.toSameRecords.trans hs.toSameRecords, hs.synced, hb.size_eq ▸ h.known, ?_,
    fun ha m k hm hk hr => h.below ha hm hk (hkids ▸ hr), ?_,
    fun ha x k hx hk hn hl m hm hr => ?_, fun hm => hs.mirrored (h.mirrored hm)⟩
  · change ∀ {_}, _
    rw [hkids]
    exact h.part
  · change ∀ {_}, _
    rw [hkids]
    exact h.under
  · exact h.anchored ha x k hx hk hn (fun z hz => hl z (hkids ▸ hz)) m hm (hkids ▸ hr)

/-- An element that can be put below another. -/
structure Insertable (p : Page) (x y : ElementId) : Prop where
  known : ∃ e, p.find? y = some e
  parent : p.parentOf y = none
  not_reaches : ¬Reaches p.childrenOf y x
  ne_root : y ≠ root
  not_isCategory : ¬p.IsCategory y
  content : ∀ n, p.backing? y = some n → p.arena.Is Role.content.admits n

/-- An element with other children. Those that are left out are on no page any more. -/
def setChildren (p : Page) (x : ElementId) (ch : List ElementId) (y : ElementId) (e : Element) :
    Element :=
  { e with
    parent := if y ∈ ch then some x else if y ∈ p.childrenOf x then none else e.parent
    children := if y = x then ch else e.children }

/-- A page with other children for an element and other items in its container. -/
structure Refilled (p : Page) (x : ElementId) (c : NodeId) (ch : List ElementId)
    (items : List NodeId) (q : Page) : Prop where
  arena : q.arena = p.arena.setItems c items
  site : q.site = p.site
  categories : q.categories = p.categories
  owners : q.owners = p.owners
  find?_eq : ∀ y, q.find? y = (p.find? y).map (p.setChildren x ch y)

/-- The children and the items that an element may be given. -/
structure Fill (p : Page) (x : ElementId) (c : NodeId) (ch : List ElementId)
    (items : List NodeId) : Prop where
  ne_root : x ≠ root
  container? : p.container? x = some c
  children_nodup : ch.Nodup
  items_nodup : items.Nodup
  new : ∀ y ∈ ch, y ∉ p.childrenOf x → p.Insertable x y
  old_or_new : ∀ n ∈ items, n ∈ p.arena.kids c ∨
    ∃ y ∈ ch, y ∉ p.childrenOf x ∧ p.backing? y = some n
  kept : (ch.filterMap p.backing?).Sublist items
  back : ∀ y n, p.backing? y = some n → n ∈ items → y ∈ ch

namespace Fill

variable {q : Page} {c : NodeId} {ch : List ElementId} {items : List NodeId}

theorem ne_body (h : p.Synced) (hi : p.Insertable x y) : y ≠ body := by
  rintro rfl
  cases hi.parent.symm.trans h.body_parent

theorem sound (h : p.Synced) (hf : p.Fill x c ch items) : (p.arena.setItems c items).Sound := by
  obtain ⟨old, hc⟩ := h.find?_container hf.container?
  refine h.sound.setItems hc hf.items_nodup (fun n hn l hl hnl => ?_) (fun n hn hr => ?_)
    (fun n hn => ?_) fun {id m role} hm hrole n hn => ?_
  all_goals rcases hf.old_or_new n hn with hn' | ⟨y, hy, hyx, hb⟩
  · exact hl (h.sound.single hnl hn')
  · exact h.loose (hf.new y hy hyx).parent hb l hnl
  · exact h.sound.not_reaches hn' hr
  · have hi := hf.new y hy hyx
    exact hi.not_reaches ((h.reaches_of_reaches hb (ne_body h hi) hr).2 x hf.container?)
  · exact h.sound.closed c n hn'
  · exact h.backing_lt hb
  · obtain ⟨items', hi, his⟩ := (h.sound.fits hm).lists _ hrole
    rw [Arena.kids_of_find? hi] at hn'
    exact his n hn'
  · obtain rfl := h.role_of_container hf.container? hm hrole
    exact (hf.new y hy hyx).content n hb

theorem kids_refilled (h : p.Synced) (hf : p.Fill x c ch items) (hq : p.Refilled x c ch items q)
    (l : NodeId) : q.arena.kids l = if l = c then items else p.arena.kids l := by
  obtain ⟨old, hc⟩ := h.find?_container hf.container?
  rw [hq.arena]
  exact Arena.kids_setItems (Arena.index_lt_of_find? hc) items l

theorem relinks (h : p.Synced) (hf : p.Fill x c ch items) (hq : p.Refilled x c ch items q) :
    p.Relinks x ch q where
  sound := hq.arena ▸ hf.sound h
  evolves := by
    obtain ⟨old, hc⟩ := h.find?_container hf.container?
    exact hq.arena ▸ Arena.evolves_setItems hc items
  form := form?_of_map hq.find?_eq fun _ _ => ⟨rfl, rfl⟩
  written := writtenOf_of_map hq.find?_eq fun _ _ => rfl
  linked _ := linked_of_map hq.find?_eq fun _ _ => rfl
  categories := hq.categories
  children y := by
    rw [childrenOf, Tree.kids, hq.find?_eq]
    by_cases hy : y = x
    · obtain ⟨e, he⟩ := find?_of_container? hf.container?
      simp [hy, he, setChildren]
    · cases he : p.find? y <;> simp [childrenOf, Tree.kids, he, hy, setChildren]
  parents y := by
    rw [parentOf, hq.find?_eq, parentOf]
    cases he : p.find? y with
    | some e => simp [setChildren]
    | none =>
      have hyx : y ∉ p.childrenOf x := fun hm => by
        have hp := h.parent_iff.2 hm
        rw [parentOf, he] at hp
        cases hp
      have hych : y ∉ ch := by
        intro hm
        obtain ⟨e, hk⟩ := (hf.new y hm hyx).known
        cases he.symm.trans hk
      simp [hyx, hych]
  nodup := hf.children_nodup
  new y hy hyx :=
    ⟨(hf.new y hy hyx).ne_root, (hf.new y hy hyx).parent, (hf.new y hy hyx).not_reaches⟩
  page hr := absurd hr hf.ne_root
  category y hy o ho := by
    by_cases hyx : y ∈ p.childrenOf x
    · exact h.category_parent ho (h.parent_iff.2 hyx)
    · exact absurd ⟨o, ho⟩ (hf.new y hy hyx).not_isCategory
  container _ := ⟨c, hf.container?⟩
  kids l hl := by
    rw [hf.kids_refilled h hq, if_neg]
    rintro rfl
    exact hl hf.container?
  kept l hl := by
    obtain rfl := Option.some.inj (hf.container?.symm.trans hl)
    rw [hf.kids_refilled h hq, if_pos rfl]
    exact hf.kept
  back l hl y n hb hn := by
    obtain rfl := Option.some.inj (hf.container?.symm.trans hl)
    rw [hf.kids_refilled h hq, if_pos rfl] at hn
    exact hf.back y n hb hn

theorem synced (h : p.Synced) (hf : p.Fill x c ch items) (hq : p.Refilled x c ch items q) :
    q.Synced :=
  h.relink (hf.relinks h hq)

theorem mirrored (h : p.Synced) (hf : p.Fill x c ch items) (hq : p.Refilled x c ch items q)
    {whole : Prop} (hm : p.Mirrored whole) : q.Mirrored whole := by
  obtain ⟨old, hc⟩ := h.find?_container hf.container?
  refine hm.spared h (hf.synced h hq).sound ⟨?_, fun _ => ?_⟩ fun {y e} he => .inl ?_
  · rw [hq.arena]
    exact Arena.keepsTags_setItems hc (h.container_not_inTag hf.container?)
  · rw [hq.arena, Arena.target?_setItems hc]
  · rw [hq.find?_eq] at he
    obtain ⟨d, hd, rfl⟩ := Option.map_eq_some_iff.1 he
    exact ⟨d, hd, rfl, rfl, .inl rfl⟩

theorem calm (h : p.Synced) (hf : p.Fill x c ch items) (hq : p.Refilled x c ch items q)
    (hk : p.arena.kids c ⊆ items) : p.Calm q := by
  obtain ⟨old, hc⟩ := h.find?_container hf.container?
  refine ⟨?_, fun hm => hf.mirrored h hq hm⟩
  refine h.steady_of_map (hf.synced h hq) hq.site hq.categories hq.owners hq.find?_eq
    (fun y e _ => ⟨rfl, rfl, fun _ => rfl, fun hy => ?_⟩) (fun {l m n} _ hm _ => ?_)
    (fun {l m n} _ _ hloose hm => ?_) (fun _ _ hb => ?_) fun {n} _ => ?_
  · exact if_neg (hy ▸ hf.ne_root.symm)
  · rw [hq.arena, Arena.kids_setItems (Arena.index_lt_of_find? hc)]
    split
    · subst l
      exact hk hm
    · exact hm
  · rw [hf.kids_refilled h hq] at hm
    split at hm
    · rcases hf.old_or_new m hm with hm | ⟨z, -, -, hz⟩
      · exact absurd hm (hloose c)
      · exact ⟨z, hz⟩
    · exact absurd hm (hloose l)
  · rwa [(hf.relinks h hq).backing?_eq] at hb
  · rw [hq.arena, Arena.target?_setItems hc]

theorem reaches_of_linked (h : p.Synced) (hf : p.Fill x c ch items) (hq : p.Refilled x c ch items q)
    (ha : p.Anchored) {l m : NodeId} (hm : p.Linked m) (hr : Reaches q.arena.kids l m) :
    Reaches p.arena.kids l m := by
  induction hr using Relation.ReflTransGen.head_induction_on with
  | refl => exact .refl
  | @head l k hk _ ih =>
    rw [hf.kids_refilled h hq] at hk
    split at hk
    · subst l
      rcases hf.old_or_new k hk with hk | ⟨z, hz, hzx, hb⟩
      · exact .head hk ih
      · have hi := hf.new z hz hzx
        exact absurd ih (ha z k hi.ne_root hb (h.loose hi.parent hb) m hm)
    · exact .head hk ih

/-- One child is taken out. -/
theorem cut (h : p.Synced) (hf : p.Fill x c ch items) (hq : p.Refilled x c ch items q) {n : NodeId}
    (hn : p.backing? y = some n) (hnc : n ∈ p.arena.kids c)
    (hk : ∀ m ∈ p.arena.kids c, m ≠ n → m ∈ items) : p.Cut n q := by
  obtain ⟨old, hc⟩ := h.find?_container hf.container?
  have hkids {l m : NodeId} (hm : m ∈ p.arena.kids l) (hne : m ≠ n) : m ∈ q.arena.kids l := by
    rw [hq.arena, Arena.kids_setItems (Arena.index_lt_of_find? hc)]
    split
    · subst l
      exact hk m hm hne
    · exact hm
  refine ⟨sameRecords_of_map hq.site hq.categories hq.owners hq.find?_eq
    (fun y e _ => ⟨rfl, rfl, fun _ => rfl, fun hy => if_neg (hy ▸ hf.ne_root.symm)⟩)
    (fun {l m} hm hl => hkids hl ?_) fun {m} _ => ?_, hf.synced h hq, ?_,
    fun {m} _ hr hnr => ?_, fun ha m k _ hk hr => hf.reaches_of_linked h hq ha hk hr, fun {m} hm => ?_,
    fun ha z k hz hkn hb hl m hm hr => ?_, fun hm => hf.mirrored h hq hm⟩
  · rintro rfl
    exact h.unlinked hm y hn
  · rw [hq.arena, Arena.target?_setItems hc]
  · rw [hq.arena, Arena.setItems, Arena.setPayload, Arena.size_modify]
    exact h.backing_lt hn
  · refine Synced.reaches_of_keeps (n := m) (fun {l k} hk hr' => hkids hk ?_) hr
    rintro rfl
    exact hnr hr'
  · induction hm with
    | refl => exact .refl
    | @tail l k hl hk ih =>
      refine ih.tail ?_
      rw [hq.arena, Arena.kids_setItems (Arena.index_lt_of_find? hc), if_neg]
      · exact hk
      · rintro rfl
        exact h.sound.not_reaches hnc hl
  · rw [(hf.relinks h hq).backing?_eq] at hb
    have hm := linked_of_map hq.find?_eq (fun _ _ => rfl) hm
    exact ha z k hz hb (fun w hw => hl w (hkids hw hkn)) m hm (hf.reaches_of_linked h hq ha hm hr)

end Fill

variable {q : Page} {c n : NodeId} {u v : List ElementId} {s t : List NodeId}

theorem Synced.kept_sides (h : p.Synced) {m : NodeId} (hc : p.container? x = some c)
    (hch : p.childrenOf x = u ++ y :: v) (hm : p.backing? y = some m)
    (hk : p.arena.kids c = s ++ m :: t) :
    (u.filterMap p.backing?).Sublist s ∧ (v.filterMap p.backing?).Sublist t := by
  have hs := h.kept hc
  rw [hch, hk, List.filterMap_append, List.filterMap_cons_some hm] at hs
  exact sublist_of_middle hs (hk ▸ h.sound.nodup c)

/-- Some children are left out, others come in their place. -/
theorem Synced.fill (h : p.Synced) {w a : List ElementId} {r b : List NodeId} (hx : x ≠ root)
    (hc : p.container? x = some c) (hch : p.childrenOf x = u ++ w ++ v)
    (hk : p.arena.kids c = s ++ r ++ t) (hu : (u.filterMap p.backing?).Sublist s)
    (hv : (v.filterMap p.backing?).Sublist t) (hw : w.map p.backing? = r.map some)
    (hw' : a.map p.backing? = b.map some) (hnew : ∀ y ∈ a, p.Insertable x y)
    (hd : a.Nodup) : p.Fill x c (u ++ a ++ v) (s ++ b ++ t) := by
  have hmap {l : List ElementId} {k : List NodeId} (hl : l.map p.backing? = k.map some) :
      l.filterMap p.backing? = k := by
    simpa [List.filterMap_map] using congrArg (List.filterMap id) hl
  have hmem {l : List ElementId} {k : List NodeId} (hl : l.map p.backing? = k.map some) {n : NodeId}
      (hn : n ∈ k) : ∃ y ∈ l, p.backing? y = some n := by
    rw [← hmap hl] at hn
    exact List.mem_filterMap.1 hn
  have hyc {y : ElementId} (hy : y ∈ a) : y ∉ p.childrenOf x := fun hyx => by
    cases (hnew y hy).parent.symm.trans (h.parent_iff.2 hyx)
  have hnk {n : NodeId} (hn : n ∈ b) : n ∉ p.arena.kids c := by
    obtain ⟨y, hy, hb⟩ := hmem hw' hn
    exact h.loose (hnew y hy).parent hb c
  have hdc := hch ▸ h.forest.nodup x
  have hdk := hk ▸ h.sound.nodup c
  have hdr : b.Nodup := by
    rw [← hmap hw']
    refine hd.filterMap fun y z n hy hz => h.backing_inj hy hz
  refine ⟨hx, hc, nodup_of_replace hdc hd fun y hy => hch ▸ hyc hy,
    nodup_of_replace hdk hdr fun n hn => hk ▸ hnk hn, fun y hy hyx => ?_, fun n hn => ?_, ?_,
    fun y n hy hn => ?_⟩
  · rw [hch] at hyx
    simp only [List.mem_append] at hy hyx
    exact hnew y (by tauto)
  · by_cases hnr : n ∈ b
    · obtain ⟨y, hy, hb⟩ := hmem hw' hnr
      exact .inr ⟨y, by simp [hy], hyc hy, hb⟩
    · rw [hk]
      simp only [List.mem_append] at hn ⊢
      tauto
  · simp only [List.filterMap_append, hmap hw']
    exact (hu.append (List.Sublist.refl b)).append hv
  · by_cases hnr : n ∈ b
    · obtain ⟨z, hz, hb⟩ := hmem hw' hnr
      obtain rfl := h.backing_inj hy hb
      simp [hz]
    · have hnc : n ∈ p.arena.kids c := by
        rw [hk]
        simp only [List.mem_append] at hn ⊢
        tauto
      have hyx := h.mem_childrenOf_of_mem_kids hc hy hnc
      have hyw : y ∉ w := by
        intro hyw
        have hb : some n ∈ r.map some := hw ▸ hy ▸ List.mem_map_of_mem hyw
        simp only [List.mem_map, Option.some.injEq, exists_eq_right] at hb
        simp only [List.nodup_append, List.mem_append] at hdk hn
        grind
      rw [hch] at hyx
      simp only [List.mem_append] at hyx ⊢
      tauto

theorem find?_update_eq_none_iff {f : Element → Element} :
    (p.update x f).find? y = none ↔ p.find? y = none := by
  rw [find?_update]
  split <;> simp

theorem contentModel_ok {model : ContentModel} (h : p.contentModel x = .ok model) :
    ∃ e, p.find? x = some e ∧ e.kind ≠ .page ∧ ContentModel.of? e.kind = some model := by
  obtain ⟨k, hk, h⟩ := Except.exists_of_bind h
  obtain ⟨e, he, rfl⟩ := find?_of_kind hk
  refine ⟨e, he, fun hp => ?_, ?_⟩
  · rw [hp] at h
    cases h
  · cases hkind : e.kind <;> rw [hkind] at h <;> cases h <;> rfl

theorem kind_of_find? {e : Element} (he : p.find? x = some e) : p.kind x = .ok e.kind := by
  simp [kind, get_eq_ok_iff.2 he, Except.map]

theorem parent_of_find? {e : Element} (he : p.find? x = some e) : p.parent x = .ok e.parent := by
  simp [parent, get_eq_ok_iff.2 he, Except.map]

theorem children_of_find? {e : Element} (he : p.find? x = some e) :
    p.children x = .ok e.children := by
  simp [children, get_eq_ok_iff.2 he, Except.map]

theorem contentModel_congr {q : Page} (h : q.form? = p.form?) : q.contentModel x = p.contentModel x := by
  have hkind : q.kind x = p.kind x := by
    have hx := congrFun h x
    rw [form?, form?] at hx
    rw [kind, kind, get, get]
    cases hp : p.find? x <;> cases hq : q.find? x <;> simp_all [Except.map]
  rw [contentModel, contentModel, hkind]

theorem neverFaults_contentModel {e : Element} (he : p.find? x = some e) :
    NeverFaults (p.contentModel x) := by
  unfold contentModel
  rw [kind_of_find? he]
  refine .bind (.ok _) fun k _ => ?_
  cases k <;> first | exact .ok _ | exact .error rfl

theorem neverFaults_checkMovable (k : Kind) : NeverFaults (checkMovable k) := by
  cases k <;> first | exact .ok _ | exact .error rfl

theorem neverFaults_checkInsertable {e e' : Element} (hx : p.find? x = some e)
    (hy : p.find? y = some e') : NeverFaults (p.checkInsertable x y) := by
  refine .bind (neverFaults_contentModel hx) fun model _ => ?_
  rw [kind_of_find? hy, kind_of_find? hx, parent_of_find? hy]
  refine .bind (.ok _) fun k _ => .bind (neverFaults_checkMovable k) fun _ _ => ?_
  refine .bind (.ok _) fun up _ => ?_
  split
  · exact .error rfl
  · split
    · exact .refuse _
    · split
      · exact .ok _
      · exact .bind (.ok _) fun _ _ => .error rfl

theorem neverFaults_childIndex {e : Element} (he : p.find? x = some e) (y : ElementId) :
    NeverFaults (p.childIndex x y) := by
  unfold childIndex
  rw [children_of_find? he]
  refine .bind (.ok _) fun l _ => ?_
  split
  · exact .ok _
  · exact .refuse _

theorem neverFaults_positionIndex {e : Element} (he : p.find? x = some e) (position : Position) :
    NeverFaults (p.positionIndex x position) := by
  cases position with
  | first => exact .ok _
  | last =>
    rw [positionIndex, children_of_find? he]
    exact .ok _
  | before r => exact neverFaults_childIndex he r
  | after r => exact (neverFaults_childIndex he r).map _

theorem Synced.ne_root_of_kind (h : p.Synced) {e : Element} (he : p.find? x = some e)
    (hk : e.kind ≠ .page) : x ≠ root := by
  rintro rfl
  exact hk (Prod.mk.inj (Option.some.inj ((form?_of_find? he).symm.trans h.root_form))).1

theorem lt_of_find? {e : Element} (he : p.find? x = some e) : x.index < p.size := by
  by_contra hlt
  have hn : p.find? x = none := by
    simpa [find?, size] using hlt
  cases hn.symm.trans he

theorem Synced.is_content (h : p.Synced) {e : Element} (he : p.find? y = some e)
    (hk : checkMovable e.kind = .ok ()) (hn : p.backing? y = some n) :
    p.arena.Is Role.content.admits n := by
  obtain ⟨k, b, hf, rfl⟩ := exists_of_backing? hn
  obtain ⟨rfl, -⟩ := Prod.mk.inj (Option.some.inj ((form?_of_find? he).symm.trans hf))
  match b, h.writes hf with
  | .markup node, ⟨m, hm, hmk⟩ =>
    refine ⟨m, hm, ?_⟩
    cases hkind : e.kind <;> rw [hkind] at hk hmk
    all_goals cases hp : m.payload <;> rw [hp] at hmk <;>
      first | rfl | (cases hk; done) | cases hmk
  | .tag node, ⟨m, hm, hmk⟩ =>
    refine ⟨m, hm, ?_⟩
    cases hp : m.payload <;> rw [hp] at hmk <;> first | rfl | cases hmk

theorem backingNode_of_backing? (hn : p.backing? x = some n) : p.backingNode x = .ok n := by
  obtain ⟨k, b, hf, rfl⟩ := exists_of_backing? hn
  obtain ⟨e, he, -, hb⟩ := find?_of_form? hf
  simp [backingNode, get_eq_ok_iff.2 he, hb, bind, Except.bind]

theorem Synced.exists_container? (h : p.Synced) {e : Element} {model : ContentModel}
    (he : p.find? x = some e) (hm : ContentModel.of? e.kind = some model) (hne : model ≠ .empty) :
    ∃ c, p.container? x = some c := by
  have hf := form?_of_find? he
  rw [container?_of_form? hf]
  match hb : e.backing with
  | none =>
    rw [hb] at hf
    have hk : e.kind = .category := h.writes hf
    rw [hk] at hm
    cases hm
  | some (.markup node) =>
    rw [hb] at hf
    obtain ⟨⟨q, g⟩, hn, hk⟩ := h.writes hf
    rw [Arena.container?, hn]
    cases hkind : e.kind <;> rw [hkind] at hm hk <;> cases hm <;> cases q <;>
      first | exact ⟨_, rfl⟩ | exact absurd rfl hne | cases hk
  | some (.tag node) =>
    rw [hb] at hf
    obtain ⟨⟨q, g⟩, hn, hk⟩ := h.writes hf
    rw [Arena.container?, hn]
    cases q <;> first | exact ⟨_, rfl⟩ | cases hk

theorem Synced.exists_backing_of_movable (h : p.Synced) {e : Element} (he : p.find? x = some e)
    (hk : checkMovable e.kind = .ok ()) : ∃ n, p.backing? x = some n := by
  have hf := form?_of_find? he
  rw [backing?_of_form? hf]
  cases hb : e.backing with
  | some b => exact ⟨b.node, rfl⟩
  | none =>
    rw [hb] at hf
    have hc : e.kind = .category := h.writes hf
    rw [hc] at hk
    cases hk

theorem Synced.insertable (h : p.Synced) (hok : p.checkInsertable x y = .ok ()) :
    p.Insertable x y ∧ x ≠ root ∧ (∃ c, p.container? x = some c) ∧ ∃ n, p.backing? y = some n := by
  obtain ⟨model, hmodel, hok⟩ := Except.exists_of_bind hok
  obtain ⟨ex, hex, hexk, hof⟩ := contentModel_ok hmodel
  obtain ⟨k, hk, hok⟩ := Except.exists_of_bind hok
  obtain ⟨e, he, rfl⟩ := find?_of_kind hk
  obtain ⟨_, hmove, hok⟩ := Except.exists_of_bind hok
  obtain ⟨up, hup, hok⟩ := Except.exists_of_bind hok
  obtain ⟨e', he', rfl⟩ := find?_of_parent hup
  obtain rfl := Option.some.inj (he.symm.trans he')
  have hne : model ≠ .empty := by
    rintro rfl
    split at hok
    · cases hok
    · split at hok
      · cases hok
      · obtain ⟨_, -, hok⟩ := Except.exists_of_bind hok
        cases hok
  refine ⟨⟨⟨e, he⟩, ?_, ?_, ?_, ?_, fun n hn => h.is_content he hmove hn⟩,
    h.ne_root_of_kind hex hexk, h.exists_container? hex hof hne, h.exists_backing_of_movable he hmove⟩
  · rw [parentOf_of_find? he]
    cases hp : e.parent with
    | none => rfl
    | some z => simp [hp] at hok
  · refine h.not_reaches_of_isWithin (lt_of_find? hex) ?_
    by_contra hw
    rw [Bool.not_eq_false] at hw
    split at hok
    · cases hok
    · simp [refuse] at hok
  · refine h.ne_root_of_kind he fun hp => ?_
    rw [hp] at hmove
    cases hmove
  · rintro ⟨o, ho⟩
    obtain ⟨hc, -⟩ := Prod.mk.inj (Option.some.inj ((form?_of_find? he).symm.trans ho))
    change e.kind = _ at hc
    rw [hc] at hmove
    cases hmove

theorem Synced.neededGlue?_ok (h : p.Synced) {m : Node} (hm : p.arena.find? n = some m) :
    ∃ needed, p.neededGlue? n = .ok needed ∧ ∀ payload glue, needed = some (payload, glue) →
      p.arena.Tidied (p.arena.setPayload n payload) ∧
        p.arena.KeepsTags (p.arena.setPayload n payload) ∧ payload.isList = false ∧
        glue.size = payload.children.length + 1 := by
  have hn := payload_of_find? hm
  have htidied {payload : Payload} (hp : payload.bare = m.payload.bare)
      (ht : (p.arena.setPayload n payload).target? n = p.arena.target? n) :
      p.arena.Tidied (p.arena.setPayload n payload) := .setPayload hm hp ht
  obtain ⟨payload, g⟩ := m
  rw [neededGlue?, hn]
  cases payload with
  | element name empty attributes body =>
    cases empty with
    | false => exact ⟨none, rfl, by simp⟩
    | true =>
      obtain ⟨items, hi⟩ := h.sound.find?_slot hm (s := (body, .content)) (by simp [Payload.slots])
      cases hemp : items.isEmpty with
      | true => exact ⟨none, by simp [Arena.items_of_find? hi, PageError.ofArena, bind, Except.bind, hemp], by simp⟩
      | false =>
        refine ⟨some (.element name false attributes body, Glue.element name false),
          by simp [Arena.items_of_find? hi, PageError.ofArena, bind, Except.bind, hemp], ?_⟩
        rintro _ _ ⟨⟩
        exact ⟨htidied rfl (by simp [Arena.target?, Arena.setPayload, hm]),
          Arena.keepsTags_setPayload hm rfl (h.sound.not_inTag_of_admits hm rfl rfl rfl), rfl, rfl⟩
  | link target title =>
    obtain ⟨items, hi⟩ := h.sound.find?_slot hm (s := (title, .content)) (by simp [Payload.slots])
    have hg : p.arena.glue n = .ok g := by simp [Arena.glue, Arena.get, hm, Except.map]
    by_cases hsame : !items.isEmpty = g.any (·.opensWith '|')
    · exact ⟨none, by simp [Arena.items_of_find? hi, PageError.ofArena, bind, Except.bind, hg, hsame], by simp⟩
    · refine ⟨some (.link target title, Glue.link target !items.isEmpty),
        by simp [Arena.items_of_find? hi, PageError.ofArena, bind, Except.bind, hg, hsame], ?_⟩
      rintro _ _ ⟨⟩
      exact ⟨htidied rfl (by simp [Arena.target?, Arena.setPayload, hm]),
        Arena.keepsTags_setPayload hm rfl (h.sound.not_inTag_of_admits hm rfl rfl rfl), rfl, rfl⟩
  | _ => exact ⟨none, rfl, by simp⟩

theorem worded_of_neededGlue?_none [Entities] {source : String} (h : p.arena.Unsettled source n)
    (hn : p.neededGlue? n = .ok none) : p.arena.Worded source := by
  refine h.1.worded fun m hm => ⟨h.2 m hm, fun c hc => ?_⟩
  have hw := h.2 m hm
  obtain ⟨payload, hp, hn⟩ := Except.exists_of_bind hn
  obtain rfl := Except.ok.inj ((payload_of_find? hm).symm.trans hp)
  obtain ⟨payload, g⟩ := m
  cases payload with
  | element name empty attributes body =>
    obtain ⟨rfl, rfl⟩ := hc
    obtain ⟨items, hi, hn⟩ := Except.exists_of_bind hn
    cases items with
    | nil => exact PageError.eq_ok_of_ofArena hi
    | cons y ys => cases hn
  | link target title =>
    obtain ⟨rfl, last, rfl⟩ := hc
    obtain ⟨items, hi, hn⟩ := Except.exists_of_bind hn
    cases items with
    | nil => exact PageError.eq_ok_of_ofArena hi
    | cons y ys =>
      have hpipe := Glue.opensWith_link hw.1 last false
      rw [if_neg Bool.false_ne_true, String.append_empty] at hpipe
      simp [Arena.glue_of_find? hm, PageError.ofArena, hpipe, bind, Except.bind] at hn
  | _ => cases hc

/-- The payload and the glue that a node needs. -/
inductive Needs (p : Page) (n : NodeId) : Payload → Glue → Prop
  | element {name : String} {attributes body : NodeId} {g : Option Glue} {items : List NodeId}
      (hn : p.arena.find? n = some ⟨.element name true attributes body, g⟩)
      (hi : p.arena.items body = .ok items) (hne : items ≠ []) :
      Needs p n (.element name false attributes body) (Glue.element name false)
  | link {target : String} {title : NodeId} {g : Option Glue} {items : List NodeId}
      (hn : p.arena.find? n = some ⟨.link target title, g⟩)
      (hi : p.arena.items title = .ok items)
      (he : items.isEmpty = g.any (·.opensWith '|')) :
      Needs p n (.link target title) (Glue.link target !items.isEmpty)

theorem needs_of_neededGlue? {payload : Payload} {glue : Glue}
    (h : p.neededGlue? n = .ok (some (payload, glue))) : p.Needs n payload glue := by
  obtain ⟨old, hold, h⟩ := Except.exists_of_bind h
  obtain ⟨g, hm⟩ := Arena.find?_of_payload (PageError.eq_ok_of_ofArena hold)
  cases old with
  | element name empty attributes body =>
    cases empty with
    | false => cases h
    | true =>
      obtain ⟨items, hi, h⟩ := Except.exists_of_bind h
      cases items with
      | nil => cases h
      | cons y ys =>
        obtain ⟨rfl, rfl⟩ := Prod.mk.inj (Option.some.inj (Except.ok.inj h))
        exact .element hm (PageError.eq_ok_of_ofArena hi) (List.cons_ne_nil y ys)
  | link target title =>
    obtain ⟨items, hi, h⟩ := Except.exists_of_bind h
    obtain ⟨g', hg, h⟩ := Except.exists_of_bind h
    obtain rfl := Except.ok.inj ((Arena.glue_of_find? hm).symm.trans (PageError.eq_ok_of_ofArena hg))
    split at h
    · cases h
    · rename_i he
      obtain ⟨rfl, rfl⟩ := Prod.mk.inj (Option.some.inj (Except.ok.inj h))
      exact .link hm (PageError.eq_ok_of_ofArena hi) (by simpa using he)
  | _ => cases h

theorem worded_of_neededGlue?_some [Entities] {source : String} {payload : Payload} {glue : Glue} {b : Arena}
    (h : p.arena.Unsettled source n) (hn : p.neededGlue? n = .ok (some (payload, glue)))
    (hb : (p.arena.setPayload n payload).setGlue n (some glue) = .ok b) : b.Worded source := by
  have glued {m : Node} (hm : p.arena.find? n = some m) (hl : m.payload.isList = false)
      (hs : (p.arena.setPayload n payload).BearsOut source n ⟨payload, some glue⟩) :
      b.Worded source := by
    refine (h.1.modify (fun m' hm' => ?_) _).setGlue hb fun m' hm' => ?_
    · obtain rfl := Option.some.inj (hm.symm.trans hm')
      exact hl
    · rw [Arena.find?_modify, if_pos rfl, hm] at hm'
      obtain rfl := Option.some.inj hm'
      exact hs
  cases needs_of_neededGlue? hn with
  | element hm _ _ => exact glued hm rfl (Arena.bearsOut_element nofun)
  | link hm hi _ =>
    refine glued hm rfl (Arena.bearsOut_link (h.2 _ hm).1 ?_)
    obtain ⟨g', hg'⟩ := Arena.find?_of_items hi
    refine Arena.items_of_find? (g := g') ?_
    rw [Arena.setPayload, Arena.find?_modify, if_neg, hg']
    rintro rfl
    cases hg'.symm.trans hm

theorem Synced.isOpen_content (h : p.Synced) : p.arena.Open p.arena.content := by
  obtain ⟨g, hp⟩ := h.find?_page
  exact h.sound.isOpen hp (List.mem_singleton_self _) id

end Page

namespace Edit

variable {p : Page} {x y : ElementId} {c n : NodeId}

/-- Nothing but names, flags and glue outside the tags has changed. -/
def TidiedPage (p q : Page) : Prop :=
  ∃ b, p.arena.Tidied b ∧ p.arena.KeepsTags b ∧ q = { p with arena := b }

/-- The node of an element has been given the glue that it needs. -/
structure Refreshed [Entities] (p : Page) (x : ElementId) (q : Page) : Prop where
  tidied : TidiedPage p q
  worded : ∀ source n, p.backing? x = some n → p.arena.Unsettled source n → q.arena.Worded source

/-- What becomes of a page when the glue of an element's node is refreshed. -/
inductive Refresh (p : Page) (x : ElementId) : Page → Prop
  | keep (hn : ∀ n, p.backing? x = some n → p.neededGlue? n = .ok none) : Refresh p x p
  | renew {n : NodeId} {payload : Payload} {glue : Glue} {b : Arena}
      (hn : p.backing? x = some n) (hneed : p.neededGlue? n = .ok (some (payload, glue)))
      (hset : (p.arena.setPayload n payload).setGlue n (some glue) = .ok b) :
      Refresh p x { p with arena := b }

theorem ends_refresh (h : p.Synced) {e : Element} (he : p.find? x = some e) :
    Ends (refreshGlue x) p (fun _ q => Refresh p x q) fun _ _ => False := by
  have hback : p.backing? x = e.backing.map Backing.node := Page.backing?_of_form? (Page.form?_of_find? he)
  refine Ends.bind (ends_ask (fun e' he' => ?_) fun e' he' => ?_)
  · obtain rfl := Option.some.inj (he.symm.trans (Page.get_eq_ok_iff.1 he'))
    split
    · rename_i hb
      refine Ends.pure (.keep fun n hn => ?_)
      rw [hback, hb] at hn
      cases hn
    · rename_i b hb
      have hb' : p.backing? x = some b.node := hback.trans (congrArg _ hb)
      obtain ⟨m, hm⟩ : ∃ m, p.arena.find? b.node = some m := by
        have hw := h.writes (hb ▸ Page.form?_of_find? he)
        cases b with
        | _ node =>
          obtain ⟨m, hm, -⟩ := hw
          exact ⟨m, hm⟩
      obtain ⟨needed, hn, hok⟩ := h.neededGlue?_ok hm
      refine Ends.bind (ends_ask (fun needed' hn' => ?_) fun _ hn' => by cases hn.symm.trans hn')
      obtain rfl := Except.ok.inj (hn.symm.trans hn')
      cases needed with
      | none =>
        refine Ends.pure (.keep fun n hx => ?_)
        obtain rfl := Option.some.inj (hb'.symm.trans hx)
        exact hn
      | some new =>
        obtain ⟨payload, glue⟩ := new
        obtain ⟨-, -, hl, hg⟩ := hok payload glue rfl
        refine ends_surgery (Ends.bind (Surgery.ends_setPayload ?_))
        have hset : Ends (Surgery.setGlue b.node glue) (p.arena.setPayload b.node payload)
            (fun _ c => (p.arena.setPayload b.node payload).setGlue b.node (some glue) = .ok c)
            fun _ _ => True :=
          Surgery.ends_change (fun _ hc => PageError.eq_ok_of_ofArena hc) fun _ _ => trivial
        refine ((Surgery.ends_setGlue_of_fits (n := { m with payload }) ?_ hl hg).and hset).mono
          (fun _ _ hc => .renew hb' hn hc.2) fun _ _ hc => hc.1
        simp [Arena.setPayload, hm]
  · rw [Page.get_eq_ok_iff.2 he] at he'
    cases he'

theorem Refresh.refreshed [Entities] {q : Page} (hq : Refresh p x q) (h : p.Synced) : Refreshed p x q := by
  cases hq with
  | keep hn =>
    exact ⟨⟨p.arena, .refl _, .refl _, rfl⟩, fun _ n hx hun =>
      Page.worded_of_neededGlue?_none hun (hn n hx)⟩
  | @renew n payload glue b hn hneed hset =>
    obtain ⟨m, hm⟩ := Arena.exists_of_index_lt (h.backing_lt hn)
    obtain ⟨needed, hok, hfits⟩ := h.neededGlue?_ok hm
    obtain rfl := Except.ok.inj (hneed.symm.trans hok)
    obtain ⟨ht, hk, -, -⟩ := hfits payload glue rfl
    refine ⟨⟨b, ht.trans (.setGlue hset), hk.trans (Arena.Reglued.setGlue hset).keepsTags, rfl⟩,
      fun _ n' hx hun => ?_⟩
    obtain rfl := Option.some.inj (hn.symm.trans hx)
    exact Page.worded_of_neededGlue?_some hun hneed hset

theorem TidiedPage.calm {q : Page} (h : p.Synced) (hq : TidiedPage p q) : p.Calm q := by
  obtain ⟨b, hb, hk, rfl⟩ := hq
  exact h.calm_tidied hb hk

/-- Where a node goes that is put among the others. -/
structure Goes (p : Page) (x : ElementId) (c : NodeId) (i : Nat) (u v : List ElementId)
    (s t : List NodeId) : Prop where
  children : p.childrenOf x = u ++ v
  length : u.length = i
  kids : p.arena.kids c = s ++ t
  left : (u.filterMap p.backing?).Sublist s
  right : (v.filterMap p.backing?).Sublist t

theorem childIndex_ok {i : Nat} (h : p.childIndex x y = .ok i) :
    ∃ u v, p.childrenOf x = u ++ y :: v ∧ u.length = i := by
  obtain ⟨l, hl, h⟩ := Except.exists_of_bind h
  obtain ⟨e, he, rfl⟩ := Page.find?_of_children hl
  cases hi : e.children.idxOf? y with
  | none => simp [hi, refuse] at h
  | some j =>
    obtain rfl : j = i := by simpa [hi] using h
    obtain ⟨u, v, huv, hlen, -⟩ := Arena.split_of_idxOf? hi
    exact ⟨u, v, (Page.childrenOf_of_find? he).trans huv, hlen⟩

theorem exists_childIndex {e : Element} (he : p.find? x = some e) (hy : y ∈ p.childrenOf x) :
    ∃ i, p.childIndex x y = .ok i := by
  rw [Page.childrenOf_of_find? he] at hy
  obtain ⟨i, hi⟩ := Option.ne_none_iff_exists'.1 (mt List.idxOf?_eq_none_iff.1 (not_not.2 hy))
  exact ⟨i, by simp [Page.childIndex, Page.children_of_find? he, hi, bind, Except.bind]⟩

theorem exists_backing_mem (h : p.Synced) (hx : x ≠ Page.root) (hc : p.container? x = some c)
    (hy : y ∈ p.childrenOf x) : ∃ m, p.backing? y = some m ∧ m ∈ p.arena.kids c := by
  obtain ⟨m, hm⟩ := h.exists_backing hx hy
  exact ⟨m, hm, (h.kept hc).subset (List.mem_filterMap.2 ⟨y, hy, hm⟩)⟩

theorem exists_child (h : p.Synced) (hx : x ≠ Page.root) (hy : y ∈ p.childrenOf x) :
    ∃ c n, p.container? x = some c ∧ p.backing? y = some n ∧ n ∈ p.arena.kids c := by
  cases hc : p.container? x with
  | none =>
    rw [h.bare hc hx] at hy
    cases hy
  | some c =>
    obtain ⟨n, hn, hmem⟩ := exists_backing_mem h hx hc hy
    exact ⟨c, n, rfl, hn, hmem⟩

/-- What stands in a container before a place for a new child and behind it. -/
def Gap (p : Page) (s t : List NodeId) : Position → Prop
  | .first => s = []
  | .last => t = []
  | .before reference => ∃ m t', p.backing? reference = some m ∧ t = m :: t'
  | .after reference => ∃ m s', p.backing? reference = some m ∧ s = s' ++ [m]

/-- A node that stands nowhere can be put into a container. -/
theorem ends_insertNode (h : p.Synced) (hx : x ≠ Page.root) {position : Position} {i : Nat}
    (hi : p.positionIndex x position = .ok i) (hc : p.container? x = some c)
    (hloose : p.arena.Loose n) :
    Ends (insertNode c n position) p
      (fun _ q => ∃ u v s t, Goes p x c i u v s t ∧ Gap p s t position ∧
        q = { p with arena := p.arena.setItems c (s ++ n :: t) }) fun _ _ => False := by
  obtain ⟨items, hitems⟩ := h.find?_container hc
  have hki : p.arena.kids c = items := Arena.kids_of_find? hitems
  have hnodup : items.Nodup := hki ▸ h.sound.nodup c
  have hout : n ∉ items := hki ▸ hloose c
  cases position with
  | first =>
    refine ends_surgery (Surgery.ends_change (fun b hb => ?_) fun _ he => by
      cases he.symm.trans (Arena.prependItem_eq_ok hitems hout))
    obtain ⟨t, ⟨g, hg⟩, -, rfl⟩ := Arena.exists_of_prependItem hb
    have hk : p.arena.kids c = [] ++ t := Arena.kids_of_find? hg
    have hs := h.kept hc
    rw [hk] at hs
    exact ⟨[], _, [], t, ⟨rfl, Except.ok.inj hi, hk, .slnil, hs⟩, rfl, rfl⟩
  | last =>
    refine ends_surgery (Surgery.ends_change (fun b hb => ?_) fun _ he => by
      cases he.symm.trans (Arena.appendItem_eq_ok hitems hout))
    obtain ⟨s, ⟨g, hg⟩, -, rfl⟩ := Arena.exists_of_appendItem hb
    have hk : p.arena.kids c = s ++ [] := Arena.kids_of_find? hg
    obtain ⟨l, hl, rfl⟩ := Except.exists_of_map hi
    obtain ⟨e, he, rfl⟩ := Page.find?_of_children hl
    have hch := Page.childrenOf_of_find? he
    refine ⟨e.children, [], s, [], ⟨by simpa using hch, rfl, hk, ?_, .slnil⟩, rfl, rfl⟩
    simpa [hk, hch] using h.kept hc
  | before r =>
    obtain ⟨u, v, hch, rfl⟩ := childIndex_ok hi
    obtain ⟨m', hm', hmem⟩ := exists_backing_mem h hx hc (y := r) (by simp [hch])
    have hnode := Page.backingNode_of_backing? hm'
    obtain ⟨b', hb'⟩ := Arena.insertBefore_eq_ok hitems hnodup (hki ▸ hmem) hout
    refine Ends.bind (ends_ask (fun m hm => ?_) fun _ he => by cases he.symm.trans hnode)
    obtain rfl := Except.ok.inj (hnode.symm.trans hm)
    refine ends_surgery (Surgery.ends_change (fun b hb => ?_) fun _ he => by cases he.symm.trans hb')
    obtain ⟨s, t, -, ⟨g, hg⟩, -, rfl⟩ := Arena.exists_of_insertBefore hb
    have hk : p.arena.kids c = s ++ m' :: t := Arena.kids_of_find? hg
    have hm := Page.backing?_of_backingNode hm
    obtain ⟨hu, hv⟩ := h.kept_sides hc hch hm hk
    refine ⟨u, r :: v, s, m' :: t, ⟨hch, rfl, hk, hu, ?_⟩, ⟨m', t, hm, rfl⟩, rfl⟩
    rw [List.filterMap_cons_some hm]
    exact hv.cons_cons m'
  | after r =>
    obtain ⟨j, hj, rfl⟩ := Except.exists_of_map hi
    obtain ⟨u, v, hch, rfl⟩ := childIndex_ok hj
    obtain ⟨m', hm', hmem⟩ := exists_backing_mem h hx hc (y := r) (by simp [hch])
    have hnode := Page.backingNode_of_backing? hm'
    obtain ⟨b', hb'⟩ := Arena.insertAfter_eq_ok hitems hnodup (hki ▸ hmem) hout
    refine Ends.bind (ends_ask (fun m hm => ?_) fun _ he => by cases he.symm.trans hnode)
    obtain rfl := Except.ok.inj (hnode.symm.trans hm)
    refine ends_surgery (Surgery.ends_change (fun b hb => ?_) fun _ he => by cases he.symm.trans hb')
    obtain ⟨s, t, -, ⟨g, hg⟩, -, rfl⟩ := Arena.exists_of_insertAfter hb
    have hk : p.arena.kids c = s ++ [m'] ++ t := Arena.kids_of_find? hg
    have hm := Page.backing?_of_backingNode hm
    obtain ⟨hu, hv⟩ := h.kept_sides hc hch hm (by simpa using hk)
    refine ⟨u ++ [r], v, s ++ [m'], t, ⟨by simpa using hch, by simp, hk, ?_, hv⟩, ⟨m', s, hm, rfl⟩,
      rfl⟩
    simpa [hm] using hu

theorem refilled_of_find? {ch : List ElementId} {items : List NodeId} {q : Page} {e : Element}
    (he : p.find? x = some e) {f : List ElementId → List ElementId} (hf : f (p.childrenOf x) = ch)
    {g : ElementId → Option ElementId → Option ElementId}
    (ha : q = { p with arena := p.arena.setItems c items, elements := q.elements })
    (hq : ∀ z, q.find? z = (p.find? z).map fun e => { e with
      parent := g z e.parent
      children := if z = x then f e.children else e.children })
    (hp : ∀ z, g z (p.parentOf z) =
      if z ∈ ch then some x else if z ∈ p.childrenOf x then none else p.parentOf z) :
    p.Refilled x c ch items q := by
  refine ⟨by rw [ha], by rw [ha], by rw [ha], by rw [ha], fun z => ?_⟩
  rw [hq]
  cases hz : p.find? z with
  | none => rfl
  | some ez =>
    have hpz := hp z
    rw [Page.parentOf_of_find? hz] at hpz
    simp only [Option.map_some, Page.setChildren, ← hpz]
    by_cases hzx : z = x
    · subst z
      obtain rfl := Option.some.inj (he.symm.trans hz)
      simp [← hf, Page.childrenOf_of_find? he]
    · simp [hzx]

section

variable {u v : List ElementId} {items : List NodeId} {e : Element}

theorem refilled_insert (h : p.Synced) (he : p.find? x = some e) (hch : p.childrenOf x = u ++ v) :
    p.Refilled x c (u ++ y :: v) items
      (Page.update (Page.update { p with arena := p.arena.setItems c items } x fun e =>
        { e with children := e.children.insertIdx u.length y }) y fun e =>
        { e with parent := some x }) := by
  refine refilled_of_find? he (f := fun l => l.insertIdx u.length y)
    (g := fun z o => if z = y then some x else o) ?_ rfl (fun z => ?_) fun z => ?_
  · rw [hch, Arena.insertIdx_length]
  · rw [Page.find?_update, Page.find?_update]
    change (if z = y then (if z = x then (p.find? z).map _ else p.find? z).map _ else
      if z = x then (p.find? z).map _ else p.find? z) = _
    by_cases hzx : z = x <;> by_cases hzy : z = y <;> cases p.find? z <;> simp_all
  · by_cases hzy : z = y
    · simp [hzy]
    · by_cases hzc : z ∈ p.childrenOf x
      · have hmem : z ∈ u ∨ z ∈ v := by simpa [hch] using hzc
        simp [hzy, hmem, h.parent_iff.2 hzc]
      · have hmem : z ∉ u ∧ z ∉ v := by simpa [hch] using hzc
        simp [hzy, hmem, hzc]

theorem refilled_remove (h : p.Synced) (he : p.find? x = some e)
    (hch : p.childrenOf x = u ++ y :: v) :
    p.Refilled x c (u ++ v) items
      (Page.update (Page.update { p with arena := p.arena.setItems c items } x fun e =>
        { e with children := e.children.eraseIdx u.length }) y fun e =>
        { e with parent := none }) := by
  have hd := hch ▸ h.forest.nodup x
  rw [List.nodup_middle, List.nodup_cons, List.mem_append, not_or] at hd
  refine refilled_of_find? he (f := fun l => l.eraseIdx u.length)
    (g := fun z o => if z = y then none else o) ?_ rfl (fun z => ?_) fun z => ?_
  · simp [hch, List.eraseIdx_append_of_length_le]
  · rw [Page.find?_update, Page.find?_update]
    change (if z = y then (if z = x then (p.find? z).map _ else p.find? z).map _ else
      if z = x then (p.find? z).map _ else p.find? z) = _
    by_cases hzx : z = x <;> by_cases hzy : z = y <;> cases p.find? z <;> simp_all
  · by_cases hzy : z = y
    · simp [hzy, hd.1, hch]
    · by_cases hzc : z ∈ p.childrenOf x
      · have hmem : z ∈ u ∨ z ∈ v := by simpa [hch, hzy] using hzc
        simp [hzy, hmem, h.parent_iff.2 hzc]
      · have hmem : z ∉ u ∧ z ∉ v := by simpa [hch, hzy] using hzc
        simp [hzy, hmem, hzc]

theorem refilled_replace (h : p.Synced) {w : ElementId} (he : p.find? x = some e)
    (hch : p.childrenOf x = u ++ y :: v) (hw : w ∉ p.childrenOf x) :
    p.Refilled x c (u ++ w :: v) items
      (Page.update (Page.update (Page.update { p with arena := p.arena.setItems c items } x fun e =>
        { e with children := e.children.set u.length w }) w fun e =>
        { e with parent := some x }) y fun e => { e with parent := none }) := by
  have hd := hch ▸ h.forest.nodup x
  rw [List.nodup_middle, List.nodup_cons, List.mem_append, not_or] at hd
  have hwy : w ≠ y := by
    rintro rfl
    exact hw (by simp [hch])
  refine refilled_of_find? he (f := fun l => l.set u.length w)
    (g := fun z o => if z = y then none else if z = w then some x else o) ?_ rfl (fun z => ?_)
    fun z => ?_
  · simp [hch]
  · simp only [Page.find?_update]
    change (if z = y then (if z = w then (if z = x then (p.find? z).map _ else p.find? z).map _ else
      if z = x then (p.find? z).map _ else p.find? z).map _ else
      if z = w then (if z = x then (p.find? z).map _ else p.find? z).map _ else
      if z = x then (p.find? z).map _ else p.find? z) = _
    by_cases hzx : z = x <;> by_cases hzy : z = y <;> by_cases hzw : z = w <;>
      cases p.find? z <;> simp_all
  · by_cases hzy : z = y
    · simp [hzy, hd.1, hwy.symm, hch]
    · by_cases hzc : z ∈ p.childrenOf x
      · have hmem : z ∈ u ∨ z ∈ v := by simpa [hch, hzy] using hzc
        have hzw : z ≠ w := fun he => hw (he ▸ hzc)
        simp [hzy, hmem, hzw, h.parent_iff.2 hzc]
      · have hmem : z ∉ u ∧ z ∉ v := by simpa [hch, hzy] using hzc
        by_cases hzw : z = w <;> simp [hzy, hmem, hzw, hzc, hwy]

end

theorem find?_refilled {q : Page} {ch : List ElementId} {items : List NodeId} {e : Element}
    (hq : p.Refilled x c ch items q) (he : p.find? y = some e) : ∃ e', q.find? y = some e' :=
  ⟨_, (hq.find?_eq y).trans (congrArg _ he)⟩

/-- The node that has the list is the only one that may be wrong about it, and it is given new glue. -/
theorem Refreshed.keepsWording [Entities] {q r : Page} {ch : List ElementId} {items : List NodeId}
    (h : p.Synced) (hc : p.container? x = some c) (hq : p.Refilled x c ch items q)
    (hr : Refreshed q x r) : p.arena.KeepsWording r.arena := by
  intro source hw
  have hform : q.form? = p.form? := Page.form?_of_map hq.find?_eq fun _ _ => ⟨rfl, rfl⟩
  obtain ⟨n, m, hm, hs, hn⟩ := h.container_slot hc
  rcases hn with ⟨rfl, rfl⟩ | hn
  · obtain rfl := Option.some.inj (hc.symm.trans h.body_container)
    obtain ⟨old, hi⟩ := h.find?_container hc
    refine hr.worded source p.arena.content ?_ (Arena.Worded.unsettled ?_ _)
    · rw [Page.backing?_congr hform, h.body_backing]
    · rw [hq.arena]
      exact hw.setItems_of_isOpen hi h.isOpen_content items
  · refine hr.worded source n ?_ ?_
    · rw [Page.backing?_congr hform, hn]
    · rw [hq.arena]
      exact hw.unsettled_setItems h.sound hm hs items

/-- Some nodes in the container of an element, with their elements, have given way to others. -/
structure Exchange (p : Page) (x : ElementId) (c : NodeId) (s r b t : List NodeId) (q : Page) :
    Prop where
  container : p.container? x = some c
  kids : p.arena.kids c = s ++ r ++ t
  new : ∀ n ∈ b, ∃ y, p.Insertable x y ∧ p.backing? y = some n
  filled : ∃ ch, p.Fill x c ch (s ++ b ++ t) ∧ p.Refilled x c ch (s ++ b ++ t) q

namespace Exchange

variable {s r b t : List NodeId} {q q' : Page}

theorem find?_ne_none (hq : Exchange p x c s r b t q) : ∃ e, q.find? x = some e := by
  obtain ⟨ch, -, hr⟩ := hq.filled
  obtain ⟨e, he⟩ := Page.find?_of_container? hq.container
  exact find?_refilled hr he

theorem arena (hq : Exchange p x c s r b t q) : q.arena = p.arena.setItems c (s ++ b ++ t) := by
  obtain ⟨ch, -, hr⟩ := hq.filled
  exact hr.arena

theorem synced (hq : Exchange p x c s r b t q) (h : p.Synced) : q.Synced := by
  obtain ⟨ch, hf, hr⟩ := hq.filled
  exact hf.synced h hr

theorem keepsWording [Entities] (hq : Exchange p x c s r b t q) (h : p.Synced) (hq' : Refreshed q x q') :
    p.arena.KeepsWording q'.arena := by
  obtain ⟨ch, -, hr⟩ := hq.filled
  exact hq'.keepsWording h hq.container hr

theorem calm (hq : Exchange p x c s [] b t q) (h : p.Synced) : p.Calm q := by
  obtain ⟨ch, hf, hr⟩ := hq.filled
  refine hf.calm h hr fun m hm => ?_
  rw [hq.kids] at hm
  simp only [List.mem_append, List.not_mem_nil, or_false] at hm ⊢
  tauto

theorem cut (hq : Exchange p x c s [n] b t q) (h : p.Synced) (hn : p.backing? y = some n) :
    p.Cut n q := by
  obtain ⟨ch, hf, hr⟩ := hq.filled
  refine hf.cut h hr hn (by simp [hq.kids]) fun m hm hne => ?_
  rw [hq.kids] at hm
  simp only [List.mem_append, List.mem_singleton] at hm ⊢
  tauto

theorem cut_refreshed [Entities] (hq : Exchange p x c s [n] b t q) (h : p.Synced) (hn : p.backing? y = some n)
    (hq' : Refreshed q x q') : p.Cut n q' := by
  obtain ⟨b, hb, hkeeps, rfl⟩ := hq'.tidied
  exact (hq.cut h hn).tidied hb hkeeps

end Exchange

/-- A child that may be put below an element, at a place that there is, is put there. -/
theorem ends_insertChild_of_checked (h : p.Synced) {position : Position}
    (hok : p.checkInsertable x y = .ok ()) {i : Nat} (hpos : p.positionIndex x position = .ok i) :
    Ends (insertChild x y position) p
      (fun _ q' => ∃ c n s t q, (p.backing? y = some n ∧ Exchange p x c s [] [n] t q ∧
        Gap p s t position ∧ Refresh q x q') ∧
        ∃ u v, p.childrenOf x = u ++ v ∧ p.Refilled x c (u ++ y :: v) (s ++ n :: t) q)
      fun _ _ => False := by
  obtain ⟨hi, hx, ⟨c, hc⟩, n, hn⟩ := h.insertable hok
  have hc' := Page.childContainer_of_container? hc
  have hn' := Page.backingNode_of_backing? hn
  refine Ends.bind (ends_ask (fun _ _ => ?_) fun _ he => by cases he.symm.trans hok)
  refine Ends.bind (ends_ask (fun i' hi' => ?_) fun _ he => by cases he.symm.trans hpos)
  obtain rfl := Except.ok.inj (hpos.symm.trans hi')
  refine Ends.bind (ends_ask (fun c' hc'' => ?_) fun _ he => by cases he.symm.trans hc')
  obtain rfl := Except.ok.inj (hc'.symm.trans hc'')
  refine Ends.bind (ends_ask (fun n' hn'' => ?_) fun _ he => by cases he.symm.trans hn')
  obtain rfl := Except.ok.inj (hn'.symm.trans hn'')
  refine (ends_insertNode h hx hpos hc (h.loose hi.parent hn)).step (fun _ q hq => ?_)
    fun _ _ hf => hf.elim
  obtain ⟨u, v, s, t, hg, hgap, rfl⟩ := hq
  obtain rfl := hg.length
  have hf := h.fill (w := []) (a := [y]) (r := []) (b := [n]) hx hc (by simpa using hg.children)
    (by simpa using hg.kids) hg.left hg.right rfl (by simp [hn]) (by simpa using hi)
    (List.nodup_singleton y)
  obtain ⟨ex, hex⟩ := Page.find?_of_container? hc
  obtain ⟨ey, hey⟩ := hi.known
  refine Ends.bind (ends_update (fun _ _ => ?_) fun hno => by cases hno.symm.trans hex)
  refine Ends.bind (ends_update (fun _ _ => ?_) fun hno =>
    by cases (Page.find?_update_eq_none_iff.1 hno).symm.trans hey)
  have hr : p.Refilled x c (u ++ y :: v) (s ++ n :: t) _ := refilled_insert h hex hg.children
  have hq : Exchange p x c s [] [n] t _ :=
    ⟨hc, by simpa using hg.kids, by simpa using ⟨y, hi, hn⟩, _, hf, by simpa using hr⟩
  obtain ⟨e, he⟩ := hq.find?_ne_none
  exact (ends_refresh (hq.synced h) he).mono
    (fun _ _ hq' => ⟨c, n, s, t, _, ⟨hn, hq, hgap, hq'⟩, u, v, hg.children, hr⟩) fun _ _ hf => hf

theorem ends_insertChild_exchange (h : p.Synced) {position : Position} :
    Ends (insertChild x y position) p
      (fun _ q' => ∃ c n s t q, p.backing? y = some n ∧ Exchange p x c s [] [n] t q ∧
        Gap p s t position ∧ Refresh q x q') (p.Refuses [x, y]) := by
  cases hok : p.checkInsertable x y with
  | error e =>
    refine Ends.bind (ends_ask_refuses (fun _ hok' => by cases hok.symm.trans hok') fun hk => ?_)
    obtain ⟨e, he⟩ := hk x (by simp)
    obtain ⟨e', he'⟩ := hk y (by simp)
    exact Page.neverFaults_checkInsertable he he'
  | ok _ =>
    cases hpos : p.positionIndex x position with
    | error e =>
      refine Ends.bind (ends_ask (fun _ _ => ?_) fun _ he => by cases he.symm.trans hok)
      refine Ends.bind (ends_ask_refuses (fun _ hpos' => by cases hpos.symm.trans hpos') fun hk => ?_)
      obtain ⟨e, he⟩ := hk x (by simp)
      exact Page.neverFaults_positionIndex he position
    | ok i =>
      refine (ends_insertChild_of_checked h hok hpos).mono (fun _ q' hq => ?_) fun _ _ hf => hf.elim
      obtain ⟨c, n, s, t, q, hq, -⟩ := hq
      exact ⟨c, n, s, t, q, hq⟩

theorem ends_insertChild [Entities] (h : p.Synced) {position : Position} :
    Ends (insertChild x y position) p (fun _ q => p.Calm q ∧ p.arena.KeepsWording q.arena)
      (p.Refuses [x, y]) := by
  refine (ends_insertChild_exchange h).mono (fun _ q' hq' => ?_) fun _ _ hq => hq
  obtain ⟨c, n, s, t, q, -, hq, -, hq'⟩ := hq'
  have hst := hq.calm h
  have hq' := hq'.refreshed hst.synced
  exact ⟨hst.trans (hq'.tidied.calm hst.synced), hq.keepsWording h hq'⟩

theorem isCalm_insertChild [Entities] (h : p.Synced) {position : Position} :
    IsCalm (insertChild x y position) p [x, y] :=
  (ends_insertChild h).mono (fun _ _ hq => hq.1) fun _ _ hq => hq

/-- A child is taken out, and the categories in it are to be kept. -/
theorem ends_removeChild_of_child {Q : Unit → Page → Prop} {E : PageError → Page → Prop}
    (h : p.Synced) {model : ContentModel} (hmodel : p.contentModel x = .ok model) (hy : y ∈ p.childrenOf x)
    (hk : ∀ c n s t q q', p.backing? y = some n → Exchange p x c s [n] [] t q → Refresh q x q' →
      Ends (keepCategories n) q' Q E) : Ends (removeChild x y) p Q E := by
  refine Ends.bind (ends_ask (fun _ _ => ?_) fun _ he => by cases he.symm.trans hmodel)
  obtain ⟨ex, hex, hexk, -⟩ := Page.contentModel_ok hmodel
  have hx := h.ne_root_of_kind hex hexk
  obtain ⟨j, hj⟩ := exists_childIndex hex hy
  refine Ends.bind (ends_ask (fun i hi => ?_) fun _ he => by cases he.symm.trans hj)
  obtain ⟨u, v, hch, rfl⟩ := childIndex_ok hi
  obtain ⟨c, n, hc, hn, hmem⟩ := exists_child h hx (y := y) (by simp [hch])
  have hc' := Page.childContainer_of_container? hc
  have hn' := Page.backingNode_of_backing? hn
  refine Ends.bind (ends_ask (fun c' hc'' => ?_) fun _ he => by cases he.symm.trans hc')
  obtain rfl := Except.ok.inj (hc'.symm.trans hc'')
  refine Ends.bind (ends_ask (fun n' hn'' => ?_) fun _ he => by cases he.symm.trans hn')
  obtain rfl := Except.ok.inj (hn'.symm.trans hn'')
  obtain ⟨items, hitems⟩ := h.find?_container hc
  have hki : p.arena.kids c = items := Arena.kids_of_find? hitems
  obtain ⟨s, t, rfl, hremove⟩ := Arena.removeItem_eq_ok hitems (hki ▸ h.sound.nodup c) (hki ▸ hmem)
  refine Ends.bind (ends_surgery (Surgery.ends_change (fun b hb => ?_) fun _ he => by
    cases he.symm.trans hremove))
  obtain rfl := Except.ok.inj (hremove.symm.trans hb)
  have hkids : p.arena.kids c = s ++ n :: t := hki
  obtain ⟨hu, hv⟩ := h.kept_sides hc hch hn hkids
  have hf := h.fill (w := [y]) (a := []) (r := [n]) (b := []) hx hc
    (by simpa using hch) (by simpa using hkids) hu hv (by simp [hn]) rfl (by simp) List.nodup_nil
  obtain ⟨ey, hey⟩ := Page.find?_of_backing? hn
  refine Ends.bind (ends_update (fun _ _ => ?_) fun hno => by cases hno.symm.trans hex)
  refine Ends.bind (ends_update (fun _ _ => ?_) fun hno =>
    by cases (Page.find?_update_eq_none_iff.1 hno).symm.trans hey)
  have hr : p.Refilled x c (u ++ v) (s ++ t) _ := refilled_remove h hex hch
  have hq : Exchange p x c s [n] [] t _ :=
    ⟨hc, by simpa using hkids, nofun, _, hf, by simpa using hr⟩
  obtain ⟨e, he⟩ := hq.find?_ne_none
  exact (ends_refresh (hq.synced h) he).step (fun _ _ hq' => hk c n s t _ _ hn hq hq')
    fun _ _ hf => hf.elim

theorem ends_removeChild_exchange {Q : Unit → Page → Prop} {E : PageError → Page → Prop}
    (h : p.Synced)
    (hk : ∀ c n s t q q', p.backing? y = some n → Exchange p x c s [n] [] t q → Refresh q x q' →
      Ends (keepCategories n) q' Q E)
    (hE : ∀ e q, p.Refuses [x, y] e q → E e q) : Ends (removeChild x y) p Q E := by
  cases hmodel : p.contentModel x with
  | error e =>
    refine Ends.bind ((ends_ask_refuses (fun _ hok => by cases hok.symm.trans hmodel) fun hk => ?_).mono
      (fun _ _ h => h) hE)
    obtain ⟨e, he⟩ := hk x (by simp)
    exact Page.neverFaults_contentModel he
  | ok model =>
    obtain ⟨ex, hex, -, -⟩ := Page.contentModel_ok hmodel
    cases hi : p.childIndex x y with
    | error e =>
      refine Ends.bind (ends_ask (fun _ _ => ?_) fun _ he => by cases he.symm.trans hmodel)
      exact Ends.bind ((ends_ask_refuses (fun _ hok => by cases hok.symm.trans hi) fun _ =>
        Page.neverFaults_childIndex hex y).mono (fun _ _ h => h) hE)
    | ok i =>
      obtain ⟨u, v, hch, -⟩ := childIndex_ok hi
      exact ends_removeChild_of_child h hmodel (by simp [hch]) hk

theorem ends_removeChild [Entities] {Q : Unit → Page → Prop} {E : PageError → Page → Prop} (h : p.Synced)
    (hk : ∀ n q, p.Cut n q → p.arena.KeepsWording q.arena → Ends (keepCategories n) q Q E)
    (hE : ∀ e q, p.Refuses [x, y] e q → E e q) : Ends (removeChild x y) p Q E :=
  ends_removeChild_exchange h (fun _ n _ _ _ _ hn hq hq' =>
    hk n _ (hq.cut_refreshed h hn (hq'.refreshed (hq.synced h)))
      (hq.keepsWording h (hq'.refreshed (hq.synced h)))) hE

theorem ends_replaceChild_exchange {w : ElementId} {Q : Unit → Page → Prop}
    {E : PageError → Page → Prop} (h : p.Synced)
    (hk : ∀ c n n' s t q q', p.backing? y = some n → p.backing? w = some n' →
      Exchange p x c s [n] [n'] t q → Refresh q x q' → Ends (keepCategories n) q' Q E)
    (hE : ∀ e q, p.Refuses [x, w] e q → E e q) : Ends (replaceChild x w y) p Q E := by
  refine Ends.bind ((ends_ask_refuses (fun _ hok => ?_) fun hk => ?_).mono (fun _ _ h => h) hE)
  swap
  · obtain ⟨e, he⟩ := hk x (by simp)
    obtain ⟨e', he'⟩ := hk w (by simp)
    exact Page.neverFaults_checkInsertable he he'
  obtain ⟨hw, hx, ⟨c, hc⟩, n', hn'⟩ := h.insertable hok
  refine Ends.bind ((ends_ask_refuses (fun i hi => ?_) fun hk => ?_).mono (fun _ _ h => h) hE)
  swap
  · obtain ⟨e, he⟩ := hk x (by simp)
    exact Page.neverFaults_childIndex he y
  obtain ⟨u, v, hch, rfl⟩ := childIndex_ok hi
  obtain ⟨n, hn, hmem⟩ := exists_backing_mem h hx hc (y := y) (by simp [hch])
  have hcok := Page.childContainer_of_container? hc
  have hnok := Page.backingNode_of_backing? hn
  have hnok' := Page.backingNode_of_backing? hn'
  refine Ends.bind (ends_ask (fun _ hok' => ?_) fun _ he => by cases he.symm.trans hcok)
  obtain rfl := Except.ok.inj (hcok.symm.trans hok')
  refine Ends.bind (ends_ask (fun _ hok' => ?_) fun _ he => by cases he.symm.trans hnok)
  obtain rfl := Except.ok.inj (hnok.symm.trans hok')
  refine Ends.bind (ends_ask (fun _ hok' => ?_) fun _ he => by cases he.symm.trans hnok')
  obtain rfl := Except.ok.inj (hnok'.symm.trans hok')
  obtain ⟨items, hitems⟩ := h.find?_container hc
  have hki : p.arena.kids c = items := Arena.kids_of_find? hitems
  obtain ⟨s, t, rfl, hreplace⟩ := Arena.replaceItem_eq_ok hitems (hki ▸ h.sound.nodup c) (hki ▸ hmem)
    (hki ▸ h.loose hw.parent hn' c)
  refine Ends.bind (ends_surgery (Surgery.ends_change (fun b hb => ?_) fun _ he => by
    cases he.symm.trans hreplace))
  obtain rfl := Except.ok.inj (hreplace.symm.trans hb)
  have hkids : p.arena.kids c = s ++ n :: t := hki
  obtain ⟨hu, hv⟩ := h.kept_sides hc hch hn hkids
  have hf := h.fill (w := [y]) (a := [w]) (r := [n]) (b := [n']) hx hc
    (by simpa using hch) (by simpa using hkids) hu hv (by simp [hn]) (by simp [hn'])
    (by simpa using hw) (List.nodup_singleton w)
  obtain ⟨ex, hex⟩ := Page.find?_of_container? hc
  obtain ⟨ey, hey⟩ := Page.find?_of_backing? hn
  obtain ⟨ew, hew⟩ := hw.known
  refine Ends.bind (ends_update (fun _ _ => ?_) fun hno => by cases hno.symm.trans hex)
  refine Ends.bind (ends_update (fun _ _ => ?_) fun hno =>
    by cases (Page.find?_update_eq_none_iff.1 hno).symm.trans hew)
  refine Ends.bind (ends_update (fun _ _ => ?_) fun hno =>
    by cases (Page.find?_update_eq_none_iff.1 (Page.find?_update_eq_none_iff.1 hno)).symm.trans hey)
  have hwx : w ∉ p.childrenOf x := fun hm => by
    cases hw.parent.symm.trans (h.parent_iff.2 hm)
  have hr : p.Refilled x c (u ++ w :: v) (s ++ n' :: t) _ := refilled_replace h hex hch hwx
  have hq : Exchange p x c s [n] [n'] t _ :=
    ⟨hc, by simpa using hkids, by simpa using ⟨w, hw, hn'⟩, _, hf, by simpa using hr⟩
  obtain ⟨e, he⟩ := hq.find?_ne_none
  exact (ends_refresh (hq.synced h) he).step (fun _ _ hq' => hk c n n' s t _ _ hn hn' hq hq')
    fun _ _ hf => hf.elim

theorem ends_replaceChild [Entities] {w : ElementId} {Q : Unit → Page → Prop} {E : PageError → Page → Prop}
    (h : p.Synced)
    (hk : ∀ n q, p.Cut n q → p.arena.KeepsWording q.arena → Ends (keepCategories n) q Q E)
    (hE : ∀ e q, p.Refuses [x, w] e q → E e q) : Ends (replaceChild x w y) p Q E :=
  ends_replaceChild_exchange h (fun _ n _ _ _ _ _ hn _ hq hq' =>
    hk n _ (hq.cut_refreshed h hn (hq'.refreshed (hq.synced h)))
      (hq.keepsWording h (hq'.refreshed (hq.synced h)))) hE

end Edit
end WikiPage
