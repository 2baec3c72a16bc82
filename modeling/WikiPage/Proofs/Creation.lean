import WikiPage.Page.Create
import WikiPage.Page.Property
import WikiPage.Page.Text
import WikiPage.Proofs.Children

/-!
# New elements, texts and values

A new element comes with a new node and is on no page yet. Other texts and other values change nodes in
their places, or put one node in the place of another.
-/

namespace WikiPage

open Page (Synced)

namespace Page

variable {p : Page} {e : Element}

theorem SameRecords.push (p : Page) (hk : e.kind ≠ .category) (hl : e.links = [])
    (hc : e.children = []) :
    p.SameRecords (p.push e) := by
  have hlinks (x : ElementId) : (p.push e).linksOf x = p.linksOf x := by
    rw [linksOf, linksOf, find?_push]
    split
    · subst x
      simp [hl, find?_next]
    · rfl
  refine ⟨rfl, rfl, rfl, fun {x} => ?_, funext fun x => ?_, ?_, fun x => by rw [hlinks],
    fun h x l hm => h x l (hlinks x ▸ hm), fun _ => rfl⟩
  · rw [IsCategory, IsCategory, form?, form?, find?_push]
    split
    · subst x
      simp [hk, find?_next]
    · rfl
  · rw [Page.nameOf?, Page.nameOf?, find?_push]
    split
    · subst x
      simp [hk, find?_next]
    · rfl
  · rw [childrenOf, Tree.kids, find?_push, childrenOf, Tree.kids]
    split
    · rename_i hroot
      simp [hroot, hc, find?_next]
    · rfl

theorem Synced.steady_pushElement (h : p.Synced) (hp : e.parent = none) (hc : e.children = [])
    (hl : e.links = []) (ha : e.attributes.filterMap Attribute.node = [])
    (hk : e.kind ≠ .page ∧ e.kind ≠ .body) (hcat : e.kind ≠ .category)
    (hw : p.arena.Writes e.kind e.backing)
    (hnode : ∀ n, e.backing.map Backing.node = some n →
      p.arena.Loose n ∧ ¬p.Linked n ∧ ∀ y, p.backing? y ≠ some n)
    (hu : ∀ n, e.backing.map Backing.node = some n → p.Apart n) : p.Steady (p.push e) := by
  have hsame : p.SameRecords (p.push e) := .push p hcat hl hc
  refine ⟨hsame, h.pushElement hp hc hl ha hk hw hnode, fun _ hr => hr, fun _ _ _ _ _ hr => hr,
    fun hanchored x n hx hn hloose m hm => ?_⟩
  rw [backing?, form?, find?_push] at hn
  split at hn
  · exact hu n hn m (hsame.linked_iff.1 hm)
  · exact hanchored x n hx hn hloose m (hsame.linked_iff.1 hm)

theorem Synced.steady_newElement (h : p.Synced) {a : Arena} {kind : Kind} {b : Backing}
    (ha : p.Steady { p with arena := a }) (hb : p.arena.size ≤ b.node.index) (hl : a.Loose b.node)
    (hw : a.Writes kind (some b)) (hk : kind ≠ .page ∧ kind ≠ .body) (hcat : kind ≠ .category)
    (hu : Apart { p with arena := a } b.node) :
    p.Steady (Page.push { p with arena := a } { kind, backing := some b }) := by
  refine ha.trans (ha.synced.steady_pushElement rfl rfl rfl rfl hk hcat hw (fun n hn => ?_) fun n hn => ?_)
  all_goals obtain rfl := Option.some.inj hn
  swap
  · exact hu
  refine ⟨hl, fun hlink => ?_, fun y => h.backing_ne_of_fresh hb y⟩
  exact Nat.lt_irrefl _ (Nat.lt_of_lt_of_le (h.linked_lt (ha.linked_iff.1 hlink)) hb)

end Page

namespace Edit

variable {p : Page} {id : ElementId}

/-- A page with a new element and a new node for it. -/
structure Born (p : Page) (kind : Kind) (payload : Payload) (id : ElementId) (q : Page) : Prop where
  steady : p.Steady q
  spares : p.Spares q
  element : ∃ o g, (∀ x, q.find? x = if x = id then some { kind, backing := some o } else p.find? x) ∧
    q.arena.find? o.node = some ⟨payload, g⟩ ∧
    ∀ {l}, Page.attributesOf? payload = some l → q.arena.kids l = []

/-- A node that can be made for an element of a kind. -/
structure Makeable (p : Page) (a : Arena) (kind : Kind) (payload : Payload) : Prop where
  steady : p.Steady { p with arena := a }
  fits : a.Fits ⟨payload, none⟩
  nodup : payload.children.Nodup
  old : ∀ y ∈ payload.children, y.index < a.size
  loose : ∀ y ∈ payload.children, a.Loose y
  new : ∀ y ∈ payload.children, p.arena.size ≤ y.index
  /-- Nothing old stands below what is new. -/
  closed : ∀ x, p.arena.size ≤ x.index → ∀ y ∈ a.kids x, p.arena.size ≤ y.index
  exts : p.arena.Extends a
  /-- No attributes stand in it. -/
  bare : ∀ {l}, Page.attributesOf? payload = some l → a.kids l = []
  movable : kind ≠ .page ∧ kind ≠ .body
  not_category : kind ≠ .category

namespace Makeable

variable {a : Arena} {kind : Kind} {payload : Payload}

theorem push (h : p.Synced) (hm : Makeable p a kind payload) :
    p.Steady { p with arena := a.push ⟨payload, none⟩ } :=
  hm.steady.trans (hm.steady.synced.steady_push hm.fits hm.nodup hm.old hm.loose
    (fun y hy => h.backing_ne_of_fresh (hm.new y hy)) fun y hy => h.apart_of_fresh (hm.new y hy) hm.closed)

/-- The element that is made for the node. -/
theorem born (h : p.Synced) (hm : Makeable p a kind payload) {b : Arena} {o : Backing}
    (hb : (a.push ⟨payload, none⟩).Reglued b) (ho : o.node = a.next)
    (hw : (a.push ⟨payload, none⟩).Writes kind (some o)) :
    Born p kind payload p.next (Page.push { p with arena := b } { kind, backing := some o }) := by
  have hst := (hm.push h).tidied hb.toTidied
  have hext := hm.exts.trans (.push a ⟨payload, none⟩)
  refine ⟨h.steady_newElement hst (ho ▸ hm.exts.size_le) (fun x hx => ?_) (hb.evolves.writes hw)
    hm.movable hm.not_category (h.apart_of_fresh (ho ▸ hm.exts.size_le) fun x hx y hy => ?_),
    ⟨(hext.keepsTags h.sound).trans hb.keepsTags, fun {x n} hf => ?_⟩, ?_⟩
  · rw [hb.kids_eq, ho, Arena.kids_push] at hx
    split at hx
    · exact Nat.lt_irrefl _ (hm.old a.next hx)
    · exact Nat.lt_irrefl _ (hm.steady.synced.sound.closed x a.next hx)
  · rw [hb.kids_eq, Arena.kids_push] at hy
    split at hy
    · exact hm.new y hy
    · exact hm.closed x hx y hy
  · change b.target? n = _
    rw [hb.target?_eq]
    exact hext.target?_eq (h.backing_lt (n := n) (Page.backing?_of_form? hf))
  · obtain ⟨g, hg⟩ := Arena.exists_of_payload (Arena.find?_push_next a ⟨payload, none⟩)
      (hb.payload_eq a.next)
    refine ⟨o, g, fun x => Page.find?_push _ _ x, ho ▸ hg, fun {l} hl => ?_⟩
    have hlt := hm.old l (Payload.children_of_mem_slots (Page.mem_slots_of_attributesOf? hl))
    change b.kids l = []
    rw [hb.kids_eq, Arena.kids_push, if_neg]
    · exact hm.bare hl
    · rintro rfl
      exact Nat.lt_irrefl _ hlt

theorem leaf (h : p.Synced) (hc : payload.children = []) (hs : payload.slots = [])
    (hk : kind ≠ .page ∧ kind ≠ .body) (hcat : kind ≠ .category) : Makeable p p.arena kind payload :=
  ⟨h.steady_refl, ⟨by simp [hs], Node.glueFits_none⟩, by simp [hc], by simp [hc], by simp [hc],
    by simp [hc], fun x hx y hy => by simp [Arena.kids_eq_nil hx] at hy, .refl _,
    fun hl => absurd (Page.mem_slots_of_attributesOf? hl) (hs ▸ List.not_mem_nil), hk, hcat⟩

end Makeable

/-- An element of a kind is made with its node. -/
abbrev Makes (kind : Kind) (m : Edit ElementId) (p q : Page) : Prop :=
  Ends m q (fun id r => p.Calm r ∧ ∃ e, r.find? id = some e ∧ e.kind = kind) (p.Refuses [])

theorem Born.calm (h : p.Synced) {kind : Kind} {payload : Payload} {q : Page}
    (hq : Born p kind payload id q) (hk : kind ≠ .link) : p.Calm q := by
  refine ⟨hq.steady, fun hm => hm.spared h hq.steady.synced.sound hq.spares fun {x e} he => ?_⟩
  obtain ⟨o, g, hf, hn, hbare⟩ := hq.element
  rw [hf] at he
  split at he
  · obtain rfl := Option.some.inj he
    refine .inr (.nil hk fun {l} hl => ?_)
    cases o with
    | markup node => cases hl
    | tag node => exact hbare (by simpa [Arena.attributeList?, show q.arena.find? node = _ from hn] using hl)
  · exact .inl ⟨e, he, rfl, rfl, .inl rfl⟩

theorem Makes.of_born (h : p.Synced) {kind : Kind} {m : Edit ElementId} {q : Page}
    (hm : Ends m q (fun id r => ∃ payload, Born p kind payload id r) (p.Refuses []))
    (hk : kind ≠ .link) : Makes kind m p q := by
  refine Ends.mono hm (fun id r => ?_) fun _ _ hq => hq
  rintro ⟨payload, hr⟩
  obtain ⟨o, g, hf, -⟩ := hr.element
  exact ⟨hr.calm h hk, _, (hf id).trans (if_pos rfl), rfl⟩

theorem ends_makeNode (h : p.Synced) {a a₀ : Arena} {kind : Kind} {payload : Payload}
    {o : NodeId → Backing} (hm : Makeable p a kind payload) (ho : ∀ n, (o n).node = n)
    (hw : (a.push ⟨payload, none⟩).Writes kind (some (o a.next))) {s : Surgery NodeId}
    (hs : Ends s a₀ (fun n b => n = a.next ∧ (a.push ⟨payload, none⟩).Reglued b) fun _ _ => False) :
    Ends (surgery s >>= fun n => make { kind, backing := some (o n) }) { p with arena := a₀ }
      (fun id r => Born p kind payload id r) (p.Refuses []) := by
  refine Ends.bind (ends_surgery (hs.mono ?_ fun _ _ hf => hf.elim))
  rintro _ b ⟨rfl, hb⟩
  exact ends_make (hm.born h hb (ho _) hw)

theorem writes_push_next {a : Arena} {kind : Kind} {payload : Payload}
    (h : kind.marks payload = true) :
    (a.push ⟨payload, none⟩).Writes kind (some (.markup a.next)) :=
  ⟨_, Arena.find?_push_next a _, h⟩

theorem Makeable.exists_slot {a : Arena} {kind : Kind} {payload : Payload}
    (hm : Makeable p a kind payload) {s : NodeId × Role} (hs : s ∈ payload.slots) :
    ∃ items g, (a.push ⟨payload, none⟩).find? s.1 = some ⟨.list items, g⟩ := by
  obtain ⟨items, hi, -⟩ := hm.fits.lists s hs
  exact ⟨items, none, (Arena.Extends.push a _).find?_of_find? hi⟩

theorem ends_createMarkup (h : p.Synced) {a : Arena} {kind : Kind} {payload : Payload}
    (hm : Makeable p a kind payload) (hk : kind.marks payload = true) :
    Ends (createMarkup kind payload) { p with arena := a } (fun id r => Born p kind payload id r)
      (p.Refuses []) := by
  refine ends_makeNode h (o := Backing.markup) hm (fun _ => rfl) (writes_push_next hk) ?_
  refine Ends.bind (Surgery.ends_make ?_)
  refine (Surgery.ends_addGlue (Arena.find?_push_next a _) ?_ (fun _ => hm.exists_slot) ?_).step
    (fun _ _ hb => Ends.pure ⟨rfl, hb⟩) fun _ _ hf => hf
  · refine Bool.eq_false_iff.2 fun hl => hm.movable.2 ?_
    exact Kind.eq_body_of_marks_list hl hk
  · rintro name empty attributes body rfl
    cases kind <;> cases hk

theorem makes_markup (h : p.Synced) {kind : Kind} {payload : Payload}
    (hm : Makeable p p.arena kind payload) (hk : kind.marks payload = true) (hl : kind ≠ .link) :
    Makes kind (createMarkup kind payload) p p :=
  .of_born h ((ends_createMarkup h hm hk).mono (fun _ _ hq => ⟨payload, hq⟩) fun _ _ hq => hq) hl

theorem ends_createContaining (h : p.Synced) {kind : Kind} {payload : NodeId → Payload}
    (hs : ∀ n, (payload n).slots = [(n, .content)]) (hc : ∀ n, (payload n).children = [n])
    (hk : ∀ n, kind.marks (payload n) = true) (hk' : kind ≠ .page ∧ kind ≠ .body)
    (hcat : kind ≠ .category) : Ends (createContaining kind payload) p
      (fun id r => Born p kind (payload p.arena.next) id r) (p.Refuses []) := by
  refine Ends.bind (ends_surgery (Surgery.ends_make ?_))
  refine ends_createMarkup h ⟨h.steady_push_leaf rfl rfl Node.glueFits_none, ⟨fun s hs' => ?_,
    Node.glueFits_none⟩, ?_, fun y hy => ?_, fun y hy x hx => ?_, fun y hy => ?_, fun x hx y hy => ?_,
    .push _ _,
    fun {l} hl => ?_, hk', hcat⟩ (hk _)
  · rw [hs, List.mem_singleton] at hs'
    subst s
    exact .push_next (by simp)
  · rw [hc]
    exact List.nodup_singleton _
  all_goals try rw [hc, List.mem_singleton] at hy; subst y
  · exact Arena.next_index_lt _ _
  · rw [Arena.kids_push_leaf p.arena rfl] at hx
    exact h.loose_of_fresh (y := p.arena.next) (Nat.le_refl _) x hx
  · exact Nat.le_refl _
  · rw [Arena.kids_push_leaf p.arena rfl, Arena.kids_eq_nil hx] at hy
    cases hy
  · have hmem := Page.mem_slots_of_attributesOf? hl
    rw [hs] at hmem
    cases (Prod.mk.inj (List.mem_singleton.1 hmem)).2

theorem makes_containing (h : p.Synced) {kind : Kind} {payload : NodeId → Payload}
    (hs : ∀ n, (payload n).slots = [(n, .content)]) (hc : ∀ n, (payload n).children = [n])
    (hk : ∀ n, kind.marks (payload n) = true) (hk' : kind ≠ .page ∧ kind ≠ .body)
    (hcat : kind ≠ .category) (hl : kind ≠ .link) : Makes kind (createContaining kind payload) p p :=
  .of_born h ((ends_createContaining h hs hc hk hk' hcat).mono (fun _ _ hq => ⟨_, hq⟩)
    fun _ _ hq => hq) hl

theorem makes_createParagraph (h : p.Synced) : Makes .paragraph createParagraph p p :=
  makes_containing h (fun _ => rfl) (fun _ => rfl) (fun _ => rfl) ⟨nofun, nofun⟩ nofun nofun

theorem makes_createBold (h : p.Synced) : Makes .bold createBold p p :=
  makes_containing h (fun _ => rfl) (fun _ => rfl) (fun _ => rfl) ⟨nofun, nofun⟩ nofun nofun

theorem makes_createItalics (h : p.Synced) : Makes .italics createItalics p p :=
  makes_containing h (fun _ => rfl) (fun _ => rfl) (fun _ => rfl) ⟨nofun, nofun⟩ nofun nofun

theorem makes_createRule (h : p.Synced) : Makes .rule createRule p p :=
  makes_markup h (.leaf h rfl rfl ⟨nofun, nofun⟩ nofun) rfl nofun

theorem makes_createText (h : p.Synced) {s : String} : Makes .text (createText s) p p := by
  have hm : Makeable p p.arena .text (.text s) := .leaf h rfl rfl ⟨nofun, nofun⟩ nofun
  refine .of_born h ((ends_makeNode h (o := Backing.markup) hm (fun _ => rfl) (writes_push_next rfl)
    ?_).mono (fun _ _ hq => ⟨_, hq⟩) fun _ _ hq => hq) nofun
  exact Surgery.ends_make ⟨rfl, .refl _⟩

theorem neverFaults_checkCommentText (s : String) : NeverFaults (checkCommentText s) := by
  unfold checkCommentText
  split
  · exact .ok _
  · exact .refuse _

theorem makes_createComment (h : p.Synced) {s : String} :
    Makes .comment (createComment s) p p :=
  Ends.bind (ends_ask_refuses
    (fun _ _ => makes_markup h (.leaf h rfl rfl ⟨nofun, nofun⟩ nofun) rfl nofun)
    fun _ => neverFaults_checkCommentText s)

theorem neverFaults_checkLinkTarget (site : Site) (s : String) :
    NeverFaults (Verifier.checkLinkTarget site s) := by
  refine .bind ?_ fun _ _ => ?_
  · rw [checkTarget]
    split
    · exact .ok _
    · exact .refuse _
  · split
    · exact .refuse _
    · split
      · exact .refuse _
      · split
        · exact .refuse _
        · exact .ok _

def targetPolicy : Policy :=
  { name := "target", verifier := .linkTarget, removable := false, synced := false
    reaction := some .retarget }

theorem find?_targetPolicy : Policy.find? .link "target" = some targetPolicy := by decide +kernel

theorem policy_of_link {name : String} {policy : Policy} (h : Policy.find? .link name = some policy) :
    name.toLower = "target" ∧ policy = targetPolicy := by
  simp only [Policy.find?, Policy.specific, List.find?_cons, List.find?_nil, Kind.tag?] at h
  split at h
  · rename_i q hq
    split at hq
    · obtain rfl := Option.some.inj hq
      obtain rfl := Option.some.inj h
      rename_i hn
      exact ⟨(beq_iff_eq.1 hn).symm, rfl⟩
    · cases hq
  · cases h

theorem mirrors_store_target {whole : Prop} {a : Arena} {e : Element} {value : String}
    (hk : e.kind = .link) (lower : ∀ t ∈ e.attributes, t.name.toLower = t.name)
    (nodup : (e.attributes.map Attribute.name).Nodup)
    (ht : ∀ {n}, e.backing = some (.markup n) →
      ∃ t, a.target? n = some t ∧ Normalization.words.apply t = value) :
    a.Mirrors whole (store "target" value e).kind (store "target" value e).backing
      (store "target" value e).attributes := by
  rw [show (store "target" value e).kind = .link from hk]
  refine .of_link (fun t hm => ?_) (Attribute.nodup_names_put nodup) fun {n} hn => ?_
  · rcases Attribute.mem_put hm with hm | rfl
    · exact lower t hm
    · exact toLower_target
  · obtain ⟨t, hat, rfl⟩ := ht hn
    rw [store, Attribute.find?_put, if_pos rfl, hat]
    rfl

theorem ends_createContaining_link (h : p.Synced) (target : String) :
    Ends (createContaining .link (.link target)) p
      (fun id r => Born p .link (.link target p.arena.next) id r) (p.Refuses []) :=
  ends_createContaining h (fun _ => rfl) (fun _ => rfl) (fun _ => rfl) ⟨nofun, nofun⟩ nofun

theorem makes_createLink (h : p.Synced) {target : String} : Makes .link (createLink target) p p := by
  refine Ends.bind (ends_ask_refuses (fun target _ => ?_) fun _ => neverFaults_checkLinkTarget _ _)
  refine (ends_createContaining_link h target).step ?_ fun _ _ hq => hq
  rintro id q ⟨hst, hspares, o, g, hfind, hnode, -⟩
  have he := (hfind id).trans (if_pos rfl)
  have hpolicy : q.policy id "target" = .ok targetPolicy := by
    simp [Page.policy, Page.kind_of_find? he, bind, Except.bind, find?_targetPolicy]
  refine Ends.bind (Ends.bind (ends_ask (fun policy hp => ?_) fun _ herr => by
    cases herr.symm.trans hpolicy))
  obtain rfl := Except.ok.inj (hpolicy.symm.trans hp)
  refine (ends_commit_of_unsynced rfl).mono ?_ fun _ _ hr => by cases hr.2.symm.trans he
  rintro _ r ⟨-, -, -, rfl⟩
  rw [toLower_target]
  have hr : q.Steady (q.update id (store "target" (targetPolicy.normalization.apply target))) :=
    steady_setAttributes hst.synced (not_isCategory hst.synced (Page.form?_of_find? he))
      fun _ he => written_store hst.synced toLower_target he
  have hlast (x : ElementId) : (q.update id (store "target" (targetPolicy.normalization.apply
      target))).find? x = if x = id then some (store "target" (targetPolicy.normalization.apply
        target) { kind := .link, backing := some o }) else p.find? x := by
    rw [Page.find?_update, hfind]
    split <;> rfl
  refine Ends.pure ⟨⟨hst.trans hr, fun hm => hm.spared h hr.synced.sound
    ⟨hspares.keepsTags, hspares.target⟩ fun {x e} hx => ?_⟩, _, (hlast id).trans (if_pos rfl), rfl⟩
  rw [hlast] at hx
  split at hx
  · obtain rfl := Option.some.inj hx
    refine .inr (mirrors_store_target rfl (by simp) .nil fun {n} hn => ⟨target, ?_, rfl⟩)
    obtain rfl := Option.some.inj hn
    exact Arena.target?_of_find? hnode rfl
  · exact .inl ⟨e, hx, rfl, rfl, .inl rfl⟩

theorem makes_createDiv (h : p.Synced) : Makes .div createDiv p p := by
  have h₁ := h.steady_push_leaf (m := ⟨.list [], none⟩) rfl rfl Node.glueFits_none
  have h₂ := h₁.trans (h₁.synced.steady_push_leaf (m := ⟨.list [], none⟩) rfl rfl Node.glueFits_none)
  let a₁ := p.arena.push ⟨.list [], none⟩
  let a₂ := a₁.push ⟨.list [], none⟩
  have hx : a₂.find? p.arena.next = some ⟨.list [], none⟩ :=
    (Arena.Extends.push a₁ _).find?_of_find? (Arena.find?_push_next p.arena _)
  have hy : a₂.find? a₁.next = some ⟨.list [], none⟩ := Arena.find?_push_next a₁ _
  have hsize : a₁.size = p.arena.size + 1 := Arena.size_push ..
  have hlist {n : NodeId} {role : Role} (hn : a₂.find? n = some ⟨.list [], none⟩) :
      a₂.ListOf role n := ⟨[], hn, by simp⟩
  have hfresh : ∀ n ∈ [p.arena.next, a₁.next], p.arena.size ≤ n.index ∧ n.index < a₂.size := by
    have hsize₂ : a₂.size = a₁.size + 1 := Arena.size_push ..
    have hx : p.arena.next.index = p.arena.size := rfl
    have hy : a₁.next.index = a₁.size := rfl
    simp only [List.mem_cons, List.not_mem_nil, or_false, forall_eq_or_imp, forall_eq]
    omega
  have hkids : a₂.kids = p.arena.kids :=
    (Arena.kids_push_leaf a₁ rfl).trans (Arena.kids_push_leaf p.arena rfl)
  have hm : Makeable p a₂ .div (.element "div" false p.arena.next a₁.next) := by
    refine ⟨h₂, ⟨?_, Node.glueFits_none⟩, ?_, fun y hy => (hfresh y hy).2, fun y hy x hx => ?_,
      fun y hy => (hfresh y hy).1, fun x hx y hy => ?_, (Arena.Extends.push _ _).trans (.push _ _),
      fun hl => ?_, ⟨nofun, nofun⟩, nofun⟩
    · rintro s hs
      rcases List.mem_pair.1 hs with rfl | rfl
      · exact hlist hx
      · exact hlist hy
    · refine List.nodup_cons.2 ⟨fun he => ?_, List.nodup_singleton _⟩
      exact Nat.ne_of_lt (Nat.lt_succ_self p.arena.size)
        ((congrArg NodeId.index (List.mem_singleton.1 he)).trans hsize)
    · rw [hkids] at hx
      exact h.loose_of_fresh (hfresh y hy).1 x hx
    · rw [hkids, Arena.kids_eq_nil hx] at hy
      cases hy
    · obtain rfl := Option.some.inj hl
      exact Arena.kids_of_find? hx
  have hw : (a₂.push ⟨.element "div" false p.arena.next a₁.next, none⟩).Writes .div
      (some (.tag a₂.next)) := ⟨_, Arena.find?_push_next a₂ _, rfl⟩
  refine .of_born h ((ends_makeNode h (o := Backing.tag) hm (fun _ => rfl) hw ?_).mono
    (fun _ _ hq => ⟨_, hq⟩) fun _ _ hq => hq) nofun
  refine Ends.bind (Surgery.ends_make (Ends.bind (Surgery.ends_make (Ends.bind
    (Surgery.ends_make ?_)))))
  refine (Surgery.ends_addGlue (Arena.find?_push_next a₂ _) rfl (fun _ => hm.exists_slot) ?_).step
    (fun _ _ hb => Ends.pure ⟨rfl, hb⟩) fun _ _ hf => hf
  rintro _ _ _ _ ⟨⟩
  exact Arena.items_of_find? ((Arena.Extends.push a₂ _).find?_of_find? hx)

end Edit

namespace Page

variable {p : Page} {id : ElementId} {node new : NodeId}

theorem children_of_marks_text {q : Payload} (h : Kind.text.marks q = true) :
    q.children = [] ∧ contentOf? q = none := by
  cases q <;> first | exact ⟨rfl, rfl⟩ | cases h

theorem Synced.form?_of_text (h : p.Synced) {e : Element} (he : p.find? id = some e)
    (hk : e.kind = .text) (hn : p.backingNode id = .ok node) :
    p.form? id = some (.text, some (.markup node)) := by
  obtain ⟨k, b, hf, rfl⟩ := exists_of_backing? (backing?_of_backingNode hn)
  obtain rfl : k = .text :=
    hk ▸ (Prod.mk.inj (Option.some.inj (hf.symm.trans (form?_of_find? he)))).1
  cases b with
  | markup node => exact hf
  | tag node =>
    obtain ⟨m, hm, hmk⟩ := h.writes hf
    cases hp : m.payload <;> rw [hp] at hmk <;> cases hmk

theorem Synced.payload_of_comment (h : p.Synced) {e : Element} (he : p.find? id = some e)
    (hk : e.kind = .comment) (hn : p.backingNode id = .ok node) {m : Node}
    (hm : p.arena.find? node = some m) : ∃ s, m.payload = .comment s := by
  obtain ⟨k, b, hf, rfl⟩ := exists_of_backing? (backing?_of_backingNode hn)
  obtain rfl : k = .comment :=
    hk ▸ (Prod.mk.inj (Option.some.inj (hf.symm.trans (form?_of_find? he)))).1
  cases b with
  | markup node =>
    obtain ⟨m', hm', hmk⟩ := h.writes hf
    obtain rfl := Option.some.inj (hm.symm.trans hm')
    cases hp : m.payload <;> rw [hp] at hmk <;> first | exact ⟨_, rfl⟩ | cases hmk
  | tag node =>
    obtain ⟨m', hm', hmk⟩ := h.writes hf
    obtain rfl := Option.some.inj (hm.symm.trans hm')
    cases hp : m.payload <;> rw [hp] at hmk <;> cases hmk

/-- A text that is backed by another node. -/
def retext (p : Page) (b : Arena) (id : ElementId) (new : NodeId) : Page :=
  update { p with arena := b } id fun e => { e with backing := some (.markup new) }

/-- A node that can take the place of another below an element of kind text. -/
structure Retexts (p : Page) (id : ElementId) (node new : NodeId) (b : Arena) : Prop where
  form? : p.form? id = some (.text, some (.markup node))
  text : ∃ s g, p.arena.find? new = some ⟨.text s, g⟩
  loose : p.arena.Loose new
  free : ∀ y, p.backing? y ≠ some new
  sound : b.Sound
  keepsTags : p.arena.KeepsTags b
  target?_eq : ∀ n, b.target? n = p.arena.target? n
  kids : ∀ l, b.kids l = (p.arena.kids l).map fun m => if m = node then new else m

namespace Retexts

variable {b : Arena}

theorem backing? (h : p.Retexts id node new b) : p.backing? id = some node := by
  rw [Page.backing?, h.form?]
  rfl

theorem mem (h : p.Retexts id node new b) {l m : NodeId} (hm : m ∈ b.kids l) :
    m = new ∧ node ∈ p.arena.kids l ∨ m ∈ p.arena.kids l := by
  rw [h.kids] at hm
  obtain ⟨m', hm', rfl⟩ := List.mem_map.1 hm
  split
  · subst m'
    exact .inl ⟨rfl, hm'⟩
  · exact .inr hm'

theorem find?_retext (x : ElementId) : (p.retext b id new).find? x =
    (p.find? x).map fun e => if x = id then { e with backing := some (.markup new) } else e := by
  rw [retext, find?_update]
  split
  · rfl
  · exact Option.map_id'.symm

theorem childrenOf_eq_nil (hp : p.Synced) (h : p.Retexts id node new b) : p.childrenOf id = [] := by
  refine hp.bare ?_ ?_
  · obtain ⟨m, hm, hk⟩ := hp.writes h.form?
    rw [container?_of_form? h.form?, Arena.container?, if_neg (by decide), hm]
    exact (children_of_marks_text hk).2
  · rintro rfl
    cases hp.root_form.symm.trans h.form?

theorem rehangs (hp : p.Synced) (h : p.Retexts id node new b) :
    p.Rehangs id node new .text (some (.markup new)) (p.retext b id new) where
  sound := h.sound
  evolves := h.keepsTags.toEvolves
  backing := h.backing?
  old := ⟨_, h.form?⟩
  movable := ⟨by decide, by decide⟩
  form y := by
    obtain ⟨e, he, (hk : e.kind = .text), -⟩ := find?_of_form? h.form?
    have hfind : Page.find? { p with arena := b } id = some e := he
    exact hk ▸ form?_update_backing (f := fun e => { e with backing := some (.markup new) }) hfind
      fun _ => ⟨rfl, rfl⟩
  children := childrenOf_update fun _ => rfl
  parents := parentOf_update fun _ => rfl
  written := writtenOf_of_map find?_retext fun x e => by split <;> rfl
  linked _ := linked_of_map find?_retext fun x e => by split <;> rfl
  categories := rfl
  node := rfl
  fresh := by
    refine ⟨fun hl => ?_, h.free⟩
    obtain ⟨s, g, hs⟩ := h.text
    obtain ⟨m, hm, hk⟩ := hp.linked hl
    obtain rfl := Option.some.inj (hs.symm.trans hm)
    cases hk
  writes := by
    obtain ⟨s, g, hs⟩ := h.text
    exact h.keepsTags.toEvolves.writes ⟨_, hs, rfl⟩
  kids _ _ := h.kids _
  bare _ := h.childrenOf_eq_nil hp
  kept c _ := by
    rw [h.childrenOf_eq_nil hp]
    exact List.nil_sublist _
  loose_new hpar l hl := by
    rcases h.mem hl with ⟨-, hl⟩ | hl
    · exact hp.loose hpar h.backing? l hl
    · exact h.loose l hl
  loose {y m} hy hm hl hne l hml := by
    rcases h.mem hml with ⟨rfl, -⟩ | hml
    · exact h.free y hm
    · exact hl l hml
  markup := attributeList?_of_form? h.form?
  attributes {y m c} hm hmc := by
    change m ∈ b.kids c
    rw [h.kids]
    refine List.mem_map.2 ⟨m, hmc, if_neg ?_⟩
    rintro rfl
    obtain ⟨name, hasValue, value, g, hf⟩ := hp.find?_written hm
    obtain ⟨m', hm', hk⟩ := hp.writes h.form?
    obtain rfl := Option.some.inj (hf.symm.trans hm')
    cases hk

theorem synced (hp : p.Synced) (h : p.Retexts id node new b) : (p.retext b id new).Synced :=
  hp.rehang (h.rehangs hp)

theorem apart_new (hp : p.Synced) (h : p.Retexts id node new b) : p.Apart new := by
  intro m hm hr
  obtain ⟨s, g, hs⟩ := h.text
  rcases Relation.ReflTransGen.cases_head hr with rfl | ⟨z, hz, -⟩
  · obtain ⟨m', hm', hk⟩ := hp.linked hm
    obtain rfl := Option.some.inj (hs.symm.trans hm')
    cases hk
  · rw [Arena.kids_of_find? hs] at hz
    cases hz

theorem steady (hp : p.Synced) (h : p.Retexts id node new b) : p.Steady (p.retext b id new) := by
  refine hp.steady_of_map (h.synced hp) rfl rfl rfl find?_retext (fun x e he => ?_)
    (fun {l m n} hn hm hr => ?_) (fun {l m n} hn hr hloose hm => ?_) (fun {x m n} hn hr hb => ?_)
    fun {n} _ => h.target?_eq n
  · have hkind : x = id → e.kind = .text := fun hx => by
      subst x
      exact (Prod.mk.inj (Option.some.inj ((form?_of_find? he).symm.trans h.form?))).1
    split <;> simp_all
  · change m ∈ b.kids l
    rw [h.kids]
    refine List.mem_map.2 ⟨m, hm, if_neg ?_⟩
    rintro rfl
    obtain ⟨m', hm', hmk⟩ := hp.writes h.form?
    rcases Relation.ReflTransGen.cases_head hr with rfl | ⟨z, hz, -⟩
    · exact hp.unlinked hn id h.backing?
    · rw [Arena.kids_of_find? hm', (children_of_marks_text hmk).1] at hz
      cases hz
  · rcases h.mem hm with ⟨rfl, -⟩ | hm
    · exact absurd hr (h.apart_new hp n hn)
    · exact absurd hm (hloose l)
  · rw [(h.rehangs hp).backing?_eq] at hb
    split at hb
    · obtain rfl := Option.some.inj hb
      exact absurd hr (h.apart_new hp n hn)
    · exact hb

theorem calm (hp : p.Synced) (h : p.Retexts id node new b) : p.Calm (p.retext b id new) := by
  refine ⟨h.steady hp, fun hm => hm.spared hp h.sound ⟨h.keepsTags, fun _ => h.target?_eq _⟩
    fun {x e} hx => .inl ?_⟩
  rw [find?_retext] at hx
  obtain ⟨d, hd, rfl⟩ := Option.map_eq_some_iff.1 hx
  refine ⟨d, hd, ?_⟩
  by_cases hid : x = id
  · subst x
    have hk := (Prod.mk.inj (Option.some.inj ((form?_of_find? hd).symm.trans h.form?))).1
    simp [hk]
  · simp [hid]

end Retexts

/-- What becomes of the arena when an element gets another text: its node says the text, or gives way to
a new one that does. -/
inductive SetsText (p : Page) (id : ElementId) (node : NodeId) (s : String) : Arena → Prop
  | stored {old : String} {g : Option Glue} (hn : p.arena.find? node = some ⟨.text old, g⟩) :
    SetsText p id node s (p.arena.setPayload node (.text s))
  | replaced {c : NodeId} {u v : List NodeId}
    (hc : p.arena.find? c = some ⟨.list (u ++ node :: v), none⟩) :
    SetsText p id node s ((p.arena.push ⟨.text s, none⟩).setItems c (u ++ p.arena.next :: v))
  | loose (hp : p.parentOf id = none) : SetsText p id node s (p.arena.push ⟨.text s, none⟩)

end Page

namespace Edit

variable {p : Page} {id : ElementId}

/-- Another text can always be put in the place of a text. -/
theorem ends_replaceText (h : p.Synced) {node : NodeId} {s : String}
    (hx : p.form? id = some (.text, some (.markup node))) :
    Ends (replaceText id node s) p (fun _ q => p.Calm q ∧ p.SetsText id node s q.arena)
      fun _ _ => False := by
  obtain ⟨place, hplace⟩ := exists_place? h hx (by decide) (by decide)
  refine Ends.bind (ends_ask (fun _ hok => ?_) fun _ he => by cases he.symm.trans hplace)
  obtain rfl := Except.ok.inj (hplace.symm.trans hok)
  refine Ends.bind (ends_surgery (Surgery.ends_make ?_))
  have h₁ := h.calm_push_leaf (m := ⟨.text s, none⟩) rfl rfl Node.glueFits_none
  have hnew := Arena.find?_push_next p.arena ⟨.text s, none⟩
  have hkids := Arena.kids_push_leaf p.arena (n := ⟨.text s, none⟩) rfl
  have hfree := h.backing_ne_of_fresh (y := p.arena.next) (Nat.le_refl _)
  have hloose : (p.arena.push ⟨.text s, none⟩).Loose p.arena.next := fun l hl =>
    h.loose_of_fresh (y := p.arena.next) (Nat.le_refl _) l (hkids ▸ hl)
  have hs := h₁.synced
  have hc₁ := h.container?_of_arena (Arena.Extends.push p.arena ⟨.text s, none⟩).evolves
  generalize ha : p.arena.push ⟨.text s, none⟩ = a at *
  generalize hfresh : p.arena.next = new at *
  have hb : Page.backing? p id = some node := by
    rw [Page.backing?, hx]
    rfl
  obtain ⟨e, he, -⟩ := Page.find?_of_form? hx
  have retexts {b : Arena} (hsound : b.Sound) (hkeeps : a.KeepsTags b)
      (htarget : ∀ n, b.target? n = a.target? n)
      (hk : ∀ l, b.kids l = (a.kids l).map fun m => if m = node then new else m) :
      Ends (update id fun e => { e with backing := some (.markup new) }) { p with arena := b }
        (fun _ q => p.Calm q ∧ q.arena = b) fun _ _ => False := by
    refine ends_update (fun _ _ => ⟨?_, rfl⟩) fun hn => by cases hn.symm.trans he
    have ht : Page.Retexts { p with arena := a } id node new b :=
      ⟨hx, ⟨s, none, hnew⟩, hloose, hfree, hsound, hkeeps, htarget, hk⟩
    exact h₁.trans (ht.calm hs)
  rcases Page.parentOf_of_place? hplace with ⟨hp, rfl⟩ | ⟨y, c, hp, hc, rfl⟩
  · refine (retexts hs.sound (.refl a) (fun _ => rfl) fun l => ?_).mono
      (fun _ q hq => ⟨hq.1, ?_⟩) fun _ _ hf => hf
    · rw [Arena.map_replace]
      exact hs.loose hp hb l
    · rw [hq.2, ← ha]
      exact .loose hp
  · have hc' : Page.container? { p with arena := a } y = some c := (hc₁ y).trans hc
    obtain ⟨items, hitems⟩ := hs.find?_container hc'
    have hki : a.kids c = items := Arena.kids_of_find? hitems
    have hmem : node ∈ a.kids c :=
      (hs.kept hc').subset (List.mem_filterMap.2 ⟨id, h.parent_iff.1 hp, hb⟩)
    obtain ⟨u, v, rfl, hreplace⟩ := Arena.replaceItem_eq_ok hitems (hki ▸ hs.sound.nodup c)
      (hki ▸ hmem) (hki ▸ hloose c)
    refine Ends.bind (ends_surgery (Surgery.ends_change (fun b hb' => ?_) fun _ he => by
      cases he.symm.trans hreplace))
    obtain rfl := Except.ok.inj (hreplace.symm.trans hb')
    refine (retexts (hs.sound.replaceItem hitems hloose (fun hr => ?_) (Arena.index_lt_of_find? hnew)
      fun {id m role} hm hrole => ?_) (Arena.keepsTags_setItems hitems (hs.container_not_inTag hc'))
      (Arena.target?_setItems hitems) fun l => hs.sound.kids_replaceItem hitems l).mono
      (fun _ q hq => ⟨hq.1, ?_⟩) fun _ _ hf => hf
    · rcases Relation.ReflTransGen.cases_head hr with rfl | ⟨z, hz, -⟩
      · cases hnew.symm.trans hitems
      · rw [Arena.kids_of_find? hnew] at hz
        cases hz
    · obtain rfl := hs.role_of_container hc' hm hrole
      exact ⟨_, hnew, rfl⟩
    · have hext : a.find? c = p.arena.find? c := by
        obtain ⟨old, hi⟩ := h.find?_container hc
        rw [← ha]
        exact (Arena.Extends.push p.arena _).find?_eq c (Arena.index_lt_of_find? hi)
      rw [hq.2, ← ha, ← hfresh]
      exact .replaced (hext.symm.trans hitems)

theorem ends_requireKind {kind : Kind} {refusal : Kind → Unsupported} :
    Ends (requireKind id kind refusal) p (fun _ q => q = p ∧ ∃ e, p.find? id = some e ∧ e.kind = kind)
      (p.Refuses [id]) := by
  refine Ends.bind (ends_ask_refuses (fun found hfound => ?_) fun hk => ?_)
  swap
  · obtain ⟨e, he⟩ := hk id (List.mem_singleton_self _)
    exact .of_eq_ok (Page.kind_of_find? he)
  obtain ⟨e, he, rfl⟩ := Page.find?_of_kind hfound
  split
  · exact Ends.pure ⟨rfl, e, he, ‹_›⟩
  · exact Ends.throw (.of_not_isFatal rfl)

theorem exists_payload (h : p.Synced) {e : Element} (he : p.find? id = some e)
    (hk : Page.checkMovable e.kind = .ok ()) :
    ∃ node m, p.backingNode id = .ok node ∧ p.payload node = .ok m.payload ∧
      p.arena.find? node = some m := by
  obtain ⟨n, hn⟩ := h.exists_backing_of_movable he hk
  obtain ⟨m, hm⟩ := Arena.exists_of_index_lt (h.backing_lt hn)
  exact ⟨n, m, Page.backingNode_of_backing? hn, Page.payload_of_find? hm, hm⟩

theorem ends_setText (h : p.Synced) {e : Element} (he : p.find? id = some e) (hk : e.kind = .text)
    {node : NodeId} (hn : p.backing? id = some node) {s : String} :
    Ends (setText id s) p (fun _ q => p.Calm q ∧ p.SetsText id node s q.arena) fun _ _ => False := by
  have hkind := Page.kind_of_find? he
  have hnode := Page.backingNode_of_backing? hn
  obtain ⟨m, hm⟩ := Arena.exists_of_index_lt (h.backing_lt hn)
  have hpayload := Page.payload_of_find? hm
  refine Ends.bind (Ends.bind (ends_ask (fun _ hok => ?_) fun _ he => by cases he.symm.trans hkind))
  obtain rfl := Except.ok.inj (hkind.symm.trans hok)
  rw [if_pos hk]
  refine Ends.pure (Ends.bind (ends_ask (fun _ hok => ?_) fun _ he => by cases he.symm.trans hnode))
  obtain rfl := Except.ok.inj (hnode.symm.trans hok)
  refine Ends.bind (ends_ask (fun payload hok => ?_) fun _ he => by cases he.symm.trans hpayload)
  obtain rfl := Except.ok.inj (hpayload.symm.trans hok)
  split
  · rename_i old hold
    have hbare : Payload.bare (.text s) = m.payload.bare := by
      rw [hold]
      rfl
    refine ends_surgery (Surgery.ends_setPayload ⟨h.calm_tidied (.setPayload hm hbare ?_)
      (Arena.keepsTags_setPayload hm hbare (h.backing_not_inTag hn)), ?_⟩)
    · simp [Arena.target?, Arena.setPayload, hm, hold]
    · exact .stored (hm.trans (by rw [← hold]))
  · exact ends_replaceText h (h.form?_of_text he hk hnode)

theorem isCalm_setText (h : p.Synced) {s : String} : IsCalm (setText id s) p [id] := by
  by_cases hx : ∃ e, p.find? id = some e ∧ e.kind = .text
  · obtain ⟨e, he, hk⟩ := hx
    obtain ⟨node, hn⟩ := h.exists_backing_of_movable he (hk ▸ rfl)
    exact (ends_setText h he hk hn).mono (fun _ _ hq => hq.1) fun _ _ hf => hf.elim
  · refine ends_requireKind.step ?_ fun _ _ hq => hq
    rintro _ q ⟨rfl, he⟩
    exact absurd he hx

theorem isCalm_setComment (h : p.Synced) {s : String} : IsCalm (setComment id s) p [id] := by
  refine ends_requireKind.step ?_ fun _ _ hq => hq
  rintro _ q ⟨rfl, e, he, hk⟩
  refine Ends.bind (ends_ask_refuses (fun _ _ => ?_) fun _ => neverFaults_checkCommentText s)
  obtain ⟨node, m, hnode, hpayload, hm⟩ := exists_payload h he (hk ▸ rfl)
  refine Ends.bind (ends_ask (fun _ hok => ?_) fun _ he => by cases he.symm.trans hnode)
  obtain rfl := Except.ok.inj (hnode.symm.trans hok)
  refine Ends.bind (ends_ask (fun payload hok => ?_) fun _ he => by cases he.symm.trans hpayload)
  obtain rfl := Except.ok.inj (hpayload.symm.trans hok)
  obtain ⟨old, hold⟩ := h.payload_of_comment he hk hnode hm
  rw [hold]
  have hset : (q.arena.setPayload node (.comment s)).find? node = some ⟨.comment s, m.glue⟩ := by
    simp [Arena.setPayload, hm]
  refine Ends.bind (ends_surgery (Surgery.ends_setPayload (ends_surgery
    ((Surgery.ends_setGlue_of_fits hset rfl rfl).mono (fun _ _ hb => ?_) fun _ _ hf => hf.elim))))
  have hbare : Payload.bare (.comment s) = m.payload.bare := by
    rw [hold]
    rfl
  refine (h.calm_tidied (.setPayload hm hbare ?_) (Arena.keepsTags_setPayload hm hbare
    (h.backing_not_inTag (Page.backing?_of_backingNode hnode)))).reglued hb
  · simp [Arena.target?, Arena.setPayload, hm, hold]

end Edit
end WikiPage
