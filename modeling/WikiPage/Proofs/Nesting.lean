import WikiPage.Proofs.Creation
import WikiPage.Proofs.Reached

/-!
# What stands below what

An element is given a child only if its content model takes the kind of the child, and kinds never
change. So the content models hold along every edge of a page that began empty. They say nothing about
elements further apart: a link never stands directly in a link, but in emphasis that stands in one it
may. Nor is a tag ever anything else again, whatever is done to the page.
-/

namespace WikiPage

/-- Whether elements of a kind take those of another for children. -/
def Kind.takes (up kind : Kind) : Bool :=
  (ContentModel.of? up).any (·.accepts kind)

/-- The kinds of links and emphases, which may hold each other. -/
def Kind.isPhrase : Kind → Bool
  | bold => true
  | italics => true
  | link => true
  | _ => false

/-- What holds anything in a phrase is a phrase. -/
theorem Kind.isPhrase_of_takes {up kind below : Kind} (hu : up.isPhrase = true)
    (h : up.takes kind = true) (hb : kind.takes below = true) : kind.isPhrase = true := by
  cases up <;> cases hu <;> cases kind <;> first | rfl | (cases h; done) | cases hb

theorem Kind.eq_of_takes_link {up : Kind} (hu : up.isPhrase = true) (h : up.takes link = true) :
    up = bold ∨ up = italics := by
  cases up <;> cases hu <;> first | exact .inl rfl | exact .inr rfl | cases h

namespace Page

variable {p q r : Page} {x y : ElementId}

/-- The kind of an element, the element that it stands below, and those that stand below it. -/
def spot? (p : Page) (x : ElementId) : Option (Kind × Option ElementId × List ElementId) :=
  (p.find? x).map fun e => (e.kind, e.parent, e.children)

def kindOf? (p : Page) (x : ElementId) : Option Kind :=
  (p.find? x).map Element.kind

theorem parentOf_eq_spot? (p : Page) (x : ElementId) : p.parentOf x = (p.spot? x).bind (·.2.1) := by
  rw [parentOf, spot?]
  cases p.find? x <;> rfl

theorem childrenOf_eq_spot? (p : Page) (x : ElementId) :
    p.childrenOf x = ((p.spot? x).map (·.2.2)).getD [] := by
  rw [childrenOf, Tree.kids, spot?]
  cases p.find? x <;> rfl

theorem kindOf?_eq_spot? (p : Page) (x : ElementId) : p.kindOf? x = (p.spot? x).map Prod.fst := by
  rw [kindOf?, spot?]
  cases p.find? x <;> rfl

/-- Every element is where it was, and what is new stands nowhere and holds nothing. -/
def SameSpots (p q : Page) : Prop :=
  ∀ x, q.spot? x = p.spot? x ∨ p.spot? x = none ∧ q.parentOf x = none ∧ q.childrenOf x = []

namespace SameSpots

theorem refl (p : Page) : p.SameSpots p :=
  fun _ => .inl rfl

theorem trans (h : p.SameSpots q) (h' : q.SameSpots r) : p.SameSpots r := by
  intro x
  rcases h' x with hr | ⟨hq, hr⟩
  · rcases h x with hq | ⟨hp, hup, hch⟩
    · exact .inl (hr.trans hq)
    · refine .inr ⟨hp, ?_, ?_⟩
      · rw [parentOf_eq_spot?, hr, ← parentOf_eq_spot?, hup]
      · rw [childrenOf_eq_spot?, hr, ← childrenOf_eq_spot?, hch]
  · rcases h x with hqp | ⟨hp, -⟩
    · exact .inr ⟨hqp.symm.trans hq, hr⟩
    · exact .inr ⟨hp, hr⟩

theorem kindOf? {k : Kind} (h : p.SameSpots q) (hk : p.kindOf? x = some k) : q.kindOf? x = some k := by
  rw [kindOf?_eq_spot?] at hk ⊢
  rcases h x with hq | ⟨hp, -⟩
  · rw [hq, hk]
  · rw [hp] at hk
    cases hk

theorem parentOf (h : p.SameSpots q) (hy : q.parentOf x = some y) : p.parentOf x = some y := by
  rw [parentOf_eq_spot?] at hy ⊢
  rcases h x with hq | ⟨-, hq, -⟩
  · rw [← hq, hy]
  · rw [parentOf_eq_spot?, hy] at hq
    cases hq

theorem mem_childrenOf (h : p.SameSpots q) (hx : x ∈ q.childrenOf y) : x ∈ p.childrenOf y := by
  rcases h y with hq | ⟨-, -, hq⟩
  · rwa [childrenOf_eq_spot?, hq, ← childrenOf_eq_spot?] at hx
  · rw [hq] at hx
    cases hx

theorem of_elements (h : q.elements = p.elements) : p.SameSpots q := by
  intro x
  left
  rw [spot?, spot?, find?, h]
  rfl

theorem update {f : Element → Element}
    (hf : ∀ e, (f e).kind = e.kind ∧ (f e).parent = e.parent ∧ (f e).children = e.children) :
    p.SameSpots (p.update x f) := by
  intro y
  left
  rw [spot?, find?_update, spot?]
  split
  · cases p.find? y <;> simp [hf]
  · rfl

theorem push {e : Element} (he : e.parent = none ∧ e.children = []) : p.SameSpots (p.push e) := by
  intro y
  by_cases hy : y = p.next
  · subst hy
    right
    have hfind : (p.push e).find? p.next = some e := by rw [find?_push, if_pos rfl]
    rw [spot?, find?_next, parentOf_of_find? hfind, childrenOf_of_find? hfind]
    exact ⟨rfl, he⟩
  · left
    rw [spot?, find?_push, if_neg hy, spot?]

end SameSpots

/-- Every element other than a text that is a tag is that tag still. -/
def TagsStay (p q : Page) : Prop :=
  ∀ x k n, k ≠ .text → p.form? x = some (k, some (.tag n)) → q.form? x = some (k, some (.tag n))

namespace TagsStay

theorem refl (p : Page) : p.TagsStay p :=
  fun _ _ _ _ h => h

theorem trans (h : p.TagsStay q) (h' : q.TagsStay r) : p.TagsStay r :=
  fun x k n hk hx => h' x k n hk (h x k n hk hx)

theorem of_form? (h : q.form? = p.form?) : p.TagsStay q := by
  intro x k n _ hx
  rw [h, hx]

theorem update {f : Element → Element} (hk : ∀ e, (f e).kind = e.kind)
    (hb : ∀ e n, p.find? x = some e → e.kind ≠ .text → e.backing = some (.tag n) →
      (f e).backing = e.backing) : p.TagsStay (p.update x f) := by
  intro y k n ht hy
  obtain ⟨e, he, rfl, hen⟩ := find?_of_form? hy
  have hq := find?_update p x y f
  rw [he, Option.map_some] at hq
  split at hq
  · subst y
    rw [form?_of_find? hq, hk, hb e n he ht hen, hen]
  · rw [form?_of_find? hq, hen]

theorem push {e : Element} : p.TagsStay (p.push e) := by
  intro y k n _ hy
  obtain ⟨d, hd, rfl, hdn⟩ := find?_of_form? hy
  have hq : (p.push e).find? y = some d := by
    rw [find?_push, if_neg, hd]
    rintro rfl
    cases (find?_next p).symm.trans hd
  rw [form?_of_find? hq, hdn]

end TagsStay

/-- Every element is where it was, and the tags stay. -/
structure Rests (p q : Page) : Prop where
  spots : p.SameSpots q
  tags : p.TagsStay q

namespace Rests

theorem refl (p : Page) : p.Rests p :=
  ⟨.refl p, .refl p⟩

theorem trans (h : p.Rests q) (h' : q.Rests r) : p.Rests r :=
  ⟨h.spots.trans h'.spots, h.tags.trans h'.tags⟩

theorem of_elements (h : q.elements = p.elements) : p.Rests q := by
  refine ⟨.of_elements h, .of_form? ?_⟩
  funext x
  rw [form?, form?, find?, find?, h]

end Rests

/-- One element takes another for a child. -/
def Takes (p : Page) (y x : ElementId) : Prop :=
  ∃ k k', p.kindOf? y = some k ∧ p.kindOf? x = some k' ∧ k.takes k' = true

theorem Takes.sameSpots (h : p.Takes y x) (hq : p.SameSpots q) : q.Takes y x := by
  obtain ⟨k, k', hy, hx, ht⟩ := h
  exact ⟨k, k', hq.kindOf? hy, hq.kindOf? hx, ht⟩

/-- What is put below an element is what its content model accepts. -/
theorem takes_of_checkInsertable (h : p.checkInsertable y x = .ok ()) : p.Takes y x := by
  obtain ⟨model, hm, h⟩ := Except.exists_of_bind h
  obtain ⟨e, he, -, hof⟩ := contentModel_ok hm
  obtain ⟨k, hk, h⟩ := Except.exists_of_bind h
  obtain ⟨e', he', rfl⟩ := find?_of_kind hk
  obtain ⟨_, -, h⟩ := Except.exists_of_bind h
  obtain ⟨up, -, h⟩ := Except.exists_of_bind h
  refine ⟨e.kind, e'.kind, by simp [kindOf?, he], by simp [kindOf?, he'], ?_⟩
  rw [Kind.takes, hof, Option.any_some]
  split at h
  · cases h
  · split at h
    · simp [refuse] at h
    · split at h
      · assumption
      · obtain ⟨_, -, h⟩ := Except.exists_of_bind h
        cases h

/-- Every element takes those that stand directly below it and those among its children; the page as a
whole takes any. -/
structure Lawful (p : Page) : Prop where
  root_kind : p.kindOf? root = some .page
  takes : ∀ {x y}, p.parentOf x = some y → y ≠ root → p.Takes y x
  holds : ∀ {x y}, x ∈ p.childrenOf y → y ≠ root → p.Takes y x

theorem Lawful.sameSpots (h : p.Lawful) (hq : p.SameSpots q) : q.Lawful :=
  ⟨hq.kindOf? h.root_kind, fun hxy hy => (h.takes (hq.parentOf hxy) hy).sameSpots hq,
    fun hxy hy => (h.holds (hq.mem_childrenOf hxy) hy).sameSpots hq⟩

/-- An element with another parent or with none. -/
def hang (p : Page) (x : ElementId) (up : Option ElementId) : Page :=
  p.update x fun e => { e with parent := up }

/-- An element with other children. -/
def fill (p : Page) (x : ElementId) (f : List ElementId → List ElementId) : Page :=
  p.update x fun e => { e with children := f e.children }

theorem kindOf?_update {f : Element → Element} (hf : ∀ e, (f e).kind = e.kind) :
    (p.update x f).kindOf? = p.kindOf? := by
  funext y
  rw [kindOf?, find?_update, kindOf?]
  split
  · cases p.find? y <;> simp [hf]
  · rfl

theorem Takes.update {f : Element → Element} (h : p.Takes y z) (hf : ∀ e, (f e).kind = e.kind) :
    (p.update x f).Takes y z := by
  rwa [Takes, kindOf?_update hf]

theorem parentOf_hang {up : Option ElementId} (h : (p.hang x up).parentOf z = some y) :
    z = x ∧ up = some y ∨ p.parentOf z = some y := by
  rw [parentOf, hang, find?_update] at h
  split at h
  · subst z
    cases hx : p.find? x with
    | none => simp [hx] at h
    | some e => exact .inl ⟨rfl, by simpa [hx] using h⟩
  · exact .inr h

theorem mem_childrenOf_fill {f : List ElementId → List ElementId} (h : z ∈ (p.fill x f).childrenOf y) :
    z ∈ p.childrenOf y ∨ y = x ∧ z ∈ f (p.childrenOf x) := by
  rw [childrenOf, Tree.kids, fill, find?_update] at h
  split at h
  · subst y
    cases hx : p.find? x with
    | none => simp [hx] at h
    | some e => exact .inr ⟨rfl, by simpa [hx, childrenOf_of_find? hx] using h⟩
  · exact .inl h

theorem Lawful.hang (h : p.Lawful) {up : Option ElementId}
    (hup : ∀ y, up = some y → y ≠ root → p.Takes y x) : (p.hang x up).Lawful where
  root_kind := (congrFun (kindOf?_update (f := fun e => { e with parent := up }) fun _ => rfl) root).trans
    h.root_kind
  takes hz hy := by
    rcases parentOf_hang hz with ⟨rfl, hu⟩ | hz
    · exact (hup _ hu hy).update fun _ => rfl
    · exact (h.takes hz hy).update fun _ => rfl
  holds {z w} hz hw := by
    have hch : (p.hang x up).childrenOf = p.childrenOf :=
      childrenOf_update (f := fun e => { e with parent := up }) fun _ => rfl
    exact (h.holds (hch ▸ hz) hw).update fun _ => rfl

theorem Lawful.fill (h : p.Lawful) {f : List ElementId → List ElementId}
    (hf : ∀ l, ∀ z ∈ f l, z ∈ l ∨ x = root ∨ p.Takes x z) : (p.fill x f).Lawful where
  root_kind := (congrFun (kindOf?_update (f := fun e => { e with children := f e.children }) fun _ => rfl)
    root).trans h.root_kind
  takes {z w} hz hw := by
    have hup : (p.fill x f).parentOf = p.parentOf :=
      parentOf_update (f := fun e => { e with children := f e.children }) fun _ => rfl
    exact (h.takes (hup ▸ hz) hw).update fun _ => rfl
  holds hz hw := by
    rcases mem_childrenOf_fill hz with hz | ⟨rfl, hz⟩
    · exact (h.holds hz hw).update fun _ => rfl
    · rcases hf _ _ hz with hz | hr | ht
      · exact (h.holds hz hw).update fun _ => rfl
      · exact absurd hr hw
      · exact ht.update fun _ => rfl

end Page

namespace Edit

open Page

variable {α β : Type} {p : Page} {id : ElementId}

/-- An edit that moves no element, whether it goes well or not. -/
def StaysPut (m : Edit α) : Prop :=
  ∀ p, Ends m p (fun _ q => p.Rests q) fun _ q => p.Rests q

namespace StaysPut

theorem bind {m : Edit α} {f : α → Edit β} (hm : StaysPut m) (hf : ∀ x, StaysPut (f x)) :
    StaysPut (m >>= f) := fun p =>
  (hm p).step (fun x q hq => (hf x q).mono (fun _ _ hr => hq.trans hr) fun _ _ hr => hq.trans hr)
    fun _ _ hq => hq

theorem pure (x : α) : StaysPut (pure x) :=
  fun p => Ends.pure (.refl p)

theorem throw (e : PageError) : StaysPut (throw e : Edit α) :=
  fun p => Ends.throw (.refl p)

theorem get : StaysPut get :=
  fun p => Ends.get (.refl p)

theorem ask (f : Page → Except PageError α) : StaysPut (ask f) :=
  fun p => ends_ask (fun _ _ => .refl p) fun _ _ => .refl p

theorem surgery (s : Surgery α) : StaysPut (surgery s) :=
  fun _ => ends_surgery (Ends.all (fun _ _ => .of_elements rfl) fun _ _ => .of_elements rfl)

theorem update {f : Element → Element}
    (hf : ∀ e, (f e).kind = e.kind ∧ (f e).parent = e.parent ∧ (f e).children = e.children)
    (hb : ∀ e, (f e).backing = e.backing) : StaysPut (update id f) :=
  fun p => ends_update (fun _ _ => ⟨.update hf, .update (fun e => (hf e).1) fun e _ _ _ _ => hb e⟩)
    fun _ => .refl p

theorem make {e : Element} (he : e.parent = none ∧ e.children = []) : StaysPut (make e) :=
  fun _ => ends_make ⟨.push he, .push⟩

theorem modify {f : Page → Page} (hf : ∀ p, (f p).elements = p.elements) :
    StaysPut (modify f : Edit Unit) :=
  fun p => Ends.modify (.of_elements (hf p))

theorem forM {l : List α} {f : α → Edit Unit} (hf : ∀ x, StaysPut (f x)) : StaysPut (l.forM f) :=
  fun p => Ends.forM_of_keeps (I := fun q => p.Rests q) (fun x _ q hq => (hf x q).mono
    (fun _ _ hr => hq.trans hr) fun _ _ hr => hq.trans hr) (.refl p)

end StaysPut

theorem staysPut_writeAttribute (name value : String) (node : Option NodeId) :
    StaysPut (writeAttribute id name value node) :=
  (StaysPut.ask _).bind fun _ => .surgery _

theorem staysPut_writeUnwritten : StaysPut (writeUnwritten id) :=
  (StaysPut.ask _).bind fun _ => .forM fun _ =>
    (staysPut_writeAttribute _ _ _).bind fun _ => .update (fun _ => ⟨rfl, rfl, rfl⟩) fun _ => rfl

theorem staysPut_moveLinks (source target : NodeId) : StaysPut (moveLinks source target) := fun p => by
  refine Ends.modify ⟨fun x => .inl ?_, .of_form? form?_moveLinks⟩
  have hfind : (p.moveLinks source target).find? x = (p.find? x).map (Element.moveLinks source target) :=
    find?_moveLinks x
  change (Page.moveLinks p source target).spot? x = p.spot? x
  rw [spot?, hfind, spot?]
  cases p.find? x <;> rfl

theorem rests_settle {e : Element} {n : NodeId} (he : p.find? id = some e)
    (hb : e.backing = some (.markup n)) (content : Option NodeId) (tag : NodeId) :
    Ends (settle id content tag) p (fun _ q => p.Rests q) fun _ q => p.Rests q := by
  have back : p.Rests (p.update id fun e => { e with backing := some (.tag tag) }) := by
    refine ⟨.update fun _ => ⟨rfl, rfl, rfl⟩, .update (fun _ => rfl) fun d _ hd _ ht => ?_⟩
    obtain rfl := Option.some.inj (he.symm.trans hd)
    cases hb.symm.trans ht
  have rest {m : Edit Unit} (hm : StaysPut m) :
      Ends m (p.update id fun e => { e with backing := some (.tag tag) }) (fun _ q => p.Rests q)
        fun _ q => p.Rests q :=
    (hm _).mono (fun _ _ hq => back.trans hq) fun _ _ hq => back.trans hq
  refine Ends.bind (ends_update (fun _ _ => ?_) fun _ => .refl p)
  cases content with
  | some content =>
    exact rest ((StaysPut.ask _).bind fun _ => (staysPut_moveLinks _ _).bind fun _ => staysPut_writeUnwritten)
  | none => exact rest staysPut_writeUnwritten

theorem rests_promoteMarkup {e : Element} {n : NodeId} (he : p.find? id = some e)
    (hb : e.backing = some (.markup n)) (kind : Kind) (node : NodeId) :
    Ends (promoteMarkup id kind node) p (fun _ q => p.Rests q) fun _ q => p.Rests q := by
  -- surgery changes the arena alone, so the element is still written in markup behind it
  have settles (content : Option NodeId) (tag : NodeId) (a : Arena) :
      Ends (settle id content tag) { p with arena := a } (fun _ q => p.Rests q)
        fun _ q => p.Rests q := by
    have hsame : p.Rests { p with arena := a } := .of_elements rfl
    exact (rests_settle (p := { p with arena := a }) he hb content tag).mono
      (fun _ _ hq => hsame.trans hq) fun _ _ hq => hsame.trans hq
  refine Ends.bind (ends_ask (fun container _ => ?_) fun _ _ => .refl p)
  refine Ends.bind (Ends.get (Ends.bind (ends_surgery ?_)))
  refine Ends.all (fun tag a => ?_) fun _ _ => .of_elements rfl
  cases container with
  | some container =>
    exact Ends.bind (ends_surgery (Ends.all (fun _ b => settles _ _ b) fun _ _ => .of_elements rfl))
  | none => exact settles _ _ _

theorem staysPut_promote : StaysPut (promote id) := by
  intro p
  refine Ends.bind (ends_ask (fun e he => ?_) fun _ _ => .refl p)
  split
  · exact rests_promoteMarkup (Page.get_eq_ok_iff.1 he) ‹_› _ _
  · exact Ends.pure (.refl p)
  · exact Ends.throw (.refl p)

theorem staysPut_commit (policy : Policy) (key value : String) :
    StaysPut (commit id policy key value) := by
  refine (StaysPut.ask _).bind fun stored => ?_
  have store (node : Option NodeId) : StaysPut (do
      update id fun e => { e with attributes := Attribute.put e.attributes ⟨key, value, node⟩ }
      pure (stored.map Attribute.value)) :=
    StaysPut.bind (.update (fun _ => ⟨rfl, rfl, rfl⟩) fun _ => rfl) fun _ => .pure _
  split
  · have hw : StaysPut (writeValue id key value) := (StaysPut.ask _).bind fun _ =>
      staysPut_promote.bind fun _ => (StaysPut.ask _).bind fun _ => staysPut_writeAttribute _ _ _
    exact StaysPut.bind (fun p => Ends.map (hw p)) store
  · exact store _

theorem staysPut_assign (name value : String) : StaysPut (assign id name value) :=
  (StaysPut.ask _).bind fun _ => staysPut_commit _ _ _

theorem staysPut_createMarkup (kind : Kind) (payload : Payload) : StaysPut (createMarkup kind payload) :=
  (StaysPut.surgery _).bind fun _ => .make ⟨rfl, rfl⟩

theorem staysPut_createContaining (kind : Kind) (payload : NodeId → Payload) :
    StaysPut (createContaining kind payload) :=
  (StaysPut.surgery _).bind fun _ => staysPut_createMarkup _ _

theorem staysPut_createLink (target : String) : StaysPut (createLink target) :=
  (StaysPut.ask _).bind fun _ => (staysPut_createContaining _ _).bind fun _ =>
    (staysPut_assign _ _).bind fun _ => .pure _

theorem staysPut_refreshGlue : StaysPut (refreshGlue id) := by
  refine (StaysPut.ask _).bind fun e => ?_
  split
  · exact .pure _
  · refine (StaysPut.ask _).bind fun needed => ?_
    split
    · exact .pure _
    · exact .surgery _

theorem staysPut_insertNode (container node : NodeId) (position : Position) :
    StaysPut (insertNode container node position) := by
  cases position with
  | first => exact .surgery _
  | last => exact .surgery _
  | before reference => exact (StaysPut.ask _).bind fun _ => .surgery _
  | after reference => exact (StaysPut.ask _).bind fun _ => .surgery _

theorem staysPut_dropLinks (kept : Option NodeId) : StaysPut (dropLinks id kept) := by
  refine (StaysPut.ask _).bind fun e => StaysPut.bind (.update (fun _ => ⟨rfl, rfl, rfl⟩) fun _ => rfl) fun _ =>
    .forM fun placed => ?_
  split
  · exact .update (fun _ => ⟨rfl, rfl, rfl⟩) fun _ => rfl
  · exact (StaysPut.surgery _).bind fun _ => .modify fun _ => rfl

theorem staysPut_appendCategoryLink (name : String) : StaysPut (appendCategoryLink name) :=
  StaysPut.get.bind fun _ => .surgery _

theorem staysPut_addLink (placed : PlacedLink) : StaysPut (addLink id placed) :=
  StaysPut.bind (.modify fun _ => rfl) fun _ => .update (fun _ => ⟨rfl, rfl, rfl⟩) fun _ => rfl

theorem staysPut_renewLink : StaysPut (renewLink id) :=
  (StaysPut.ask _).bind fun _ => (staysPut_dropLinks none).bind fun _ =>
    (staysPut_appendCategoryLink _).bind fun _ => staysPut_addLink _

theorem staysPut_keepCategories (node : NodeId) : StaysPut (keepCategories node) :=
  (StaysPut.ask _).bind fun _ => .forM fun _ => staysPut_renewLink

theorem staysPut_requireKind (kind : Kind) (refusal : Kind → Unsupported) :
    StaysPut (requireKind id kind refusal) := by
  refine (StaysPut.ask _).bind fun found => ?_
  split
  · exact .pure _
  · exact .throw _

theorem rests_update_text {e : Element} (he : p.find? id = some e) (hk : e.kind = .text)
    (a : Arena) (node : NodeId) :
    Ends (update id fun e => { e with backing := some (.markup node) }) { p with arena := a }
      (fun _ q => p.Rests q) fun _ q => p.Rests q := by
  have hsame : p.Rests { p with arena := a } := .of_elements rfl
  refine ends_update (fun _ _ => hsame.trans ⟨.update fun _ => ⟨rfl, rfl, rfl⟩,
    .update (fun _ => rfl) fun d _ hd ht _ => ?_⟩) fun _ => hsame
  obtain rfl := Option.some.inj (he.symm.trans hd)
  exact absurd hk ht

theorem staysPut_setText (s : String) : StaysPut (setText id s) := by
  intro p
  refine ((staysPut_requireKind .text .notText p).and ends_requireKind).step ?_ fun _ _ hq => hq.1
  rintro _ _ ⟨-, rfl, e, he, hk⟩
  refine Ends.bind (ends_ask (fun node _ => ?_) fun _ _ => .refl _)
  refine Ends.bind (ends_ask (fun payload _ => ?_) fun _ _ => .refl _)
  split
  · exact StaysPut.surgery _ _
  · refine Ends.bind (ends_ask (fun container _ => ?_) fun _ _ => .refl _)
    refine Ends.bind (ends_surgery (Ends.all (fun new a => ?_) fun _ _ => .of_elements rfl))
    cases container with
    | some container =>
      exact Ends.bind (ends_surgery (Ends.all (fun _ b => rests_update_text he hk b new)
        fun _ _ => .of_elements rfl))
    | none => exact rests_update_text he hk a new

theorem staysPut_setComment (s : String) : StaysPut (setComment id s) := by
  refine (staysPut_requireKind _ _).bind fun _ => (StaysPut.ask _).bind fun _ =>
    (StaysPut.ask _).bind fun node => (StaysPut.ask _).bind fun payload => ?_
  cases payload with
  | comment _ => exact (StaysPut.surgery _).bind fun _ => .surgery _
  | _ => exact .surgery _

theorem staysPut_retitle (link : NodeId) (old : Option String) (new : String) :
    StaysPut (retitle id link old new) := by
  have index : StaysPut (modify fun p : Page =>
      { p with categories := p.categories.insert (categoryKey new) id }) := .modify fun _ => rfl
  refine StaysPut.get.bind fun p => (StaysPut.ask _).bind fun payload => ?_
  cases payload with
  | link _ _ =>
    refine (StaysPut.surgery _).bind fun _ => (StaysPut.surgery _).bind fun _ =>
      (staysPut_dropLinks _).bind fun _ => ?_
    cases old with
    | some old => exact StaysPut.bind (.modify fun _ => rfl) fun _ => index
    | none => exact index
  | _ => exact fun p => Ends.bind (Ends.throw (.refl p))

theorem staysPut_react (old : Option String) (new : String) (r : Option Reaction) :
    StaysPut (react id old new r) := by
  rcases r with _ | _ | _
  · exact .pure _
  · rw [react]
    split
    · exact .pure _
    · refine (StaysPut.ask _).bind fun link => (StaysPut.ask _).bind fun payload => ?_
      cases payload with
      | link _ _ => exact (StaysPut.surgery _).bind fun _ => .surgery _
      | _ => exact fun p => Ends.bind (Ends.throw (.refl p))
  · refine (StaysPut.ask _).bind fun e => ?_
    split
    · exact .pure _
    · refine (StaysPut.ask _).bind fun named => ?_
      split
      · exact staysPut_retitle _ _ _
      · exact .pure _

theorem staysPut_removeAttribute (name : String) : StaysPut (removeAttribute id name) := by
  refine (StaysPut.ask _).bind fun policy => ?_
  have erase (a : Attribute) : StaysPut (do
      update id fun e => { e with attributes := Attribute.erase e.attributes a.name }
      pure (some a.value)) :=
    StaysPut.bind (.update (fun _ => ⟨rfl, rfl, rfl⟩) fun _ => rfl) fun _ => .pure _
  split
  · exact fun p => Ends.bind (Ends.throw (.refl p))
  · refine (StaysPut.ask _).bind fun a => ?_
    rcases a with _ | ⟨_, _, _ | node⟩
    · exact .pure _
    · exact erase _
    · exact (StaysPut.ask _).bind fun list => (StaysPut.surgery _).bind fun _ => erase _

theorem staysPut_setAttribute (name value : String) : StaysPut (setAttribute id name value) := by
  refine (StaysPut.ask _).bind fun policy => (StaysPut.ask _).bind fun verified => ?_
  cases verified with
  | none => exact staysPut_removeAttribute name
  | some verified =>
    exact (staysPut_commit _ _ _).bind fun _ => (staysPut_react _ _ _).bind fun _ => .pure _

theorem staysPut_setOrRemove (name : String) (value : Option String) :
    StaysPut (setOrRemove id name value) := by
  cases value with
  | some value => exact (staysPut_setAttribute name value).bind fun _ => .pure _
  | none => exact (staysPut_removeAttribute name).bind fun _ => .pure _

/-- The content models hold if they did before, and the tags stay. -/
structure KeepsLawAndTags (p q : Page) : Prop where
  lawful : p.Lawful → q.Lawful
  tags : p.TagsStay q

namespace KeepsLawAndTags

theorem refl (p : Page) : KeepsLawAndTags p p :=
  ⟨id, .refl p⟩

theorem trans (h : KeepsLawAndTags p q) (h' : KeepsLawAndTags q r) : KeepsLawAndTags p r :=
  ⟨fun hp => h'.lawful (h.lawful hp), h.tags.trans h'.tags⟩

theorem of_rests (h : p.Rests q) : KeepsLawAndTags p q :=
  ⟨fun hp => hp.sameSpots h.spots, h.tags⟩

end KeepsLawAndTags

/-- An edit that keeps to the content models and keeps the tags, whether it goes well or not. -/
def KeepsLaw (m : Edit α) : Prop :=
  ∀ p, Ends m p (fun _ q => KeepsLawAndTags p q) fun _ q => KeepsLawAndTags p q

/-- An edit that does so if one element takes another. -/
def Places (y x : ElementId) (m : Edit α) : Prop :=
  ∀ p, p.Takes y x → Ends m p (fun _ q => KeepsLawAndTags p q) fun _ q => KeepsLawAndTags p q

theorem StaysPut.keepsLaw {m : Edit α} (hm : StaysPut m) : KeepsLaw m :=
  fun p => (hm p).mono (fun _ _ hq => .of_rests hq) fun _ _ hq => .of_rests hq

theorem KeepsLaw.bind {m : Edit α} {f : α → Edit β} (hm : KeepsLaw m) (hf : ∀ x, KeepsLaw (f x)) :
    KeepsLaw (m >>= f) := fun p =>
  (hm p).step (fun x q hq => (hf x q).mono (fun _ _ hr => hq.trans hr) fun _ _ hr => hq.trans hr)
    fun _ _ hq => hq

theorem StaysPut.places {x y : ElementId} {m : Edit α} {f : α → Edit β} (hm : StaysPut m)
    (hf : ∀ a, Places y x (f a)) : Places y x (m >>= f) := fun p ht =>
  (hm p).step (fun a q hq => (hf a q (ht.sameSpots hq.spots)).mono
    (fun _ _ hr => (KeepsLawAndTags.of_rests hq).trans hr) fun _ _ hr => (KeepsLawAndTags.of_rests hq).trans hr)
    fun _ _ hq => .of_rests hq

theorem keepsLawAndTags_update {x : ElementId} {f : Element → Element}
    (hf : ∀ e, (f e).kind = e.kind ∧ (f e).backing = e.backing) (hp : p.Lawful → (p.update x f).Lawful) :
    KeepsLawAndTags p (p.update x f) :=
  ⟨hp, .update (fun e => (hf e).1) fun e _ _ _ _ => (hf e).2⟩

theorem ends_update_then {x : ElementId} {f : Element → Element} {m : Edit β}
    (hu : KeepsLawAndTags p (p.update x f))
    (hm : Ends m (p.update x f) (fun _ q => KeepsLawAndTags (p.update x f) q) fun _ q =>
      KeepsLawAndTags (p.update x f) q) :
    Ends (do update x f; m) p (fun _ q => KeepsLawAndTags p q) fun _ q => KeepsLawAndTags p q :=
  Ends.bind (ends_update (fun _ _ => hm.mono (fun _ _ hq => hu.trans hq) fun _ _ hq => hu.trans hq)
    fun _ => .refl p)

theorem keepsLaw_fill (f : List ElementId → List ElementId)
    (hf : ∀ l, ∀ z ∈ f l, z ∈ l ∨ id = Page.root) :
    KeepsLaw (update id fun e => { e with children := f e.children }) :=
  fun p => ends_update (fun _ _ => keepsLawAndTags_update (fun _ => ⟨rfl, rfl⟩)
    fun h => h.fill fun l z hz => (hf l z hz).imp_right .inl) fun _ => .refl p

theorem places_fill {x y : ElementId} (f : List ElementId → List ElementId) {g : Edit β}
    (hf : ∀ l, ∀ z ∈ f l, z ∈ l ∨ z = x) (hg : Places y x g) :
    Places y x (do update y fun e => { e with children := f e.children }; g) := by
  refine fun p ht => ends_update_then (keepsLawAndTags_update (fun _ => ⟨rfl, rfl⟩)
    fun h => h.fill fun l z hz => ?_) (hg _ (ht.update fun _ => rfl))
  refine (hf l z hz).imp_right fun hzx => .inr ?_
  rwa [hzx]

theorem places_hang {x y : ElementId} {f : Edit β} (hf : KeepsLaw f) :
    Places y x (do update x fun e => { e with parent := some y }; f) := by
  refine fun p ht => ends_update_then (keepsLawAndTags_update (fun _ => ⟨rfl, rfl⟩) fun h => h.hang ?_) (hf _)
  rintro _ ⟨⟩ -
  exact ht

theorem keepsLaw_hang (up : Option ElementId) (hup : ∀ y, up = some y → y = Page.root) :
    KeepsLaw (update id fun e => { e with parent := up }) :=
  fun p => ends_update (fun _ _ => keepsLawAndTags_update (fun _ => ⟨rfl, rfl⟩)
    fun h => h.hang fun y hy hr => absurd (hup y hy) hr) fun _ => .refl p

theorem Places.keepsLaw {x y : ElementId} {m : Edit α} (hm : Places y x m) :
    KeepsLaw (do ask (·.checkInsertable y x); m) := fun p =>
  Ends.bind (ends_ask (fun _ hok => hm p (takes_of_checkInsertable hok)) fun _ _ => .refl p)

theorem keepsLaw_insertChild (y x : ElementId) (position : Position) :
    KeepsLaw (insertChild y x position) := by
  refine Places.keepsLaw ?_
  exact (StaysPut.ask _).places fun i => (StaysPut.ask _).places fun container =>
    (StaysPut.ask _).places fun node => (staysPut_insertNode _ _ _).places fun _ =>
    places_fill (List.insertIdx · i x) (fun _ _ hz => (List.eq_or_mem_of_mem_insertIdx hz).symm) <|
    places_hang staysPut_refreshGlue.keepsLaw

theorem keepsLaw_removeChild (y x : ElementId) : KeepsLaw (removeChild y x) :=
  (StaysPut.ask _).keepsLaw.bind fun _ => (StaysPut.ask _).keepsLaw.bind fun i =>
    (StaysPut.ask _).keepsLaw.bind fun _ => (StaysPut.ask _).keepsLaw.bind fun _ =>
    (StaysPut.surgery _).keepsLaw.bind fun _ =>
    KeepsLaw.bind (keepsLaw_fill (List.eraseIdx · i) fun _ _ hz => .inl (List.mem_of_mem_eraseIdx hz)) fun _ =>
    KeepsLaw.bind (keepsLaw_hang none nofun) fun _ => staysPut_refreshGlue.keepsLaw.bind fun _ =>
    (staysPut_keepCategories _).keepsLaw

theorem keepsLaw_replaceChild (y x old : ElementId) : KeepsLaw (replaceChild y x old) := by
  refine Places.keepsLaw ?_
  exact (StaysPut.ask _).places fun i => (StaysPut.ask _).places fun container =>
    (StaysPut.ask _).places fun node => (StaysPut.ask _).places fun new =>
    (StaysPut.surgery _).places fun _ =>
    places_fill (List.set · i x) (fun _ _ hz => List.mem_or_eq_of_mem_set hz) <|
    places_hang <| KeepsLaw.bind (keepsLaw_hang none nofun) fun _ =>
    staysPut_refreshGlue.keepsLaw.bind fun _ => (staysPut_keepCategories _).keepsLaw

theorem keepsLaw_addCategory (name : String) : KeepsLaw (addCategory name) := by
  refine (StaysPut.ask _).keepsLaw.bind fun _ => ?_
  have made : StaysPut (makeCategory (normalizeTitle name)) := (StaysPut.make ⟨rfl, rfl⟩).bind fun _ =>
    (staysPut_assign _ _).bind fun _ => .pure _
  exact made.keepsLaw.bind fun id => (staysPut_appendCategoryLink _).keepsLaw.bind fun placed =>
    KeepsLaw.bind ((staysPut_addLink placed).keepsLaw.bind fun _ =>
      KeepsLaw.bind (keepsLaw_hang (some Page.root) fun _ hy => (Option.some.inj hy).symm) fun _ =>
      KeepsLaw.bind (keepsLaw_fill (· ++ [id]) fun _ _ _ => .inr rfl) fun _ =>
      StaysPut.keepsLaw (.modify fun _ => rfl)) fun _ => (StaysPut.pure id).keepsLaw

theorem keepsLaw_removeCategory (name : String) : KeepsLaw (removeCategory name) :=
  (StaysPut.ask _).keepsLaw.bind fun id => (staysPut_dropLinks none).keepsLaw.bind fun _ =>
    (StaysPut.ask _).keepsLaw.bind fun _ => KeepsLaw.bind (StaysPut.keepsLaw (.modify fun _ => rfl))
    fun _ => KeepsLaw.bind (keepsLaw_fill (List.filter (· ≠ id)) fun _ _ _ => .inr rfl) fun _ =>
    KeepsLaw.bind (keepsLaw_hang none nofun) fun _ => (StaysPut.pure id).keepsLaw

end Edit

namespace Act

open Edit Page

/-- Whether an act is one of those that give an element another place. -/
def moves : Act → Bool
  | insertChild _ _ _ => true
  | removeChild _ _ => true
  | replaceChild _ _ _ => true
  | addCategory _ => true
  | removeCategory _ => true
  | _ => false

/-- The other acts move nothing, whether they go well or not. -/
theorem staysPut_edit {act : Act} (h : act.moves = false) : StaysPut act.edit := by
  have quiet {α : Type} {m : Edit α} (hm : StaysPut m) : StaysPut (do let _ ← m) :=
    hm.bind fun _ => .pure _
  cases act with
  | createParagraph => exact quiet (staysPut_createContaining _ _)
  | createBold => exact quiet (staysPut_createContaining _ _)
  | createItalics => exact quiet (staysPut_createContaining _ _)
  | createRule => exact quiet (staysPut_createMarkup _ _)
  | createDiv => exact quiet ((StaysPut.surgery _).bind fun _ => .make ⟨rfl, rfl⟩)
  | createLink target => exact quiet (staysPut_createLink target)
  | createText s => exact quiet ((StaysPut.surgery _).bind fun _ => .make ⟨rfl, rfl⟩)
  | createComment s => exact quiet ((StaysPut.ask _).bind fun _ => staysPut_createMarkup _ _)
  | insertChild parent child position => cases h
  | removeChild parent child => cases h
  | replaceChild parent new old => cases h
  | setText id s => exact staysPut_setText s
  | setComment id s => exact staysPut_setComment s
  | setAttribute id name value => exact quiet (staysPut_setAttribute name value)
  | removeAttribute id name => exact quiet (staysPut_removeAttribute name)
  | assign id name value => exact quiet (staysPut_assign name value)
  | promote id => exact staysPut_promote
  | addCategory name => cases h
  | renameCategory old new =>
    exact (StaysPut.ask _).bind fun _ => (staysPut_setAttribute _ _).bind fun _ => .pure _
  | removeCategory name => cases h
  | setTitle title => exact staysPut_setOrRemove "title" (some title)
  | setNamespace name => exact staysPut_setOrRemove _ _
  | setPath path => exact staysPut_setOrRemove _ _
  | setAlignment id alignment => exact staysPut_setOrRemove _ _
  | setNoShade id on => exact (StaysPut.ask _).bind fun _ => staysPut_setOrRemove _ _
  | setThickness id pixels => exact (StaysPut.ask _).bind fun _ => staysPut_setOrRemove _ _
  | setWidth id width => exact (StaysPut.ask _).bind fun _ => staysPut_setOrRemove _ _
  | setLinkTarget id target => exact (StaysPut.ask _).bind fun _ => staysPut_setOrRemove _ _
  | setCategoryName id name => exact (StaysPut.ask _).bind fun _ => staysPut_setOrRemove _ _
  | setUniversal id name value => exact staysPut_setOrRemove _ _

/-- Any act keeps to the content models and keeps the tags, checked or not and whether it goes well or not. -/
theorem keepsLaw_edit (act : Act) : KeepsLaw act.edit := by
  cases hm : act.moves with
  | false => exact (staysPut_edit hm).keepsLaw
  | true =>
    cases act with
    | insertChild parent child position => exact keepsLaw_insertChild parent child position
    | removeChild parent child => exact keepsLaw_removeChild parent child
    | replaceChild parent new old => exact keepsLaw_replaceChild parent new old
    | addCategory name => exact (keepsLaw_addCategory name).bind fun _ => (StaysPut.pure _).keepsLaw
    | removeCategory name => exact (keepsLaw_removeCategory name).bind fun _ => (StaysPut.pure _).keepsLaw
    | _ => cases hm

theorem keepsLawAndTags_run (acts : List Act) (p : Page) : KeepsLawAndTags p (run acts p) := by
  induction acts generalizing p with
  | nil => exact .refl p
  | cons act acts ih =>
    exact .trans (after_of_ends (P := KeepsLawAndTags p) (act.keepsLaw_edit p)) (ih _)

theorem lawful_run (acts : List Act) {p : Page} (h : p.Lawful) : (run acts p).Lawful :=
  (keepsLawAndTags_run acts p).lawful h

end Act

namespace Page

variable {site : Site} {title : String} {p : Page} {x y z w : ElementId}

/-- An element stands above another, at whatever distance. -/
def Above (p : Page) : ElementId → ElementId → Prop :=
  Relation.TransGen fun y x => p.parentOf x = some y

/-- No link stands in another. -/
def LinksNeverNest (p : Page) : Prop :=
  ∀ x y, p.kindOf? x = some .link → p.kindOf? y = some .link → ¬p.Above y x

/-- Where a link stands in another, it stands directly in an emphasis in that link, and nothing but
links and emphases is between the two. -/
def LinksNestInEmphasis (p : Page) : Prop :=
  ∀ x y, p.kindOf? x = some .link → p.kindOf? y = some .link → p.Above y x →
    (∃ z, p.parentOf x = some z ∧ (p.kindOf? z = some .bold ∨ p.kindOf? z = some .italics) ∧
      p.Above y z) ∧
    ∀ z, p.Above y z → p.Above z x → ∃ k, p.kindOf? z = some k ∧ k.isPhrase = true

theorem lawful_new (h : new site title = .ok p) : p.Lawful := by
  obtain ⟨t, -, h⟩ := Except.exists_of_bind h
  obtain rfl := Except.ok.inj h
  refine ⟨rfl, fun {x y} hxy hy => ?_, fun {x y} hxy hy => ?_⟩
  · obtain ⟨i⟩ := x
    match i with
    | 0 => cases hxy
    | 1 => exact absurd (Option.some.inj hxy).symm hy
    | i + 2 => cases hxy
  · obtain ⟨i⟩ := y
    match i with
    | 0 => exact absurd rfl hy
    | 1 => cases hxy
    | i + 2 => cases hxy

namespace Lawful

theorem takes_of_kind (h : p.Lawful) {k : Kind} (hz : p.kindOf? z = some k) (hk : k.isPhrase = true)
    (hw : p.parentOf w = some z) : ∃ k', p.kindOf? w = some k' ∧ k.takes k' = true := by
  obtain ⟨k₁, k', hz', hw', ht⟩ := h.takes hw fun hr => by
    obtain rfl := Option.some.inj (hz.symm.trans (hr ▸ h.root_kind))
    cases hk
  obtain rfl := Option.some.inj (hz.symm.trans hz')
  exact ⟨k', hw', ht⟩

/-- Whatever holds anything in a phrase, at whatever distance, is a phrase. The induction is on the way
down from that phrase. -/
theorem isPhrase (h : p.Lawful) {k : Kind} (hy : p.kindOf? y = some k) (hk : k.isPhrase = true)
    (hz : p.Above y z) (hw : p.parentOf w = some z) :
    ∃ k', p.kindOf? z = some k' ∧ k'.isPhrase = true := by
  have below {up z w : ElementId} {k : Kind} (hup : p.kindOf? up = some k) (hk : k.isPhrase = true)
      (hz : p.parentOf z = some up) (hw : p.parentOf w = some z) :
      ∃ k', p.kindOf? z = some k' ∧ k'.isPhrase = true := by
    obtain ⟨k', hk', ht⟩ := h.takes_of_kind hup hk hz
    obtain ⟨k₁, k₂, hz', -, hb⟩ := h.takes hw fun hr => by
      obtain rfl := Option.some.inj (hk'.symm.trans (hr ▸ h.root_kind))
      cases k <;> cases hk <;> cases ht
    obtain rfl := Option.some.inj (hk'.symm.trans hz')
    exact ⟨k', hk', Kind.isPhrase_of_takes hk ht hb⟩
  induction hz generalizing w with
  | single hz => exact below hy hk hz hw
  | tail _ hz ih =>
    obtain ⟨k', hk', hp⟩ := ih hz
    exact below hk' hp hz hw

theorem linksNestInEmphasis (h : p.Lawful) : p.LinksNestInEmphasis := by
  intro x y hx hy hyx
  have holds {z : ElementId} (hyz : p.Above y z) (hzx : p.Above z x) :
      ∃ k, p.kindOf? z = some k ∧ k.isPhrase = true := by
    obtain ⟨w, hw, -⟩ := Relation.TransGen.head'_iff.1 hzx
    exact h.isPhrase hy rfl hyz hw
  refine ⟨?_, fun z => holds⟩
  obtain ⟨z, hyz, hzx⟩ := Relation.TransGen.tail'_iff.1 hyx
  -- the upper link itself takes no link
  have above : p.Above y z := by
    refine (Relation.reflTransGen_iff_eq_or_transGen.1 hyz).resolve_left ?_
    rintro rfl
    obtain ⟨k, hk, ht⟩ := h.takes_of_kind hy rfl hzx
    obtain rfl := Option.some.inj (hx.symm.trans hk)
    cases ht
  obtain ⟨k, hz, hk⟩ := holds above (.single hzx)
  obtain ⟨k', hk', ht⟩ := h.takes_of_kind hz hk hzx
  obtain rfl := Option.some.inj (hx.symm.trans hk')
  refine ⟨z, hzx, ?_, above⟩
  rcases Kind.eq_of_takes_link hk ht with rfl | rfl
  · exact .inl hz
  · exact .inr hz

end Lawful

/-- On every page that began empty, links nest in emphases only. -/
theorem linksNestInEmphasis_run {acts : List Act} (h : new site title = .ok p) :
    (Act.run acts p).LinksNestInEmphasis :=
  (Act.lawful_run acts (lawful_new h)).linksNestInEmphasis

/-- A page with a link, bold text around it, and another link around that. -/
def linkInLink : Page :=
  Act.run [.createLink "A", .createBold, .insertChild ⟨3⟩ ⟨2⟩ .last, .createLink "B",
    .insertChild ⟨4⟩ ⟨3⟩ .last] (ofDrafts .new .default "Test" [])

theorem linksNestInEmphasis_run_linkInLink :
    new .default "Test" = .ok (ofDrafts .new .default "Test" []) ∧ linkInLink.LinksNestInEmphasis := by
  have h : new .default "Test" = .ok (ofDrafts .new .default "Test" []) := rfl
  exact ⟨h, linksNestInEmphasis_run h⟩

/-- The check of a new child looks at no more than the child itself, so the bold text brings a link
along. -/
theorem not_linksNeverNest_linkInLink : ¬linkInLink.LinksNeverNest := by
  intro h
  have inner : linkInLink.parentOf ⟨2⟩ = some ⟨3⟩ := by decide +kernel
  have outer : linkInLink.parentOf ⟨3⟩ = some ⟨4⟩ := by decide +kernel
  exact h ⟨2⟩ ⟨4⟩ (by decide +kernel) (by decide +kernel) (.tail (.single outer) inner)

end Page
end WikiPage
