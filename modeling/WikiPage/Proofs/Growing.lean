import WikiPage.Proofs.Creation
import WikiPage.Proofs.Glued
import WikiPage.Proofs.Surroundings

/-!
# New elements and what is put into them

A new element comes with new nodes, and nothing old stands in them. What is put at the end of an element
adds to its container and may change the glue of its node, but everything else stays as it is. So an
element that is made from the bottom up is printed as its markup around what was put into it.
-/

namespace WikiPage

/-- Whether an element of one kind may stand directly below one of another. -/
def Kind.holds (parent child : Kind) : Bool :=
  (ContentModel.of? parent).any (·.accepts child)

/-- The glue that markup is made with. That of a link depends on whether it has a title. -/
def Payload.madeGlue (filled : Bool) : Payload → Option Glue
  | .element name empty _ _ => some (Glue.element name empty)
  | .emphasis style _ => some (Glue.emphasis style)
  | .link target _ => some (Glue.link target filled)
  | .comment s => some (Glue.comment s)
  | .rule => some Glue.rule
  | .paragraph _ => some Glue.paragraph
  | _ => none

/-- What markup with its content in a list is written as around it. -/
def Payload.written (filled : Bool) (inner : String) : Payload → String
  | .element name _ _ _ => ("<" ++ name ++ ">") ++ inner ++ ("</" ++ name ++ ">")
  | .emphasis .bold _ => "'''" ++ inner ++ "'''"
  | .emphasis .italics _ => "''" ++ inner ++ "''"
  | .link target _ => "[[" ++ target ++ (if filled then "|" else "") ++ inner ++ "]]"
  | .paragraph _ => "\n\n" ++ inner
  | _ => inner

namespace Arena

variable {a : Arena} {n : Node}

theorem modify_push_next (a : Arena) (n : Node) (f : Node → Node) :
    (a.push n).modify a.next f = a.push (f n) := by
  simp only [push, modify, next, modify_push_size]

theorem le_index_of_reaches {k : Nat} (h : ∀ n : NodeId, k ≤ n.index → ∀ m ∈ a.kids n, k ≤ m.index)
    {m n : NodeId} (hr : Reaches a.kids n m) (hn : k ≤ n.index) : k ≤ m.index := by
  induction hr with
  | refl => exact hn
  | tail _ hm ih => exact h _ ih _ hm

end Arena

namespace Surgery

variable {a : Arena} {id : NodeId} {payload : Payload} {g : Glue}

theorem ends_addGlue_made (hn : a.find? id = some ⟨payload, none⟩)
    (hs : ∀ s ∈ payload.slots, a.find? s.1 = some ⟨.list [], none⟩) (hg : payload.madeGlue false = some g) :
    Ends (addGlue id) a (fun _ b => b = a.modify id fun n => { n with glue := some g })
      fun _ _ => False := by
  obtain ⟨k, hk⟩ := Nat.exists_eq_succ_of_ne_zero (Nat.ne_zero_of_lt (Arena.index_lt_of_find? hn))
  have hp := Arena.payload_of_find? hn
  refine Ends.bind (Ends.get ?_)
  rw [hk, renewGlue]
  refine Ends.bind (ends_look (fun p hp' => ?_) fun _ he => by cases he.symm.trans hp)
  obtain rfl := Except.ok.inj (hp.symm.trans hp')
  cases payload with
  | element name empty attributes body =>
    obtain rfl := Option.some.inj hg
    have hi := Arena.items_of_find? (hs (attributes, .attributes) (List.mem_cons_self ..))
    refine Ends.bind (ends_look (fun items hi' => ?_) fun _ he => by cases he.symm.trans hi)
    obtain rfl := Except.ok.inj (hi.symm.trans hi')
    refine Ends.bind (Ends.pure (ends_setGlue_eq hn rfl ?_))
    cases empty <;> rfl
  | link target title =>
    obtain rfl := Option.some.inj hg
    have hi := Arena.items_of_find? (hs (title, .content) (List.mem_singleton_self _))
    refine Ends.bind (ends_look (fun items hi' => ?_) fun _ he => by cases he.symm.trans hi)
    obtain rfl := Except.ok.inj (hi.symm.trans hi')
    exact ends_setGlue_eq hn rfl rfl
  | emphasis style content =>
    obtain rfl := Option.some.inj hg
    refine ends_setGlue_eq hn rfl ?_
    cases style <;> rfl
  | comment s =>
    obtain rfl := Option.some.inj hg
    exact ends_setGlue_eq hn rfl rfl
  | rule =>
    obtain rfl := Option.some.inj hg
    exact ends_setGlue_eq hn rfl rfl
  | paragraph content =>
    obtain rfl := Option.some.inj hg
    exact ends_setGlue_eq hn rfl rfl
  | _ => cases hg

/-- A node is made together with its glue. -/
theorem ends_make_addGlue (hs : ∀ s ∈ payload.slots, a.find? s.1 = some ⟨.list [], none⟩)
    (hg : payload.madeGlue false = some g) :
    Ends (do let node ← make payload; addGlue node; pure node) a
      (fun n b => n = a.next ∧ b = a.push ⟨payload, some g⟩) fun _ _ => False := by
  have hext := Arena.Extends.push a ⟨payload, none⟩
  refine Ends.bind (ends_make ?_)
  refine (ends_addGlue_made (Arena.find?_push_next a _) (fun s h => hext.find?_of_find? (hs s h)) hg).step
    (fun _ b hb => Ends.pure ⟨rfl, ?_⟩) fun _ _ h => h
  rw [hb, Arena.modify_push_next]

end Surgery

namespace Payload

/-- Markup that has its content in a list, and nothing in its glue but what it is made with. -/
def IsVessel (c : NodeId) : Payload → Prop
  | .element _ empty _ body => empty = false ∧ body = c
  | .emphasis _ content => content = c
  | .link target title => title = c ∧ '|' ∉ target.toList
  | .paragraph content => content = c
  | _ => False

theorem IsVessel.container {c : NodeId} {payload : Payload} (h : payload.IsVessel c) :
    (Page.contentOf? payload).or (Page.bodyOf? payload) = some c := by
  cases payload with
  | element _ _ _ _ => exact congrArg some h.2
  | link _ _ => exact congrArg some h.1
  | emphasis _ _ => exact congrArg some h
  | paragraph _ => exact congrArg some h
  | _ => cases h

theorem IsVessel.mem_slots {c : NodeId} {payload : Payload} (h : payload.IsVessel c) :
    (c, Role.content) ∈ payload.slots := by
  cases payload with
  | element _ _ _ _ => exact List.mem_pair.2 (.inr (congrArg (·, Role.content) h.2.symm))
  | link _ _ => exact List.mem_singleton.2 (congrArg (·, Role.content) h.1.symm)
  | emphasis _ _ => exact List.mem_singleton.2 (congrArg (·, Role.content) (Eq.symm h))
  | paragraph _ => exact List.mem_singleton.2 (congrArg (·, Role.content) (Eq.symm h))
  | _ => cases h

theorem IsVessel.children_eq {c : NodeId} {payload : Payload} (h : payload.IsVessel c) :
    payload.children = payload.slots.map Prod.fst := by
  cases payload with
  | _ => first | rfl | cases h

theorem IsVessel.exists_madeGlue {c : NodeId} {payload : Payload} (h : payload.IsVessel c) :
    ∃ g, payload.madeGlue false = some g := by
  cases payload with
  | _ => first | exact ⟨_, rfl⟩ | cases h

theorem IsVessel.bodyOf?_eq_none {c : NodeId} {payload : Payload} (h : payload.IsVessel c)
    (hs : payload.slots = [(c, .content)]) : Page.bodyOf? payload = none := by
  cases payload with
  | element _ _ _ _ => simp [slots] at hs
  | _ => rfl

end Payload

theorem Arena.Founded.print_vessel {a : Arena} {c n : NodeId} {payload : Payload} {filled : Bool}
    {text : String} (ha : a.Founded) (hv : payload.IsVessel c)
    (hn : a.find? n = some ⟨payload, payload.madeGlue filled⟩)
    (hd : payload.children.Nodup) (hc : a.print c = .ok text)
    (he : ∀ s ∈ payload.slots, s.1 ≠ c → a.find? s.1 = some ⟨.list [], none⟩) :
    a.print n = .ok (payload.written filled text) := by
  cases payload with
  | element name empty attributes body =>
    obtain ⟨rfl, rfl⟩ := hv
    have hne : attributes ≠ body := by simpa [Payload.children] using hd
    have hattributes : a.print attributes = .ok "" := by
      rw [ha.print_list (he (attributes, .attributes) (List.mem_cons_self ..) hne)]
      rfl
    rw [ha.print_eq_of_frame? hn rfl]
    simp [Payload.children, Node.interleave, Glue.element, hattributes, hc, bind, Except.bind,
      Payload.written, String.append_assoc]
  | emphasis style content =>
    obtain rfl := hv
    cases style <;> rw [ha.print_eq_of_frame? hn rfl] <;>
      simp [Payload.children, Node.interleave, Glue.emphasis, hc, bind, Except.bind, Payload.written]
  | link target title =>
    obtain ⟨rfl, -⟩ := hv
    rw [ha.print_eq_of_frame? hn rfl]
    simp [Payload.children, Node.interleave, Glue.link, hc, bind, Except.bind, Payload.written,
      String.append_assoc]
  | paragraph content =>
    obtain rfl := hv
    rw [ha.print_eq_of_frame? hn rfl]
    simp [Payload.children, Node.interleave, Glue.paragraph, hc, bind, Except.bind, Payload.written]
  | _ => cases hv

namespace Page

variable {p q : Page} {x : ElementId} {kind : Kind} {payload : Payload} {b : Arena} {c : NodeId}

/-- An element is new, with all that is in it, and nothing else has changed. -/
structure Grows (p : Page) (x : ElementId) (q : Page) : Prop where
  calm : p.Calm q
  exts : p.arena.Extends q.arena
  /-- Nothing old stands in what is new. -/
  closed : ∀ n, p.arena.size ≤ n.index → ∀ m ∈ q.arena.kids n, p.arena.size ≤ m.index
  known : ∀ {y e}, p.find? y = some e → q.find? y = some e
  fresh : p.find? x = none

/-- A new element stands nowhere and is written as a text. -/
structure Spawns (p : Page) (kind : Kind) (text : String) (x : ElementId) (q : Page) : Prop
    extends Grows p x q where
  element : ∃ e, q.find? x = some e ∧ e.kind = kind ∧ e.parent = none
  node : ∃ n, q.backing? x = some n ∧ p.arena.size ≤ n.index ∧ q.arena.print n = .ok text

/-- A new element has a node of its own, with empty lists below it. -/
structure Starts (p : Page) (kind : Kind) (payload : Payload) (x : ElementId) (q : Page) : Prop
    extends Grows p x q where
  element : ∃ e, q.find? x = some e ∧ e.kind = kind ∧ e.parent = none
  node : ∃ n, q.backing? x = some n ∧ p.arena.size ≤ n.index ∧
    q.arena.find? n = some ⟨payload, payload.madeGlue false⟩
  container : q.container? x = (contentOf? payload).or (bodyOf? payload)
  lists : ∀ s ∈ payload.slots, p.arena.size ≤ s.1.index ∧ q.arena.find? s.1 = some ⟨.list [], none⟩

/-- The page with a new node, which is given the glue that it is made with, and an element for it. -/
def pushMade (p : Page) (b : Arena) (payload : Payload) (e : Element) : Page :=
  Page.push { p with arena := b.push ⟨payload, payload.madeGlue false⟩ } e

theorem Starts.of_pushMade {e : Element} {o : Backing} (hcalm : p.Calm q)
    (hq : q = p.pushMade b payload e) (hext : p.arena.Extends b)
    (he : e.kind = kind ∧ e.parent = none ∧ e.backing = some o) (ho : o.node = b.next)
    (hcontainer : (b.push ⟨payload, payload.madeGlue false⟩).container? kind (some o) =
      (contentOf? payload).or (bodyOf? payload))
    (hnew : ∀ n, p.arena.size ≤ n.index → b.kids n = [])
    (hslots : ∀ s ∈ payload.slots, p.arena.size ≤ s.1.index ∧ b.find? s.1 = some ⟨.list [], none⟩)
    (hchildren : payload.children = payload.slots.map Prod.fst) : p.Starts kind payload p.next q := by
  have hpush := Arena.Extends.push b ⟨payload, payload.madeGlue false⟩
  have hfind (y : ElementId) : q.find? y =
      if y = p.next then some e else p.find? y := by
    rw [hq]
    exact find?_push _ _ y
  have hx := (hfind p.next).trans (if_pos rfl)
  have harena : q.arena = b.push ⟨payload, payload.madeGlue false⟩ := hq ▸ rfl
  refine ⟨⟨hcalm, harena ▸ hext.trans hpush, fun n hn m hm => ?_, fun {y e'} hy => ?_, find?_next p⟩,
    ⟨_, hx, he.1, he.2.1⟩, ⟨b.next, ?_, ?_, ?_⟩, ?_, fun s hs => ⟨(hslots s hs).1, ?_⟩⟩
  · rw [harena, Arena.kids_push] at hm
    split at hm
    · rw [hchildren] at hm
      obtain ⟨s, hs, rfl⟩ := List.mem_map.1 hm
      exact (hslots s hs).1
    · rw [hnew n hn] at hm
      cases hm
  · rw [hfind, if_neg]
    · exact hy
    · rintro rfl
      cases hy.symm.trans (find?_next p)
  · rw [backing?_of_form? (form?_of_find? hx), he.2.2]
    exact congrArg some ho
  · exact hext.size_le
  · rw [harena]
    exact Arena.find?_push_next b _
  · rw [container?_of_form? (form?_of_find? hx), harena, he.1, he.2.2]
    exact hcontainer
  · rw [harena]
    exact hpush.find?_of_find? (hslots s hs).2

end Page

namespace Edit

variable {p : Page} {kind : Kind} {b : Arena} {g : Glue} {x : ElementId}

theorem ends_createMarkup_made {payload : Payload}
    (hs : ∀ s ∈ payload.slots, b.find? s.1 = some ⟨.list [], none⟩) (hg : payload.madeGlue false = some g) :
    Ends (createMarkup kind payload) { p with arena := b }
      (fun x q => x = p.next ∧ q = p.pushMade b payload { kind, backing := some (.markup b.next) })
      fun _ _ => False := by
  refine Ends.bind (ends_surgery ((Surgery.ends_make_addGlue hs hg).mono ?_ fun _ _ hf => hf.elim))
  rintro _ _ ⟨rfl, rfl⟩
  exact ends_make ⟨rfl, by rw [Page.pushMade, hg]⟩

theorem ends_createContaining_made {payload : NodeId → Payload}
    (hs : ∀ n, (payload n).slots = [(n, .content)])
    (hg : ∃ g, (payload p.arena.next).madeGlue false = some g) :
    Ends (createContaining kind payload) p
      (fun x q => x = p.next ∧
        q = p.pushMade (p.arena.push ⟨.list [], none⟩) (payload p.arena.next)
          { kind, backing := some (.markup (p.arena.push ⟨.list [], none⟩).next) })
      fun _ _ => False := by
  obtain ⟨g, hg⟩ := hg
  refine Ends.bind (ends_surgery (Surgery.ends_make (ends_createMarkup_made (fun s h => ?_) hg)))
  rw [hs, List.mem_singleton] at h
  subst s
  exact Arena.find?_push_next _ _

theorem container?_push_markup {payload : Payload} {g : Option Glue} (hk : kind ≠ .body)
    (hb : Page.bodyOf? payload = none) :
    (b.push ⟨payload, g⟩).container? kind (some (.markup b.next)) =
      (Page.contentOf? payload).or (Page.bodyOf? payload) := by
  rw [Arena.container?, if_neg hk, Arena.find?_push_next, hb, Option.or_none]
  rfl

theorem starts_createMarkup {payload : Payload} (hm : Makes kind (createMarkup kind payload) p p)
    (hs : payload.slots = []) (hc : payload.children = []) (hg : payload.madeGlue false = some g)
    (hb : Page.bodyOf? payload = none) (hk : kind ≠ .body) :
    Ends (createMarkup kind payload) p (fun x q => p.Starts kind payload x q) fun _ _ => False := by
  have hmade : Ends (createMarkup kind payload) p _ fun _ _ => False :=
    ends_createMarkup_made (b := p.arena) (by simp [hs]) hg
  refine (hmade.and hm).mono (fun x q hq => ?_) fun _ _ hf => hf.1
  obtain ⟨⟨rfl, hq⟩, hcalm, -⟩ := hq
  exact .of_pushMade hcalm hq (.refl _) ⟨rfl, rfl, rfl⟩ rfl (container?_push_markup hk hb)
    (fun n => Arena.kids_eq_nil) (by simp [hs]) (by simp [hs, hc])

/-- The element that is made over a list of content is the one that the page gets. -/
theorem starts_pushMade {payload : NodeId → Payload} {q : Page} {e : Element} (hcalm : p.Calm q)
    (hq : q = p.pushMade (p.arena.push ⟨.list [], none⟩) (payload p.arena.next) e)
    (he : e.kind = kind ∧ e.parent = none ∧
      e.backing = some (.markup (p.arena.push ⟨.list [], none⟩).next))
    (hs : ∀ n, (payload n).slots = [(n, .content)]) (hv : (payload p.arena.next).IsVessel p.arena.next)
    (hk : kind ≠ .body) : p.Starts kind (payload p.arena.next) p.next q := by
  have hbody := hv.bodyOf?_eq_none (hs _)
  refine .of_pushMade hcalm hq (.push _ _) he rfl (container?_push_markup hk hbody) (fun n hn => ?_)
    (fun s h => ?_) hv.children_eq
  · rw [Arena.kids_push_leaf p.arena rfl, Arena.kids_eq_nil hn]
  · rw [hs, List.mem_singleton] at h
    subst s
    exact ⟨Nat.le_refl _, Arena.find?_push_next _ _⟩

theorem starts_createContaining {payload : NodeId → Payload}
    (hm : Makes kind (createContaining kind payload) p p)
    (hs : ∀ n, (payload n).slots = [(n, .content)]) (hv : ∀ n, (payload n).IsVessel n) (hk : kind ≠ .body) :
    Ends (createContaining kind payload) p (fun x q => p.Starts kind (payload p.arena.next) x q)
      fun _ _ => False := by
  have hmade : Ends (createContaining kind payload) p _ fun _ _ => False :=
    ends_createContaining_made hs (hv _).exists_madeGlue
  refine (hmade.and hm).mono (fun x q hq => ?_) fun _ _ hf => hf.1
  obtain ⟨⟨rfl, hq⟩, hcalm, -⟩ := hq
  exact starts_pushMade hcalm hq ⟨rfl, rfl, rfl⟩ hs (hv _) hk

theorem ends_createText_made (s : String) :
    Ends (createText s) p (fun x q => x = p.next ∧ q = p.pushMade p.arena (.text s)
      { kind := .text, backing := some (.markup p.arena.next) }) fun _ _ => False :=
  Ends.bind (ends_surgery (Surgery.ends_make (ends_make ⟨rfl, rfl⟩)))

theorem starts_createText (h : p.Synced) (s : String) :
    Ends (createText s) p (fun x q => p.Starts .text (.text s) x q) fun _ _ => False := by
  refine ((ends_createText_made s).and (makes_createText h)).mono (fun x q hq => ?_) fun _ _ hf => hf.1
  obtain ⟨⟨rfl, hq⟩, hcalm, -⟩ := hq
  exact .of_pushMade hcalm hq (.refl _) ⟨rfl, rfl, rfl⟩ rfl (container?_push_markup (by decide) rfl)
    (fun n => Arena.kids_eq_nil) (by simp [Payload.slots]) rfl

theorem starts_createRule (h : p.Synced) :
    Ends createRule p (fun x q => p.Starts .rule .rule x q) fun _ _ => False :=
  starts_createMarkup (makes_createRule h) rfl rfl rfl rfl (by decide)

theorem starts_createComment (h : p.Synced) (s : String) :
    Ends (createComment s) p
      (fun x q => Valid.isCommentText s = true ∧ p.Starts .comment (.comment s) x q)
      fun _ _ => Valid.isCommentText s = false := by
  refine Ends.bind (ends_ask (fun _ hok => ?_) fun _ he => ?_)
  · have hm : Makes .comment (createMarkup .comment (.comment s)) p p :=
      makes_markup h (.leaf h rfl rfl (by decide) (by decide)) rfl (by decide)
    exact (starts_createMarkup hm rfl rfl rfl rfl (by decide)).mono
      (fun _ _ hq => ⟨checkCommentText_eq_ok_iff.1 hok, hq⟩) fun _ _ hf => hf.elim
  · refine Bool.eq_false_iff.2 fun hv => ?_
    cases he.symm.trans (checkCommentText_eq_ok_iff.2 hv)

theorem find?_lists_of_div : ∀ s ∈ (Payload.element "div" false p.arena.next
      (p.arena.push ⟨.list [], none⟩).next).slots, p.arena.size ≤ s.1.index ∧
    ((p.arena.push ⟨.list [], none⟩).push ⟨.list [], none⟩).find? s.1 = some ⟨.list [], none⟩ := by
  rintro s hs
  rcases List.mem_pair.1 hs with rfl | rfl
  · exact ⟨Nat.le_refl _, (Arena.Extends.push _ _).find?_of_find? (Arena.find?_push_next p.arena _)⟩
  · exact ⟨(Arena.Extends.push p.arena _).size_le, Arena.find?_push_next _ _⟩

theorem ends_createDiv_made :
    Ends createDiv p (fun x q => x = p.next ∧ q = p.pushMade
      ((p.arena.push ⟨.list [], none⟩).push ⟨.list [], none⟩)
      (.element "div" false p.arena.next (p.arena.push ⟨.list [], none⟩).next)
      { kind := .div, backing :=
          some (.tag ((p.arena.push ⟨.list [], none⟩).push ⟨.list [], none⟩).next) }) fun _ _ => False := by
  refine Ends.bind (ends_surgery (Ends.bind (Surgery.ends_make (Ends.bind (Surgery.ends_make ?_)))))
  refine (Surgery.ends_make_addGlue (fun s hs => (find?_lists_of_div s hs).2) rfl).mono ?_
    fun _ _ hf => hf.elim
  rintro _ _ ⟨rfl, rfl⟩
  exact ends_make ⟨rfl, rfl⟩

theorem starts_createDiv (h : p.Synced) :
    Ends createDiv p (fun x q => p.Starts .div (.element "div" false p.arena.next
      (p.arena.push ⟨.list [], none⟩).next) x q) fun _ _ => False := by
  refine (ends_createDiv_made.and (makes_createDiv h)).mono (fun x q hq => ?_) fun _ _ hf => hf.1
  obtain ⟨⟨rfl, hq⟩, hcalm, -⟩ := hq
  refine .of_pushMade hcalm hq ((Arena.Extends.push _ _).trans (.push _ _)) ⟨rfl, rfl, rfl⟩ rfl ?_
    (fun n hn => ?_) find?_lists_of_div rfl
  · rw [Arena.container?, Arena.find?_push_next]
    rfl
  · rw [Arena.kids_push_leaf _ rfl, Arena.kids_push_leaf _ rfl, Arena.kids_eq_nil hn]

theorem ends_createLink_made (s : String) :
    Ends (createLink s) p
      (fun x q => x = p.next ∧ ∃ t e, Verifier.checkLinkTarget p.site s = .ok t ∧
        q = p.pushMade (p.arena.push ⟨.list [], none⟩) (.link t p.arena.next) e ∧
        e.kind = .link ∧ e.parent = none ∧
          e.backing = some (.markup (p.arena.push ⟨.list [], none⟩).next))
      fun _ _ => (Verifier.checkLinkTarget p.site s).isOk = false := by
  refine Ends.bind (ends_ask (fun t ht => ?_) fun _ he => by rw [he]; rfl)
  have hs : ∀ n, (Payload.link t n).slots = [(n, .content)] := fun _ => rfl
  refine (ends_createContaining_made hs ⟨_, rfl⟩).step (fun id q hq => ?_) fun _ _ hf => hf.elim
  obtain ⟨rfl, hq⟩ := hq
  obtain ⟨e, he, hk⟩ : ∃ e, q.find? p.next = some e ∧ e.kind = .link := by
    rw [hq]
    exact ⟨_, (Page.find?_push _ _ _).trans (if_pos rfl), rfl⟩
  have hpolicy : q.policy p.next "target" = .ok targetPolicy := by
    simp [Page.policy, Page.kind_of_find? he, hk, bind, Except.bind, find?_targetPolicy]
  refine Ends.bind (Ends.bind (ends_ask (fun policy hp => ?_) fun _ he => by cases he.symm.trans hpolicy))
  obtain rfl := Except.ok.inj (hpolicy.symm.trans hp)
  refine (ends_commit_of_unsynced rfl).mono ?_ fun _ _ hr => by cases hr.2.symm.trans he
  rintro _ r ⟨-, -, -, rfl⟩
  exact Ends.pure ⟨rfl, t, _, ht,
    (congrArg (fun r => Page.update r _ _) hq).trans (Page.update_push_next _ _), rfl, rfl, rfl⟩

theorem starts_createLink (h : p.Synced) (s : String) :
    Ends (createLink s) p
      (fun x q => ∃ t, Verifier.checkLinkTarget p.site s = .ok t ∧
        p.Starts .link (.link t p.arena.next) x q)
      fun _ _ => (Verifier.checkLinkTarget p.site s).isOk = false := by
  refine ((ends_createLink_made s).and (makes_createLink h)).mono (fun x q hq => ?_) fun _ _ hf => hf.1
  obtain ⟨⟨rfl, t, e, ht, hq, he⟩, hcalm, -⟩ := hq
  exact ⟨t, ht, starts_pushMade hcalm hq he (fun _ => rfl) ⟨rfl, Verifier.pipe_not_mem ht⟩ (by decide)⟩

end Edit

namespace Page

variable {p q r : Page} {x y : ElementId} {c n : NodeId} {e : Element} {kind : Kind} {payload : Payload}
  {text text' : String} {items new new' : List NodeId}

/-- An element has more children, at the end, and the end of its container is written as a text. Nothing
else has changed but the glue of its own node. -/
structure Appends (p : Page) (x : ElementId) (c : NodeId) (new : List NodeId) (text : String) (q : Page) :
    Prop where
  calm : p.Calm q
  container : q.container? x = some c
  size_le : p.arena.size ≤ q.arena.size
  agrees : p.arena.AgreesBut q.arena fun n => n = c ∨ p.backing? x = some n
  /-- Nothing old stands in what is new. -/
  closed : ∀ n, p.arena.size ≤ n.index → ∀ m ∈ q.arena.kids n, p.arena.size ≤ m.index
  known : ∀ {y e}, y ≠ x → p.find? y = some e → q.find? y = some e
  self : ∀ {e}, p.find? x = some e → ∃ ch, q.find? x = some { e with children := ch }
  items : q.arena.find? c = some ⟨.list (p.arena.kids c ++ new), none⟩
  fresh : ∀ m ∈ new, p.arena.size ≤ m.index
  print : Node.joined (new.map q.arena.print) = .ok text
  glue : ∀ {n payload}, p.backing? x = some n → payload.IsVessel c →
    p.arena.find? n = some ⟨payload, payload.madeGlue !(p.arena.kids c).isEmpty⟩ →
      q.arena.find? n = some ⟨payload, payload.madeGlue !(p.arena.kids c ++ new).isEmpty⟩

theorem Appends.refl (h : p.Synced) (hc : p.container? x = some c) : p.Appends x c [] "" p := by
  obtain ⟨items, hi⟩ := h.find?_container hc
  refine ⟨⟨h.steady_refl, fun hm => hm⟩, hc, Nat.le_refl _, fun _ _ _ hn => hn, fun n hn m hm => ?_,
    fun _ hy => hy, fun {e} he => ⟨e.children, he⟩, ?_, by simp, rfl, fun _ _ hn => ?_⟩
  · rw [Arena.kids_eq_nil hn] at hm
    cases hm
  · rw [Arena.kids_of_find? hi, List.append_nil]
    exact hi
  · rwa [List.append_nil]

theorem Appends.trans (h : p.Synced) (hc : p.container? x = some c) (hq : p.Appends x c new text q)
    (hr : q.Appends x c new' text' r) : p.Appends x c (new ++ new') (text ++ text') r := by
  obtain ⟨e, he⟩ := find?_of_container? hc
  obtain ⟨ch, he'⟩ := hq.self he
  obtain ⟨items, hi⟩ := h.find?_container hc
  have hcp := Arena.index_lt_of_find? hi
  have hback : q.backing? x = p.backing? x :=
    (backing?_of_form? (form?_of_find? he')).trans (backing?_of_form? (form?_of_find? he)).symm
  have hkids : q.arena.kids c = p.arena.kids c ++ new := Arena.kids_of_find? hq.items
  -- the container and the node of the element are old
  have hold (m : NodeId) (hm : m = c ∨ q.backing? x = some m) : m.index < p.arena.size := by
    rcases hm with rfl | hm
    · exact hcp
    · exact h.backing_lt (hback ▸ hm)
  have hprint (m : NodeId) (hm : m ∈ new) : r.arena.print m = q.arena.print m := by
    have hmk : m ∈ q.arena.kids c := hkids ▸ List.mem_append_right _ hm
    refine hr.agrees.print_eq hq.calm.synced.sound.founded hr.calm.synced.sound.founded
      (hq.calm.synced.sound.closed c m hmk) fun z hz hmz => ?_
    exact Nat.not_lt.2 (Arena.le_index_of_reaches hq.closed hmz (hq.fresh m hm)) (hold z hz)
  refine ⟨hq.calm.trans hr.calm, hr.container, Nat.le_trans hq.size_le hr.size_le,
    fun m n hm hn => ?_, fun n hn m hm => ?_, fun hy hye => hr.known hy (hq.known hy hye),
    fun {d} hd => ?_, ?_, fun m hm => ?_, ?_,
    fun {n payload} hn hv hp => ?_⟩
  · exact hr.agrees m n (hback ▸ hm) (hq.agrees m n hm hn)
  · by_cases hnq : n.index < q.arena.size
    · obtain ⟨d, hd⟩ := Arena.exists_of_index_lt hnq
      have hne : ¬(n = c ∨ q.backing? x = some n) := fun hn' => Nat.not_lt.2 hn (hold n hn')
      rw [Arena.kids_of_find? (hr.agrees n d hne hd)] at hm
      exact hq.closed n hn m (Arena.kids_of_find? hd ▸ hm)
    · exact Nat.le_trans hq.size_le (hr.closed n (Nat.not_lt.1 hnq) m hm)
  · obtain ⟨ch, hch⟩ := hq.self hd
    obtain ⟨ch', hch'⟩ := hr.self hch
    exact ⟨ch', hch'⟩
  · rw [hr.items, hkids, List.append_assoc]
  · rcases List.mem_append.1 hm with hm | hm
    · exact hq.fresh m hm
    · exact Nat.le_trans hq.size_le (hr.fresh m hm)
  · rw [List.map_append, List.map_congr_left hprint]
    exact Node.joined_append hq.print hr.print
  · have hg := hr.glue (hback.trans hn) hv (hkids ▸ hq.glue hn hv hp)
    rwa [hkids, List.append_assoc] at hg

theorem Grows.find?_of_reaches (hg : p.Grows y q) (h : p.Synced) (hx : p.find? x = some e) {z : ElementId}
    (hr : Reaches q.childrenOf z x) : ∃ d, p.find? z = some d := by
  induction hr using Relation.ReflTransGen.head_induction_on with
  | refl => exact ⟨e, hx⟩
  | @head z w hw _ ih =>
    obtain ⟨d, hd⟩ := ih
    have hup : p.parentOf w = some z := by
      rw [parentOf_of_find? hd, ← parentOf_of_find? (hg.known hd)]
      exact hg.calm.synced.parent_iff.2 hw
    cases hz : p.find? z with
    | some d => exact ⟨d, rfl⟩
    | none =>
      have hmem := h.parent_iff.1 hup
      rw [childrenOf, Tree.kids, hz] at hmem
      cases hmem

theorem Grows.not_reaches (hg : p.Grows y q) (h : p.Synced) (hx : p.find? x = some e) :
    ¬Reaches q.childrenOf y x := by
  intro hr
  obtain ⟨d, hd⟩ := hg.find?_of_reaches h hx hr
  cases hd.symm.trans hg.fresh

theorem Grows.container?_eq (hg : p.Grows y q) (h : p.Synced) (hx : p.find? x = some e) :
    q.container? x = p.container? x := by
  rw [container?_of_form? (form?_of_find? (hg.known hx)), container?_of_form? (form?_of_find? hx)]
  exact hg.exts.evolves.container?_eq (h.writes (form?_of_find? hx))

theorem contentModel_eq_ok_iff {model : ContentModel} (hx : p.find? x = some e) :
    p.contentModel x = .ok model ↔ ContentModel.of? e.kind = some model := by
  constructor
  · intro h
    obtain ⟨d, hd, -, hm⟩ := contentModel_ok h
    obtain rfl := Option.some.inj (hx.symm.trans hd)
    exact hm
  · intro h
    rw [contentModel, kind_of_find? hx]
    cases hk : e.kind <;> rw [hk] at h <;> cases h <;> rfl

theorem Spawns.checkInsertable_iff (hs : p.Spawns kind text y q) (h : p.Synced) (hx : p.find? x = some e)
    (hm : checkMovable kind = .ok ()) : q.checkInsertable x y = .ok () ↔ e.kind.holds kind = true := by
  obtain ⟨d, hd, rfl, hup⟩ := hs.element
  have hx' := hs.known hx
  have hwithin : q.isWithin x y = false :=
    Bool.eq_false_iff.2 fun hw => hs.not_reaches h hx (hs.calm.synced.reaches_of_isWithin hw)
  cases hmodel : q.contentModel x with
  | error err =>
    have hnone : ContentModel.of? e.kind = none := by
      cases hof : ContentModel.of? e.kind with
      | none => rfl
      | some model => cases hmodel.symm.trans ((contentModel_eq_ok_iff hx').2 hof)
    simp [checkInsertable, hmodel, Kind.holds, hnone, bind, Except.bind]
  | ok model =>
    have hof := (contentModel_eq_ok_iff hx').1 hmodel
    cases hacc : model.accepts d.kind <;>
      simp [checkInsertable, hmodel, kind_of_find? hd, parent_of_find? hd, kind_of_find? hx', hm, hup,
        hwithin, hacc, Kind.holds, hof, bind, Except.bind]

theorem Refilled.find?_known {u v : List ElementId} (hr : q.Refilled x c (u ++ y :: v) items r)
    (hq : q.Synced) (hch : q.childrenOf x = u ++ v) {z : ElementId} {d : Element} (hz : q.find? z = some d)
    (hne : z ≠ y) :
    r.find? z = some { d with children := if z = x then u ++ y :: v else d.children } := by
  rw [hr.find?_eq, hz]
  have hup : d.parent = some x ↔ z ∈ u ++ v := by
    rw [← parentOf_of_find? hz, hq.parent_iff, hch]
  have hmem : z ∈ u ++ y :: v ↔ z ∈ u ++ v := by simp [hne]
  simp only [Option.map_some, setChildren, hmem, hch]
  by_cases hz : z ∈ u ++ v
  · simp [hz, hup.2 hz]
  · simp [hz]

end Page

namespace Edit

open Page (Needs)

variable {p q : Page} {x : ElementId} {c n : NodeId} {payload : Payload} {items : List NodeId}

theorem Refresh.find?_of_ne (hr : Refresh p x q) (hn : p.backing? x ≠ some n) :
    q.arena.find? n = p.arena.find? n := by
  cases hr with
  | keep => rfl
  | @renew m payload glue b hm hneed hset =>
    obtain ⟨_, -, -, hb⟩ := Arena.exists_of_setGlue hset
    have hne : n ≠ m := by
      rintro rfl
      exact hn hm
    change b.find? n = _
    rw [hb, Arena.find?_modify, if_neg hne, Arena.setPayload, Arena.find?_modify, if_neg hne]

theorem Refresh.find?_list (hr : Refresh p x q) (hc : p.arena.find? c = some ⟨.list items, none⟩) :
    q.arena.find? c = some ⟨.list items, none⟩ := by
  by_cases hx : p.backing? x = some c
  · cases hr with
    | keep => exact hc
    | renew hm hneed hset =>
      obtain rfl := Option.some.inj (hx.symm.trans hm)
      cases Page.needs_of_neededGlue? hneed with
      | element hn hi hne => cases hc.symm.trans hn
      | link hn hi he => cases hc.symm.trans hn
  · exact (hr.find?_of_ne hx).trans hc

theorem Refresh.find?_eq (hr : Refresh p x q) (y : ElementId) : q.find? y = p.find? y := by
  cases hr <;> rfl

theorem Refresh.container?_eq [Entities] (hr : Refresh p x q) (h : p.Synced) (y : ElementId) :
    q.container? y = p.container? y := by
  obtain ⟨b, hb, hk, rfl⟩ := (hr.refreshed h).tidied
  exact h.container?_of_arena hk.toEvolves y

theorem Refresh.size_eq (hr : Refresh p x q) : q.arena.size = p.arena.size := by
  cases hr with
  | keep => rfl
  | renew hm hneed hset =>
    obtain ⟨_, -, -, hb⟩ := Arena.exists_of_setGlue hset
    rw [hb]
    simp [Arena.setPayload]

theorem Refresh.find?_vessel {filled : Bool} (hr : Refresh p x q) (hx : p.backing? x = some n)
    (hv : payload.IsVessel c) (hn : p.arena.find? n = some ⟨payload, payload.madeGlue filled⟩)
    (hc : p.arena.find? c = some ⟨.list items, none⟩) :
    q.arena.find? n = some ⟨payload, payload.madeGlue !items.isEmpty⟩ := by
  cases hr with
  | keep hkeep =>
    have hneed := hkeep n hx
    cases payload with
    | link target title =>
      obtain ⟨rfl, hpipe⟩ := hv
      have hopens : (Glue.link target filled).opensWith '|' = filled :=
        Glue.opensWith_link (getLast?_ne_of_not_mem hpipe) _ _
      have hpayload := Page.payload_of_find? hn
      have hglue := Arena.glue_of_find? hn
      simp only [Page.neededGlue?, hpayload, Arena.items_of_find? hc, hglue, Payload.madeGlue,
        Option.any_some, hopens, PageError.ofArena, bind, Except.bind] at hneed
      split at hneed
      · rename_i hsame
        obtain rfl : filled = !items.isEmpty := by
          cases filled <;> simpa using hsame
        exact hn
      · cases hneed
    | _ => exact hn
  | renew hm hneed hset =>
    obtain rfl := Option.some.inj (hx.symm.trans hm)
    cases Page.needs_of_neededGlue? hneed with
    | element hn' hi hne =>
      obtain ⟨rfl, -⟩ := Node.mk.inj (Option.some.inj (hn.symm.trans hn'))
      cases hv.1
    | link hn' hi he =>
      obtain ⟨rfl, -⟩ := Node.mk.inj (Option.some.inj (hn.symm.trans hn'))
      obtain ⟨rfl, -⟩ := hv
      obtain rfl := Except.ok.inj (hi.symm.trans (Arena.items_of_find? hc))
      obtain ⟨_, -, -, hb⟩ := Arena.exists_of_setGlue hset
      rw [hb, Arena.find?_modify, if_pos rfl, Arena.setPayload, Arena.find?_modify, if_pos rfl, hn]
      rfl

theorem appends_of_exchange [Entities] (h : p.Synced) {kind : Kind} {e : Element} {y : ElementId} {text : String}
    {q' r : Page} {s : List NodeId} {u v : List ElementId} (hc : p.container? x = some c)
    (hx : p.find? x = some e) (hs : p.Spawns kind text y q) (hn : q.backing? y = some n)
    (hex : Exchange q x c s [] [n] [] q') (hch : q.childrenOf x = u ++ v)
    (hfill : q.Refilled x c (u ++ y :: v) (s ++ [n]) q') (hr : Refresh q' x r) :
    p.Appends x c [n] text r := by
  have hq := hs.calm.synced
  have hq' := hex.synced hq
  have hcalm := hs.calm.trans ((hex.calm hq).trans ((hr.refreshed hq').tidied.calm hq'))
  have hne {z : ElementId} {d : Element} (hz : p.find? z = some d) : z ≠ y := by
    rintro rfl
    cases hz.symm.trans hs.fresh
  have hx' := hfill.find?_known hq hch (hs.known hx) (hne hx)
  have hback : q'.backing? x = p.backing? x :=
    (Page.backing?_of_form? (Page.form?_of_find? hx')).trans
      (Page.backing?_of_form? (Page.form?_of_find? hx)).symm
  obtain ⟨items, hi⟩ := h.find?_container hc
  have hiq := hs.exts.find?_of_find? hi
  have hkids : p.arena.kids c = s := by
    rw [Arena.kids_of_find? hi, ← Arena.kids_of_find? hiq, hex.kids, List.append_nil, List.append_nil]
  have hlist : q'.arena.find? c = some ⟨.list (s ++ [n]), none⟩ := by
    rw [hfill.arena, Arena.find?_setItems hiq, if_pos rfl]
  have hother (m : NodeId) (hm : ¬(m = c ∨ p.backing? x = some m)) : r.arena.find? m = q.arena.find? m := by
    rw [not_or] at hm
    rw [hr.find?_of_ne (hback ▸ hm.2), hfill.arena, Arena.find?_setItems hiq, if_neg hm.1]
  have hold {m : NodeId} (hm : m = c ∨ p.backing? x = some m) : m.index < p.arena.size := by
    rcases hm with rfl | hm
    · exact Arena.index_lt_of_find? hi
    · exact h.backing_lt hm
  obtain ⟨n', hn', hnew, hprint⟩ := hs.node
  obtain rfl := Option.some.inj (hn.symm.trans hn')
  refine ⟨hcalm, ?_, ?_, fun m d hm hd => ?_, fun m hm z hz => ?_, fun {z d} hzx hz => ?_,
    fun {d} hd => ?_, ?_, fun m hm => List.mem_singleton.1 hm ▸ hnew, ?_, fun {m payload} hm hv hp => ?_⟩
  · obtain ⟨ch, hf, hfill⟩ := hex.filled
    rw [hr.container?_eq hq', (hf.relinks hq hfill).container?_eq hq, hex.container]
  · rw [hr.size_eq, hfill.arena]
    simpa [Arena.setItems, Arena.setPayload] using hs.exts.size_le
  · exact (hother m hm).trans (hs.exts.find?_of_find? hd)
  · have hm' := hother m fun hd => Nat.not_lt.2 hm (hold hd)
    rw [Arena.kids, Tree.kids, hm'] at hz
    exact hs.closed m hm z hz
  · have hz' := hfill.find?_known hq hch (hs.known hz) (hne hz)
    rw [if_neg hzx] at hz'
    exact (hr.find?_eq z).trans hz'
  · obtain rfl := Option.some.inj (hx.symm.trans hd)
    exact ⟨_, (hr.find?_eq x).trans hx'⟩
  · exact hkids ▸ hr.find?_list hlist
  · have hag : q.arena.AgreesBut r.arena fun m => m = c ∨ p.backing? x = some m := fun m d hm hd =>
      (hother m hm).trans hd
    rw [List.map_singleton, hag.print_eq hq.sound.founded hcalm.synced.sound.founded (hq.backing_lt hn)
      fun m hm hr => Nat.not_lt.2 (Arena.le_index_of_reaches hs.closed hr hnew) (hold hm), hprint]
    exact Node.joined_one text
  · have hmc : m ≠ c := by
      rintro rfl
      obtain ⟨rfl, -⟩ := Node.mk.inj (Option.some.inj (hp.symm.trans hi))
      exact hv
    have hm' : q'.arena.find? m = some ⟨payload, payload.madeGlue !(p.arena.kids c).isEmpty⟩ := by
      rw [hfill.arena, Arena.find?_setItems hiq, if_neg hmc, hs.exts.find?_of_find? hp]
    exact hkids ▸ hr.find?_vessel (hback.trans hm) hv hm' hlist

/-- A new element is put at the end of another where the kinds allow it. -/
theorem ends_insertChild_spawned [Entities] (h : p.Synced) {kind : Kind} {e : Element} {y : ElementId} {text : String}
    (hc : p.container? x = some c) (hx : p.find? x = some e) (hs : p.Spawns kind text y q)
    (hm : Page.checkMovable kind = .ok ()) :
    Ends (insertChild x y .last) q (fun _ r => e.kind.holds kind = true ∧ ∃ n, p.Appends x c [n] text r)
      fun _ _ => e.kind.holds kind = false := by
  have hiff := hs.checkInsertable_iff h hx hm
  cases hholds : e.kind.holds kind with
  | false =>
    refine Ends.bind (ends_ask (fun _ hok => ?_) fun _ _ => rfl)
    cases hholds.symm.trans (hiff.1 hok)
  | true =>
    have hq := hs.calm.synced
    have hxq := hs.known hx
    have hpos : q.positionIndex x .last = .ok e.children.length := by
      rw [Page.positionIndex, Page.children_of_find? hxq]
      rfl
    refine (ends_insertChild_of_checked hq (hiff.2 hholds) hpos).mono (fun _ r hr => ⟨rfl, ?_⟩)
      fun _ _ hf => hf.elim
    obtain ⟨c', n, s, t, q', ⟨hn, hex, rfl, hrefresh⟩, u, v, hch, hfill⟩ := hr
    obtain rfl : c = c' :=
      Option.some.inj (hc.symm.trans ((hs.container?_eq h hx).symm.trans hex.container))
    exact ⟨n, appends_of_exchange h hc hx hs hn hex hch hfill hrefresh⟩

end Edit

namespace Page

variable {p q r : Page} {x : ElementId} {c : NodeId} {kind : Kind} {payload : Payload} {text : String}
  {new : List NodeId}

theorem Starts.spawns (hs : p.Starts kind payload x q)
    (ht : ∀ n, q.arena.find? n = some ⟨payload, payload.madeGlue false⟩ → q.arena.print n = .ok text) :
    p.Spawns kind text x q := by
  obtain ⟨n, hn, hnew, hfind⟩ := hs.node
  exact ⟨hs.toGrows, hs.element, n, hn, hnew, ht n hfind⟩

/-- An element with all of its children is written as its markup around them. -/
theorem Starts.spawns_of_appends (hs : p.Starts kind payload x q) (hv : payload.IsVessel c)
    (ha : q.Appends x c new text r) : p.Spawns kind (payload.written (!new.isEmpty) text) x r := by
  obtain ⟨n, hn, hnew, hfind⟩ := hs.node
  obtain ⟨e, he, hkind, hparent⟩ := hs.element
  obtain ⟨ch, he'⟩ := ha.self he
  obtain ⟨hcnew, hcfind⟩ := hs.lists _ hv.mem_slots
  have hkids : q.arena.kids c = [] := Arena.kids_of_find? hcfind
  have hd : payload.children.Nodup := Arena.kids_of_find? hfind ▸ hs.calm.synced.sound.nodup n
  have hslots (s : NodeId × Role) (h : s ∈ payload.slots) (hne : s.1 ≠ c) :
      r.arena.find? s.1 = some ⟨.list [], none⟩ := by
    refine ha.agrees _ _ (fun hor => ?_) (hs.lists s h).2
    rcases hor with hor | hor
    · exact hne hor
    · obtain rfl := Option.some.inj (hn.symm.trans hor)
      obtain ⟨rfl, -⟩ := Node.mk.inj (Option.some.inj (hfind.symm.trans (hs.lists s h).2))
      exact hv
  have hitems : r.arena.find? c = some ⟨.list new, none⟩ := by
    rw [ha.items, hkids, List.nil_append]
  have hmade : r.arena.find? n = some ⟨payload, payload.madeGlue !new.isEmpty⟩ := by
    have hg := ha.glue hn hv (hkids ▸ hfind)
    rwa [hkids, List.nil_append] at hg
  have hold {m : NodeId} (hm : m = c ∨ q.backing? x = some m) : p.arena.size ≤ m.index := by
    rcases hm with rfl | hm
    · exact hcnew
    · exact Option.some.inj (hn.symm.trans hm) ▸ hnew
  refine ⟨⟨hs.calm.trans ha.calm, ⟨Nat.le_trans hs.exts.size_le ha.size_le, fun m hm => ?_⟩,
    fun m hm z hz => ?_, fun {y d} hy => ?_, hs.fresh⟩, ⟨_, he', hkind, hparent⟩, n, ?_, hnew, ?_⟩
  · obtain ⟨d, hd⟩ := Arena.exists_of_index_lt hm
    rw [hd]
    exact ha.agrees m d (fun h => Nat.not_lt.2 (hold h) hm) (hs.exts.find?_of_find? hd)
  · by_cases hmq : m.index < q.arena.size
    · obtain ⟨d, hd⟩ := Arena.exists_of_index_lt hmq
      by_cases hmc : m = c
      · subst m
        rw [Arena.kids_of_find? hitems] at hz
        exact Nat.le_trans hs.exts.size_le (ha.fresh z hz)
      · by_cases hmn : q.backing? x = some m
        · obtain rfl := Option.some.inj (hn.symm.trans hmn)
          rw [Arena.kids_of_find? hmade] at hz
          exact hs.closed n hm z (Arena.kids_of_find? hfind ▸ hz)
        · rw [Arena.kids_of_find? (ha.agrees m d (not_or.2 ⟨hmc, hmn⟩) hd)] at hz
          exact hs.closed m hm z (Arena.kids_of_find? hd ▸ hz)
    · exact Nat.le_trans hs.exts.size_le (ha.closed m (Nat.not_lt.1 hmq) z hz)
  · refine ha.known ?_ (hs.known hy)
    rintro rfl
    cases hy.symm.trans hs.fresh
  · rw [← hn, backing?_of_form? (form?_of_find? he'), backing?_of_form? (form?_of_find? he)]
  · have hf := ha.calm.synced.sound.founded
    refine hf.print_vessel hv hmade hd ?_ hslots
    rw [hf.print_list hitems, ha.print]

end Page

end WikiPage
