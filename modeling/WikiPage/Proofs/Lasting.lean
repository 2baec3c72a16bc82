import WikiPage.Proofs.Reached
import WikiPage.Proofs.Shapes

/-!
# Texts and targets that last

Texts are written as they are: no act gives a text glue that it did not have. A link leads where it did
unless an act gives it another target, and then the act has checked that target.
-/

namespace WikiPage

/-- A node that may come in the place of another, or as a new one. The glue of a text is none or the
old one, and the target of a link is a good one or the old one. -/
def Node.KeepsTextsAndTargets (good : String → Prop) (old : Option Node) : Node → Prop
  | ⟨.text _, some g⟩ => ∃ s, old = some ⟨.text s, some g⟩
  | ⟨.link target _, _⟩ => good target ∨ ∃ title g, old = some ⟨.link target title, g⟩
  | _ => True

namespace Node.KeepsTextsAndTargets

variable {good : String → Prop} {old : Option Node} {m n : Node}

theorem self (n : Node) : n.KeepsTextsAndTargets good (some n) := by
  obtain ⟨p, g⟩ := n
  cases p with
  | text s =>
    cases g with
    | none => trivial
    | some g => exact ⟨s, rfl⟩
  | link target title => exact .inr ⟨title, g, rfl⟩
  | _ => trivial

theorem trans (hn : n.KeepsTextsAndTargets good (some m)) (hm : m.KeepsTextsAndTargets good old) :
    n.KeepsTextsAndTargets good old := by
  obtain ⟨p, g⟩ := n
  cases p with
  | text s =>
    cases g with
    | none => trivial
    | some g =>
      obtain ⟨s', h⟩ := hn
      obtain rfl := Option.some.inj h
      exact hm
  | link target title =>
    rcases hn with hg | ⟨title', g', h⟩
    · exact .inl hg
    · obtain rfl := Option.some.inj h
      exact hm
  | _ => trivial

end Node.KeepsTextsAndTargets

namespace Arena

variable {good : String → Prop} {a b c : Arena} {id x : NodeId} {n : Node}

/-- No node goes, and every node may come in the place of the one that was there. -/
structure KeepsTextsAndTargets (good : String → Prop) (a b : Arena) : Prop where
  size_le : a.size ≤ b.size
  nodes : ∀ x n, b.find? x = some n → n.KeepsTextsAndTargets good (a.find? x)

namespace KeepsTextsAndTargets

theorem refl (a : Arena) : a.KeepsTextsAndTargets good a :=
  ⟨Nat.le_refl _, fun _ n hn => hn ▸ .self n⟩

theorem mono {good' : String → Prop} (h : a.KeepsTextsAndTargets good b) (hg : ∀ t, good t → good' t) :
    a.KeepsTextsAndTargets good' b := by
  refine ⟨h.size_le, fun x n hn => ?_⟩
  have hl := h.nodes x n hn
  obtain ⟨p, g⟩ := n
  cases p with
  | text s => cases g <;> exact hl
  | link target title => exact hl.imp_left (hg target)
  | _ => trivial

theorem trans (h : a.KeepsTextsAndTargets good b) (h' : b.KeepsTextsAndTargets good c) :
    a.KeepsTextsAndTargets good c := by
  refine ⟨Nat.le_trans h.size_le h'.size_le, fun x n hn => ?_⟩
  have hl := h'.nodes x n hn
  cases hm : b.find? x with
  | some m => exact (hm ▸ hl).trans (h.nodes x m hm)
  | none =>
    -- a node that is new needs nothing from an old one
    rw [hm] at hl
    obtain ⟨p, g⟩ := n
    cases p with
    | text s =>
      cases g with
      | none => trivial
      | some g =>
        obtain ⟨_, hs⟩ := hl
        cases hs
    | link target title =>
      rcases hl with hg | ⟨_, _, ht⟩
      · exact .inl hg
      · cases ht
    | _ => trivial

theorem modify {f : Node → Node} (hf : ∀ n, a.find? id = some n → (f n).KeepsTextsAndTargets good (some n)) :
    a.KeepsTextsAndTargets good (a.modify id f) := by
  refine ⟨Nat.le_of_eq (size_modify a id f).symm, fun x m hm => ?_⟩
  rw [find?_modify] at hm
  split at hm
  · subst x
    obtain ⟨n, hn, rfl⟩ := Option.map_eq_some_iff.1 hm
    exact hn ▸ hf n hn
  · exact hm ▸ .self m

theorem push (hn : n.KeepsTextsAndTargets good none) : a.KeepsTextsAndTargets good (a.push n) := by
  have hnext : a.find? a.next = none := find?_eq_none_iff.2 (Nat.le_refl a.size)
  refine ⟨Nat.le_of_lt (next_index_lt a n), fun x m hm => ?_⟩
  rw [find?_push] at hm
  split at hm
  · subst x
    obtain rfl := Option.some.inj hm
    exact hnext ▸ hn
  · exact hm ▸ .self m

theorem pushList (items : List NodeId) : a.KeepsTextsAndTargets good (a.push ⟨.list items, none⟩) :=
  push trivial

theorem setItems (a : Arena) (id : NodeId) (items : List NodeId) :
    a.KeepsTextsAndTargets good (a.setItems id items) :=
  modify fun _ _ => trivial

theorem changeItems {change : List NodeId → Except PageError (List NodeId)}
    (h : a.changeItems id change = .ok b) : a.KeepsTextsAndTargets good b := by
  obtain ⟨_, _, _, -, -, rfl⟩ := exists_of_changeItems h
  exact setItems _ _ _

theorem setGlue {g : Option Glue} (h : a.setGlue id g = .ok b)
    (hn : ∀ n, a.find? id = some n → n.payload.isNoText = true) : a.KeepsTextsAndTargets good b := by
  obtain ⟨_, _, -, rfl⟩ := exists_of_setGlue h
  refine modify fun n hn' => ?_
  obtain ⟨p, g'⟩ := n
  have hp := hn _ hn'
  cases p with
  | text s => cases hp
  | link target title => exact .inr ⟨title, g', rfl⟩
  | _ => trivial

theorem target? (h : a.KeepsTextsAndTargets good b) {t : String} (ht : b.target? x = some t) :
    a.target? x = some t ∨ good t := by
  obtain ⟨n, hn, hnt⟩ := Option.bind_eq_some_iff.1 ht
  obtain ⟨p, g⟩ := n
  cases p with
  | link target title =>
    obtain rfl := Option.some.inj hnt
    rcases h.nodes x _ hn with hg | ⟨_, _, ha⟩
    · exact .inr hg
    · exact .inl (target?_of_find? ha rfl)
  | _ => cases hnt

end KeepsTextsAndTargets

/-- No text has glue. -/
def TextsBare (a : Arena) : Prop :=
  ∀ {x s g}, a.find? x = some ⟨.text s, g⟩ → g = none

theorem TextsBare.keepsTextsAndTargets (h : a.TextsBare) (hb : a.KeepsTextsAndTargets good b) :
    b.TextsBare := by
  intro x s g hx
  cases g with
  | none => rfl
  | some g =>
    obtain ⟨_, hs⟩ := hb.nodes x _ hx
    cases h hs

theorem textsBare_new : new.TextsBare := by
  intro x s g hx
  obtain ⟨i⟩ := x
  match i with
  | 0 => cases hx
  | 1 => cases hx
  | i + 2 => simp [find?_eq_none_iff.2 (show new.size ≤ i + 2 by simp [size_new])] at hx

end Arena

namespace Surgery

variable {α : Type} (good : String → Prop) {a : Arena} {id : NodeId}

/-- A step of surgery in which what should last does, if it ends well. -/
abbrev Spares (good : String → Prop) (s : Surgery α) (a : Arena) : Prop :=
  Ends s a (fun _ b => a.KeepsTextsAndTargets good b) fun _ _ => True

theorem spares_setGlue {g : Glue}
    (hn : ∀ n, a.find? id = some n → n.payload.isNoText = true) : Spares good (setGlue id g) a :=
  ends_change (fun _ hb => .setGlue (PageError.eq_ok_of_ofArena hb) hn) fun _ _ => trivial

theorem spares_setGlue_push (p : Payload) {g : Glue} (hp : Node.KeepsTextsAndTargets good none ⟨p, none⟩)
    (ht : p.isNoText = true) :
    Ends (setGlue a.next g) (a.push ⟨p, none⟩) (fun _ b => a.KeepsTextsAndTargets good b) fun _ _ => True := by
  refine (spares_setGlue good fun n hn => ?_).mono (fun _ _ hb => (Arena.KeepsTextsAndTargets.push hp).trans hb)
    fun _ _ h => h
  rw [Arena.find?_push_next] at hn
  obtain rfl := Option.some.inj hn
  exact ht

theorem spares_renewGlue (n : Nat) : ∀ (id : NodeId) (a : Arena),
    Ends (renewGlue n id) a (fun _ b => a.KeepsTextsAndTargets good b ∧
      ∀ x, (b.find? x).map Node.payload = (a.find? x).map Node.payload) fun _ _ => True := by
  induction n with
  | zero => exact fun _ _ => Ends.throw trivial
  | succ n ih =>
    intro id a
    have glued {b : Arena} {g : Glue} {p : Payload} (hp : a.payload id = .ok p)
        (ht : p.isNoText = true) (hl : a.KeepsTextsAndTargets good b)
        (hsame : ∀ x, (b.find? x).map Node.payload = (a.find? x).map Node.payload) :
        Ends (setGlue id g) b (fun _ c => a.KeepsTextsAndTargets good c ∧
          ∀ x, (c.find? x).map Node.payload = (a.find? x).map Node.payload) fun _ _ => True := by
      obtain ⟨g', ha⟩ := Arena.find?_of_payload hp
      refine ends_change (fun c hc => ?_) fun _ _ => trivial
      have hc := PageError.eq_ok_of_ofArena hc
      refine ⟨hl.trans (.setGlue hc fun m hm => ?_), fun x =>
        ((Arena.Reglued.setGlue hc).payload_eq x).trans (hsame x)⟩
      have hm' := hsame id
      rw [hm, ha] at hm'
      exact Option.some.inj hm' ▸ ht
    refine Ends.bind (ends_look (fun p hp => ?_) fun _ _ => trivial)
    cases p with
    | element name empty attributes body =>
      refine Ends.bind (ends_look (fun items _ => ?_) fun _ _ => trivial)
      refine (Ends.forM_of_keeps (I := fun b => a.KeepsTextsAndTargets good b ∧
        ∀ x, (b.find? x).map Node.payload = (a.find? x).map Node.payload) (fun x _ b hb => ?_)
        ⟨.refl a, fun _ => rfl⟩).step (fun _ b hb => glued hp rfl hb.1 hb.2) fun _ _ h => h
      exact (ih x b).mono (fun _ c hc => ⟨hb.1.trans hc.1, fun x => (hc.2 x).trans (hb.2 x)⟩)
        fun _ _ h => h
    | link target title =>
      exact Ends.bind (ends_look (fun items _ => glued hp rfl (.refl a) fun _ => rfl)
        fun _ _ => trivial)
    | attr name hasValue value => exact glued hp rfl (.refl a) fun _ => rfl
    | emphasis style content => exact glued hp rfl (.refl a) fun _ => rfl
    | comment text => exact glued hp rfl (.refl a) fun _ => rfl
    | rule => exact glued hp rfl (.refl a) fun _ => rfl
    | paragraph content => exact glued hp rfl (.refl a) fun _ => rfl
    | _ => exact Ends.pure ⟨.refl a, fun _ => rfl⟩

theorem spares_addGlue : Spares good (addGlue id) a :=
  Ends.bind (Ends.get ((spares_renewGlue good _ _ _).mono (fun _ _ h => h.1) fun _ _ h => h))

theorem spares_makeGlued {p : Payload} (hp : Node.KeepsTextsAndTargets good none ⟨p, none⟩) :
    Ends (do let node ← make p; addGlue node; pure node) a
      (fun n b => n = a.next ∧ a.KeepsTextsAndTargets good b) fun _ _ => True :=
  Ends.bind (ends_make ((spares_addGlue good).step
    (fun _ _ hb => Ends.pure ⟨rfl, (Arena.KeepsTextsAndTargets.push hp).trans hb⟩) fun _ _ h => h))

theorem spares_makeElement (name : String) (items : List NodeId) (empty : Bool) :
    Spares good (do
      let attributes ← make (.list [])
      let body ← make (.list items)
      let element ← make (.element name empty attributes body)
      setGlue element (Glue.element name empty)
      pure element) a := by
  refine Ends.bind (ends_make (Ends.bind (ends_make (Ends.bind (ends_make ?_)))))
  exact (spares_setGlue_push good (.element name empty _ _) trivial rfl).step
    (fun _ _ hb => Ends.pure (((Arena.KeepsTextsAndTargets.pushList []).trans (.pushList items)).trans hb))
    fun _ _ h => h

theorem spares_toElement (kind : Kind) (native : NodeId) : Spares good (toElement kind native) a := by
  unfold toElement
  split
  · exact Ends.throw trivial
  · rename_i tag _
    refine Ends.bind (ends_look (fun payload _ => ?_) fun _ _ => trivial)
    refine Ends.bind (ends_ask (fun content _ => ?_) fun _ _ => trivial)
    cases content with
    | none => exact Ends.bind (Ends.pure (spares_makeElement good tag [] true))
    | some c =>
      refine Ends.bind (ends_look (fun items _ => ?_) fun _ _ => trivial)
      refine Ends.bind (ends_setItems (Ends.bind (Ends.pure ?_)))
      exact (spares_makeElement good tag items false).mono
        (fun _ _ hb => (Arena.KeepsTextsAndTargets.setItems a c []).trans hb) fun _ _ h => h

theorem spares_encodeValue (value : String) : Spares good (encodeValue value) a := by
  unfold encodeValue
  induction Span.encode value.toList generalizing a with
  | nil => exact Ends.pure (.refl a)
  | cons span spans ih =>
    rw [List.mapM_cons]
    refine Ends.bind (ends_make (ih.step (fun _ b hb => Ends.pure (.trans (.push ?_) hb)) fun _ _ h => h))
    cases span <;> trivial

theorem spares_rewriteAttribute (node : NodeId) (name : String) (items : List NodeId) :
    Spares good (rewriteAttribute node name items) a := by
  refine Ends.bind (ends_look (fun p _ => ?_) fun _ _ => trivial)
  cases p with
  | attr written hasValue value =>
    refine Ends.bind (ends_look (fun glue _ => ?_) fun _ _ => trivial)
    refine Ends.bind (ends_look (fun _ _ => ?_) fun _ _ => trivial)
    refine Ends.bind (ends_setItems (Ends.bind (ends_setPayload ?_)))
    have hl : a.KeepsTextsAndTargets good
        ((a.setItems value items).setPayload node (.attr written true value)) :=
      (Arena.KeepsTextsAndTargets.setItems a value items).trans (.modify fun _ _ => trivial)
    split
    · refine (spares_setGlue good fun n hn => ?_).mono (fun _ _ hc => hl.trans hc) fun _ _ h => h
      rw [Arena.setPayload, Arena.find?_modify, if_pos rfl] at hn
      obtain ⟨m, -, rfl⟩ := Option.map_eq_some_iff.1 hn
      rfl
    · exact Ends.pure hl
  | _ => exact Ends.throw trivial

theorem spares_addAttribute (list : NodeId) (name : String) (items : List NodeId) :
    Spares good (addAttribute list name items) a := by
  refine Ends.bind (ends_make (Ends.bind (ends_make ?_)))
  refine (spares_setGlue_push good (.attr name true _) trivial rfl).step (fun _ b hb => ?_)
    fun _ _ h => h
  exact Ends.bind (ends_change
    (fun c hc => Ends.pure (((Arena.KeepsTextsAndTargets.pushList items).trans hb).trans (.changeItems hc)))
    fun _ _ => trivial)

theorem spares_writeAttribute (list : NodeId) (name value : String) (node : Option NodeId) :
    Spares good (writeAttribute list name value node) a := by
  refine (spares_encodeValue good value).step (fun items b hb => ?_) fun _ _ h => h
  cases node with
  | some node =>
    exact (spares_rewriteAttribute good node name items).step (fun _ _ hc => Ends.pure (hb.trans hc))
      fun _ _ h => h
  | none =>
    exact (spares_addAttribute good list name items).mono (fun _ _ hc => hb.trans hc) fun _ _ h => h

end Surgery

/-- What is told of targets that have been checked and of those that are stored. -/
structure Site.Vouches (site : Site) (good : String → Prop) : Prop where
  checked : ∀ {s t}, Verifier.checkLinkTarget site s = .ok t → good t
  stored : ∀ {s t}, Verifier.checkLinkTarget site s = .ok t → good (Normalization.words.apply t)

theorem Site.vouches_true (site : Site) : site.Vouches fun _ => True :=
  ⟨fun _ => trivial, fun _ => trivial⟩

namespace Page

variable {site : Site} {good : String → Prop} {p q r : Page} {x : ElementId} {n : NodeId}

/-- Texts are written as they were. Links that are elements have the nodes that they had or new ones,
and lead where they did or to a target that is good. -/
structure KeepsTextsAndTargets (good : String → Prop) (p q : Page) : Prop where
  site : q.site = p.site
  texts : p.arena.KeepsTextsAndTargets (fun _ => True) q.arena
  links : ∀ {x n t}, q.form? x = some (.link, some (.markup n)) → q.arena.target? n = some t →
    p.form? x = some (.link, some (.markup n)) ∧ p.arena.target? n = some t ∨ good t
  known : ∀ {x n}, q.form? x = some (.link, some (.markup n)) →
    p.form? x = some (.link, some (.markup n)) ∨ p.arena.find? n = none

namespace KeepsTextsAndTargets

theorem refl (p : Page) : p.KeepsTextsAndTargets good p :=
  ⟨rfl, .refl _, fun hx ht => .inl ⟨hx, ht⟩, .inl⟩

theorem trans (h : p.KeepsTextsAndTargets good q) (h' : q.KeepsTextsAndTargets good r) :
    p.KeepsTextsAndTargets good r where
  site := h'.site.trans h.site
  texts := h.texts.trans h'.texts
  links hx ht := by
    rcases h'.links hx ht with ⟨hx, ht⟩ | hg
    · exact h.links hx ht
    · exact .inr hg
  known hx := by
    rcases h'.known hx with hx | hn
    · exact h.known hx
    · rw [Arena.find?_eq_none_iff] at hn ⊢
      exact .inr (Nat.le_trans h.texts.size_le hn)

theorem of_arena {b : Arena} (hb : p.arena.KeepsTextsAndTargets good b) :
    p.KeepsTextsAndTargets good { p with arena := b } where
  site := rfl
  texts := hb.mono fun _ _ => trivial
  links hx ht := (hb.target? ht).imp_left fun ht => ⟨hx, ht⟩
  known hx := .inl hx

theorem of_elements (ha : q.arena = p.arena) (hs : q.site = p.site)
    (hf : ∀ {x n}, q.form? x = some (.link, some (.markup n)) →
      p.form? x = some (.link, some (.markup n))) : p.KeepsTextsAndTargets good q where
  site := hs
  texts := ha ▸ .refl _
  links hx ht := .inl ⟨hf hx, ha ▸ ht⟩
  known hx := .inl (hf hx)

theorem update {f : Element → Element} (hf : ∀ e n, p.find? x = some e →
    (f e).kind = .link → (f e).backing = some (.markup n) →
      e.kind = .link ∧ e.backing = some (.markup n)) : p.KeepsTextsAndTargets good (p.update x f) := by
  refine of_elements rfl rfl fun {y n} hy => ?_
  obtain ⟨d, hd, hk, hb⟩ := find?_of_form? hy
  rw [find?_update] at hd
  split at hd
  · subst y
    obtain ⟨e, he, rfl⟩ := Option.map_eq_some_iff.1 hd
    obtain ⟨hk, hb⟩ := hf e n he hk hb
    rw [form?_of_find? he, hk, hb]
  · exact (form?_of_find? hd).trans (by rw [hk, hb])

theorem push {b : Arena} (hb : p.arena.KeepsTextsAndTargets good b) {e : Element}
    (he : ∀ n, e.kind = .link → e.backing = some (.markup n) →
      p.arena.find? n = none ∧ ∀ t, b.target? n = some t → good t) :
    p.KeepsTextsAndTargets good (Page.push { p with arena := b } e) := by
  have cases_form {y : ElementId} {n : NodeId}
      (hy : form? (Page.push { p with arena := b } e) y = some (.link, some (.markup n))) :
      p.form? y = some (.link, some (.markup n)) ∨
        p.arena.find? n = none ∧ ∀ t, b.target? n = some t → good t := by
    obtain ⟨d, hd, hk, hback⟩ := find?_of_form? hy
    rw [find?_push] at hd
    split at hd
    · obtain rfl := Option.some.inj hd
      exact .inr (he n hk hback)
    · exact .inl ((form?_of_find? hd).trans (by rw [hk, hback]))
  refine ⟨rfl, hb.mono fun _ _ => trivial, fun hy ht => ?_, fun hy => (cases_form hy).imp_right And.left⟩
  rcases cases_form hy with hy | ⟨-, hg⟩
  · exact (hb.target? ht).imp_left fun ht => ⟨hy, ht⟩
  · exact .inr (hg _ ht)

theorem targets (h : p.KeepsTextsAndTargets good q)
    (hp : ∀ {x n t}, p.form? x = some (.link, some (.markup n)) → p.arena.target? n = some t → good t)
    {t : String} (hx : q.form? x = some (.link, some (.markup n))) (ht : q.arena.target? n = some t) :
    good t :=
  (h.links hx ht).elim (fun h => hp h.1 h.2) id

end KeepsTextsAndTargets

theorem AppendedLink.form?_eq {name : String} {l : PlacedLink} (hl : p.AppendedLink name l q) :
    q.form? = p.form? := by
  obtain ⟨-, _, _, -, rfl⟩ := hl
  rfl

theorem AppendedLink.keepsTextsAndTargets {name : String} {l : PlacedLink} (hl : p.AppendedLink name l q)
    (h : p.Synced) (ht : p.arena.KeepsTextsAndTargets (fun _ => True) q.arena) :
    p.KeepsTextsAndTargets good q where
  site := by
    obtain ⟨-, _, _, -, rfl⟩ := hl
    rfl
  texts := ht
  known hx := .inl (hl.form?_eq ▸ hx)
  links {x n t} hx htn := by
    rw [hl.form?_eq] at hx
    have hn : n.index < p.arena.size := h.backing_lt (backing?_of_form? hx)
    refine .inl ⟨hx, ?_⟩
    rw [← htn, Arena.target?, Arena.target?, hl.find?_old h hn]
    rintro rfl
    -- the content of the page is the node of the body
    obtain rfl := h.backing_inj (backing?_of_form? hx) h.body_backing
    cases hx.symm.trans h.body_form

end Page

namespace Edit

variable {α β : Type} {site : Site} {good : String → Prop} {p : Page} {id : ElementId} {name : String}

/-- An edit in which what should last does, if it ends well. -/
def Spares (site : Site) (good : String → Prop) (m : Edit α) : Prop :=
  ∀ p : Page, p.site = site → Ends m p (fun _ q => p.KeepsTextsAndTargets good q) fun _ _ => True

namespace Spares

theorem step {m : Edit α} {f : α → Edit β} {P : α → Page → Prop} {E : PageError → Page → Prop}
    (hs : p.site = site) (hm : Ends m p (fun x q => p.KeepsTextsAndTargets good q ∧ P x q) E)
    (hf : ∀ x q, q.site = site → P x q →
      Ends (f x) q (fun _ r => q.KeepsTextsAndTargets good r) fun _ _ => True) :
    Ends (m >>= f) p (fun _ q => p.KeepsTextsAndTargets good q) fun _ _ => True :=
  Ends.step hm (fun x q hq => (hf x q (hq.1.site.trans hs) hq.2).mono (fun _ _ hr => hq.1.trans hr)
    fun _ _ h => h) fun _ _ _ => trivial

theorem bind {m : Edit α} {f : α → Edit β} (hm : Spares site good m) (hf : ∀ x, Spares site good (f x)) :
    Spares site good (m >>= f) := fun p hs =>
  step hs ((hm p hs).mono (fun _ _ hq => ⟨hq, trivial⟩) fun _ _ h => h)
    fun x q hq _ => hf x q hq

theorem pure (x : α) : Spares site good (pure x) :=
  fun p _ => Ends.pure (.refl p)

theorem throw (e : PageError) : Spares site good (throw e : Edit α) :=
  fun _ _ => Ends.throw trivial

theorem get : Spares site good get :=
  fun p _ => Ends.get (.refl p)

theorem ask (f : Page → Except PageError α) : Spares site good (ask f) :=
  fun p _ => ends_ask (fun _ _ => .refl p) fun _ _ => trivial

theorem surgery {s : Surgery α} (hs : ∀ a, Surgery.Spares good s a) : Spares site good (surgery s) :=
  fun p _ => ends_surgery ((hs p.arena).mono (fun _ _ ha => .of_arena ha) fun _ _ h => h)

theorem change {f : Arena → Except PageError Arena} (hf : ∀ a b, f a = .ok b → a.KeepsTextsAndTargets good b) :
    Spares site good (Edit.surgery (Surgery.change f)) :=
  surgery fun a => Surgery.ends_change (hf a) fun _ _ => trivial

theorem update {f : Element → Element} (hf : ∀ e, (f e).kind = e.kind ∧ (f e).backing = e.backing) :
    Spares site good (update id f) :=
  fun _ _ => ends_update (fun _ _ => .update fun e _ _ hk hb =>
    ⟨(hf e).1 ▸ hk, (hf e).2 ▸ hb⟩) fun _ => trivial

theorem make {e : Element} (hk : e.kind ≠ .link) : Spares site good (make e) :=
  fun p _ => ends_make (.push (.refl p.arena) fun _ h => absurd h hk)

theorem modify {f : Page → Page} (ha : ∀ p, (f p).arena = p.arena) (hs : ∀ p, (f p).site = p.site)
    (hf : ∀ p, (f p).form? = p.form?) : Spares site good (modify f : Edit Unit) :=
  fun p _ => Ends.modify (.of_elements (ha p) (hs p) fun hx => hf p ▸ hx)

theorem forM {l : List α} {f : α → Edit Unit} (hf : ∀ x, Spares site good (f x)) :
    Spares site good (l.forM f) :=
  fun p hs => Ends.forM_of_keeps (I := fun q => p.KeepsTextsAndTargets good q) (fun x _ q hq =>
    (hf x q (hq.site.trans hs)).mono (fun _ _ hr => hq.trans hr) fun _ _ h => h) (.refl p)

theorem quiet {m : Edit α} (hm : Ends m p (fun _ q => p.KeepsTextsAndTargets good q) fun _ _ => True) :
    Ends (do let _ ← m) p (fun _ q => p.KeepsTextsAndTargets good q) fun _ _ => True :=
  hm.step (fun _ _ hq => Ends.pure hq) fun _ _ h => h

end Spares

theorem spares_writeAttribute (name value : String) (node : Option NodeId) :
    Spares site good (writeAttribute id name value node) :=
  (Spares.ask _).bind fun list => .surgery fun _ =>
    Surgery.spares_writeAttribute good list name value node

theorem spares_writeUnwritten : Spares site good (writeUnwritten id) :=
  (Spares.ask _).bind fun _ => .forM fun _ =>
    (spares_writeAttribute _ _ _).bind fun _ => .update fun _ => ⟨rfl, rfl⟩

theorem spares_settle (content : Option NodeId) (tag : NodeId) :
    Spares site good (settle id content tag) := by
  have tagged : Spares site good (update id fun e => { e with backing := some (.tag tag) }) :=
    fun _ _ => ends_update (fun _ _ => .update fun _ _ _ _ hb => by cases hb) fun _ => trivial
  refine tagged.bind fun _ => ?_
  cases content with
  | some content =>
    refine (Spares.ask _).bind fun target => Spares.bind ?_ fun _ => spares_writeUnwritten
    exact .modify (fun _ => rfl) (fun _ => rfl) fun _ => Page.form?_moveLinks
  | none => exact spares_writeUnwritten

theorem spares_promote : Spares site good (promote id) := by
  refine (Spares.ask _).bind fun e => ?_
  split
  · refine (Spares.ask _).bind fun container => Spares.get.bind fun p =>
      (Spares.surgery fun _ => Surgery.spares_toElement good _ _).bind fun tag => ?_
    cases container with
    | some container => exact (Spares.change fun _ _ hb => .changeItems hb).bind fun _ => spares_settle _ _
    | none => exact spares_settle _ _
  · exact .pure _
  · exact .throw _

theorem spares_commit (policy : Policy) (key value : String) :
    Spares site good (commit id policy key value) := by
  refine (Spares.ask _).bind fun stored => ?_
  have store (node : Option NodeId) : Spares site good (do
      update id fun e => { e with attributes := Attribute.put e.attributes ⟨key, value, node⟩ }
      pure (stored.map Attribute.value)) :=
    Spares.bind (.update fun _ => ⟨rfl, rfl⟩) fun _ => .pure _
  split
  · have hw : Spares site good (writeValue id key value) := (Spares.ask _).bind fun _ =>
      spares_promote.bind fun _ => (Spares.ask _).bind fun _ => spares_writeAttribute _ _ _
    exact Spares.bind (fun p hs => Ends.map (hw p hs)) store
  · exact store _

theorem spares_assign (name value : String) : Spares site good (assign id name value) :=
  (Spares.ask _).bind fun _ => spares_commit _ _ _

theorem spares_createMarkup (kind : Kind) (payload : Payload)
    (hp : Node.KeepsTextsAndTargets good none ⟨payload, none⟩) :
    Spares site good (createMarkup kind payload) := by
  intro p _
  refine Ends.bind (ends_surgery ((Surgery.spares_makeGlued good hp).mono (fun n b hb => ?_)
    fun _ _ h => h))
  obtain ⟨rfl, hb⟩ := hb
  refine ends_make (.push hb fun n _ hn => ?_)
  obtain rfl := Backing.markup.inj (Option.some.inj hn)
  have hnext : p.arena.find? p.arena.next = none := Arena.find?_eq_none_iff.2 (Nat.le_refl p.arena.size)
  refine ⟨hnext, fun t ht => (hb.target? ht).resolve_left fun hold => ?_⟩
  simp [Arena.target?, hnext] at hold

theorem spares_createContaining (kind : Kind) (payload : NodeId → Payload)
    (hp : ∀ n, Node.KeepsTextsAndTargets good none ⟨payload n, none⟩) :
    Spares site good (createContaining kind payload) :=
  (Spares.surgery fun _ => Surgery.ends_make (.pushList [])).bind fun _ => spares_createMarkup kind _ (hp _)

theorem spares_createDiv : Spares site good createDiv := by
  refine (Spares.surgery fun a => ?_).bind fun _ => .make nofun
  refine Ends.bind (Surgery.ends_make (Ends.bind (Surgery.ends_make ?_)))
  refine (Surgery.spares_makeGlued good ?_).mono (fun _ _ hb =>
    ((Arena.KeepsTextsAndTargets.pushList []).trans (.pushList [])).trans hb.2) fun _ _ h => h
  trivial

theorem spares_createLink (hv : site.Vouches good) (target : String) :
    Spares site good (createLink target) := by
  intro p hs
  refine Ends.bind (ends_ask (fun t ht => ?_) fun _ _ => trivial)
  have hgood : good t := hv.checked (hs ▸ ht)
  have hlink (title : NodeId) : Node.KeepsTextsAndTargets good none ⟨.link t title, none⟩ := .inl hgood
  exact ((spares_createContaining .link (.link t) hlink).bind fun _ =>
    (spares_assign _ _).bind fun _ => .pure _) p hs

theorem spares_createComment (s : String) : Spares site good (createComment s) :=
  (Spares.ask _).bind fun _ => spares_createMarkup .comment (.comment s) trivial

theorem spares_createText (s : String) : Spares site good (createText s) :=
  (Spares.surgery fun _ => Surgery.ends_make (.push (n := ⟨.text s, none⟩) trivial)).bind fun _ =>
    .make nofun

theorem Exchange.keepsTextsAndTargets {x : ElementId} {c : NodeId} {u r b v : List NodeId} {q : Page}
    (hq : Exchange p x c u r b v q) (h : p.Synced) : p.KeepsTextsAndTargets good q := by
  obtain ⟨ch, hf, hr⟩ := hq.filled
  have hform := (hf.relinks h hr).form
  refine (Page.KeepsTextsAndTargets.of_arena (.setItems p.arena c (u ++ b ++ v))).trans
    (.of_elements hr.arena hr.site fun hx => ?_)
  rw [hform] at hx
  exact hx

theorem Refresh.keepsTextsAndTargets {x : ElementId} {q : Page} (hq : Refresh p x q) :
    p.KeepsTextsAndTargets good q := by
  cases hq with
  | keep => exact .refl p
  | @renew n payload glue b _ hneed hset =>
    have renewed {m : Node} (hm : p.arena.find? n = some m)
        (hl : Node.KeepsTextsAndTargets good (some m) ⟨payload, m.glue⟩) (ht : payload.isNoText = true) :
        p.KeepsTextsAndTargets good { p with arena := b } := by
      refine .of_arena (.trans (.modify fun m' hm' => ?_) (.setGlue hset fun m' hm' => ?_))
      · obtain rfl := Option.some.inj (hm.symm.trans hm')
        exact hl
      · change (p.arena.modify n _).find? n = _ at hm'
        rw [Arena.find?_modify, if_pos rfl, hm] at hm'
        obtain rfl := Option.some.inj hm'
        exact ht
    cases Page.needs_of_neededGlue? hneed with
    | element hn _ _ => exact renewed hn trivial rfl
    | link hn _ _ => exact renewed hn (.inr ⟨_, _, rfl⟩) rfl

theorem spares_replaceText {e : Element} (he : p.find? id = some e) (hk : e.kind ≠ .link)
    (node : NodeId) (s : String) :
    Ends (replaceText id node s) p (fun _ q => p.KeepsTextsAndTargets good q) fun _ _ => True := by
  refine Ends.bind (ends_ask (fun container _ => ?_) fun _ _ => trivial)
  refine Ends.bind (ends_surgery (Surgery.ends_make ?_))
  have hpush : p.arena.KeepsTextsAndTargets good (p.arena.push ⟨.text s, none⟩) := .push trivial
  have back {b : Arena} (hb : p.arena.KeepsTextsAndTargets good b) : Ends (update id fun e =>
      { e with backing := some (.markup p.arena.next) }) { p with arena := b }
      (fun _ q => p.KeepsTextsAndTargets good q) fun _ _ => True := by
    refine ends_update (fun _ _ =>
      (Page.KeepsTextsAndTargets.of_arena hb).trans (.update fun e' _ he' hk' _ => ?_))
      fun _ => trivial
    obtain rfl := Option.some.inj (he.symm.trans he')
    exact absurd hk' hk
  cases container with
  | some container =>
    exact Ends.bind (ends_surgery (Surgery.ends_change
      (fun _ hb => back (hpush.trans (.changeItems hb))) fun _ _ => trivial))
  | none => exact back hpush

theorem spares_setText (s : String) : Spares site good (setText id s) := by
  intro p _
  refine ends_requireKind.step ?_ fun _ _ _ => trivial
  rintro _ q ⟨rfl, e, he, hk⟩
  refine Ends.bind (ends_ask (fun node _ => ?_) fun _ _ => trivial)
  refine Ends.bind (ends_ask (fun payload hp => ?_) fun _ _ => trivial)
  obtain ⟨g, hn⟩ := Page.find?_of_payload hp
  split
  · refine ends_surgery (Surgery.ends_setPayload (.of_arena (.modify fun m hm => ?_)))
    obtain rfl := Option.some.inj (hn.symm.trans hm)
    cases g with
    | none => trivial
    | some g => exact ⟨_, rfl⟩
  · exact spares_replaceText he (by simp [hk]) _ _

theorem spares_setComment (h : p.Synced) (s : String) :
    Ends (setComment id s) p (fun _ q => p.KeepsTextsAndTargets good q) fun _ _ => True := by
  refine ends_requireKind.step ?_ fun _ _ _ => trivial
  rintro _ q ⟨rfl, e, he, hk⟩
  refine Ends.bind (ends_ask (fun _ _ => ?_) fun _ _ => trivial)
  refine Ends.bind (ends_ask (fun node hnode => ?_) fun _ _ => trivial)
  refine Ends.bind (ends_ask (fun payload hp => ?_) fun _ _ => trivial)
  obtain ⟨g, hn⟩ := Page.find?_of_payload hp
  obtain ⟨old, rfl⟩ : ∃ old, payload = .comment old := h.payload_of_comment he hk hnode hn
  refine Ends.bind (ends_surgery (Surgery.ends_setPayload (ends_surgery ?_)))
  refine (Surgery.spares_setGlue good fun m hm => ?_).mono (fun _ b hb =>
    .of_arena (.trans (.modify (f := fun n => { n with payload := .comment s }) fun _ _ => trivial) hb))
    fun _ _ h => h
  change (q.arena.setPayload node (.comment s)).find? node = some m at hm
  rw [Arena.setPayload, Arena.find?_modify, if_pos rfl, hn] at hm
  obtain rfl := Option.some.inj hm
  rfl

theorem spares_retarget {new : String} (hn : good new) : Spares site good (retarget id new) := by
  refine (Spares.ask _).bind fun link => (Spares.ask _).bind fun payload => ?_
  cases payload with
  | link _ title =>
    refine Spares.bind (.surgery fun a => Surgery.ends_setPayload (.modify fun _ _ => .inl hn)) fun _ => ?_
    exact .surgery fun _ => Surgery.spares_addGlue good
  | _ => exact fun _ _ => Ends.bind (Ends.throw trivial)

theorem spares_removeAttribute (name : String) : Spares site good (removeAttribute id name) := by
  refine (Spares.ask _).bind fun policy => ?_
  have erase (a : Attribute) : Spares site good (do
      update id fun e => { e with attributes := Attribute.erase e.attributes a.name }
      pure (some a.value)) :=
    Spares.bind (.update fun _ => ⟨rfl, rfl⟩) fun _ => .pure _
  split
  · exact fun _ _ => Ends.bind (Ends.throw trivial)
  · refine (Spares.ask _).bind fun a => ?_
    rcases a with _ | ⟨_, _, _ | node⟩
    · exact .pure _
    · exact erase _
    · exact (Spares.ask _).bind fun list => (Spares.change fun _ _ hb => .changeItems hb).bind
        fun _ => erase _

theorem spares_setAttribute (hv : p.site.Vouches good) (hid : ¬p.IsCategory id)
    (value : String) :
    Ends (setAttribute id name value) p (fun _ q => p.KeepsTextsAndTargets good q) fun _ _ => True := by
  refine Ends.bind (ends_ask (fun policy hp => ?_) fun _ _ => trivial)
  obtain ⟨e, he, hpolicy⟩ := exists_of_policy hp
  refine Ends.bind (ends_ask (fun verified hverified => ?_) fun _ _ => trivial)
  cases verified with
  | none => exact spares_removeAttribute name p rfl
  | some verified =>
    have react (old : Option String) :
        Spares p.site good (react id old (policy.normalization.apply verified) policy.reaction) := by
      cases hr : policy.reaction with
      | none => exact .pure _
      | some r =>
        obtain ⟨-, ⟨rfl, hk⟩ | ⟨rfl, hk⟩⟩ := kind_of_reaction hpolicy hr
        · rw [hk] at hpolicy
          obtain ⟨-, rfl⟩ := policy_of_link hpolicy
          rw [Edit.react]
          split
          · exact .pure _
          · exact spares_retarget (hv.stored (Page.checkLinkTarget_of_verify hverified))
        · exact absurd ⟨e.backing, by rw [Page.form?_of_find? he, hk]⟩ hid
    exact ((spares_commit _ _ _).bind fun old => (react old).bind fun _ => .pure _) p rfl

theorem spares_dropLinks (kept : Option NodeId) : Spares site good (dropLinks id kept) := by
  refine (Spares.ask _).bind fun e => Spares.bind (.update fun _ => ⟨rfl, rfl⟩) fun _ =>
    .forM fun placed => ?_
  split
  · exact .update fun _ => ⟨rfl, rfl⟩
  · exact (Spares.change fun _ _ hb => .changeItems hb).bind fun _ =>
      .modify (fun _ => rfl) (fun _ => rfl) fun _ => rfl

theorem spares_addLink (placed : PlacedLink) : Spares site good (addLink id placed) :=
  Spares.bind (.modify (fun _ => rfl) (fun _ => rfl) fun _ => rfl) fun _ => .update fun _ => ⟨rfl, rfl⟩

theorem spares_attachCategory (placed : PlacedLink) :
    Spares site good (attachCategory id name placed) :=
  (spares_addLink placed).bind fun _ => Spares.bind (.update fun _ => ⟨rfl, rfl⟩) fun _ =>
    Spares.bind (.update fun _ => ⟨rfl, rfl⟩) fun _ =>
    .modify (fun _ => rfl) (fun _ => rfl) fun _ => rfl

theorem spares_registerLink (placed : PlacedLink) : Spares site good (registerLink name placed) := by
  refine Spares.get.bind fun p => ?_
  split
  · exact (spares_addLink placed).bind fun _ => (spares_assign _ _).bind fun _ => .pure _
  · refine Spares.bind ?_ fun _ => spares_attachCategory placed
    exact (Spares.make (by decide)).bind fun _ => (spares_assign _ _).bind fun _ => .pure _

theorem spares_appendCategoryLink (h : p.Synced) :
    Ends (appendCategoryLink name) p (fun l q => p.KeepsTextsAndTargets good q ∧ p.AppendedLink name l q)
      fun _ _ => False := by
  have htexts : Ends (appendCategoryLink name) p
      (fun _ q => p.arena.KeepsTextsAndTargets (fun _ => True) q.arena) fun _ _ => True := by
    refine Ends.bind (Ends.get (ends_surgery (Ends.bind (Surgery.ends_make (Ends.bind
      (Surgery.ends_make ?_))))))
    refine (Surgery.spares_addGlue fun _ => True).step (fun _ b hb => Ends.bind (Surgery.ends_change
      (fun c hc => Ends.pure ?_) fun _ _ => trivial)) fun _ _ h => h
    have hlink : Node.KeepsTextsAndTargets (fun _ => True) none
        ⟨.link (categoryTarget p name) p.arena.next, none⟩ :=
      .inl trivial
    exact (((Arena.KeepsTextsAndTargets.pushList []).trans (.push hlink)).trans hb).trans (.changeItems hc)
  exact ((ends_appendCategoryLink_made h).and htexts).mono
    (fun l q hq => ⟨hq.1.keepsTextsAndTargets h hq.2, hq.1⟩)
    fun _ _ hf => hf.1

theorem spares_renewLink (h : p.Recorded) (hc : p.IsCategory id) :
    Ends (renewLink id) p (fun _ q => p.KeepsTextsAndTargets good q) fun _ _ => True := by
  refine Ends.bind (ends_ask (fun name hname => ?_) fun _ _ => trivial)
  refine Spares.step rfl ((spares_dropLinks none p rfl).and (ends_dropLinks h.toSynced
    hc.find?_ne_none (h.inPlace id))) fun _ r hr hd => ?_
  exact Spares.step hr (spares_appendCategoryLink hd.synced) fun placed s hs _ =>
    spares_addLink placed s hs

theorem keptByRenewal_keepsTextsAndTargets (p : Page) :
    KeptByRenewal (p.KeepsTextsAndTargets good) := fun h hl hp =>
  ((leads_renewLink h hl).and (spares_renewLink h (h.isCategory hl))).mono
    (fun _ _ hq => hp.trans hq.2) fun _ _ hf => hf.1

theorem spares_addCategory (h : p.Synced) (name : String) :
    Ends (addCategory name) p (fun _ q => p.KeepsTextsAndTargets good q) fun _ _ => True := by
  refine Ends.bind (ends_ask (fun _ _ => ?_) fun _ _ => trivial)
  refine Spares.step (P := fun id q => id = p.next ∧ q = p.push (Page.newCategory _)) rfl
    (ends_makeCategory.mono (fun id q hq => ⟨?_, hq⟩) fun _ _ hf => hf) fun id q hs hq => ?_
  · obtain ⟨rfl, rfl⟩ := hq
    exact .push (.refl p.arena) fun _ hk => by cases hk
  · obtain ⟨rfl, rfl⟩ := hq
    refine Spares.step hs (spares_appendCategoryLink (h.pushCategory _)) fun placed r hr _ => ?_
    exact ((spares_attachCategory placed).bind fun _ => .pure _) r hr

theorem spares_removeCategory (name : String) : Spares site good (removeCategory name) :=
  (Spares.ask _).bind fun _ => (spares_dropLinks none).bind fun _ => (Spares.ask _).bind fun _ =>
    Spares.bind (.modify (fun _ => rfl) (fun _ => rfl) fun _ => rfl) fun _ =>
    Spares.bind (.update fun _ => ⟨rfl, rfl⟩) fun _ => Spares.bind (.update fun _ => ⟨rfl, rfl⟩) fun _ =>
    .pure _

/-- Texts last when the links of a category are written anew, but then those links lead elsewhere. -/
theorem spares_renameLinks_texts (old : Option String) (new : String) :
    Spares site (fun _ => True) (renameLinks id old new) := by
  refine (Spares.ask _).bind fun e => ?_
  split
  · exact .pure _
  · refine (Spares.ask _).bind fun named => ?_
    split
    · refine Spares.get.bind fun p => (Spares.ask _).bind fun payload => ?_
      have index : Spares site (fun _ => True) (modify fun p : Page =>
          { p with categories := p.categories.insert (categoryKey new) id }) :=
        .modify (fun _ => rfl) (fun _ => rfl) fun _ => rfl
      cases payload with
      | link _ _ =>
        refine Spares.bind (.surgery fun _ => Surgery.ends_setPayload
          (.modify fun _ _ => .inl trivial)) fun _ =>
          Spares.bind (.surgery fun _ => Surgery.spares_addGlue _) fun _ =>
          (spares_dropLinks _).bind fun _ => ?_
        cases old with
        | some old =>
          exact Spares.bind (.modify (fun _ => rfl) (fun _ => rfl) fun _ => rfl) fun _ => index
        | none => exact index
      | _ => exact fun _ _ => Ends.bind (Ends.throw trivial)
    · exact .pure _

theorem keepsTextsAndTargets_renamed (p : Page) (x : ElementId) (name : String) :
    p.KeepsTextsAndTargets good (renamed p x name) :=
  .update fun _ _ _ hk hb => ⟨hk, hb⟩

theorem spares_renameLinks (h : p.Recorded) (hc : p.IsCategory id) {new : String} :
    Ends (renameLinks id (p.nameOf? id) (Normalization.words.apply new)) (renamed p id new)
      (fun _ q => p.KeepsTextsAndTargets good q) fun _ _ => True := by
  refine ((ends_renameLinks h hc).and (spares_renameLinks_texts _ _ (renamed p id new) rfl)).mono
    (fun _ q hq => ?_) fun _ _ _ => trivial
  obtain ⟨⟨rfl, -⟩ | ⟨old, l, hl⟩, hq⟩ := hq
  · exact keepsTextsAndTargets_renamed p id new
  · obtain ⟨hlast, -, -, r, s, hr, hd, rfl⟩ := hl
    have hform : s.form? = (renamed p id new).form? := by
      rw [hd.form?, hr.eq]
      rfl
    refine (keepsTextsAndTargets_renamed p id new).trans ⟨hq.site, hq.texts, fun {x n t} hx ht => .inl ?_,
      fun hx => .inl (hform ▸ hx)⟩
    replace hx : s.form? x = some (.link, some (.markup n)) := hx
    rw [hform] at hx
    refine ⟨hx, ?_⟩
    have hl : l ∈ (renamed p id new).linksOf id := by
      rw [Page.Recorded.linksOf_renamed]
      exact List.mem_of_getLast? hlast
    have hne : n ≠ l.link := by
      rintro rfl
      exact (h.renamed hc new).unlinked (Page.linked_of_mem hl) x (Page.backing?_of_form? hx)
    rw [← ht]
    exact ((hd.target n).trans ((hr.arena.target n).trans (if_neg hne))).symm

theorem keepsTextsAndTargets_setAttribute (h : p.Recorded) (hv : p.site.Vouches good) (value : String) :
    Ends (setAttribute id name value) p (fun _ q => p.KeepsTextsAndTargets good q) fun _ _ => True := by
  by_cases hc : p.IsCategory id
  · exact ends_setAttribute_name hc (fun _ _ _ => trivial) fun new _ _ => spares_renameLinks h hc
  · exact spares_setAttribute hv hc value

theorem keepsTextsAndTargets_setOrRemove (h : p.Recorded) (hv : p.site.Vouches good) (name : String)
    (value : Option String) :
    Ends (setOrRemove id name value) p (fun _ q => p.KeepsTextsAndTargets good q) fun _ _ => True := by
  cases value with
  | some value => exact Spares.quiet (keepsTextsAndTargets_setAttribute h hv value)
  | none => exact Spares.quiet (spares_removeAttribute name p rfl)

end Edit

namespace Act

open Edit

variable [Entities] {good : String → Prop} {p : Page} {act : Act}

/-- An act that checks what it stores gives links no target that has not been checked. -/
theorem keepsTextsAndTargets_edit (h : p.Recorded) (hv : p.site.Vouches good) (hc : act.isChecked = true) :
    Ends act.edit p (fun _ q => p.KeepsTextsAndTargets good q) fun _ _ => True := by
  have hp := h.toSynced
  have cut {n : NodeId} {q : Page} (hq : p.Cut n q) (hl : p.KeepsTextsAndTargets good q) :
      Ends (keepCategories n) q (fun _ r => p.KeepsTextsAndTargets good r) fun _ _ => True :=
    (keeps_keepCategories_of_cut h (keptByRenewal_keepsTextsAndTargets p) hq hl).mono (fun _ _ hr => hr.2)
      fun _ _ _ => trivial
  have checked {m : Edit Unit} (kinds : List Kind) (id : ElementId)
      (hm : Ends m p (fun _ q => p.KeepsTextsAndTargets good q) fun _ _ => True) :
      Ends (do ask (·.requireKind id kinds); m) p (fun _ q => p.KeepsTextsAndTargets good q) fun _ _ => True :=
    Ends.bind (ends_ask (fun _ _ => hm) fun _ _ => trivial)
  cases act with
  | createParagraph =>
    exact Spares.quiet (spares_createContaining .paragraph .paragraph (fun _ => trivial) p rfl)
  | createBold =>
    exact Spares.quiet (spares_createContaining .bold (.emphasis .bold) (fun _ => trivial) p rfl)
  | createItalics =>
    exact Spares.quiet (spares_createContaining .italics (.emphasis .italics) (fun _ => trivial) p rfl)
  | createRule => exact Spares.quiet (spares_createMarkup .rule .rule trivial p rfl)
  | createDiv => exact Spares.quiet (spares_createDiv p rfl)
  | createLink target => exact Spares.quiet (spares_createLink hv target p rfl)
  | createText s => exact Spares.quiet (spares_createText s p rfl)
  | createComment s => exact Spares.quiet (spares_createComment s p rfl)
  | insertChild parent child position =>
    refine (ends_insertChild_exchange hp).mono (fun _ q' hq' => ?_) fun _ _ _ => trivial
    obtain ⟨c, n, s, t, q, -, hq, -, hq'⟩ := hq'
    exact (hq.keepsTextsAndTargets hp).trans hq'.keepsTextsAndTargets
  | removeChild parent child =>
    exact ends_removeChild_exchange hp (fun c n s t q q' hn hq hq' =>
      cut (hq.cut_refreshed hp hn (hq'.refreshed (hq.synced hp)))
        ((hq.keepsTextsAndTargets hp).trans hq'.keepsTextsAndTargets))
      fun _ _ _ => trivial
  | replaceChild parent new old =>
    exact ends_replaceChild_exchange hp (fun c n n' s t q q' hn _ hq hq' =>
      cut (hq.cut_refreshed hp hn (hq'.refreshed (hq.synced hp)))
        ((hq.keepsTextsAndTargets hp).trans hq'.keepsTextsAndTargets))
      fun _ _ _ => trivial
  | setText id s => exact spares_setText s p rfl
  | setComment id s => exact spares_setComment hp s
  | setAttribute id name value => exact Spares.quiet (keepsTextsAndTargets_setAttribute h hv value)
  | removeAttribute id name => exact Spares.quiet (spares_removeAttribute name p rfl)
  | assign id name value => cases hc
  | promote id => exact spares_promote p rfl
  | addCategory name => exact Spares.quiet (spares_addCategory hp name)
  | renameCategory old new =>
    refine ends_needCategory.step (fun id q hq => ?_) fun _ _ _ => trivial
    obtain ⟨-, rfl⟩ := hq
    exact Spares.quiet (keepsTextsAndTargets_setAttribute h hv new)
  | removeCategory name => exact Spares.quiet (spares_removeCategory name p rfl)
  | setTitle title => exact keepsTextsAndTargets_setOrRemove h hv "title" (some title)
  | setNamespace name => exact keepsTextsAndTargets_setOrRemove h hv _ _
  | setPath path => exact keepsTextsAndTargets_setOrRemove h hv _ _
  | setAlignment id alignment => exact keepsTextsAndTargets_setOrRemove h hv _ _
  | setNoShade id on => exact checked _ id (keepsTextsAndTargets_setOrRemove h hv _ _)
  | setThickness id pixels => exact checked _ id (keepsTextsAndTargets_setOrRemove h hv _ _)
  | setWidth id width => exact checked _ id (keepsTextsAndTargets_setOrRemove h hv _ _)
  | setLinkTarget id target => exact checked _ id (keepsTextsAndTargets_setOrRemove h hv _ _)
  | setCategoryName id name => exact checked _ id (keepsTextsAndTargets_setOrRemove h hv _ _)
  | setUniversal id name value => exact keepsTextsAndTargets_setOrRemove h hv _ _

theorem keepsTextsAndTargets_after (h : p.Recorded) (hv : p.site.Vouches good) (hc : act.isChecked = true) :
    p.KeepsTextsAndTargets good (act.after p) :=
  after_of_ok (P := p.KeepsTextsAndTargets good) h hc (.refl p) (keepsTextsAndTargets_edit h hv hc)

end Act

namespace Page

variable [Entities] {site : Site} {good : String → Prop} {p : Page}

/-- A page that is new or has just been read. -/
inductive Begins (site : Site) : Page → Prop
  | new {title : String} {p : Page} (h : Page.new site title = .ok p) : Begins site p
  | read {text title : String} {preserve : Bool} {p : Page}
    (h : Page.read text site title preserve = .ok p) : Begins site p

theorem Begins.arena (h : p.Begins site) : p.arena = .new ∨ ∃ text, p.arena = .read text := by
  cases h with
  | new h =>
    obtain ⟨_, -, h⟩ := Except.exists_of_bind h
    obtain rfl := Except.ok.inj h
    exact .inl rfl
  | read h => exact .inr ⟨_, arena_of_ofArena (Arena.sound_read _) (Arena.loose_root_read _) h⟩

theorem Begins.exists_drafted (h : p.Begins site) : ∃ a title drafts, Drafted a site drafts ∧
    ∀ good, (ofDrafts a site title drafts).KeepsTextsAndTargets good p := by
  cases h with
  | new h =>
    obtain ⟨title, -, h⟩ := Except.exists_of_bind h
    obtain rfl := Except.ok.inj h
    exact ⟨_, _, _, drafted_new site, fun _ => .refl _⟩
  | @read text title preserve p h =>
    obtain ⟨title, -, h⟩ := Except.exists_of_bind h
    obtain ⟨found, hf, h⟩ := Except.exists_of_bind h
    obtain ⟨_, hok⟩ := Edit.exists_of_exec h
    have hd := drafted_of_findings (Arena.sound_read text) (Arena.loose_root_read text) hf
    have hs (good : String → Prop) : Edit.Spares site good (registerAll found.links) :=
      Edit.Spares.forM fun _ => Edit.spares_registerLink _
    exact ⟨_, _, _, hd, fun good => (hs good _ rfl).of_ok hok⟩

/-- What should last has lasted since the page began. -/
theorem Reached.exists_begins (h : p.Reached site) :
    ∃ p₀ : Page, p₀.Begins site ∧ ∀ good, site.Vouches good → p₀.KeepsTextsAndTargets good p := by
  induction h with
  | new h => exact ⟨_, .new h, fun _ _ => .refl _⟩
  | read h => exact ⟨_, .read h, fun _ _ => .refl _⟩
  | act h act hc ih =>
    obtain ⟨p₀, hb, hl⟩ := ih
    have hp := h.orderly
    exact ⟨p₀, hb, fun good hv => (hl good hv).trans
      (Act.keepsTextsAndTargets_after hp.recorded (hp.site_eq.symm ▸ hv) hc)⟩

theorem Begins.textsBare (h : p.Begins site) : p.arena.TextsBare := by
  rcases h.arena with ha | ⟨text, ha⟩
  · exact ha ▸ Arena.textsBare_new
  · rw [ha]
    intro x s g hx
    cases Arena.shaped_read hx
    rfl

theorem Reached.textsBare (h : p.Reached site) : p.arena.TextsBare := by
  obtain ⟨p₀, hb, hl⟩ := h.exists_begins
  exact Arena.TextsBare.keepsTextsAndTargets hb.textsBare (hl _ site.vouches_true).texts

end Page
end WikiPage
