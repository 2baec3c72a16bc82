import WikiPage.EntityTable
import WikiPage.Proofs.Glued
import WikiPage.Proofs.Lasting
import WikiPage.Proofs.Renewal

/-!
# Pipes and titles

A link with a title is written with a pipe before it, and one without a title is written without a pipe.
An edit that changes the children of a link writes its glue anew, so a link that has lost its title is left
without a pipe. But the links of categories are no elements: when one of them is taken out of the title of a
link, the glue of that link is left as it was. It is shown here that nothing else leaves a link with a pipe
and nothing behind it.
-/

namespace WikiPage

theorem Glue.opensWith_piped (target last : String) :
    opensWith ⟨["[[" ++ target ++ "|", last]⟩ '|' = true := by
  simp [opensWith, slot?, String.toList_append, List.getLast?_cons]

namespace Arena

variable {a b c : Arena} {id x l : NodeId} {n : Node}

/-- A link that is written with a pipe has nothing behind it. -/
def Gapes (a : Arena) (id : NodeId) : Prop :=
  ∃ target title last, a.find? id = some ⟨.link target title, some ⟨["[[" ++ target ++ "|", last]⟩⟩ ∧
    a.kids title = []

/-- No link comes to gape. -/
structure KeepsTitles (a b : Arena) : Prop where
  gapes : ∀ {id}, b.Gapes id → a.Gapes id

instance : Std.Refl KeepsTitles := ⟨fun _ => ⟨fun h => h⟩⟩

instance : Trans KeepsTitles KeepsTitles KeepsTitles := ⟨fun h h' => ⟨fun hx => h.gapes (h'.gapes hx)⟩⟩

theorem not_pipes_glueLink {target last : String} :
    Glue.link target false ≠ ⟨["[[" ++ target ++ "|", last]⟩ := by
  intro h
  have hs := congrArg String.length (List.head_eq_of_cons_eq (Glue.mk.inj h))
  simp at hs

theorem Sound.title_ne (h : a.Sound) (hn : a.find? x = some n) (role : Role)
    (hl : (l, role) ∈ n.payload.slots) (hx : a.target? x = none) {target : String} {title : NodeId}
    {g : Option Glue} (hf : a.find? id = some ⟨.link target title, g⟩) : title ≠ l := by
  rintro rfl
  obtain ⟨rfl, -⟩ := h.role_unique hf hn (List.mem_singleton_self _) hl
  cases (target?_of_find? hf rfl).symm.trans hx

namespace KeepsTitles

theorem of_rule (id : NodeId) (hk : b.kids = a.kids) (hne : ∀ x, x ≠ id → b.find? x = a.find? x)
    (hid : ∀ target title g, b.find? id = some ⟨.link target title, g⟩ →
      g = some (Glue.link target !(a.kids title).isEmpty)) : a.KeepsTitles b := by
  refine ⟨?_⟩
  rintro x ⟨target, title, last, hx, ht⟩
  rw [hk] at ht
  by_cases hxid : x = id
  · subst hxid
    have hg := hid _ _ _ hx
    rw [ht] at hg
    exact absurd (Option.some.inj hg).symm not_pipes_glueLink
  · exact ⟨target, title, last, (hne x hxid).symm.trans hx, ht⟩

theorem push (a : Arena) (p : Payload) : a.KeepsTitles (a.push ⟨p, none⟩) := by
  refine ⟨?_⟩
  rintro x ⟨target, title, last, hx, ht⟩
  rw [find?_push] at hx
  rw [kids_push] at ht
  split at hx
  · cases hx
  · refine ⟨target, title, last, hx, ?_⟩
    split at ht
    · exact kids_eq_nil (Nat.le_of_eq (by subst title; rfl))
    · exact ht

theorem setItems (hl : a.find? l ≠ none) {items : List NodeId}
    (h : items ≠ [] ∨ ∀ {x target title g}, a.find? x = some ⟨.link target title, g⟩ → title ≠ l) :
    a.KeepsTitles (a.setItems l items) := by
  refine ⟨?_⟩
  rintro x ⟨target, title, last, hx, ht⟩
  have hlt : l.index < a.size := by
    by_contra hle
    exact hl (find?_eq_none_iff.2 (Nat.le_of_not_lt hle))
  rw [Arena.setItems, setPayload, find?_modify] at hx
  rw [kids_setItems hlt] at ht
  split at hx
  · obtain ⟨_, -, hx⟩ := Option.map_eq_some_iff.1 hx
    cases hx
  · refine ⟨target, title, last, hx, ?_⟩
    split at ht
    · exact absurd ‹title = l› (h.elim (absurd ht) fun h => h hx)
    · exact ht

theorem setGlue {g : Glue} (h : a.setGlue id (some g) = .ok b)
    (hg : ∀ target title g', a.find? id = some ⟨.link target title, g'⟩ →
      g = Glue.link target !(a.kids title).isEmpty) : a.KeepsTitles b := by
  have hk := (Alike.setGlue h).kids_eq
  obtain ⟨m, hm, -, rfl⟩ := exists_of_setGlue h
  refine .of_rule id hk (fun x hx => by rw [find?_modify, if_neg hx]) fun target title g' hb => ?_
  rw [find?_modify, if_pos rfl, hm] at hb
  obtain ⟨p, g''⟩ := m
  cases hb
  rw [hg _ _ _ hm]

theorem setPayload {p : Payload} (hn : a.find? id = some n) (hp : p.bare = n.payload.bare)
    (ht : a.target? id = none) : a.KeepsTitles (a.setPayload id p) := by
  refine .of_rule id (Alike.setPayload hn hp).kids_eq
    (fun x hx => by rw [Arena.setPayload, find?_modify, if_neg hx]) fun target title g hb => ?_
  rw [Arena.setPayload, find?_modify, if_pos rfl, hn] at hb
  obtain ⟨q, g'⟩ := n
  cases hb
  cases q with
  | link old title' => cases (target?_of_find? hn rfl).symm.trans ht
  | _ => cases hp

theorem retargets {target : String} (h : Edit.Retargets a id target b) : a.KeepsTitles b := by
  refine .of_rule id h.alike.kids_eq (fun x hx => h.find?_of_ne hx) fun target' title g hb => ?_
  obtain ⟨_, title', _, -, hb'⟩ := h.find?_link
  cases hb.symm.trans hb'
  rfl

end KeepsTitles
end Arena

namespace Surgery

open Arena (KeepsTitles)

variable {a : Arena} {id list : NodeId} {n : Node}

/-- A step of surgery after which no link has come to gape, if it ends well. -/
abbrev Fills {α : Type} (m : Surgery α) (a : Arena) : Prop :=
  Ends m a (fun _ b => a.KeepsTitles b) fun _ _ => True

theorem respects_make (p : Payload) : Respects KeepsTitles (make p) :=
  fun a => ends_make (.push a p)

theorem respects_change {f : Arena → Except PageError Arena}
    (hf : ∀ {a b}, f a = .ok b → ∃ l items, a.find? l ≠ none ∧ items ≠ [] ∧ b = a.setItems l items) :
    Respects KeepsTitles (change f) :=
  fun _ => ends_change (fun _ hb => by
    obtain ⟨l, items, hl, hi, rfl⟩ := hf hb
    exact .setItems hl (.inl hi)) fun _ _ => trivial

theorem respects_appendItem (l n : NodeId) : Respects KeepsTitles (change (·.appendItem l n)) :=
  respects_change fun hb => by
    obtain ⟨s, hs⟩ := Arena.exists_of_appendItem hb
    obtain ⟨g, hl⟩ := hs.find?
    exact ⟨l, s ++ [n], by simp [hl], by simp, hs.eq⟩

theorem respects_replaceItem (l old n : NodeId) : Respects KeepsTitles (change (·.replaceItem l old n)) :=
  respects_change fun hb => by
    obtain ⟨s, t, g, hl, -, rfl⟩ := Arena.exists_of_replaceItem hb
    exact ⟨l, s ++ n :: t, by simp [hl], by simp, rfl⟩

theorem fills_setGlue {g : Glue} (hg : ∀ target title g', a.find? id = some ⟨.link target title, g'⟩ →
    g = Glue.link target !(a.kids title).isEmpty) : Fills (setGlue id g) a :=
  ends_change (fun _ hb => .setGlue (PageError.eq_ok_of_ofArena hb) hg) fun _ _ => trivial

/-- A link has two slots, so other glue fits none. -/
theorem respects_setGlue_of_size (id : NodeId) {g : Glue} (hg : g.size ≠ 2) :
    Respects KeepsTitles (setGlue id g) := by
  refine fun a => ends_change (fun b hb => ?_) fun _ _ => trivial
  have hb := PageError.eq_ok_of_ofArena hb
  refine .setGlue hb fun target title g' hid => ?_
  obtain ⟨m, hm, hfits, -⟩ := Arena.exists_of_setGlue hb
  obtain rfl := Option.some.inj (hid.symm.trans hm)
  exact absurd (hfits _ rfl).2 hg

theorem size_glueElement (name : String) (empty : Bool) : (Glue.element name empty).size ≠ 2 := by
  cases empty <;> simp [Glue.element]

theorem respects_renewGlue (n : Nat) : ∀ id, Respects KeepsTitles (renewGlue n id) := by
  induction n with
  | zero => exact fun _ => .throw _
  | succ n ih =>
    refine fun id a => Ends.bind (ends_look (fun p hp => ?_) fun _ _ => trivial)
    obtain ⟨g, hid⟩ := Arena.find?_of_payload hp
    have glued {g : Glue} (hl : ∀ target title, p = .link target title →
        g = Glue.link target !(a.kids title).isEmpty) : Fills (setGlue id g) a :=
      fills_setGlue fun target title g' hf => hl target title (by cases hid.symm.trans hf; rfl)
    cases p with
    | element name empty attributes body =>
      refine Ends.bind (ends_look (fun items _ => ?_) fun _ _ => trivial)
      exact ((Respects.forM ih).bind fun _ =>
        respects_setGlue_of_size id (size_glueElement name empty)) a
    | link target title =>
      refine Ends.bind (ends_look (fun items hi => ?_) fun _ _ => trivial)
      obtain ⟨_, hi⟩ := Arena.find?_of_items hi
      refine glued fun _ _ h => ?_
      cases h
      rw [Arena.kids_of_find? hi, Payload.children]
    | attr name hasValue value => exact glued fun _ _ h => by cases h
    | emphasis style content => exact glued fun _ _ h => by cases h
    | comment text => exact glued fun _ _ h => by cases h
    | rule => exact glued fun _ _ h => by cases h
    | paragraph content => exact glued fun _ _ h => by cases h
    | _ => exact Respects.pure _ a

theorem respects_addGlue (id : NodeId) : Respects KeepsTitles (addGlue id) :=
  Respects.get.bind fun _ => respects_renewGlue _ id

theorem respects_makeGlued (p : Payload) :
    Respects KeepsTitles (do let node ← make p; addGlue node; pure node) :=
  (respects_make p).bind fun node => (respects_addGlue node).bind fun _ => .pure node

theorem respects_makeElement (name : String) (items : List NodeId) (empty : Bool) :
    Respects KeepsTitles (do
      let attributes ← make (.list [])
      let body ← make (.list items)
      let element ← make (.element name empty attributes body)
      setGlue element (Glue.element name empty)
      pure element) :=
  (respects_make _).bind fun _ => (respects_make _).bind fun _ => (respects_make _).bind fun element =>
    (respects_setGlue_of_size element (size_glueElement name empty)).bind fun _ => .pure element

theorem fills_toElement (h : a.Sound) (kind : Kind) (native : NodeId) :
    Fills (toElement kind native) a := by
  unfold toElement
  split
  · exact Ends.throw trivial
  · rename_i tag _
    refine Ends.bind (ends_look (fun p hp => ?_) fun _ _ => trivial)
    obtain ⟨g, hn⟩ := Arena.find?_of_payload hp
    refine Ends.bind (ends_ask (fun content hc => ?_) fun _ _ => trivial)
    cases content with
    | none => exact Ends.bind (Ends.pure (respects_makeElement tag [] true a))
    | some c =>
      refine Ends.bind (ends_look (fun items hi => ?_) fun _ _ => trivial)
      obtain ⟨_, hi⟩ := Arena.find?_of_items hi
      obtain ⟨hslot, ht⟩ : (c, Role.content) ∈ p.slots ∧ a.target? native = none := by
        cases p <;> cases hc <;> simp [Arena.target?, hn, Payload.slots]
      refine Ends.bind (ends_setItems (Ends.bind (Ends.pure ?_)))
      refine (respects_makeElement tag items false _).mono (fun _ _ hb => ?_) fun _ _ h => h
      have hempty : a.KeepsTitles (a.setItems c []) :=
        .setItems (by simp [hi]) (.inr (h.title_ne hn _ hslot ht))
      exact Trans.trans hempty hb

theorem respects_encodeValue (value : String) : Respects KeepsTitles (encodeValue value) := by
  unfold encodeValue
  induction Span.encode value.toList with
  | nil => exact .pure []
  | cons span spans ih =>
    rw [List.mapM_cons]
    exact (respects_make _).bind fun _ => ih.bind fun _ => .pure _

theorem fills_rewriteAttribute (h : a.Sound) (node : NodeId) (name : String) (items : List NodeId) :
    Fills (rewriteAttribute node name items) a := by
  refine Ends.bind (ends_look (fun p hp => ?_) fun _ _ => trivial)
  obtain ⟨g, hn⟩ := Arena.find?_of_payload hp
  cases p with
  | attr written hasValue value =>
    refine Ends.bind (ends_look (fun glue _ => ?_) fun _ _ => trivial)
    refine Ends.bind (ends_look (fun old hold => ?_) fun _ _ => trivial)
    obtain ⟨_, hv⟩ := Arena.find?_of_items hold
    have ht : a.target? node = none := by simp [Arena.target?, hn]
    have hne : node ≠ value := by
      rintro rfl
      cases hv.symm.trans hn
    have hitems : a.KeepsTitles (a.setItems value items) := .setItems (by simp [hv])
      (.inr (h.title_ne hn .value (List.mem_singleton_self _) ht))
    have hn' : (a.setItems value items).find? node = some ⟨.attr written hasValue value, g⟩ := by
      rw [Arena.find?_setItems hv, if_neg hne, hn]
    have hset := Trans.trans hitems (KeepsTitles.setPayload (p := .attr written true value) hn' rfl
      (by rw [Arena.target?_setItems hv, ht]))
    refine Ends.bind (ends_setItems (Ends.bind (ends_setPayload ?_)))
    split
    · refine (fills_setGlue fun target title g' hf => ?_).mono (fun _ _ hc => Trans.trans hset hc)
        fun _ _ h => h
      rw [Arena.setPayload, Arena.find?_modify, if_pos rfl, hn'] at hf
      cases hf
    · exact Ends.pure hset
  | _ => exact Ends.throw trivial

theorem respects_addAttribute (list : NodeId) (name : String) (items : List NodeId) :
    Respects KeepsTitles (addAttribute list name items) := by
  refine (respects_make _).bind fun value a => Ends.bind (ends_make ?_)
  have hset : Fills (setGlue a.next (Glue.attr name true)) (a.push ⟨.attr name true value, none⟩) := by
    refine fills_setGlue fun target title g hf => ?_
    cases (Arena.find?_push_next a _).symm.trans hf
  exact (Respects.after hset fun _ => (respects_appendItem list a.next).bind fun _ => .pure a.next).mono
    (fun _ _ hb => Trans.trans (KeepsTitles.push a _) hb) fun _ _ h => h

theorem respects_writeAttribute_none (list : NodeId) (name value : String) :
    Respects KeepsTitles (writeAttribute list name value none) :=
  (respects_encodeValue value).bind fun items => respects_addAttribute list name items

theorem fills_writeAttribute (h : a.Sound) (list : NodeId) (name value : String)
    (node : Option NodeId) : Fills (writeAttribute list name value node) a := by
  cases node with
  | none => exact respects_writeAttribute_none list name value a
  | some node =>
    refine Respects.step ((respects_encodeValue value a).and (ends_encodeValue value a))
      fun items b hb => ?_
    exact Respects.after (fills_rewriteAttribute (hb.1.sound h) node name items) fun _ => .pure node

end Surgery

namespace Page

variable {p q : Page}

/-- No link on a page comes to gape. -/
def KeepsTitles (p q : Page) : Prop :=
  p.arena.KeepsTitles q.arena

instance : Std.Refl KeepsTitles := ⟨fun p => Std.Refl.refl p.arena⟩

instance : Trans KeepsTitles KeepsTitles KeepsTitles :=
  ⟨fun h h' => Trans.trans (r := Arena.KeepsTitles) h h'⟩

end Page

namespace Edit

open Page (KeepsTitles)

variable {α : Type} {p q : Page} {id : ElementId} {name : String}

/-- An edit after which no link has come to gape, if it ends well. -/
abbrev Fills (m : Edit α) (p : Page) : Prop :=
  Ends m p (fun _ q => p.KeepsTitles q) fun _ _ => True

theorem respects_ask (f : Page → Except PageError α) : Respects KeepsTitles (ask f) :=
  fun p => ends_ask (fun _ _ => Std.Refl.refl p) fun _ _ => trivial

theorem respects_update (id : ElementId) (f : Element → Element) : Respects KeepsTitles (update id f) :=
  fun p => ends_update (fun _ _ => Std.Refl.refl (r := Arena.KeepsTitles) p.arena) fun _ => trivial

theorem respects_make (e : Element) : Respects KeepsTitles (make e) :=
  fun p => ends_make (Std.Refl.refl (r := Arena.KeepsTitles) p.arena)

theorem respects_modify {f : Page → Page} (hf : ∀ p, (f p).arena = p.arena) :
    Respects KeepsTitles (modify f : Edit Unit) :=
  .modify fun p => by
    rw [KeepsTitles, hf]
    exact Std.Refl.refl p.arena

theorem fills_surgery {s : Surgery α} (hs : Surgery.Fills s p.arena) : Fills (surgery s) p :=
  ends_surgery hs

theorem respects_surgery {s : Surgery α} (hs : Respects Arena.KeepsTitles s) :
    Respects KeepsTitles (surgery s) := fun p => fills_surgery (hs p.arena)

theorem respects_writeUnwritten (id : ElementId) : Respects KeepsTitles (writeUnwritten id) := by
  refine (respects_ask _).bind fun e => .forM fun a => ?_
  have hwrite : Respects KeepsTitles (writeAttribute id a.name a.value none) :=
    (respects_ask _).bind fun list =>
      respects_surgery (Surgery.respects_writeAttribute_none list a.name a.value)
  exact hwrite.bind fun _ => respects_update _ _

theorem respects_settle (id : ElementId) (content : Option NodeId) (tag : NodeId) :
    Respects KeepsTitles (settle id content tag) := by
  refine (respects_update _ _).bind fun _ => ?_
  cases content with
  | some content =>
    refine (respects_ask _).bind fun _ => Respects.bind ?_ fun _ => respects_writeUnwritten id
    exact respects_modify fun _ => rfl
  | none => exact respects_writeUnwritten id

theorem fills_promote (h : p.arena.Sound) : Fills (promote id) p := by
  refine Ends.bind (ends_ask (fun e _ => ?_) fun _ _ => trivial)
  split
  · refine Ends.bind (ends_ask (fun container _ => Ends.bind (Ends.get ?_)) fun _ _ => trivial)
    refine Respects.after (fills_surgery (Surgery.fills_toElement h _ _)) fun tag => ?_
    cases container with
    | some container =>
      exact (respects_surgery (Surgery.respects_replaceItem _ _ _)).bind fun _ => respects_settle _ _ _
    | none => exact respects_settle _ _ _
  · exact Respects.pure _ p
  · exact Ends.throw trivial

theorem fills_writeValue (h : p.Synced) (key value : String) : Fills (writeValue id key value) p := by
  refine Ends.bind (ends_ask (fun _ _ => ?_) fun _ _ => trivial)
  refine Respects.step ((fills_promote h.sound).and (ends_promote h)) fun _ q hq => ?_
  refine Ends.bind (ends_ask (fun stored _ => ?_) fun _ _ => trivial)
  refine Ends.bind (ends_ask (fun list _ => ?_) fun _ _ => trivial)
  exact fills_surgery (Surgery.fills_writeAttribute hq.calm.synced.sound list key value _)

theorem fills_commit (h : p.Synced) (policy : Policy) (key value : String) :
    Fills (commit id policy key value) p := by
  refine Ends.bind (ends_ask (fun stored _ => ?_) fun _ _ => trivial)
  have store (node : Option NodeId) : Respects KeepsTitles (do
      update id fun e => { e with attributes := Attribute.put e.attributes ⟨key, value, node⟩ }
      pure (stored.map Attribute.value)) := (respects_update _ _).bind fun _ => .pure _
  split
  · exact Respects.after (Ends.map (fills_writeValue h key value)) store
  · exact store _ p

theorem fills_assign (h : p.Synced) (name value : String) : Fills (assign id name value) p :=
  Ends.bind (ends_ask (fun _ _ => fills_commit h _ _ _) fun _ _ => trivial)

theorem respects_createMarkup (kind : Kind) (payload : Payload) :
    Respects KeepsTitles (createMarkup kind payload) :=
  (respects_surgery (Surgery.respects_makeGlued payload)).bind fun _ => respects_make _

theorem respects_createContaining (kind : Kind) (payload : NodeId → Payload) :
    Respects KeepsTitles (createContaining kind payload) :=
  (respects_surgery (Surgery.respects_make _)).bind fun content =>
    respects_createMarkup kind (payload content)

theorem respects_createDiv : Respects KeepsTitles createDiv :=
  (respects_surgery ((Surgery.respects_make _).bind fun _ => (Surgery.respects_make _).bind fun _ =>
    Surgery.respects_makeGlued _)).bind fun _ => respects_make _

theorem respects_createText (s : String) : Respects KeepsTitles (createText s) :=
  (respects_surgery (Surgery.respects_make _)).bind fun _ => respects_make _

theorem respects_createComment (s : String) : Respects KeepsTitles (createComment s) :=
  (respects_ask _).bind fun _ => respects_createMarkup .comment (.comment s)

theorem fills_createLink (h : p.Synced) (target : String) : Fills (createLink target) p := by
  refine Ends.bind (ends_ask (fun target _ => ?_) fun _ _ => trivial)
  refine Respects.step ((respects_createContaining .link (.link target) p).and
    (ends_createContaining_link h target)) fun id q hq => ?_
  exact Respects.after (fills_assign hq.steady.synced _ _) fun _ => .pure id

theorem respects_requireKind (id : ElementId) (kind : Kind) (refusal : Kind → Unsupported) :
    Respects KeepsTitles (requireKind id kind refusal) := by
  refine (respects_ask _).bind fun found => ?_
  split
  · exact .pure _
  · exact .throw _

theorem respects_replaceText (id : ElementId) (node : NodeId) (s : String) :
    Respects KeepsTitles (replaceText id node s) := by
  refine (respects_ask _).bind fun container =>
    (respects_surgery (Surgery.respects_make _)).bind fun new => ?_
  cases container with
  | some container =>
    exact (respects_surgery (Surgery.respects_replaceItem _ _ _)).bind fun _ => respects_update _ _
  | none => exact respects_update _ _

theorem respects_setText (id : ElementId) (s : String) : Respects KeepsTitles (setText id s) := by
  refine (respects_requireKind _ _ _).bind fun _ => (respects_ask _).bind fun node p =>
    Ends.bind (ends_ask (fun payload hp => ?_) fun _ _ => trivial)
  obtain ⟨g, hn⟩ := Page.find?_of_payload hp
  cases payload with
  | text old =>
    exact fills_surgery (Surgery.ends_setPayload (.setPayload hn rfl (by simp [Arena.target?, hn])))
  | _ => exact respects_replaceText id node s p

theorem respects_setComment (id : ElementId) (s : String) : Respects KeepsTitles (setComment id s) := by
  refine (respects_requireKind _ _ _).bind fun _ => (respects_ask _).bind fun _ =>
    (respects_ask _).bind fun node p => Ends.bind (ends_ask (fun payload hp => ?_) fun _ _ => trivial)
  obtain ⟨g, hn⟩ := Page.find?_of_payload hp
  have hset : Respects KeepsTitles (surgery (Surgery.setGlue node (Glue.comment s))) :=
    respects_surgery (Surgery.respects_setGlue_of_size node (by simp [Glue.comment]))
  cases payload with
  | comment old =>
    refine Respects.after (fills_surgery (Surgery.ends_setPayload (.setPayload hn rfl ?_))) fun _ => hset
    simp [Arena.target?, hn]
  | _ => exact hset p

theorem fills_removeAttribute (h : p.Synced) : Fills (removeAttribute id name) p := by
  refine Ends.bind (ends_ask (fun policy _ => ?_) fun _ _ => trivial)
  have erase (a : Attribute) : Respects KeepsTitles (do
      update id fun e => { e with attributes := Attribute.erase e.attributes a.name }
      pure (some a.value)) := (respects_update _ _).bind fun _ => .pure _
  split
  · exact Ends.bind (Ends.throw trivial)
  · refine Ends.bind (ends_ask (fun a _ => ?_) fun _ _ => trivial)
    rcases a with _ | ⟨key, value, _ | node⟩
    · exact Ends.pure (Std.Refl.refl p)
    · exact erase ⟨key, value, none⟩ p
    · refine Ends.bind (ends_ask (fun list hlist => ?_) fun _ _ => trivial)
      obtain ⟨tag, -, hlist⟩ := Except.exists_of_bind hlist
      obtain ⟨payload, hp, hlist⟩ := Except.exists_of_bind hlist
      obtain ⟨g, htag⟩ := Page.find?_of_payload hp
      refine Respects.after (fills_surgery (Surgery.ends_change (fun b hb => ?_) fun _ _ => trivial))
        fun _ => erase ⟨key, value, some node⟩
      obtain ⟨s, t, g', hl, rfl⟩ := Arena.exists_of_removeItem hb
      cases payload with
      | element tagName empty attributes body =>
        obtain rfl := Except.ok.inj hlist
        exact .setItems (by simp [hl]) (.inr (h.sound.title_ne htag .attributes
          (by simp [Payload.slots]) (by simp [Arena.target?, htag])))
      | _ => cases hlist

theorem fills_setAttribute (h : p.Synced) (hid : ¬p.IsCategory id) (value : String) :
    Fills (setAttribute id name value) p := by
  refine Ends.bind (ends_ask (fun policy hp => ?_) fun _ _ => trivial)
  obtain ⟨e, he, hpolicy⟩ := exists_of_policy hp
  refine Ends.bind (ends_ask (fun verified _ => ?_) fun _ _ => trivial)
  cases verified with
  | none => exact fills_removeAttribute h
  | some verified =>
    cases hr : policy.reaction with
    | none => exact Respects.after (fills_commit h _ _ _) fun old => Respects.bind (.pure _) fun _ => .pure old
    | some r =>
      obtain ⟨hunsynced, ⟨rfl, hk⟩ | ⟨rfl, hk⟩⟩ := kind_of_reaction hpolicy hr
      · obtain ⟨hname, rfl⟩ := policy_of_link (hk ▸ hpolicy)
        refine (ends_commit_of_unsynced hunsynced).step (fun old q hq => ?_) fun _ _ _ => trivial
        obtain ⟨e', he', -, rfl⟩ := hq
        obtain rfl := Option.some.inj (he.symm.trans he')
        refine Ends.step ?_ (fun _ q hq => Ends.pure (hq : p.KeepsTitles q)) fun _ _ h => h
        rw [react, hname]
        split
        · exact Ends.pure (Std.Refl.refl (r := Arena.KeepsTitles) p.arena)
        · refine (ends_retarget (synced_store h toLower_target) (o := e.backing) ?_).mono
            (fun _ q hq => ?_) fun _ _ _ => trivial
          · rw [Page.form?_update (f := store _ _) fun _ => ⟨rfl, rfl⟩, Page.form?_of_find? he, hk]
          · obtain ⟨link, -, hq, -⟩ := hq
            exact Arena.KeepsTitles.retargets hq.arena
      · exact absurd ⟨e.backing, by rw [Page.form?_of_find? he, hk]⟩ hid

theorem respects_appendCategoryLink (name : String) : Respects KeepsTitles (appendCategoryLink name) :=
  Respects.get.bind fun _ => respects_surgery ((Surgery.respects_make _).bind fun _ =>
    (Surgery.respects_make _).bind fun link => (Surgery.respects_addGlue link).bind fun _ =>
    (Surgery.respects_appendItem _ link).bind fun _ => .pure _)

theorem respects_attachCategory (id : ElementId) (name : String) (placed : PlacedLink) :
    Respects KeepsTitles (attachCategory id name placed) := by
  have hadd : Respects KeepsTitles (addLink id placed) :=
    Respects.bind (respects_modify fun _ => rfl) fun _ => respects_update _ _
  exact hadd.bind fun _ => (respects_update _ _).bind fun _ => (respects_update _ _).bind fun _ =>
    respects_modify fun _ => rfl

theorem fills_addCategory (name : String) : Fills (addCategory name) p := by
  refine Ends.bind (ends_ask (fun _ _ => ?_) fun _ _ => trivial)
  refine Respects.after (ends_makeCategory.mono (fun id q hq => ?_) fun _ _ hf => hf.elim) fun id =>
    (respects_appendCategoryLink _).bind fun placed =>
      (respects_attachCategory id _ placed).bind fun _ => .pure id
  obtain ⟨-, rfl⟩ := hq
  exact Std.Refl.refl (r := Arena.KeepsTitles) p.arena

variable {x y : ElementId} {c n : NodeId} {s r b t : List NodeId} {q' : Page}

/-- A link is left without a pipe when its own glue is refreshed, if it has lost its title. -/
theorem Refresh.gapes (hq : Refresh p x q) (h : p.Synced) (hn : q.arena.Gapes n) :
    p.arena.Gapes n ∧ p.backing? x ≠ some n := by
  obtain ⟨target, title, last, hf, ht⟩ := hn
  cases hq with
  | keep hnone =>
    refine ⟨⟨target, title, last, hf, ht⟩, fun hx => ?_⟩
    obtain ⟨items, hi⟩ := h.sound.find?_slot hf (List.mem_singleton_self _)
    obtain rfl : items = [] := (Arena.kids_of_find? hi).symm.trans ht
    have hnone := hnone n hx
    simp [Page.neededGlue?, Page.payload_of_find? hf, Arena.items_of_find? hi, Arena.glue_of_find? hf,
      PageError.ofArena, Glue.opensWith_piped, bind, Except.bind] at hnone
  | @renew m payload glue b hm hneed hset =>
    have renewed {k : Node} (hk : p.arena.find? m = some k) (hp : payload.bare = k.payload.bare)
        (hlink : ∀ target' title', payload = .link target' title' →
          glue = Glue.link target' !(p.arena.kids title').isEmpty) :
        p.arena.Gapes n ∧ p.backing? x ≠ some n := by
      have hkids : b.kids = p.arena.kids :=
        (Arena.Alike.setGlue hset).kids_eq.trans (Arena.Alike.setPayload hk hp).kids_eq
      obtain ⟨_, -, -, rfl⟩ := Arena.exists_of_setGlue hset
      rw [hkids] at ht
      rw [Arena.find?_modify, Arena.setPayload, Arena.find?_modify] at hf
      split at hf
      · subst n
        rw [hk] at hf
        cases hf
        exact absurd (ht ▸ hlink target title rfl).symm Arena.not_pipes_glueLink
      · refine ⟨⟨target, title, last, hf, ht⟩, fun hx => ?_⟩
        exact absurd (Option.some.inj (hx.symm.trans hm)) ‹n ≠ m›
    cases Page.needs_of_neededGlue? hneed with
    | element hk _ _ => exact renewed hk rfl fun _ _ h => by cases h
    | link hk hi _ =>
      obtain ⟨_, hi⟩ := Arena.find?_of_items hi
      refine renewed hk rfl fun _ _ hp => ?_
      cases hp
      rw [Arena.kids_of_find? hi, Payload.children]

theorem Exchange.keepsTitles (hq : Exchange p x c s r b t q) (h : p.Synced) (hr : Refresh q x q') :
    p.KeepsTitles q' := by
  refine ⟨fun {n} hn => ?_⟩
  obtain ⟨⟨target, title, last, hf, ht⟩, hx⟩ := hr.gapes (hq.synced h) hn
  obtain ⟨ch, hfill, hre⟩ := hq.filled
  obtain ⟨old, hc⟩ := h.find?_container hq.container
  rw [hfill.kids_refilled h hre] at ht
  rw [hre.arena, Arena.find?_setItems hc] at hf
  split at hf
  · cases hf
  · refine ⟨target, title, last, hf, ?_⟩
    split at ht
    · subst title
      -- the link with this title is the node of the element, or the page
      obtain ⟨n', m, hm, hslot, hplace⟩ := h.container_slot hq.container
      obtain ⟨rfl, -⟩ := h.sound.role_unique hf hm (List.mem_singleton_self _) hslot
      rw [Page.backing?_congr (hfill.relinks h hre).form] at hx
      obtain ⟨-, rfl⟩ := hplace.resolve_right hx
      obtain ⟨content, g, hroot⟩ := h.sound.page
      cases hroot.symm.trans hf
    · exact ht

end Edit

namespace Page

variable {p q r : Page} {x : ElementId} {n m : NodeId}

/-- The link of a category stands in the title of a link. -/
def InTitle (p : Page) (n m : NodeId) : Prop :=
  ∃ target title g, p.arena.find? n = some ⟨.link target title, g⟩ ∧ m ∈ p.arena.kids title ∧ p.Linked m

/-- The link of a category has been taken out of the title of a link. -/
def Strips (p q : Page) (n : NodeId) : Prop :=
  ∃ m, p.InTitle n m ∧ q.arena.Loose m

/-- No link comes to gape but by losing the link of a category. -/
structure OnlyStrips (p q : Page) : Prop where
  gapes : ∀ {n}, q.arena.Gapes n → p.arena.Gapes n ∨ p.Strips q n

theorem KeepsTitles.onlyStrips (h : p.KeepsTitles q) : p.OnlyStrips q :=
  ⟨fun hn => .inl (h.gapes hn)⟩

theorem OnlyStrips.of_keepsTitles (h : p.KeepsTitles q) (hin : ∀ {n m}, q.InTitle n m → p.InTitle n m)
    (hr : q.OnlyStrips r) : p.OnlyStrips r := by
  refine ⟨fun {n} hn => ?_⟩
  rcases hr.gapes hn with hg | ⟨m, hm, hloose⟩
  · exact .inl (h.gapes hg)
  · exact .inr ⟨m, hin hm, hloose⟩

/-- Links that are still there are what they were, and the items that their titles lack are links of
categories that stand nowhere. -/
theorem OnlyStrips.of_lack (hf : ∀ {n target title last},
      q.arena.find? n = some ⟨.link target title, some ⟨["[[" ++ target ++ "|", last]⟩⟩ →
      p.arena.find? n = some ⟨.link target title, some ⟨["[[" ++ target ++ "|", last]⟩⟩)
    (hk : ∀ {l m}, m ∈ p.arena.kids l → m ∈ q.arena.kids l ∨ p.Linked m ∧ q.arena.Loose m) :
    p.OnlyStrips q := by
  refine ⟨fun {n} hn => ?_⟩
  obtain ⟨target, title, last, hn, ht⟩ := hn
  have hp := hf hn
  cases hkids : p.arena.kids title with
  | nil => exact .inl ⟨target, title, last, hp, hkids⟩
  | cons m rest =>
    have hm : m ∈ p.arena.kids title := hkids ▸ List.mem_cons_self
    obtain ⟨hlinked, hloose⟩ := (hk hm).resolve_left (by simp [ht])
    exact .inr ⟨m, ⟨target, title, _, hp, hm, hlinked⟩, hloose⟩

theorem Dropped.onlyStrips {gone kept : List PlacedLink} (hd : p.Dropped x gone kept q)
    (hl : ∀ l ∈ gone, p.Linked l.link) : p.OnlyStrips q := by
  refine .of_lack (fun hn => ?_) fun {l m} hm => ?_
  · exact hd.evolves.find?_eq hd.nodes (hd.size_eq ▸ Arena.index_lt_of_find? hn) hn rfl
  · rw [hd.kids, List.mem_filter]
    by_cases hgone : m ∈ gone.map PlacedLink.link
    · obtain ⟨k, hk, rfl⟩ := List.mem_map.1 hgone
      refine .inr ⟨hl k hk, fun c hc => ?_⟩
      rw [hd.kids, List.mem_filter] at hc
      simp [hgone] at hc
    · exact .inl ⟨hm, by simpa using hgone⟩

theorem Renews.onlyStrips {ids : List ElementId} (hq : p.Renews ids q) (h : p.Synced) :
    p.OnlyStrips q := by
  refine .of_lack (fun {n target title last} hn => ?_) fun {l m} hm => ?_
  · by_cases hlt : n.index < p.arena.size
    · exact hq.find?_eq hlt hn rfl
    · exact absurd (Option.some.inj (hq.made (Nat.le_of_not_lt hlt) hn)).symm Arena.not_pipes_glueLink
  · have hlt : l.index < p.arena.size := by
      by_contra hle
      rw [Arena.kids_eq_nil (Nat.le_of_not_lt hle)] at hm
      cases hm
    rw [hq.kids hlt, List.mem_append, List.mem_filter]
    by_cases hgone : m ∈ ids.flatMap p.linkNodes
    · obtain ⟨x, hx, hmx⟩ := List.mem_flatMap.1 hgone
      exact .inr ⟨linked_iff.2 ⟨x, hmx⟩, hq.loose h hx hmx⟩
    · exact .inl (.inl ⟨hm, by simpa using hgone⟩)

theorem InTitle.of_alike {b : Arena} (hb : p.arena.Alike b) (hm : InTitle { p with arena := b } n m) :
    p.InTitle n m := by
  obtain ⟨target, title, g, hn, hmem, hlinked⟩ := hm
  obtain ⟨⟨payload, g'⟩, hp, hbare⟩ := hb.exists_of_find? hn
  cases payload with
  | link target' title' =>
    cases hbare
    exact ⟨target', title, g', hp, hb.kids_eq ▸ hmem, hlinked⟩
  | _ => cases hbare

end Page

namespace Edit

open Page (OnlyStrips)

variable {p q q' : Page} {id x y w : ElementId} {c n m : NodeId} {s r b t : List NodeId} {name : String}

theorem Exchange.inTitle [Entities] (hq : Exchange p x c s r b t q) (h : p.Synced) (hr : Refresh q x q')
    (hm : q'.InTitle n m) : p.InTitle n m := by
  obtain ⟨_, htidied, -, rfl⟩ := (hr.refreshed (hq.synced h)).tidied
  obtain ⟨target, title, g, hn, hmem, hlinked⟩ := hm.of_alike htidied.toAlike
  obtain ⟨ch, hfill, hre⟩ := hq.filled
  obtain ⟨old, hc⟩ := h.find?_container hq.container
  replace hlinked := (hfill.relinks h hre).linked m hlinked
  rw [hfill.kids_refilled h hre] at hmem
  rw [hre.arena, Arena.find?_setItems hc] at hn
  split at hn
  · cases hn
  · refine ⟨target, title, g, hn, ?_, hlinked⟩
    split at hmem
    · subst title
      rw [List.mem_append, List.mem_append] at hmem
      rw [hq.kids, List.mem_append, List.mem_append]
      rcases hmem with (hs | hb) | ht
      · exact .inl (.inl hs)
      · obtain ⟨z, -, hz⟩ := hq.new m hb
        exact absurd hz (h.unlinked hlinked z)
      · exact .inr ht
    · exact hmem

theorem Exchange.onlyStrips [Entities] (hq : Exchange p x c s [n] b t q) (h : p.Recorded)
    (hn : p.backing? y = some n) (hr : Refresh q x q') :
    Ends (keepCategories n) q' (fun _ r => p.OnlyStrips r) fun _ _ => True := by
  have hp := h.toSynced
  have hcut := hq.cut_refreshed hp hn (hr.refreshed (hq.synced hp))
  have hrec := (hcut.toSameRecords.leads h hcut.synced hcut.mirrored).recorded
  refine (renews_keepCategories hrec hcut.known).mono (fun _ r hr' => ?_) fun _ _ _ => trivial
  exact .of_keepsTitles (hq.keepsTitles hp hr) (hq.inTitle hp hr) (hr'.2.onlyStrips hrec.toSynced)

theorem onlyStrips_renameLinks (h : p.Recorded) (hc : p.IsCategory id) (new : String) :
    Ends (renameLinks id (p.nameOf? id) (Normalization.words.apply new)) (renamed p id new)
      (fun _ q => p.OnlyStrips q) fun _ _ => True := by
  refine (ends_renameLinks h hc).mono (fun _ q hq => ?_) fun _ _ _ => trivial
  rcases hq with ⟨rfl, -⟩ | ⟨old, l, hl⟩
  · exact Page.KeepsTitles.onlyStrips (Std.Refl.refl (r := Arena.KeepsTitles) p.arena)
  · obtain ⟨-, -, -, r, s, hr, hd, rfl⟩ := hl
    have hin {n m : NodeId} (hm : r.InTitle n m) : p.InTitle n m := by
      rw [hr.eq] at hm
      obtain ⟨target, title, g, hn, hmem, hlinked⟩ := hm.of_alike hr.arena.alike
      rw [Page.linked_iff, Page.Recorded.linksOf_renamed] at hlinked
      exact ⟨target, title, g, hn, hmem, Page.linked_iff.2 hlinked⟩
    have hdropped := hd.onlyStrips fun k hk => Page.linked_of_mem (List.mem_filter.1 hk).1
    have hstrips : p.OnlyStrips s := .of_keepsTitles (Arena.KeepsTitles.retargets hr.arena) hin hdropped
    exact ⟨hstrips.gapes⟩

theorem onlyStrips_removeCategory (h : p.Recorded) :
    Ends (removeCategory name) p (fun _ q => p.OnlyStrips q) fun _ _ => True := by
  refine (ends_removeCategory h.toSynced fun id hid => ⟨h.inPlace id, h.named (h.indexed hid)⟩).mono
    (fun id q hq => ?_) fun _ _ _ => trivial
  obtain ⟨-, r, stored, hd, -, rfl⟩ := hq
  have hstrips := hd.onlyStrips fun l hl => Page.linked_of_mem hl
  exact ⟨hstrips.gapes⟩

theorem onlyStrips_setAttribute (h : p.Recorded) (name value : String) :
    Ends (setAttribute id name value) p (fun _ q => p.OnlyStrips q) fun _ _ => True := by
  by_cases hc : p.IsCategory id
  · exact ends_setAttribute_name hc (fun _ _ _ => trivial) fun new _ _ => onlyStrips_renameLinks h hc new
  · exact (fills_setAttribute h.toSynced hc value).mono (fun _ _ hq => hq.onlyStrips) fun _ _ h => h

theorem onlyStrips_setOrRemove (h : p.Recorded) (name : String) (value : Option String) :
    Ends (setOrRemove id name value) p (fun _ q => p.OnlyStrips q) fun _ _ => True := by
  cases value with
  | some value => exact (onlyStrips_setAttribute h name value).step (fun _ _ hq => Ends.pure hq) fun _ _ h => h
  | none =>
    exact (fills_removeAttribute h.toSynced).step (fun _ _ hq => Ends.pure hq.onlyStrips) fun _ _ h => h

end Edit

namespace Act

open Edit
open Page (OnlyStrips)

variable [Entities] {p : Page} {act : Act}

theorem onlyStrips_edit (h : p.Recorded) (hc : act.isChecked = true) :
    Ends act.edit p (fun _ q => p.OnlyStrips q) fun _ _ => True := by
  have hp := h.toSynced
  have fills {m : Edit Unit} (hm : Fills m p) : Ends m p (fun _ q => p.OnlyStrips q) fun _ _ => True :=
    hm.mono (fun _ _ hq => hq.onlyStrips) fun _ _ h => h
  have quiet {α : Type} {m : Edit α} (hm : Fills m p) :
      Ends (do let _ ← m) p (fun _ q => p.OnlyStrips q) fun _ _ => True :=
    hm.step (fun _ _ hq => Ends.pure hq.onlyStrips) fun _ _ h => h
  have checked {m : Edit Unit} (kinds : List Kind) (id : ElementId)
      (hm : Ends m p (fun _ q => p.OnlyStrips q) fun _ _ => True) :
      Ends (do ask (·.requireKind id kinds); m) p (fun _ q => p.OnlyStrips q) fun _ _ => True :=
    Ends.bind (ends_ask (fun _ _ => hm) fun _ _ => trivial)
  cases act with
  | createParagraph => exact quiet (respects_createContaining _ _ p)
  | createBold => exact quiet (respects_createContaining _ _ p)
  | createItalics => exact quiet (respects_createContaining _ _ p)
  | createRule => exact quiet (respects_createMarkup _ _ p)
  | createDiv => exact quiet (respects_createDiv p)
  | createLink target => exact quiet (fills_createLink hp target)
  | createText s => exact quiet (respects_createText s p)
  | createComment s => exact quiet (respects_createComment s p)
  | insertChild parent child position =>
    refine (ends_insertChild_exchange hp).mono (fun _ q' hq' => ?_) fun _ _ _ => trivial
    obtain ⟨c, n, s, t, q, -, hq, -, hq'⟩ := hq'
    exact (hq.keepsTitles hp hq').onlyStrips
  | removeChild parent child =>
    exact ends_removeChild_exchange hp (fun _ _ _ _ _ _ hn hq hq' => hq.onlyStrips h hn hq')
      fun _ _ _ => trivial
  | replaceChild parent new old =>
    exact ends_replaceChild_exchange hp (fun _ _ _ _ _ _ _ hn _ hq hq' => hq.onlyStrips h hn hq')
      fun _ _ _ => trivial
  | setText id s => exact fills (respects_setText id s p)
  | setComment id s => exact fills (respects_setComment id s p)
  | setAttribute id name value =>
    exact (onlyStrips_setAttribute h name value).step (fun _ _ hq => Ends.pure hq) fun _ _ h => h
  | removeAttribute id name => exact quiet (fills_removeAttribute hp)
  | assign id name value => cases hc
  | promote id => exact fills (fills_promote hp.sound)
  | addCategory name => exact quiet (fills_addCategory name)
  | renameCategory old new =>
    refine ends_needCategory.step (fun id q hq => ?_) fun _ _ _ => trivial
    obtain ⟨-, rfl⟩ := hq
    exact (onlyStrips_setAttribute h "name" new).step (fun _ _ hq => Ends.pure hq) fun _ _ h => h
  | removeCategory name =>
    exact (onlyStrips_removeCategory h).step (fun _ _ hq => Ends.pure hq) fun _ _ h => h
  | setTitle title => exact onlyStrips_setOrRemove h "title" (some title)
  | setNamespace name => exact onlyStrips_setOrRemove h _ _
  | setPath path => exact onlyStrips_setOrRemove h _ _
  | setAlignment id alignment => exact onlyStrips_setOrRemove h _ _
  | setNoShade id on => exact checked _ id (onlyStrips_setOrRemove h _ _)
  | setThickness id pixels => exact checked _ id (onlyStrips_setOrRemove h _ _)
  | setWidth id width => exact checked _ id (onlyStrips_setOrRemove h _ _)
  | setLinkTarget id target => exact checked _ id (onlyStrips_setOrRemove h _ _)
  | setCategoryName id name => exact checked _ id (onlyStrips_setOrRemove h _ _)
  | setUniversal id name value => exact onlyStrips_setOrRemove h _ _

/-- Whatever is done, no link comes to gape but by losing the link of a category. -/
theorem onlyStrips_after (h : p.Recorded) (hc : act.isChecked = true) : p.OnlyStrips (act.after p) :=
  after_of_ok (P := p.OnlyStrips) h hc (Page.KeepsTitles.onlyStrips (Std.Refl.refl p)) (onlyStrips_edit h hc)

end Act

/-- Whether there is a pipe in the text before the first child. -/
def Glue.hasPipe (g : Glue) : Bool :=
  (g.slot? 0).any fun s => s.toList.contains '|'

/-- A link has a pipe in its glue just when it has a title. -/
def Arena.PipeFits (a : Arena) (id : NodeId) : Prop :=
  ∃ target title g, a.find? id = some ⟨.link target title, some g⟩ ∧
    (g.hasPipe = true ↔ a.kids title ≠ [])

theorem Arena.Gapes.not_pipeFits {a : Arena} {id : NodeId} (h : a.Gapes id) : ¬a.PipeFits id := by
  rintro ⟨target, title, g, hn, hfits⟩
  obtain ⟨target', title', last, hn', ht⟩ := h
  cases hn.symm.trans hn'
  exact hfits.1 (by simp [Glue.hasPipe, Glue.slot?]) ht

theorem Arena.target?_new (id : NodeId) : new.target? id = none := by
  obtain ⟨i⟩ := id
  match i with
  | 0 => rfl
  | 1 => rfl
  | i + 2 => simp [target?, find?_eq_none_iff.2 (show new.size ≤ i + 2 by simp [size_new])]

theorem Site.vouches_pipe_not_mem (site : Site) : site.Vouches fun t => '|' ∉ t.toList where
  checked h := Verifier.pipe_not_mem h
  stored h := not_mem_apply_words rfl (Verifier.pipe_not_mem h)

namespace Page

variable {p q : Page} {site : Site} {act : Act} {x : ElementId} {n : NodeId} {t : String}

/-- Each link that is an element has a pipe just when it has a title. -/
def PipesFit (p : Page) : Prop :=
  ∀ x e, p.find? x = some e → e.kind = .link → ∃ n, e.backing = some (.markup n) ∧ p.arena.PipeFits n

theorem Begins.pipe_not_mem [Entities] (h : p.Begins site) (ht : p.arena.target? n = some t) :
    '|' ∉ t.toList := by
  rcases h.arena with ha | ⟨text, ha⟩
  · rw [ha, Arena.target?_new] at ht
    cases ht
  · obtain ⟨⟨payload, g⟩, hn, ht⟩ := Option.bind_eq_some_iff.1 ht
    rw [ha] at hn
    cases payload with
    | link target title =>
      obtain rfl := Option.some.inj ht
      cases Arena.shaped_read hn
      assumption
    | _ => cases ht

theorem Reached.pipe_not_mem [Entities] (h : p.Reached site) (hx : p.form? x = some (.link, some (.markup n)))
    (ht : p.arena.target? n = some t) : '|' ∉ t.toList := by
  obtain ⟨p₀, hbegins, hlasts⟩ := h.exists_begins
  exact (hlasts _ site.vouches_pipe_not_mem).targets (fun _ ht => hbegins.pipe_not_mem ht) hx ht

/-- A link that is an element has a pipe just when it has a title, or it has a pipe and no title. -/
theorem Reached.pipeFits_or_gapes [Entities] (h : p.Reached site)
    (hx : p.form? x = some (.link, some (.markup n))) : p.arena.PipeFits n ∨ p.arena.Gapes n := by
  have hp := h.orderly.recorded.toSynced
  obtain ⟨_, target, title, g, hb, hn⟩ := hp.exists_link hx
  obtain rfl := Backing.markup.inj (Option.some.inj hb)
  obtain ⟨source, hw⟩ := h.exists_worded
  obtain ⟨piped, last, rfl, -, hshut⟩ := (hw.glueAgrees hp.sound).link hn
  have ht := h.pipe_not_mem hx (Arena.target?_of_find? hn rfl)
  cases piped with
  | false =>
    obtain ⟨_, hi⟩ := Arena.find?_of_items (hshut rfl)
    refine .inl ⟨target, title, _, hn, ?_⟩
    simp [Glue.hasPipe, Glue.slot?, ht, Arena.kids_of_find? hi, Payload.children]
  | true =>
    by_cases hkids : p.arena.kids title = []
    · exact .inr ⟨target, title, last, hn, hkids⟩
    · exact .inl ⟨target, title, _, hn, by simp [Glue.hasPipe, Glue.slot?, hkids]⟩

/-- On a page that is reached each link keeps to having a pipe just when it has a title, whatever is done,
but for links that are left with nothing behind the pipe as the link of a category has been taken out of
their title. -/
theorem pipesFit_after [Entities] (h : p.Reached site) (hp : p.PipesFit) (hc : act.isChecked = true) :
    (act.after p).PipesFit ↔ ∀ x n, (act.after p).form? x = some (.link, some (.markup n)) →
      ¬((act.after p).arena.Gapes n ∧ p.Strips (act.after p) n) := by
  have hq := h.act act hc
  constructor
  · intro hfit x n hx ⟨hgapes, _⟩
    obtain ⟨e, he, hk, hb⟩ := find?_of_form? hx
    obtain ⟨n', hb', hfits⟩ := hfit x e he hk
    obtain rfl := Backing.markup.inj (Option.some.inj (hb'.symm.trans hb))
    exact hgapes.not_pipeFits hfits
  · intro hstrips x e he hk
    have hx : (act.after p).form? x = some (.link, e.backing) := hk ▸ form?_of_find? he
    obtain ⟨n, -, -, -, hb, -⟩ := hq.orderly.recorded.toSynced.exists_link hx
    rw [hb] at hx
    refine ⟨n, hb, (hq.pipeFits_or_gapes hx).resolve_right fun hgapes => ?_⟩
    rcases (Act.onlyStrips_after h.orderly.recorded hc).gapes hgapes with hold | hlost
    · -- the link was there before, and so it had a title
      have hlasts : p.KeepsTextsAndTargets (fun _ => True) (act.after p) :=
        Act.keepsTextsAndTargets_after h.orderly.recorded p.site.vouches_true hc
      have hxp := (hlasts.known hx).resolve_right fun hnone => by
        obtain ⟨_, _, _, hn, -⟩ := hold
        cases hnone.symm.trans hn
      obtain ⟨e', he', hk', hb'⟩ := find?_of_form? hxp
      obtain ⟨n', hb'', hfits⟩ := hp x e' he' hk'
      obtain rfl := Backing.markup.inj (Option.some.inj (hb''.symm.trans hb'))
      exact hold.not_pipeFits hfits
    · exact hstrips x n hx ⟨hgapes, hlost⟩

/-- A page with a link whose title is the link of a category and nothing else. -/
def titledByCategory : Page :=
  (read "[[A|[[Category:X]]]]" .default "Test" false).toOption.getD (ofDrafts .new .default "Test" [])

theorem reached_titledByCategory : titledByCategory.Reached .default := by
  have hread : read "[[A|[[Category:X]]]]" .default "Test" false = .ok titledByCategory := by
    decide +kernel
  exact .read hread

theorem pipesFit_titledByCategory : titledByCategory.PipesFit := by
  intro x e he hk
  have hlinks : (titledByCategory.elements.toList.filter (·.kind = .link)).map Element.backing =
      [some (.markup ⟨5⟩)] := by decide +kernel
  have hn : titledByCategory.arena.find? ⟨5⟩ = some ⟨.link "A" ⟨4⟩, some ⟨["[[A|", "]]"]⟩⟩ := by
    decide +kernel
  have hkids : titledByCategory.arena.kids ⟨4⟩ = [⟨3⟩] := by decide +kernel
  have hmem : e ∈ titledByCategory.elements.toList.filter (·.kind = .link) :=
    List.mem_filter.2 ⟨Array.mem_toList_iff.2 (Array.mem_of_getElem? he), by simpa using hk⟩
  have hb := List.mem_map_of_mem (f := Element.backing) hmem
  rw [hlinks, List.mem_singleton] at hb
  refine ⟨⟨5⟩, hb, "A", ⟨4⟩, _, hn, ?_⟩
  simp [hkids, Glue.hasPipe, Glue.slot?]

theorem pipesFit_after_titledByCategory : titledByCategory.Reached .default ∧
    titledByCategory.PipesFit ∧ (Act.removeCategory "X").isChecked = true ∧
    (((Act.removeCategory "X").after titledByCategory).PipesFit ↔
      ∀ x n, ((Act.removeCategory "X").after titledByCategory).form? x = some (.link, some (.markup n)) →
        ¬(((Act.removeCategory "X").after titledByCategory).arena.Gapes n ∧
          titledByCategory.Strips ((Act.removeCategory "X").after titledByCategory) n)) :=
  ⟨reached_titledByCategory, pipesFit_titledByCategory, rfl,
    pipesFit_after reached_titledByCategory pipesFit_titledByCategory rfl⟩

/-- The page is taken out of the category, and the link has nothing behind its pipe. -/
theorem not_pipesFit_titledByCategory : titledByCategory.Reached .default ∧
    titledByCategory.PipesFit ∧ ∃ q, (Act.removeCategory "X").edit titledByCategory = .ok () q ∧
      ¬q.PipesFit := by
  refine ⟨reached_titledByCategory, pipesFit_titledByCategory, ?_⟩
  have hrun : ((Act.removeCategory "X").edit.exec titledByCategory).isOk = true := by decide +kernel
  have hform : ((Act.removeCategory "X").after titledByCategory).form? ⟨3⟩ =
      some (.link, some (.markup ⟨5⟩)) := by decide +kernel
  have hn : ((Act.removeCategory "X").after titledByCategory).arena.find? ⟨5⟩ =
      some ⟨.link "A" ⟨4⟩, some ⟨["[[A|", "]]"]⟩⟩ := by decide +kernel
  have hkids : ((Act.removeCategory "X").after titledByCategory).arena.kids ⟨4⟩ = [] := by decide +kernel
  obtain ⟨_, q, hedit⟩ := Edit.exists_of_isOk hrun
  rw [Act.after, hedit] at hform hn hkids
  refine ⟨q, hedit, fun hfit => ?_⟩
  obtain ⟨e, he, hk, hb⟩ := find?_of_form? hform
  obtain ⟨n, hb', hfits⟩ := hfit _ e he hk
  obtain rfl := Backing.markup.inj (Option.some.inj (hb'.symm.trans hb))
  exact Arena.Gapes.not_pipeFits ⟨"A", ⟨4⟩, "]]", hn, hkids⟩ hfits

end Page

end WikiPage
