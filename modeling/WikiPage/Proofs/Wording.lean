import WikiPage.Arena.Read
import WikiPage.Proofs.Mirror
import WikiPage.Proofs.Regular

/-!
# What glue says

The target of a link, the names of elements and attributes and the text of a comment stand in the node
and once more in its glue, which alone is printed. The glue of a link without a pipe and the flag of an
element also say that a list is empty. What is said holds if it holds of every node; most steps of
surgery change one node, so in between it holds of all others.
-/

namespace WikiPage

namespace Node

variable {source : String} {id : NodeId} {n : Node}

/-- The glue of a node spells what the node has. A comment without an end is one that the source ends
with and that has been left as it was read. -/
def Worded [Entities] (source : String) (id : NodeId) : Node → Prop
  | ⟨.link target _, g⟩ => target.toList.getLast? ≠ some '|' ∧ ∃ (piped : Bool) (last : String),
    g = some ⟨["[[" ++ target ++ if piped then "|" else "", last]⟩ ∧ (last = "]]" ∨ last = "")
  | ⟨.element name _ _ _, g⟩ => ∃ ending closing, g = some ⟨["<" ++ name, ending, closing]⟩
  | ⟨.comment text, g⟩ => g = some ⟨["<!--" ++ text ++ "-->"]⟩ ∨
    g = some ⟨["<!--" ++ text]⟩ ∧ (Arena.read source).find? id = some ⟨.comment text, g⟩ ∧
      ("<!--" ++ text).toList <:+ source.toList
  | ⟨.attr name hasValue _, g⟩ => ∃ written opening closing : String,
    g = some ⟨[opening, closing]⟩ ∧ written.toLower = name.toLower ∧
      Tag.Opens written.toList hasValue opening.toList
  | _ => True

/-- A node says of a list below it that it is empty. -/
def Shuts (c : NodeId) : Node → Prop
  | ⟨.link target title, g⟩ => c = title ∧ ∃ last, g = some ⟨["[[" ++ target, last]⟩
  | ⟨.element _ empty _ body, _⟩ => c = body ∧ empty = true
  | _ => False

theorem Shuts.mem_slots {c : NodeId} (h : n.Shuts c) : (c, Role.content) ∈ n.payload.slots := by
  obtain ⟨payload, g⟩ := n
  cases payload with
  | link target title => exact List.mem_singleton.2 (by rw [h.1])
  | element name empty attributes body => exact List.mem_pair.2 (.inr (by rw [h.1]))
  | _ => cases h

end Node

/-- Nodes whose glue says nothing. -/
def Payload.isMute : Payload → Bool
  | link _ _ => false
  | element _ _ _ _ => false
  | comment _ => false
  | attr _ _ _ => false
  | _ => true

theorem Glue.opensWith_link {target : String} (h : target.toList.getLast? ≠ some '|')
    (last : String) (piped : Bool) :
    Glue.opensWith ⟨["[[" ++ target ++ if piped then "|" else "", last]⟩ '|' = piped := by
  cases piped with
  | true => simp [opensWith, slot?, List.getLast?_cons]
  | false =>
    have hlast : ("[[" ++ target).toList.getLast? ≠ some '|' := by
      rw [String.toList_append, List.getLast?_append]
      cases ht : target.toList.getLast? with
      | none => simp
      | some c => simpa [ht] using h
    simpa [opensWith, slot?] using hlast

theorem Tag.opens_attr (name : String) :
    Tag.Opens name.toList true (" " ++ name ++ "=\"").toList := by
  refine ⟨[' '], ['=', '"'], by simp, by simp, by simp [Tag.isSpace], ?_⟩
  exact ⟨[], [], ['"'], rfl, by simp, by simp, by simp⟩

theorem Tag.opens_attr_bare (name : String) : Tag.Opens name.toList false (" " ++ name).toList :=
  ⟨[' '], [], by simp, by simp, by simp [Tag.isSpace], rfl⟩

namespace Arena

variable {source : String} {a b : Arena} {id x : NodeId} {n : Node}

theorem items_congr {c : NodeId} (h : b.find? c = a.find? c) : b.items c = a.items c := by
  unfold items payload get
  rw [h]

/-- What a node with an identifier says holds, of itself and of the lists that it has. -/
def BearsOut [Entities] (source : String) (id : NodeId) (a : Arena) (n : Node) : Prop :=
  n.Worded source id ∧ ∀ c, n.Shuts c → a.items c = .ok []

def WordedAt [Entities] (source : String) (a : Arena) (id : NodeId) : Prop :=
  ∀ n, a.find? id = some n → a.BearsOut source id n

def Worded [Entities] (source : String) (a : Arena) : Prop :=
  ∀ id, a.WordedAt source id

/-- What all nodes but one say holds. -/
def WordedBut [Entities] (source : String) (but : NodeId) (a : Arena) : Prop :=
  ∀ id, id ≠ but → a.WordedAt source id

/-- Whatever the source, what nodes say goes on to hold. -/
def KeepsWording [Entities] (a b : Arena) : Prop :=
  ∀ source, a.Worded source → b.Worded source

theorem Worded.but [Entities] (h : a.Worded source) (id : NodeId) : a.WordedBut source id :=
  fun x _ => h x

theorem WordedBut.worded [Entities] (h : a.WordedBut source id) (hid : a.WordedAt source id) :
    a.Worded source := fun x => by
  by_cases hx : x = id
  · exact hx ▸ hid
  · exact h x hx

theorem bearsOut_of_isMute [Entities] (hm : n.payload.isMute = true) : a.BearsOut source id n := by
  obtain ⟨payload, g⟩ := n
  cases payload <;> first | exact ⟨trivial, fun _ => False.elim⟩ | cases hm

theorem wordedAt_of_isMute [Entities] (hn : a.find? id = some n) (hm : n.payload.isMute = true) :
    a.WordedAt source id := by
  intro m h
  obtain rfl := Option.some.inj (hn.symm.trans h)
  exact bearsOut_of_isMute hm

theorem WordedAt.congr [Entities] (h : a.WordedAt source x) (hx : b.find? x = a.find? x)
    (hc : ∀ n c, a.find? x = some n → n.Shuts c → a.items c = .ok [] → b.items c = .ok []) :
    b.WordedAt source x := by
  intro n hn
  rw [hx] at hn
  obtain ⟨hw, hs⟩ := h n hn
  exact ⟨hw, fun c hsc => hc n c hn hsc (hs c hsc)⟩

theorem WordedAt.extends [Entities] (h : a.WordedAt source x) (hb : a.Extends b) (hx : x.index < a.size) :
    b.WordedAt source x := by
  refine h.congr (hb.find?_eq x hx) fun n c _ _ hc => ?_
  obtain ⟨g, hg⟩ := find?_of_items hc
  exact items_of_find? (hb.find?_of_find? hg)

theorem Worded.push [Entities] (h : a.Worded source) (n : Node) : (a.push n).WordedBut source a.next := by
  intro x hx m hm
  refine (h x).extends (.push a n) ?_ m hm
  rw [find?_push, if_neg hx] at hm
  exact index_lt_of_find? hm

theorem Worded.push_mute [Entities] (h : a.Worded source) {p : Payload} (hp : p.isMute = true) :
    (a.push ⟨p, none⟩).Worded source :=
  (h.push _).worded (wordedAt_of_isMute (find?_push_next a _) hp)

theorem WordedBut.modify [Entities] (h : a.WordedBut source id)
    (hl : ∀ n, a.find? id = some n → n.payload.isList = false) (f : Node → Node) :
    (a.modify id f).WordedBut source id := by
  have hfind {y : NodeId} (hy : y ≠ id) : (a.modify id f).find? y = a.find? y := by
    rw [find?_modify, if_neg hy]
  refine fun x hx => (h x hx).congr (hfind hx) fun n c _ _ hc => ?_
  obtain ⟨g, hg⟩ := find?_of_items hc
  have hne : c ≠ id := by
    rintro rfl
    cases hl _ hg
  exact items_of_find? ((hfind hne).trans hg)

theorem WordedAt.setItems [Entities] (h : a.WordedAt source x) {c : NodeId} {old items : List NodeId}
    {g : Option Glue} (hc : a.find? c = some ⟨.list old, g⟩)
    (hs : ∀ n, a.find? x = some n → n.Shuts c → items = []) :
    (a.setItems c items).WordedAt source x := by
  by_cases hx : x = c
  · refine wordedAt_of_isMute (n := ⟨.list items, g⟩) ?_ rfl
    rw [find?_setItems hc, if_pos hx]
  · refine h.congr (by rw [find?_setItems hc, if_neg hx]) fun n d hn hd hid => ?_
    by_cases hdc : d = c
    · subst d
      obtain rfl := hs n hn hd
      exact items_of_find? ((find?_setItems hc c).trans (if_pos rfl))
    · rw [← hid]
      exact items_congr (by rw [find?_setItems hc, if_neg hdc])

theorem WordedAt.not_shuts [Entities] (h : a.WordedAt source x) (hn : a.find? x = some n) {c : NodeId}
    {items : List NodeId} {g : Option Glue} (hc : a.find? c = some ⟨.list items, g⟩)
    (hi : items ≠ []) : ¬n.Shuts c := fun hs => by
  have hempty := (h n hn).2 c hs
  rw [items_of_find? hc] at hempty
  exact hi (Except.ok.inj hempty)

/-- Only the node that has the list says anything of it. -/
theorem Sound.eq_of_shuts (h : a.Sound) {o c : NodeId} {m : Node} {role : Role}
    (hm : a.find? o = some m) (hs : (c, role) ∈ m.payload.slots) (hn : a.find? x = some n)
    (hx : n.Shuts c) : x = o ∧ role = .content :=
  have ⟨ho, hr⟩ := h.role_unique hn hm hx.mem_slots hs
  ⟨ho, hr.symm⟩

theorem Worded.setItems [Entities] (h : a.Worded source) {c : NodeId} {old items : List NodeId}
    {g : Option Glue} (hc : a.find? c = some ⟨.list old, g⟩)
    (hs : ∀ x n, a.find? x = some n → n.Shuts c → items = []) : (a.setItems c items).Worded source :=
  fun x => (h x).setItems hc (hs x)

theorem Worded.setItems_of_ne_nil [Entities] (h : a.Worded source) {c : NodeId} {old items : List NodeId}
    {g : Option Glue} (hc : a.find? c = some ⟨.list old, g⟩) (ho : old ≠ []) :
    (a.setItems c items).Worded source :=
  h.setItems hc fun x _ hn hs => absurd hs ((h x).not_shuts hn hc ho)

theorem Worded.removeItem [Entities] (h : a.Worded source) {c : NodeId} (hb : a.removeItem c x = .ok b) :
    b.Worded source := by
  obtain ⟨s, t, g, hc, rfl⟩ := exists_of_removeItem hb
  exact h.setItems_of_ne_nil hc (by simp)

theorem Worded.replaceItem [Entities] (h : a.Worded source) {c old : NodeId}
    (hb : a.replaceItem c old x = .ok b) : b.Worded source := by
  obtain ⟨s, t, g, hc, -, rfl⟩ := exists_of_replaceItem hb
  exact h.setItems_of_ne_nil hc (by simp)

/-- No node says of the list that it is empty. -/
def Open (a : Arena) (c : NodeId) : Prop :=
  ∀ x n, a.find? x = some n → ¬n.Shuts c

theorem Sound.isOpen (h : a.Sound) {o c : NodeId} {m : Node} {role : Role}
    (hm : a.find? o = some m) (hs : (c, role) ∈ m.payload.slots) (ho : ¬m.Shuts c) : a.Open c := by
  intro x n hx hn
  obtain ⟨rfl, -⟩ := h.eq_of_shuts hm hs hx hn
  exact ho (Option.some.inj (hm.symm.trans hx) ▸ hn)

theorem Sound.isOpen_of_isTagList (h : a.Sound) {c : NodeId} (hc : a.IsTagList c) : a.Open c := by
  obtain ⟨o, m, role, hm, hs, hr⟩ := hc
  exact fun x n hx hn => hr (h.eq_of_shuts hm hs hx hn).2

theorem Worded.setItems_of_isOpen [Entities] (h : a.Worded source) {c : NodeId} {old : List NodeId}
    {g : Option Glue} (hc : a.find? c = some ⟨.list old, g⟩) (ho : a.Open c) (items : List NodeId) :
    (a.setItems c items).Worded source :=
  h.setItems hc fun x n hx hn => absurd hn (ho x n hx)

theorem Worded.appendItem [Entities] (h : a.Worded source) {c : NodeId} (hb : a.appendItem c x = .ok b)
    (ho : b.Open c) : b.Worded source := by
  obtain ⟨s, ⟨g, hc⟩, -, rfl⟩ := exists_of_appendItem hb
  refine h.setItems_of_isOpen hc (fun y n hy hn => ?_) _
  refine ho y n ?_ hn
  rw [find?_setItems hc, if_neg]
  · exact hy
  · rintro rfl
    obtain rfl := Option.some.inj (hc.symm.trans hy)
    cases hn

/-- What nodes say holds, but for what one of them says of the lists that it has. -/
def Unsettled [Entities] (source : String) (id : NodeId) (a : Arena) : Prop :=
  a.WordedBut source id ∧ ∀ n, a.find? id = some n → n.Worded source id

theorem Worded.unsettled [Entities] (h : a.Worded source) (id : NodeId) : a.Unsettled source id :=
  ⟨h.but id, fun n hn => (h id n hn).1⟩

/-- Whatever is put into a list, only the node that has it may be wrong about it. -/
theorem Worded.unsettled_setItems [Entities] (h : a.Worded source) (ha : a.Sound) {o c : NodeId} {m : Node}
    {role : Role} (hm : a.find? o = some m) (hs : (c, role) ∈ m.payload.slots)
    (items : List NodeId) : (a.setItems c items).Unsettled source o := by
  obtain ⟨old, hc⟩ := ha.find?_slot hm hs
  refine ⟨fun x hx => (h x).setItems hc fun n hn hsc => ?_, fun n hn => ?_⟩
  · exact absurd (ha.eq_of_shuts hm hs hn hsc).1 hx
  · rw [find?_setItems hc, if_neg] at hn
    · exact (h o n hn).1
    · rintro rfl
      obtain rfl := Option.some.inj (hc.symm.trans hm)
      cases hs

theorem WordedBut.setGlue [Entities] (h : a.WordedBut source id) {g : Glue} (hb : a.setGlue id (some g) = .ok b)
    (hg : ∀ n, a.find? id = some n → a.BearsOut source id ⟨n.payload, some g⟩) :
    b.Worded source := by
  obtain ⟨n, hn, hfits, rfl⟩ := exists_of_setGlue hb
  have hl (m : Node) (hm : a.find? id = some m) : m.payload.isList = false := by
    obtain rfl := Option.some.inj (hn.symm.trans hm)
    exact (hfits g rfl).1
  refine (h.modify hl _).worded fun m hm => ?_
  rw [find?_modify, if_pos rfl, hn] at hm
  obtain rfl := Option.some.inj hm
  obtain ⟨hw, hs⟩ := hg n hn
  refine ⟨hw, fun c hsc => ?_⟩
  obtain ⟨g', hc⟩ := find?_of_items (hs c hsc)
  refine items_of_find? (g := g') ?_
  rw [find?_modify, if_neg, hc]
  rintro rfl
  cases hl _ hc

theorem bearsOut_link [Entities] {target : String} {title : NodeId} {items : List NodeId}
    (ht : target.toList.getLast? ≠ some '|') (hi : a.items title = .ok items) :
    a.BearsOut source id ⟨.link target title, some (Glue.link target !items.isEmpty)⟩ := by
  refine ⟨⟨ht, !items.isEmpty, "]]", rfl, .inl rfl⟩, fun c hc => ?_⟩
  obtain ⟨rfl, last, hlast⟩ := hc
  rw [hi]
  cases items with
  | nil => rfl
  | cons y ys =>
    have hlen := congrArg String.length (List.cons.inj (Glue.mk.inj (Option.some.inj hlast))).1
    simp [String.length_append] at hlen

theorem bearsOut_element [Entities] {name : String} {empty : Bool} {attributes body : NodeId}
    (he : empty = true → a.items body = .ok []) :
    a.BearsOut source id
      ⟨.element name empty attributes body, some (Glue.element name empty)⟩ := by
  refine ⟨?_, fun c hc => ?_⟩
  · cases empty
    · exact ⟨">", "</" ++ name ++ ">", rfl⟩
    · exact ⟨" />", "", rfl⟩
  · obtain ⟨rfl, hempty⟩ := hc
    exact he hempty

theorem bearsOut_attr [Entities] {name written : String} {value : NodeId} (hasValue : Bool)
    (hw : name.toLower = written.toLower) :
    a.BearsOut source id ⟨.attr written hasValue value, some (Glue.attr name hasValue)⟩ := by
  refine ⟨?_, fun _ => False.elim⟩
  cases hasValue with
  | true => exact ⟨name, _, _, rfl, hw, Tag.opens_attr name⟩
  | false => exact ⟨name, _, _, rfl, hw, Tag.opens_attr_bare name⟩

theorem bearsOut_comment [Entities] (text : String) :
    a.BearsOut source id ⟨.comment text, some (Glue.comment text)⟩ :=
  ⟨.inl rfl, fun _ => False.elim⟩

/-- What a payload needs for the glue of its kind to be right. -/
def Wordable (a : Arena) : Payload → Prop
  | .link target _ => target.toList.getLast? ≠ some '|'
  | .element _ empty attributes body =>
    a.items attributes = .ok [] ∧ (empty = true → a.items body = .ok [])
  | _ => True

end Arena

namespace Surgery

variable [Entities] {source : String} {a : Arena} {id : NodeId}

/-- A step of surgery after which what nodes say holds, if it ends well. -/
abbrev Words {α : Type} (source : String) (m : Surgery α) (a : Arena) : Prop :=
  Ends m a (fun _ b => b.Worded source) fun _ _ => True

theorem words_setGlue {g : Glue} (h : a.WordedBut source id)
    (hg : ∀ n, a.find? id = some n → a.BearsOut source id ⟨n.payload, some g⟩) :
    Words source (setGlue id g) a :=
  ends_change (fun _ hb => h.setGlue (PageError.eq_ok_of_ofArena hb) hg) fun _ _ => trivial

/-- The glue that a node of a kind is given says what the node has. -/
theorem words_addGlue (h : a.WordedBut source id)
    (hp : ∀ n, a.find? id = some n → a.Wordable n.payload) : Words source (addGlue id) a := by
  refine Ends.bind (Ends.get ?_)
  cases hsize : a.size with
  | zero => exact Ends.throw trivial
  | succ k =>
    rw [renewGlue]
    refine Ends.bind (ends_look (fun payload hpayload => ?_) fun _ _ => trivial)
    obtain ⟨g, hn⟩ := Arena.find?_of_payload hpayload
    have hw := hp _ hn
    have set {g : Glue} (hb : a.BearsOut source id ⟨payload, some g⟩) :
        Words source (setGlue id g) a := words_setGlue h fun m hm => by
      obtain rfl := Option.some.inj (hm.symm.trans hn)
      exact hb
    cases payload with
    | element name empty attributes body =>
      refine Ends.bind (ends_look (fun items hi => ?_) fun _ _ => trivial)
      obtain rfl := Except.ok.inj (hw.1.symm.trans hi)
      exact Ends.bind (Ends.pure (set (Arena.bearsOut_element hw.2)))
    | link target title =>
      refine Ends.bind (ends_look (fun items hi => ?_) fun _ _ => trivial)
      exact set (Arena.bearsOut_link hw hi)
    | attr name hasValue value => exact set (Arena.bearsOut_attr hasValue rfl)
    | comment text => exact set (Arena.bearsOut_comment text)
    | emphasis style content => exact set (Arena.bearsOut_of_isMute rfl)
    | rule => exact set (Arena.bearsOut_of_isMute rfl)
    | paragraph content => exact set (Arena.bearsOut_of_isMute rfl)
    | _ => exact Ends.pure (h.worded (Arena.wordedAt_of_isMute hn rfl))

theorem words_makeGlued (h : a.Worded source) {p : Payload} (hp : (a.push ⟨p, none⟩).Wordable p) :
    Words source (do let node ← make p; addGlue node; pure node) a := by
  refine Ends.bind (ends_make ?_)
  refine (words_addGlue (h.push _) fun n hn => ?_).step (fun _ _ hb => Ends.pure hb) fun _ _ h => h
  rw [Arena.find?_push_next] at hn
  obtain rfl := Option.some.inj hn
  exact hp

theorem words_makeElement (h : a.Worded source) (name : String) {items : List NodeId} {empty : Bool}
    (he : empty = true → items = []) :
    Words source (do
      let attributes ← make (.list [])
      let body ← make (.list items)
      let element ← make (.element name empty attributes body)
      setGlue element (Glue.element name empty)
      pure element) a := by
  refine Ends.bind (ends_make ?_)
  have h₁ : (a.push ⟨.list [], none⟩).Worded source := h.push_mute rfl
  generalize a.push ⟨.list [], none⟩ = a₁ at *
  refine Ends.bind (ends_make ?_)
  have h₂ : (a₁.push ⟨.list items, none⟩).Worded source := h₁.push_mute rfl
  have hbody := Arena.find?_push_next a₁ ⟨.list items, none⟩
  generalize a₁.push ⟨.list items, none⟩ = a₂ at *
  refine Ends.bind (ends_make ?_)
  refine (words_setGlue (h₂.push _) fun n hn => ?_).step (fun _ _ hb => Ends.pure hb) fun _ _ h => h
  rw [Arena.find?_push_next] at hn
  obtain rfl := Option.some.inj hn
  refine Arena.bearsOut_element fun hempty => ?_
  obtain rfl := he hempty
  exact Arena.items_of_find? ((Arena.Extends.push a₂ _).find?_of_find? hbody)

theorem words_toElement (h : a.Worded source) (kind : Kind) (native : NodeId) :
    Ends (toElement kind native) a (fun _ b => b.Worded source ∧ kind.tag? ≠ none)
      fun _ _ => True := by
  unfold toElement
  split
  · exact Ends.throw trivial
  · rename_i tag htag
    have wrap {b : Arena} {items : List NodeId} {empty : Bool} (hb : b.Worded source)
        (he : empty = true → items = []) := (words_makeElement hb tag he).mono
      (fun _ _ hc => (⟨hc, by simp [htag]⟩ : _ ∧ kind.tag? ≠ none)) fun _ _ h => h
    refine Ends.bind (ends_look (fun payload _ => ?_) fun _ _ => trivial)
    refine Ends.bind (ends_ask (fun content _ => ?_) fun _ _ => trivial)
    cases content with
    | none => exact Ends.bind (Ends.pure (wrap h fun _ => rfl))
    | some c =>
      refine Ends.bind (ends_look (fun items hi => ?_) fun _ _ => trivial)
      obtain ⟨g, hc⟩ := Arena.find?_of_items hi
      refine Ends.bind (ends_setItems (Ends.bind (Ends.pure ?_)))
      exact wrap (h.setItems hc fun _ _ _ _ => rfl) nofun

theorem words_encodeValue (h : a.Worded source) (value : String) :
    Words source (encodeValue value) a := by
  unfold encodeValue
  induction Span.encode value.toList generalizing a with
  | nil => exact Ends.pure h
  | cons span spans ih =>
    rw [List.mapM_cons]
    refine Ends.bind (ends_make ?_)
    refine (ih (h.push_mute ?_)).step (fun _ _ hb => Ends.pure hb) fun _ _ h => h
    cases span <;> rfl

theorem words_rewriteAttribute (h : a.Worded source) {node value : NodeId} {name written : String}
    {items : List NodeId} {hasValue : Bool} {g : Option Glue}
    (hn : a.find? node = some ⟨.attr written hasValue value, g⟩) (ho : a.Open value)
    (hw : name.toLower = written.toLower) :
    Words source (rewriteAttribute node name items) a := by
  refine Ends.bind (ends_look (fun payload hp => ?_) fun _ _ => trivial)
  obtain rfl := Except.ok.inj ((Arena.payload_of_find? hn).symm.trans hp)
  refine Ends.bind (ends_look (fun glue hglue => ?_) fun _ _ => trivial)
  obtain rfl := Except.ok.inj ((Arena.glue_of_find? hn).symm.trans hglue)
  refine Ends.bind (ends_look (fun old hold => ?_) fun _ _ => trivial)
  obtain ⟨g', hv⟩ := Arena.find?_of_items hold
  refine Ends.bind (ends_setItems (Ends.bind (ends_setPayload ?_)))
  have hset := h.setItems_of_isOpen hv ho items
  have hn' : (a.setItems value items).find? node = some ⟨.attr written hasValue value, g⟩ := by
    rw [Arena.find?_setItems hv, if_neg, hn]
    rintro rfl
    cases hv.symm.trans hn
  have hfind : ((a.setItems value items).setPayload node (.attr written true value)).find? node =
      some ⟨.attr written true value, g⟩ := by
    rw [Arena.setPayload, Arena.find?_modify, if_pos rfl, hn']
    rfl
  have hbut : ((a.setItems value items).setPayload node (.attr written true value)).WordedBut source
      node := (hset.but node).modify (fun m hm => by
    obtain rfl := Option.some.inj (hn'.symm.trans hm)
    rfl) _
  split
  · refine words_setGlue hbut fun m hm => ?_
    obtain rfl := Option.some.inj (hfind.symm.trans hm)
    exact Arena.bearsOut_attr true hw
  · rename_i hquoted
    have hasValue_eq : hasValue = true := by
      simp only [isQuoted, Bool.not_eq_true', Bool.not_eq_false, Bool.and_eq_true] at hquoted
      exact hquoted.1
    refine Ends.pure (hbut.worded fun m hm => ?_)
    obtain rfl := Option.some.inj (hfind.symm.trans hm)
    exact ⟨(hasValue_eq ▸ (h node _ hn).1 :), fun _ => False.elim⟩

theorem words_addAttribute (h : a.Worded source) {list : NodeId} {name : String}
    {items : List NodeId} : Ends (addAttribute list name items) a
      (fun _ b => b.Open list → b.Worded source) fun _ _ => True := by
  refine Ends.bind (ends_make (Ends.bind (ends_make ?_)))
  refine (words_setGlue ((h.push_mute rfl).push _) fun n hn => ?_).step (fun _ b hb => ?_)
    fun _ _ h => h
  · rw [Arena.find?_push_next] at hn
    obtain rfl := Option.some.inj hn
    exact Arena.bearsOut_attr true rfl
  · exact Ends.bind (ends_change (fun c hc => Ends.pure (hb.appendItem hc)) fun _ _ => trivial)

theorem words_writeAttribute (h : a.Worded source) (ha : a.Sound) {list : NodeId}
    {name value : String} {node : Option NodeId}
    (hnode : ∀ n, node = some n → ∃ written hasValue v g,
      a.find? n = some ⟨.attr written hasValue v, g⟩ ∧ name.toLower = written.toLower) :
    Ends (writeAttribute list name value node) a (fun _ b => b.Open list → b.Worded source)
      fun _ _ => True := by
  refine ((ends_encodeValue value a).and (words_encodeValue h value)).step (fun items b hb => ?_)
    fun _ _ _ => trivial
  cases node with
  | none => exact words_addAttribute hb.2
  | some n =>
    obtain ⟨written, hasValue, v, g, hn, hname⟩ := hnode n rfl
    have hnb := hb.1.1.exts.find?_of_find? hn
    have hv : b.Open v := (hb.1.1.sound ha).isOpen_of_isTagList
      (Arena.inTag_value hnb (List.mem_singleton_self _))
    exact (words_rewriteAttribute hb.2 hnb hv hname).step (fun _ _ hc => Ends.pure fun _ => hc)
      fun _ _ h => h

end Surgery
end WikiPage
