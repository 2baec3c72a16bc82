import WikiPage.Proofs.Category
import WikiPage.Proofs.History

/-!
# Refusals

An edit asks everything that may be refused before it changes anything; once it has changed something,
only a fault can stop it. So an act that is refused leaves the page as it was, whatever page that is.
-/

namespace WikiPage

section

variable {α β : Type}

/-- An answer that may be a fault but no refusal. -/
def NeverRefuses (x : Except PageError α) : Prop :=
  ∀ e, x = .error e → e.isFatal = true

theorem neverRefuses_ok (a : α) : NeverRefuses (.ok a) := nofun

theorem neverRefuses_error {e : PageError} (h : e.isFatal = true) :
    NeverRefuses (.error e : Except PageError α) := by
  rintro _ ⟨⟩
  exact h

theorem neverRefuses_ofArena (x : Except Arena.Error α) : NeverRefuses (PageError.ofArena x) := by
  cases x with
  | ok a => exact neverRefuses_ok a
  | error e => exact neverRefuses_error rfl

theorem neverRefuses_bind {x : Except PageError α} {f : α → Except PageError β} (hx : NeverRefuses x)
    (hf : ∀ a, NeverRefuses (f a)) : NeverRefuses (x >>= f) := by
  cases x with
  | ok a => exact hf a
  | error e => exact neverRefuses_error (hx e rfl)

theorem neverRefuses_map {x : Except PageError α} (hx : NeverRefuses x) (f : α → β) :
    NeverRefuses (x.map f) := by
  cases x with
  | ok a => exact neverRefuses_ok (f a)
  | error e => exact neverRefuses_error (hx e rfl)

end

namespace Page

variable {p : Page} (id : ElementId)

theorem neverRefuses_get : NeverRefuses (p.get id) := by
  unfold get
  split
  · exact neverRefuses_ok _
  · exact neverRefuses_error rfl

theorem neverRefuses_payload (node : NodeId) : NeverRefuses (p.payload node) :=
  neverRefuses_ofArena _

theorem neverRefuses_attribute? (name : String) : NeverRefuses (p.attribute? id name) :=
  neverRefuses_map (neverRefuses_get id) _

theorem neverRefuses_backingNode : NeverRefuses (p.backingNode id) := by
  refine neverRefuses_bind (neverRefuses_get id) fun e => ?_
  split
  · exact neverRefuses_ok _
  · exact neverRefuses_error rfl

theorem neverRefuses_attributeList : NeverRefuses (p.attributeList id) := by
  refine neverRefuses_bind (neverRefuses_bind (neverRefuses_get id) fun e => ?_) fun node =>
    neverRefuses_bind (neverRefuses_payload node) fun payload => ?_
  all_goals split
  · exact neverRefuses_ok _
  · exact neverRefuses_error rfl
  · exact neverRefuses_ok _
  · exact neverRefuses_error rfl

theorem neverRefuses_childContainer : NeverRefuses (p.childContainer id) := by
  refine neverRefuses_bind (neverRefuses_get id) fun e => neverRefuses_bind ?_ fun o => ?_
  · unfold childContainer?
    split
    · exact neverRefuses_ok _
    · exact neverRefuses_map (neverRefuses_payload _) _
    · split
      · exact neverRefuses_ok _
      · exact neverRefuses_map (neverRefuses_payload _) _
  · split
    · exact neverRefuses_ok _
    · exact neverRefuses_error rfl

theorem neverRefuses_place? : NeverRefuses (p.place? id) := by
  refine neverRefuses_bind (neverRefuses_map (neverRefuses_get id) _) fun o => ?_
  split
  · exact neverRefuses_ok _
  · exact neverRefuses_map (neverRefuses_childContainer _) _

theorem neverRefuses_storedName : NeverRefuses (p.storedName id) := by
  refine neverRefuses_bind (neverRefuses_map (neverRefuses_attribute? id _) _) fun o => ?_
  split
  · exact neverRefuses_ok _
  · exact neverRefuses_error rfl

theorem neverRefuses_neededGlue? (node : NodeId) : NeverRefuses (p.neededGlue? node) := by
  refine neverRefuses_bind (neverRefuses_payload node) fun payload => ?_
  split
  · refine neverRefuses_bind (neverRefuses_ofArena _) fun items => ?_
    split <;> exact neverRefuses_ok _
  · refine neverRefuses_bind (neverRefuses_ofArena _) fun items =>
      neverRefuses_bind (neverRefuses_ofArena _) fun glue => ?_
    split <;> exact neverRefuses_ok _
  · exact neverRefuses_ok _

end Page

/-- The only errors that a computation ends with are faults. -/
def OnlyFaults {σ α : Type} (m : EStateM PageError σ α) : Prop :=
  ∀ s, Ends m s (fun _ _ => True) fun e _ => e.isFatal = true

section

variable {σ α β : Type} {m : EStateM PageError σ α} {f : α → EStateM PageError σ β}

theorem OnlyFaults.bind (hm : OnlyFaults m) (hf : ∀ x, OnlyFaults (f x)) : OnlyFaults (m >>= f) :=
  fun s => (hm s).step (fun x t _ => hf x t) fun _ _ h => h

theorem OnlyFaults.forM {l : List α} {g : α → EStateM PageError σ Unit}
    (hg : ∀ x, OnlyFaults (g x)) : OnlyFaults (l.forM g) :=
  fun _ => Ends.forM_of_keeps (I := fun _ => True) (fun x _ t _ => hg x t) trivial

theorem onlyFaults_pure (x : α) : OnlyFaults (pure x : EStateM PageError σ α) :=
  fun _ => Ends.pure trivial

theorem onlyFaults_get : OnlyFaults (get : EStateM PageError σ σ) :=
  fun _ => Ends.get trivial

theorem onlyFaults_modify (g : σ → σ) : OnlyFaults (modify g : EStateM PageError σ Unit) :=
  fun _ => Ends.modify trivial

theorem onlyFaults_throw {e : PageError} (h : e.isFatal = true) :
    OnlyFaults (throw e : EStateM PageError σ α) :=
  fun _ => Ends.throw h

end

namespace Surgery

variable {α : Type}

theorem onlyFaults_ask {f : Arena → Except PageError α} (h : ∀ a, NeverRefuses (f a)) :
    OnlyFaults (ask f) :=
  fun a => ends_ask (fun _ _ => trivial) (h a)

theorem onlyFaults_look {f : Arena → Except Arena.Error α} : OnlyFaults (look f) :=
  onlyFaults_ask fun _ => neverRefuses_ofArena _

theorem onlyFaults_change {f : Arena → Except PageError Arena} (h : ∀ a, NeverRefuses (f a)) :
    OnlyFaults (change f) :=
  fun a => ends_change (fun _ _ => trivial) (h a)

theorem onlyFaults_make (p : Payload) : OnlyFaults (make p) :=
  fun _ => ends_make trivial

theorem onlyFaults_setPayload (id : NodeId) (p : Payload) : OnlyFaults (setPayload id p) :=
  fun _ => ends_setPayload trivial

theorem onlyFaults_setGlue (id : NodeId) (g : Glue) : OnlyFaults (setGlue id g) :=
  onlyFaults_change fun _ => neverRefuses_ofArena _

section

variable {a : Arena} {c n : NodeId}

theorem neverRefuses_position {items : List NodeId} : NeverRefuses (Arena.position c n items) := by
  unfold Arena.position
  split
  · exact neverRefuses_error rfl
  · split
    · exact neverRefuses_ok _
    · exact neverRefuses_error rfl

theorem neverRefuses_requireAbsent {items : List NodeId} :
    NeverRefuses (Arena.requireAbsent c n items) := by
  unfold Arena.requireAbsent
  split
  · exact neverRefuses_error rfl
  · exact neverRefuses_ok _

theorem neverRefuses_changeItems {change : List NodeId → Except PageError (List NodeId)}
    (h : ∀ items, NeverRefuses (change items)) :
    NeverRefuses (a.changeItems c change) :=
  neverRefuses_bind (neverRefuses_ofArena _) fun items => neverRefuses_bind (h items) fun _ =>
    neverRefuses_ok _

theorem neverRefuses_removeItem : NeverRefuses (a.removeItem c n) :=
  neverRefuses_changeItems fun _ => neverRefuses_bind neverRefuses_position fun _ => neverRefuses_ok _

theorem neverRefuses_replaceItem {old : NodeId} : NeverRefuses (a.replaceItem c old n) := by
  refine neverRefuses_changeItems fun _ => neverRefuses_bind neverRefuses_position fun i => ?_
  dsimp only
  split
  · exact neverRefuses_bind neverRefuses_requireAbsent fun _ => neverRefuses_ok _
  · exact neverRefuses_ok _

theorem neverRefuses_insertBefore {r : NodeId} : NeverRefuses (a.insertBefore c n r) :=
  neverRefuses_changeItems fun _ => neverRefuses_bind neverRefuses_position fun _ =>
    neverRefuses_bind neverRefuses_requireAbsent fun _ => neverRefuses_ok _

theorem neverRefuses_insertAfter {r : NodeId} : NeverRefuses (a.insertAfter c n r) :=
  neverRefuses_changeItems fun _ => neverRefuses_bind neverRefuses_position fun _ =>
    neverRefuses_bind neverRefuses_requireAbsent fun _ => neverRefuses_ok _

theorem neverRefuses_prependItem : NeverRefuses (a.prependItem c n) :=
  neverRefuses_changeItems fun _ => neverRefuses_bind neverRefuses_requireAbsent fun _ => neverRefuses_ok _

theorem neverRefuses_appendItem : NeverRefuses (a.appendItem c n) :=
  neverRefuses_changeItems fun _ => neverRefuses_bind neverRefuses_requireAbsent fun _ => neverRefuses_ok _

end

theorem onlyFaults_renewGlue (n : Nat) : ∀ id, OnlyFaults (renewGlue n id) := by
  induction n with
  | zero => exact fun id => onlyFaults_throw rfl
  | succ n ih =>
    intro id
    refine onlyFaults_look.bind fun payload => ?_
    split
    · exact onlyFaults_look.bind fun items => (OnlyFaults.forM ih).bind fun _ =>
        onlyFaults_setGlue _ _
    · exact onlyFaults_setGlue _ _
    · exact onlyFaults_setGlue _ _
    · exact onlyFaults_look.bind fun items => onlyFaults_setGlue _ _
    · exact onlyFaults_setGlue _ _
    · exact onlyFaults_setGlue _ _
    · exact onlyFaults_setGlue _ _
    · exact onlyFaults_pure _

theorem onlyFaults_addGlue (id : NodeId) : OnlyFaults (addGlue id) :=
  onlyFaults_get.bind fun _ => onlyFaults_renewGlue _ _

theorem neverRefuses_nativeContent {tag : String} {p : Payload} :
    NeverRefuses (nativeContent tag p) := by
  unfold nativeContent
  split
  · exact neverRefuses_ok _
  · exact neverRefuses_ok _
  · exact neverRefuses_ok _
  · exact neverRefuses_error rfl

theorem onlyFaults_makeElement (items : List NodeId) (name : String) (empty : Bool) :
    OnlyFaults (do
      let attributes ← make (.list [])
      let body ← make (.list items)
      let element ← make (.element name empty attributes body)
      setGlue element (Glue.element name empty)
      pure element) :=
  (onlyFaults_make _).bind fun _ => (onlyFaults_make _).bind fun _ => (onlyFaults_make _).bind fun _ =>
    (onlyFaults_setGlue _ _).bind fun _ => onlyFaults_pure _

theorem onlyFaults_toElement (kind : Kind) (native : NodeId) : OnlyFaults (toElement kind native) := by
  unfold toElement
  split
  · exact onlyFaults_throw rfl
  · refine onlyFaults_look.bind fun payload =>
      (onlyFaults_ask fun _ => neverRefuses_nativeContent).bind fun content => ?_
    cases content with
    | some content =>
      exact onlyFaults_look.bind fun items => (onlyFaults_setPayload _ _).bind fun _ =>
        (onlyFaults_pure _).bind fun _ => onlyFaults_makeElement _ _ _
    | none => exact (onlyFaults_pure _).bind fun _ => onlyFaults_makeElement _ _ _

theorem onlyFaults_encodeValue (value : String) : OnlyFaults (encodeValue value) :=
  fun a => (ends_encodeValue value a).mono (fun _ _ _ => trivial) fun _ _ h => h.elim

theorem onlyFaults_writeAttribute (list : NodeId) (name value : String) (node : Option NodeId) :
    OnlyFaults (writeAttribute list name value node) := by
  refine (onlyFaults_encodeValue value).bind fun items => ?_
  cases node with
  | none =>
    exact (onlyFaults_make _).bind fun _ => (onlyFaults_make _).bind fun _ =>
      (onlyFaults_setGlue _ _).bind fun _ =>
      (onlyFaults_change fun _ => neverRefuses_appendItem).bind fun _ => onlyFaults_pure _
  | some node =>
    refine OnlyFaults.bind (onlyFaults_look.bind fun payload => ?_) fun _ => onlyFaults_pure _
    split
    · refine onlyFaults_look.bind fun _ => onlyFaults_look.bind fun _ =>
        (onlyFaults_setPayload _ _).bind fun _ => (onlyFaults_setPayload _ _).bind fun _ => ?_
      split
      · exact onlyFaults_setGlue _ _
      · exact onlyFaults_pure _
    · exact onlyFaults_throw rfl

end Surgery

namespace Edit

variable {α β : Type} {p : Page}

theorem onlyFaults_ask {f : Page → Except PageError α} (h : ∀ p, NeverRefuses (f p)) :
    OnlyFaults (ask f) :=
  fun p => ends_ask (fun _ _ => trivial) (h p)

theorem onlyFaults_surgery {s : Surgery α} (h : OnlyFaults s) : OnlyFaults (surgery s) :=
  fun p => ends_surgery (h p.arena)

theorem onlyFaults_update (id : ElementId) (f : Element → Element) : OnlyFaults (update id f) :=
  fun _ => ends_update (fun _ _ => trivial) fun _ => rfl

theorem onlyFaults_make (e : Element) : OnlyFaults (make e) :=
  fun _ => ends_make trivial

section

variable (id : ElementId)

theorem onlyFaults_writeAttribute (name value : String) (node : Option NodeId) :
    OnlyFaults (writeAttribute id name value node) :=
  (onlyFaults_ask fun _ => Page.neverRefuses_attributeList id).bind fun _ =>
    onlyFaults_surgery (Surgery.onlyFaults_writeAttribute _ _ _ _)

theorem onlyFaults_writeUnwritten : OnlyFaults (writeUnwritten id) :=
  (onlyFaults_ask fun _ => Page.neverRefuses_get id).bind fun _ => OnlyFaults.forM fun _ =>
    (onlyFaults_writeAttribute id _ _ _).bind fun _ => onlyFaults_update id _

theorem onlyFaults_settle (content : Option NodeId) (tag : NodeId) :
    OnlyFaults (settle id content tag) := by
  refine (onlyFaults_update id _).bind fun _ => ?_
  cases content with
  | some content =>
    exact (onlyFaults_ask fun _ => Page.neverRefuses_childContainer id).bind fun _ =>
      (onlyFaults_modify _).bind fun _ => onlyFaults_writeUnwritten id
  | none => exact onlyFaults_writeUnwritten id

theorem onlyFaults_promoteMarkup (kind : Kind) (node : NodeId) :
    OnlyFaults (promoteMarkup id kind node) := by
  refine (onlyFaults_ask fun _ => Page.neverRefuses_place? id).bind fun container =>
    onlyFaults_get.bind fun p => (onlyFaults_surgery (Surgery.onlyFaults_toElement _ _)).bind
    fun tag => ?_
  cases container with
  | some container =>
    exact (onlyFaults_surgery (Surgery.onlyFaults_change fun _ =>
      Surgery.neverRefuses_replaceItem)).bind fun _ => onlyFaults_settle id _ _
  | none => exact onlyFaults_settle id _ _

theorem onlyFaults_dropLinks (kept : Option NodeId) : OnlyFaults (dropLinks id kept) := by
  refine (onlyFaults_ask fun _ => Page.neverRefuses_get id).bind fun e =>
    (onlyFaults_update id _).bind fun _ => OnlyFaults.forM fun placed => ?_
  split
  · exact onlyFaults_update id _
  · exact (onlyFaults_surgery (Surgery.onlyFaults_change fun _ =>
      Surgery.neverRefuses_removeItem)).bind fun _ => onlyFaults_modify _

theorem onlyFaults_appendCategoryLink (name : String) : OnlyFaults (appendCategoryLink name) :=
  onlyFaults_get.bind fun _ => onlyFaults_surgery <| (Surgery.onlyFaults_make _).bind fun _ =>
    (Surgery.onlyFaults_make _).bind fun _ => (Surgery.onlyFaults_addGlue _).bind fun _ =>
    (Surgery.onlyFaults_change fun _ => Surgery.neverRefuses_appendItem).bind fun _ =>
    onlyFaults_pure _

theorem onlyFaults_addLink (placed : PlacedLink) : OnlyFaults (addLink id placed) :=
  (onlyFaults_modify _).bind fun _ => onlyFaults_update id _

theorem onlyFaults_attachCategory (name : String) (placed : PlacedLink) :
    OnlyFaults (attachCategory id name placed) :=
  (onlyFaults_addLink id placed).bind fun _ => (onlyFaults_update id _).bind fun _ =>
    (onlyFaults_update _ _).bind fun _ => onlyFaults_modify _

theorem onlyFaults_makeCategory (name : String) : OnlyFaults (makeCategory name) :=
  fun _ => ends_makeCategory.mono (fun _ _ _ => trivial) fun _ _ h => h.elim

theorem onlyFaults_retitle (link : NodeId) (old : Option String) (new : String) :
    OnlyFaults (retitle id link old new) := by
  have index : OnlyFaults (modify fun p : Page =>
      { p with categories := p.categories.insert (categoryKey new) id }) := onlyFaults_modify _
  refine onlyFaults_get.bind fun p =>
    (onlyFaults_ask fun _ => Page.neverRefuses_payload link).bind fun payload => ?_
  cases payload with
  | link _ _ =>
    refine (onlyFaults_surgery (Surgery.onlyFaults_setPayload _ _)).bind fun _ =>
      (onlyFaults_surgery (Surgery.onlyFaults_addGlue _)).bind fun _ =>
      (onlyFaults_dropLinks id _).bind fun _ => ?_
    cases old with
    | some old => exact (onlyFaults_modify _).bind fun _ => index
    | none => exact index
  | _ => exact fun _ => Ends.bind (Ends.throw rfl)

theorem onlyFaults_renameLinks (old : Option String) (new : String) :
    OnlyFaults (renameLinks id old new) := by
  refine (onlyFaults_ask fun _ => Page.neverRefuses_get id).bind fun e => ?_
  split
  · exact onlyFaults_pure _
  · refine (onlyFaults_ask fun _ => neverRefuses_ofArena _).bind fun named => ?_
    split
    · exact onlyFaults_retitle id _ _ _
    · exact onlyFaults_pure _

theorem onlyFaults_renewLink : OnlyFaults (renewLink id) :=
  (onlyFaults_ask fun _ => Page.neverRefuses_storedName id).bind fun _ =>
    (onlyFaults_dropLinks id none).bind fun _ => (onlyFaults_appendCategoryLink _).bind fun _ =>
    onlyFaults_addLink id _

theorem onlyFaults_keepCategories (node : NodeId) : OnlyFaults (keepCategories node) :=
  (onlyFaults_ask fun _ => neverRefuses_bind (neverRefuses_ofArena _) fun _ =>
    neverRefuses_ok _).bind fun _ => OnlyFaults.forM onlyFaults_renewLink

theorem onlyFaults_retarget (new : String) : OnlyFaults (retarget id new) := by
  refine (onlyFaults_ask fun _ => Page.neverRefuses_backingNode id).bind fun link =>
    (onlyFaults_ask fun _ => Page.neverRefuses_payload link).bind fun payload => ?_
  have rest := onlyFaults_surgery (Surgery.onlyFaults_addGlue link)
  cases payload with
  | link _ _ => exact (onlyFaults_surgery (Surgery.onlyFaults_setPayload _ _)).bind fun _ => rest
  | _ => exact (onlyFaults_throw rfl).bind fun _ => rest

theorem onlyFaults_react (old : Option String) (new : String) (r : Option Reaction) :
    OnlyFaults (react id old new r) := by
  rcases r with _ | _ | _
  · exact onlyFaults_pure _
  · rw [react]
    split
    · exact onlyFaults_pure _
    · exact onlyFaults_retarget id new
  · exact onlyFaults_renameLinks id old new

theorem onlyFaults_refreshGlue : OnlyFaults (refreshGlue id) := by
  refine (onlyFaults_ask fun _ => Page.neverRefuses_get id).bind fun e => ?_
  split
  · exact onlyFaults_pure _
  · refine (onlyFaults_ask fun _ => Page.neverRefuses_neededGlue? _).bind fun needed => ?_
    split
    · exact onlyFaults_pure _
    · exact onlyFaults_surgery ((Surgery.onlyFaults_setPayload _ _).bind fun _ =>
        Surgery.onlyFaults_setGlue _ _)

theorem onlyFaults_insertNode (container node : NodeId) (position : Position) :
    OnlyFaults (insertNode container node position) := by
  cases position with
  | first =>
    exact onlyFaults_surgery (Surgery.onlyFaults_change fun _ => Surgery.neverRefuses_prependItem)
  | last =>
    exact onlyFaults_surgery (Surgery.onlyFaults_change fun _ => Surgery.neverRefuses_appendItem)
  | before reference =>
    exact (onlyFaults_ask fun _ => Page.neverRefuses_backingNode _).bind fun _ =>
      onlyFaults_surgery (Surgery.onlyFaults_change fun _ => Surgery.neverRefuses_insertBefore)
  | after reference =>
    exact (onlyFaults_ask fun _ => Page.neverRefuses_backingNode _).bind fun _ =>
      onlyFaults_surgery (Surgery.onlyFaults_change fun _ => Surgery.neverRefuses_insertAfter)

end

theorem onlyFaults_createMarkup (kind : Kind) (payload : Payload) :
    OnlyFaults (createMarkup kind payload) :=
  (onlyFaults_surgery ((Surgery.onlyFaults_make _).bind fun _ => (Surgery.onlyFaults_addGlue _).bind
    fun _ => onlyFaults_pure _)).bind fun _ => onlyFaults_make _

theorem onlyFaults_createContaining (kind : Kind) (payload : NodeId → Payload) :
    OnlyFaults (createContaining kind payload) :=
  (onlyFaults_surgery (Surgery.onlyFaults_make _)).bind fun _ => onlyFaults_createMarkup _ _

/-- Wherever the edit is refused, the page is as it was. -/
abbrev Atomic (m : Edit α) (p : Page) : Prop :=
  Ends m p (fun _ _ => True) fun e q => e.isFatal = true ∨ q = p

theorem atomic_of_onlyFaults {m : Edit α} (h : OnlyFaults m) : Atomic m p :=
  (h p).mono (fun _ _ _ => trivial) fun _ _ he => .inl he

theorem atomic_ask {f : Page → Except PageError α} {g : α → Edit β} (hg : ∀ x, Atomic (g x) p) :
    Atomic (ask f >>= g) p :=
  Ends.bind (ends_ask (fun x _ => hg x) fun _ _ => .inr rfl)

/-- After the steps that may be refused come those that only a fault can stop. -/
theorem Atomic.bind {m : Edit α} {f : α → Edit β} (hm : Atomic m p) (hf : ∀ x, OnlyFaults (f x)) :
    Atomic (m >>= f) p :=
  hm.step (fun x q _ => (hf x q).mono (fun _ _ _ => trivial) fun _ _ he => .inl he) fun _ _ he => he

theorem atomic_pure (x : α) : Atomic (pure x) p :=
  Ends.pure trivial

theorem atomic_throw (e : PageError) : Atomic (throw e : Edit α) p :=
  Ends.throw (.inr rfl)

section

variable (id : ElementId) (name : String)

theorem atomic_promote : Atomic (promote id) p := by
  refine atomic_ask fun e => ?_
  split
  · exact atomic_of_onlyFaults (onlyFaults_promoteMarkup id _ _)
  · exact atomic_pure _
  · exact atomic_throw _

theorem atomic_writeValue (key value : String) : Atomic (writeValue id key value) p :=
  atomic_ask fun _ => (atomic_promote id).bind fun _ =>
    (onlyFaults_ask fun _ => Page.neverRefuses_attribute? id key).bind fun _ =>
    onlyFaults_writeAttribute id _ _ _

theorem atomic_commit (policy : Policy) (key value : String) :
    Atomic (commit id policy key value) p := by
  refine atomic_ask fun stored => ?_
  have store (node : Option NodeId) : OnlyFaults (do
      update id fun e => { e with attributes := Attribute.put e.attributes ⟨key, value, node⟩ }
      pure (stored.map Attribute.value)) :=
    (onlyFaults_update id _).bind fun _ => onlyFaults_pure _
  split
  · exact Atomic.bind (Ends.map (atomic_writeValue id key value)) store
  · exact atomic_of_onlyFaults (store _)

theorem atomic_assign (value : String) : Atomic (assign id name value) p :=
  atomic_ask fun _ => atomic_commit id _ _ _

theorem atomic_removeAttribute : Atomic (removeAttribute id name) p := by
  refine atomic_ask fun policy => ?_
  have erase (a : Attribute) : OnlyFaults (do
      update id fun e => { e with attributes := Attribute.erase e.attributes a.name }
      pure (some a.value)) :=
    (onlyFaults_update id _).bind fun _ => onlyFaults_pure _
  split
  · exact Ends.bind (Ends.throw (.inr rfl))
  · refine atomic_ask fun a => ?_
    cases a with
    | none => exact atomic_pure _
    | some a =>
      obtain ⟨_, _, node⟩ := a
      cases node with
      | none => exact atomic_of_onlyFaults (erase _)
      | some node =>
        exact atomic_ask fun list => atomic_of_onlyFaults <| (onlyFaults_surgery
          (Surgery.onlyFaults_change fun _ => Surgery.neverRefuses_removeItem)).bind fun _ => erase _

theorem atomic_setAttribute (value : String) : Atomic (setAttribute id name value) p := by
  refine atomic_ask fun policy => atomic_ask fun verified => ?_
  cases verified with
  | none => exact atomic_removeAttribute id name
  | some verified =>
    exact (atomic_commit id _ _ _).bind fun _ => (onlyFaults_react id _ _ _).bind fun _ =>
      onlyFaults_pure _

theorem atomic_setOrRemove (value : Option String) : Atomic (setOrRemove id name value) p := by
  cases value with
  | some value => exact (atomic_setAttribute id name value).bind fun _ => onlyFaults_pure _
  | none => exact (atomic_removeAttribute id name).bind fun _ => onlyFaults_pure _

end

theorem atomic_insertChild (parent child : ElementId) (position : Position) :
    Atomic (insertChild parent child position) p :=
  atomic_ask fun _ => atomic_ask fun _ => atomic_ask fun _ => atomic_ask fun _ =>
    atomic_of_onlyFaults <| (onlyFaults_insertNode _ _ _).bind fun _ =>
    (onlyFaults_update _ _).bind fun _ => (onlyFaults_update _ _).bind fun _ =>
    onlyFaults_refreshGlue parent

theorem atomic_removeChild (parent child : ElementId) : Atomic (removeChild parent child) p :=
  atomic_ask fun _ => atomic_ask fun _ => atomic_ask fun _ => atomic_ask fun node =>
    atomic_of_onlyFaults <|
    (onlyFaults_surgery (Surgery.onlyFaults_change fun _ => Surgery.neverRefuses_removeItem)).bind
    fun _ => (onlyFaults_update _ _).bind fun _ => (onlyFaults_update _ _).bind fun _ =>
    (onlyFaults_refreshGlue parent).bind fun _ => onlyFaults_keepCategories node

theorem atomic_replaceChild (parent new old : ElementId) : Atomic (replaceChild parent new old) p :=
  atomic_ask fun _ => atomic_ask fun _ => atomic_ask fun _ => atomic_ask fun node =>
    atomic_ask fun _ => atomic_of_onlyFaults <|
    (onlyFaults_surgery (Surgery.onlyFaults_change fun _ => Surgery.neverRefuses_replaceItem)).bind
    fun _ => (onlyFaults_update _ _).bind fun _ => (onlyFaults_update _ _).bind fun _ =>
    (onlyFaults_update _ _).bind fun _ =>
    (onlyFaults_refreshGlue parent).bind fun _ => onlyFaults_keepCategories node

theorem atomic_requireKind (id : ElementId) (kind : Kind) (refusal : Kind → Unsupported) {f : Edit β}
    (hf : Atomic f p) : Atomic (requireKind id kind refusal >>= fun _ => f) p := by
  refine Ends.bind (Ends.bind (ends_ask (fun found _ => ?_) fun _ _ => .inr rfl))
  split
  · exact Ends.pure hf
  · exact Ends.throw (.inr rfl)

theorem onlyFaults_replaceText (id : ElementId) (node : NodeId) (s : String) :
    OnlyFaults (replaceText id node s) := by
  refine (onlyFaults_ask fun _ => Page.neverRefuses_place? id).bind fun container =>
    (onlyFaults_surgery (Surgery.onlyFaults_make _)).bind fun new => ?_
  cases container with
  | some container =>
    exact (onlyFaults_surgery (Surgery.onlyFaults_change fun _ =>
      Surgery.neverRefuses_replaceItem)).bind fun _ => onlyFaults_update id _
  | none => exact onlyFaults_update id _

theorem atomic_setText (id : ElementId) (s : String) : Atomic (setText id s) p := by
  refine atomic_requireKind id _ _ (atomic_ask fun node => atomic_ask fun payload => ?_)
  split
  · exact atomic_of_onlyFaults (onlyFaults_surgery (Surgery.onlyFaults_setPayload _ _))
  · exact atomic_of_onlyFaults (onlyFaults_replaceText id _ _)

theorem atomic_setComment (id : ElementId) (s : String) : Atomic (setComment id s) p := by
  refine atomic_requireKind id _ _ (atomic_ask fun _ => atomic_ask fun node =>
    atomic_ask fun payload => ?_)
  have glue := onlyFaults_surgery (Surgery.onlyFaults_setGlue node (Glue.comment s))
  cases payload with
  | comment _ =>
    exact atomic_of_onlyFaults <| (onlyFaults_surgery (Surgery.onlyFaults_setPayload _ _)).bind
      fun _ => glue
  | _ => exact atomic_of_onlyFaults glue

/-- A link has been checked before it is made, and it has a policy for its target. -/
theorem atomic_createLink (target : String) : Atomic (createLink target) p := by
  refine atomic_ask fun target => ?_
  have kinded : Ends (createContaining .link (.link target)) p
      (fun id q => ∃ e, q.find? id = some e ∧ e.kind = .link) fun e _ => e.isFatal = true := by
    refine ((onlyFaults_surgery (Surgery.onlyFaults_make _)) p).step (fun content q _ => ?_)
      fun _ _ he => he
    refine ((onlyFaults_surgery ((Surgery.onlyFaults_make _).bind fun _ =>
      (Surgery.onlyFaults_addGlue _).bind fun _ => onlyFaults_pure _)) q).step (fun node q _ => ?_)
      fun _ _ he => he
    exact ends_make ⟨_, by rw [Page.find?_push, if_pos rfl], rfl⟩
  refine kinded.step (fun id q hid => ?_) fun _ _ he => .inl he
  obtain ⟨e, he, hk⟩ := hid
  have hpolicy : q.policy id "target" = .ok
      { name := "target", verifier := .linkTarget, removable := false, synced := false,
        reaction := some .retarget } := by
    have hf : Policy.find? .link "target" = some
      { name := "target", verifier := .linkTarget, removable := false, synced := false,
        reaction := some .retarget } := by decide +kernel
    simp [Page.policy, Page.kind, Page.get_eq_ok_iff.2 he, Except.map, bind, Except.bind, hk, hf]
  refine Ends.bind (Ends.bind (ends_ask (fun policy hp => ?_) fun e' he' => ?_))
  · obtain rfl := Except.ok.inj (hpolicy.symm.trans hp)
    refine (ends_commit_of_unsynced rfl).mono (fun _ _ _ => Ends.pure trivial) ?_
    rintro _ _ ⟨-, hn⟩
    cases hn.symm.trans he
  · cases hpolicy.symm.trans he'

theorem atomic_addCategory (name : String) : Atomic (addCategory name) p :=
  atomic_ask fun _ => atomic_of_onlyFaults <| (onlyFaults_makeCategory _).bind fun id =>
    (onlyFaults_appendCategoryLink _).bind fun placed => (onlyFaults_attachCategory id _ placed).bind
    fun _ => onlyFaults_pure _

theorem atomic_removeCategory (name : String) : Atomic (removeCategory name) p :=
  atomic_ask fun id => atomic_of_onlyFaults <| (onlyFaults_dropLinks id none).bind fun _ =>
    (onlyFaults_ask fun _ => Page.neverRefuses_storedName id).bind fun _ =>
    (onlyFaults_modify _).bind fun _ => (onlyFaults_update _ _).bind fun _ =>
    (onlyFaults_update _ _).bind fun _ => onlyFaults_pure _

theorem atomic_renameCategory (old new : String) : Atomic (renameCategory old new) p :=
  atomic_ask fun id => (atomic_setAttribute id "name" new).bind fun _ => onlyFaults_pure _

end Edit

namespace Act

open Edit

theorem atomic_edit (act : Act) (p : Page) : Atomic act.edit p := by
  have quiet {α : Type} {m : Edit α} (hm : Atomic m p) : Atomic (m >>= fun _ => pure ()) p :=
    hm.bind fun _ => onlyFaults_pure _
  cases act with
  | createParagraph => exact quiet (atomic_of_onlyFaults (onlyFaults_createContaining _ _))
  | createBold => exact quiet (atomic_of_onlyFaults (onlyFaults_createContaining _ _))
  | createItalics => exact quiet (atomic_of_onlyFaults (onlyFaults_createContaining _ _))
  | createRule => exact quiet (atomic_of_onlyFaults (onlyFaults_createMarkup _ _))
  | createDiv =>
    exact quiet <| atomic_of_onlyFaults <| (onlyFaults_surgery <| (Surgery.onlyFaults_make _).bind
      fun _ => (Surgery.onlyFaults_make _).bind fun _ => (Surgery.onlyFaults_make _).bind fun _ =>
      (Surgery.onlyFaults_addGlue _).bind fun _ => onlyFaults_pure _).bind fun _ => onlyFaults_make _
  | createLink target => exact quiet (atomic_createLink target)
  | createText s =>
    exact quiet <| atomic_of_onlyFaults <| (onlyFaults_surgery (Surgery.onlyFaults_make _)).bind
      fun _ => onlyFaults_make _
  | createComment s =>
    exact quiet <| atomic_ask fun _ => atomic_of_onlyFaults (onlyFaults_createMarkup _ _)
  | insertChild parent child position => exact atomic_insertChild parent child position
  | removeChild parent child => exact atomic_removeChild parent child
  | replaceChild parent new old => exact atomic_replaceChild parent new old
  | setText id s => exact atomic_setText id s
  | setComment id s => exact atomic_setComment id s
  | setAttribute id name value => exact quiet (atomic_setAttribute id name value)
  | removeAttribute id name => exact quiet (atomic_removeAttribute id name)
  | assign id name value => exact quiet (atomic_assign id name value)
  | promote id => exact atomic_promote id
  | addCategory name => exact quiet (atomic_addCategory name)
  | renameCategory old new => exact atomic_renameCategory old new
  | removeCategory name => exact quiet (atomic_removeCategory name)
  | setTitle title => exact atomic_setOrRemove Page.root "title" (some title)
  | setNamespace name => exact atomic_setOrRemove Page.root "namespace" name
  | setPath path => exact atomic_setOrRemove Page.root "path" path
  | setAlignment id alignment => exact atomic_setOrRemove id "align" _
  | setNoShade id on => exact atomic_ask fun _ => atomic_setOrRemove _ _ _
  | setThickness id pixels => exact atomic_ask fun _ => atomic_setOrRemove _ _ _
  | setWidth id width => exact atomic_ask fun _ => atomic_setOrRemove _ _ _
  | setLinkTarget id target => exact atomic_ask fun _ => atomic_setOrRemove _ _ _
  | setCategoryName id name => exact atomic_ask fun _ => atomic_setOrRemove _ _ _
  | setUniversal id name value => exact atomic_setOrRemove _ _ _

/-- An act that is refused, for whatever reason but a fault, leaves all of the page as it was: the
nodes and their glue, the elements, the categories and the links that back them. -/
theorem page_eq_of_refused {act : Act} {p q : Page} {e : PageError}
    (h : act.edit p = .error e q) (he : e.isFatal = false) : q = p := by
  have ha := act.atomic_edit p
  simpa [Atomic, Ends, h, he] using ha

/-- A page with a text in a paragraph, in two categories. -/
def filedTwice : Page :=
  run [.createParagraph, .createText "a", .insertChild ⟨2⟩ ⟨3⟩ .last, .insertChild Page.body ⟨2⟩ .last,
    .addCategory "Foo", .addCategory "Bar"] (Page.ofDrafts .new .default "Test" [])

/-- The category is there, and the name that it is to go by is valid but taken. -/
theorem page_eq_of_refused_renameCategory :
    filedTwice.source = .ok "\n\na[[Category:Foo]][[Category:Bar]]" ∧
      ∃ q, (Act.renameCategory "foo" "bar").edit filedTwice = .error (.nameCollision "bar") q ∧
        (PageError.nameCollision "bar").isFatal = false ∧ q = filedTwice := by
  have hrun : filedTwice.source = .ok "\n\na[[Category:Foo]][[Category:Bar]]" ∧
      (Act.renameCategory "foo" "bar").edit.exec filedTwice = .error (.nameCollision "bar") := by
    decide +kernel
  obtain ⟨hsource, hexec⟩ := hrun
  obtain ⟨q, hq⟩ := Edit.exists_of_exec_error hexec
  exact ⟨hsource, q, hq, rfl, page_eq_of_refused hq rfl⟩

end Act
end WikiPage
