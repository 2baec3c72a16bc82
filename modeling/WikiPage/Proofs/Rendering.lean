import WikiPage.Content
import WikiPage.Proofs.Growing
import WikiPage.Proofs.Opening
import WikiPage.Proofs.Targets

/-!
# Content as it is written

What is made for a description of content is accepted where every part of it is, and is then written as
the description says. The elements are made from the bottom up: a child is complete before it is put into
its parent. So a page that is built from a description is the description of each of its parts, one after
the other, and it is built where each of them is accepted.
-/

namespace WikiPage

namespace Content

def kind : Content → Kind
  | text _ => .text
  | comment _ => .comment
  | paragraph _ => .paragraph
  | bold _ => .bold
  | italics _ => .italics
  | div _ => .div
  | rule => .rule
  | link _ _ => .link

mutual

/-- The wikitext of a content. -/
def render : Content → String
  | text s => s
  | comment s => "<!--" ++ s ++ "-->"
  | paragraph items => "\n\n" ++ renderAll items
  | bold items => "'''" ++ renderAll items ++ "'''"
  | italics items => "''" ++ renderAll items ++ "''"
  | div items => "<div>" ++ renderAll items ++ "</div>"
  | rule => "\n----\n"
  | link target title => "[[" ++ Text.onChars Text.trim target ++
      (if title.isEmpty then "" else "|" ++ renderAll title) ++ "]]"

def renderAll : List Content → String
  | [] => ""
  | c :: cs => render c ++ renderAll cs

end

mutual

/-- Whether the texts and the targets in a content are accepted, and every item by what it stands in. -/
def accepted (site : Site) : Content → Bool
  | text _ => true
  | comment s => Valid.isCommentText s
  | paragraph items => acceptedIn site .paragraph items
  | bold items => acceptedIn site .bold items
  | italics items => acceptedIn site .italics items
  | div items => acceptedIn site .div items
  | rule => true
  | link target title =>
    (Verifier.checkLinkTarget site target).isOk && acceptedIn site .link title

def acceptedIn (site : Site) (parent : Kind) : List Content → Bool
  | [] => true
  | c :: cs => accepted site c && parent.holds c.kind && acceptedIn site parent cs

end

end Content

namespace Content

open Edit

variable {p q : Page} {x : ElementId} {c : NodeId} {kind : Kind} {payload : Payload}

/-- What is made for a content is accepted where every part of it is, and is written as the content is. -/
def Creates (content : Content) : Prop :=
  ∀ p : Page, p.Synced → Ends (create content) p
    (fun x q => content.accepted p.site = true ∧ p.Spawns content.kind content.render x q)
    fun _ _ => content.accepted p.site = false

/-- Contents are accepted at the end of an element where every part of them is, and written as they are. -/
def CreatesAll (x : ElementId) (contents : List Content) : Prop :=
  ∀ (p : Page) (e : Element) (c : NodeId), p.Synced → p.find? x = some e →
    p.container? x = some c → Ends (appendTo x contents) p
      (fun _ q => acceptedIn p.site e.kind contents = true ∧
        ∃ new, new.isEmpty = contents.isEmpty ∧ p.Appends x c new (renderAll contents) q)
      fun _ _ => acceptedIn p.site e.kind contents = false

theorem kind_ne_body (content : Content) : content.kind ≠ .body := by
  cases content <;> simp [kind]

theorem checkMovable_kind (content : Content) : Page.checkMovable content.kind = .ok () := by
  cases content <;> rfl

theorem ends_appendTo_started {items : List Content} (hi : CreatesAll x items)
    (hs : p.Starts kind payload x q) (hv : payload.IsVessel c) :
    Ends (appendTo x items >>= fun _ => pure x) q
      (fun y r => acceptedIn p.site kind items = true ∧
        p.Spawns kind (payload.written (!items.isEmpty) (renderAll items)) y r)
      fun _ _ => acceptedIn p.site kind items = false := by
  obtain ⟨e, he, rfl, -⟩ := hs.element
  have hsite : q.site = p.site := hs.calm.site
  refine (hi q e c hs.calm.synced he (hs.container.trans hv.container)).step (fun _ r hr => ?_)
    fun _ _ he => hsite ▸ he
  obtain ⟨hacc, new, hnew, hr⟩ := hr
  exact Ends.pure ⟨hsite ▸ hacc, hnew ▸ hs.spawns_of_appends hv hr⟩

theorem ends_create_vessel {items : List Content} {m : Edit ElementId} (hi : ∀ x, CreatesAll x items)
    (hm : Ends m p (fun x q => p.Starts kind payload x q) fun _ _ => False) (hv : payload.IsVessel c) :
    Ends (m >>= fun x => appendTo x items >>= fun _ => pure x) p
      (fun y r => acceptedIn p.site kind items = true ∧
        p.Spawns kind (payload.written (!items.isEmpty) (renderAll items)) y r)
      fun _ _ => acceptedIn p.site kind items = false :=
  hm.step (fun _ _ hs => ends_appendTo_started (hi _) hs hv) fun _ _ hf => hf.elim

theorem Creates.vessel {items : List Content} {content : Content} {m : Edit ElementId}
    {payload : Page → Payload} {c : Page → NodeId} (hi : ∀ x, CreatesAll x items)
    (hm : ∀ p : Page, p.Synced →
      Ends m p (fun x q => p.Starts content.kind (payload p) x q) fun _ _ => False)
    (hv : ∀ p, (payload p).IsVessel (c p))
    (hcreate : create content = m >>= fun x => appendTo x items >>= fun _ => pure x)
    (haccepted : ∀ site, content.accepted site = acceptedIn site content.kind items)
    (hrender : ∀ p, content.render = (payload p).written (!items.isEmpty) (renderAll items)) :
    Creates content := by
  intro p h
  rw [hcreate, haccepted, hrender p]
  exact ends_create_vessel hi (hm p h) (hv p)

theorem Creates.containing {items : List Content} {content : Content} {payload : NodeId → Payload}
    (hi : ∀ x, CreatesAll x items)
    (hm : ∀ {p : Page}, p.Synced → Makes content.kind (createContaining content.kind payload) p p)
    (hs : ∀ n, (payload n).slots = [(n, .content)]) (hv : ∀ n, (payload n).IsVessel n)
    (hcreate : create content =
      createContaining content.kind payload >>= fun x => appendTo x items >>= fun _ => pure x)
    (haccepted : ∀ site, content.accepted site = acceptedIn site content.kind items)
    (hrender : ∀ n, content.render = (payload n).written (!items.isEmpty) (renderAll items)) :
    Creates content :=
  .vessel hi (fun _ h => starts_createContaining (hm h) hs hv (kind_ne_body _)) (fun _ => hv _) hcreate
    haccepted fun _ => hrender _

theorem creates_text (s : String) : Creates (.text s) := by
  intro p h
  rw [create]
  refine (starts_createText h s).mono (fun x q hs => ⟨rfl, hs.spawns fun n hn => ?_⟩) fun _ _ hf => hf.elim
  rw [hs.calm.synced.sound.founded.print_eq hn]
  rfl

theorem creates_comment (s : String) : Creates (.comment s) := by
  intro p h
  rw [create]
  refine (starts_createComment h s).mono (fun x q hs => ⟨hs.1, hs.2.spawns fun n hn => ?_⟩) fun _ _ he => he
  rw [hs.2.calm.synced.sound.founded.print_eq hn]
  simp [Payload.madeGlue, Glue.comment, Payload.children, Node.interleave, render]

theorem creates_rule : Creates .rule := by
  intro p h
  rw [create]
  refine (starts_createRule h).mono (fun x q hs => ⟨rfl, hs.spawns fun n hn => ?_⟩) fun _ _ hf => hf.elim
  rw [hs.calm.synced.sound.founded.print_eq hn]
  rfl

theorem creates_link (target : String) {title : List Content} (hi : ∀ x, CreatesAll x title) :
    Creates (.link target title) := by
  intro p h
  rw [create]
  refine (starts_createLink h target).step (fun x q hs => ?_) fun _ _ he => ?_
  · obtain ⟨t, ht, hs⟩ := hs
    obtain ⟨rfl, -⟩ := Site.leadsToPage_of_checkLinkTarget ht
    refine (ends_appendTo_started (hi x) hs ⟨rfl, Verifier.pipe_not_mem ht⟩).mono (fun y r hr => ⟨?_, ?_⟩)
      fun _ _ he => ?_
    · rw [accepted, ht, hr.1]
      rfl
    · have hw : (Payload.link (Text.onChars Text.trim target) p.arena.next).written (!title.isEmpty)
          (renderAll title) = render (.link target title) := by
        rw [Payload.written, render]
        cases title <;> simp [renderAll, String.append_assoc]
      exact hw ▸ hr.2
    · rw [accepted, he, Bool.and_false]
  · rw [accepted, he, Bool.false_and]

theorem createsAll_nil (x : ElementId) : CreatesAll x [] := by
  intro p e c h hx hc
  rw [appendTo]
  exact Ends.pure ⟨rfl, [], rfl, .refl h hc⟩

theorem createsAll_cons [Entities] (x : ElementId) {content : Content} {contents : List Content} (hc : Creates content)
    (hcs : CreatesAll x contents) : CreatesAll x (content :: contents) := by
  intro p e c h hx hcont
  rw [appendTo]
  refine (hc p h).step (fun y q hs => ?_)
    fun _ _ he => by rw [acceptedIn, he, Bool.false_and, Bool.false_and]
  refine (ends_insertChild_spawned h hcont hx hs.2 (checkMovable_kind content)).step (fun _ r hr => ?_)
    fun _ _ he => by rw [acceptedIn, he, Bool.and_false, Bool.false_and]
  obtain ⟨hholds, n, hr⟩ := hr
  obtain ⟨ch, hx'⟩ := hr.self hx
  refine (hcs r _ c hr.calm.synced hx' hr.container).mono (fun _ u hu => ⟨?_, ?_⟩) fun _ _ he => ?_
  · rw [acceptedIn, hs.1, hholds, ← hr.calm.site, hu.1]
    rfl
  · obtain ⟨new, -, hu⟩ := hu.2
    exact ⟨n :: new, rfl, hr.trans h hcont hu⟩
  · rw [hr.calm.site] at he
    rw [acceptedIn, he, Bool.and_false]

theorem creates_and_createsAll [Entities] :
    (∀ content, Creates content) ∧ ∀ (x : ElementId) contents, CreatesAll x contents := by
  refine create.mutual_induct (fun content => Creates content) (fun x contents => CreatesAll x contents)
    ?text ?comment ?rule ?paragraph ?bold ?italics ?div ?link ?nil ?cons
  case text => exact creates_text
  case comment => exact creates_comment
  case rule => exact creates_rule
  case paragraph =>
    exact fun items hi =>
      .containing hi makes_createParagraph (fun _ => rfl) (fun _ => rfl) rfl (fun _ => rfl) fun _ => rfl
  case bold =>
    exact fun items hi =>
      .containing hi makes_createBold (fun _ => rfl) (fun _ => rfl) rfl (fun _ => rfl) fun _ => rfl
  case italics =>
    exact fun items hi =>
      .containing hi makes_createItalics (fun _ => rfl) (fun _ => rfl) rfl (fun _ => rfl) fun _ => rfl
  case div =>
    refine fun items hi =>
      .vessel hi (fun p h => starts_createDiv h) (fun _ => ⟨rfl, rfl⟩) rfl (fun _ => rfl) fun p => ?_
    have hopen : "<" ++ "div" ++ ">" = "<div>" := by decide
    have hclose : "</" ++ "div" ++ ">" = "</div>" := by decide
    rw [render, Payload.written, hopen, hclose]
  case link => exact fun target title hi => creates_link target hi
  case nil => exact createsAll_nil
  case cons => exact fun x content contents hc hcs => createsAll_cons x hc hcs

end Content

namespace Edit

variable {p : Page} {name value : String} {policy : Policy}

theorem ends_setOrRemove_root (h : p.Synced) (hpolicy : Policy.find? .page name = some policy)
    (hs : policy.synced = false) (hremovable : policy.removable = true)
    (hreaction : policy.reaction = none) :
    Ends (setOrRemove Page.root name (some value)) p
      (fun _ q => (p.verify Page.root value policy.verifier).isOk = true ∧ p.Calm q ∧ q.arena = p.arena)
      fun _ _ => (p.verify Page.root value policy.verifier).isOk = false := by
  have hroot := h.root_form
  obtain ⟨e, he, hk, -⟩ := Page.find?_of_form? hroot
  have hp : p.policy Page.root name = .ok policy := by
    simp [Page.policy, Page.kind_of_find? he, hk, bind, Except.bind, hpolicy]
  have hset : Ends (setAttribute Page.root name value) p
      (fun _ q => (p.verify Page.root value policy.verifier).isOk = true ∧ q.arena = p.arena)
      fun _ _ => (p.verify Page.root value policy.verifier).isOk = false := by
    refine Ends.bind (ends_ask (fun policy' hp' => ?_) fun _ he => by cases he.symm.trans hp)
    obtain rfl := Except.ok.inj (hp.symm.trans hp')
    refine Ends.bind (ends_ask (fun verified hv => ?_) fun _ he => by rw [he]; rfl)
    cases verified with
    | none =>
      refine (ends_removeAttribute_run h).mono (fun _ q hq => ⟨by rw [hv]; rfl, ?_⟩) fun _ _ he => ?_
      · obtain ⟨e', policy', -, -, -, hstrikes⟩ := hq
        cases hstrikes with
        | absent => rfl
        | stored => rfl
        | written _ _ hc _ =>
          rw [Page.attributeList?_of_form? hroot] at hc
          cases hc
      · rcases he.2 with he | ⟨policy', hp', hno, -⟩
        · cases he.symm.trans hp
        · obtain rfl := Except.ok.inj (hp.symm.trans hp')
          cases hno.symm.trans hremovable
    | some verified =>
      refine (ends_commit_of_unsynced hs).step (fun old q hq => ?_)
        fun _ _ hq => by cases hq.2.symm.trans he
      obtain ⟨e', -, -, rfl⟩ := hq
      rw [hreaction]
      exact Ends.bind (Ends.pure (Ends.pure ⟨by rw [hv]; rfl, rfl⟩))
  exact (hset.and (isCalm_setAttribute h (not_isCategory h hroot))).step
    (fun _ q hq => Ends.pure ⟨hq.1.1, hq.2, hq.1.2⟩) fun _ _ he => he.1

end Edit

namespace Page

variable {p q : Page} {text : String} {name : String} {id : ElementId} {l : PlacedLink}

/-- The page is written as a text, that of the list of its content. -/
structure Displays (p : Page) (text : String) : Prop where
  synced : p.Synced
  page : p.arena.find? Arena.root = some ⟨.page p.arena.content, none⟩
  print : p.arena.print p.arena.content = .ok text

theorem Displays.source_eq (h : p.Displays text) : p.source = .ok text := by
  rw [Page.source, h.synced.sound.founded.printPage_eq h.page h.print]
  rfl

/-- Whether a page can be put into categories of these names, one after the other. -/
def TakesCategories (p : Page) (names : List String) : Prop :=
  (∀ name ∈ names, Valid.isCategory (normalizeTitle name) = true ∧ p.hasCategory name = false) ∧
    (names.map categoryKey).Nodup

theorem hasCategory_normalizeTitle (p : Page) (name : String) :
    p.hasCategory (normalizeTitle name) = p.hasCategory name := by
  rw [hasCategory, hasCategory, category?, category?, categoryKey_normalizeTitle]

theorem takesCategories_cons {names : List String}
    (hq : ∀ other, q.hasCategory other =
      (decide (categoryKey other = categoryKey name) || p.hasCategory other)) :
    p.TakesCategories (name :: names) ↔
      (Valid.isCategory (normalizeTitle name) = true ∧ p.hasCategory name = false) ∧
        q.TakesCategories names := by
  simp only [TakesCategories, List.forall_mem_cons, List.map_cons, List.nodup_cons, List.mem_map, hq,
    Bool.or_eq_false_iff, decide_eq_false_iff_not]
  grind

def renderCategories (site : Site) : List String → String
  | [] => ""
  | name :: names =>
    "[[" ++ site.categoryPrefix ++ ":" ++ normalizeTitle name ++ "]]" ++ renderCategories site names

theorem Displays.appendedLink (hd : p.Displays text) (hl : p.AppendedLink name l q) (hs : q.Synced) :
    q.Displays (text ++ ("[[" ++ Edit.categoryTarget p name ++ "]]")) := by
  have h := hd.synced
  obtain ⟨items, hi⟩ := h.find?_container h.body_container
  have hlt := Arena.index_lt_of_find? hi
  have hroot : q.arena.find? Arena.root = some ⟨.page p.arena.content, none⟩ := by
    rw [hl.find?_old h (Arena.index_lt_of_find? hd.page), hd.page]
    intro he
    cases (he ▸ hd.page).symm.trans hi
  have hcontent := Arena.content_eq hroot
  have hkids : p.arena.kids p.arena.content = items := Arena.kids_of_find? hi
  have hitems : q.arena.find? p.arena.content = some ⟨.list (items ++ [l.link]), none⟩ :=
    hkids ▸ hl.find?_content h
  have hag : p.arena.AgreesBut q.arena fun m => m = p.arena.content := fun m d hm hf =>
    (hl.find?_old h (Arena.index_lt_of_find? hf) hm).trans hf
  have hf := hs.sound.founded
  have hold : Node.joined (items.map q.arena.print) = .ok text := by
    rw [← hd.print, h.sound.founded.print_list hi]
    refine congrArg Node.joined (List.map_congr_left fun m hm => ?_)
    have hmem : m ∈ p.arena.kids p.arena.content := hkids ▸ hm
    exact hag.print_eq h.sound.founded hf (h.sound.closed _ _ hmem)
      fun z hz => hz ▸ h.sound.not_reaches hmem
  obtain ⟨-, title, -, hlink, htitle⟩ := hl.find?_link h
  have hempty : q.arena.print title = .ok "" := by
    rw [hf.print_list htitle]
    rfl
  have hprint : q.arena.print l.link = .ok ("[[" ++ Edit.categoryTarget p name ++ "]]") := by
    rw [hf.print_eq_of_frame? hlink rfl]
    simp [Payload.children, Node.interleave, Glue.link, hempty, bind, Except.bind]
  refine ⟨hs, hcontent ▸ hroot, ?_⟩
  have hlast : Node.joined ([l.link].map q.arena.print) =
      .ok ("[[" ++ Edit.categoryTarget p name ++ "]]") := by
    rw [List.map_singleton, hprint]
    exact Node.joined_one _
  rw [hcontent, hf.print_list hitems, List.map_append]
  exact Node.joined_append hold hlast

theorem Displays.congr (h : p.Displays text) (hs : q.Synced) (ha : q.arena = p.arena) :
    q.Displays text := by
  refine ⟨hs, ?_, ?_⟩
  · rw [ha, h.page]
  · rw [ha, h.print]

end Page

namespace Edit

variable {p : Page} {text : String}

/-- A category is added where the page takes it, and its link is written at the end. -/
theorem displays_addCategory (h : p.Displays text) (name : String) :
    Ends (addCategory name) p
      (fun _ q => (Valid.isCategory (normalizeTitle name) = true ∧ p.hasCategory name = false) ∧
        q.Displays (text ++ ("[[" ++ (p.site.categoryPrefix ++ ":" ++ normalizeTitle name) ++ "]]")) ∧
        q.site = p.site ∧
        ∀ other, q.hasCategory other =
          (decide (categoryKey other = categoryKey name) || p.hasCategory other))
      fun _ _ => ¬(Valid.isCategory (normalizeTitle name) = true ∧ p.hasCategory name = false) := by
  have hs := h.synced
  have hpush := hs.pushCategory (normalizeTitle name)
  refine (ends_addCategory_made hs).mono ?_ fun _ _ he => p.hasCategory_normalizeTitle name ▸ he.2
  rintro _ q ⟨rfl, hvalid, hfree, r, l, hl, rfl⟩
  have hnew := hl.newLink hpush
  have hc : r.IsCategory p.next := hnew.calm.isCategory.2 isCategory_pushCategory
  have hparent : r.parentOf p.next = none := by
    have hfind : r.find? p.next = some (Page.newCategory (normalizeTitle name)) := by
      rw [Page.find?, hnew.elements]
      exact (Page.find?_push p _ p.next).trans (if_pos rfl)
    rw [Page.parentOf_of_find? hfind]
    rfl
  have hsynced : (attached r p.next (normalizeTitle name) l).Synced :=
    synced_attached hnew.calm.synced hc hparent hnew.free
  have hr := (h.congr hpush rfl).appendedLink hl hnew.calm.synced
  refine ⟨⟨hvalid, p.hasCategory_normalizeTitle name ▸ hfree⟩, hr.congr hsynced arena_attached,
    site_attached.trans hnew.calm.site, fun other => ?_⟩
  have hinsert : (attached r p.next (normalizeTitle name) l).categories.find? (categoryKey other) =
      if categoryKey other = categoryKey (normalizeTitle name) then some p.next
      else r.categories.find? (categoryKey other) := Index.find?_insert ..
  rw [categoryKey_normalizeTitle, hnew.calm.categories] at hinsert
  rw [Page.hasCategory, Page.hasCategory, Page.category?, Page.category?, hinsert]
  by_cases hkey : categoryKey other = categoryKey name
  · simp [hkey]
  · simp only [hkey, decide_false, Bool.false_or]
    rfl

theorem displays_addCategories (names : List String) : ∀ (p : Page) (text : String), p.Displays text →
    Ends (names.forM fun name => do let _ ← addCategory name) p
      (fun _ q => p.TakesCategories names ∧ q.Displays (text ++ Page.renderCategories p.site names))
      fun _ _ => ¬p.TakesCategories names := by
  induction names with
  | nil =>
    intro p text h
    refine Ends.pure ⟨⟨by simp, List.nodup_nil⟩, ?_⟩
    rwa [Page.renderCategories, String.append_empty]
  | cons name names ih =>
    intro p text h
    refine Ends.bind ((displays_addCategory h name).step (fun _ q hq => Ends.pure ?_)
      fun _ _ he htakes => ?_)
    · obtain ⟨hcat, hd, hsite, hhas⟩ := hq
      have hiff : p.TakesCategories (name :: names) ↔ _ := Page.takesCategories_cons hhas
      refine (ih q _ hd).mono (fun _ r hr => ⟨hiff.2 ⟨hcat, hr.1⟩, ?_⟩)
        fun _ _ he htakes => he (hiff.1 htakes).2
      rw [Page.renderCategories, ← hsite]
      simpa only [String.append_assoc, hsite] using hr.2
    · exact he (htakes.1 name List.mem_cons_self)

end Edit

namespace PageDescription

def acceptsNamespace (s : String) : Bool :=
  Text.onChars Text.trim s = "" || Valid.isTitle (Text.onChars Text.trim s)

def acceptsPath (s : String) : Bool :=
  Text.onChars Text.trim s = "" || Valid.isPath (Text.onChars Text.trim s)

/-- Categories have valid names, no two of which are spellings of one. -/
def acceptsCategories (names : List String) : Bool :=
  names.all (fun name => Valid.isCategory (normalizeTitle name)) && decide (names.map categoryKey).Nodup

/-- Whether every part of a description is accepted. -/
def isValid (d : PageDescription) : Bool :=
  Valid.isTitle (Text.onChars Text.trim d.title) && (d.nameSpace.all acceptsNamespace &&
    (d.path.all acceptsPath && (Content.acceptedIn d.site .body d.body && acceptsCategories d.categories)))

def render (d : PageDescription) : String :=
  Content.renderAll d.body ++ Page.renderCategories d.site d.categories

end PageDescription

namespace Edit

variable {p : Page}

theorem find?_namespacePolicy : Policy.find? .page "namespace" =
    some { name := "namespace", verifier := .pageNamespace, synced := false } := by decide +kernel

theorem find?_pathPolicy : Policy.find? .page "path" =
    some { name := "path", verifier := .pagePath, synced := false } := by decide +kernel

theorem isOk_verify_namespace (s : String) :
    (p.verify Page.root s .pageNamespace).isOk = PageDescription.acceptsNamespace s := by
  simp only [Page.verify, checkNamespace, PageDescription.acceptsNamespace]
  by_cases hempty : Text.onChars Text.trim s = ""
  · simp [hempty, Except.isOk, Except.toBool]
  · cases hv : Valid.isTitle (Text.onChars Text.trim s) <;>
      simp [hempty, refuse, Except.isOk, Except.toBool]

theorem isOk_verify_path (s : String) :
    (p.verify Page.root s .pagePath).isOk = PageDescription.acceptsPath s := by
  simp only [Page.verify, checkPath, PageDescription.acceptsPath]
  by_cases hempty : Text.onChars Text.trim s = ""
  · simp [hempty, Except.isOk, Except.toBool]
  · cases hv : Valid.isPath (Text.onChars Text.trim s) <;>
      simp [hempty, refuse, Except.isOk, Except.toBool]

theorem ends_setProperty (h : p.Synced) {name : String} {policy : Policy} {accepts : String → Bool}
    (hpolicy : Policy.find? .page name = some policy) (hs : policy.synced = false)
    (hremovable : policy.removable = true) (hreaction : policy.reaction = none)
    (hv : ∀ s, (p.verify Page.root s policy.verifier).isOk = accepts s) {m : Edit Unit}
    {value : Option String} (hm : m = value.elim (pure ()) fun s => setOrRemove Page.root name (some s)) :
    Ends m p (fun _ q => value.all accepts = true ∧ p.Calm q ∧ q.arena = p.arena)
      fun _ _ => value.all accepts = false := by
  rw [hm]
  cases value with
  | none => exact Ends.pure ⟨rfl, h.calm_refl, rfl⟩
  | some s =>
    exact (ends_setOrRemove_root h hpolicy hs hremovable hreaction).mono
      (fun _ _ hq => ⟨(hv s).symm.trans hq.1, hq.2⟩) fun _ _ he => (hv s).symm.trans he

end Edit

namespace PageDescription

open Edit

theorem fill_eq (d : PageDescription) : d.fill = (do
    d.nameSpace.elim (pure ()) fun s => setOrRemove Page.root "namespace" (some s)
    d.path.elim (pure ()) fun s => setOrRemove Page.root "path" (some s)
    Content.appendTo Page.body d.body
    d.categories.forM fun name => do let _ ← addCategory name) := by
  unfold fill
  cases d.nameSpace <;> cases d.path <;> rfl

/-- A page with empty content. -/
structure Blank (d : PageDescription) (p : Page) : Prop where
  synced : p.Synced
  arena : p.arena = .new
  site : p.site = d.site
  categories : p.categories = .empty

theorem Blank.calm {d : PageDescription} {p q : Page} (h : d.Blank p) (hq : p.Calm q)
    (ha : q.arena = p.arena) : d.Blank q :=
  ⟨hq.synced, ha.trans h.arena, hq.site.trans h.site, hq.categories.trans h.categories⟩

theorem displays_appendTo [Entities] {d : PageDescription} {p : Page} (h : d.Blank p) :
    Ends (Content.appendTo Page.body d.body) p
      (fun _ q => Content.acceptedIn d.site .body d.body = true ∧ q.Displays (Content.renderAll d.body) ∧
        q.site = d.site ∧ q.categories = .empty)
      fun _ _ => Content.acceptedIn d.site .body d.body = false := by
  obtain ⟨e, he, hk, -⟩ := Page.find?_of_form? h.synced.body_form
  change e.kind = .body at hk
  have hroot : p.arena.find? Arena.root = some ⟨.page p.arena.content, none⟩ := by
    rw [h.arena]
    exact Arena.find?_new_root
  have hempty : p.arena.kids p.arena.content = [] := by
    rw [h.arena]
    exact Arena.kids_of_find? Arena.find?_new_content
  refine (Content.creates_and_createsAll.2 Page.body d.body p e _ h.synced he h.synced.body_container).mono
    (fun _ q hq => ?_) fun _ _ herr => ?_
  · obtain ⟨hacc, new, -, hq⟩ := hq
    have hs := hq.calm.synced
    have hpage : q.arena.find? Arena.root = some ⟨.page p.arena.content, none⟩ := by
      refine hq.agrees _ _ (fun hor => ?_) hroot
      have hne : Arena.root ≠ p.arena.content := fun he => by
        rw [← he, Arena.kids_of_find? hroot] at hempty
        cases hempty
      rcases hor with hor | hor
      · exact hne hor
      · exact hne (Option.some.inj (hor.symm.trans h.synced.body_backing))
    have hcontent := Arena.content_eq hpage
    refine ⟨by rw [← h.site, ← hk]; exact hacc, ⟨hs, hcontent ▸ hpage, ?_⟩, hq.calm.site.trans h.site,
      hq.calm.categories.trans h.categories⟩
    have hitems := hq.items
    rw [hempty, List.nil_append] at hitems
    rw [hcontent, hs.sound.founded.print_list hitems, hq.print]
  · rw [← h.site, ← hk]
    exact herr

/-- The page is filled where every part of the description but the title is accepted. -/
theorem ends_fill [Entities] {d : PageDescription} {p : Page} (h : d.Blank p) :
    Ends d.fill p
      (fun _ q => (d.nameSpace.all acceptsNamespace && (d.path.all acceptsPath &&
        (Content.acceptedIn d.site .body d.body && acceptsCategories d.categories))) = true ∧
          q.Displays d.render)
      fun _ _ => (d.nameSpace.all acceptsNamespace && (d.path.all acceptsPath &&
        (Content.acceptedIn d.site .body d.body && acceptsCategories d.categories))) = false := by
  have htakes {q : Page} (hq : q.categories = .empty) :
      q.TakesCategories d.categories ↔ acceptsCategories d.categories = true := by
    simp [Page.TakesCategories, Page.hasCategory, Page.category?, hq, acceptsCategories]
  rw [fill_eq]
  refine (ends_setProperty h.synced find?_namespacePolicy rfl rfl rfl isOk_verify_namespace rfl).step
    (fun _ q hq => ?_) fun _ _ he => by rw [he, Bool.false_and]
  obtain ⟨hnamespace, hq, harena⟩ := hq
  replace h := h.calm hq harena
  rw [hnamespace, Bool.true_and]
  refine (ends_setProperty h.synced find?_pathPolicy rfl rfl rfl isOk_verify_path rfl).step
    (fun _ q hq => ?_) fun _ _ he => by rw [he, Bool.false_and]
  obtain ⟨hpath, hq, harena⟩ := hq
  replace h := h.calm hq harena
  rw [hpath, Bool.true_and]
  refine (displays_appendTo h).step (fun _ q hq => ?_) fun _ _ he => by rw [he, Bool.false_and]
  obtain ⟨hbody, hd, hsite, hcategories⟩ := hq
  rw [hbody, Bool.true_and]
  refine (displays_addCategories d.categories q _ hd).mono (fun _ r hr => ?_) fun _ _ he => ?_
  · rw [htakes hcategories, hsite] at hr
    exact hr
  · rwa [htakes hcategories, Bool.not_eq_true] at he

theorem blank_of_new {d : PageDescription} {p : Page} (h : Page.new d.site d.title = .ok p) :
    d.Blank p := by
  obtain ⟨t, -, h⟩ := Except.exists_of_bind h
  obtain rfl := Except.ok.inj h
  exact ⟨Page.synced_ofDrafts (Page.drafted_new d.site), rfl, rfl, rfl⟩

theorem isOk_new (site : Site) (title : String) :
    (Page.new site title).isOk = Valid.isTitle (Text.onChars Text.trim title) := by
  simp only [Page.new, Verifier.checkPageTitle, checkTitle]
  cases hv : Valid.isTitle (Text.onChars Text.trim title) <;>
    simp [refuse, bind, Except.bind, Except.isOk, Except.toBool]

/-- A page is built from a description exactly where every part of it is accepted, and it is written as
the description is. -/
theorem map_source_build [Entities] (d : PageDescription) :
    d.build.toOption.map Page.source = if d.isValid then some (.ok d.render) else none := by
  rw [isValid, ← isOk_new d.site, build]
  cases hnew : Page.new d.site d.title with
  | error e => rfl
  | ok p =>
    have hfill := ends_fill (blank_of_new hnew)
    change (d.fill.exec p).toOption.map Page.source = _
    cases hrun : d.fill p with
    | ok x q =>
      obtain ⟨hvalid, hd⟩ := hfill.of_ok hrun
      rw [Edit.exec, hrun, hvalid]
      exact congrArg some hd.source_eq
    | error e q =>
      rw [Edit.exec, hrun, hfill.of_error hrun]
      rfl

example : render
    { site := .default, title := "A", categories := [" foo_bar"]
      body := [.paragraph [.link " B " [.bold [.text "b"]], .text " and ", .link "C" []], .rule] } =
    "\n\n[[B|'''b''']] and [[C]]\n----\n[[Category:foo bar]]" := by decide +kernel

end PageDescription

end WikiPage
