import WikiPage.Proofs.Children
import WikiPage.Proofs.Creation
import WikiPage.Proofs.History
import WikiPage.Proofs.Opening
import WikiPage.Proofs.Refusal

/-!
# Reached pages

Every act leaves a page in order, whether it goes well or not, so every page that is reached is in order.
An act goes wrong for a fault only where it is about elements that the page lacks, or where it is to
write as a tag what has none.
-/

namespace WikiPage
namespace Page

variable {p : Page} {id : ElementId} {e : Element}

theorem neverFaults_requireKind (he : p.find? id = some e) (kinds : List Kind) :
    NeverFaults (p.requireKind id kinds) := by
  have hk : p.kind id = .ok e.kind := by simp [kind, get_eq_ok_iff.2 he, Except.map]
  unfold requireKind
  rw [hk]
  refine .bind (.ok _) fun k _ => ?_
  split
  · exact .ok _
  · exact .error rfl

theorem Refuses.of_known {q : Page} {ids ids' : List ElementId} {err : PageError}
    (h : p.Refuses ids err q) (hk : ∀ x ∈ ids, p.find? x ≠ none) : p.Refuses ids' err q := by
  refine ⟨h.1, fun hf => ?_⟩
  obtain ⟨x, hx, hn⟩ := h.2 hf
  exact absurd hn (hk x hx)

end Page

namespace Edit

variable {α : Type} {p : Page} {id : ElementId} {ids ids' : List ElementId} {m : Edit α}

theorem isSafe_of_makes {kind : Kind} {m : Edit ElementId} (h : p.Recorded) (hm : Makes kind m p p) :
    IsSafe (do let _ ← m) p [] :=
  hm.step (fun _ _ hq => Ends.pure (hq.1.keeps h)) fun _ _ hq => hq

theorem IsSafe.quiet (hm : IsSafe m p ids) : IsSafe (do let _ ← m) p ids :=
  hm.step (fun _ _ hq => Ends.pure hq) fun _ _ hq => hq

theorem IsSafe.weaken (hm : IsSafe m p ids) (hs : ids ⊆ ids') : IsSafe m p ids' :=
  hm.mono (fun _ _ hq => hq) fun _ _ hq => hq.mono hs

theorem isSafe_setOrRemove (h : p.Recorded) (name : String) (value : Option String) :
    IsSafe (setOrRemove id name value) p [id] := by
  cases value with
  | some value => exact IsSafe.quiet (isSafe_setAttribute h)
  | none => exact IsSafe.quiet (isSafe_of_isCalm h (isCalm_removeAttribute h.toSynced))

theorem isSafe_requireKind {kinds : List Kind} {f : Edit α} (hf : IsSafe f p [id]) :
    IsSafe (do ask (·.requireKind id kinds); f) p [id] := by
  refine Ends.bind (ends_ask_refuses (fun _ _ => hf) fun hk => ?_)
  obtain ⟨e, he⟩ := hk id (List.mem_singleton_self _)
  exact Page.neverFaults_requireKind he kinds

theorem isSafe_setOrRemove_root (h : p.Recorded) (name : String) (value : Option String) :
    IsSafe (setOrRemove Page.root name value) p [] := by
  refine Ends.mono (isSafe_setOrRemove h name value) (fun _ _ hq => hq) fun _ _ hq => hq.of_known fun x hx => ?_
  obtain ⟨e, he⟩ := h.exists_root
  simp [List.mem_singleton.1 hx, he]

theorem keeps_keepCategories_of_cut {I : Page → Prop} (h : p.Recorded) (hI : KeptByRenewal I) {n : NodeId}
    {q : Page} (hq : p.Cut n q) (hIq : I q) :
    Ends (keepCategories n) q (fun _ r => p.Keeps r ∧ I r) fun _ _ => False := by
  have hl := hq.toSameRecords.leads h hq.synced hq.mirrored
  obtain ⟨m, hm⟩ := Arena.exists_of_index_lt hq.known
  refine (leads_keepCategories hl.recorded hm hI hIq).mono (fun _ _ hr => ⟨⟨hl.trans hr.1.1, fun hp => ?_,
    fun hp => ?_, fun ha hp => hr.1.2.inOrder (hp.cut ha hq)⟩, hr.2⟩) fun _ _ hf => hf
  · exact (hr.1.2.rooted (hp.cut h.toSynced hq)).weaken fun _ _ hx => hx.2 hx.1
  · exact Page.moored_iff.1 ((hr.1.2.moored (hp.cut hq)).weaken fun _ _ hx => hx.2 hx.1)

theorem Exchange.size_eq [Entities] {x : ElementId} {c : NodeId} {s r b t : List NodeId} {q q' : Page}
    (hq : Exchange p x c s r b t q) (hr : Refreshed q x q') : q'.arena.size = p.arena.size := by
  obtain ⟨b, hb, -, rfl⟩ := hr.tidied
  rw [hb.size_eq, hq.arena, Arena.setItems, Arena.setPayload, Arena.size_modify]

theorem Exchange.linkedWithin_eq [Entities] {x : ElementId} {c n : NodeId} {s b t : List NodeId} {q q' : Page}
    (hq : Exchange p x c s [n] b t q) (h : p.Synced) (hr : Refreshed q x q') :
    q'.linkedWithin n = p.linkedWithin n := by
  have hsize := hq.size_eq hr
  obtain ⟨b, hb, hkeeps, rfl⟩ := hr.tidied
  have hs := hq.synced h
  have hn : n ∈ p.arena.kids c := by simp [hq.kids]
  obtain ⟨items, hc⟩ := h.find?_container hq.container
  have hkids (y : NodeId) (hy : Reaches p.arena.kids n y) : q.arena.kids y = p.arena.kids y := by
    rw [hq.arena, Arena.kids_setItems (Arena.index_lt_of_find? hc), if_neg]
    rintro rfl
    exact h.sound.not_reaches hn hy
  have hpre : (b.tree n).preorder = (p.arena.tree n).preorder := by
    refine h.sound.preorder_congr (hs.calm_tidied hb hkeeps).synced.sound.toIsForest (h.sound.closed c n hn)
      (Nat.le_of_eq hsize.symm) fun y hy => ?_
    rw [hb.kids_eq, hkids y hy]
  obtain ⟨ch, -, hfilled⟩ := hq.filled
  rw [Page.linkedWithin, Page.linkedWithin, hpre, hfilled.owners]

theorem keptByRenewal_true : KeptByRenewal fun _ => True := fun h hl _ =>
  (leads_renewLink h hl).mono (fun _ _ _ => trivial) fun _ _ hf => hf

theorem isSafe_removeChild [Entities] (h : p.Recorded) {x y : ElementId} :
    IsSafe (removeChild x y) p [x, y] :=
  ends_removeChild h.toSynced (fun _ _ hq _ =>
    (keeps_keepCategories_of_cut h keptByRenewal_true hq trivial).mono (fun _ _ hr => hr.1)
      fun _ _ hf => hf.elim) fun _ _ hq => hq

theorem isSafe_replaceChild [Entities] (h : p.Recorded) {x w y : ElementId} :
    IsSafe (replaceChild x w y) p [x, w] :=
  ends_replaceChild h.toSynced (fun _ _ hq _ =>
    (keeps_keepCategories_of_cut h keptByRenewal_true hq trivial).mono (fun _ _ hr => hr.1)
      fun _ _ hf => hf.elim) fun _ _ hq => hq

theorem isSafe_renameCategory (h : p.Recorded) {old new : String} :
    IsSafe (renameCategory old new) p [] := by
  refine ends_needCategory.step (fun id q hq => ?_) fun _ _ hq => hq.2
  obtain ⟨hid, rfl⟩ := hq
  refine Ends.mono (IsSafe.quiet (isSafe_setAttribute h)) (fun _ _ hq => hq) fun _ _ hq => hq.of_known fun x hx => ?_
  obtain rfl := List.mem_singleton.1 hx
  exact Page.IsCategory.find?_ne_none (h.indexed hid)

/-- The kinds of elements that are written in markup of their own only. -/
def bareKinds : List Kind := [.page, .body, .text, .comment, .link]

theorem mem_bareKinds {kind : Kind} {payload : Payload} (hm : kind.marks payload = true) :
    kind ∈ bareKinds ↔ kind.tag? = none := by
  cases kind <;> simp_all [bareKinds, Kind.tag?, Kind.marks]

theorem not_mem_bareKinds {kind : Kind} {payload : Payload} (ht : kind.tags payload = true) :
    kind ∉ bareKinds := by
  cases kind <;> cases payload <;> simp_all [bareKinds, Kind.tags, Kind.tag?]

/-- What has no tag is promoted never, and that is a fault. -/
theorem ends_promote_of_bare (h : p.Synced) {e : Element} (he : p.find? id = some e)
    (hk : e.kind ∈ bareKinds) :
    Ends (promote id) p (fun _ _ => False) fun err _ => err.isFatal = true := by
  have hget := Page.get_eq_ok_iff.2 he
  refine Ends.bind (ends_ask (fun e' he' => ?_) fun _ herr => by cases hget.symm.trans herr)
  obtain rfl := Except.ok.inj (hget.symm.trans he')
  have hw := h.writes (Page.form?_of_find? he)
  split
  · rename_i node hb
    rw [hb] at hw
    obtain ⟨n, -, hm⟩ := hw
    refine Ends.bind (ends_ask (fun place _ => ?_) fun err herr => Page.neverRefuses_place? id err herr)
    refine Ends.bind (Ends.get (Ends.bind (ends_surgery ?_)))
    rw [Surgery.toElement, (mem_bareKinds hm).1 hk]
    exact Ends.throw rfl
  · rename_i node hb
    rw [hb] at hw
    obtain ⟨n, -, ht⟩ := hw
    exact absurd hk (not_mem_bareKinds ht)
  · rename_i hb
    rw [hb] at hw
    rw [show e.kind = .category from hw] at hk
    simp [bareKinds] at hk

theorem keeps_promote (h : p.Recorded) : Ends (promote id) p (fun _ q => p.Keeps q)
    fun err q => q = p ∧ (err.isFatal = true → ∀ e, p.find? id = some e → e.kind ∈ bareKinds) := by
  refine Ends.bind (ends_ask (fun e hget => ?_) fun err herr => ⟨rfl, fun _ e he => ?_⟩)
  swap
  · cases herr.symm.trans (Page.get_eq_ok_iff.2 he)
  have he := Page.get_eq_ok_iff.1 hget
  have hf := Page.form?_of_find? he
  split
  · rename_i node hb
    rw [hb] at hf
    obtain ⟨n, -, hm⟩ := h.writes hf
    refine (ends_promoteMarkup h.toSynced hf).mono (fun _ _ hq => hq.1.keeps h) fun _ _ hq => ?_
    refine ⟨hq.1, fun _ e' he' => ?_⟩
    obtain rfl := Option.some.inj (he.symm.trans he')
    exact (mem_bareKinds hm).2 hq.2
  · exact Ends.pure h.keeps_refl
  · exact Ends.throw ⟨rfl, by simp [PageError.isFatal]⟩

end Edit

namespace Act

open Edit

variable {site : Site} {p : Page} {act : Act}

theorem isSafe_edit [Entities] (h : p.Recorded) (hc : act.isChecked = true) (hp : ∀ id, act ≠ .promote id) :
    IsSafe act.edit p act.ids := by
  have hs := h.toSynced
  cases act with
  | createParagraph => exact isSafe_of_makes h (makes_createParagraph hs)
  | createBold => exact isSafe_of_makes h (makes_createBold hs)
  | createItalics => exact isSafe_of_makes h (makes_createItalics hs)
  | createRule => exact isSafe_of_makes h (makes_createRule hs)
  | createDiv => exact isSafe_of_makes h (makes_createDiv hs)
  | createLink target => exact isSafe_of_makes h (makes_createLink hs)
  | createText s => exact isSafe_of_makes h (makes_createText hs)
  | createComment s => exact isSafe_of_makes h (makes_createComment hs)
  | insertChild parent child position =>
    refine (isSafe_of_isCalm h (isCalm_insertChild hs)).weaken ?_
    cases position <;> simp [ids]
  | removeChild parent child => exact isSafe_removeChild h
  | replaceChild parent new old => exact (isSafe_replaceChild h).weaken (by simp [ids])
  | setText id s => exact isSafe_of_isCalm h (isCalm_setText hs)
  | setComment id s => exact isSafe_of_isCalm h (isCalm_setComment hs)
  | setAttribute id name value => exact IsSafe.quiet (isSafe_setAttribute h)
  | removeAttribute id name =>
    exact IsSafe.quiet (isSafe_of_isCalm h (isCalm_removeAttribute hs))
  | assign id name value => cases hc
  | promote id => exact absurd rfl (hp id)
  | addCategory name => exact IsSafe.quiet (isSafe_addCategory h)
  | renameCategory old new => exact isSafe_renameCategory h
  | removeCategory name => exact IsSafe.quiet (isSafe_removeCategory h)
  | setTitle title => exact isSafe_setOrRemove_root h "title" (some title)
  | setNamespace name => exact isSafe_setOrRemove_root h "namespace" name
  | setPath path => exact isSafe_setOrRemove_root h "path" path
  | setAlignment id alignment => exact isSafe_setOrRemove h _ _
  | setNoShade id on => exact isSafe_requireKind (isSafe_setOrRemove h _ _)
  | setThickness id pixels => exact isSafe_requireKind (isSafe_setOrRemove h _ _)
  | setWidth id width => exact isSafe_requireKind (isSafe_setOrRemove h _ _)
  | setLinkTarget id target => exact isSafe_requireKind (isSafe_setOrRemove h _ _)
  | setCategoryName id name => exact isSafe_requireKind (isSafe_setOrRemove h _ _)
  | setUniversal id name value => exact isSafe_setOrRemove h name value

/-- An act about elements that the page has goes wrong for a fault only where it is to write as a tag
what has none. -/
theorem exists_promote_of_isFatal [Entities] {err : PageError} {q : Page} (h : p.Recorded)
    (hids : ∀ x ∈ act.ids, p.find? x ≠ none) (he : act.edit p = .error err q)
    (hf : err.isFatal = true) :
    ∃ x e, act = .promote x ∧ p.find? x = some e ∧ e.kind ∈ bareKinds := by
  have refused (hr : p.Refuses act.ids err q) : False := by
    obtain ⟨x, hx, hn⟩ := hr.2 hf
    exact hids x hx hn
  by_cases hc : act.isChecked = true
  · by_cases hp : ∃ x, act = .promote x
    · obtain ⟨x, rfl⟩ := hp
      obtain ⟨e, hx⟩ := Option.ne_none_iff_exists'.1 (hids x (List.mem_singleton_self _))
      exact ⟨x, e, rfl, hx, ((keeps_promote h).of_error he).2 hf e hx⟩
    · exact (refused ((isSafe_edit h hc fun x hx => hp ⟨x, hx⟩).of_error he)).elim
  · cases act with
    | assign id name value =>
      refine (refused (Ends.of_error (Q := fun _ _ => True) ?_ he)).elim
      exact (ends_assign h.toSynced).step (fun _ _ _ => Ends.pure trivial) fun _ _ hq => hq
    | _ => exact absurd rfl hc

/-- A checked act keeps the records in agreement, and the page is as it was if it goes wrong. -/
theorem ends_edit [Entities] (h : p.Recorded) (hc : act.isChecked = true) :
    Ends act.edit p (fun _ q => p.Keeps q) fun _ q => q = p := by
  by_cases hp : ∃ id, act = .promote id
  · obtain ⟨id, rfl⟩ := hp
    exact (keeps_promote h).mono (fun _ _ hq => hq) fun _ _ hq => hq.1
  · exact (isSafe_edit h hc fun id hid => hp ⟨id, hid⟩).mono (fun _ _ hq => hq) fun _ _ hq => hq.1

theorem after_of_ends {P : Page → Prop} (h : Ends act.edit p (fun _ q => P q) fun _ q => P q) :
    P (act.after p) := by
  unfold after
  cases hm : act.edit p with
  | ok x q => exact h.of_ok hm
  | error e q => exact h.of_error hm

theorem after_of_ok [Entities] {P : Page → Prop} (h : p.Recorded) (hc : act.isChecked = true) (hp : P p)
    (hok : Ends act.edit p (fun _ q => P q) fun _ _ => True) : P (act.after p) := by
  refine after_of_ends ((hok.and (ends_edit h hc)).mono (fun _ _ hq => hq.1) fun _ q hq => ?_)
  obtain rfl := hq.2
  exact hp

theorem keeps_after [Entities] (h : p.Recorded) (hc : act.isChecked = true) : p.Keeps (act.after p) :=
  after_of_ok (P := p.Keeps) h hc h.keeps_refl ((ends_edit h hc).mono (fun _ _ hq => hq) fun _ _ _ => trivial)

theorem keeps_run [Entities] {acts : List Act} (h : p.Recorded) (hc : acts.all isChecked = true) :
    p.Keeps (run acts p) := by
  induction acts generalizing p with
  | nil => exact h.keeps_refl
  | cons act acts ih =>
    rw [List.all_cons, Bool.and_eq_true] at hc
    have hact := act.keeps_after h hc.1
    exact hact.trans (ih hact.recorded hc.2)

end Act

namespace Page

variable {site : Site} {p : Page}

/-- Every page that is reached is in order. -/
theorem Reached.orderly [Entities] (h : p.Reached site) : p.Orderly site := by
  induction h with
  | new h => exact (begun_new h false).toOrderly
  | read h => exact (begun_read h).toOrderly
  | act _ act hc ih => exact ih.leads (act.keeps_after ih.recorded hc).toLeads

theorem Begun.anchored {preserve : Bool} (h : p.Begun site preserve) : p.Anchored :=
  fun _ _ hx hn hl _ hm => h.recorded.not_reaches_part hx hn hl (h.part hm)

/-- No link of a category is in an element that is on no page. -/
theorem Reached.anchored [Entities] (h : p.Reached site) : p.Anchored := by
  induction h with
  | new h => exact (begun_new h false).anchored
  | read h => exact (begun_read h).anchored
  | act hp act hc ih => exact (act.keeps_after hp.orderly.recorded hc).anchored ih

/-- No link of a category stands in one that is on record after it for the same category. -/
theorem Reached.inOrder [Entities] (h : p.Reached site) : p.InOrder := by
  induction h with
  | new h => exact (begun_new h false).inOrder
  | read h => exact (begun_read h).inOrder
  | act hp act hc ih => exact (act.keeps_after hp.orderly.recorded hc).inOrder hp.anchored ih

end Page
end WikiPage
