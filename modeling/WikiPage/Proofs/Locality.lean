import WikiPage.EntityTable
import WikiPage.Proofs.Agreement
import WikiPage.Proofs.Glued
import WikiPage.Proofs.Lasting
import WikiPage.Proofs.Surroundings

/-!
# Edits are local

The text of a page changes at one place when a text on it is changed, or a child is put in, taken out or
replaced. What is printed before the place and behind it stays as it is spelled, as long as the element
around it needs no other glue and no category has to be kept.
-/

namespace WikiPage

/-- Whether the glue of a node is the same whatever stands in it. The glue of a link shows whether it has
a title, and that of a tag whether it is closed at once. -/
def Payload.keepsGlue : Payload → Bool
  | .link _ _ => false
  | .element _ empty _ _ => !empty
  | _ => true

namespace Page

variable {p q : Page} {site : Site} {x y : ElementId} {c n : NodeId}

/-- An element that is part of the page. -/
def OnPage (p : Page) (x : ElementId) : Prop :=
  Reaches p.childrenOf root x

/-- An element whose glue does not depend on its children. -/
def KeepsGlue (p : Page) (x : ElementId) : Prop :=
  ∀ n m, p.backing? x = some n → p.arena.find? n = some m → m.payload.keepsGlue = true

/-- What an element is printed as. -/
def PrintsAs (p : Page) (x : ElementId) (text : String) : Prop :=
  ∃ n, p.backing? x = some n ∧ p.arena.print n = .ok text

/-- What an element of the page is printed as, and what is printed before it and behind it. -/
def Shows (p : Page) (x : ElementId) (before text behind : String) : Prop :=
  ∃ n, p.backing? x = some n ∧ p.arena.print n = .ok text ∧ p.arena.Stands n before behind

/-- The texts of two pages differ in one place. -/
structure Rewrites (p q : Page) (before old new behind : String) : Prop where
  old : p.source = .ok (before ++ old ++ behind)
  new : q.source = .ok (before ++ new ++ behind)

theorem Synced.reaches_container (h : p.Synced) (hc : p.container? x = some c)
    (hx : ∀ n, p.backing? x = some n → Reaches p.arena.kids Arena.root n) :
    Reaches p.arena.kids Arena.root c := by
  obtain ⟨n, m, hm, hs, hn⟩ := h.container_slot hc
  have hk : c ∈ p.arena.kids n := by
    rw [Arena.kids_of_find? hm]
    exact Payload.children_of_mem_slots hs
  rcases hn with ⟨-, rfl⟩ | hn
  · exact .single hk
  · exact (hx n hn).tail hk

/-- The node of an element on the page is printed. -/
theorem OnPage.reaches (hx : p.OnPage x) (h : p.Synced) (hn : p.backing? x = some n) :
    Reaches p.arena.kids Arena.root n := by
  induction hx generalizing n with
  | refl =>
    obtain rfl := Option.some.inj (h.root_backing.symm.trans hn)
    exact .refl
  | @tail u x _ hux ih =>
    by_cases hu : u = root
    · subst hu
      rcases h.root_child (h.parent_iff.2 hux) with rfl | ⟨o, ho⟩
      · obtain rfl := Option.some.inj (h.body_backing.symm.trans hn)
        exact .single h.sound.content_mem
      · cases (h.category_backing ho).symm.trans hn
    · obtain ⟨c, m, hc, hm, hmc⟩ := Edit.exists_child h hu hux
      obtain rfl := Option.some.inj (hm.symm.trans hn)
      exact (h.reaches_container hc fun _ hn => ih hn).tail hmc

theorem OnPage.reaches_container (hx : p.OnPage x) (h : p.Synced) (hc : p.container? x = some c) :
    Reaches p.arena.kids Arena.root c :=
  h.reaches_container hc fun _ hn => hx.reaches h hn

theorem source_eq {text : String} (h : p.arena.printPage = .ok text) : p.source = .ok text := by
  rw [source, h]
  rfl

end Page

namespace Edit

open Page (OnPage KeepsGlue)

variable {p q q' : Page} {x y : ElementId} {c n : NodeId} {s r b t : List NodeId} {source : String}

namespace Exchange

theorem splices (hq : Exchange p x c s r b t q) (h : p.Synced) :
    p.arena.Splices q.arena c s r b t := by
  obtain ⟨items, hc⟩ := h.find?_container hq.container
  obtain rfl : items = s ++ r ++ t := (Arena.kids_of_find? hc).symm.trans hq.kids
  refine .of_find? hc ?_ fun y m hy hm => ?_
  · rw [hq.arena, Arena.find?_setItems hc, if_pos rfl]
  · rw [hq.arena, Arena.find?_setItems hc, if_neg hy, hm]

theorem print_eq (hq : Exchange p x c s r b t q) (h : p.Synced) {m : NodeId} (hm : m ∈ b) :
    q.arena.print m = p.arena.print m := by
  have hs := hq.synced h
  have hsplices := hq.splices h
  have hagrees : q.arena.AgreesBut p.arena (· = c) := fun y k hy hk => by
    rwa [hq.arena, Arena.find?_setItems hsplices.old, if_neg hy] at hk
  have hmc : m ∈ q.arena.kids c := by
    rw [Arena.kids_of_find? hsplices.new]
    simp [Payload.children, hm]
  refine (hagrees.print_eq hs.sound.founded h.sound.founded (hs.sound.closed c m hmc) ?_).symm
  rintro _ rfl
  exact hs.sound.not_reaches hmc

theorem backing?_eq (hq : Exchange p x c s r b t q) : q.backing? = p.backing? := by
  obtain ⟨ch, -, hfilled⟩ := hq.filled
  exact Page.backing?_congr (Page.form?_of_map hfilled.find?_eq fun _ _ => ⟨rfl, rfl⟩)

theorem keepsGlue (hq : Exchange p x c s r b t q) (h : p.Synced) {y : ElementId} (hk : p.KeepsGlue y) :
    q.KeepsGlue y := by
  intro n m hn hm
  rw [hq.backing?_eq] at hn
  rw [hq.arena, Arena.find?_setItems (hq.splices h).old] at hm
  split at hm
  · obtain rfl := Option.some.inj hm
    rfl
  · exact hk n m hn hm

/-- An element that keeps its glue is left alone when the glue is refreshed. -/
theorem refresh_eq (hq : Exchange p x c s r b t q) (h : p.Synced) (hk : p.KeepsGlue x)
    (hr : Refresh q x q') : q' = q := by
  cases hr with
  | keep => rfl
  | @renew n payload glue d hn hneed =>
    have keeps {m : Node} (hm : q.arena.find? n = some m) : m.payload.keepsGlue = true :=
      hq.keepsGlue h hk n m hn hm
    cases Page.needs_of_neededGlue? hneed with
    | element hm => cases keeps hm
    | link hm => cases keeps hm

/-- The text of the page changes where nodes have given way to others. -/
theorem exists_texts [Entities] (hq : Exchange p x c s r b t q) (h : p.Synced) (hw : p.arena.Worded source)
    (hx : p.OnPage x) : ∃ before left right behind, p.arena.Stands c before behind ∧
      Node.joined (s.map p.arena.print) = .ok left ∧ Node.joined (t.map p.arena.print) = .ok right ∧
      ∀ old new, Node.joined (r.map p.arena.print) = .ok old →
        Node.joined (b.map p.arena.print) = .ok new →
        p.Rewrites q (before ++ left) old new (right ++ behind) := by
  have hs := hq.synced h
  obtain ⟨before, left, right, behind, hstands, hl, hr, hold, hnew⟩ := (hq.splices h).exists_texts
    h.sound hs.sound.founded hw (hx.reaches_container h hq.container)
  refine ⟨before, left, right, behind, hstands, hl, hr, fun old new ho hn =>
    ⟨Page.source_eq (hold old ho), Page.source_eq (hnew new ?_)⟩⟩
  rwa [List.map_congr_left fun m hm => hq.print_eq h hm]

end Exchange

end Edit

namespace Page

/-- The text of the page is cut where a new child of an element is printed: at the beginning or the end
of its container, or next to what a child is printed as. -/
def CutsAt (p : Page) (x : ElementId) (before behind : String) : Position → Prop
  | .first => ∃ c inner rest, p.container? x = some c ∧ p.arena.print c = .ok inner ∧
      p.arena.Stands c before rest ∧ behind = inner ++ rest
  | .last => ∃ c inner rest, p.container? x = some c ∧ p.arena.print c = .ok inner ∧
      p.arena.Stands c rest behind ∧ before = rest ++ inner
  | .before reference => ∃ text rest, p.Shows reference before text rest ∧ behind = text ++ rest
  | .after reference => ∃ text rest, p.Shows reference rest text behind ∧ before = rest ++ text

end Page

namespace Edit

open Page (OnPage KeepsGlue CutsAt)

variable {p q q' : Page} {x y w : ElementId} {c n : NodeId} {s t : List NodeId} {source : String}

theorem cutsAt_of_gap [Entities] (h : p.Synced) (hw : p.arena.Worded source) {position : Position}
    {before left right behind : String} (hc : p.container? x = some c) (hk : p.arena.kids c = s ++ t)
    (hgap : Gap p s t position) (hs : p.arena.Stands c before behind)
    (hl : Node.joined (s.map p.arena.print) = .ok left)
    (hr : Node.joined (t.map p.arena.print) = .ok right) :
    p.CutsAt x (before ++ left) (right ++ behind) position := by
  have hf := h.sound.founded
  obtain ⟨items, hi⟩ := h.find?_container hc
  obtain rfl : items = s ++ t := (Arena.kids_of_find? hi).symm.trans hk
  have hprint : p.arena.print c = .ok (left ++ right) := by
    rw [hf.print_list hi, List.map_append]
    exact Node.joined_append hl hr
  -- what is printed of some of the items
  have printed (items : List NodeId) (hsub : items ⊆ p.arena.kids c) :
      ∃ text, Node.joined (items.map p.arena.print) = .ok text :=
    hf.exists_joined hw fun m hm => h.sound.closed c m (hsub hm)
  cases position with
  | first =>
    subst hgap
    obtain rfl := Except.ok.inj hl
    exact ⟨c, right, behind, hc, by simpa using hprint, by simpa using hs, rfl⟩
  | last =>
    subst hgap
    obtain rfl := Except.ok.inj hr
    exact ⟨c, left, before, hc, by simpa using hprint, by simpa using hs, rfl⟩
  | before reference =>
    obtain ⟨m, t', hm, rfl⟩ := hgap
    obtain ⟨text, ht⟩ := hf.exists_print hw (h.backing_lt hm)
    obtain ⟨rest, hrest⟩ := printed t' (by simp [hk])
    obtain rfl : right = text ++ rest := by
      rw [List.map_cons, ht] at hr
      exact Except.ok.inj (hr.symm.trans (Node.joined_append (Node.joined_one text) hrest))
    exact ⟨text, rest ++ behind, ⟨m, hm, ht, hs.item hi hl hrest⟩, String.append_assoc ..⟩
  | after reference =>
    obtain ⟨m, s', hm, rfl⟩ := hgap
    obtain ⟨text, ht⟩ := hf.exists_print hw (h.backing_lt hm)
    obtain ⟨rest, hrest⟩ := printed s' (by simp [hk])
    obtain rfl : left = rest ++ text := by
      rw [List.map_append, List.map_singleton, ht] at hl
      exact Except.ok.inj (hl.symm.trans (Node.joined_append hrest (Node.joined_one text)))
    rw [List.append_assoc, List.singleton_append] at hi
    exact ⟨text, before ++ rest, ⟨m, hm, ht, hs.item hi hrest hr⟩, (String.append_assoc ..).symm⟩

theorem setText_local [Entities] (h : p.Synced) (hw : p.arena.Worded source) (hb : p.arena.TextsBare)
    (hx : p.OnPage x) {e : Element} (he : p.find? x = some e) (hk : e.kind = .text) (new : String) :
    ∃ before text behind q, p.Shows x before text behind ∧ setText x new p = .ok () q ∧
      p.Rewrites q before text new behind := by
  obtain ⟨n, hn⟩ := h.exists_backing_of_movable he (hk ▸ rfl)
  obtain ⟨text, ht⟩ := h.sound.founded.exists_print hw (h.backing_lt hn)
  have hreach := hx.reaches h hn
  obtain ⟨_, q, hok, hcalm, hset⟩ := (ends_setText h he hk hn (s := new)).exists_ok
  have hq := hcalm.synced.sound.founded
  have prints {m : NodeId} (hm : q.arena.find? m = some ⟨.text new, none⟩) :
      q.arena.print m = .ok new := by
    rw [hq.print_eq hm]
    rfl
  generalize hqa : q.arena = a at hset
  cases hset with
  | @stored old g hold =>
    obtain rfl := hb hold
    obtain ⟨before, behind, hs⟩ := h.sound.exists_stands hw hreach
    have hagrees : p.arena.AgreesBut q.arena (· = n) := fun y m hy hm => by
      rw [hqa, Arena.setPayload, Arena.find?_modify, if_neg hy, hm]
    refine ⟨before, text, behind, q, ⟨n, hn, ht, hs⟩, hok,
      Page.source_eq (hs.printPage h.sound.founded ht), Page.source_eq ?_⟩
    refine (hagrees.stands h.sound.toIsForest hq (fun y hy => hy ▸ .refl) hs).printPage hq (prints ?_)
    rw [hqa, Arena.setPayload, Arena.find?_modify, if_pos rfl, hold]
    rfl
  | @replaced c u v hc =>
    have hnc : n ∈ p.arena.kids c := by
      rw [Arena.kids_of_find? hc]
      simp [Payload.children]
    have hcr : Reaches p.arena.kids Arena.root c := by
      rcases Relation.ReflTransGen.cases_tail hreach with rfl | ⟨z, hz, hzn⟩
      · exact absurd hnc (h.loose h.root_parent h.root_backing c)
      · exact h.sound.single hnc hzn ▸ hz
    have hold {y : NodeId} {m : Node} (hm : p.arena.find? y = some m) :
        (p.arena.push ⟨.text new, none⟩).find? y = some m :=
      ((Arena.Extends.push p.arena _).find?_eq y (Arena.index_lt_of_find? hm)).trans hm
    have hc' : (p.arena.push ⟨.text new, none⟩).find? c = some ⟨.list (u ++ n :: v), none⟩ := hold hc
    have hsplices : p.arena.Splices q.arena c u [n] [p.arena.next] v := by
      refine .of_find? (by simpa using hc) ?_ fun y m hy hm => ?_
      · rw [hqa, Arena.find?_setItems hc', if_pos rfl]
        simp
      · rw [hqa, Arena.find?_setItems hc', if_neg hy, hold hm]
    have hnew : q.arena.find? p.arena.next = some ⟨.text new, none⟩ := by
      rw [hqa, Arena.find?_setItems hc', if_neg, Arena.find?_push_next]
      rintro rfl
      cases (Arena.find?_push_next p.arena _).symm.trans hc'
    obtain ⟨before, left, right, behind, hs, hl, hr, -, hsource⟩ := hsplices.exists_texts h.sound hq hw hcr
    have hst := hs.item hc hl hr
    refine ⟨before ++ left, text, right ++ behind, q, ⟨n, hn, ht, hst⟩, hok,
      Page.source_eq (hst.printPage h.sound.founded ht), Page.source_eq (hsource new ?_)⟩
    rw [List.map_singleton, prints hnew, Node.joined_one]
  | loose hp =>
    rcases Relation.ReflTransGen.cases_tail hx with rfl | ⟨z, -, hz⟩
    · obtain ⟨k, -⟩ := Prod.mk.inj (Option.some.inj ((Page.form?_of_find? he).symm.trans h.root_form))
      cases hk.symm.trans k
    · cases hp.symm.trans (h.parent_iff.2 hz)

theorem insertChild_local [Entities] (h : p.Synced) (hw : p.arena.Worded source) (hx : p.OnPage x)
    (hk : p.KeepsGlue x) {position : Position} (hok : insertChild x y position p = .ok () q) :
    ∃ before text behind, p.PrintsAs y text ∧ p.CutsAt x before behind position ∧
      p.Rewrites q before "" text behind := by
  obtain ⟨c, n, s, t, q', hn, hq, hgap, hr⟩ := (ends_insertChild_exchange h).of_ok hok
  obtain rfl := hq.refresh_eq h hk hr
  obtain ⟨text, ht⟩ := h.sound.founded.exists_print hw (h.backing_lt hn)
  obtain ⟨before, left, right, behind, hs, hl, hright, htexts⟩ := hq.exists_texts h hw hx
  have hkids : p.arena.kids c = s ++ t := by simpa using hq.kids
  exact ⟨_, text, _, ⟨n, hn, ht⟩, cutsAt_of_gap h hw hq.container hkids hgap hs hl hright,
    htexts "" text rfl (by rw [List.map_singleton, ht, Node.joined_one])⟩

theorem keepCategories_of_unlinked [Entities] (h : p.Recorded) {b : List NodeId}
    (hq : Exchange p x c s [n] b t q) (hn : p.backing? y = some n) (hr : Refreshed q x q')
    (hu : ∀ m, p.Linked m → ¬Reaches p.arena.kids n m) :
    Ends (keepCategories n) q' (fun _ r => r = q') fun _ _ => False := by
  have hcut := hq.cut_refreshed h.toSynced hn hr
  have hnil : q'.linkedWithin n = [] := by
    rw [hq.linkedWithin_eq h.toSynced hr, List.eq_nil_iff_forall_not_mem]
    intro z hz
    obtain ⟨l, hl, hreach⟩ := h.mem_linkedWithin.1 hz
    exact hu _ (Page.linked_iff.2 ⟨z, List.mem_map_of_mem hl⟩) hreach
  have hok := (hcut.toSameRecords.leads h hcut.synced hcut.mirrored).recorded.categoriesWithin_eq_ok
    hcut.known
  refine Ends.bind (ends_ask (fun ids hids => ?_) fun _ he => by cases he.symm.trans hok)
  obtain rfl := Except.ok.inj (hok.symm.trans hids)
  rw [hnil]
  exact Ends.pure rfl

/-- An element has no link of a category at or below its node. -/
def Unlinked (p : Page) (y : ElementId) : Prop :=
  ∀ n, p.backing? y = some n → ∀ m, p.Linked m → ¬Reaches p.arena.kids n m

/-- A child that gives way leaves the text around it. -/
theorem Exchange.exists_texts_of_child [Entities] {b : List NodeId} (hq : Exchange p x c s [n] b t q)
    (h : p.Synced) (hw : p.arena.Worded source) (hx : p.OnPage x) (hn : p.backing? y = some n) {new : String}
    (hnew : Node.joined (b.map p.arena.print) = .ok new) :
    ∃ before text behind, p.Shows y before text behind ∧ p.Rewrites q before text new behind := by
  obtain ⟨text, ht⟩ := h.sound.founded.exists_print hw (h.backing_lt hn)
  obtain ⟨before, left, right, behind, hs, hl, hr, htexts⟩ := hq.exists_texts h hw hx
  have hc : p.arena.find? c = some ⟨.list (s ++ n :: t), none⟩ := by simpa using (hq.splices h).old
  exact ⟨_, text, _, ⟨n, hn, ht, hs.item hc hl hr⟩,
    htexts text new (by rw [List.map_singleton, ht, Node.joined_one]) hnew⟩

theorem removeChild_local [Entities] (h : p.Recorded) (hw : p.arena.Worded source) (hx : p.OnPage x)
    (hk : p.KeepsGlue x) (hu : Unlinked p y) :
    Ends (removeChild x y) p (fun _ q => ∃ before text behind, p.Shows y before text behind ∧
      p.Rewrites q before text "" behind) fun _ _ => True := by
  have hp := h.toSynced
  refine ends_removeChild_exchange hp (fun c n s t q q' hn hq hr => ?_) fun _ _ _ => trivial
  refine (keepCategories_of_unlinked h hq hn (hr.refreshed (hq.synced hp)) (hu n hn)).mono
    (fun _ r hr' => ?_) fun _ _ _ => trivial
  obtain rfl : r = q := hr'.trans (hq.refresh_eq hp hk hr)
  exact hq.exists_texts_of_child hp hw hx hn rfl

theorem replaceChild_local [Entities] (h : p.Recorded) (hw : p.arena.Worded source) (hx : p.OnPage x)
    (hk : p.KeepsGlue x) (hu : Unlinked p y) :
    Ends (replaceChild x w y) p (fun _ q => ∃ before text new behind, p.Shows y before text behind ∧
      p.PrintsAs w new ∧ p.Rewrites q before text new behind) fun _ _ => True := by
  have hp := h.toSynced
  refine ends_replaceChild_exchange hp (fun c n n' s t q q' hn hn' hq hr => ?_) fun _ _ _ => trivial
  refine (keepCategories_of_unlinked h hq hn (hr.refreshed (hq.synced hp)) (hu n hn)).mono
    (fun _ r hr' => ?_) fun _ _ _ => trivial
  obtain rfl : r = q := hr'.trans (hq.refresh_eq hp hk hr)
  obtain ⟨new, hnew⟩ := hp.sound.founded.exists_print hw (hp.backing_lt hn')
  obtain ⟨before, text, behind, hshows, htexts⟩ :=
    hq.exists_texts_of_child hp hw hx hn (by rw [List.map_singleton, hnew, Node.joined_one])
  exact ⟨before, text, new, behind, hshows, ⟨n', hn', hnew⟩, htexts⟩

end Edit

namespace Page

variable {p : Page} {site : Site}

/-- Edits of texts and children change the text of the page at one place: at the text, at the place for
the new child, or at the child that gives way. -/
structure EditsLocally (p : Page) : Prop where
  setText : ∀ {x e}, p.OnPage x → p.find? x = some e → e.kind = .text → ∀ new,
    ∃ before text behind q, p.Shows x before text behind ∧ Edit.setText x new p = .ok () q ∧
      p.Rewrites q before text new behind
  insertChild : ∀ {x y position q}, p.OnPage x → p.KeepsGlue x →
    Edit.insertChild x y position p = .ok () q →
    ∃ before text behind, p.PrintsAs y text ∧ p.CutsAt x before behind position ∧
      p.Rewrites q before "" text behind
  removeChild : ∀ {x y q}, p.OnPage x → p.KeepsGlue x → Edit.Unlinked p y →
    Edit.removeChild x y p = .ok () q →
    ∃ before text behind, p.Shows y before text behind ∧ p.Rewrites q before text "" behind
  replaceChild : ∀ {x w y q}, p.OnPage x → p.KeepsGlue x → Edit.Unlinked p y →
    Edit.replaceChild x w y p = .ok () q →
    ∃ before text new behind, p.Shows y before text behind ∧ p.PrintsAs w new ∧
      p.Rewrites q before text new behind

/-- On a page that is reached, what is outside the place of an edit keeps its spelling. -/
theorem editsLocally_reached [Entities] (h : p.Reached site) : p.EditsLocally := by
  have hr := h.orderly.recorded
  have hp := hr.toSynced
  obtain ⟨source, hw⟩ := h.exists_worded
  exact ⟨fun hx => Edit.setText_local hp hw h.textsBare hx,
    fun hx hk hok => Edit.insertChild_local hp hw hx hk hok,
    fun hx hk hu hok => (Edit.removeChild_local hr hw hx hk hu).of_ok hok,
    fun hx hk hu hok => (Edit.replaceChild_local hr hw hx hk hu).of_ok hok⟩

theorem editsLocally_reached_sample : sample.Reached .default ∧ sample.EditsLocally :=
  ⟨reached_sample, editsLocally_reached reached_sample⟩

end Page
end WikiPage
