import WikiPage.Page.Property
import WikiPage.Proofs.Creation

/-!
# Values

Attributes are set, removed and read as properties. Only the name of a category has to do with the
links of the page; every other value leaves the categories alone.
-/

namespace WikiPage

open Page (Synced)

namespace Attribute

variable {l : List Attribute} {a : Attribute} {name : String} {n : NodeId}

theorem mem_of_mem_erase {b : Attribute} (h : b ∈ erase l name) : b ∈ l :=
  List.eraseP_sublist.subset h

theorem mem_erase_nodes (h : n ∈ l.filterMap node) :
    n ∈ (erase l name).filterMap node ∨ (find? l name).bind node = some n := by
  induction l with
  | nil => cases h
  | cons b bs ih =>
    obtain ⟨c, hc, hn⟩ := List.mem_filterMap.1 h
    rw [erase, List.eraseP_cons, cond_eq_ite]
    split
    · rcases List.mem_cons.1 hc with rfl | hc
      · exact .inr (by simp_all [find?])
      · exact .inl (List.mem_filterMap.2 ⟨c, hc, hn⟩)
    · rcases List.mem_cons.1 hc with rfl | hc
      · exact .inl (List.mem_filterMap.2 ⟨c, List.mem_cons_self .., hn⟩)
      · refine (ih (List.mem_filterMap.2 ⟨c, hc, hn⟩)).imp (fun hm => ?_) fun hf => ?_
        · exact ((List.sublist_cons_self b _).filterMap node).subset hm
        · simpa [find?, *] using hf

theorem nodes_erase_sublist (l : List Attribute) (name : String) :
    ((erase l name).filterMap node).Sublist (l.filterMap node) :=
  List.eraseP_sublist.filterMap node

theorem erase_of_find? (h : find? l name = none) : erase l name = l :=
  List.eraseP_of_forall_not fun b hb => List.find?_eq_none.1 h b hb

theorem find?_erase (hl : (l.map Attribute.name).Nodup) : find? (erase l name) name = none := by
  induction l with
  | nil => rfl
  | cons b bs ih =>
    rw [List.map_cons, List.nodup_cons] at hl
    rw [erase, List.eraseP_cons, cond_eq_ite]
    split
    · rename_i hb
      refine List.find?_eq_none.2 fun c hc hcn => hl.1 ?_
      rw [beq_iff_eq.1 hb, ← beq_iff_eq.1 hcn]
      exact List.mem_map_of_mem hc
    · rename_i hb
      have hbs : find? (bs.eraseP (·.name == name)) name = none := ih hl.2
      simpa [find?, hb] using hbs

theorem not_mem_nodes_erase (hl : (l.filterMap node).Nodup) (h : find? l name = some a)
    (hn : a.node = some n) : n ∉ (erase l a.name).filterMap node := by
  obtain ⟨-, s, t, rfl, hs⟩ := List.find?_eq_some_iff_append.1 h
  have hname := name_of_find? h
  have herase : erase (s ++ a :: t) a.name = s ++ t := by
    rw [erase, List.eraseP_append_right _ (by simpa [hname] using hs)]
    simp
  rw [herase, List.filterMap_append]
  rw [List.filterMap_append, List.filterMap_cons_some hn, List.nodup_middle, List.nodup_cons] at hl
  exact hl.1

end Attribute

namespace Arena

variable {a b : Arena}

theorem Sound.inscribes_setItems (h : a.Sound) {tag list : NodeId} {m : Node}
    (hm : a.find? tag = some m) (hs : (list, Role.attributes) ∈ m.payload.slots)
    {items old : List NodeId} {g : Option Glue} (hl : a.find? list = some ⟨.list old, g⟩)
    (hb : (a.setItems list items).Sound) {x : NodeId} {written s : String}
    (hx : a.Inscribes x written s) : (a.setItems list items).Inscribes x written s := by
  obtain ⟨hasValue, v, g, hf, -⟩ := id hx
  refine hx.of_payload h hb fun {y} hr => ?_
  rw [find?_setItems hl, if_neg]
  rintro rfl
  rcases h.cases_of_reaches_attr hf hr with rfl | rfl | ⟨-, my, hmy, hadm⟩
  · cases hl.symm.trans hf
  · cases (h.role_unique hf hm (List.mem_singleton_self _) hs).2
  · obtain rfl := Option.some.inj (hl.symm.trans hmy)
    cases hadm

theorem Mirrors.erase {whole : Prop} {kind : Kind} {backing : Option Backing} {l : List Attribute}
    (h : a.Mirrors whole kind backing l) (hk : kind ≠ .link) {name : String}
    (hi : ∀ {n written s}, a.Inscribes n written s → b.Inscribes n written s)
    (hl : ∀ {c}, b.attributeList? backing = some c → a.attributeList? backing = some c ∧
      ∀ y ∈ b.kids c, y ∈ a.kids c ∧ (Attribute.find? l name).bind Attribute.node ≠ some y) :
    b.Mirrors whole kind backing (Attribute.erase l name) where
  lower t ht := h.lower t (Attribute.mem_of_mem_erase ht)
  nodup := (List.eraseP_sublist.map Attribute.name).nodup h.nodup
  bare hk hn := by
    rw [h.bare hk hn]
    rfl
  written hk hn t ht := by
    obtain ⟨m, hnode, written, s, policy, hs, hr⟩ := h.written hk hn t (Attribute.mem_of_mem_erase ht)
    exact ⟨m, hnode, written, s, policy, hi hs, hr⟩
  whole hwh hk c hbc y hy := by
    obtain ⟨hac, hkids⟩ := hl hbc
    obtain ⟨hya, hne⟩ := hkids y hy
    exact (Attribute.mem_erase_nodes (h.whole hwh hk hac hya)).resolve_right hne
  target hk' := absurd hk' hk

end Arena

namespace Page.Synced

variable {p : Page} {c n : NodeId}

/-- An attribute that is no longer recorded can be taken out of its tag. -/
theorem steady_removeWritten (h : p.Synced) {tag : NodeId} {m : Node} {s t : List NodeId}
    (hm : p.arena.find? tag = some m) (hs : (c, Role.attributes) ∈ m.payload.slots)
    (hc : p.arena.find? c = some ⟨.list (s ++ n :: t), none⟩) (hn : ∀ x, n ∉ p.writtenOf x) :
    p.Steady { p with arena := p.arena.setItems c (s ++ t) } := by
  have hkids : n ∈ p.arena.kids c := by simp [Arena.kids_of_find? hc, Payload.children]
  have hroot : c ≠ Arena.root := by
    rintro rfl
    obtain ⟨g, hp⟩ := h.find?_page
    cases hc.symm.trans hp
  have hcont (x : ElementId) : p.container? x ≠ some c := fun hx => by
    cases h.role_of_container hx hm hs
  refine h.steady_setItems hc
    (h.remove_other hc (fun x hx => h.backing_not_mem hcont hroot hx hkids) hn)
    (fun {y k} hk hy hr => ?_) fun y hy => .inl ?_
  swap
  · simp only [List.mem_append, List.mem_cons] at hy ⊢
    tauto
  have hne : y ≠ n := by
    rintro rfl
    obtain ⟨items, hi, ha⟩ := (h.sound.fits hm).lists _ hs
    rw [Arena.kids_of_find? hi] at hkids
    exact h.not_isAttributePart hk hr (.inl (ha y hkids))
  simp only [List.mem_append, List.mem_cons] at hy ⊢
  tauto

end Page.Synced

namespace Edit

variable {p : Page} {id : ElementId}

/-- The page with an attribute struck off the record of an element. -/
def struck (p : Page) (id : ElementId) (name : String) : Page :=
  p.update id fun e => { e with attributes := Attribute.erase e.attributes name }

theorem steady_struck (h : p.Synced) (hid : ¬p.IsCategory id) {name : String} :
    p.Steady (struck p id name) := by
  refine steady_setAttributes h hid (f := fun e => Attribute.erase e.attributes name) fun e he => ?_
  have hs := Attribute.nodes_erase_sublist e.attributes name
  have hw := Page.writtenOf_of_find? he ▸ h.written id
  exact ⟨hs.nodup hw.1, fun n hn => hw.2 n (hs.subset hn)⟩

theorem find?_struck {e : Element} (he : p.find? id = some e) (name : String) (x : ElementId) :
    (struck p id name).find? x = if x = id then
      some { e with attributes := Attribute.erase e.attributes name } else p.find? x := by
  rw [struck, Page.find?_update]
  split
  · subst x
    rw [he]
    rfl
  · rfl

theorem calm_struck (h : p.Synced) (hid : ¬p.IsCategory id) {e : Element} (he : p.find? id = some e)
    (hk : e.kind ≠ .link) {name : String}
    (hn : (Attribute.find? e.attributes name).bind Attribute.node = none) :
    p.Calm (struck p id name) := by
  refine ⟨steady_struck h hid, fun hm x d hd => ?_⟩
  rw [find?_struck he] at hd
  split at hd
  · obtain rfl := Option.some.inj hd
    exact (hm id e he).erase hk (fun hs => hs) fun hl => ⟨hl, fun y hy => ⟨hy, by simp [hn]⟩⟩
  · exact hm x d hd

theorem steady_struck_remove (h : p.Synced) (hid : ¬p.IsCategory id) {e : Element}
    (he : p.find? id = some e) {name : String} {a : Attribute} {n c : NodeId} {s t : List NodeId}
    (ha : Attribute.find? e.attributes name = some a) (hn : a.node = some n)
    (hc : p.attributeList? id = some c) (hl : p.arena.find? c = some ⟨.list (s ++ n :: t), none⟩) :
    p.Steady { struck p id a.name with arena := p.arena.setItems c (s ++ t) } := by
  have hst : p.Steady (struck p id a.name) := steady_struck h hid
  obtain ⟨k, tag, m, -, hm, hs⟩ := Page.exists_of_attributeList? hc
  have hwritten (x : ElementId) :
      (struck p id a.name).writtenOf x ⊆ p.writtenOf x := by
    rw [struck, Page.writtenOf, Page.writtenOf, Page.find?_update]
    split
    · cases p.find? x with
      | none => exact List.Subset.refl _
      | some e => exact (Attribute.nodes_erase_sublist e.attributes a.name).subset
    · exact List.Subset.refl _
  refine hst.trans (hst.synced.steady_removeWritten (p := struck p id a.name) hm hs hl fun x hx => ?_)
  have hnid : n ∈ p.writtenOf id := by
    rw [Page.writtenOf_of_find? he]
    have hfind : (Attribute.find? e.attributes name).bind Attribute.node = some n := by
      rw [ha, Option.bind_some, hn]
    exact Attribute.mem_nodes_of_find? hfind
  obtain rfl := h.written_inj (hwritten x hx) hnid
  rw [struck, Page.writtenOf, Page.find?_update, if_pos rfl, he] at hx
  exact Attribute.not_mem_nodes_erase (Page.writtenOf_of_find? he ▸ (h.written x).1) ha hn hx

theorem calm_struck_remove (h : p.Synced) (hid : ¬p.IsCategory id) {e : Element}
    (he : p.find? id = some e) (hk : e.kind ≠ .link) {name : String} {a : Attribute} {n c : NodeId}
    {s t : List NodeId} (ha : Attribute.find? e.attributes name = some a) (hn : a.node = some n)
    (hc : p.attributeList? id = some c) (hl : p.arena.find? c = some ⟨.list (s ++ n :: t), none⟩) :
    p.Calm { struck p id a.name with arena := p.arena.setItems c (s ++ t) } := by
  have hst := steady_struck_remove h hid he ha hn hc hl
  refine ⟨hst, fun hm x d hd => ?_⟩
  obtain ⟨k, tag, m, -, hmt, hs⟩ := Page.exists_of_attributeList? hc
  have hins {y : NodeId} {written s' : String} (hy : p.arena.Inscribes y written s') :=
    h.sound.inscribes_setItems hmt hs hl hst.synced.sound hy
  have hev := Arena.evolves_setItems hl (s ++ t)
  have hkc : p.arena.kids c = s ++ n :: t := Arena.kids_of_find? hl
  have hkids (y : NodeId) : (p.arena.setItems c (s ++ t)).kids y =
      if y = c then s ++ t else p.arena.kids y := Arena.kids_setItems (Arena.index_lt_of_find? hl) _ y
  change (struck p id a.name).find? x = some d at hd
  rw [find?_struck he] at hd
  split at hd
  · obtain rfl := Option.some.inj hd
    have hf := Page.form?_of_find? he
    refine (hm id e he).erase hk hins fun {l} hbl => ?_
    rw [hev.attributeList?_eq (h.writes hf)] at hbl
    rw [Page.attributeList?_of_form? hf] at hc
    obtain rfl := Option.some.inj (hc.symm.trans hbl)
    refine ⟨hbl, fun y hy => ?_⟩
    rw [hkids, if_pos rfl] at hy
    have hnd := hkc ▸ h.sound.nodup c
    rw [List.nodup_middle, List.nodup_cons] at hnd
    refine ⟨hkc ▸ ?_, fun hyn => hnd.1 ?_⟩
    · simp only [List.mem_append, List.mem_cons] at hy ⊢
      tauto
    rw [Attribute.name_of_find? ha, ha, Option.bind_some, hn] at hyn
    exact Option.some.inj hyn ▸ hy
  · rename_i hne
    have hf := Page.form?_of_find? hd
    refine (hm x d hd).transport (fun _ hs => hins hs) (fun {l} hbl => ?_) fun _ _ => Arena.target?_setItems hl _
    rw [hev.attributeList?_eq (h.writes hf)] at hbl
    refine ⟨hbl, ?_⟩
    rw [hkids, if_neg]
    rintro rfl
    have hx : p.attributeList? x = some l := by rwa [Page.attributeList?_of_form? hf]
    exact hne (h.attributeList?_inj hx hc)

/-- An element has an attribute no more. -/
structure Removed (p : Page) (id : ElementId) (name : String) (q : Page) : Prop where
  calm : p.Calm q
  element : ∃ e policy, p.find? id = some e ∧ Policy.find? e.kind name = some policy ∧
    q.find? id = some { e with attributes := Attribute.erase e.attributes name.toLower }

/-- How an attribute is removed: from the record, and out of the tag if it stands there. -/
inductive Strikes (p : Page) (id : ElementId) (e : Element) (key : String) : Option String → Page → Prop
  | absent (h : Attribute.find? e.attributes key = none) : Strikes p id e key none p
  | stored {a : Attribute} (h : Attribute.find? e.attributes key = some a) (hn : a.node = none) :
    Strikes p id e key (some a.value) (struck p id a.name)
  | written {a : Attribute} {n c : NodeId} {s t : List NodeId}
    (h : Attribute.find? e.attributes key = some a) (hn : a.node = some n)
    (hc : p.attributeList? id = some c) (hl : p.arena.find? c = some ⟨.list (s ++ n :: t), none⟩) :
    Strikes p id e key (some a.value) { struck p id a.name with arena := p.arena.setItems c (s ++ t) }

theorem ends_removeAttribute_run (h : p.Synced) {name : String} :
    Ends (removeAttribute id name) p
      (fun old q => ∃ e policy, p.find? id = some e ∧ p.policy id name = .ok policy ∧
        policy.removable = true ∧ Strikes p id e name.toLower old q)
      fun err q => q = p ∧ (p.policy id name = .error err ∨ ∃ policy, p.policy id name = .ok policy ∧
        policy.removable = false ∧ err = .unsupported (.removeAttribute name)) := by
  refine Ends.bind (ends_ask (fun policy hp => ?_) fun err herr => ⟨rfl, .inl herr⟩)
  obtain ⟨e, he, -⟩ := exists_of_policy hp
  split
  case isTrue hremovable =>
    exact Ends.bind (Ends.throw ⟨rfl, .inr ⟨policy, hp, by simpa using hremovable, rfl⟩⟩)
  case isFalse hremovable =>
  have hremovable : policy.removable = true := by simpa using hremovable
  have hstored : p.attribute? id name = .ok (Attribute.find? e.attributes name.toLower) := by
    simp [Page.attribute?, Page.get_eq_ok_iff.2 he, Except.map]
  refine Ends.bind (ends_ask (fun a ha => ?_) fun _ herr => by cases herr.symm.trans hstored)
  obtain rfl := Except.ok.inj (hstored.symm.trans ha)
  cases ha : Attribute.find? e.attributes name.toLower with
  | none => exact Ends.pure ⟨e, policy, he, hp, hremovable, .absent ha⟩
  | some a =>
    obtain ⟨key, value, node⟩ := a
    cases node with
    | none =>
      refine Ends.bind (ends_update (fun _ _ => ?_) fun hno => by cases hno.symm.trans he)
      exact Ends.pure ⟨e, policy, he, hp, hremovable, .stored ha rfl⟩
    | some n =>
      have hnid : n ∈ p.writtenOf id := by
        rw [Page.writtenOf_of_find? he]
        have hfind : (Attribute.find? e.attributes name.toLower).bind Attribute.node = some n := by
          rw [ha, Option.bind_some]
        exact Attribute.mem_nodes_of_find? hfind
      obtain ⟨c, hc, hmem⟩ := h.exists_of_written hnid
      have hlist := Page.attributeList_of_attributeList? hc
      obtain ⟨k, tag, m, -, hm, hs⟩ := Page.exists_of_attributeList? hc
      obtain ⟨items, hi⟩ := h.sound.find?_slot hm hs
      have hki : p.arena.kids c = items := Arena.kids_of_find? hi
      obtain ⟨s, t, rfl, hremove⟩ :=
        Arena.removeItem_eq_ok hi (hki ▸ h.sound.nodup c) (hki ▸ hmem)
      refine Ends.bind (ends_ask (fun _ hok => ?_) fun _ herr => by cases herr.symm.trans hlist)
      obtain rfl := Except.ok.inj (hlist.symm.trans hok)
      refine Ends.bind (ends_surgery (Surgery.ends_change (fun b hb => ?_) fun _ herr => by
        cases herr.symm.trans hremove))
      obtain rfl := Except.ok.inj (hremove.symm.trans hb)
      refine Ends.bind (ends_update (fun _ _ => ?_) fun hno => by cases hno.symm.trans he)
      exact Ends.pure ⟨e, policy, he, hp, hremovable, .written ha rfl hc hi⟩

theorem ends_removeAttribute (h : p.Synced) {name : String} :
    Ends (removeAttribute id name) p (fun _ q => Removed p id name q) (p.Refuses [id]) := by
  refine (ends_removeAttribute_run h).mono ?_ ?_
  · rintro old q ⟨e, policy, he, hp, hremovable, hq⟩
    obtain ⟨e', he', hpolicy⟩ := exists_of_policy hp
    obtain rfl := Option.some.inj (he.symm.trans he')
    have hlink : e.kind ≠ .link := fun hk => by
      simp [(policy_of_link (hk ▸ hpolicy)).2, targetPolicy] at hremovable
    have hid : ¬p.IsCategory id := fun hid => by
      simp [(policy_of_category (policy_of_isCategory hid hp)).2.2.2.1] at hremovable
    have helement {a : Attribute} (ha : Attribute.find? e.attributes name.toLower = some a) :
        (struck p id a.name).find? id =
          some { e with attributes := Attribute.erase e.attributes name.toLower } := by
      rw [find?_struck he, if_pos rfl, Attribute.name_of_find? ha]
    cases hq with
    | absent ha =>
      refine ⟨h.calm_refl, e, policy, he, hpolicy, ?_⟩
      rwa [Attribute.erase_of_find? ha]
    | @stored a ha hn =>
      refine ⟨calm_struck h hid he hlink ?_, e, policy, he, hpolicy, helement ha⟩
      rw [Attribute.name_of_find? ha, ha, Option.bind_some, hn]
    | written ha hn hc hl =>
      exact ⟨calm_struck_remove h hid he hlink ha hn hc hl, e, policy, he, hpolicy, helement ha⟩
  · rintro err q ⟨rfl, herr | ⟨policy, -, -, rfl⟩⟩
    · refine ⟨rfl, fun hf => ⟨id, List.mem_singleton_self _, ?_⟩⟩
      cases he : q.find? id with
      | none => rfl
      | some e =>
        have := neverFaults_policy he name err herr
        rw [hf] at this
        cases this
    · exact .of_not_isFatal rfl

theorem isCalm_removeAttribute (h : p.Synced) {name : String} :
    IsCalm (removeAttribute id name) p [id] :=
  (ends_removeAttribute h).mono (fun _ _ hq => hq.calm) fun _ _ hq => hq

theorem Relinked.steady {q : Page} {link : NodeId} {target : String} (h : p.Synced)
    (hq : Relinked p link target q) (hl : ¬p.Linked link) : p.Steady q := by
  have hs := hq.synced
  rw [hq.eq] at hs ⊢
  refine h.steady_of_kids hs hq.arena.alike.kids_eq fun {n} hn => ?_
  rw [hq.arena.target, if_neg]
  rintro rfl
  exact hl hn

theorem ends_retarget (h : p.Synced) {o : Option Backing} (hx : p.form? id = some (.link, o))
    {new : String} : Ends (retarget id new) p
      (fun _ q => ∃ link, o = some (.markup link) ∧ Relinked p link new q ∧ ¬p.Linked link)
      fun _ _ => False := by
  obtain ⟨link, target, title, g, rfl, hm⟩ := h.exists_link hx
  have hlink : p.backingNode id = .ok link :=
    Page.backingNode_of_backing? (Page.backing?_of_form? hx)
  have hpayload := Page.payload_of_find? hm
  refine Ends.bind (ends_ask (fun _ hok => ?_) fun _ herr => by cases herr.symm.trans hlink)
  obtain rfl := Except.ok.inj (hlink.symm.trans hok)
  refine Ends.bind (ends_ask (fun _ hok => ?_) fun _ herr => by cases herr.symm.trans hpayload)
  obtain rfl := Except.ok.inj (hpayload.symm.trans hok)
  have hl : ¬p.Linked link := fun hl => h.unlinked hl id (Page.backing?_of_form? hx)
  have hd : Ends (do
      surgery (Surgery.setPayload link (.link new title))
      surgery (Surgery.addGlue link)
      pure ()) p (fun _ q => ∃ l, some (.markup link) = some (Backing.markup l) ∧
        Relinked p l new q ∧ ¬p.Linked l) fun _ _ => False :=
    ends_setTarget h hm fun q hq => Ends.pure ⟨link, rfl, hq, hl⟩
  simpa using hd

end Edit

namespace Verifier

theorem neverFaults_choice (allowed : List String) (s : String) : NeverFaults (choice allowed s) := by
  unfold choice
  extract_lets
  split
  · exact .ok _
  · exact .refuse _

theorem neverFaults_checkAlignment (justify : Bool) (s : String) :
    NeverFaults (checkAlignment justify s) := by
  refine .bind ?_ fun a _ => ?_
  · unfold Alignment.read
    split
    · exact .ok _
    · exact .refuse _
  · split
    · exact .refuse _
    · exact .ok _

theorem neverFaults_checkPageTitle (s : String) : NeverFaults (checkPageTitle s) := by
  refine .bind ?_ fun _ _ => .ok _
  rw [checkTitle]
  split
  · exact .ok _
  · exact .refuse _

end Verifier

namespace Page

variable {p : Page} {id : ElementId} {e : Element}

theorem value?_of_find? (he : p.find? id = some e) (name : String) :
    p.value? id name = .ok ((Attribute.find? e.attributes name.toLower).map Attribute.value) := by
  simp [value?, attribute?, get_eq_ok_iff.2 he, Except.map]

theorem neverFaults_checkCategoryName (he : p.find? id = some e) (s : String) :
    NeverFaults (p.checkCategoryName id s) := by
  refine .bind ?_ fun _ _ => ?_
  · rw [checkCategory]
    split
    · exact .ok _
    · exact .refuse _
  · rw [value?_of_find? he, parent_of_find? he]
    refine .bind (.ok _) fun current _ => .bind (.ok _) fun up _ => ?_
    extract_lets
    split
    · exact .error rfl
    · exact .ok _

theorem checkLinkTarget_of_verify {s t : String} (h : p.verify id s .linkTarget = .ok (some t)) :
    Verifier.checkLinkTarget p.site s = .ok t := by
  rw [verify] at h
  obtain ⟨_, ht, hs⟩ := Except.exists_of_map h
  rw [ht, Option.some.inj hs]

theorem neverFaults_verify (he : p.find? id = some e) (s : String) (v : Verifier) :
    NeverFaults (p.verify id s v) := by
  cases v with
  | any => exact .ok _
  | elementId =>
    refine .map ?_ _
    unfold Verifier.checkId
    extract_lets
    split
    · exact .refuse _
    · exact .ok _
  | language =>
    refine .map ?_ _
    unfold Verifier.checkLanguage
    extract_lets
    split
    · exact .ok _
    · exact .refuse _
  | direction => exact (Verifier.neverFaults_choice _ s).map _
  | alignment => exact (Verifier.neverFaults_checkAlignment _ s).map _
  | blockAlignment => exact (Verifier.neverFaults_checkAlignment _ s).map _
  | shade => exact (Verifier.neverFaults_choice _ s).map _
  | pixels =>
    refine .map ?_ _
    unfold Verifier.checkPixels
    split
    · exact .ok _
    · exact .refuse _
  | length =>
    refine .map (.map ?_ _) _
    unfold Length.read
    split
    · exact .ok _
    · exact .refuse _
  | pageTitle => exact (Verifier.neverFaults_checkPageTitle s).map _
  | pageNamespace =>
    rw [verify, checkNamespace]
    split
    · exact .ok _
    · split
      · exact .ok _
      · exact .refuse _
  | pagePath =>
    rw [verify, checkPath]
    split
    · exact .ok _
    · split
      · exact .ok _
      · exact .refuse _
  | linkTarget => exact (Edit.neverFaults_checkLinkTarget p.site s).map _
  | categoryName => exact neverFaults_checkCategoryName he s

/-- A category is never left without a name. -/
theorem exists_of_checkCategoryName {s : String} {o : Option String}
    (h : p.checkCategoryName id s = .ok o) :
    o = some (normalizeTitle s) ∧ Valid.isCategory (normalizeTitle s) = true := by
  obtain ⟨_, hv, h⟩ := Except.exists_of_bind h
  obtain ⟨current, -, h⟩ := Except.exists_of_bind h
  obtain ⟨up, -, h⟩ := Except.exists_of_bind h
  refine ⟨?_, Edit.isCategory_of_checkCategory hv⟩
  dsimp only at h
  split at h
  · cases h
  · exact (Except.ok.inj h).symm

end Page

namespace Edit

variable {p : Page} {id : ElementId}

theorem calm_store_target (h : p.Synced) {e : Element} (he : p.find? id = some e)
    (hk : e.kind = .link) {value : String} {q : Page}
    (hq : (p.update id (store "target" value)).Steady q) (heq : q.elements =
      (p.update id (store "target" value)).elements) (hkeeps : p.arena.KeepsTags q.arena)
    (ht : ∀ {whole n}, p.Mirrored whole → e.backing = some (.markup n) →
      ∃ t, q.arena.target? n = some t ∧ Normalization.words.apply t = value)
    (hother : ∀ {n}, e.backing ≠ some (.markup n) → q.arena.target? n = p.arena.target? n) :
    p.Calm q := by
  have hf := Page.form?_of_find? he
  have hid : ¬p.IsCategory id := by
    rintro ⟨o, ho⟩
    cases hk.symm.trans (Prod.mk.inj (Option.some.inj (hf.symm.trans ho))).1
  have hst : p.Steady (p.update id (store "target" value)) :=
    steady_setAttributes h hid (f := fun e => (store _ _ e).attributes) fun _ he =>
      written_store h toLower_target he
  refine ⟨hst.trans hq, fun hm => hm.carried h hq.synced.sound hkeeps fun {x d} hd => ?_⟩
  rw [Page.find?, heq] at hd
  change (p.update id (store "target" value)).find? x = some d at hd
  rw [Page.find?_update] at hd
  split at hd
  · subst x
    rw [he] at hd
    obtain rfl := Option.some.inj hd
    have hme := hm id e he
    exact .inr (mirrors_store_target hk hme.lower hme.nodup (ht hm))
  · rename_i hne
    refine .inl ⟨⟨d, hd, rfl, rfl, .inl rfl⟩, fun {n} hx => hother fun hb => hne ?_⟩
    exact h.backing_inj (Page.backing?_of_form? hx) (Page.backing?_of_form? (hb ▸ hf))

theorem isCalm_setAttribute (h : p.Synced) (hid : ¬p.IsCategory id) {name value : String} :
    IsCalm (setAttribute id name value) p [id] := by
  refine Ends.bind (ends_ask_refuses (fun policy hp => ?_) fun hk => ?_)
  swap
  · obtain ⟨e, he⟩ := hk id (List.mem_singleton_self _)
    exact neverFaults_policy he name
  obtain ⟨e, he, hpolicy⟩ := exists_of_policy hp
  refine Ends.bind (ends_ask_refuses (fun verified _ => ?_) fun _ => Page.neverFaults_verify he _ _)
  cases verified with
  | none => exact isCalm_removeAttribute h
  | some verified =>
    cases hr : policy.reaction with
    | none =>
      refine (isCalm_commit h hp hr (policy.normalization.apply_apply verified)).step
        (fun _ _ hq => Ends.bind (Ends.pure (Ends.pure hq))) fun _ _ hq => hq
    | some r =>
      obtain ⟨hs, ⟨rfl, hk⟩ | ⟨rfl, hk⟩⟩ := kind_of_reaction hpolicy hr
      · obtain ⟨hkey, rfl⟩ := policy_of_link (hk ▸ hpolicy)
        refine (ends_commit_of_unsynced hs).step (fun old q hq => ?_) fun _ q hq => by
          cases hq.2.symm.trans he
        obtain ⟨e', he', rfl, rfl⟩ := hq
        obtain rfl := Option.some.inj (he.symm.trans he')
        rw [hkey]
        have hst : (p.update id (store "target" (targetPolicy.normalization.apply verified))).Synced :=
          synced_store h toLower_target
        have hx : (p.update id (store "target" (targetPolicy.normalization.apply verified))).form? id =
            some (.link, e.backing) := by
          rw [Page.form?_update (f := store _ _) fun _ => ⟨rfl, rfl⟩, Page.form?_of_find? he, hk]
        rw [react]
        split
        · rename_i hold
          refine Ends.bind (Ends.pure (Ends.pure (calm_store_target h he hk hst.steady_refl rfl (.refl _)
            (fun {whole n} hm hn => ?_) fun _ => rfl)))
          have ht := (hm id e he).target hk hn
          rw [toLower_target] at hold
          rw [hold] at ht
          obtain ⟨t, hat, heq⟩ := Option.map_eq_some_iff.1 ht.symm
          exact ⟨t, hat, heq⟩
        · refine (ends_retarget hst hx).step (fun _ q hq => Ends.pure ?_) fun _ _ hf => hf.elim
          obtain ⟨link, hb, hq, hl⟩ := hq
          refine calm_store_target h he hk (hq.steady hst hl) (by rw [hq.eq]) hq.arena.keepsTags
            (fun {_ n} _ hn => ?_) fun {n} hn => ?_
          · obtain rfl := Backing.markup.inj (Option.some.inj (hb.symm.trans hn))
            exact ⟨_, (hq.arena.target link).trans (if_pos rfl),
              targetPolicy.normalization.apply_apply verified⟩
          · refine (hq.arena.target n).trans (if_neg ?_)
            rintro rfl
            exact hn hb
      · exact absurd ⟨e.backing, by rw [Page.form?_of_find? he, hk]⟩ hid

/-- A category takes a new name, and then its links do. -/
theorem ends_setAttribute_name_run (hid : p.IsCategory id) {name value : String}
    {Q : Option String → Page → Prop} {E : PageError → Page → Prop}
    (hpolicy : ∀ err, p.policy id name = .error err → E err p)
    (hcheck : ∀ err, p.checkCategoryName id value = .error err → E err p)
    (hf : ∀ new, name.toLower = "name" → p.checkCategoryName id value = .ok (some new) →
      Ends (renameLinks id (p.nameOf? id) (Normalization.words.apply new)) (renamed p id new)
        (fun _ q => Q (p.nameOf? id) q) E) :
    Ends (setAttribute id name value) p Q E := by
  obtain ⟨e, he, hk⟩ := hid.exists_find?
  refine Ends.bind (ends_ask (fun policy hp => ?_) hpolicy)
  obtain ⟨hname, hv, hn, -, hs, hr⟩ := policy_of_category (policy_of_isCategory hid hp)
  rw [hv]
  refine Ends.bind (ends_ask (fun verified hok => ?_) hcheck)
  obtain ⟨rfl, -⟩ := Page.exists_of_checkCategoryName hok
  rw [hn, hr]
  refine (ends_commit_of_unsynced hs).step (fun old q hq => ?_) fun _ q hq => by
    cases hq.2.symm.trans he
  obtain ⟨e', he', rfl, rfl⟩ := hq
  obtain rfl := Option.some.inj (he.symm.trans he')
  have hold : p.nameOf? id =
      (Attribute.find? e.attributes name.toLower.toLower).map Attribute.value := by
    simp [Page.nameOf?, he, hk, hname, toLower_name]
  have hren := hf _ hname hok
  rw [hold] at hren
  rw [renamed, ← hname] at hren
  exact Ends.bind (hren.mono (fun _ _ hq => Ends.pure hq) fun _ _ hq => hq)

theorem ends_setAttribute_name (hid : p.IsCategory id) {name value : String}
    {Q : Option String → Page → Prop} {E : PageError → Page → Prop}
    (hE : ∀ e q, p.Refuses [id] e q → E e q)
    (hf : ∀ new, name.toLower = "name" → p.checkCategoryName id value = .ok (some new) →
      Ends (renameLinks id (p.nameOf? id) (Normalization.words.apply new)) (renamed p id new)
        (fun _ q => Q (p.nameOf? id) q) E) :
    Ends (setAttribute id name value) p Q E := by
  obtain ⟨e, he, -⟩ := hid.exists_find?
  exact ends_setAttribute_name_run hid
    (fun err herr => hE err p (.of_not_isFatal (neverFaults_policy he name err herr)))
    (fun err herr => hE err p (.of_not_isFatal (Page.neverFaults_checkCategoryName he value err herr))) hf

end Edit
end WikiPage
