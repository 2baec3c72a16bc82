import WikiPage.EntityTable
import WikiPage.Proofs.Reached
import WikiPage.Proofs.Shapes

/-!
# Glue never goes stale

What glue says of a node holds on every page that is reached. Most edits leave it so from any page on
which it holds. Where glue is made from a target or a name that is stored, the target has no pipe at its
end, as no name of a category has one; where an attribute is written, it is written under the name that
it has in the tag.
-/

namespace WikiPage

theorem getLast?_ne_of_not_mem {s : String} {c : Char} (h : c ∉ s.toList) :
    s.toList.getLast? ≠ some c := fun hl => h (List.mem_of_getLast? hl)

theorem Verifier.isTarget_of_checkLinkTarget {site : Site} {s t : String}
    (h : checkLinkTarget site s = .ok t) : Valid.isTarget t = true := by
  obtain ⟨_, hv, h⟩ := Except.exists_of_bind h
  obtain rfl : Text.onChars Text.trim s = t := by
    split at h
    · cases h
    · split at h
      · cases h
      · split at h
        · cases h
        · exact Except.ok.inj h
  by_contra hn
  simp [checkTarget, hn, refuse] at hv

theorem Verifier.pipe_not_mem {site : Site} {s t : String} (h : checkLinkTarget site s = .ok t) :
    '|' ∉ t.toList := by
  intro hm
  have ht := isTarget_of_checkLinkTarget h
  rw [Valid.isTarget, Bool.and_eq_true, List.all_eq_true] at ht
  exact Bool.false_ne_true (ht.2 _ hm)

theorem Edit.getLast?_categoryTarget {name : String} (h : '|' ∉ name.toList) (p : Page) :
    (categoryTarget p name).toList.getLast? ≠ some '|' := by
  rw [categoryTarget, String.toList_append, List.getLast?_append]
  cases hn : name.toList.getLast? with
  | none => simp [String.toList_append]
  | some c =>
    rw [Option.some_or, ← hn]
    exact getLast?_ne_of_not_mem h

namespace Page

variable [Entities] {source : String} {p q : Page} {id : ElementId}

/-- What nodes say holds, and no category has a name with a pipe. -/
structure IsGlued (source : String) (p : Page) : Prop where
  worded : p.arena.Worded source
  names : ∀ {x s}, p.nameOf? x = some s → '|' ∉ s.toList

theorem IsGlued.of_sameRecords (h : p.IsGlued source) (hr : p.SameRecords q)
    (hq : q.arena.Worded source) : q.IsGlued source :=
  ⟨hq, fun hx => h.names (hr.nameOf? ▸ hx)⟩

theorem IsGlued.revise (h : p.IsGlued source) (hr : p.Revises id q)
    (hid : ∀ s, q.nameOf? id = some s → '|' ∉ s.toList) (hq : q.arena.Worded source) :
    q.IsGlued source := by
  refine ⟨hq, fun {x s} hx => ?_⟩
  by_cases hne : x = id
  · exact hid s (hne ▸ hx)
  · exact h.names (hr.name hne ▸ hx)

theorem IsGlued.respell {name : String} (h : p.IsGlued source) (hr : p.Respells id name q)
    (hn : '|' ∉ name.toList) (hq : q.arena.Worded source) : q.IsGlued source := by
  refine h.revise hr.toRevises (fun s hs => ?_) hq
  obtain rfl := Option.some.inj (hr.stored.symm.trans hs)
  exact hn

end Page

namespace Surgery

theorem words_addGlue_of_retargeted [Entities] {source : String} {a : Arena} {link title : NodeId}
    {old target : String} {g : Option Glue} (h : a.Worded source)
    (hl : a.find? link = some ⟨.link old title, g⟩) (ht : target.toList.getLast? ≠ some '|') :
    Words source (addGlue link) (a.setPayload link (.link target title)) := by
  have hlink {m : Node} (hm : a.find? link = some m) : m = ⟨.link old title, g⟩ :=
    (Option.some.inj (hl.symm.trans hm)).symm
  refine words_addGlue ((h.but link).modify (fun m hm => by rw [hlink hm]; rfl) _) fun n hn => ?_
  rw [Arena.setPayload, Arena.find?_modify, if_pos rfl, hl] at hn
  obtain rfl := Option.some.inj hn
  exact ht

end Surgery

namespace Edit

open Page (Synced)

variable [Entities] {α β : Type} {source : String} {p : Page} {id : ElementId} {name : String}

/-- An edit after which what nodes say holds, if it ends well. -/
abbrev Words (source : String) (m : Edit α) (p : Page) : Prop :=
  Ends m p (fun _ q => q.arena.Worded source) fun _ _ => True

/-- An edit that leaves it so that what nodes say holds. -/
def KeepsWords (source : String) (m : Edit α) : Prop :=
  ∀ p : Page, p.arena.Worded source → Words source m p

namespace KeepsWords

theorem pure (x : α) : KeepsWords source (pure x : Edit α) := fun _ hw => Ends.pure hw

theorem bind {m : Edit α} {f : α → Edit β} (hm : KeepsWords source m)
    (hf : ∀ x, KeepsWords source (f x)) : KeepsWords source (m >>= f) :=
  fun p hw => (hm p hw).step (fun x q hq => hf x q hq) fun _ _ h => h

theorem ask (f : Page → Except PageError α) : KeepsWords source (ask f) :=
  fun _ hw => ends_ask (fun _ _ => hw) fun _ _ => trivial

theorem update (id : ElementId) (f : Element → Element) : KeepsWords source (update id f) :=
  fun _ hw => ends_update (fun _ _ => hw) fun _ => trivial

theorem modify {f : Page → Page} (hf : ∀ p, (f p).arena = p.arena) :
    KeepsWords source (modify f : Edit Unit) := fun p hw => Ends.modify (hf p ▸ hw)

theorem make (e : Element) : KeepsWords source (make e) := fun _ hw => ends_make hw

theorem surgery {s : Surgery α} (hs : ∀ a : Arena, a.Worded source → Surgery.Words source s a) :
    KeepsWords source (surgery s) := fun p hw => ends_surgery (hs p.arena hw)

theorem change {f : Arena → Except PageError Arena}
    (hf : ∀ a b : Arena, a.Worded source → f a = .ok b → b.Worded source) :
    KeepsWords source (Edit.surgery (Surgery.change f)) :=
  .surgery fun a ha => Surgery.ends_change (fun b hb => hf a b ha hb) fun _ _ => trivial

theorem forM {l : List α} {f : α → Edit Unit} (hf : ∀ x, KeepsWords source (f x)) :
    KeepsWords source (l.forM f) :=
  fun _ hw => Ends.forM_of_keeps (fun x _ q hq => hf x q hq) hw

end KeepsWords

theorem keepsWords_dropLinks (id : ElementId) (kept : Option NodeId) :
    KeepsWords source (dropLinks id kept) := by
  refine (KeepsWords.ask _).bind fun e => (KeepsWords.update _ _).bind fun _ => .forM fun placed => ?_
  split
  · exact .update _ _
  · exact (KeepsWords.change fun _ _ hw hb => hw.removeItem hb).bind fun _ => .modify fun _ => rfl

theorem keepsWords_addLink (id : ElementId) (placed : PlacedLink) :
    KeepsWords source (addLink id placed) :=
  KeepsWords.bind (.modify fun _ => rfl) fun _ => .update _ _

theorem keepsWords_attachCategory (id : ElementId) (name : String) (placed : PlacedLink) :
    KeepsWords source (attachCategory id name placed) :=
  (keepsWords_addLink id placed).bind fun _ => (KeepsWords.update _ _).bind fun _ =>
    (KeepsWords.update _ _).bind fun _ => .modify fun _ => rfl

theorem keepsWords_removeAttribute (id : ElementId) (name : String) :
    KeepsWords source (removeAttribute id name) := by
  have erase (a : Attribute) : KeepsWords source (do
      update id fun e => { e with attributes := Attribute.erase e.attributes a.name }
      pure (some a.value)) := (KeepsWords.update _ _).bind fun _ => .pure _
  refine (KeepsWords.ask _).bind fun policy => ?_
  split
  · exact fun _ _ => Ends.bind (Ends.throw trivial)
  · refine (KeepsWords.ask _).bind fun a => ?_
    rcases a with _ | ⟨_, _, _ | node⟩
    · exact .pure _
    · exact erase _
    · exact (KeepsWords.ask _).bind fun list =>
        (KeepsWords.change fun _ _ hw hb => hw.removeItem hb).bind fun _ => erase _

theorem keepsWords_retarget {new : String} (hn : new.toList.getLast? ≠ some '|') (id : ElementId) :
    KeepsWords source (retarget id new) := by
  refine (KeepsWords.ask _).bind fun link => fun p hw =>
    Ends.bind (ends_ask (fun payload hp => ?_) fun _ _ => trivial)
  obtain ⟨g, hl⟩ := Page.find?_of_payload hp
  cases payload with
  | link old title =>
    refine Ends.bind (ends_surgery (Surgery.ends_setPayload ?_))
    exact ends_surgery (Surgery.words_addGlue_of_retargeted hw hl hn)
  | _ => exact Ends.bind (Ends.throw trivial)

theorem keepsWords_retitle {new : String} (hn : '|' ∉ new.toList) (id : ElementId) (link : NodeId)
    (old : Option String) : KeepsWords source (retitle id link old new) := by
  refine fun p hw => Ends.bind (Ends.get (Ends.bind (ends_ask (fun payload hp => ?_) fun _ _ => trivial)))
  obtain ⟨g, hl⟩ := Page.find?_of_payload hp
  have index : KeepsWords source (modify fun p : Page =>
      { p with categories := p.categories.insert (categoryKey new) id }) := .modify fun _ => rfl
  cases payload with
  | link target title =>
    refine Ends.bind (ends_surgery (Surgery.ends_setPayload (Ends.bind (ends_surgery ?_))))
    refine (Surgery.words_addGlue_of_retargeted hw hl (getLast?_categoryTarget hn p)).mono
      (fun _ b hb => ?_) fun _ _ h => h
    refine ((keepsWords_dropLinks id (some link)).bind fun _ => ?_) _ hb
    cases old with
    | some old => exact KeepsWords.bind (.modify fun _ => rfl) fun _ => index
    | none => exact index
  | _ => exact Ends.bind (Ends.throw trivial)

theorem keepsWords_renameLinks {new : String} (hn : '|' ∉ new.toList) (id : ElementId)
    (old : Option String) : KeepsWords source (renameLinks id old new) := by
  refine (KeepsWords.ask _).bind fun e => ?_
  split
  · exact .pure _
  · refine (KeepsWords.ask _).bind fun named => ?_
    split
    · exact keepsWords_retitle hn id _ old
    · exact .pure _

theorem keepsWords_createMarkup (kind : Kind) (payload : Payload)
    (hp : ∀ a : Arena, a.Wordable payload) : KeepsWords source (createMarkup kind payload) :=
  (KeepsWords.surgery fun _ ha => Surgery.words_makeGlued ha (hp _)).bind fun _ => .make _

theorem keepsWords_createContaining (kind : Kind) (payload : NodeId → Payload)
    (hp : ∀ (a : Arena) n, a.Wordable (payload n)) :
    KeepsWords source (createContaining kind payload) :=
  (KeepsWords.surgery fun _ ha => Surgery.ends_make (ha.push_mute rfl)).bind fun content =>
    keepsWords_createMarkup kind (payload content) fun a => hp a content

theorem keepsWords_createDiv : KeepsWords source createDiv := by
  refine (KeepsWords.surgery fun a ha => ?_).bind fun _ => .make _
  refine Ends.bind (Surgery.ends_make (Ends.bind (Surgery.ends_make ?_)))
  have h₁ : (a.push ⟨.list [], none⟩).Worded source := ha.push_mute rfl
  have hattr := Arena.find?_push_next a ⟨.list [], none⟩
  generalize a.push ⟨.list [], none⟩ = b at *
  have hext := (Arena.Extends.push b ⟨.list [], none⟩).trans
    (.push _ ⟨.element "div" false a.next b.next, none⟩)
  refine Surgery.words_makeGlued (h₁.push_mute rfl) ⟨?_, nofun⟩
  exact Arena.items_of_find? (hext.find?_of_find? hattr)

theorem keepsWords_createText (s : String) : KeepsWords source (createText s) :=
  (KeepsWords.surgery fun _ ha => Surgery.ends_make (ha.push_mute rfl)).bind fun _ => .make _

theorem keepsWords_createComment (s : String) : KeepsWords source (createComment s) :=
  (KeepsWords.ask _).bind fun _ =>
    keepsWords_createMarkup .comment (.comment s) fun _ => trivial

theorem words_createLink (h : p.Synced) (hw : p.arena.Worded source) (target : String) :
    Words source (createLink target) p := by
  refine Ends.bind (ends_ask (fun target ht => ?_) fun _ _ => trivial)
  have hlast := getLast?_ne_of_not_mem (Verifier.pipe_not_mem ht)
  refine ((ends_createContaining_link h target).and (keepsWords_createContaining .link
    (.link target) (fun _ _ => hlast) p hw)).step (fun id q hq => ?_)
    fun _ _ _ => trivial
  obtain ⟨⟨-, -, o, g, hfind, -⟩, hqw⟩ := hq
  refine Ends.bind (Ends.bind (ends_ask (fun policy hp => ?_) fun _ _ => trivial))
  -- the value is stored, and that is all
  obtain ⟨e, he, hpolicy⟩ := exists_of_policy hp
  obtain rfl := Option.some.inj (((hfind id).trans (if_pos rfl)).symm.trans he)
  obtain ⟨-, rfl⟩ := policy_of_link hpolicy
  refine (ends_commit_of_unsynced rfl).mono ?_ fun _ _ _ => trivial
  rintro _ r ⟨-, -, -, rfl⟩
  exact Ends.pure hqw

theorem keepsWords_replaceText (id : ElementId) (node : NodeId) (s : String) :
    KeepsWords source (replaceText id node s) := by
  refine (KeepsWords.ask _).bind fun container =>
    (KeepsWords.surgery fun _ ha => Surgery.ends_make (ha.push_mute rfl)).bind fun new => ?_
  cases container with
  | some c =>
    exact (KeepsWords.change fun _ _ ha hb => ha.replaceItem hb).bind fun _ => .update _ _
  | none => exact .update _ _

theorem keepsWords_setText (id : ElementId) (s : String) : KeepsWords source (setText id s) := by
  have hkind : KeepsWords source (requireKind id .text .notText) := fun p hw =>
    ends_requireKind.mono (fun _ _ hq => hq.1 ▸ hw) fun _ _ _ => trivial
  refine hkind.bind fun _ => (KeepsWords.ask _).bind fun node => fun p hw =>
    Ends.bind (ends_ask (fun payload hp => ?_) fun _ _ => trivial)
  obtain ⟨g, hn⟩ := Page.find?_of_payload hp
  cases payload with
  | text old =>
    refine ends_surgery (Surgery.ends_setPayload (((hw.but node).modify (fun m hm => ?_) _).worded ?_))
    · obtain rfl := Option.some.inj (hn.symm.trans hm)
      rfl
    · refine Arena.wordedAt_of_isMute (n := ⟨.text s, g⟩) ?_ rfl
      rw [Arena.find?_modify, if_pos rfl, hn]
      rfl
  | _ => exact keepsWords_replaceText id node s p hw

theorem words_setComment (h : p.Synced) (hw : p.arena.Worded source) (s : String) :
    Words source (setComment id s) p := by
  refine ends_requireKind.step ?_ fun _ _ _ => trivial
  rintro _ q ⟨rfl, e, he, hk⟩
  refine Ends.bind (ends_ask (fun _ _ => ?_) fun _ _ => trivial)
  refine Ends.bind (ends_ask (fun node hnode => ?_) fun _ _ => trivial)
  refine Ends.bind (ends_ask (fun payload hp => ?_) fun _ _ => trivial)
  obtain ⟨g, hn⟩ := Page.find?_of_payload hp
  obtain ⟨old, rfl⟩ : ∃ old, payload = .comment old := h.payload_of_comment he hk hnode hn
  refine Ends.bind (ends_surgery (Surgery.ends_setPayload (ends_surgery ?_)))
  refine Surgery.words_setGlue ((hw.but node).modify (fun m hm => ?_) _) fun m hm => ?_
  · obtain rfl := Option.some.inj (hn.symm.trans hm)
    rfl
  · change (q.arena.setPayload node (.comment s)).find? node = some m at hm
    rw [Arena.setPayload, Arena.find?_modify, if_pos rfl, hn] at hm
    obtain rfl := Option.some.inj hm
    exact Arena.bearsOut_comment s

theorem words_writeUnwritten (hw : p.arena.Worded source)
    (ha : ∀ e, p.find? id = some e → e.attributes = []) : Words source (writeUnwritten id) p := by
  refine Ends.bind (ends_ask (fun e he => ?_) fun _ _ => trivial)
  rw [unwritten, ha e (Page.get_eq_ok_iff.1 he)]
  exact Ends.pure hw

theorem words_settle (hw : p.arena.Worded source)
    (ha : ∀ e, p.find? id = some e → e.attributes = []) (content : Option NodeId) (tag : NodeId) :
    Words source (settle id content tag) p := by
  have bare (e : Element) (he : (p.update id fun e =>
      { e with backing := some (.tag tag) }).find? id = some e) : e.attributes = [] := by
    rw [Page.find?_update, if_pos rfl] at he
    obtain ⟨d, hd, rfl⟩ := Option.map_eq_some_iff.1 he
    exact ha d hd
  refine Ends.bind (ends_update (fun _ _ => ?_) fun _ => trivial)
  cases content with
  | none => exact words_writeUnwritten hw bare
  | some content =>
    refine Ends.bind (ends_ask (fun target _ => Ends.bind (Ends.modify ?_)) fun _ _ => trivial)
    refine words_writeUnwritten hw fun e he => ?_
    rw [← Page.moveLinks, Page.find?_moveLinks] at he
    obtain ⟨d, hd, rfl⟩ := Option.map_eq_some_iff.1 he
    exact (bare d hd :)

theorem words_promoteMarkup (hw : p.arena.Worded source) {kind : Kind} {node : NodeId}
    (ha : kind.tag? ≠ none → ∀ e, p.find? id = some e → e.attributes = []) :
    Words source (promoteMarkup id kind node) p := by
  refine Ends.bind (ends_ask (fun container _ => Ends.bind (Ends.get (Ends.bind (ends_surgery ?_))))
    fun _ _ => trivial)
  refine (Surgery.words_toElement hw kind node).mono (fun tag b hb => ?_) fun _ _ _ => trivial
  have settled {b' : Arena} (hb' : b'.Worded source) :
      Words source (settle id (p.childContainer id).toOption tag) { p with arena := b' } :=
    words_settle (p := { p with arena := b' }) hb' (ha hb.2) _ _
  cases container with
  | none => exact settled hb.1
  | some c =>
    exact Ends.bind (ends_surgery (Surgery.ends_change
      (fun b' hb' => settled (hb.1.replaceItem hb')) fun _ _ => trivial))

theorem words_promote {whole : Prop} (hm : p.Mirrored whole) (hw : p.arena.Worded source) :
    Words source (promote id) p := by
  refine Ends.bind (ends_ask (fun e hget => ?_) fun _ _ => trivial)
  have he := Page.get_eq_ok_iff.1 hget
  split
  · rename_i node hb
    refine words_promoteMarkup hw fun ht d hd => ?_
    obtain rfl := Option.some.inj (he.symm.trans hd)
    exact (hm id e he).bare ht hb
  · exact Ends.pure hw
  · exact Ends.throw trivial

theorem words_writeAttribute (h : p.Synced) (hw : p.arena.Worded source) {c : NodeId}
    (hc : p.attributeList? id = some c) {value : String} {node : Option NodeId}
    (hmem : ∀ n, node = some n → n ∈ p.writtenOf id)
    (hnode : ∀ n, node = some n → ∃ written hasValue v g,
      p.arena.find? n = some ⟨.attr written hasValue v, g⟩ ∧ name.toLower = written.toLower) :
    Words source (writeAttribute id name value node) p := by
  have hwrite : Ends (writeAttribute id name value node) p
      (fun _ q => q.arena.Open c → q.arena.Worded source) fun _ _ => True := by
    refine Ends.bind (ends_ask (fun list hl => ends_surgery ?_) fun _ _ => trivial)
    obtain rfl := Except.ok.inj ((Page.attributeList_of_attributeList? hc).symm.trans hl)
    exact Surgery.words_writeAttribute hw h.sound hnode
  refine ((ends_writeAttribute h hc hmem).and hwrite).mono (fun n q hq => hq.2 ?_) fun _ _ _ => trivial
  have htag := (Page.isTagList_of_attributeList? hc).evolves hq.1.evolves
  exact hq.1.steady.synced.sound.isOpen_of_isTagList htag

theorem words_writeValue {whole : Prop} (h : p.Synced) (hm : p.Mirrored whole)
    (hw : p.arena.Worded source) {e : Element} (he : p.find? id = some e) (ht : e.kind.tag? ≠ none)
    {key value : String} : Words source (writeValue id key value) p := by
  refine Ends.bind (ends_ask (fun _ _ => ?_) fun _ _ => trivial)
  refine ((ends_promote h).and (words_promote hm hw)).step (fun _ q hq => ?_) fun _ _ _ => trivial
  obtain ⟨hq, hqw⟩ := hq
  obtain ⟨c, hc⟩ := Option.ne_none_iff_exists'.1 hq.tagged
  obtain ⟨k, tag, m, hf, -⟩ := Page.exists_of_attributeList? hc
  obtain ⟨d, hd, -, hback⟩ := Page.find?_of_form? hf
  refine Ends.bind (ends_ask (fun stored hs => ?_) fun _ _ => trivial)
  obtain ⟨d', hd', rfl⟩ := Except.exists_of_map hs
  obtain rfl := Option.some.inj (hd.symm.trans (Page.get_eq_ok_iff.1 hd'))
  refine words_writeAttribute hq.calm.synced hqw hc (fun n hn => ?_) fun n hn => ?_
  · rw [Page.writtenOf_of_find? hd]
    exact Attribute.mem_nodes_of_find? hn
  · -- the node that is written anew carries the name of the attribute
    obtain ⟨t, hstored, hnt⟩ := Option.bind_eq_some_iff.1 hn
    have htag : d.kind.tag? ≠ none := hq.kind he hd ▸ ht
    obtain ⟨n', hn', written, s, -, hins, hlower, -⟩ := (hq.calm.mirrored hm id d hd).written htag hback
      t (List.mem_of_find?_eq_some hstored)
    obtain rfl := Option.some.inj (hnt.symm.trans hn')
    obtain ⟨hasValue, v, g, hfind, -⟩ := hins
    refine ⟨written, hasValue, v, g, hfind, ?_⟩
    rw [hlower, Attribute.name_of_find? hstored]

theorem words_commit {whole : Prop} (h : p.Synced) (hm : p.Mirrored whole)
    (hw : p.arena.Worded source) {policy : Policy} {value : String}
    (hp : p.policy id name = .ok policy) : Words source (commit id policy name.toLower value) p := by
  obtain ⟨e, he, hpolicy⟩ := exists_of_policy hp
  refine Ends.bind (ends_ask (fun stored _ => ?_) fun _ _ => trivial)
  cases hs : policy.synced with
  | true =>
    refine Ends.bind (Ends.map ((words_writeValue h hm hw he (tag?_of_synced hpolicy hs)).mono
      (fun n q hq => ?_) fun _ _ _ => trivial))
    exact Ends.bind (ends_update (fun _ _ => Ends.pure hq) fun _ => trivial)
  | false => exact Ends.bind (Ends.pure (Ends.bind (ends_update (fun _ _ => Ends.pure hw) fun _ => trivial)))

theorem words_setAttribute {whole : Prop} (h : p.Synced) (hm : p.Mirrored whole)
    (hw : p.arena.Worded source) (hid : ¬p.IsCategory id) {value : String} :
    Words source (setAttribute id name value) p := by
  refine Ends.bind (ends_ask (fun policy hp => ?_) fun _ _ => trivial)
  obtain ⟨e, he, hpolicy⟩ := exists_of_policy hp
  refine Ends.bind (ends_ask (fun verified hv => ?_) fun _ _ => trivial)
  cases verified with
  | none => exact keepsWords_removeAttribute id name p hw
  | some verified =>
    refine (words_commit h hm hw hp).step (fun old q hq => ?_) fun _ _ _ => trivial
    cases hr : policy.reaction with
    | none => exact Ends.bind (Ends.pure (Ends.pure hq))
    | some r =>
      obtain ⟨-, ⟨rfl, hk⟩ | ⟨rfl, hk⟩⟩ := kind_of_reaction hpolicy hr
      · rw [hk] at hpolicy
        obtain ⟨-, rfl⟩ := policy_of_link hpolicy
        have hlast := getLast?_ne_of_not_mem (not_mem_apply_words (c := '|') rfl
          (Verifier.pipe_not_mem (Page.checkLinkTarget_of_verify hv)))
        rw [react]
        split
        · exact Ends.bind (Ends.pure (Ends.pure hq))
        · exact (keepsWords_retarget hlast id q hq).step (fun _ _ hr => Ends.pure hr) fun _ _ h => h
      · exact absurd ⟨e.backing, by rw [Page.form?_of_find? he, hk]⟩ hid

theorem words_appendCategoryLink (h : p.Synced) (hw : p.arena.Worded source)
    (hn : '|' ∉ name.toList) : Words source (appendCategoryLink name) p := by
  have happend : Ends (appendCategoryLink name) p
      (fun _ q => q.arena.Open p.arena.content → q.arena.Worded source) fun _ _ => True := by
    refine Ends.bind (Ends.get (ends_surgery (Ends.bind (Surgery.ends_make (Ends.bind
      (Surgery.ends_make ?_))))))
    refine (Surgery.words_addGlue ((hw.push_mute rfl).push _) fun m hm => ?_).step
      (fun _ b hb => Ends.bind (Surgery.ends_change (fun c hc => Ends.pure (hb.appendItem hc))
        fun _ _ => trivial)) fun _ _ h => h
    rw [Arena.find?_push_next] at hm
    obtain rfl := Option.some.inj hm
    exact getLast?_categoryTarget hn p
  refine ((ends_appendCategoryLink h).and happend).mono (fun l q hq => hq.2 ?_) fun _ _ _ => trivial
  have hcontent : q.arena.content = p.arena.content := by
    refine Option.some.inj (hq.1.calm.synced.body_backing.symm.trans ?_)
    rw [← h.body_backing, Page.backing?, Page.backing?, Page.form?, Page.find?, hq.1.elements]
    rfl
  exact hcontent ▸ hq.1.calm.synced.isOpen_content

theorem words_addCategory (h : p.Synced) (hw : p.arena.Worded source) :
    Words source (addCategory name) p := by
  refine Ends.bind (ends_ask (fun _ hok => ?_) fun _ _ => trivial)
  have hn : '|' ∉ (normalizeTitle name).toList := by
    obtain ⟨_, hv, -⟩ := Except.exists_of_bind hok
    exact Valid.not_mem_of_isCategory (isCategory_of_checkCategory hv) rfl
  refine ends_makeCategory.step ?_ fun _ _ hf => hf.elim
  rintro _ q ⟨rfl, rfl⟩
  refine (words_appendCategoryLink (h.pushCategory _) hw hn).step (fun placed r hr => ?_)
    fun _ _ h => h
  exact (keepsWords_attachCategory _ _ placed r hr).step (fun _ _ hs => Ends.pure hs) fun _ _ h => h

theorem keepsWords_removeCategory (name : String) : KeepsWords source (removeCategory name) :=
  (KeepsWords.ask _).bind fun id => (keepsWords_dropLinks id none).bind fun _ =>
    (KeepsWords.ask _).bind fun _ => KeepsWords.bind (.modify fun _ => rfl) fun _ =>
    (KeepsWords.update _ _).bind fun _ => (KeepsWords.update _ _).bind fun _ => .pure id

theorem words_renewLink (h : p.Recorded) (hc : p.IsCategory id) (hg : p.IsGlued source) :
    Words source (renewLink id) p := by
  refine Ends.bind (ends_ask (fun name hname => ?_) fun _ _ => trivial)
  have hn := hg.names ((Page.storedName_eq_ok hc).1 hname)
  refine ((ends_dropLinks h.toSynced hc.find?_ne_none (h.inPlace id)).and
    (keepsWords_dropLinks id none p hg.worded)).step (fun _ r hr => ?_) fun _ _ _ => trivial
  exact (words_appendCategoryLink hr.1.synced hr.2 hn).step
    (fun placed s hs => keepsWords_addLink id placed s hs) fun _ _ h => h

/-- An edit after which no glue is stale, if it ends well. -/
abbrev Glues (source : String) (m : Edit α) (p : Page) : Prop :=
  Ends m p (fun _ q => q.IsGlued source) fun _ _ => True

variable {m : Edit α}

theorem IsCalm.glues {ids : List ElementId} (hm : IsCalm m p ids) (hg : p.IsGlued source)
    (hw : Words source m p) : Glues source m p :=
  (hm.and hw).mono (fun _ _ hq => hg.of_sameRecords hq.1.toSameRecords hq.2) fun _ _ _ => trivial

theorem Glues.quiet (hm : Glues source m p) : Glues source (do let _ ← m) p :=
  hm.step (fun _ _ hq => Ends.pure hq) fun _ _ h => h

theorem glues_of_makes {kind : Kind} {m : Edit ElementId} (hm : Makes kind m p p)
    (hg : p.IsGlued source) (hw : Words source m p) : Glues source (do let _ ← m) p := by
  have hcalm : IsCalm m p [] := hm.mono (fun _ _ hq => hq.1) fun _ _ hq => hq
  exact .quiet (hcalm.glues hg hw)

theorem glues_requireKind {kinds : List Kind} (hm : Glues source m p) :
    Glues source (do ask (·.requireKind id kinds); m) p :=
  Ends.bind (ends_ask (fun _ _ => hm) fun _ _ => trivial)

theorem glues_addCategory (h : p.Synced) (hg : p.IsGlued source) :
    Glues source (addCategory name) p := by
  refine ((ends_addCategory h).and (words_addCategory h hg.worded)).mono (fun id q hq => ?_)
    fun _ _ _ => trivial
  obtain ⟨⟨rfl, hv, -, r, l, hl, rfl⟩, hw⟩ := hq
  have hrc : r.IsCategory p.next := hl.calm.isCategory.2 isCategory_pushCategory
  refine ⟨hw, fun {x s} hx => ?_⟩
  rw [Page.nameOf?_attached (hl.calm.synced.ne_root_of_isCategory hrc), hl.calm.nameOf?,
    Page.nameOf?_pushCategory] at hx
  split at hx
  · obtain rfl := Option.some.inj hx
    exact not_mem_apply_words rfl (Valid.not_mem_of_isCategory hv rfl)
  · exact hg.names hx

theorem glues_removeCategory (h : p.Recorded) (hg : p.IsGlued source) :
    Glues source (removeCategory name) p := by
  refine ((ends_removeCategory h.toSynced fun id hid => ⟨h.inPlace id, h.named (h.indexed hid)⟩).and
    (keepsWords_removeCategory name p hg.worded)).mono (fun id q hq => ⟨hq.2, fun {x s} hx => ?_⟩)
    fun _ _ _ => trivial
  obtain ⟨⟨hid, r, stored, hr, -, rfl⟩, -⟩ := hq
  rw [Page.nameOf?_detached (h.ne_root_of_isCategory (h.indexed hid)), hr.nameOf?] at hx
  exact hg.names hx

theorem keptByRenewal_isGlued : KeptByRenewal (Page.IsGlued source) := by
  intro p id h hl hg
  have hc := h.isCategory hl
  obtain ⟨name, hn⟩ := Option.ne_none_iff_exists'.1 (h.named hc)
  refine ((ends_renewLink h.toSynced hc (h.inPlace id) hn).and (words_renewLink h hc hg)).mono
    (fun _ q hq => ?_) fun _ _ hf => hf.1
  obtain ⟨⟨r, s, l, hr, hs, rfl⟩, hw⟩ := hq
  exact hg.respell (Page.respells_renewed hc hn hr hs).1 (hg.names hn) hw

theorem glues_keepCategories (h : p.Recorded) (hg : p.IsGlued source) {n : NodeId} {q : Page}
    (hq : p.Cut n q) (hk : p.arena.KeepsWording q.arena) : Glues source (keepCategories n) q :=
  (keeps_keepCategories_of_cut h keptByRenewal_isGlued hq
    (hg.of_sameRecords hq.toSameRecords (hk source hg.worded))).mono (fun _ _ hr => hr.2)
    fun _ _ _ => trivial

theorem glues_renameLinks (h : p.Recorded) (hg : p.IsGlued source) (hc : p.IsCategory id)
    {new : String} (hn : '|' ∉ new.toList) :
    Glues source (renameLinks id (p.nameOf? id) (Normalization.words.apply new)) (renamed p id new) := by
  have hw := not_mem_apply_words (c := '|') rfl hn
  refine ((ends_renameLinks h hc).and (keepsWords_renameLinks hw id _ (renamed p id new)
    hg.worded)).mono (fun _ q hq => ?_) fun _ _ _ => trivial
  obtain ⟨⟨rfl, -⟩ | ⟨old, l, hlast, -, -, r, s, hr, hd, rfl⟩, hq⟩ := hq
  · refine hg.revise (.of_renamed h.toSynced) (fun t ht => ?_) hq
    rw [Page.Recorded.nameOf?_renamed hc] at ht
    exact Option.some.inj ht ▸ hw
  · obtain ⟨hrev, -⟩ := h.respells_retitled hc (List.mem_of_getLast? hlast) hr hd
    exact ⟨hq, (hg.respell hrev hw hq).names⟩

theorem glues_setAttribute {whole : Prop} (h : p.Recorded) (hm : p.Mirrored whole)
    (hg : p.IsGlued source) {value : String} : Glues source (setAttribute id name value) p := by
  by_cases hc : p.IsCategory id
  · refine ends_setAttribute_name hc (fun _ _ _ => trivial) fun new _ hok => ?_
    obtain ⟨hnew, hv⟩ := Page.exists_of_checkCategoryName hok
    obtain rfl := Option.some.inj hnew
    exact glues_renameLinks h hg hc (Valid.not_mem_of_isCategory hv rfl)
  · exact (isCalm_setAttribute h.toSynced hc).glues hg
      (words_setAttribute h.toSynced hm hg.worded hc)

theorem glues_removeAttribute (h : p.Synced) (hg : p.IsGlued source) :
    Glues source (removeAttribute id name) p :=
  (isCalm_removeAttribute h).glues hg (keepsWords_removeAttribute id name p hg.worded)

theorem glues_setOrRemove {whole : Prop} (h : p.Recorded) (hm : p.Mirrored whole)
    (hg : p.IsGlued source) (name : String) (value : Option String) :
    Glues source (setOrRemove id name value) p := by
  cases value with
  | some value => exact .quiet (glues_setAttribute h hm hg)
  | none => exact .quiet (glues_removeAttribute h.toSynced hg)

/-- A link that is found names a category without a pipe. -/
theorem keptByRegistering_isGlued : KeptByRegistering fun _ => Page.IsGlued source := by
  rintro p - ⟨name, l⟩ h hf hl hg
  obtain ⟨target, -, htarget⟩ := Option.bind_eq_some_iff.1 hl
  have hn : '|' ∉ name.toList := fun hm => by cases IsLinkable.legal_of_categoryOf? htarget hm
  have hw := not_mem_apply_words (c := '|') rfl hn
  refine (ends_registerLink h.toSynced).mono (fun _ q hq => ?_) fun _ _ hf => hf
  rcases hq with ⟨id, hid, rfl⟩ | ⟨-, rfl⟩
  · have hc : p.IsCategory id := h.indexed hid
    have hac : (p.addLink id l).IsCategory id := (Page.isCategory_congr Page.form?_addLink).2 hc
    refine hg.revise ((Page.Revises.of_addLink h.toSynced hc hf).trans
      (.of_renamed (h.toSynced.addLink hf))) (fun s hs => ?_) hg.worded
    rw [Page.Recorded.nameOf?_renamed hac] at hs
    exact Option.some.inj hs ▸ hw
  · have hc : (p.push (Page.newCategory name)).IsCategory p.next := isCategory_pushCategory
    refine ⟨?_, fun {x s} hx => ?_⟩
    · rw [arena_attached]
      exact hg.worded
    · rw [Page.nameOf?_attached ((h.toSynced.pushCategory name).ne_root_of_isCategory hc),
        Page.nameOf?_pushCategory] at hx
      split at hx
      · exact Option.some.inj hx ▸ hw
      · exact hg.names hx

end Edit

namespace Act

open Edit

variable [Entities] {source : String} {p : Page} {act : Act}

/-- No checked act leaves glue stale. -/
theorem glues_edit {whole : Prop} (h : p.Recorded) (hm : p.Mirrored whole) (hg : p.IsGlued source)
    (hc : act.isChecked = true) : Glues source act.edit p := by
  have hp := h.toSynced
  have hw := hg.worded
  cases act with
  | createParagraph =>
    exact glues_of_makes (makes_createParagraph hp) hg
      (keepsWords_createContaining .paragraph .paragraph (fun _ _ => trivial) p hw)
  | createBold =>
    exact glues_of_makes (makes_createBold hp) hg
      (keepsWords_createContaining .bold (.emphasis .bold) (fun _ _ => trivial) p hw)
  | createItalics =>
    exact glues_of_makes (makes_createItalics hp) hg
      (keepsWords_createContaining .italics (.emphasis .italics) (fun _ _ => trivial) p hw)
  | createRule =>
    exact glues_of_makes (makes_createRule hp) hg
      (keepsWords_createMarkup .rule .rule (fun _ => trivial) p hw)
  | createDiv => exact glues_of_makes (makes_createDiv hp) hg (keepsWords_createDiv p hw)
  | createLink target => exact glues_of_makes (makes_createLink hp) hg (words_createLink hp hw target)
  | createText s => exact glues_of_makes (makes_createText hp) hg (keepsWords_createText s p hw)
  | createComment s =>
    exact glues_of_makes (makes_createComment hp) hg (keepsWords_createComment s p hw)
  | insertChild parent child position =>
    refine (isCalm_insertChild hp).glues hg ?_
    exact (ends_insertChild hp).mono (fun _ _ hq => hq.2 source hw) fun _ _ _ => trivial
  | removeChild parent child =>
    exact ends_removeChild hp (fun _ _ hq hk => glues_keepCategories h hg hq hk) fun _ _ _ => trivial
  | replaceChild parent new old =>
    exact ends_replaceChild hp (fun _ _ hq hk => glues_keepCategories h hg hq hk) fun _ _ _ => trivial
  | setText id s => exact (isCalm_setText hp).glues hg (keepsWords_setText id s p hw)
  | setComment id s => exact (isCalm_setComment hp).glues hg (words_setComment hp hw s)
  | setAttribute id name value => exact .quiet (glues_setAttribute h hm hg)
  | removeAttribute id name => exact .quiet (glues_removeAttribute hp hg)
  | assign id name value => cases hc
  | promote id =>
    exact ((ends_promote hp).and (words_promote hm hw)).mono
      (fun _ _ hq => hg.of_sameRecords hq.1.calm.toSameRecords hq.2) fun _ _ _ => trivial
  | addCategory name => exact .quiet (glues_addCategory hp hg)
  | renameCategory old new =>
    refine ends_needCategory.step (fun id q hq => ?_) fun _ _ _ => trivial
    obtain ⟨-, rfl⟩ := hq
    exact Glues.quiet (glues_setAttribute h hm hg)
  | removeCategory name => exact .quiet (glues_removeCategory h hg)
  | setTitle title => exact glues_setOrRemove h hm hg "title" (some title)
  | setNamespace name => exact glues_setOrRemove h hm hg _ _
  | setPath path => exact glues_setOrRemove h hm hg _ _
  | setAlignment id alignment => exact glues_setOrRemove h hm hg _ _
  | setNoShade id on => exact glues_requireKind (glues_setOrRemove h hm hg _ _)
  | setThickness id pixels => exact glues_requireKind (glues_setOrRemove h hm hg _ _)
  | setWidth id width => exact glues_requireKind (glues_setOrRemove h hm hg _ _)
  | setLinkTarget id target => exact glues_requireKind (glues_setOrRemove h hm hg _ _)
  | setCategoryName id name => exact glues_requireKind (glues_setOrRemove h hm hg _ _)
  | setUniversal id name value => exact glues_setOrRemove h hm hg _ _

theorem isGlued_after {whole : Prop} (h : p.Recorded) (hm : p.Mirrored whole) (hg : p.IsGlued source)
    (hc : act.isChecked = true) : (act.after p).IsGlued source :=
  after_of_ok h hc hg (glues_edit h hm hg hc)

theorem isGlued_run {whole : Prop} {acts : List Act} (h : p.Recorded) (hm : p.Mirrored whole)
    (hg : p.IsGlued source) (hc : acts.all isChecked = true) : (run acts p).IsGlued source := by
  induction acts generalizing p with
  | nil => exact hg
  | cons act acts ih =>
    rw [List.all_cons, Bool.and_eq_true] at hc
    have hleads := (act.keeps_after h hc.1).toLeads
    exact ih (p := act.after p) hleads.recorded (hleads.mirrored hm) (isGlued_after h hm hg hc.1) hc.2

end Act

namespace Arena

variable [Entities] {source : String} {a : Arena}

theorem worded_new : new.Worded source := by
  intro id n hn
  obtain ⟨i⟩ := id
  match i with
  | 0 => exact wordedAt_of_isMute find?_new_content rfl n hn
  | 1 => exact wordedAt_of_isMute find?_new_root rfl n hn
  | i + 2 => simp [find?_eq_none_iff.2 (show new.size ≤ i + 2 by simp [size_new])] at hn

theorem worded_read (text : String) : (read text).Worded text := by
  intro id n hn
  cases shaped_read hn with
  | @comment s closed h =>
    refine ⟨?_, nofun⟩
    cases closed with
    | true => exact .inl rfl
    | false =>
      refine .inr ⟨by simp, by simpa using hn, ?_⟩
      rw [String.toList_append]
      exact h rfl
  | @link target title piped closed ht hp =>
    refine ⟨⟨getLast?_ne_of_not_mem ht, piped, _, rfl, by cases closed <;> simp⟩, fun c hc => ?_⟩
    obtain ⟨rfl, last, hlast⟩ := hc
    refine items_of_find? (hp ?_)
    cases piped with
    | false => rfl
    | true =>
      have hlen := congrArg String.length (List.cons.inj (Glue.mk.inj (Option.some.inj hlast))).1
      simp [String.length_append] at hlen
  | element he => exact ⟨⟨_, _, rfl⟩, fun c hc => hc.1 ▸ items_of_find? (he hc.2)⟩
  | @attr name _ _ _ _ h => exact ⟨⟨name, _, _, rfl, rfl, h⟩, nofun⟩
  | _ => exact wordedAt_of_isMute hn rfl _ hn

/-- Glue is as long as its node needs it, lists have none, and what it spells is what the node has. A
comment that is left open is one that the text it was read from ends with. -/
structure GlueAgrees (source : String) (a : Arena) : Prop where
  fits : ∀ {id n}, a.find? id = some n → n.GlueFits
  link : ∀ {id target title g}, a.find? id = some ⟨.link target title, g⟩ →
    ∃ (piped : Bool) (last : String), g = some ⟨["[[" ++ target ++ if piped then "|" else "", last]⟩ ∧
      (last = "]]" ∨ last = "") ∧ (piped = false → a.items title = .ok [])
  element : ∀ {id name empty attributes body g},
    a.find? id = some ⟨.element name empty attributes body, g⟩ →
    (∃ ending closing, g = some ⟨["<" ++ name, ending, closing]⟩) ∧
      (empty = true → a.items body = .ok [])
  comment : ∀ {id text g}, a.find? id = some ⟨.comment text, g⟩ →
    g = some ⟨["<!--" ++ text ++ "-->"]⟩ ∨ g = some ⟨["<!--" ++ text]⟩ ∧
      (read source).find? id = some ⟨.comment text, g⟩ ∧ ("<!--" ++ text).toList <:+ source.toList
  /-- The name may be written in another letter case. -/
  attr : ∀ {id name hasValue value g}, a.find? id = some ⟨.attr name hasValue value, g⟩ →
    ∃ written opening closing : String, g = some ⟨[opening, closing]⟩ ∧
      written.toLower = name.toLower ∧ Tag.Opens written.toList hasValue opening.toList

theorem Worded.glueAgrees (h : a.Worded source) (ha : a.Sound) : a.GlueAgrees source where
  fits hn := (ha.fits hn).glue
  link hn := by
    obtain ⟨⟨-, piped, last, rfl, hlast⟩, hs⟩ := h _ _ hn
    refine ⟨piped, last, rfl, hlast, ?_⟩
    rintro rfl
    exact hs _ ⟨rfl, last, by simp⟩
  element hn := ⟨(h _ _ hn).1, fun he => (h _ _ hn).2 _ ⟨rfl, he⟩⟩
  comment hn := (h _ _ hn).1
  attr hn := (h _ _ hn).1

end Arena

namespace Page

variable {source : String} {p : Page} {a : Arena} {site : Site} {title : String} {drafts : List Draft}

theorem isGlued_ofDrafts [Entities] (h : Drafted a site drafts) (hw : a.Worded source) :
    (ofDrafts a site title drafts).IsGlued source := by
  refine ⟨hw, fun {x s} hs => ?_⟩
  rw [nameOf?_eq_none (not_isCategory_ofDrafts h)] at hs
  cases hs

theorem isGlued_new [Entities] (h : new site title = .ok p) : p.IsGlued source := by
  obtain ⟨t, -, h⟩ := Except.exists_of_bind h
  obtain rfl := Except.ok.inj h
  exact isGlued_ofDrafts (drafted_new site) Arena.worded_new

theorem isGlued_read [Entities] {preserve : Bool} (h : read source site title preserve = .ok p) :
    p.IsGlued source := by
  have ha := Arena.sound_read source
  have hr := Arena.loose_root_read source
  obtain ⟨-, -, -, -, -, hp⟩ := exists_of_ofArena ha hr h Edit.keptByRegistering_isGlued
    fun t found hf => isGlued_ofDrafts (drafted_of_findings ha hr hf) (Arena.worded_read source)
  exact hp

/-- What the nodes of a reached page say holds. -/
theorem Reached.exists_glued [Entities] (h : p.Reached site) :
    ∃ source whole, p.Mirrored whole ∧ p.IsGlued source := by
  induction h with
  | new h => exact ⟨"", _, (begun_new h false).mirrored, isGlued_new h⟩
  | read h => exact ⟨_, _, (begun_read h).mirrored, isGlued_read h⟩
  | act h act hc ih =>
    obtain ⟨source, whole, hm, hg⟩ := ih
    have hp := h.orderly.recorded
    exact ⟨source, whole, (act.keeps_after hp hc).toLeads.mirrored hm, Act.isGlued_after hp hm hg hc⟩

theorem Reached.exists_worded [Entities] (h : p.Reached site) : ∃ source, p.arena.Worded source := by
  obtain ⟨source, -, -, hg⟩ := h.exists_glued
  exact ⟨source, hg.worded⟩

/-- Whatever is done to a page by acts that check what they store, glue agrees with the nodes. -/
theorem glueAgrees_run [Entities] {acts : List Act}
    (h : new site title = .ok p ∧ source = "" ∨ ∃ preserve, read source site title preserve = .ok p)
    (hc : acts.all Act.isChecked = true) : (Act.run acts p).arena.GlueAgrees source := by
  obtain ⟨preserve, hb, hg⟩ : ∃ preserve, p.Begun site preserve ∧ p.IsGlued source := by
    rcases h with ⟨h, -⟩ | ⟨preserve, h⟩
    · exact ⟨false, begun_new h false, isGlued_new h⟩
    · exact ⟨preserve, begun_read h, isGlued_read h⟩
  have hq := (Act.keeps_run hb.recorded hc).recorded
  exact (Act.isGlued_run hb.recorded hb.mirrored hg hc).worded.glueAgrees hq.sound

/-- A page with a link before a comment without an end. -/
def unclosed : Page :=
  (read "[[A]]<!--b" .default "Test" true).toOption.getD (ofDrafts .new .default "Test" [])

/-- The link is given another target, and then a title. -/
theorem glueAgrees_run_unclosed :
    read "[[A]]<!--b" .default "Test" true = .ok unclosed ∧
      (Act.run [.setLinkTarget ⟨3⟩ "C", .createText "d", .insertChild ⟨3⟩ ⟨5⟩ .last]
        unclosed).source = .ok "[[C|d]]<!--b" ∧
      (Act.run [.setLinkTarget ⟨3⟩ "C", .createText "d", .insertChild ⟨3⟩ ⟨5⟩ .last]
        unclosed).arena.GlueAgrees "[[A]]<!--b" := by
  have h : read "[[A]]<!--b" .default "Test" true = .ok unclosed := by decide +kernel
  exact ⟨h, by decide +kernel, glueAgrees_run (.inr ⟨true, h⟩) rfl⟩

end Page
end WikiPage
