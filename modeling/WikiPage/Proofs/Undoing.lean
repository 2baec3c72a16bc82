import WikiPage.EntityTable
import WikiPage.Proofs.Locality

/-!
# Taking a new child out again

To take out a child that has just been put in gives back the page as it was: the nodes, the elements, the
index of categories and the owners of links. The child holds no link of a category, as it was on no page
before, so no category has to be kept, and an element that keeps its glue is never given other glue.
-/

namespace WikiPage

theorem eq_of_filterMap_eq {α β : Type} {f : α → Option β} {l l' : List α}
    (h : l.filterMap f = l'.filterMap f) (hl : ∀ x ∈ l, f x ≠ none) (hl' : ∀ x ∈ l', f x ≠ none)
    (hf : ∀ {x y z}, f x = some z → f y = some z → x = y) : l = l' := by
  have found (l : List α) (hl : ∀ x ∈ l, f x ≠ none) : (l.filterMap f).length = l.length := by
    rw [List.filterMap_length_eq_length]
    exact fun x hx => Option.isSome_iff_ne_none.2 (hl x hx)
  induction l generalizing l' with
  | nil =>
    refine (List.eq_nil_of_length_eq_zero ?_).symm
    rw [← found l' hl', ← h]
    rfl
  | cons x l ih =>
    cases l' with
    | nil =>
      have hlen := found (x :: l) hl
      rw [h] at hlen
      cases hlen
    | cons y l' =>
      rw [List.forall_mem_cons] at hl hl'
      obtain ⟨z, hx⟩ := Option.ne_none_iff_exists'.1 hl.1
      obtain ⟨w, hy⟩ := Option.ne_none_iff_exists'.1 hl'.1
      rw [List.filterMap_cons_some hx, List.filterMap_cons_some hy] at h
      obtain ⟨rfl, hrest⟩ := List.cons.inj h
      rw [hf hx hy, ih hrest hl.2 hl'.2]

namespace Page

variable {p q r : Page} {x y : ElementId} {c n : NodeId} {ch ch' : List ElementId}
  {items items' : List NodeId}

theorem ext_of_find? (ha : q.arena = p.arena) (hs : q.site = p.site) (hf : q.find? = p.find?)
    (hc : q.categories = p.categories) (ho : q.owners = p.owners) : q = p := by
  obtain ⟨a, s, elements, categories, owners⟩ := p
  obtain ⟨a', s', elements', categories', owners'⟩ := q
  obtain rfl : elements' = elements := Array.ext_getElem? fun i => congrFun hf ⟨i⟩
  obtain rfl := ha
  obtain rfl := hs
  obtain rfl := hc
  obtain rfl := ho
  rfl

/-- The children of an element and their order can be seen from its container. -/
theorem Synced.childrenOf_eq (hp : p.Synced) (hq : q.Synced) (hf : q.form? = p.form?)
    (hc : p.container? x = some c) (hc' : q.container? x = some c)
    (hk : q.arena.kids c = p.arena.kids c) : q.childrenOf x = p.childrenOf x := by
  have hb := backing?_congr hf
  have hx : x ≠ root := by
    rintro rfl
    cases hc.symm.trans hp.root_container
  have hsub := hp.kept hc
  have hsub' := hq.kept hc'
  rw [hb, hk] at hsub'
  have hnodup := hp.sound.nodup c
  have hmem (n : NodeId) : n ∈ (q.childrenOf x).filterMap p.backing? ↔
      n ∈ (p.childrenOf x).filterMap p.backing? := by
    constructor <;> intro hn <;> obtain ⟨y, hy, hyn⟩ := List.mem_filterMap.1 hn
    · exact List.mem_filterMap.2 ⟨y, hp.mem_childrenOf_of_mem_kids hc hyn (hsub'.subset hn), hyn⟩
    · refine List.mem_filterMap.2 ⟨y, hq.mem_childrenOf_of_mem_kids hc' (hb ▸ hyn) ?_, hyn⟩
      exact hk ▸ hsub.subset hn
  refine eq_of_filterMap_eq ((hnodup.perm_iff_eq_of_sublist hsub' hsub).1 ?_) (fun y hy => ?_)
    (fun y hy => ?_) hp.backing_inj
  · exact (List.perm_ext_iff_of_nodup (hsub'.nodup hnodup) (hsub.nodup hnodup)).2 hmem
  · obtain ⟨n, hn⟩ := hq.exists_backing hx hy
    rw [← hb, hn]
    exact Option.some_ne_none n
  · obtain ⟨n, hn⟩ := hp.exists_backing hx hy
    rw [hn]
    exact Option.some_ne_none n

theorem Refilled.undo (hp : p.Synced) (hf : p.Fill x c ch items) (hq : p.Refilled x c ch items q)
    (hr : q.Refilled x c (p.childrenOf x) items' r) (hk : p.arena.kids c = items') :
    r = p := by
  obtain ⟨old, hc⟩ := hp.find?_container hf.container?
  obtain rfl : old = items' := (Arena.kids_of_find? hc).symm.trans hk
  have hch : q.childrenOf x = ch := by
    have h := (hf.relinks hp hq).children x
    rwa [if_pos rfl] at h
  refine ext_of_find? ?_ (hr.site.trans hq.site) (funext fun z => ?_)
    (hr.categories.trans hq.categories) (hr.owners.trans hq.owners)
  · rw [hr.arena, hq.arena]
    exact Arena.setItems_setItems hc
  · rw [hr.find?_eq, hq.find?_eq, Option.map_map]
    cases hz : p.find? z with
    | none => rfl
    | some e =>
      have hpar : p.parentOf z = e.parent := parentOf_of_find? hz
      have hparent : (if z ∈ p.childrenOf x then some x else if z ∈ ch then none else
          if z ∈ ch then some x else if z ∈ p.childrenOf x then none else e.parent) = e.parent := by
        by_cases hzx : z ∈ p.childrenOf x
        · rw [if_pos hzx, ← hpar, hp.parent_iff.2 hzx]
        · by_cases hzch : z ∈ ch
          · rw [if_neg hzx, if_pos hzch, ← hpar, (hf.new z hzch hzx).parent]
          · simp [hzx, hzch]
      have hchildren : (if z = x then p.childrenOf x else if z = x then ch else e.children) =
          e.children := by
        by_cases hzx : z = x
        · subst z
          rw [if_pos rfl, childrenOf_of_find? hz]
        · simp [hzx]
      simp [setChildren, hch, hparent, hchildren]

end Page

namespace Edit

open Page (Reached KeepsGlue)

variable {p q : Page} {x y : ElementId} {site : Site}

theorem checkInsertable_of_insertChild {position : Position} (hok : insertChild x y position p = .ok () q) :
    p.checkInsertable x y = .ok () := by
  refine Ends.of_ok (Q := fun _ _ => p.checkInsertable x y = .ok ()) (E := fun _ _ => True) ?_ hok
  refine Ends.bind (ends_ask (fun _ hcheck => ?_) fun _ _ => trivial)
  unfold Ends
  split
  · exact hcheck
  · trivial

/-- To take out a child that has just been put in succeeds and gives back the page. -/
theorem removeChild_of_insertChild [Entities] (h : p.Recorded) (ha : p.Anchored) (hk : p.KeepsGlue x)
    {position : Position} (hok : insertChild x y position p = .ok () q) :
    removeChild x y q = .ok () p := by
  have hp := h.toSynced
  obtain ⟨c, n, s, t, q', hn, hq, -, hr⟩ := (ends_insertChild_exchange hp).of_ok hok
  obtain rfl := hq.refresh_eq hp hk hr
  have hqr := ((hq.calm hp).leads h).recorded
  have hqs := hqr.toSynced
  have hback := hq.backing?_eq
  obtain ⟨ch, hfill, hfilled⟩ := hq.filled
  have hform : q.form? = p.form? := (hfill.relinks hp hfilled).form
  have hkids : q.arena.kids c = s ++ n :: t := by
    rw [hfill.kids_refilled hp hfilled, if_pos rfl, List.append_assoc]
    rfl
  have hcq : q.container? x = some c :=
    (congrFun ((hfill.relinks hp hfilled).container?_eq hp) x).trans hq.container
  -- the child is there
  obtain ⟨model, hmodel, -⟩ := Except.exists_of_bind (checkInsertable_of_insertChild hok)
  rw [← Page.contentModel_congr hform] at hmodel
  have hy : y ∈ q.childrenOf x := by
    refine hqs.mem_childrenOf_of_mem_kids hcq (hback ▸ hn) ?_
    simp [hkids]
  have hends : Ends (removeChild x y) q (fun _ r => r = p) fun _ _ => False := by
    refine ends_removeChild_of_child hqs hmodel hy fun c' n' s' t' r r' hn' hout hr' => ?_
    obtain rfl := Option.some.inj (hcq.symm.trans hout.container)
    obtain rfl := Option.some.inj (hn.symm.trans (hback ▸ hn'))
    -- what is on either side of it was there before
    have hsides : s ++ n :: t = s' ++ n :: t' := by
      rw [← hkids, hout.kids, List.append_assoc]
      rfl
    have hnodup := hkids ▸ hqs.sound.nodup c
    have hsub : (s ++ n :: t).Sublist (s' ++ n :: t') := hsides ▸ List.Sublist.refl _
    have hsub' : (s' ++ n :: t').Sublist (s ++ n :: t) := hsides ▸ List.Sublist.refl _
    obtain ⟨hs, ht⟩ := sublist_of_middle hsub (hsides ▸ hnodup)
    obtain ⟨hs', ht'⟩ := sublist_of_middle hsub' hnodup
    obtain rfl := hs.antisymm hs'
    obtain rfl := ht.antisymm ht'
    obtain ⟨ch', hfill', hfilled'⟩ := hout.filled
    have hrelinks := hfill'.relinks hqs hfilled'
    have hpkids : p.arena.kids c = s ++ [] ++ t := hq.kids
    have hr : r = p := by
      have hch : r.childrenOf x = ch' := by rw [hrelinks.children, if_pos rfl]
      have hsame : r.childrenOf x = p.childrenOf x := by
        refine hp.childrenOf_eq (hout.synced hqs) (hrelinks.form.trans hform) hq.container ?_ ?_
        · rw [hrelinks.container?_eq hqs, hcq]
        · rw [hfill'.kids_refilled hqs hfilled', if_pos rfl, hpkids]
      exact hfilled.undo hp hfill (hch.symm.trans hsame ▸ hfilled') hpkids
    have hkeep := hout.refresh_eq hqs (hq.keepsGlue hp hk) hr'
    refine (keepCategories_of_unlinked hqr hout hn' (hr'.refreshed (hout.synced hqs)) fun m hm hnm => ?_).mono
      (fun _ r₁ hr₁ => hr₁.trans (hkeep.trans hr)) fun _ _ hf => hf
    -- the child was on no page, and so it has no link of a category
    have hm := (hq.calm hp).linked_iff.1 hm
    obtain ⟨y', hi, hy'⟩ := hq.new n (List.mem_singleton_self n)
    exact ha y' n hi.ne_root hy' (hp.loose hi.parent hy') m hm
      (hfill.reaches_of_linked hp hfilled ha hm hnm)
  obtain ⟨_, r, hremove, rfl⟩ := hends.exists_ok
  exact hremove

end Edit

namespace Page

variable {p q : Page} {x y : ElementId} {site : Site}

/-- On a page that is reached, to take out a child that has just been put below an element that keeps its
glue succeeds and gives back the page: its nodes, its elements and its records of categories. -/
theorem removeChild_insertChild_reached [Entities] (h : p.Reached site) (hk : p.KeepsGlue x) {position : Position}
    (hok : Edit.insertChild x y position p = .ok () q) : Edit.removeChild x y q = .ok () p :=
  Edit.removeChild_of_insertChild h.orderly.recorded h.anchored hk hok

/-- A page with a paragraph in a division, and a bold text that is on no page. -/
def withSpareText : Page :=
  Act.run [.createDiv, .createParagraph, .insertChild ⟨2⟩ ⟨3⟩ .last, .insertChild body ⟨2⟩ .first, .createBold,
    .createText "a", .insertChild ⟨4⟩ ⟨5⟩ .last] (ofDrafts .new .default "Test" [])

theorem removeChild_insertChild_reached_withSpareText : withSpareText.Reached .default ∧
    withSpareText.KeepsGlue ⟨2⟩ ∧ ∃ q, Edit.insertChild ⟨2⟩ ⟨4⟩ (.before ⟨3⟩) withSpareText = .ok () q ∧
      Edit.removeChild ⟨2⟩ ⟨4⟩ q = .ok () withSpareText := by
  have hnew : Page.new .default "Test" = .ok (ofDrafts .new .default "Test" []) := rfl
  have hreached : withSpareText.Reached .default := Reached.run (.new hnew) rfl
  have hback : withSpareText.backing? ⟨2⟩ = some ⟨4⟩ := by decide +kernel
  have hnode : (withSpareText.arena.find? ⟨4⟩).map (·.payload.keepsGlue) = some true := by decide +kernel
  have hrun : ((Edit.insertChild ⟨2⟩ ⟨4⟩ (.before ⟨3⟩)).exec withSpareText).isOk = true := by decide +kernel
  have hkeeps : withSpareText.KeepsGlue ⟨2⟩ := by
    intro n m hn hm
    obtain rfl := Option.some.inj (hback.symm.trans hn)
    rw [hm] at hnode
    exact Option.some.inj hnode
  obtain ⟨_, q, hok⟩ := Edit.exists_of_isOk hrun
  exact ⟨hreached, hkeeps, q, hok, removeChild_insertChild_reached hreached hkeeps hok⟩

end Page
end WikiPage
