import WikiPage.EntityTable
import WikiPage.Proofs.Dressing
import WikiPage.Proofs.Escaping
import WikiPage.Proofs.Penning

/-!
# Tags as they are made

An element is made with the spans of the values in its attributes, and with the glue of its kind it is
printed as a tag that is scanned again: the name and the names of the attributes are as they were, and
each value is read back whatever characters it has.
-/

namespace WikiPage

namespace Arena

variable {a b c : Arena} {n tag body : NodeId} {name value inside : String} {empty : Bool}
  {attributes : List (String × String)} {x : String × String}

theorem Encodes.congr {v : NodeId} (h : a.Encodes v value)
    (hb : ∀ n m, a.find? n = some m → m.payload.isList = true ∨ Role.value.admits m.payload = true →
      b.find? n = some m) : b.Encodes v value := by
  obtain ⟨items, hv, hnodes⟩ := h
  refine ⟨items, hb v _ hv (.inl rfl), ?_⟩
  rw [← hnodes]
  refine List.map_congr_left fun y hy => ?_
  have hm : a.find? y ∈ (Span.encode value.toList).map fun span => some ⟨span.payload, none⟩ :=
    hnodes ▸ List.mem_map_of_mem hy
  obtain ⟨span, -, hspan⟩ := List.mem_map.1 hm
  rw [← hspan]
  exact hb y _ hspan.symm (.inr (by cases span <;> rfl))

/-- Nodes of attributes with encoded values, one for each name and value. -/
def Attributed (a : Arena) (glue : String → Option Glue) (items : List NodeId)
    (attributes : List (String × String)) : Prop :=
  List.Forall₂ (fun n x => ∃ v, a.find? n = some ⟨.attr x.1 true v, glue x.1⟩ ∧ a.Encodes v x.2)
    items attributes

theorem Attributed.extends {glue : String → Option Glue} {items : List NodeId}
    (h : a.Attributed glue items attributes) (hb : a.Extends b) : b.Attributed glue items attributes :=
  h.imp fun _ _ ⟨v, hn, hv⟩ =>
    ⟨v, hb.find?_of_find? hn, hv.congr fun _ _ hm _ => hb.find?_of_find? hm⟩

theorem Attributed.exists_of_mem {glue : String → Option Glue} {items : List NodeId}
    (h : a.Attributed glue items attributes) (hn : n ∈ items) :
    ∃ name v, a.find? n = some ⟨.attr name true v, glue name⟩ := by
  induction h with
  | nil => cases hn
  | cons hx _ ih =>
    rcases List.mem_cons.1 hn with rfl | hn
    · obtain ⟨v, hv, -⟩ := hx
      exact ⟨_, v, hv⟩
    · exact ih hn

theorem Attributed.dress {items l : List NodeId} (h : a.Attributed (fun _ => none) items attributes)
    (hl : items ⊆ l) :
    (a.dress l).Attributed (fun name => some (Glue.attr name true)) items attributes := by
  have hall := (List.forall₂_and_left items attributes).2 ⟨fun _ hn => hl hn, h⟩
  refine hall.imp fun n x ⟨hn, v, hv, hencodes⟩ => ⟨v, ?_, hencodes.congr fun m o hm ho => ?_⟩
  · rw [find?_dress, if_pos hn, hv]
    rfl
  · refine find?_dress_of_newGlue? hm ?_
    obtain ⟨p, g⟩ := o
    cases p <;> first | rfl | rcases ho with ho | ho <;> cases ho

theorem joined_plain {spans : List Span}
    (h : ∀ span ∈ spans, Node.plain span.payload [] [] = .ok (String.ofList span.source)) :
    Node.joined (spans.map fun span => Node.plain span.payload [] []) =
      .ok (String.ofList (spans.flatMap Span.source)) := by
  induction spans with
  | nil => rfl
  | cons span spans ih =>
    rw [List.forall_mem_cons] at h
    rw [List.map_cons, Node.joined, h.1, ih h.2, List.flatMap_cons, String.ofList_append]
    rfl

theorem plain_of_mem_cons {span : Span} {spans : List Span}
    (hspan : Node.plain span.payload [] [] = .ok (String.ofList span.source))
    (hspans : ∀ x ∈ spans, Node.plain x.payload [] [] = .ok (String.ofList x.source)) {x : Span}
    (h : x ∈ Span.cons span spans) : Node.plain x.payload [] [] = .ok (String.ofList x.source) := by
  cases x with
  | text s => rfl
  | reference raw r =>
    rw [Span.cons.eq_def] at h
    split at h
    · exact hspans _ (List.mem_cons_of_mem _ (List.mem_of_ne_of_mem (by simp) h))
    · rcases List.mem_cons.1 h with rfl | h
      · exact hspan
      · exact hspans _ h

theorem plain_of_mem_encode {s : List Char} {span : Span} (h : span ∈ Span.encode s) :
    Node.plain span.payload [] [] = .ok (String.ofList span.source) := by
  induction s generalizing span with
  | nil => cases h
  | cons c s ih =>
    refine plain_of_mem_cons ?_ (fun _ => ih) h
    cases hc : Span.escape? c with
    | none => rfl
    | some name => simp [Node.plain, Span.payload, Span.source, ← String.toList_inj]

theorem spelling_eq (value : String) :
    Sheet.spelling value = .ok (String.ofList (Span.escaped value.toList)) :=
  joined_plain fun _ h => plain_of_mem_encode h

/-- Attributes are printed one after the other, with their values in double quotes. -/
theorem Attributed.joined {items : List NodeId} (ha : a.Founded)
    (h : a.Attributed (fun name => some (Glue.attr name true)) items attributes) :
    Node.joined (items.map a.print) = .ok (String.ofList ((attributes.map fun x =>
      Tag.Attribute.quoted x.1.toList (Span.escaped x.2.toList)).flatMap Tag.Attribute.source)) := by
  induction h with
  | nil => rfl
  | @cons n x items attributes hx _ ih =>
    obtain ⟨v, hn, hv⟩ := hx
    have hprint : a.print n = .ok (String.ofList
        (Tag.Attribute.quoted x.1.toList (Span.escaped x.2.toList)).source) := by
      rw [ha.print_eq_of_frame? hn rfl, Tag.source_quoted]
      simp only [Payload.children, List.map_cons, List.map_nil, hv.print_eq ha, spelling_eq,
        Glue.attr, Node.interleave, bind, Except.bind, if_true]
      simp [← String.toList_inj]
    rw [List.map_cons, List.map_cons, List.flatMap_cons, Node.joined, hprint, ih]
    simp [bind, Except.bind]

/-- Attributes have been made, and nothing else is different. -/
structure Adorns (a : Arena) (attributes : List (String × String)) (items : List NodeId) (b : Arena) :
    Prop where
  exts : a.Extends b
  founded : b.Founded
  fresh : ∀ n ∈ items, a.size ≤ n.index
  attributed : b.Attributed (fun _ => none) items attributes

/-- An element with attributes has been made, and has the glue of its kind. -/
structure Tags (a : Arena) (name : String) (empty : Bool) (attributes : List (String × String))
    (body n : NodeId) (b : Arena) : Prop where
  exts : a.Extends b
  founded : b.Founded
  node : ∃ list items, b.find? n = some ⟨.element name empty list body, some (Glue.element name empty)⟩ ∧
    b.find? list = some ⟨.list items, none⟩ ∧
    b.Attributed (fun name => some (Glue.attr name true)) items attributes

end Arena

namespace Surgery

open Arena (Adorns Tags)

variable {a : Arena} {tag list body : NodeId} {items : List NodeId} {name : String} {empty : Bool}
  {attributes : List (String × String)}

/-- Make an attribute with a value. -/
def makeAttribute (name value : String) : Surgery NodeId := do
  let items ← encodeValue value
  let list ← make (.list items)
  make (.attr name true list)

/-- Make an element with attributes around a body, and give it the glue of its kind. -/
def makeTag (name : String) (empty : Bool) (attributes : List (String × String)) (body : NodeId) :
    Surgery NodeId := do
  let items ← attributes.mapM fun x => makeAttribute x.1 x.2
  let list ← make (.list items)
  let tag ← make (.element name empty list body)
  addGlue tag
  pure tag

theorem ends_makeAttribute (ha : a.Founded) (name value : String) :
    Ends (makeAttribute name value) a (fun n b => a.Adorns [(name, value)] [n] b) fun _ _ => False := by
  refine ((ends_encodeValue value a).and (lays_makeSpans _ a)).step (fun items b hb => ?_) fun _ _ h => h.1
  obtain ⟨⟨hs, -⟩, hl⟩ := hb
  refine Ends.bind (ends_make (ends_make ?_))
  have hbf : (b.push ⟨.list items, none⟩).Founded :=
    (ha.of_kids_eq hs.kids_eq hs.exts.size_le).push fun y hy => (hl.range y hy).2
  have hlist := Arena.Extends.push b ⟨.list items, none⟩
  have hattr := Arena.Extends.push (b.push ⟨.list items, none⟩) ⟨.attr name true b.next, none⟩
  have hv := Arena.find?_push_next b ⟨.list items, none⟩
  refine ⟨(hs.exts.trans hlist).trans hattr, hbf.push fun y hy => ?_, fun n hn => ?_, ?_⟩
  · obtain rfl := List.mem_singleton.1 hy
    exact Arena.index_lt_of_find? hv
  · obtain rfl := List.mem_singleton.1 hn
    exact (hs.exts.trans hlist).size_le
  · refine .cons ⟨b.next, Arena.find?_push_next _ _, items, hattr.find?_of_find? hv, ?_⟩ .nil
    rw [← hl.nodes]
    exact List.map_congr_left fun y hy => (hlist.trans hattr).find?_eq y (hl.range y hy).2

theorem ends_makeAttributes (ha : a.Founded) (attributes : List (String × String)) :
    Ends (attributes.mapM fun x => makeAttribute x.1 x.2) a
      (fun items b => a.Adorns attributes items b) fun _ _ => False := by
  induction attributes generalizing a with
  | nil => exact Ends.pure ⟨.refl a, ha, List.forall_mem_nil _, .nil⟩
  | cons x attributes ih =>
    rw [List.mapM_cons]
    refine (ends_makeAttribute ha x.1 x.2).step (fun n b hb => ?_) fun _ _ h => h
    refine (ih hb.founded).step (fun items c hc => Ends.pure ?_) fun _ _ h => h
    have hfresh : ∀ m ∈ items, a.size ≤ m.index := fun m hm => hb.exts.size_le.trans (hc.fresh m hm)
    refine ⟨hb.exts.trans hc.exts, hc.founded,
      List.forall_mem_cons.2 ⟨hb.fresh n List.mem_cons_self, hfresh⟩, ?_⟩
    · exact .cons (List.forall₂_cons.1 (hb.attributed.extends hc.exts)).1 hc.attributed

theorem ends_makeTag (ha : a.Founded) (hb : body.index < a.size) (name : String) (empty : Bool)
    (attributes : List (String × String)) :
    Ends (makeTag name empty attributes body) a (fun n b => a.Tags name empty attributes body n b)
      fun _ _ => False := by
  refine (ends_makeAttributes ha attributes).step (fun items b hb' => ?_) fun _ _ h => h
  refine Ends.bind (ends_make (Ends.bind (ends_make ?_)))
  have hlist := Arena.Extends.push b ⟨.list items, none⟩
  have htag := Arena.Extends.push (b.push ⟨.list items, none⟩) ⟨.element name empty b.next body, none⟩
  have hl := Arena.find?_push_next b ⟨.list items, none⟩
  have ht := Arena.find?_push_next (b.push ⟨.list items, none⟩) ⟨.element name empty b.next body, none⟩
  have hitems : ∀ n ∈ items, n.index < b.size := fun n hn => by
    obtain ⟨_, _, hn⟩ := hb'.attributed.exists_of_mem hn
    exact Arena.index_lt_of_find? hn
  have hfounded := (hb'.founded.push (n := ⟨.list items, none⟩) hitems).push
    (n := ⟨.element name empty b.next body, none⟩) fun y hy => by
      rcases List.mem_pair.1 hy with rfl | rfl
      · exact Arena.index_lt_of_find? hl
      · exact hb.trans_le (hb'.exts.trans hlist).size_le
  have hattributed := hb'.attributed.extends (hlist.trans htag)
  have hglues := Arena.GluesWith.element (Arena.payload_of_find? ht)
    (Arena.items_of_find? (htag.find?_of_find? hl)) fun x hx => by
      obtain ⟨name, v, hv⟩ := hattributed.exists_of_mem hx
      exact ⟨name, true, v, Arena.payload_of_find? hv⟩
  refine (ends_addGlue_dress hglues).step (fun _ d hd => Ends.pure ?_) fun _ _ h => h
  subst hd
  have hexts := (hb'.exts.trans hlist).trans htag
  refine ⟨⟨?_, fun n hn => ?_⟩, hfounded.of_payload_eq (Arena.map_payload_dress _ _), b.next, items, ?_,
    Arena.find?_dress_of_newGlue? (htag.find?_of_find? hl) rfl,
    hattributed.dress (List.subset_append_left ..)⟩
  · rw [Arena.size_dress]
    exact hexts.size_le
  · -- what was there before the tag is neither the tag nor one of its attributes
    rw [Arena.find?_dress, if_neg fun hmem => ?_]
    · exact hexts.find?_eq n hn
    · rcases List.mem_append.1 hmem with hmem | hmem
      · exact Nat.not_lt_of_le (hb'.fresh n hmem) hn
      · obtain rfl := List.mem_singleton.1 hmem
        exact Nat.not_lt_of_le (hb'.exts.trans hlist).size_le hn
  · rw [Arena.find?_dress, if_pos (by simp), ht]
    rfl

end Surgery

namespace Arena

variable {a b c : Arena} {n tag body : NodeId} {name value inside : String} {empty : Bool}
  {attributes : List (String × String)} {ids : List NodeId} {P : Arena → Node → Prop}

theorem Tags.print_eq (h : a.Tags name empty attributes body n b) (ha : a.Founded)
    (hi : a.print body = .ok inside) : ∃ rest, b.print n =
    .ok (String.ofList ('<' :: name.toList ++ (attributes.map fun x =>
      Tag.Attribute.quoted x.1.toList (Span.escaped x.2.toList)).flatMap Tag.Attribute.source ++
        StartTag.closing empty ++ rest)) := by
  obtain ⟨list, items, hn, hl, hattributes⟩ := h.node
  have hagrees : a.AgreesBut b fun _ => False := fun _ _ _ hm => h.exts.find?_of_find? hm
  have hbody : b.print body = .ok inside :=
    (hagrees.print_eq ha h.founded (index_lt_of_print hi) fun _ hf => hf.elim).trans hi
  have hlist := (h.founded.print_list hl).trans (hattributes.joined h.founded)
  rw [h.founded.print_eq_of_frame? hn rfl]
  simp only [Payload.children, List.map_cons, List.map_nil, hlist, hbody]
  cases empty with
  | false =>
    refine ⟨inside.toList ++ ("</" ++ name ++ ">").toList, ?_⟩
    simp [Glue.element, Node.interleave, StartTag.closing, bind, Except.bind, ← String.toList_inj]
  | true =>
    refine ⟨inside.toList, ?_⟩
    simp [Glue.element, Node.interleave, StartTag.closing, bind, Except.bind, ← String.toList_inj]

end Arena

namespace Span

theorem find?_store (span : Span) (a : Arena) :
    ∃ g, (span.store a).2.find? (span.store a).1 = some ⟨span.payload, g⟩ := by
  cases span <;> exact ⟨_, Arena.find?_push_next a _⟩

/-- The nodes that spans are stored in read as the text that the spans stand for. -/
theorem spells_storeAll (spans : List Span) (a : Arena) :
    (storeAll spans a).2.Spells (storeAll spans a).1 (spans.flatMap meaning) := by
  induction spans using Span.storeAll.induct generalizing a with
  | case1 => exact fun _ _ _ => rfl
  | case2 s span spans ih =>
    have hnext := (makes_store (.text s) (span.store a).2).builds.exts
    have hrest := (makes_storeAll spans ((text s).store (span.store a).2).2).builds.exts
    obtain ⟨g, hg⟩ := find?_store span a
    obtain ⟨g', hg'⟩ := find?_store (.text s) (span.store a).2
    exact ((ih _).cons ((hnext.trans hrest).find?_of_find? hg)).cons (hrest.find?_of_find? hg')
  | case3 span spans hne ih =>
    obtain ⟨g, hg⟩ := find?_store span a
    rw [storeAll, List.flatMap_cons]
    · exact (ih _).cons ((makes_storeAll spans (span.store a).2).builds.exts.find?_of_find? hg)
    · exact hne

end Span

theorem Arena.Spells.text_list {a b : Arena} {items : List NodeId} {s : List Char} (h : a.Spells items s)
    (hitems : ∀ x ∈ items, x.index < a.size) (hb : b.Founded)
    (hext : (a.push ⟨.list items, none⟩).Extends b) : b.text a.next = .ok (String.ofList s) := by
  rw [Arena.text, hb.tree_eq (hext.find?_of_find? (Arena.find?_push_next a _)), Node.text]
  exact h b hb fun x hx => congrArg _ (((Arena.Extends.push a _).trans hext).find?_eq x (hitems x hx))

namespace Tag.Attribute

/-- The attribute has a name and a value, which its nodes read as wherever they are stored. -/
def Reads [Entities] (x : Attribute) (name value : String) : Prop :=
  String.ofList x.name = name ∧ ∃ raw, x.value = some raw ∧ ∀ a : Arena, a.Founded →
    ∃ v g, (x.store a).2.find? (x.store a).1 = some ⟨.attr name true v, g⟩ ∧
      (x.store a).2.text v = .ok value

theorem reads_quoted [Entities] (name value : String) :
    (quoted name.toList (Span.escaped value.toList)).Reads name value := by
  refine ⟨String.ofList_toList, _, rfl, fun a ha => ?_⟩
  have hmakes := Span.makes_storeAll (Span.list (Span.escaped value.toList)) a
  have hspells := Span.spells_storeAll (Span.list (Span.escaped value.toList)) a
  rw [Span.flatMap_meaning_list_escaped] at hspells
  have htext := hspells.text_list (fun y hy => (hmakes.builds.range y hy).2)
    ((makes_store (quoted name.toList (Span.escaped value.toList)) a).builds.founded ha) (.push _ _)
  rw [String.ofList_toList] at htext
  have hnode (d : Arena) (v : NodeId) (g : Option Glue) :
      (d.push ⟨.attr (String.ofList name.toList) true v, g⟩).find? d.next = some ⟨.attr name true v, g⟩ := by
    rw [String.ofList_toList]
    exact Arena.find?_push_next _ _
  exact ⟨_, _, hnode _ _ _, htext⟩

end Tag.Attribute

namespace Surgery

/-- An element with attributes is printed with a tag that is scanned as it was made, and its values are
read back whatever characters they have. -/
theorem scanAt?_makeTag [Entities] {a : Arena} (ha : a.Founded) {name : String} (hname : StartTag.IsName name.toList)
    {attributes : List (String × String)} (hnames : ∀ x ∈ attributes, checkXmlName x.1 = .ok ())
    (empty : Bool) {body : NodeId} {inside : String} (hbody : a.print body = .ok inside) :
    ∃ n b text tag stop, makeTag name empty attributes body a = .ok n b ∧ b.print n = .ok text ∧
      StartTag.scanAt? text 0 = some (tag, stop) ∧
      String.ofList tag.name = name ∧ tag.selfClosing = empty ∧
      List.Forall₂ (fun x p => x.Reads p.1 p.2) tag.attributes attributes := by
  have hends := ends_makeTag ha (Arena.index_lt_of_print hbody) name empty attributes
  obtain ⟨n, b, hrun, htags⟩ := hends.exists_ok
  obtain ⟨rest, hprint⟩ := htags.print_eq ha hbody
  have hvalid : ∀ x ∈ attributes.map fun x => (x.1.toList, Span.escaped x.2.toList),
      Tag.IsName x.1 ∧ '"' ∉ x.2 := List.forall_mem_map.2 fun x hx =>
    ⟨Tag.isName_of_checkXmlName (hnames x hx), Span.quote_not_mem_escaped x.2.toList⟩
  have hscan := StartTag.scan?_attributes hname hvalid empty rest
  rw [List.map_map] at hscan
  refine ⟨n, b, _, _, _, hrun, hprint, StartTag.scanAt?_zero hscan, String.ofList_toList, rfl, ?_⟩
  exact List.forall₂_map_left_iff.2 (List.forall₂_same.2 fun x _ => Tag.Attribute.reads_quoted x.1 x.2)

/-- Values with a quote, markup and something like a reference in them. -/
theorem scanAt?_makeTag_div : StartTag.IsName "div".toList ∧
    (∀ x ∈ [("a", "x&amp;<\"'''"), ("b", "")], checkXmlName x.1 = .ok ()) ∧
    Arena.new.print ⟨0⟩ = .ok "" ∧
    ∃ n b text tag stop,
      makeTag "div" true [("a", "x&amp;<\"'''"), ("b", "")] ⟨0⟩ Arena.new = .ok n b ∧ b.print n = .ok text ∧
      StartTag.scanAt? text 0 = some (tag, stop) ∧
      String.ofList tag.name = "div" ∧ tag.selfClosing = true ∧
      List.Forall₂ (fun x p => x.Reads p.1 p.2) tag.attributes [("a", "x&amp;<\"'''"), ("b", "")] := by
  have hname : StartTag.IsName "div".toList := ⟨'d', ['i', 'v'], rfl, by decide, List.all_eq_true.1 rfl⟩
  have hnames : ∀ x ∈ [("a", "x&amp;<\"'''"), ("b", "")], checkXmlName x.1 = .ok () :=
    List.forall_mem_cons.2 ⟨by decide, List.forall_mem_singleton.2 (by decide)⟩
  have hbody : Arena.new.print ⟨0⟩ = .ok "" := by decide
  exact ⟨hname, hnames, hbody, scanAt?_makeTag Arena.isForest_new.founded hname hnames true hbody⟩

end Surgery
end WikiPage
