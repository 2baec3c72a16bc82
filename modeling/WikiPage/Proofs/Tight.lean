import WikiPage.Proofs.Landmarks
import WikiPage.Proofs.Legible
import WikiPage.Proofs.Surroundings

/-!
# Tight markup

Markup is tight if nothing in it is left open: every link and every comment has its end, titles are plain,
and no other bracket could begin anything. The pieces of tight markup may be put next to other ones, and the
text that they make has the links and tags that the nodes say.
-/

namespace WikiPage

open Landmark (isPlain)
open Text (Yields)

instance (s : List Char) : Decidable (Block.IsPlainTarget s) :=
  inferInstanceAs (Decidable (_ ∧ _ ∧ _))

namespace Inline

mutual

/-- Whether the pieces of an item have the landmarks that they are read as, whatever they are put next
to. -/
def isTight : Inline → Bool
  | text s => Text.isQuiet s
  | newline s => Text.isQuiet s
  | reference raw _ => Text.isQuiet raw
  | comment _ closed => closed
  | emphasis _ body _ => areTight body
  | link target _ title closed =>
    closed && decide (Block.IsPlainTarget target) && (sources title).all isPlain
  | element _ body _ => areTight body

def areTight : List Inline → Bool
  | [] => true
  | item :: items => isTight item && areTight items

end

theorem areTight_iff {items : List Inline} : areTight items = true ↔ ∀ x ∈ items, x.isTight = true := by
  induction items with
  | nil => simp [areTight]
  | cons x items ih => simp [areTight, ih]

end Inline

def Block.isTight : Block → Bool
  | newline s => Text.isQuiet s
  | rule dashes => Text.isQuiet dashes
  | paragraph items => Inline.areTight items
  | element _ body _ => Inline.areTight body

namespace Text

theorem isQuiet_of_isPlain {s : List Char} (h : ∀ c ∈ s, isPlain c = true) : isQuiet s = true :=
  isQuiet_of_calm fun c hc => Landmark.isCalm_of_class (p := isPlain) ⟨rfl, rfl⟩ (h c hc)

theorem Yields.eq_nil_of_isPlain {s : List Char} {ls : List Landmark} (h : Yields s ls)
    (hs : ∀ c ∈ s, isPlain c = true) : ls = [] :=
  h.landmarks_eq.symm.trans (Yields.quiet (isQuiet_of_isPlain hs)).landmarks_eq

end Text

theorem Inline.isTight_of_isPlain :
    (∀ x : Inline, (∀ c ∈ x.source, isPlain c = true) → x.isTight = true) ∧
    (∀ items : List Inline, (∀ c ∈ sources items, isPlain c = true) → areTight items = true) := by
  have first {c : Char} {s t : List Char} (hs : ∀ d ∈ t, isPlain d = true) (ht : t = c :: s) :
      isPlain c = true := hs c (ht ▸ List.mem_cons_self)
  refine isTight.mutual_induct _ _ ?text ?newline ?reference ?comment ?emphasis ?link ?element ?nil ?cons
  case text => exact fun s h => Text.isQuiet_of_isPlain h
  case newline => exact fun s h => Text.isQuiet_of_isPlain h
  case reference => exact fun raw _ h => Text.isQuiet_of_isPlain h
  case comment => exact fun s closed h => absurd (first h rfl) (by decide)
  case emphasis =>
    intro style body closed ih h
    rw [isTight]
    refine ih fun c hc => h c ?_
    rw [source]
    exact List.mem_append_left _ (List.mem_append_right _ hc)
  case link => exact fun target piped title closed h => absurd (first h rfl) (by decide)
  case element => exact fun tag body closing _ h => absurd (first h rfl) (by decide)
  case nil => exact fun _ => rfl
  case cons =>
    intro x items ih ihs h
    rw [sources, List.forall_mem_append] at h
    rw [areTight, ih h.1, ihs h.2, Bool.and_self]

def Payload.landmark? : Payload → Option Landmark
  | link target _ => some (.link target.toList true)
  | element name _ _ _ => some (.tag name.toList)
  | _ => none

namespace Arena

variable {a b c : Arena} {x y : NodeId} {n : Node} {l : Landmark} {text : String} {ls : List Landmark}

def landmark? (a : Arena) (x : NodeId) : Option Landmark :=
  (a.find? x).bind fun n => n.payload.landmark?

/-- A landmark is at or below a node. -/
def HasLandmark (a : Arena) (x : NodeId) (l : Landmark) : Prop :=
  ∃ y, Reaches a.kids x y ∧ a.landmark? y = some l

theorem landmark?_of_find? (hn : a.find? x = some n) : a.landmark? x = n.payload.landmark? := by
  rw [landmark?, hn]
  rfl

theorem target?_eq_some_iff {target : String} :
    a.target? x = some target ↔ ∃ title g, a.find? x = some ⟨.link target title, g⟩ := by
  constructor
  · intro h
    obtain ⟨⟨p, g⟩, hn, hp⟩ := Option.bind_eq_some_iff.1 h
    cases p <;> cases hp
    exact ⟨_, g, hn⟩
  · rintro ⟨title, g, hn⟩
    exact target?_of_find? hn rfl

theorem landmark?_of_target? {target : String} (h : a.target? x = some target) :
    a.landmark? x = some (.link target.toList true) := by
  obtain ⟨title, g, hn⟩ := target?_eq_some_iff.1 h
  exact landmark?_of_find? hn

theorem hasLandmark_iff (hn : a.find? x = some n) : a.HasLandmark x l ↔
    n.payload.landmark? = some l ∨ ∃ y ∈ n.payload.children, a.HasLandmark y l := by
  rw [← landmark?_of_find? hn, ← kids_of_find? hn]
  constructor
  · rintro ⟨z, hr, hz⟩
    rcases Relation.ReflTransGen.cases_head hr with rfl | ⟨y, hy, hr⟩
    · exact .inl hz
    · exact .inr ⟨y, hy, z, hr, hz⟩
  · rintro (hl | ⟨y, hy, z, hr, hz⟩)
    · exact ⟨x, .refl, hl⟩
    · exact ⟨z, .head hy hr, hz⟩

theorem IsAttributePart.landmark?_eq_none (h : a.IsAttributePart x) : a.landmark? x = none := by
  rcases h with ⟨n, hn, hk⟩ | ⟨items, hi, -⟩ | ⟨n, hn, hk⟩
  · rw [landmark?_of_find? hn]
    cases hp : n.payload <;> simp [hp, Role.admits] at hk
    rfl
  · rw [landmark?_of_find? hi]
    rfl
  · rw [landmark?_of_find? hn]
    cases hp : n.payload <;> simp [hp, Role.admits] at hk <;> rfl

theorem Sound.not_hasLandmark_of_attributes (h : a.Sound) (hx : a.ListOf .attributes x) :
    ¬a.HasLandmark x l := by
  obtain ⟨items, hi, hall⟩ := hx
  rw [hasLandmark_iff hi]
  rintro (hl | ⟨y, hy, z, hr, hz⟩)
  · cases hl
  · have hpart := h.isAttributePart_of_reaches (.inl (hall y hy)) hr
    cases hpart.landmark?_eq_none.symm.trans hz

/-- The text of a node has the landmarks that are at and below it, whatever stands behind the text. -/
structure Charts (a : Arena) (x : NodeId) (text : String) (ls : List Landmark) : Prop where
  print : a.print x = .ok text
  yields : Yields text.toList ls
  mem : ∀ l, l ∈ ls ↔ a.HasLandmark x l

/-- A node that stands for tight markup: the text of each of its pieces has the landmark that the piece
is, whatever it is put next to. -/
inductive Tight (a : Arena) : NodeId → Prop
  | leaf {x : NodeId} {n : Node} {text : String} (hn : a.find? x = some n) (hl : n.payload.isList = false)
    (hc : n.payload.children = []) (hp : a.print x = .ok text) (hy : Yields text.toList []) : Tight a x
  | list {x : NodeId} {items : List NodeId} (hn : a.find? x = some ⟨.list items, none⟩)
    (h : ∀ y ∈ items, Tight a y) : Tight a x
  | around {x content : NodeId} {p : Payload} {before behind : String}
    (hn : a.find? x = some ⟨p, some ⟨[before, behind]⟩⟩)
    (hk : p = .paragraph content ∨ ∃ style, p = .emphasis style content) (hb : Yields before.toList [])
    (hy : Yields behind.toList []) (h : Tight a content) : Tight a x
  | element {x attributes content : NodeId} {name opening ending closing inside : String} {empty : Bool}
    (hn : a.find? x = some ⟨.element name empty attributes content, some ⟨[opening, ending, closing]⟩⟩)
    (hp : a.print attributes = .ok inside) (ho : Yields (opening ++ inside ++ ending).toList [.tag name.toList])
    (hy : Yields closing.toList []) (h : Tight a content) : Tight a x
  | link {x title : NodeId} {target inside : String} {titled : Bool}
    (hn : a.find? x = some ⟨.link target title, some (Glue.link target titled)⟩)
    (ht : Block.IsPlainTarget target.toList) (hp : a.print title = .ok inside)
    (hi : ∀ c ∈ inside.toList, isPlain c = true) (he : titled = false → inside = "") (h : Tight a title) :
    Tight a x

theorem exists_charts_list {items : List NodeId} (h : ∀ y ∈ items, ∃ text ls, a.Charts y text ls) :
    ∃ text ls, Node.joined (items.map a.print) = .ok text ∧ Yields text.toList ls ∧
      ∀ l, l ∈ ls ↔ ∃ y ∈ items, a.HasLandmark y l := by
  induction items with
  | nil => exact ⟨"", [], rfl, .nil, by simp⟩
  | cons y items ih =>
    rw [List.forall_mem_cons] at h
    obtain ⟨text, ls, hy⟩ := h.1
    obtain ⟨rest, ms, hrest, hyields, hmem⟩ := ih h.2
    refine ⟨text ++ rest, ls ++ ms, ?_, ?_, fun l => ?_⟩
    · rw [List.map_cons, Node.joined, hy.print, hrest]
      rfl
    · rw [String.toList_append]
      exact hy.yields.append hyields
    · rw [List.mem_append, hy.mem, hmem]
      simp

namespace Tight

theorem not_hasLandmark_of_isPlain {text : String} {ls : List Landmark} (h : a.Charts x text ls)
    (hs : ∀ c ∈ text.toList, isPlain c = true) : ¬a.HasLandmark x l := by
  rw [← h.mem, h.yields.eq_nil_of_isPlain hs]
  exact List.not_mem_nil

theorem exists_charts (h : a.Tight x) (ha : a.Sound) : ∃ text ls, a.Charts x text ls := by
  induction h with
  | @leaf x n text hn hl hc hp hy =>
    refine ⟨text, [], hp, hy, fun l => ?_⟩
    have hnone : n.payload.landmark? = none := by
      cases hq : n.payload <;> simp [hq, Payload.children] at hc <;> rfl
    simp [hasLandmark_iff hn, hc, hnone]
  | @list x items hn _ ih =>
    obtain ⟨text, ls, hprint, hyields, hmem⟩ := exists_charts_list ih
    refine ⟨text, ls, (ha.founded.print_list hn).trans hprint, hyields, fun l => ?_⟩
    rw [hmem, hasLandmark_iff hn]
    simp [Payload.landmark?, Payload.children]
  | @around x content p before behind hn hk hb hy _ ih =>
    obtain ⟨text, ls, hcharts⟩ := ih
    have hc : p.children = [content] := by rcases hk with rfl | ⟨style, rfl⟩ <;> rfl
    have hnone : p.landmark? = none := by rcases hk with rfl | ⟨style, rfl⟩ <;> rfl
    refine ⟨_, ls, ha.founded.print_around hn hc hcharts.print, ?_, fun l => ?_⟩
    · rw [String.toList_append, String.toList_append]
      simpa using (hb.append hcharts.yields).append hy
    · rw [hcharts.mem, hasLandmark_iff hn]
      simp [hc, hnone]
  | @element x attributes content name opening ending closing inside empty hn hp ho hy _ ih =>
    obtain ⟨text, ls, hcharts⟩ := ih
    refine ⟨opening ++ inside ++ ending ++ text ++ closing, .tag name.toList :: ls, ?_, ?_, fun l => ?_⟩
    · rw [ha.founded.print_eq_of_frame? hn rfl]
      simp [Payload.children, hp, hcharts.print, Node.interleave, bind, Except.bind, String.append_assoc]
    · rw [String.toList_append, String.toList_append]
      simpa using (ho.append hcharts.yields).append hy
    · have hattributes : ¬a.HasLandmark attributes l :=
        ha.not_hasLandmark_of_attributes ((ha.fits hn).lists (attributes, .attributes) List.mem_cons_self)
      rw [List.mem_cons, hcharts.mem, hasLandmark_iff hn]
      simp [Payload.landmark?, Payload.children, hattributes, eq_comm]
  | @link x title target inside titled hn ht hp hi he _ ih =>
    obtain ⟨text, ls, hcharts⟩ := ih
    obtain rfl := Except.ok.inj (hp.symm.trans hcharts.print)
    refine ⟨_, [.link target.toList true], ha.founded.print_glued hn hp, ?_, fun l => ?_⟩
    · cases titled with
      | true =>
        simpa [String.toList_append] using Yields.titledLink ht hi
      | false =>
        rw [he rfl]
        simpa [String.toList_append] using Yields.link ht
    · rw [hasLandmark_iff hn]
      simp [Payload.landmark?, Payload.children, not_hasLandmark_of_isPlain hcharts hi, eq_comm]

end Tight
end Arena

open Arena (Shares)

namespace Emphasis

theorem yields_marker (style : Emphasis) : Yields style.marker [] :=
  .calm (by cases style <;> simp [marker, Landmark.IsCalm])

end Emphasis

namespace Inline

variable {c : Arena}

theorem tight_store_and_storeAll [Entities] (hc : c.Founded) :
    (∀ item a, item.isTight = true → Scanned item → Shares a (store item a).2 c → c.Tight (store item a).1) ∧
    (∀ items a, areTight items = true → (∀ x ∈ items, Scanned x) → Shares a (storeAll items a).2 c →
      ∀ y ∈ (storeAll items a).1, c.Tight y) := by
  -- an item that is stored as one node
  have leaf {item : Inline} {a : Arena} {n : Node} (hs : store item a = (a.next, a.push n))
      (h : Shares a (store item a).2 c) (hl : n.payload.isList = false) (hn : n.payload.children = [])
      (hy : Yields item.source []) : c.Tight (store item a).1 := by
    have hprint := (makes_store item a).print_eq hc h
    rw [hs] at h hprint ⊢
    exact .leaf (h.find?_next (.refl a)) hl hn hprint (by rwa [String.toList_ofList])
  refine store.mutual_induct _ _ ?text ?newline ?reference ?comment ?emphasis ?link
    ?element ?nil ?textCons ?cons
  case text => exact fun s a ht _ h => leaf rfl h rfl rfl (.quiet ht)
  case newline => exact fun s a ht _ h => leaf rfl h rfl rfl (.quiet ht)
  case reference => exact fun raw r a ht _ h => leaf rfl h rfl rfl (.quiet ht)
  case comment =>
    intro s closed a ht hs h
    cases hs with
    | comment u =>
      have hclosed : (commentBody u).2.1 = true := ht
      refine leaf rfl h rfl rfl ?_
      rw [source, if_pos hclosed]
      exact .comment hclosed
  case emphasis =>
    intro style body closed ih a ht hs h
    cases hs with
    | emphasis hs =>
      have hb := (makes_storeAll body a).builds.exts
      rw [store] at h ⊢
      refine .around (h.find?_next (hb.trans (.push _ _))) (.inr ⟨style, rfl⟩) ?_ ?_
        (.list (h.pop.find?_next hb) (ih a ht hs h.pop.pop))
      · rw [String.toList_ofList]
        exact style.yields_marker
      · rw [String.toList_ofList]
        split
        · exact style.yields_marker
        · exact .nil
  case link =>
    intro target piped title closed ih a ht hs h
    cases hs with
    | link hp hs =>
      rw [isTight, Bool.and_eq_true, Bool.and_eq_true, List.all_eq_true, decide_eq_true_eq] at ht
      obtain ⟨⟨hclosed, htarget⟩, hplain⟩ := ht
      have hb := (makes_storeAll title a).builds.exts
      have hlist := (makes_storeAll title a).list
      rw [store] at h ⊢
      have hn := h.find?_next (hb.trans (.push _ _))
      simp only [Option.map_some, List.map_cons, List.map_nil, ofList_linkOpening, if_pos hclosed] at hn
      refine @Arena.Tight.link _ _ _ _ _ piped hn ?_ (hlist.print_eq hc h.pop) ?_ (fun hf => ?_)
        (.list (h.pop.find?_next hb) (ih a (isTight_of_isPlain.2 title hplain) hs h.pop.pop))
      · rwa [String.toList_ofList]
      · rwa [String.toList_ofList]
      · rw [hp hf]
        rfl
  case element =>
    intro tag body closing ih a ht hs h
    cases hs with
    | element hscan he hs =>
      have ha := Storing.makes_mapM Tag.Attribute.makes_store tag.attributes a
      have hlist := ha.list.builds.exts
      have hb (b : Arena) := (makes_storeAll body b).builds.exts
      rw [store] at h ⊢
      have hattributes := h.pop.pop.left (hb _)
      refine .element (h.find?_next ((hlist.trans (hb _)).trans (.push _ _)))
        (ha.list.print_eq hc hattributes) ?_ ?_
        (.list (h.pop.find?_next (hlist.trans (hb _))) (ih _ ht hs (h.pop.pop.right hlist)))
      · simpa [StartTag.source] using Yields.startTag hscan
      · rw [String.toList_ofList]
        cases closing with
        | none => exact .nil
        | some e => exact .quiet (he e rfl).isQuiet_raw
  case nil => exact fun a _ _ _ => List.forall_mem_nil _
  case textCons =>
    intro s item items ih ihs ih' a ht hs h
    rw [areTight_iff, List.forall_mem_cons, List.forall_mem_cons] at ht
    rw [List.forall_mem_cons, List.forall_mem_cons] at hs
    have hitem := (makes_store item a).builds.exts
    have htext := (makes_store (.text s) (store item a).2).builds.exts
    have hitems := (makes_storeAll items (store (.text s) (store item a).2).2).builds.exts
    exact List.forall_mem_cons.2 ⟨ihs _ ht.1 hs.1 ((h.left hitems).right hitem), List.forall_mem_cons.2
      ⟨ih a ht.2.1 hs.2.1 (h.left (htext.trans hitems)),
        ih' _ (areTight_iff.2 ht.2.2) hs.2.2 (h.right (hitem.trans htext))⟩⟩
  case cons =>
    intro item items hne ih ih' a ht hs h
    rw [areTight, Bool.and_eq_true] at ht
    rw [List.forall_mem_cons] at hs
    rw [storeAll] at h ⊢
    · have hitem := (makes_store item a).builds.exts
      have hitems := (makes_storeAll items (store item a).2).builds.exts
      exact List.forall_mem_cons.2 ⟨ih a ht.1 hs.1 (h.left hitems), ih' _ ht.2 hs.2 (h.right hitem)⟩
    · exact hne
    · exact hne

end Inline

theorem Block.tight_store [Entities] {block : Block} {a c : Arena} (hc : c.Founded) (ht : block.isTight = true)
    (hs : ∀ x ∈ block.items, Inline.Scanned x) (h : Shares a (block.store a).2 c) :
    c.Tight (block.store a).1 := by
  obtain ⟨hitem, hitems⟩ := Inline.tight_store_and_storeAll hc
  have hprint := (makes_store block a).print_eq hc h
  cases block with
  | newline s =>
    exact .leaf (h.find?_next (.refl a)) rfl rfl hprint (by rw [String.toList_ofList]; exact .quiet ht)
  | rule dashes =>
    exact .leaf (h.find?_next (.refl a)) rfl rfl hprint (by rw [String.toList_ofList]; exact .quiet ht)
  | paragraph items =>
    have hb := (Inline.makes_storeAll items a).builds.exts
    exact .around (h.find?_next (hb.trans (.push _ _))) (.inl rfl) .nil .nil
      (.list (h.pop.find?_next hb) (hitems items a ht hs h.pop.pop))
  | element tag body closing => exact hitem _ a ht (hs _ (List.mem_singleton_self _)) h

theorem Block.tight_storeAll [Entities] {blocks : List Block} {a c : Arena} (hc : c.Founded)
    (hb : ∀ b ∈ blocks, b.isTight = true ∧ ∀ x ∈ b.items, Inline.Scanned x)
    (h : Shares a (blocks.mapM store a).2 c) : ∀ y ∈ (blocks.mapM store a).1, c.Tight y := by
  induction blocks generalizing a with
  | nil => exact List.forall_mem_nil _
  | cons block blocks ih =>
    rw [List.forall_mem_cons] at hb
    rw [List.mapM_cons] at h ⊢
    have hblock := (makes_store block a).builds.exts
    have hblocks := (Storing.makes_mapM makes_store blocks (block.store a).2).builds.exts
    exact List.forall_mem_cons.2
      ⟨tight_store hc hb.1.1 hb.1.2 (h.left hblocks), ih hb.2 (h.right hblock)⟩

/-- Whether nothing is left open in a text. -/
def Text.isTight [Entities] (s : List Char) : Bool :=
  (Block.parse true s).all Block.isTight

namespace Arena

/-- Tight text is read into tight nodes. -/
theorem tight_read [Entities] {text : String} (h : Text.isTight text.toList = true) :
    (read text).Tight (read text).content := by
  have hblocks (b : Block) (hb : b ∈ Block.parse true text.toList) :
      b.isTight = true ∧ ∀ x ∈ b.items, Inline.Scanned x :=
    ⟨List.all_eq_true.1 h b hb, Block.scanned_parse true _ b hb⟩
  rw [content_read]
  exact .list (find?_read_content text)
    (Block.tight_storeAll (sound_read text).founded hblocks (shares_read text))

end Arena

namespace Inline

variable {a : Arena} {item part : Inline} {items : List Inline} {x : NodeId} {ids : List NodeId} {l : Landmark}

/-- The landmark that an item is. -/
def landmark? : Inline → Option Landmark
  | link target _ _ _ => some (.link target true)
  | element tag _ _ => some (.tag tag.name)
  | _ => none

theorem mem_landmarks_iff : l ∈ item.landmarks ↔ item.landmark? = some l ∨ l ∈ landmarksAll item.inner := by
  cases item <;> simp [landmarks, landmark?, inner, landmarksAll, eq_comm]

theorem mem_landmarks_of_reaches (h : Reaches inner item part) (hl : l ∈ part.landmarks) : l ∈ item.landmarks := by
  induction h using Relation.ReflTransGen.head_induction_on with
  | refl => exact hl
  | head hy _ ih => exact mem_landmarks_iff.2 (.inr (mem_landmarksAll.2 ⟨_, hy, ih⟩))

theorem exists_part_of_mem_landmarks :
    (∀ item : Inline, l ∈ item.landmarks → ∃ part, Reaches inner item part ∧ part.landmark? = some l) ∧
    (∀ items : List Inline, l ∈ landmarksAll items →
      ∃ item ∈ items, ∃ part, Reaches inner item part ∧ part.landmark? = some l) := by
  have below {item : Inline} (h : ∃ y ∈ item.inner, ∃ part, Reaches inner y part ∧ part.landmark? = some l) :
      ∃ part, Reaches inner item part ∧ part.landmark? = some l := by
    obtain ⟨y, hy, part, hr, hp⟩ := h
    exact ⟨part, .head hy hr, hp⟩
  refine landmarks.mutual_induct _ _ ?link ?emphasis ?element ?other ?nil ?cons
  case link =>
    intro target piped title closed ih hl
    rcases List.mem_cons.1 hl with rfl | hl
    · exact ⟨_, .refl, rfl⟩
    · exact below (ih hl)
  case emphasis => exact fun style body closed ih hl => below (ih hl)
  case element =>
    intro tag body closing ih hl
    rcases List.mem_cons.1 hl with rfl | hl
    · exact ⟨_, .refl, rfl⟩
    · exact below (ih hl)
  case other =>
    intro item h1 h2 h3 hl
    rw [landmarks.eq_4 _ h1 h2 h3] at hl
    cases hl
  case nil => exact fun hl => by cases hl
  case cons =>
    intro item items ih ihs hl
    rcases List.mem_append.1 hl with hl | hl
    · exact ⟨item, List.mem_cons_self, ih hl⟩
    · obtain ⟨x, hx, hp⟩ := ihs hl
      exact ⟨x, List.mem_cons_of_mem _ hx, hp⟩

theorem Flat.of_reaches (h : Flat item) (hr : Reaches inner item part) (hl : l ∈ part.landmarks) : Flat part := by
  induction hr using Relation.ReflTransGen.head_induction_on with
  | refl => exact h
  | @head x y hy hr ih =>
    cases h with
    | text | newline | reference | comment => cases hy
    | emphasis h => exact ih (h _ hy)
    | element h => exact ih (h _ hy)
    | link h =>
      have hmem := mem_landmarksAll.2 ⟨y, hy, mem_landmarks_of_reaches hr hl⟩
      rw [inner, h] at hmem
      cases hmem

theorem StandsAt.landmark?_eq (h : item.StandsAt a x) : a.landmark? x = item.landmark? := by
  cases h <;> rename_i hn <;> rw [Arena.landmark?_of_find? hn] <;>
    simp [Payload.landmark?, landmark?, String.toList_ofList]

theorem StandsAt.exists_of_reaches (h : item.StandsAt a x) (hr : Reaches inner item part) :
    ∃ y, Reaches a.kids x y ∧ part.StandsAt a y := by
  induction hr with
  | refl => exact ⟨x, .refl, h⟩
  | @tail y z _ hz ih =>
    obtain ⟨n, hn, hy⟩ := ih
    have below {content : NodeId} {ids : List NodeId} (hk : content ∈ a.kids n)
        (hc : a.find? content = some ⟨.list ids, none⟩) (hb : List.Forall₂ (StandsAt a) y.inner ids) :
        ∃ m, Reaches a.kids x m ∧ z.StandsAt a m := by
      obtain ⟨m, hm, hs⟩ := exists_mem_of_forall₂ hb.flip hz
      exact ⟨m, (hn.tail hk).tail (Arena.kids_of_find? hc ▸ hm), hs⟩
    cases hy with
    | text | newline | reference | comment => cases hz
    | emphasis hy hc hb => exact below (by simp [Arena.kids_of_find? hy, Payload.children]) hc hb
    | link hy hc hb => exact below (by simp [Arena.kids_of_find? hy, Payload.children]) hc hb
    | element hy _ hc hb => exact below (by simp [Arena.kids_of_find? hy, Payload.children]) hc hb

/-- A node that an item stands at has the landmarks that are in the item. -/
theorem StandsAt.hasLandmark_iff (h : item.StandsAt a x) (ha : a.Sound) :
    a.HasLandmark x l ↔ l ∈ item.landmarks := by
  constructor
  · rintro ⟨y, hr, hy⟩
    obtain ⟨n, hn, hl⟩ := Option.bind_eq_some_iff.1 hy
    obtain ⟨part, hp, hs⟩ := (Arena.Belongs.of_reaches ha (.part item .refl h) hr).exists_part hn
      (by cases hq : n.payload <;> simp_all [Payload.landmark?, Role.admits])
      (by cases hq : n.payload <;> simp_all [Payload.landmark?, Role.admits])
    exact mem_landmarks_of_reaches hp (mem_landmarks_iff.2 (.inl (hs.landmark?_eq ▸ hy)))
  · intro hl
    obtain ⟨part, hr, hp⟩ := exists_part_of_mem_landmarks.1 item hl
    obtain ⟨y, hy, hs⟩ := h.exists_of_reaches hr
    exact ⟨y, hy, hs.landmark?_eq.trans hp⟩

theorem hasLandmark_list_iff (ha : a.Sound) (hx : a.find? x = some ⟨.list ids, none⟩)
    (hi : List.Forall₂ (StandsAt a) items ids) : a.HasLandmark x l ↔ l ∈ landmarksAll items := by
  rw [Arena.hasLandmark_iff hx, mem_landmarksAll]
  constructor
  · rintro (hl | ⟨y, hy, hl⟩)
    · cases hl
    · obtain ⟨item, hitem, hs⟩ := exists_mem_of_forall₂ hi hy
      exact ⟨item, hitem, (hs.hasLandmark_iff ha).1 hl⟩
  · rintro ⟨item, hitem, hl⟩
    obtain ⟨y, hy, hs⟩ := exists_mem_of_forall₂ hi.flip hitem
    exact .inr ⟨y, hy, (StandsAt.hasLandmark_iff hs ha).2 hl⟩

end Inline

theorem Block.StandsAt.hasLandmark_iff {a : Arena} {block : Block} {x : NodeId} {l : Landmark}
    (h : block.StandsAt a x) (ha : a.Sound) : a.HasLandmark x l ↔ l ∈ Inline.landmarksAll block.items := by
  cases h with
  | newline hx => simp [Arena.hasLandmark_iff hx, Payload.landmark?, Payload.children, items, Inline.landmarksAll]
  | rule hx => simp [Arena.hasLandmark_iff hx, Payload.landmark?, Payload.children, items, Inline.landmarksAll]
  | paragraph hx hc hb =>
    rw [Arena.hasLandmark_iff hx, items, ← Inline.hasLandmark_list_iff ha hc hb]
    simp [Payload.landmark?, Payload.children]
  | element hx => rw [hx.hasLandmark_iff ha, items, Inline.landmarksAll, Inline.landmarksAll, List.append_nil]

namespace Arena

variable {text : String} {l : Landmark}

/-- No link has landmarks in its title. -/
def IsFlat (a : Arena) : Prop :=
  ∀ x target title g, a.find? x = some ⟨.link target title, g⟩ → ∀ l, ¬a.HasLandmark title l

/-- Nothing else that is a landmark is below a link. -/
theorem IsFlat.eq_of_reaches {a : Arena} {x y : NodeId} {target : String} (h : a.IsFlat)
    (hx : a.target? x = some target) (hr : Reaches a.kids x y) (hy : a.landmark? y = some l) : x = y := by
  obtain ⟨title, g, hn⟩ := target?_eq_some_iff.1 hx
  rcases Relation.ReflTransGen.cases_head hr with rfl | ⟨z, hz, hr⟩
  · rfl
  · rw [kids_of_find? hn] at hz
    obtain rfl := List.mem_singleton.1 hz
    exact absurd ⟨y, hr, hy⟩ (h _ _ _ _ hn _)

/-- The landmarks of a text with plain titles are those of the page that it is read into. -/
theorem hasLandmark_read_iff [Entities] (h : Inline.IsPlainlyTitled text.toList) :
    (read text).HasLandmark (read text).content l ↔ l ∈ Text.landmarks text.toList := by
  have hdivides := Block.divides_parse true h
  rw [hdivides.landmarks, Text.landmarks_nil, List.append_nil, content_read,
    hasLandmark_iff (find?_read_content text), Inline.mem_landmarksAll]
  constructor
  · rintro (hl | ⟨y, hy, hl⟩)
    · cases hl
    · obtain ⟨block, hblock, hs⟩ := exists_mem_of_forall₂ (standsAt_read text) hy
      obtain ⟨item, hitem, hl⟩ := Inline.mem_landmarksAll.1 ((hs.hasLandmark_iff (sound_read text)).1 hl)
      exact ⟨item, List.mem_flatMap.2 ⟨block, hblock, hitem⟩, hl⟩
  · rintro ⟨item, hitem, hl⟩
    obtain ⟨block, hblock, hitem⟩ := List.mem_flatMap.1 hitem
    obtain ⟨y, hy, hs⟩ := exists_mem_of_forall₂ (standsAt_read text).flip hblock
    exact .inr ⟨y, hy, (Block.StandsAt.hasLandmark_iff hs (sound_read text)).2
      (Inline.mem_landmarksAll.2 ⟨item, hitem, hl⟩)⟩

theorem isFlat_read [Entities] (h : Inline.IsPlainlyTitled text.toList) : (read text).IsFlat := by
  intro x target title g hx l
  obtain ⟨block, hblock, item, ⟨top, htop, hr⟩, hs⟩ := exists_item_of_find?_read hx rfl
  have hflat := (Block.divides_parse true h).flat top (List.mem_flatMap.2 ⟨block, hblock, htop⟩)
  cases hs with
  | text hn | newline hn | reference hn | comment hn | emphasis hn _ _ | element hn _ _ _ =>
    cases hx.symm.trans hn
  | link hn hc hb =>
    obtain ⟨⟨rfl, rfl⟩, -⟩ := by simpa using hx.symm.trans hn
    cases hflat.of_reaches hr (Inline.mem_landmarks_iff.2 (.inl rfl)) with
    | link hnone =>
      rw [Inline.hasLandmark_list_iff (sound_read text) hc hb, hnone]
      exact List.not_mem_nil

end Arena
end WikiPage
