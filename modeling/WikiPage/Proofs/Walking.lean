import WikiPage.EntityTable
import WikiPage.Proofs.Agreement
import WikiPage.Proofs.Sheets
import WikiPage.Proofs.Sizing

/-!
# Walks

What stands below an identifier is found by a walk. The identifiers that are still to be visited lie on a
stack; a visit lists the one on top and puts its children in its place, the last of them first, so that they
are visited in their order. Above an element a walk goes from each element to its parent. Nothing in a walk
says that it comes to an end. It does so where nothing stands below itself, and then a walk down has listed
everything in preorder, and a walk up has met every element that the one it began at stands below.
-/

namespace WikiPage

/-- A walk under way: what has been listed, and what is still to be visited, the next one last. -/
structure Walk (ι : Type) where
  listed : List ι
  stack : List ι
  deriving DecidableEq, Repr

namespace Walk

variable {ι ε : Type} (look : ι → Except ε (List ι))

/-- Visit the identifier on top of the stack, if there is one. -/
def step (w : Walk ι) : Option (Except ε (Walk ι)) :=
  w.stack.getLast?.map fun x =>
    (look x).map fun ids => ⟨w.listed ++ [x], w.stack.dropLast ++ ids.reverse⟩

/-- What a walk comes to, if it is over before the stack has been looked at so many times. -/
def run : Nat → Walk ι → Option (Except ε (List ι))
  | 0, _ => none
  | n + 1, w =>
    match step look w with
    | none => some (.ok w.listed)
    | some (.error e) => some (.error e)
    | some (.ok w') => run n w'

/-- The walk below an identifier. -/
def below (id : ι) (n : Nat) : Option (Except ε (List ι)) :=
  match look id with
  | .error e => some (.error e)
  | .ok ids => run look n ⟨[], ids.reverse⟩

variable {look} {kids : ι → List ι} {w : Walk ι} {x : ι} {before rest : List ι} {e : ε}

theorem step_eq_none (h : Preordered kids w.stack.reverse []) : step look w = none := by
  have hs : w.stack = [] := by
    generalize hs : w.stack.reverse = s at h
    cases h
    exact List.reverse_eq_nil_iff.1 hs
  rw [step, hs]
  rfl

/-- The top of the stack is the next to be listed, and what stands below it comes before the others. -/
theorem exists_stack (h : Preordered kids w.stack.reverse (x :: rest)) : ∃ s, w.stack = s ++ [x] ∧
    Preordered kids (s ++ (kids x).reverse).reverse rest := by
  generalize hs : w.stack.reverse = s at h
  cases h with
  | @cons _ xs below rest hb hr =>
    refine ⟨xs.reverse, List.reverse_eq_cons_iff.1 hs, ?_⟩
    rw [List.reverse_append, List.reverse_reverse, List.reverse_reverse]
    exact hb.append hr

/-- A visit keeps what has been listed and what is ahead, put together, as it is. -/
theorem step_of_ok (h : Preordered kids w.stack.reverse (x :: rest)) (hx : look x = .ok (kids x)) :
    ∃ w', step look w = some (.ok w') ∧ w'.listed = w.listed ++ [x] ∧
      Preordered kids w'.stack.reverse rest := by
  obtain ⟨s, hs, hrest⟩ := exists_stack h
  refine ⟨⟨w.listed ++ [x], s ++ (kids x).reverse⟩, ?_, rfl, hrest⟩
  rw [step, hs, List.getLast?_concat, List.dropLast_concat, Option.map_some, hx]
  rfl

theorem step_of_error (h : Preordered kids w.stack.reverse (x :: rest)) (hx : look x = .error e) :
    step look w = some (.error e) := by
  obtain ⟨s, hs, -⟩ := exists_stack h
  rw [step, hs, List.getLast?_concat, Option.map_some, hx]
  rfl

/-- A walk on which nothing is missing lists what is ahead, with a visit for each identifier. -/
theorem run_of_ok (h : Preordered kids w.stack.reverse rest) (hk : ∀ x ∈ rest, look x = .ok (kids x))
    (n : Nat) : run look n w = if rest.length < n then some (.ok (w.listed ++ rest)) else none := by
  induction n generalizing w rest with
  | zero => rfl
  | succ n ih =>
    rw [run]
    cases rest with
    | nil => simp [step_eq_none h]
    | cons x rest =>
      obtain ⟨hx, hrest⟩ := List.forall_mem_cons.1 hk
      obtain ⟨w', hw', hlisted, h'⟩ := step_of_ok h hx
      simp only [hw', ih h' hrest, hlisted, List.append_assoc, List.singleton_append, List.length_cons,
        Nat.succ_lt_succ_iff]

theorem run_of_error (h : Preordered kids w.stack.reverse (before ++ x :: rest))
    (hk : ∀ y ∈ before, look y = .ok (kids y)) (hx : look x = .error e) (n : Nat) :
    run look n w = if before.length < n then some (.error e) else none := by
  induction n generalizing w before with
  | zero => rfl
  | succ n ih =>
    rw [run]
    cases before with
    | nil => simp [step_of_error h hx]
    | cons y before =>
      obtain ⟨hy, hbefore⟩ := List.forall_mem_cons.1 hk
      obtain ⟨w', hw', -, h'⟩ := step_of_ok h hy
      simp only [hw', ih h' hbefore, List.length_cons, Nat.succ_lt_succ_iff]

theorem below_of_ok {id : ι} (hid : look id = .ok (kids id)) (h : Preordered kids (kids id) rest)
    (hk : ∀ x ∈ rest, look x = .ok (kids x)) (n : Nat) :
    below look id n = if rest.length < n then some (.ok rest) else none := by
  rw [below, hid]
  exact run_of_ok (w := ⟨[], (kids id).reverse⟩) ((List.reverse_reverse (kids id)).symm ▸ h) hk n

theorem below_of_error {id : ι} (hid : look id = .ok (kids id))
    (h : Preordered kids (kids id) (before ++ x :: rest)) (hk : ∀ y ∈ before, look y = .ok (kids y))
    (hx : look x = .error e) (n : Nat) :
    below look id n = if before.length < n then some (.error e) else none := by
  rw [below, hid]
  exact run_of_error (w := ⟨[], (kids id).reverse⟩) ((List.reverse_reverse (kids id)).symm ▸ h) hk hx n

end Walk

namespace Tree

variable {ι α : Type} {find? : ι → Option α} {children : α → List ι} {t : ι → Tree ι α} {i : ι} {v : α}

/-- Looking up what stands directly below an identifier, with an error for each that the table lacks. -/
structure Looks {ε : Type} (find? : ι → Option α) (children : α → List ι) (look : ι → Except ε (List ι))
    (lack : ι → ε) : Prop where
  known : ∀ {i}, find? i ≠ none → look i = .ok (kids find? children i)
  unknown : ∀ {i}, find? i = none → look i = .error (lack i)

section

variable {ε : Type} {look : ι → Except ε (List ι)} {lack : ι → ε}

/-- The walk below an identifier comes to what the tree says stands there. -/
theorem Unfolds.walk (h : Unfolds find? children t) (hl : Looks find? children look lack) (i : ι) :
    ∃ m, ∀ n, m ≤ n → Walk.below look i n = some ((t i).below?.mapError lack) := by
  cases hv : find? i with
  | none =>
    refine ⟨0, fun n _ => ?_⟩
    rw [Walk.below, hl.unknown hv, h.missing hv, below?, Except.mapError]
  | some v =>
    have hi : look i = .ok (kids find? children i) := hl.known (by simp [hv])
    rw [h.below?_eq hv]
    cases hm : (listed find? children t i).find? fun j => (find? j).isNone with
    | none =>
      rw [List.find?_eq_none] at hm
      refine ⟨(listed find? children t i).length + 1, fun n hn => ?_⟩
      rw [Walk.below_of_ok hi (h.preordered i) fun j hj => hl.known ?_]
      · exact if_pos hn
      · simpa using hm j hj
    | some j =>
      obtain ⟨hj, before, rest, hlist, hbefore⟩ := List.find?_eq_some_iff_append.1 hm
      refine ⟨before.length + 1, fun n hn => ?_⟩
      rw [Walk.below_of_error hi (hlist ▸ h.preordered i) (fun y hy => hl.known ?_)
        (hl.unknown (Option.isNone_iff_eq_none.1 hj))]
      · exact if_pos hn
      · simpa [Option.isSome_iff_ne_none] using hbefore y hy

theorem Unfolds.walk_of_known (h : Unfolds find? children t) (hl : Looks find? children look lack)
    (hk : ∀ i, ∀ j ∈ kids find? children i, find? j ≠ none) (hi : find? i ≠ none) :
    ∃ below, (∀ l, Preordered (kids find? children) (kids find? children i) l ↔ l = below) ∧
      (t i).below? = .ok below ∧
      ∀ n, Walk.below look i n = if below.length < n then some (.ok below) else none := by
  have hp := h.preordered i
  refine ⟨listed find? children t i, fun l => ⟨fun hl => hl.unique hp, fun hl => hl ▸ hp⟩, ?_, ?_⟩
  · obtain ⟨v, hv⟩ := Option.ne_none_iff_exists'.1 hi
    exact h.below?_of_known hk hv
  · exact Walk.below_of_ok (hl.known hi) hp fun j hj => hl.known (h.known_of_mem_listed hk hj)

end
end Tree

namespace Arena

variable {a : Arena} {id top c d n : NodeId}

/-- A list of the arena in which a node stands. -/
def Holds (a : Arena) (c n : NodeId) : Prop :=
  ∃ items, a.items c = .ok items ∧ n ∈ items

/-- What the walks through an arena come to. -/
structure Walks (a : Arena) : Prop where
  /-- Below a node that is there, a walk lists each node once for each place, in the only preorder. -/
  below : ∀ id, id.index < a.size → ∃ below, (∀ l, Preordered a.kids (a.kids id) l ↔ l = below) ∧
    a.descendants id = .ok below ∧
    ∀ n, Walk.below a.children id n = if below.length < n then some (.ok below) else none
  /-- The container of a node is the first list, at or below the top, in which it stands. -/
  container : ∀ top below, a.descendants top = .ok below → ∀ n,
    (∀ c, a.findContainer? top n = .ok (some c) ↔ ∃ before after, top :: below = before ++ c :: after ∧
      a.Holds c n ∧ ∀ d ∈ before, ¬a.Holds d n) ∧
    (a.findContainer? top n = .ok none ↔ ∀ d ∈ top :: below, ¬a.Holds d n)

/-- The container that is found for a node is the only list in which it stands, and it stands there once. -/
def HoldsSingly (a : Arena) : Prop :=
  ∀ top c n, a.findContainer? top n = .ok (some c) → a.HoldsOnce c n ∧ ∀ d, a.Holds d n → d = c

theorem holds_iff : a.Holds c n ↔ ∃ items g, a.find? c = some ⟨.list items, g⟩ ∧ n ∈ items := by
  constructor
  · rintro ⟨items, hi, hn⟩
    obtain ⟨g, hg⟩ := find?_of_items hi
    exact ⟨items, g, hg, hn⟩
  · rintro ⟨items, g, hg, hn⟩
    exact ⟨items, items_of_find? hg, hn⟩

theorem looks (a : Arena) : Tree.Looks a.find? (·.payload.children) a.children Error.unknownNode where
  known hid := by
    obtain ⟨m, hm⟩ := Option.ne_none_iff_exists'.1 hid
    rw [Tree.kids_of_find? hm, children, payload_of_find? hm]
    rfl
  unknown hid := by
    rw [children, payload, get, hid]
    rfl

theorem descendants_eq_mapError (a : Arena) (id : NodeId) :
    a.descendants id = (a.tree id).below?.mapError .unknownNode := by
  rw [descendants]
  cases (a.tree id).below? <;> rfl

theorem exists_findContainer?_eq {below : List NodeId} (h : a.descendants top = .ok below) (n : NodeId) :
    ∃ f, (∀ c, f c = true ↔ a.Holds c n) ∧ a.findContainer? top n = .ok ((top :: below).find? f) := by
  refine ⟨_, fun c => ?_, by rw [findContainer?, h]; rfl⟩
  rw [holds_iff]
  split <;> simp_all

theorem Founded.walks (h : a.Founded) : a.Walks where
  below id hid := by
    obtain ⟨m, hm⟩ := exists_of_index_lt hid
    obtain ⟨below, hbelow, htree, hwalk⟩ := h.acyclic.unfolds.walk_of_known a.looks h.find?_kid
      (hm ▸ Option.some_ne_none m)
    refine ⟨below, hbelow, ?_, hwalk⟩
    rw [descendants, htree]
  container top below hbelow n := by
    obtain ⟨f, hf, hfind⟩ := exists_findContainer?_eq hbelow n
    simp only [hfind, Except.ok.injEq, List.find?_eq_some_iff_append, List.find?_eq_none,
      Bool.not_eq_true', ← Bool.not_eq_true, hf, and_true]
    refine fun c => ⟨?_, ?_⟩
    · rintro ⟨hc, before, after, hlist, hbefore⟩
      exact ⟨before, after, hlist, hc, hbefore⟩
    · rintro ⟨before, after, hlist, hc, hbefore⟩
      exact ⟨hc, before, after, hlist, hbefore⟩

theorem Sound.holdsSingly (h : a.Sound) : a.HoldsSingly := by
  intro top c n hc
  obtain ⟨below, hbelow, -⟩ := Except.exists_of_bind hc
  obtain ⟨f, hf, hfind⟩ := exists_findContainer?_eq hbelow n
  rw [hfind, Except.ok.injEq] at hc
  obtain ⟨items, hi, hn⟩ := (hf c).1 (List.find?_some hc)
  obtain ⟨g, hg⟩ := find?_of_items hi
  have hk : n ∈ a.kids c := kids_of_find? hg ▸ hn
  refine ⟨h.holdsOnce hi hk, fun d hd => ?_⟩
  obtain ⟨items', g', hg', hn'⟩ := holds_iff.1 hd
  exact h.single (kids_of_find? hg' ▸ hn') hk

end Arena

namespace Page

variable {p : Page} {x y top : ElementId} {n m : Nat} {r : Except PageError Bool}

/-- Look for an element at another and above it, from each to its parent, if that is over after so many
elements. -/
def climb (p : Page) (top : ElementId) : Nat → ElementId → Option (Except PageError Bool)
  | 0, _ => none
  | n + 1, x =>
    if x = top then some (.ok true)
    else match p.parent x with
      | .error e => some (.error e)
      | .ok none => some (.ok false)
      | .ok (some up) => p.climb top n up

/-- What the walks through a page come to. -/
structure Walks (p : Page) : Prop where
  /-- Below an element that is there, a walk lists the elements in the only preorder. -/
  below : ∀ x, p.find? x ≠ none → ∃ below, (∀ l, Preordered p.childrenOf (p.childrenOf x) l ↔ l = below) ∧
    p.descendants x = .ok below ∧
    ∀ n, Walk.below p.children x n = if below.length < n then some (.ok below) else none
  /-- A walk up comes to an end. It meets an element if that is where it begins, or if it begins below it. -/
  above : ∀ top x, ∃ r, (∀ n, p.size < n → p.climb top n x = some r) ∧
    (r = .ok true ↔ x = top ∨ ∃ below, p.descendants top = .ok below ∧ x ∈ below) ∧
    (p.find? x ≠ none → r = .ok (p.isWithin x top))

theorem climb_succ (h : p.climb top n x = some r) : p.climb top (n + 1) x = some r := by
  induction n generalizing x with
  | zero => cases h
  | succ n ih =>
    rw [climb] at h ⊢
    split at h
    · rwa [if_pos ‹_›]
    · rw [if_neg ‹_›]
      split at h
      · exact h
      · exact h
      · exact ih h

theorem climb_mono (h : p.climb top n x = some r) (hm : n ≤ m) : p.climb top m x = some r := by
  induction hm with
  | refl => exact h
  | step _ ih => exact climb_succ ih

theorem Synced.exists_parent (h : p.Synced) (hy : p.parentOf y = some x) : ∃ e, p.find? x = some e := by
  have hy := h.parent_iff.1 hy
  cases he : p.find? x with
  | none => simp [childrenOf, Tree.kids, he] at hy
  | some e => exact ⟨e, rfl⟩

theorem Synced.find?_child (h : p.Synced) (hy : y ∈ p.childrenOf x) : p.find? y ≠ none := by
  intro hn
  have hy := h.parent_iff.2 hy
  rw [parentOf, hn] at hy
  cases hy

/-- From an element that is there a walk up passes all that are above it, and all of them are there. -/
theorem Synced.climb_of_within (h : p.Synced) {e : Element} (he : p.find? x = some e)
    (hn : Within (fun x => (p.parentOf x).toList) n x) :
    p.climb top n x = some (.ok ((p.lineage n x).contains top)) := by
  induction hn generalizing e with
  | @step n x _ ih =>
    rw [climb, lineage, parent_of_find? he, he, Option.bind_some]
    by_cases hx : x = top
    · simp [hx]
    · rw [if_neg hx]
      cases hup : e.parent with
      | none => simp [Ne.symm hx]
      | some up =>
        have hp : p.parentOf x = some up := by rw [parentOf_of_find? he, hup]
        obtain ⟨e', he'⟩ := h.exists_parent hp
        simp only [ih up (by simp [hp]) he']
        simp [Ne.symm hx]

theorem looks (p : Page) : Tree.Looks p.find? Element.children p.children
    fun id => .invariant (.unknownElement id) where
  known hx := by
    obtain ⟨e, he⟩ := Option.ne_none_iff_exists'.1 hx
    rw [Tree.kids_of_find? he, children_of_find? he]
  unknown hx := by
    rw [children, get, hx]
    rfl

theorem Synced.unfolds (h : p.Synced) : Tree.Unfolds p.find? Element.children p.tree where
  wellFounded := h.forest.wellFounded
  missing hx := tree_eq_missing hx
  node hx := tree_eq h hx

theorem Synced.exists_below (h : p.Synced) (hx : p.find? x ≠ none) : ∃ below,
    (∀ l, Preordered p.childrenOf (p.childrenOf x) l ↔ l = below) ∧ p.descendants x = .ok below ∧
    ∀ n, Walk.below p.children x n = if below.length < n then some (.ok below) else none := by
  obtain ⟨below, hbelow, htree, hwalk⟩ := h.unfolds.walk_of_known p.looks (fun _ _ => h.find?_child) hx
  refine ⟨below, hbelow, ?_, hwalk⟩
  rw [descendants, htree]

theorem Synced.reaches_iff (h : p.Synced) : Reaches p.childrenOf top x ↔
    x = top ∨ ∃ below, p.descendants top = .ok below ∧ x ∈ below := by
  rw [Reaches.head_iff]
  refine or_congr_right ?_
  by_cases htop : p.find? top = none
  · have herr : p.descendants top = .error (.invariant (.unknownElement top)) := by
      rw [descendants, tree_eq_missing htop, Tree.below?]
    simp [childrenOf, Tree.kids, htop, herr]
  · obtain ⟨below, hbelow, hd, -⟩ := h.exists_below htop
    rw [← ((hbelow below).2 rfl).mem_iff]
    simp [hd]

theorem climb_of_missing (hx : p.find? x = none) (hn : 0 < n) : p.climb top n x =
    some (if x = top then .ok true else .error (.invariant (.unknownElement x))) := by
  obtain ⟨n, rfl⟩ : ∃ k, n = k + 1 := ⟨n - 1, by omega⟩
  have hp : p.parent x = .error (.invariant (.unknownElement x)) := by
    rw [parent, get, hx]
    rfl
  rw [climb, hp]
  split <;> rfl

theorem Synced.walks (h : p.Synced) : p.Walks where
  below _ hx := h.exists_below hx
  above top x := by
    rw [← h.reaches_iff]
    cases he : p.find? x with
    | none =>
      refine ⟨_, fun n hn => climb_of_missing he (Nat.zero_lt_of_lt hn), ⟨fun hr => ?_, fun hr => ?_⟩,
        fun hx => absurd rfl hx⟩
      · split at hr
        · subst top
          exact .refl
        · cases hr
      · rcases hr.eq_or_mem with rfl | ⟨y, hy⟩
        · exact if_pos rfl
        · exact absurd he (h.find?_child hy)
    | some e =>
      have hlt := lt_of_find? he
      refine ⟨_, fun n hn => climb_mono (h.climb_of_within he (h.within_parents hlt)) hn, ?_, fun _ => rfl⟩
      rw [Except.ok.injEq]
      refine ⟨h.reaches_of_isWithin, fun hr => ?_⟩
      by_contra hw
      exact h.not_reaches_of_isWithin hlt (Bool.eq_false_iff.2 hw) hr

end Page

/-- Walks come to an end with what stands below an identifier, in preorder. This is so in every arena where no
node stands below itself and none is missing; and where some are missing, a walk comes to the first of them.
The arena of a text that has been read, and that of a page that has been read and changed since by any acts,
are of this kind, and there the container that is found for a node is the only one that has it. On such a page
the walks through the elements come to an end too, down in preorder and up at what stands above. -/
theorem walks_in_preorder [Entities] :
    (∀ a : Arena, a.Acyclic →
      (∀ id, ∃ m, ∀ n, m ≤ n → Walk.below a.children id n = some (a.descendants id)) ∧
      ((∀ x, ∀ y ∈ a.kids x, y.index < a.size) → a.Walks)) ∧
    (∀ text, (Arena.read text).Walks ∧ (Arena.read text).HoldsSingly) ∧
    ∀ text site title preserve p acts, Page.read text site title preserve = .ok p →
      (Act.run acts p).arena.Walks ∧ (Act.run acts p).arena.HoldsSingly ∧ (Act.run acts p).Walks := by
  refine ⟨fun a ha => ⟨fun id => ?_, fun hk => Arena.Founded.walks ⟨hk, ha.wellFounded⟩⟩,
    fun text => ?_, fun text site title preserve p acts h => ?_⟩
  · rw [Arena.descendants_eq_mapError]
    exact ha.unfolds.walk a.looks id
  · have ha := Arena.sound_read text
    exact ⟨ha.founded.walks, ha.holdsSingly⟩
  · have hp := ((Page.begun_read h).recorded.run acts).toSynced
    exact ⟨hp.sound.founded.walks, hp.sound.holdsSingly, hp.walks⟩

/-- A list with bold text and, beside it, the text and the list of the bold text once more. -/
def Arena.shared : Arena :=
  ⟨#[⟨.text "a", none⟩, ⟨.list [⟨0⟩, ⟨0⟩], none⟩, ⟨.emphasis .bold ⟨1⟩, none⟩, ⟨.list [⟨2⟩, ⟨0⟩, ⟨1⟩], none⟩]⟩

theorem Arena.founded_shared : shared.Founded := by
  have h₁ := isForest_empty.founded.push (n := ⟨.text "a", none⟩) (by decide)
  have h₂ := h₁.push (n := ⟨.list [⟨0⟩, ⟨0⟩], none⟩) (by decide)
  have h₃ := h₂.push (n := ⟨.emphasis .bold ⟨1⟩, none⟩) (by decide)
  exact h₃.push (n := ⟨.list [⟨2⟩, ⟨0⟩, ⟨1⟩], none⟩) (by decide)

/-- Bold text that has been read. -/
def Page.boldRead : Page :=
  (Page.read "'''a''' b" .default "Test" false).toOption.getD (Page.ofDrafts .new .default "Test" [])

/-- The bold text is put into a new div, with an attribute that is no good, and the div is not put into the bold
text. -/
def Act.boxing : List Act :=
  [.createDiv, .assign ⟨3⟩ "id" "x y", .removeChild ⟨2⟩ ⟨3⟩, .insertChild ⟨6⟩ ⟨3⟩ .last,
    .insertChild Page.body ⟨6⟩ .last, .removeChild Page.body ⟨6⟩, .insertChild ⟨3⟩ ⟨6⟩ .last]

theorem walks_in_preorder_shared :
    Arena.shared.Acyclic ∧ (∀ x, ∀ y ∈ Arena.shared.kids x, y.index < Arena.shared.size) ∧
      Arena.shared.Walks ∧
      Walk.below Arena.shared.children ⟨3⟩ 9 = some (.ok [⟨2⟩, ⟨1⟩, ⟨0⟩, ⟨0⟩, ⟨0⟩, ⟨1⟩, ⟨0⟩, ⟨0⟩]) ∧
      Page.read "'''a''' b" .default "Test" false = .ok Page.boldRead ∧
      (Act.run Act.boxing Page.boldRead).arena.HoldsSingly ∧ (Act.run Act.boxing Page.boldRead).Walks ∧
      (Act.run Act.boxing Page.boldRead).descendants ⟨6⟩ = .ok [⟨3⟩, ⟨4⟩] ∧
      (Act.run Act.boxing Page.boldRead).climb ⟨6⟩ 4 ⟨4⟩ = some (.ok true) ∧
      (Act.run Act.boxing Page.boldRead).climb ⟨4⟩ 4 ⟨6⟩ = some (.ok false) := by
  have hread : Page.read "'''a''' b" .default "Test" false = .ok Page.boldRead := by decide +kernel
  have hpage := walks_in_preorder.2.2 _ _ _ _ _ Act.boxing hread
  exact ⟨Arena.founded_shared.acyclic, Arena.founded_shared.closed,
    (walks_in_preorder.1 _ Arena.founded_shared.acyclic).2 Arena.founded_shared.closed, by decide +kernel, hread,
    hpage.2.1, hpage.2.2, by decide +kernel, by decide +kernel, by decide +kernel⟩

end WikiPage
