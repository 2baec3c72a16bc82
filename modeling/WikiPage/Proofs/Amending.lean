import WikiPage.Proofs.Revising

/-!
# An edit of an attribute is an edit of a sheet

What it does to give an element an attribute, or to take one away, depends on nothing but the sheet of
the element: the answer, the refusal, and the sheet that the element has then. All other elements keep
their sheets.
-/

namespace WikiPage

theorem Except.map_eq_error_iff {ε α β : Type} {f : α → β} {x : Except ε α} {e : ε} :
    x.map f = .error e ↔ x = .error e := by
  cases x <;> simp [Except.map]

namespace Policy

variable {kind : Kind} {name : String} {policy : Policy}

/-- The policy of a name on a kind, or the refusal of the name. -/
def get (kind : Kind) (name : String) : Except PageError Policy :=
  match find? kind name with
  | some policy => .ok policy
  | none => refuse (.noAttribute kind name)

theorem get_eq_ok_iff : get kind name = .ok policy ↔ find? kind name = some policy := by
  unfold get
  cases find? kind name <;> simp [refuse]

theorem verifier_ne (hk : kind ≠ .category) (h : find? kind name = some policy) :
    policy.verifier ≠ .categoryName := by
  have hs : ∀ q ∈ specific kind, q.verifier ≠ .categoryName := by
    cases kind <;> first | decide | exact absurd rfl hk
  have hu : ∀ q ∈ generic :: universal, q.verifier ≠ .categoryName := by decide
  exact (mem_of_find? h).elim (hs policy) fun hm => hu policy hm.2

theorem tag?_of_unsynced (h : find? kind name = some policy) (hs : policy.synced = false) :
    kind.tag? = none := by
  have hk : ∀ q ∈ specific kind, q.synced = false → kind.tag? = none := by
    cases kind <;> decide
  have hu : ∀ q ∈ generic :: universal, q.synced = true := by decide
  exact (mem_of_find? h).elim (fun hm => hk policy hm hs) fun hm => by cases hs.symm.trans (hu policy hm.2)

theorem kind_of_find? (h : find? kind name = some policy) :
    kind ≠ .preserved ∧ ¬(kind = .text ∨ kind = .comment) := by
  cases kind <;> simp_all [find?, specific, Kind.tag?]

end Policy

namespace Attribute

variable {l : List Attribute} {key : String} {m : NodeId}

theorem owner?_eq_some_iff_bind (hl : (l.filterMap node).Nodup) (hnames : (l.map name).Nodup) :
    owner? l m = some key ↔ (find? l key).bind node = some m := by
  rw [owner?_eq_some_iff hl]
  constructor
  · rintro ⟨a, ha, hn, rfl⟩
    rw [find?_eq_some_of_mem hnames ha, Option.bind_some, hn]
  · intro h
    obtain ⟨a, ha, hn⟩ := Option.bind_eq_some_iff.1 h
    exact ⟨a, List.mem_of_find?_eq_some ha, hn, name_of_find? ha⟩

end Attribute

namespace Sheet

variable {s s' : Sheet} {check check' : Verifier → Except PageError (Option String)}
  {name key value : String} {old new : Option String} {policy : Policy}

def value? (s : Sheet) (key : String) : Option String :=
  (Attribute.find? s.rows key).map Attribute.value

/-- Store a value that has been checked, and write it where its policy has it written. -/
def commit (policy : Policy) (key value : String) (s : Sheet) : Except PageError Sheet :=
  if policy.synced then (checkXmlName key).map fun _ => s.promote.write key value
  else .ok (s.store key value)

/-- A link is led to its new target. -/
def react (policy : Policy) (old : Option String) (value : String) (s : Sheet) : Sheet :=
  if policy.reaction = none ∨ old = some value then s else s.retarget value

/-- Take an attribute away. The answer is the value that it had. -/
def remove (name : String) (s : Sheet) : Except PageError (Option String × Sheet) := do
  let policy ← Policy.get s.kind name
  if !policy.removable then throw (.unsupported (.removeAttribute name))
  match s.value? name.toLower with
  | none => .ok (none, s)
  | some value => .ok (some value, s.erase name.toLower)

/-- Give an attribute a value, under the check that its policy names. The answer is the value that it
had. -/
def set (check : Verifier → Except PageError (Option String)) (name : String) (s : Sheet) :
    Except PageError (Option String × Sheet) := do
  let policy ← Policy.get s.kind name
  match ← check policy.verifier with
  | none => s.remove name
  | some verified =>
    let new := policy.normalization.apply verified
    let t ← s.commit policy name.toLower new
    .ok (s.value? name.toLower, t.react policy (s.value? name.toLower) new)

theorem remove_of_error {err : PageError} (hp : Policy.get s.kind name = .error err) :
    s.remove name = .error err := by
  rw [remove, hp]
  rfl

theorem remove_of_not_removable (hp : Policy.find? s.kind name = some policy)
    (hr : policy.removable = false) : s.remove name = .error (.unsupported (.removeAttribute name)) := by
  rw [remove, Policy.get_eq_ok_iff.2 hp]
  simp only [bind, Except.bind, hr]
  rfl

theorem remove_eq (hp : Policy.find? s.kind name = some policy) (hr : policy.removable = true) :
    s.remove name = .ok (s.value? name.toLower,
      if s.value? name.toLower = none then s else s.erase name.toLower) := by
  rw [remove, Policy.get_eq_ok_iff.2 hp]
  simp only [bind, Except.bind, hr]
  cases s.value? name.toLower <;> rfl

theorem set_of_error {err : PageError} (hp : Policy.get s.kind name = .error err) :
    s.set check name = .error err := by
  rw [set, hp]
  rfl

theorem set_of_refused {err : PageError} (hp : Policy.find? s.kind name = some policy)
    (hc : check policy.verifier = .error err) : s.set check name = .error err := by
  rw [set, Policy.get_eq_ok_iff.2 hp]
  simp only [bind, Except.bind, hc]

theorem set_of_none (hp : Policy.find? s.kind name = some policy)
    (hc : check policy.verifier = .ok none) : s.set check name = s.remove name := by
  rw [set, Policy.get_eq_ok_iff.2 hp]
  simp only [bind, Except.bind, hc]

theorem set_of_some {verified : String} (hp : Policy.find? s.kind name = some policy)
    (hc : check policy.verifier = .ok (some verified)) : s.set check name =
      (s.commit policy name.toLower (policy.normalization.apply verified)).map fun t =>
        (s.value? name.toLower, t.react policy (s.value? name.toLower) (policy.normalization.apply verified)) := by
  rw [set, Policy.get_eq_ok_iff.2 hp]
  simp only [bind, Except.bind, hc]
  cases s.commit policy name.toLower (policy.normalization.apply verified) <;> rfl

@[simp] theorem kind_promote (s : Sheet) : s.promote.kind = s.kind := by
  unfold promote
  split <;> rfl

theorem kind_of_commit (h : s.commit policy key value = .ok s') : s'.kind = s.kind := by
  unfold commit at h
  split at h
  · obtain ⟨_, -, rfl⟩ := Except.exists_of_map h
    exact kind_promote s
  · obtain rfl := Except.ok.inj h
    rfl

/-- Only the check of the name of a category looks at more than one element. -/
theorem set_congr (hk : s.kind ≠ .category) (h : ∀ v, v ≠ .categoryName → check v = check' v) :
    s.set check name = s.set check' name := by
  unfold set
  cases hp : Policy.get s.kind name with
  | error _ => rfl
  | ok policy =>
    have hv := h _ (Policy.verifier_ne hk (Policy.get_eq_ok_iff.1 hp))
    simp only [bind, Except.bind, hv]

end Sheet

namespace Edit

variable {p : Page} {x : ElementId} {e : Element} {l : NodeId} {key value : String} {whole : Prop}

theorem pens_writeAttribute (h : p.Synced) (hl : p.attributeList? x = some l) {node : Option NodeId}
    (hnode : ∀ n, node = some n → n ∈ p.writtenOf x) :
    Ends (writeAttribute x key value node) p
      (fun n q => ∃ b, p.arena.Pens l node key value n b ∧ q = { p with arena := b })
      fun _ _ => False := by
  have hlist := Page.attributeList_of_attributeList? hl
  obtain ⟨k, tag, m, -, htag, hslot⟩ := Page.exists_of_attributeList? hl
  obtain ⟨items, hi, hattr⟩ := (h.sound.fits htag).lists _ hslot
  refine Ends.bind (ends_ask (fun c hc => ?_) fun _ he => by cases hlist.symm.trans he)
  obtain rfl := Except.ok.inj (hlist.symm.trans hc)
  refine ends_surgery ((Surgery.pens_writeAttribute h.sound hi hattr fun n hn => ?_).mono
    (fun n b hb => ⟨b, hb, rfl⟩) fun _ _ hf => hf)
  obtain ⟨c, hc, hmem⟩ := h.exists_of_written (hnode n hn)
  obtain rfl := Option.some.inj (hl.symm.trans hc)
  rwa [Arena.kids_of_find? hi] at hmem

end Edit

namespace Page

open Edit (MadeTag Strikes Relinked struck)

variable {p q r : Page} {x y : ElementId} {e : Element} {s s' : Sheet} {n l link : NodeId}
  {key value name : String} {whole : Prop} {old : Option String} {attributes : List Attribute}
  {policy : Policy}

theorem value?_sheetOf (p : Page) (x : ElementId) (e : Element) (key : String) :
    (p.sheetOf x e).value? key = (Attribute.find? e.attributes key).map Attribute.value := by
  rw [Sheet.value?, sheetOf, Attribute.find?_map_placeless, Option.map_map]
  rfl

theorem policy_eq_get (he : p.find? x = some e) (name : String) :
    p.policy x name = Policy.get e.kind name := by
  rw [policy, kind_of_find? he]
  rfl

theorem verify_congr (hs : q.site = p.site) {v : Verifier} (hv : v ≠ .categoryName) :
    q.verify y value v = p.verify x value v := by
  cases v with
  | linkTarget => rw [verify, verify, hs]
  | categoryName => exact absurd rfl hv
  | _ => rfl

theorem relists_of_arena {b : Arena} (hs : (({ p with arena := b } : Page).update x fun e =>
      { e with attributes := attributes }).Synced)
    (hb : p.arena.AgreesBut b fun n => ∃ l, p.attributeList? x = some l ∧ Reaches p.arena.kids l n) :
    p.Relists x attributes (({ p with arena := b } : Page).update x fun e =>
      { e with attributes := attributes }) where
  synced := hs
  site := rfl
  others _ hz := (find?_update ..).trans (if_neg hz)
  self := (find?_update ..).trans (if_pos rfl)
  agrees := hb

theorem agrees_of_pens (h : p.Synced) (hl : p.attributeList? x = some l) (he : p.find? x = some e)
    (hm : p.arena.Mirrors whole e.kind e.backing e.attributes) (hk : e.kind.tag? ≠ none) {b : Arena}
    (hb : p.arena.Pens l ((Attribute.find? e.attributes key).bind Attribute.node) key value n b) :
    p.arena.AgreesBut b fun n => ∃ l, p.attributeList? x = some l ∧ Reaches p.arena.kids l n := by
  refine fun y v hy hv => hb.agrees y v (fun hd => hy ⟨l, hl, ?_⟩) hv
  rcases hd with rfl | hd
  · exact .refl
  · rcases place_of_pens h hl he hm hk hb with ⟨a, -, -, hmem⟩ | ⟨-, hfresh⟩
    · exact .head hmem hd
    · refine absurd (Arena.index_lt_of_find? hv) (Nat.not_lt.2 (hd.le_index (fun z hz w hw => ?_) hfresh))
      rw [Arena.kids_eq_nil hz] at hw
      cases hw

theorem updates_write (h : p.Synced) (hm : p.Mirrored whole) (he : p.find? x = some e)
    (hk : e.kind.tag? ≠ none) (hl : p.attributeList? x = some l)
    (hr : Edit.writeAttribute x key value ((Attribute.find? e.attributes key).bind Attribute.node) p =
      .ok n r) :
    p.Updates x ((p.sheetOf x e).write key value)
      (r.update x fun e => { e with attributes := Attribute.put e.attributes ⟨key, value, some n⟩ }) := by
  obtain ⟨k, tag, m, hf, -⟩ := exists_of_attributeList? hl
  have hnode (m : NodeId) (hm : (Attribute.find? e.attributes key).bind Attribute.node = some m) :
      m ∈ p.writtenOf x := writtenOf_of_find? he ▸ Attribute.mem_nodes_of_find? hm
  have hins := (Edit.ends_writeAttribute h hl hnode).of_ok hr
  obtain ⟨b, hb, rfl⟩ := (Edit.pens_writeAttribute h hl hnode).of_ok hr
  have hsynced : (({ p with arena := b } : Page).update x fun e =>
      { e with attributes := Attribute.put e.attributes ⟨key, value, some n⟩ }).Synced := by
    have hq := hins.steady.synced
    refine Edit.synced_setAttributes hq (f := fun e => Attribute.put e.attributes ⟨key, value, some n⟩)
      fun e' he' => ?_
    obtain rfl := Option.some.inj (he.symm.trans he')
    exact hins.written_put he' fun m hm => hm
  rw [update_congr (p := { p with arena := b }) (g := fun d =>
    { d with attributes := Attribute.put e.attributes ⟨key, value, some n⟩ }) he rfl] at hsynced ⊢
  have hrel := relists_of_arena (p := p) hsynced (agrees_of_pens h hl he (hm x e he) hk hb)
  have hback := backing?_of_form? hf
  obtain ⟨policy, hpolicy⟩ := Policy.exists_of_tag? (Option.isSome_iff_ne_none.2 hk) key
  refine (hrel.touches h hback).updates h ?_
  obtain ⟨c, hc, hwrote⟩ := hins.wrote
  obtain rfl := Option.some.inj (hl.symm.trans hc)
  have hentries := entries_of_pens h hl he (hm x e he) hk hb hins.steady.synced.sound.founded hwrote.kids
  rw [hrel.sheet?_eq h he hback (Policy.kind_of_find? hpolicy),
    entries_of_attributeList? ((hrel.lists_eq h x).2.trans hl)]
  rw [show (({ p with arena := b } : Page).update x _).arena = b from rfl, hentries, ← Attribute.put_map_placeless]
  rfl

theorem attributeList?_of_untagged (h : p.Synced) (he : p.find? x = some e) (hk : e.kind.tag? = none)
    (hp : e.kind ≠ .preserved) : p.attributeList? x = none := by
  by_contra hne
  obtain ⟨l, hl⟩ := Option.ne_none_iff_exists'.1 hne
  obtain ⟨k, tag, m, hf, -⟩ := exists_of_attributeList? hl
  obtain rfl := (Prod.mk.inj (Option.some.inj ((form?_of_find? he).symm.trans hf))).1
  obtain ⟨⟨payload, g⟩, -, htag⟩ := h.writes hf
  cases payload <;> simp [Kind.tags, hk, hp] at htag

theorem entries_eq_nil (hl : p.attributeList? x = none) (attributes : List Attribute) :
    p.entries x attributes = [] := by
  rw [entries, hl]
  rfl

theorem exists_backing (h : p.Synced) (he : p.find? x = some e) (hk : e.kind ≠ .category) :
    ∃ n, p.backing? x = some n := by
  have hf := form?_of_find? he
  cases hb : e.backing with
  | none =>
    rw [hb] at hf
    exact absurd (h.writes hf) hk
  | some b => exact ⟨b.node, backing?_of_form? (hb ▸ hf)⟩

theorem updates_store (h : p.Synced) (he : p.find? x = some e) (hk : e.kind.tag? = none)
    (hc : e.kind ≠ .category) (hp : Policy.find? e.kind name = some policy) (hkey : key.toLower = key) :
    p.Updates x ((p.sheetOf x e).store key value) (p.update x (Edit.store key value)) := by
  obtain ⟨n, hback⟩ := exists_backing h he hc
  have hl := attributeList?_of_untagged h he hk (Policy.kind_of_find? hp).1
  have hs : (p.update x (Edit.store key value)).Synced := Edit.synced_store h hkey
  rw [update_congr (g := fun d => { d with attributes := (Edit.store key value e).attributes }) he rfl] at hs ⊢
  have hrel := relists_of_arena (p := p) hs fun _ _ _ hv => hv
  refine (hrel.touches h hback).updates h ?_
  rw [hrel.sheet?_eq h he hback (Policy.kind_of_find? hp),
    entries_eq_nil ((hrel.lists_eq h x).2.trans hl), Edit.store, ← Attribute.put_map_placeless]
  have hnil : (p.sheetOf x e).entries = [] := entries_eq_nil hl _
  rw [Sheet.store, ← hnil]
  rfl

theorem entries_of_erase (h : p.Synced) (he : p.find? x = some e)
    (hnames : (e.attributes.map Attribute.name).Nodup) (hl : p.attributeList? x = some l) {b : Arena}
    (hb : b.Founded) (hagrees : p.arena.AgreesBut b fun n => n = l) (hkids : b.kids l =
      (p.arena.kids l).filter fun m => (Attribute.find? e.attributes key).bind Attribute.node ≠ some m) :
    (b.kids l).filterMap (b.entry? (Attribute.erase e.attributes key)) =
      ((p.sheetOf x e).erase key).entries := by
  have hnodes : (e.attributes.filterMap Attribute.node).Nodup := writtenOf_of_find? he ▸ (h.written x).1
  have hown (m : NodeId) : Attribute.owner? e.attributes m = some key ↔
      (Attribute.find? e.attributes key).bind Attribute.node = some m :=
    Attribute.owner?_eq_some_iff_bind hnodes hnames
  have hentries : (p.sheetOf x e).entries = (p.arena.kids l).filterMap (p.arena.entry? e.attributes) :=
    entries_of_attributeList? hl _
  rw [Sheet.erase, hentries, hkids, List.filter_filterMap, List.filterMap_filter]
  refine List.filterMap_congr fun m hmem => ?_
  by_cases hm : (Attribute.find? e.attributes key).bind Attribute.node = some m
  · rw [if_neg (by simpa using hm)]
    cases hentry : p.arena.entry? e.attributes m with
    | none => rfl
    | some d =>
      have hd : d.owner = some key := (Arena.owner_of_entry? hentry).trans ((hown m).2 hm)
      rw [Option.filter_some, if_neg (by simpa using hd)]
  · have howner : Attribute.owner? (Attribute.erase e.attributes key) m = Attribute.owner? e.attributes m := by
      refine Attribute.owner?_erase fun a ha hname hn => ?_
      rw [← hname, Attribute.find?_eq_some_of_mem hnames ha] at hm
      exact hm hn
    rw [if_pos (by simpa using hm), entry?_congr h hagrees hb (h.sound.closed l m hmem)
      (fun y hy hyl => h.sound.not_reaches hmem (hyl ▸ hy)) howner]
    · cases hentry : p.arena.entry? e.attributes m with
      | none => rfl
      | some d =>
        have hd : d.owner ≠ some key := fun hd => hm ((hown m).1 ((Arena.owner_of_entry? hentry).symm.trans hd))
        rw [Option.filter_some, if_pos (by simpa using hd)]

/-- An attribute is struck off the record, and out of the tag if it stands there. -/
theorem updates_erase (h : p.Synced) (he : p.find? x = some e) (hc : e.kind ≠ .category)
    (hp : Policy.find? e.kind name = some policy) (hnames : (e.attributes.map Attribute.name).Nodup)
    {b : Arena} (hs : (({ p with arena := b } : Page).update x fun e =>
      { e with attributes := Attribute.erase e.attributes key }).Synced)
    (hagrees : p.arena.AgreesBut b fun n => p.attributeList? x = some n)
    (hkids : ∀ l, p.attributeList? x = some l → b.kids l = (p.arena.kids l).filter fun m =>
      (Attribute.find? e.attributes key).bind Attribute.node ≠ some m) :
    p.Updates x ((p.sheetOf x e).erase key) (({ p with arena := b } : Page).update x fun e =>
      { e with attributes := Attribute.erase e.attributes key }) := by
  obtain ⟨n, hback⟩ := exists_backing h he hc
  rw [update_congr (p := { p with arena := b }) (g := fun d =>
    { d with attributes := Attribute.erase e.attributes key }) he rfl] at hs ⊢
  have hrel := relists_of_arena (p := p) hs fun y v hy hv => hagrees y v (fun hl => hy ⟨y, hl, .refl⟩) hv
  refine (hrel.touches h hback).updates h ?_
  have hentries : (({ p with arena := b } : Page).update x fun d =>
      { d with attributes := Attribute.erase e.attributes key }).entries x
        (Attribute.erase e.attributes key) = ((p.sheetOf x e).erase key).entries := by
    cases hl : p.attributeList? x with
    | none =>
      have hnil : (p.sheetOf x e).entries = [] := entries_eq_nil hl _
      rw [entries_eq_nil ((hrel.lists_eq h x).2.trans hl), Sheet.erase, hnil]
      rfl
    | some l =>
      rw [entries_of_attributeList? ((hrel.lists_eq h x).2.trans hl)]
      exact entries_of_erase h he hnames hl hs.sound.founded
        (fun y v hy hv => hagrees y v (fun hly => hy (Option.some.inj (hl.symm.trans hly)).symm) hv) (hkids l hl)
  rw [hrel.sheet?_eq h he hback (Policy.kind_of_find? hp), hentries, ← Attribute.erase_map_placeless]
  rfl

theorem updates_of_strikes (h : p.Synced) (he : p.find? x = some e) (hc : e.kind ≠ .category)
    (hp : Policy.find? e.kind name = some policy) (hnames : (e.attributes.map Attribute.name).Nodup)
    (hs : q.Synced) (hq : Strikes p x e key old q) : old = (p.sheetOf x e).value? key ∧
      p.Updates x (if old = none then p.sheetOf x e else (p.sheetOf x e).erase key) q := by
  rw [value?_sheetOf]
  cases hq with
  | absent ha => exact ⟨by rw [ha]; rfl, .refl h (sheet?_of_find? he)⟩
  | @stored a ha hn =>
    obtain rfl := Attribute.name_of_find? ha
    refine ⟨by rw [ha]; rfl, ?_⟩
    rw [if_neg (Option.some_ne_none _)]
    refine updates_erase h he hc hp hnames hs (fun _ _ _ hv => hv) fun l hl => (List.filter_eq_self.2 ?_).symm
    simp [ha, hn]
  | @written a n c s t ha hn hcl hl =>
    obtain rfl := Attribute.name_of_find? ha
    refine ⟨by rw [ha]; rfl, ?_⟩
    rw [if_neg (Option.some_ne_none _)]
    refine updates_erase (b := p.arena.setItems c (s ++ t)) h he hc hp hnames hs (fun y v hy hv => ?_)
      fun l hl' => ?_
    · rw [Arena.find?_setItems hl, if_neg, hv]
      rintro rfl
      exact hy hcl
    · obtain rfl := Option.some.inj (hcl.symm.trans hl')
      have hk : p.arena.kids c = s ++ n :: t := Arena.kids_of_find? hl
      have hnd := hk ▸ h.sound.nodup c
      rw [List.nodup_middle, List.nodup_cons, List.mem_append, not_or] at hnd
      have hne {r : List NodeId} (hr : n ∉ r) : r.filter (fun m => decide (some n ≠ some m)) = r :=
        List.filter_eq_self.2 fun m hm => by
          simp only [ne_eq, Option.some.injEq, decide_not, Bool.not_eq_eq_eq_not, Bool.not_true,
            decide_eq_false_iff_not]
          rintro rfl
          exact hr hm
      rw [Arena.kids_setItems (Arena.index_lt_of_find? hl), if_pos rfl, hk, ha, Option.bind_some, hn,
        List.filter_append, List.filter_cons_of_neg (by simp), hne hnd.1.1, hne hnd.1.2]

theorem updates_retarget (h : p.Synced) (he : p.find? x = some e) (hk : e.kind = .link)
    (hb : e.backing = some (.markup link)) (hq : Relinked p link value q) :
    p.Updates x ((p.sheetOf x e).retarget value) q := by
  have hback : p.backing? x = some link := backing?_of_form? (hb ▸ form?_of_find? he)
  have hfind : q.find? = p.find? := by
    rw [hq.eq]
    rfl
  have hform : q.form? = p.form? := by
    rw [hq.eq]
    rfl
  have hkids := hq.arena.alike.kids_eq
  have hev := hq.arena.alike.evolves
  have hcontainer (z : ElementId) : q.container? z = p.container? z := by
    rw [hq.eq]
    exact h.container?_of_arena hev z
  have hitems (z : ElementId) : q.itemsOf z = p.itemsOf z := by
    rw [itemsOf, itemsOf, hcontainer, hkids]
  have htouches : p.Touches x q :=
    { synced := hq.synced
      site := by rw [hq.eq]
      others := fun z _ => by rw [hfind]
      self := by rw [hfind]
      agrees := fun n m hn hm => by
        have hne : n ≠ link := by
          rintro rfl
          exact hn (.inl hback)
        rw [hq.arena.find?_of_ne hne, hm]
      items := ⟨link, link, hback, by rwa [backing?, hform], .inl rfl, fun z => by
        have hid : (fun m => if m = link then link else m) = id :=
          funext fun m => by by_cases hm : m = link <;> simp [hm]
        rw [hitems, hid, List.map_id]⟩ }
  refine htouches.updates h ?_
  obtain ⟨old, title, g, hold, hnew⟩ := hq.arena.find?_link
  have hc : p.container? x = some title := by
    rw [container?_of_form? (hb ▸ form?_of_find? he), Arena.container?, if_neg (by simp [hk]), hold]
    rfl
  have hshell : q.shell x = .around (Glue.link value !(p.arena.kids title).isEmpty).slots :=
    shell_eq_around (by rwa [backing?, hform]) (.inr (by simp [hcontainer, hc])) hnew rfl
  have hempty : (p.sheetOf x e).items.isEmpty = (p.arena.kids title).isEmpty := by
    rw [sheetOf, h.itemsOf_eq hc, List.isEmpty_map]
  have hentries (attributes : List Attribute) : q.entries x attributes = p.entries x attributes := by
    have hl := attributeList?_of_untagged h he (by rw [hk]; rfl) (by simp [hk])
    rw [entries_eq_nil hl, entries_eq_nil]
    rw [hq.eq]
    exact (h.attributeList?_of_arena hev x).trans hl
  have hfq : q.find? x = some e := hfind ▸ he
  have hkind : e.kind ≠ .preserved ∧ ¬(e.kind = .text ∨ e.kind = .comment) := by simp [hk]
  rw [sheet?_of_find? hfq, Sheet.retarget, hempty, ← hshell, sheetOf, sheetOf, hentries,
    htouches.items_eq h, label_eq_name hfq hkind.1, label_eq_name he hkind.1]
  simp only [saying, if_neg hkind.2]

theorem sheetOf_eq (hs : p.sheet? x = some s) (he : p.find? x = some e) : p.sheetOf x e = s :=
  Option.some.inj ((sheet?_of_find? he).symm.trans hs)

end Page

namespace Edit

open Page (Mirrored)

variable {p : Page} {x : ElementId} {e : Element} {name value key : String} {whole : Prop} {policy : Policy}

/-- An edit does to the page what another function does to the sheet of one element. -/
def FollowsSheet (m : Edit α) (p : Page) (x : ElementId) (f : Except PageError (α × Sheet)) : Prop :=
  Ends m p (fun a q => ∃ s, f = .ok (a, s) ∧ p.Updates x s q) fun err q => q = p ∧ f = .error err

theorem followsSheet_react (h : p.Synced) (he : p.find? x = some e) (hc : e.kind ≠ .category)
    (hp : Policy.find? e.kind name = some policy) (old : Option String) :
    FollowsSheet (react x old value policy.reaction) p x
      (.ok ((), (p.sheetOf x e).react policy old value)) := by
  unfold FollowsSheet Sheet.react
  cases hr : policy.reaction with
  | none => exact Ends.pure ⟨_, rfl, .refl h (Page.sheet?_of_find? he)⟩
  | some r =>
    obtain ⟨-, ⟨rfl, hk⟩ | ⟨rfl, hk⟩⟩ := kind_of_reaction hp hr
    · rw [react]
      split
      · rename_i hold
        rw [if_pos (.inr hold)]
        exact Ends.pure ⟨_, rfl, .refl h (Page.sheet?_of_find? he)⟩
      · rename_i hold
        rw [if_neg (by simpa using hold)]
        refine (ends_retarget h (by rw [Page.form?_of_find? he, hk])).mono ?_ fun _ _ hf => hf.elim
        rintro - q ⟨link, hb, hq, -⟩
        exact ⟨_, rfl, Page.updates_retarget h he hk hb hq⟩
    · exact absurd hk hc

section

variable (h : p.Synced) (hm : p.Mirrored whole) (he : p.find? x = some e) (hc : e.kind ≠ .category)
include h hm he hc

theorem followsSheet_removeAttribute :
    FollowsSheet (removeAttribute x name) p x ((p.sheetOf x e).remove name) := by
  refine ((ends_removeAttribute_run h).and (ends_removeAttribute h)).mono ?_ ?_
  · rintro old q ⟨⟨e', policy, he', hp, hremovable, hq⟩, hr⟩
    obtain rfl := Option.some.inj (he.symm.trans he')
    rw [Page.policy_eq_get he, Policy.get_eq_ok_iff] at hp
    obtain ⟨rfl, hu⟩ := Page.updates_of_strikes h he hc hp (hm x e he).nodup hr.calm.synced hq
    exact ⟨_, Sheet.remove_eq hp hremovable, hu⟩
  · rintro err q ⟨⟨rfl, hp | ⟨policy, hp, hremovable, rfl⟩⟩, -⟩
    · exact ⟨rfl, Sheet.remove_of_error ((Page.policy_eq_get he name).symm.trans hp)⟩
    · rw [Page.policy_eq_get he, Policy.get_eq_ok_iff] at hp
      exact ⟨rfl, Sheet.remove_of_not_removable hp hremovable⟩

theorem followsSheet_commit (hp : Policy.find? e.kind name = some policy) (hkey : key.toLower = key) :
    FollowsSheet (commit x policy key value) p x
      (((p.sheetOf x e).commit policy key value).map fun s => ((p.sheetOf x e).value? key, s)) := by
  unfold FollowsSheet Sheet.commit
  cases hs : policy.synced with
  | false =>
    refine (ends_commit_of_unsynced hs).mono ?_ fun _ q hq => by cases hq.2.symm.trans he
    rintro old q ⟨e', he', rfl, rfl⟩
    obtain rfl := Option.some.inj (he.symm.trans he')
    rw [hkey, ← Page.value?_sheetOf]
    exact ⟨_, rfl, Page.updates_store h he (Policy.tag?_of_unsynced hp hs) hc hp hkey⟩
  | true =>
    have hk := tag?_of_synced hp hs
    have hstored : p.attribute? x key = .ok (Attribute.find? e.attributes key) := by
      simp [Page.attribute?, Page.get_eq_ok_iff.2 he, Except.map, hkey]
    refine Ends.bind (ends_ask (fun stored hst => ?_) fun _ herr => by cases hstored.symm.trans herr)
    obtain rfl := Except.ok.inj (hstored.symm.trans hst)
    rw [hs]
    refine Ends.bind (Ends.map ((ends_writeValue_run h he hk hkey).mono ?_ ?_))
    · rintro n r ⟨hcheck, q, d, hq, hd, hok⟩
      have hpromote := Page.updates_of_madeTag hq h hm he hk
      have hdk : d.kind.tag? ≠ none := hq.kind he hd ▸ hk
      obtain ⟨l, hl⟩ := Option.ne_none_iff_exists'.1 hq.tagged
      have hwrite := Page.updates_write hq.calm.synced (hq.calm.mirrored hm) hd hdk hl hok
      rw [Page.sheetOf_eq hpromote.self hd] at hwrite
      refine Ends.bind (ends_update (fun _ _ => Ends.pure ?_) fun hn => ?_)
      · rw [← Page.value?_sheetOf, hcheck]
        exact ⟨_, rfl, hpromote.trans hwrite⟩
      · have hr := hq.inscribed hd hok
        rw [Page.find?, hr.elements] at hn
        cases hn.symm.trans hd
    · rintro err q ⟨rfl, hcheck⟩
      rw [hcheck]
      exact ⟨rfl, rfl⟩

/-- What an attribute is set to is settled by the sheet of its element. -/
theorem followsSheet_setAttribute : FollowsSheet (setAttribute x name value) p x
    ((p.sheetOf x e).set (p.verify x value) name) := by
  have hget := Page.policy_eq_get he name
  refine Ends.bind (ends_ask (fun policy hpolicy => ?_) fun err herr =>
    ⟨rfl, Sheet.set_of_error (hget.symm.trans herr)⟩)
  have hp := Policy.get_eq_ok_iff.1 (hget.symm.trans hpolicy)
  refine Ends.bind (ends_ask (fun verified hv => ?_) fun err herr => ⟨rfl, Sheet.set_of_refused hp herr⟩)
  cases verified with
  | none =>
    rw [Sheet.set_of_none hp hv]
    exact followsSheet_removeAttribute h hm he hc
  | some verified =>
    rw [Sheet.set_of_some hp hv]
    have hcommit : FollowsSheet (commit x policy name.toLower (policy.normalization.apply verified)) p x _ :=
      followsSheet_commit h hm he hc hp (toLower_toLower name)
    refine Ends.bind (Ends.mono hcommit ?_ ?_)
    · rintro old q ⟨s, hs, hu⟩
      obtain ⟨t, ht, heq⟩ := Except.exists_of_map hs
      obtain ⟨rfl, rfl⟩ := Prod.mk.inj heq
      obtain ⟨d, hd, hds⟩ := Option.map_eq_some_iff.1 hu.self
      have hk : d.kind = e.kind := (congrArg Sheet.kind hds).trans (Sheet.kind_of_commit ht)
      have hreact : FollowsSheet (react x ((p.sheetOf x e).value? name.toLower)
          (policy.normalization.apply verified) policy.reaction) q x _ :=
        followsSheet_react hu.synced hd (hk ▸ hc) (hk ▸ hp) _
      rw [hds] at hreact
      refine Ends.bind (Ends.mono hreact ?_ fun _ _ herr => by cases herr.2)
      rintro ⟨⟩ r ⟨s, hrs, hu'⟩
      obtain rfl := (Prod.mk.inj (Except.ok.inj hrs)).2
      exact Ends.pure ⟨_, by rw [ht]; rfl, hu.trans hu'⟩
    · rintro err q ⟨rfl, herr⟩
      exact ⟨rfl, Except.map_eq_error_iff.2 (Except.map_eq_error_iff.1 herr)⟩

end

end Edit
end WikiPage
