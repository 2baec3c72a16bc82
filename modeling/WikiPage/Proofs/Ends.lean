import WikiPage.Page.Edit

/-!
# How edits end

An edit ends with a result or with an error, and in either case with a page. What holds of its end
follows from what holds of the ends of its steps.
-/

namespace WikiPage

variable {ε σ α β : Type}

theorem Except.exists_of_bind {x : Except ε α} {f : α → Except ε β} {b : β}
    (h : (x >>= f) = .ok b) : ∃ a, x = .ok a ∧ f a = .ok b := by
  cases x with
  | error e => cases h
  | ok a => exact ⟨a, rfl, h⟩

theorem Except.exists_of_map {x : Except ε α} {f : α → β} {b : β} (h : x.map f = .ok b) :
    ∃ a, x = .ok a ∧ f a = b := by
  cases x with
  | error e => cases h
  | ok a => exact ⟨a, rfl, Except.ok.inj h⟩

theorem PageError.eq_ok_of_ofArena {x : Except Arena.Error α} {a : α}
    (h : ofArena x = .ok a) : x = .ok a := by
  cases x with
  | error e => cases h
  | ok b => exact congrArg _ (Except.ok.inj h)

/-- One property holds where a computation ends with a result, the other where it ends with an
error. -/
def Ends (m : EStateM ε σ α) (s : σ) (Q : α → σ → Prop) (E : ε → σ → Prop) : Prop :=
  match m s with
  | .ok x t => Q x t
  | .error e t => E e t

namespace Ends

variable {m : EStateM ε σ α} {f : α → EStateM ε σ β} {s : σ} {Q Q' : α → σ → Prop}
  {R : β → σ → Prop} {E E' : ε → σ → Prop}

theorem mono (h : Ends m s Q E) (hQ : ∀ x t, Q x t → Q' x t) (hE : ∀ e t, E e t → E' e t) :
    Ends m s Q' E' := by
  unfold Ends at h ⊢
  cases hm : m s with
  | ok x t => exact hQ x t (by simpa [hm] using h)
  | error e t => exact hE e t (by simpa [hm] using h)

theorem and (h : Ends m s Q E) (h' : Ends m s Q' E') :
    Ends m s (fun x t => Q x t ∧ Q' x t) fun e t => E e t ∧ E' e t := by
  unfold Ends at h h' ⊢
  cases hm : m s with
  | ok x t =>
    rw [hm] at h h'
    exact ⟨h, h'⟩
  | error e t =>
    rw [hm] at h h'
    exact ⟨h, h'⟩

theorem all (hQ : ∀ x t, Q x t) (hE : ∀ e t, E e t) : Ends m s Q E := by
  unfold Ends
  split
  · exact hQ _ _
  · exact hE _ _

/-- The end of a run together with the run. -/
theorem run (h : Ends m s Q E) :
    Ends m s (fun x t => Q x t ∧ m s = .ok x t) fun e t => E e t ∧ m s = .error e t := by
  unfold Ends at h ⊢
  cases hm : m s with
  | ok x t => exact ⟨by simpa [hm] using h, rfl⟩
  | error e t => exact ⟨by simpa [hm] using h, rfl⟩

theorem of_ok {x : α} {t : σ} (h : Ends m s Q E) (hm : m s = .ok x t) : Q x t := by
  unfold Ends at h
  simpa [hm] using h

theorem of_error {e : ε} {t : σ} (h : Ends m s Q E) (hm : m s = .error e t) : E e t := by
  unfold Ends at h
  simpa [hm] using h

theorem exists_ok (h : Ends m s Q fun _ _ => False) : ∃ x t, m s = .ok x t ∧ Q x t := by
  unfold Ends at h
  cases hm : m s with
  | ok x t => exact ⟨x, t, rfl, by simpa [hm] using h⟩
  | error e t =>
    rw [hm] at h
    exact h.elim

theorem bind (h : Ends m s (fun x t => Ends (f x) t R E) E) : Ends (m >>= f) s R E := by
  unfold Ends at h ⊢
  change match EStateM.bind m f s with
    | .ok x t => R x t
    | .error e t => E e t
  unfold EStateM.bind
  cases hm : m s with
  | ok x t => simpa [hm, Ends] using h
  | error e t => simpa [hm] using h

/-- A step whose end is known, and the steps that follow it. -/
theorem step (h : Ends m s Q E') (hf : ∀ x t, Q x t → Ends (f x) t R E)
    (hE : ∀ e t, E' e t → E e t) : Ends (m >>= f) s R E :=
  .bind (h.mono hf hE)

theorem map {g : α → β} (h : Ends m s (fun x t => R (g x) t) E) : Ends (g <$> m) s R E := by
  unfold Ends at h ⊢
  change match EStateM.map g m s with
    | .ok x t => R x t
    | .error e t => E e t
  unfold EStateM.map
  cases hm : m s with
  | ok x t => simpa [hm] using h
  | error e t => simpa [hm] using h

theorem pure {x : α} (h : Q x s) : Ends (pure x : EStateM ε σ α) s Q E := h

theorem throw {e : ε} (h : E e s) : Ends (throw e : EStateM ε σ α) s Q E := h

theorem get {Q : σ → σ → Prop} (h : Q s s) : Ends (get : EStateM ε σ σ) s Q E := h

theorem modify {g : σ → σ} {Q : Unit → σ → Prop} (h : Q () (g s)) :
    Ends (modify g : EStateM ε σ Unit) s Q E := h

/-- A loop, by a property of the steps done and of the state. -/
theorem forM {l : List α} {g : α → EStateM ε σ Unit} {I : List α → σ → Prop}
    (hg : ∀ done x rest t, l = done ++ x :: rest → I done t →
      Ends (g x) t (fun _ u => I (done ++ [x]) u) E)
    (h : I [] s) : Ends (l.forM g) s (fun _ t => I l t) E := by
  suffices hs : ∀ rest done t, l = done ++ rest → I done t →
      Ends (rest.forM g) t (fun _ u => I l u) E from hs l [] s rfl h
  intro rest
  induction rest with
  | nil =>
    intro done t hl ht
    rw [List.append_nil] at hl
    exact hl ▸ ht
  | cons x rest ih =>
    intro done t hl ht
    change Ends (g x >>= fun _ => rest.forM g) t _ E
    refine (hg done x rest t hl ht).step (fun _ u hu => ?_) fun _ _ he => he
    exact ih (done ++ [x]) u (by simp [hl]) hu

theorem forM_of_keeps {l : List α} {g : α → EStateM ε σ Unit} {I : σ → Prop}
    (hg : ∀ x ∈ l, ∀ t, I t → Ends (g x) t (fun _ u => I u) E) (h : I s) :
    Ends (l.forM g) s (fun _ t => I t) E :=
  forM (I := fun _ t => I t)
    (fun _ x _ t hl ht => hg x (hl ▸ List.mem_append_right _ (List.mem_cons_self ..)) t ht) h

end Ends

/-- Where a computation ends with a result, the state at the end is related to the one before. -/
def Respects (R : σ → σ → Prop) (m : EStateM ε σ α) : Prop :=
  ∀ s, Ends m s (fun _ t => R s t) fun _ _ => True

namespace Respects

variable {R : σ → σ → Prop} {m : EStateM ε σ α} {f : α → EStateM ε σ β}

theorem pure [Std.Refl R] (x : α) : Respects R (pure x : EStateM ε σ α) :=
  fun s => Ends.pure (Std.Refl.refl s)

theorem throw (e : ε) : Respects R (throw e : EStateM ε σ α) :=
  fun _ => Ends.throw trivial

theorem get [Std.Refl R] : Respects R (get : EStateM ε σ σ) :=
  fun s => Ends.get (Std.Refl.refl s)

theorem modify {g : σ → σ} (h : ∀ s, R s (g s)) : Respects R (modify g : EStateM ε σ Unit) :=
  fun s => Ends.modify (h s)

theorem step [Trans R R R] {s : σ} {P : α → σ → Prop} {E : ε → σ → Prop}
    (hm : Ends m s (fun x t => R s t ∧ P x t) E)
    (hf : ∀ x t, P x t → Ends (f x) t (fun _ u => R t u) fun _ _ => True) :
    Ends (m >>= f) s (fun _ u => R s u) fun _ _ => True :=
  hm.step (fun x t ht => (hf x t ht.2).mono (fun _ _ hu => Trans.trans ht.1 hu) fun _ _ h => h)
    fun _ _ _ => trivial

/-- Steps that respect the relation from wherever they start, after one that does so from here. -/
theorem after [Trans R R R] {s : σ} (hm : Ends m s (fun _ t => R s t) fun _ _ => True)
    (hf : ∀ x, Respects R (f x)) : Ends (m >>= f) s (fun _ u => R s u) fun _ _ => True :=
  step (P := fun _ _ => True) (hm.mono (fun _ _ ht => ⟨ht, trivial⟩) fun _ _ h => h)
    fun x t _ => hf x t

theorem bind [Trans R R R] (hm : Respects R m) (hf : ∀ x, Respects R (f x)) : Respects R (m >>= f) :=
  fun s => after (hm s) hf

theorem forM [Std.Refl R] [Trans R R R] {l : List α} {g : α → EStateM ε σ Unit}
    (hg : ∀ x, Respects R (g x)) : Respects R (l.forM g) :=
  fun s => Ends.forM_of_keeps (I := fun t => R s t) (fun x _ t ht =>
    (hg x t).mono (fun _ _ hu => Trans.trans ht hu) fun _ _ h => h) (Std.Refl.refl s)

end Respects

/-- An answer that may be a refusal but no fault. -/
def NeverFaults (x : Except PageError α) : Prop :=
  ∀ e, x = .error e → e.isFatal = false

namespace NeverFaults

theorem ok (a : α) : NeverFaults (.ok a) := fun _ h => by cases h

theorem error {e : PageError} (h : e.isFatal = false) :
    NeverFaults (.error e : Except PageError α) := by
  rintro _ ⟨⟩
  exact h

theorem refuse (r : Rejection) : NeverFaults (WikiPage.refuse r : Except PageError α) :=
  error rfl

theorem bind {x : Except PageError α} {f : α → Except PageError β} (hx : NeverFaults x)
    (hf : ∀ a, x = .ok a → NeverFaults (f a)) : NeverFaults (x >>= f) := by
  cases x with
  | error e => exact error (hx e rfl)
  | ok a => exact hf a rfl

theorem map {x : Except PageError α} (hx : NeverFaults x) (f : α → β) :
    NeverFaults (f <$> x) := by
  cases x with
  | error e => exact error (hx e rfl)
  | ok a => exact ok (f a)

theorem of_eq_ok {x : Except PageError α} {a : α} (h : x = .ok a) : NeverFaults x :=
  h ▸ ok a

end NeverFaults

namespace Surgery

variable {a : Arena} {Q : α → Arena → Prop} {E : PageError → Arena → Prop}

theorem ends_ask {f : Arena → Except PageError α} (hQ : ∀ x, f a = .ok x → Q x a)
    (hE : ∀ e, f a = .error e → E e a) : Ends (ask f) a Q E := by
  unfold Ends ask
  cases hf : f a with
  | ok x => exact hQ x hf
  | error e => exact hE e hf

theorem ends_look {f : Arena → Except Arena.Error α} (hQ : ∀ x, f a = .ok x → Q x a)
    (hE : ∀ e, f a = .error e → E (.arena e) a) : Ends (look f) a Q E := by
  refine ends_ask (fun x hx => hQ x (PageError.eq_ok_of_ofArena hx)) fun e he => ?_
  · cases hf : f a with
    | ok y => simp [hf, PageError.ofArena] at he
    | error e' =>
      obtain rfl : .arena e' = e := by simpa [hf, PageError.ofArena] using he
      exact hE e' hf

theorem ends_change {f : Arena → Except PageError Arena} {Q : Unit → Arena → Prop}
    (hQ : ∀ b, f a = .ok b → Q () b) (hE : ∀ e, f a = .error e → E e a) :
    Ends (change f) a Q E := by
  unfold Ends change
  cases hf : f a with
  | ok b => exact hQ b hf
  | error e => exact hE e hf

theorem ends_make {payload : Payload} {Q : NodeId → Arena → Prop}
    (h : Q a.next (a.push ⟨payload, none⟩)) : Ends (make payload) a Q E := h

theorem ends_setPayload {id : NodeId} {payload : Payload} {Q : Unit → Arena → Prop}
    (h : Q () (a.setPayload id payload)) : Ends (setPayload id payload) a Q E := h

theorem ends_setItems {id : NodeId} {items : List NodeId} {Q : Unit → Arena → Prop}
    (h : Q () (a.setItems id items)) : Ends (setItems id items) a Q E := h

end Surgery

namespace Edit

variable {p : Page} {Q : α → Page → Prop} {E : PageError → Page → Prop}

theorem ends_ask {f : Page → Except PageError α} (hQ : ∀ x, f p = .ok x → Q x p)
    (hE : ∀ e, f p = .error e → E e p) : Ends (ask f) p Q E := by
  unfold Ends ask
  cases hf : f p with
  | ok x => exact hQ x hf
  | error e => exact hE e hf

theorem ends_surgery {s : Surgery α}
    (h : Ends s p.arena (fun x a => Q x { p with arena := a })
      (fun e a => E e { p with arena := a })) : Ends (surgery s) p Q E := by
  unfold Ends at h ⊢
  unfold surgery
  cases hs : s p.arena with
  | ok x a => simpa [hs] using h
  | error e a => simpa [hs] using h

theorem ends_update {id : ElementId} {f : Element → Element} {Q : Unit → Page → Prop}
    (hQ : ∀ e, p.find? id = some e → Q () (p.update id f))
    (hE : p.find? id = none → E (.invariant (.unknownElement id)) p) :
    Ends (update id f) p Q E := by
  refine Ends.bind (ends_ask (fun e he => ?_) fun e he => ?_)
  · exact Ends.modify (hQ e (Page.get_eq_ok_iff.1 he))
  · cases hp : p.find? id with
    | some x => simp [Page.get, hp] at he
    | none =>
      obtain rfl : .invariant (.unknownElement id) = e := by simpa [Page.get, hp] using he
      exact hE hp

theorem ends_make {x : Element} {Q : ElementId → Page → Prop} (h : Q p.next (p.push x)) :
    Ends (make x) p Q E := h

theorem exists_of_exec {m : Edit α} {q : Page} (h : m.exec p = .ok q) : ∃ x, m p = .ok x q := by
  unfold exec at h
  split at h
  · obtain rfl := Except.ok.inj h
    exact ⟨_, ‹_›⟩
  · cases h

theorem exists_of_exec_error {m : Edit α} {e : PageError} (h : m.exec p = .error e) : ∃ q, m p = .error e q := by
  unfold exec at h
  split at h
  · cases h
  · obtain rfl := Except.error.inj h
    exact ⟨_, ‹_›⟩

theorem exists_of_isOk {m : Edit α} {p : Page} (h : (m.exec p).isOk = true) : ∃ x q, m p = .ok x q := by
  cases hm : m.exec p with
  | ok q =>
    obtain ⟨x, hx⟩ := exists_of_exec hm
    exact ⟨x, q, hx⟩
  | error e =>
    rw [hm] at h
    cases h

end Edit

attribute [irreducible] Ends

end WikiPage
