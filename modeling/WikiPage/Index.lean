/-!
# Indexes

A finite map from keys to values. A later entry for a key takes the place of an earlier one.
-/

namespace WikiPage

structure Index (κ α : Type) where
  entries : List (κ × α)
  deriving DecidableEq, Repr

namespace Index

variable {κ α : Type} [DecidableEq κ]

def empty : Index κ α := ⟨[]⟩

def find? (m : Index κ α) (k : κ) : Option α :=
  m.entries.lookup k

def erase (m : Index κ α) (k : κ) : Index κ α :=
  ⟨m.entries.filter (·.1 ≠ k)⟩

def insert (m : Index κ α) (k : κ) (v : α) : Index κ α :=
  ⟨(k, v) :: (m.erase k).entries⟩

@[simp] theorem find?_empty (k : κ) : (empty : Index κ α).find? k = none := rfl

theorem find?_cons (k k' : κ) (v : α) (entries : List (κ × α)) :
    find? ⟨(k, v) :: entries⟩ k' = if k' = k then some v else find? ⟨entries⟩ k' := by
  by_cases h : k' = k
  · simp [find?, h]
  · simp only [find?, List.lookup_cons, beq_eq_false_iff_ne.2 h, if_neg h]

@[simp] theorem find?_erase (m : Index κ α) (k k' : κ) :
    (m.erase k).find? k' = if k' = k then none else m.find? k' := by
  obtain ⟨entries⟩ := m
  induction entries with
  | nil => simp [erase, find?]
  | cons e entries ih =>
    obtain ⟨j, v⟩ := e
    by_cases hj : j = k
    · have : erase ⟨(j, v) :: entries⟩ k = erase ⟨entries⟩ k := by simp [erase, hj]
      rw [this, ih, find?_cons, hj]
      split <;> rfl
    · have : erase ⟨(j, v) :: entries⟩ k = ⟨(j, v) :: (erase ⟨entries⟩ k).entries⟩ := by
        simp [erase, hj]
      rw [this, find?_cons, ih, find?_cons]
      grind

@[simp] theorem find?_insert (m : Index κ α) (k k' : κ) (v : α) :
    (m.insert k v).find? k' = if k' = k then some v else m.find? k' := by
  rw [insert, find?_cons]
  split
  · rfl
  · next h => exact (find?_erase m k k').trans (if_neg h)

end Index
end WikiPage
