import Mathlib

/-!
# Static pools

A table of entries with a flag that says whether an entry is in use. The first free entry is given out, and an entry
that is given back keeps its contents.

* **`Owns.give`**, **`Owns.release`**: a free entry goes into one of the lists, or entries of one list are given back.
-/

namespace Pool

variable {n : ℕ} {α κ : Type}

structure Cell (α : Type) where
  valid : Bool
  entry : α

abbrev Table (n : ℕ) (α : Type) := Fin n → Cell α

def find (t : Table n α) : Option (Fin n) := (List.finRange n).find? fun i => !(t i).valid

def free (t : Table n α) (i : Fin n) : Table n α := Function.update t i { t i with valid := false }

def freeAll (t : Table n α) (l : List (Fin n)) : Table n α := l.foldl free t

variable {t : Table n α} {i j : Fin n}

theorem valid_of_find (h : find t = some i) : (t i).valid = false := by
  have := List.find?_some h
  simpa using this

theorem find_eq_none_iff : find t = none ↔ ∀ i, (t i).valid = true := by
  unfold find
  simp

@[simp] theorem free_entry (t : Table n α) (i j : Fin n) : (free t i j).entry = (t j).entry := by
  unfold free
  rw [Function.update_apply]
  split_ifs with h
  · rw [h]
  · rfl

theorem free_valid_iff : (free t i j).valid = true ↔ (t j).valid = true ∧ j ≠ i := by
  unfold free
  by_cases h : j = i
  · simp [h]
  · simp [h]

@[simp] theorem freeAll_entry (t : Table n α) (l : List (Fin n)) (j : Fin n) :
    (freeAll t l j).entry = (t j).entry := by
  unfold freeAll
  induction l generalizing t with
  | nil => rfl
  | cons i l ih => rw [List.foldl_cons, ih, free_entry]

theorem freeAll_valid_iff {l : List (Fin n)} :
    (freeAll t l j).valid = true ↔ (t j).valid = true ∧ j ∉ l := by
  unfold freeAll
  induction l generalizing t with
  | nil => simp
  | cons i l ih => rw [List.foldl_cons, ih, free_valid_iff, List.mem_cons, not_or, and_assoc]

/-- What some owners have: entries that are in use, each of them in one list. -/
structure Owns (t : Table n α) (owners : List κ) (owned : κ → List (Fin n)) : Prop where
  valid : ∀ k ∈ owners, ∀ j ∈ owned k, (t j).valid = true
  unique : ∀ k ∈ owners, ∀ k' ∈ owners, ∀ j ∈ owned k, j ∈ owned k' → k = k'

section Owns

variable {t : Table n α} {owners owners' : List κ} {owned owned' : κ → List (Fin n)} {k : κ} {j : Fin n}
  {l : List (Fin n)}

variable (h : Owns t owners owned)

include h

theorem Owns.not_mem (hj : (t j).valid = false) (hk : k ∈ owners) : j ∉ owned k :=
  fun hmem => Bool.false_ne_true (hj.symm.trans (h.valid k hk j hmem))

/-- **An entry is given to an owner**, who may be a new one. -/
theorem Owns.give {x : α} (hj : (t j).valid = false)
    (howners : ∀ k' ∈ owners', k' = k ∨ k' ∈ owners) (hothers : ∀ k', k' ≠ k → owned' k' = owned k')
    (hself : ∀ y ∈ owned' k, y = j ∨ k ∈ owners ∧ y ∈ owned k) :
    Owns (Function.update t j ⟨true, x⟩) owners' owned' := by
  -- what somebody else has was there before, and is not the new entry
  have hold : ∀ k' ∈ owners', k' ≠ k → k' ∈ owners ∧ ∀ y ∈ owned' k', y ∈ owned k' ∧ y ≠ j := by
    intro k' hk' hne
    have hmem := (howners k' hk').resolve_left hne
    refine ⟨hmem, fun y hy => ?_⟩
    rw [hothers k' hne] at hy
    exact ⟨hy, fun heq => h.not_mem hj hmem (heq ▸ hy)⟩
  refine ⟨fun k' hk' y hy => ?_, fun k₁ hk₁ k₂ hk₂ y hy₁ hy₂ => ?_⟩
  · rw [Function.update_apply]
    split_ifs with heq
    · rfl
    · by_cases hne : k' = k
      · subst hne
        obtain ⟨hmem, hy⟩ := (hself y hy).resolve_left heq
        exact h.valid k' hmem y hy
      · obtain ⟨hmem, hin⟩ := hold k' hk' hne
        exact h.valid k' hmem y (hin y hy).1
  · by_cases h₁ : k₁ = k <;> by_cases h₂ : k₂ = k
    · rw [h₁, h₂]
    · obtain ⟨hmem, hin⟩ := hold k₂ hk₂ h₂
      obtain ⟨hin, hne⟩ := hin y hy₂
      subst h₁
      obtain ⟨hmem₁, hy⟩ := (hself y hy₁).resolve_left hne
      exact h.unique k₁ hmem₁ k₂ hmem y hy hin
    · obtain ⟨hmem, hin⟩ := hold k₁ hk₁ h₁
      obtain ⟨hin, hne⟩ := hin y hy₁
      subst h₂
      obtain ⟨hmem₂, hy⟩ := (hself y hy₂).resolve_left hne
      exact h.unique k₁ hmem k₂ hmem₂ y hin hy
    · obtain ⟨hmem₁, hin₁⟩ := hold k₁ hk₁ h₁
      obtain ⟨hmem₂, hin₂⟩ := hold k₂ hk₂ h₂
      exact h.unique k₁ hmem₁ k₂ hmem₂ y (hin₁ y hy₁).1 (hin₂ y hy₂).1

/-- **An owner gives entries back**, and may be gone then. -/
theorem Owns.release (hk : k ∈ owners) (hl : ∀ y ∈ l, y ∈ owned k)
    (howners : ∀ k' ∈ owners', k' ∈ owners) (hothers : ∀ k', k' ≠ k → owned' k' = owned k')
    (hself : k ∈ owners' → ∀ y ∈ owned' k, y ∈ owned k ∧ y ∉ l) : Owns (freeAll t l) owners' owned' := by
  have hold : ∀ k' ∈ owners', ∀ y ∈ owned' k', y ∈ owned k' ∧ y ∉ l := by
    intro k' hk' y hy
    by_cases hne : k' = k
    · subst hne
      exact hself hk' y hy
    · rw [hothers k' hne] at hy
      exact ⟨hy, fun hmem => hne (h.unique k' (howners k' hk') k hk y hy (hl y hmem))⟩
  refine ⟨fun k' hk' y hy => ?_, fun k₁ hk₁ k₂ hk₂ y hy₁ hy₂ => ?_⟩
  · obtain ⟨hin, hnot⟩ := hold k' hk' y hy
    exact freeAll_valid_iff.mpr ⟨h.valid k' (howners k' hk') y hin, hnot⟩
  · exact h.unique k₁ (howners k₁ hk₁) k₂ (howners k₂ hk₂) y (hold k₁ hk₁ y hy₁).1 (hold k₂ hk₂ y hy₂).1

end Owns

end Pool
