import Mathlib

/-!
# Tables of redirections

A table is a list of pairs `(key, target)`. It is followed in **one forward pass**: a value that is the
key of an entry becomes the target of that entry, and the pass goes on behind it.

* **`follow_ne_key`**: on an ordered table one pass is enough, whatever the value.
-/

namespace Redirect

variable {α : Type} [DecidableEq α] {e : α × α} {l : List (α × α)}

/-- Follow the table from a value, in one forward pass. -/
def follow : List (α × α) → α → α
  | [], b => b
  | e :: l, b => follow l (if b = e.1 then e.2 else b)

theorem follow_cons (e : α × α) (l : List (α × α)) (b : α) :
    follow (e :: l) b = follow l (if b = e.1 then e.2 else b) := rfl

theorem follow_eq_or_target (l : List (α × α)) (b : α) :
    follow l b = b ∨ ∃ e ∈ l, follow l b = e.2 := by
  induction l generalizing b with
  | nil => exact Or.inl rfl
  | cons e l ih =>
    rw [follow_cons]
    rcases ih (if b = e.1 then e.2 else b) with h | ⟨e', he', h⟩
    · by_cases hb : b = e.1
      · rw [if_pos hb] at h ⊢
        exact Or.inr ⟨e, List.mem_cons_self, h⟩
      · rw [if_neg hb] at h ⊢
        exact Or.inl h
    · exact Or.inr ⟨e', List.mem_cons_of_mem _ he', h⟩

omit [DecidableEq α] in
/-- No entry leads to its own key or back to the key of an earlier entry. -/
structure Ordered (l : List (α × α)) : Prop where
  forward : l.Pairwise fun e e' => e'.2 ≠ e.1
  self : ∀ e ∈ l, e.2 ≠ e.1

omit [DecidableEq α] in
theorem Ordered.tail (h : Ordered (e :: l)) : Ordered l :=
  ⟨(List.pairwise_cons.mp h.forward).2, fun e' he' => h.self e' (List.mem_cons_of_mem _ he')⟩

omit [DecidableEq α] in
/-- An entry behind the table: its target is no key of the table and not its own key. -/
theorem Ordered.append_singleton (h : Ordered l)
    (hkeys : ∀ e' ∈ l, e.2 ≠ e'.1) (hself : e.2 ≠ e.1) : Ordered (l ++ [e]) := by
  constructor
  · refine List.pairwise_append.mpr ⟨h.forward, List.pairwise_singleton .., ?_⟩
    intro a ha b hb
    rw [List.mem_singleton.mp hb]
    exact hkeys a ha
  · intro a ha
    rcases List.mem_append.mp ha with ha | ha
    · exact h.self a ha
    · rw [List.mem_singleton.mp ha]
      exact hself

/-- **One forward pass is enough**: what an ordered table leads to is no key of it. -/
theorem follow_ne_key (h : Ordered l) (b : α) : ∀ e ∈ l, follow l b ≠ e.1 := by
  induction l generalizing b with
  | nil => exact fun e he => absurd he List.not_mem_nil
  | cons e l ih =>
    intro e' he'
    rw [follow_cons]
    rcases List.mem_cons.mp he' with rfl | he'
    · -- behind the head only targets of later entries can come, and these are not its key
      rcases follow_eq_or_target l (if b = e'.1 then e'.2 else b) with hs | ⟨a, ha, hs⟩
      · rw [hs]
        split
        · exact h.self e' List.mem_cons_self
        · assumption
      · rw [hs]
        exact (List.pairwise_cons.mp h.forward).1 a ha
    · exact ih h.tail _ e' he'

end Redirect
