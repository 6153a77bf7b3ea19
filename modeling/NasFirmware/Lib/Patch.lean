import Mathlib

/-!
# Patches

A patch sets some values of a function and leaves the others. Patches that set different places can be applied in any
order.

* **`Patch.foldl_perm`**: a list of such patches, in any order.
-/

/-- A patch of a function: the values that are set. -/
abbrev Patch (α β : Type) := α → Option β

namespace Patch

variable {α β γ : Type}

def apply (p : Patch α β) (f : α → β) : α → β := fun a => (p a).getD (f a)

def nothing : Patch α β := fun _ => none

def seq (p q : Patch α β) : Patch α β := fun a => (q a).or (p a)

@[simp] theorem apply_nothing (f : α → β) : apply nothing f = f := rfl

theorem apply_seq (p q : Patch α β) (f : α → β) : apply (seq p q) f = apply q (apply p f) := by
  funext a
  unfold apply seq
  cases q a <;> rfl

def Disjoint (p q : Patch α β) : Prop := ∀ a, p a = none ∨ q a = none

theorem Disjoint.symm {p q : Patch α β} (h : Disjoint p q) : Disjoint q p := fun a => (h a).symm

theorem apply_comm {p q : Patch α β} (h : Disjoint p q) (f : α → β) : apply q (apply p f) = apply p (apply q f) := by
  funext a
  unfold apply
  rcases h a with ha | ha <;> rw [ha] <;> rfl

/-- **Patches of different places, in any order.** -/
theorem foldl_perm {P : γ → Patch α β} {l l' : List γ} (h : l.Perm l')
    (hd : l.Pairwise fun x y => Disjoint (P x) (P y)) (f : α → β) :
    l.foldl (fun f x => apply (P x) f) f = l'.foldl (fun f x => apply (P x) f) f := by
  have hsymm : Std.Symm fun x y => Disjoint (P x) (P y) := ⟨fun _ _ h => h.symm⟩
  refine h.foldl_eq' (fun x hx y hy f => ?_) f
  by_cases hxy : x = y
  · rw [hxy]
  · exact apply_comm (hd.forall hx hy hxy) f

/-- A place is set if the result there does not depend on the former value. -/
theorem ne_none_iff {b c : β} (hne : b ≠ c) (p : Patch α β) (a : α) :
    p a ≠ none ↔ ∀ f g : α → β, apply p f a = apply p g a := by
  constructor
  · intro h f g
    obtain ⟨v, hv⟩ := Option.ne_none_iff_exists'.mp h
    rw [apply, apply, hv]
    rfl
  · intro h hnone
    have hbc := h (fun _ => b) fun _ => c
    rw [apply, apply, hnone] at hbc
    exact hne hbc

end Patch
