import Mathlib

/-!
# Frames from a stream

A receiver collects the items of a stream until what it has collected is a complete frame. It then hands the frame
over, and starts again with nothing. A predicate says which collections are complete.
-/

namespace Framing

variable {α σ : Type} (complete : List α → Prop) [DecidablePred complete] (emit : σ → List α → σ)

/-- One item more. The state is what has been collected, and what has become of the frames handed over. -/
def push (x : List α × σ) (a : α) : List α × σ :=
  if complete (x.1 ++ [a]) then ([], emit x.2 (x.1 ++ [a])) else (x.1 ++ [a], x.2)

def feed (x : List α × σ) (l : List α) : List α × σ := l.foldl (push complete emit) x

/-- A collection that is complete, while no shorter beginning of it was. -/
def IsFrame (f : List α) : Prop :=
  complete f ∧ ∀ c c' : List α, f = c ++ c' → c ≠ [] → c' ≠ [] → ¬ complete c

variable {complete} {emit} {x : List α × σ} {p : List α} {s : σ}

theorem feed_nil : feed complete emit x [] = x := rfl

theorem feed_append (l l' : List α) :
    feed complete emit x (l ++ l') = feed complete emit (feed complete emit x l) l' := List.foldl_append

theorem feed_block {c : List α} (hc : c ≠ [])
    (hpart : ∀ c₁ c₂ : List α, c = c₁ ++ c₂ → c₁ ≠ [] → c₂ ≠ [] → ¬ complete (p ++ c₁)) :
    feed complete emit (p, s) c = if complete (p ++ c) then ([], emit s (p ++ c)) else (p ++ c, s) := by
  induction c generalizing p with
  | nil => exact absurd rfl hc
  | cons a c ih =>
    change feed complete emit (push complete emit (p, s) a) c = _
    rcases eq_or_ne c [] with rfl | hne
    · rfl
    · have hfirst : ¬ complete (p ++ [a]) := hpart [a] c rfl (List.cons_ne_nil _ _) hne
      rw [push, if_neg hfirst, ih hne fun c₁ c₂ hsplit h₁ h₂ => ?_]
      · rw [List.append_assoc, List.singleton_append]
      · rw [List.append_assoc, List.singleton_append]
        exact hpart (a :: c₁) c₂ (by rw [hsplit, List.cons_append]) (List.cons_ne_nil _ _) h₂

theorem feed_frame {f : List α} (hne : f ≠ []) (hf : IsFrame complete f) :
    feed complete emit ([], s) f = ([], emit s f) := by
  rw [feed_block hne fun c₁ c₂ hsplit h₁ h₂ => by
    exact hf.2 c₁ c₂ hsplit h₁ h₂, List.nil_append, if_pos hf.1]

/-- **Frames.** They are handed over in their order, and nothing is left. -/
theorem feed_frames {fs : List (List α)} (hfs : ∀ f ∈ fs, f ≠ [] ∧ IsFrame complete f) :
    feed complete emit ([], s) fs.flatten = ([], fs.foldl emit s) := by
  induction fs generalizing s with
  | nil => rfl
  | cons f fs ih =>
    rw [List.forall_mem_cons] at hfs
    rw [List.flatten_cons, feed_append, feed_frame hfs.1.1 hfs.1.2, ih hfs.2, List.foldl_cons]

end Framing
