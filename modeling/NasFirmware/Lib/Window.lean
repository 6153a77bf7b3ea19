import Mathlib

/-!
# Sliding windows and back references

A stream `S : ℕ → α` is seen through a ring of `W` cells: cell `k % W` holds `S k` for the last `W`
indices before `hi`. A dictionary coder describes a stretch of the stream by units that are either
a symbol or a reference to an earlier stretch, which may overlap the one it describes.

* `Holds`, **`Holds.push`**: the ring after one more symbol;
* **`Shows.push`**, `Shows.cell`: a ring that shows the end of a text.
-/

namespace Window

open Function

variable {α : Type} {W q q' : ℕ} {S : ℕ → α}

/-- The ring `text` holds the last `W` symbols of `S` before `hi`. -/
def Holds (W : ℕ) (S text : ℕ → α) (hi : ℕ) : Prop :=
  ∀ k, k < hi → hi ≤ k + W → text (k % W) = S k

theorem mod_ne_mod {i j : ℕ} (hij : i < j) (hW : j < i + W) : i % W ≠ j % W := by
  intro he
  have hdvd : W ∣ j - i := (Nat.modEq_iff_dvd' hij.le).mp he
  have := Nat.le_of_dvd (by omega) hdvd
  omega

theorem Holds.push {text : ℕ → α} {hi : ℕ} (h : Holds W S text hi) :
    Holds W S (update text (hi % W) (S hi)) (hi + 1) := by
  intro k hk hW
  rcases Nat.lt_succ_iff_lt_or_eq.mp hk with hlt | rfl
  · rw [update_of_ne (mod_ne_mod hlt (by omega))]
    exact h k hlt (by omega)
  · exact update_self ..

/-- A unit of code: a symbol, or `len` symbols starting at index `src` of the stream. -/
inductive CodeUnit (α : Type) where
  | lit (c : α)
  | copy (src len : ℕ)

def CodeUnit.span : CodeUnit α → ℕ
  | .lit _ => 1
  | .copy _ len => len

/-- The unit describes the stream at `q`; a reference goes back at most `W` symbols. -/
def CodeUnit.Fits (W : ℕ) (S : ℕ → α) (q : ℕ) : CodeUnit α → Prop
  | .lit c => c = S q
  | .copy src len => src < q ∧ q ≤ src + W ∧ ∀ k < len, S (src + k) = S (q + k)

/-- The units `us` describe the stream from `q` to `q'`. -/
def Covers (W : ℕ) (S : ℕ → α) : ℕ → List (CodeUnit α) → ℕ → Prop
  | q, [], q' => q = q'
  | q, u :: us, q' => u.Fits W S q ∧ Covers W S (q + u.span) us q'

variable {us : List (CodeUnit α)}

variable (h : Covers W S q us q')

include h

theorem covers_append {q'' : ℕ} {vs : List (CodeUnit α)} (h' : Covers W S q' vs q'') : Covers W S q (us ++ vs) q'' := by
  induction us generalizing q with
  | nil =>
    cases h
    exact h'
  | cons u us ih => exact ⟨h.1, ih h.2⟩

theorem Covers.eq_add : q' = q + (us.map CodeUnit.span).sum := by
  induction us generalizing q with
  | nil => exact h.symm
  | cons u us ih => rw [ih h.2, List.map_cons, List.sum_cons, Nat.add_assoc]

theorem covers_snoc {u : CodeUnit α} (hu : u.Fits W S q') : Covers W S q (us ++ [u]) (q' + u.span) :=
  covers_append h ⟨hu, rfl⟩

omit h

/-! ## References to cells -/

/-- The last index below `n` that belongs to the cell `pos`. -/
def lastIn (W pos n : ℕ) : ℕ := n - 1 - (n - 1 + (W - pos % W)) % W

theorem lastIn_spec {n : ℕ} (pos : ℕ) (hW : 0 < W) (hn : W ≤ n) :
    lastIn W pos n < n ∧ n ≤ lastIn W pos n + W ∧ lastIn W pos n % W = pos % W := by
  have hpos := Nat.mod_lt pos hW
  have hback := Nat.mod_lt (n - 1 + (W - pos % W)) hW
  refine ⟨by unfold lastIn; omega, by unfold lastIn; omega, ?_⟩
  have hsum := Nat.div_add_mod (n - 1 + (W - pos % W)) W
  obtain ⟨d, hd⟩ := Nat.exists_eq_add_of_le (Nat.div_pos (show W ≤ n - 1 + (W - pos % W) by omega) hW)
  rw [hd, Nat.mul_add] at hsum
  have hlast : lastIn W pos n = pos % W + W * d := by
    unfold lastIn
    omega
  rw [hlast, Nat.add_mul_mod_self_left, Nat.mod_mod]

section Text

variable [Inhabited α] {W : ℕ} {text : List α} {ring : ℕ → α}

/-- Copy `len` symbols, one by one, from the cells `pos`, `pos + 1`, …. -/
def copyCells (W pos : ℕ) : ℕ → List α → List α
  | 0, text => text
  | len + 1, text => copyCells W (pos + 1) len (text ++ [text.getD (lastIn W pos text.length) default])

def expandUnit (W : ℕ) (text : List α) : CodeUnit α → List α
  | .lit c => text ++ [c]
  | .copy pos len => copyCells W pos len text

def expandUnits (W : ℕ) (text : List α) (us : List (CodeUnit α)) : List α := us.foldl (expandUnit W) text

theorem length_copyCells (W pos len : ℕ) (text : List α) :
    (copyCells W pos len text).length = text.length + len := by
  induction len generalizing pos text with
  | zero => rfl
  | succ len ih =>
    rw [copyCells, ih, List.length_append, List.length_singleton]
    omega

theorem length_expandUnits (W : ℕ) (text : List α) (us : List (CodeUnit α)) :
    (expandUnits W text us).length = text.length + (us.map CodeUnit.span).sum := by
  induction us generalizing text with
  | nil => rfl
  | cons u us ih =>
    have hu : (expandUnit W text u).length = text.length + u.span := by
      cases u with
      | lit c => exact List.length_append
      | copy pos len => exact length_copyCells W pos len text
    rw [expandUnits, List.foldl_cons, ← expandUnits, ih, hu, List.map_cons, List.sum_cons, Nat.add_assoc]

/-- The ring shows the end of the text. -/
def Shows (W : ℕ) (text : List α) (ring : ℕ → α) : Prop := Holds W (fun k => text.getD k default) ring text.length

theorem Shows.push (h : Shows W text ring) (c : α) :
    Shows W (text ++ [c]) (update ring (text.length % W) c) := by
  have hold : Holds W (fun k => (text ++ [c]).getD k default) ring text.length := by
    intro k hk hW
    dsimp only
    rw [List.getD_append _ _ _ _ hk]
    exact h k hk hW
  have := hold.push
  rw [List.getD_append_right _ _ _ _ (Nat.le_refl _), Nat.sub_self, List.getD_cons_zero] at this
  rw [Shows, List.length_append, List.length_singleton]
  exact this

theorem Shows.cell (h : Shows W text ring) (hW : 0 < W)
    (hlen : W ≤ text.length) (pos : ℕ) : ring (pos % W) = text.getD (lastIn W pos text.length) default := by
  obtain ⟨hlt, hle, hmod⟩ := lastIn_spec pos hW hlen
  rw [← hmod]
  exact h _ hlt hle

end Text

end Window
