import Mathlib

/-!
# Numbers in limbs

`val w d n` is the number with the digits `d 0, …, d (n - 1)` in base `w`, the least significant first.

* **`val_lt_val`**, `val_lt_of_length`: the digit, or the length, that decides a comparison;
* `size`, **`size_val`**: the number of digits of a number;
* `estimate`, **`multiple_lt`**: a multiple of `b` below `p`, estimated from the leading digits.
-/

namespace Limbs

open Finset

/-- The number with the first `n` digits of `d`. -/
def val (w : ℕ) (d : ℕ → ℕ) (n : ℕ) : ℕ := ∑ i ∈ range n, d i * w ^ i

variable {w : ℕ} {d e : ℕ → ℕ} {m n i : ℕ}

@[simp] theorem val_zero (w : ℕ) (d : ℕ → ℕ) : val w d 0 = 0 := rfl

theorem val_succ (w : ℕ) (d : ℕ → ℕ) (n : ℕ) : val w d (n + 1) = val w d n + d n * w ^ n :=
  sum_range_succ _ n

theorem val_congr (h : ∀ i < n, d i = e i) : val w d n = val w e n :=
  sum_congr rfl fun i hi => by rw [h i (mem_range.mp hi)]

theorem val_lt (h : ∀ i < n, d i < w) : val w d n < w ^ n := by
  induction n with
  | zero => exact Nat.one_pos
  | succ n ih =>
    have hlow := ih fun i hi => h i (by omega)
    have htop : d n + 1 ≤ w := h n (by omega)
    rw [val_succ, pow_succ]
    calc val w d n + d n * w ^ n < w ^ n + d n * w ^ n := Nat.add_lt_add_right hlow _
      _ = w ^ n * (d n + 1) := by ring
      _ ≤ w ^ n * w := Nat.mul_le_mul_left _ htop

theorem le_val (h : i < n) : d i * w ^ i ≤ val w d n :=
  single_le_sum (f := fun i => d i * w ^ i) (fun _ _ => Nat.zero_le _) (mem_range.mpr h)

theorem val_split (w : ℕ) (d : ℕ → ℕ) (h : m ≤ n) :
    val w d n = val w d m + w ^ m * val w (fun i => d (m + i)) (n - m) := by
  rw [val, ← sum_range_add_sum_Ico _ h, sum_Ico_eq_sum_range, val, val, mul_sum]
  congr 1
  refine sum_congr rfl fun i _ => ?_
  ring

theorem val_of_zero_above (hle : m ≤ n) (h : ∀ i, m ≤ i → i < n → d i = 0) :
    val w d n = val w d m := by
  rw [val_split w d hle, val_congr (e := fun _ => 0) fun i hi => h (m + i) (by omega) (by omega)]
  simp [val]

theorem val_mod (h : m ≤ n) (hd : ∀ i < m, d i < w) : val w d n % w ^ m = val w d m := by
  rw [val_split w d h, Nat.add_mul_mod_self_left, Nat.mod_eq_of_lt (val_lt hd)]

theorem val_div (h : m ≤ n) (hd : ∀ i < m, d i < w) :
    val w d n / w ^ m = val w (fun i => d (m + i)) (n - m) := by
  have hlow := val_lt hd
  rw [val_split w d h, Nat.add_mul_div_left _ _ (by omega), Nat.div_eq_of_lt hlow, Nat.zero_add]

theorem val_digit (h : i < n) (hd : ∀ i < n, d i < w) : val w d n / w ^ i % w = d i := by
  rw [val_div (by omega) fun j hj => hd j (by omega)]
  have hone := val_mod (w := w) (d := fun j => d (i + j)) (m := 1) (n := n - i) (by omega)
    fun j hj => hd (i + j) (by omega)
  rw [pow_one] at hone
  rw [hone, val_succ, val_zero]
  simp

theorem val_shift (w : ℕ) (d : ℕ → ℕ) (s n : ℕ) :
    val w (fun i => if i < s then 0 else d (i - s)) (s + n) = w ^ s * val w d n := by
  rw [val_split w _ (Nat.le_add_right s n), val_congr (n := s) (e := fun _ => 0) fun i hi => if_pos hi,
    Nat.add_sub_cancel_left, val_congr (n := n) (e := d) fun i _ => ?_]
  · simp [val]
  · rw [if_neg (by omega), Nat.add_sub_cancel_left]

theorem val_lt_val (hi : i < n) (hlt : d i < e i) (habove : ∀ j, i < j → j < n → d j = e j)
    (hd : ∀ j < n, d j < w) : val w d n < val w e n := by
  have hlow : val w d (i + 1) < val w e (i + 1) := by
    have hbelow : val w d i < w ^ i := val_lt fun j hj => hd j (by omega)
    have hmul : (d i + 1) * w ^ i ≤ e i * w ^ i := Nat.mul_le_mul_right _ hlt
    rw [Nat.succ_mul] at hmul
    rw [val_succ, val_succ]
    omega
  have hle : i + 1 ≤ n := hi
  rw [val_split w d hle, val_split w e hle,
    val_congr (n := n - (i + 1)) fun j hj => habove (i + 1 + j) (by omega) (by omega)]
  exact Nat.add_lt_add_right hlow _

theorem val_lt_of_length (hlt : m < n) (htop : e (n - 1) ≠ 0) (hd : ∀ i < m, d i < w) (hw : 0 < w) :
    val w d m < val w e n := by
  calc val w d m < w ^ m := val_lt hd
    _ ≤ w ^ (n - 1) := Nat.pow_le_pow_right hw (by omega)
    _ ≤ e (n - 1) * w ^ (n - 1) := Nat.le_mul_of_pos_left _ (Nat.pos_of_ne_zero htop)
    _ ≤ val w e n := le_val (by omega)

def size (w n : ℕ) : ℕ := Nat.log w n + 1

theorem size_val (hn : 0 < n) (htop : d (n - 1) ≠ 0) (hd : ∀ i < n, d i < w) : size w (val w d n) = n := by
  have hge : w ^ (n - 1) ≤ val w d n :=
    (Nat.le_mul_of_pos_left _ (Nat.pos_of_ne_zero htop)).trans (le_val (by omega))
  have hlt : val w d n < w ^ (n - 1 + 1) := by
    rw [Nat.sub_add_cancel hn]
    exact val_lt hd
  rw [size, Nat.log_eq_of_pow_le_of_lt_pow hge hlt, Nat.sub_add_cancel hn]

theorem pow_size_le (hn : n ≠ 0) : w ^ (size w n - 1) ≤ n := Nat.pow_log_le_self w hn

theorem lt_pow_size (hw : 1 < w) (n : ℕ) : n < w ^ size w n := Nat.lt_pow_succ_log_self hw n

theorem size_mono (h : m ≤ n) : size w m ≤ size w n := Nat.succ_le_succ (Nat.log_mono_right h)

/-! ## Quotient estimates -/

/-- The number of digits of a number, looked for from `k + 1` digits down. -/
def sizeBelow (w n : ℕ) : ℕ → ℕ
  | 0 => 1
  | k + 1 => if w ^ (k + 1) ≤ n then k + 2 else sizeBelow w n k

theorem sizeBelow_eq {k : ℕ} (h : n < w ^ (k + 1)) : sizeBelow w n k = size w n := by
  induction k with
  | zero =>
    rw [Nat.zero_add, pow_one] at h
    rw [sizeBelow, size, Nat.log_of_lt h]
  | succ k ih =>
    rw [sizeBelow]
    split_ifs with hle
    · rw [size, Nat.log_eq_of_pow_le_of_lt_pow hle h]
    · exact ih (Nat.lt_of_not_le hle)

def top (w n : ℕ) : ℕ := n / w ^ (size w n - 1)

/-- A quotient digit of `p` by `b` from leading digits of `p` and the leading digit of `b` rounded up, and its place.
-/
def estimate (w p b : ℕ) : ℕ × ℕ :=
  if top w b < top w p then (top w p / (top w b + 1), size w p - size w b)
  else if size w b < size w p then
    (p / w ^ (size w p - 2) / (top w b + 1), size w p - size w b - 1)
  else (1, 0)

/-- The multiple of `b` for the estimated quotient. -/
def multiple (w p b : ℕ) : ℕ := (estimate w p b).1 * b * w ^ (estimate w p b).2

section Estimate

variable {p b : ℕ}

theorem top_lt (hw : 1 < w) (n : ℕ) : top w n < w := by
  refine Nat.div_lt_of_lt_mul ?_
  exact lt_pow_size hw n

/-- A quotient for the leading digits of `p` is not too large. -/
theorem mul_lt_of_top {div len s : ℕ} (hw : 0 < w) (hdiv : 0 < div) (hs : size w b - 1 + len = s)
    (hle : div * (top w b + 1) * w ^ s ≤ p) : div * b * w ^ len < p := by
  have hb : b < w ^ (size w b - 1) * (top w b + 1) := Nat.lt_mul_div_succ b (Nat.pow_pos hw)
  calc div * b * w ^ len < div * (w ^ (size w b - 1) * (top w b + 1)) * w ^ len :=
        Nat.mul_lt_mul_of_pos_right (Nat.mul_lt_mul_of_pos_left hb hdiv) (Nat.pow_pos hw)
    _ = div * (top w b + 1) * w ^ s := by
        rw [← hs, pow_add]
        ring
    _ ≤ p := hle

/-- Numbers with the same number of digits, where the leading digit of `p` is not the greater one. -/
theorem lt_two_mul_of_top (hw : 0 < w) (hb : b ≠ 0) (hsize : size w p = size w b)
    (htop : top w p ≤ top w b) : p < 2 * b := by
  have hp : p < w ^ (size w p - 1) * (top w p + 1) := Nat.lt_mul_div_succ p (Nat.pow_pos hw)
  have hlow : w ^ (size w b - 1) ≤ b := pow_size_le hb
  calc p < w ^ (size w b - 1) * (top w b + 1) :=
        hp.trans_le (hsize ▸ Nat.mul_le_mul_left _ (Nat.succ_le_succ htop))
    _ = top w b * w ^ (size w b - 1) + w ^ (size w b - 1) := by ring
    _ ≤ b + b := Nat.add_le_add (Nat.div_mul_le_self _ _) hlow
    _ = 2 * b := by ring

/-- **The estimated multiple** is positive and less than `p`. -/
theorem multiple_lt (hw : 1 < w) (hb : 0 < b) (h : b < p) :
    0 < multiple w p b ∧ multiple w p b < p := by
  have hw0 : 0 < w := by omega
  have hsize : size w b ≤ size w p := size_mono h.le
  have hsb : 0 < size w b := Nat.succ_pos _
  have hpos : 0 < (estimate w p b).1 ∧ multiple w p b < p := by
    unfold multiple estimate
    split_ifs with htop hlong
    · have hdiv : 0 < top w p / (top w b + 1) := Nat.div_pos htop (Nat.succ_pos _)
      refine ⟨hdiv, mul_lt_of_top hw0 hdiv (s := size w p - 1) (by omega) ?_⟩
      calc top w p / (top w b + 1) * (top w b + 1) * w ^ (size w p - 1)
          ≤ top w p * w ^ (size w p - 1) := Nat.mul_le_mul_right _ (Nat.div_mul_le_self _ _)
        _ ≤ p := Nat.div_mul_le_self _ _
    · have hnum : w ≤ p / w ^ (size w p - 2) := by
        rw [Nat.le_div_iff_mul_le (Nat.pow_pos hw0), Nat.mul_comm, ← pow_succ]
        have := pow_size_le (w := w) (show p ≠ 0 by omega)
        rwa [show size w p - 2 + 1 = size w p - 1 by omega]
      have hdiv : 0 < p / w ^ (size w p - 2) / (top w b + 1) :=
        Nat.div_pos ((top_lt hw b).trans_le hnum) (Nat.succ_pos _)
      refine ⟨hdiv, mul_lt_of_top hw0 hdiv (s := size w p - 2) (by omega) ?_⟩
      calc p / w ^ (size w p - 2) / (top w b + 1) * (top w b + 1) * w ^ (size w p - 2)
          ≤ p / w ^ (size w p - 2) * w ^ (size w p - 2) :=
            Nat.mul_le_mul_right _ (Nat.div_mul_le_self _ _)
        _ ≤ p := Nat.div_mul_le_self _ _
    · simpa using h
  exact ⟨Nat.mul_pos (Nat.mul_pos hpos.1 hb) (Nat.pow_pos hw0), hpos.2⟩

end Estimate

end Limbs
