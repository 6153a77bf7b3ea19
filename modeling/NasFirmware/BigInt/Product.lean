import NasFirmware.BigInt.Arith

/-!
# Products in the pool

`Mul` of `big_int.c` takes two numbers from the pool of `my_malloc`, one for the sum of the rows and one for the row,
and works in them.

* `mulAt`: `Mul` on the numbers of the pool; **`mulAt_exact`**: it gives the product, and other numbers stay.
-/

namespace NasFirmware.BigInt

open Function

structure Pool where
  nums : ℕ → BI
  next : ℕ

def Pool.init (s : Pool) : ℕ × Pool := (s.next, ⟨update s.nums s.next BigInt.init, s.next + 1⟩)

/-- One pass of the outer loop: the row in `q`, then `Add(p, q)`. -/
def mulPass (a b p q : ℕ) (nums : ℕ → BI) (i : ℕ) : ℕ → BI :=
  let nums := update nums q (mulShifted (nums a) (nums b) (nums q) i)
  let r := add (nums p) (nums q)
  update (update nums p r.1) q r.2

/-- The loop of `Mul`, for the numbers that `init` gives for `p` and `q`. -/
def mulLoop (s : Pool) (a b : ℕ) : ℕ → BI :=
  let t := s.init.2.init.2
  (List.range (t.nums b).length).foldl (mulPass a b s.init.1 s.init.2.init.1) t.nums

/-- `Mul`: where the product is, and the pool. -/
def mulAt (s : Pool) (a b : ℕ) : ℕ × Pool :=
  let nums := mulLoop s a b
  let p := nums s.init.1
  let sign := if (nums a).sign + (nums b).sign = 1 then 0 else 1
  (s.init.1, ⟨update nums s.init.1 { p with sign := sign }, s.next + 2⟩)

section

variable {s : Pool} {a b : ℕ}

/-- The loop has the rows of `mulRows` in its two numbers, and leaves the others alone. -/
theorem foldl_mulPass {nums : ℕ → BI} {p : ℕ} (ha : a < p) (hb : b < p) (hp : nums p = init) (hq : nums (p + 1) = init)
    (n : ℕ) : let nums' := (List.range n).foldl (mulPass a b p (p + 1)) nums
    (nums' p, nums' (p + 1)) = mulRows (nums a) (nums b) n ∧ ∀ k < p, nums' k = nums k := by
  induction n with
  | zero => exact ⟨by rw [List.range_zero, List.foldl_nil, hp, hq, mulRows], fun _ _ => rfl⟩
  | succ n ih =>
    obtain ⟨hrows, hframe⟩ := ih
    rw [List.range_succ, List.foldl_append]
    generalize (List.range n).foldl (mulPass a b p (p + 1)) nums = nums' at hrows hframe
    rw [List.foldl_cons, List.foldl_nil, mulRows, ← hrows, ← hframe a ha, ← hframe b hb]
    refine ⟨by simp [mulPass], fun k hk => ?_⟩
    simp [mulPass, update_of_ne (show k ≠ p by omega), update_of_ne (show k ≠ p + 1 by omega), hframe k hk]

theorem mulLoop_spec (ha : a < s.next) (hb : b < s.next) :
    mulLoop s a b s.next = (mulRows (s.nums a) (s.nums b) (s.nums b).length).1 ∧
      ∀ k < s.next, mulLoop s a b k = s.nums k := by
  have hold : ∀ k < s.next, s.init.2.init.2.nums k = s.nums k := fun k hk =>
    (update_of_ne (show k ≠ s.next + 1 by omega) ..).trans (update_of_ne (show k ≠ s.next by omega) ..)
  have hp : s.init.2.init.2.nums s.next = init :=
    (update_of_ne (show s.next ≠ s.next + 1 by omega) ..).trans (update_self ..)
  obtain ⟨hrows, hframe⟩ := foldl_mulPass ha hb hp (update_self ..) (s.nums b).length
  rw [hold a ha, hold b hb] at hrows
  unfold mulLoop
  rw [hold b hb]
  exact ⟨congrArg Prod.fst hrows, fun k hk => (hframe k hk).trans (hold k hk)⟩

/-- **Multiplication is exact.** The product of two nonnegative numbers, with leading zeros or not, has no more limbs
than both together, and no number of the pool changes. -/
theorem mulAt_exact (ha : a < s.next) (hb : b < s.next) (hsa : (s.nums a).sign = 1) (hsb : (s.nums b).sign = 1)
    (hla : 1 ≤ (s.nums a).length) (hlb : 1 ≤ (s.nums b).length) (hlen : (s.nums a).length + (s.nums b).length ≤ 128) :
    ((mulAt s a b).2.nums (mulAt s a b).1).sign = 1 ∧
      ((mulAt s a b).2.nums (mulAt s a b).1).length ≤ (s.nums a).length + (s.nums b).length ∧
      ((mulAt s a b).2.nums (mulAt s a b).1).val = (s.nums a).val * (s.nums b).val ∧
      ∀ k < s.next, (mulAt s a b).2.nums k = s.nums k := by
  obtain ⟨hrows, hframe⟩ := mulLoop_spec ha hb
  have hmul : (mulAt s a b).2.nums (mulAt s a b).1 = mul (s.nums a) (s.nums b) := by
    simp [mulAt, Pool.init, hrows, hframe a ha, hframe b hb, mul]
  have hlt : (s.nums a).length + (s.nums b).length < maxLen := Nat.lt_succ_of_le hlen
  obtain ⟨-, -, -, -, -, hmax, -⟩ := mulRows_spec (A := s.nums a) (B := s.nums b) hlt
  rw [hmul]
  refine ⟨by simp [mul, hsa, hsb], ?_, (mul_val hlt).1, fun k hk => ?_⟩
  · exact hmax.trans (max_le (by omega) le_rfl)
  · exact (update_of_ne (show k ≠ s.next by omega) ..).trans (hframe k hk)

/-- The numbers `2 ^ 32 - 1`, with a leading zero, and `2 ^ 64 - 1`. -/
def twoNumbers : Pool :=
  ⟨fun k => if k = 0 then ⟨1, 2, fun i => if i = 0 then 0xffffffff else 0⟩ else ⟨1, 2, fun _ => 0xffffffff⟩, 2⟩

theorem twoNumbers_product :
    ((mulAt twoNumbers 0 1).2.nums 2).length ≤ 4 ∧
      ((mulAt twoNumbers 0 1).2.nums 2).val = (2 ^ 32 - 1) * (2 ^ 64 - 1) :=
  have h := mulAt_exact (s := twoNumbers) (a := 0) (b := 1) (by decide) (by decide) rfl rfl (by decide) (by decide)
    (by decide)
  ⟨h.2.1, h.2.2.1.trans (by decide)⟩

end

end NasFirmware.BigInt
