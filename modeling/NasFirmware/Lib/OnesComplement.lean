import Mathlib

/-!
# The internet checksum

A message is a list of bytes, and its sum that of its 16-bit words, in the order of the host or in that of the network.

* **`valid_iff`**: so it is the same in which order the words are read;
* **`valid_stamp_iff`**: a message with the complement of its sum is valid if adding the carries once was enough.
-/

namespace OnesComplement

inductive Order where
  | little
  | big
  deriving DecidableEq, Repr

def Order.word : Order → UInt8 → UInt8 → ℕ
  | .little, a, b => a.toNat + 256 * b.toNat
  | .big, a, b => 256 * a.toNat + b.toNat

def Order.bytes : Order → UInt16 → List UInt8
  | .little, x => [.ofNat x.toNat, .ofNat (x.toNat / 256)]
  | .big, x => [.ofNat (x.toNat / 256), .ofNat x.toNat]

/-- The sum of the words. An odd byte at the end is the first of a word. -/
def wordSum (o : Order) : List UInt8 → ℕ
  | [] => 0
  | [a] => o.word a 0
  | a :: b :: l => o.word a b + wordSum o l

/-- The carries are added once. -/
def carry (n : ℕ) : ℕ := n / 65536 + n % 65536

def fold (n : ℕ) : ℕ := if n < 65536 then n else fold (carry n)
termination_by n
decreasing_by
  unfold carry
  omega

/-- The sum of all words, in the order of the network, is `0xffff`. -/
def Valid (l : List UInt8) : Prop := fold (wordSum .big l) = 0xffff

section

variable {n : ℕ}

theorem carry_mod (n : ℕ) : carry n % 65535 = n % 65535 := by
  unfold carry
  omega

theorem fold_lt (n : ℕ) : fold n < 65536 := by
  induction n using fold.induct with
  | case1 n h =>
    rw [fold, if_pos h]
    exact h
  | case2 n h ih =>
    rw [fold, if_neg h]
    exact ih

theorem fold_mod (n : ℕ) : fold n % 65535 = n % 65535 := by
  induction n using fold.induct with
  | case1 n h => rw [fold, if_pos h]
  | case2 n h ih => rw [fold, if_neg h, ih, carry_mod]

theorem fold_pos_iff : 0 < fold n ↔ 0 < n := by
  induction n using fold.induct with
  | case1 n h => rw [fold, if_pos h]
  | case2 n h ih =>
    rw [fold, if_neg h, ih, carry]
    omega

theorem fold_eq_max_iff : fold n = 0xffff ↔ 0 < n ∧ n % 65535 = 0 := by
  rw [← fold_mod n, ← @fold_pos_iff n]
  have hlt := fold_lt n
  omega

end

/-! ## Orders -/

section

variable {o : Order} {a b : UInt8} {l : List UInt8}

theorem word_little : Order.word .little a b = a.toNat + 256 * b.toNat := rfl

theorem word_big : Order.word .big a b = 256 * a.toNat + b.toNat := rfl

theorem wordSum_cons_cons : wordSum o (a :: b :: l) = o.word a b + wordSum o l := rfl

theorem word_le (o : Order) (a b : UInt8) : o.word a b ≤ 65535 := by
  have ha : a.toNat < 256 := a.toNat_lt
  have hb : b.toNat < 256 := b.toNat_lt
  cases o with
  | little =>
    rw [word_little]
    omega
  | big =>
    rw [word_big]
    omega

theorem wordSum_le (o : Order) (l : List UInt8) : wordSum o l ≤ 65535 * ((l.length + 1) / 2) := by
  induction l using wordSum.induct with
  | case1 => exact Nat.le_refl 0
  | case2 a =>
    have hword := word_le o a 0
    rw [wordSum, List.length_singleton]
    omega
  | case3 a b l ih =>
    have hword := word_le o a b
    rw [wordSum_cons_cons, List.length_cons, List.length_cons]
    omega

theorem wordSum_bytes (o : Order) (x : UInt16) (l : List UInt8) :
    wordSum o (o.bytes x ++ l) = x.toNat + wordSum o l := by
  have hlt : x.toNat < 65536 := x.toNat_lt
  cases o with
  | little =>
    change Order.word .little (.ofNat x.toNat) (.ofNat (x.toNat / 256)) + wordSum .little l = _
    rw [word_little, UInt8.toNat_ofNat', UInt8.toNat_ofNat']
    omega
  | big =>
    change Order.word .big (.ofNat (x.toNat / 256)) (.ofNat x.toNat) + wordSum .big l = _
    rw [word_big, UInt8.toNat_ofNat', UInt8.toNat_ofNat']
    omega

/-- In the other order, the sum is multiplied by `256`. -/
theorem wordSum_little (l : List UInt8) : wordSum .little l ≡ 256 * wordSum .big l [MOD 65535] := by
  have hword : ∀ a b : UInt8, Order.word .little a b ≡ 256 * Order.word .big a b [MOD 65535] := by
    intro a b
    rw [word_little, word_big]
    unfold Nat.ModEq
    omega
  induction l using wordSum.induct with
  | case1 => exact Nat.ModEq.refl 0
  | case2 a => exact hword a 0
  | case3 a b l ih =>
    rw [wordSum_cons_cons, wordSum_cons_cons, Nat.mul_add]
    exact (hword a b).add ih

theorem wordSum_pos_iff (l : List UInt8) : 0 < wordSum .little l ↔ 0 < wordSum .big l := by
  induction l using wordSum.induct with
  | case1 => exact Iff.rfl
  | case2 a =>
    change 0 < Order.word .little a 0 ↔ 0 < Order.word .big a 0
    rw [word_little, word_big]
    omega
  | case3 a b l ih =>
    rw [wordSum_cons_cons, wordSum_cons_cons, word_little, word_big]
    omega

/-- **Messages are valid in both orders, or in none.** -/
theorem valid_iff (o : Order) : Valid l ↔ 0 < wordSum o l ∧ wordSum o l % 65535 = 0 := by
  unfold Valid
  rw [fold_eq_max_iff]
  cases o with
  | big => exact Iff.rfl
  | little =>
    have hmod : wordSum .little l % 65535 = 256 * wordSum .big l % 65535 := wordSum_little l
    rw [wordSum_pos_iff, hmod]
    refine and_congr_right fun _ => ?_
    omega

/-- The complement of the sum, if the carries are added once. -/
def complement (o : Order) (l : List UInt8) : UInt16 := ~~~UInt16.ofNat (carry (wordSum o l))

/-- A message with this in its second word. -/
def stamp (o : Order) (a b : UInt8) (l : List UInt8) : List UInt8 :=
  a :: b :: (o.bytes (complement o (a :: b :: 0 :: 0 :: l)) ++ l)

theorem toNat_complement (o : Order) (l : List UInt8) :
    (complement o l).toNat = 65535 - carry (wordSum o l) % 65536 := by
  unfold complement
  rw [UInt16.toNat_not, UInt16.toNat_ofNat']
  rfl

theorem wordSum_stamp : wordSum o (stamp o a b l) =
    wordSum o (a :: b :: 0 :: 0 :: l) + (complement o (a :: b :: 0 :: 0 :: l)).toNat := by
  have hzero : o.word 0 0 = 0 := by cases o <;> rfl
  unfold stamp
  rw [wordSum_cons_cons, wordSum_bytes, wordSum_cons_cons, wordSum_cons_cons, hzero]
  omega

/-- **A message is valid exactly if adding the carries once was enough.** Otherwise the sum is off by one. -/
theorem valid_stamp_iff (hpos : 0 < wordSum o (a :: b :: 0 :: 0 :: l))
    (hlt : wordSum o (a :: b :: 0 :: 0 :: l) < 2 ^ 32) :
    Valid (stamp o a b l) ↔ carry (wordSum o (a :: b :: 0 :: 0 :: l)) < 65536 := by
  rw [valid_iff o, wordSum_stamp, toNat_complement]
  generalize wordSum o (a :: b :: 0 :: 0 :: l) = n at hpos hlt
  have hmod := carry_mod n
  have hle : carry n ≤ 131070 := by
    unfold carry
    omega
  generalize carry n = k at hmod hle
  by_cases hk : k < 65536
  · omega
  · have hover : k % 65536 = k - 65536 := by omega
    rw [hover]
    omega

end

end OnesComplement
