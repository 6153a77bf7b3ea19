import NasFirmware.BigInt.Model

/-!
# The arithmetic of limbs

* **`subLimbs_spec`**: the loop of `Sub` loses a borrow where it meets a zero limb;
* **`mulRows_spec`**, `mul_val`, `mul_norm`: multiplication;
* `NoLostBorrow`, **`sub_val_iff`**: when a subtraction is exact.
-/

namespace NasFirmware.BigInt

open Limbs

def limbVal (v : ℕ → UInt32) (n : ℕ) : ℕ := Limbs.val (2 ^ 32) (fun i => (v i).toNat) n

theorem BI.val_eq (A : BI) : A.val = limbVal A.value A.length := rfl

theorem BI.digit_lt (A : BI) (i : ℕ) : A.digit i < 2 ^ 32 := (A.value i).toNat_lt

variable {n m i : ℕ} {v : ℕ → UInt32} {A B : BI}

section Value

variable {u : ℕ → UInt32} {c : UInt32}

@[simp] theorem limbVal_zero (v : ℕ → UInt32) : limbVal v 0 = 0 := rfl

theorem limbVal_succ (v : ℕ → UInt32) (n : ℕ) :
    limbVal v (n + 1) = limbVal v n + (v n).toNat * (2 ^ 32) ^ n :=
  val_succ _ _ n

theorem limbVal_congr (h : ∀ i < n, v i = u i) : limbVal v n = limbVal u n :=
  val_congr fun i hi => congrArg UInt32.toNat (h i hi)

theorem limbVal_lt (v : ℕ → UInt32) (n : ℕ) : limbVal v n < (2 ^ 32) ^ n :=
  val_lt fun i _ => (v i).toNat_lt

theorem limbVal_of_zero_above (hle : m ≤ n) (h : ∀ i, m ≤ i → i < n → v i = 0) :
    limbVal v n = limbVal v m :=
  val_of_zero_above hle fun i hi hlt => by rw [h i hi hlt]; rfl

theorem limbVal_update_of_le (h : n ≤ i) : limbVal (Function.update v i c) n = limbVal v n :=
  limbVal_congr fun _ hk => Function.update_of_ne (by omega) _ _

theorem limbVal_update_top (v : ℕ → UInt32) (n : ℕ) (c : UInt32) :
    limbVal (Function.update v n c) (n + 1) = limbVal v n + c.toNat * (2 ^ 32) ^ n := by
  rw [limbVal_succ, limbVal_update_of_le le_rfl, Function.update_self]

theorem top_ne_zero (hn : 0 < n) (h : (2 ^ 32) ^ (n - 1) ≤ limbVal v n) : v (n - 1) ≠ 0 := by
  intro htop
  have hlt := limbVal_lt v (n - 1)
  rw [limbVal_of_zero_above (Nat.sub_le n 1) fun i hi hlt => by
    rw [show i = n - 1 by omega]; exact htop] at h
  omega

theorem limbVal_ge (hn : 0 < n) (h : v (n - 1) ≠ 0) : (2 ^ 32) ^ (n - 1) ≤ limbVal v n := by
  have hpos : 0 < (v (n - 1)).toNat := Nat.pos_of_ne_zero fun h0 => h (UInt32.toNat_inj.mp h0)
  exact (Nat.le_mul_of_pos_left _ hpos).trans
    (le_val (d := fun i => (v i).toNat) (show n - 1 < n by omega))

end Value

/-! ## The loops -/

section Loops

variable {a b s d q : ℕ → UInt32}

theorem cmpLimbs_eq (a b : ℕ → UInt32) (n : ℕ) :
    cmpLimbs a b n = compare (limbVal a n) (limbVal b n) := by
  induction n with
  | zero => rfl
  | succ n ih =>
    have hcase : ∀ {a b : ℕ → UInt32}, a n < b n → limbVal a (n + 1) < limbVal b (n + 1) :=
      fun {a b} h => val_lt_val (Nat.lt_succ_self n) (UInt32.lt_iff_toNat_lt.mp h)
        (fun j hj hlt => by omega) fun j _ => (a j).toNat_lt
    unfold cmpLimbs
    split_ifs with hgt hlt
    · exact (Nat.compare_eq_gt.mpr (hcase hgt)).symm
    · exact (Nat.compare_eq_lt.mpr (hcase hlt)).symm
    · have heq : a n = b n := UInt32.le_antisymm (UInt32.not_lt.mp hgt) (UInt32.not_lt.mp hlt)
      rw [ih, limbVal_succ, limbVal_succ, heq]
      simp [Nat.compare_eq_ite_lt]

theorem addLimbs_spec (a b : ℕ → UInt32) (n : ℕ) :
    (∀ k, n ≤ k → (addLimbs a b n).1 k = a k) ∧ (addLimbs a b n).2 ≤ 1 ∧
      limbVal (addLimbs a b n).1 n + (addLimbs a b n).2 * (2 ^ 32) ^ n = limbVal a n + limbVal b n := by
  induction n with
  | zero => exact ⟨fun _ _ => rfl, Nat.zero_le _, rfl⟩
  | succ n ih =>
    have ⟨hframe, hcarry, hval⟩ := ih
    unfold addLimbs
    dsimp only
    set r := addLimbs a b n
    set sum := (b n).toNat + (r.1 n).toNat + r.2 with hsum
    have hlt : sum < 2 * 2 ^ 32 := by
      have h1 := (b n).toNat_lt
      have h2 := (r.1 n).toNat_lt
      omega
    refine ⟨fun k hk => ?_, by split_ifs <;> omega, ?_⟩
    · rw [Function.update_of_ne (by omega), hframe k (by omega)]
    · have hdigit : (UInt32.ofNat sum).toNat + (if 0xffffffff < sum then 1 else 0) * 2 ^ 32 = sum := by
        rw [UInt32.toNat_ofNat']
        split_ifs <;> omega
      rw [limbVal_update_top, limbVal_succ, limbVal_succ, pow_succ, ← hframe n le_rfl]
      calc limbVal r.1 n + (UInt32.ofNat sum).toNat * (2 ^ 32) ^ n +
            (if 0xffffffff < sum then 1 else 0) * ((2 ^ 32) ^ n * 2 ^ 32)
          = limbVal r.1 n + ((UInt32.ofNat sum).toNat +
              (if 0xffffffff < sum then 1 else 0) * 2 ^ 32) * (2 ^ 32) ^ n := by ring
        _ = (limbVal r.1 n + r.2 * (2 ^ 32) ^ n) + ((b n).toNat + (r.1 n).toNat) * (2 ^ 32) ^ n := by
            rw [hdigit, hsum]
            ring
        _ = limbVal a n + (r.1 n).toNat * (2 ^ 32) ^ n +
              (limbVal b n + (b n).toNat * (2 ^ 32) ^ n) := by
            rw [hval]
            ring

theorem mulRow_spec (a : ℕ → UInt32) (b : UInt32) (q : ℕ → UInt32) (n : ℕ) :
    (∀ k, n ≤ k → (mulRow a b q n).1 k = q k) ∧ (mulRow a b q n).2 < 2 ^ 32 ∧
      limbVal (mulRow a b q n).1 n + (mulRow a b q n).2 * (2 ^ 32) ^ n = limbVal a n * b.toNat := by
  induction n with
  | zero => exact ⟨fun _ _ => rfl, Nat.two_pow_pos 32, by simp [mulRow]⟩
  | succ n ih =>
    have ⟨hframe, hcarry, hval⟩ := ih
    unfold mulRow
    dsimp only
    set r := mulRow a b q n
    set mul := (a n).toNat * b.toNat + r.2 with hmul
    have hlt : mul < 2 ^ 32 * 2 ^ 32 := by
      have h1 := (a n).toNat_lt
      have h2 := b.toNat_lt
      calc mul < (a n).toNat * b.toNat + 2 ^ 32 := Nat.add_lt_add_left hcarry _
        _ ≤ (2 ^ 32 - 1) * (2 ^ 32 - 1) + 2 ^ 32 :=
            Nat.add_le_add_right (Nat.mul_le_mul (by omega) (by omega)) _
        _ ≤ 2 ^ 32 * 2 ^ 32 := by decide
    refine ⟨fun k hk => ?_, Nat.div_lt_of_lt_mul hlt, ?_⟩
    · rw [Function.update_of_ne (by omega), hframe k (by omega)]
    · have hdigit : (UInt32.ofNat mul).toNat + mul / 2 ^ 32 * 2 ^ 32 = mul := by
        rw [UInt32.toNat_ofNat']
        omega
      rw [limbVal_update_top, limbVal_succ, pow_succ, Nat.add_mul, ← hval]
      calc limbVal r.1 n + (UInt32.ofNat mul).toNat * (2 ^ 32) ^ n +
            mul / 2 ^ 32 * ((2 ^ 32) ^ n * 2 ^ 32)
          = limbVal r.1 n + ((UInt32.ofNat mul).toNat + mul / 2 ^ 32 * 2 ^ 32) * (2 ^ 32) ^ n := by ring
        _ = limbVal r.1 n + r.2 * (2 ^ 32) ^ n + (a n).toNat * (2 ^ 32) ^ n * b.toNat := by
            rw [hdigit, hmul]
            ring

theorem divLimbs_spec {b : ℕ} (hb : 0 < b) (n : ℕ) (v : ℕ → UInt32) {carry : ℕ} (hcarry : carry < b) :
    (∀ k, n ≤ k → (divLimbs b n (v, carry)).1 k = v k) ∧
      limbVal (divLimbs b n (v, carry)).1 n = (carry * (2 ^ 32) ^ n + limbVal v n) / b := by
  induction n generalizing v carry with
  | zero => exact ⟨fun _ _ => rfl, by simp [Nat.div_eq_of_lt hcarry]⟩
  | succ n ih =>
    unfold divLimbs
    set div := carry * 2 ^ 32 + (v n).toNat with hdiv
    have hmod : div - div / b * b = div % b := by
      rw [Nat.mul_comm, Nat.sub_eq_of_eq_add (Nat.mod_add_div div b).symm]
    have hq : div / b < 2 ^ 32 := by
      have h1 := (v n).toNat_lt
      refine Nat.div_lt_of_lt_mul ?_
      calc div < carry * 2 ^ 32 + 2 ^ 32 := by omega
        _ = (carry + 1) * 2 ^ 32 := by ring
        _ ≤ b * 2 ^ 32 := Nat.mul_le_mul_right _ hcarry
    have ⟨hframe, hval⟩ := ih (Function.update v n (UInt32.ofNat (div / b)))
      (hmod ▸ Nat.mod_lt div hb)
    refine ⟨fun k hk => ?_, ?_⟩
    · rw [hframe k (by omega), Function.update_of_ne (by omega)]
    · rw [limbVal_succ, hframe n le_rfl, hval, Function.update_self, limbVal_update_of_le le_rfl,
        UInt32.toNat_ofNat', Nat.mod_eq_of_lt hq, hmod, limbVal_succ,
        ← Nat.add_mul_div_left _ _ hb]
      congr 1
      calc div % b * (2 ^ 32) ^ n + limbVal v n + b * (div / b * (2 ^ 32) ^ n)
          = (div % b + b * (div / b)) * (2 ^ 32) ^ n + limbVal v n := by ring
        _ = carry * (2 ^ 32) ^ (n + 1) + (limbVal v n + (v n).toNat * (2 ^ 32) ^ n) := by
            rw [Nat.mod_add_div, hdiv]
            ring

def subDigit (x y c : UInt32) : UInt32 × UInt32 :=
  if y ≤ x - c then (x - c - y, 0) else (UInt32.ofNat (2 ^ 32 + x.toNat - c.toNat - y.toNat), 1)

theorem subLimbs_succ (s d v : ℕ → UInt32) (n : ℕ) : subLimbs s d v (n + 1) =
    (Function.update (subLimbs s d v n).1 n (subDigit (s n) (d n) (subLimbs s d v n).2).1,
      (subDigit (s n) (d n) (subLimbs s d v n).2).2) := by
  rw [subLimbs, subDigit]
  dsimp only
  split_ifs <;> rfl

/-- With a borrow, a zero limb is not less than any limb, and the borrow is lost. -/
theorem subDigit_spec (x y c : UInt32) (hc : c = 0 ∨ c = 1) :
    ((subDigit x y c).2 = 0 ∨ (subDigit x y c).2 = 1) ∧
      (subDigit x y c).1.toNat + y.toNat + c.toNat =
        x.toNat + (subDigit x y c).2.toNat * 2 ^ 32 + (if x = 0 ∧ c = 1 then 2 ^ 32 else 0) := by
  have hx := x.toNat_lt
  have hy := y.toNat_lt
  have hx0 : x = 0 ↔ x.toNat = 0 := UInt32.toNat_inj.symm
  have hsub : (x - c).toNat = (2 ^ 32 - c.toNat + x.toNat) % 2 ^ 32 := UInt32.toNat_sub x c
  have hsub' : (x - c - y).toNat = (2 ^ 32 - y.toNat + (x - c).toNat) % 2 ^ 32 := UInt32.toNat_sub _ y
  have hle : y ≤ x - c ↔ y.toNat ≤ (x - c).toNat := UInt32.le_iff_toNat_le
  have hone : (1 : UInt32).toNat = 1 := rfl
  have hzero : (0 : UInt32).toNat = 0 := rfl
  by_cases h : y ≤ x - c
  · have hr : subDigit x y c = (x - c - y, 0) := if_pos h
    rw [hle] at h
    rw [hr]
    refine ⟨Or.inl rfl, ?_⟩
    rcases hc with rfl | rfl
    · rw [if_neg (by simp)]
      simp only [hzero] at hsub hsub' h ⊢
      omega
    · by_cases hx1 : x = 0
      · rw [if_pos ⟨hx1, rfl⟩]
        rw [hx0] at hx1
        simp only [hzero, hone] at hsub hsub' h ⊢
        omega
      · rw [if_neg fun h => hx1 h.1]
        rw [hx0] at hx1
        simp only [hzero, hone] at hsub hsub' h ⊢
        omega
  · have hr : subDigit x y c = (UInt32.ofNat (2 ^ 32 + x.toNat - c.toNat - y.toNat), 1) := if_neg h
    rw [hle] at h
    rw [hr, if_neg]
    · refine ⟨Or.inr rfl, ?_⟩
      simp only [UInt32.toNat_ofNat']
      rcases hc with rfl | rfl
      · omega
      · omega
    · rintro ⟨hx1, rfl⟩
      rw [hx0] at hx1
      omega

/-- **The loop of `Sub`.** A borrow is lost where a zero limb meets one. -/
theorem subLimbs_spec (s d v : ℕ → UInt32) (n : ℕ) :
    (∀ k, n ≤ k → (subLimbs s d v n).1 k = v k) ∧
      ((subLimbs s d v n).2 = 0 ∨ (subLimbs s d v n).2 = 1) ∧
      ∃ lost, limbVal (subLimbs s d v n).1 n + limbVal d n =
          limbVal s n + (subLimbs s d v n).2.toNat * (2 ^ 32) ^ n + lost ∧
        (lost = 0 ↔ ∀ i < n, s i = 0 → limbVal d i ≤ limbVal s i) := by
  induction n with
  | zero => exact ⟨fun _ _ => rfl, Or.inl rfl, 0, rfl, by simp⟩
  | succ n ih =>
    obtain ⟨hframe, hcarry, lost, hval, hlost⟩ := ih
    have ⟨hcarry', hdigit⟩ := subDigit_spec (s n) (d n) _ hcarry
    rw [subLimbs_succ]
    set r := subLimbs s d v n
    set x := subDigit (s n) (d n) r.2
    refine ⟨fun k hk => ?_, hcarry', lost + (if s n = 0 ∧ r.2 = 1 then 2 ^ 32 else 0) * (2 ^ 32) ^ n,
      ?_, ?_⟩
    · show Function.update r.1 n x.1 k = v k
      rw [Function.update_of_ne (by omega), hframe k (by omega)]
    · show limbVal (Function.update r.1 n x.1) (n + 1) + _ = _
      rw [limbVal_update_top, limbVal_succ, limbVal_succ, pow_succ]
      calc limbVal r.1 n + x.1.toNat * (2 ^ 32) ^ n + (limbVal d n + (d n).toNat * (2 ^ 32) ^ n)
          = (limbVal r.1 n + limbVal d n) + (x.1.toNat + (d n).toNat) * (2 ^ 32) ^ n := by ring
        _ = limbVal s n + lost + (x.1.toNat + (d n).toNat + r.2.toNat) * (2 ^ 32) ^ n := by
            rw [hval]
            ring
        _ = limbVal s n + (s n).toNat * (2 ^ 32) ^ n + x.2.toNat * ((2 ^ 32) ^ n * 2 ^ 32) +
              (lost + (if s n = 0 ∧ r.2 = 1 then 2 ^ 32 else 0) * (2 ^ 32) ^ n) := by
            rw [hdigit]
            ring
    · -- as long as nothing is lost, a borrow says that the limbs so far are less
      have hborrow : lost = 0 → (r.2 = 1 ↔ ¬ limbVal d n ≤ limbVal s n) := by
        intro h0
        have hlt := limbVal_lt r.1 n
        rcases hcarry with h | h <;> rw [h] at hval ⊢
        · have hzero : (0 : UInt32).toNat = 0 := rfl
          rw [hzero, h0] at hval
          exact iff_of_false (by decide) (not_not.mpr (by omega))
        · have hone : (1 : UInt32).toNat = 1 := rfl
          rw [hone, h0] at hval
          exact iff_of_true rfl (by omega)
      have hpow : (2 ^ 32) ^ n ≠ 0 := (Nat.pow_pos (Nat.two_pow_pos 32)).ne'
      rw [Nat.add_eq_zero_iff, Nat.forall_lt_succ_right, Nat.mul_eq_zero, or_iff_left hpow, ← hlost]
      refine and_congr_right fun h0 => ?_
      have hcase := hborrow h0
      rw [ite_eq_right_iff]
      constructor
      · intro h hs
        by_contra hlt
        exact absurd (h ⟨hs, hcase.mpr hlt⟩) (by decide)
      · intro h ⟨hs, h1⟩
        exact absurd (h hs) (hcase.mp h1)

end Loops

/-! ## Subtraction -/

/-- A nonnegative number of at most `n` limbs, without leading zeros. -/
structure Norm (n : ℕ) (A : BI) : Prop where
  sign : A.sign = 1
  pos : 0 < A.length
  le : A.length ≤ n
  top : A.value (A.length - 1) ≠ 0

def Padded (A : BI) : Prop := ∀ k, A.length ≤ k → A.value k = 0

/-- Subtracting `b` from `a` never borrows from a zero limb. -/
def NoLostBorrow (a b : ℕ) : Prop :=
  ∀ i, a / (2 ^ 32) ^ i % 2 ^ 32 = 0 → b % (2 ^ 32) ^ i ≤ a % (2 ^ 32) ^ i

section Sub

theorem Norm.val_pos (h : Norm n A) : 0 < A.val :=
  (Nat.pow_pos (Nat.two_pow_pos 32)).trans_le (limbVal_ge h.pos h.top)

theorem Norm.mono (h : Norm m A) (hle : m ≤ n) : Norm n A := ⟨h.sign, h.pos, h.le.trans hle, h.top⟩

theorem cmp_eq (hA : Norm m A) (hB : Norm n B) : cmp A B = compare A.val B.val := by
  have hlong : ∀ {A B : BI} {m n : ℕ}, Norm m A → Norm n B → A.length < B.length → A.val < B.val :=
    fun {A B _ _} _ hB hlt => val_lt_of_length (d := A.digit) (e := B.digit) hlt
      (fun h => hB.top (UInt32.toNat_inj.mp h)) (fun i _ => A.digit_lt i) (Nat.two_pow_pos 32)
  unfold cmp
  split_ifs with hgt hlt
  · exact (Nat.compare_eq_gt.mpr (hlong hB hA hgt)).symm
  · exact (Nat.compare_eq_lt.mpr (hlong hA hB hlt)).symm
  · have hlen : A.length = B.length := by omega
    rw [cmpLimbs_eq, BI.val_eq, BI.val_eq, hlen]

theorem trim_spec (v : ℕ → UInt32) (n : ℕ) : trim v n ≤ n ∧ (∀ k, trim v n ≤ k → k < n → v k = 0) ∧
    (0 < trim v n → v (trim v n - 1) ≠ 0) := by
  induction n with
  | zero => exact ⟨le_rfl, fun k _ hk => absurd hk (Nat.not_lt_zero k), fun h => absurd h (lt_irrefl 0)⟩
  | succ n ih =>
    have ⟨hle, hzero, htop⟩ := ih
    unfold trim
    split_ifs with h
    · refine ⟨by omega, fun k hk hlt => ?_, htop⟩
      rcases Nat.lt_succ_iff_lt_or_eq.mp hlt with hlt | rfl
      · exact hzero k hk hlt
      · exact h
    · exact ⟨le_rfl, fun k hk hlt => by omega, fun _ => h⟩

theorem noLostBorrow_iff (hle : B.val ≤ A.val) (hB : B.val = limbVal B.value A.length) :
    NoLostBorrow A.val B.val ↔
      ∀ i < A.length, A.value i = 0 → limbVal B.value i ≤ limbVal A.value i := by
  have hmod : ∀ (v : ℕ → UInt32) i, i ≤ A.length →
      limbVal v A.length % (2 ^ 32) ^ i = limbVal v i :=
    fun v i hi => val_mod hi fun j _ => (v j).toNat_lt
  have hdigit : ∀ i < A.length, A.val / (2 ^ 32) ^ i % 2 ^ 32 = 0 ↔ A.value i = 0 := by
    intro i hi
    rw [show A.val / (2 ^ 32) ^ i % 2 ^ 32 = (A.value i).toNat from
      val_digit hi fun j _ => (A.value j).toNat_lt]
    exact ⟨fun h => UInt32.toNat_inj.mp h, fun h => by rw [h]; rfl⟩
  constructor
  · intro h i hi hzero
    have := h i ((hdigit i hi).mpr hzero)
    rwa [hB, BI.val_eq, hmod _ i hi.le, hmod _ i hi.le] at this
  · intro h i hzero
    rcases Nat.lt_or_ge i A.length with hi | hi
    · have := h i hi ((hdigit i hi).mp hzero)
      rwa [hB, BI.val_eq, hmod _ i hi.le, hmod _ i hi.le]
    · -- above the limbs nothing is left to borrow for
      have hlt : A.val < (2 ^ 32) ^ i :=
        (limbVal_lt _ _).trans_le (Nat.pow_le_pow_right (Nat.two_pow_pos 32) hi)
      rw [Nat.mod_eq_of_lt hlt, Nat.mod_eq_of_lt (hle.trans_lt hlt)]
      exact hle

theorem sub_eq (hA : Norm m A) (hB : Norm n B) (hlt : B.val < A.val) :
    sub A B = (let v := (subLimbs A.value B.value A.value A.length).1
      ⟨A.sign, trim v A.length, v⟩, B) := by
  have hcmp : cmp A B = .gt := (cmp_eq hA hB).trans (Nat.compare_eq_gt.mpr hlt)
  unfold sub subSame
  rw [if_pos (hA.sign.trans hB.sign.symm), hcmp]

theorem length_le_of_val_le (hB : Norm n B) (hle : B.val ≤ A.val) :
    B.length ≤ A.length := by
  by_contra h
  have := val_lt_of_length (d := A.digit) (e := B.digit) (not_le.mp h)
    (fun h => hB.top (UInt32.toNat_inj.mp h)) (fun i _ => A.digit_lt i) (Nat.two_pow_pos 32)
  exact absurd this (not_lt.mpr hle)

/-- **When `Sub` is exact**: if and only if it never borrows from a zero limb. -/
theorem sub_val_iff (hA : Norm m A) (hB : Norm n B)
    (hpad : ∀ k, B.length ≤ k → k < A.length → B.value k = 0) (hlt : B.val < A.val) :
    (sub A B).1.val = A.val - B.val ↔ NoLostBorrow A.val B.val := by
  have hlen := length_le_of_val_le hB hlt.le
  have hBval : B.val = limbVal B.value A.length :=
    (limbVal_of_zero_above hlen hpad).symm
  rw [sub_eq hA hB hlt, noLostBorrow_iff hlt.le hBval]
  obtain ⟨-, hcarry, lost, hval, hlost⟩ := subLimbs_spec A.value B.value A.value A.length
  set r := subLimbs A.value B.value A.value A.length
  have htrim := trim_spec r.1 A.length
  show limbVal r.1 (trim r.1 A.length) = A.val - B.val ↔ _
  rw [← limbVal_of_zero_above htrim.1 htrim.2.1, ← hlost]
  have hsmall := limbVal_lt r.1 A.length
  rw [← hBval, ← BI.val_eq] at hval
  constructor
  · intro h
    omega
  · rintro rfl
    rcases hcarry with h | h <;> rw [h] at hval
    · have hzero : (0 : UInt32).toNat = 0 := rfl
      rw [hzero] at hval
      omega
    · have hone : (1 : UInt32).toNat = 1 := rfl
      rw [hone] at hval
      omega

theorem sub_norm (hA : Norm m A) (hB : Norm n B) (hlt : B.val < A.val)
    (hval : (sub A B).1.val = A.val - B.val) : Norm A.length (sub A B).1 := by
  have htrim := trim_spec (subLimbs A.value B.value A.value A.length).1 A.length
  rw [sub_eq hA hB hlt] at hval ⊢
  have hpos : 0 < trim (subLimbs A.value B.value A.value A.length).1 A.length := by
    refine Nat.pos_of_ne_zero fun h0 => ?_
    change limbVal _ (trim _ _) = _ at hval
    rw [h0, limbVal_zero] at hval
    omega
  exact ⟨hA.sign, hpos, htrim.1, htrim.2.2 hpos⟩

end Sub

/-! ## Multiplication -/

section Mul

variable {p q : BI}

theorem addSame_spec (hp : Padded p) (hq : Padded q) {L : ℕ} (hL : L = max p.length q.length)
    (hlt : L < maxLen) : ∃ carry ≤ 1, (addSame p q).sign = p.sign ∧ (addSame p q).length = L + carry ∧
      (addSame p q).val = p.val + q.val ∧ Padded (addSame p q) ∧
      (carry = 1 → (2 ^ 32) ^ L ≤ p.val + q.val) := by
  have hmax : (if p.length < q.length then q.length else p.length) = L := by
    rw [hL]
    split_ifs with h
    · exact (max_eq_right h.le).symm
    · exact (max_eq_left (not_lt.mp h)).symm
  obtain ⟨hframe, hcarry, hval⟩ := addLimbs_spec p.value q.value L
  rw [limbVal_of_zero_above (show p.length ≤ L by omega) fun i hi _ => hp i hi,
    limbVal_of_zero_above (show q.length ≤ L by omega) fun i hi _ => hq i hi] at hval
  have hsum : addSame p q = ⟨p.sign, L + (addLimbs p.value q.value L).2,
      Function.update (addLimbs p.value q.value L).1 L (UInt32.ofNat (addLimbs p.value q.value L).2)⟩ := by
    unfold addSame
    simp [hmax, hlt]
  generalize addLimbs p.value q.value L = r at hframe hcarry hval hsum
  have hcases : r.2 = 0 ∨ r.2 = 1 := by omega
  refine ⟨r.2, hcarry, by rw [hsum], by rw [hsum], ?_, fun k hk => ?_, fun h => ?_⟩
  · rw [hsum]
    refine Eq.trans ?_ hval
    show limbVal (Function.update r.1 L (UInt32.ofNat r.2)) (L + r.2) = _
    rcases hcases with h | h <;> rw [h]
    · rw [Nat.add_zero, limbVal_update_of_le le_rfl, Nat.zero_mul, Nat.add_zero]
    · rw [limbVal_update_top]
      rfl
  · rw [hsum] at hk ⊢
    show Function.update r.1 L (UInt32.ofNat r.2) k = 0
    rcases eq_or_ne k L with rfl | hne
    · have h0 : r.2 = 0 := by
        have : k + r.2 ≤ k := hk
        omega
      rw [Function.update_self, h0]
      rfl
    · have hk' : L + r.2 ≤ k := hk
      rw [Function.update_of_ne hne, hframe k (by omega), hp k (by omega)]
  · rw [h] at hval
    show (2 ^ 32) ^ L ≤ limbVal p.value p.length + limbVal q.value q.length
    omega

theorem limbVal_shiftUp (v : ℕ → UInt32) (n i : ℕ) :
    limbVal (shiftUp v (n + i) i) (n + i) = limbVal v n * (2 ^ 32) ^ i := by
  rw [Nat.mul_comm, limbVal, limbVal, ← val_shift, Nat.add_comm]
  refine val_congr fun k hk => ?_
  unfold shiftUp
  split_ifs
  · rfl
  · rfl

theorem shifted_spec {u : BI} {r : BI} (hr : r = ⟨u.sign, u.length + i, shiftUp u.value (u.length + i) i⟩)
    (hu : ∀ k, u.length + i ≤ k → u.value k = 0) : r.val = u.val * (2 ^ 32) ^ i ∧ Padded r := by
  subst hr
  refine ⟨limbVal_shiftUp u.value u.length i, fun k hk => ?_⟩
  have hle : u.length + i ≤ k := hk
  show shiftUp u.value (u.length + i) i k = 0
  unfold shiftUp
  rw [if_neg (by omega), if_neg (by omega), hu k hle]

/-- The row for limb `i` before it is moved up: above it is the row before. -/
theorem mulLimb_spec (A B q : BI) (i : ℕ) (hlen : A.length < maxLen) :
    let u := mulLimb A B q i
    u.sign = q.sign ∧ A.length ≤ u.length ∧ u.length ≤ A.length + 1 ∧
      u.val = A.val * (B.value i).toNat ∧ (∀ k, u.length ≤ k → u.value k = q.value k) ∧
      (u.length = A.length + 1 → (2 ^ 32) ^ A.length ≤ u.val) := by
  intro u
  obtain ⟨hframe, hcarry, hval⟩ := mulRow_spec A.value (B.value i) q.value A.length
  have hu : u = mulLimb A B q i := rfl
  unfold mulLimb at hu
  dsimp only at hu
  generalize mulRow A.value (B.value i) q.value A.length = row at hframe hcarry hval hu
  by_cases hc : row.2 = 0
  · rw [if_neg fun h => h.1 hc] at hu
    rw [hc, Nat.zero_mul, Nat.add_zero] at hval
    rw [hu]
    exact ⟨rfl, le_rfl, Nat.le_succ _, hval, hframe, fun h => absurd h (Nat.lt_succ_self _).ne⟩
  · rw [if_pos ⟨hc, hlen⟩] at hu
    have htotal : u.val = limbVal row.1 A.length + row.2 * (2 ^ 32) ^ A.length := by
      rw [hu]
      refine (limbVal_update_top row.1 A.length (UInt32.ofNat row.2)).trans ?_
      rw [UInt32.toNat_ofNat', Nat.mod_eq_of_lt hcarry]
    have hlow : (2 ^ 32) ^ A.length ≤ row.2 * (2 ^ 32) ^ A.length :=
      Nat.le_mul_of_pos_left _ (Nat.pos_of_ne_zero hc)
    refine ⟨by rw [hu], by rw [hu]; exact Nat.le_succ _, by rw [hu], htotal.trans hval, ?_, ?_⟩
    · rw [hu]
      intro k hk
      have hle : A.length + 1 ≤ k := hk
      exact (Function.update_of_ne (by omega) _ _).trans (hframe k (by omega))
    · intro _
      omega

/-- The row for limb `i`: nothing is left in it of the row before. -/
theorem mulShifted_spec (hlen : A.length + i + 1 < maxLen) (hq : ∀ k, A.length + i ≤ k → q.value k = 0) :
    let r := mulShifted A B q i
    r.sign = q.sign ∧ A.length + i ≤ r.length ∧ r.length ≤ A.length + i + 1 ∧ Padded r ∧
      r.val = A.val * (B.value i).toNat * (2 ^ 32) ^ i ∧
      (r.length = A.length + i + 1 → (2 ^ 32) ^ (A.length + i) ≤ r.val) := by
  intro r
  obtain ⟨hsign, hge, hle, hval, hframe, htop⟩ := mulLimb_spec A B q i (by omega)
  have hr : r = mulShifted A B q i := rfl
  unfold mulShifted at hr
  generalize mulLimb A B q i = u at hsign hge hle hval hframe htop hr
  rw [if_pos (by omega)] at hr
  have ⟨hrval, hpad⟩ := shifted_spec hr fun k hk => by rw [hframe k (by omega), hq k (by omega)]
  have hlength : r.length = u.length + i := by rw [hr]
  refine ⟨by rw [hr]; exact hsign, by omega, by omega, hpad, by rw [hrval, hval], fun h => ?_⟩
  rw [hrval, pow_add]
  exact Nat.mul_le_mul_right _ (htop (by omega))

/-- **The rows of `Mul`.** After `n` rows the sum is the product with the first `n` limbs. -/
theorem mulRows_spec {n : ℕ} (hlen : A.length + n < maxLen) :
    let r := mulRows A B n
    r.1.sign = 1 ∧ r.2.sign = 1 ∧ r.1.val = A.val * limbVal B.value n ∧ Padded r.1 ∧
      (∀ k, A.length + n ≤ k → r.2.value k = 0) ∧ r.1.length ≤ max 1 (A.length + n) ∧
      (0 < n → A.length + n ≤ r.1.length + 1) ∧
      (0 < A.length → 0 < n → r.1.length = A.length + n → (2 ^ 32) ^ (A.length + n - 1) ≤ r.1.val) := by
  induction n with
  | zero =>
    refine ⟨rfl, rfl, ?_, fun _ _ => rfl, fun _ _ => rfl, le_max_left _ _, fun h => absurd h (lt_irrefl 0),
      fun _ h => absurd h (lt_irrefl 0)⟩
    rfl
  | succ i ih =>
    obtain ⟨hp, hq, hval, hpad, hzero, hmax, -, -⟩ := ih (by omega)
    unfold mulRows
    dsimp only
    generalize mulRows A B i = s at hp hq hval hpad hzero hmax
    obtain ⟨hsign, hge, hle, hrpad, hrval, hrtop⟩ := mulShifted_spec (B := B) (by omega) hzero
    generalize mulShifted A B s.2 i = r at hsign hge hle hrpad hrval hrtop
    have hadd : add s.1 r = (addSame s.1 r, r) := if_pos (by rw [hp, hsign, hq])
    rw [hadd]
    dsimp only
    obtain ⟨carry, hcarry, hpsign, hlength, hsum, hspad, hbig⟩ :=
      addSame_spec hpad hrpad rfl (show max s.1.length r.length < maxLen by omega)
    have htotal : (addSame s.1 r).val = A.val * limbVal B.value (i + 1) := by
      rw [hsum, hval, hrval, limbVal_succ]
      ring
    have hbound : (addSame s.1 r).val < (2 ^ 32) ^ (A.length + (i + 1)) := by
      rw [htotal, pow_add]
      exact Nat.mul_lt_mul'' (limbVal_lt _ _) (limbVal_lt _ _)
    -- a carry out of the place of the next limb would be too large
    have hnocarry : max s.1.length r.length = A.length + (i + 1) → carry = 0 := by
      intro hL
      by_contra h
      have := hbig (by omega)
      rw [hL, ← hsum] at this
      omega
    refine ⟨hpsign.trans hp, by rw [hsign, hq], htotal, hspad, fun k hk => hrpad k (by omega), by omega,
      fun _ => by omega, fun hpos _ hL => ?_⟩
    show (2 ^ 32) ^ (A.length + i) ≤ _
    rw [hsum]
    rcases Nat.eq_or_lt_of_le hle with hr | hr
    · exact (hrtop hr).trans (Nat.le_add_left _ _)
    · have h1 : carry = 1 := by omega
      have hmaxL : max s.1.length r.length = A.length + i := by omega
      have := hbig h1
      rwa [hmaxL] at this

/-- **Multiplication is exact**, also with leading zeros. -/
theorem mul_val (hlen : A.length + B.length < maxLen) :
    (mul A B).val = A.val * B.val ∧ Padded (mul A B) := by
  obtain ⟨-, -, hval, hpad, -⟩ := mulRows_spec (A := A) (B := B) hlen
  exact ⟨hval, hpad⟩

theorem mul_norm {m n : ℕ} (hA : Norm m A) (hB : Norm n B) (hlen : A.length + B.length < maxLen) :
    Norm (A.length + B.length) (mul A B) := by
  obtain ⟨-, -, hval, -, -, hmax, hmin, htop⟩ := mulRows_spec (A := A) (B := B) hlen
  have hlength : (mul A B).length = (mulRows A B B.length).1.length := rfl
  have hposA := hA.pos
  have hposB := hB.pos
  refine ⟨?_, by omega, by omega, top_ne_zero (by omega) ?_⟩
  · unfold mul
    rw [hA.sign, hB.sign]
    rfl
  · rcases Nat.eq_or_lt_of_le (show (mul A B).length ≤ A.length + B.length by omega) with hL | hL
    · have hbig := htop hposA hposB hL
      rw [← hL] at hbig
      exact hbig
    · have hshort : (mul A B).length - 1 = A.length - 1 + (B.length - 1) := by omega
      rw [hshort, pow_add]
      calc (2 ^ 32) ^ (A.length - 1) * (2 ^ 32) ^ (B.length - 1) ≤ A.val * B.val :=
            Nat.mul_le_mul (limbVal_ge hposA hA.top) (limbVal_ge hposB hB.top)
        _ = limbVal (mul A B).value (mul A B).length := hval.symm

theorem mul_length_zero (hB : B.length ≤ 1) (hzero : B.val = 0) (hlen : A.length + B.length < maxLen) :
    (mul A B).length ≤ max 1 A.length := by
  obtain ⟨-, -, hval, -, -, hmax, -, htop⟩ := mulRows_spec (A := A) (B := B) hlen
  have hlength : (mul A B).length = (mulRows A B B.length).1.length := rfl
  rw [← BI.val_eq, hzero, Nat.mul_zero] at hval
  by_contra h
  have hone : (2 ^ 32) ^ (A.length + B.length - 1) ≤ 0 := hval ▸ htop (by omega) (by omega) (by omega)
  exact absurd hone (Nat.not_le.mpr (Nat.pow_pos (Nat.two_pow_pos 32)))

end Mul

end NasFirmware.BigInt
