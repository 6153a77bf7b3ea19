import NasFirmware.BigInt.Arith

/-!
# Reduction

`Mod` subtracts estimated multiples of the modulus. As long as no subtraction loses a borrow, it computes
the remainder.

* **`mod_spec`**, `mod_small`: the result of `Mod`.
-/

namespace NasFirmware.BigInt

open Limbs CLoop

/-- The reduction of `p` by estimated multiples of `b` never borrows from a zero limb. -/
inductive ReduceOk (b : ℕ) : ℕ → Prop
  | done {p : ℕ} (h : p ≤ b) : ReduceOk b p
  | step {p : ℕ} (h : b < p) (hborrow : NoLostBorrow p (multiple (2 ^ 32) p b))
      (hrest : ReduceOk b (p - multiple (2 ^ 32) p b)) : ReduceOk b p

variable {n m : ℕ} {A B : BI}

section Leading

theorem Norm.size (h : Norm n A) : Limbs.size (2 ^ 32) A.val = A.length :=
  size_val h.pos (fun h0 => h.top (UInt32.toNat_inj.mp h0)) fun i _ => A.digit_lt i

theorem Norm.top_eq (h : Norm n A) : Limbs.top (2 ^ 32) A.val = (A.value (A.length - 1)).toNat := by
  have hpos := h.pos
  rw [Limbs.top, h.size, BI.val, val_div (Nat.sub_le _ 1) fun i _ => A.digit_lt i,
    show A.length - (A.length - 1) = 1 by omega, val_succ, val_zero]
  simp [BI.digit]

theorem Norm.top_two (h : 2 ≤ A.length) : A.val / (2 ^ 32) ^ (A.length - 2) =
    (A.value (A.length - 1)).toNat * 2 ^ 32 + (A.value (A.length - 2)).toNat := by
  rw [BI.val, val_div (Nat.sub_le _ 2) fun i _ => A.digit_lt i,
    show A.length - (A.length - 2) = 1 + 1 by omega, val_succ, val_succ, val_zero]
  simp only [BI.digit, pow_zero, pow_one, Nat.mul_one, Nat.zero_add, Nat.add_zero,
    show A.length - 2 + 1 = A.length - 1 by omega]
  omega

end Leading

section Step

variable {p : BI}

theorem moveP_norm {b : ℕ} (hpos : 0 < b) (hlt : b < 2 ^ 32) :
    Norm 1 (moveP b) ∧ (moveP b).val = b ∧ (moveP b).length = 1 := by
  have hval : (UInt32.ofNat b).toNat = b := by
    rw [UInt32.toNat_ofNat', Nat.mod_eq_of_lt hlt]
  have hmove : moveP b = ⟨1, 1, Function.update (fun _ => 0) 0 (UInt32.ofNat b)⟩ := if_neg (by omega)
  rw [hmove]
  refine ⟨⟨rfl, Nat.one_pos, le_rfl, fun h => ?_⟩, ?_, rfl⟩
  · have h0 : (UInt32.ofNat b).toNat = 0 := by
      rw [show UInt32.ofNat b = 0 from h]
      rfl
    omega
  · refine (limbVal_update_top (fun _ => 0) 0 (UInt32.ofNat b)).trans ?_
    rw [hval]
    simp

theorem reduceBy_spec (hp : Norm m p) (hB : Norm n B) (hlen : B.length + 1 < maxLen) {div len : ℕ}
    (hdiv : 0 < div) (hdiv' : div < 2 ^ 32) (hlt : div * B.val * (2 ^ 32) ^ len < p.val)
    (hborrow : NoLostBorrow p.val (div * B.val * (2 ^ 32) ^ len)) :
    Norm m (reduceBy p B div len) ∧
      (reduceBy p B div len).val = p.val - div * B.val * (2 ^ 32) ^ len := by
  obtain ⟨hone, hval, hlength⟩ := moveP_norm hdiv hdiv'
  have hshort : (moveP div).length + B.length < maxLen := by omega
  have hnorm := mul_norm hone hB hshort
  have ⟨hmul, hpad⟩ := mul_val hshort
  rw [hval] at hmul
  unfold reduceBy
  generalize mul (moveP div) B = q at hnorm hmul hpad
  set r : BI := ⟨q.sign, q.length + len, shiftUp q.value (q.length + len) len⟩ with hr
  have ⟨hrval, hrpad⟩ := shifted_spec hr fun k hk => hpad k (by omega)
  rw [hmul] at hrval
  have hqpos := hnorm.pos
  have hrnorm : Norm (q.length + len) r := by
    refine ⟨hnorm.sign, Nat.lt_of_lt_of_le hqpos (Nat.le_add_right _ _), le_rfl, ?_⟩
    show shiftUp q.value (q.length + len) len (q.length + len - 1) ≠ 0
    unfold shiftUp
    rw [if_neg (by omega), if_pos (by omega), show q.length + len - 1 - len = q.length - 1 by omega]
    exact hnorm.top
  rw [← hrval] at hlt hborrow ⊢
  have hexact := (sub_val_iff hp hrnorm (fun k hk _ => hrpad k hk) hlt).mpr hborrow
  exact ⟨(sub_norm hp hrnorm hlt hexact).mono hp.le, hexact⟩

theorem modPass_gt (hp : Norm m p) (hB : Norm n B) (hlt : B.val < p.val) :
    (p.length = B.length ∧ p.val < 2 * B.val ∧ multiple (2 ^ 32) p.val B.val = B.val ∧
      modPass (p, B) = some (.done (modEnd (sub p B).1 (sub p B).2, (sub p B).2))) ∨
    ∃ div len, 0 < div ∧ div < 2 ^ 32 ∧ multiple (2 ^ 32) p.val B.val = div * B.val * (2 ^ 32) ^ len ∧
      modPass (p, B) = some (.next (reduceBy p B div len, B)) := by
  have hcmp : cmp p B = .gt := (cmp_eq hp hB).trans (Nat.compare_eq_gt.mpr hlt)
  have hlen := length_le_of_val_le hB hlt.le
  have hpos : 0 < multiple (2 ^ 32) p.val B.val := (multiple_lt (by decide) hB.val_pos hlt).1
  have hbTop := (B.value (B.length - 1)).toNat_lt
  have hpTop := (p.value (p.length - 1)).toNat_lt
  have hadd : B.value (B.length - 1) ≠ 0xffffffff → (B.value (B.length - 1) + 1).toNat =
      (B.value (B.length - 1)).toNat + 1 := by
    intro hne
    have hne' : (B.value (B.length - 1)).toNat ≠ 0xffffffff := fun h => hne (UInt32.toNat_inj.mp h)
    rw [UInt32.toNat_add, show (1 : UInt32).toNat = 1 from rfl, Nat.mod_eq_of_lt (by omega)]
  unfold modPass
  simp only [hcmp, if_true]
  unfold multiple estimate at hpos ⊢
  rw [hp.top_eq, hB.top_eq, hp.size, hB.size] at hpos ⊢
  simp only [UInt32.lt_iff_toNat_lt]
  by_cases htop : (B.value (B.length - 1)).toNat < (p.value (p.length - 1)).toNat
  · -- one leading limb
    have hne : B.value (B.length - 1) ≠ 0xffffffff := by
      intro h
      rw [h] at htop
      exact absurd htop (by
        rw [show (0xffffffff : UInt32).toNat = 2 ^ 32 - 1 from rfl]
        omega)
    simp only [htop, if_true] at hpos ⊢
    right
    refine ⟨_, _, Nat.pos_of_mul_pos_right (Nat.pos_of_mul_pos_right hpos), ?_, rfl, ?_⟩
    · exact (Nat.div_le_self _ _).trans_lt hpTop
    · rw [hadd hne]
  · simp only [htop, if_false] at hpos ⊢
    by_cases hlong : B.length < p.length
    · -- two leading limbs
      have htwo : 2 ≤ p.length := by
        have := hB.pos
        omega
      simp only [hlong, if_true] at hpos ⊢
      rw [Norm.top_two htwo] at hpos ⊢
      right
      refine ⟨_, _, Nat.pos_of_mul_pos_right (Nat.pos_of_mul_pos_right hpos), ?_, rfl, ?_⟩
      · have hsecond := (p.value (p.length - 2)).toNat_lt
        refine Nat.div_lt_of_lt_mul ?_
        omega
      · split_ifs with hmax
        · rw [hmax]
          rfl
        · rw [hadd hmax]
    · simp only [hlong, if_false] at hpos ⊢
      left
      refine ⟨by omega, ?_, by simp, trivial⟩
      apply lt_two_mul_of_top (Nat.two_pow_pos 32) hB.val_pos.ne'
      · rw [hp.size, hB.size]
        omega
      · rw [hp.top_eq, hB.top_eq]
        omega

end Step

section Mod

theorem mod_small (hB : Norm n B) (hA : A.val = 0) (hlen : A.length ≤ B.length) : mod A B = some (A, B) := by
  have hcmp : cmp A B = .lt := by
    unfold cmp
    rw [if_neg (by omega)]
    split_ifs with hlt
    · rfl
    · have heq : A.length = B.length := by omega
      rw [cmpLimbs_eq, ← BI.val_eq, hA, heq, ← BI.val_eq]
      exact Nat.compare_eq_lt.mpr hB.val_pos
  unfold mod
  apply loop_succ_done
  unfold modPass modEnd
  simp [hcmp]

theorem modEnd_spec {p : BI} (hp : Norm m p) (hB : Norm n B) (hle : p.val ≤ B.val) :
    (modEnd p B).val = p.val % B.val ∧
      (0 < (modEnd p B).val → Norm m (modEnd p B)) ∧ ((modEnd p B).val = 0 → (modEnd p B).length = 0) := by
  unfold modEnd
  rw [cmp_eq hp hB]
  rcases Nat.eq_or_lt_of_le hle with heq | hlt
  · rw [if_pos (Nat.compare_eq_eq.mpr heq), heq, Nat.mod_self]
    exact ⟨rfl, fun h => absurd h (lt_irrefl 0), fun _ => rfl⟩
  · rw [if_neg fun h => absurd (Nat.compare_eq_eq.mp h) hlt.ne, Nat.mod_eq_of_lt hlt]
    exact ⟨rfl, fun _ => hp, fun h => absurd h hp.val_pos.ne'⟩

/-- **The result of `Mod`**, if no subtraction on the way borrows from a zero limb. -/
theorem mod_spec (hA : Norm m A) (hB : Norm n B) (hlen : B.length + 1 < maxLen)
    (hok : ReduceOk B.val A.val) : ∃ r, mod A B = some (r, B) ∧ r.val = A.val % B.val ∧
      (0 < r.val → Norm m r) ∧ (r.val = 0 → r.length = 0) := by
  have hresult : ∃ r, loop modPass (A.val + 1) (A, B) = some r ∧ r.2 = B ∧ r.1.val = A.val % B.val ∧
      (0 < r.1.val → Norm m r.1) ∧ (r.1.val = 0 → r.1.length = 0) := by
    refine loop_of_variant (fun k s => s.2 = B ∧ Norm m s.1 ∧ s.1.val = k ∧ ReduceOk B.val s.1.val ∧
      s.1.val % B.val = A.val % B.val) _ (fun k s hs => ?_) ⟨rfl, hA, rfl, hok, rfl⟩
      (Nat.lt_succ_self A.val)
    obtain ⟨p, B'⟩ := s
    obtain ⟨rfl, hp, rfl, hok, hmod⟩ := hs
    dsimp only at hp hok hmod
    rcases Nat.lt_or_ge B'.val p.val with hlt | hle
    · cases hok with
      | done h => omega
      | step _ hborrow hrest =>
        have hmul := multiple_lt (w := 2 ^ 32) (by decide) hB.val_pos hlt
        rcases modPass_gt hp hB hlt with ⟨hsame, htwice, heq, hpass⟩ | ⟨div, len, hdiv, hdiv', heq, hpass⟩
        · -- the leading limbs are equal: one subtraction is enough
          right
          rw [heq] at hborrow
          have hexact := (sub_val_iff hp hB (fun k hk hlt => by omega) hlt).mpr hborrow
          have hnorm := (sub_norm hp hB hlt hexact).mono hp.le
          have hend := modEnd_spec hnorm hB (by omega)
          have hB2 : (sub p B').2 = B' := by rw [sub_eq hp hB hlt]
          refine ⟨_, hpass, hB2, ?_⟩
          rw [hB2, hend.1, hexact, ← hmod]
          refine ⟨?_, fun h => hend.2.1 (by rwa [hend.1, hexact]), fun h => hend.2.2 (by
            rwa [hend.1, hexact])⟩
          rw [Nat.mod_eq_sub_mod hlt.le]
        · left
          rw [heq] at hborrow hmul hrest
          have ⟨hnorm, hval⟩ := reduceBy_spec hp hB hlen hdiv hdiv' hmul.2 hborrow
          refine ⟨_, _, hpass, ⟨rfl, hnorm, rfl, by rwa [hval], ?_⟩, ?_⟩
          · have hcomm : div * B'.val * (2 ^ 32) ^ len = B'.val * (div * (2 ^ 32) ^ len) := by ring
            rw [hval, hcomm, Nat.sub_mul_mod (by rw [← hcomm]; exact hmul.2.le), hmod]
          · rw [hval]
            exact Nat.sub_lt hp.val_pos hmul.1
    · right
      have hcmp : cmp p B' ≠ .gt := by
        rw [cmp_eq hp hB]
        exact fun h => absurd (Nat.compare_eq_gt.mp h) (not_lt.mpr hle)
      have hend := modEnd_spec hp hB hle
      refine ⟨(modEnd p B', B'), ?_, rfl, by rw [hend.1, hmod], hend.2⟩
      unfold modPass
      simp [hcmp]
  obtain ⟨r, hloop, hB', hval⟩ := hresult
  exact ⟨r.1, by rw [mod, hloop, ← hB'], hval⟩

end Mod

end NasFirmware.BigInt
