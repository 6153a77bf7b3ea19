import NasFirmware.BigInt.Reduce

/-!
# Modular exponentiation

* **`expMod_spec`**: the result of `Exp_Mod`.
-/

namespace NasFirmware.BigInt

open Limbs CLoop

/-- No leading zeros, but for the number 0. -/
structure ExpNorm (z : BI) : Prop where
  pos : 0 < z.length
  top : z.length ≠ 1 → z.value (z.length - 1) ≠ 0

section Exponent

variable {z : BI}

theorem limbVal_one_add (v : ℕ → UInt32) {n : ℕ} (hn : 0 < n) :
    limbVal v n = (v 0).toNat + 2 ^ 32 * limbVal (fun i => v (1 + i)) (n - 1) := by
  refine (val_split (2 ^ 32) (fun i => (v i).toNat) (show 1 ≤ n from hn)).trans ?_
  rw [val_succ, val_zero, pow_zero, pow_one, Nat.zero_add, Nat.mul_one]
  rfl

theorem ExpNorm.ne_zero_iff (h : ExpNorm z) : (z.length ≠ 1 ∨ z.value 0 ≠ 0) ↔ z.val ≠ 0 := by
  have hlow := limbVal_one_add z.value h.pos
  rw [← BI.val_eq] at hlow
  have hinj : z.value 0 ≠ 0 ↔ (z.value 0).toNat ≠ 0 :=
    not_congr ⟨fun h => by rw [h]; rfl, fun h => UInt32.toNat_inj.mp h⟩
  by_cases hlen : z.length = 1
  · rw [hlen, Nat.sub_self, limbVal_zero, Nat.mul_zero, Nat.add_zero] at hlow
    simp only [hlen, ne_eq, not_true_eq_false, false_or]
    rw [← ne_eq, hinj, hlow]
  · refine iff_of_true (Or.inl hlen) (Nat.pos_iff_ne_zero.mp ?_)
    exact (Nat.pow_pos (Nat.two_pow_pos 32)).trans_le (limbVal_ge h.pos (h.top hlen))

theorem ExpNorm.odd_iff (h : ExpNorm z) : z.value 0 &&& 1 ≠ 0 ↔ z.val % 2 = 1 := by
  have hlow := limbVal_one_add z.value h.pos
  rw [← BI.val_eq] at hlow
  have hand : (z.value 0 &&& 1).toNat = (z.value 0).toNat % 2 := by
    exact Nat.and_one_is_mod _
  have hne : z.value 0 &&& 1 ≠ 0 ↔ (z.value 0 &&& 1).toNat ≠ 0 :=
    not_congr ⟨fun h => by rw [h]; rfl, fun h => UInt32.toNat_inj.mp h⟩
  rw [hne, hand, hlow]
  omega

theorem subP_one (h : ExpNorm z) (hodd : z.val % 2 = 1) :
    ∃ z', subP z 1 = some z' ∧ ExpNorm z' ∧ z'.val = z.val - 1 := by
  have hlow := limbVal_one_add z.value h.pos
  rw [← BI.val_eq] at hlow
  have hone : (1 : UInt32).toNat = 1 := rfl
  have hle : (1 : UInt32) ≤ z.value 0 := by
    rw [UInt32.le_iff_toNat_le, hone]
    omega
  refine ⟨_, if_pos hle, ⟨h.pos, fun hlen => ?_⟩, ?_⟩
  · have hpos := h.pos
    have hindex : z.length - 1 ≠ 0 := by
      have : z.length ≠ 1 := hlen
      omega
    show Function.update z.value 0 (z.value 0 - 1) (z.length - 1) ≠ 0
    rw [Function.update_of_ne hindex]
    exact h.top hlen
  · have hsub : (z.value 0 - 1).toNat = (z.value 0).toNat - 1 := UInt32.toNat_sub_of_le _ _ hle
    have hrest : limbVal (fun i => Function.update z.value 0 (z.value 0 - 1) (1 + i)) (z.length - 1) =
        limbVal (fun i => z.value (1 + i)) (z.length - 1) :=
      limbVal_congr fun i _ => Function.update_of_ne (by omega) _ _
    refine (limbVal_one_add (Function.update z.value 0 (z.value 0 - 1)) h.pos).trans ?_
    rw [hrest, Function.update_self, hsub, hlow]
    omega

theorem divP_two (h : ExpNorm z) : ExpNorm (divP z 2) ∧ (divP z 2).val = z.val / 2 := by
  unfold divP
  split_ifs with hlen
  · have hval : z.val = (z.value 0).toNat := by
      rw [BI.val_eq, hlen, limbVal_succ, limbVal_zero]
      simp
    refine ⟨⟨h.pos, fun hne => absurd hlen hne⟩, ?_⟩
    show limbVal (Function.update z.value 0 _) z.length = _
    have hlt := (z.value 0).toNat_lt
    rw [hlen, limbVal_update_top, limbVal_zero, UInt32.toNat_ofNat', hval, pow_zero, Nat.mul_one,
      Nat.zero_add, Nat.mod_eq_of_lt (by omega)]
  · have hpos := h.pos
    have hbig := limbVal_ge h.pos (h.top hlen)
    have hval := (divLimbs_spec Nat.two_pos z.length z.value Nat.two_pos).2
    rw [Nat.zero_mul, Nat.zero_add, ← BI.val_eq] at hval
    dsimp only
    set v := (divLimbs 2 z.length (z.value, 0)).1
    by_cases htop : v (z.length - 1) = 0
    · rw [if_pos htop]
      have hshort : limbVal v (z.length - 1) = z.val / 2 := by
        rw [← hval]
        refine (limbVal_of_zero_above (Nat.sub_le _ 1) fun i hi hlt => ?_).symm
        rw [show i = z.length - 1 by omega]
        exact htop
      refine ⟨⟨show 0 < z.length - 1 by omega, fun _ => ?_⟩, hshort⟩
      show v (z.length - 1 - 1) ≠ 0
      apply top_ne_zero (by omega)
      have hpow : (2 ^ 32) ^ (z.length - 1) = 2 ^ 32 * (2 ^ 32) ^ (z.length - 1 - 1) := by
        rw [← pow_succ', show z.length - 1 - 1 + 1 = z.length - 1 by omega]
      rw [← BI.val_eq, hpow] at hbig
      omega
    · rw [if_neg htop]
      exact ⟨⟨hpos, fun _ => htop⟩, hval⟩

end Exponent

section MulMod

variable {x y M : BI}

/-- A product and its remainder. A product 0 has a short factor 0, and is left as it is. -/
theorem mulMod_spec {L : ℕ} (hL : 1 ≤ L) (hLM : L ≤ M.length) (hM : Norm 64 M)
    (hx : 0 < x.val → Norm 64 x) (hy : 0 < y.val → Norm 64 y) (hy0 : y.val = 0 → y.length ≤ 1)
    (hx0 : x.val = 0 → y.val = 0) (hshort : y.val = 0 → x.length ≤ L)
    (hok : ReduceOk M.val (x.val * y.val)) :
    ∃ r, mod (mul x y) M = some (r, M) ∧ r.val = x.val * y.val % M.val ∧ (0 < r.val → Norm 64 r) ∧
      (r.val = 0 → r.length ≤ L) := by
  have hMle := hM.le
  rcases Nat.eq_zero_or_pos y.val with h0 | hpos
  · have hlen : x.length + y.length < maxLen := by
      have h3 : maxLen = 129 := rfl
      omega
    have hval := (mul_val hlen).1
    have hlength := mul_length_zero (hy0 h0) h0 hlen
    have hbound : (mul x y).length ≤ L := hlength.trans (max_le hL (hshort h0))
    rw [h0, Nat.mul_zero] at hval ⊢
    exact ⟨mul x y, mod_small hM hval (hbound.trans hLM), by rw [hval, Nat.zero_mod],
      fun h => by omega, fun _ => hbound⟩
  · have hxpos : 0 < x.val := Nat.pos_of_ne_zero fun h => by
      omega
    have hxn := hx hxpos
    have hyn := hy hpos
    have hlen : x.length + y.length < maxLen := by
      have h1 := hxn.le
      have h2 := hyn.le
      have h3 : maxLen = 129 := rfl
      omega
    have hval := (mul_val hlen).1
    obtain ⟨r, hmod, hr, hnorm, hzero⟩ := mod_spec (mul_norm hxn hyn hlen) hM
      (by have h3 : maxLen = 129 := rfl; omega) (by rwa [hval])
    rw [hval] at hr
    refine ⟨r, hmod, hr, fun h => ?_, fun h => (hzero h).le.trans (Nat.zero_le L)⟩
    have hn := hnorm h
    have hlt : r.val < M.val := by
      rw [hr]
      exact Nat.mod_lt _ hM.val_pos
    exact ⟨hn.sign, hn.pos, (length_le_of_val_le hn hlt.le).trans hMle, hn.top⟩

end MulMod

/-! ## Square and multiply -/

/-- No reduction in the computation of `x * y ^ z` modulo `m` borrows from a zero limb. -/
inductive ExpOk (m : ℕ) : ℕ → ℕ → ℕ → Prop
  | zero {x y : ℕ} : ExpOk m x y 0
  | odd {x y z : ℕ} (hz : z % 2 = 1) (hreduce : ReduceOk m (x * y))
      (hrest : ExpOk m (x * y % m) y (z - 1)) : ExpOk m x y z
  | even {x y z : ℕ} (hz : z % 2 = 0) (hne : z ≠ 0) (hreduce : ReduceOk m (y * y))
      (hrest : ExpOk m x (y * y % m) (z / 2)) : ExpOk m x y z

/-- The variables hold powers of `b`, the base. If `x` is 0, so is `y` when they are multiplied next. -/
def PowerInv (b e m x y z : ℕ) : Prop :=
  ∃ a t, x = b ^ a % m ∧ y % m = b ^ t % m ∧ a + t * z = e ∧ a < 2 * t ∧ (z % 2 = 1 → a < t) ∧
    (t = 1 ∨ y < m)

section PowerInv

variable {b e m x y z : ℕ}

theorem PowerInv.start (hm : 2 ≤ m) : PowerInv b e m 1 b e := by
  refine ⟨0, 1, ?_, by rw [pow_one], by omega, by omega, fun _ => Nat.one_pos, Or.inl rfl⟩
  rw [pow_zero, Nat.mod_eq_of_lt hm]

variable (h : PowerInv b e m x y z)

include h

theorem PowerInv.odd (hz : z % 2 = 1) :
    PowerInv b e m (x * y % m) y (z - 1) := by
  obtain ⟨a, t, hx, hy, he, -, hlt, hcase⟩ := h
  refine ⟨a + t, t, ?_, hy, ?_, by omega, fun h => by omega, hcase⟩
  · rw [pow_add, Nat.mul_mod, hx, Nat.mod_mod, hy, ← Nat.mul_mod]
  · obtain ⟨n, rfl⟩ : ∃ n, z = n + 1 := ⟨z - 1, by omega⟩
    rw [Nat.add_sub_cancel, ← he]
    ring

theorem PowerInv.even (hz : z % 2 = 0) (hm : 0 < m) :
    PowerInv b e m x (y * y % m) (z / 2) := by
  obtain ⟨a, t, hx, hy, he, hlt, -, -⟩ := h
  refine ⟨a, 2 * t, hx, ?_, ?_, by omega, fun _ => hlt, Or.inr (Nat.mod_lt _ hm)⟩
  · rw [Nat.mod_mod, Nat.mul_mod, hy, ← Nat.mul_mod, ← pow_add, two_mul]
  · obtain ⟨n, rfl⟩ : ∃ n, z = 2 * n := ⟨z / 2, by omega⟩
    rw [Nat.mul_div_cancel_left n Nat.two_pos, ← he]
    ring

theorem PowerInv.zero_of_zero (hm : 2 ≤ m) (hz : z % 2 = 1) (hx : x = 0) :
    y = 0 := by
  obtain ⟨a, t, hxa, hy, -, -, hlt, hcase⟩ := h
  have hlt := hlt hz
  have hdvd : m ∣ b ^ a := Nat.dvd_of_mod_eq_zero (hxa.symm.trans hx)
  rcases hcase with rfl | hsmall
  · -- at the start `x` is 1
    rw [Nat.lt_one_iff.mp hlt, pow_zero] at hdvd
    have := Nat.le_of_dvd Nat.one_pos hdvd
    omega
  · rw [← Nat.mod_eq_of_lt hsmall, hy]
    exact Nat.mod_eq_zero_of_dvd (hdvd.trans (pow_dvd_pow b hlt.le))

end PowerInv

/-- The invariant of the loop of `Exp_Mod`. A `y` that is 0 has at most one limb. -/
structure ExpInv (b e : ℕ) (m : BI) (s : Power) : Prop where
  modulus : s.m = m
  exponent : ExpNorm s.z
  ok : ExpOk m.val s.x.val s.y.val s.z.val
  x_norm : 0 < s.x.val → Norm 64 s.x
  x_length : s.x.length ≤ m.length
  y_norm : 0 < s.y.val → Norm 64 s.y
  y_short : s.y.val = 0 → s.y.length ≤ 1
  powers : PowerInv b e m.val s.x.val s.y.val s.z.val

section Loop

variable {b e : ℕ} {m : BI} {s : Power}

theorem ExpInv.odd (h : ExpInv b e m s) (hm : Norm 64 m) (h2 : 2 ≤ m.val) (hodd : s.z.val % 2 = 1)
    (hreduce : ReduceOk m.val (s.x.val * s.y.val))
    (hrest : ExpOk m.val (s.x.val * s.y.val % m.val) s.y.val (s.z.val - 1)) :
    ∃ s', expPass s = some (.next s') ∧ ExpInv b e m s' ∧ s'.z.val < s.z.val := by
  obtain ⟨z, hsub, hz, hval⟩ := subP_one h.exponent hodd
  obtain ⟨r, hmod, hr, hrn, hr0⟩ := mulMod_spec (L := m.length) hm.pos le_rfl hm h.x_norm h.y_norm h.y_short
    (h.powers.zero_of_zero h2 hodd) (fun _ => h.x_length) hreduce
  have hrlen : r.length ≤ m.length := by
    rcases Nat.eq_zero_or_pos r.val with h0 | h0
    · exact hr0 h0
    · refine length_le_of_val_le (hrn h0) ?_
      rw [hr]
      exact (Nat.mod_lt _ hm.val_pos).le
  refine ⟨⟨r, s.y, z, m⟩, ?_, ⟨rfl, hz, ?_, hrn, hrlen, h.y_norm, h.y_short, ?_⟩, ?_⟩
  · unfold expPass
    rw [if_pos (h.exponent.ne_zero_iff.mpr (by omega)), if_pos (h.exponent.odd_iff.mpr hodd), hsub,
      h.modulus, hmod]
    rfl
  · rw [hval, hr]
    exact hrest
  · rw [hval, hr]
    exact h.powers.odd hodd
  · show z.val < s.z.val
    omega

theorem ExpInv.even (h : ExpInv b e m s) (hm : Norm 64 m) (heven : s.z.val % 2 = 0) (hne : s.z.val ≠ 0)
    (hreduce : ReduceOk m.val (s.y.val * s.y.val))
    (hrest : ExpOk m.val s.x.val (s.y.val * s.y.val % m.val) (s.z.val / 2)) :
    ∃ s', expPass s = some (.next s') ∧ ExpInv b e m s' ∧ s'.z.val < s.z.val := by
  obtain ⟨hz, hval⟩ := divP_two h.exponent
  obtain ⟨r, hmod, hr, hrn, hr0⟩ :=
    mulMod_spec le_rfl hm.pos hm h.y_norm h.y_norm h.y_short id h.y_short hreduce
  refine ⟨⟨s.x, r, divP s.z 2, m⟩, ?_, ⟨rfl, hz, ?_, h.x_norm, h.x_length, hrn, hr0, ?_⟩, ?_⟩
  · unfold expPass
    rw [if_pos (h.exponent.ne_zero_iff.mpr hne), if_neg fun hodd => ?_, h.modulus, hmod]
    · rfl
    · have := h.exponent.odd_iff.mp hodd
      omega
  · rw [hval, hr]
    exact hrest
  · rw [hval, hr]
    exact h.powers.even heven hm.val_pos
  · show (divP s.z 2).val < s.z.val
    omega

theorem ExpInv.done (h : ExpInv b e m s) (hzero : s.z.val = 0) :
    expPass s = some (.done s.x) ∧ s.x.val = b ^ e % m.val ∧ (0 < s.x.val → Norm 64 s.x) := by
  refine ⟨?_, ?_, h.x_norm⟩
  · unfold expPass
    rw [if_neg (mt h.exponent.ne_zero_iff.mp (not_not.mpr hzero))]
  · obtain ⟨a, t, hxa, -, he, -⟩ := h.powers
    rw [hzero, Nat.mul_zero, Nat.add_zero] at he
    rw [hxa, he]

end Loop

/-- The power, without leading zeros unless it is 0, if no reduction on the way borrows from a zero limb. -/
theorem expMod_val {base exp m : BI} (hbase : Norm 64 base) (hexp : Norm 64 exp) (hm : Norm 64 m)
    (h2 : 2 ≤ m.val) (hok : ExpOk m.val 1 base.val exp.val) :
    ∃ r, expMod base exp m = some r ∧ r.val = base.val ^ exp.val % m.val ∧ (0 < r.val → Norm 64 r) := by
  have hone := moveP_norm Nat.one_pos (show 1 < 2 ^ 32 by decide)
  -- the exponent is the variant
  refine loop_of_variant (fun k s => ExpInv base.val exp.val m s ∧ s.z.val = k) _ (fun k s hs => ?_)
    ⟨?_, rfl⟩ (Nat.lt_succ_self exp.val)
  · obtain ⟨h, rfl⟩ := hs
    generalize hz : s.z.val = z
    have hok := h.ok
    rw [hz] at hok
    cases hok with
    | zero => exact Or.inr ⟨s.x, h.done hz⟩
    | odd hodd hreduce hrest =>
      subst hz
      have ⟨s', hpass, hinv, hlt⟩ := h.odd hm h2 hodd hreduce hrest
      exact Or.inl ⟨_, s', hpass, ⟨hinv, rfl⟩, hlt⟩
    | even heven hne hreduce hrest =>
      subst hz
      have ⟨s', hpass, hinv, hlt⟩ := h.even hm heven hne hreduce hrest
      exact Or.inl ⟨_, s', hpass, ⟨hinv, rfl⟩, hlt⟩
  · refine ⟨rfl, ⟨hexp.pos, fun _ => hexp.top⟩, ?_, fun _ => hone.1.mono (by decide), ?_, fun _ => hbase,
      fun h => absurd h hbase.val_pos.ne', ?_⟩
    · exact hok
    · exact hm.pos
    · exact PowerInv.start h2

/-- **The result of `Exp_Mod`**, if no reduction on the way borrows from a zero limb. -/
theorem expMod_spec {base exp m : BI} (hbase : Norm 64 base) (hexp : Norm 64 exp) (hm : Norm 64 m)
    (h2 : 2 ≤ m.val) :
    (ExpOk m.val 1 base.val exp.val → ∃ r, expMod base exp m = some r ∧
      r.val = base.val ^ exp.val % m.val ∧ (r.val ≠ 0 → r.sign = 1)) ∧
    ∀ A B, Norm 128 A → Norm 128 B → Padded B → B.val < A.val →
      ((sub A B).1.val = A.val - B.val ↔ NoLostBorrow A.val B.val) := by
  refine ⟨fun hok => ?_, fun A B hA hB hpad hlt => sub_val_iff hA hB (fun k hk _ => hpad k hk) hlt⟩
  obtain ⟨r, hr, hval, hnorm⟩ := expMod_val hbase hexp hm h2 hok
  exact ⟨r, hr, hval, fun hne => (hnorm (Nat.pos_of_ne_zero hne)).sign⟩

def ofLimbs (l : List ℕ) : BI := ⟨1, l.length, fun i => UInt32.ofNat (l.getD i 0)⟩

theorem noLostBorrow_of_lt {a b : ℕ} (ha : a < 2 ^ 32) (hb : b ≤ a) : NoLostBorrow a b := by
  intro i _
  cases i with
  | zero => rw [pow_zero, Nat.mod_one, Nat.mod_one]
  | succ i =>
    have hlt : a < (2 ^ 32) ^ (i + 1) := ha.trans_le (Nat.le_self_pow (by omega) _)
    rw [Nat.mod_eq_of_lt hlt, Nat.mod_eq_of_lt (hb.trans_lt hlt)]
    exact hb

theorem expMod_spec_small : ∃ r, expMod (ofLimbs [3]) (ofLimbs [2]) (ofLimbs [5]) = some r ∧ r.val = 4 := by
  have h3 : (ofLimbs [3]).val = 3 := by decide +kernel
  have h2 : (ofLimbs [2]).val = 2 := by decide +kernel
  have h5 : (ofLimbs [5]).val = 5 := by decide +kernel
  have hmul : multiple (2 ^ 32) (3 * 3) 5 = 5 := by
    simp [multiple, estimate, Limbs.top, Limbs.size, Nat.log_of_lt]
  have hok : ExpOk 5 1 3 2 := by
    refine .even rfl (by decide) (.step (by decide) ?_ (.done ?_)) (.odd rfl (.done (by decide)) .zero)
    · exact noLostBorrow_of_lt (by decide) (by decide)
    · decide
  have hbase : Norm 64 (ofLimbs [3]) := ⟨rfl, by decide, by decide, by decide⟩
  have hexp : Norm 64 (ofLimbs [2]) := ⟨rfl, by decide, by decide, by decide⟩
  have hm : Norm 64 (ofLimbs [5]) := ⟨rfl, by decide, by decide, by decide⟩
  have hspec := expMod_spec hbase hexp hm (by rw [h5]; decide)
  obtain ⟨r, hr, hrval, -⟩ := hspec.1 hok
  exact ⟨r, hr, hrval⟩

/-- The remainder of `2 ^ 64` by `0xfffffffe00000001`: the borrow for the first limb is lost at the second, which is
0. -/
theorem expMod_wrong : Norm 64 (ofLimbs [0, 0, 1]) ∧ Norm 64 (ofLimbs [1]) ∧
    Norm 64 (ofLimbs [1, 0xfffffffe]) ∧ 2 ≤ (ofLimbs [1, 0xfffffffe]).val ∧
    (expMod (ofLimbs [0, 0, 1]) (ofLimbs [1]) (ofLimbs [1, 0xfffffffe])).map BI.val = some 0x3fffffffe ∧
    (ofLimbs [0, 0, 1]).val ^ (ofLimbs [1]).val % (ofLimbs [1, 0xfffffffe]).val = 0x1ffffffff := by
  refine ⟨⟨rfl, by decide, by decide, by decide⟩, ⟨rfl, by decide, by decide, by decide⟩,
    ⟨rfl, by decide, by decide, by decide⟩, by decide +kernel, by decide +kernel, by decide +kernel⟩

end NasFirmware.BigInt
