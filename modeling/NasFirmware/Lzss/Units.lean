import NasFirmware.Lib.Window
import NasFirmware.Lzss.Model

/-!
# The bytes of a unit of code

The compressed file is a sequence of groups of at most eight units. A group is a byte of flags, one
bit for each unit (set for a plain byte), and then the bytes of the units: one for a plain byte, two
for a position of 12 bits and a length of 4 bits.

* **`copyBytes_pos`**, **`copyBytes_len`**: `Decode` reads back position and length.
-/

namespace NasFirmware.Lzss

open Function Window

def isLit : CodeUnit UInt8 → Bool
  | .lit _ => true
  | .copy _ _ => false

def unitBytes : CodeUnit UInt8 → List UInt8
  | .lit c => [c]
  | .copy src len => [UInt8.ofNat (src % N),
      UInt8.ofNat (((src % N) >>> 4 &&& 0xf0) ||| (len - (THRESHOLD + 1)))]

/-- The flags of a group: bit `k` is set if unit `k` is a plain byte. -/
def flagNat : List (CodeUnit UInt8) → ℕ
  | [] => 0
  | u :: g => Nat.bit (isLit u) (flagNat g)

def groupBytes (g : List (CodeUnit UInt8)) : List UInt8 :=
  UInt8.ofNat (flagNat g) :: g.flatMap unitBytes

/-- A reference `Encode` makes is of 3 to 18 bytes. -/
def ValidUnit : CodeUnit UInt8 → Prop
  | .lit _ => True
  | .copy _ len => THRESHOLD < len ∧ len ≤ F

theorem unitBytes_length_pos (u : CodeUnit UInt8) : 0 < (unitBytes u).length := by
  cases u <;> simp [unitBytes]

theorem testBit_flagNat (g : List (CodeUnit UInt8)) (k : ℕ) :
    (flagNat g).testBit k = g[k]?.any isLit := by
  induction g generalizing k with
  | nil => simp [flagNat]
  | cons u g ih =>
    cases k with
    | zero => simp [flagNat]
    | succ k => simp [flagNat, Nat.testBit_bit_succ, ih]

theorem flagNat_lt (g : List (CodeUnit UInt8)) : flagNat g < 2 ^ g.length := by
  refine Nat.lt_pow_two_of_testBit _ fun k hk => ?_
  rw [testBit_flagNat, List.getElem?_eq_none hk, Option.any_none]

theorem toNat_flagNat {g : List (CodeUnit UInt8)} (hg : g.length ≤ 8) :
    (UInt8.ofNat (flagNat g)).toNat = flagNat g := by
  have h1 := flagNat_lt g
  have h2 : 2 ^ g.length ≤ 2 ^ 8 := Nat.pow_le_pow_right (by omega) hg
  exact Nat.mod_eq_of_lt (by omega)

theorem flagNat_snoc_lit (g : List (CodeUnit UInt8)) (c : UInt8) :
    flagNat (g ++ [.lit c]) = flagNat g ||| 2 ^ g.length := by
  induction g with
  | nil => rfl
  | cons u g ih =>
    rw [List.cons_append, flagNat, ih, flagNat, List.length_cons]
    refine Nat.eq_of_testBit_eq fun k => ?_
    cases k with
    | zero => simp
    | succ k => simp [Nat.testBit_bit_succ, Nat.testBit_two_pow]

theorem flagNat_snoc_copy (g : List (CodeUnit UInt8)) (src len : ℕ) :
    flagNat (g ++ [.copy src len]) = flagNat g := by
  induction g with
  | nil => rfl
  | cons u g ih => rw [List.cons_append, flagNat, ih, flagNat]

/-! ## Filling `code_buf` -/

section CodeBuf

variable {codeBuf : ℕ → UInt8} {n : ℕ} {g : List (CodeUnit UInt8)}

theorem codeBytes_succ (codeBuf : ℕ → UInt8) (n : ℕ) :
    codeBytes codeBuf (n + 1) = codeBytes codeBuf n ++ [codeBuf n] := by
  simp [codeBytes, List.range_succ]

theorem codeBytes_update_ge {i : ℕ} (hi : n ≤ i) (v : UInt8) :
    codeBytes (update codeBuf i v) n = codeBytes codeBuf n := by
  refine List.map_congr_left fun k hk => update_of_ne ?_ ..
  have := List.mem_range.mp hk
  omega

theorem codeBytes_update_zero (hn : 0 < n) (v : UInt8) :
    codeBytes (update codeBuf 0 v) n = v :: (codeBytes codeBuf n).tail := by
  obtain ⟨m, rfl⟩ : ∃ m, n = m + 1 := ⟨n - 1, by omega⟩
  simp only [codeBytes, List.range_succ_eq_map, List.map_cons, update_self, List.map_map,
    List.tail_cons]
  congr 1

variable (h : codeBytes codeBuf n = groupBytes g)

include h

theorem ptr_pos : 0 < n := by
  have := congrArg List.length h
  simp only [codeBytes, List.length_map, List.length_range, groupBytes, List.length_cons] at this
  omega

theorem codeBuf_zero :
    codeBuf 0 = UInt8.ofNat (flagNat g) := by
  obtain ⟨m, rfl⟩ : ∃ m, n = m + 1 := ⟨n - 1, by have := ptr_pos h; omega⟩
  simp only [codeBytes, List.range_succ_eq_map, List.map_cons, groupBytes, List.cons.injEq] at h
  exact h.1

theorem codeBytes_lit (c : UInt8) :
    codeBytes (update (update codeBuf 0 (codeBuf 0 ||| UInt8.ofNat (2 ^ g.length))) n c) (n + 1) =
      groupBytes (g ++ [.lit c]) := by
  rw [codeBytes_succ, update_self, codeBytes_update_ge le_rfl, codeBytes_update_zero (ptr_pos h), h,
    codeBuf_zero h]
  simp [groupBytes, flagNat_snoc_lit, UInt8.ofNat_or, List.tail_cons, List.flatMap_nil, List.append_nil, unitBytes, List.cons_append]

theorem codeBytes_copy
    {src len : ℕ} {v w : UInt8} (hvw : unitBytes (.copy src len) = [v, w]) :
    codeBytes (update (update codeBuf n v) (n + 1) w) (n + 2) = groupBytes (g ++ [.copy src len]) := by
  rw [codeBytes_succ, update_self, codeBytes_update_ge le_rfl, codeBytes_succ, update_self,
    codeBytes_update_ge le_rfl, h]
  simp [groupBytes, flagNat_snoc_copy, List.flatMap_nil, List.append_nil, hvw, List.cons_append, List.append_assoc, List.nil_append]

end CodeBuf

theorem testBit_0xf0 (k : ℕ) : (0xf0 : ℕ).testBit k = (decide (4 ≤ k) && decide (k < 8)) := by
  rw [show (0xf0 : ℕ) = 2 ^ 4 * (2 ^ 4 - 1) by norm_num, Nat.testBit_two_pow_mul,
    Nat.testBit_two_pow_sub_one]
  grind

variable {m k p : ℕ} {u : CodeUnit UInt8} {us : List (CodeUnit UInt8)}

theorem testBit_of_lt_16 (hm : m < 16) (hk : ¬ k < 4) : m.testBit k = false :=
  Nat.testBit_lt_two_pow (lt_of_lt_of_le hm (Nat.pow_le_pow_right (n := 2) (by omega) (not_lt.mp hk)))

/-- The bits of the second byte of a reference: the length below, the top of the position above. -/
theorem testBit_high (hm : m < 16) :
    ((p >>> 4 &&& 0xf0) ||| m).testBit k =
      if k < 4 then m.testBit k else (decide (k < 8) && p.testBit (k + 4)) := by
  rw [Nat.testBit_or, Nat.testBit_and, Nat.testBit_shiftRight, testBit_0xf0]
  split_ifs with hk
  · simp [show ¬ 4 ≤ k by omega]
  · rw [testBit_of_lt_16 hm hk]
    simp [show 4 ≤ k by omega, Nat.add_comm, Bool.and_comm]

theorem toNat_high (hm : m < 16) :
    (UInt8.ofNat ((p >>> 4 &&& 0xf0) ||| m)).toNat = (p >>> 4 &&& 0xf0) ||| m := by
  refine Nat.mod_eq_of_lt (Nat.or_lt_two_pow (n := 8) ?_ (by omega))
  exact lt_of_le_of_lt Nat.and_le_right (by decide)

theorem copyBytes_len (hm : m < 16) :
    (UInt8.ofNat ((p >>> 4 &&& 0xf0) ||| m)).toNat &&& 0x0f = m := by
  rw [toNat_high hm]
  refine Nat.eq_of_testBit_eq fun k => ?_
  rw [Nat.testBit_and, testBit_high hm, show (0x0f : ℕ) = 2 ^ 4 - 1 by norm_num,
    Nat.testBit_two_pow_sub_one]
  split_ifs with hk
  · simp [hk]
  · simp [hk, testBit_of_lt_16 hm hk]

theorem copyBytes_pos (hp : p < 4096) (hm : m < 16) :
    (UInt8.ofNat p).toNat |||
      (((UInt8.ofNat ((p >>> 4 &&& 0xf0) ||| m)).toNat &&& 0xf0) <<< 4) = p := by
  rw [toNat_high hm, UInt8.toNat_ofNat']
  refine Nat.eq_of_testBit_eq fun k => ?_
  rw [Nat.testBit_or, Nat.testBit_shiftLeft, Nat.testBit_and, testBit_high hm, testBit_0xf0,
    Nat.testBit_mod_two_pow]
  rcases Nat.lt_or_ge k 12 with h12 | h12
  · rcases Nat.lt_or_ge k 8 with h8 | h8
    · simp [h8, show ¬ 4 ≤ k - 4 by omega]
    · simp [show ¬ k < 8 by omega, show 4 ≤ k by omega, show 4 ≤ k - 4 by omega, show k - 4 < 8 by omega]
  · rw [Nat.testBit_lt_two_pow (lt_of_lt_of_le hp (Nat.pow_le_pow_right (n := 2) (by omega) h12))]
    simp [show ¬ k - 4 < 8 by omega]

/-- In the middle of a group: the units `us` are still to come, and the register says so. Bits 9 and up count the
units left. -/
def InGroup (flags : ℕ) (us : List (CodeUnit UInt8)) : Prop :=
  ∀ k u, us[k]? = some u → flags.testBit (k + 1) = isLit u ∧ flags.testBit (k + 9) = true

theorem InGroup.shift {flags : ℕ}
    (h : InGroup flags (u :: us)) : InGroup (flags >>> 1) us := by
  intro k v hv
  rw [Nat.testBit_shiftRight, Nat.testBit_shiftRight, Nat.add_comm 1, Nat.add_comm 1]
  exact h (k + 1) v (by simpa using hv)

theorem testBit_0xff00 (k : ℕ) : (0xff00 : ℕ).testBit k = (decide (8 ≤ k) && decide (k < 16)) := by
  rw [show (0xff00 : ℕ) = 2 ^ 8 * (2 ^ 8 - 1) by norm_num, Nat.testBit_two_pow_mul,
    Nat.testBit_two_pow_sub_one]
  grind

theorem testBit_flags (g : List (CodeUnit UInt8)) (k : ℕ) :
    (flagNat g ||| 0xff00).testBit k = (g[k]?.any isLit || (decide (8 ≤ k) && decide (k < 16))) := by
  rw [Nat.testBit_or, testBit_flagNat, testBit_0xff00]

theorem inGroup_flags (h : us.length < 8) :
    InGroup (flagNat (u :: us) ||| 0xff00) us := by
  intro k v hv
  have hk : k < us.length := (List.getElem?_eq_some_iff.mp hv).1
  rw [testBit_flags, testBit_flags]
  simp only [List.getElem?_cons_succ, hv, Option.any_some]
  exact ⟨by simp; omega, by simp; omega⟩

end NasFirmware.Lzss
