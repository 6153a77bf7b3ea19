import NasFirmware.BigInt.Power
import NasFirmware.Lib.Mem

/-!
# Signatures

`Verify_SHA256_hash` of `mcp.c` compares the hash of an image with the one recovered from a signature. The
recovered number is written as bytes and `do_RSA` then **bypasses** the PKCS#1 block format: it skips what
looks like padding and what looks like an algorithm identifier, and demands neither.
-/

namespace NasFirmware.BigInt

open ByteMem CLoop Limbs

/-- `InPutFromAddr`, for a length that is a multiple of 4: the limbs are words in memory order. -/
def inPutFromAddr (m : Mem) (addr len : ℕ) : Option BI :=
  if maxLen < len / 4 then none
  else some ⟨1, len / 4, fun i => if i < len / 4 then UInt32.ofNat (load32 m (addr + 4 * i)) else 0⟩

def limbBytes (v : UInt32) : List UInt8 :=
  [UInt8.ofNat (v.toNat / 2 ^ 24), UInt8.ofNat (v.toNat / 2 ^ 16), UInt8.ofNat (v.toNat / 2 ^ 8),
    UInt8.ofNat v.toNat]

def limbsDown (v : ℕ → UInt32) : ℕ → List UInt8
  | 0 => []
  | n + 1 => limbBytes (v n) ++ limbsDown v n

def outPutToAddr (A : BI) (m : Mem) (addr : ℕ) (reverse : Bool) : Mem :=
  if reverse then write m addr (limbsDown A.value A.length)
  else write m addr ((List.range A.length).flatMap fun i => store32 (A.value i).toNat)

/-! ## The padding -/

def algoId : List UInt8 :=
  [0x30, 0x31, 0x30, 0x0d, 0x06, 0x09, 0x60, 0x86, 0x48, 0x01, 0x65, 0x03, 0x04, 0x02, 0x01, 0x05, 0x00,
    0x04, 0x20]

section Padding

variable (m : Mem)

def skipFf : ℕ → ℕ → Option ℕ
  | 0, _ => none
  | n + 1, ptr => if m ptr = 0xff then skipFf n (ptr + 1) else some ptr

/-- The loop over the identifier: the place behind it, if all of it is there. -/
def skipAlgo : List UInt8 → ℕ → Option ℕ
  | [], ptr => some ptr
  | b :: bs, ptr => if m ptr = b then skipAlgo bs (ptr + 1) else none

/-- The place where `do_RSA` takes the hash to be. The bytes `0xff` end in the address space or the loop does not. -/
def bypassPadding (addr : ℕ) : Option ℕ :=
  if m addr = 0 ∧ m (addr + 1) = 1 then
    (skipFf m (2 ^ 32) (addr + 2)).map fun ptr =>
      let tmp := if m ptr = 0 then ptr + 1 else ptr
      (skipAlgo m algoId tmp).getD tmp
  else some addr

/-- What is skipped: nothing, or `00 01`, all bytes `ff` that follow, a `00` behind them, and the identifier behind
that. -/
inductive Skipped (addr : ℕ) : List UInt8 → Prop
  | bare (h : ¬ (m addr = 0 ∧ m (addr + 1) = 1)) : Skipped addr []
  | padded {k : ℕ} {zero ident : List UInt8} (hk : k < 2 ^ 32)
      (hpad : read m addr (2 + k) = 0 :: 1 :: List.replicate k 0xff) (hend : m (addr + 2 + k) ≠ 0xff)
      (hzero : zero = if m (addr + 2 + k) = 0 then [0] else [])
      (hident : ident = if read m (addr + 2 + k + zero.length) 19 = algoId then algoId else []) :
      Skipped addr (0 :: 1 :: List.replicate k 0xff ++ zero ++ ident)

variable {m} {ptr p addr : ℕ}

theorem skipFf_iff {n : ℕ} :
    skipFf m n ptr = some p ↔
      ∃ k < n, p = ptr + k ∧ read m ptr k = List.replicate k 0xff ∧ m (ptr + k) ≠ 0xff := by
  induction n generalizing ptr with
  | zero =>
    constructor
    · intro h
      cases h
    · rintro ⟨k, hk, -⟩
      exact absurd hk (Nat.not_lt_zero k)
  | succ n ih =>
    rw [skipFf]
    by_cases hff : m ptr = 0xff
    · rw [if_pos hff, ih]
      constructor
      · rintro ⟨k, hk, rfl, hread, hne⟩
        refine ⟨k + 1, Nat.succ_lt_succ hk, by omega, ?_, ?_⟩
        · rw [read_succ, hff, hread, List.replicate_succ]
        · rwa [show ptr + (k + 1) = ptr + 1 + k by omega]
      · rintro ⟨k, hk, rfl, hread, hne⟩
        cases k with
        | zero => exact absurd hff hne
        | succ k =>
          rw [read_succ, List.replicate_succ] at hread
          refine ⟨k, Nat.lt_of_succ_lt_succ hk, by omega, (List.cons.inj hread).2, ?_⟩
          rwa [show ptr + 1 + k = ptr + (k + 1) by omega]
    · rw [if_neg hff]
      constructor
      · intro h
        exact ⟨0, Nat.succ_pos n, (Option.some.inj h).symm, rfl, hff⟩
      · rintro ⟨k, -, rfl, hread, -⟩
        cases k with
        | zero => rfl
        | succ k =>
          rw [read_succ, List.replicate_succ] at hread
          exact absurd (List.cons.inj hread).1 hff

theorem skipAlgo_eq (bs : List UInt8) (ptr : ℕ) :
    skipAlgo m bs ptr = if read m ptr bs.length = bs then some (ptr + bs.length) else none := by
  induction bs generalizing ptr with
  | nil => exact (if_pos rfl).symm
  | cons b bs ih =>
    rw [skipAlgo, List.length_cons, read_succ]
    by_cases hb : m ptr = b
    · rw [if_pos hb, ih, hb]
      by_cases hbs : read m (ptr + 1) bs.length = bs
      · rw [if_pos hbs, if_pos (by rw [hbs]), Nat.add_assoc, Nat.add_comm 1]
      · rw [if_neg hbs, if_neg fun h => hbs (List.cons.inj h).2]
    · rw [if_neg hb, if_neg fun h => hb (List.cons.inj h).1]

theorem behindFf_eq {zero ident : List UInt8} (hzero : zero = if m ptr = 0 then [0] else [])
    (hident : ident = if read m (ptr + zero.length) 19 = algoId then algoId else []) :
    (skipAlgo m algoId (if m ptr = 0 then ptr + 1 else ptr)).getD (if m ptr = 0 then ptr + 1 else ptr) =
      ptr + zero.length + ident.length := by
  have htmp : (if m ptr = 0 then ptr + 1 else ptr) = ptr + zero.length := by
    rw [hzero]
    split <;> rfl
  rw [htmp, skipAlgo_eq, hident, show algoId.length = 19 from rfl]
  split <;> rfl

/-- **What `do_RSA` skips.** -/
theorem bypassPadding_iff :
    bypassPadding m addr = some p ↔ ∃ skipped, Skipped m addr skipped ∧ p = addr + skipped.length := by
  unfold bypassPadding
  by_cases hstart : m addr = 0 ∧ m (addr + 1) = 1
  · rw [if_pos hstart, Option.map_eq_some_iff]
    have hread : ∀ k, read m addr (2 + k) = 0 :: 1 :: read m (addr + 2) k := fun k => by
      rw [Nat.add_comm 2 k, read_succ, read_succ, hstart.1, hstart.2]
    constructor
    · rintro ⟨ptr, hskip, rfl⟩
      obtain ⟨k, hk, rfl, hff, hne⟩ := skipFf_iff.mp hskip
      refine ⟨_, .padded hk (by rw [hread, hff]) hne rfl rfl, (behindFf_eq rfl rfl).trans ?_⟩
      simp only [List.length_append, List.length_cons, List.length_replicate]
      omega
    · rintro ⟨skipped, hskipped, rfl⟩
      cases hskipped with
      | bare h => exact absurd hstart h
      | @padded k zero ident hk hpad hend hzero hident =>
        rw [hread] at hpad
        refine ⟨addr + 2 + k, skipFf_iff.mpr ⟨k, hk, rfl, (List.cons.inj (List.cons.inj hpad).2).2, hend⟩,
          (behindFf_eq hzero hident).trans ?_⟩
        simp only [List.length_append, List.length_cons, List.length_replicate]
        omega
  · rw [if_neg hstart]
    constructor
    · intro h
      exact ⟨[], .bare hstart, (Option.some.inj h).symm⟩
    · rintro ⟨skipped, hskipped, rfl⟩
      cases hskipped with
      | bare _ => rfl
      | @padded k _ _ hk hpad _ _ _ =>
        rw [Nat.add_comm 2 k, read_succ, read_succ] at hpad
        have h := List.cons.inj hpad
        exact absurd ⟨h.1, (List.cons.inj h.2).1⟩ hstart

theorem Skipped.read_eq {skipped : List UInt8} (h : Skipped m addr skipped) :
    read m addr skipped.length = skipped := by
  cases h with
  | bare _ => rfl
  | @padded k zero ident _ hpad _ hzero hident =>
    have hlen : (0 :: 1 :: List.replicate k (0xff : UInt8)).length = 2 + k := by
      rw [List.length_cons, List.length_cons, List.length_replicate]
      omega
    have hz : read m (addr + (2 + k)) zero.length = zero := by
      rw [hzero, ← Nat.add_assoc]
      split
      · rename_i h0
        exact congrArg (fun b => [b]) h0
      · rfl
    have hi : read m (addr + (2 + k + zero.length)) ident.length = ident := by
      rw [hident, ← Nat.add_assoc, ← Nat.add_assoc]
      split
      · assumption
      · rfl
    rw [List.length_append, List.length_append, hlen, read_add, read_add, hpad, hz, hi]

end Padding

/-! ## Verification -/

def Digest : Type := {h : List UInt8 // h.length = 32}

/-- `SECURE_SIGN2HASH_BUF`, from the start of the memory set apart for secure boot. -/
def sign2hashBuf : ℕ := 0x200

/-- `do_RSA`: `some none` is `NULL`. The memory is `m` when signature and key are read, and `ram` when the result is
written. `pool` says that the pool of `my_malloc` lasts. -/
def doRSA (pool : Bool) (m ram : Mem) (signatureAddr rsaKeyAddr outputAddr : ℕ) : Option (Option (ℕ × Mem)) :=
  if pool then
    match inPutFromAddr m signatureAddr 256, inPutFromAddr m rsaKeyAddr 256 with
    | some base, some modulus =>
      match expMod base (moveP 65537) modulus with
      | some res =>
        let ram := outPutToAddr res ram outputAddr true
        (bypassPadding ram outputAddr).map fun t1 => some (t1, ram)
      | none => none
    | _, _ => some none
  else some none

/-- `Verify_SHA256_hash`. The engine computes the hash of the image, or fails. -/
def verifySHA256Hash (engine : List UInt8 → Option Digest) (pool : Bool) (m ram : Mem) (image : List UInt8)
    (refAddr rsaKeyAddr : ℕ) (doRecovery : Bool) : Option ℤ :=
  match engine image with
  | none => some (-1)
  | some hash1 =>
    if doRecovery then
      match doRSA pool m ram refAddr rsaKeyAddr sign2hashBuf with
      | none => none
      | some none => some (-3)
      | some (some (hash2, ram)) => some (if read ram hash2 32 = hash1.1 then 0 else -2)
    else some (if read m refAddr 32 = hash1.1 then 0 else -2)

section Verify

variable {engine : List UInt8 → Option Digest} {pool : Bool} {m ram : Mem} {image : List UInt8}
  {refAddr rsaKeyAddr : ℕ}

def number256 (m : Mem) (addr : ℕ) : BI :=
  ⟨1, 64, fun i => if i < 64 then UInt32.ofNat (load32 m (addr + 4 * i)) else 0⟩

theorem inPutFromAddr_256 (m : Mem) (addr : ℕ) : inPutFromAddr m addr 256 = some (number256 m addr) := rfl

/-- **The signatures that are accepted.** The hash stands in memory behind what is skipped, wherever the bytes written
for the number end. -/
theorem verifySHA256Hash_iff :
    verifySHA256Hash engine pool m ram image refAddr rsaKeyAddr true = some 0 ↔
      pool = true ∧ ∃ hash res skipped, engine image = some hash ∧
        expMod (number256 m refAddr) (moveP 65537) (number256 m rsaKeyAddr) = some res ∧
        Skipped (outPutToAddr res ram sign2hashBuf true) sign2hashBuf skipped ∧
        read (outPutToAddr res ram sign2hashBuf true) sign2hashBuf (skipped.length + 32) = skipped ++ hash.1 := by
  unfold verifySHA256Hash
  cases hengine : engine image with
  | none => simp
  | some hash =>
    cases pool with
    | false => simp [doRSA]
    | true =>
      unfold doRSA
      rw [inPutFromAddr_256, inPutFromAddr_256]
      dsimp only
      cases hexp : expMod (number256 m refAddr) (moveP 65537) (number256 m rsaKeyAddr) with
      | none => simp
      | some res =>
        set out := outPutToAddr res ram sign2hashBuf true with hout
        rw [if_pos rfl, if_pos rfl]
        dsimp only
        constructor
        · intro h
          cases hbypass : bypassPadding out sign2hashBuf with
          | none =>
            rw [hbypass] at h
            cases h
          | some t1 =>
            rw [hbypass] at h
            obtain ⟨skipped, hskipped, rfl⟩ := bypassPadding_iff.mp hbypass
            have heq : read out (sign2hashBuf + skipped.length) 32 = hash.1 := by
              by_contra hne
              rw [Option.map_some] at h
              dsimp only at h
              rw [if_neg hne] at h
              exact absurd (Option.some.inj h) (by decide)
            refine ⟨rfl, hash, res, skipped, rfl, rfl, hskipped, ?_⟩
            rw [read_add, hskipped.read_eq, heq]
        · rintro ⟨-, hash', res', skipped, hhash, hres, hskipped, hread⟩
          cases hhash
          cases hres
          rw [bypassPadding_iff.mpr ⟨skipped, hskipped, rfl⟩]
          rw [read_add, hskipped.read_eq] at hread
          exact congrArg some (if_pos (List.append_cancel_left hread))

end Verify

/-! ## A signature without padding -/

/-- `multiple`, with the numbers of digits looked for from 130 down. -/
def multipleBelow (p b : ℕ) : ℕ :=
  let sp := sizeBelow (2 ^ 32) p 129
  let sb := sizeBelow (2 ^ 32) b 129
  let topP := p / (2 ^ 32) ^ (sp - 1)
  let topB := b / (2 ^ 32) ^ (sb - 1)
  if topB < topP then topP / (topB + 1) * b * (2 ^ 32) ^ (sp - sb)
  else if sb < sp then p / (2 ^ 32) ^ (sp - 2) / (topB + 1) * b * (2 ^ 32) ^ (sp - sb - 1)
  else b

variable {p b n : ℕ}

theorem multipleBelow_eq (hp : p < (2 ^ 32) ^ 130) (hb : b < (2 ^ 32) ^ 130) :
    multipleBelow p b = multiple (2 ^ 32) p b := by
  unfold multipleBelow multiple estimate
  rw [sizeBelow_eq hp, sizeBelow_eq hb]
  dsimp only
  rw [← Limbs.top, ← Limbs.top]
  split_ifs
  · rfl
  · rfl
  · rw [Nat.one_mul, pow_zero, Nat.mul_one]

def noLostCheck (a b : ℕ) : Bool :=
  (List.range 130).all fun i => a / (2 ^ 32) ^ i % 2 ^ 32 ≠ 0 || b % (2 ^ 32) ^ i ≤ a % (2 ^ 32) ^ i

theorem noLostBorrow_of_check {a : ℕ} (ha : a < (2 ^ 32) ^ 130) (hb : b ≤ a) (h : noLostCheck a b = true) :
    NoLostBorrow a b := by
  intro i hzero
  rcases Nat.lt_or_ge i 130 with hi | hi
  · have hcheck := List.all_eq_true.mp h i (List.mem_range.mpr hi)
    rw [Bool.or_eq_true, decide_eq_true_eq, decide_eq_true_eq] at hcheck
    exact hcheck.resolve_left (not_not.mpr hzero)
  · have hlt : a < (2 ^ 32) ^ i := ha.trans_le (Nat.pow_le_pow_right (by decide) hi)
    rwa [Nat.mod_eq_of_lt hlt, Nat.mod_eq_of_lt (hb.trans_lt hlt)]

def reduceCheck (b : ℕ) : ℕ → ℕ → Bool
  | 0, p => p ≤ b
  | n + 1, p => p ≤ b || noLostCheck p (multipleBelow p b) && reduceCheck b n (p - multipleBelow p b)

theorem reduceOk_of_check (hb : 0 < b) (hb' : b < (2 ^ 32) ^ 130) (hp : p < (2 ^ 32) ^ 130)
    (h : reduceCheck b n p = true) : ReduceOk b p := by
  induction n generalizing p with
  | zero => exact .done (of_decide_eq_true h)
  | succ n ih =>
    rcases Nat.lt_or_ge b p with hlt | hle
    · rw [reduceCheck, Bool.or_eq_true, Bool.and_eq_true] at h
      obtain ⟨hcheck, hrest⟩ := h.resolve_left fun hle => absurd (of_decide_eq_true hle) (Nat.not_le.mpr hlt)
      rw [multipleBelow_eq hp hb'] at hcheck hrest
      have hmul := (multiple_lt (w := 2 ^ 32) (by decide) hb hlt).2
      exact .step hlt (noLostBorrow_of_check hp hmul.le hcheck) (ih (by omega) hrest)
    · exact .done hle

def abcHash : ℕ := 0xba7816bf8f01cfea414140de5dae2223b00361a396177a9cb410ff61f20015ad

def bareNumber : ℕ := abcHash * 2 ^ 1792 + (2 ^ 1792 - 1) / (2 ^ 32 - 1)

/-- What a signature recovers to if it is made by the book. -/
def encoded (hash : List UInt8) : List UInt8 :=
  0 :: 1 :: List.replicate 202 0xff ++ 0 :: algoId ++ hash

theorem expOk_one {m x : ℕ} (hm : 1 < m) (hx : x < m) (z : ℕ) : ExpOk m x 1 z := by
  induction z using Nat.strong_induction_on with
  | _ z ih =>
    rcases Nat.eq_zero_or_pos z with rfl | hpos
    · exact .zero
    · rcases Nat.mod_two_eq_zero_or_one z with hz | hz
      · refine .even hz hpos.ne' (.done hm.le) ?_
        rw [Nat.one_mul, Nat.mod_eq_of_lt hm]
        exact ih (z / 2) (by omega)
      · refine .odd hz (.done (by omega)) ?_
        rw [Nat.mul_one, Nat.mod_eq_of_lt hx]
        exact ih (z - 1) (by omega)

theorem sq_mod_succ (hn : 0 < n) : n * n % (n + 1) = 1 := by
  have hsq : n * n = (n + 1) * (n - 1) + 1 := by
    obtain ⟨k, rfl⟩ := Nat.exists_eq_succ_of_ne_zero hn.ne'
    rw [Nat.succ_sub_one, Nat.succ_eq_add_one]
    ring
  rw [hsq, Nat.mul_add_mod, Nat.mod_eq_of_lt (Nat.succ_lt_succ hn)]

theorem pow_mod_succ (hn : 0 < n) : n ^ 65537 % (n + 1) = n := by
  have hsq : n * n ≡ 1 [MOD n + 1] :=
    (sq_mod_succ hn).trans (Nat.mod_eq_of_lt (Nat.succ_lt_succ hn)).symm
  have hpow : n ^ 65537 ≡ n [MOD n + 1] := by
    have := (hsq.pow 32768).mul_right n
    rwa [one_pow, Nat.one_mul, ← pow_two, ← pow_mul, ← pow_succ] at this
  exact Eq.trans hpow (Nat.mod_eq_of_lt (Nat.lt_succ_self n))

theorem expOk_succ (hn : 0 < n) (hreduce : ReduceOk (n + 1) (n * n)) : ExpOk (n + 1) 1 n 65537 := by
  refine .odd rfl (.done (by omega)) (.even rfl (by decide) hreduce ?_)
  rw [sq_mod_succ hn, Nat.one_mul, Nat.mod_eq_of_lt (Nat.lt_succ_self n)]
  exact expOk_one (Nat.succ_lt_succ hn) (Nat.lt_succ_self n) _

theorem limbsDown_congr {v v' : ℕ → UInt32} (h : ∀ i < n, v i = v' i) :
    limbsDown v n = limbsDown v' n := by
  induction n with
  | zero => rfl
  | succ n ih => rw [limbsDown, limbsDown, h n (Nat.lt_succ_self n), ih fun i hi => h i (hi.trans (Nat.lt_succ_self n))]

theorem Norm.limbsDown_eq {A : BI} (h : Norm 64 A) :
    limbsDown A.value A.length =
      limbsDown (fun i => UInt32.ofNat (A.val / (2 ^ 32) ^ i)) (Limbs.size (2 ^ 32) A.val) := by
  rw [h.size]
  refine limbsDown_congr fun i hi => ?_
  have hdigit : A.val / (2 ^ 32) ^ i % 2 ^ 32 = A.digit i := val_digit hi fun j _ => A.digit_lt j
  refine UInt32.toNat_inj.mp ?_
  rw [UInt32.toNat_ofNat', hdigit]
  rfl

/-- The number as a signature at `0x1000`, and its successor as the key at `0x2000`. -/
def bareMem : Mem := fun k =>
  if k < 0x2000 then UInt8.ofNat (bareNumber / 256 ^ (k - 0x1000))
  else UInt8.ofNat ((bareNumber + 1) / 256 ^ (k - 0x2000))

def abcDigest : Digest := ⟨read (fun k => UInt8.ofNat (abcHash / 256 ^ (31 - k))) 0 32, length_read ..⟩

theorem reduceOk_sq_of_check (hn : n + 1 < (2 ^ 32) ^ 64 ∧ n * n < (2 ^ 32) ^ 130)
    (h : reduceCheck (n + 1) 66 (n * n) = true) : ReduceOk (n + 1) (n * n) :=
  reduceOk_of_check (Nat.succ_pos n) (hn.1.trans (Nat.pow_lt_pow_right (by decide) (by decide))) hn.2 h

theorem expMod_succ {base m : BI} (hbase : Norm 64 base) (hm : Norm 64 m) (hval : m.val = base.val + 1)
    (hreduce : ReduceOk (base.val + 1) (base.val * base.val)) :
    ∃ res, expMod base (moveP 65537) m = some res ∧ res.val = base.val ∧ Norm 64 res := by
  have hpos := hbase.val_pos
  have hexp := moveP_norm (show 0 < 65537 by decide) (show 65537 < 2 ^ 32 by decide)
  obtain ⟨res, hres, hpow, hnorm⟩ := expMod_val hbase (hexp.1.mono (by decide)) hm (by omega)
    (by rw [hval, hexp.2.1]; exact expOk_succ hpos hreduce)
  rw [hval, hexp.2.1, pow_mod_succ hpos] at hpow
  exact ⟨res, hres, hpow, hnorm (by omega)⟩

theorem bareMem_val : (number256 bareMem 0x1000).val = bareNumber := by decide +kernel

theorem bareMem_key_val : (number256 bareMem 0x2000).val = bareNumber + 1 := by decide +kernel

theorem bareMem_norm : Norm 64 (number256 bareMem 0x1000) := ⟨rfl, by decide, by decide, by decide +kernel⟩

theorem bareMem_key_norm : Norm 64 (number256 bareMem 0x2000) := ⟨rfl, by decide, by decide, by decide +kernel⟩

theorem bareNumber_reduceOk : ReduceOk (bareNumber + 1) (bareNumber * bareNumber) :=
  reduceOk_sq_of_check (by decide +kernel) (by decide +kernel) (n := bareNumber)

theorem bareNumber_recovered :
    ∃ res, expMod (number256 bareMem 0x1000) (moveP 65537) (number256 bareMem 0x2000) = some res ∧
      limbsDown res.value res.length = limbsDown (fun i => UInt32.ofNat (bareNumber / (2 ^ 32) ^ i)) 64 := by
  obtain ⟨res, hres, hval, hnorm⟩ := expMod_succ bareMem_norm bareMem_key_norm
    (bareMem_key_val.trans (congrArg (· + 1) bareMem_val.symm)) (by rw [bareMem_val]; exact bareNumber_reduceOk)
  refine ⟨res, hres, ?_⟩
  rw [hnorm.limbsDown_eq, hval, bareMem_norm.size, bareMem_val]
  rfl

/-- A signature that recovers to the hash and anything behind it passes, if the hash does not start with `0`. -/
theorem verifySHA256Hash_bare {engine : List UInt8 → Option Digest} {m ram : Mem} {image tail : List UInt8}
    {refAddr rsaKeyAddr : ℕ} {hash : Digest} {res : BI} (hengine : engine image = some hash)
    (hres : expMod (number256 m refAddr) (moveP 65537) (number256 m rsaKeyAddr) = some res)
    (hbytes : limbsDown res.value res.length = hash.1 ++ tail) (hhead : hash.1.head? ≠ some 0) :
    verifySHA256Hash engine true m ram image refAddr rsaKeyAddr true = some 0 := by
  set out := write ram sign2hashBuf (hash.1 ++ tail) with hout
  have hread : read out sign2hashBuf 32 = hash.1 := by
    have := read_append_left (read_write_self ram sign2hashBuf (hash.1 ++ tail))
    rwa [hash.2] at this
  have hbypass : bypassPadding out sign2hashBuf = some sign2hashBuf := by
    refine if_neg fun h => hhead ?_
    rw [← hread, read_succ, List.head?_cons, h.1]
  unfold verifySHA256Hash doRSA
  rw [inPutFromAddr_256, inPutFromAddr_256]
  simp [hengine, hres, outPutToAddr, hbytes, ← hout, hbypass, hread]

/-- **A signature without padding is accepted.** What is recovered starts with the hash, and 224 other bytes follow.
-/
theorem bare_hash_accepted :
    ∃ res, expMod (number256 bareMem 0x1000) (moveP 65537) (number256 bareMem 0x2000) = some res ∧
      verifySHA256Hash (fun _ => some abcDigest) true bareMem (fun _ => 0) [97, 98, 99] 0x1000 0x2000 true =
        some 0 ∧
      (limbsDown res.value res.length).length = 256 ∧ limbsDown res.value res.length ≠ encoded abcDigest.1 := by
  obtain ⟨res, hres, hbytes⟩ := bareNumber_recovered
  have happend : limbsDown (fun i => UInt32.ofNat (bareNumber / (2 ^ 32) ^ i)) 64 = abcDigest.1 ++
      (limbsDown (fun i => UInt32.ofNat (bareNumber / (2 ^ 32) ^ i)) 64).drop 32 := by decide +kernel
  exact ⟨res, hres, verifySHA256Hash_bare rfl hres (hbytes.trans happend) (by decide +kernel),
    by rw [hbytes]; decide +kernel, by rw [hbytes]; decide +kernel⟩

end NasFirmware.BigInt
