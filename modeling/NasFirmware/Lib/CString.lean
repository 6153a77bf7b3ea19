import NasFirmware.Lib.Mem

/-!
# C strings and numbers in memory

* `nameAt`: the string in a field of `n` bytes; **`startsWith_iff`**, **`strncmpEq_iff`**: what the
  comparisons say of it;
* `simpleStrtoul`, `simpleStrtol`: numbers as 32-bit words; `octal`: digits in base 8;
  **`simpleStrtol_octal`**: reading what was printed.
-/

namespace CString

open ByteMem

/-! ## Strings -/

abbrev CStr := { s : List UInt8 // 0 ∉ s }

/-- `s` is at `a`, whatever follows. -/
def startsWith (m : Mem) (a : ℕ) (s : List UInt8) : Bool := read m a s.length == s

/-- The string at `a` is `s`. -/
def strcmpEq (m : Mem) (a : ℕ) (s : List UInt8) : Bool := startsWith m a (s ++ [0])

/-- The first `n` bytes of the string at `a` are those of `s`. -/
def strncmpEq (m : Mem) (a : ℕ) (s : List UInt8) (n : ℕ) : Bool :=
  if s.length < n then strcmpEq m a s else startsWith m a (s.take n)

/-- The string in a field of `n` bytes. -/
def nameAt (m : Mem) (a n : ℕ) : List UInt8 := (read m a n).takeWhile (· ≠ 0)

section Names

variable {m : Mem} {a n : ℕ} {s : CStr} {l : List UInt8}

theorem startsWith_eq_true : startsWith m a l = true ↔ read m a l.length = l :=
  beq_iff_eq

/-- A field whose string ends within it. -/
theorem read_nameAt (h : (nameAt m a n).length < n) :
    ∃ rest, read m a n = nameAt m a n ++ 0 :: rest := by
  have hsplit := List.takeWhile_append_dropWhile (p := (· ≠ 0)) (l := read m a n)
  cases hd : (read m a n).dropWhile (· ≠ 0) with
  | nil =>
    rw [hd, List.append_nil] at hsplit
    have := congrArg List.length hsplit
    rw [length_read] at this
    exact absurd this (Nat.ne_of_lt h)
  | cons c rest =>
    have hc : ¬ (c ≠ 0) := by
      have := List.head_dropWhile_not (· ≠ (0 : UInt8)) (l := read m a n)
        (by rw [hd]; exact List.cons_ne_nil _ _)
      simpa only [hd, List.head_cons, decide_eq_false_iff_not] using this
    rw [not_not] at hc
    subst hc
    exact ⟨rest, by rw [← hsplit, hd]; rfl⟩

theorem zero_notMem_nameAt : 0 ∉ nameAt m a n := by
  intro h
  simpa using List.mem_takeWhile_imp h

/-- **The prefix test is about the string in the field.** -/
theorem startsWith_iff (h : (nameAt m a n).length < n) :
    startsWith m a s.1 = true ↔ s.1 <+: nameAt m a n := by
  obtain ⟨rest, hread⟩ := read_nameAt h
  have htake : ∀ k ≤ n, read m a k = (read m a n).take k := by
    intro k hk
    obtain ⟨j, rfl⟩ := Nat.exists_eq_add_of_le hk
    rw [read_add, List.take_left' (length_read ..)]
  rw [startsWith_eq_true]
  constructor
  · intro hs
    rcases Nat.lt_or_ge (nameAt m a n).length s.1.length with hlt | hle
    · -- the string would have the NUL of the field
      have hzero : (read m a s.1.length)[(nameAt m a n).length]? = some 0 := by
        rw [getElem?_read _ _ _ _ hlt, ← getElem?_read m a n _ h, hread,
          List.getElem?_append_right le_rfl, Nat.sub_self]
        rfl
      rw [hs] at hzero
      exact absurd (List.mem_of_getElem? hzero) s.2
    · rw [htake _ (by omega), hread, List.take_append_of_le_length hle] at hs
      rw [← hs]
      exact List.take_prefix _ _
  · intro hp
    have hle := hp.length_le
    rw [htake _ (by omega), hread, List.take_append_of_le_length hle]
    exact (List.prefix_iff_eq_take.mp hp).symm

/-- **The bounded comparison is about the string in the field.** -/
theorem strncmpEq_iff (h : (nameAt m a n).length < n) :
    strncmpEq m a s.1 n = true ↔ s.1 = nameAt m a n := by
  obtain ⟨rest, hread⟩ := read_nameAt h
  unfold strncmpEq strcmpEq
  split_ifs with hs
  · rw [startsWith_eq_true]
    constructor
    · intro hr
      have hp : s.1 <+: nameAt m a n := (startsWith_iff h).mp
        (startsWith_eq_true.mpr (read_append_left hr))
      refine hp.eq_of_length_le (Nat.le_of_not_lt fun hlt => ?_)
      have hzero := congrArg (fun l => l[s.1.length]?) hr
      simp only [getElem?_read _ _ _ _ (show s.1.length < (s.1 ++ [0]).length by simp)] at hzero
      rw [← getElem?_read m a n _ hs, hread, List.getElem?_append_left hlt,
        List.getElem?_append_right le_rfl, Nat.sub_self] at hzero
      exact zero_notMem_nameAt (List.mem_of_getElem? hzero)
    · intro hs'
      have hlen : n = (s.1 ++ [0]).length + rest.length := by
        have := congrArg List.length hread
        rw [length_read, ← hs'] at this
        simp only [List.length_append, List.length_cons, List.length_nil] at this ⊢
        omega
      rw [hlen, read_add, ← hlen, ← hs'] at hread
      have hread' : read m a (s.1 ++ [0]).length ++ read m (a + (s.1 ++ [0]).length) rest.length =
          (s.1 ++ [0]) ++ rest := by
        rw [hread, List.append_assoc]
        rfl
      exact (List.append_inj hread' (by simp)).1
  · constructor
    · intro hr
      have hmem : (nameAt m a n).length < (s.1.take n).length := by
        rw [List.length_take]
        omega
      have hp : s.1.take n <+: nameAt m a n :=
        (startsWith_iff (s := ⟨s.1.take n, fun h0 => s.2 (List.mem_of_mem_take h0)⟩) h).mp hr
      exact absurd hp.length_le (Nat.not_le.mpr hmem)
    · intro hs'
      rw [hs'] at hs
      exact absurd h hs

theorem strncmpEq_first (hn : 0 < n) (h : strncmpEq m a l n = true) :
    l = [] ∧ m a = 0 ∨ l.head? = some (m a) := by
  obtain ⟨k, rfl⟩ : ∃ k, n = k + 1 := ⟨n - 1, by omega⟩
  cases l with
  | nil =>
    have h' : read m a 1 = [0] := startsWith_eq_true.mp (by simpa [strncmpEq, strcmpEq] using h)
    exact Or.inl ⟨rfl, by simpa [read_succ] using h'⟩
  | cons c cs =>
    refine Or.inr ?_
    unfold strncmpEq strcmpEq at h
    split_ifs at h
    · have h' := startsWith_eq_true.mp h
      rw [List.cons_append, List.length_cons, read_succ, List.cons.injEq] at h'
      rw [List.head?_cons, h'.1]
    · have h' := startsWith_eq_true.mp h
      rw [List.take_succ_cons, List.length_cons, read_succ, List.cons.injEq] at h'
      rw [List.head?_cons, h'.1]

theorem strncmpEq_congr {l' : List UInt8} (hl : n ≤ l.length) (hl' : n ≤ l'.length)
    (h : l.take n = l'.take n) : strncmpEq m a l n = strncmpEq m a l' n := by
  rw [strncmpEq, strncmpEq, if_neg (Nat.not_lt.mpr hl), if_neg (Nat.not_lt.mpr hl'), h]

end Names

/-- The string at `a`, or the `n` bytes there if none of them is NUL. -/
def strAt (m : Mem) : ℕ → ℕ → List UInt8
  | 0, _ => []
  | n + 1, a => if m a = 0 then [] else m a :: strAt m n (a + 1)

theorem zero_notMem_strAt (m : Mem) (n a : ℕ) : 0 ∉ strAt m n a := by
  induction n generalizing a with
  | zero => exact List.not_mem_nil
  | succ n ih =>
    rw [strAt]
    split_ifs with ha
    · exact List.not_mem_nil
    · exact List.not_mem_cons_of_ne_of_not_mem (Ne.symm ha) (ih (a + 1))

variable {m : Mem} {n cp r w v : ℕ} {c : UInt8} {a b s : CStr}

theorem strAt_of_read {a : ℕ} {s : List UInt8} (hs : 0 ∉ s) (hn : s.length < n)
    (h : read m a (s ++ [0]).length = s ++ [0]) : strAt m n a = s := by
  induction s generalizing n a with
  | nil =>
    obtain ⟨n, rfl⟩ : ∃ k, n = k + 1 := ⟨n - 1, by simp only [List.length_nil] at hn; omega⟩
    rw [List.nil_append, List.length_singleton, read_succ] at h
    rw [strAt, if_pos (List.head_eq_of_cons_eq h)]
  | cons c s ih =>
    obtain ⟨n, rfl⟩ : ∃ k, n = k + 1 := ⟨n - 1, by simp only [List.length_cons] at hn; omega⟩
    rw [List.cons_append, List.length_cons, read_succ, List.cons.injEq] at h
    rw [List.mem_cons, not_or] at hs
    rw [strAt, h.1, if_neg (Ne.symm hs.1), ih hs.2 (by simpa using hn) h.2]

/-- What is before the first `c` and what is after it. -/
def cut (c : UInt8) (s : CStr) : Option (CStr × CStr) :=
  if c ∈ s.1 then
    some (⟨s.1.takeWhile (· ≠ c), fun h => s.2 ((List.takeWhile_prefix _).subset h)⟩,
      ⟨(s.1.dropWhile (· ≠ c)).tail, fun h => s.2 ((List.dropWhile_suffix _).subset (List.mem_of_mem_tail h))⟩)
  else none

theorem cut_append (ha : c ∉ a.1) (hs : s.1 = a.1 ++ c :: b.1) :
    cut c s = some (a, b) := by
  have hpos : ∀ x ∈ a.1, decide (x ≠ c) = true := by
    intro x hx
    rw [decide_eq_true_eq]
    rintro rfl
    exact ha hx
  rw [cut, if_pos (by rw [hs]; simp), Option.some.injEq, Prod.mk.injEq, Subtype.mk.injEq, Subtype.mk.injEq]
  constructor
  · rw [hs, List.takeWhile_append_of_pos hpos, List.takeWhile_cons_of_neg (by simp), List.append_nil]
  · rw [hs, List.dropWhile_append_of_pos hpos, List.dropWhile_cons_of_neg (by simp), List.tail_cons]

theorem notMem_of_cut (h : cut c s = some (a, b)) : c ∉ a.1 := by
  unfold cut at h
  split_ifs at h
  cases h
  intro hmem
  simpa using List.mem_takeWhile_imp hmem

/-! ## Numbers -/

def xdigit (c : UInt8) : Option ℕ :=
  if 48 ≤ c ∧ c ≤ 57 then some (c.toNat - 48)
  else if 97 ≤ c ∧ c ≤ 102 then some (c.toNat - 87)
  else if 65 ≤ c ∧ c ≤ 70 then some (c.toNat - 55)
  else none

/-- The loop over the digits; the bound is the size of the address space. -/
def digitsFrom (base : ℕ) (m : Mem) : ℕ → ℕ → ℕ → ℕ
  | 0, _, result => result
  | n + 1, cp, result =>
    match xdigit (m cp) with
    | some value =>
      if value < base then digitsFrom base m n (cp + 1) ((result * base + value) % 2 ^ 32) else result
    | none => result

/-- `simple_strtoul` with a base that is not 0. -/
def simpleStrtoul (m : Mem) (cp base : ℕ) : ℕ :=
  if m cp = 48 then
    if m (cp + 1) = 120 ∧ (xdigit (m (cp + 2))).isSome then digitsFrom 16 m (2 ^ 32) (cp + 2) 0
    else digitsFrom base m (2 ^ 32) (cp + 1) 0
  else digitsFrom base m (2 ^ 32) cp 0

def signed (v : ℕ) : ℤ := if v < 2 ^ 31 then v else v - 2 ^ 32

def simpleStrtol (m : Mem) (cp base : ℕ) : ℤ :=
  signed (if m cp = 45 then (2 ^ 32 - simpleStrtoul m (cp + 1) base) % 2 ^ 32
    else simpleStrtoul m cp base)

theorem digitsFrom_lt {base : ℕ} (hr : r < 2 ^ 32) :
    digitsFrom base m n cp r < 2 ^ 32 := by
  induction n generalizing cp r with
  | zero => exact hr
  | succ n ih =>
    unfold digitsFrom
    split
    · split_ifs
      · exact ih (Nat.mod_lt _ (by omega))
      · exact hr
    · exact hr

theorem simpleStrtoul_lt (m : Mem) (cp base : ℕ) : simpleStrtoul m cp base < 2 ^ 32 := by
  unfold simpleStrtoul
  split_ifs
  all_goals exact digitsFrom_lt (by omega)

theorem neg_le_simpleStrtol (m : Mem) (cp base : ℕ) : -2 ^ 31 ≤ simpleStrtol m cp base := by
  unfold simpleStrtol signed
  split_ifs <;> omega

theorem simpleStrtol_lt (m : Mem) (cp base : ℕ) : simpleStrtol m cp base < 2 ^ 31 := by
  have hsigned : ∀ v : ℕ, v < 2 ^ 32 → signed v < 2 ^ 31 := by
    intro v hv
    unfold signed
    split_ifs with h <;> omega
  apply hsigned
  split_ifs
  · exact Nat.mod_lt _ (by omega)
  · exact simpleStrtoul_lt m cp base

/-- The last `w` octal digits of `v`: what `%0<w>o` prints for `v < 8 ^ w`. -/
def octal : ℕ → ℕ → List UInt8
  | 0, _ => []
  | w + 1, v => UInt8.ofNat (48 + v / 8 ^ w % 8) :: octal w v

@[simp] theorem length_octal (w v : ℕ) : (octal w v).length = w := by
  induction w with
  | zero => rfl
  | succ w ih => rw [octal, List.length_cons, ih]

theorem octalDigit_toNat (d : ℕ) : (UInt8.ofNat (48 + d % 8)).toNat = 48 + d % 8 := by
  rw [UInt8.toNat_ofNat']
  omega

theorem xdigit_octalDigit (d : ℕ) : xdigit (UInt8.ofNat (48 + d % 8)) = some (d % 8) := by
  have hc := octalDigit_toNat d
  have h1 : 48 ≤ UInt8.ofNat (48 + d % 8) := UInt8.le_iff_toNat_le.mpr (by rw [hc]; simp)
  have h2 : UInt8.ofNat (48 + d % 8) ≤ 57 := UInt8.le_iff_toNat_le.mpr (by rw [hc]; simp; omega)
  rw [xdigit, if_pos ⟨h1, h2⟩, hc, Nat.add_sub_cancel_left]

theorem digitsFrom_octal (hn : w < n)
    (hread : read m cp (w + 1) = octal w v ++ [0]) (hlt : r * 8 ^ w + v % 8 ^ w < 2 ^ 32) :
    digitsFrom 8 m n cp r = r * 8 ^ w + v % 8 ^ w := by
  induction w generalizing n cp r with
  | zero =>
    obtain ⟨n, rfl⟩ : ∃ k, n = k + 1 := ⟨n - 1, by omega⟩
    have h0 : m cp = 0 := by simpa [read_succ, octal] using hread
    rw [digitsFrom, h0]
    simp [xdigit, Nat.mod_one]
  | succ w ih =>
    obtain ⟨n, rfl⟩ : ∃ k, n = k + 1 := ⟨n - 1, by omega⟩
    rw [octal, List.cons_append, read_succ, List.cons.injEq] at hread
    have hmod : v % 8 ^ (w + 1) = v % 8 ^ w + 8 ^ w * (v / 8 ^ w % 8) := Nat.mod_pow_succ
    have hstep : r * 8 ^ (w + 1) + v % 8 ^ (w + 1) =
        (r * 8 + v / 8 ^ w % 8) * 8 ^ w + v % 8 ^ w := by
      rw [hmod]
      ring
    have hsmall : r * 8 + v / 8 ^ w % 8 < 2 ^ 32 := by
      refine lt_of_le_of_lt ?_ (hstep ▸ hlt)
      exact Nat.le_add_right_of_le (Nat.le_mul_of_pos_right _ (Nat.pow_pos (by omega)))
    have hdigit : v / 8 ^ w % 8 < 8 := Nat.mod_lt _ (by omega)
    rw [digitsFrom, hread.1, xdigit_octalDigit]
    simp only [hdigit, if_true, Nat.mod_eq_of_lt hsmall]
    rw [ih (by omega) hread.2 (hstep ▸ hlt), hstep]

/-- **Reading what was printed.** -/
theorem simpleStrtol_octal (hw : 0 < w) (hw' : w < 2 ^ 32) (hv : v < 8 ^ w)
    (hlt : v < 2 ^ 31) (hread : read m cp (w + 1) = octal w v ++ [0]) : simpleStrtol m cp 8 = v := by
  obtain ⟨w, rfl⟩ : ∃ k, w = k + 1 := ⟨w - 1, by omega⟩
  have hmod : v % 8 ^ (w + 1) = v := Nat.mod_eq_of_lt hv
  have hfirst : m cp = UInt8.ofNat (48 + v / 8 ^ w % 8) := by
    rw [octal, List.cons_append, read_succ, List.cons.injEq] at hread
    exact hread.1
  have hall : digitsFrom 8 m (2 ^ 32) cp 0 = v := by
    rw [digitsFrom_octal hw' hread (by omega), hmod, Nat.zero_mul, Nat.zero_add]
  have hrest : read m (cp + 1) (w + 1) = octal w v ++ [0] := by
    rw [octal, List.cons_append, read_succ, List.cons.injEq] at hread
    exact hread.2
  have hul : simpleStrtoul m cp 8 = v := by
    unfold simpleStrtoul
    split_ifs with hzero hx
    · -- an `x` is no octal digit
      exfalso
      cases w with
      | zero =>
        have : m (cp + 1) = 0 := by simpa [read_succ, octal] using hrest
        rw [this] at hx
        exact absurd hx.1 (by decide)
      | succ w =>
        rw [octal, List.cons_append, read_succ, List.cons.injEq] at hrest
        have := congrArg UInt8.toNat (hrest.1.symm.trans hx.1)
        simp at this
        omega
    · -- the leading zero adds nothing
      have hd : v / 8 ^ w % 8 = 0 := by
        have := congrArg UInt8.toNat (hfirst.symm.trans hzero)
        rw [octalDigit_toNat] at this
        simpa using this
      have hlow : v % 8 ^ w = v := by
        have h := @Nat.mod_pow_succ v 8 w
        rw [hmod, hd, Nat.mul_zero, Nat.add_zero] at h
        exact h.symm
      rw [digitsFrom_octal (by omega) hrest (by rw [hlow]; omega), hlow, Nat.zero_mul, Nat.zero_add]
    · exact hall
  have hminus : m cp ≠ 45 := by
    intro h
    have := congrArg UInt8.toNat (hfirst.symm.trans h)
    rw [octalDigit_toNat] at this
    simp at this
    omega
  rw [simpleStrtol, if_neg hminus, hul, signed, if_pos hlt]

end CString
