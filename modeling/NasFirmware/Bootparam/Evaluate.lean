import NasFirmware.Lib.CString

/-!
# The values of boot parameters

`evaluate` of `parse_h.c` takes the blanks out of a text in place, and `f` splits what is left at parentheses and
operators. For a `(` that is not closed `balance` returns -1, and `f` goes on at the second character of the text.

* **`evaluate_returns_iff`**: `evaluate` returns exactly if not both the text and the text behind its first character
  have an operand with an open parenthesis.
-/

namespace NasFirmware.Bootparam

open ByteMem CString

/-! ## The evaluator -/

def isspace (c : UInt8) : Bool := (9 ≤ c && c ≤ 13) || c == 32 || c == 160

/-- The loop of `tight` at `i`, with `k` characters up to the NUL and `n` kept ones. -/
def tight (s : Mem) : ℕ → ℕ → ℕ → Mem × ℕ
  | 0, _, n => (s, n)
  | k + 1, i, n =>
    -- `//`, `/*`, CR and LF
    if strncmpEq s i [47, 47] 2 || strncmpEq s i [47, 42] 2 || s i == 13 || s i == 10 then (s, n)
    else if isspace (s i) then tight s k (i + 1) n
    else tight (Function.update s n (s i)) k (i + 1) (n + 1)

def calcOp (lv : Int32) (op : UInt8) (rv : Int32) : Int32 :=
  if op = 43 then lv + rv else if op = 45 then lv - rv else if op = 42 then lv * rv else if op = 47 then lv / rv else 0

def count (s : Mem) (c k : ℕ) : ℕ := if s k = 40 then c + 1 else if s k = 41 then c - 1 else c

/-- The loop of `balance` at `k`, with `n` characters to go. -/
def balanceFrom (s : Mem) : ℕ → ℕ → ℕ → Option ℕ
  | _, _, 0 => none
  | c, k, n + 1 =>
    if count s c k = 0 then some k else balanceFrom s (count s c k) (k + 1) n

/-- `none` is -1. -/
def balance (s : Mem) (L : ℕ) (R : ℤ) : Option ℕ := balanceFrom s 1 (L + 1) (R - L).toNat

def isopera (c : UInt8) : Bool := c == 43 || c == 45 || c == 42 || c == 47

def findopera (s : Mem) (L : ℕ) (R : ℤ) : Option ℕ := (List.range' L (R + 1 - L).toNat).find? fun k => isopera (s k)

def getnum (s : Mem) (L : ℕ) (R : ℤ) : Int32 :=
  (read s L (R + 1 - L).toNat).foldl (fun n c => n * 10 + Int32.ofNat c.toNat - 48) 0

/-- `f`, with a bound for the depth of the recursion. -/
def f (s : Mem) : ℕ → ℕ → ℤ → Option Int32
  | 0, _, _ => none
  | n + 1, L, R =>
    if s L = 40 then
      let op := (balance s L R).elim 0 (· + 1)
      if R < op then f s n (L + 1) (op - 2)
      else do
        let lv ← f s n (L + 1) (op - 2)
        let rv ← f s n (op + 1) R
        return calcOp lv (s op) rv
    else
      match findopera s L R with
      | some op => do
        let lv ← f s n L (op - 1)
        let rv ← f s n (op + 1) R
        return calcOp lv (s op) rv
      | none => return getnum s L R

def compact (text : CStr) : Mem × ℕ := tight (ofList text.1) text.1.length 0 0

def evaluate (text : CStr) (depth : ℕ) : Option Int32 := f (compact text).1 depth 0 ((compact text).2 - 1)

/-- On its way through the operands from `i` to `R`, `f` comes to a `(` that is not closed. -/
inductive Unclosed (s : Mem) (R : ℤ) : ℕ → Prop
  | here {i : ℕ} : s i = 40 → balance s i R = none → Unclosed s R i
  | group {i k : ℕ} : s i = 40 → balance s i R = some k → k < R → Unclosed s R (k + 2) → Unclosed s R i
  | operator {i op : ℕ} : s i ≠ 40 → findopera s i R = some op → Unclosed s R (op + 1) → Unclosed s R i

/-! ## Calls -/

variable {s : Mem} {L i j k n e : ℕ} {R : ℤ}

def calls (s : Mem) (L : ℕ) (R : ℤ) : List (ℕ × ℤ) :=
  if s L = 40 then
    let op := (balance s L R).elim 0 (· + 1)
    if R < op then [(L + 1, op - 2)] else [(L + 1, op - 2), (op + 1, R)]
  else (findopera s L R).elim [] fun op => [(L, op - 1), (op + 1, R)]

theorem isSome_f_succ : (f s (n + 1) L R).isSome ↔ ∀ c ∈ calls s L R, (f s n c.1 c.2).isSome := by
  have hboth : ∀ (a b : Option Int32) (c : UInt8),
      (do let lv ← a; let rv ← b; return calcOp lv c rv : Option Int32).isSome ↔ a.isSome ∧ b.isSome :=
    fun a b c => by cases a <;> cases b <;> simp
  rw [f, calls]
  by_cases h : s L = 40
  · dsimp only
    rw [if_pos h, if_pos h]
    split_ifs
    · simp
    · rw [hboth]
      simp
  · rw [if_neg h, if_neg h]
    cases findopera s L R with
    | none => simp
    | some op => exact (hboth ..).trans (by simp)

def Returns (s : Mem) (L : ℕ) (R : ℤ) : Prop := ∃ n, (f s n L R).isSome

theorem f_mono (hn : n ≤ k) (h : (f s n L R).isSome) : (f s k L R).isSome := by
  induction n generalizing k L R with
  | zero => cases h
  | succ n ih =>
    obtain ⟨k, rfl⟩ := Nat.exists_eq_add_of_lt hn
    rw [isSome_f_succ] at h ⊢
    exact fun c hc => ih (by omega) (h c hc)

theorem returns_of_calls (h : ∀ c ∈ calls s L R, Returns s c.1 c.2) : Returns s L R := by
  have hall : ∀ᶠ n in Filter.atTop, ∀ c ∈ {c | c ∈ calls s L R}, (f s n c.1 c.2).isSome :=
    (Filter.eventually_all_finite (List.finite_toSet _)).mpr fun c hc => by
      obtain ⟨n, hn⟩ := h c hc
      exact Filter.eventually_atTop.mpr ⟨n, fun k hk => f_mono hk hn⟩
  obtain ⟨n, hn⟩ := hall.exists
  exact ⟨n + 1, isSome_f_succ.mpr hn⟩

theorem isSome_of_mem_calls {c : ℕ × ℤ} (hc : c ∈ calls s L R) (h : (f s n L R).isSome) :
    ∃ m < n, (f s m c.1 c.2).isSome := by
  cases n with
  | zero => cases h
  | succ n => exact ⟨n, n.lt_succ_self, isSome_f_succ.mp h c hc⟩

/-- The call for the inside of a `(` that is not closed goes through the parentheses that follow. -/
theorem returns_neg {L : ℕ} (he : s e = 0) (hL : L ≤ e) : Returns s L (-2) := by
  have hb : balance s L (-2) = none := by rw [balance, show ((-2 : ℤ) - L).toNat = 0 by omega, balanceFrom]
  have hf : findopera s L (-2) = none := by rw [findopera, show ((-2 : ℤ) + 1 - L).toNat = 0 by omega]; rfl
  by_cases h : s L = 40
  · have hlt : L < e := lt_of_le_of_ne hL fun hLe => by simp [← hLe, h] at he
    exact returns_of_calls (by simpa [calls, h, hb] using returns_neg he hlt)
  · exact returns_of_calls (by simp [calls, h, hf])
termination_by e - L

/-! ## Parentheses -/

theorem balanceFrom_some {c : ℕ} (hc : 0 < c) (h : balanceFrom s c j n = some k) : j ≤ k ∧ k < j + n ∧ s k = 41 := by
  induction n generalizing c j with
  | zero => cases h
  | succ n ih =>
    rw [balanceFrom] at h
    split_ifs at h with h0
    · cases h
      unfold count at h0
      split_ifs at h0 with h1 h2
      · exact ⟨le_rfl, by omega, h2⟩
      · omega
    · have := ih (Nat.pos_of_ne_zero h0) h
      exact ⟨by omega, by omega, this.2.2⟩

/-- A smaller counter comes to zero before. -/
theorem balanceFrom_of_add {a b : ℕ} (ha : 0 < a) (hb : 0 < b) (h : balanceFrom s (a + b) j n = some k) :
    ∃ k', balanceFrom s a j (k - j) = some k' := by
  induction n generalizing a j with
  | zero => cases h
  | succ n ih =>
    have hcount : count s (a + b) j = count s a j + b := by
      unfold count
      split_ifs <;> omega
    rw [balanceFrom, hcount, if_neg (by omega)] at h
    have hlt := (balanceFrom_some (by omega) h).1
    rw [show k - j = k - (j + 1) + 1 by omega, balanceFrom]
    split_ifs with h0
    · exact ⟨j, rfl⟩
    · exact ih (Nat.pos_of_ne_zero h0) h

/-- Between a parenthesis and the one that closes it, the others are closed. -/
theorem balanceFrom_inside {c : ℕ} (hc : 0 < c) (h : balanceFrom s c i n = some k) (hi : i ≤ j) (hj : j < k)
    (hopen : s j = 40) : ∃ k', balanceFrom s 1 (j + 1) (k - (j + 1)) = some k' := by
  induction n generalizing c i with
  | zero => cases h
  | succ n ih =>
    rw [balanceFrom] at h
    split_ifs at h with h0
    · cases h
      omega
    · rcases Nat.eq_or_lt_of_le hi with rfl | hlt
      · rw [count, if_pos hopen, Nat.add_comm] at h
        exact balanceFrom_of_add one_pos hc h
      · exact ih (Nat.pos_of_ne_zero h0) h hlt

theorem balance_some (h : balance s L R = some k) : L < k ∧ k ≤ R ∧ s k = 41 := by
  have := balanceFrom_some one_pos h
  exact ⟨by omega, by omega, this.2.2⟩

theorem findopera_some {op : ℕ} (h : findopera s L R = some op) :
    L ≤ op ∧ op ≤ R ∧ findopera s L (op - 1) = none := by
  rw [findopera, List.find?_range'_eq_some] at h
  obtain ⟨-, hmem, hbefore⟩ := h
  rw [List.mem_range'_1] at hmem
  refine ⟨hmem.1, by omega, ?_⟩
  rw [findopera, List.find?_eq_none]
  intro k hk
  rw [List.mem_range'_1] at hk
  simpa using hbefore k hk.1 (by omega)

theorem not_unclosed (h : balance s i R = some k) (hj : i < j) (hk : j ≤ k) : ¬ Unclosed s (k - 1) j := by
  intro hu
  induction hu with
  | @here j hopen hnone =>
    have hne : j ≠ k := by
      rintro rfl
      simp [(balance_some h).2.2] at hopen
    obtain ⟨k', hk'⟩ := balanceFrom_inside one_pos h hj (lt_of_le_of_ne hk hne) hopen
    rw [balance, show ((k : ℤ) - 1 - j).toNat = k - (j + 1) by omega, hk'] at hnone
    cases hnone
  | group _ hb hlt _ ih =>
    have := balance_some hb
    exact ih (by omega) (by omega)
  | operator _ hf _ ih =>
    have := findopera_some hf
    exact ih (by omega) (by omega)

/-! ## Returning -/

/-- If a parenthesis on the way is not closed, `f` returns if it does from the second character on. -/
theorem returns_of {L : ℕ} {R : ℤ} (he : s e = 0) (hR : R + 1 ≤ e) (hL : L ≤ R + 1)
    (h : Unclosed s R L → 0 ≤ R → Returns s 1 R) : Returns s L R := by
  by_cases hopen : s L = 40
  · have hlt : L < e := by
      refine lt_of_le_of_ne (by omega) ?_
      rintro rfl
      simp [hopen] at he
    cases hb : balance s L R with
    | none =>
      have hneg := returns_neg he hlt
      by_cases h0 : R < 0
      · exact returns_of_calls (by simpa [calls, hopen, hb, h0] using hneg)
      · have h1 := h (.here hopen hb) (by omega)
        exact returns_of_calls (by simpa [calls, hopen, hb, h0] using ⟨hneg, h1⟩)
    | some k =>
      have hk := balance_some hb
      have hgroup : Returns s (L + 1) (k - 1) :=
        returns_of he (by omega) (by omega) fun hu => absurd hu (not_unclosed hb (by omega) (by omega))
      by_cases hlast : R < k + 1
      · exact returns_of_calls (by simpa [calls, hopen, hb, hlast, show (k : ℤ) + 1 - 2 = k - 1 by ring] using hgroup)
      · have hrest : Returns s (k + 2) R :=
          returns_of he hR (by omega) fun hu => h (.group hopen hb (by omega) hu)
        exact returns_of_calls (by simpa [calls, hopen, hb, hlast, show (k : ℤ) + 1 - 2 = k - 1 by ring] using ⟨hgroup, hrest⟩)
  · cases hf : findopera s L R with
    | none => exact returns_of_calls (by simp [calls, hopen, hf])
    | some op =>
      have hop := findopera_some hf
      have hnum : Returns s L (op - 1) := returns_of_calls (by simp [calls, hopen, hop.2.2])
      have hrest : Returns s (op + 1) R := returns_of he hR (by omega) fun hu => h (.operator hopen hf hu)
      exact returns_of_calls (by simpa [calls, hopen, hf] using ⟨hnum, hrest⟩)
termination_by (R + 1 - L).toNat

/-- A parenthesis that is not closed sends `f` to the second character. -/
theorem Unclosed.descends (hu : Unclosed s R i) (hR : 0 ≤ R) (h : (f s n i R).isSome) :
    ∃ m < n, (f s m 1 R).isSome := by
  induction hu generalizing n with
  | here hopen hb => exact isSome_of_mem_calls (c := (1, R)) (by simp [calls, hopen, hb, Int.not_lt.mpr hR]) h
  | @group i k hopen hb hlt _ ih =>
    obtain ⟨n', hn, h⟩ := isSome_of_mem_calls (c := (k + 2, R)) (by simp [calls, hopen, hb, Int.not_lt.mpr hlt]) h
    obtain ⟨m, hm, h1⟩ := ih h
    exact ⟨m, hm.trans hn, h1⟩
  | @operator i op hopen hf _ ih =>
    obtain ⟨n', hn, h⟩ := isSome_of_mem_calls (c := (op + 1, R)) (by simp [calls, hopen, hf]) h
    obtain ⟨m, hm, h1⟩ := ih h
    exact ⟨m, hm.trans hn, h1⟩

theorem Unclosed.not_returns (h0 : Unclosed s R i) (h1 : Unclosed s R 1) (hR : 0 ≤ R) : ¬ Returns s i R := by
  rintro ⟨n, hn⟩
  induction n using Nat.strong_induction_on generalizing i with
  | h n ih =>
    obtain ⟨m, hm, h⟩ := h0.descends hR hn
    exact ih m hm h1 h

theorem tight_spec (hn : n ≤ i) : (tight s k i n).2 ≤ i + k ∧ (tight s k i n).1 (i + k) = s (i + k) := by
  induction k generalizing s i n with
  | zero => exact ⟨hn, rfl⟩
  | succ k ih =>
    rw [tight, show i + (k + 1) = i + 1 + k by omega]
    split_ifs
    · exact ⟨by omega, rfl⟩
    · exact ih (by omega)
    · have := ih (s := Function.update s n (s i)) (n := n + 1) (i := i + 1) (by omega)
      rwa [Function.update_of_ne (by omega)] at this

/-- **Evaluation returns** exactly if not both the text without its blanks and what follows its first character have
an operand with an open parenthesis. -/
theorem evaluate_returns_iff (text : CStr) : (∃ depth, (evaluate text depth).isSome) ↔
    ¬ (0 < (compact text).2 ∧ Unclosed (compact text).1 ((compact text).2 - 1) 0 ∧
      Unclosed (compact text).1 ((compact text).2 - 1) 1) := by
  obtain ⟨hle, he⟩ := tight_spec (s := ofList text.1) (k := text.1.length) (le_refl 0)
  have he : (compact text).1 (0 + text.1.length) = 0 := he.trans (by simp [ofList])
  constructor
  · rintro h ⟨hpos, h0, h1⟩
    exact h0.not_returns h1 (by omega) h
  · intro h
    refine returns_of he (by unfold compact; omega) (by omega) fun h0 hR => ?_
    refine returns_of he (by unfold compact; omega) (by omega) fun h1 _ => ?_
    exact absurd ⟨by omega, h0, h1⟩ h

/-- `1+(` -/
def onePlusOpen : CStr := ⟨[49, 43, 40], by decide⟩

/-- **The parenthesis at the end is not closed**: the evaluation of `1+(` does not end. -/
theorem onePlusOpen_runs_on : ¬ ∃ depth, (evaluate onePlusOpen depth).isSome := by
  have hlast : Unclosed (compact onePlusOpen).1 2 2 := .here (by decide) (by decide)
  have hplus : ∀ i ≤ 1, Unclosed (compact onePlusOpen).1 2 i := fun i hi =>
    have hfind : ∀ i ≤ 1, (compact onePlusOpen).1 i ≠ 40 ∧ findopera (compact onePlusOpen).1 i 2 = some 1 := by decide
    .operator (hfind i hi).1 (hfind i hi).2 hlast
  exact Unclosed.not_returns (hplus 0 (Nat.zero_le _)) (hplus 1 le_rfl) (by decide)

end NasFirmware.Bootparam
