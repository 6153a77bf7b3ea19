import NasFirmware.Bootparam.Evaluate

/-!
# What the evaluator computes

`f` takes everything behind the first operator as its right operand, so all operators have one precedence and associate
to the right.

* **`f_denotes`**: `f` on an expression, wherever it stands; `read_tight`: what `tight` leaves of a text;
* **`evaluate_denotes`**: the value of every expression, with blanks in it and a comment behind it.
-/

namespace NasFirmware.Bootparam

open ByteMem CString

/-! ## Expressions -/

abbrev Number := { d : List UInt8 // d ≠ [] ∧ ∀ c ∈ d, 48 ≤ c ∧ c ≤ 57 }

def Number.value (d : Number) : Int32 := Int32.ofInt (d.1.foldl (fun n c => n * 10 + (c.toNat - 48)) 0)

/-- `w` is an expression of value `v`: a number or a group, alone or with an operator and an expression behind it, and
nothing is divided by zero. -/
inductive Denotes : List UInt8 → Int32 → Prop
  | number (d : Number) : Denotes d.1 d.value
  | group {w : List UInt8} {v : Int32} : Denotes w v → Denotes (40 :: (w ++ [41])) v
  | numberThen (d : Number) {op : UInt8} {w : List UInt8} {v : Int32} : isopera op = true → Denotes w v →
      (op = 47 → v ≠ 0) → Denotes (d.1 ++ op :: w) (calcOp d.value op v)
  | groupThen {op : UInt8} {w w' : List UInt8} {v v' : Int32} : Denotes w v → isopera op = true → Denotes w' v' →
      (op = 47 → v' ≠ 0) → Denotes (40 :: (w ++ 41 :: op :: w')) (calcOp v op v')

variable {s : Mem} {i L n : ℕ} {R : ℤ} {w w' : List UInt8} {v : Int32}

theorem Denotes.length_pos (h : Denotes w v) : 0 < w.length := by
  cases h with
  | number d => exact List.length_pos_iff.mpr d.2.1
  | _ => simp

theorem read_cons_iff {b : UInt8} : read s L (b :: w).length = b :: w ↔ s L = b ∧ read s (L + 1) w.length = w := by
  rw [List.length_cons, read_succ, List.cons.injEq]

/-! ## Parentheses -/

/-- A text that `balance` passes over. -/
def Neutral (w : List UInt8) : Prop := ∀ (s : Mem) (c j n : ℕ), 0 < c → read s j w.length = w →
  balanceFrom s c j (w.length + n) = balanceFrom s c (j + w.length) n

theorem Neutral.append (h : Neutral w) (h' : Neutral w') : Neutral (w ++ w') := by
  intro s c j n hc hread
  rw [List.length_append, Nat.add_assoc, h s c j _ hc (read_append_left hread),
    h' s c _ n hc (read_append_right hread), Nat.add_assoc]

theorem neutral_singleton {b : UInt8} (h40 : b ≠ 40) (h41 : b ≠ 41) : Neutral [b] := by
  intro s c j n hc hread
  have hb := (read_cons_iff.mp hread).1
  rw [List.length_singleton, Nat.add_comm, balanceFrom, count, hb, if_neg h40, if_neg h41, if_neg hc.ne']

theorem neutral_of_notMem (h40 : 40 ∉ w) (h41 : 41 ∉ w) : Neutral w := by
  induction w with
  | nil => intro s c j n _ _; simp
  | cons b w ih =>
    rw [List.mem_cons, not_or] at h40 h41
    exact (neutral_singleton (Ne.symm h40.1) (Ne.symm h41.1)).append (ih h40.2 h41.2)

theorem Neutral.group (h : Neutral w) : Neutral (40 :: (w ++ [41])) := by
  intro s c j n hc hread
  obtain ⟨h40, hread⟩ := read_cons_iff.mp hread
  have hclose := (read_cons_iff.mp (read_append_right hread)).1
  -- inside the group the counter is one higher
  have hopen : count s c j = c + 1 := by simp [count, h40]
  have hback : count s (c + 1) (j + 1 + w.length) = c := by simp [count, hclose]
  rw [List.length_cons, List.length_append, List.length_singleton,
    show w.length + 1 + 1 + n = w.length + (n + 1) + 1 by omega, balanceFrom, hopen, if_neg (by omega),
    h s _ _ _ (by omega) (read_append_left hread), balanceFrom, hback, if_neg hc.ne']
  congr 1
  omega

theorem neutral_operator {op : UInt8} (h : isopera op = true) : Neutral [op] := by
  refine neutral_singleton ?_ ?_ <;> rintro rfl <;> cases h

theorem Number.notMem (d : Number) {c : UInt8} (hc : c < 48) : c ∉ d.1 := fun h => UInt8.not_le.mpr hc (d.2.2 c h).1

theorem Number.neutral (d : Number) : Neutral d.1 := neutral_of_notMem (d.notMem (by decide)) (d.notMem (by decide))

theorem Denotes.neutral (h : Denotes w v) : Neutral w := by
  induction h with
  | number d => exact d.neutral
  | group _ ih => exact ih.group
  | numberThen d hop _ _ ih => exact d.neutral.append ((neutral_operator hop).append ih)
  | groupThen _ hop _ _ ih ih' => simpa using ih.group.append ((neutral_operator hop).append ih')

theorem balance_group (h : Neutral w) (hread : read s (L + 1) w.length = w) (hclose : s (L + 1 + w.length) = 41)
    (hR : L + w.length + 1 ≤ R) : balance s L R = some (L + 1 + w.length) := by
  obtain ⟨k, hk⟩ : ∃ k, (R - L).toNat = w.length + (k + 1) := ⟨(R - L).toNat - w.length - 1, by omega⟩
  rw [balance, hk, h s _ _ _ one_pos hread, balanceFrom,
    show count s 1 (L + 1 + w.length) = 0 by simp [count, hclose], if_pos rfl]

/-! ## Numbers -/

theorem Number.foldl_eq (d : Number) : d.1.foldl (fun n c => n * 10 + Int32.ofNat c.toNat - 48) 0 = d.value := by
  change d.1.foldl _ (Int32.ofInt 0) = _
  refine List.foldl_hom Int32.ofInt fun n c => ?_
  rw [Int32.ofInt_add, Int32.ofInt_mul, Int32.ofInt_sub, Int32.ofInt_eq_ofNat]
  grind

section

variable (d : Number) (hread : read s L d.1.length = d.1)

include hread

theorem Number.apply_mem (hi : i < d.1.length) : s (L + i) ∈ d.1 := by
  rw [← hread]
  exact List.mem_map.mpr ⟨i, List.mem_range.mpr hi, rfl⟩

theorem Number.not_open : s L ≠ 40 := fun h =>
  d.notMem (by decide) (h ▸ d.apply_mem hread (List.length_pos_iff.mpr d.2.1))

theorem Number.not_isopera (hi : i < d.1.length) : isopera (s (L + i)) = false := by
  have hne : ∀ b < 48, s (L + i) ≠ b := fun b hb he => d.notMem hb (he ▸ d.apply_mem hread hi)
  simp [isopera, hne 43 (by decide), hne 45 (by decide), hne 42 (by decide), hne 47 (by decide)]

theorem Number.findopera_eq (hR : L + d.1.length ≤ R) (hop : isopera (s (L + d.1.length)) = true) :
    findopera s L R = some (L + d.1.length) := by
  rw [findopera, List.find?_range'_eq_some]
  refine ⟨hop, by rw [List.mem_range'_1]; omega, fun j hj hlt => ?_⟩
  obtain ⟨i, rfl⟩ := Nat.exists_eq_add_of_le hj
  rw [d.not_isopera hread (by omega), Bool.not_false]

theorem Number.f_eq (hR : R + 1 = L + d.1.length) : f s (n + 1) L R = some d.value := by
  have hlen : (R + 1 - L).toNat = d.1.length := by omega
  have hnone : findopera s L R = none := by
    rw [findopera, List.find?_eq_none]
    intro j hj
    obtain ⟨hle, hlt⟩ := List.mem_range'_1.mp hj
    obtain ⟨i, rfl⟩ := Nat.exists_eq_add_of_le hle
    simp [d.not_isopera hread (show i < d.1.length by omega)]
  simp [f, d.not_open hread, hnone, getnum, hlen, hread, d.foldl_eq]

end

/-! ## Values -/

theorem f_group (h : s L = 40) {k : ℕ} (hk : balance s L R = some k) (hl : f s n (L + 1) (k - 1) = some v) :
    f s (n + 1) L R = if R ≤ k then some v else (f s n (k + 2) R).map (calcOp v (s (k + 1))) := by
  have hinner : f s n (L + 1) (((k + 1 : ℕ) : ℤ) - 2) = some v := by
    rw [show ((k + 1 : ℕ) : ℤ) - 2 = k - 1 by push_cast; ring, hl]
  simp only [f, h, if_true, hk, Option.elim_some, hinner, Option.bind_eq_bind, Option.bind_some]
  by_cases hR : R ≤ k
  · rw [if_pos hR, if_pos (by omega)]
  · rw [if_neg hR, if_neg (by omega)]
    cases f s n (k + 2) R <;> rfl

/-- **`f` on an expression**, wherever it stands: as many calls are enough as it has characters. -/
theorem f_denotes (h : Denotes w v) (hread : read s L w.length = w) (hR : R + 1 = L + w.length) (hn : w.length ≤ n) :
    f s n L R = some v := by
  induction h generalizing L R n with
  | number d =>
    obtain ⟨n, rfl⟩ := Nat.exists_eq_add_of_le' ((List.length_pos_iff.mpr d.2.1).trans_le hn)
    exact d.f_eq hread hR
  | group hw ih =>
    obtain ⟨h40, hread⟩ := read_cons_iff.mp hread
    have hclose := (read_cons_iff.mp (read_append_right hread)).1
    have hread := read_append_left hread
    simp only [List.length_cons, List.length_append, List.length_nil] at hR hn
    obtain ⟨n, rfl⟩ := Nat.exists_eq_add_of_le' (show 1 ≤ n by omega)
    rw [f_group h40 (balance_group hw.neutral hread hclose (by omega)) (ih hread (by omega) (by omega)),
      if_pos (by omega)]
  | numberThen d hop hw _ ih =>
    obtain ⟨rfl, hrest⟩ := read_cons_iff.mp (read_append_right hread)
    have hread := read_append_left hread
    have hpos := hw.length_pos
    simp only [List.length_cons, List.length_append] at hR hn
    obtain ⟨n, rfl⟩ := Nat.exists_eq_add_of_le' (show 2 ≤ n by omega)
    rw [f, if_neg (d.not_open hread), d.findopera_eq hread (by omega) hop]
    simp [d.f_eq hread, ih (n := n + 1) (R := R) hrest (by omega) (by omega)]
  | groupThen hw hop _ _ ih ih' =>
    obtain ⟨h40, hread⟩ := read_cons_iff.mp hread
    obtain ⟨hclose, htail⟩ := read_cons_iff.mp (read_append_right hread)
    obtain ⟨rfl, hrest⟩ := read_cons_iff.mp htail
    have hread := read_append_left hread
    simp only [List.length_cons, List.length_append] at hR hn
    obtain ⟨n, rfl⟩ := Nat.exists_eq_add_of_le' (show 1 ≤ n by omega)
    rw [f_group h40 (balance_group hw.neutral hread hclose (by omega)) (ih hread (by omega) (by omega)),
      if_neg (by omega), ih' hrest (by omega) (by omega)]
    rfl

/-! ## Blanks and comments -/

/-- What is left of a text: nothing behind `//`, `/*` or the end of the line, and no blanks. -/
def kept : List UInt8 → List UInt8
  | [] => []
  | c :: l =>
    if c = 47 ∧ (l.headD 0 = 47 ∨ l.headD 0 = 42) ∨ c = 13 ∨ c = 10 then []
    else if isspace c then kept l else c :: kept l

theorem read_tight (hn : n ≤ i) (hread : read s i (w.length + 1) = w ++ [0]) :
    read (tight s w.length i n).1 0 (tight s w.length i n).2 = read s 0 n ++ kept w := by
  induction w generalizing s i n with
  | nil => simp [tight, kept]
  | cons c w ih =>
    rw [List.length_cons, read_succ, List.cons_append, List.cons.injEq] at hread
    obtain ⟨hc, hread⟩ := hread
    have hnext : s (i + 1) = w.headD 0 := by
      have := congrArg List.head? hread
      cases w <;> simpa [read_succ] using this
    have hstop : (strncmpEq s i [47, 47] 2 || strncmpEq s i [47, 42] 2 || s i == 13 || s i == 10) = true ↔
        c = 47 ∧ (w.headD 0 = 47 ∨ w.headD 0 = 42) ∨ c = 13 ∨ c = 10 := by
      simp [strncmpEq, startsWith, read_succ, hc, hnext, and_or_left, or_assoc]
    rw [List.length_cons, tight, kept, if_congr hstop rfl rfl, hc]
    split_ifs
    · simp
    · exact ih (by omega) hread
    · have hread' : read (Function.update s n c) (i + 1) (w.length + 1) = w ++ [0] := by
        rw [← hread]
        exact read_congr fun k hk _ => Function.update_of_ne (by omega) ..
      have hfront : read (Function.update s n c) 0 n = read s 0 n :=
        read_congr fun k _ hk => Function.update_of_ne (by omega) ..
      rw [ih (by omega) hread', read_add, hfront]
      simp [read_succ]

/-- **Evaluation associates to the right**: if what is left of a text is an expression, `evaluate` returns its value. -/
theorem evaluate_denotes (text : CStr) (h : Denotes (kept text.1) v) {depth : ℕ} (hd : (kept text.1).length ≤ depth) :
    evaluate text depth = some v := by
  have hzero : read (ofList text.1) 0 (text.1.length + 1) = text.1 ++ [0] := by
    rw [read_add, read_ofList]
    simp [read_succ, ofList]
  have hread : read (compact text).1 0 (compact text).2 = kept text.1 := read_tight (le_refl 0) hzero
  have hlen : (compact text).2 = (kept text.1).length := by rw [← hread, length_read]
  rw [hlen] at hread
  exact f_denotes h hread (by omega) hd

/-- `1 - 2 - 3 // x` -/
def oneMinus : CStr := ⟨[49, 32, 45, 32, 50, 32, 45, 32, 51, 32, 47, 47, 32, 120], by decide⟩

theorem evaluate_oneMinus : evaluate oneMinus 5 = some 2 :=
  have h : Denotes [50, 45, 51] _ := .numberThen ⟨[50], by simp⟩ rfl (.number ⟨[51], by simp⟩) (by decide)
  evaluate_denotes oneMinus (.numberThen ⟨[49], by simp⟩ rfl h (by decide)) (by decide)

end NasFirmware.Bootparam
