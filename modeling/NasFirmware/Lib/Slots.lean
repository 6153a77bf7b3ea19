import NasFirmware.Lib.Mem

/-!
# Bounded lists in slots of a byte array

A bounded list is a list with a capacity and four requests: append, remove the first equal entry, replace
the first equal entry, and clear. In memory it is the first slots of an array of equal size entries.

* `slot`, `slots`: the array; **`slots_write`**: storing a slot;
* `shiftDown`, **`slots_shiftDown`**: moving the slots behind an entry down removes it;
* `runAll`, **`runAll_sim`**: a step simulation lifts to runs of requests with their answers.
-/

namespace Slots

open ByteMem

inductive ListOp (α : Type) where
  | add (v : α)
  | del (v : α)
  | mod (old new : α)
  | delAll

section Abstract

variable {α : Type} [BEq α] [LawfulBEq α] {n : ℕ} {l : List α}

/-- The list after a request, and whether the request was met. `n` is the capacity. -/
def ListOp.apply (n : ℕ) (l : List α) : ListOp α → List α × Bool
  | .add v => if l.length < n then (l ++ [v], true) else (l, false)
  | .del v => if v ∈ l then (l.erase v, true) else (l, false)
  | .mod old new => if old ∈ l then (l.replace old new, true) else (l, false)
  | .delAll => ([], true)

theorem ListOp.apply_length_le (op : ListOp α) (h : l.length ≤ n) : (op.apply n l).1.length ≤ n := by
  cases op with
  | add v =>
    simp only [apply]
    split
    · rw [List.length_append, List.length_singleton]
      omega
    · exact h
  | del v =>
    simp only [apply]
    split
    · exact List.length_erase_le.trans h
    · exact h
  | mod old new =>
    simp only [apply]
    split
    · rwa [List.length_replace]
    · exact h
  | delAll => exact Nat.zero_le n

theorem ListOp.apply_of_false {op : ListOp α} (h : (op.apply n l).2 = false) : (op.apply n l).1 = l := by
  cases op with
  | delAll => cases h
  | add v | del v | mod old new =>
    simp only [apply] at h ⊢
    split at h
    · cases h
    · rw [if_neg ‹_›]

theorem replace_eq_set (l : List α) (old new : α) : l.replace old new = l.set (l.idxOf old) new := by
  induction l with
  | nil => rfl
  | cons a l ih =>
    rw [List.replace_cons, List.idxOf_cons]
    by_cases h : a = old
    · simp [h]
    · rw [beq_eq_false_iff_ne.mpr h, beq_eq_false_iff_ne.mpr (Ne.symm h), ih]
      rfl

end Abstract

/-! ## Slots -/

section Array

variable {m m' : Mem} {base unit n i j : ℕ} {v : List UInt8}

/-- Slot `i` of an array of entries of `unit` bytes. -/
def slot (m : Mem) (base unit i : ℕ) : List UInt8 := read m (base + i * unit) unit

def slots (m : Mem) (base unit n : ℕ) : List (List UInt8) := (List.range n).map (slot m base unit)

@[simp] theorem length_slots : (slots m base unit n).length = n := by
  simp [slots]

theorem getElem?_slots (hi : i < n) : (slots m base unit n)[i]? = some (slot m base unit i) := by
  simp [slots, List.getElem?_range hi]

theorem slots_succ : slots m base unit (n + 1) = slots m base unit n ++ [slot m base unit n] := by
  simp [slots, List.range_succ]

theorem slots_congr (h : ∀ k, base ≤ k → k < base + n * unit → m' k = m k) :
    slots m' base unit n = slots m base unit n := by
  refine List.map_congr_left fun i hi => read_congr fun k hk hlt => h k (by omega) ?_
  have hin : (i + 1) * unit ≤ n * unit := Nat.mul_le_mul_right _ (List.mem_range.mp hi)
  rw [Nat.succ_mul] at hin
  omega

theorem slot_write_self (hv : v.length = unit) : slot (write m (base + i * unit) v) base unit i = v := by
  subst hv
  exact read_write_self ..

theorem slot_write_of_ne (hv : v.length = unit) (hij : i ≠ j) :
    slot (write m (base + i * unit) v) base unit j = slot m base unit j := by
  refine read_write_of_disjoint ?_
  rcases Nat.lt_or_gt_of_ne hij with h | h
  · have := Nat.mul_le_mul_right unit (show i + 1 ≤ j from h)
    rw [Nat.succ_mul] at this
    omega
  · have := Nat.mul_le_mul_right unit (show j + 1 ≤ i from h)
    rw [Nat.succ_mul] at this
    omega

/-- **Storing a slot.** -/
theorem slots_write (hv : v.length = unit) :
    slots (write m (base + i * unit) v) base unit n = (slots m base unit n).set i v := by
  refine List.ext_getElem? fun j => ?_
  rw [List.getElem?_set]
  rcases Nat.lt_or_ge j n with hj | hj
  · rw [getElem?_slots hj, getElem?_slots hj, length_slots]
    by_cases hij : i = j
    · subst hij
      rw [slot_write_self hv, if_pos rfl, if_pos hj]
    · rw [slot_write_of_ne hv hij, if_neg hij]
  · simp [List.getElem?_eq_none (l := slots _ base unit n) (i := j) (by simpa using hj)]
    omega

/-- The loop `slot j ← slot (j + 1)` for `i ≤ j < n`. -/
def shiftDown (m : Mem) (base unit i n : ℕ) : Mem :=
  (List.range' i (n - i)).foldl
    (fun m j => write m (base + j * unit) (read m (base + (j + 1) * unit) unit)) m

theorem foldl_shift_apply (c k : ℕ) :
    (List.range' i c).foldl
        (fun m j => write m (base + j * unit) (read m (base + (j + 1) * unit) unit)) m k =
      if base + i * unit ≤ k ∧ k < base + (i + c) * unit then m (k + unit) else m k := by
  induction c generalizing k with
  | zero =>
    rw [if_neg (by rw [Nat.add_zero]; omega)]
    rfl
  | succ c ih =>
    have hend : (i + (c + 1)) * unit = (i + c) * unit + unit := by rw [← Nat.add_assoc, Nat.succ_mul]
    have hic : i * unit ≤ (i + c) * unit := Nat.mul_le_mul_right _ (Nat.le_add_right i c)
    rw [List.range'_1_concat, List.foldl_append, List.foldl_cons, List.foldl_nil, hend]
    by_cases hk : base + (i + c) * unit ≤ k ∧ k < base + (i + c) * unit + unit
    · -- the slot this pass stores; the slot behind it is still the old one
      rw [write_apply_mem hk.1 (by simpa using hk.2), List.getD_eq_getElem?_getD,
        getElem?_read _ _ _ _ (by omega), Option.getD_some, if_pos (by omega), ih, Nat.succ_mul,
        if_neg (by omega)]
      congr 1
      omega
    · rw [write_apply_of_not (by rw [length_read]; omega), ih]
      by_cases hlt : base + i * unit ≤ k ∧ k < base + (i + c) * unit
      · rw [if_pos hlt, if_pos (by omega)]
      · rw [if_neg hlt, if_neg (by omega)]

theorem shiftDown_apply (hi : i ≤ n) (k : ℕ) :
    shiftDown m base unit i n k =
      if base + i * unit ≤ k ∧ k < base + n * unit then m (k + unit) else m k := by
  rw [shiftDown, foldl_shift_apply, Nat.add_sub_cancel' hi]

theorem slot_shiftDown (hi : i ≤ n) (hj : j < n) :
    slot (shiftDown m base unit i n) base unit j =
      if j < i then slot m base unit j else slot m base unit (j + 1) := by
  have hjn : (j + 1) * unit ≤ n * unit := Nat.mul_le_mul_right _ hj
  have hsucc : (j + 1) * unit = j * unit + unit := Nat.succ_mul ..
  by_cases hij : j < i
  · have hji : (j + 1) * unit ≤ i * unit := Nat.mul_le_mul_right _ hij
    rw [if_pos hij]
    refine read_congr fun k hk hlt => ?_
    rw [shiftDown_apply hi, if_neg (by omega)]
  · have hji : i * unit ≤ j * unit := Nat.mul_le_mul_right _ (Nat.le_of_not_lt hij)
    rw [if_neg hij]
    refine List.map_congr_left fun k hk => ?_
    have hk := List.mem_range.mp hk
    rw [shiftDown_apply hi, if_pos (by omega)]
    congr 1
    omega

/-- **Moving the slots behind an entry down removes the entry.** -/
theorem slots_shiftDown (hi : i ≤ n) :
    slots (shiftDown m base unit i (n + 1)) base unit n = (slots m base unit (n + 1)).eraseIdx i := by
  refine List.ext_getElem? fun j => ?_
  rw [List.getElem?_eraseIdx]
  rcases Nat.lt_or_ge j n with hj | hj
  · rw [getElem?_slots hj, slot_shiftDown (by omega) (by omega), getElem?_slots (by omega),
      getElem?_slots (by omega)]
    split <;> rfl
  · rw [if_neg (by omega), List.getElem?_eq_none (by simpa using hj),
      List.getElem?_eq_none (by simpa using hj)]

/-- The search loop over the first `n` slots: the first one equal to `v`, or `n`. -/
def findEntry (m : Mem) (base unit n : ℕ) (v : List UInt8) : ℕ :=
  (List.range n).findIdx fun i => slot m base unit i == v

theorem findEntry_eq : findEntry m base unit n v = (slots m base unit n).idxOf v := by
  rw [findEntry, List.idxOf, slots, List.findIdx_map]
  rfl

end Array

section Runs

variable {σ τ α β γ : Type}

def runAll (serve : σ → α → σ × β) : List α → σ → σ × List β
  | [], s => (s, [])
  | a :: as, s =>
    let r := runAll serve as (serve s a).1
    (r.1, (serve s a).2 :: r.2)

/-- **Simulation of runs.** Requests that keep `R` and are answered alike one by one are answered alike in
every run. -/
theorem runAll_sim {serve : σ → α → σ × β} {serve' : τ → γ → τ × β} (R : σ → τ → Prop) (f : α → γ)
    (hstep : ∀ s t a, R s t → R (serve s a).1 (serve' t (f a)).1 ∧ (serve s a).2 = (serve' t (f a)).2)
    (as : List α) {s : σ} {t : τ} (h : R s t) :
    R (runAll serve as s).1 (runAll serve' (as.map f) t).1 ∧
      (runAll serve as s).2 = (runAll serve' (as.map f) t).2 := by
  induction as generalizing s t with
  | nil => exact ⟨h, rfl⟩
  | cons a as ih =>
    obtain ⟨hR, hans⟩ := hstep s t a h
    obtain ⟨hrun, hanss⟩ := ih hR
    refine ⟨hrun, ?_⟩
    simp only [runAll, List.map_cons]
    rw [hans, hanss]

theorem length_runAll_add [BEq α] [LawfulBEq α] (v : α) {n k : ℕ} {l : List α} (h : l.length + k ≤ n) :
    (runAll (ListOp.apply n) (List.replicate k (.add v)) l).1.length = l.length + k := by
  induction k generalizing l with
  | zero => rfl
  | succ k ih =>
    simp only [List.replicate_succ, runAll, ListOp.apply]
    rw [if_pos (by omega), ih (by rw [List.length_append, List.length_singleton]; omega), List.length_append,
      List.length_singleton]
    omega

end Runs

end Slots
