import Mathlib

/-!
# Byte memory

A memory is a function from addresses to bytes. `read m off n` is a stretch of it and
`write m off bs` stores one.
-/

namespace ByteMem

abbrev Mem := ℕ → UInt8

def read (m : Mem) (off n : ℕ) : List UInt8 := (List.range n).map fun i => m (off + i)

def write (m : Mem) (off : ℕ) (bs : List UInt8) : Mem :=
  fun k => if off ≤ k ∧ k < off + bs.length then bs.getD (k - off) 0 else m k

def memset (m : Mem) (off n : ℕ) (c : UInt8) : Mem := fun k => if off ≤ k ∧ k < off + n then c else m k

def ofList (bs : List UInt8) : Mem := fun k => bs.getD k 0

variable {m m' : Mem} {off n k : ℕ} {bs : List UInt8} {a b : List UInt8} {c : UInt8} {v : ℕ}

@[simp] theorem length_read (m : Mem) (off n : ℕ) : (read m off n).length = n := by
  simp [read]

@[simp] theorem read_zero (m : Mem) (off : ℕ) : read m off 0 = [] := rfl

theorem getElem?_read (m : Mem) (off n i : ℕ) (hi : i < n) : (read m off n)[i]? = some (m (off + i)) := by
  simp [read, List.getElem?_range hi]

theorem read_succ (m : Mem) (off n : ℕ) : read m off (n + 1) = m off :: read m (off + 1) n := by
  simp only [read, List.range_succ_eq_map, List.map_cons, List.map_map, Nat.add_zero, List.cons.injEq,
    true_and]
  refine List.map_congr_left fun i _ => ?_
  simp only [Function.comp_apply]
  congr 1
  omega

theorem read_add (m : Mem) (off a b : ℕ) : read m off (a + b) = read m off a ++ read m (off + a) b := by
  induction a generalizing off with
  | zero => simp
  | succ a ih =>
    rw [Nat.add_right_comm, read_succ, ih, read_succ, List.cons_append,
      show off + 1 + a = off + (a + 1) by omega]

theorem take_read (h : k ≤ n) : (read m off n).take k = read m off k := by
  rw [read, ← List.map_take, List.take_range, Nat.min_eq_left h, read]

theorem drop_read (h : k ≤ n) : (read m off n).drop k = read m (off + k) (n - k) := by
  obtain ⟨r, rfl⟩ := Nat.exists_eq_add_of_le h
  rw [read_add, List.drop_left' (length_read ..), Nat.add_sub_cancel_left]

theorem read_congr (h : ∀ k, off ≤ k → k < off + n → m' k = m k) : read m' off n = read m off n := by
  refine List.map_congr_left fun i hi => h _ (by omega) ?_
  have := List.mem_range.mp hi
  omega

theorem eq_of_read_eq (h : read m' off n = read m off n) (hk : off ≤ k) (hlt : k < off + n) :
    m' k = m k := by
  have h' := congrArg (fun l => l[k - off]?) h
  simp only [getElem?_read _ _ _ _ (show k - off < n by omega), Option.some.injEq] at h'
  rwa [show off + (k - off) = k by omega] at h'

theorem read_append_left (h : read m off (a ++ b).length = a ++ b) :
    read m off a.length = a := by
  rw [List.length_append, read_add] at h
  exact (List.append_inj h (by simp)).1

theorem read_append_right (h : read m off (a ++ b).length = a ++ b) :
    read m (off + a.length) b.length = b := by
  rw [List.length_append, read_add] at h
  exact (List.append_inj h (by simp)).2

theorem read_shift (m : Mem) (c off n : ℕ) : read (fun k => m (c + k)) off n = read m (c + off) n := by
  simp [read, Nat.add_assoc]

theorem read_slice {a b : ℕ} (h : read m' b n = read m a n) {o k : ℕ} (hk : o + k ≤ n) :
    read m' (b + o) k = read m (a + o) k := by
  obtain ⟨r, rfl⟩ := Nat.exists_eq_add_of_le hk
  simp only [read_add, List.append_assoc] at h
  have h1 := (List.append_inj h (by simp)).2
  exact (List.append_inj h1 (by simp)).1

/-! ## Writing -/

theorem write_apply_lt (hk : k < off) : write m off bs k = m k :=
  if_neg (by omega)

theorem write_apply_ge (hk : off + bs.length ≤ k) : write m off bs k = m k :=
  if_neg (by omega)

theorem write_apply_of_not (hk : k < off ∨ off + bs.length ≤ k) : write m off bs k = m k :=
  if_neg (by omega)

@[simp] theorem write_nil (m : Mem) (off : ℕ) : write m off [] = m := by
  funext k
  exact if_neg (by simp)

theorem write_apply_mem (hk : off ≤ k) (hlt : k < off + bs.length) :
    write m off bs k = bs.getD (k - off) 0 :=
  if_pos ⟨hk, hlt⟩

theorem read_write_self (m : Mem) (off : ℕ) (bs : List UInt8) : read (write m off bs) off bs.length = bs := by
  refine List.ext_getElem (by simp) fun i h₁ h₂ => ?_
  simp only [read, List.getElem_map, List.getElem_range]
  rw [write_apply_mem (by omega) (by omega), Nat.add_sub_cancel_left, List.getD_eq_getElem?_getD,
    List.getElem?_eq_getElem h₂, Option.getD_some]

theorem memset_apply_mem (hk : off ≤ k) (hlt : k < off + n) : memset m off n c k = c :=
  if_pos ⟨hk, hlt⟩

theorem memset_apply_of_not (hk : k < off ∨ off + n ≤ k) : memset m off n c k = m k :=
  if_neg (by omega)

theorem read_memset_of_disjoint {l : ℕ} (h : off + n ≤ k ∨ k + l ≤ off) :
    read (memset m k l c) off n = read m off n :=
  read_congr fun i hi hlt => memset_apply_of_not (by omega)

theorem read_memset_self (m : Mem) (off n : ℕ) (c : UInt8) : read (memset m off n c) off n = List.replicate n c :=
  List.eq_replicate_iff.mpr ⟨length_read .., fun b hb => by
    obtain ⟨k, hk, rfl⟩ := List.mem_map.mp hb
    have := List.mem_range.mp hk
    exact memset_apply_mem (by omega) (by omega)⟩

theorem read_ofList (bs : List UInt8) : read (ofList bs) 0 bs.length = bs := by
  refine List.ext_getElem (by simp) fun i h₁ h₂ => ?_
  simp only [read, ofList, List.getElem_map, List.getElem_range, Nat.zero_add]
  rw [List.getD_eq_getElem?_getD, List.getElem?_eq_getElem h₂, Option.getD_some]

theorem read_ofList_read (m : Mem) (a n : ℕ) : read (ofList (read m a n)) 0 n = read m a n := by
  have h := read_ofList (read m a n)
  rwa [length_read] at h

theorem read_write_of_disjoint (h : off + n ≤ k ∨ k + bs.length ≤ off) :
    read (write m k bs) off n = read m off n := by
  refine read_congr fun i hi hlt => ?_
  rcases h with h | h
  · exact write_apply_lt (by omega)
  · exact write_apply_ge (by omega)

theorem write_apply_of_read {d : Mem} (h : bs = read d off n) (hk : off ≤ k) (hlt : k < off + n) :
    write m off bs k = d k := by
  subst h
  rw [write_apply_mem hk (by simpa using hlt), List.getD_eq_getElem?_getD,
    getElem?_read _ _ _ _ (by omega), Option.getD_some, show off + (k - off) = k by omega]

theorem write_const (h : ∀ b ∈ bs, b = c) : write (fun _ => c) off bs = fun _ => c := by
  funext k
  by_cases hk : off ≤ k ∧ k < off + bs.length
  · rw [write_apply_mem hk.1 hk.2, List.getD_eq_getElem?_getD, List.getElem?_eq_getElem (by omega),
      Option.getD_some]
    exact h _ (List.getElem_mem _)
  · exact if_neg hk

theorem read_write_append {as : List UInt8} (h : read m off as.length = as) :
    read (write m (off + as.length) bs) off (as ++ bs).length = as ++ bs := by
  rw [List.length_append, read_add, read_write_of_disjoint (Or.inl le_rfl), h, read_write_self]

theorem write_append (m : Mem) (off : ℕ) (as bs : List UInt8) :
    write (write m off as) (off + as.length) bs = write m off (as ++ bs) := by
  funext k
  rcases Nat.lt_or_ge k off with h1 | h1
  · rw [write_apply_lt (by omega), write_apply_lt h1, write_apply_lt h1]
  rcases Nat.lt_or_ge k (off + as.length) with h2 | h2
  · rw [write_apply_lt h2, write_apply_mem h1 h2, write_apply_mem h1 (by rw [List.length_append]; omega),
      List.getD_eq_getElem?_getD, List.getD_eq_getElem?_getD, List.getElem?_append_left (by omega)]
  rcases Nat.lt_or_ge k (off + as.length + bs.length) with h3 | h3
  · rw [write_apply_mem h2 h3, write_apply_mem h1 (by rw [List.length_append]; omega),
      List.getD_eq_getElem?_getD, List.getD_eq_getElem?_getD, List.getElem?_append_right (by omega),
      Nat.sub_add_eq]
  · rw [write_apply_ge h3, write_apply_ge h2, write_apply_ge (by rw [List.length_append]; omega)]

theorem write_read_self (m : Mem) (off n : ℕ) : write m off (read m off n) = m := by
  funext k
  by_cases hk : off ≤ k ∧ k < off + n
  · exact write_apply_of_read rfl hk.1 hk.2
  · exact if_neg (by rwa [length_read])

theorem write_read_add (m d : Mem) (off a b : ℕ) :
    write (write m off (read d off a)) (off + a) (read d (off + a) b) =
      write m off (read d off (a + b)) := by
  funext k
  rcases Nat.lt_or_ge k off with h1 | h1
  · rw [write_apply_lt (by omega), write_apply_lt h1, write_apply_lt h1]
  rcases Nat.lt_or_ge k (off + a) with h2 | h2
  · rw [write_apply_lt h2, write_apply_of_read rfl h1 h2, write_apply_of_read rfl h1 (by omega)]
  rcases Nat.lt_or_ge k (off + a + b) with h3 | h3
  · rw [write_apply_of_read rfl h2 h3, write_apply_of_read rfl h1 (by omega)]
  · rw [write_apply_ge (by simpa using h3), write_apply_ge (by simpa using h2),
      write_apply_ge (by simp only [length_read]; omega)]

/-! ## Little-endian words -/

def load16 (m : Mem) (off : ℕ) : ℕ := (m off).toNat + 256 * (m (off + 1)).toNat

def store16 (v : ℕ) : List UInt8 := [UInt8.ofNat v, UInt8.ofNat (v / 256)]

def load32 (m : Mem) (off : ℕ) : ℕ := load16 m off + 65536 * load16 m (off + 2)

def store32 (v : ℕ) : List UInt8 := store16 v ++ store16 (v / 65536)

@[simp] theorem length_store16 (v : ℕ) : (store16 v).length = 2 := rfl

@[simp] theorem length_store32 (v : ℕ) : (store32 v).length = 4 := rfl

theorem load16_lt (m : Mem) (off : ℕ) : load16 m off < 65536 := by
  have h1 : (m off).toNat < 256 := (m off).toNat_lt
  have h2 : (m (off + 1)).toNat < 256 := (m (off + 1)).toNat_lt
  simp only [load16]
  omega

theorem load32_lt (m : Mem) (off : ℕ) : load32 m off < 2 ^ 32 := by
  have h1 := load16_lt m off
  have h2 := load16_lt m (off + 2)
  simp only [load32]
  omega

theorem load16_congr (h : ∀ k, off ≤ k → k < off + 2 → m' k = m k) : load16 m' off = load16 m off := by
  rw [load16, load16, h off (by omega) (by omega), h (off + 1) (by omega) (by omega)]

theorem load32_congr (h : ∀ k, off ≤ k → k < off + 4 → m' k = m k) : load32 m' off = load32 m off := by
  rw [load32, load32, load16_congr fun k hk hlt => h k hk (by omega),
    load16_congr fun k hk hlt => h k (by omega) (by omega)]

theorem load16_of_read (hv : v < 65536) (h : read m off 2 = store16 v) : load16 m off = v := by
  simp only [read_succ, read_zero, store16, List.cons.injEq, and_true] at h
  simp only [load16, h, UInt8.toNat_ofNat']
  omega

theorem load32_of_read (hv : v < 2 ^ 32) (h : read m off 4 = store32 v) : load32 m off = v := by
  have h' : read m off (2 + 2) = store16 v ++ store16 (v / 65536) := h
  rw [read_add] at h'
  obtain ⟨h1, h2⟩ := List.append_inj h' (by simp)
  have hhigh : load16 m (off + 2) = v / 65536 := load16_of_read (by omega) h2
  rw [load32, hhigh]
  simp only [read_succ, read_zero, store16, List.cons.injEq, and_true] at h1
  simp only [load16, h1, UInt8.toNat_ofNat']
  omega

theorem store16_load16 (m : Mem) (off : ℕ) : store16 (load16 m off) = read m off 2 := by
  have h1 : (m off).toNat < 256 := (m off).toNat_lt
  have h2 : (m (off + 1)).toNat < 256 := (m (off + 1)).toNat_lt
  simp only [store16, load16, read_succ, read_zero, List.cons.injEq, and_true]
  constructor
  · rw [← UInt8.toNat_inj, UInt8.toNat_ofNat']
    omega
  · rw [← UInt8.toNat_inj, UInt8.toNat_ofNat']
    omega

end ByteMem
