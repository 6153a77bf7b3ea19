import NasFirmware.Tar.Model

/-!
# Tar headers

A header is well formed if it decides by itself, wherever it lies in memory, that it is accepted, what
its name is and how large its file is.

* **`tarBuildHeader_valid`**: it builds well-formed headers, for names that fit the field and start with
  an ASCII character.
-/

namespace NasFirmware.Tar

open ByteMem CString

structure ValidHeader (name : List UInt8) (size : ℕ) (h : List UInt8) : Prop where
  length : h.length = 512
  name_eq : (h.take 100).takeWhile (· ≠ 0) = name
  name_ne : name ≠ []
  name_lt : name.length < 100
  check : ∀ m a, read m a 512 = h → tarCheckHeader m a = true
  size_eq : ∀ m a, read m a 512 = h → simpleStrtol m (a + 124) 8 = size

section Valid

variable {name h : List UInt8} {size : ℕ} {m : Mem} {a : ℕ}

theorem ValidHeader.nameAt (hv : ValidHeader name size h) (hr : read m a 512 = h) :
    nameAt m a 100 = name := by
  rw [← hv.name_eq, ← hr, CString.nameAt, show 512 = 100 + 412 from rfl, read_add,
    List.take_left' (length_read ..)]

theorem ValidHeader.first (hv : ValidHeader name size h) (hr : read m a 512 = h) :
    name.head? = some (m a) ∧ m a ≠ 0 ∧ m a ≤ 0x7f := by
  have hname := hv.nameAt hr
  have hcheck := hv.check m a hr
  rw [tarCheckHeader, Bool.and_eq_true, decide_eq_true_eq] at hcheck
  rw [CString.nameAt, read_succ] at hname
  by_cases h0 : m a = 0
  · simp only [h0, List.takeWhile_cons, ne_eq, not_true, decide_false] at hname
    exact absurd hname.symm hv.name_ne
  · simp only [List.takeWhile_cons, ne_eq, h0, not_false_eq_true, decide_true, if_true] at hname
    rw [← hname]
    exact ⟨rfl, h0, hcheck.1⟩

end Valid

/-! ## Building -/

theorem tarChecksum_congr {m m' : Mem} {a b : ℕ} (h : read m' b 512 = read m a 512) :
    tarChecksum m' b = tarChecksum m a := by
  have h1 := read_slice h (o := 0) (k := 148) (by omega)
  have h2 := read_slice h (o := 156) (k := 356) (by omega)
  rw [Nat.add_zero, Nat.add_zero] at h1
  rw [tarChecksum, tarChecksum, h1, h2]

theorem sum_read_le (m : Mem) (a n : ℕ) : ((read m a n).map UInt8.toNat).sum ≤ n * 255 := by
  have h := List.sum_le_card_nsmul ((read m a n).map UInt8.toNat) 255 (by
    intro x hx
    obtain ⟨c, -, rfl⟩ := List.mem_map.mp hx
    have := c.toNat_lt
    omega)
  simpa using h

theorem tarChecksum_lt (m : Mem) (a : ℕ) : tarChecksum m a < 8 ^ 6 := by
  have h1 := sum_read_le m a 148
  have h2 := sum_read_le m (a + 156) 356
  rw [tarChecksum]
  omega

theorem tarChecksum_fill (m : Mem) (a : ℕ) : tarChecksum (tarFillChecksum m a) a = tarChecksum m a := by
  unfold tarFillChecksum
  generalize hbs : octal 6 (tarChecksum m a) ++ [0, 0x20] = bs
  have hlen : bs.length = 8 := by rw [← hbs]; simp
  rw [tarChecksum, tarChecksum, read_write_of_disjoint (Or.inl (by omega)),
    read_write_of_disjoint (Or.inr (by omega))]

section Build

variable {m : Mem} {a : ℕ} {filename : List UInt8} {length : ℕ} {filetype : UInt8} {s : List UInt8} {dst k : ℕ}

theorem strcpy_apply_of_not (hk : k < dst ∨ dst + (s.length + 1) ≤ k) :
    strcpy m dst s k = m k :=
  write_apply_of_not (by simpa using hk)

theorem read_strcpy_of_disjoint {off n : ℕ}
    (h : off + n ≤ dst ∨ dst + (s.length + 1) ≤ off) : read (strcpy m dst s) off n = read m off n :=
  read_write_of_disjoint (by simpa using h)

theorem read_strcpy_self (m : Mem) (dst : ℕ) (s : List UInt8) :
    read (strcpy m dst s) dst (s.length + 1) = s ++ [0] := by
  have h := read_write_self m dst (s ++ [0])
  rwa [List.length_append, List.length_singleton] at h

theorem tarBuildHeader_name (hlt : filename.length < 100) :
    read (tarBuildHeader m a filename length filetype) a (filename.length + 1) = filename ++ [0] := by
  unfold tarBuildHeader tarFillChecksum
  rw [read_write_of_disjoint (Or.inl (by omega)), read_memset_of_disjoint (Or.inl (by omega)),
    read_strcpy_of_disjoint (Or.inl (by omega)), read_memset_of_disjoint (Or.inl (by omega)),
    read_strcpy_of_disjoint (Or.inl (by omega)), read_memset_of_disjoint (Or.inl (by omega)),
    read_strcpy_of_disjoint (Or.inl (by omega)), read_strcpy_of_disjoint (Or.inl (by omega)),
    read_memset_of_disjoint (Or.inl (by omega)), read_write_of_disjoint (Or.inl (by omega)),
    read_strcpy_of_disjoint (Or.inl (by omega)), read_strcpy_of_disjoint (Or.inl (by omega)),
    read_strcpy_of_disjoint (Or.inl (by omega)), read_strcpy_of_disjoint (Or.inl (by omega)),
    read_strcpy_self]

theorem tarBuildHeader_size :
    read (tarBuildHeader m a filename length filetype) (a + 124) 12 = octal 11 length ++ [0] := by
  unfold tarBuildHeader tarFillChecksum
  rw [read_write_of_disjoint (Or.inl (by omega)), read_memset_of_disjoint (Or.inl (by omega)),
    read_strcpy_of_disjoint (Or.inl (by omega)), read_memset_of_disjoint (Or.inl (by omega)),
    read_strcpy_of_disjoint (Or.inl (by omega)), read_memset_of_disjoint (Or.inl (by omega)),
    read_strcpy_of_disjoint (Or.inl (by omega))]
  simpa using read_strcpy_self _ (a + 124) (octal 11 length)

theorem tarFillChecksum_field (m : Mem) (a : ℕ) :
    read (tarFillChecksum m a) (a + 148) 7 = octal 6 (tarChecksum (tarFillChecksum m a) a) ++ [0] := by
  rw [tarChecksum_fill]
  have h := read_write_self m (a + 148) ((octal 6 (tarChecksum m a) ++ [0]) ++ [0x20])
  have h' := read_append_left h
  exact h'

theorem tarBuildHeader_frame (hlt : filename.length < 100) (hk : k < a ∨ a + 500 ≤ k) :
    tarBuildHeader m a filename length filetype k = m k := by
  unfold tarBuildHeader tarFillChecksum
  rw [write_apply_of_not, memset_apply_of_not, strcpy_apply_of_not, memset_apply_of_not,
    strcpy_apply_of_not, memset_apply_of_not, strcpy_apply_of_not, strcpy_apply_of_not,
    memset_apply_of_not, write_apply_of_not, strcpy_apply_of_not, strcpy_apply_of_not,
    strcpy_apply_of_not, strcpy_apply_of_not, strcpy_apply_of_not]
  all_goals try simp only [List.length_cons, List.length_nil, List.length_append, length_octal]
  all_goals omega

theorem check_of_fields {m' : Mem} {b : ℕ} (hr : read m' b 512 = read m a 512) (hascii : m a ≤ 0x7f)
    (hsum : read m (a + 148) 7 = octal 6 (tarChecksum m a) ++ [0]) : tarCheckHeader m' b = true := by
  have hfirst : m' b = m a := by
    have := read_slice hr (o := 0) (k := 1) (by omega)
    simpa [read_succ] using this
  have hfield := (read_slice hr (o := 148) (k := 7) (by omega)).trans hsum
  have hlt := tarChecksum_lt m a
  have hval := simpleStrtol_octal (by omega) (by omega) hlt (by omega) hfield
  rw [tarCheckHeader, tarChecksum_congr hr, hval, hfirst, decide_eq_true hascii, Bool.true_and,
    beq_iff_eq]
  omega

theorem validHeader_of_fields (name : CStr) (hne : name.1 ≠ []) (hlt : name.1.length < 100)
    (hascii : ∀ c ∈ name.1.head?, c ≤ 0x7f) (hlen : length < 2 ^ 31)
    (hname : read m a (name.1.length + 1) = name.1 ++ [0])
    (hsize : read m (a + 124) 12 = octal 11 length ++ [0])
    (hsum : read m (a + 148) 7 = octal 6 (tarChecksum m a) ++ [0]) :
    ValidHeader name.1 length (read m a 512) := by
  have hfirst : m a ≤ 0x7f := by
    obtain ⟨c, cs, hcs⟩ := List.exists_cons_of_ne_nil hne
    rw [hcs, List.cons_append, read_succ, List.cons.injEq] at hname
    rw [hname.1]
    exact hascii c (by rw [hcs]; rfl)
  refine ⟨length_read .., ?_, hne, hlt, fun m' b hr => ?_, fun m' b hr => ?_⟩
  · obtain ⟨r, hr⟩ := Nat.exists_eq_add_of_le hlt
    rw [show 512 = 100 + 412 from rfl, read_add, List.take_left' (length_read ..), hr, read_add, hname,
      List.append_assoc, List.takeWhile_append_of_pos (fun c hc => by
        rw [decide_eq_true_eq]
        exact fun h => name.2 (h ▸ hc))]
    simp
  · exact check_of_fields hr hfirst hsum
  · have hfield := (read_slice hr (o := 124) (k := 12) (by omega)).trans hsize
    exact simpleStrtol_octal (by omega) (by omega) (by omega) hlen hfield

/-- **`tar_build_header` builds a well-formed header.** -/
theorem tarBuildHeader_valid (filename : CStr) (hne : filename.1 ≠ []) (hlt : filename.1.length < 100)
    (hascii : ∀ c ∈ filename.1.head?, c ≤ 0x7f) (hlen : length < 2 ^ 31) :
    ValidHeader filename.1 length (read (tarBuildHeader m a filename.1 length filetype) a 512) :=
  validHeader_of_fields filename hne hlt hascii hlen (tarBuildHeader_name hlt) tarBuildHeader_size
    (tarFillChecksum_field _ a)

end Build

end NasFirmware.Tar
