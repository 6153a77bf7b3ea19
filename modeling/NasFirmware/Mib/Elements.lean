import NasFirmware.Mib.Model

/-!
# Elements

A tag-length-value element is a tag and its value; `streamBytes` is a sequence of them as bytes.
-/

namespace NasFirmware.Mib

open CLoop ByteMem

/-! ## The swap macros -/

theorem and_0xff (v : ℕ) : v &&& 0xff = v % 256 :=
  Nat.and_two_pow_sub_one_eq_mod v 8

theorem wordSwap_eq (v : ℕ) : wordSwap v = v / 256 % 256 + 256 * (v % 256) := by
  rw [wordSwap, show (0xff00 : ℕ) = 0xff <<< 8 from rfl, ← Nat.shiftLeft_and_distrib, and_0xff,
    and_0xff, Nat.or_comm, ← Nat.shiftLeft_add_eq_or_of_lt (by omega), Nat.shiftRight_eq_div_pow,
    Nat.shiftLeft_eq]
  omega

theorem dwordSwap_eq (v : ℕ) : dwordSwap v =
    v / 16777216 % 256 + 256 * (v / 65536 % 256) + 65536 * (v / 256 % 256) + 16777216 * (v % 256) := by
  rw [dwordSwap, show (0xff000000 : ℕ) = 0xff <<< 24 from rfl,
    show (0xff0000 : ℕ) = 0xff <<< 16 from rfl, show (0xff00 : ℕ) = 0xff <<< 8 from rfl,
    ← Nat.shiftLeft_and_distrib, ← Nat.shiftLeft_and_distrib, ← Nat.shiftLeft_and_distrib]
  simp only [and_0xff, Nat.mod_mod, Nat.shiftRight_eq_div_pow]
  -- the four bytes do not overlap
  rw [Nat.or_assoc, Nat.or_assoc,
    ← Nat.shiftLeft_add_eq_or_of_lt (a := v / 2 ^ 16 % 256) (i := 8) (by omega),
    ← Nat.shiftLeft_add_eq_or_of_lt (a := v / 2 ^ 8 % 256) (i := 16)
      (by simp only [Nat.shiftLeft_eq]; omega),
    ← Nat.shiftLeft_add_eq_or_of_lt (a := v % 256) (i := 24)
      (by simp only [Nat.shiftLeft_eq]; omega)]
  omega

theorem wordSwap_lt (v : ℕ) : wordSwap v < 65536 := by
  rw [wordSwap_eq]
  omega

variable {a b v i : ℕ} {m : Mem}

theorem wordSwap_bytes (ha : a < 256) (hb : b < 256) : wordSwap (a + 256 * b) = b + 256 * a := by
  have h1 : (a + 256 * b) / 256 = b := by omega
  have h2 : (a + 256 * b) % 256 = a := by omega
  rw [wordSwap_eq, h1, h2, Nat.mod_eq_of_lt hb]

theorem dwordSwap_bytes {c d : ℕ} (ha : a < 256) (hb : b < 256) (hc : c < 256) (hd : d < 256) :
    dwordSwap (a + 256 * b + 65536 * (c + 256 * d)) = d + 256 * c + 65536 * (b + 256 * a) := by
  have h1 : (a + 256 * b + 65536 * (c + 256 * d)) / 16777216 = d := by omega
  have h2 : (a + 256 * b + 65536 * (c + 256 * d)) / 65536 = c + 256 * d := by omega
  have h3 : (a + 256 * b + 65536 * (c + 256 * d)) / 256 = b + 256 * (c + 256 * d) := by omega
  have h4 : (a + 256 * b + 65536 * (c + 256 * d)) % 256 = a := by omega
  rw [dwordSwap_eq, h1, h2, h3, h4, Nat.mod_eq_of_lt hd, Nat.add_mul_mod_self_left,
    Nat.add_mul_mod_self_left, Nat.mod_eq_of_lt hc, Nat.mod_eq_of_lt hb]
  omega

theorem wordSwap_wordSwap (hv : v < 65536) : wordSwap (wordSwap v) = v := by
  obtain ⟨a, b, ha, hb, rfl⟩ : ∃ a b, a < 256 ∧ b < 256 ∧ v = a + 256 * b :=
    ⟨v % 256, v / 256, by omega, by omega, by omega⟩
  rw [wordSwap_bytes ha hb, wordSwap_bytes hb ha]

theorem store16_bytes (a b : UInt8) : store16 (a.toNat + 256 * b.toNat) = [a, b] := by
  have ha : a.toNat < 256 := a.toNat_lt
  have hb : b.toNat < 256 := b.toNat_lt
  simp only [store16, List.cons.injEq, and_true]
  constructor
  · rw [← UInt8.toNat_inj, UInt8.toNat_ofNat']
    omega
  · rw [← UInt8.toNat_inj, UInt8.toNat_ofNat']
    omega

theorem store32_bytes (a b c d : UInt8) :
    store32 (a.toNat + 256 * b.toNat + 65536 * (c.toNat + 256 * d.toNat)) = [a, b, c, d] := by
  have ha : a.toNat < 256 := a.toNat_lt
  have hb : b.toNat < 256 := b.toNat_lt
  have hdiv : (a.toNat + 256 * b.toNat + 65536 * (c.toNat + 256 * d.toNat)) / 65536 =
      c.toNat + 256 * d.toNat := by omega
  rw [store32, hdiv, store16_bytes]
  simp only [store16, List.cons_append, List.nil_append, List.cons.injEq, and_true]
  constructor
  · rw [← UInt8.toNat_inj, UInt8.toNat_ofNat']
    omega
  · rw [← UInt8.toNat_inj, UInt8.toNat_ofNat']
    omega

theorem store16_wordSwap (m : Mem) (off : ℕ) :
    store16 (wordSwap (load16 m off)) = [m (off + 1), m off] := by
  rw [load16, wordSwap_bytes (UInt8.toNat_lt _) (UInt8.toNat_lt _), store16_bytes]

theorem store32_dwordSwap (m : Mem) (off : ℕ) :
    store32 (dwordSwap (load32 m off)) = [m (off + 3), m (off + 2), m (off + 1), m off] := by
  rw [load32, load16, load16, dwordSwap_bytes (UInt8.toNat_lt _) (UInt8.toNat_lt _)
    (UInt8.toNat_lt _) (UInt8.toNat_lt _), store32_bytes]

/-! ## Streams of elements -/

abbrev Elem := ℕ × List UInt8

def elemBytes (e : Elem) : List UInt8 := raw16 e.1 ++ raw16 e.2.length ++ e.2

def streamBytes (es : List Elem) : List UInt8 := es.flatMap elemBytes

def ElemOk (e : Elem) : Prop := e.1 < 65536 ∧ e.2.length < 65536

@[simp] theorem length_raw16 (v : ℕ) : (raw16 v).length = 2 := rfl

@[simp] theorem length_elemBytes (e : Elem) : (elemBytes e).length = e.2.length + 4 := by
  simp only [elemBytes, List.length_append, length_raw16]
  omega

theorem load16_raw16 (h : read m i 2 = raw16 v) :
    load16 m i = wordSwap (v % 65536) :=
  load16_of_read (wordSwap_lt _) h

theorem raw16_inj {w : ℕ} (hv : v < 65536) (hw : w < 65536)
    (h : wordSwap (v % 65536) = wordSwap (w % 65536)) : v = w := by
  rw [Nat.mod_eq_of_lt hv, Nat.mod_eq_of_lt hw] at h
  rw [← wordSwap_wordSwap hv, h, wordSwap_wordSwap hw]

variable {e : Elem} {es : List Elem}

theorem read_elem (hok : ElemOk e)
    (h : read m i (streamBytes (e :: es)).length = streamBytes (e :: es)) :
    load16 m i = wordSwap (e.1 % 65536) ∧ wordSwap (load16 m i) = e.1 ∧
      wordSwap (load16 m (i + 2)) = e.2.length ∧ read m (i + 4) e.2.length = e.2 ∧
      read m (i + 4 + e.2.length) (streamBytes es).length = streamBytes es := by
  obtain ⟨htag, hlen⟩ := hok
  have hcons : streamBytes (e :: es) = raw16 e.1 ++ (raw16 e.2.length ++ (e.2 ++ streamBytes es)) := by
    simp [streamBytes, elemBytes]
  rw [hcons] at h
  have h1 := read_append_left h
  have h2 := read_append_right h
  have h3 := read_append_left h2
  have h4 := read_append_right h2
  have h5 := read_append_left h4
  have h6 := read_append_right h4
  simp only [length_raw16] at h1 h2 h3 h4 h5 h6
  have hl1 := load16_raw16 h1
  have hl2 := load16_raw16 h3
  rw [Nat.mod_eq_of_lt hlen] at hl2
  refine ⟨hl1, ?_, ?_, h5, h6⟩
  · rw [hl1, Nat.mod_eq_of_lt htag, wordSwap_wordSwap htag]
  · rw [hl2, wordSwap_wordSwap hlen]

theorem read_copyTo (old src : Mem) (i n : ℕ) : read (copyTo old src i n) 0 n = read src i n := by
  refine List.map_congr_left fun k hk => ?_
  have hk' := List.mem_range.mp hk
  simp [copyTo, hk']

theorem scan_stream {n t : ℕ} (ht : t < 65536) (es : List Elem) (i times fuel : ℕ)
    (hok : ∀ e ∈ es, ElemOk e) (h : read m i (streamBytes es).length = streamBytes es)
    (hn : n = i + (streamBytes es).length) (hfuel : es.length < fuel) :
    loop (fun (i, times) =>
      some (if i < n then
        let tlvTag := load16 m i
        let times := if tlvTag = wordSwap (t % 65536) then times + 1 else times
        let tlvLen := wordSwap (load16 m (i + 2))
        .next (i + 4 + tlvLen, times)
      else .done times)) fuel ((i, times) : ℕ × ℕ) =
      some (times + es.countP (fun e => e.1 = t)) := by
  induction es generalizing i times fuel with
  | nil =>
    obtain ⟨k, rfl⟩ : ∃ k, fuel = k + 1 := ⟨fuel - 1, by simp at hfuel; omega⟩
    refine loop_succ_done ?_
    simp only [streamBytes, List.flatMap_nil, List.length_nil] at hn
    simp [hn]
  | cons e es ih =>
    obtain ⟨k, rfl⟩ : ∃ k, fuel = k + 1 := ⟨fuel - 1, by simp at hfuel; omega⟩
    have hoke := hok e (by simp)
    obtain ⟨htag, -, hlen, -, hrest⟩ := read_elem hoke h
    have hlt : i < n := by
      simp only [streamBytes, List.flatMap_cons, List.length_append, length_elemBytes] at hn
      omega
    have hiff : (load16 m i = wordSwap (t % 65536)) ↔ e.1 = t := by
      rw [htag]
      exact ⟨raw16_inj hoke.1 ht, fun h => by rw [h]⟩
    rw [loop_succ_next (show _ = some (Pass.next (i + 4 + e.2.length,
        if e.1 = t then times + 1 else times)) by simp [hlt, hiff, hlen]),
      ih _ _ _ (fun e' he' => hok e' (by simp [he'])) hrest ?_ (by simp at hfuel; omega),
      List.countP_cons]
    · by_cases he : e.1 = t
      · simp [he]
        omega
      · simp [he]
    · simp only [streamBytes, List.flatMap_cons, List.length_append, length_elemBytes] at hn ⊢
      omega

theorem length_le_streamBytes (es : List Elem) : es.length ≤ (streamBytes es).length := by
  induction es with
  | nil => simp
  | cons e es ih =>
    simp only [streamBytes, List.flatMap_cons, List.length_append, length_elemBytes,
      List.length_cons] at ih ⊢
    omega

/-- **How often the first tag of a stream occurs.** -/
theorem findSameTagTimes_stream (hok : ∀ e' ∈ e :: es, ElemOk e')
    (h : read m 0 (streamBytes (e :: es)).length = streamBytes (e :: es)) :
    findSameTagTimes m (streamBytes (e :: es)).length =
      some ((e :: es).countP (fun e' => e'.1 = e.1)) := by
  have hfirst := (read_elem (hok e (by simp)) h).1
  rw [findSameTagTimes, hfirst]
  have hscan := scan_stream (hok e (by simp)).1 (e :: es) 0 0 ((streamBytes (e :: es)).length + 1) hok h
    (Nat.zero_add _).symm (Nat.lt_succ_of_le (length_le_streamBytes _))
  rw [Nat.zero_add] at hscan
  exact hscan

theorem findSameTagTimes_zero (m : Mem) : findSameTagTimes m 0 = some 0 := rfl

end NasFirmware.Mib
