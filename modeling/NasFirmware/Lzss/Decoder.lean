import NasFirmware.Lzss.Units

/-!
# The decoder reads a grouped description

`Decode` keeps in its ring the last `N` bytes of the stream it has written, blanks first. Given the
bytes of groups of units that describe a stream from `N - F` to `Q`, it writes exactly that stretch.
-/

namespace NasFirmware.Lzss

open CLoop Function Window

theorem and_mask (i : ℕ) : i &&& (N - 1) = i % N :=
  Nat.and_two_pow_sub_one_eq_mod i 12

theorem mod_succ_mask (q : ℕ) : (q % N + 1) &&& (N - 1) = (q + 1) % N := by
  rw [and_mask, Nat.mod_add_mod]

/-- The stretch of the stream from `N - F` to `q`. -/
def written (S : ℕ → UInt8) (q : ℕ) : List UInt8 :=
  (List.range (q - (N - F))).map fun i => S (N - F + i)

/-- `Decode` has written the stream up to `q`. -/
structure DecInv (S : ℕ → UInt8) (d : DecState) (q : ℕ) : Prop where
  ring : Holds N S d.textBuf q
  r : d.r = q % N
  le : N - F ≤ q
  out : d.out = written S q

variable {S : ℕ → UInt8} {d : DecState} {q : ℕ} {ucInput : List UInt8}

section Step

variable {n k : ℕ} {rest : List UInt8}

theorem written_succ (hq : N - F ≤ q) : written S (q + 1) = written S q ++ [S q] := by
  rw [written, show q + 1 - (N - F) = q - (N - F) + 1 by omega, List.range_succ, List.map_append,
    written, List.map_singleton, show N - F + (q - (N - F)) = q by omega]

theorem putByte_inv (h : DecInv S d q) : DecInv S (putByte (S q) d) (q + 1) where
  ring := by
    simp only [putByte, h.r]
    exact h.ring.push
  r := by simp [putByte, h.r, mod_succ_mask]
  le := Nat.le_succ_of_le h.le
  out := by simp [putByte, h.out, written_succ h.le]

/-- Copying byte by byte: what is copied may have been written by the same loop. -/
theorem copyBytes_inv {i src : ℕ} (hi : i % N = src % N) (h : DecInv S d q) (hlt : src < q)
    (hW : q ≤ src + N) (hS : ∀ k < n, S (src + k) = S (q + k)) :
    DecInv S (copyBytes i n d) (q + n) := by
  induction n generalizing i src q d with
  | zero => exact h
  | succ n ih =>
    have hbyte : d.textBuf (i &&& (N - 1)) = S q := by
      rw [and_mask, hi, h.ring src hlt hW]
      simpa using hS 0 (by omega)
    have hi' : (i + 1) % N = (src + 1) % N := by rw [Nat.add_mod, hi, ← Nat.add_mod]
    rw [copyBytes, hbyte, show q + (n + 1) = q + 1 + n by omega]
    refine ih hi' (putByte_inv h) (by omega) (by omega) fun k hk => ?_
    rw [show src + 1 + k = src + (k + 1) by omega, show q + 1 + k = q + (k + 1) by omega]
    exact hS (k + 1) (by omega)

theorem copyBytes_frame (i n : ℕ) (d : DecState) :
    (copyBytes i n d).flags = d.flags ∧ (copyBytes i n d).ulPos = d.ulPos := by
  induction n generalizing i d with
  | zero => exact ⟨rfl, rfl⟩
  | succ n ih =>
    exact ih (i + 1) _

theorem getElem?_of_drop (h : ucInput.drop d.ulPos = rest) :
    ucInput[d.ulPos + k]? = rest[k]? := by
  rw [← h, List.getElem?_drop]

theorem drop_of_append {a : List UInt8} (h : ucInput.drop k = a ++ rest)
    (hn : a.length = n) : ucInput.drop (k + n) = rest := by
  rw [← List.drop_drop, h, ← hn, List.drop_left]

/-- **One unit of code.** -/
theorem decodeUnit_spec {u : CodeUnit UInt8} (h : DecInv S d q)
    (hu : u.Fits N S q) (hv : ValidUnit u) (hflag : d.flags.testBit 0 = isLit u)
    (hin : ucInput.drop d.ulPos = unitBytes u ++ rest) :
    ∃ d', decodeUnit ucInput d = .next d' ∧ DecInv S d' (q + u.span) ∧ d'.flags = d.flags ∧
      d'.ulPos = d.ulPos + (unitBytes u).length := by
  have hbit : d.flags &&& 1 ≠ 0 ↔ isLit u = true := by
    rw [← hflag, Nat.testBit_zero, Nat.and_one_is_mod, decide_eq_true_eq]
    omega
  have h0 := getElem?_of_drop (k := 0) hin
  have h1 := getElem?_of_drop (k := 1) hin
  cases u with
  | lit c =>
    obtain rfl : c = S q := hu
    simp only [Nat.add_zero, unitBytes, List.cons_append, List.getElem?_cons_zero] at h0
    rw [decodeUnit, if_pos (hbit.mpr rfl), h0]
    exact ⟨_, rfl, putByte_inv ⟨h.ring, h.r, h.le, h.out⟩, rfl, rfl⟩
  | copy src len =>
    obtain ⟨hlt, hW, hS⟩ := hu
    obtain ⟨hl1, hl2⟩ := hv
    simp only [Nat.add_zero, unitBytes, List.cons_append, List.getElem?_cons_zero,
      List.getElem?_cons_succ] at h0 h1
    have hm : len - (THRESHOLD + 1) < 16 := by
      simp only [THRESHOLD, F] at *
      omega
    have hp : src % N < 4096 := Nat.mod_lt _ (by decide)
    rw [decodeUnit, if_neg (fun hne => by cases hbit.mp hne), h0, h1]
    simp only [copyBytes_pos hp hm, copyBytes_len hm]
    rw [show len - (THRESHOLD + 1) + THRESHOLD + 1 = len by omega]
    refine ⟨_, rfl, ?_, (copyBytes_frame ..).1, ?_⟩
    · exact copyBytes_inv (Nat.mod_mod _ _) ⟨h.ring, h.r, h.le, h.out⟩ hlt hW hS
    · rw [(copyBytes_frame ..).2]
      rfl

theorem decodePass_end (h : ucInput.length ≤ d.ulPos) :
    decodePass ucInput d = some (.done d.out) := by
  have hnone : ucInput[d.ulPos]? = none := List.getElem?_eq_none h
  simp only [decodePass, hnone, decodeUnit]
  split_ifs <;> rfl

theorem and_256_eq_zero (flags : ℕ) : flags >>> 1 &&& 256 = 0 ↔ flags.testBit 9 = false := by
  have hbit : ∀ k, (flags >>> 1 &&& 256).testBit k = (flags.testBit (1 + k) && decide (8 = k)) := by
    intro k
    rw [Nat.testBit_and, Nat.testBit_shiftRight, show 256 = 2 ^ 8 by norm_num, Nat.testBit_two_pow]
  constructor
  · intro h
    have := hbit 8
    simpa [h] using this.symm
  · intro h
    refine Nat.eq_of_testBit_eq fun k => ?_
    rw [hbit, Nat.zero_testBit]
    by_cases hk : 8 = k
    · simp [← hk, h]
    · simp [hk]

end Step

/-- Groups as `Encode` writes them: none is empty, all but the last have eight units. -/
def Grouped : List (List (CodeUnit UInt8)) → Prop
  | [] => True
  | g :: gs => g ≠ [] ∧ g.length ≤ 8 ∧ (gs = [] ∨ g.length = 8) ∧ Grouped gs

/-- The loop of `Decode`: the units `us` of the present group and the groups `gs` are still to be read, and describe
the stream up to `Q`. -/
structure DecodeInv (ucInput : List UInt8) (S : ℕ → UInt8) (Q : ℕ) (d : DecState) (q : ℕ)
    (us : List (CodeUnit UInt8)) (gs : List (List (CodeUnit UInt8))) : Prop where
  dec : DecInv S d q
  covers : Covers N S q (us ++ gs.flatten) Q
  valid : ∀ u ∈ us ++ gs.flatten, ValidUnit u
  input : ucInput.drop d.ulPos = us.flatMap unitBytes ++ gs.flatMap groupBytes
  inGroup : InGroup d.flags us
  full : gs = [] ∨ d.flags.testBit (us.length + 9) = false
  grouped : Grouped gs

section Loop

variable {Q : ℕ} {us : List (CodeUnit UInt8)} {gs : List (List (CodeUnit UInt8))} {u : CodeUnit UInt8}

theorem DecodeInv.length (h : DecodeInv ucInput S Q d q us gs) :
    ucInput.length - d.ulPos = (us.flatMap unitBytes).length + (gs.flatMap groupBytes).length := by
  rw [← List.length_drop, h.input, List.length_append]

theorem decodePass_unit (h : DecodeInv ucInput S Q d q (u :: us) gs) :
    ∃ d', decodePass ucInput d = some (.next d') ∧ DecodeInv ucInput S Q d' (q + u.span) us gs ∧
      d'.ulPos = d.ulPos + (unitBytes u).length := by
  obtain ⟨hlit, hmore⟩ := h.inGroup 0 u rfl
  have hin : ucInput.drop d.ulPos =
      unitBytes u ++ (us.flatMap unitBytes ++ gs.flatMap groupBytes) := by
    rw [h.input, List.flatMap_cons, List.append_assoc]
  have hbit : (d.flags >>> 1).testBit 0 = isLit u := by
    exact hlit
  obtain ⟨d', hd', hinv, hfl, hpos⟩ := decodeUnit_spec (d := { d with flags := d.flags >>> 1 })
    ⟨h.dec.ring, h.dec.r, h.dec.le, h.dec.out⟩ h.covers.1 (h.valid u (by simp)) hbit hin
  refine ⟨d', ?_, ⟨hinv, h.covers.2, fun v hv => h.valid v (by simp_all), ?_, ?_, ?_, h.grouped⟩, hpos⟩
  · simp [decodePass, and_256_eq_zero, show d.flags.testBit 9 = true from hmore, hd']
  · rw [hpos]
    exact drop_of_append hin rfl
  · rw [hfl]
    exact h.inGroup.shift
  · rw [hfl, Nat.testBit_shiftRight]
    refine h.full.imp id fun hf => ?_
    rwa [List.length_cons, show us.length + 1 + 9 = 1 + (us.length + 9) by omega] at hf

theorem decodePass_group (h : DecodeInv ucInput S Q d q [] ((u :: us) :: gs)) :
    ∃ d', decodePass ucInput d = some (.next d') ∧ DecodeInv ucInput S Q d' (q + u.span) us gs ∧
      d'.ulPos = d.ulPos + 1 + (unitBytes u).length := by
  obtain ⟨-, hlen, hfull, hgr⟩ := h.grouped
  have hstop : d.flags.testBit 9 = false := h.full.resolve_left (by simp)
  have hin : ucInput.drop d.ulPos = [UInt8.ofNat (flagNat (u :: us))] ++
      (unitBytes u ++ (us.flatMap unitBytes ++ gs.flatMap groupBytes)) := by
    rw [h.input]
    simp [groupBytes]
  have hbyte : ucInput[d.ulPos]? = some (UInt8.ofNat (flagNat (u :: us))) := by
    have := getElem?_of_drop (k := 0) hin
    simpa using this
  have hin' := drop_of_append hin (n := 1) rfl
  have hbit : (flagNat (u :: us) ||| 0xff00).testBit 0 = isLit u := by
    rw [testBit_flags]
    simp
  have hcov : Covers N S q (u :: (us ++ gs.flatten)) Q := by simpa using h.covers
  obtain ⟨d', hd', hinv, hfl, hpos⟩ := decodeUnit_spec
    (d := { d with ulPos := d.ulPos + 1, flags := flagNat (u :: us) ||| 0xff00 })
    ⟨h.dec.ring, h.dec.r, h.dec.le, h.dec.out⟩ hcov.1 (h.valid u (by simp)) hbit hin'
  rw [List.length_cons] at hlen hfull
  refine ⟨d', ?_, ⟨hinv, hcov.2, fun v hv => h.valid v (by simp_all), ?_, ?_, ?_, hgr⟩, hpos⟩
  · simp only [decodePass, and_256_eq_zero, hstop, if_true, hbyte]
    rw [toNat_flagNat (by simpa using hlen), hd']
  · rw [hpos]
    exact drop_of_append hin' rfl
  · rw [hfl]
    exact inGroup_flags (by omega)
  · rw [hfl, testBit_flags]
    refine hfull.imp id fun hf => ?_
    simp
    omega

/-- **`Decode` writes the stream that the groups describe.** -/
theorem decode_groups (hblank : ∀ k < N - F, S k = 32) (hgr : Grouped gs)
    (hval : ∀ u ∈ gs.flatten, ValidUnit u) (hcov : Covers N S (N - F) gs.flatten Q)
    (block : ℕ → UInt8) : decode (some block) (gs.flatMap groupBytes) = some (written S Q) := by
  set ucInput := gs.flatMap groupBytes with hinput
  suffices h : ∃ out, decode (some block) ucInput = some out ∧ out = written S Q by
    obtain ⟨out, hout, he⟩ := h
    rw [hout, he]
  refine loop_of_variant
    (fun k d => k = ucInput.length - d.ulPos ∧ ∃ q us gs, DecodeInv ucInput S Q d q us gs) _
    ?_ (k := ucInput.length) ⟨rfl, N - F, [], gs, ?_⟩ (Nat.lt_succ_self _)
  · rintro k d ⟨rfl, q, us, gs, h⟩
    have hlen := h.length
    have hstep : ∀ d' : DecState, d.ulPos < d'.ulPos → d.ulPos < ucInput.length →
        ucInput.length - d'.ulPos < ucInput.length - d.ulPos := by omega
    cases us with
    | cons u us =>
      obtain ⟨d', hd', hinv, hpos⟩ := decodePass_unit h
      have := unitBytes_length_pos u
      rw [List.flatMap_cons, List.length_append] at hlen
      exact Or.inl ⟨_, d', hd', ⟨rfl, _, _, _, hinv⟩, hstep d' (by omega) (by omega)⟩
    | nil =>
      rcases gs with _ | ⟨_ | ⟨u, us⟩, gs⟩
      · refine Or.inr ⟨_, decodePass_end (by simp at hlen; omega), ?_⟩
        rw [h.dec.out, show q = Q from h.covers]
      · exact absurd rfl h.grouped.1
      · obtain ⟨d', hd', hinv, hpos⟩ := decodePass_group h
        simp only [List.flatMap_nil, List.length_nil, List.flatMap_cons, List.length_append,
          groupBytes, List.length_cons] at hlen
        exact Or.inl ⟨_, d', hd', ⟨rfl, _, _, _, hinv⟩, hstep d' (by omega) (by omega)⟩
  · refine ⟨⟨fun k hk _ => ?_, rfl, le_rfl, by simp [written]⟩, by simpa using hcov,
      by simpa using hval, by simp [hinput], fun k u hu => by simp at hu, Or.inr (by simp), hgr⟩
    have hkN : k % N = k := Nat.mod_eq_of_lt (by omega)
    simp [hkN, hk, hblank k hk]

end Loop

end NasFirmware.Lzss
