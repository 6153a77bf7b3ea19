import NasFirmware.Lzss.Decoder

/-!
# `Decode` on any file

`Decode` is handed whatever lies on the flash. Every file stands for some units, which end where the file does not
hold another one, and `Decode` writes the text of these units. A reference may name a cell of the ring that was not
written yet and is not cleared either, so the text depends on the block that was allocated.

* **`decode_eq_fileText`**: what `Decode` writes;
* `length_fileText`, **`spans_units_le`**: its length, at most nine times that of the file.
-/

namespace NasFirmware.Lzss

open CLoop Function Window

/-! ## The format -/

/-- The units of a file, with `left` flags of the group still to come in `flags`. -/
def unitsFrom : ℕ → ℕ → List UInt8 → List (CodeUnit UInt8)
  | 0, _, [] => []
  | 0, _, c :: rest => unitsFrom 8 c.toNat rest
  | _ + 1, _, [] => []
  | left + 1, flags, [c] => if flags.testBit 0 then .lit c :: unitsFrom left (flags >>> 1) [] else []
  | left + 1, flags, i :: j :: rest =>
    if flags.testBit 0 then .lit i :: unitsFrom left (flags >>> 1) (j :: rest)
    else .copy (i.toNat ||| ((j.toNat &&& 0xf0) <<< 4)) ((j.toNat &&& 0x0f) + THRESHOLD + 1) ::
      unitsFrom left (flags >>> 1) rest

def units (ucInput : List UInt8) : List (CodeUnit UInt8) := unitsFrom 0 0 ucInput

def spans (ucInput : List UInt8) : ℕ := ((units ucInput).map CodeUnit.span).sum

/-- The ring before the first byte: blanks, and the end of the block as it was. -/
def startRing (block : ℕ → UInt8) : ℕ → UInt8 := fun i => if i < N - F then 32 else block i

/-- The ring as a text in which the next byte has the index `N + (N - F)`. -/
def startText (block : ℕ → UInt8) : List UInt8 := (List.range (N + (N - F))).map fun k => startRing block (k % N)

def fileText (block : ℕ → UInt8) (ucInput : List UInt8) : List UInt8 :=
  (expandUnits N (startText block) (units ucInput)).drop (N + (N - F))

theorem length_startText (block : ℕ → UInt8) : (startText block).length = N + (N - F) := by
  rw [startText, List.length_map, List.length_range]

theorem length_fileText (block : ℕ → UInt8) (ucInput : List UInt8) :
    (fileText block ucInput).length = spans ucInput := by
  rw [fileText, List.length_drop, length_expandUnits, length_startText, Nat.add_sub_cancel_left, spans]

theorem fileText_of_lits {ucInput cs : List UInt8} (h : units ucInput = cs.map .lit) (block : ℕ → UInt8) :
    fileText block ucInput = cs := by
  have hlits : ∀ text : List UInt8, expandUnits N text (cs.map .lit) = text ++ cs := by
    clear h
    induction cs with
    | nil => exact fun text => (List.append_nil text).symm
    | cons c cs ih =>
      intro text
      rw [List.map_cons, expandUnits, List.foldl_cons, ← expandUnits, ih, expandUnit, List.append_assoc]
      rfl
  rw [fileText, h, hlits, List.drop_left' (length_startText block)]

/-- A unit of `k` bytes stands for at most `9 * k` bytes, and the flags for none. -/
theorem spans_unitsFrom_le (left flags : ℕ) (x : List UInt8) :
    ((unitsFrom left flags x).map CodeUnit.span).sum ≤ 9 * x.length := by
  fun_induction unitsFrom left flags x with
  | case1 => exact Nat.zero_le _
  | case2 _ _ _ ih =>
    rw [List.length_cons]
    omega
  | case3 => exact Nat.zero_le _
  | case4 _ _ _ _ ih =>
    rw [List.map_cons, List.sum_cons, CodeUnit.span, List.length_singleton]
    simp only [List.length_nil] at ih
    omega
  | case5 => exact Nat.zero_le _
  | case6 _ _ _ _ _ _ ih =>
    rw [List.map_cons, List.sum_cons, CodeUnit.span, List.length_cons]
    omega
  | case7 _ _ _ j _ _ ih =>
    have hlen : j.toNat &&& 0x0f ≤ 0x0f := Nat.and_le_right
    rw [List.map_cons, List.sum_cons, CodeUnit.span, List.length_cons, List.length_cons, THRESHOLD]
    omega

/-- **A file expands to at most nine times its length.** -/
theorem spans_le (ucInput : List UInt8) : spans ucInput ≤ 9 * ucInput.length := spans_unitsFrom_le 0 0 ucInput

/-- The unit at the front of `x`, a plain byte or a reference, and what follows it. -/
def nextUnit : Bool → List UInt8 → Option (CodeUnit UInt8 × List UInt8)
  | true, c :: rest => some (.lit c, rest)
  | false, i :: j :: rest =>
    some (.copy (i.toNat ||| ((j.toNat &&& 0xf0) <<< 4)) ((j.toNat &&& 0x0f) + THRESHOLD + 1), rest)
  | _, _ => none

theorem nextUnit_nil (b : Bool) : nextUnit b [] = none := by
  cases b <;> rfl

theorem unitsFrom_succ (left flags : ℕ) (x : List UInt8) : unitsFrom (left + 1) flags x =
    (nextUnit (flags.testBit 0) x).elim [] fun r => r.1 :: unitsFrom left (flags >>> 1) r.2 := by
  rcases x with _ | ⟨i, _ | ⟨j, rest⟩⟩ <;> cases hbit : flags.testBit 0 <;>
    simp [unitsFrom, nextUnit, hbit]

/-- The ring and the output of `Decode` are the end of a text, and all of it behind the start. -/
structure TextShown (d : DecState) (text : List UInt8) : Prop where
  ring : Shows N text d.textBuf
  r : d.r = text.length % N
  long : N ≤ text.length
  out : d.out = text.drop (N + (N - F))
  start : N + (N - F) ≤ text.length

variable {d : DecState} {text ucInput : List UInt8}

section Step

theorem TextShown.putByte (h : TextShown d text) (c : UInt8) : TextShown (putByte c d) (text ++ [c]) where
  ring := by
    rw [Lzss.putByte, h.r]
    exact h.ring.push c
  r := by
    rw [Lzss.putByte, h.r, mod_succ_mask, List.length_append, List.length_singleton]
  long := by
    rw [List.length_append]
    exact Nat.le_add_right_of_le h.long
  out := by
    rw [Lzss.putByte, h.out, List.drop_append_of_le_length h.start]
  start := by
    rw [List.length_append]
    exact Nat.le_add_right_of_le h.start

theorem TextShown.copyBytes (h : TextShown d text) (i n : ℕ) :
    TextShown (copyBytes i n d) (copyCells N i n text) := by
  induction n generalizing i d text with
  | zero => exact h
  | succ n ih =>
    have hbyte : d.textBuf (i &&& (N - 1)) = text.getD (lastIn N i text.length) default := by
      rw [and_mask]
      exact h.ring.cell (by decide) h.long i
    rw [Lzss.copyBytes, hbyte, copyCells]
    exact ih (h.putByte _) (i + 1)

theorem flag_iff (flags : ℕ) : flags &&& 1 ≠ 0 ↔ flags.testBit 0 = true := by
  rw [Nat.testBit_zero, Nat.and_one_is_mod, decide_eq_true_eq]
  omega

theorem decodeUnit_some (h : TextShown d text) {u : CodeUnit UInt8} {rest : List UInt8}
    (hnext : nextUnit (d.flags.testBit 0) (ucInput.drop d.ulPos) = some (u, rest)) :
    ∃ d', decodeUnit ucInput d = .next d' ∧ TextShown d' (expandUnit N text u) ∧ d'.flags = d.flags ∧
      ucInput.drop d'.ulPos = rest ∧ d.ulPos < d'.ulPos ∧ d.ulPos < ucInput.length := by
  have hmore : d.ulPos < ucInput.length := by
    by_contra hend
    rw [List.drop_eq_nil_of_le (Nat.not_lt.mp hend), nextUnit_nil] at hnext
    cases hnext
  have h0 : ucInput[d.ulPos + 0]? = _ := getElem?_of_drop rfl
  have h1 : ucInput[d.ulPos + 1]? = _ := getElem?_of_drop rfl
  have hshown : ∀ n, TextShown { d with ulPos := n } text := fun n => ⟨h.ring, h.r, h.long, h.out, h.start⟩
  cases hbit : d.flags.testBit 0 with
  | true =>
    rw [hbit] at hnext
    obtain ⟨c, tl, hx⟩ : ∃ c tl, ucInput.drop d.ulPos = c :: tl := by
      cases hx : ucInput.drop d.ulPos with
      | nil => rw [hx] at hnext; cases hnext
      | cons c tl => exact ⟨c, tl, rfl⟩
    rw [hx] at hnext h0
    cases hnext
    rw [decodeUnit, if_pos ((flag_iff _).mpr hbit), show ucInput[d.ulPos]? = some c from h0]
    exact ⟨_, rfl, (hshown _).putByte c, rfl, drop_of_append (a := [c]) hx rfl, Nat.lt_succ_self _, hmore⟩
  | false =>
    rw [hbit] at hnext
    obtain ⟨i, j, tl, hx⟩ : ∃ i j tl, ucInput.drop d.ulPos = i :: j :: tl := by
      rcases hx : ucInput.drop d.ulPos with _ | ⟨i, _ | ⟨j, tl⟩⟩
      · rw [hx] at hnext; cases hnext
      · rw [hx] at hnext; cases hnext
      · exact ⟨i, j, tl, rfl⟩
    rw [hx] at hnext h0 h1
    cases hnext
    have hno : ¬ (d.flags &&& 1 ≠ 0) := fun hne => Bool.false_ne_true (hbit.symm.trans ((flag_iff _).mp hne))
    rw [decodeUnit, if_neg hno, show ucInput[d.ulPos]? = some i from h0,
      show ucInput[d.ulPos + 1]? = some j from h1]
    refine ⟨_, rfl, (hshown _).copyBytes _ _, (copyBytes_frame ..).1, ?_, ?_, hmore⟩
    · rw [(copyBytes_frame ..).2]
      exact drop_of_append (a := [i, j]) hx rfl
    · rw [(copyBytes_frame ..).2]
      exact Nat.lt_add_of_pos_right (by decide)

theorem decodeUnit_none (hnext : nextUnit (d.flags.testBit 0) (ucInput.drop d.ulPos) = none) :
    decodeUnit ucInput d = .done d.out := by
  have h0 : ucInput[d.ulPos + 0]? = _ := getElem?_of_drop rfl
  have h1 : ucInput[d.ulPos + 1]? = _ := getElem?_of_drop rfl
  rw [Nat.add_zero] at h0
  cases hbit : d.flags.testBit 0 with
  | true =>
    rw [hbit] at hnext
    rw [decodeUnit, if_pos ((flag_iff _).mpr hbit)]
    cases hx : ucInput.drop d.ulPos with
    | nil => rw [h0, hx]; rfl
    | cons c tl => rw [hx] at hnext; cases hnext
  | false =>
    rw [hbit] at hnext
    have hno : ¬ (d.flags &&& 1 ≠ 0) := fun hne => Bool.false_ne_true (hbit.symm.trans ((flag_iff _).mp hne))
    rw [decodeUnit, if_neg hno]
    rcases hx : ucInput.drop d.ulPos with _ | ⟨i, _ | ⟨j, tl⟩⟩
    · rw [h0, hx]; rfl
    · rw [h0, h1, hx]; rfl
    · rw [hx] at hnext; cases hnext

end Step

/-- `Decode` between two units: `left` flags of the group are still to come in `flags`, and the rest of the file makes
the text `Q`. -/
structure AnyInv (ucInput Q : List UInt8) (d : DecState) (left flags : ℕ) (text : List UInt8) : Prop where
  shown : TextShown d text
  low : ∀ k < left, d.flags.testBit (k + 1) = flags.testBit k
  high : ∀ k, d.flags.testBit (k + 9) = decide (k < left)
  rest : expandUnits N text (unitsFrom left flags (ucInput.drop d.ulPos)) = Q

section Loop

variable {Q : List UInt8} {left flags : ℕ}

theorem decodeUnit_any (h : TextShown d text) (hlow : ∀ k < left + 1, d.flags.testBit k = flags.testBit k)
    (hhigh : ∀ k, d.flags.testBit (k + 8) = decide (k < left + 1))
    (hrest : expandUnits N text (unitsFrom (left + 1) flags (ucInput.drop d.ulPos)) = Q) :
    decodeUnit ucInput d = .done (Q.drop (N + (N - F))) ∨
      ∃ d' text', decodeUnit ucInput d = .next d' ∧ AnyInv ucInput Q d' left (flags >>> 1) text' ∧
        d.ulPos < d'.ulPos ∧ d.ulPos < ucInput.length := by
  rw [unitsFrom_succ, ← hlow 0 (Nat.succ_pos _)] at hrest
  cases hnext : nextUnit (d.flags.testBit 0) (ucInput.drop d.ulPos) with
  | none =>
    rw [hnext] at hrest
    refine Or.inl ?_
    rw [decodeUnit_none hnext, h.out, ← hrest]
    rfl
  | some r =>
    rw [hnext] at hrest
    obtain ⟨d', hd', hshown, hflags, hdrop, hpos, hmore⟩ := decodeUnit_some h hnext
    refine Or.inr ⟨d', _, hd', ⟨hshown, fun k hk => ?_, fun k => ?_, ?_⟩, hpos, hmore⟩
    · rw [hflags, hlow (k + 1) (by omega), Nat.testBit_shiftRight, Nat.add_comm]
    · rw [hflags, show k + 9 = k + 1 + 8 by omega, hhigh]
      simp
    · rw [hdrop]
      exact hrest

theorem decodePass_any (h : AnyInv ucInput Q d left flags text) :
    decodePass ucInput d = some (.done (Q.drop (N + (N - F)))) ∨
      ∃ d' left' flags' text', decodePass ucInput d = some (.next d') ∧ AnyInv ucInput Q d' left' flags' text' ∧
        d.ulPos < d'.ulPos ∧ d.ulPos < ucInput.length := by
  have hsentinel := h.high 0
  have h0 : ucInput[d.ulPos + 0]? = _ := getElem?_of_drop rfl
  rw [Nat.add_zero] at h0
  cases left with
  | zero =>
    have hnew : d.flags >>> 1 &&& 256 = 0 := (and_256_eq_zero _).mpr (by simpa using hsentinel)
    have hrest := h.rest
    simp only [decodePass, if_pos hnew, h0]
    cases hx : ucInput.drop d.ulPos with
    | nil =>
      rw [hx] at hrest
      refine Or.inl ?_
      rw [h.shown.out, ← hrest]
      rfl
    | cons c tl =>
      rw [hx, unitsFrom] at hrest
      have hmore : d.ulPos < ucInput.length := by
        by_contra hend
        rw [List.drop_eq_nil_of_le (Nat.not_lt.mp hend)] at hx
        cases hx
      set d₁ : DecState := { d with ulPos := d.ulPos + 1, flags := c.toNat ||| 0xff00 } with hd₁
      have hshown : TextShown d₁ text := ⟨h.shown.ring, h.shown.r, h.shown.long, h.shown.out, h.shown.start⟩
      have hlow : ∀ k < 7 + 1, d₁.flags.testBit k = c.toNat.testBit k := by
        intro k hk
        rw [hd₁, Nat.testBit_or, testBit_0xff00]
        simp [show ¬ 8 ≤ k by omega]
      have hhigh : ∀ k, d₁.flags.testBit (k + 8) = decide (k < 7 + 1) := by
        intro k
        have hc : c.toNat.testBit (k + 8) = false :=
          Nat.testBit_lt_two_pow (lt_of_lt_of_le c.toNat_lt (Nat.pow_le_pow_right (n := 2) (by omega) (by omega)))
        rw [hd₁, Nat.testBit_or, testBit_0xff00, hc]
        simp
        omega
      have hdrop : ucInput.drop d₁.ulPos = tl := drop_of_append (a := [c]) hx rfl
      rw [← hdrop] at hrest
      rcases decodeUnit_any hshown hlow hhigh hrest with hdone | ⟨d', text', hd', hinv, hpos, -⟩
      · exact Or.inl (congrArg some hdone)
      · exact Or.inr ⟨d', _, _, text', congrArg some hd', hinv, (Nat.lt_succ_self _).trans hpos, hmore⟩
  | succ left =>
    have hsame : ¬ (d.flags >>> 1 &&& 256 = 0) := by
      rw [and_256_eq_zero, show d.flags.testBit 9 = true by simpa using hsentinel]
      simp
    set d₁ : DecState := { d with flags := d.flags >>> 1 } with hd₁
    have hshown : TextShown d₁ text := ⟨h.shown.ring, h.shown.r, h.shown.long, h.shown.out, h.shown.start⟩
    have hlow : ∀ k < left + 1, d₁.flags.testBit k = flags.testBit k := by
      intro k hk
      rw [hd₁, Nat.testBit_shiftRight, Nat.add_comm, h.low k hk]
    have hhigh : ∀ k, d₁.flags.testBit (k + 8) = decide (k < left + 1) := by
      intro k
      rw [hd₁, Nat.testBit_shiftRight, show 1 + (k + 8) = k + 9 by omega, h.high k]
    simp only [decodePass, if_neg hsame]
    rcases decodeUnit_any hshown hlow hhigh h.rest with hdone | ⟨d', text', hd', hinv, hpos, hmore⟩
    · exact Or.inl (congrArg some hdone)
    · exact Or.inr ⟨d', _, _, text', congrArg some hd', hinv, hpos, hmore⟩

end Loop

/-- **`Decode` writes the text of the file**, for every file. -/
theorem decode_eq_fileText (block : ℕ → UInt8) (ucInput : List UInt8) :
    decode (some block) ucInput = some (fileText block ucInput) := by
  set Q := expandUnits N (startText block) (units ucInput) with hQ
  suffices h : ∃ out, decode (some block) ucInput = some out ∧ out = Q.drop (N + (N - F)) by
    obtain ⟨out, hout, he⟩ := h
    rw [hout, he, hQ, fileText]
  refine loop_of_variant
    (fun k d => k = ucInput.length - d.ulPos ∧ ∃ left flags text, AnyInv ucInput Q d left flags text) _
    ?_ (k := ucInput.length) ⟨rfl, 0, 0, startText block, ?_⟩ (Nat.lt_succ_self _)
  · rintro k d ⟨rfl, left, flags, text, h⟩
    rcases decodePass_any h with hdone | ⟨d', left', flags', text', hd', hinv, hpos, hmore⟩
    · exact Or.inr ⟨_, hdone, rfl⟩
    · exact Or.inl ⟨_, d', hd', ⟨rfl, left', flags', text', hinv⟩, by omega⟩
  · have hlen := length_startText block
    refine ⟨⟨fun k hk _ => ?_, ?_, ?_, ?_, hlen.ge⟩, fun k hk => absurd hk (Nat.not_lt_zero k), fun k => ?_, rfl⟩
    · dsimp only
      rw [List.getD_eq_getElem _ _ hk]
      simp [startText, startRing]
    · rw [hlen]
      exact (by decide : N - F = (N + (N - F)) % N)
    · rw [hlen]
      exact Nat.le_add_right _ _
    · rw [← hlen, List.drop_length]
    · simp

end NasFirmware.Lzss
