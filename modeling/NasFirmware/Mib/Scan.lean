import NasFirmware.Mib.RoundTrip

/-!
# The short scanner

`tlv_simple_mib_get` takes one value directly from a TLV block. It reads tags and lengths as they are in
memory, without the swaps of the full parser, so on a little-endian target it sees them with their bytes
exchanged.
-/

namespace NasFirmware.Mib

open CLoop ByteMem

/-- One pass of the loop of `tlv_simple_mib_get`: `i` is the offset of a header. -/
def simplePass (mibId : ℕ) (idx : Mem) (totalLen i : ℕ) : Option (Pass ℕ (Option (List UInt8))) :=
  some (if i < totalLen then
    if mibId = load16 idx i then .done (some (read idx (i + 4) (load16 idx (i + 2))))
    else .next (i + 4 + load16 idx (i + 2))
  else .done none)

/-- `tlv_simple_mib_get`: the bytes copied to `value`, or `none` for -1. -/
def tlvSimpleMibGet (mibId : ℕ) (fromData : Mem) (totalLen : ℕ) : Option (Option (List UInt8)) :=
  loop (simplePass mibId fromData totalLen) (totalLen + 1) 0

/-- `mib_tlv_save`: the block made of a struct. -/
def mibTlvSave (s : MibSchema) (mibData : Mem) : List UInt8 := mibWriteToRaw s.root mibData 0

theorem tlvSimpleMibGet_isSome (mibId : ℕ) (fromData : Mem) (totalLen : ℕ) :
    ∃ r, tlvSimpleMibGet mibId fromData totalLen = some r := by
  have hstop : ∃ r, tlvSimpleMibGet mibId fromData totalLen = some r ∧ True := by
    refine loop_of_variant (fun k i => k = totalLen - i) (fun _ => True) (fun k i hk => ?_) rfl
      (Nat.lt_succ_self (totalLen - 0))
    by_cases hi : i < totalLen
    · by_cases hid : mibId = load16 fromData i
      · exact Or.inr ⟨_, by rw [simplePass, if_pos hi, if_pos hid], trivial⟩
      · exact Or.inl ⟨_, _, by rw [simplePass, if_pos hi, if_neg hid], rfl, by omega⟩
    · exact Or.inr ⟨_, by rw [simplePass, if_neg hi], trivial⟩
  exact hstop.imp fun r hr => hr.1

def SameBytes (v : ℕ) : Prop := v / 256 = v % 256

instance (v : ℕ) : Decidable (SameBytes v) := inferInstanceAs (Decidable (_ = _))

variable {v o : ℕ} {d d' : Mem} {t : MibTable} {e : MibEntry} {pre post : List MibEntry}

theorem sameBytes_iff (hv : v < 65536) : SameBytes v ↔ wordSwap v = v := by
  rw [SameBytes, wordSwap_eq]
  omega

theorem wordSwap_pos (hv : v < 65536) (h0 : 0 < v) : 0 < wordSwap v := by
  rw [wordSwap_eq]
  omega

section Stream

variable {mibId totalLen i n : ℕ} {idx idx' : Mem} {x y : Elem} {xs ys : List Elem}

theorem length_streamBytes_cons (x : Elem) (xs : List Elem) :
    (streamBytes (x :: xs)).length = x.2.length + 4 + (streamBytes xs).length := by
  simp [streamBytes]

theorem streamBytes_append (xs ys : List Elem) : streamBytes (xs ++ ys) = streamBytes xs ++ streamBytes ys :=
  List.flatMap_append

/-- The pass at a header: tag and length are seen with their bytes exchanged. -/
theorem simplePass_elem (hok : ElemOk x)
    (hin : read idx i (streamBytes (x :: xs)).length = streamBytes (x :: xs)) (hlt : i < totalLen) :
    simplePass mibId idx totalLen i =
      some (if mibId = wordSwap x.1 then .done (some (read idx (i + 4) (wordSwap x.2.length)))
        else .next (i + 4 + wordSwap x.2.length)) := by
  obtain ⟨htag, -, hlen, -, -⟩ := read_elem hok hin
  rw [Nat.mod_eq_of_lt hok.1] at htag
  have hlen' : load16 idx (i + 2) = wordSwap x.2.length := by
    rw [← hlen, wordSwap_wordSwap (load16_lt ..)]
  rw [simplePass, if_pos hlt, htag, hlen']

/-- **A scan in step finds its element**: the lengths in front have two equal bytes, and no tag in front is taken for
it. -/
theorem scan_found (hok : ∀ z ∈ xs ++ y :: ys, ElemOk z)
    (hin : read idx i (streamBytes (xs ++ y :: ys)).length = streamBytes (xs ++ y :: ys))
    (htotal : i + (streamBytes (xs ++ y :: ys)).length ≤ totalLen) (hstep : ∀ z ∈ xs, SameBytes z.2.length)
    (hne : ∀ z ∈ xs, mibId ≠ wordSwap z.1) (hy : mibId = wordSwap y.1) (hn : xs.length < n) :
    loop (simplePass mibId idx totalLen) n i =
      some (some (read idx (i + (streamBytes xs).length + 4) (wordSwap y.2.length))) := by
  induction xs generalizing i n with
  | nil =>
    obtain ⟨k, rfl⟩ : ∃ k, n = k + 1 := ⟨n - 1, by omega⟩
    rw [List.nil_append, length_streamBytes_cons] at htotal
    refine loop_succ_done ?_
    rw [simplePass_elem (hok y (by simp)) hin (by omega), if_pos hy]
    rfl
  | cons x xs ih =>
    obtain ⟨k, rfl⟩ : ∃ k, n = k + 1 := ⟨n - 1, by omega⟩
    have hokx := hok x (by simp)
    have hsame := (sameBytes_iff hokx.2).mp (hstep x (by simp))
    rw [List.cons_append, length_streamBytes_cons] at htotal
    have hpass : simplePass mibId idx totalLen i = some (.next (i + 4 + x.2.length)) := by
      rw [simplePass_elem hokx hin (by omega), if_neg (hne x (by simp)), hsame]
    rw [loop_succ_next hpass, ih (fun z hz => hok z (by simp [hz])) (read_elem hokx hin).2.2.2.2 (by omega)
      (fun z hz => hstep z (by simp [hz])) (fun z hz => hne z (by simp [hz]))
      (by simp only [List.length_cons] at hn; omega), length_streamBytes_cons]
    congr 3
    omega

theorem scan_congr {j : ℕ} (h : ∀ k, j ≤ k → idx' k = idx k) (hj : j ≤ i) :
    loop (simplePass mibId idx' totalLen) n i = loop (simplePass mibId idx totalLen) n i := by
  induction n generalizing i with
  | zero => rfl
  | succ n ih =>
    have hpass : simplePass mibId idx' totalLen i = simplePass mibId idx totalLen i := by
      have htag : load16 idx' i = load16 idx i := load16_congr fun k hk _ => h k (by omega)
      have hlen : load16 idx' (i + 2) = load16 idx (i + 2) := load16_congr fun k hk _ => h k (by omega)
      rw [simplePass, simplePass, htag, hlen, read_congr fun k hk _ => h k (by omega)]
    simp only [loop, hpass]
    cases hp : simplePass mibId idx totalLen i with
    | none => rfl
    | some p =>
      cases p with
      | done r => rfl
      | next i' =>
        refine ih ?_
        rw [simplePass, Option.some.injEq] at hp
        split_ifs at hp
        cases hp
        omega

/-- **A scan that passes its element by does not see the value**: its answer does not depend on the first byte of it.
-/
theorem scan_blind (hok : ∀ z ∈ xs ++ y :: ys, ElemOk z)
    (hin : read idx i (streamBytes (xs ++ y :: ys)).length = streamBytes (xs ++ y :: ys))
    (hsee : ∀ k, k ≠ i + (streamBytes xs).length + 4 → idx' k = idx k)
    (hstep : ∀ z ∈ xs, SameBytes z.2.length) (hy : mibId ≠ wordSwap y.1) (hpos : 0 < y.2.length) :
    loop (simplePass mibId idx' totalLen) n i = loop (simplePass mibId idx totalLen) n i := by
  induction xs generalizing i n with
  | nil =>
    cases n with
    | zero => rfl
    | succ n =>
      have hoky := hok y (by simp)
      have hlen := wordSwap_pos hoky.2 hpos
      simp only [streamBytes, List.flatMap_nil, List.length_nil, Nat.add_zero] at hsee
      by_cases hlt : i < totalLen
      · have hhead : ∀ k, i ≤ k → k < i + 4 → idx' k = idx k := fun k hk hk' => hsee k (by omega)
        have hpass : simplePass mibId idx totalLen i = some (.next (i + 4 + wordSwap y.2.length)) := by
          rw [simplePass_elem hoky hin hlt, if_neg hy]
        have hpass' : simplePass mibId idx' totalLen i = some (.next (i + 4 + wordSwap y.2.length)) := by
          have htag : load16 idx' i = load16 idx i := load16_congr fun k hk hk' => hhead k hk (by omega)
          have hlen : load16 idx' (i + 2) = load16 idx (i + 2) :=
            load16_congr fun k hk hk' => hhead k (by omega) (by omega)
          rw [← hpass, simplePass, simplePass, if_pos hlt, if_pos hlt, htag, hlen]
          have hne : mibId ≠ load16 idx i := by
            rw [(read_elem hoky hin).1, Nat.mod_eq_of_lt hoky.1]
            exact hy
          rw [if_neg hne, if_neg hne]
        rw [loop_succ_next hpass, loop_succ_next hpass']
        exact scan_congr (j := i + 5) (fun k hk => hsee k (by omega)) (by omega)
      · simp [loop, simplePass, if_neg hlt]
  | cons x xs ih =>
    cases n with
    | zero => rfl
    | succ n =>
      have hokx := hok x (by simp)
      have hsame := (sameBytes_iff hokx.2).mp (hstep x (by simp))
      obtain ⟨-, -, hlenx, hval, hrest⟩ := read_elem hokx hin
      rw [length_streamBytes_cons] at hsee
      by_cases hlt : i < totalLen
      · have hfront : ∀ k, k < i + 4 + x.2.length → idx' k = idx k := fun k hk => hsee k (by omega)
        have hpass : simplePass mibId idx' totalLen i = simplePass mibId idx totalLen i := by
          have hlen : load16 idx (i + 2) = x.2.length := by
            rw [← hsame, ← hlenx, wordSwap_wordSwap (load16_lt ..)]
          have htag' : load16 idx' i = load16 idx i := load16_congr fun k hk hk' => hfront k (by omega)
          have hlen' : load16 idx' (i + 2) = load16 idx (i + 2) :=
            load16_congr fun k hk hk' => hfront k (by omega)
          rw [simplePass, simplePass, htag', hlen', hlen, read_congr fun k hk hk' => hfront k (by omega)]
        have hpass0 := hpass
        rw [simplePass_elem hokx hin hlt] at hpass0
        by_cases hid : mibId = wordSwap x.1
        · rw [if_pos hid] at hpass0
          rw [loop_succ_done hpass0, loop_succ_done (hpass.symm.trans hpass0)]
        · rw [if_neg hid, hsame] at hpass0
          rw [loop_succ_next hpass0, loop_succ_next (hpass.symm.trans hpass0)]
          exact ih (fun z hz => hok z (by simp [hz])) hrest (fun k hk => hsee k (by omega))
            fun z hz => hstep z (by simp [hz])
      · simp [loop, simplePass, if_neg hlt]

end Stream

theorem ofList_append_cons_of_ne {F G : List UInt8} {a b : UInt8} {k : ℕ} (hk : k ≠ F.length) :
    ofList (F ++ a :: G) k = ofList (F ++ b :: G) k := by
  rw [ofList, ofList, List.getD_eq_getElem?_getD, List.getD_eq_getElem?_getD]
  rcases Nat.lt_or_gt_of_ne hk with h | h
  · rw [List.getElem?_append_left h, List.getElem?_append_left h]
  · obtain ⟨j, hj⟩ : ∃ j, k - F.length = j + 1 := ⟨k - F.length - 1, by omega⟩
    rw [List.getElem?_append_right h.le, List.getElem?_append_right h.le, hj, List.getElem?_cons_succ,
      List.getElem?_cons_succ]

section Blocks

variable {t : MibTable} {x o : ℕ}

theorem MibTable.Contiguous.split (hc : t.Contiguous x) (h : t.entries = pre ++ e :: post) :
    (∀ f ∈ pre, f.offset + f.totalSize ≤ e.offset) ∧ (∀ f ∈ post, e.offset + e.totalSize ≤ f.offset) ∧
      x ≤ e.offset ∧ e.offset + e.totalSize ≤ x + t.size := by
  have hlow : ∀ {t : MibTable} {x : ℕ}, t.Contiguous x → ∀ f ∈ t.entries, x ≤ f.offset := by
    intro t x hc f hf
    induction t generalizing x with
    | nil => simp [MibTable.entries] at hf
    | cons id type off totalSize unitSize next rest _ ih =>
      obtain ⟨rfl, hc⟩ := hc
      rcases List.mem_cons.mp hf with rfl | hf
      · exact le_rfl
      · exact (Nat.le_add_right ..).trans (ih hc hf)
  induction t generalizing x pre with
  | nil => simp [MibTable.entries] at h
  | cons id type off totalSize unitSize next rest _ ih =>
    obtain ⟨rfl, hc⟩ := hc
    simp only [MibTable.size]
    cases pre with
    | nil =>
      obtain ⟨rfl, rfl⟩ := h
      refine ⟨nofun, hlow hc, le_rfl, ?_⟩
      show off + totalSize ≤ _
      omega
    | cons f pre =>
      simp only [MibTable.entries, List.cons_append, List.cons.injEq] at h
      obtain ⟨rfl, h⟩ := h
      obtain ⟨h1, h2, h3, h4⟩ := ih hc h
      refine ⟨List.forall_mem_cons.mpr ⟨h3, h1⟩, h2, by omega, by omega⟩

theorem writeTable_congr {m m' : Mem} (hc : t.Contiguous x) (hok : t.All EntryOk)
    (h : ∀ k, o + x ≤ k → k < o + x + t.size → m' k = m k) :
    writeTable m' t (o + x) = writeTable m t (o + x) := by
  induction t generalizing o x with
  | nil => rfl
  | cons id type off totalSize unitSize next rest ihn ihr =>
    obtain ⟨rfl, hc⟩ := hc
    obtain ⟨he, hnext, hrest⟩ := hok
    have hmul : totalSize / unitSize * unitSize = totalSize := Nat.div_mul_cancel he.dvd
    simp only [MibTable.size] at h
    have hr : writeTable m' rest (o + (off + totalSize)) = writeTable m rest (o + (off + totalSize)) :=
      ihr hc hrest fun k hk hlt => h k (by omega) (by omega)
    rw [← Nat.add_assoc] at hr
    rw [writeTable, writeTable]
    split_ifs with htab
    · obtain ⟨hc0, hu⟩ := he.layout htab
      have hunits : ∀ j ∈ List.range (totalSize / unitSize),
          writeTable m' next (o + off + j * unitSize) = writeTable m next (o + off + j * unitSize) := by
        intro j hj
        have hle := unit_le he.dvd (List.mem_range.mp hj)
        simp only at hu hle
        have hunit := ihn (o := o + off + j * unitSize) hc0 (hnext htab)
          fun k hk hlt => h k (by omega) (by omega)
        rwa [Nat.add_zero] at hunit
      simp [List.flatMap_congr hunits, hmul, hr]
    · rw [hr, read_congr fun k hk hlt => h k hk (by omega)]

theorem entryElem_congr {m m' : Mem} (he : EntryOk e) (hnext : e.type.isTable → e.next.All EntryOk)
    (h : ∀ k, e.offset ≤ k → k < e.offset + e.totalSize → m' k = m k) : entryElem m' 0 e = entryElem m 0 e := by
  rw [entryElem, entryElem, entryValue, entryValue]
  split_ifs with htab
  · obtain ⟨hc0, hu⟩ := he.layout htab
    refine congrArg (Prod.mk e.id) (List.flatMap_congr fun j hj => ?_)
    have hle := unit_le he.dvd (List.mem_range.mp hj)
    rw [Nat.zero_add]
    have hunit := writeTable_congr (o := e.offset + j * e.unitSize) hc0 (hnext htab)
      fun k hk hlt => h k (by omega) (by omega)
    rwa [Nat.add_zero] at hunit
  · rw [read_congr fun k hk hlt => h k (by omega) (by omega)]

end Blocks

/-! ## What the parser stores -/

theorem swapBytes_swapBytes (type : MibType) (bs : List UInt8) : swapBytes type (swapBytes type bs) = bs := by
  cases type <;> simp [swapBytes]

theorem length_swapBytes (type : MibType) (bs : List UInt8) : (swapBytes type bs).length = bs.length := by
  cases type <;> simp [swapBytes]

theorem Swapped.symm (h : Swapped d d' t o) : Swapped d' d t o := by
  induction t generalizing o with
  | nil => trivial
  | cons id type off totalSize unitSize next rest ihn ihr =>
    obtain ⟨h1, h2, h3⟩ := h
    refine ⟨fun htab j hj => ihn (h1 htab j hj), fun htab => ?_, ihr h3⟩
    rw [h2 htab, swapBytes_swapBytes]

theorem Swapped.field (h : Swapped d d' t o) {e : MibEntry}
    (he : e ∈ t.entries) (htab : e.type.isTable = false) :
    read d' (o + e.offset) e.totalSize = swapBytes e.type (read d (o + e.offset) e.totalSize) := by
  induction t with
  | nil => simp [MibTable.entries] at he
  | cons id type off totalSize unitSize next rest _ ih =>
    rcases List.mem_cons.mp he with rfl | he
    · exact h.2.1 htab
    · exact ih h.2.2 he

theorem StringsOk.of_swapped (hsw : Swapped d d' t o)
    (h : StringsOk d t o) : StringsOk d' t o := by
  induction t generalizing o with
  | nil => trivial
  | cons id type off totalSize unitSize next rest ihn ihr =>
    obtain ⟨h1, h2, h3⟩ := h
    obtain ⟨s1, s2, s3⟩ := hsw
    refine ⟨fun htab j hj => ihn (s1 htab j hj) (h1 htab j hj), fun hstr => ?_, ihr s3 h3⟩
    have hs := s2 (by rw [hstr]; rfl)
    rw [hstr] at hs
    rw [hs]
    exact h2 hstr

theorem stringsOk_of_ne_zero (h : ∀ k, d k ≠ 0) (t : MibTable) (o : ℕ) : StringsOk d t o := by
  induction t generalizing o with
  | nil => trivial
  | cons id type off totalSize unitSize next rest ihn ihr =>
    refine ⟨fun _ j _ => ihn _, fun _ => ?_, ihr o⟩
    have hnone : (read d (o + off) totalSize).dropWhile (· ≠ 0) = [] := by
      rw [List.dropWhile_eq_nil_iff]
      intro c hc
      obtain ⟨i, -, rfl⟩ := List.mem_map.mp hc
      simpa using h _
    rw [ZeroAfterNul, hnone]
    rintro _ ⟨⟩

section Agree

variable (s : MibSchema) {env : TlvEnv} {d : Mem}

theorem mibTlvSave_writeTable (d : Mem) : mibTlvSave s d = writeTable d s.table 0 := by
  rw [mibTlvSave, mibWriteToRaw]
  exact if_pos rfl

theorem mibTlvSave_eq (d : Mem) : mibTlvSave s d = streamBytes (s.table.entries.map (entryElem d 0)) := by
  have hw := writeTable_eq (m := d) 0 s.contiguous fun e he => s.entries.of_mem he
  rwa [Nat.add_zero, ← mibTlvSave_writeTable] at hw

theorem length_mibTlvSave (d : Mem) : (mibTlvSave s d).length = s.table.encLen := by
  rw [mibTlvSave_writeTable, length_writeTable]

/-- **What `mib_tlv_init` stores for a field of the struct.** -/
theorem stored_field (hun : s.table.AllUnshadowed) (hmalloc : ∀ n, env.malloc n = true)
    (hst : StringsOk d s.table 0) (he : e ∈ s.table.entries) (htab : e.type.isTable = false)
    {fromData : Mem} (hfrom : read fromData 0 (mibTlvSave s d).length = mibTlvSave s d) (pfile : Mem) :
    ∃ pfile', mibTlvInit env s.rootTable fromData pfile (mibTlvSave s d).length = some (true, pfile') ∧
      read pfile' e.offset e.totalSize = swapBytes e.type (read d e.offset e.totalSize) := by
  have hsw := (mibtblSwapValue_swapped s.contiguous s.entries d 0).1
  obtain ⟨pre, post, hsplit⟩ := List.append_of_mem he
  obtain ⟨-, -, -, hle⟩ := s.contiguous.split hsplit
  rw [length_mibTlvSave] at hfrom ⊢
  refine ⟨_, mibTlvInit_swapped s hun env hmalloc hsw.symm (hst.of_swapped hsw)
    (hfrom.trans (mibTlvSave_writeTable s d)) pfile, ?_⟩
  have hfield := hsw.field he htab
  rw [Nat.zero_add] at hfield
  rw [← hfield]
  refine read_congr fun k hk hlt => ?_
  exact write_apply_of_read rfl (Nat.zero_le k) (by omega)

/-- On a block saved from `d` the scanner finds the field and returns what `mib_tlv_init` stores in it. -/
def FastAgrees (env : TlvEnv) (d : Mem) (e : MibEntry) : Prop :=
  ∀ fromData pfile : Mem, read fromData 0 (mibTlvSave s d).length = mibTlvSave s d →
    ∃ pfile', mibTlvInit env s.rootTable fromData pfile (mibTlvSave s d).length = some (true, pfile') ∧
      tlvSimpleMibGet e.id fromData (mibTlvSave s d).length = some (some (read pfile' e.offset e.totalSize))

def entryLen (e : MibEntry) : ℕ :=
  if e.type.isTable then e.totalSize / e.unitSize * e.next.encLen else e.totalSize

theorem length_entryElem (d : Mem) (o : ℕ) (e : MibEntry) : (entryElem d o e).2.length = entryLen e := by
  rw [entryLen]
  split_ifs with htab
  · exact length_entryValue_table htab
  · simp [entryElem, entryValue, htab]

theorem entryElem_field (d : Mem) (htab : e.type.isTable = false) :
    (entryElem d 0 e).2 = read d e.offset e.totalSize := by
  simp [entryElem, entryValue, htab]

theorem length_entryElem_field (d : Mem) (htab : e.type.isTable = false) :
    (entryElem d 0 e).2.length = e.totalSize := by
  rw [entryElem_field d htab, length_read]

theorem MibTable.Unshadowed.id_ne {t : MibTable} (h : t.Unshadowed) (hsplit : t.entries = pre ++ e :: post) :
    ∀ f ∈ pre, f.id ≠ e.id := by
  induction t generalizing pre with
  | nil => simp [MibTable.entries] at hsplit
  | cons id type off totalSize unitSize next rest _ ih =>
    cases pre with
    | nil => exact nofun
    | cons f pre =>
      simp only [MibTable.entries, List.cons_append, List.cons.injEq] at hsplit
      obtain ⟨rfl, hsplit⟩ := hsplit
      refine List.forall_mem_cons.mpr ⟨?_, ih h.2 hsplit⟩
      have hmem : e ∈ rest.entries := by simp [hsplit]
      exact (h.1 e.id (List.mem_map_of_mem hmem)).1.symm

variable (hsplit : s.table.entries = pre ++ e :: post)

include hsplit in
theorem mibTlvSave_split (d : Mem) :
    mibTlvSave s d = streamBytes (pre.map (entryElem d 0) ++ entryElem d 0 e :: post.map (entryElem d 0)) := by
  rw [mibTlvSave_eq, hsplit, List.map_append, List.map_cons]

include hsplit in
theorem elemOk_split (d : Mem) :
    ∀ z ∈ pre.map (entryElem d 0) ++ entryElem d 0 e :: post.map (entryElem d 0), ElemOk z := by
  rw [← List.map_cons, ← List.map_append, ← hsplit]
  intro z hz
  obtain ⟨f, hf, rfl⟩ := List.mem_map.mp hz
  exact entryElem_ok (s.entries.of_mem hf)

include hsplit in
/-- Structs that differ in the first byte of a field have blocks that differ in the first byte of its value. -/
theorem mibTlvSave_differ (htab : e.type.isTable = false) (hpos : 0 < e.totalSize) {d' : Mem}
    (h : ∀ k, k ≠ e.offset → d' k = d k) {k : ℕ} (hk : k ≠ 0 + (streamBytes (pre.map (entryElem d 0))).length + 4) :
    ofList (mibTlvSave s d') k = ofList (mibTlvSave s d) k := by
  obtain ⟨hbefore, hafter, -, -⟩ := s.contiguous.split hsplit
  have hmap : ∀ fs : List MibEntry, (∀ f ∈ fs, f ∈ s.table.entries ∧
      (f.offset + f.totalSize ≤ e.offset ∨ e.offset + e.totalSize ≤ f.offset)) →
      fs.map (entryElem d' 0) = fs.map (entryElem d 0) := by
    refine fun fs hfs => List.map_congr_left fun f hf => ?_
    obtain ⟨hmem, hout⟩ := hfs f hf
    exact entryElem_congr (s.entries.of_mem hmem) (s.entries.next_of_mem hmem)
      fun k hk hlt => h k (by omega)
  have hpre := hmap pre fun f hf => ⟨by simp [hsplit, hf], Or.inl (hbefore f hf)⟩
  have hpost := hmap post fun f hf => ⟨by simp [hsplit, hf], Or.inr (hafter f hf)⟩
  obtain ⟨l, hl⟩ : ∃ l, e.totalSize = l + 1 := Nat.exists_eq_add_one.mpr hpos
  have htail : read d' (e.offset + 1) l = read d (e.offset + 1) l := read_congr fun k hk _ => h k (by omega)
  -- the block, up to the first byte of the value and behind it
  let F := streamBytes (pre.map (entryElem d 0)) ++ (raw16 e.id ++ raw16 e.totalSize)
  let G := read d (e.offset + 1) l ++ streamBytes (post.map (entryElem d 0))
  have hF : F.length = 0 + (streamBytes (pre.map (entryElem d 0))).length + 4 := by simp [F]
  have hsave : ∀ c : Mem, pre.map (entryElem c 0) = pre.map (entryElem d 0) →
      post.map (entryElem c 0) = post.map (entryElem d 0) → read c (e.offset + 1) l = read d (e.offset + 1) l →
      mibTlvSave s c = F ++ c e.offset :: G := by
    intro c h1 h2 h3
    rw [mibTlvSave_split s hsplit, streamBytes_append, h1, h2]
    simp only [streamBytes, List.flatMap_cons, elemBytes, length_entryElem_field _ htab]
    rw [entryElem_field c htab, hl, read_succ, ← hl, h3]
    simp [F, G, streamBytes, entryElem]
  rw [hsave d rfl rfl rfl, hsave d' hpre hpost htail]
  exact ofList_append_cons_of_ne (hF ▸ hk)

theorem FastAgrees.get_eq (h : FastAgrees s env d e) (hun : s.table.AllUnshadowed)
    (hmalloc : ∀ n, env.malloc n = true) (hst : StringsOk d s.table 0) (he : e ∈ s.table.entries)
    (htab : e.type.isTable = false) :
    tlvSimpleMibGet e.id (ofList (mibTlvSave s d)) (mibTlvSave s d).length =
      some (some (swapBytes e.type (read d e.offset e.totalSize))) := by
  obtain ⟨p₁, hinit, hget⟩ := h (ofList (mibTlvSave s d)) (fun _ => 0) (read_ofList _)
  obtain ⟨p₂, hinit', hfield⟩ := stored_field s hun hmalloc hst he htab (read_ofList (mibTlvSave s d)) fun _ => 0
  rw [hinit] at hinit'
  cases hinit'
  rw [hget, hfield]

section InStep

variable (hun : s.table.AllUnshadowed) (hmalloc : ∀ n, env.malloc n = true) (htab : e.type.isTable = false)
  (hpre : ∀ f ∈ pre, SameBytes (entryLen f))

include hpre in
theorem inStep_elems (d : Mem) : ∀ z ∈ pre.map (entryElem d 0), SameBytes z.2.length := by
  intro z hz
  obtain ⟨f, hf, rfl⟩ := List.mem_map.mp hz
  rw [length_entryElem]
  exact hpre f hf

include hsplit hun htab hpre in
/-- In step up to its header, a tag with two equal bytes is found. -/
theorem get_of_sameBytes (hid : e.id = wordSwap e.id) {fromData : Mem}
    (hfrom : read fromData 0 (mibTlvSave s d).length = mibTlvSave s d) :
    tlvSimpleMibGet e.id fromData (mibTlvSave s d).length =
      some (some (read fromData (0 + (streamBytes (pre.map (entryElem d 0))).length + 4)
        (wordSwap e.totalSize))) := by
  rw [mibTlvSave_split s hsplit] at hfrom ⊢
  rw [tlvSimpleMibGet, scan_found (elemOk_split s hsplit d) hfrom (Nat.zero_add _).le (inStep_elems hpre d) ?_
    hid ?_, length_entryElem_field _ htab]
  · intro z hz heq
    obtain ⟨f, hf, rfl⟩ := List.mem_map.mp hz
    have hokf := s.entries.of_mem (e := f) (by simp [hsplit, hf])
    refine hun.1.id_ne hsplit f hf ?_
    rw [← wordSwap_wordSwap hokf.id_lt]
    exact (congrArg wordSwap heq).symm.trans hid.symm
  · have hle := length_le_streamBytes (pre.map (entryElem d 0) ++ entryElem d 0 e :: post.map (entryElem d 0))
    simp only [List.length_append, List.length_cons] at hle ⊢
    omega

include hsplit hun hmalloc htab hpre in
/-- Tag and length have two equal bytes, and so do the lengths in front: the scanner agrees. -/
theorem fastAgrees_of_sameBytes (hid : SameBytes e.id) (hlen : SameBytes e.totalSize)
    (hst : StringsOk d s.table 0) : FastAgrees s env d e := by
  intro fromData pfile hfrom
  have he : e ∈ s.table.entries := by simp [hsplit]
  have hoke := s.entries.of_mem he
  obtain ⟨pfile', hinit, hfield⟩ := stored_field s hun hmalloc hst he htab hfrom pfile
  refine ⟨pfile', hinit, ?_⟩
  rw [get_of_sameBytes s hsplit hun htab hpre ((sameBytes_iff hoke.id_lt).mp hid).symm hfrom,
    (sameBytes_iff hoke.total_lt).mp hlen]
  -- the value of the element is the field, which is neither a word nor a double word
  rw [mibTlvSave_split s hsplit, streamBytes_append] at hfrom
  have hbytes := (read_elem (entryElem_ok hoke) (read_append_right hfrom)).2.2.2.1
  rw [length_entryElem_field _ htab, entryElem_field _ htab] at hbytes
  have hkept : swapBytes e.type (read d e.offset e.totalSize) = read d e.offset e.totalSize := by
    cases ht : e.type with
    | wordT =>
      rw [(hoke.word ht).2] at hlen
      exact absurd hlen (by decide)
    | dwordT =>
      rw [(hoke.dword ht).2] at hlen
      exact absurd hlen (by decide)
    | _ => rfl
  rw [hbytes, hfield, hkept]

include hsplit hun hmalloc htab hpre in
/-- In step up to a field, the scanner agrees for all structs only if tag and length have two equal bytes. -/
theorem sameBytes_of_fastAgrees (hpos : 0 < e.totalSize)
    (h : ∀ d, StringsOk d s.table 0 → FastAgrees s env d e) : SameBytes e.id ∧ SameBytes e.totalSize := by
  have he : e ∈ s.table.entries := by simp [hsplit]
  have hoke := s.entries.of_mem he
  -- two structs without a NUL that differ in the first byte of the field
  let d₁ : Mem := fun _ => 1
  let d₂ : Mem := fun k => if k = e.offset then 2 else 1
  have hst₁ : StringsOk d₁ s.table 0 := stringsOk_of_ne_zero (fun k => by decide) _ _
  have hst₂ : StringsOk d₂ s.table 0 := stringsOk_of_ne_zero (fun k => by simp only [d₂]; split <;> decide) _ _
  have hget₁ := (h d₁ hst₁).get_eq s hun hmalloc hst₁ he htab
  have hget₂ := (h d₂ hst₂).get_eq s hun hmalloc hst₂ he htab
  by_cases hid : e.id = wordSwap e.id
  · refine ⟨(sameBytes_iff hoke.id_lt).mpr hid.symm, (sameBytes_iff hoke.total_lt).mpr ?_⟩
    rw [get_of_sameBytes s hsplit hun htab hpre hid (read_ofList _), Option.some.injEq, Option.some.injEq] at hget₁
    have hlen := congrArg List.length hget₁
    rwa [length_read, length_swapBytes, length_read] at hlen
  · exfalso
    have hblind : tlvSimpleMibGet e.id (ofList (mibTlvSave s d₂)) s.table.encLen =
        tlvSimpleMibGet e.id (ofList (mibTlvSave s d₁)) s.table.encLen := by
      refine scan_blind (elemOk_split s hsplit d₁) ?_ (fun k hk => ?_) (inStep_elems hpre d₁) hid
        (by rwa [length_entryElem_field _ htab])
      · rw [← mibTlvSave_split s hsplit]
        exact read_ofList _
      · exact mibTlvSave_differ s hsplit htab hpos (fun k hk => if_neg hk) hk
    rw [length_mibTlvSave] at hget₁ hget₂
    have hvalues := (hget₂.symm.trans hblind).trans hget₁
    rw [Option.some.injEq, Option.some.injEq] at hvalues
    have hbytes := congrArg (swapBytes e.type) hvalues
    rw [swapBytes_swapBytes, swapBytes_swapBytes] at hbytes
    have hbyte := eq_of_read_eq hbytes le_rfl (Nat.lt_add_of_pos_right hpos)
    simp [d₁, d₂] at hbyte

end InStep

/-- **The short scanner and the full parser.** For a field whose elements in front have lengths with two equal bytes,
they agree for all structs exactly when the tag and the length of the field have two equal bytes. -/
theorem fastAgrees_iff (s : MibSchema) (hun : s.table.AllUnshadowed) (env : TlvEnv)
    (hmalloc : ∀ n, env.malloc n = true) (pre post : List MibEntry) (e : MibEntry)
    (hsplit : s.table.entries = pre ++ e :: post) (htab : e.type.isTable = false) (hpos : 0 < e.totalSize)
    (hpre : ∀ f ∈ pre, SameBytes (entryLen f)) :
    (∀ d, StringsOk d s.table 0 → FastAgrees s env d e) ↔ SameBytes e.id ∧ SameBytes e.totalSize :=
  ⟨sameBytes_of_fastAgrees s hsplit hun hmalloc htab hpre hpos, fun h _ hst =>
    fastAgrees_of_sameBytes s hsplit hun hmalloc htab hpre h.1 h.2 hst⟩

end Agree

def evenSchema : MibSchema where
  rootId := 0x9000
  table := .cons 0x0007 .byteArrayT 0 257 1 .nil (.cons 0x0101 .byteArrayT 257 257 1 .nil .nil)
  size_pos := by decide
  entries := by
    refine ⟨?_, by simp [MibType.isTable], ?_, by simp [MibType.isTable], trivial⟩
    all_goals constructor <;> simp [MibType.isTable]
  contiguous := ⟨rfl, rfl, trivial⟩
  path := by simp [MibTable.PathDistinct, MibType.isTable]

theorem evenSchema_agrees :
    let e : MibEntry := ⟨0x0101, .byteArrayT, 257, 257, 1, .nil⟩
    ∀ d, StringsOk d evenSchema.table 0 → FastAgrees evenSchema ⟨fun _ => 0, fun _ => true⟩ d e :=
  (fastAgrees_iff evenSchema
    ⟨by simp [evenSchema, MibTable.Unshadowed, MibTable.ids, MibTable.entries, MibType.isTable],
      by simp [evenSchema, MibTable.All, MibType.isTable]⟩
    ⟨fun _ => 0, fun _ => true⟩ (fun _ => rfl) [⟨0x0007, .byteArrayT, 0, 257, 1, .nil⟩] []
    ⟨0x0101, .byteArrayT, 257, 257, 1, .nil⟩ rfl rfl (by decide)
    (by simp [entryLen, MibType.isTable, SameBytes])).mpr ⟨by decide, by decide⟩

def lanSchema : MibSchema where
  rootId := 100 ||| 0x8000
  table := .cons 170 .iaT 0 4 1 .nil (.cons 171 .iaT 4 4 1 .nil .nil)
  size_pos := by decide
  entries := by
    refine ⟨?_, by simp [MibType.isTable], ?_, by simp [MibType.isTable], trivial⟩
    all_goals constructor <;> simp [MibType.isTable]
  contiguous := ⟨rfl, rfl, trivial⟩
  path := by simp [MibTable.PathDistinct, MibType.isTable]

/-- `IP_ADDR` is saved with the tag `00 aa` and the length `00 04`: the scanner reads `0xaa00` and 1024. -/
theorem ipAddr_not_found :
    let d := ofList [192, 168, 1, 254, 255, 255, 255, 0]
    StringsOk d lanSchema.table 0 ∧
      mibTlvSave lanSchema d = [0, 170, 0, 4, 192, 168, 1, 254, 0, 171, 0, 4, 255, 255, 255, 0] ∧
      tlvSimpleMibGet 170 (ofList (mibTlvSave lanSchema d)) (mibTlvSave lanSchema d).length = some none ∧
      ¬ FastAgrees lanSchema ⟨fun _ => 0, fun _ => true⟩ d ⟨170, .iaT, 0, 4, 1, .nil⟩ := by
  intro d
  have hget : tlvSimpleMibGet 170 (ofList (mibTlvSave lanSchema d)) (mibTlvSave lanSchema d).length = some none := by
    decide +kernel
  refine ⟨by simp [lanSchema, StringsOk], by decide +kernel, hget, fun h => ?_⟩
  obtain ⟨pfile', -, hfound⟩ := h (ofList (mibTlvSave lanSchema d)) (fun _ => 0) (read_ofList _)
  exact absurd (hget.symm.trans hfound) (by simp)

end NasFirmware.Mib
