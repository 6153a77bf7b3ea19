import NasFirmware.Apmib.SaveLoad

/-!
# The hardware settings

The hardware settings have a header of their own, with a length of 16 bits. `apmib_update` always writes them as
they are, without TLV and compression. `apmib_hwconf` loads both forms and remembers in `compress_hw_setting`
which one it found. If it was the compressed one, `apmib_update` also overwrites the header, but does not swap
the length in it.
-/

namespace NasFirmware.Apmib

open ByteMem Mib

def hwSetting : Setting := ⟨0x6000, 0x8000 - 0x6000, [67, 79, 77, 80, 72, 83], [72, 54], 1, false⟩

def hwHeaderLen : ℕ := 6

def MibEntry.Bytes (e : MibEntry) : Prop := e.type ≠ .wordT ∧ e.type ≠ .dwordT

/-- The table of the hardware settings: its length fits the header, and the tables below it have bytes and strings
only. -/
structure HwSchema extends MibSchema where
  size_lt : table.size + 1 < 65536
  bytes : ∀ e ∈ table.entries, e.type.isTable → e.next.All MibEntry.Bytes

/-- The globals `compress_hw_setting` and `hsHeader`. -/
structure HwState where
  compressHwSetting : Bool
  hsHeader : ParamHeader

/-- Whether `data` is allocated, and how the writes of the header and of the data end. -/
structure HwUpdateEnv where
  data : Bool
  headerWrite : WriteResult
  dataWrite : WriteResult

/-- `apmib_update` for `HW_SETTING`: its result, and the flash. The result of the header write is not looked at. -/
def apmibUpdateHw (schema : HwSchema) (env : HwUpdateEnv) (st : HwState) (pHwSetting flash : Mem) : ℤ × Mem :=
  if !env.data then (-1, flash)
  else
    let data := swappedData schema.toMibSchema st.hsHeader pHwSetting
    let flash :=
      if st.compressHwSetting then
        (flashWrite flash hwSetting.offset (st.hsHeader.signature ++ store16 st.hsHeader.len) env.headerWrite).2
      else flash
    let (ok, flash) :=
      flashWrite flash (hwSetting.offset + hwHeaderLen) (read data 0 st.hsHeader.len) env.dataWrite
    (if ok then 1 else 0, flash)

/-- The first bytes are one of the three `HW_SETTING_HEADER` tags. -/
def hwTagged (flash : Mem) : Bool :=
  [[72, 54], [72, 102], [72, 117]].contains (read flash hwSetting.offset 2)

/-- The part of the loader for compressed settings: header and data, or `some none` if they are refused. -/
def expandHw (schema : HwSchema) (env : LoadEnv) (flash : Mem) : Option (Option (ParamHeader × Mem)) :=
  let zipRate := wordSwap (load16 flash (hwSetting.offset + 6))
  let compLen := dwordSwap (load32 flash (hwSetting.offset + 8))
  if ¬ (0 < compLen ∧ compLen ≤ hwSetting.sectorLen) then some none
  else if !env.compFile then some none
  else if !env.expFile then some none
  else do
    let expanded ← Lzss.decode env.decodeBuf (read flash (hwSetting.offset + compHeaderLen) compLen)
    -- the expanded file has to fit its block
    if zipRate * compLen < expanded.length then none
    else
      let expFile := write env.heap 0 expanded
      let header : ParamHeader := ⟨read expFile 0 4, wordSwap (load16 expFile 4)⟩
      let body : Mem := fun k => expFile (hwHeaderLen + k)
      if !checksumOk body header.len then some (some (header, body))
      -- `hwMibData` is used without a test
      else if !env.mibData then none
      else do
        let tlvContentLen := (header.len + 2 ^ 32 - 1) % 2 ^ 32
        let (ok, hwMibData) ← mibTlvInit env.tlv schema.rootTable body (fun _ => 0) tlvContentLen
        if !ok then some (some (header, body))
        -- and so is the second `expFile`
        else if !env.expFile2 then none
        else
          let size := schema.table.size
          some (some (⟨header.signature.take 2 ++ digits02 hwSetting.ver, size + 1⟩,
            write hwMibData size [checksum (read hwMibData 0 size)]))

/-- The loop at the end of `apmib_hwconf`: the words of the struct itself are swapped back. -/
def hwSwapBack : MibTable → Mem → Mem
  | .nil, buff => buff
  | .cons _ type offset _ _ _ rest, buff => hwSwapBack rest (mibSwapValue type buff offset)

/-- `apmib_hwconf`: the globals, and the settings or `none` for `NULL`. Without a known tag and without `COMPHS` the
block is only cleared. -/
def apmibHwconf (schema : HwSchema) (env : LoadEnv) (st : HwState) (flash : Mem) :
    Option (HwState × Option Mem) := do
  let compress := !hwTagged flash
  let found : Option (ParamHeader × Mem) ←
    if compress then
      if read flash hwSetting.offset 6 = hwSetting.compSignature then expandHw schema env flash
      else some (some (st.hsHeader, fun _ => 0))
    else
      some (some (⟨read flash hwSetting.offset 4, wordSwap (load16 flash (hwSetting.offset + 4))⟩,
        fun k => flash (hwSetting.offset + hwHeaderLen + k)))
  match found with
  | none => some (⟨compress, st.hsHeader⟩, none)
  | some (header, data) =>
    if !signatureOk hwSetting header.signature (store16 header.len) || header.len < schema.table.size + 1 then
      some (⟨compress, header⟩, none)
    else if !env.buff then some (⟨compress, header⟩, none)
    else if !checksumOk data header.len then some (⟨compress, header⟩, none)
    else some (⟨compress, header⟩, some (if compress then data else hwSwapBack schema.table data))

/-- What the loader leaves behind: a block that is stored as it is, or one that was stored compressed, with a new
header. -/
inductive HwStored (schema : HwSchema) (st : HwState) (flash : Mem) : Prop
  | raw (hflag : st.compressHwSetting = false) (hsig : read flash hwSetting.offset 4 = st.hsHeader.signature)
      (hlen : wordSwap (load16 flash (hwSetting.offset + 4)) = st.hsHeader.len)
      (hok : signatureOk hwSetting st.hsHeader.signature (store16 st.hsHeader.len) = true)
      (htag : hwTagged flash = true) (hsize : schema.table.size + 1 ≤ st.hsHeader.len)
  | compressed (hflag : st.compressHwSetting = true)
      (hheader : st.hsHeader = validHeader hwSetting schema.toMibSchema)

section Swap

variable {d d' : Mem} {t : MibTable} {o x : ℕ} {e : MibEntry}

theorem mibSwapValue_of_bytes (he : MibEntry.Bytes e) (m : Mem) (p : ℕ) :
    mibSwapValue e.type m p = m := by
  obtain ⟨hw, hdw⟩ := he
  unfold mibSwapValue
  split
  · exact absurd ‹_› hw
  · exact absurd ‹_› hdw
  · rfl

theorem swapBytes_of_bytes (he : MibEntry.Bytes e) (bs : List UInt8) : swapBytes e.type bs = bs := by
  obtain ⟨hw, hdw⟩ := he
  unfold swapBytes
  split
  · exact absurd ‹_› hw
  · exact absurd ‹_› hdw
  · rfl

theorem bytes_of_isTable (h : e.type.isTable = true) : MibEntry.Bytes e := by
  constructor
  · intro he
    rw [he] at h
    cases h
  · intro he
    rw [he] at h
    cases h

theorem eq_of_swapped_bytes (h : Swapped d d' t o) (hc : t.Contiguous x) (hok : t.All EntryOk)
    (hb : t.All MibEntry.Bytes) {k : ℕ} (hk : o + x ≤ k) (hlt : k < o + x + t.size) : d' k = d k := by
  induction t generalizing o x with
  | nil => simp only [MibTable.size] at hlt; omega
  | cons id type off totalSize unitSize next rest ihn ihr =>
    obtain ⟨rfl, hc⟩ := hc
    obtain ⟨he, hnext, hrest⟩ := hok
    obtain ⟨hbe, hbnext, hbrest⟩ := hb
    obtain ⟨htable, hscalar, hs⟩ := h
    simp only [MibTable.size] at hlt
    by_cases hin : k < o + off + totalSize
    · by_cases htab : type.isTable = true
      · -- the unit in which the byte is
        obtain ⟨hc0, hu⟩ := he.layout htab
        have hu' : unitSize = next.size := hu
        have hpos : 0 < unitSize := he.unit_pos
        have hmul : totalSize / unitSize * unitSize = totalSize := Nat.div_mul_cancel he.dvd
        have hj : (k - (o + off)) / unitSize < totalSize / unitSize := by
          rw [Nat.div_lt_iff_lt_mul hpos, hmul]
          omega
        have hdiv := Nat.div_add_mod (k - (o + off)) unitSize
        have hmod := Nat.mod_lt (k - (o + off)) hpos
        rw [Nat.mul_comm] at hdiv
        exact ihn (htable htab _ hj) hc0 (hnext htab) (hbnext htab) (by omega) (by omega)
      · have hread := hscalar (Bool.eq_false_iff.mpr htab)
        rw [swapBytes_of_bytes hbe] at hread
        exact eq_of_read_eq hread hk hin
    · exact ihr hs hc hrest hbrest (by omega) (by omega)

theorem mibSwapValue_back (he : EntryOk e) (hnext : e.type.isTable → e.next.All EntryOk)
    (hb : e.type.isTable → e.next.All MibEntry.Bytes)
    (h : Swapped d d' (.cons e.id e.type e.offset e.totalSize e.unitSize e.next .nil) 0) (k : ℕ) :
    mibSwapValue e.type d' e.offset k =
      if e.offset ≤ k ∧ k < e.offset + e.totalSize then d k else d' k := by
  by_cases hbytes : MibEntry.Bytes e
  · rw [mibSwapValue_of_bytes hbytes]
    by_cases hin : e.offset ≤ k ∧ k < e.offset + e.totalSize
    · rw [if_pos hin]
      refine eq_of_swapped_bytes h (x := e.offset) ⟨rfl, trivial⟩ ⟨he, hnext, trivial⟩ ⟨hbytes, hb, trivial⟩ (by omega) ?_
      simp only [MibTable.size]
      omega
    · rw [if_neg hin]
  · -- a word, alone in its entry
    have htab : e.type.isTable = false := Bool.eq_false_iff.mpr fun ht => hbytes (bytes_of_isTable ht)
    have hone : e.totalSize / e.unitSize = 1 := by
      by_cases hw : e.type = .wordT
      · rw [(he.word hw).1, (he.word hw).2]
      · have hdw : e.type = .dwordT := by
          by_contra hdw
          exact hbytes ⟨hw, hdw⟩
        rw [(he.dword hdw).1, (he.dword hdw).2]
    have hback : ∀ bs, swapBytes e.type (swapBytes e.type bs) = bs := fun bs => by
      cases e.type <;> first | rfl | exact List.reverse_reverse bs
    obtain ⟨hread, hframe⟩ := swap_field he htab d' e.offset
    rw [hone, List.range_one, List.foldl_cons, List.foldl_nil, Nat.zero_mul, Nat.add_zero] at hread hframe
    have hscalar := h.2.1 htab
    rw [Nat.zero_add] at hscalar
    rw [hscalar, hback] at hread
    by_cases hin : e.offset ≤ k ∧ k < e.offset + e.totalSize
    · rw [if_pos hin]
      exact eq_of_read_eq hread hin.1 hin.2
    · rw [if_neg hin]
      exact hframe k (by omega)

/-- **The loader swaps back what the writer swapped.** -/
theorem hwSwapBack_eq (hc : t.Contiguous x) (hok : t.All EntryOk)
    (hb : ∀ e ∈ t.entries, e.type.isTable → e.next.All MibEntry.Bytes) (h : Swapped d d' t 0) (k : ℕ) :
    hwSwapBack t d' k = if x ≤ k ∧ k < x + t.size then d k else d' k := by
  induction t generalizing x d' with
  | nil =>
    rw [if_neg (by simp only [MibTable.size]; omega)]
    rfl
  | cons id type off totalSize unitSize next rest _ ihr =>
    obtain ⟨rfl, hc⟩ := hc
    obtain ⟨he, hnext, hrest⟩ := hok
    obtain ⟨htable, hscalar, hs⟩ := h
    -- the entry itself
    have hentry : ∀ k, mibSwapValue type d' off k = if off ≤ k ∧ k < off + totalSize then d k else d' k :=
      mibSwapValue_back he hnext (hb _ List.mem_cons_self) ⟨htable, hscalar, trivial⟩
    have hs' : Swapped d (mibSwapValue type d' off) rest 0 :=
      hs.congr hc hrest (fun _ _ _ => rfl) fun k hk _ => by
        rw [hentry, if_neg (by omega)]
    rw [hwSwapBack, ihr hc hrest (fun e he => hb e (List.mem_cons_of_mem _ he)) hs']
    by_cases htail : off + totalSize ≤ k ∧ k < off + totalSize + rest.size
    · rw [if_pos htail, if_pos (by simp only [MibTable.size]; omega)]
    · rw [if_neg htail, hentry]
      by_cases hhead : off ≤ k ∧ k < off + totalSize
      · rw [if_pos hhead, if_pos (by simp only [MibTable.size]; omega)]
      · rw [if_neg hhead, if_neg (by simp only [MibTable.size]; omega)]

end Swap

/-! ## Loading what was saved -/

theorem hwSetting_ok : SettingOk hwSetting := by
  refine ⟨rfl, rfl, by decide, by decide, fun tail => ?_⟩
  simp [signatureOk, hwSetting, digits02, scan02d, isSpace, isDigit]

section Load

variable {schema : HwSchema} {env : HwUpdateEnv} {lenv : LoadEnv} {st : HwState} {header : ParamHeader}
  {pHwSetting flash flash' data : Mem}

theorem sum_swappedData (hlen : 0 < header.len) :
    (read (swappedData schema.toMibSchema header pHwSetting) 0 header.len).sum = 0 := by
  obtain ⟨n, hn⟩ := Nat.exists_eq_succ_of_ne_zero hlen.ne'
  rw [swappedData, hn, Nat.succ_sub_one, Nat.succ_eq_add_one, read_write_checksum, checksum_append]

theorem read_hwSwapBack (hsize : schema.table.size + 1 ≤ header.len)
    (hdata : read data 0 header.len = read (swappedData schema.toMibSchema header pHwSetting) 0 header.len) :
    read (hwSwapBack schema.table data) 0 schema.table.size = read pHwSetting 0 schema.table.size := by
  have hsw := (mibtblSwapValue_swapped schema.contiguous schema.entries pHwSetting 0).1
  have hswapped : Swapped pHwSetting data schema.table 0 := by
    refine hsw.congr schema.contiguous schema.entries (fun _ _ _ => rfl) fun k _ hk => ?_
    rw [eq_of_read_eq hdata (Nat.zero_le k) (by omega), swappedData, mibtblSwapValue_root]
    exact write_apply_lt (by omega)
  refine read_congr fun k _ hk => ?_
  rw [hwSwapBack_eq schema.contiguous schema.entries schema.bytes hswapped, if_pos (by omega)]

theorem apmibUpdateHw_eq (hup : apmibUpdateHw schema env st pHwSetting flash = (1, flash')) :
    flash' = write
      (if st.compressHwSetting then
        (flashWrite flash hwSetting.offset (st.hsHeader.signature ++ store16 st.hsHeader.len) env.headerWrite).2
      else flash)
      (hwSetting.offset + hwHeaderLen)
      (read (swappedData schema.toMibSchema st.hsHeader pHwSetting) 0 st.hsHeader.len) := by
  unfold apmibUpdateHw at hup
  by_cases hdata : env.data = true
  · rw [if_neg (by simp [hdata])] at hup
    cases hwrite : env.dataWrite with
    | ok =>
      rw [hwrite] at hup
      exact (congrArg Prod.snd hup).symm
    | short n =>
      rw [hwrite] at hup
      exact absurd (show (0 : ℤ) = 1 from congrArg Prod.fst hup) (by decide)
  · rw [if_pos (by simpa using hdata)] at hup
    exact absurd (show (-1 : ℤ) = 1 from congrArg Prod.fst hup) (by decide)

theorem read_data_update (base : Mem) (bs : List UInt8) (off : ℕ) :
    read (fun k => write base off bs (off + k)) 0 bs.length = bs := by
  rw [read_shift, Nat.add_zero, read_write_self]

theorem apmibHwconf_tagged (hbuff : lenv.buff = true) (htag : hwTagged flash = true)
    (hheader : (⟨read flash hwSetting.offset 4, wordSwap (load16 flash (hwSetting.offset + 4))⟩ : ParamHeader) = header)
    (hok : signatureOk hwSetting header.signature (store16 header.len) = true) :
    apmibHwconf schema lenv st flash = some (⟨false, header⟩,
      if schema.table.size + 1 ≤ header.len ∧
          checksumOk (fun k => flash (hwSetting.offset + hwHeaderLen + k)) header.len = true then
        some (hwSwapBack schema.table fun k => flash (hwSetting.offset + hwHeaderLen + k))
      else none) := by
  unfold apmibHwconf
  simp only [htag, Bool.not_true, Bool.false_eq_true, if_false, Option.bind_eq_bind, Option.bind_some, hheader, hok,
    hbuff, Bool.false_or, decide_eq_true_eq]
  by_cases hlen : schema.table.size + 1 ≤ header.len
  · by_cases hsum : checksumOk (fun k => flash (hwSetting.offset + hwHeaderLen + k)) header.len = true
    · simp [hlen, hsum, Nat.not_lt.mpr hlen]
    · simp [hsum]
  · simp [hlen, Nat.lt_of_not_le hlen]

/-- **The globals after a load that succeeds**, from settings that are stored as they are or can be read as TLV. -/
theorem hwStored_of_apmibHwconf {st' : HwState} {buff : Mem}
    (h : apmibHwconf schema lenv st flash = some (st', some buff))
    (hheader : hwTagged flash = false → st'.hsHeader = validHeader hwSetting schema.toMibSchema) :
    HwStored schema st' flash := by
  unfold apmibHwconf at h
  cases htag : hwTagged flash with
  | false =>
    refine .compressed ?_ (hheader htag)
    simp only [htag, Bool.not_false, if_true] at h
    split_ifs at h
    all_goals
      obtain ⟨found, -, h⟩ := Option.bind_eq_some_iff.mp h
      cases found with
      | none => cases h
      | some found =>
        dsimp only at h
        split_ifs at h <;> cases h <;> rfl
  | true =>
    simp only [htag, Bool.not_true, Bool.false_eq_true, if_false, Option.bind_eq_bind, Option.bind_some] at h
    split_ifs at h with hbad hbuff hsum
    · cases h
    · cases h
    · cases h
    · cases h
      simp only [Bool.or_eq_true, Bool.not_eq_true', decide_eq_true_eq, not_or, Bool.not_eq_false,
        Nat.not_lt] at hbad
      exact .raw rfl rfl rfl hbad.1 htag hbad.2

/-- The data is the only thing that is written, or the header as it is in memory stands in front of it. -/
theorem HwStored.flash_eq (h : HwStored schema st flash) (hheader : env.headerWrite = .ok)
    (hup : apmibUpdateHw schema env st pHwSetting flash = (1, flash')) :
    ∃ header : ParamHeader,
      (⟨read flash' hwSetting.offset 4, wordSwap (load16 flash' (hwSetting.offset + 4))⟩ : ParamHeader) = header ∧
      header.signature = st.hsHeader.signature ∧
      header.len = (if st.compressHwSetting then wordSwap st.hsHeader.len else st.hsHeader.len) ∧
      signatureOk hwSetting header.signature (store16 header.len) = true ∧ hwTagged flash' = true := by
  have hflash := apmibUpdateHw_eq hup
  cases h with
  | raw hflag hsig hlen hok htag hsize =>
    rw [hflag, if_neg Bool.false_ne_true] at hflash
    have hread : ∀ n ≤ 6, read flash' hwSetting.offset n = read flash hwSetting.offset n := fun n hn => by
      rw [hflash]
      exact read_write_of_disjoint (.inl (Nat.add_le_add_left hn _))
    have hload : load16 flash' (hwSetting.offset + 4) = load16 flash (hwSetting.offset + 4) := by
      rw [hflash, load16, load16, write_apply_lt (by decide), write_apply_lt (by decide)]
    refine ⟨st.hsHeader, ?_, rfl, by rw [hflag, if_neg Bool.false_ne_true], hok, ?_⟩
    · rw [hread 4 (by decide), hload, hsig, hlen]
    · rwa [hwTagged, hread 2 (by decide)]
  | compressed hflag hvalid =>
    rw [hflag, if_pos rfl, hheader] at hflash
    have hlen : st.hsHeader.len < 65536 := by
      rw [hvalid]
      exact schema.size_lt
    have hsig : st.hsHeader.signature = [72, 54, 48, 49] := by rw [hvalid]; rfl
    -- the six bytes of the header
    have hread : read flash' hwSetting.offset (st.hsHeader.signature ++ store16 st.hsHeader.len).length =
        st.hsHeader.signature ++ store16 st.hsHeader.len := by
      rw [hflash, read_write_of_disjoint (.inl ?_)]
      · exact read_write_self ..
      · rw [hsig]
        exact Nat.le_refl _
    have hread4 := read_append_left hread
    have hread2 := read_append_right hread
    rw [hsig] at hread4 hread2
    have hload : load16 flash' (hwSetting.offset + 4) = st.hsHeader.len := load16_of_read hlen hread2
    refine ⟨⟨st.hsHeader.signature, wordSwap st.hsHeader.len⟩, ?_, rfl, by rw [hflag, if_pos rfl], ?_, ?_⟩
    · rw [show read flash' hwSetting.offset 4 = _ from hread4, hload, hsig]
    · rw [hsig]
      exact hwSetting_ok.signature _
    · have hread4' : read flash' hwSetting.offset (2 + 2) = [72, 54] ++ [48, 49] := hread4
      rw [read_add] at hread4'
      rw [hwTagged, (List.append_inj hread4' (length_read ..)).1]
      decide

theorem checksumOk_iff {n : ℕ} (hn : n < 65536) : checksumOk data n = true ↔ (read data 0 n).sum = 0 := by
  rw [checksumOk, Bool.and_eq_true, decide_eq_true_eq, beq_iff_eq]
  exact and_iff_right (by omega)

theorem HwStored.size_le (h : HwStored schema st flash) : schema.table.size + 1 ≤ st.hsHeader.len := by
  cases h with
  | raw _ _ _ _ _ hsize => exact hsize
  | compressed _ hvalid => rw [hvalid]; exact Nat.le_refl _

theorem apmibUpdateHw_behind (hst : HwStored schema st flash)
    (hup : apmibUpdateHw schema env st pHwSetting flash = (1, flash')) (hheader : env.headerWrite = .ok) (n : ℕ) :
    read flash' (hwSetting.offset + hwHeaderLen + st.hsHeader.len) n =
      read flash (hwSetting.offset + hwHeaderLen + st.hsHeader.len) n := by
  rw [apmibUpdateHw_eq hup, read_write_of_disjoint (.inr (by rw [length_read]))]
  cases hst with
  | raw hflag _ _ _ _ _ => rw [hflag, if_neg Bool.false_ne_true]
  | compressed hflag hvalid =>
    rw [hflag, if_pos rfl, hheader]
    refine read_write_of_disjoint (.inr ?_)
    rw [hvalid]
    exact Nat.le_add_right ..

/-- **The hardware settings are loaded as they were saved**, if they were stored as they are before. If they were
compressed, the swapped length must not become smaller, and the bytes behind the data, up to it, must sum to zero. -/
theorem apmibHwconf_update_iff (schema : HwSchema) (hbuff : lenv.buff = true) (hheader : env.headerWrite = .ok)
    (hst : HwStored schema st flash) (pHwSetting : Mem)
    (hup : apmibUpdateHw schema env st pHwSetting flash = (1, flash')) :
    (∃ st' buff, apmibHwconf schema lenv st flash' = some (st', some buff) ∧
      read buff 0 schema.table.size = read pHwSetting 0 schema.table.size) ↔
    st.compressHwSetting = false ∨
      st.hsHeader.len ≤ wordSwap st.hsHeader.len ∧
        (read flash (hwSetting.offset + hwHeaderLen + st.hsHeader.len)
          (wordSwap st.hsHeader.len - st.hsHeader.len)).sum = 0 := by
  obtain ⟨header, hread, hsig, hlen, hok, htag⟩ := hst.flash_eq hheader hup
  have hsize := hst.size_le
  have hdata : read (fun k => flash' (hwSetting.offset + hwHeaderLen + k)) 0 st.hsHeader.len =
      read (swappedData schema.toMibSchema st.hsHeader pHwSetting) 0 st.hsHeader.len := by
    rw [apmibUpdateHw_eq hup]
    have := read_data_update
      (if st.compressHwSetting then
        (flashWrite flash hwSetting.offset (st.hsHeader.signature ++ store16 st.hsHeader.len) env.headerWrite).2
      else flash)
      (read (swappedData schema.toMibSchema st.hsHeader pHwSetting) 0 st.hsHeader.len)
      (hwSetting.offset + hwHeaderLen)
    rwa [length_read] at this
  have hsum : (read (fun k => flash' (hwSetting.offset + hwHeaderLen + k)) 0 st.hsHeader.len).sum = 0 := by
    rw [hdata, sum_swappedData (by omega)]
  have hlt : header.len < 65536 := by
    rw [← hread]
    exact wordSwap_lt _
  -- the loader accepts the block, and what it accepts is the struct
  have hload : (∃ st' buff, apmibHwconf schema lenv st flash' = some (st', some buff) ∧
      read buff 0 schema.table.size = read pHwSetting 0 schema.table.size) ↔
      schema.table.size + 1 ≤ header.len ∧
        (read (fun k => flash' (hwSetting.offset + hwHeaderLen + k)) 0 header.len).sum = 0 := by
    rw [apmibHwconf_tagged hbuff htag hread hok, ← checksumOk_iff hlt]
    constructor
    · rintro ⟨st', buff, heq, -⟩
      by_contra hno
      rw [if_neg hno] at heq
      cases heq
    · intro hyes
      rw [if_pos hyes]
      exact ⟨_, _, rfl, read_hwSwapBack hsize hdata⟩
  rw [hload, hlen]
  cases hst with
  | raw hflag _ _ _ _ _ =>
    rw [hflag, if_neg Bool.false_ne_true]
    exact iff_of_true ⟨hsize, hsum⟩ (.inl rfl)
  | compressed hflag hvalid =>
    have hbehind := apmibUpdateHw_behind (.compressed hflag hvalid) hup hheader
    have hone : st.hsHeader.len = schema.table.size + 1 := by rw [hvalid]; rfl
    rw [hflag, if_pos rfl, ← hone, or_iff_right (by decide)]
    refine and_congr_right fun hle => ?_
    obtain ⟨n, hn⟩ := Nat.exists_eq_add_of_le hle
    rw [hn, Nat.add_sub_cancel_left, read_add, List.sum_append, hsum, Nat.zero_add, UInt8.zero_add, read_shift,
      hbehind]

end Load

def boardSchema : HwSchema where
  rootId := 200 ||| 0x8000
  table :=
    .cons 200 .byteT 0 1 1 .nil <| .cons 201 .byte6T 1 6 6 .nil <| .cons 202 .byte6T 7 6 6 .nil <|
      .cons (201 ||| 0x8000) .tableListT 13 6 6 (.cons 203 .byte6T 0 6 6 .nil .nil) .nil
  size_pos := by decide
  entries := by
    refine ⟨?_, by simp [MibType.isTable], ?_, by simp [MibType.isTable], ?_, by simp [MibType.isTable], ?_,
      fun _ => ⟨?_, by simp [MibType.isTable], trivial⟩, trivial⟩
    all_goals constructor <;> simp [MibType.isTable, MibTable.Contiguous, MibTable.size, MibTable.encLen]
  contiguous := ⟨rfl, rfl, rfl, rfl, trivial⟩
  path := by simp [MibTable.PathDistinct, MibType.isTable]
  size_lt := by decide
  bytes := by
    intro e he htab
    simp only [MibTable.entries, List.mem_cons, List.not_mem_nil, or_false] at he
    rcases he with rfl | rfl | rfl | rfl
    · cases htab
    · cases htab
    · cases htab
    · exact ⟨⟨by decide, by decide⟩, by simp [MibType.isTable], trivial⟩

def board : Mem := fun _ => 7

def hwWrites : HwUpdateEnv := ⟨true, .ok, .ok⟩

def rawFlash : Mem := write (fun _ => 0xff) 0x6000 [72, 54, 48, 49, 0, 20]

def rawState : HwState := ⟨false, validHeader hwSetting boardSchema.toMibSchema⟩

def compressedFlash : Mem := write (fun _ => 0xff) 0x6000
  [67, 79, 77, 80, 72, 83, 0, 2, 0, 0, 0, 35, 255, 72, 54, 48, 49, 0, 40, 0, 200, 255, 0, 1, 7, 0, 201, 0, 6, 7, 246,
    253, 242, 0, 202, 251, 245, 128, 201, 0, 10, 11, 0, 203, 251, 245, 239]

def compressedState : HwState := ⟨true, validHeader hwSetting boardSchema.toMibSchema⟩

theorem rawState_stored : HwStored boardSchema rawState rawFlash :=
  .raw rfl (by decide) (by decide) (hwSetting_ok.signature _) (by decide) (by decide)

theorem apmibHwconf_update_iff_raw :
    ∃ flash', apmibUpdateHw boardSchema hwWrites rawState board rawFlash = (1, flash') ∧
      ∃ st' buff, apmibHwconf boardSchema plainLoad rawState flash' = some (st', some buff) ∧
        read buff 0 boardSchema.table.size = read board 0 boardSchema.table.size :=
  have hup : apmibUpdateHw boardSchema hwWrites rawState board rawFlash = (1, _) := rfl
  ⟨_, rfl, (apmibHwconf_update_iff boardSchema rfl rfl rawState_stored board hup).mpr (.inl rfl)⟩

/-- **Settings that were stored compressed are lost by the update.** The header now says 20 bytes in the order of the
machine, which the loader takes for 5120. -/
theorem compressed_hw_setting_lost :
    (apmibHwconf boardSchema plainLoad rawState compressedFlash).map (fun r => (r.1.compressHwSetting,
        r.1.hsHeader.signature, r.1.hsHeader.len, r.2.map fun buff => read buff 0 19)) =
      some (compressedState.compressHwSetting, compressedState.hsHeader.signature, compressedState.hsHeader.len,
        some (read board 0 19)) ∧
    HwStored boardSchema compressedState compressedFlash ∧
    ∃ flash', apmibUpdateHw boardSchema hwWrites compressedState board compressedFlash = (1, flash') ∧
      read flash' 0x6000 6 = [72, 54, 48, 49, 20, 0] ∧
      (apmibHwconf boardSchema plainLoad compressedState flash').map (fun r => (r.1.hsHeader.len, r.2.isSome)) =
        some (5120, false) :=
  ⟨by decide +kernel, .compressed rfl rfl, _, rfl, by decide +kernel, by decide +kernel⟩

end NasFirmware.Apmib
