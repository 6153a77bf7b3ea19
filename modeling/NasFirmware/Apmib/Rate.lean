import NasFirmware.Apmib.Sector

/-!
# The rate in the header of a compressed file

A loader allocates `compRate * compLen` bytes for what `Decode` makes of a compressed file. The three writers divide a
length by that of the file, and add one. For `mib_compress_write` and `mib_updateDef_compress_write` it is the length
of the image with its header; `save_cs_to_file` compresses the same image, but leaves the header out of the division.
-/

namespace NasFirmware.Apmib

open ByteMem Mib

/-! ## The other writers -/

def updateDefWrite (s : Setting) (env : UpdateEnv) (expLen : ℕ) (image : List UInt8) (flash : Mem) :
    Option (Bool × Mem) :=
  let realSize := s.sectorLen
  if expLen = 0 then some (false, flash)
  else if realSize = 0 then some (false, flash)
  else if env.compPtr ∧ env.expPtr then do
    let comp ← Lzss.encode env.lzssbuf image
    if comp.length = 0 then none
    else if realSize < comp.length + compHeaderLen then none
    else some (flashWrite flash s.offset (compImage s expLen comp) env.compWrite)
  else some (false, flash)

def mibUpdateDefCompressWrite (s : Setting) (env : UpdateEnv) (pheader : ParamHeader) (data flash : Mem) :
    Option (Bool × Mem) :=
  if s.offset = 0 then some (false, flash)
  else updateDefWrite s env (pheader.len + headerLen) (expImage pheader data) flash

/-- `mib_updateDef_compress_write` for `HW_SETTING`: the length is two bytes, and is not swapped. -/
def mibUpdateDefCompressWriteHw (env : UpdateEnv) (pheader : ParamHeader) (data flash : Mem) : Option (Bool × Mem) :=
  if hwSetting.offset = 0 then some (false, flash)
  else updateDefWrite hwSetting env (pheader.len + hwHeaderLen)
    (pheader.signature ++ store16 pheader.len ++ read data 0 pheader.len) flash

/-- Which allocations succeed, whether the file can be created, how the write ends, and what `pbuf` contains at first.
-/
structure SaveFileEnv where
  buf : Bool
  fh : Bool
  pbuf : Bool
  pCompptr : Bool
  lzssbuf : Bool
  write : WriteResult
  heap : Mem

def csTlv (schema : MibSchema) (heap : Mem) (csHeader : ParamHeader) (pMib : Mem) : List UInt8 :=
  let pbuf := write heap 0 (read pMib 0 (csHeader.len - 1))
  mibWriteToRaw schema.root (mibtblSwapValue schema.rootTable pbuf 0) 0

/-- `buf` as it is compressed: the header, the elements and their checksum. -/
def csImage (csHeader : ParamHeader) (tlv : List UInt8) : List UInt8 :=
  csHeader.signature ++ store32 (dwordSwap (tlv.length + 1)) ++ (tlv ++ [checksum tlv])

/-- `write` to the file, and the result of `save_cs_to_file`. -/
def fileWrite (buf : List UInt8) : WriteResult → ℤ × List UInt8
  | .ok => (1, buf)
  | .short n => (0, buf.take n)

/-- `save_cs_to_file`: its result, and the file `/web/config.dat`. -/
def saveCsToFile (schema : MibSchema) (env : SaveFileEnv) (csHeader : ParamHeader) (pMib : Mem)
    (file : List UInt8) : Option (ℤ × List UInt8) :=
  if !env.buf then some (0, file)
  else if !env.fh then some (0, file)
  -- the file has been truncated
  else if !env.pbuf then some (0, [])
  -- `pbuf` is swapped and read as a whole struct
  else if csHeader.len < schema.table.size then none
  else
    let tlv := csTlv schema env.heap csHeader pMib
    -- the elements are in `buf` before their length is tested
    if 4 * schema.table.size < tlv.length then none
    else if 4 * schema.table.size ≤ tlv.length then some (0, [])
    else if !env.pCompptr then some (0, [])
    else do
      let comp ← Lzss.encode env.lzssbuf (csImage csHeader tlv)
      if comp.length = 0 then none
      else if currentSetting.sectorLen < comp.length then none
      else some (fileWrite (compImage currentSetting (tlv.length + 1) comp) env.write)

/-- The block that a loader allocates for the compressed file at `base` holds all that `Decode` writes. -/
def RateCovers (m : Mem) (base : ℕ) : Prop :=
  let compRate := wordSwap (load16 m (base + 6))
  let compLen := dwordSwap (load32 m (base + 8))
  ∀ block, ∃ expanded, Lzss.decode block (read m (base + compHeaderLen) compLen) = some expanded ∧
    expanded.length ≤ compRate * compLen

def compLen (image : List UInt8) : ℕ := ((Lzss.encode true image).getD []).length

section Rate

variable {s : Setting} {m : Mem} {image comp : List UInt8} {base divided : ℕ}

/-- The file of an image: the block has `divided / compLen + 1` times the length of the file. -/
theorem rateCovers_iff (hok : SettingOk s) (henc : Lzss.encode true image = some comp)
    (hlt : comp.length < 2 ^ 32) (hdiv : divided ≤ image.length)
    (hread : read m base (compImage s divided comp).length = compImage s divided comp) :
    RateCovers m base ↔ image.length ≤ (divided / comp.length + 1) * comp.length := by
  obtain ⟨y, henc', hdec, hlow, -⟩ := Lzss.encode_spec image
  cases Option.some.inj (henc.symm.trans henc')
  obtain ⟨-, hzip, hcl, hcomp⟩ := read_compImage hok hlt hread
  -- the rate is at most ten, and fits its two bytes
  have hten : divided / comp.length ≤ 9 := Nat.div_le_of_le_mul (by omega)
  rw [Nat.mod_eq_of_lt (by omega)] at hzip
  simp only [RateCovers, hzip, hcl, hcomp]
  constructor
  · intro h
    obtain ⟨expanded, hexp, hle⟩ := h (some fun _ => 0)
    rw [hdec] at hexp
    cases hexp
    exact hle
  · intro h block
    cases block with
    | none => exact ⟨[], rfl, Nat.zero_le _⟩
    | some block => exact ⟨image, hdec block, h⟩

theorem rateCovers_of_length (hok : SettingOk s) (henc : Lzss.encode true image = some comp)
    (hpos : comp.length ≠ 0) (hlt : comp.length < 2 ^ 32) (flash : Mem) :
    RateCovers (write flash base (compImage s image.length comp)) base := by
  refine (rateCovers_iff hok henc hlt le_rfl (read_write_self ..)).mpr (Nat.le_of_lt ?_)
  rw [Nat.mul_comm]
  exact Nat.lt_mul_div_succ _ (Nat.pos_of_ne_zero hpos)

/-- Dividing a length without the header is enough exactly if the header fits behind the remainder. -/
theorem le_rate_mul_iff (len n k : ℕ) : len + k ≤ (len / n + 1) * n ↔ len % n + k ≤ n := by
  have hsum := Nat.div_add_mod len n
  rw [Nat.add_mul, Nat.one_mul, Nat.mul_comm (len / n)]
  omega

end Rate

/-! ## The writers -/

section Writers

variable {s : Setting} {env : UpdateEnv} {header : ParamHeader} {data flash flash' : Mem}

variable (hsig : header.signature.length = 4)

include hsig

theorem length_expImage (data : Mem) :
    (expImage header data).length = header.len + headerLen := by
  simp only [expImage, List.length_append, hsig, length_store32, length_read, headerLen]
  omega

theorem length_expImageHw (hcopy : wordSwap header.len ≤ header.len)
    (data heap : Mem) : (expImageHw header data heap).length = header.len + hwHeaderLen := by
  simp only [expImageHw, List.length_append, hsig, length_store16, length_read, hwHeaderLen]
  omega

theorem length_csImage (tlv : List UInt8) :
    (csImage header tlv).length = tlv.length + 1 + headerLen := by
  simp only [csImage, List.length_append, hsig, length_store32, List.length_cons, List.length_nil, headerLen]
  omega

omit hsig

/-- **`mib_compress_write`**. -/
theorem mibCompressWrite_covers (hok : SettingOk s) (hoff : s.offset < 2 ^ 32) (hsig : header.signature.length = 4)
    (h : mibCompressWrite s env header data flash = some (true, flash')) : RateCovers flash' s.offset := by
  have hblocks : env.compPtr ∧ env.expPtr := by
    by_contra hblocks
    rw [mibCompressWrite, if_neg hblocks] at h
    split_ifs at h
    cases h
  rw [mibCompressWrite, if_pos hblocks] at h
  obtain ⟨comp, -, henc, hpos, hroom, -, rfl⟩ := encodeWrite_true h
  rw [← length_expImage hsig data]
  exact rateCovers_of_length hok henc hpos (by omega) flash

/-- **`mib_compress_write(HW_SETTING)`**. -/
theorem mibCompressWriteHw_covers (hsig : header.signature.length = 4)
    (h : mibCompressWriteHw env header data flash = some (true, flash')) : RateCovers flash' hwSetting.offset := by
  obtain ⟨hcopy, comp, henc, hpos, hroom, hrun⟩ := mibCompressWriteHw_true h
  rw [hrun] at h
  cases h
  rw [← length_expImageHw hsig hcopy data env.heap]
  have : hwSetting.offset < 2 ^ 32 := by decide
  exact rateCovers_of_length hwSetting_ok henc hpos (by omega) flash

theorem updateDefWrite_covers (hok : SettingOk s) {image : List UInt8}
    (h : updateDefWrite s env image.length image flash = some (true, flash')) : RateCovers flash' s.offset := by
  simp only [updateDefWrite] at h
  split_ifs at h with _ _ hblocks
  all_goals try cases h
  obtain ⟨comp, -, henc, hpos, hroom, -, rfl⟩ := encodeWrite_true h
  have := hok.sector_lt
  exact rateCovers_of_length hok henc hpos (by omega) flash

/-- **`mib_updateDef_compress_write`**. -/
theorem mibUpdateDefCompressWrite_covers (hok : SettingOk s) (hsig : header.signature.length = 4)
    (h : mibUpdateDefCompressWrite s env header data flash = some (true, flash')) : RateCovers flash' s.offset := by
  rw [mibUpdateDefCompressWrite, ← length_expImage hsig data] at h
  split_ifs at h
  · cases h
  · exact updateDefWrite_covers hok h

/-- **`mib_updateDef_compress_write(HW_SETTING)`**. -/
theorem mibUpdateDefCompressWriteHw_covers (hsig : header.signature.length = 4)
    (h : mibUpdateDefCompressWriteHw env header data flash = some (true, flash')) :
    RateCovers flash' hwSetting.offset := by
  have hlen : (header.signature ++ store16 header.len ++ read data 0 header.len).length = header.len + hwHeaderLen := by
    simp only [List.length_append, hsig, length_store16, length_read, hwHeaderLen]
    omega
  rw [mibUpdateDefCompressWriteHw, ← hlen] at h
  split_ifs at h
  · cases h
  · exact updateDefWrite_covers hwSetting_ok h

end Writers

section SaveFile

variable {schema : MibSchema} {env : SaveFileEnv} {csHeader : ParamHeader} {pMib : Mem} {file file' : List UInt8}

theorem saveCsToFile_one (h : saveCsToFile schema env csHeader pMib file = some (1, file')) :
    let tlv := csTlv schema env.heap csHeader pMib
    ∃ comp, Lzss.encode true (csImage csHeader tlv) = some comp ∧ comp.length ≠ 0 ∧
      comp.length ≤ currentSetting.sectorLen ∧ file' = compImage currentSetting (tlv.length + 1) comp := by
  intro tlv
  simp only [saveCsToFile] at h
  split_ifs at h
  all_goals try cases h
  obtain ⟨comp, henc, hcall⟩ := Option.bind_eq_some_iff.mp h
  split_ifs at hcall with hpos hroom
  rw [lzssbuf_of_encode henc hpos] at henc
  refine ⟨comp, henc, hpos, Nat.not_lt.mp hroom, ?_⟩
  cases hres : env.write with
  | ok =>
    rw [hres] at hcall
    cases hcall
    rfl
  | short n =>
    rw [hres] at hcall
    cases hcall

/-- **`save_cs_to_file`**. -/
theorem saveCsToFile_covers_iff (hsig : csHeader.signature.length = 4)
    (h : saveCsToFile schema env csHeader pMib file = some (1, file')) :
    let tlv := csTlv schema env.heap csHeader pMib
    RateCovers (ofList file') 0 ↔
      (tlv.length + 1) % compLen (csImage csHeader tlv) + headerLen ≤ compLen (csImage csHeader tlv) := by
  intro tlv
  obtain ⟨comp, henc, -, hroom, rfl⟩ := saveCsToFile_one h
  have hsector := currentSetting_ok.sector_lt
  have hlen : (csImage csHeader (csTlv schema env.heap csHeader pMib)).length = tlv.length + 1 + headerLen :=
    length_csImage hsig tlv
  have hcl : compLen (csImage csHeader tlv) = comp.length := by rw [compLen, henc, Option.getD_some]
  have hcovers := rateCovers_iff (m := ofList _) currentSetting_ok henc (hroom.trans_lt (by omega))
    (hlen ▸ Nat.le_add_right _ _) (read_ofList _)
  rw [hcovers, hlen, hcl, le_rate_mul_iff]

end SaveFile

/-- **The rate is sufficient for two of the three writers, and for the third exactly if the header fits behind what
the division leaves**: `save_cs_to_file` divides the length of the body alone. -/
theorem compRate_covers_iff {s : Setting} (hs : s ∈ [currentSetting, defaultSetting]) {header : ParamHeader}
    (hsig : header.signature.length = 4) (env : UpdateEnv) (data flash flash' : Mem) :
    (mibCompressWrite s env header data flash = some (true, flash') → RateCovers flash' s.offset) ∧
    (mibCompressWriteHw env header data flash = some (true, flash') → RateCovers flash' hwSetting.offset) ∧
    (mibUpdateDefCompressWrite s env header data flash = some (true, flash') → RateCovers flash' s.offset) ∧
    (mibUpdateDefCompressWriteHw env header data flash = some (true, flash') → RateCovers flash' hwSetting.offset) ∧
    ∀ schema fenv file file', saveCsToFile schema fenv header data file = some (1, file') →
      let tlv := csTlv schema fenv.heap header data
      (RateCovers (ofList file') 0 ↔
        (tlv.length + 1) % compLen (csImage header tlv) + headerLen ≤ compLen (csImage header tlv)) := by
  have hok : SettingOk s ∧ s.offset < 2 ^ 32 := by
    rcases List.mem_cons.mp hs with rfl | hs
    · exact ⟨currentSetting_ok, by decide⟩
    · rw [List.mem_singleton.mp hs]
      exact ⟨defaultSetting_ok, by decide⟩
  exact ⟨mibCompressWrite_covers hok.1 hok.2 hsig, mibCompressWriteHw_covers hsig,
    mibUpdateDefCompressWrite_covers hok.1 hsig, mibUpdateDefCompressWriteHw_covers hsig,
    fun _ _ _ _ => saveCsToFile_covers_iff hsig⟩

def sixSchema : MibSchema where
  rootId := 0x8000
  table := .cons 1 .byteArrayT 0 6 6 .nil .nil
  size_pos := by decide
  entries := by
    refine ⟨?_, by simp [MibType.isTable], trivial⟩
    constructor <;> simp [MibType.isTable, MibTable.encLen]
  contiguous := ⟨rfl, trivial⟩
  path := freshSchema.path

def plainSaveFile : SaveFileEnv := ⟨true, true, true, true, true, .ok, fun _ => 0⟩

def sixDistinct : Mem := ofList [1, 2, 3, 4, 5, 6]

theorem saveCsToFile_six (pMib : Mem) :
    let csHeader := validHeader currentSetting sixSchema
    let tlv := csTlv sixSchema plainSaveFile.heap csHeader pMib
    ∃ file', saveCsToFile sixSchema plainSaveFile csHeader pMib [] = some (1, file') ∧ tlv.length = 10 := by
  intro csHeader tlv
  obtain ⟨comp, henc, -, hlow, hup⟩ := Lzss.encode_spec (csImage csHeader tlv)
  have htlv : tlv.length = 10 := length_writeTable ..
  rw [length_csImage rfl, htlv, headerLen] at hlow hup
  have hsize : sixSchema.table.size = 6 := rfl
  have hsector : comp.length ≤ currentSetting.sectorLen := by
    have : 38 ≤ currentSetting.sectorLen := by decide
    omega
  refine ⟨compImage currentSetting (tlv.length + 1) comp, ?_, htlv⟩
  have hroom : ¬ 4 * sixSchema.table.size < tlv.length ∧ ¬ 4 * sixSchema.table.size ≤ tlv.length := by omega
  have hheader : ¬ csHeader.len < sixSchema.table.size := by decide
  have hempty : comp.length ≠ 0 := by omega
  have hlzss : Lzss.encode plainSaveFile.lzssbuf (csImage csHeader tlv) = some comp := henc
  simp only [saveCsToFile, show plainSaveFile.buf = true from rfl, show plainSaveFile.fh = true from rfl,
    show plainSaveFile.pbuf = true from rfl, show plainSaveFile.pCompptr = true from rfl,
    show plainSaveFile.write = .ok from rfl, Bool.not_true, Bool.false_eq_true, if_false, hheader]
  rw [if_neg hroom.1, if_neg hroom.2, hlzss, Option.bind_eq_bind, Option.bind_some, if_neg hempty,
    if_neg (Nat.not_lt.mpr hsector)]
  rfl

theorem compRate_covers_six : ∃ file',
    saveCsToFile sixSchema plainSaveFile (validHeader currentSetting sixSchema) sixDistinct [] = some (1, file') ∧
      RateCovers (ofList file') 0 := by
  obtain ⟨file', hcall, htlv⟩ := saveCsToFile_six sixDistinct
  refine ⟨file', hcall, ?_⟩
  refine ((compRate_covers_iff (List.mem_cons_self ..) rfl plainUpdate sixDistinct (fun _ => 0xff)
    (fun _ => 0xff)).2.2.2.2 _ _ _ _ hcall).mpr ?_
  set image := csImage (validHeader currentSetting sixSchema)
    (csTlv sixSchema plainSaveFile.heap (validHeader currentSetting sixSchema) sixDistinct)
  have himage : image = [54, 97, 48, 51, 0, 0, 0, 11, 0, 1, 0, 6, 1, 2, 3, 4, 5, 6, 228] := by decide +kernel
  obtain ⟨comp, henc, -⟩ := Lzss.encode_spec image
  have hlong : 9 * 17 ≤ 8 * comp.length := by
    exact Lzss.encode_length_ge_of_distinct (by decide) (by decide) (by decide) henc
  have hcl : compLen image = comp.length := by rw [compLen, henc, Option.getD_some]
  have hmod := Nat.mod_le (10 + 1) comp.length
  rw [hcl, headerLen, htlv]
  omega

/-- Six times `1`: eleven bytes behind the header, nineteen with it, and a file of eighteen bytes with the rate 1. -/
theorem saved_file_overruns : ∃ file',
    saveCsToFile sixSchema plainSaveFile (validHeader currentSetting sixSchema) (fun _ => 1) [] = some (1, file') ∧
      ¬ RateCovers (ofList file') 0 := by
  obtain ⟨file', hcall, htlv⟩ := saveCsToFile_six fun _ => 1
  refine ⟨file', hcall, ?_⟩
  refine mt (saveCsToFile_covers_iff rfl hcall).mp ?_
  set image := csImage (validHeader currentSetting sixSchema)
    (csTlv sixSchema plainSaveFile.heap (validHeader currentSetting sixSchema) fun _ => 1)
  have himage : image = [54, 97, 48, 51, 0, 0, 0, 11, 0, 1, 0, 6, 1, 1, 1, 1, 1, 1, 243] := by decide +kernel
  have hcl : compLen image = 18 := by
    decide +kernel
  rw [hcl, headerLen, htlv]
  decide

end NasFirmware.Apmib
