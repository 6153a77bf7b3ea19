import NasFirmware.Apmib.Hardware

/-!
# Updates that fail

`apmib_update` works on a copy of the struct in memory, but the length in the global header is overwritten with that of
the TLV form before it calls `mib_compress_write`. It is restored behind the write of the struct, on the way to the
successful return. The return for a write that failed comes before that.
-/

namespace NasFirmware.Apmib

open ByteMem Mib

/-! ## The whole update -/

/-- The headers, the structs in memory and `compress_hw_setting`. -/
structure Globals where
  compressHwSetting : Bool
  hsHeader : ParamHeader
  dsHeader : ParamHeader
  csHeader : ParamHeader
  pHwSetting : Mem
  pMibDef : Mem
  pMib : Mem

structure UpdateAllEnv where
  hw : HwUpdateEnv
  mib : UpdateEnv

/-- `apmib_update` for `CURRENT_SETTING` or `DEFAULT_SETTING`: its result, the header in memory, and the flash. -/
def updateSetting (s : Setting) (schema : MibSchema) (env : UpdateEnv) (header : ParamHeader) (pMib flash : Mem) :
    Option (ℤ × ParamHeader × Mem) :=
  if !env.data then some (-1, header, flash)
  else if env.pfile ∧
      4 * schema.table.size < (mibWriteToRaw schema.root (swappedData schema header pMib) 0).length then
    none
  else
    let saved := savedData schema env header pMib
    (mibCompressWrite s env saved.1 saved.2 flash).map fun r =>
      let written := writeFallback s env header saved.2 r
      -- `len` is stored back behind the write of the struct; the function returns before that if the write fails
      (written.1, if written.1 = 1 then header else saved.1, written.2)

/-- The setting that is updated: `type` is reduced to `CURRENT_SETTING` if it has that bit, or else to
`DEFAULT_SETTING`. -/
def settingOf (type : ℕ) : Setting := if type &&& 4 ≠ 0 then currentSetting else defaultSetting

def Globals.headerOf (g : Globals) (type : ℕ) : ParamHeader := if type &&& 4 ≠ 0 then g.csHeader else g.dsHeader

def Globals.mibOf (g : Globals) (type : ℕ) : Mem := if type &&& 4 ≠ 0 then g.pMib else g.pMibDef

def Globals.setHeader (g : Globals) (type : ℕ) (header : ParamHeader) : Globals :=
  if type &&& 4 ≠ 0 then { g with csHeader := header } else { g with dsHeader := header }

/-- `apmib_update`: its result, the globals, and the flash. The bits of `type` name the three settings. -/
def apmibUpdateAll (hwSchema : HwSchema) (schema : MibSchema) (env : UpdateAllEnv) (type : ℕ) (g : Globals)
    (flash : Mem) : Option (ℤ × Globals × Mem) :=
  let hw :=
    if type &&& 1 ≠ 0 then apmibUpdateHw hwSchema env.hw ⟨g.compressHwSetting, g.hsHeader⟩ g.pHwSetting flash
    else (1, flash)
  if hw.1 ≠ 1 then some (hw.1, g, hw.2)
  else if type &&& 4 ≠ 0 ∨ type &&& 2 ≠ 0 then
    (updateSetting (settingOf type) schema env.mib (g.headerOf type) (g.mibOf type) hw.2).map fun r =>
      (r.1, g.setHeader type r.2.1, r.2.2)
  else some (1, g, hw.2)

variable {schema : MibSchema} {flash flash' : Mem} {ok : ℤ}

section Setting

variable {s : Setting} {env : UpdateEnv} {header header' : ParamHeader} {pMib : Mem}

variable (h : updateSetting s schema env header pMib flash = some (ok, header', flash'))

include h

theorem updateSetting_cases :
    env.data = false ∧ ok = -1 ∧ header' = header ∧ flash' = flash ∨
      env.data = true ∧ header' = (if ok = 1 then header else (savedData schema env header pMib).1) ∧
        apmibUpdate s schema env header pMib flash = some (ok, flash') := by
  cases hdata : env.data with
  | false =>
    rw [updateSetting, hdata] at h
    cases h
    exact Or.inl ⟨rfl, rfl, rfl, rfl⟩
  | true =>
    refine Or.inr ⟨rfl, ?_⟩
    simp only [updateSetting, hdata, Bool.not_true, Bool.false_eq_true, if_false] at h
    simp only [apmibUpdate, hdata, Bool.not_true, Bool.false_eq_true, if_false]
    split_ifs at h with hover
    obtain ⟨r, hr, hw⟩ := Option.map_eq_some_iff.mp h
    obtain ⟨rfl, rfl, rfl⟩ := hw
    rw [if_neg hover, hr]
    exact ⟨rfl, rfl⟩

theorem updateSetting_apmibUpdate :
    apmibUpdate s schema env header pMib flash = some (ok, flash') := by
  obtain ⟨hdata, rfl, -, rfl⟩ | ⟨-, -, hup⟩ := updateSetting_cases h
  · rw [apmibUpdate, hdata]
    rfl
  · exact hup

omit h

/-- The length in the header is not overwritten, or with the same value. -/
def LenKept (schema : MibSchema) (env : UpdateEnv) (header : ParamHeader) (pMib : Mem) : Prop :=
  env.data = false ∨ ¬ (env.pfile = true ∧ env.mibTlvData = true) ∨
    (mibWriteToRaw schema.root (swappedData schema header pMib) 0).length + 1 = header.len

theorem savedData_fst_eq_iff (hdata : env.data = true) :
    (savedData schema env header pMib).1 = header ↔ LenKept schema env header pMib := by
  rw [LenKept, hdata, savedData]
  by_cases htlv : env.pfile = true ∧ env.mibTlvData = true
  · rw [if_pos htlv]
    simp only [Bool.true_eq_false, htlv, and_self, not_true, false_or]
    exact ⟨congrArg ParamHeader.len, fun hlen => by rw [hlen]⟩
  · simp [htlv]

theorem updateSetting_failed_iff (h : updateSetting s schema env header pMib flash = some (ok, header', flash'))
    (hok : ok ≠ 1) : header' = header ↔ LenKept schema env header pMib := by
  obtain ⟨hdata, -, rfl, -⟩ | ⟨hdata, rfl, -⟩ := updateSetting_cases h
  · exact iff_of_true rfl (Or.inl hdata)
  · rw [if_neg hok]
    exact savedData_fst_eq_iff hdata

theorem updateSetting_noWrites (hs : SettingOk s) (hdata : env.data = true) (hptr : env.compPtr = true)
    (hexp : env.expPtr = true) (hlzss : env.lzssbuf = true) (hcomp : env.compWrite = .short 0)
    (hraw : env.rawWrite = .short 0)
    (hroom : (mibWriteToRaw schema.root (swappedData schema (validHeader s schema) pMib) 0).length ≤
      4 * schema.table.size)
    (hfit : Fits s schema env pMib) (flash : Mem) :
    updateSetting s schema env (validHeader s schema) pMib flash =
      some (0, (savedData schema env (validHeader s schema) pMib).1, flash) := by
  set saved := savedData schema env (validHeader s schema) pMib
  obtain ⟨comp, henc, hpos, -⟩ := encode_expImage saved.1 saved.2
  have hcall : mibCompressWrite s env saved.1 saved.2 flash = _ :=
    mibCompressWrite_ok hptr hexp hlzss henc hpos ((hfit comp henc).trans hs.sector_le) flash
  have hover : ¬ (env.pfile = true ∧
      4 * schema.table.size < (mibWriteToRaw schema.root (swappedData schema (validHeader s schema) pMib) 0).length) :=
    fun h => absurd h.2 (Nat.not_lt.mpr hroom)
  simp only [updateSetting, hdata, Bool.not_true, Bool.false_eq_true, if_false]
  rw [if_neg hover, hcall, hcomp]
  simp [flashWrite, writeFallback, hraw, saved]

end Setting

/-! ## All settings -/

section All

variable {hwSchema : HwSchema} {schema : MibSchema} {env : UpdateAllEnv} {type : ℕ} {g g' : Globals} {flash flash' : Mem}
  {ok : ℤ}

/-- The hardware settings are to be written, and are not. -/
def HwFails (env : HwUpdateEnv) (type : ℕ) : Prop := type &&& 1 ≠ 0 ∧ ¬ (env.data = true ∧ env.dataWrite = .ok)

theorem apmibUpdateHw_eq_one_iff {env : HwUpdateEnv} {st : HwState} {pHwSetting : Mem} :
    (apmibUpdateHw hwSchema env st pHwSetting flash).1 = 1 ↔ env.data = true ∧ env.dataWrite = .ok := by
  cases hdata : env.data with
  | false => simp [apmibUpdateHw, hdata]
  | true => cases hwrite : env.dataWrite <;> simp [apmibUpdateHw, hdata, hwrite, flashWrite]

theorem Globals.setHeader_eq_iff (g : Globals) (type : ℕ) (header : ParamHeader) :
    g.setHeader type header = g ↔ header = g.headerOf type := by
  obtain ⟨flag, hs, ds, cs, hw, def', mib⟩ := g
  unfold Globals.setHeader Globals.headerOf
  split_ifs <;> simp

theorem Globals.setHeader_frame (g : Globals) (type : ℕ) (header : ParamHeader) :
    (g.setHeader type header).pHwSetting = g.pHwSetting ∧ (g.setHeader type header).pMibDef = g.pMibDef ∧
      (g.setHeader type header).pMib = g.pMib ∧ (g.setHeader type header).hsHeader = g.hsHeader := by
  unfold Globals.setHeader
  split_ifs <;> exact ⟨rfl, rfl, rfl, rfl⟩

theorem apmibUpdateAll_cases (h : apmibUpdateAll hwSchema schema env type g flash = some (ok, g', flash')) :
    HwFails env.hw type ∧ ok ≠ 1 ∧ g' = g ∨
      ¬ HwFails env.hw type ∧ (∃ flash₁ header',
        updateSetting (settingOf type) schema env.mib (g.headerOf type) (g.mibOf type) flash₁ =
          some (ok, header', flash') ∧ g' = g.setHeader type header') ∨
      ¬ (type &&& 4 ≠ 0 ∨ type &&& 2 ≠ 0) ∧ ok = 1 := by
  simp only [apmibUpdateAll] at h
  set hw := if type &&& 1 ≠ 0 then apmibUpdateHw hwSchema env.hw ⟨g.compressHwSetting, g.hsHeader⟩ g.pHwSetting flash
    else (1, flash) with hhw
  have hone : hw.1 ≠ 1 ↔ HwFails env.hw type := by
    rw [hhw, HwFails]
    split_ifs with hbit
    · rw [← apmibUpdateHw_eq_one_iff]
      exact ⟨fun hne => ⟨hbit, hne⟩, And.right⟩
    · exact iff_of_false (fun hne => hne rfl) fun hfail => hbit hfail.1
  split_ifs at h with hne hbits
  · cases h
    exact Or.inl ⟨hone.mp hne, hne, rfl⟩
  · obtain ⟨r, hr, hg⟩ := Option.map_eq_some_iff.mp h
    cases hg
    exact Or.inr (Or.inl ⟨fun hfail => hne (hone.mpr hfail), hw.2, r.2.1, hr, rfl⟩)
  · cases h
    exact Or.inr (Or.inr ⟨hbits, rfl⟩)

/-- A later call that makes the TLV form, compresses and writes it: what it saves is loaded back. -/
def RetrySaves (hwSchema : HwSchema) (schema : MibSchema) (type : ℕ) (g : Globals) (flash : Mem) : Prop :=
  ∀ env lenv g' flash', env.mib.pfile = true → env.mib.mibTlvData = true → env.mib.compPtr = true →
    env.mib.compWrite = .ok → lenv.Ok → StringsOk (g.mibOf type) schema.table 0 →
    Fits (settingOf type) schema env.mib (g.mibOf type) →
    type &&& 4 ≠ 0 ∨ type &&& 2 ≠ 0 → apmibUpdateAll hwSchema schema env type g flash = some (1, g', flash') →
    ∃ buff, loadConf (settingOf type) schema lenv flash' = some (some buff) ∧
      read buff 0 schema.table.size = read (g.mibOf type) 0 schema.table.size

theorem settingOf_ok (type : ℕ) : SettingOk (settingOf type) := by
  unfold settingOf
  split_ifs
  · exact currentSetting_ok
  · exact defaultSetting_ok

theorem retrySaves_of_valid (hvalid : g.headerOf type = validHeader (settingOf type) schema)
    (hun : schema.table.AllUnshadowed) (flash : Mem) : RetrySaves hwSchema schema type g flash := by
  intro env lenv g' flash' hpfile htlv hptr hwrite hlenv hst hfit hbits h
  obtain ⟨-, hne, -⟩ | ⟨-, flash₁, header', hup, -⟩ | ⟨hno, -⟩ := apmibUpdateAll_cases h
  · exact absurd rfl hne
  · rw [hvalid] at hup
    exact savesMib_of_compressed (settingOf_ok type) hun hlenv hpfile htlv hptr hwrite _ _ _ hst hfit
      (updateSetting_apmibUpdate hup)
  · exact absurd hbits hno

/-- **A failed update leaves the globals as they were exactly if it fails at the hardware settings, or the length of
the header is kept.** The structs are never touched, and after a load a retry then saves all. -/
theorem failed_update_iff (h : apmibUpdateAll hwSchema schema env type g flash = some (ok, g', flash')) (hok : ok ≠ 1) :
    (g'.pHwSetting = g.pHwSetting ∧ g'.pMibDef = g.pMibDef ∧ g'.pMib = g.pMib ∧ g'.hsHeader = g.hsHeader) ∧
    (g' = g ↔ HwFails env.hw type ∨ LenKept schema env.mib (g.headerOf type) (g.mibOf type)) ∧
    (g' = g → g.headerOf type = validHeader (settingOf type) schema → schema.table.AllUnshadowed →
      RetrySaves hwSchema schema type g' flash') := by
  refine ⟨?_, ?_, fun hg hvalid hun => hg ▸ retrySaves_of_valid hvalid hun flash'⟩
  · obtain ⟨-, -, rfl⟩ | ⟨-, flash₁, header', -, rfl⟩ | ⟨-, rfl⟩ := apmibUpdateAll_cases h
    · exact ⟨rfl, rfl, rfl, rfl⟩
    · exact g.setHeader_frame type header'
    · exact absurd rfl hok
  · obtain ⟨hfail, -, rfl⟩ | ⟨hhw, flash₁, header', hup, rfl⟩ | ⟨-, rfl⟩ := apmibUpdateAll_cases h
    · exact iff_of_true rfl (Or.inl hfail)
    · rw [g.setHeader_eq_iff, updateSetting_failed_iff hup hok]
      exact ⟨Or.inr, fun hor => hor.resolve_left hhw⟩
    · exact absurd rfl hok

end All

/-! ## Two failures -/

def noWrites : UpdateAllEnv := ⟨⟨true, .ok, .ok⟩, { plainUpdate with compWrite := .short 0, rawWrite := .short 0 }⟩

/-- The same, and no block for the TLV form. -/
def noTlv : UpdateAllEnv := ⟨⟨true, .ok, .ok⟩, { noWrites.mib with pfile := false }⟩

def pairGlobals : Globals :=
  let header := validHeader currentSetting pairSchema
  ⟨false, header, header, header, fun _ => 0, fun _ => 0, pairStruct⟩

theorem update_pairGlobals (env : UpdateAllEnv) : apmibUpdateAll boardSchema pairSchema env 4 pairGlobals (fun _ => 0xff) =
    (updateSetting currentSetting pairSchema env.mib (validHeader currentSetting pairSchema) pairStruct
      (fun _ => 0xff)).map fun r => (r.1, { pairGlobals with csHeader := r.2.1 }, r.2.2) := rfl

theorem noTlv_update : apmibUpdateAll boardSchema pairSchema noTlv 4 pairGlobals (fun _ => 0xff) =
    some (0, pairGlobals, fun _ => 0xff) := by
  rw [update_pairGlobals, updateSetting_noWrites currentSetting_ok rfl rfl rfl rfl rfl rfl (by decide +kernel)
    (fits_of_short _ _ _ _ (by decide +kernel))]
  rfl

theorem noTlv_intact : ∃ g' flash', apmibUpdateAll boardSchema pairSchema noTlv 4 pairGlobals (fun _ => 0xff) =
    some (0, g', flash') ∧ g' = pairGlobals :=
  ⟨_, _, noTlv_update, (failed_update_iff noTlv_update (by decide)).2.1.mpr (Or.inr (Or.inr (Or.inl (by decide))))⟩

/-- Both writes of the current setting fail: the update returns 0, and the length of the header is 34 instead of 10.
-/
theorem noWrites_len : ∃ g' flash', apmibUpdateAll boardSchema pairSchema noWrites 4 pairGlobals (fun _ => 0xff) =
    some (0, g', flash') ∧ pairGlobals.csHeader.len = 10 ∧ g'.csHeader.len = 34 := by
  rw [update_pairGlobals, updateSetting_noWrites currentSetting_ok rfl rfl rfl rfl rfl rfl (by decide +kernel)
    (fits_of_short _ _ _ _ (by decide +kernel))]
  exact ⟨_, _, rfl, rfl, by decide +kernel⟩

end NasFirmware.Apmib
