import NasFirmware.Apmib.Model
import NasFirmware.Lzss.RoundTrip
import NasFirmware.Mib.RoundTrip

/-!
# Loading what was saved

* **`savesMib_of_compressed`**: so it is if the TLV form is made and its compressed image is written;
* **`savesMib_iff`**: and only then.
-/

namespace NasFirmware.Apmib

open ByteMem Mib

theorem dwordSwap_lt (v : ℕ) : dwordSwap v < 2 ^ 32 := by
  rw [dwordSwap_eq]
  omega

theorem dwordSwap_dwordSwap {v : ℕ} (hv : v < 2 ^ 32) : dwordSwap (dwordSwap v) = v := by
  have ha : v % 256 < 256 := Nat.mod_lt _ (by omega)
  have hb : v / 256 % 256 < 256 := Nat.mod_lt _ (by omega)
  have hc : v / 65536 % 256 < 256 := Nat.mod_lt _ (by omega)
  have hd : v / 16777216 < 256 := by omega
  have hsplit : v = v % 256 + 256 * (v / 256 % 256) +
      65536 * (v / 65536 % 256 + 256 * (v / 16777216)) := by omega
  rw [hsplit, dwordSwap_bytes ha hb hc hd, dwordSwap_bytes hd hc hb ha]

theorem checksum_append (bs : List UInt8) : (bs ++ [checksum bs]).sum = 0 := by
  rw [List.sum_append, List.sum_singleton, checksum]
  generalize bs.sum = c
  apply UInt8.toBitVec_inj.mp
  show c.toBitVec + (~~~c.toBitVec + 1#8) = 0#8
  bv_omega

theorem checksumOk_of_read {data : Mem} (bs : List UInt8) (hlen : bs.length < 0x800000)
    (h : read data 0 (bs.length + 1) = bs ++ [checksum bs]) : checksumOk data (bs.length + 1) = true := by
  unfold checksumOk
  rw [h, checksum_append]
  simpa using hlen

theorem read_write_checksum (m : Mem) (n : ℕ) :
    read (write m n [checksum (read m 0 n)]) 0 (n + 1) = read m 0 n ++ [checksum (read m 0 n)] := by
  rw [read_add, Nat.zero_add]
  congr 1
  · exact read_congr fun k _ hk => write_apply_lt (by omega)
  · exact read_write_self m n [checksum (read m 0 n)]

structure SettingOk (s : Setting) : Prop where
  comp_length : s.compSignature.length = 6
  tag_length : s.tag.length = 2
  sector_le : s.sectorLen ≤ s.offset
  sector_lt : s.sectorLen < 65536
  signature : ∀ tail, signatureOk s (s.tag ++ digits02 s.ver) tail = true

theorem currentSetting_ok : SettingOk currentSetting := by
  refine ⟨rfl, rfl, by decide, by decide, fun tail => ?_⟩
  simp [signatureOk, currentSetting, digits02, scan02d, isSpace, isDigit]

theorem defaultSetting_ok : SettingOk defaultSetting := by
  refine ⟨rfl, rfl, by decide, by decide, fun tail => ?_⟩
  simp [signatureOk, defaultSetting, digits02, scan02d, isSpace, isDigit]

def validHeader (s : Setting) (schema : MibSchema) : ParamHeader :=
  ⟨s.tag ++ digits02 s.ver, schema.table.size + 1⟩

structure LoadEnv.Ok (env : LoadEnv) : Prop where
  compFile : env.compFile = true
  expFile : env.expFile = true
  decodeBuf : env.decodeBuf.isSome = true
  mibData : env.mibData = true
  expFile2 : env.expFile2 = true
  buff : env.buff = true
  tlv : ∀ n, env.tlv.malloc n = true

variable {s : Setting} {schema : MibSchema} {flash : Mem}

section Load

variable {env : LoadEnv}

theorem read_compImage (hok : SettingOk s) {base expLen : ℕ} {comp : List UInt8}
    (hcomp : comp.length < 2 ^ 32)
    (hflash : read flash base (compImage s expLen comp).length = compImage s expLen comp) :
    read flash base 6 = s.compSignature ∧
      wordSwap (load16 flash (base + 6)) = (expLen / comp.length + 1) % 65536 ∧
      dwordSwap (load32 flash (base + 8)) = comp.length ∧
      read flash (base + compHeaderLen) comp.length = comp := by
  have h1 := read_append_left hflash
  have h2 := read_append_right hflash
  have h3 := read_append_left h1
  have h4 := read_append_right h1
  have h5 := read_append_left h3
  have h6 := read_append_right h3
  simp only [List.length_append, length_store16, length_store32, hok.comp_length] at h2 h4 h5 h6
  have hrate : (expLen / comp.length + 1) % 65536 < 65536 := Nat.mod_lt _ (by omega)
  refine ⟨h5, ?_, ?_, h2⟩
  · rw [load16_of_read (wordSwap_lt _) h6, wordSwap_wordSwap hrate]
  · rw [load32_of_read (dwordSwap_lt _) h4, dwordSwap_dwordSwap hcomp]

theorem le_rate_mul {expLen n : ℕ} (hn : 0 < n) (hrate : expLen ≤ 9 * n) :
    expLen ≤ (expLen / n + 1) % 65536 * n := by
  have hdiv : expLen / n ≤ 9 := Nat.div_le_of_le_mul (by omega)
  have hmod := Nat.mod_lt expLen hn
  have hsum := Nat.div_add_mod expLen n
  rw [Nat.mod_eq_of_lt (by omega), Nat.add_mul, Nat.mul_comm (expLen / n)]
  omega

theorem read_expImage (hok : SettingOk s) (m data : Mem) {len : ℕ} (hlen : len < 2 ^ 32) :
    let image := expImage ⟨s.tag ++ digits02 s.ver, len⟩ data
    let expFile := write m 0 image
    read expFile 0 4 = s.tag ++ digits02 s.ver ∧ dwordSwap (load32 expFile 4) = len ∧
      read (fun k => expFile (headerLen + k)) 0 len = read data 0 len := by
  intro image expFile
  have hread : read expFile 0 image.length = image := read_write_self m 0 image
  have h1 := read_append_left hread
  have h2 := read_append_right hread
  have h3 := read_append_left h1
  have h4 := read_append_right h1
  simp only [List.length_append, length_store32, hok.tag_length, length_read, digits02, List.length_cons,
    List.length_nil, Nat.zero_add] at h2 h3 h4
  refine ⟨h3, ?_, ?_⟩
  · rw [load32_of_read (dwordSwap_lt _) h4, dwordSwap_dwordSwap hlen]
  · rw [read_shift]
    exact h2

/-- **Expanding an image up to the TLV reader.** `body` is what the checksum protects. -/
theorem expandConf_image (schema : MibSchema) (hok : SettingOk s) (henv : env.Ok) {data : Mem} {body comp : List UInt8}
    (hdata : read data 0 (body.length + 1) = body ++ [checksum body])
    (henc : Lzss.encode true (expImage ⟨s.tag ++ digits02 s.ver, body.length + 1⟩ data) = some comp)
    (hfit : comp.length + compHeaderLen ≤ s.sectorLen)
    (hflash : read flash s.offset (compImage s (body.length + 1 + headerLen) comp).length =
      compImage s (body.length + 1 + headerLen) comp) :
    ∃ fromData, read fromData 0 body.length = body ∧ expandConf s schema env flash =
      (mibTlvInit env.tlv schema.rootTable fromData (fun _ => 0) body.length).bind fun r =>
        if !r.1 then some none
        else some (some (validHeader s schema, write r.2 schema.table.size
          [checksum (read r.2 0 schema.table.size)])) := by
  obtain ⟨y, henc', hdec, hlow, -⟩ :=
    Lzss.encode_spec (expImage ⟨s.tag ++ digits02 s.ver, body.length + 1⟩ data)
  cases Option.some.inj (henc.symm.trans henc')
  have hexp : (expImage ⟨s.tag ++ digits02 s.ver, body.length + 1⟩ data).length =
      body.length + 1 + headerLen := by
    simp only [expImage, List.length_append, hok.tag_length, digits02, length_store32, length_read,
      List.length_cons, List.length_nil, headerLen]
    omega
  rw [hexp] at hlow
  have hsector := hok.sector_lt
  have hlt : body.length + 1 < 2 ^ 32 := by omega
  obtain ⟨-, hzip, hcl, hcomp⟩ := read_compImage hok (by omega) hflash
  obtain ⟨block, hblock⟩ := Option.isSome_iff_exists.mp henv.decodeBuf
  have hpos : 0 < comp.length := by omega
  have hroom := le_rate_mul hpos hlow
  set image := expImage ⟨s.tag ++ digits02 s.ver, body.length + 1⟩ data with himage
  set expFile := write (if s.clears then fun _ => 0 else env.heap) 0 image with hexpFile
  obtain ⟨hsig, hlen, hbody⟩ := read_expImage hok (if s.clears then fun _ => 0 else env.heap) data hlt
  rw [← himage, ← hexpFile] at hsig hlen hbody
  rw [hdata] at hbody
  have hsum : checksumOk (fun k => expFile (headerLen + k)) (body.length + 1) = true :=
    checksumOk_of_read body (by omega) hbody
  have htlv : (body.length + 1 + 2 ^ 32 - 1) % 2 ^ 32 = body.length := by omega
  refine ⟨fun k => expFile (headerLen + k), ?_, ?_⟩
  · have := read_append_left (a := body) (b := [checksum body]) (by simpa using hbody)
    exact this
  · have htag : (s.tag ++ digits02 s.ver).take 2 = s.tag := by
      rw [← hok.tag_length, List.take_left]
    unfold expandConf
    simp only [hzip, hcl, hcomp, hblock, hdec, henv.compFile, henv.expFile, henv.mibData, henv.expFile2,
      Option.bind_eq_bind, Option.bind_some, hexp, Nat.not_lt.mpr hroom, ← hexpFile, hsig, hlen,
      hok.signature, hsum, htlv, htag, hpos, show comp.length ≤ s.sectorLen by omega, and_self, not_true,
      if_false, Bool.not_true, Bool.false_eq_true]
    rfl

theorem loadConf_of_tlv (hok : SettingOk s) (henv : env.Ok) (hsize : schema.table.size < 0x800000)
    (hsig : read flash s.offset 6 = s.compSignature) {mibData : Mem}
    (hexp : expandConf s schema env flash = some (some (validHeader s schema,
      write mibData schema.table.size [checksum (read mibData 0 schema.table.size)]))) :
    loadConf s schema env flash = some (some
      (write mibData schema.table.size [checksum (read mibData 0 schema.table.size)])) := by
  have hsum := checksumOk_of_read (read mibData 0 schema.table.size) (by simpa using hsize)
    (by rw [length_read]; exact read_write_checksum mibData schema.table.size)
  rw [length_read] at hsum
  unfold loadConf
  simp [hsig, hexp, Option.bind_some, validHeader, hok.signature, henv.buff, hsum, Bool.not_true]

/-- A loader that finds the signature and a first byte of the length above the sector returns `NULL`. -/
theorem loadConf_null (hok : SettingOk s) (hsig : read flash s.offset 6 = s.compSignature)
    (hbytes : flash (s.offset + 8) ≠ 0 ∨ flash (s.offset + 8 + 1) ≠ 0) :
    loadConf s schema env flash = some none := by
  have hlong : s.sectorLen < dwordSwap (load32 flash (s.offset + 8)) := by
    have hsector := hok.sector_lt
    have hne : (flash (s.offset + 8)).toNat ≠ 0 ∨ (flash (s.offset + 8 + 1)).toNat ≠ 0 := by
      rwa [← UInt8.toNat_inj.ne, ← UInt8.toNat_inj.ne] at hbytes
    rw [load32, load16, load16, dwordSwap_bytes (UInt8.toNat_lt _) (UInt8.toNat_lt _) (UInt8.toNat_lt _)
      (UInt8.toNat_lt _)]
    omega
  have hexp : expandConf s schema env flash = some none := by
    exact if_pos fun h => absurd h.2 (Nat.not_le.mpr hlong)
  unfold loadConf
  simp [hsig, hexp]

end Load

/-! ## Saving -/

theorem size_le_encLen {t : MibTable} (hok : t.All EntryOk) : t.size ≤ t.encLen := by
  induction t with
  | nil => exact le_rfl
  | cons id type off totalSize unitSize next rest ihn ihr =>
    have hrest := ihr hok.2.2
    have hmul : totalSize / unitSize * unitSize = totalSize := Nat.div_mul_cancel hok.1.dvd
    unfold MibTable.size MibTable.encLen
    split_ifs with htab
    · have hnext := ihn (hok.2.1 htab)
      have hu : unitSize = next.size := (hok.1.layout htab).2
      have := Nat.mul_le_mul_left (totalSize / unitSize) (hu ▸ hnext)
      omega
    · omega

section Save

variable {env : UpdateEnv} {lenv : LoadEnv} {pMib flash' : Mem} {header : ParamHeader} {data : Mem}

/-- The compressed image of what is saved fits the sector. -/
def Fits (s : Setting) (schema : MibSchema) (env : UpdateEnv) (pMib : Mem) : Prop :=
  let saved := savedData schema env (validHeader s schema) pMib
  ∀ comp, Lzss.encode true (expImage saved.1 saved.2) = some comp →
    comp.length + compHeaderLen ≤ s.sectorLen

theorem fits_of_short (s : Setting) (schema : MibSchema) (env : UpdateEnv) (pMib : Mem)
    (h : let header := (savedData schema env (validHeader s schema) pMib).1
      2 * (header.signature.length + 4 + header.len) + compHeaderLen ≤ s.sectorLen) :
    Fits s schema env pMib := by
  intro comp henc
  obtain ⟨y, henc', -, -, hup⟩ := Lzss.encode_spec (expImage _ _)
  cases Option.some.inj (henc.symm.trans henc')
  simp only [expImage, List.length_append, length_store32, length_read] at hup
  omega

/-- Every update that returns 1 is loaded back. -/
def SavesMib (s : Setting) (schema : MibSchema) (env : UpdateEnv) (lenv : LoadEnv) : Prop :=
  ∀ pMib flash flash', StringsOk pMib schema.table 0 → Fits s schema env pMib →
    apmibUpdate s schema env (validHeader s schema) pMib flash = some (1, flash') →
    ∃ buff, loadConf s schema lenv flash' = some (some buff) ∧
      read buff 0 schema.table.size = read pMib 0 schema.table.size

theorem mibCompressWrite_ok {comp : List UInt8}
    (hptr : env.compPtr = true) (hexp : env.expPtr = true) (hlzss : env.lzssbuf = true)
    (henc : Lzss.encode true (expImage header data) = some comp) (hpos : comp.length ≠ 0)
    (hroom : comp.length + compHeaderLen ≤ s.offset) (flash : Mem) :
    mibCompressWrite s env header data flash =
      some (flashWrite flash s.offset (compImage s (header.len + headerLen) comp) env.compWrite) := by
  unfold mibCompressWrite
  simp only [hptr, hexp, hlzss, and_self, if_true, henc, Option.bind_eq_bind, Option.bind_some, hpos,
    Nat.not_lt.mpr hroom, if_false]

theorem encode_expImage (header : ParamHeader) (data : Mem) :
    ∃ comp, Lzss.encode true (expImage header data) = some comp ∧ comp.length ≠ 0 ∧
      header.len + 4 ≤ 9 * comp.length := by
  obtain ⟨comp, henc, -, hlow, -⟩ := Lzss.encode_spec (expImage header data)
  simp only [expImage, List.length_append, length_store32, length_read] at hlow
  exact ⟨comp, henc, by omega, by omega⟩

theorem apmibUpdate_eq (hup : apmibUpdate s schema env header pMib flash = some (1, flash')) :
    let saved := savedData schema env header pMib
    ∃ r, mibCompressWrite s env saved.1 saved.2 flash = some r ∧
      writeFallback s env header saved.2 r = (1, flash') := by
  unfold apmibUpdate at hup
  split_ifs at hup
  · cases hup
  · exact Option.map_eq_some_iff.mp hup

theorem apmibUpdate_compressed (hok : SettingOk s) (hfit : Fits s schema env pMib)
    (hptr : env.compPtr = true) (hwrite : env.compWrite = .ok)
    (hup : apmibUpdate s schema env (validHeader s schema) pMib flash = some (1, flash')) :
    let saved := savedData schema env (validHeader s schema) pMib
    ∃ comp, Lzss.encode true (expImage saved.1 saved.2) = some comp ∧
      comp.length + compHeaderLen ≤ s.sectorLen ∧ saved.1.len + 4 ≤ 9 * comp.length ∧
      flash' = write flash s.offset (compImage s (saved.1.len + headerLen) comp) := by
  intro saved
  obtain ⟨comp, henc, hpos, hlow⟩ := encode_expImage saved.1 saved.2
  have hfit' := hfit comp henc
  refine ⟨comp, henc, hfit', hlow, ?_⟩
  -- `mib_compress_write` returns, so its blocks and the one of `Encode` are allocated
  obtain ⟨r, hcall, hr⟩ := apmibUpdate_eq hup
  have hexp : env.expPtr = true ∧ env.lzssbuf = true := by
    unfold mibCompressWrite at hcall
    cases hexp : env.expPtr with
    | false => simp [hptr, hexp] at hcall
    | true =>
      cases hlzss : env.lzssbuf with
      | false => simp [hptr, hexp, hlzss, Lzss.encode] at hcall
      | true => exact ⟨rfl, rfl⟩
  rw [mibCompressWrite_ok hptr hexp.1 hexp.2 henc hpos (hfit'.trans hok.sector_le), hwrite] at hcall
  cases hcall
  cases hr
  rfl

/-- The fields of the struct that is written are swapped; the checksum lies behind it. -/
theorem swappedData_swapped (s : Setting) (schema : MibSchema) (pMib : Mem) :
    Swapped pMib (swappedData schema (validHeader s schema) pMib) schema.table 0 := by
  have hsw := (mibtblSwapValue_swapped schema.contiguous schema.entries pMib 0).1
  refine hsw.congr schema.contiguous schema.entries (fun _ _ _ => rfl) fun k _ hk => ?_
  rw [swappedData, mibtblSwapValue_root]
  apply write_apply_lt
  simp only [validHeader]
  omega

theorem loadConf_compressed (hok : SettingOk s) (hlenv : lenv.Ok) (hfit : Fits s schema env pMib)
    (hptr : env.compPtr = true) (hwrite : env.compWrite = .ok)
    (hup : apmibUpdate s schema env (validHeader s schema) pMib flash = some (1, flash'))
    {body : List UInt8} (hsize : schema.table.size ≤ body.length)
    (hdata : read data 0 (body.length + 1) = body ++ [checksum body])
    (hsaved : savedData schema env (validHeader s schema) pMib =
      (⟨s.tag ++ digits02 s.ver, body.length + 1⟩, data)) :
    ∃ fromData, read fromData 0 body.length = body ∧ ∀ mibData,
      mibTlvInit lenv.tlv schema.rootTable fromData (fun _ => 0) body.length = some (true, mibData) →
      ∃ buff, loadConf s schema lenv flash' = some (some buff) ∧
        read buff 0 schema.table.size = read mibData 0 schema.table.size := by
  obtain ⟨comp, henc, hfit', hlow, rfl⟩ := apmibUpdate_compressed hok hfit hptr hwrite hup
  rw [hsaved] at henc hlow ⊢
  have hsector := hok.sector_lt
  have hsmall : schema.table.size < 0x800000 := by
    simp only at hlow
    omega
  have hcomp : comp.length < 2 ^ 32 := by omega
  have hflash := read_write_self flash s.offset (compImage s (body.length + 1 + headerLen) comp)
  have hsig := (read_compImage hok hcomp hflash).1
  obtain ⟨fromData, hfrom, hexp⟩ := expandConf_image schema hok hlenv hdata henc hfit' hflash
  refine ⟨fromData, hfrom, fun mibData hinit => ?_⟩
  rw [hinit] at hexp
  exact ⟨_, loadConf_of_tlv hok hlenv hsmall hsig hexp, read_congr fun k _ hk => write_apply_lt (by omega)⟩

/-- **A setting whose TLV form is made, compressed and written is loaded back.** -/
theorem savesMib_of_compressed (hok : SettingOk s) (hun : schema.table.AllUnshadowed) (hlenv : lenv.Ok)
    (hpfile : env.pfile = true) (htlv : env.mibTlvData = true) (hptr : env.compPtr = true)
    (hwrite : env.compWrite = .ok) : SavesMib s schema env lenv := by
  intro pMib flash flash' hst hfit hup
  set tlv := writeTable (swappedData schema (validHeader s schema) pMib) schema.table 0 with htlvdef
  have hlen : tlv.length = schema.table.encLen := length_writeTable ..
  have hsaved : savedData schema env (validHeader s schema) pMib =
      (⟨s.tag ++ digits02 s.ver, tlv.length + 1⟩, tlvBlock env.heap tlv) := by
    exact if_pos ⟨hpfile, htlv⟩
  have hdata : read (tlvBlock env.heap tlv) 0 (tlv.length + 1) = tlv ++ [checksum tlv] := by
    have := read_write_self env.heap 0 (tlv ++ [checksum tlv])
    rwa [List.length_append, List.length_singleton] at this
  obtain ⟨fromData, hfrom, hload⟩ := loadConf_compressed hok hlenv hfit hptr hwrite hup
    (hlen ▸ size_le_encLen schema.entries) hdata hsaved
  have hinit := mibTlvInit_swapped schema hun lenv.tlv hlenv.tlv (swappedData_swapped s schema pMib) hst
    (by rw [← hlen]; exact hfrom) fun _ => 0
  rw [← hlen] at hinit
  obtain ⟨buff, hbuff, heq⟩ := hload _ hinit
  refine ⟨buff, hbuff, heq.trans ?_⟩
  have := read_write_self (fun _ => 0) 0 (read pMib 0 schema.table.size)
  rwa [length_read] at this

/-! ## Other ways to return 1 -/

theorem mibtblSwapValue_const (c : UInt8) (t : MibTable) (o : ℕ) :
    mibtblSwapValue t (fun _ => c) o = fun _ => c := by
  have hswap : ∀ type p, mibSwapValue type (fun _ => c) p = fun _ => c := by
    intro type p
    cases type with
    | wordT =>
      rw [mibSwapValue, store16_wordSwap]
      exact write_const (by simp)
    | dwordT =>
      rw [mibSwapValue, store32_dwordSwap]
      exact write_const (by simp)
    | _ => rfl
  have hfold : ∀ f : Mem → ℕ → Mem, (∀ j, f (fun _ => c) j = fun _ => c) → ∀ l : List ℕ,
      l.foldl f (fun _ => c) = fun _ => c := fun f hf l => List.foldl_fixed' hf l
  induction t generalizing o with
  | nil => rfl
  | cons id type off totalSize unitSize next rest ihn ihr =>
    unfold mibtblSwapValue
    split_ifs with htab
    · simp [hfold (fun data j => mibtblSwapValue next data _) fun j => ihn _, ihr]
    · simp [hfold (fun data j => mibSwapValue type data _) fun j => hswap _ _, ihr]

theorem swappedData_const (s : Setting) (schema : MibSchema) (c : UInt8) :
    read (swappedData schema (validHeader s schema) fun _ => c) 0 schema.table.size =
      List.replicate schema.table.size c := by
  unfold swappedData
  simp only [mibtblSwapValue_const]
  rw [read_congr fun k _ hk => write_apply_lt (by simp only [validHeader]; omega)]
  simp [ByteMem.read]

theorem read_swappedData (s : Setting) (schema : MibSchema) (pMib : Mem) :
    let data := swappedData schema (validHeader s schema) pMib
    read data 0 (schema.table.size + 1) =
      read data 0 schema.table.size ++ [checksum (read data 0 schema.table.size)] := by
  intro data
  set m := mibtblSwapValue schema.rootTable pMib 0
  have hdata : data = write m schema.table.size [checksum (read m 0 schema.table.size)] := rfl
  have hread : read data 0 schema.table.size = read m 0 schema.table.size :=
    read_congr fun k _ hk => write_apply_lt (by simp only [validHeader]; omega)
  rw [hread, hdata]
  exact read_write_checksum m schema.table.size

/-- Elements with a tag that is not in the schema are skipped; here the first one is the last. -/
theorem mibTlvInit_skip (tlv : TlvEnv) {t : MibTable} (hid : 0xffff ∉ t.allIds) {fromData : Mem}
    (hfrom : read fromData 0 4 = [255, 255, 255, 255]) (pfile : Mem) {n : ℕ} (hn : 0 < n)
    (hlt : n < 65536) : mibTlvInit tlv t fromData pfile n = some (true, pfile) := by
  simp only [read_succ, read_zero, Nat.zero_add, List.cons.injEq, and_true] at hfrom
  obtain ⟨h0, h1, h2, h3⟩ := hfrom
  have htag : wordSwap (load16 fromData 0) = 0xffff := by
    rw [load16, h0, Nat.zero_add, h1]
    rfl
  have hlen : wordSwap (load16 fromData (0 + 2)) = 0xffff := by
    rw [load16, Nat.zero_add, h2, h3]
    rfl
  have hpass : tlvPass tlv (mibTlvInitFrom tlv t.depth) t fromData n 0 (0, pfile) =
      some (.next (0 + 4 + 0xffff, pfile)) := by
    unfold tlvPass
    simp only [hn, not_true, if_false, htag, hlen, mibSearchById_none hid]
    rfl
  obtain ⟨k, rfl⟩ : ∃ k, n = k + 1 := ⟨n - 1, by omega⟩
  rw [mibTlvInit, if_neg (by omega), mibTlvInitFrom, CLoop.loop_succ_next hpass]
  apply CLoop.loop_succ_done
  exact if_pos (by omega)

/-- Without a block for TLV the struct itself is saved, and taken for TLV: a struct of bytes 255 comes back as zeros.
-/
theorem not_savesMib_of_raw (hok : SettingOk s) (hlenv : lenv.Ok) (hid : 0xffff ∉ schema.rootTable.allIds)
    (hsize : 4 ≤ schema.table.size) (hlt : schema.table.size < 65536)
    (hones : Fits s schema env fun _ => 255) (hst : StringsOk (fun _ => 255) schema.table 0)
    (hraw : ¬ (env.pfile = true ∧ env.mibTlvData = true)) (hptr : env.compPtr = true)
    (hwrite : env.compWrite = .ok)
    (hup : apmibUpdate s schema env (validHeader s schema) (fun _ => 255) flash = some (1, flash')) :
    ¬ SavesMib s schema env lenv := by
  intro hsaves
  obtain ⟨buff, hbuff, heq⟩ := hsaves _ _ _ hst hones hup
  set data := swappedData schema (validHeader s schema) fun _ => 255 with hdatadef
  have hbody : read data 0 schema.table.size = List.replicate schema.table.size 255 :=
    swappedData_const s schema 255
  have hdata : read data 0 (schema.table.size + 1) = List.replicate schema.table.size 255 ++
      [checksum (List.replicate schema.table.size 255)] := by
    rw [← hbody, hdatadef]
    exact read_swappedData s schema _
  have hlen : (List.replicate schema.table.size (255 : UInt8)).length = schema.table.size :=
    List.length_replicate
  have hsaved : savedData schema env (validHeader s schema) (fun _ => 255) =
      (⟨s.tag ++ digits02 s.ver, (List.replicate schema.table.size (255 : UInt8)).length + 1⟩, data) := by
    rw [hlen]
    exact if_neg hraw
  obtain ⟨fromData, hfrom, hload⟩ := loadConf_compressed hok hlenv hones hptr hwrite hup hlen.ge
    (by rw [hlen]; exact hdata) hsaved
  rw [hlen] at hfrom hload
  have hfour : read fromData 0 4 = [255, 255, 255, 255] := by
    have := congrArg (List.take 4) hfrom
    obtain ⟨k, hk⟩ := Nat.exists_eq_add_of_le hsize
    rw [hk, read_add, List.take_left' (length_read ..), List.take_replicate] at this
    simpa using this
  obtain ⟨buff', hbuff', heq'⟩ := hload _ (mibTlvInit_skip lenv.tlv hid hfour _ (by omega) hlt)
  cases Option.some.inj (Option.some.inj (hbuff.symm.trans hbuff'))
  have hzero := congrArg (fun l => l[0]?) (heq.symm.trans heq')
  simp only [getElem?_read _ _ _ _ (show 0 < schema.table.size by omega)] at hzero
  cases hzero

/-- A compressed write that fails leaves the signature of an earlier compressed image in place. -/
theorem mibCompressWrite_fail (hok : SettingOk s) (hfit : Fits s schema env pMib)
    (hblocks : env.compPtr = true → env.expPtr = true ∧ env.lzssbuf = true)
    (hfail : ¬ (env.compPtr = true ∧ env.compWrite = .ok))
    (hsig : read flash s.offset 6 = s.compSignature) :
    let saved := savedData schema env (validHeader s schema) pMib
    ∃ fl, mibCompressWrite s env saved.1 saved.2 flash = some (false, fl) ∧
      read fl s.offset 6 = s.compSignature := by
  intro saved
  cases hptr : env.compPtr with
  | false => exact ⟨flash, by simp [mibCompressWrite, hptr], hsig⟩
  | true =>
    obtain ⟨comp, henc, hpos, -⟩ := encode_expImage saved.1 saved.2
    have hcall := mibCompressWrite_ok hptr (hblocks hptr).1 (hblocks hptr).2 henc hpos
      ((hfit comp henc).trans hok.sector_le) flash
    cases hres : env.compWrite with
    | ok => exact absurd ⟨hptr, hres⟩ hfail
    | short n =>
      rw [hres, flashWrite] at hcall
      refine ⟨_, hcall, ?_⟩
      rw [← hsig]
      refine read_congr fun k hk hlt => ?_
      -- what was written of the image starts with the same signature
      set image := compImage s (saved.1.len + headerLen) comp
      by_cases hin : k < s.offset + (image.take n).length
      · have hbyte := congrArg (fun l => l[k - s.offset]?) hsig
        simp only [getElem?_read _ _ _ _ (show k - s.offset < 6 by omega),
          show s.offset + (k - s.offset) = k by omega] at hbyte
        have htake : (image.take n)[k - s.offset]? = s.compSignature[k - s.offset]? := by
          rw [List.length_take] at hin
          rw [List.getElem?_take_of_lt (by omega)]
          simp only [image, compImage, List.append_assoc]
          exact List.getElem?_append_left (by rw [hok.comp_length]; omega)
        rw [write_apply_mem hk hin, List.getD_eq_getElem?_getD, htake, ← hbyte, Option.getD_some]
      · exact write_apply_ge (by omega)

/-- The first two bytes of what is saved are not both zero: a tag, or bytes 255. -/
theorem savedData_start (s : Setting) (schema : MibSchema) (env : UpdateEnv)
    (hsize : 4 ≤ schema.table.size) :
    let data := (savedData schema env (validHeader s schema) fun _ => 255).2
    data 0 ≠ 0 ∨ data 1 ≠ 0 := by
  intro data
  by_cases htlv : env.pfile = true ∧ env.mibTlvData = true
  · set m := swappedData schema (validHeader s schema) fun _ => 255
    have hdata : data = tlvBlock env.heap (writeTable m schema.table 0) := by
      simp only [data, savedData, if_pos htlv]
      rfl
    obtain ⟨e, es, hes⟩ := entries_ne_nil schema.size_pos
    have hok : EntryOk e := schema.entries.of_mem (by rw [hes]; exact List.mem_cons_self)
    have hw := writeTable_eq (m := m) 0 schema.contiguous fun e he => schema.entries.of_mem he
    rw [Nat.add_zero, hes, List.map_cons] at hw
    have hread := read_append_left (read_write_self env.heap 0
      (writeTable m schema.table 0 ++ [checksum (writeTable m schema.table 0)]))
    rw [← tlvBlock, ← hdata, hw] at hread
    have htag := (read_elem (entryElem_ok hok) hread).2.1
    by_contra hzero
    push Not at hzero
    rw [load16, Nat.zero_add, hzero.1, hzero.2] at htag
    exact absurd htag.symm (Nat.pos_iff_ne_zero.mp hok.id_pos)
  · have hdata : data = swappedData schema (validHeader s schema) fun _ => 255 := by
      simp [data, savedData, if_neg htlv]
    have hbytes := congrArg (fun l => l[0]?) (swappedData_const s schema 255)
    simp only [getElem?_read _ _ _ _ (show 0 < schema.table.size by omega), ← hdata, Nat.add_zero,
      List.getElem?_replicate, if_pos (show 0 < schema.table.size by omega), Option.some.injEq] at hbytes
    rw [hbytes]
    exact Or.inl (by decide)

theorem stringsOk_ones (t : MibTable) (o : ℕ) : StringsOk (fun _ => 255) t o := by
  induction t generalizing o with
  | nil => trivial
  | cons id type off totalSize unitSize next rest ihn ihr =>
    refine ⟨fun _ j _ => ihn _, fun _ => ?_, ihr _⟩
    simp [ZeroAfterNul, ByteMem.read]

/-- The update comes to its end with 1: the blocks it needs are there, and one of its writes succeeds. -/
structure UpdateEnv.Finishes (env : UpdateEnv) : Prop where
  data : env.data = true
  blocks : env.compPtr = true → env.expPtr = true ∧ env.lzssbuf = true
  written : env.compPtr = true ∧ env.compWrite = .ok ∨ env.rawWrite = .ok

theorem apmibUpdate_of_call (hdata : env.data = true) (hroom : schema.table.encLen ≤ 4 * schema.table.size)
    {r : Bool × Mem} (hcall : let saved := savedData schema env (validHeader s schema) pMib
      mibCompressWrite s env saved.1 saved.2 flash = some r) :
    apmibUpdate s schema env (validHeader s schema) pMib flash = some (writeFallback s env
      (validHeader s schema) (savedData schema env (validHeader s schema) pMib).2 r) := by
  have hlen : ∀ m, (mibWriteToRaw schema.root m 0).length = schema.table.encLen := fun m =>
    length_writeTable ..
  unfold apmibUpdate
  simp [hdata, Bool.not_true, hlen, Nat.not_lt.mpr hroom, and_false, hcall]

/-- The fallback over an earlier compressed image makes the loader return `NULL`. -/
theorem not_savesMib_of_fallback (hok : SettingOk s) (hfin : env.Finishes)
    (hroom : schema.table.encLen ≤ 4 * schema.table.size) (hsize : 4 ≤ schema.table.size)
    (hones : Fits s schema env fun _ => 255) (hfail : ¬ (env.compPtr = true ∧ env.compWrite = .ok)) :
    ¬ SavesMib s schema env lenv := by
  intro hsaves
  have hraw : env.rawWrite = .ok := hfin.written.resolve_left hfail
  have hsig₀ : read (write (fun _ => 0) s.offset s.compSignature) s.offset 6 = s.compSignature := by
    have := read_write_self (fun _ => 0) s.offset s.compSignature
    rwa [hok.comp_length] at this
  obtain ⟨fl, hcall, hsig⟩ := mibCompressWrite_fail hok hones hfin.blocks hfail hsig₀
  have hup := apmibUpdate_of_call hfin.data hroom hcall
  set data := (savedData schema env (validHeader s schema) fun _ => 255).2
  rw [writeFallback, hraw, flashWrite] at hup
  obtain ⟨buff, hbuff, -⟩ := hsaves _ _ _ (stringsOk_ones _ _) hones hup
  have hwritten : ∀ k < 4, write fl (s.offset + headerLen)
      (read data 0 (validHeader s schema).len) (s.offset + 8 + k) = data k := by
    intro k hk
    have hlen : k < (validHeader s schema).len := by
      simp only [validHeader]
      omega
    rw [write_apply_mem (by simp only [headerLen]; omega) (by simp only [headerLen, length_read]; omega),
      List.getD_eq_getElem?_getD, show s.offset + 8 + k - (s.offset + headerLen) = k by
        simp only [headerLen]; omega, getElem?_read _ _ _ _ hlen, Nat.zero_add, Option.getD_some]
  have hnull : loadConf s schema lenv
      (write fl (s.offset + headerLen) (read data 0 (validHeader s schema).len)) = some none := by
    apply loadConf_null hok
    · rw [read_write_of_disjoint (Or.inl (by simp only [headerLen]; omega)), hsig]
    · have h0 := hwritten 0 (by omega)
      have h1 := hwritten 1 (by omega)
      rw [h0, h1]
      exact savedData_start s schema env hsize
  rw [hnull] at hbuff
  cases hbuff

/-- **When a saved setting is loaded back.** It is for every content, if the TLV form is made and its compressed image
is written. If `apmib_update` returns 1 in another way, there is a content and a flash for which it is not. -/
theorem savesMib_iff (hs : s = currentSetting ∨ s = defaultSetting) (hun : schema.table.AllUnshadowed)
    (hlenv : lenv.Ok) :
    (env.pfile = true ∧ env.mibTlvData = true ∧ env.compPtr = true ∧ env.compWrite = .ok →
      SavesMib s schema env lenv) ∧
    (env.Finishes → schema.table.encLen ≤ 4 * schema.table.size → 4 ≤ schema.table.size →
      schema.table.size < 65536 → 0xffff ∉ schema.rootTable.allIds → Fits s schema env (fun _ => 255) →
      SavesMib s schema env lenv →
      env.pfile = true ∧ env.mibTlvData = true ∧ env.compPtr = true ∧ env.compWrite = .ok) := by
  have hok : SettingOk s := hs.elim (fun h => h ▸ currentSetting_ok) fun h => h ▸ defaultSetting_ok
  refine ⟨fun h => savesMib_of_compressed hok hun hlenv h.1 h.2.1 h.2.2.1 h.2.2.2,
    fun hfin hroom hsize hlt hid hones hsaves => ?_⟩
  have hwrite : env.compPtr = true ∧ env.compWrite = .ok := by
    by_contra hfail
    exact not_savesMib_of_fallback hok hfin hroom hsize hones hfail hsaves
  have htlv : env.pfile = true ∧ env.mibTlvData = true := by
    by_contra hraw
    obtain ⟨comp, henc, hpos, -⟩ :=
      encode_expImage (savedData schema env (validHeader s schema) fun _ => 255).1
        (savedData schema env (validHeader s schema) fun _ => 255).2
    have hblocks := hfin.blocks hwrite.1
    have hcall := mibCompressWrite_ok hwrite.1 hblocks.1 hblocks.2 henc hpos
      ((hones comp henc).trans hok.sector_le) fun _ => 0
    rw [hwrite.2, flashWrite] at hcall
    have hup := apmibUpdate_of_call hfin.data hroom hcall
    exact not_savesMib_of_raw hok hlenv hid hsize hlt hones (stringsOk_ones _ _) hraw hwrite.1 hwrite.2
      hup hsaves
  exact ⟨htlv.1, htlv.2, hwrite⟩

def plainUpdate : UpdateEnv := ⟨true, true, true, true, true, true, .ok, .ok, fun _ => 0⟩

def noCompPtr : UpdateEnv := { plainUpdate with compPtr := false }

def plainLoad : LoadEnv :=
  ⟨true, true, some fun _ => 0, true, true, true, ⟨fun _ => 0, fun _ => true⟩, fun _ => 0⟩

theorem plainLoad_ok : plainLoad.Ok := ⟨rfl, rfl, rfl, rfl, rfl, rfl, fun _ => rfl⟩

theorem pairSchema_unshadowed : pairSchema.table.AllUnshadowed := by
  constructor <;> simp [pairSchema, MibTable.All, MibTable.Unshadowed, MibTable.ids, MibTable.entries, MibTable.allIds]

theorem pairSchema_saved : SavesMib currentSetting pairSchema plainUpdate plainLoad ∧
    ¬ SavesMib currentSetting pairSchema noCompPtr plainLoad := by
  refine ⟨(savesMib_iff (Or.inl rfl) pairSchema_unshadowed plainLoad_ok).1 (by decide), fun h => ?_⟩
  have := (savesMib_iff (Or.inl rfl) pairSchema_unshadowed plainLoad_ok).2
    ⟨rfl, by simp [noCompPtr], Or.inr rfl⟩ (by decide) (by decide) (by decide) (by decide)
    (fits_of_short _ _ _ _ (by decide +kernel)) h
  simp [noCompPtr] at this

/-- On a blank flash, without the block for the compressed file: the update returns 1, the loader
returns `NULL`. -/
theorem noCompPtr_not_loaded : StringsOk pairStruct pairSchema.table 0 ∧
    Fits currentSetting pairSchema noCompPtr pairStruct ∧
    ∃ flash', apmibUpdate currentSetting pairSchema noCompPtr (validHeader currentSetting pairSchema)
        pairStruct (fun _ => 0xff) = some (1, flash') ∧
      apmibCsconf pairSchema plainLoad flash' = some none := by
  refine ⟨?_, fits_of_short _ _ _ _ (by decide +kernel), _, rfl, ?_⟩
  · simp [pairSchema, StringsOk, ZeroAfterNul, pairStruct, ofList, read_succ]
  · rfl

end Save

end NasFirmware.Apmib
