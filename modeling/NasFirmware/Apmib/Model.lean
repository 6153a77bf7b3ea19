import NasFirmware.Lzss.Model
import NasFirmware.Mib.Schema

/-!
# Saving and loading a setting

`apmib_update` swaps the MIB, turns it into TLV form, adds a checksum, compresses it and writes it to
its flash sector behind a header. `apmib_csconf` and `apmib_dsconf` go the other way.

The flash is a memory. Allocations and flash writes answer as `UpdateEnv` and `LoadEnv` say. `none` is
a run that the C program does not finish: a division by zero, a block that is overrun or freed twice.
-/

namespace NasFirmware.Apmib

open ByteMem Mib

/-- A setting: its sector, the signatures in front of it, and whether the loader clears the blocks it
allocates. -/
structure Setting where
  offset : ℕ
  sectorLen : ℕ
  compSignature : List UInt8
  tag : List UInt8
  ver : ℕ
  clears : Bool

def currentSetting : Setting :=
  ⟨0xc000, 0x10000 - 0xc000, [67, 79, 77, 80, 67, 83], [54, 97], 3, true⟩

def defaultSetting : Setting :=
  ⟨0x8000, 0xc000 - 0x8000, [67, 79, 77, 80, 68, 83], [54, 65], 3, false⟩

/-- `PARAM_HEADER_T`: tag and version, and the length of what follows. -/
structure ParamHeader where
  signature : List UInt8
  len : ℕ

def headerLen : ℕ := 8

def compHeaderLen : ℕ := 12

/-! ## Checks -/

/-- `CHECKSUM`: the two's complement of the sum. -/
def checksum (data : List UInt8) : UInt8 := ~~~ data.sum + 1

def checksumOk (data : Mem) (len : ℕ) : Bool := len ≤ 0x800000 && (read data 0 len).sum == 0

def isDigit (c : UInt8) : Bool := 48 ≤ c && c ≤ 57

/-- White space, as `sscanf` skips it. -/
def isSpace (c : UInt8) : Bool := c == 32 || (9 ≤ c && c ≤ 13)

/-- `sscanf(s, "%02d", &ver)`: at most two characters, one of which may be a sign. -/
def scan02d (s : List UInt8) : Option ℤ :=
  match s.dropWhile isSpace with
  | [] => none
  | c :: s =>
    if isDigit c then
      match s with
      | [] => some (c.toNat - 48)
      | d :: _ => if isDigit d then some (10 * (c.toNat - 48) + (d.toNat - 48)) else some (c.toNat - 48)
    else if c = 43 ∨ c = 45 then
      match s with
      | [] => none
      | d :: _ =>
        if isDigit d then some (if c = 45 then -(d.toNat - 48) else d.toNat - 48) else none
    else none

/-- `sprintf(s, "%02d", ver)` for a version below 100. -/
def digits02 (ver : ℕ) : List UInt8 := [UInt8.ofNat (48 + ver / 10), UInt8.ofNat (48 + ver % 10)]

/-- The test for tag and version. `tail` is what follows the signature in memory. -/
def signatureOk (s : Setting) (signature tail : List UInt8) : Bool :=
  signature.take 2 == s.tag && (scan02d (signature.drop 2 ++ tail)).getD (-1) == s.ver

/-! ## Saving -/

/-- The answer to a `flash_write`: everything is written, or the call fails after `n` bytes. -/
inductive WriteResult where
  | ok
  | short (n : ℕ)
  deriving DecidableEq

def flashWrite (flash : Mem) (offset : ℕ) (buf : List UInt8) : WriteResult → Bool × Mem
  | .ok => (true, write flash offset buf)
  | .short n => (false, write flash offset (buf.take n))

/-- Which allocations succeed, how the two flash writes end, and what lies behind the TLV block on the heap. -/
structure UpdateEnv where
  data : Bool
  pfile : Bool
  mibTlvData : Bool
  compPtr : Bool
  expPtr : Bool
  lzssbuf : Bool
  compWrite : WriteResult
  rawWrite : WriteResult
  heap : Mem

/-- The image that is compressed: the header in network order, and `len` bytes of data. -/
def expImage (header : ParamHeader) (data : Mem) : List UInt8 :=
  header.signature ++ store32 (dwordSwap header.len) ++ read data 0 header.len

def compImage (s : Setting) (expLen : ℕ) (comp : List UInt8) : List UInt8 :=
  s.compSignature ++ store16 (wordSwap ((expLen / comp.length + 1) % 65536)) ++
    store32 (dwordSwap comp.length) ++ comp

/-- `mib_compress_write`: whether it succeeded, and the flash. -/
def mibCompressWrite (s : Setting) (env : UpdateEnv) (header : ParamHeader) (data flash : Mem) :
    Option (Bool × Mem) :=
  let expLen := header.len + headerLen
  -- the size of the block for the compressed file is the flash offset of the sector
  let realSize := s.offset
  if env.compPtr ∧ env.expPtr then do
    let comp ← Lzss.encode env.lzssbuf (expImage header data)
    if comp.length = 0 then none
    else if realSize < comp.length + compHeaderLen then none
    else some (flashWrite flash s.offset (compImage s expLen comp) env.compWrite)
  -- without `expPtr`, `compPtr` is freed twice
  else if env.compPtr then none
  else some (false, flash)

def swappedData (schema : MibSchema) (header : ParamHeader) (pMib : Mem) : Mem :=
  let data := mibtblSwapValue schema.rootTable pMib 0
  write data (header.len - 1) [checksum (read data 0 (header.len - 1))]

/-- The TLV block: the elements and their checksum, then whatever is on the heap. -/
def tlvBlock (heap : Mem) (tlv : List UInt8) : Mem := write heap 0 (tlv ++ [checksum tlv])

/-- What is handed to `mib_compress_write`: the TLV block, or the struct as it is if a block for TLV could not be
allocated. -/
def savedData (schema : MibSchema) (env : UpdateEnv) (header : ParamHeader) (pMib : Mem) :
    ParamHeader × Mem :=
  let data := swappedData schema header pMib
  if env.pfile ∧ env.mibTlvData then
    let tlv := mibWriteToRaw schema.root data 0
    ({ header with len := tlv.length + 1 }, tlvBlock env.heap tlv)
  else (header, data)

/-- The end of `apmib_update`: if the compressed write failed, the struct is written, without a header. -/
def writeFallback (s : Setting) (env : UpdateEnv) (header : ParamHeader) (data : Mem) :
    Bool × Mem → ℤ × Mem
  | (true, flash) => (1, flash)
  | (false, flash) =>
    let (ok, flash) := flashWrite flash (s.offset + headerLen) (read data 0 header.len) env.rawWrite
    (if ok then 1 else 0, flash)

/-- `apmib_update` for `CURRENT_SETTING` or `DEFAULT_SETTING`: its result, and the flash. -/
def apmibUpdate (s : Setting) (schema : MibSchema) (env : UpdateEnv) (header : ParamHeader)
    (pMib flash : Mem) : Option (ℤ × Mem) :=
  if !env.data then some (-1, flash)
  -- `pfile` has room for four times the struct
  else if env.pfile ∧
      4 * schema.table.size < (mibWriteToRaw schema.root (swappedData schema header pMib) 0).length then
    none
  else
    let saved := savedData schema env header pMib
    (mibCompressWrite s env saved.1 saved.2 flash).map (writeFallback s env header saved.2)

/-- Which allocations of the loader succeed, and what uncleared memory contains. -/
structure LoadEnv where
  compFile : Bool
  expFile : Bool
  decodeBuf : Option (ℕ → UInt8)
  mibData : Bool
  expFile2 : Bool
  buff : Bool
  tlv : TlvEnv
  heap : Mem

/-- The part of the loader for a compressed setting: the header and the MIB with its checksum, or `some none` if it is
refused. -/
def expandConf (s : Setting) (schema : MibSchema) (env : LoadEnv) (flash : Mem) :
    Option (Option (ParamHeader × Mem)) :=
  let zipRate := wordSwap (load16 flash (s.offset + 6))
  let compLen := dwordSwap (load32 flash (s.offset + 8))
  if ¬ (0 < compLen ∧ compLen ≤ s.sectorLen) then some none
  else if !env.compFile then some none
  else if !env.expFile then some none
  else do
    let expanded ← Lzss.decode env.decodeBuf (read flash (s.offset + compHeaderLen) compLen)
    -- the expanded file has to fit its block
    if zipRate * compLen < expanded.length then none
    else
      let expFile := write (if s.clears then fun _ => 0 else env.heap) 0 expanded
      let signature := read expFile 0 4
      let len := dwordSwap (load32 expFile 4)
      if !signatureOk s signature (store32 len) then some none
      else
        let tlvContentLen := (len + 2 ^ 32 - 1) % 2 ^ 32
        let body : Mem := fun k => expFile (headerLen + k)
        if !checksumOk body len then some none
        else if !env.mibData then some none
        else do
          let (ok, mibData) ← mibTlvInit env.tlv schema.rootTable body (fun _ => 0) tlvContentLen
          if !ok then some none
          -- the second `expFile` is used without a test
          else if !env.expFile2 then none
          else
            let size := schema.table.size
            some (some (⟨signature.take 2 ++ digits02 s.ver, size + 1⟩,
              write mibData size [checksum (read mibData 0 size)]))

/-- A loader: the MIB it returns, or `some none` for `NULL`. -/
def loadConf (s : Setting) (schema : MibSchema) (env : LoadEnv) (flash : Mem) : Option (Option Mem) := do
  let found : Option (ParamHeader × Mem) ←
    if read flash s.offset 6 = s.compSignature then expandConf s schema env flash
    else
      some (some (⟨read flash s.offset 4, dwordSwap (load32 flash (s.offset + 4))⟩,
        fun k => flash (s.offset + headerLen + k)))
  match found with
  | none => some none
  | some (header, data) =>
    if !signatureOk s header.signature (store32 header.len) || header.len < schema.table.size + 1 then
      some none
    else if !env.buff then some none
    else if !checksumOk data header.len then some none
    else some (some data)

def apmibCsconf : MibSchema → LoadEnv → Mem → Option (Option Mem) := loadConf currentSetting

def apmibDsconf : MibSchema → LoadEnv → Mem → Option (Option Mem) := loadConf defaultSetting

end NasFirmware.Apmib
