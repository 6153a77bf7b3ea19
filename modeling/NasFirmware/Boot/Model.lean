import NasFirmware.Lib.Mem

/-!
# The NAND firmware loader of the boot loader

`cmd_boot.c` reads the firmware description table from the flash, one page of it, checks it, and loads the images that
the table lists (little-endian build for a NAS with NAND flash). The table stays in memory while the images are loaded,
and its entries are read from there.

The flash driver, the hash engine and the decompressor are parameters (`Env`). Pointers are 32 bits wide.
-/

namespace NasFirmware.Boot

open ByteMem

/-! ## Types -/

/-- The image types that are told apart (`fw_type_code_t`). -/
inductive FwType where
  | bootcode | kernel | rescueDt | kernelDt | rescueRootfs | kernelRootfs | audio | audioFile | videoFile | squash | ext3
  | odd | yaffs2 | jffs2 | imageFile | tee | other
  deriving DecidableEq, Repr

def FwType.ofByte (b : UInt8) : FwType :=
  match b.toNat with
  | 1 => bootcode
  | 2 => kernel
  | 3 => rescueDt
  | 4 => kernelDt
  | 5 => rescueRootfs
  | 6 => kernelRootfs
  | 7 => audio
  | 8 => audioFile
  | 9 => videoFile
  | 12 => squash
  | 13 => ext3
  | 14 => odd
  | 15 => yaffs2
  | 19 => jffs2
  | 20 => imageFile
  | 30 => tee
  | _ => other

/-- Secure mode and compression apply to these images only. -/
def FwType.isFw : FwType → Bool
  | .audio | .kernelRootfs | .kernel | .rescueRootfs => true
  | _ => false

def FwType.isDt : FwType → Bool
  | .rescueDt | .kernelDt => true
  | _ => false

inductive BootMode where
  | console | rescue | normal | manual | qcVerify | flashWriter | android | kernelOnly
  deriving DecidableEq, Repr

/-- `SECUTE_BOOT_T` -/
inductive SecureBoot where
  | none | rtk
  deriving DecidableEq, Repr

/-- The images that a boot mode loads. -/
def wanted (mode : BootMode) (nasRescue : Bool) : FwType → Bool :=
  if mode = .rescue ∨ mode = .android then
    fun
    | .kernel | .rescueDt | .rescueRootfs | .tee => true
    | .audio => !nasRescue
    | _ => false
  else
    fun
    | .bootcode | .kernel | .kernelDt | .kernelRootfs | .tee | .jffs2 | .squash | .ext3 | .odd | .yaffs2 | .audioFile
    | .videoFile | .imageFile => true
    | .audio => mode ≠ .kernelOnly
    | _ => false

/-- What the loader is built on: the page size, the table's place, two ways to read the flash (the second decrypts),
the signature check and the decompressor. -/
structure Env where
  page : ℕ
  start : ℕ
  nandRead : ℕ → ℕ → Option (List UInt8)
  nandReadOnTheFly : ℕ → ℕ → Option (List UInt8)
  verifySha256Hash : List UInt8 → List UInt8 → Bool
  lzma : List UInt8 → Option (List UInt8)
  secureMode : SecureBoot
  bootMode : BootMode
  nasRescue : Bool

inductive Err where
  | parseFwDesc | readFwImg
  deriving DecidableEq, Repr

/-- `fw_desc_entry_v1_t`, with which the entries of every version begin. -/
structure Entry where
  type : FwType
  lzma : Bool
  targetAddr : ℕ
  offset : ℕ
  length : ℕ
  checksum : ℕ
  deriving DecidableEq, Repr

/-- The entry at address `a`; `lzma` is bit 6 of the second byte. -/
def entryAt (m : Mem) (a : ℕ) : Entry where
  type := FwType.ofByte (m a)
  lzma := (m (a + 1)).toNat / 64 % 2 = 1
  targetAddr := load32 m (a + 6)
  offset := load32 m (a + 10)
  length := load32 m (a + 14)
  checksum := load32 m (a + 22)

theorem entryAt_congr {m m' : Mem} {a : ℕ} (h : ∀ k, a ≤ k → k < a + 26 → m' k = m k) : entryAt m' a = entryAt m a := by
  have hword : ∀ o, o + 4 ≤ 26 → load32 m' (a + o) = load32 m (a + o) := fun o ho =>
    load32_congr fun k hk hlt => h k (by omega) (by omega)
  unfold entryAt
  rw [h a (by omega) (by omega), h (a + 1) (by omega) (by omega), hword 6 (by decide), hword 10 (by decide),
    hword 14 (by decide), hword 22 (by decide)]

def getChecksum (bs : List UInt8) : ℕ := (bs.map UInt8.toNat).sum % 2 ^ 32

/-- Device trees have a reserved place. -/
def rtkPlatGetDtbTargetAddress (a : ℕ) : ℕ := if 0x01FF2000 ≤ a ∧ a < 0x02002000 then a else 0x01FF2000

structure MemLayout where
  isEncrypted : Bool
  isCompressed : Bool
  imageTargetAddr : ℕ
  flashToRamAddr : ℕ
  decryptedAddr : ℕ
  compressedAddr : ℕ
  decompressedAddr : ℕ

def compressedFwImageAddr : ℕ := 0x0b000000

/-- The layout is left as it was if the image has no target. -/
def getMemLayoutWhenReadImage (m : MemLayout) : MemLayout :=
  if m.imageTargetAddr = 0 then m
  else if m.isEncrypted then
    if m.isCompressed then
      { m with
        flashToRamAddr := m.imageTargetAddr
        decryptedAddr := compressedFwImageAddr
        compressedAddr := compressedFwImageAddr
        decompressedAddr := m.imageTargetAddr }
    else { m with flashToRamAddr := m.imageTargetAddr, decryptedAddr := m.imageTargetAddr }
  else
    if m.isCompressed then
      { m with
        flashToRamAddr := compressedFwImageAddr
        compressedAddr := compressedFwImageAddr
        decompressedAddr := m.imageTargetAddr }
    else { m with flashToRamAddr := m.imageTargetAddr }

/-! ## Loading -/

/-- An image that was loaded: its entry as it was then, the bytes that were summed and their sum, the bytes and the
signature that were hashed, and the bytes that were unpacked. -/
structure Load where
  index : ℕ
  entry : Entry
  image : List UInt8
  checksum : ℕ
  hashed : Option (List UInt8 × List UInt8)
  unpacked : Option (List UInt8)

/-- The state of the loader. `reads` are the reads from flash: the index of the entry and the flash offset. -/
structure State where
  ram : Mem
  layout : MemLayout
  reads : List (ℕ × ℕ)
  loads : List Load

def pageAligned (page len : ℕ) : ℕ :=
  if len &&& (page - 1) ≠ 0 then (len - (len &&& (page - 1)) + page) % 2 ^ 32 else len

def layoutFor (env : Env) (e : Entry) (m : MemLayout) : MemLayout :=
  getMemLayoutWhenReadImage
    { m with
      isEncrypted := e.type.isFw && env.secureMode ≠ .none
      isCompressed := e.type.isFw && e.lzma
      imageTargetAddr := e.targetAddr &&& 0x1fffffff }

/-- What is hashed: the image without its last 256 bytes, which are the signature. -/
def hashedPart (m : Mem) (addr len : ℕ) : List UInt8 × List UInt8 :=
  (read m addr ((len + 2 ^ 32 - 256) % 2 ^ 32), read m ((addr + len + 2 ^ 32 - 256) % 2 ^ 32) 256)

/-- The image is unpacked if it is compressed, and is then loaded. -/
def unpackImage (env : Env) (load : Load) (s : State) : Option Err × State :=
  if s.layout.isCompressed then
    let src := read s.ram s.layout.compressedAddr load.entry.length
    match env.lzma src with
    | none => (some .readFwImg, s)
    | some out =>
      (none, { s with
        ram := write s.ram s.layout.decompressedAddr out
        loads := s.loads ++ [{ load with unpacked := some src }] })
  else (none, { s with loads := s.loads ++ [load] })

/-- The image of `e` is in memory: its checksum is compared, which does not count in secure mode, and its hash is
verified if it is encrypted. -/
def checkImage (env : Env) (a i : ℕ) (e : Entry) (s : State) : Option Err × State :=
  let e' := entryAt s.ram a
  let image := read s.ram s.layout.flashToRamAddr e'.length
  let hashed :=
    if s.layout.isEncrypted ∧ env.secureMode = .rtk then some (hashedPart s.ram s.layout.flashToRamAddr e'.length)
    else none
  if e'.checksum ≠ getChecksum image ∧ env.secureMode ≠ .rtk then (some .readFwImg, s)
  else if ∃ p ∈ hashed, env.verifySha256Hash p.1 p.2 = false then (some .readFwImg, s)
  else unpackImage env ⟨i, e, image, e'.checksum, hashed, none⟩ s

/-- The image of the entry at `a` is read from the flash. -/
def readImage (env : Env) (a i : ℕ) (s : State) : Option Err × State :=
  let e := entryAt s.ram a
  let layout := layoutFor env e s.layout
  let offset := (env.start + e.offset) % 2 ^ 32
  let s := { s with layout, reads := s.reads ++ [(i, offset)] }
  let nandRead := if layout.isEncrypted then env.nandReadOnTheFly else env.nandRead
  match nandRead offset (pageAligned env.page e.length) with
  | none => (some .readFwImg, s)
  | some bs => checkImage env a i e { s with ram := write s.ram layout.flashToRamAddr bs }

/-- One entry: it is skipped if it has no target or is not wanted; a device tree's target is put right in the entry.
-/
def loadEntry (env : Env) (a i : ℕ) (s : State) : Option Err × State :=
  let e := entryAt s.ram a
  if e.targetAddr = 0 then (none, s)
  else if wanted env.bootMode env.nasRescue e.type = false then (none, s)
  else if e.type.isDt then
    readImage env a i { s with ram := write s.ram (a + 6) (store32 (rtkPlatGetDtbTargetAddress e.targetAddr)) }
  else readImage env a i s

/-- The loop of `rtk_plat_read_fw_image_from_NAND`: `k` entries from number `i` on, `unit` bytes each. -/
def loadLoop (env : Env) (fwEntry unit : ℕ) : ℕ → ℕ → State → Option Err × State
  | 0, _, s => (none, s)
  | k + 1, i, s =>
    match loadEntry env ((fwEntry + unit * i) % 2 ^ 32) i s with
    | (some err, s') => (some err, s')
    | (none, s') => loadLoop env fwEntry unit k (i + 1) s'

/-- The size of an entry, for the versions there are. -/
def unitLen (version : UInt8) : Option ℕ :=
  if version = 0x1 then some 32 else if version = 0x11 then some 96 else if version = 0x21 then some 320 else none

/-- `rtk_plat_read_fw_image_from_NAND`; `layout` is what its layout variable holds at first. -/
def rtkPlatReadFwImageFromNand (env : Env) (fwEntry fwCount : ℕ) (version : UInt8) (ram : Mem) (layout : MemLayout) :
    Option Err × State :=
  match unitLen version with
  | none => (some .readFwImg, ⟨ram, layout, [], []⟩)
  | some unit => loadLoop env fwEntry unit fwCount 0 ⟨ram, layout, [], []⟩

/-! ## The table -/

def tableBase : ℕ := 0x06400000

def tableSignature : List UInt8 := [0x56, 0x45, 0x52, 0x4F, 0x4E, 0x41, 0x5F, 0x5F]

structure Header where
  signature : List UInt8
  checksum : ℕ
  version : UInt8
  partListLen : ℕ
  fwListLen : ℕ

def headerAt (m : Mem) (a : ℕ) : Header where
  signature := read m a 8
  checksum := load32 m (a + 8)
  version := m (a + 12)
  partListLen := load32 m (a + 24)
  fwListLen := load32 m (a + 28)

def Header.checkedLen (h : Header) : ℕ := (20 + h.partListLen + h.fwListLen) % 2 ^ 32

structure Table where
  ram : Mem
  header : Header
  unit : ℕ

def Table.fwEntry (t : Table) : ℕ := (tableBase + 32 + t.header.partListLen) % 2 ^ 32

def Table.fwEntryNum (t : Table) : ℕ := t.header.fwListLen / t.unit

def fwCount (m : Mem) : ℕ := (m (tableBase + 42)).toNat

/-- The first half of `rtk_plat_prepare_fw_image_from_NAND`: the page is read, twice, and checked. -/
def accept (env : Env) (ram : Mem) : Except Err Table :=
  match env.nandRead env.start env.page with
  | none => .error .parseFwDesc
  | some page =>
    let ram := write ram tableBase page
    let h := headerAt ram tableBase
    if h.signature ≠ tableSignature then .error .parseFwDesc
    else
      match env.nandRead env.start env.page with
      | none => .error .parseFwDesc
      | some page =>
        let ram := write ram tableBase page
        if h.checksum ≠ getChecksum (read ram (tableBase + 12) h.checkedLen) then .error .parseFwDesc
        else if h.partListLen = 0 then .error .parseFwDesc
        else if ram (tableBase + 32) ≠ 1 then .error .parseFwDesc
        else
          match unitLen h.version with
          | none => .error .parseFwDesc
          | some unit => .ok ⟨ram, h, unit⟩

/-- The conversion of the offsets, from entry `i` on. The count is read again in each pass; it is a byte, so 256 are
enough. -/
def rebase (start fwEntry unit : ℕ) : ℕ → ℕ → Mem → Mem
  | 0, _, m => m
  | k + 1, i, m =>
    if i < fwCount m then
      let a := (fwEntry + unit * i) % 2 ^ 32 + 10
      rebase start fwEntry unit k (i + 1) (write m a (store32 ((load32 m a + 2 ^ 32 - start) % 2 ^ 32)))
    else m

/-- `rtk_plat_prepare_fw_image_from_NAND` -/
def prepare (env : Env) (ram : Mem) (layout : MemLayout) : Option Err × State :=
  match accept env ram with
  | .error err => (some err, ⟨ram, layout, [], []⟩)
  | .ok t =>
    rtkPlatReadFwImageFromNand env t.fwEntry t.fwEntryNum t.header.version
      (rebase env.start t.fwEntry t.unit 256 0 t.ram) layout

end NasFirmware.Boot
