import NasFirmware.Tar.Model

/-!
# The factory area

`factorylib.c` keeps an archive in memory, `factory_buffer`, with a second buffer of the same size behind
it.

The eMMC is a memory of its own, addressed in bytes; the driver reads and writes whole blocks.
-/

namespace NasFirmware.Factory

open ByteMem CString CLoop Tar

/-- The build: `NAS_ENABLE`, `CONFIG_FACTORY_START`, and half of `CONFIG_FACTORY_SIZE`. -/
structure Config where
  nas : Bool
  start : ℕ
  half : ℕ
  start_dvd : 512 ∣ start
  half_dvd : 512 ∣ half
  half_le : 2048 ≤ half
  half_lt : half < 2 ^ 30

def nasConfig : Config := ⟨true, 0x220000, 0x200000, by decide, by decide, by decide, by decide⟩

def defaultConfig : Config := ⟨false, 0x1800000, 0x400000, by decide, by decide, by decide, by decide⟩

/-- `TAR_PADDING_SZ`: two blocks, with `NAS_ENABLE`. -/
def Config.tarPadding (cfg : Config) : ℕ := if cfg.nas then 512 * 2 else 0

def factoryHeader : List UInt8 := [116, 109, 112, 47, 102, 97, 99, 116, 111, 114, 121, 47]

/-- The variables of the library. Address 0 of `mem` is `factory_buffer`; the second buffer starts at `half`. -/
structure Store where
  mem : Mem
  tarsize : ℕ
  dirty : Bool
  currentPp : ℕ
  seqNum : ℕ

/-- `factory_read`: the data, or `some none` if there is no such file. -/
def factoryRead (cfg : Config) (f : Store) (path : List UInt8) : Option (Option (List UInt8)) :=
  (tarRead f.mem path 0 cfg.half).map fun r => r.map fun (addr, length) => read f.mem addr length

def factoryWrite (cfg : Config) (f : Store) (path data : List UInt8) : Option (ℤ × Store) :=
  if cfg.half < blocks data.length + f.tarsize + 512 + cfg.tarPadding then some (-1, f)
  else
    (tarAddOrDelete cfg.nas (memset f.mem cfg.half cfg.half 0) 0 path data cfg.half cfg.half true).map
      fun (mem, tarsize) =>
        if tarsize = 0 then (-1, { f with mem := mem, tarsize := tarsize })
        else (0, { f with mem := mem, tarsize := tarsize, dirty := true })

def factoryDelete (cfg : Config) (f : Store) (path : List UInt8) : Option (ℤ × Store) :=
  (tarAddOrDelete cfg.nas (memset f.mem cfg.half cfg.half 0) 0 path [] cfg.half cfg.half false).map
    fun (mem, tarsize) => (0, { f with mem := mem, tarsize := tarsize, dirty := true })

/-- Make the first header the RTK header: signature, size, sequence number and checksum. -/
def fillRtkHeader (m : Mem) (tarsize seqnum : ℕ) : Mem :=
  let m := write m 508 (rtk ++ [0])
  let m := write m 504 (store32 tarsize)
  let m := write m 500 (store32 seqnum)
  tarFillChecksum m 0

def buildRoot (m : Mem) (seqnum : ℕ) : Mem :=
  fillRtkHeader (tarBuildHeader m 0 factoryHeader 0 53) 512 seqnum

/-! ## Saving -/

/-- The answer of `rtk_eMMC_write`: all blocks are written, or an error after `n` of them. -/
inductive WriteResult where
  | ok
  | failed (n : ℕ)

/-- `rtk_eMMC_write`: whether the number of blocks is right, and the eMMC. -/
def emmcWrite (flash : Mem) (addr : ℕ) (buffer : Mem) (dataSize : ℕ) : WriteResult → Bool × Mem
  | .ok => (true, write flash addr (read buffer 0 (blocks dataSize)))
  | .failed n => (false, write flash addr (read buffer 0 (min (n * 512) (blocks dataSize))))

def Config.base (cfg : Config) (pp : ℕ) : ℕ := cfg.start + pp * cfg.half

def Store.nextPp (f : Store) : ℕ := (f.currentPp + 1) % 2

def Store.nextSeq (f : Store) : ℕ := (f.seqNum + 1) % 2 ^ 32

/-- The buffer as it is written: with the RTK header in front, and a copy of it behind the archive. -/
def saveBuffer (f : Store) : Mem :=
  let mem := fillRtkHeader f.mem f.tarsize f.nextSeq
  write mem f.tarsize (read mem 0 512)

def factorySaveToEMMC (cfg : Config) (f : Store) (flash : Mem) (res : WriteResult) : ℤ × Store × Mem :=
  let mem := saveBuffer f
  if cfg.half < f.tarsize + 512 then (1, { f with mem := mem }, flash)
  else
    let totalLen := f.tarsize + 512 + cfg.tarPadding
    match emmcWrite flash (cfg.base f.nextPp) mem totalLen res with
    | (false, flash) => (1, { f with mem := mem }, flash)
    | (true, flash) =>
      -- the copy behind the archive is removed again
      (0, { f with mem := memset mem f.tarsize 512 0, currentPp := f.nextPp, seqNum := f.nextSeq }, flash)

def factorySave (cfg : Config) (f : Store) (flash : Mem) (res : WriteResult) : ℤ × Store × Mem :=
  if f.dirty && 0 < f.tarsize then
    let (ret, f, flash) := factorySaveToEMMC cfg f flash res
    (ret, { f with dirty := false }, flash)
  else (0, { f with dirty := false }, flash)

/-- The block with the header of a half. A number does not run on behind it. -/
def headerBlock (cfg : Config) (flash : Mem) (pp : ℕ) : Mem := ofList (read flash (cfg.base pp) 512)

def ppSeqnum (cfg : Config) (flash : Mem) (pp : ℕ) : ℕ := load32 flash (cfg.base pp + 500)

def ppTarsize (cfg : Config) (flash : Mem) (pp : ℕ) : ℕ := load32 flash (cfg.base pp + 504)

/-- Is a half accepted? Its first header is a valid RTK header with a copy behind the archive. `readOk` says which
headers can be read; a read error also counts for the half after it. -/
def halfOk (cfg : Config) (readOk : ℕ → Bool) (flash : Mem) (pp : ℕ) : Bool :=
  let pStart := headerBlock cfg flash pp
  let tarsize := ppTarsize cfg flash pp
  (List.range (pp + 1)).all readOk && strcmpEq pStart 0 factoryHeader && tarCheckHeader pStart 0 &&
    256 ≤ tarsize && strcmpEq pStart 508 rtk && tarsize < cfg.half - 512 &&
    read flash (cfg.base pp + tarsize) 512 == read flash (cfg.base pp) 512

/-- The half that is loaded: the newer one, if both are accepted. -/
def selectPp (cfg : Config) (readOk : ℕ → Bool) (flash : Mem) : Option ℕ :=
  match halfOk cfg readOk flash 0, halfOk cfg readOk flash 1 with
  | true, false => some 0
  | false, true => some 1
  | true, true =>
    let s0 := ppSeqnum cfg flash 0
    let s1 := ppSeqnum cfg flash 1
    if s0 < s1 then if 0xFFFFFFF0 < s1 - s0 then some 0 else some 1 else some 0
  | false, false => none

/-- `factory_init`, with `factory_check_sanity_from_eMMC`. -/
def factoryInit (cfg : Config) (readOk : ℕ → Bool) (f : Store) (flash : Mem) : Store :=
  let mem := memset f.mem 0 cfg.half 0
  match selectPp cfg readOk flash with
  | none => { f with mem := buildRoot mem f.seqNum, tarsize := 512 }
  | some pp =>
    let tarsize := ppTarsize cfg flash pp
    { f with
      mem := write mem 0 (read flash (cfg.base pp) (blocks tarsize))
      tarsize := tarsize
      currentPp := pp
      seqNum := ppSeqnum cfg flash pp }

end NasFirmware.Factory
