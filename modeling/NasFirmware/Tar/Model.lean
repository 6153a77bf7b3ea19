import NasFirmware.Lib.CString
import NasFirmware.Lib.Loop

/-!
# Tar archives in memory

`tar.c` of the boot loader: an archive is a sequence of headers of 512 bytes, each followed by the data
of its file in blocks of 512 bytes.

The data of a new file is a list of bytes. `none` is a walk that leaves the buffer or meets a negative
size.
-/

namespace NasFirmware.Tar

open ByteMem CString CLoop

/-! ## Headers -/

/-- `tar_checksum`: the field of the checksum counts as eight blanks. -/
def tarChecksum (m : Mem) (header : ℕ) : ℕ :=
  ((read m header 148).map UInt8.toNat).sum + ((read m (header + 156) 356).map UInt8.toNat).sum + 8 * 32

/-- `tar_check_header`: is the header accepted? -/
def tarCheckHeader (m : Mem) (header : ℕ) : Bool :=
  m header ≤ 0x7f && tarChecksum m header == (simpleStrtol m (header + 148) 8 % 2 ^ 32).toNat

def tarFillChecksum (m : Mem) (header : ℕ) : Mem :=
  write m (header + 148) (octal 6 (tarChecksum m header) ++ [0, 0x20])

def strcpy (m : Mem) (dst : ℕ) (s : List UInt8) : Mem := write m dst (s ++ [0])

/-- `tar_build_header`. The name is copied without a test of its length; 263, 264, 329 to 344 and 500 to 511 stay as
they are. -/
def tarBuildHeader (m : Mem) (header : ℕ) (filename : List UInt8) (length : ℕ) (filetype : UInt8) : Mem :=
  let m := strcpy m header filename
  let m := strcpy m (header + 100) [48, 48, 48, 48, 48, 55, 53]
  let m := strcpy m (header + 108) [48, 48, 48, 49, 55, 54, 48]
  let m := strcpy m (header + 116) [48, 48, 48, 49, 55, 54, 49]
  let m := strcpy m (header + 136) [49, 49, 55, 50, 48, 52, 49, 50, 54, 50, 51]
  let m := write m (header + 156) [filetype]
  let m := memset m (header + 157) 100 0
  let m := strcpy m (header + 124) (octal 11 length)
  -- "ustar", then "root" twice
  let m := strcpy m (header + 257) [117, 115, 116, 97, 114]
  let m := memset m (header + 265) 32 0
  let m := strcpy m (header + 265) [114, 111, 111, 116]
  let m := memset m (header + 297) 32 0
  let m := strcpy m (header + 297) [114, 111, 111, 116]
  let m := memset m (header + 345) 155 0
  tarFillChecksum m header

def rtk : List UInt8 := [82, 84, 75]

/-- The number of bytes of the blocks for `n` bytes. -/
def blocks (n : ℕ) : ℕ := (n + 511) / 512 * 512

/-- One pass of the loop of `tar_read`; `limit` is the end of the buffer. -/
def tarReadPass (m : Mem) (s : List UInt8) (limit fd : ℕ) : Option (Pass ℕ (Option (ℕ × ℕ))) :=
  if m fd = 0 then some (.done none)
  else if !tarCheckHeader m fd then some (.done none)
  else
    let len := simpleStrtol m (fd + 124) 8
    if strncmpEq m fd s 100 then some (.done (some (fd + 512, (len % 2 ^ 32).toNat)))
    else if len < 0 then none
    else
      let fd := fd + ((len.toNat + 511) / 512 + 1) * 512
      if limit < fd then some (.done none) else some (.next fd)

/-- `tar_read`: address and length of the data, or `some none` if there is no such file. -/
def tarRead (m : Mem) (s : List UInt8) (srcAddr length : ℕ) : Option (Option (ℕ × ℕ)) :=
  loop (tarReadPass m s (srcAddr + length)) (length / 512 + 2) srcAddr

structure Walk where
  m : Mem
  pos : ℕ
  tmpPos : ℕ
  done : Bool

/-- One pass of the walk. With `NAS_ENABLE` a later header with the signature `RTK` is not copied. -/
def tarPass (nas : Bool) (dst : ℕ) (filename srcBuf : List UInt8) (tmp : ℕ) (add : Bool) (w : Walk) :
    Option (Pass Walk Walk) :=
  let header := dst + w.pos
  if w.m header = 0 then some (.done w)
  else if !tarCheckHeader w.m header then some (.done w)
  else
    let fileSize := simpleStrtol w.m (header + 124) 8
    if fileSize < 0 then none
    else
      let fileSize := blocks fileSize.toNat
      let pos := w.pos + 512 + fileSize
      if startsWith w.m header filename then
        if add && !w.done then
          let m := tarBuildHeader w.m header filename srcBuf.length 48
          let m := write m (tmp + w.tmpPos) (read m header 512)
          let m := write m (tmp + w.tmpPos + 512) srcBuf
          some (.next ⟨m, pos, w.tmpPos + 512 + blocks srcBuf.length, true⟩)
        else some (.next { w with pos := pos })
      else if !nas || !strcmpEq w.m (header + 508) rtk || w.pos == 0 then
        let m := write w.m (tmp + w.tmpPos) (read w.m header (512 + fileSize))
        some (.next { w with m := m, pos := pos, tmpPos := w.tmpPos + 512 + fileSize })
      else some (.next { w with pos := pos })

/-- The new file behind the others, if it did not replace one. -/
def tarAppend (filename srcBuf : List UInt8) (tmp : ℕ) (add : Bool) (w : Walk) : Walk :=
  if !w.done && add then
    let m := tarBuildHeader w.m (tmp + w.tmpPos) filename srcBuf.length 48
    let m := write m (tmp + w.tmpPos + 512) srcBuf
    { w with m := m, tmpPos := w.tmpPos + 512 + blocks srcBuf.length }
  else w

/-- `tar_add_or_delete`: the memory and the new size of the archive. -/
def tarAddOrDelete (nas : Bool) (m : Mem) (dst : ℕ) (filename srcBuf : List UInt8) (tmp tmpLength : ℕ)
    (add : Bool) : Option (Mem × ℕ) := do
  let m := memset m tmp tmpLength 0
  let w ← loop (tarPass nas dst filename srcBuf tmp add) (tmpLength / 512 + 1) ⟨m, 0, 0, false⟩
  let w := tarAppend filename srcBuf tmp add w
  let m := write w.m (tmp + w.tmpPos) [0]
  let m := memset m dst w.pos 0
  some (write m dst (read m tmp w.tmpPos), w.tmpPos)

end NasFirmware.Tar
