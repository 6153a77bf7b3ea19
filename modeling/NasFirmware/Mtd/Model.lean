import NasFirmware.Lib.Loop
import NasFirmware.Lib.Mem

/-!
# Writing an image to flash

`mtd_write` of `mtd.c` copies an image to one device, or to several in a row, one erase block at a time. It keeps
four counters: `w` bytes are written, `e` is where the next block is erased, `skip_bad_blocks` bytes were left
out as bad, and the file position of the device is moved by `write` and `lseek`.

* `eraseLoop`, `writePass`, **`mtdWrite`**: the copy.

No jffs2 data is appended, and a read that is interrupted is repeated before it counts.
-/

namespace NasFirmware.Mtd

open ByteMem CLoop

/-- A device: whether `mtdtype` is `MTD_NANDFLASH`, its blocks, what `MEMGETBADBLOCK` says of a block (`none`: the
call fails), which blocks can be erased and where it can be written. The counters of `mtd_write` have 32 bits. -/
structure Device where
  nand : Bool
  erasesize : ℕ
  blocks : ℕ
  bad : ℕ → Option Bool
  eraseOk : ℕ → Bool
  writeOk : ℕ → Bool
  erasesize_pos : 0 < erasesize
  size_lt : erasesize * (blocks + 1) < 2 ^ 31

def Device.mtdsize (d : Device) : ℕ := d.blocks * d.erasesize

/-- `mtd_block_is_bad`: `none` is `exit(1)`. -/
def mtdBlockIsBad (d : Device) (offset : ℕ) : Option Bool :=
  if d.nand then
    if offset < d.mtdsize then d.bad (offset / d.erasesize) else none
  else some false

/-- `mtd_erase_block`: `none` is `-1`. -/
def mtdEraseBlock (d : Device) (flash : Mem) (offset : ℕ) : Option Mem :=
  if offset + d.erasesize ≤ d.mtdsize ∧ d.eraseOk (offset / d.erasesize) then
    some (memset flash offset d.erasesize 0xff)
  else none

/-- Flash only clears bits. -/
def program (flash : Mem) (pos : ℕ) (bs : List UInt8) : Mem :=
  fun k => if pos ≤ k ∧ k < pos + bs.length then flash k &&& bs.getD (k - pos) 0 else flash k

/-- `write` at the file position: the number of bytes that are taken, `none` for an error. -/
def Device.write (d : Device) (pos len : ℕ) : Option ℕ :=
  if d.writeOk pos then some (min len (d.mtdsize - pos)) else none

inductive Op where
  | erase (off : ℕ)
  | write (off len : ℕ)
  deriving DecidableEq

def Op.start : Op → ℕ
  | .erase off => off
  | .write off _ => off

/-- How `read` hands over the image: at most `size n` bytes, but one at least, at the `n`-th time, or an error. -/
structure Reader where
  size : ℕ → ℕ
  fails : ℕ → Bool

/-- `read(imagefd, buf, n)` with `rest` of the image left: `none` is an error, and no bytes the end. -/
def Reader.read (rd : Reader) (tick : ℕ) (rest : List UInt8) (n : ℕ) : Option (List UInt8) :=
  if rd.fails tick then none else some (rest.take (min n (max 1 (rd.size tick))))

/-- The variables of `mtd_write`: the open device with its contents and file position, the devices behind it, what is
left of the image and how often it was read, the buffer with what follows it, and the counters. -/
structure State where
  dev : Device
  flash : Mem
  pos : ℕ
  next : List (Device × Mem)
  rest : List UInt8
  reads : ℕ
  buf : Mem
  buflen : ℕ
  offset : ℕ
  w : ℕ
  e : ℕ
  skipBadBlocks : ℕ
  log : List Op

inductive Outcome where
  | returned
  | exited
  deriving DecidableEq

def fillPass (rd : Reader) (s : State) : Option (Pass State State) :=
  if s.buflen < s.dev.erasesize then
    match rd.read s.reads s.rest (s.dev.erasesize - s.buflen) with
    | none => some (.done { s with reads := s.reads + 1 })
    | some [] => some (.done { s with reads := s.reads + 1 })
    | some bs =>
      some (.next { s with reads := s.reads + 1, rest := s.rest.drop bs.length, buf := ByteMem.write s.buf s.buflen bs,
                           buflen := s.buflen + bs.length })
  else some (.done s)

def fillBuffer (rd : Reader) (s : State) : Option State := loop (fillPass rd) (s.dev.erasesize + 1) s

def padBlock (s : State) : State :=
  if s.buflen < s.dev.erasesize then
    { s with buf := memset s.buf s.buflen (s.dev.erasesize - s.buflen) 0xff, buflen := s.dev.erasesize }
  else s

/-! ## The flash -/

def writeOut (s : State) (len : ℕ) : Option ℕ × State :=
  match s.dev.write s.pos len with
  | none => (none, s)
  | some 0 => (some 0, s)
  | some n =>
    (some n, { s with flash := program s.flash s.pos (ByteMem.read s.buf s.offset n), pos := s.pos + n,
                      log := s.log ++ [.write s.pos n] })

/-- How the erase loop is left: the block can be written, or the next device has to be opened, or
`exit(1)`. -/
inductive Erased where
  | ready (s : State)
  | resume (s : State)
  | exit (s : State)

/-- A block that cannot be erased. What was erased before it is still filled, if another device follows. -/
def eraseFailed (s : State) : Erased :=
  match s.next with
  | [] => .exit s
  | _ :: _ =>
    let s := if s.w < s.e then { (writeOut s (s.e - s.w)).2 with offset := s.e - s.w } else s
    .resume { s with w := 0, e := 0 }

/-- A pass of the erase loop. `lseek` moves the file position over a bad block. -/
def erasePass (s : State) : Option (Pass State Erased) :=
  if s.e < s.w + s.buflen + s.skipBadBlocks then
    match mtdBlockIsBad s.dev s.e with
    | none => some (.done (.exit s))
    | some true =>
      some (.next { s with skipBadBlocks := s.skipBadBlocks + s.dev.erasesize, e := s.e + s.dev.erasesize,
                           pos := s.pos + s.dev.erasesize })
    | some false =>
      match mtdEraseBlock s.dev s.flash s.e with
      | none => some (.done (eraseFailed s))
      | some flash =>
        some (.next { s with flash := flash, e := s.e + s.dev.erasesize, log := s.log ++ [.erase s.e] })
  else some (.done (.ready s))

/-- Erase what the block needs. Behind the end nothing can be erased, so that there are not more passes than
blocks. -/
def eraseLoop (s : State) : Option Erased := loop erasePass (s.dev.blocks + 2) s

/-- `resume`: open a device, and seek to `part_offset`. -/
def openDevice (partOffset : ℕ) (s : State) (d : Device) (flash : Mem) (next : List (Device × Mem)) : State :=
  { s with dev := d, flash := flash, pos := partOffset, next := next, w := 0, e := 0 }

def writeBlock (s : State) : Pass State (Outcome × State) :=
  match writeOut s s.buflen with
  | (none, s') => .done (.exited, s')
  | (some n, s') =>
    if n < s.buflen then .done (.exited, s')
    else .next { s' with w := s.w + s.buflen, buflen := 0, offset := 0 }

def writePass (rd : Reader) (noErase : Bool) (partOffset : ℕ) (s : State) :
    Option (Pass State (Outcome × State)) :=
  match fillBuffer rd s with
  | none => none
  | some s =>
    if s.buflen = 0 then some (.done (.returned, s))
    else
      match if noErase then some (.ready (padBlock s)) else eraseLoop (padBlock s) with
      | none => none
      | some (.exit s) => some (.done (.exited, s))
      | some (.ready s) => some (writeBlock s)
      | some (.resume s) =>
        match s.next with
        | [] => some (.done (.exited, s))
        | (d, flash) :: next => some (.next (openDevice partOffset s d flash next))

/-- The state in which the main loop is entered. The buffer starts with `buflen` bytes that were read before. -/
def start (partOffset : ℕ) (d : Device) (flash : Mem) (next : List (Device × Mem)) (buf : Mem) (buflen : ℕ)
    (rest : List UInt8) : State :=
  { dev := d, flash := flash, pos := partOffset, next := next, rest := rest, reads := 0, buf := buf,
    buflen := buflen, offset := 0, w := 0, e := 0, skipBadBlocks := 0, log := [] }

/-- `mtd_write`. Every pass takes a byte of the image or a device. -/
def mtdWrite (rd : Reader) (noErase : Bool) (partOffset : ℕ) (d : Device) (flash : Mem)
    (next : List (Device × Mem)) (buf : Mem) (buflen : ℕ) (rest : List UInt8) : Option (Outcome × State) :=
  loop (writePass rd noErase partOffset) (rest.length + buflen + next.length + 1)
    (start partOffset d flash next buf buflen rest)

end NasFirmware.Mtd
