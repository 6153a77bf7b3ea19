import Mathlib

/-!
# The NAND driver

`nand_base_rtk.c` works on pages and blocks of a chip behind a **remap table** (`bbt`): a block
recorded as bad is replaced by a block of the reserve area at the end of the chip.

The spare bytes of a page are left out, except that marking a block bad is an operation of its own.
-/

namespace NasFirmware.Nand

/-- The chip. No row of `nand_device` has more than 256 pages in a block or more than 8192 blocks. -/
structure Geometry where
  pageSize : ℕ
  ppb : ℕ
  blockNum : ℕ
  RBA : ℕ
  numchips : ℕ
  isLastPage : Bool
  pageSize_pos : 0 < pageSize
  two_le_ppb : 2 ≤ ppb
  ppb_le : ppb ≤ 256
  blockNum_pos : 0 < blockNum
  blockNum_le : blockNum ≤ 8192
  rba_le : RBA ≤ blockNum

/-- A chip of 1024 blocks of 64 pages: `W29N01GV`. The reserve area is 5 per cent of it. -/
def w29n01gv : Geometry :=
  ⟨2048, 64, 1024, 51, 1, false, by decide, by decide, by decide, by decide, by decide, by decide⟩

theorem Geometry.ppb_pos (g : Geometry) : 0 < g.ppb := Nat.lt_of_lt_of_le Nat.two_pos g.two_le_ppb

def Geometry.pages (g : Geometry) : ℕ := g.blockNum * g.ppb

def Geometry.size (g : Geometry) : ℕ := g.numchips * (g.pages * g.pageSize)

def Geometry.erasesize (g : Geometry) : ℕ := g.ppb * g.pageSize

/-- `BB_INIT`: the entry is free. -/
def bbInit : ℕ := 0xFFFE

/-- `RB_INIT`: the entry has no reserve block. -/
def rbInit : ℕ := 0xFFFD

def bbDieInit : ℕ := 0xEEEE

structure BBt where
  bbDie : ℕ
  badBlock : ℕ
  rbDie : ℕ
  remapBlock : ℕ
deriving DecidableEq

/-- What an operation of the chip reports: 0, -1, or another negative code (the chip is busy). -/
inductive Rc where
  | ok
  | failed
  | refused
deriving DecidableEq

inductive Op where
  | read (die page : ℕ)
  | program (die page : ℕ)
  | erase (die page : ℕ)
  | mark (die page : ℕ)
deriving DecidableEq

/-- The report of the `n`-th operation, what it leaves in a page when it fails, and whether the `k`-th allocation made
then succeeds. -/
structure Faults where
  rc : ℕ → Rc
  residue : ℕ → ℕ → List UInt8
  alloc : ℕ → ℕ → Bool

/-- The chip and the driver: the table, `g_databuf`, the pages of the dies, and the operations so far. -/
structure Nand where
  bbt : List BBt
  databuf : List UInt8
  page : ℕ → ℕ → List UInt8
  log : List Op

section Chip

variable (g : Geometry) (f : Faults)

def Nand.report (s : Nand) : Rc := f.rc s.log.length

def eraseBlock (s : Nand) (die page : ℕ) : Rc × Nand :=
  (s.report f, { s with
    page := fun d p =>
      if d = die ∧ p / g.ppb = page / g.ppb then
        if s.report f = .ok then List.replicate g.pageSize 0xFF else f.residue s.log.length p
      else s.page d p
    log := s.log ++ [.erase die page] })

def writeEccPage (s : Nand) (die page : ℕ) (data : List UInt8) : Rc × Nand :=
  (s.report f, { s with
    page := fun d p =>
      if d = die ∧ p = page then if s.report f = .ok then data else f.residue s.log.length p
      else s.page d p
    log := s.log ++ [.program die page] })

/-- `read_ecc_page`: the report, what is in the buffer then, and the chip. -/
def readEccPage (s : Nand) (die page : ℕ) : Rc × List UInt8 × Nand :=
  (s.report f, if s.report f = .ok then s.page die page else f.residue s.log.length page,
    { s with log := s.log ++ [.read die page] })

/-- `write_oob` with a zero in front: a page carries the mark of a bad block. Nobody looks at what
it reports. -/
def writeOob (s : Nand) (die page : ℕ) : Nand := { s with log := s.log ++ [.mark die page] }

def markBlock (s : Nand) (die page : ℕ) : Nand :=
  if g.isLastPage then writeOob (writeOob s die (page + g.ppb - 1)) die (page + g.ppb - 2)
  else writeOob (writeOob s die page) die (page + 1)

end Chip

/-! ## The table -/

/-- `check_BBT`: -1 if the block is recorded as bad. -/
def checkBBT (bbt : List BBt) (blk : ℕ) : ℤ := if bbt.any (·.badBlock = blk) then -1 else 0

/-- Where a request stands: the chip selected last, the chip of the request, that of the last remapped block, the
page, the page in its block, and the block. -/
structure Cursor where
  activeChip : ℕ
  chipnr : ℕ
  chipnrRemap : ℕ
  oldPage : ℕ
  pageOffset : ℕ
  block : ℕ

/-- One entry of the table: the block is replaced, and with it the chip. -/
def Cursor.remap (c : Cursor) (e : BBt) : Cursor :=
  if c.activeChip = e.bbDie ∧ c.block = e.badBlock then
    if e.bbDie ≠ e.rbDie then
      { c with block := e.remapBlock, activeChip := e.rbDie, chipnrRemap := e.rbDie }
    else { c with block := e.remapBlock }
  else c

/-- The pass over the table, up to the first free entry. -/
def lookupRemap : List BBt → Cursor → Cursor
  | [], c => c
  | e :: bbt, c => if e.badBlock ≠ bbInit then lookupRemap bbt (c.remap e) else c

/-- The die the handlers take a failing block to be on. -/
def Cursor.errChipnr (c : Cursor) : ℕ := if c.chipnr ≠ c.chipnrRemap then c.chipnrRemap else c.chipnr

/-- Change the first free entry that has a reserve block: the table and that entry. -/
def takeFree (upd : BBt → BBt) : List BBt → Option (List BBt × BBt)
  | [] => none
  | e :: bbt =>
    if e.badBlock = bbInit ∧ e.remapBlock ≠ rbInit then some (upd e :: bbt, upd e)
    else (takeFree upd bbt).map fun (bbt, e') => (e :: bbt, e')

def recordBad (die blk : ℕ) (bbt : List BBt) : Option (List BBt × BBt) :=
  takeFree (fun e => { e with bbDie := die % 2 ^ 16, badBlock := blk % 2 ^ 16 }) bbt

def halfword (n : ℕ) : List UInt8 := [UInt8.ofNat n, UInt8.ofNat (n / 256)]

def tableBytes (bbt : List BBt) : List UInt8 :=
  bbt.flatMap fun e => halfword e.bbDie ++ halfword e.badBlock ++ halfword e.rbDie ++ halfword e.remapBlock

section Update

variable (g : Geometry) (f : Faults)

def Geometry.large (g : Geometry) : Bool := g.pageSize < 8 * g.RBA

/-- The bytes of the table, and `0xff` up to the end of the second page. -/
def paddedBytes (bbt : List BBt) : List UInt8 :=
  tableBytes bbt ++ List.replicate (2 * g.pageSize - (tableBytes bbt).length) 0xFF

def firstPage (s : Nand) : List UInt8 :=
  if g.large then (paddedBytes g s.bbt).take g.pageSize
  else tableBytes s.bbt ++ s.databuf.drop (tableBytes s.bbt).length

/-- Write one copy of the table: the second page only if there is one and the first went well. -/
def writeCopy (s : Nand) (page : ℕ) : Bool × Nand :=
  match writeEccPage f s 0 page s.databuf with
  | (.ok, s) =>
    if g.large then
      let s := { s with databuf := (paddedBytes g s.bbt).drop g.pageSize }
      ((writeEccPage f s 0 (page + 1) s.databuf).1 = .ok,
        (writeEccPage f s 0 (page + 1) s.databuf).2)
    else (true, s)
  | (_, s) => (false, s)

/-- `rtk_update_bbt`: whether it went well. Nobody looks at what becomes of the first copy. -/
def rtkUpdateBbt (s : Nand) : Bool × Nand :=
  if g.large ∧ f.alloc s.log.length 0 = false then (false, s)
  else
    let first := firstPage g s
    let s := { s with databuf := first }
    let s := (eraseBlock g f s 0 g.ppb).2
    let s := { (writeCopy g f s g.ppb).2 with databuf := first }
    match eraseBlock g f s 0 (2 * g.ppb) with
    | (.ok, s) => writeCopy g f s (2 * g.ppb)
    | (_, s) => (false, s)

end Update

section Walk

variable (g : Geometry)

/-- The first page of a request. The chip of the address is overwritten with 0. -/
def Cursor.start (addr : ℕ) : Cursor where
  activeChip := 0
  chipnr := 0
  chipnrRemap := 0
  oldPage := addr / g.pageSize % g.pages
  pageOffset := addr / g.pageSize % g.pages % g.ppb
  block := addr / g.pageSize % g.pages / g.ppb

/-- The physical page: the block that was found, and the page in it. -/
def Cursor.page (c : Cursor) : ℕ := c.block * g.ppb + c.pageOffset

/-- Go on by `n` pages; behind the last page of a die, if there is more to do, on the next die. -/
def Cursor.advance (c : Cursor) (n : ℕ) (more : Bool) : Cursor :=
  let oldPage := c.oldPage + n
  if more ∧ oldPage % g.pages = 0 then
    { c with oldPage := 0, pageOffset := oldPage % g.ppb, block := 0, chipnr := c.chipnr + 1,
             activeChip := c.chipnr + 1 }
  else { c with oldPage := oldPage, pageOffset := oldPage % g.ppb, block := oldPage / g.ppb }

/-- The page of `block_remap`; the product is an `int`. -/
def remapPage (blockRemap : ℕ) : ℕ := blockRemap * g.ppb % 2 ^ 32

/-- `block_remap` before a reserve block is chosen. -/
def noRemap : ℕ := 0x12345678

end Walk

/-! ## Reading -/

/-- The answer of a request: its result, `*retlen`, the bytes read, and the state. -/
structure Answer where
  ret : ℤ
  retlen : ℕ
  data : List UInt8
  nand : Nand

section Requests

variable (g : Geometry) (f : Faults)

/-- A request goes beyond the device, or its address or length is no multiple of the page size. -/
def beyond (addr len : ℕ) : Bool := g.size < addr + len

def notAligned (addr len : ℕ) : Bool := ¬ addr % g.pageSize = 0 ∨ ¬ len % g.pageSize = 0

/-- The first half of the handler of an uncorrectable page: the first block of the request is recorded if there is a
free entry. -/
def readRecord (pagePpb : ℕ) (s : Nand) (c : Cursor) : Bool × Nand :=
  if checkBBT s.bbt pagePpb = 0 then
    match recordBad c.errChipnr pagePpb s.bbt with
    | some (bbt, _) => rtkUpdateBbt g f { s with bbt := bbt }
    | none => rtkUpdateBbt g f s
  else (true, s)

/-- The handler of an uncorrectable page: `page_ppb` is recorded, erased and marked. -/
def readFailed (pagePpb : ℕ) (s : Nand) (c : Cursor) : Bool × Nand :=
  match readRecord g f pagePpb s c with
  | (true, s) =>
    (true, markBlock g (eraseBlock g f s c.activeChip (pagePpb * g.ppb)).2 c.activeChip (pagePpb * g.ppb))
  | (false, s) => (false, s)

/-- One page of a read: the bytes, the state and the cursor, or the state in which it gives up. -/
def readPass (pagePpb : ℕ) (s : Nand) (c : Cursor) : Except Nand (List UInt8 × Nand × Cursor) :=
  let c := lookupRemap s.bbt c
  match readEccPage f s c.activeChip (c.page g) with
  | (.ok, data, s) => .ok (data, s, c)
  | (.failed, data, s) =>
    match readFailed g f pagePpb s c with
    | (true, s) => .ok (data, s, c)
    | (false, s) => .error s
  | (.refused, _, s) => .error s

def readLoop (pagePpb : ℕ) : ℕ → Nand → Cursor → Except Nand (List UInt8 × Nand)
  | 0, s, _ => .ok ([], s)
  | n + 1, s, c =>
    match readPass g f pagePpb s c with
    | .error s => .error s
    | .ok (data, s, c) =>
      (readLoop pagePpb n s (c.advance g 1 (n ≠ 0))).map fun (rest, s) => (data ++ rest, s)

def nandReadEcc (s : Nand) (addr len retlen : ℕ) : Answer :=
  if beyond g addr len then ⟨-22, 0, [], s⟩
  else if notAligned g addr len then ⟨-22, retlen, [], s⟩
  else
    match readLoop g f (Cursor.start g addr).block (len / g.pageSize) s (Cursor.start g addr) with
    | .ok (data, s) => ⟨0, len, data, s⟩
    | .error s => ⟨-1, 0, [], s⟩

/-! ## Writing -/

structure Writing where
  nand : Nand
  cur : Cursor
  errChipnr : ℕ
  errChipnrRemap : ℕ
  blockRemap : ℕ

/-- The first half of the handler of a failed program: the first block of the request is recorded; `none` if there is
no reserve block left. -/
def writeRecord (pagePpb : ℕ) (w : Writing) : Option Writing :=
  if checkBBT w.nand.bbt pagePpb = 0 then
    match recordBad w.cur.errChipnr pagePpb w.nand.bbt with
    | some (bbt, e) =>
      -- a reserve block is a 16-bit number, so it is not `noRemap`
      some { w with
        nand := { w.nand with bbt := bbt }
        errChipnr := w.cur.errChipnr
        errChipnrRemap := e.rbDie
        blockRemap := e.remapBlock }
    | none => if w.blockRemap = noRemap then none else some w
  else some w

/-- The second half: erase the reserve block, then erase and mark `page_ppb`. The page itself is not
written again. -/
def writeReplace (pagePpb : ℕ) (w : Writing) : Writing :=
  let s := (eraseBlock g f w.nand w.errChipnrRemap (remapPage g w.blockRemap)).2
  let cur :=
    if w.errChipnr ≠ w.errChipnrRemap then { w.cur with activeChip := w.errChipnr } else w.cur
  let s := (eraseBlock g f s w.errChipnr (pagePpb * g.ppb)).2
  { w with nand := markBlock g s cur.activeChip (pagePpb * g.ppb), cur := cur }

def writeFailed (pagePpb : ℕ) (w : Writing) : Except Nand Writing :=
  match writeRecord pagePpb w with
  | none => .error w.nand
  | some w =>
    match rtkUpdateBbt g f w.nand with
    | (true, s) => .ok (writeReplace g f pagePpb { w with nand := s })
    | (false, s) => .error s

def writePass (pagePpb : ℕ) (data : List UInt8) (w : Writing) : Except Nand Writing :=
  let c := lookupRemap w.nand.bbt w.cur
  match writeEccPage f w.nand c.activeChip (c.page g) data with
  | (.ok, s) => .ok { w with nand := s, cur := c }
  | (.failed, s) => writeFailed g f pagePpb { w with nand := s, cur := c }
  | (.refused, s) => .error s

def writeLoop (pagePpb : ℕ) : List (List UInt8) → Writing → Except Nand Writing
  | [], w => .ok w
  | data :: rest, w =>
    match writePass g f pagePpb data w with
    | .error s => .error s
    | .ok w => writeLoop pagePpb rest { w with cur := w.cur.advance g 1 (rest ≠ []) }

def pagesOf (buf : List UInt8) : List (List UInt8) :=
  (List.range (buf.length / g.pageSize)).map fun k => (buf.drop (k * g.pageSize)).take g.pageSize

def Writing.start (s : Nand) (addr : ℕ) : Writing := ⟨s, Cursor.start g addr, 0, 1, noRemap⟩

def nandWriteEcc (s : Nand) (addr : ℕ) (buf : List UInt8) (retlen : ℕ) : Answer :=
  if beyond g addr buf.length then ⟨-22, 0, [], s⟩
  else if notAligned g addr buf.length then ⟨-22, retlen, [], s⟩
  else
    match writeLoop g f (Cursor.start g addr).block (pagesOf g buf) (Writing.start g s addr) with
    | .ok w => ⟨0, buf.length, [], w.nand⟩
    | .error s => ⟨-1, 0, [], s⟩

/-! ## Erasing -/

structure Erasing where
  nand : Nand
  cur : Cursor
  blockRemap : ℕ
  rc : Rc

/-- Record the block that could not be erased, if it was not; `none` if there is no reserve block left. -/
def eraseRecord (w : Erasing) : Option Erasing :=
  if checkBBT w.nand.bbt w.cur.block = 0 then
    match recordBad w.cur.errChipnr w.cur.block w.nand.bbt with
    | some (bbt, e) =>
      some { w with nand := { w.nand with bbt := bbt }, blockRemap := e.remapBlock }
    | none => if w.blockRemap = noRemap then none else some w
  else some w

def eraseFailed (w : Erasing) : Except Nand Erasing :=
  match eraseRecord w with
  | none => .error w.nand
  | some w =>
    match rtkUpdateBbt g f w.nand with
    | (true, s) =>
      let s := markBlock g s w.cur.chipnr (w.cur.block * g.ppb)
      let (rc, s) := eraseBlock g f s w.cur.chipnrRemap (remapPage g w.blockRemap)
      .ok { w with nand := s, rc := rc }
    | (false, s) => .error s

def erasePass (w : Erasing) : Except Nand Erasing :=
  let c := lookupRemap w.nand.bbt w.cur
  match eraseBlock g f w.nand c.activeChip (c.block * g.ppb) with
  | (.ok, s) => .ok { w with nand := s, cur := c, rc := .ok }
  | (rc, s) => eraseFailed g f { w with nand := s, cur := c, rc := rc }

def eraseLoop : ℕ → Erasing → Except Nand Erasing
  | 0, w => .ok w
  | n + 1, w =>
    match erasePass g f w with
    | .error s => .error s
    | .ok w => eraseLoop n { w with cur := w.cur.advance g g.ppb (n ≠ 0) }

def Rc.code : Rc → ℤ
  | .ok => 0
  | .failed => -1
  | .refused => -2

/-- The blocks of a request: the last one may be begun only. -/
def blocksOf (len : ℕ) : ℕ := (len + g.erasesize - 1) / g.erasesize

def nandEraseNand (s : Nand) (addr len : ℕ) : ℤ × Nand :=
  if g.size = 0 then (-19, s)
  else if g.size < addr + len then (-22, s)
  else if addr % g.erasesize ≠ 0 then (-22, s)
  else
    match eraseLoop g f (blocksOf g len) ⟨s, Cursor.start g addr, noRemap, .ok⟩ with
    | .ok w => (w.rc.code, w.nand)
    | .error s => (-1, s)

end Requests

/-! ## The first table -/

section Scan

variable (g : Geometry) (f : Faults) (isBad : ℕ → ℕ → Bool)

/-- `block_status` of the last die: `rtk_block_isbad` is asked from block `0x20` on. -/
def blockStatus (i : ℕ) : Bool := 0x20 ≤ i ∧ isBad (g.numchips - 1) (i * g.erasesize)

/-- `remap_block[]`: the good blocks of the reserve area, from the last block down. -/
def reserveBlocks : List ℕ :=
  ((List.range g.RBA).map fun i => g.blockNum - 1 - i).filter fun b => ¬ blockStatus g isBad b

def badUserBlocks : List ℕ := (List.range (g.blockNum - g.RBA)).filter (blockStatus g isBad)

def scanEntry (i : ℕ) : BBt where
  bbDie := if i < (badUserBlocks g isBad).length then g.numchips - 1 else bbDieInit
  badBlock := (badUserBlocks g isBad).getD i bbInit
  rbDie := g.numchips - 1
  remapBlock := (reserveBlocks g isBad).getD i rbInit

/-- `scan_last_die_BB`: the bad user blocks, then free entries; each with the next good reserve block while there is
one. -/
def scanLastDieBB : List BBt := (List.range g.RBA).map (scanEntry g isBad)

/-- The addresses asked for on die `k`. On die 0 they start `0x12 * ppb` bytes behind its start. -/
def otherDieAddrs (k : ℕ) : List ℕ :=
  ((List.range g.blockNum).map fun i => (if k = 0 then g.ppb * 0x12 else 0) + i * g.erasesize).filter
    (· < g.pages * g.pageSize)

/-- `scan_other_die_BB` on die `k`. -/
def scanOtherDie (bbt : List BBt) (k : ℕ) : List BBt :=
  (otherDieAddrs g k).foldl (fun bbt addr =>
    if isBad k addr then
      match takeFree (fun e => { e with badBlock := addr / g.erasesize, bbDie := k,
                                        rbDie := g.numchips - 1 }) bbt with
      | some (bbt, _) => bbt
      | none => bbt
    else bbt) bbt

def scanOtherDieBB (bbt : List BBt) : List BBt :=
  (List.range (g.numchips - 1)).foldl (scanOtherDie g isBad) bbt

/-- Write the pages of the table from page `k` on. The buffer is a `u32 *`, so page `k` is taken four times as far
behind its start. -/
def createLoop (bytes : List UInt8) (page : ℕ) : ℕ → ℕ → Nand → ℤ × Nand
  | 0, _, s => (0, s)
  | n + 1, k, s =>
    match writeEccPage f s 0 (page + k) ((bytes.drop (4 * k * g.pageSize)).take g.pageSize) with
    | (.ok, s) => createLoop bytes page n (k + 1) s
    | (_, s) => (-1, s)

/-- `rtk_create_bbt`. A failed allocation leaves the table as it was. -/
def rtkCreateBbt (s : Nand) (page : ℕ) : ℤ × Nand :=
  if page ≠ g.ppb ∧ page ≠ 2 * g.ppb then (-1, s)
  else
    let bbt := if f.alloc s.log.length 0 then scanLastDieBB g isBad else s.bbt
    let s := { s with bbt := if 1 < g.numchips then scanOtherDieBB g isBad bbt else bbt }
    let n := (8 * g.RBA + g.pageSize - 1) / g.pageSize
    if f.alloc s.log.length 1 then
      match eraseBlock g f s 0 page with
      | (.ok, s) =>
        createLoop g f (tableBytes s.bbt ++ List.replicate (n * g.pageSize - (tableBytes s.bbt).length) 0xFF)
          page n 0 s
      | (_, s) => (-1, s)
    else (-12, s)

end Scan

end NasFirmware.Nand
