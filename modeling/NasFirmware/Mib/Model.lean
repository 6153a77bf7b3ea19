import NasFirmware.Lib.Loop
import NasFirmware.Lib.Mem

/-!
# The MIB and its TLV form

`libapmib` describes a configuration struct by tables of entries (`mib_table_entry_T`). An entry is a
field, or an array of structs with a table of its own. In flash the struct is a sequence of
tag-length-value elements in network byte order.

The target is little-endian. A struct is a stretch of memory, tables are finite trees.
-/

namespace NasFirmware.Mib

open CLoop ByteMem

/-- `TYPE_T`. The types from `TABLE_LIST_T` on are tables. -/
inductive MibType where
  | byteT | wordT | stringT | byte5T | byte6T | byte13T | iaT | dwordT | byteArrayT | dwordArrayT
  | tableListT | wlacArrayT | dhcprsvdipArryT | wdsArrayT | meshAclArrayT | scheduleArrayT
  | capPortalAllowArrayT
  deriving DecidableEq, Repr

def MibType.isTable : MibType → Bool
  | .tableListT | .wlacArrayT | .dhcprsvdipArryT | .wdsArrayT | .meshAclArrayT | .scheduleArrayT
  | .capPortalAllowArrayT => true
  | _ => false

/-- An array of `mib_table_entry_T` up to the entry with id 0. `next` is `next_mib_table`. -/
inductive MibTable where
  | nil
  | cons (id : ℕ) (type : MibType) (offset totalSize unitSize : ℕ) (next rest : MibTable)

structure MibEntry where
  id : ℕ
  type : MibType
  offset : ℕ
  totalSize : ℕ
  unitSize : ℕ
  next : MibTable

/-- The entries of a table, without those of the tables below it. -/
def MibTable.entries : MibTable → List MibEntry
  | .nil => []
  | .cons id type offset totalSize unitSize next rest =>
    ⟨id, type, offset, totalSize, unitSize, next⟩ :: rest.entries

def MibTable.depth : MibTable → ℕ
  | .nil => 0
  | .cons _ _ _ _ _ next rest => max (next.depth + 1) rest.depth

def wordSwap (v : ℕ) : ℕ := ((v >>> 8) &&& 0xff) ||| ((v <<< 8) &&& 0xff00)

def dwordSwap (v : ℕ) : ℕ :=
  (((v &&& 0xff) <<< 24) &&& 0xff000000) ||| ((((v >>> 8) &&& 0xff) <<< 16) &&& 0xff0000) |||
    ((((v >>> 16) &&& 0xff) <<< 8) &&& 0xff00) ||| (((v >>> 24) &&& 0xff) &&& 0xff)

def mibSwapValue (type : MibType) (data : Mem) (off : ℕ) : Mem :=
  match type with
  | .wordT => write data off (store16 (wordSwap (load16 data off)))
  | .dwordT => write data off (store32 (dwordSwap (load32 data off)))
  | _ => data

/-- `_mibtbl_swap_value`: all units of all entries, from `offset` on. -/
def mibtblSwapValue : MibTable → Mem → ℕ → Mem
  | .nil, data, _ => data
  | .cons _ type off totalSize unitSize next rest, data, offset =>
    let data := (List.range (totalSize / unitSize)).foldl (fun data j =>
      if type.isTable then mibtblSwapValue next data (offset + off + j * unitSize)
      else mibSwapValue type data (offset + off + j * unitSize)) data
    mibtblSwapValue rest data offset

def raw16 (v : ℕ) : List UInt8 := store16 (wordSwap (v % 65536))

/-- The loop of `mib_write_to_raw` over the entries of a table; `data` is where the next entry is. -/
def writeTable (m : Mem) : MibTable → ℕ → List UInt8
  | .nil, _ => []
  | .cons id type _ totalSize unitSize next rest, data =>
    if type.isTable then
      let content := (List.range (totalSize / unitSize)).flatMap fun j =>
        writeTable m next (data + j * unitSize)
      raw16 id ++ raw16 content.length ++ content ++
        writeTable m rest (data + totalSize / unitSize * unitSize)
    else
      raw16 id ++ raw16 totalSize ++ read m data totalSize ++ writeTable m rest (data + totalSize)

/-- `mib_write_to_raw`: what is appended to `pfile`. Of a table one unit is written. -/
def mibWriteToRaw (mibTbl : MibEntry) (m : Mem) (data : ℕ) : List UInt8 :=
  if mibTbl.type.isTable then writeTable m mibTbl.next data
  else raw16 mibTbl.id ++ raw16 mibTbl.totalSize ++ read m data mibTbl.totalSize

/-! ## Reading -/

/-- `mib_search_by_id`: the entry and its offset. `mibNum k` is the index used at depth `k`. -/
def mibSearchById (mibId : ℕ) : MibTable → (ℕ → UInt8) → ℕ → Option (MibEntry × ℕ)
  | .nil, _, _ => none
  | .cons id type off totalSize unitSize next rest, mibNum, offset =>
    let here := offset + (off + unitSize * (mibNum 0).toNat)
    if mibId = id then some (⟨id, type, off, totalSize, unitSize, next⟩, here)
    else if type.isTable ∧ totalSize % unitSize = 0 ∧ (mibNum 0).toNat < totalSize / unitSize then
      match mibSearchById mibId next (fun k => mibNum (k + 1)) here with
      | some r => some r
      | none => mibSearchById mibId rest mibNum offset
    else mibSearchById mibId rest mibNum offset

/-- `strncpy`: the bytes stored for a source string and a size. -/
def strncpy : List UInt8 → List UInt8
  | [] => []
  | c :: s => if c = 0 then List.replicate (s.length + 1) 0 else c :: strncpy s

/-- `mib_init_value`: store the value of an element in the struct. A table type is an error. -/
def mibInitValue (value : Mem) (tlvLen : ℕ) (mibTbl : MibEntry) (data : Mem) (off : ℕ) : Option Mem :=
  match mibTbl.type with
  | .byteT | .byteArrayT | .dwordArrayT => some (write data off (read value 0 tlvLen))
  | .wordT => some (write data off (store16 (wordSwap (load16 value 0))))
  | .dwordT => some (write data off (store32 (dwordSwap (load32 value 0))))
  | .stringT => some (write data off (strncpy (read value 0 mibTbl.totalSize)))
  | .iaT | .byte5T | .byte6T | .byte13T => some (write data off (read value 0 mibTbl.totalSize))
  | _ => none

/-- `find_same_tag_times`: how many elements have the tag of the first one. -/
def findSameTagTimes (data : Mem) (dataSize : ℕ) : Option ℕ :=
  let firstTlvTag := load16 data 0
  loop (fun (i, times) =>
    some (if i < dataSize then
      let tlvTag := load16 data i
      let times := if tlvTag = firstTlvTag then times + 1 else times
      let tlvLen := wordSwap (load16 data (i + 2))
      .next (i + 4 + tlvLen, times)
    else .done times)) (dataSize + 1) ((0, 0) : ℕ × ℕ)

/-- The bytes behind an allocated block and behind `mib_num`, and which allocations succeed. -/
structure TlvEnv where
  junk : ℕ → UInt8
  malloc : ℕ → Bool

/-- `memcpy(ptlv_data_value, idx + i, n)` into a block that holds `old`. -/
def copyTo (old src : Mem) (i n : ℕ) : Mem := fun k => if k < n then src (i + k) else old k

/-- `mib_num`: ten zeros on the stack. -/
def mibNum (env : TlvEnv) : ℕ → UInt8 := fun k => if k < 10 then 0 else env.junk k

/-- The loop over the units of a table: unit `j` of `tlvNum`, of `tlvLen` bytes, is copied to `buf` and read if the
struct has room. -/
def initUnits (initFrom : MibTable → Mem → Mem → ℕ → ℕ → Option (Bool × Mem)) (pmibTbl : MibEntry)
    (idx : Mem) (i tlvLen base : ℕ) : ℕ → ℕ → Mem → Mem → Option Mem
  | 0, _, _, pfile => some pfile
  | n + 1, j, buf, pfile =>
    let buf := copyTo buf idx (i + tlvLen * j) tlvLen
    if j < pmibTbl.totalSize / pmibTbl.unitSize then do
      let (_, pfile) ← initFrom pmibTbl.next buf pfile tlvLen (base + j * pmibTbl.unitSize)
      initUnits initFrom pmibTbl idx i tlvLen base n (j + 1) buf pfile
    else initUnits initFrom pmibTbl idx i tlvLen base n (j + 1) buf pfile

/-- One pass of the loop of `mib_tlv_init_from`: the element at `i`. -/
def tlvPass (env : TlvEnv) (initFrom : MibTable → Mem → Mem → ℕ → ℕ → Option (Bool × Mem))
    (mibRootTbl : MibTable) (idx : Mem) (dataSize rootOffset : ℕ) (s : ℕ × Mem) :
    Option (Pass (ℕ × Mem) (Bool × Mem)) :=
  let (i, pfile) := s
  if ¬ i < dataSize then some (.done (true, pfile))
  else
    let tlvTag := wordSwap (load16 idx i)
    let tlvLen := wordSwap (load16 idx (i + 2))
    let i := i + 4
    let found := mibSearchById tlvTag mibRootTbl (mibNum env) 0
    if tlvTag &&& 0x8000 = 0 then
      if !env.malloc tlvLen then some (.done (false, pfile))
      else
        let value := copyTo env.junk idx i tlvLen
        match found with
        | none => some (.next (i + tlvLen, pfile))
        | some (mibTbl, mibOffset) =>
          match mibInitValue value tlvLen mibTbl pfile (mibOffset + rootOffset) with
          | none => some (.next (i + tlvLen, pfile))
          | some pfile => some (.next (i + tlvLen, pfile))
    else
      match found with
      | none => some (.next (i + tlvLen, pfile))
      | some (pmibTbl, mibOffset) =>
        if !env.malloc tlvLen then some (.done (false, pfile))
        else do
          let buf := copyTo env.junk idx i tlvLen
          let tlvNum ← findSameTagTimes buf tlvLen
          let tlvLen := if tlvNum ≠ 0 then tlvLen / tlvNum else tlvLen
          let pfile ← initUnits initFrom pmibTbl idx i tlvLen (mibOffset + rootOffset) tlvNum 0 buf pfile
          some (.next (i + tlvLen * tlvNum, pfile))

/-- `mib_tlv_init_from`. Every pass of the loop moves on by four bytes or more. -/
def mibTlvInitFrom (env : TlvEnv) : ℕ → MibTable → Mem → Mem → ℕ → ℕ → Option (Bool × Mem)
  | 0, _, _, _, _, _ => none
  | n + 1, mibRootTbl, idx, pfile, dataSize, rootOffset =>
    loop (tlvPass env (mibTlvInitFrom env n) mibRootTbl idx dataSize rootOffset) (dataSize + 1)
      (0, pfile)

/-- `mib_tlv_init`: success, and the struct. -/
def mibTlvInit (env : TlvEnv) (mibTbl : MibTable) (fromData pfile : Mem) (tlvContentLen : ℕ) :
    Option (Bool × Mem) :=
  if tlvContentLen = 0 then some (false, pfile)
  else mibTlvInitFrom env (mibTbl.depth + 1) mibTbl fromData pfile tlvContentLen 0

end NasFirmware.Mib
