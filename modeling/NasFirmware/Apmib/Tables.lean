import NasFirmware.Lib.Slots
import NasFirmware.Mib.Model

/-!
# Tables of the MIB

A table of the MIB is an array of structs and a counter, two fields of the struct in memory. `apmib_set`
adds, deletes and modifies entries; what is meant is in flags of the id, and the ids of the table and of its
counter are next to each other.
-/

namespace NasFirmware.Apmib

open ByteMem Mib Slots

/-! ## Ids -/

def mibTableList : ℕ := 0x8000

def mibIdMask : ℕ := 0x8000 - 1

def mibAddTblEntry : ℕ := 0x10000

def mibDelTblEntry : ℕ := 0x20000

def mibDelallTblEntry : ℕ := 0x40000

def mibModTblEntry : ℕ := 0x100000

inductive TblOp where
  | add | del | mod | delAll
  deriving DecidableEq, Repr

/-- What `apmib_set` takes from an id: the operation, the id of the table or field, `mib_num_id`. -/
structure Decoded where
  op : Option TblOp
  id : ℕ
  numId : ℕ
  deriving DecidableEq, Repr

/-- The first part of `apmib_set`. -/
def decodeId (id : ℕ) : Decoded :=
  if id &&& mibAddTblEntry ≠ 0 then
    ⟨some .add, ((id &&& mibIdMask) - 1) ||| mibTableList, (id &&& mibIdMask) - 2⟩
  else if id &&& mibDelTblEntry ≠ 0 then
    ⟨some (if id &&& mibModTblEntry ≠ 0 then .mod else .del), ((id &&& mibIdMask) - 2) ||| mibTableList,
      (id &&& mibIdMask) - 3⟩
  else if id &&& mibDelallTblEntry ≠ 0 then
    ⟨some .delAll, ((id &&& mibIdMask) - 3) ||| mibTableList, (id &&& mibIdMask) - 4⟩
  else ⟨none, id, 0⟩

/-- The id of an operation on the table whose counter has the id `numId`, as `apmib.h` builds it. -/
def TblOp.id (numId : ℕ) : TblOp → ℕ
  | .add => (numId + 2) ||| mibAddTblEntry
  | .del => (numId + 3) ||| mibDelTblEntry
  | .mod => (numId + 3) ||| mibDelTblEntry ||| mibModTblEntry
  | .delAll => (numId + 4) ||| mibDelallTblEntry

theorem and_flag_of_lt {x j : ℕ} (hx : x < mibTableList) (hj : 15 ≤ j) (f : ℕ) :
    (x ||| f) &&& 2 ^ j = f &&& 2 ^ j := by
  have hlt : x < 2 ^ j := (show x < 2 ^ 15 from hx).trans_le (Nat.pow_le_pow_right Nat.two_pos hj)
  rw [Nat.and_or_distrib_right, Nat.and_two_pow, Nat.testBit_lt_two_pow hlt, Bool.toNat_false, Nat.zero_mul,
    Nat.zero_or]

theorem and_mask_of_lt {x f : ℕ} (hx : x < mibTableList) (hf : f % 2 ^ 15 = 0) : (x ||| f) &&& mibIdMask = x := by
  rw [show mibIdMask = 2 ^ 15 - 1 from rfl, Nat.and_two_pow_sub_one_eq_mod, Nat.or_mod_two_pow, hf, Nat.or_zero,
    Nat.mod_eq_of_lt (show x < 2 ^ 15 from hx)]

theorem decodeId_id {numId : ℕ} (h : numId + 4 < mibTableList) (op : TblOp) :
    decodeId (op.id numId) = ⟨some op, (numId + 1) ||| mibTableList, numId⟩ := by
  have hflag : ∀ x < mibTableList, ∀ f j, 15 ≤ j → (x ||| f) &&& 2 ^ j = f &&& 2 ^ j :=
    fun x hx f j hj => and_flag_of_lt hx hj f
  have hadd : mibAddTblEntry = 2 ^ 16 := rfl
  have hdel : mibDelTblEntry = 2 ^ 17 := rfl
  have hall : mibDelallTblEntry = 2 ^ 18 := rfl
  have hmod : mibModTblEntry = 2 ^ 20 := rfl
  cases op with
  | add =>
    rw [TblOp.id, decodeId, hadd, hflag _ (by omega) _ _ (by decide), if_pos (by decide),
      and_mask_of_lt (by omega) (by decide)]
    rfl
  | del =>
    rw [TblOp.id, decodeId, hadd, hdel, hmod, hflag _ (by omega) _ _ (by decide), if_neg (by decide),
      hflag _ (by omega) _ _ (by decide), if_pos (by decide), hflag _ (by omega) _ _ (by decide),
      if_neg (by decide), and_mask_of_lt (by omega) (by decide)]
    rfl
  | mod =>
    rw [TblOp.id, decodeId, hadd, hdel, hmod, Nat.or_assoc, hflag _ (by omega) _ _ (by decide),
      if_neg (by decide), hflag _ (by omega) _ _ (by decide), if_pos (by decide),
      hflag _ (by omega) _ _ (by decide), if_pos (by decide), and_mask_of_lt (by omega) (by decide)]
    rfl
  | delAll =>
    rw [TblOp.id, decodeId, hadd, hdel, hall, hflag _ (by omega) _ _ (by decide), if_neg (by decide),
      hflag _ (by omega) _ _ (by decide), if_neg (by decide), hflag _ (by omega) _ _ (by decide),
      if_pos (by decide), and_mask_of_lt (by omega) (by decide)]
    rfl

/-! ## The array -/

/-- The `int num` of the table functions, for the `unsigned int num` of `apmib_set`. -/
def toInt (num : ℕ) : ℤ := (num : ℤ).bmod (2 ^ 32)

theorem toInt_of_lt {n : ℕ} (h : n < 65536) : toInt n = n :=
  Int.bmod_eq_of_le_mul_two (by omega) (by omega)

def capacity (e : MibEntry) : ℕ := e.totalSize / e.unitSize

def addTblentry (m : Mem) (off : ℕ) (num : ℤ) (mibTbl : MibEntry) (val : Mem) : Mem × Bool :=
  if num ≥ (capacity mibTbl : ℤ) then (m, false)
  else (write m ((off : ℤ) + num * mibTbl.unitSize).toNat (read val 0 mibTbl.unitSize), true)

def deleteTblentry (m : Mem) (off : ℕ) (num : ℤ) (mibTbl : MibEntry) (val : Mem) : Mem × Bool :=
  let num := min num (capacity mibTbl : ℤ)
  let i := findEntry m off mibTbl.unitSize num.toNat (read val 0 mibTbl.unitSize)
  if (i : ℤ) = num then (m, false)
  else if (i : ℤ) = num - 1 then (memset m (off + i * mibTbl.unitSize) mibTbl.unitSize 0, true)
  else (shiftDown m off mibTbl.unitSize i num.toNat, true)

/-- `mod_tblentry`: `val` is the old entry and the new one behind it. -/
def modTblentry (m : Mem) (off : ℕ) (num : ℤ) (mibTbl : MibEntry) (val : Mem) : Mem × Bool :=
  let num := min num (capacity mibTbl : ℤ)
  let i := findEntry m off mibTbl.unitSize num.toNat (read val 0 mibTbl.unitSize)
  if (i : ℤ) = num then (m, false)
  else (write m (off + i * mibTbl.unitSize) (read val mibTbl.unitSize mibTbl.unitSize), true)

def deleteAllTblentry (m : Mem) (off : ℕ) (mibTbl : MibEntry) : Mem × Bool :=
  (memset m off mibTbl.totalSize 0, true)

/-- `update_tblentry`. No path of `apmib_set` leads to it. -/
def updateTblentry (m : Mem) (off : ℕ) (num : ℤ) (mibTbl : MibEntry) (old newone : Mem) : Mem × Bool :=
  if num > (capacity mibTbl : ℤ) then (m, false)
  else
    let i := findEntry m off mibTbl.unitSize num.toNat (read old 0 mibTbl.unitSize)
    if (i : ℤ) = num then (m, false)
    else (write m (off + i * mibTbl.unitSize) (read newone 0 mibTbl.unitSize), true)

/-- `get_tblentry`: what is copied to `val`. -/
def getTblentry (m : Mem) (off : ℕ) (num : ℤ) (mibTbl : MibEntry) (index : ℤ) : Option (List UInt8) :=
  if index > num then none
  else some (read m ((off : ℤ) + (index - 1) * mibTbl.unitSize).toNat mibTbl.unitSize)

/-! ## The MIB -/

def isArray (type : MibType) : Bool := type.isTable && type ≠ .tableListT

structure Root where
  table : MibTable
  base : ℕ

def searchTbl (id : ℕ) (t : MibTable) : Option MibEntry := t.entries.find? fun e => e.id = id

/-- The entry of an id and the struct it is in: the tables are searched one after the other. -/
def lookup (roots : List Root) (id : ℕ) : Option (MibEntry × ℕ) :=
  roots.findSome? fun r => (searchTbl id r.table).map fun e => (e, r.base)

def loadInt (type : MibType) (m : Mem) (off : ℕ) : Option ℕ :=
  match type with
  | .byteT => some (m off).toNat
  | .wordT => some (load16 m off)
  | .dwordT => some (load32 m off)
  | _ => none

def storeInt (type : MibType) (v : ℕ) : Option (List UInt8) :=
  match type with
  | .byteT => some [UInt8.ofNat v]
  | .wordT => some (store16 v)
  | .dwordT => some (store32 v)
  | _ => none

/-- What `apmib_set` works with: the tables, `num` before `apmib_get` sets it, and the branches for other fields. -/
structure Mibs where
  roots : List Root
  num0 : ℕ
  setOther : MibEntry → ℕ → Mem → Mem → Mem × Bool

def Mibs.getNum (s : Mibs) (numId : ℕ) (m : Mem) : ℕ :=
  ((lookup s.roots numId).bind fun p => loadInt p.1.type m (p.2 + p.1.offset)).getD s.num0

def Mibs.setField (s : Mibs) (e : MibEntry) (base : ℕ) (value m : Mem) : Mem × Bool :=
  match storeInt e.type (load32 value 0) with
  | some bs => (write m (base + e.offset) bs, true)
  | none => s.setOther e base value m

/-- `apmib_set` for an id without flags. Of a table nothing is changed. -/
def Mibs.setPlain (s : Mibs) (id : ℕ) (value m : Mem) : Mem × Bool :=
  match lookup s.roots id with
  | none => (m, false)
  | some (e, base) => if isArray e.type then (m, true) else s.setField e base value m

/-- The operation on the array: the memory, `ret` and the new `num`. -/
def tblOp (op : Option TblOp) (m : Mem) (off num : ℕ) (e : MibEntry) (value : Mem) : (Mem × Bool) × ℕ :=
  match op with
  | some .add => (addTblentry m off (toInt num) e value, (num + 1) % 2 ^ 32)
  | some .del => (deleteTblentry m off (toInt num) e value, (num + (2 ^ 32 - 1)) % 2 ^ 32)
  | some .mod => (modTblentry m off (toInt num) e value, num)
  | some .delAll => (deleteAllTblentry m off e, 0)
  | none => ((m, true), num)

/-- `apmib_set`. The new `num` is stored by a call for `mib_num_id`, an id without flags. -/
def Mibs.apmibSet (s : Mibs) (id : ℕ) (value m : Mem) : Mem × Bool :=
  match lookup s.roots (decodeId id).id with
  | none => (m, false)
  | some (e, base) =>
    if isArray e.type then
      let num := s.getNum (decodeId id).numId m
      let r := tblOp (decodeId id).op m (base + e.offset) num e value
      if r.1.2 then ((s.setPlain (decodeId id).numId (ofList (store32 r.2)) r.1.1).1, true) else r.1
    else s.setField e base value m

/-! ## A table with its counter -/

def intWidth : MibType → ℕ
  | .byteT => 1
  | .wordT => 2
  | .dwordT => 4
  | _ => 0

/-- A table of the MIB: an array and a field that counts its entries, with ids next to each other and apart in memory.
-/
structure CountedTable (s : Mibs) where
  numId : ℕ
  counter : MibEntry
  counterBase : ℕ
  table : MibEntry
  tableBase : ℕ
  numId_lt : numId + 4 < mibTableList
  lookup_counter : lookup s.roots numId = some (counter, counterBase)
  lookup_table : lookup s.roots ((numId + 1) ||| mibTableList) = some (table, tableBase)
  counter_int : counter.type = .byteT ∨ counter.type = .wordT ∨ counter.type = .dwordT
  array : isArray table.type = true
  unit_pos : 0 < table.unitSize
  total_lt : table.totalSize < 65536
  disjoint : counterBase + counter.offset + intWidth counter.type ≤ tableBase + table.offset ∨
    tableBase + table.offset + table.totalSize ≤ counterBase + counter.offset

structure Request where
  op : TblOp
  value : Mem

namespace CountedTable

variable {s : Mibs} (t : CountedTable s)

def numAddr : ℕ := t.counterBase + t.counter.offset

def addr : ℕ := t.tableBase + t.table.offset

def num (m : Mem) : ℕ := s.getNum t.numId m

def set (m : Mem) (r : Request) : Mem × Bool := s.apmibSet (r.op.id t.numId) r.value m

def meaning (r : Request) : ListOp (List UInt8) :=
  match r.op with
  | .add => .add (read r.value 0 t.table.unitSize)
  | .del => .del (read r.value 0 t.table.unitSize)
  | .mod => .mod (read r.value 0 t.table.unitSize) (read r.value t.table.unitSize t.table.unitSize)
  | .delAll => .delAll

/-- The table stores the list `l`: in its first slots, as many as the counter counts. -/
structure Holds (m : Mem) (l : List (List UInt8)) : Prop where
  num_eq : t.num m = l.length
  slots_eq : slots m t.addr t.table.unitSize l.length = l
  length_le : l.length ≤ capacity t.table

/-- **The table is a bounded list**: from every state that stores a list, every run of requests does to it and answers
what the list does, and a request that fails changes nothing. -/
def BoundedList : Prop :=
  ∀ m l, t.Holds m l → ∀ rs : List Request,
    t.Holds (runAll t.set rs m).1 (runAll (ListOp.apply (capacity t.table)) (rs.map t.meaning) l).1 ∧
    (runAll t.set rs m).2 = (runAll (ListOp.apply (capacity t.table)) (rs.map t.meaning) l).2 ∧
    ∀ r, (t.set (runAll t.set rs m).1 r).2 = false →
      (t.set (runAll t.set rs m).1 r).1 = (runAll t.set rs m).1


theorem counter_not_array : isArray t.counter.type = false := by
  rcases t.counter_int with h | h | h <;> rw [h] <;> rfl

theorem loadInt_num (m : Mem) : loadInt t.counter.type m t.numAddr = some (t.num m) := by
  rw [num, Mibs.getNum, t.lookup_counter, Option.bind_some]
  rcases t.counter_int with h | h | h <;> simp [h, loadInt, numAddr]

theorem num_lt (m : Mem) : t.num m < 2 ^ (8 * intWidth t.counter.type) := by
  have hload := t.loadInt_num m
  rcases t.counter_int with h | h | h <;>
    simp only [h, loadInt, Option.some.injEq] at hload <;> rw [← hload, h]
  · exact UInt8.toNat_lt _
  · exact load16_lt ..
  · exact load32_lt ..

theorem setPlain_num {v : ℕ} (hv : v < 2 ^ (8 * intWidth t.counter.type)) (m : Mem) :
    t.num (s.setPlain t.numId (ofList (store32 v)) m).1 = v ∧
      ∀ k, k < t.numAddr ∨ t.numAddr + intWidth t.counter.type ≤ k →
        (s.setPlain t.numId (ofList (store32 v)) m).1 k = m k := by
  have hword : v < 2 ^ 32 := by
    refine hv.trans_le (Nat.pow_le_pow_right Nat.two_pos ?_)
    rcases t.counter_int with h | h | h <;> rw [h] <;> decide
  have hval : load32 (ofList (store32 v)) 0 = v := load32_of_read hword (read_ofList (store32 v))
  obtain ⟨bs, hbs, hlen, hback⟩ : ∃ bs, storeInt t.counter.type v = some bs ∧
      bs.length = intWidth t.counter.type ∧
      loadInt t.counter.type (write m t.numAddr bs) t.numAddr = some v := by
    have hself : ∀ bs, read (write m t.numAddr bs) t.numAddr bs.length = bs := read_write_self m t.numAddr
    rcases t.counter_int with h | h | h <;> rw [h] at hv ⊢
    · refine ⟨[UInt8.ofNat v], rfl, rfl, ?_⟩
      rw [loadInt, write_apply_mem le_rfl (by simp)]
      simpa [intWidth] using hv
    · exact ⟨store16 v, rfl, rfl, congrArg some (load16_of_read hv (hself _))⟩
    · exact ⟨store32 v, rfl, rfl, congrArg some (load32_of_read hv (hself _))⟩
  have hset : (s.setPlain t.numId (ofList (store32 v)) m).1 = write m t.numAddr bs := by
    simp [Mibs.setPlain, t.lookup_counter, t.counter_not_array, Mibs.setField, hval, hbs, numAddr]
  rw [hset]
  refine ⟨?_, fun k hk => write_apply_of_not (by rwa [hlen])⟩
  exact Option.some.inj ((t.loadInt_num _).symm.trans hback)

/-! ### One request -/

theorem slot_le {i : ℕ} (hi : i < capacity t.table) : (i + 1) * t.table.unitSize ≤ t.table.totalSize :=
  (Nat.mul_le_mul_right _ hi).trans (Nat.div_mul_le_self ..)

/-- What the table functions do to the array, against what the request does to the list. -/
structure Serves (m : Mem) (q : (Mem × Bool) × ℕ) (a : List (List UInt8) × Bool) : Prop where
  answer : q.1.2 = a.2
  fails : a.2 = false → q.1.1 = m
  num_eq : a.2 = true → q.2 = a.1.length
  slots_eq : a.2 = true → slots q.1.1 t.addr t.table.unitSize a.1.length = a.1
  frame : ∀ k, k < t.addr ∨ t.addr + t.table.totalSize ≤ k → q.1.1 k = m k

variable {t} {m : Mem} {l : List (List UInt8)}

theorem Holds.toInt_num (h : t.Holds m l) : toInt (t.num m) = l.length := by
  rw [h.num_eq, toInt_of_lt ((h.length_le.trans (Nat.div_le_self ..)).trans_lt t.total_lt)]

theorem Holds.findEntry_eq (h : t.Holds m l) (v : List UInt8) :
    findEntry m t.addr t.table.unitSize l.length v = l.idxOf v := by
  rw [Slots.findEntry_eq, h.slots_eq]

theorem Serves.refused (num : ℕ) : t.Serves m ((m, false), num) (l, false) :=
  ⟨rfl, fun _ => rfl, nofun, nofun, fun _ _ => rfl⟩

theorem Holds.serves_add (h : t.Holds m l) (value : Mem) :
    t.Serves m (tblOp (some .add) m t.addr (t.num m) t.table value)
      ((ListOp.add (read value 0 t.table.unitSize)).apply (capacity t.table) l) := by
  have hnum : (l.length + 1) % 2 ^ 32 = l.length + 1 := by
    have hcap : capacity t.table ≤ t.table.totalSize := Nat.div_le_self ..
    have hle := h.length_le
    have hlt := t.total_lt
    omega
  have haddr : ((t.addr : ℤ) + (l.length : ℤ) * t.table.unitSize).toNat = t.addr + l.length * t.table.unitSize := by
    rw [← Nat.cast_mul, ← Nat.cast_add, Int.toNat_natCast]
  rw [tblOp, addTblentry, h.toInt_num, h.num_eq, haddr, hnum, ListOp.apply]
  by_cases hfull : l.length < capacity t.table
  · have hslot := t.slot_le hfull
    rw [Nat.succ_mul] at hslot
    rw [if_neg (by omega), if_pos hfull]
    refine ⟨rfl, by rintro ⟨⟩, fun _ => by simp, fun _ => ?_, fun k hk => write_apply_of_not ?_⟩
    · rw [List.length_append, List.length_singleton, slots_succ, slot_write_self (length_read ..),
        slots_write (length_read ..), List.set_eq_of_length_le (by simp), h.slots_eq]
    · rw [length_read]
      omega
  · rw [if_pos (by omega), if_neg hfull]
    exact Serves.refused _

theorem Holds.serves_del (h : t.Holds m l) (value : Mem) :
    t.Serves m (tblOp (some .del) m t.addr (t.num m) t.table value)
      ((ListOp.del (read value 0 t.table.unitSize)).apply (capacity t.table) l) := by
  have hmin : min (l.length : ℤ) (capacity t.table) = l.length := min_eq_left (by exact_mod_cast h.length_le)
  rw [tblOp, deleteTblentry, h.toInt_num, hmin, Int.toNat_natCast, h.findEntry_eq, ListOp.apply, h.num_eq]
  generalize read value 0 t.table.unitSize = v
  by_cases hv : v ∈ l
  · obtain ⟨n, hn⟩ : ∃ n, l.length = n + 1 := Nat.exists_eq_add_one.mpr (List.length_pos_of_mem hv)
    have hi : l.idxOf v ≤ n := by
      have := List.idxOf_lt_length_iff.mpr hv
      omega
    have hle : n < capacity t.table := by
      omega
    have hlen : (l.erase v).length = n := by rw [List.length_erase_of_mem hv, hn, Nat.add_sub_cancel]
    have hnum : (n + 1 + (2 ^ 32 - 1)) % 2 ^ 32 = n := by
      have hcap : capacity t.table ≤ t.table.totalSize := Nat.div_le_self ..
      have hlt := t.total_lt
      omega
    have herase : slots (shiftDown m t.addr t.table.unitSize (l.idxOf v) (n + 1)) t.addr t.table.unitSize n =
        l.erase v := by
      rw [slots_shiftDown hi, ← hn, h.slots_eq, List.eraseIdx_idxOf_eq_erase]
    have hslot := t.slot_le hle
    rw [if_neg (by omega), if_pos hv, hn, hnum]
    have hframe : ∀ m' : Mem, (∀ k, k < t.addr + l.idxOf v * t.table.unitSize ∨
        t.addr + (n + 1) * t.table.unitSize ≤ k → m' k = m k) →
        slots m' t.addr t.table.unitSize n = l.erase v →
        t.Serves m ((m', true), n) (l.erase v, true) := fun m' hm' hs =>
      ⟨rfl, by rintro ⟨⟩, fun _ => hlen.symm, fun _ => by rw [hlen, hs], fun k hk => hm' k (by omega)⟩
    by_cases hlast : l.idxOf v = n
    · -- the last entry: its slot is cleared, the ones before it stay
      rw [if_pos (by omega)]
      refine hframe _ (fun k hk => ?_) ?_
      · rw [Nat.succ_mul] at hk
        rw [memset_apply_of_not (by rw [hlast] at hk ⊢; omega)]
      · rw [← herase]
        refine slots_congr fun k hk hlt => ?_
        rw [memset_apply_of_not (by rw [hlast]; omega), shiftDown_apply (by omega), if_neg (by rw [hlast]; omega)]
    · rw [if_neg (by omega)]
      refine hframe _ (fun k hk => ?_) herase
      rw [shiftDown_apply (by omega), if_neg (by omega)]
  · rw [if_pos (by rw [List.idxOf_eq_length_iff.mpr hv]), if_neg hv]
    exact Serves.refused _

theorem Holds.serves_mod (h : t.Holds m l) (value : Mem) :
    t.Serves m (tblOp (some .mod) m t.addr (t.num m) t.table value)
      ((ListOp.mod (read value 0 t.table.unitSize) (read value t.table.unitSize t.table.unitSize)).apply
        (capacity t.table) l) := by
  have hmin : min (l.length : ℤ) (capacity t.table) = l.length := min_eq_left (by exact_mod_cast h.length_le)
  rw [tblOp, modTblentry, h.toInt_num, hmin, Int.toNat_natCast, h.findEntry_eq, ListOp.apply, h.num_eq]
  generalize read value 0 t.table.unitSize = v
  by_cases hv : v ∈ l
  · have hi := List.idxOf_lt_length_iff.mpr hv
    have hslot := t.slot_le (hi.trans_le h.length_le)
    rw [Nat.succ_mul] at hslot
    rw [if_neg (by omega), if_pos hv]
    refine ⟨rfl, by rintro ⟨⟩, fun _ => (List.length_replace ..).symm, fun _ => ?_, fun k hk => write_apply_of_not ?_⟩
    · rw [List.length_replace, slots_write (length_read ..), h.slots_eq, replace_eq_set]
    · rw [length_read]
      omega
  · rw [if_pos (by rw [List.idxOf_eq_length_iff.mpr hv]), if_neg hv]
    exact Serves.refused _

theorem serves_delAll (value : Mem) :
    t.Serves m (tblOp (some .delAll) m t.addr (t.num m) t.table value)
      (ListOp.delAll.apply (capacity t.table) l) :=
  ⟨rfl, nofun, fun _ => rfl, fun _ => rfl, fun _ hk => memset_apply_of_not hk⟩

theorem Holds.serves (h : t.Holds m l) (r : Request) :
    t.Serves m (tblOp (some r.op) m t.addr (t.num m) t.table r.value)
      ((t.meaning r).apply (capacity t.table) l) := by
  obtain ⟨op, value⟩ := r
  cases op with
  | add => exact h.serves_add value
  | del => exact h.serves_del value
  | mod => exact h.serves_mod value
  | delAll => exact serves_delAll value

theorem Holds.getTblentry_eq (h : t.Holds m l) (i : ℕ) :
    getTblentry m t.addr (t.num m) t.table (i + 1) = l[i]? := by
  have haddr : ((t.addr : ℤ) + ((i : ℤ) + 1 - 1) * t.table.unitSize).toNat = t.addr + i * t.table.unitSize := by
    rw [add_sub_cancel_right, ← Nat.cast_mul, ← Nat.cast_add, Int.toNat_natCast]
  rw [getTblentry, h.num_eq, haddr]
  by_cases hi : i < l.length
  · rw [if_neg (by omega), ← h.slots_eq, getElem?_slots hi, slot]
  · rw [if_pos (by omega), List.getElem?_eq_none (Nat.not_lt.mp hi)]

/-- `update_tblentry` would serve the request as `mod_tblentry` does. -/
theorem Holds.updateTblentry_eq (h : t.Holds m l) (value : Mem) :
    updateTblentry m t.addr (t.num m) t.table value (fun k => value (t.table.unitSize + k)) =
      modTblentry m t.addr (t.num m) t.table value := by
  have hle : ((t.num m : ℕ) : ℤ) ≤ capacity t.table := by
    rw [h.num_eq]
    exact_mod_cast h.length_le
  rw [updateTblentry, modTblentry, if_neg (not_lt.mpr hle), min_eq_left hle, read_shift, Nat.add_zero]

variable (t) in
theorem set_eq (m : Mem) (r : Request) :
    t.set m r =
      if (tblOp (some r.op) m t.addr (t.num m) t.table r.value).1.2 then
        ((s.setPlain t.numId (ofList (store32 (tblOp (some r.op) m t.addr (t.num m) t.table r.value).2))
          (tblOp (some r.op) m t.addr (t.num m) t.table r.value).1.1).1, true)
      else (tblOp (some r.op) m t.addr (t.num m) t.table r.value).1 := by
  simp only [set, Mibs.apmibSet, decodeId_id t.numId_lt, t.lookup_table, t.array, if_true]
  rfl

/-- **One request.** While the counter can count to the capacity, the table does and answers what the list does. -/
theorem Holds.set_spec (h : t.Holds m l) (hfit : capacity t.table < 2 ^ (8 * intWidth t.counter.type))
    (r : Request) :
    t.Holds (t.set m r).1 ((t.meaning r).apply (capacity t.table) l).1 ∧
      (t.set m r).2 = ((t.meaning r).apply (capacity t.table) l).2 ∧ ((t.set m r).2 = false → (t.set m r).1 = m) := by
  have hs := h.serves r
  have hlen := (t.meaning r).apply_length_le h.length_le
  rw [t.set_eq, hs.answer]
  cases hans : ((t.meaning r).apply (capacity t.table) l).2 with
  | false =>
    rw [if_neg Bool.false_ne_true, hs.answer, hans, hs.fails hans, ListOp.apply_of_false hans]
    exact ⟨h, rfl, fun _ => rfl⟩
  | true =>
    rw [if_pos rfl, hs.num_eq hans]
    obtain ⟨hnum, hframe⟩ := t.setPlain_num (hlen.trans_lt hfit)
      (tblOp (some r.op) m t.addr (t.num m) t.table r.value).1.1
    refine ⟨⟨hnum, ?_, hlen⟩, rfl, nofun⟩
    -- the counter is not in the array
    refine (slots_congr fun k hk hlt => hframe k ?_).trans (hs.slots_eq hans)
    have hin := (Nat.mul_le_mul_right t.table.unitSize hlen).trans (Nat.div_mul_le_self ..)
    have hdis := t.disjoint
    simp only [addr] at hk hlt
    simp only [numAddr]
    omega

variable (t)

theorem boundedList_of_fit (hfit : capacity t.table < 2 ^ (8 * intWidth t.counter.type)) : t.BoundedList := by
  intro m l h rs
  obtain ⟨hrun, hans⟩ := runAll_sim t.Holds t.meaning
    (fun m l r h => ⟨(h.set_spec hfit r).1, (h.set_spec hfit r).2.1⟩) rs h
  exact ⟨hrun, hans, fun r => (hrun.set_spec hfit r).2.2⟩

variable {t} in
/-- **What `get_tblentry` reads after any run of requests** is in the list, at its place, and nothing behind it. -/
theorem getTblentry_run (hfit : capacity t.table < 2 ^ (8 * intWidth t.counter.type)) (h : t.Holds m l)
    (rs : List Request) (i : ℕ) :
    getTblentry (runAll t.set rs m).1 t.addr (t.num (runAll t.set rs m).1) t.table (i + 1) =
      (runAll (ListOp.apply (capacity t.table)) (rs.map t.meaning) l).1[i]? :=
  (t.boundedList_of_fit hfit m l h rs).1.getTblentry_eq i

theorem holds_zero : t.Holds (fun _ => 0) [] := by
  refine ⟨?_, rfl, Nat.zero_le _⟩
  have hload := t.loadInt_num fun _ => 0
  rcases t.counter_int with h | h | h <;> rw [h] at hload <;> exact (Option.some.inj hload).symm

/-- **A table is a bounded list exactly when its counter can count to its capacity.** -/
theorem boundedList_iff : t.BoundedList ↔ capacity t.table < 2 ^ (8 * intWidth t.counter.type) := by
  refine ⟨fun h => ?_, t.boundedList_of_fit⟩
  by_contra hfull
  -- as many entries as the counter has values
  let add : Request := ⟨.add, fun _ => 0⟩
  have hrun := (h _ _ t.holds_zero (List.replicate (2 ^ (8 * intWidth t.counter.type)) add)).1
  have hnum := hrun.num_eq
  rw [List.map_replicate, show t.meaning add = .add (read (fun _ => 0) 0 t.table.unitSize) from rfl,
    length_runAll_add _ (by simpa using Nat.le_of_not_lt hfull)] at hnum
  have := t.num_lt (runAll t.set (List.replicate (2 ^ (8 * intWidth t.counter.type)) add) fun _ => 0).1
  omega

end CountedTable

/-! ### Two tables of the MIB -/

/-- `acNum` and `acAddrArray`: at most 20 addresses with comments. -/
def wlanAclMib : MibTable :=
  .cons 53 .byteT 0 1 1 .nil (.cons (54 ||| mibTableList) .wlacArrayT 1 540 27 .nil .nil)

def wlanAcl : CountedTable ⟨[⟨wlanAclMib, 0⟩], 0, fun _ _ _ m => (m, true)⟩ where
  numId := 53
  counter := ⟨53, .byteT, 0, 1, 1, .nil⟩
  counterBase := 0
  table := ⟨54 ||| mibTableList, .wlacArrayT, 1, 540, 27, .nil⟩
  tableBase := 0
  numId_lt := by decide
  lookup_counter := rfl
  lookup_table := rfl
  counter_int := Or.inl rfl
  array := rfl
  unit_pos := by decide
  total_lt := by decide
  disjoint := by decide

theorem wlanAcl_boundedList : capacity wlanAcl.table = 20 ∧ wlanAcl.BoundedList :=
  ⟨rfl, wlanAcl.boundedList_iff.mpr (by decide)⟩

theorem wlanAcl_getTblentry : getTblentry (runAll wlanAcl.set [⟨.add, fun _ => 7⟩] fun _ => 0).1 wlanAcl.addr
    (wlanAcl.num (runAll wlanAcl.set [⟨.add, fun _ => 7⟩] fun _ => 0).1) wlanAcl.table 1 = some (List.replicate 27 7) :=
  CountedTable.getTblentry_run (by decide) wlanAcl.holds_zero [⟨.add, fun _ => 7⟩] 0

/-- The fields of the captive portal. `MAX_CAP_PORTAL_ALLOW_NUM` is 500, and `capPortalCurNum` is a byte. -/
def capPortalMib : MibTable :=
  .cons 850 .byteT 0 1 1 .nil <| .cons 851 .stringT 1 2000 1 .nil <| .cons 852 .byteT 2001 1 1 .nil <|
    .cons (853 ||| mibTableList) .capPortalAllowArrayT 2002 10000 20 (.cons 1978 .byte6T 0 20 1 .nil .nil) .nil

def capPortal : CountedTable ⟨[⟨capPortalMib, 0⟩], 0, fun _ _ _ m => (m, true)⟩ where
  numId := 852
  counter := ⟨852, .byteT, 2001, 1, 1, .nil⟩
  counterBase := 0
  table := ⟨853 ||| mibTableList, .capPortalAllowArrayT, 2002, 10000, 20, .cons 1978 .byte6T 0 20 1 .nil .nil⟩
  tableBase := 0
  numId_lt := by decide
  lookup_counter := rfl
  lookup_table := rfl
  counter_int := Or.inl rfl
  array := rfl
  unit_pos := by decide
  total_lt := by decide
  disjoint := by decide

def capPortal255 : Mem := fun k => if k = 2001 then 255 else 0

/-- The next entry is accepted and the counter is 0: the table has lost its entries. -/
theorem capPortal_wraps :
    capacity capPortal.table = 500 ∧ capPortal.Holds capPortal255 (List.replicate 255 (List.replicate 20 0)) ∧
      (capPortal.set capPortal255 ⟨.add, fun _ => 0⟩).2 = true ∧
      capPortal.num (capPortal.set capPortal255 ⟨.add, fun _ => 0⟩).1 = 0 ∧ ¬ capPortal.BoundedList := by
  have hholds : capPortal.Holds capPortal255 (List.replicate 255 (List.replicate 20 0)) :=
    ⟨by decide +kernel, by decide +kernel, by decide +kernel⟩
  have hwrap : capPortal.num (capPortal.set capPortal255 ⟨.add, fun _ => 0⟩).1 = 0 := by decide +kernel
  refine ⟨rfl, hholds, rfl, hwrap, fun h => ?_⟩
  have hnum := (h _ _ hholds [⟨.add, fun _ => 0⟩]).1.num_eq
  exact absurd hnum (by decide +kernel)

/-! ## Deleting inside a table -/

def delCount (num : ℕ) (deleted : Bool) : ℕ := if deleted then (num + (2 ^ 32 - 1)) % 2 ^ 32 else num

/-- The table after a deletion is a function of the table before it, and the slots from the new count on are zero. -/
def DeletesInside (m : Mem) (off num : ℕ) (e : MibEntry) (val : Mem) : Prop :=
  (∀ m', read m' off e.totalSize = read m off e.totalSize →
    read (deleteTblentry m' off (toInt num) e val).1 off e.totalSize =
      read (deleteTblentry m off (toInt num) e val).1 off e.totalSize) ∧
  ∀ j, delCount num (deleteTblentry m off (toInt num) e val).2 ≤ j → j < capacity e →
    slot (deleteTblentry m off (toInt num) e val).1 off e.unitSize j = List.replicate e.unitSize 0

section Delete

variable {m m' : Mem} {off num n : ℕ} {e : MibEntry} {val : Mem} {v : List UInt8}

theorem delCount_true (hpos : 0 < num) (hnum : num < 2 ^ 32) : delCount num true = num - 1 := by
  rw [delCount, if_pos rfl, show num + (2 ^ 32 - 1) = num - 1 + 2 ^ 32 by omega, Nat.add_mod_right]
  exact Nat.mod_eq_of_lt (by omega)

theorem toInt_eq (hnum : num < 2 ^ 32) : toInt num = num ∨ toInt num < 0 ∧ 65536 < num := by
  unfold toInt
  rw [Int.bmod_def]
  norm_num at hnum ⊢
  split_ifs <;> omega

theorem mul_unit_le (hn : n ≤ capacity e) : n * e.unitSize ≤ e.totalSize :=
  (Nat.mul_le_mul_right _ hn).trans (Nat.div_mul_le_self ..)

theorem idxOf_lt_iff {unit : ℕ} : (slots m off unit n).idxOf v + 1 < n ↔ v ∈ slots m off unit (n - 1) := by
  cases n with
  | zero => exact iff_of_false (Nat.not_lt_zero _) List.not_mem_nil
  | succ n =>
    rw [Nat.add_sub_cancel, slots_succ, Nat.succ_lt_succ_iff]
    by_cases h : v ∈ slots m off unit n
    · exact iff_of_true (by simpa [List.idxOf_append_of_mem h] using List.idxOf_lt_length_iff.mpr h) h
    · exact iff_of_false (by simp [List.idxOf_append_of_notMem h]) h

/-- For a counter that is not negative, the slot in which the value is found says what happens, and all memories with this
table have the same. -/
theorem deleteTblentry_eq (hm' : read m' off e.totalSize = read m off e.totalSize) {i : ℕ}
    (hi : (slots m off e.unitSize (min num (capacity e))).idxOf (read val 0 e.unitSize) = i) :
    deleteTblentry m' off num e val =
      if i = min num (capacity e) then (m', false)
      else if i + 1 = min num (capacity e) then (memset m' (off + i * e.unitSize) e.unitSize 0, true)
      else (shiftDown m' off e.unitSize i (min num (capacity e)), true) := by
  have hslots : slots m' off e.unitSize (min num (capacity e)) = slots m off e.unitSize (min num (capacity e)) :=
    slots_congr fun _ hk hlt =>
      eq_of_read_eq hm' hk (hlt.trans_le (Nat.add_le_add_left (mul_unit_le (min_le_right ..)) _))
  rw [deleteTblentry, ← Nat.cast_min, Int.toNat_natCast, findEntry_eq, hslots, hi]
  split_ifs <;> first | rfl | omega

theorem deletesInside_of_neg (h : toInt num < 0) (hcount : capacity e < delCount num true) : DeletesInside m off num e val := by
  have hneg : ∀ m, deleteTblentry m off (toInt num) e val = (m, true) := fun m => by
    rw [deleteTblentry, show min (toInt num) (capacity e : ℤ) = toInt num by omega, show (toInt num).toNat = 0 by omega,
      findEntry_eq, if_neg (by omega), if_neg (by omega)]
    rfl
  refine ⟨fun m' hm' => by rwa [hneg, hneg], fun j hj hlt => ?_⟩
  rw [hneg] at hj
  exact absurd (hcount.trans_le hj) (Nat.not_lt.mpr hlt.le)

/-- If the slots move down in a full table, the one behind it comes into the last one. -/
theorem not_inside_of_full (m : Mem) (off : ℕ) {i : ℕ} (hunit : 0 < e.unitSize) (hi : i + 1 < capacity e) :
    ∃ m', read m' off e.totalSize = read m off e.totalSize ∧
      read (shiftDown m' off e.unitSize i (capacity e)) off e.totalSize ≠
        read (shiftDown m off e.unitSize i (capacity e)) off e.totalSize := by
  have hle : capacity e * e.unitSize ≤ e.totalSize := mul_unit_le le_rfl
  have hlt : e.totalSize < capacity e * e.unitSize + e.unitSize := by
    rw [← Nat.succ_mul, Nat.mul_comm]
    exact Nat.lt_mul_div_succ _ hunit
  have hend := Nat.mul_le_mul_right e.unitSize hi.le
  rw [Nat.succ_mul] at hend
  let k := off + capacity e * e.unitSize - 1
  let m' := Function.update m (k + e.unitSize) (m (k + e.unitSize) + 1)
  refine ⟨m', read_congr fun a _ ha => Function.update_of_ne (by omega) .., fun h => ?_⟩
  have hk := eq_of_read_eq h (k := k) (by omega) (by omega)
  rw [shiftDown_apply (by omega), shiftDown_apply (by omega), if_pos (by omega), if_pos (by omega)] at hk
  simp [m'] at hk

section Found

variable {i : ℕ} (hi : (slots m off e.unitSize (min num (capacity e))).idxOf (read val 0 e.unitSize) = i)

include hi

/-- Only the move in a full table looks at what is behind the table. -/
theorem inside_iff (hunit : 0 < e.unitSize) :
    (∀ m', read m' off e.totalSize = read m off e.totalSize →
      read (deleteTblentry m' off num e val).1 off e.totalSize =
        read (deleteTblentry m off num e val).1 off e.totalSize) ↔ (capacity e ≤ num → ¬ i + 1 < capacity e) := by
  have hdel := fun m' (hm' : read m' off e.totalSize = read m off e.totalSize) => deleteTblentry_eq hm' hi
  constructor
  · intro hinside hfull hlt
    obtain ⟨m', hm', hne⟩ := not_inside_of_full m off hunit hlt
    have h := hinside m' hm'
    rw [hdel m' hm', hdel m rfl, min_eq_right hfull, if_neg (by omega), if_neg (by omega), if_neg (by omega),
      if_neg (by omega)] at h
    exact hne h
  · intro hfull m' hm'
    have htable : ∀ k, off ≤ k → k < off + e.totalSize → m' k = m k := fun k => eq_of_read_eq hm'
    have hle : i ≤ min num (capacity e) := hi ▸ List.idxOf_le_length.trans_eq length_slots
    rw [hdel m' hm', hdel m rfl]
    refine read_congr fun k hk hlt => ?_
    split_ifs with h h'
    · exact htable k hk hlt
    · simp only [memset, htable k hk hlt]
    · have hend := mul_unit_le (show min num (capacity e) + 1 ≤ capacity e by omega)
      rw [Nat.succ_mul] at hend
      simp only [shiftDown_apply hle, htable k hk hlt]
      split_ifs with hin
      · exact htable _ (by omega) (by omega)
      · rfl

theorem cleared_iff (hnum : num < 2 ^ 32) (hfull : capacity e ≤ num → ¬ i + 1 < capacity e) :
    (∀ j, delCount num (deleteTblentry m off num e val).2 ≤ j → j < capacity e →
      slot (deleteTblentry m off num e val).1 off e.unitSize j = List.replicate e.unitSize 0) ↔
    ∀ j, num ≤ j → j < capacity e → slot m off e.unitSize j = List.replicate e.unitSize 0 := by
  have hle : i ≤ min num (capacity e) := hi ▸ List.idxOf_le_length.trans_eq length_slots
  rw [deleteTblentry_eq rfl hi]
  split_ifs with h h'
  · rfl
  · rw [delCount_true (by omega) hnum]
    have hslot : ∀ j, i < j → slot (memset m (off + i * e.unitSize) e.unitSize 0) off e.unitSize j =
        slot m off e.unitSize j := fun j hj => by
      have := Nat.mul_le_mul_right e.unitSize (Nat.succ_le_of_lt hj)
      rw [Nat.succ_mul] at this
      exact read_memset_of_disjoint (.inr (by omega))
    refine ⟨fun hclear j hj hlt => hslot j (by omega) ▸ hclear j (by omega) hlt, fun hzero j hj hlt => ?_⟩
    rcases Nat.eq_or_lt_of_le (show i ≤ j by omega) with rfl | hij
    · exact read_memset_self ..
    · rw [hslot j hij]
      exact hzero j (by omega) hlt
  · rw [delCount_true (by omega) hnum]
    have hslot : ∀ j, num ≤ j → slot (shiftDown m off e.unitSize i (min num (capacity e))) off e.unitSize j =
        slot m off e.unitSize j := fun j hj => by
      have := Nat.mul_le_mul_right e.unitSize ((min_le_left _ (capacity e)).trans hj)
      exact read_congr fun k hk _ => (shiftDown_apply hle k).trans (if_neg (by omega))
    refine ⟨fun hclear j hj hlt => hslot j hj ▸ hclear j (by omega) hlt, fun hzero j hj hlt => ?_⟩
    rcases Nat.lt_or_ge j num with hjn | hjn
    · rw [slot_shiftDown hle (by omega), if_neg (by omega)]
      exact hzero (j + 1) (by omega) (by omega)
    · rw [hslot j hjn]
      exact hzero j hjn hlt

end Found

/-- **Deleting inside a table.** The table after a deletion is a function of the table, the counter and the value, and the
slots from the new count on are zero, exactly if the slots behind the counter are zero, and in a full table the value does
not stand before the last slot. -/
theorem deletesInside_iff (m : Mem) (off : ℕ) (val : Mem) (hunit : 0 < e.unitSize) (htotal : e.totalSize < 65536)
    (hnum : num < 2 ^ 32) :
    DeletesInside m off num e val ↔
      (∀ j, num ≤ j → j < capacity e → slot m off e.unitSize j = List.replicate e.unitSize 0) ∧
        ((capacity e : ℤ) ≤ toInt num → read val 0 e.unitSize ∉ slots m off e.unitSize (capacity e - 1)) := by
  have hcap : capacity e < 65536 := (Nat.div_le_self ..).trans_lt htotal
  rcases toInt_eq hnum with hz | ⟨hneg, hbig⟩
  · unfold DeletesInside
    rw [hz, inside_iff rfl hunit, ← idxOf_lt_iff, Int.ofNat_le, and_comm,
      ← imp_congr_right fun h : capacity e ≤ num => not_congr (by rw [min_eq_right h])]
    exact and_congr_left fun hfull => cleared_iff rfl hnum fun h => by rw [min_eq_right h]; exact hfull h
  · refine iff_of_true (deletesInside_of_neg hneg ?_) ⟨fun j hj hlt => by omega, fun h => by omega⟩
    rw [delCount_true (by omega) hnum]
    omega

end Delete

theorem deletesInside_one :
    DeletesInside (ofList [5, 0]) 0 1 ⟨1, .byteT, 0, 2, 1, .nil⟩ (fun _ => 5) :=
  (deletesInside_iff (ofList [5, 0]) 0 (fun _ => 5) (by decide) (by decide) (by decide)).mpr
    ⟨by decide, by decide⟩

/-- **The first entry of a full table is deleted**: what stood behind the table is now its last entry. -/
theorem full_table_takes_more :
    read (ofList [5, 6, 7]) 0 2 = read (ofList [5, 6, 8]) 0 2 ∧
      (deleteTblentry (ofList [5, 6, 7]) 0 (toInt 2) ⟨1, .byteT, 0, 2, 1, .nil⟩ fun _ => 5).2 = true ∧
      read (deleteTblentry (ofList [5, 6, 7]) 0 (toInt 2) ⟨1, .byteT, 0, 2, 1, .nil⟩ fun _ => 5).1 0 2 = [6, 7] ∧
      read (deleteTblentry (ofList [5, 6, 8]) 0 (toInt 2) ⟨1, .byteT, 0, 2, 1, .nil⟩ fun _ => 5).1 0 2 = [6, 8] := by
  decide

end NasFirmware.Apmib
