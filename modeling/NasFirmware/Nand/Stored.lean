import NasFirmware.Nand.Model
import NasFirmware.Lib.Mem

/-!
# The table on the chip

The remap table is kept in blocks 1 and 2 of die 0, each page of it with `BBT_TAG` in its first spare byte. `Tagged`
adds that byte to the state of the chip, and the buffer `temp_BBT` is a piece of memory here, with what lies behind it.

* **`create_ok`**, **`scan_loads`**: what is on the chip after a new table is written, and what is loaded from it.
-/

namespace NasFirmware.Nand

open ByteMem

/-! ## Pages with a tag -/

def bbtTag : UInt8 := 0xBB

/-- What will go wrong, what a failed operation leaves in a spare byte, and what allocated memory holds. -/
structure Env where
  faults : Faults
  oobResidue : ℕ → ℕ → UInt8
  heap : Mem

structure Tagged where
  nand : Nand
  oob : ℕ → UInt8

section Model

variable (g : Geometry) (e : Env)

def Tagged.erase (c : Tagged) (page : ℕ) : Rc × Tagged :=
  ((eraseBlock g e.faults c.nand 0 page).1,
    { nand := (eraseBlock g e.faults c.nand 0 page).2
      oob := fun p =>
        if p / g.ppb = page / g.ppb then
          if c.nand.report e.faults = .ok then 0xFF else e.oobResidue c.nand.log.length p
        else c.oob p })

def Tagged.program (c : Tagged) (page : ℕ) (data : List UInt8) : Rc × Tagged :=
  ((writeEccPage e.faults c.nand 0 page data).1,
    { nand := (writeEccPage e.faults c.nand 0 page data).2
      oob := fun p =>
        if p = page then
          if c.nand.report e.faults = .ok then bbtTag else e.oobResidue c.nand.log.length p
        else c.oob p })

/-- `read_ecc_page` on die 0: the report, the bytes, the spare byte, and the chip. -/
def Tagged.read (c : Tagged) (page : ℕ) : Rc × List UInt8 × UInt8 × Tagged :=
  let (rc, data, s) := readEccPage e.faults c.nand 0 page
  (rc, data, if rc = .ok then c.oob page else e.oobResidue c.nand.log.length page, { c with nand := s })

def Tagged.setBbt (c : Tagged) (bbt : List BBt) : Tagged := { c with nand := { c.nand with bbt := bbt } }

/-- `mem_page_num`, a `u8`. -/
def memPageNum : ℕ := (8 * g.RBA + g.pageSize - 1) / g.pageSize % 256

/-- `temp_BBT` of `n` pages, with a table in front. -/
def tempBBT (n : ℕ) (bbt : List BBt) : Mem := write (memset e.heap 0 (n * g.pageSize) 0xFF) 0 (tableBytes bbt)

/-- The loop of `rtk_create_bbt`. The buffer is a `u32 *`, so page `k` is taken four times as far behind its start. -/
def createPages (temp : Mem) (page : ℕ) : ℕ → ℕ → Tagged → ℤ × Tagged
  | 0, _, c => (0, c)
  | n + 1, k, c =>
    match c.program e (page + k) (ByteMem.read temp (4 * (k * g.pageSize)) g.pageSize) with
    | (.ok, c) => createPages temp page n (k + 1) c
    | (_, c) => (-1, c)

/-- `rtk_create_bbt`, or `none` if the table is copied over the end of the buffer. -/
def Tagged.rtkCreateBbt (isBad : ℕ → ℕ → Bool) (c : Tagged) (page : ℕ) : Option (ℤ × Tagged) :=
  if page ≠ g.ppb ∧ page ≠ 2 * g.ppb then some (-1, c)
  else
    let bbt := if e.faults.alloc c.nand.log.length 0 then scanLastDieBB g isBad else c.nand.bbt
    let c := c.setBbt (if 1 < g.numchips then scanOtherDieBB g isBad bbt else bbt)
    if e.faults.alloc c.nand.log.length 1 then
      match c.erase g e page with
      | (.ok, c) =>
        if memPageNum g * g.pageSize < 8 * g.RBA then none
        else some (createPages g e (tempBBT g e (memPageNum g) c.nand.bbt) page (memPageNum g) 0 c)
      | (_, c) => some (-1, c)
    else some (-12, c)

def Tagged.writeCopy (c : Tagged) (page : ℕ) : Bool × Tagged :=
  match c.program e page c.nand.databuf with
  | (.ok, c) =>
    if g.large then
      let c := { c with nand := { c.nand with databuf := (paddedBytes g c.nand.bbt).drop g.pageSize } }
      ((c.program e (page + 1) c.nand.databuf).1 = .ok, (c.program e (page + 1) c.nand.databuf).2)
    else (true, c)
  | (_, c) => (false, c)

/-- `rtk_update_bbt`: whether it went well, or `none` if the table is copied over the end of the buffer. -/
def Tagged.rtkUpdateBbt (c : Tagged) : Option (Bool × Tagged) :=
  if g.large ∧ e.faults.alloc c.nand.log.length 0 = false then some (false, c)
  else if 2 * g.pageSize < 8 * g.RBA then none
  else
    let first := firstPage g c.nand
    let c := { c with nand := { c.nand with databuf := first } }
    let c := (c.erase g e g.ppb).2
    let c := (c.writeCopy g e g.ppb).2
    let c := { c with nand := { c.nand with databuf := first } }
    match c.erase g e (2 * g.ppb) with
    | (.ok, c) => some (c.writeCopy g e (2 * g.ppb))
    | (_, c) => some (false, c)

def entryAt (m : Mem) (off : ℕ) : BBt := ⟨load16 m off, load16 m (off + 2), load16 m (off + 4), load16 m (off + 6)⟩

def tableAt (m : Mem) (n : ℕ) : List BBt := (List.range n).map fun i => entryAt m (8 * i)

/-- The loop of `rtk_nand_scan_bbt` from page `k` of a copy on: what is in `temp_BBT` then, if no read fails. -/
def loadPages (base : ℕ) : ℕ → ℕ → Mem → Tagged → Option Mem × Tagged
  | 0, _, temp, c => (some temp, c)
  | n + 1, k, temp, c =>
    match c.read e (base + k) with
    | (.ok, data, _, c) =>
      loadPages base n (k + 1) (write temp (k * g.pageSize) (data.take g.pageSize))
        { c with nand := { c.nand with databuf := data } }
    | (_, _, _, c) => (none, c)

/-- Load the copy whose first page has been read. `mem_page_num` is counted down from there. -/
def Tagged.loadCopy (c : Tagged) (base : ℕ) (data : List UInt8) : Option (ℤ × Tagged) :=
  if memPageNum g = 0 then none
  else
    let temp := write (memset e.heap 0 (memPageNum g * g.pageSize) 0xFF) 0 (data.take g.pageSize)
    match loadPages g e base (memPageNum g - 1) 1 temp { c with nand := { c.nand with databuf := data } } with
    | (some temp, c) => some (0, c.setBbt (tableAt temp g.RBA))
    | (none, c) => some (-1, c)

/-- `rtk_nand_scan_bbt`, or `none` if memory behind a buffer is overwritten. -/
def Tagged.rtkNandScanBbt (isBad : ℕ → ℕ → Bool) (c : Tagged) : Option (ℤ × Tagged) :=
  if e.faults.alloc c.nand.log.length 0 = false then some (-12, c)
  else
    match c.read e g.ppb with
    | (.ok, data, tag, c) =>
      if tag = bbtTag then c.loadCopy g e g.ppb data
      else
        match c.read e (2 * g.ppb) with
        | (.ok, data, tag, c) =>
          if tag = bbtTag then c.loadCopy g e (2 * g.ppb) data
          else do
            let (_, c) ← c.rtkCreateBbt g e isBad g.ppb
            let (_, c) ← c.rtkCreateBbt g e isBad (2 * g.ppb)
            return (0, c)
        | (rc, _, _, c) => do
          let (_, c) ← c.rtkCreateBbt g e isBad g.ppb
          return (rc.code, c)
    | (_, _, _, c) =>
      match c.read e (2 * g.ppb) with
      | (.ok, data, tag, c) =>
        if tag = bbtTag then c.loadCopy g e (2 * g.ppb) data
        else do
          let (_, c) ← c.rtkCreateBbt g e isBad (2 * g.ppb)
          return (0, c)
      | (_, _, _, c) => some (-1, c)

end Model

/-! ## Tables as bytes -/

section Bytes

variable {m : Mem} {off n : ℕ} {bbt : List BBt}

structure BBt.Fits (e : BBt) : Prop where
  bbDie : e.bbDie < 65536
  badBlock : e.badBlock < 65536
  rbDie : e.rbDie < 65536
  remapBlock : e.remapBlock < 65536

def entryBytes (e : BBt) : List UInt8 :=
  halfword e.bbDie ++ halfword e.badBlock ++ halfword e.rbDie ++ halfword e.remapBlock

theorem tableBytes_cons (e : BBt) (bbt : List BBt) : tableBytes (e :: bbt) = entryBytes e ++ tableBytes bbt :=
  List.flatMap_cons

theorem length_tableBytes (bbt : List BBt) : (tableBytes bbt).length = 8 * bbt.length := by
  induction bbt with
  | nil => rfl
  | cons e bbt ih =>
    rw [tableBytes_cons, List.length_append, ih, List.length_cons]
    change 8 + 8 * bbt.length = _
    omega

theorem entryBytes_entryAt (m : Mem) (off : ℕ) : entryBytes (entryAt m off) = read m off 8 := by
  have h : ∀ o, halfword (load16 m o) = read m o 2 := store16_load16 m
  change _ = read m off (2 + 2 + 2 + 2)
  rw [read_add, read_add, read_add]
  unfold entryBytes entryAt
  rw [h, h, h, h]

theorem entryAt_of_read {e : BBt} (he : e.Fits) (h : read m off 8 = entryBytes e) : entryAt m off = e := by
  have h' : read m off (2 + 2 + 2 + 2) = entryBytes e := h
  rw [read_add, read_add, read_add] at h'
  obtain ⟨h', h₄⟩ := List.append_inj' h' rfl
  obtain ⟨h', h₃⟩ := List.append_inj' h' rfl
  obtain ⟨h₁, h₂⟩ := List.append_inj' h' rfl
  unfold entryAt
  rw [load16_of_read he.bbDie h₁, load16_of_read he.badBlock h₂, load16_of_read he.rbDie h₃,
    load16_of_read he.remapBlock h₄]

theorem map_entryAt_succ (m : Mem) (off n : ℕ) : (List.range (n + 1)).map (fun i => entryAt m (off + 8 * i)) =
    entryAt m off :: (List.range n).map fun i => entryAt m (off + 8 + 8 * i) := by
  rw [List.range_succ_eq_map, List.map_cons, List.map_map]
  refine congrArg (entryAt m off :: ·) (List.map_congr_left fun i _ => ?_)
  rw [Function.comp_apply, Nat.succ_eq_add_one]
  congr 1
  omega

theorem tableBytes_entries (m : Mem) (off n : ℕ) :
    tableBytes ((List.range n).map fun i => entryAt m (off + 8 * i)) = read m off (8 * n) := by
  induction n generalizing off with
  | zero => rfl
  | succ n ih =>
    rw [map_entryAt_succ, tableBytes_cons, entryBytes_entryAt, ih, ← read_add, Nat.mul_succ, Nat.add_comm 8]

theorem entries_of_read (hfits : ∀ e ∈ bbt, e.Fits)
    (h : read m off (tableBytes bbt).length = tableBytes bbt) :
    ((List.range bbt.length).map fun i => entryAt m (off + 8 * i)) = bbt := by
  induction bbt generalizing off with
  | nil => rfl
  | cons e bbt ih =>
    have hleft := read_append_left h
    have hright : read m (off + 8) (tableBytes bbt).length = tableBytes bbt := read_append_right h
    rw [List.length_cons, map_entryAt_succ, entryAt_of_read (hfits e List.mem_cons_self) hleft,
      ih (fun e' he' => hfits e' (List.mem_cons_of_mem _ he')) hright]

theorem tableBytes_tableAt (m : Mem) (n : ℕ) : tableBytes (tableAt m n) = read m 0 (8 * n) := by
  have h := tableBytes_entries m 0 n
  simp only [Nat.zero_add] at h
  exact h

theorem tableAt_of_read (hfits : ∀ e ∈ bbt, e.Fits)
    (h : read m 0 (tableBytes bbt).length = tableBytes bbt) : tableAt m bbt.length = bbt := by
  have h := entries_of_read hfits h
  simp only [Nat.zero_add] at h
  exact h

end Bytes

/-! ## The chip without errors -/

/-- The chip reports no errors from here on, and memory is to be had. -/
def Healthy (e : Env) (c : Tagged) : Prop :=
  ∀ n, c.nand.log.length ≤ n → e.faults.rc n = .ok ∧ ∀ k, e.faults.alloc n k = true

section Healthy

variable {g : Geometry} {e : Env} {c : Tagged} {c' : Tagged} {S : ℕ → Prop} {base page : ℕ}

theorem Healthy.report (h : Healthy e c) : c.nand.report e.faults = .ok := (h _ le_rfl).1

theorem Healthy.alloc (h : Healthy e c) (k : ℕ) : e.faults.alloc c.nand.log.length k = true := (h _ le_rfl).2 k

theorem Healthy.of_log (h : Healthy e c) {op : List Op} (hlog : c'.nand.log = c.nand.log ++ op) :
    Healthy e c' := by
  intro n hn
  refine h n (le_trans ?_ hn)
  rw [hlog, List.length_append]
  exact Nat.le_add_right _ _

/-- What an operation leaves as it was: the table, and the pages and tags that are not in `S`. -/
structure Keeps (S : ℕ → Prop) (c c' : Tagged) : Prop where
  bbt : c'.nand.bbt = c.nand.bbt
  page : ∀ p, ¬ S p → c'.nand.page 0 p = c.nand.page 0 p
  oob : ∀ p, ¬ S p → c'.oob p = c.oob p

theorem Keeps.trans {c c'' : Tagged} (h : Keeps S c c') (h' : Keeps S c' c'') : Keeps S c c'' where
  bbt := h'.bbt.trans h.bbt
  page p hp := (h'.page p hp).trans (h.page p hp)
  oob p hp := (h'.oob p hp).trans (h.oob p hp)

theorem Keeps.mono {T : ℕ → Prop} {c : Tagged} (h : Keeps S c c') (hST : ∀ p, S p → T p) : Keeps T c c' where
  bbt := h.bbt
  page p hp := h.page p fun hS => hp (hST p hS)
  oob p hp := h.oob p fun hS => hp (hST p hS)

theorem erase_ok (h : Healthy e c) (page : ℕ) : ∃ c', c.erase g e page = (.ok, c') ∧ Healthy e c' ∧
    c'.nand.databuf = c.nand.databuf ∧ Keeps (fun p => p / g.ppb = page / g.ppb) c c' ∧ c'.oob page = 0xFF := by
  refine ⟨(c.erase g e page).2, ?_, h.of_log rfl, rfl, ⟨rfl, fun p hp => ?_, fun p hp => ?_⟩, ?_⟩
  · exact Prod.ext h.report rfl
  · exact if_neg fun hd => hp hd.2
  · exact if_neg hp
  · exact (if_pos rfl).trans (if_pos h.report)

theorem program_ok (h : Healthy e c) (page : ℕ) (data : List UInt8) : ∃ c', c.program e page data = (.ok, c') ∧
    Healthy e c' ∧ c'.nand.databuf = c.nand.databuf ∧ Keeps (· = page) c c' ∧ c'.nand.page 0 page = data ∧
    c'.oob page = bbtTag := by
  refine ⟨(c.program e page data).2, ?_, h.of_log rfl, rfl, ⟨rfl, fun p hp => ?_, fun p hp => ?_⟩, ?_, ?_⟩
  · exact Prod.ext h.report rfl
  · exact if_neg fun hd => hp hd.2
  · exact if_neg hp
  · exact (if_pos ⟨rfl, rfl⟩).trans (if_pos h.report)
  · exact (if_pos rfl).trans (if_pos h.report)

theorem read_ok (h : Healthy e c) (page : ℕ) : ∃ c', c.read e page = (.ok, c.nand.page 0 page, c.oob page, c') ∧
    Healthy e c' ∧ Keeps (fun _ => False) c c' := by
  refine ⟨{ c with nand := { c.nand with log := c.nand.log ++ [.read 0 page] } }, ?_, h.of_log rfl, rfl,
    fun _ _ => rfl, fun _ _ => rfl⟩
  unfold Tagged.read readEccPage
  simp [h.report]

/-- **The pages of a new table.** -/
theorem createPages_ok (temp : Mem) (page n k : ℕ) (h : Healthy e c) : ∃ c', createPages g e temp page n k c = (0, c') ∧
    Healthy e c' ∧ Keeps (fun p => page + k ≤ p ∧ p < page + k + n) c c' ∧
    ∀ j, k ≤ j → j < k + n → c'.nand.page 0 (page + j) = read temp (4 * (j * g.pageSize)) g.pageSize ∧
      c'.oob (page + j) = bbtTag := by
  induction n generalizing k c with
  | zero => exact ⟨c, rfl, h, ⟨rfl, fun _ _ => rfl, fun _ _ => rfl⟩, fun j hk hlt => absurd hlt (by omega)⟩
  | succ n ih =>
    obtain ⟨c₁, hc₁, h₁, -, hkeep₁, hpage₁, hoob₁⟩ :=
      program_ok h (page + k) (read temp (4 * (k * g.pageSize)) g.pageSize)
    obtain ⟨c₂, hc₂, h₂, hkeep₂, hpages₂⟩ := ih (k + 1) h₁
    refine ⟨c₂, ?_, h₂, (hkeep₁.mono fun p hp => ?_).trans (hkeep₂.mono fun p hp => ?_), fun j hk hlt => ?_⟩
    · unfold createPages
      rw [hc₁]
      exact hc₂
    · omega
    · omega
    · rcases Nat.eq_or_lt_of_le hk with rfl | hk
      · rw [hkeep₂.page _ (by omega), hkeep₂.oob _ (by omega)]
        exact ⟨hpage₁, hoob₁⟩
      · exact hpages₂ j hk (by omega)

/-- **The pages that are loaded.** -/
theorem loadPages_ok (base n k : ℕ) (temp : Mem) (h : Healthy e c)
    (hlen : ∀ j, k ≤ j → j < k + n → (c.nand.page 0 (base + j)).length = g.pageSize) :
    ∃ temp' c', loadPages g e base n k temp c = (some temp', c') ∧ Healthy e c' ∧ (∀ i, i < k * g.pageSize → temp' i = temp i) ∧
      ∀ j, k ≤ j → j < k + n → read temp' (j * g.pageSize) g.pageSize = c.nand.page 0 (base + j) := by
  induction n generalizing k temp c with
  | zero => exact ⟨temp, c, rfl, h, fun _ _ => rfl, fun j hk hlt => absurd hlt (by omega)⟩
  | succ n ih =>
    obtain ⟨c₁, hc₁, h₁, hkeep⟩ := read_ok h (base + k)
    have hpage : ∀ p, c₁.nand.page 0 p = c.nand.page 0 p := fun p => hkeep.page p id
    set data := c.nand.page 0 (base + k) with hdata
    have hk : data.length = g.pageSize := hlen k le_rfl (by omega)
    have htake : data.take g.pageSize = data := List.take_of_length_le hk.le
    obtain ⟨temp', c₂, hc₂, h₂, hbelow, hpages⟩ := ih (k + 1) (write temp (k * g.pageSize) (data.take g.pageSize))
      (c := { c₁ with nand := { c₁.nand with databuf := data } }) (h₁.of_log (List.append_nil _).symm)
      fun j hj hlt => (congrArg List.length (hpage _)).trans (hlen j (by omega) (by omega))
    rw [htake] at hbelow
    refine ⟨temp', c₂, ?_, h₂, fun i hi => ?_, fun j hj hlt => ?_⟩
    · unfold loadPages
      rw [hc₁]
      exact hc₂
    · rw [hbelow i (by rw [Nat.succ_mul]; omega), write_apply_lt hi]
    · rcases Nat.eq_or_lt_of_le hj with rfl | hj
      · rw [read_congr fun i hi hlt => hbelow i (by rw [Nat.succ_mul]; omega)]
        have hself := read_write_self temp (k * g.pageSize) data
        rw [hk] at hself
        exact hself
      · exact (hpages j hj (by omega)).trans (hpage _)

theorem loadCopy_ok (base : ℕ) (data : List UInt8) (h : Healthy e c) (hn : memPageNum g ≠ 0)
    (hlen : ∀ j, 1 ≤ j → j < memPageNum g → (c.nand.page 0 (base + j)).length = g.pageSize) :
    ∃ temp c', c.loadCopy g e base data = some (0, c') ∧ c'.nand.bbt = tableAt temp g.RBA ∧
      read temp 0 (data.take g.pageSize).length = data.take g.pageSize ∧
      ∀ j, 1 ≤ j → j < memPageNum g → read temp (j * g.pageSize) g.pageSize = c.nand.page 0 (base + j) := by
  have hsucc : 1 + (memPageNum g - 1) = memPageNum g := by omega
  obtain ⟨temp, c', hload, -, hbelow, hpages⟩ := loadPages_ok base (memPageNum g - 1) 1
    (write (memset e.heap 0 (memPageNum g * g.pageSize) 0xFF) 0 (data.take g.pageSize))
    (c := { c with nand := { c.nand with databuf := data } }) (h.of_log (List.append_nil _).symm)
    (by rwa [hsucc])
  rw [hsucc] at hpages
  refine ⟨temp, c'.setBbt (tableAt temp g.RBA), ?_, rfl, ?_, hpages⟩
  · unfold Tagged.loadCopy
    rw [if_neg hn]
    dsimp only
    rw [hload]
  · rw [read_congr fun i _ hi => hbelow i ?_]
    · exact read_write_self ..
    · rw [List.length_take] at hi
      omega

/-- The copy that a scan loads. -/
def Copy (g : Geometry) (c : Tagged) (base : ℕ) : Prop :=
  base = g.ppb ∧ c.oob g.ppb = bbtTag ∨ base = 2 * g.ppb ∧ c.oob g.ppb ≠ bbtTag ∧ c.oob (2 * g.ppb) = bbtTag

variable (isBad : ℕ → ℕ → Bool)

include isBad

theorem scan_eq (h : Healthy e c) (hcopy : Copy g c base) : ∃ c', Healthy e c' ∧
    Keeps (fun _ => False) c c' ∧ c.rtkNandScanBbt g e isBad = c'.loadCopy g e base (c.nand.page 0 base) := by
  obtain ⟨c₁, hread₁, h₁, hkeep₁⟩ := read_ok h g.ppb
  unfold Tagged.rtkNandScanBbt
  rw [if_neg (by rw [h.alloc]; decide), hread₁]
  dsimp only
  rcases hcopy with ⟨rfl, htag⟩ | ⟨rfl, hno, htag⟩
  · exact ⟨c₁, h₁, hkeep₁, if_pos htag⟩
  · obtain ⟨c₂, hread₂, h₂, hkeep₂⟩ := read_ok h₁ (2 * g.ppb)
    refine ⟨c₂, h₂, hkeep₁.trans hkeep₂, ?_⟩
    rw [if_neg hno, hread₂, hkeep₁.page _ id, hkeep₁.oob _ id]
    exact if_pos htag

/-- **What a scan loads.** -/
theorem scan_loads (h : Healthy e c) (hcopy : Copy g c base)
    (hn : memPageNum g ≠ 0)
    (hlen : ∀ j, 1 ≤ j → j < memPageNum g → (c.nand.page 0 (base + j)).length = g.pageSize) :
    ∃ temp c', c.rtkNandScanBbt g e isBad = some (0, c') ∧ c'.nand.bbt = tableAt temp g.RBA ∧
      read temp 0 ((c.nand.page 0 base).take g.pageSize).length = (c.nand.page 0 base).take g.pageSize ∧
      ∀ j, 1 ≤ j → j < memPageNum g → read temp (j * g.pageSize) g.pageSize = c.nand.page 0 (base + j) := by
  obtain ⟨c₁, h₁, hkeep, heq⟩ := scan_eq isBad h hcopy
  obtain ⟨temp, c', hload, hbbt, hfirst, hpages⟩ := loadCopy_ok base (c.nand.page 0 base) h₁ hn fun j hj hlt => by
    rw [hkeep.page _ id]
    exact hlen j hj hlt
  refine ⟨temp, c', heq.trans hload, hbbt, hfirst, fun j hj hlt => ?_⟩
  rw [hpages j hj hlt, hkeep.page _ id]

theorem scan_eq_none (h : Healthy e c) (hcopy : Copy g c base)
    (hn : memPageNum g = 0) : c.rtkNandScanBbt g e isBad = none := by
  obtain ⟨c₁, -, -, heq⟩ := scan_eq isBad h hcopy
  rw [heq]
  exact if_pos hn

omit isBad

def newTable (g : Geometry) (isBad : ℕ → ℕ → Bool) : List BBt :=
  if 1 < g.numchips then scanOtherDieBB g isBad (scanLastDieBB g isBad) else scanLastDieBB g isBad

/-- The block is erased before the table is copied to the buffer. -/
theorem create_eq (isBad : ℕ → ℕ → Bool) (h : Healthy e c) (hpage : page = g.ppb ∨ page = 2 * g.ppb) :
    ∃ c₁, Healthy e c₁ ∧ c₁.nand.bbt = newTable g isBad ∧ (∀ p, p / g.ppb ≠ page / g.ppb → c₁.oob p = c.oob p) ∧
      c₁.oob page = 0xFF ∧ c.rtkCreateBbt g e isBad page =
        if memPageNum g * g.pageSize < 8 * g.RBA then none
        else some (createPages g e (tempBBT g e (memPageNum g) (newTable g isBad)) page (memPageNum g) 0 c₁) := by
  have h₀ : Healthy e (c.setBbt (newTable g isBad)) := h.of_log (List.append_nil _).symm
  obtain ⟨c₁, herase, h₁, -, hkeep, hff⟩ := erase_ok (g := g) h₀ page
  refine ⟨c₁, h₁, hkeep.bbt, fun p hp => hkeep.oob p hp, hff, ?_⟩
  have hbbt : c₁.nand.bbt = newTable g isBad := hkeep.bbt
  unfold newTable at herase
  unfold Tagged.rtkCreateBbt
  rw [if_neg (by tauto), h.alloc, if_pos rfl]
  change (if e.faults.alloc c.nand.log.length 1 then _ else _) = _
  rw [h.alloc, if_pos rfl, herase]
  dsimp only
  rw [hbbt]

theorem create_ok (isBad : ℕ → ℕ → Bool) (h : Healthy e c) (hpage : page = g.ppb ∨ page = 2 * g.ppb)
    (hroom : 8 * g.RBA ≤ memPageNum g * g.pageSize) :
    ∃ c', c.rtkCreateBbt g e isBad page = some (0, c') ∧ Healthy e c' ∧ c'.nand.bbt = newTable g isBad ∧
      (∀ p, p < page → p / g.ppb ≠ page / g.ppb → c'.oob p = c.oob p) ∧
      ∀ j, j < memPageNum g → c'.nand.page 0 (page + j) =
        read (tempBBT g e (memPageNum g) (newTable g isBad)) (4 * (j * g.pageSize)) g.pageSize ∧
        c'.oob (page + j) = bbtTag := by
  obtain ⟨c₁, h₁, hbbt, hoob, -, heq⟩ := create_eq isBad h hpage
  obtain ⟨c₂, hpages, h₂, hkeep, hall⟩ :=
    createPages_ok (g := g) (tempBBT g e (memPageNum g) (newTable g isBad)) page (memPageNum g) 0 h₁
  refine ⟨c₂, ?_, h₂, hkeep.bbt.trans hbbt, fun p hp hblock => ?_, fun j hj => hall j (Nat.zero_le _) (by omega)⟩
  · rw [heq, if_neg (by omega), hpages]
  · rw [hkeep.oob p (by omega), hoob p hblock]

end Healthy

end NasFirmware.Nand
