import NasFirmware.Factory.Save

/-!
# Read errors of the loader

`factory_check_sanity_from_eMMC` reads the header of each half, then the two blocks with the copy behind the archive,
and last the archive of the half it takes. Only the first of the three reads is checked, and its error is kept for the
half after it.
-/

namespace NasFirmware.Factory

open ByteMem CString Tar

variable {cfg : Config}

/-! ## The loop -/

/-- The answers of `rtk_eMMC_read`: whether a header is read, and for the copy of the header and the archive what an
error leaves. -/
structure Reads where
  header : ℕ → Bool
  tail : ℕ → Option Mem
  archive : ℕ → Option Mem

/-- The variables of the loop: `ret`, `pp_ok`, `pp_seqnum`, `pp_tarsize`. -/
structure Scan where
  failed : Bool
  ppOk : ℕ → Bool
  ppSeqnum : ℕ → ℕ
  ppTarsize : ℕ → ℕ

def Scan.init : Scan := ⟨false, fun _ => false, fun _ => 0, fun _ => 0⟩

def startOk (cfg : Config) (flash : Mem) (pp : ℕ) : Bool :=
  let pStart := headerBlock cfg flash pp
  strcmpEq pStart 0 factoryHeader && tarCheckHeader pStart 0 && 256 ≤ ppTarsize cfg flash pp &&
    strcmpEq pStart 508 rtk && ppTarsize cfg flash pp < cfg.half - 512

/-- `buf_contain_a_header` after the second read. -/
def bufContainAHeader (cfg : Config) (r : Reads) (flash : Mem) (i : ℕ) : Mem :=
  match r.tail i with
  | none => ofList (read flash (cfg.base i + ppTarsize cfg flash i / 512 * 512) (512 * 2))
  | some m => m

def endOk (cfg : Config) (r : Reads) (flash : Mem) (i : ℕ) : Bool :=
  read (bufContainAHeader cfg r flash i) (ppTarsize cfg flash i % 512) 512 == read flash (cfg.base i) 512

def sanityPass (cfg : Config) (r : Reads) (flash : Mem) (s : Scan) (i : ℕ) : Scan :=
  -- `ret` is not reset
  let failed := s.failed || !r.header i
  if !failed && startOk cfg flash i then
    { failed := failed
      ppOk := Function.update s.ppOk i (s.ppOk i || endOk cfg r flash i)
      ppSeqnum := Function.update s.ppSeqnum i (ppSeqnum cfg flash i)
      ppTarsize := Function.update s.ppTarsize i (ppTarsize cfg flash i) }
  else { s with failed := failed }

def scan (cfg : Config) (r : Reads) (flash : Mem) : Scan := (List.range 2).foldl (sanityPass cfg r flash) Scan.init

def Scan.select (s : Scan) : Option ℕ :=
  match s.ppOk 0, s.ppOk 1 with
  | true, false => some 0
  | false, true => some 1
  | true, true =>
    if s.ppSeqnum 0 < s.ppSeqnum 1 then
      if 0xFFFFFFF0 < s.ppSeqnum 1 - s.ppSeqnum 0 then some 0 else some 1
    else some 0
  | false, false => none

/-- `factory_check_sanity_from_eMMC`, with the result as the size of the archive. -/
def factoryCheckSanityFromEMMC (cfg : Config) (r : Reads) (f : Store) (flash : Mem) : Store :=
  let buffer := memset f.mem 0 cfg.half 0
  let s := scan cfg r flash
  match s.select with
  | none => { f with mem := buildRoot buffer f.seqNum, tarsize := 512 }
  | some pp =>
    { f with
      mem := (r.archive pp).getD (write buffer 0 (read flash (cfg.base pp) (blocks (s.ppTarsize pp))))
      tarsize := s.ppTarsize pp
      currentPp := pp
      seqNum := s.ppSeqnum pp }

section Scan

variable {r : Reads} {flash : Mem} {s : Scan} {i j : ℕ}

theorem sanityPass_failed : (sanityPass cfg r flash s i).failed = (s.failed || !r.header i) := by
  simp only [sanityPass]
  split_ifs <;> rfl

theorem sanityPass_of_ne (h : j ≠ i) : (sanityPass cfg r flash s i).ppOk j = s.ppOk j ∧
    (sanityPass cfg r flash s i).ppSeqnum j = s.ppSeqnum j ∧
    (sanityPass cfg r flash s i).ppTarsize j = s.ppTarsize j := by
  simp only [sanityPass]
  split_ifs <;> simp [Function.update_of_ne h]

theorem sanityPass_self (h : s.ppOk i = false) :
    (sanityPass cfg r flash s i).ppOk i =
      (!(s.failed || !r.header i) && startOk cfg flash i && endOk cfg r flash i) ∧
    ((sanityPass cfg r flash s i).ppOk i = true →
      (sanityPass cfg r flash s i).ppSeqnum i = ppSeqnum cfg flash i ∧
      (sanityPass cfg r flash s i).ppTarsize i = ppTarsize cfg flash i) := by
  simp only [sanityPass]
  split_ifs with hc
  · rw [hc]
    simp [h]
  · rw [Bool.not_eq_true] at hc
    rw [hc]
    simp [h]

theorem scan_zero : (scan cfg r flash).ppOk 0 = (r.header 0 && startOk cfg flash 0 && endOk cfg r flash 0) ∧
    ((scan cfg r flash).ppOk 0 = true → (scan cfg r flash).ppSeqnum 0 = ppSeqnum cfg flash 0 ∧
      (scan cfg r flash).ppTarsize 0 = ppTarsize cfg flash 0) := by
  obtain ⟨hok, hseq, hsize⟩ := @sanityPass_of_ne cfg r flash (sanityPass cfg r flash Scan.init 0) 1 0 Nat.zero_ne_one
  have hself := @sanityPass_self cfg r flash Scan.init 0 rfl
  rw [Scan.init, Bool.false_or, Bool.not_not] at hself
  change (sanityPass cfg r flash (sanityPass cfg r flash Scan.init 0) 1).ppOk 0 = _ ∧
    ((sanityPass cfg r flash (sanityPass cfg r flash Scan.init 0) 1).ppOk 0 = true → _ = _ ∧ _ = _)
  rw [hok]
  exact ⟨hself.1, fun h => ⟨hseq.trans (hself.2 h).1, hsize.trans (hself.2 h).2⟩⟩

theorem scan_one : (scan cfg r flash).ppOk 1 =
      (r.header 0 && r.header 1 && startOk cfg flash 1 && endOk cfg r flash 1) ∧
    ((scan cfg r flash).ppOk 1 = true → (scan cfg r flash).ppSeqnum 1 = ppSeqnum cfg flash 1 ∧
      (scan cfg r flash).ppTarsize 1 = ppTarsize cfg flash 1) := by
  have hfalse : (sanityPass cfg r flash Scan.init 0).ppOk 1 = false := (sanityPass_of_ne Nat.one_ne_zero).1
  have hself := @sanityPass_self cfg r flash _ 1 hfalse
  refine ⟨hself.1.trans ?_, hself.2⟩
  rw [sanityPass_failed, Scan.init, Bool.false_or, Bool.not_or, Bool.not_not, Bool.not_not]

theorem scan_ppOk (hi : i < 2) : (scan cfg r flash).ppOk i =
      ((List.range (i + 1)).all r.header && startOk cfg flash i && endOk cfg r flash i) ∧
    ((scan cfg r flash).ppOk i = true → (scan cfg r flash).ppSeqnum i = ppSeqnum cfg flash i ∧
      (scan cfg r flash).ppTarsize i = ppTarsize cfg flash i) := by
  rcases Nat.lt_succ_iff_lt_or_eq.mp hi with h | rfl
  · rw [Nat.lt_one_iff.mp h]
    simpa using @scan_zero cfg r flash
  · simpa [List.range_succ] using @scan_one cfg r flash

end Scan

/-! ## Without other errors -/

theorem endOk_of_read {r : Reads} {flash : Mem} {i : ℕ} (h : r.tail i = none) :
    endOk cfg r flash i =
      (read flash (cfg.base i + ppTarsize cfg flash i) 512 == read flash (cfg.base i) 512) := by
  have hpart := read_slice (read_ofList_read flash (cfg.base i + ppTarsize cfg flash i / 512 * 512) (512 * 2))
    (show ppTarsize cfg flash i % 512 + 512 ≤ 512 * 2 by omega)
  rw [Nat.zero_add, Nat.add_assoc, Nat.div_add_mod'] at hpart
  rw [endOk, bufContainAHeader, h]
  dsimp only
  rw [hpart]

theorem halfOk_eq (readOk : ℕ → Bool) (flash : Mem) (pp : ℕ) : halfOk cfg readOk flash pp =
    ((List.range (pp + 1)).all readOk && startOk cfg flash pp &&
      (read flash (cfg.base pp + ppTarsize cfg flash pp) 512 == read flash (cfg.base pp) 512)) := by
  simp [halfOk, startOk, Bool.and_assoc]

theorem scan_ppOk_of_read {r : Reads} {flash : Mem} {i : ℕ} (hi : i < 2) (h : r.tail i = none) :
    (scan cfg r flash).ppOk i = halfOk cfg r.header flash i := by
  rw [(scan_ppOk hi).1, endOk_of_read h, halfOk_eq]

theorem Scan.select_some {s : Scan} {pp : ℕ} (h : s.select = some pp) : pp < 2 ∧ s.ppOk pp = true := by
  unfold Scan.select at h
  cases hc0 : s.ppOk 0 <;> cases hc1 : s.ppOk 1 <;> rw [hc0, hc1] at h
  · cases h
  · cases h
    exact ⟨by decide, hc1⟩
  · cases h
    exact ⟨by decide, hc0⟩
  · split_ifs at h <;> cases h
    · exact ⟨by decide, hc0⟩
    · exact ⟨by decide, hc1⟩
    · exact ⟨by decide, hc0⟩

/-- Half `n` is newer: it is taken if it is accepted, and else the other one. -/
theorem Scan.select_iff {s : Scan} {i n : ℕ} (hi : i < 2) (hn : n < 2)
    (hnewer : s.ppOk 0 = true → s.ppOk 1 = true →
      (n = 1 ↔ s.ppSeqnum 0 < s.ppSeqnum 1 ∧ s.ppSeqnum 1 - s.ppSeqnum 0 ≤ 0xFFFFFFF0)) :
    s.select = some i ↔ s.ppOk i = true ∧ (i = n ∨ ¬ s.ppOk n = true) := by
  have hi' : i = 0 ∨ i = 1 := by omega
  have hn' : n = 0 ∨ n = 1 := by omega
  unfold Scan.select
  cases hc0 : s.ppOk 0 <;> cases hc1 : s.ppOk 1
  · rcases hi' with rfl | rfl <;> simp [hc0, hc1]
  · rcases hi' with rfl | rfl <;> rcases hn' with rfl | rfl <;> simp [hc0, hc1]
  · rcases hi' with rfl | rfl <;> rcases hn' with rfl | rfl <;> simp [hc0, hc1]
  · have hnum := hnewer hc0 hc1
    have hok : s.ppOk i = true ∧ s.ppOk n = true := by
      rcases hi' with rfl | rfl <;> rcases hn' with rfl | rfl <;> exact ⟨by assumption, by assumption⟩
    simp only [hok.1, hok.2, not_true_eq_false, or_false, true_and]
    split_ifs <;> rw [Option.some_inj] <;> omega

theorem scan_select_eq {r : Reads} {flash : Mem} (htail : ∀ i, r.tail i = none) :
    (scan cfg r flash).select = selectPp cfg r.header flash := by
  have h0 := @scan_ppOk_of_read cfg r flash 0 Nat.zero_lt_two (htail 0)
  have h1 := @scan_ppOk_of_read cfg r flash 1 Nat.one_lt_two (htail 1)
  unfold Scan.select selectPp
  rw [← h0, ← h1]
  cases hc0 : (scan cfg r flash).ppOk 0 <;> cases hc1 : (scan cfg r flash).ppOk 1
  · rfl
  · rfl
  · rfl
  · rw [((scan_ppOk Nat.zero_lt_two).2 hc0).1, ((scan_ppOk Nat.one_lt_two).2 hc1).1]

def loaded (cfg : Config) (f : Store) (flash : Mem) (pp : ℕ) : Store :=
  { f with
    mem := write (memset f.mem 0 cfg.half 0) 0 (read flash (cfg.base pp) (blocks (ppTarsize cfg flash pp)))
    tarsize := ppTarsize cfg flash pp
    currentPp := pp
    seqNum := ppSeqnum cfg flash pp }

theorem factoryCheckSanity_of_some {r : Reads} {f : Store} {flash : Mem} {pp : ℕ}
    (h : (scan cfg r flash).select = some pp) : factoryCheckSanityFromEMMC cfg r f flash =
      { loaded cfg f flash pp with mem := (r.archive pp).getD (loaded cfg f flash pp).mem } := by
  obtain ⟨hlt, hok⟩ := Scan.select_some h
  obtain ⟨hseq, hsize⟩ := (scan_ppOk hlt).2 hok
  simp [factoryCheckSanityFromEMMC, h, hseq, hsize, loaded]

/-! ## Valid halves -/

structure Valid (cfg : Config) (r : Reads) (flash : Mem) (i : ℕ) : Prop where
  header : r.header i = true
  start : startOk cfg flash i = true
  tail : r.tail i = none
  copy : read flash (cfg.base i + ppTarsize cfg flash i) 512 = read flash (cfg.base i) 512
  archive : r.archive i = none

def Looks (cfg : Config) (r : Reads) (flash : Mem) (i : ℕ) : Prop :=
  r.header i = true ∧ startOk cfg flash i = true ∧ endOk cfg r flash i = true

/-- The half that is taken to be newer, by the numbers. -/
def newerHalf (cfg : Config) (flash : Mem) : ℕ :=
  if ppSeqnum cfg flash 0 < ppSeqnum cfg flash 1 ∧
      ppSeqnum cfg flash 1 - ppSeqnum cfg flash 0 ≤ 0xFFFFFFF0 then 1 else 0

section Valid

variable {r : Reads} {flash : Mem} {i : ℕ}

theorem Valid.looks (h : Valid cfg r flash i) : Looks cfg r flash i := by
  refine ⟨h.header, h.start, ?_⟩
  rw [endOk_of_read h.tail, h.copy, beq_self_eq_true]

theorem Looks.valid (h : Looks cfg r flash i) (htail : r.tail i = none) (harchive : r.archive i = none) :
    Valid cfg r flash i := by
  obtain ⟨hheader, hstart, hend⟩ := h
  rw [endOk_of_read htail, beq_iff_eq] at hend
  exact ⟨hheader, hstart, htail, hend, harchive⟩

theorem newerHalf_lt : newerHalf cfg flash < 2 := by
  unfold newerHalf
  split_ifs <;> decide

theorem scan_ppOk_iff (hi : i < 2) :
    (scan cfg r flash).ppOk i = true ↔ r.header 0 = true ∧ Looks cfg r flash i := by
  rw [(scan_ppOk hi).1, Looks]
  rcases Nat.lt_succ_iff_lt_or_eq.mp hi with h | rfl
  · rw [Nat.lt_one_iff.mp h]
    simp [and_assoc]
  · simp [List.range_succ, and_assoc]

/-- The newer half is taken if the loop accepts it, and else the other one. -/
theorem scan_select (hi : i < 2) : (scan cfg r flash).select = some i ↔ r.header 0 = true ∧ Looks cfg r flash i ∧
    (i = newerHalf cfg flash ∨ ¬ Looks cfg r flash (newerHalf cfg flash)) := by
  have hnewer : (scan cfg r flash).ppOk 0 = true → (scan cfg r flash).ppOk 1 = true → (newerHalf cfg flash = 1 ↔
      (scan cfg r flash).ppSeqnum 0 < (scan cfg r flash).ppSeqnum 1 ∧
        (scan cfg r flash).ppSeqnum 1 - (scan cfg r flash).ppSeqnum 0 ≤ 0xFFFFFFF0) := by
    intro h0 h1
    rw [((scan_ppOk Nat.zero_lt_two).2 h0).1, ((scan_ppOk Nat.one_lt_two).2 h1).1]
    exact ite_eq_left_iff.trans (by simp)
  rw [Scan.select_iff hi newerHalf_lt hnewer, scan_ppOk_iff hi, scan_ppOk_iff newerHalf_lt]
  tauto

/-- **A valid half is loaded**, if there is one: exactly if the header of half 0 can be read, and the preferred half
is valid if it looks so. -/
theorem valid_half_loaded (cfg : Config) (r : Reads) (flash : Mem) (f : Store) (h : ∃ i < 2, Valid cfg r flash i) :
    (∃ i < 2, Valid cfg r flash i ∧ (scan cfg r flash).select = some i ∧
      factoryCheckSanityFromEMMC cfg r f flash = loaded cfg f flash i) ↔
    r.header 0 = true ∧
      (Looks cfg r flash (newerHalf cfg flash) → Valid cfg r flash (newerHalf cfg flash)) := by
  constructor
  · rintro ⟨i, hi, hv, hsel, -⟩
    obtain ⟨hr, -, rfl | hn⟩ := (scan_select hi).mp hsel
    · exact ⟨hr, fun _ => hv⟩
    · exact ⟨hr, fun hl => absurd hl hn⟩
  · rintro ⟨hr, hnewer⟩
    have hload : ∀ i < 2, Valid cfg r flash i → (i = newerHalf cfg flash ∨ ¬ Looks cfg r flash (newerHalf cfg flash)) →
        (scan cfg r flash).select = some i ∧ factoryCheckSanityFromEMMC cfg r f flash = loaded cfg f flash i := by
      intro i hi hv hc
      have hsel := (scan_select hi).mpr ⟨hr, hv.looks, hc⟩
      refine ⟨hsel, ?_⟩
      rw [factoryCheckSanity_of_some hsel, hv.archive]
      rfl
    by_cases hl : Looks cfg r flash (newerHalf cfg flash)
    · exact ⟨_, newerHalf_lt, hnewer hl, hload _ newerHalf_lt (hnewer hl) (Or.inl rfl)⟩
    · obtain ⟨i, hi, hv⟩ := h
      exact ⟨i, hi, hv, hload i hi hv (Or.inr hl)⟩

end Valid

def headerReads (header : ℕ → Bool) : Reads := ⟨header, fun _ => none, fun _ => none⟩

theorem firstSave_valid : ∃ flash, ∀ header : ℕ → Bool, header 1 = true →
    Valid nasConfig (headerReads header) flash 1 := by
  obtain ⟨f, -, hn, hsize, hpp, -⟩ := freshStore_write nasConfig [65] (by decide)
  have htar : f.tarsize = 1536 := hsize
  have hhalf : nasConfig.half = 0x200000 := rfl
  have hnext : f.nextPp = 1 := by
    rw [Store.nextPp, hpp]
  have hsaved := @savedAt_flashSaved nasConfig blank f (f.tarsize + 512) le_rfl
  rw [hnext] at hsaved
  have hok := (halfOk_of_savedAt hsaved (by omega) (by omega)).mpr ⟨hn, by omega⟩
  rw [halfOk_eq, Bool.and_eq_true, Bool.and_eq_true, beq_iff_eq] at hok
  exact ⟨_, fun header hh => ⟨hh, hok.1.2, rfl, hok.2, rfl⟩⟩

theorem firstSave_loaded : ∃ flash, ∀ f, ∃ i < 2, Valid nasConfig (headerReads allRead) flash i ∧
    (scan nasConfig (headerReads allRead) flash).select = some i ∧
    factoryCheckSanityFromEMMC nasConfig (headerReads allRead) f flash = loaded nasConfig f flash i := by
  obtain ⟨flash, h⟩ := firstSave_valid
  exact ⟨flash, fun f => (valid_half_loaded nasConfig (headerReads allRead) flash f ⟨1, Nat.one_lt_two, h _ rfl⟩).mpr
    ⟨rfl, fun hl => hl.valid rfl rfl⟩⟩

/-- If the header of half 0 cannot be read, half 1 is not looked at, and the state is that of an empty eMMC. -/
theorem firstSave_hidden : ∃ flash, Valid nasConfig (headerReads (· != 0)) flash 1 ∧
    (scan nasConfig (headerReads (· != 0)) flash).select = none ∧
    ∀ f, factoryCheckSanityFromEMMC nasConfig (headerReads (· != 0)) f flash =
      { f with mem := buildRoot (memset f.mem 0 nasConfig.half 0) f.seqNum, tarsize := 512 } := by
  obtain ⟨flash, h⟩ := firstSave_valid
  have hnone : (scan nasConfig (headerReads (· != 0)) flash).select = none := by
    rw [Option.eq_none_iff_forall_ne_some]
    intro i hi
    have hr := ((scan_select (Scan.select_some hi).1).mp hi).1
    cases hr
  refine ⟨flash, h _ rfl, hnone, fun f => ?_⟩
  simp [factoryCheckSanityFromEMMC, hnone]

/-- **If only headers fail to be read**, the loop over the halves with its flags loads what `factory_init` loads. -/
theorem factoryCheckSanity_eq_factoryInit (cfg : Config) (header : ℕ → Bool) (f : Store) (flash : Mem) :
    factoryCheckSanityFromEMMC cfg (headerReads header) f flash = factoryInit cfg header f flash := by
  have heq : (scan cfg (headerReads header) flash).select = selectPp cfg header flash := scan_select_eq fun _ => rfl
  cases hsel : (scan cfg (headerReads header) flash).select with
  | none => simp [factoryCheckSanityFromEMMC, factoryInit, ← heq, hsel]
  | some pp =>
    rw [factoryCheckSanity_of_some hsel, factoryInit, ← heq, hsel]
    rfl

end NasFirmware.Factory
