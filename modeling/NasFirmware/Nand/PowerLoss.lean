import NasFirmware.Nand.Persist

/-!
# Losing power while the table is updated

Power may fail between any two steps of an update. The chip keeps its pages and spare bytes, and the next boot scans
for a table.

* `Flash.table`, **`scan_table`**: the table in a copy, and that a scan loads it;
* **`survives_iff`**: an update can be cut off at any step exactly when block 2 holds the old or the new table and
  no half table is read.
-/

namespace NasFirmware.Nand

open ByteMem

variable {g : Geometry} {e : Env} {base : ℕ}

section Tables

variable {c : Tagged} {fl : Flash} {s : Nand}

def Flash.Whole (fl : Flash) : Prop := ∀ p, (fl.page p).length = g.pageSize

theorem run_whole {steps : List Step} (h : fl.Whole (g := g))
    (hsteps : ∀ page data, .program page data ∈ steps → data.length = g.pageSize) :
    (fl.run g steps).Whole (g := g) := by
  induction steps generalizing fl with
  | nil => exact h
  | cons st steps ih =>
    refine ih (fun p => ?_) fun page data hmem => hsteps page data (List.mem_cons_of_mem _ hmem)
    cases st with
    | erase page =>
      change (if _ then _ else _ : List UInt8).length = _
      split_ifs
      · exact List.length_replicate
      · exact h p
    | program page data =>
      change (Function.update fl.page page data p).length = _
      rw [Function.update_apply]
      split_ifs
      · exact hsteps page data List.mem_cons_self
      · exact h p

theorem updateSteps_whole (hle : 8 * g.RBA ≤ 2 * g.pageSize) (hlen : s.bbt.length = g.RBA)
    (hbuf : s.databuf.length = g.pageSize) :
    ∀ page data, .program page data ∈ updateSteps g s → data.length = g.pageSize := by
  have hsize : (paddedBytes g s.bbt).length = g.pageSize + g.pageSize := length_paddedBytes (hlen.symm ▸ hle)
  have hbytes := length_tableBytes s.bbt
  have hfirst : (firstPage g s).length = g.pageSize := by
    unfold firstPage
    split_ifs with hlarge
    · rw [List.length_take, hsize]
      omega
    · have hsmall : ¬ g.pageSize < 8 * g.RBA := fun h => hlarge (decide_eq_true h)
      rw [List.length_append, List.length_drop]
      omega
  have hsecond : (secondPage g s).length = g.pageSize := by
    unfold secondPage
    rw [List.length_drop, hsize]
    omega
  intro page data hmem
  unfold updateSteps copyWrites at hmem
  split_ifs at hmem <;>
    simp only [List.cons_append, List.nil_append, List.mem_cons, reduceCtorEq, Step.program.injEq, List.not_mem_nil,
      or_false, false_or] at hmem
  · obtain ⟨-, rfl⟩ | ⟨-, rfl⟩ | ⟨-, rfl⟩ | ⟨-, rfl⟩ := hmem <;> assumption
  · obtain ⟨-, rfl⟩ | ⟨-, rfl⟩ := hmem <;> assumption

/-! ## Tables on the chip -/

variable (g) in
def Flash.bytes (fl : Flash) (base : ℕ) : Mem := fun i => (fl.page (base + i / g.pageSize)).getD (i % g.pageSize) 0

variable (g) in
def Flash.table (fl : Flash) (base : ℕ) : List BBt := tableAt (fl.bytes g base) g.RBA

theorem read_bytes (h : fl.Whole (g := g)) (base j : ℕ) :
    read (fl.bytes g base) (j * g.pageSize) g.pageSize = fl.page (base + j) := by
  refine List.ext_getElem? fun i => ?_
  by_cases hi : i < g.pageSize
  · have hdiv : (j * g.pageSize + i) / g.pageSize = j := by
      rw [Nat.mul_comm, Nat.mul_add_div g.pageSize_pos, Nat.div_eq_of_lt hi, Nat.add_zero]
    have hmod : (j * g.pageSize + i) % g.pageSize = i := by
      rw [Nat.mul_comm, Nat.mul_add_mod, Nat.mod_eq_of_lt hi]
    have hlt : i < (fl.page (base + j)).length := (h _).symm ▸ hi
    rw [getElem?_read _ _ _ _ hi, Flash.bytes, hdiv, hmod, List.getElem?_eq_getElem hlt,
      List.getD_eq_getElem?_getD, List.getElem?_eq_getElem hlt]
    rfl
  · rw [List.getElem?_eq_none (by rw [length_read]; omega), List.getElem?_eq_none (by rw [h]; omega)]

theorem tableAt_congr {m m' : Mem} {n : ℕ} (h : ∀ i, i < 8 * n → m' i = m i) : tableAt m' n = tableAt m n := by
  refine List.map_congr_left fun i hi => ?_
  have hi := List.mem_range.mp hi
  unfold entryAt
  rw [load16_congr fun k _ _ => h k (by omega), load16_congr fun k _ _ => h k (by omega),
    load16_congr fun k _ _ => h k (by omega), load16_congr fun k _ _ => h k (by omega)]

theorem div_lt_tablePages {i : ℕ} (hi : i < 8 * g.RBA) : i / g.pageSize < tablePages g := by
  refine Nat.div_lt_of_lt_mul (lt_of_lt_of_le hi ?_)
  rw [Nat.mul_comm g.pageSize]
  exact le_tablePages_mul g

theorem table_congr {fl' : Flash} {base' : ℕ}
    (h : ∀ j, j < tablePages g → fl'.page (base' + j) = fl.page (base + j)) : fl'.table g base' = fl.table g base := by
  refine tableAt_congr fun i hi => ?_
  unfold Flash.bytes
  rw [h _ (div_lt_tablePages hi)]

theorem table_of_pages (hle : 8 * g.RBA ≤ 2 * g.pageSize)
    (hlen : s.bbt.length = g.RBA) (hfits : ∀ b ∈ s.bbt, b.Fits) (hwhole : fl.Whole (g := g))
    (hfirst : fl.page base = firstPage g s) (hsecond : g.large = true → fl.page (base + 1) = secondPage g s) :
    fl.table g base = s.bbt := by
  have hread : ∀ j, read (fl.bytes g base) (j * g.pageSize) g.pageSize = fl.page (base + j) := read_bytes hwhole base
  unfold Flash.table
  rw [← hlen]
  refine tableAt_of_read hfits (read_table_of_pages hle hlen ?_ fun hlarge => ?_)
  · have h₀ := hread 0
    rw [← hfirst, List.take_of_length_le (hwhole base).le, hwhole base]
    rwa [Nat.zero_mul] at h₀
  · have h₁ := hread 1
    rw [hsecond hlarge, Nat.one_mul] at h₁
    exact h₁

/-- **A scan loads the table of its copy.** -/
theorem scan_table (isBad : ℕ → ℕ → Bool) (h : Healthy e c) (hcopy : Copy g c base) (hpos : 0 < g.RBA)
    (hpages : tablePages g < 256) (hwhole : c.flash.Whole (g := g)) :
    ∃ c', c.rtkNandScanBbt g e isBad = some (0, c') ∧ c'.nand.bbt = c.flash.table g base := by
  have hmem := memPageNum_eq hpages
  have htable := tablePages_pos.mpr hpos
  obtain ⟨temp, c', hscan, hbbt, hfirst, hrest⟩ := scan_loads (g := g) isBad h hcopy (by omega) fun j _ _ => hwhole _
  refine ⟨c', hscan, hbbt.trans (tableAt_congr fun i hi => ?_)⟩
  have hps := g.pageSize_pos
  have hj : i / g.pageSize < memPageNum g := hmem ▸ div_lt_tablePages hi
  have hread : read temp (i / g.pageSize * g.pageSize) g.pageSize = c.nand.page 0 (base + i / g.pageSize) := by
    rcases Nat.eq_zero_or_pos (i / g.pageSize) with hz | hp
    · rw [hz, Nat.zero_mul]
      have hlen : (c.nand.page 0 base).length = g.pageSize := hwhole base
      rw [List.take_of_length_le hlen.le, hlen] at hfirst
      exact hfirst
    · exact hrest _ hp hj
  refine eq_of_read_eq (hread.trans (read_bytes hwhole base _).symm) (Nat.div_mul_le_self ..) ?_
  exact Nat.lt_div_mul_add hps

/-! ## Cutting the update off -/

variable (g) in
/-- The first page of a table, and an erased one. -/
def halfCopy (s : Nand) : Flash :=
  ⟨fun p => if p = 0 then firstPage g s else List.replicate g.pageSize 0xFF, fun _ => bbtTag⟩

variable (g) in
/-- What is loaded from a copy whose second page is not written yet. -/
def halfTable (s : Nand) : List BBt := (halfCopy g s).table g 0

variable (g e c) in
/-- The next scan finds a copy, and loads this table from it. -/
def Loads (isBad : ℕ → ℕ → Bool) (t : List BBt) : Prop :=
  ∃ base c', Copy g c base ∧ c.rtkNandScanBbt g e isBad = some (0, c') ∧ c'.nand.bbt = t

variable (g e c) in
/-- If power fails after any step of `rtk_update_bbt`, the next boot finds a complete table: the old one or the new
one. -/
def SurvivesPowerLoss (old : List BBt) : Prop :=
  (∃ c', c.rtkUpdateBbt g e = some (true, c') ∧ c'.flash = c.flash.run g (updateSteps g c.nand) ∧
    c'.nand.log = c.nand.log ++ (updateSteps g c.nand).map Step.op) ∧
  ∀ (k : ℕ) (e' : Env) (isBad : ℕ → ℕ → Bool) (boot : Tagged), Healthy e' boot →
    boot.flash = c.flash.run g ((updateSteps g c.nand).take k) →
    Loads g e' boot isBad old ∨ Loads g e' boot isBad c.nand.bbt

variable (g c) in
/-- The table fits in its buffers, block 2 has the old table or the new one, and no half table does harm. -/
structure Recoverable (old : List BBt) : Prop where
  pos : 0 < g.RBA
  room : 8 * g.RBA ≤ 2 * g.pageSize
  tag : c.oob (2 * g.ppb) = bbtTag
  second : c.flash.table g (2 * g.ppb) = old ∨ c.flash.table g (2 * g.ppb) = c.nand.bbt
  half : g.large = true → halfTable g c.nand = old ∨ halfTable g c.nand = c.nand.bbt

theorem loads_iff (isBad : ℕ → ℕ → Bool) (h : Healthy e c) (hcopy : Copy g c base) (hpos : 0 < g.RBA)
    (hpages : tablePages g < 256) (hwhole : c.flash.Whole (g := g)) (t : List BBt) :
    Loads g e c isBad t ↔ c.flash.table g base = t := by
  obtain ⟨c', hscan, hbbt⟩ := scan_table isBad h hcopy hpos hpages hwhole
  refine ⟨fun ⟨base', c'', _, hscan', ht⟩ => ?_, fun ht => ⟨base, c', hcopy, hscan, hbbt.trans ht⟩⟩
  cases hscan.symm.trans hscan'
  exact hbbt.symm.trans ht

/-- A chip after some steps, in a driver that has done nothing with it yet. -/
def Tagged.powerOn (c : Tagged) (fl : Flash) : Tagged := ⟨{ c.nand with page := fun _ => fl.page }, fl.oob⟩

theorem Healthy.powerOn (h : Healthy e c) (fl : Flash) : Healthy e (c.powerOn fl) := h

theorem half_table_eq (hpages : tablePages g ≤ 2) (hfirst : fl.page g.ppb = firstPage g s)
    (hsecond : fl.page (g.ppb + 1) = List.replicate g.pageSize 0xFF) : fl.table g g.ppb = halfTable g s := by
  refine table_congr fun j hj => ?_
  obtain rfl | rfl : j = 0 ∨ j = 1 := by omega
  · exact hfirst
  · exact hsecond

end Tables

section Main

variable {g : Geometry} {e : Env} {c : Tagged} {base : ℕ}

/-- **Which table is loaded when.** The old one; with block 1 erased, that of block 2; with one page of two written,
half a table; then the new one. -/
theorem cut_loads (hpos : 0 < g.RBA) (hle : 8 * g.RBA ≤ 2 * g.pageSize) (hlen : c.nand.bbt.length = g.RBA)
    (hfits : ∀ b ∈ c.nand.bbt, b.Fits) (hbuf : c.nand.databuf.length = g.pageSize) (hwhole : c.flash.Whole (g := g))
    (hcopy : Copy g c base) (k : ℕ) (isBad : ℕ → ℕ → Bool) {boot : Tagged} (h : Healthy e boot)
    (hflash : boot.flash = c.flash.run g ((updateSteps g c.nand).take k)) (t : List BBt) :
    Loads g e boot isBad t ↔
      if k = 0 then c.flash.table g base = t
      else if k = 1 then c.oob (2 * g.ppb) = bbtTag ∧ c.flash.table g (2 * g.ppb) = t
      else if k = 2 ∧ g.large = true then halfTable g c.nand = t
      else c.nand.bbt = t := by
  have hpages := tablePages_le_iff.mpr hle
  have hboot : boot.flash.Whole (g := g) := by
    rw [hflash]
    exact run_whole hwhole fun page data hmem =>
      updateSteps_whole hle hlen hbuf page data (List.mem_of_mem_take hmem)
  have hoob : ∀ p, boot.oob p = (c.flash.run g ((updateSteps g c.nand).take k)).oob p :=
    fun p => congrArg (Flash.oob · p) hflash
  match k with
  | 0 =>
    have hcopy' : Copy g boot base := by
      unfold Copy at hcopy ⊢
      rwa [hoob, hoob]
    rw [loads_iff isBad h hcopy' hpos (by omega) hboot, hflash]
    rfl
  | 1 =>
    obtain ⟨herased, hkeep⟩ := run_erased (g := g) c.flash c.nand
    have hno : boot.oob g.ppb ≠ bbtTag := by
      rw [hoob, herased]
      decide
    have htag : boot.oob (2 * g.ppb) = c.oob (2 * g.ppb) := (hoob _).trans (hkeep _ le_rfl).2
    have htable : boot.flash.table g (2 * g.ppb) = c.flash.table g (2 * g.ppb) := by
      rw [hflash]
      exact table_congr fun j _ => (hkeep _ (Nat.le_add_right ..)).1
    rw [if_neg Nat.one_ne_zero, if_pos rfl, ← htag, ← htable]
    constructor
    · intro hloads
      obtain ⟨base', -, hcopy', -⟩ := id hloads
      rcases id hcopy' with ⟨-, hyes⟩ | ⟨rfl, -, hyes⟩
      · exact absurd hyes hno
      · exact ⟨hyes, (loads_iff isBad h hcopy' hpos (by omega) hboot t).mp hloads⟩
    · rintro ⟨hyes, ht⟩
      exact (loads_iff isBad h (.inr ⟨rfl, hno, hyes⟩) hpos (by omega) hboot t).mpr ht
  | k + 2 =>
    obtain ⟨hfirst, htag, hsecond⟩ := run_written (g := g) c.flash c.nand k
    rw [loads_iff isBad h (.inl ⟨rfl, (hoob _).trans htag⟩) hpos (by omega) hboot, if_neg (by omega),
      if_neg (by omega)]
    rw [← hflash] at hfirst hsecond
    split_ifs with hhalf
    · obtain ⟨hk, hlarge⟩ := hhalf
      rw [half_table_eq hpages hfirst ((hsecond hlarge).trans (if_pos (by omega)))]
    · rw [table_of_pages hle hlen hfits hboot hfirst fun hlarge =>
        (hsecond hlarge).trans (if_neg fun hk => hhalf ⟨by omega, hlarge⟩)]

/-- **When an update can be cut off anywhere.** -/
theorem survives_iff (h : Healthy e c) (hlen : c.nand.bbt.length = g.RBA) (hfits : ∀ b ∈ c.nand.bbt, b.Fits)
    (hbuf : c.nand.databuf.length = g.pageSize) (hwhole : c.flash.Whole (g := g)) (hcopy : Copy g c base) :
    SurvivesPowerLoss g e c (c.flash.table g base) ↔ Recoverable g c (c.flash.table g base) := by
  constructor
  · rintro ⟨⟨c', hupdate, -⟩, hcut⟩
    have hle : 8 * g.RBA ≤ 2 * g.pageSize := by
      by_contra hroom
      unfold Tagged.rtkUpdateBbt at hupdate
      rw [if_neg (by rw [h.alloc]; exact fun hd => by cases hd.2), if_pos (Nat.lt_of_not_le hroom)] at hupdate
      cases hupdate
    have hcut : ∀ k, _ := fun k => hcut k e (fun _ _ => false)
      (c.powerOn (c.flash.run g ((updateSteps g c.nand).take k))) (h.powerOn _) rfl
    have hpos : 0 < g.RBA := by
      by_contra hzero
      have hmem := memPageNum_of_zero (g := g) (by omega)
      rcases hcut 0 with ⟨base', c', hcopy', hscan, -⟩ | ⟨base', c', hcopy', hscan, -⟩ <;>
        · rw [scan_eq_none _ (h.powerOn _) hcopy' hmem] at hscan
          cases hscan
    have hloads := fun k => cut_loads hpos hle hlen hfits hbuf hwhole hcopy k (fun _ _ => false)
      (h.powerOn (c.flash.run g ((updateSteps g c.nand).take k))) rfl
    have h₁ := hcut 1
    rw [hloads 1, hloads 1] at h₁
    refine ⟨hpos, hle, ?_, ?_, fun hlarge => ?_⟩
    · exact h₁.elim And.left And.left
    · exact h₁.imp And.right And.right
    · have h₂ := hcut 2
      rw [hloads 2, hloads 2, if_neg (by decide), if_neg (by decide), if_pos ⟨rfl, hlarge⟩, if_neg (by decide),
        if_neg (by decide), if_pos ⟨rfl, hlarge⟩] at h₂
      exact h₂
  · rintro ⟨hpos, hle, htag, hsecond, hhalf⟩
    obtain ⟨c', hupdate, hafter⟩ := update_run h hle
    refine ⟨⟨c', hupdate, hafter.flash, hafter.log⟩, fun k e' isBad boot hboot hflash => ?_⟩
    have hloads := cut_loads hpos hle hlen hfits hbuf hwhole hcopy k isBad hboot hflash
    rw [hloads, hloads]
    split_ifs with h₀ h₁ h₂
    · exact .inl rfl
    · exact hsecond.imp (fun ht => ⟨htag, ht⟩) fun ht => ⟨htag, ht⟩
    · exact hhalf h₂.2
    · exact .inr rfl

/-- Two copies of a table of zeros, and another table in memory. -/
def pending (n : ℕ) : Tagged :=
  ⟨⟨List.replicate n ⟨1, 1, 1, 1⟩, List.replicate 2048 0, fun _ _ => List.replicate 2048 0, []⟩, fun _ => bbtTag⟩

theorem pending_fits (n : ℕ) : ∀ b ∈ (pending n).nand.bbt, b.Fits := by
  intro b hb
  rw [List.eq_of_mem_replicate hb]
  exact ⟨by decide, by decide, by decide, by decide⟩

theorem w29n01gv_survives :
    SurvivesPowerLoss w29n01gv (filled 0) (pending 51) ((pending 51).flash.table w29n01gv 64) := by
  have hsecond : (pending 51).flash.table w29n01gv (2 * w29n01gv.ppb) = (pending 51).flash.table w29n01gv 64 :=
    table_congr fun _ _ => rfl
  exact (survives_iff (g := w29n01gv) (c := pending 51) (healthy_filled 0) List.length_replicate (pending_fits 51)
    List.length_replicate (fun _ => List.length_replicate) (.inl ⟨rfl, rfl⟩)).mpr
    ⟨by decide, by decide, rfl, .inl hsecond, fun h => absurd h (by decide)⟩

theorem getElem?_tableAt {m : Mem} {n i : ℕ} (hi : i < n) : (tableAt m n)[i]? = some (entryAt m (8 * i)) := by
  rw [tableAt, List.getElem?_map, List.getElem?_range hi, Option.map_some]

/-- Power fails after the first page of a table of two: the next scan loads it with the entries of an erased page
behind it. -/
theorem k9k8g08u0a_half_table : ∃ boot boot' : Tagged, Healthy (filled 0) boot ∧
    boot.flash = (pending 409).flash.run k9k8g08u0a ((updateSteps k9k8g08u0a (pending 409).nand).take 2) ∧
    boot.rtkNandScanBbt k9k8g08u0a (filled 0) (fun _ _ => false) = some (0, boot') ∧
    boot'.nand.bbt ≠ (pending 409).flash.table k9k8g08u0a 64 ∧
    boot'.nand.bbt ≠ (pending 409).flash.table k9k8g08u0a 128 ∧ boot'.nand.bbt ≠ (pending 409).nand.bbt := by
  set boot := (pending 409).powerOn
    ((pending 409).flash.run k9k8g08u0a ((updateSteps k9k8g08u0a (pending 409).nand).take 2)) with hboot
  obtain ⟨-, boot', -, hscan, hbbt⟩ := (cut_loads (g := k9k8g08u0a) (c := pending 409) (e := filled 0) (by decide)
    (by decide) List.length_replicate (pending_fits 409) List.length_replicate (fun _ => List.length_replicate)
    (.inl ⟨rfl, rfl⟩) 2 (fun _ _ => false) (healthy_filled 0 : Healthy _ boot) rfl _).mpr rfl
  have hfirst : (halfTable k9k8g08u0a (pending 409).nand)[0]? = some ⟨1, 1, 1, 1⟩ :=
    (getElem?_tableAt (by decide)).trans rfl
  have hlast : (halfTable k9k8g08u0a (pending 409).nand)[256]? = some ⟨65535, 65535, 65535, 65535⟩ :=
    (getElem?_tableAt (by decide)).trans rfl
  have hold : ∀ base, ((pending 409).flash.table k9k8g08u0a base)[0]? = some ⟨0, 0, 0, 0⟩ :=
    fun _ => (getElem?_tableAt (by decide)).trans rfl
  have hnew : (pending 409).nand.bbt[256]? = some ⟨1, 1, 1, 1⟩ := List.getElem?_replicate_of_lt (by decide)
  refine ⟨boot, boot', healthy_filled 0, rfl, hscan, fun h => ?_, fun h => ?_, fun h => ?_⟩
  · rw [hbbt] at h
    rw [h, hold] at hfirst
    cases hfirst
  · rw [hbbt] at h
    rw [h, hold] at hfirst
    cases hfirst
  · rw [hbbt] at h
    rw [h, hnew] at hlast
    cases hlast

end Main

end NasFirmware.Nand
