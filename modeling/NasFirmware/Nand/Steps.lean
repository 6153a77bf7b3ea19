import NasFirmware.Nand.Stored

/-!
# The steps of an update

`rtk_update_bbt` erases and writes block 1, then block 2.

* **`update_run`**: the steps of an update, and that they are all it does to the chip;
* **`run_written`**: what is on the chip after some of them;
* **`update_ok`**: what is on the chip after all of them.
-/

namespace NasFirmware.Nand

open ByteMem

structure Flash where
  page : ℕ → List UInt8
  oob : ℕ → UInt8

inductive Step where
  | erase (page : ℕ)
  | program (page : ℕ) (data : List UInt8)

def Step.op : Step → Op
  | .erase page => .erase 0 page
  | .program page _ => .program 0 page

section Steps

variable (g : Geometry)

def Step.Touches (p : ℕ) : Step → Prop
  | .erase page => p / g.ppb = page / g.ppb
  | .program page _ => p = page

def Flash.apply (fl : Flash) : Step → Flash
  | .erase page =>
    ⟨fun p => if p / g.ppb = page / g.ppb then List.replicate g.pageSize 0xFF else fl.page p,
      fun p => if p / g.ppb = page / g.ppb then 0xFF else fl.oob p⟩
  | .program page data => ⟨Function.update fl.page page data, Function.update fl.oob page bbtTag⟩

def Flash.run (fl : Flash) (steps : List Step) : Flash := steps.foldl (Flash.apply g) fl

def secondPage (s : Nand) : List UInt8 := (paddedBytes g s.bbt).drop g.pageSize

def copyWrites (first second : List UInt8) (base : ℕ) : List Step :=
  .program base first :: if g.large then [.program (base + 1) second] else []

def updateSteps (s : Nand) : List Step :=
  .erase g.ppb :: copyWrites g (firstPage g s) (secondPage g s) g.ppb ++
    .erase (2 * g.ppb) :: copyWrites g (firstPage g s) (secondPage g s) (2 * g.ppb)

/-- What the chip of a driver keeps without power. -/
def Tagged.flash (c : Tagged) : Flash := ⟨c.nand.page 0, c.oob⟩

variable {g} {e : Env} {c : Tagged} {c' : Tagged} {steps : List Step} {p : ℕ}

/-! ## The steps are what the update does -/

structure After (e : Env) (c c' : Tagged) (steps : List Step) : Prop where
  healthy : Healthy e c'
  flash : c'.flash = c.flash.run g steps
  log : c'.nand.log = c.nand.log ++ steps.map Step.op
  bbt : c'.nand.bbt = c.nand.bbt

theorem After.trans {c'' : Tagged} {steps' : List Step} (h : After (g := g) e c c' steps)
    (h' : After (g := g) e c' c'' steps') : After (g := g) e c c'' (steps ++ steps') where
  healthy := h'.healthy
  flash := by rw [h'.flash, h.flash, Flash.run, Flash.run, Flash.run, List.foldl_append]
  log := by rw [h'.log, h.log, List.map_append, List.append_assoc]
  bbt := h'.bbt.trans h.bbt

theorem After.setDatabuf (buf : List UInt8)
    (h : After (g := g) e { c with nand := { c.nand with databuf := buf } } c' steps) : After (g := g) e c c' steps :=
  ⟨h.healthy, h.flash, h.log, h.bbt⟩

variable (h : Healthy e c)

include h

theorem erase_after (page : ℕ) :
    ∃ c', c.erase g e page = (.ok, c') ∧ c'.nand.databuf = c.nand.databuf ∧ After (g := g) e c c' [.erase page] := by
  refine ⟨(c.erase g e page).2, Prod.ext h.report rfl, rfl, h.of_log rfl, ?_, rfl, rfl⟩
  simp [Tagged.flash, Tagged.erase, eraseBlock, h.report, Flash.run, Flash.apply, true_and]

theorem program_after (page : ℕ) (data : List UInt8) :
    ∃ c', c.program e page data = (.ok, c') ∧ c'.nand.databuf = c.nand.databuf ∧
      After (g := g) e c c' [.program page data] := by
  refine ⟨(c.program e page data).2, Prod.ext h.report rfl, rfl, h.of_log rfl, ?_, rfl, rfl⟩
  simp only [Tagged.flash, Tagged.program, writeEccPage, h.report, if_true, Flash.run, List.foldl_cons,
    List.foldl_nil, Flash.apply, true_and, Flash.mk.injEq]
  constructor
  · funext p
    rw [Function.update_apply]
  · funext p
    rw [Function.update_apply]

theorem writeCopy_after (base : ℕ) : ∃ c', c.writeCopy g e base = (true, c') ∧
    After (g := g) e c c' (copyWrites g c.nand.databuf (secondPage g c.nand) base) := by
  obtain ⟨c₁, hprog₁, -, h₁⟩ := program_after (g := g) h base c.nand.databuf
  unfold Tagged.writeCopy copyWrites
  rw [hprog₁]
  dsimp only
  by_cases hlarge : g.large = true
  · rw [if_pos hlarge, if_pos hlarge]
    obtain ⟨c₂, hprog₂, -, h₂⟩ := program_after (g := g)
      (c := { c₁ with nand := { c₁.nand with databuf := secondPage g c₁.nand } })
      (h₁.healthy.of_log (List.append_nil _).symm) (base + 1) (secondPage g c₁.nand)
    have hsecond : secondPage g c₁.nand = secondPage g c.nand := congrArg (fun b => (paddedBytes g b).drop _) h₁.bbt
    unfold secondPage at hprog₂
    rw [hprog₂]
    refine ⟨c₂, rfl, ?_⟩
    rw [hsecond] at h₂
    exact h₁.trans (h₂.setDatabuf _)
  · rw [if_neg hlarge, if_neg hlarge]
    exact ⟨c₁, rfl, h₁⟩

/-- **An update is its steps.** -/
theorem update_run (hroom : 8 * g.RBA ≤ 2 * g.pageSize) :
    ∃ c', c.rtkUpdateBbt g e = some (true, c') ∧ After (g := g) e c c' (updateSteps g c.nand) := by
  set first := firstPage g c.nand with hfirst
  obtain ⟨c₁, herase₁, hbuf₁, h₁⟩ := erase_after (g := g) (c := { c with nand := { c.nand with databuf := first } })
    (h.of_log (List.append_nil _).symm) g.ppb
  obtain ⟨c₂, hcopy₂, h₂⟩ := writeCopy_after (g := g) h₁.healthy g.ppb
  have h₁₂ := h₁.trans h₂
  obtain ⟨c₃, herase₃, hbuf₃, h₃⟩ := erase_after (g := g) (c := { c₂ with nand := { c₂.nand with databuf := first } })
    (h₂.healthy.of_log (List.append_nil _).symm) (2 * g.ppb)
  obtain ⟨c₄, hcopy₄, h₄⟩ := writeCopy_after (g := g) h₃.healthy (2 * g.ppb)
  have h₃₄ := h₃.trans h₄
  have hbbt₁ : c₁.nand.bbt = c.nand.bbt := h₁.bbt
  have hbbt₃ : c₃.nand.bbt = c.nand.bbt := h₃.bbt.trans (h₂.bbt.trans hbbt₁)
  refine ⟨c₄, ?_, ?_⟩
  · unfold Tagged.rtkUpdateBbt
    rw [if_neg (by rw [h.alloc]; exact fun hd => by cases hd.2), if_neg (by omega)]
    dsimp only
    rw [← hfirst, herase₁, hcopy₂, herase₃]
    dsimp only
    rw [hcopy₄]
  · unfold secondPage at h₁₂ h₃₄
    rw [hbuf₁, hbbt₁] at h₁₂
    rw [hbuf₃, hbbt₃] at h₃₄
    exact (h₁₂.setDatabuf first).trans (h₃₄.setDatabuf first)

omit h

theorem run_of_not_touches (fl : Flash) (h : ∀ st ∈ steps, ¬ st.Touches g p) :
    (fl.run g steps).page p = fl.page p ∧ (fl.run g steps).oob p = fl.oob p := by
  induction steps generalizing fl with
  | nil => exact ⟨rfl, rfl⟩
  | cons st steps ih =>
    have hst := h st List.mem_cons_self
    obtain ⟨hpage, hoob⟩ := ih (fl.apply g st) fun st hmem => h st (List.mem_cons_of_mem _ hmem)
    refine ⟨hpage.trans ?_, hoob.trans ?_⟩
    · cases st with
      | erase page => exact if_neg hst
      | program page data => exact Function.update_of_ne hst _ _
    · cases st with
      | erase page => exact if_neg hst
      | program page data => exact Function.update_of_ne hst _ _

theorem second_not_touches (first second : List UInt8) (hp : p < 2 * g.ppb) :
    ∀ st ∈ .erase (2 * g.ppb) :: copyWrites g first second (2 * g.ppb), ¬ st.Touches g p := by
  have hppb := g.ppb_pos
  have hblock : p / g.ppb ≠ 2 * g.ppb / g.ppb := by
    rw [Nat.mul_div_cancel _ hppb]
    exact (Nat.div_lt_of_lt_mul (Nat.mul_comm 2 _ ▸ hp)).ne
  refine List.forall_mem_cons.mpr ⟨hblock, List.forall_mem_cons.mpr ⟨hp.ne, fun st hst => ?_⟩⟩
  split_ifs at hst
  · obtain rfl := List.mem_singleton.mp hst
    exact (hp.trans (Nat.lt_succ_self _)).ne
  · exact nomatch hst

theorem run_erased (fl : Flash) (s : Nand) : (fl.run g ((updateSteps g s).take 1)).oob g.ppb = 0xFF ∧
    ∀ p, 2 * g.ppb ≤ p → (fl.run g ((updateSteps g s).take 1)).page p = fl.page p ∧
      (fl.run g ((updateSteps g s).take 1)).oob p = fl.oob p := by
  refine ⟨if_pos rfl, fun p hp => run_of_not_touches fl fun st hst => ?_⟩
  obtain rfl : st = .erase g.ppb := List.mem_singleton.mp hst
  have htwo : 2 ≤ p / g.ppb := (Nat.le_div_iff_mul_le g.ppb_pos).mpr hp
  have hone : g.ppb / g.ppb = 1 := Nat.div_self g.ppb_pos
  change p / g.ppb ≠ _
  omega

theorem run_written (fl : Flash) (s : Nand) (k : ℕ) :
    (fl.run g ((updateSteps g s).take (k + 2))).page g.ppb = firstPage g s ∧
      (fl.run g ((updateSteps g s).take (k + 2))).oob g.ppb = bbtTag ∧
      (g.large = true → (fl.run g ((updateSteps g s).take (k + 2))).page (g.ppb + 1) =
        if k = 0 then List.replicate g.pageSize 0xFF else secondPage g s) := by
  have hppb := g.two_le_ppb
  set fl₂ := (fl.apply g (.erase g.ppb)).apply g (.program g.ppb (firstPage g s)) with hfl₂
  set rest := (if g.large then [Step.program (g.ppb + 1) (secondPage g s)] else []) ++
    .erase (2 * g.ppb) :: copyWrites g (firstPage g s) (secondPage g s) (2 * g.ppb) with hrest
  have hrun : fl.run g ((updateSteps g s).take (k + 2)) = fl₂.run g (rest.take k) := rfl
  have hnot : ∀ st ∈ rest.take k, ¬ st.Touches g g.ppb := by
    intro st hst
    rcases List.mem_append.mp (List.mem_of_mem_take hst) with hst | hst
    · split_ifs at hst
      · obtain rfl := List.mem_singleton.mp hst
        exact (Nat.lt_succ_self _).ne
      · exact nomatch hst
    · exact second_not_touches _ _ (by omega) st hst
  obtain ⟨hpage, hoob⟩ := run_of_not_touches fl₂ hnot
  rw [hrun]
  refine ⟨hpage.trans (Function.update_self ..), hoob.trans (Function.update_self ..), fun hlarge => ?_⟩
  -- with two pages, what is next decides about the second
  rw [if_pos hlarge] at hrest
  cases k with
  | zero =>
    have hblock : (g.ppb + 1) / g.ppb = g.ppb / g.ppb := by
      rw [Nat.add_div_of_dvd_right (dvd_refl _), Nat.div_eq_of_lt (a := 1) (by omega), Nat.add_zero]
    exact (Function.update_of_ne (by omega) _ _).trans (if_pos hblock)
  | succ k =>
    have hnext : g.ppb + 1 < 2 * g.ppb := by omega
    rw [hrest, if_neg (Nat.succ_ne_zero k), List.singleton_append, List.take_succ_cons]
    refine (run_of_not_touches (fl₂.apply g (.program (g.ppb + 1) (secondPage g s))) fun st hst => ?_).1.trans
      (Function.update_self ..)
    exact second_not_touches _ _ hnext st (List.mem_of_mem_take hst)

/-- **The table is in block 1.** -/
theorem update_ok (h : Healthy e c) (hroom : 8 * g.RBA ≤ 2 * g.pageSize) :
    ∃ c', c.rtkUpdateBbt g e = some (true, c') ∧ Healthy e c' ∧ c'.nand.bbt = c.nand.bbt ∧ c'.oob g.ppb = bbtTag ∧
      c'.nand.page 0 g.ppb = firstPage g c.nand ∧
      (g.large = true → c'.nand.page 0 (g.ppb + 1) = (paddedBytes g c.nand.bbt).drop g.pageSize) := by
  obtain ⟨c', hupdate, hafter⟩ := update_run h hroom
  -- the last of the steps is one of block 2
  obtain ⟨hfirst, htag, hsecond⟩ := run_written (g := g) c.flash c.nand (updateSteps g c.nand).length
  rw [List.take_of_length_le (Nat.le_add_right _ 2), ← hafter.flash] at hfirst htag hsecond
  exact ⟨c', hupdate, hafter.healthy, hafter.bbt, htag, hfirst, fun hlarge => (hsecond hlarge).trans (if_neg nofun)⟩

end Steps

end NasFirmware.Nand
