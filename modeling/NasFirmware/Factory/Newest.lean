import NasFirmware.Factory.Crash

/-!
# The newest save

Both halves may hold an archive, and the sequence number says which is newer. Numbers are 32-bit words, so they start
again at 0 after `0xFFFFFFFF`.

* **`newest_loaded`**: what is loaded is what was saved last.
-/

namespace NasFirmware.Factory

open ByteMem CString Tar

variable {cfg : Config}

structure Newer (cfg : Config) (readOk : ℕ → Bool) (flash : Mem) (t : ℕ) : Prop where
  lt : t < 2
  ok : ∀ pp < 2, halfOk cfg readOk flash pp = true
  seq : ppSeqnum cfg flash t = (ppSeqnum cfg flash (1 - t) + 1) % 2 ^ 32

theorem selectPp_consecutive {readOk : ℕ → Bool} {flash : Mem} {t : ℕ} (h : Newer cfg readOk flash t) :
    selectPp cfg readOk flash = some t ↔ ¬ (t = 1 ∧ ppSeqnum cfg flash 1 = 0) := by
  have hlt := h.lt
  have hs : ppSeqnum cfg flash (1 - t) < 2 ^ 32 := load32_lt _ _
  rw [selectPp_of_newer (show 1 - t = 0 ∧ t = 1 ∨ 1 - t = 1 ∧ t = 0 by omega) hs (h.ok t hlt) h.seq fun _ => rfl]
  refine not_congr ?_
  rcases Nat.lt_succ_iff_lt_or_eq.mp hlt with h0 | rfl
  · have ht : t = 0 := Nat.lt_one_iff.mp h0
    subst ht
    simp
  · have hseq : ppSeqnum cfg flash 1 = (ppSeqnum cfg flash 0 + 1) % 2 ^ 32 := h.seq
    have hs0 : ppSeqnum cfg flash 0 < 2 ^ 32 := hs
    simp only [Nat.sub_self, h.ok 0 (by omega), and_true, true_and]
    omega

/-! ## Runs -/

structure Accepted (cfg : Config) (f : Store) : Prop where
  dirty : f.dirty = true
  pos : 0 < f.tarsize
  fits : f.tarsize + 512 + cfg.tarPadding ≤ cfg.half
  small : f.tarsize + 512 < cfg.half
  named : f.Named

/-- The save starts again at number 0, in half 1, and half 0 holds an archive. -/
def Restarts (cfg : Config) (f : Store) (flash : Mem) : Prop :=
  f.currentPp = 0 ∧ f.seqNum = 2 ^ 32 - 1 ∧ halfOk cfg allRead flash 0 = true

inductive SaveRun (cfg : Config) : Store → Mem → Option (List UInt8) → Prop
  | start (mem flash : Mem) : SaveRun cfg (factoryInit cfg allRead (powerOn mem) flash) flash none
  | write {f f' : Store} {flash : Mem} {last : Option (List UInt8)} {path data : List UInt8} {ret : ℤ}
      (h : SaveRun cfg f flash last) (hw : factoryWrite cfg f path data = some (ret, f')) :
      SaveRun cfg f' flash last
  | delete {f f' : Store} {flash : Mem} {last : Option (List UInt8)} {path : List UInt8} {ret : ℤ}
      (h : SaveRun cfg f flash last) (hd : factoryDelete cfg f path = some (ret, f')) : SaveRun cfg f' flash last
  | save {f : Store} {flash : Mem} {last : Option (List UInt8)} (h : SaveRun cfg f flash last)
      (ha : Accepted cfg f) (hr : ¬ Restarts cfg f flash) :
      SaveRun cfg (factorySave cfg f flash .ok).2.1 (factorySave cfg f flash .ok).2.2 (some (archive f))
  | init {f : Store} {flash : Mem} {last : Option (List UInt8)} (h : SaveRun cfg f flash last) (mem : Mem) :
      SaveRun cfg (factoryInit cfg allRead (powerOn mem) flash) flash last

structure SaveInv (cfg : Config) (f : Store) (flash : Mem) (last : Option (List UInt8)) : Prop where
  step : InStep cfg f flash
  dvd : f.dirty = true → 512 ∣ f.tarsize
  last : ∀ a, last = some a → Holds cfg flash (some a)

section Runs

variable {f : Store} {flash : Mem} {last : Option (List UInt8)}

theorem saveInv_init (mem flash : Mem) (hlast : ∀ a, last = some a → Holds cfg flash (some a)) :
    SaveInv cfg (factoryInit cfg allRead (powerOn mem) flash) flash last :=
  ⟨inStep_init cfg flash _ (by decide : 0 < 2) (by decide : 0 < 2 ^ 32), (synced_init cfg mem flash).dvd, hlast⟩

theorem Accepted.save_eq (ha : Accepted cfg f) (hdvd : 512 ∣ f.tarsize) :
    factorySave cfg f flash .ok =
      (0, ⟨memset (saveBuffer f) f.tarsize 512 0, f.tarsize, false, f.nextPp, f.nextSeq⟩,
        flashSaved cfg f flash (f.tarsize + 512 + cfg.tarPadding)) :=
  factorySave_ok ha.dirty hdvd ha.pos (by have := ha.fits; omega)

theorem SaveInv.select (h : SaveInv cfg f flash last) (ha : Accepted cfg f) :
    selectPp cfg allRead (factorySave cfg f flash .ok).2.2 = some f.nextPp ↔ ¬ Restarts cfg f flash := by
  have hdvd := h.dvd ha.dirty
  have h512 : 512 ≤ f.tarsize := Nat.le_of_dvd ha.pos hdvd
  rw [ha.save_eq hdvd, selectPp_flashSaved h.step h512 (by omega) ha.fits]
  exact ⟨fun hc => hc.2.2, fun hr => ⟨ha.named, ha.small, hr⟩⟩

theorem SaveInv.save (h : SaveInv cfg f flash last) (ha : Accepted cfg f) (hr : ¬ Restarts cfg f flash) :
    SaveInv cfg (factorySave cfg f flash .ok).2.1 (factorySave cfg f flash .ok).2.2 (some (archive f)) := by
  have hdvd := h.dvd ha.dirty
  have h512 : 512 ≤ f.tarsize := Nat.le_of_dvd ha.pos hdvd
  have hlt : f.tarsize < 2 ^ 32 := by
    have := ha.fits
    have := cfg.half_lt
    omega
  have hsel := (h.select ha).mpr hr
  rw [ha.save_eq hdvd] at hsel ⊢
  have hsaved : SavedAt cfg f (flashSaved cfg f flash (f.tarsize + 512 + cfg.tarPadding)) f.nextPp :=
    savedAt_flashSaved (by omega)
  refine ⟨⟨Nat.mod_lt _ Nat.zero_lt_two, Nat.mod_lt _ (Nat.two_pow_pos 32), fun _ => hsaved.ppSeqnum h512⟩, nofun, ?_⟩
  rintro a ⟨⟩ mem
  obtain ⟨-, -, hsize, hread⟩ := factoryInit_of_savedAt hsaved h512 hlt hdvd hsel (powerOn mem)
  refine ⟨hsize.trans (length_read ..).symm, ?_⟩
  rw [hsize]
  exact hread

theorem SaveRun.inv (h : SaveRun cfg f flash last) : SaveInv cfg f flash last := by
  induction h with
  | start mem flash => exact saveInv_init mem flash nofun
  | write _ hw ih =>
    obtain ⟨h1, h2⟩ := factoryWrite_frame hw
    refine ⟨⟨h1 ▸ ih.step.pp_lt, h2 ▸ ih.step.seq_lt, by rw [h1, h2]; exact ih.step.seq_eq⟩, ?_, ih.last⟩
    exact factoryWrite_dvd ih.dvd hw
  | delete _ hd ih =>
    obtain ⟨r, hdel, heq⟩ := Option.map_eq_some_iff.mp hd
    cases heq
    exact ⟨⟨ih.step.pp_lt, ih.step.seq_lt, ih.step.seq_eq⟩, fun _ => tarAddOrDelete_dvd hdel, ih.last⟩
  | save _ ha hr ih => exact ih.save ha hr
  | init _ mem ih => exact saveInv_init mem _ ih.last

end Runs

/-- **The newest save is loaded.** -/
theorem newest_loaded (cfg : Config) :
    (∀ (readOk : ℕ → Bool) (flash : Mem) (t : ℕ), Newer cfg readOk flash t →
      (selectPp cfg readOk flash = some t ↔ ¬ (t = 1 ∧ ppSeqnum cfg flash 1 = 0))) ∧
    (∀ f flash a, SaveRun cfg f flash (some a) → Holds cfg flash (some a)) ∧
    (∀ f flash last, SaveRun cfg f flash last → Accepted cfg f →
      (selectPp cfg allRead (factorySave cfg f flash .ok).2.2 = some f.nextPp ↔ ¬ Restarts cfg f flash)) :=
  ⟨fun _ _ _ h => selectPp_consecutive h, fun _ _ a h => h.inv.last a rfl, fun _ _ _ h ha => h.inv.select ha⟩

theorem newest_loaded_first : ∃ f, SaveRun nasConfig f blank none ∧ Accepted nasConfig f ∧
    Holds nasConfig (factorySave nasConfig f blank .ok).2.2 (some (archive f)) := by
  obtain ⟨f, hw, hn, hsize, -, hseq⟩ := freshStore_write nasConfig [65] (by decide)
  have htar : f.tarsize = 1536 := hsize
  have hrun : SaveRun nasConfig f blank none := (SaveRun.start (fun _ => 0) blank).write hw
  have ha : Accepted nasConfig f := by
    refine ⟨(factoryWrite_zero hw).1, by omega, ?_, ?_, hn⟩
    · rw [htar]
      decide
    · rw [htar]
      decide
  have hr : ¬ Restarts nasConfig f blank := fun h => absurd (hseq.symm.trans h.2.1) (by decide)
  exact ⟨f, hrun, ha, (newest_loaded nasConfig).2.1 _ _ _ (hrun.save ha hr)⟩

theorem exists_newer {f : Store} {s : ℕ} (h512 : 512 ≤ f.tarsize) (hsmall : f.tarsize + 512 < cfg.half)
    (hn : f.Named) (hs : s < 2 ^ 32) : ∃ flash, Newer cfg allRead flash 1 ∧ ppSeqnum cfg flash 0 = s := by
  have hlt : f.tarsize < 2 ^ 32 := by
    have := cfg.half_lt
    omega
  let f₀ : Store := { f with currentPp := 1, seqNum := s + (2 ^ 32 - 1) }
  let f₁ : Store := { f with currentPp := 0, seqNum := s }
  let flash₀ := flashSaved cfg f₀ blank (f.tarsize + 512)
  let flash₁ := flashSaved cfg f₁ flash₀ (f.tarsize + 512)
  have hs₀ : SavedAt cfg f₀ flash₀ ((1 + 1) % 2) := savedAt_flashSaved (Nat.le_refl _)
  have hs₁ : SavedAt cfg f₁ flash₁ ((0 + 1) % 2) := savedAt_flashSaved (Nat.le_refl _)
  have hkept : halfOk cfg allRead flash₁ 0 = halfOk cfg allRead flash₀ 0 ∧
      ppSeqnum cfg flash₁ 0 = ppSeqnum cfg flash₀ 0 ∧ ppTarsize cfg flash₁ 0 = ppTarsize cfg flash₀ 0 :=
    halfOk_congr fun _ hk hlt => flashSaved_other Nat.zero_lt_two hsmall.le hk hlt
  have h0 : halfOk cfg allRead flash₁ 0 = true :=
    hkept.1.trans ((halfOk_of_savedAt hs₀ h512 hlt).mpr ⟨hn, hsmall⟩)
  have h1 : halfOk cfg allRead flash₁ 1 = true := (halfOk_of_savedAt hs₁ h512 hlt).mpr ⟨hn, hsmall⟩
  have hseq0 : ppSeqnum cfg flash₁ 0 = s := by
    rw [hkept.2.1]
    refine (hs₀.ppSeqnum h512).trans ?_
    show (s + (2 ^ 32 - 1) + 1) % 2 ^ 32 = s
    omega
  refine ⟨flash₁, ⟨Nat.one_lt_two, fun pp hpp => ?_, ?_⟩, hseq0⟩
  · rcases Nat.lt_succ_iff_lt_or_eq.mp hpp with h | rfl
    · rw [Nat.lt_one_iff.mp h]
      exact h0
    · exact h1
  · rw [Nat.sub_self, hseq0]
    exact hs₁.ppSeqnum h512

/-- After the save with number `0xFFFFFFFF` in half 0 and the next one, with number 0, in half 1, half 0 is loaded. -/
theorem wrapped_not_selected : ∃ flash, Newer nasConfig allRead flash 1 ∧
    ppSeqnum nasConfig flash 0 = 0xFFFFFFFF ∧ ppSeqnum nasConfig flash 1 = 0 ∧
    selectPp nasConfig allRead flash = some 0 := by
  obtain ⟨f, -, hn, hsize, -, -⟩ := freshStore_write nasConfig [65] (by decide)
  have htar : f.tarsize = 1536 := hsize
  have hsmall : f.tarsize + 512 < nasConfig.half := by
    rw [htar]
    decide
  obtain ⟨flash, h, hseq0⟩ := exists_newer (by omega) hsmall hn (by decide : 0xFFFFFFFF < 2 ^ 32)
  have hseq1 : ppSeqnum nasConfig flash 1 = 0 := by
    rw [h.seq, Nat.sub_self, hseq0]
    decide
  refine ⟨flash, h, hseq0, hseq1, ?_⟩
  rw [selectPp, h.ok 0 Nat.zero_lt_two, h.ok 1 Nat.one_lt_two]
  simp only [hseq0, hseq1]
  decide

end NasFirmware.Factory
