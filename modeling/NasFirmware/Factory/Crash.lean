import NasFirmware.Factory.Save

/-!
# Power loss

The eMMC writes blocks in increasing order, and each block as a whole. A save can be cut after any number
of blocks; the next thing is then power-on and `factory_init`.
-/

namespace NasFirmware.Factory

open ByteMem CString Tar

/-- The variables of the library at power-on; the memory holds anything. -/
def powerOn (mem : Mem) : Store := ⟨mem, 0, false, 0, 0⟩

def archive (f : Store) : List UInt8 := read (saveBuffer f) 0 f.tarsize

/-- The next `factory_init` loads exactly this archive. `none` is the empty default: the root header in
cleared memory. -/
def Holds (cfg : Config) (flash : Mem) (a : Option (List UInt8)) : Prop :=
  ∀ mem, let l := factoryInit cfg allRead (powerOn mem) flash
    match a with
    | none => l.tarsize = 512 ∧ l.mem = buildRoot (memset mem 0 cfg.half 0) 0
    | some a => l.tarsize = a.length ∧ read l.mem 0 l.tarsize = a

/-- A device that is on or off, with the archive of the last completed save, and that of the save that was cut. -/
inductive Device where
  | on (f : Store) (flash : Mem) (last : Option (List UInt8))
  | off (flash : Mem) (last cut : Option (List UInt8))

def Device.last : Device → Option (List UInt8)
  | .on _ _ last => last
  | .off _ last _ => last

/-- The next `factory_init` loads the archive of the last completed save, or the one being saved at the
cut. -/
def Device.Atomic (cfg : Config) : Device → Prop
  | .on _ flash last => Holds cfg flash last
  | .off flash last cut => Holds cfg flash last ∨ ∃ a, cut = some a ∧ Holds cfg flash (some a)

theorem Device.atomic_on (cfg : Config) (f : Store) (flash : Mem) (last : Option (List UInt8)) :
    (Device.on f flash last).Atomic cfg ↔ Holds cfg flash last := Iff.rfl

/-- A save of an archive that fits the half: it starts with the root header, its size is accepted, and its header is
not already where the copy will be. -/
structure SaveSafe (cfg : Config) (f : Store) (flash : Mem) : Prop where
  fits : f.tarsize + 512 + cfg.tarPadding ≤ cfg.half
  pos : 0 < f.tarsize
  named : f.Named
  small : f.tarsize + 512 < cfg.half
  stale : read flash (cfg.base f.nextPp + f.tarsize) 512 ≠ read (saveBuffer f) 0 512

/-- The runs of a device that starts with any eMMC, with the number of saves and of completed saves. -/
inductive Run (cfg : Config) (flash₀ : Mem) : ℕ → ℕ → Device → Prop
  | start {last : Option (List UInt8)} (h : Holds cfg flash₀ last) :
      Run cfg flash₀ 0 0 (.off flash₀ last none)
  | init {saves completed : ℕ} {flash : Mem} {last cut a : Option (List UInt8)} (mem : Mem)
      (h : Run cfg flash₀ saves completed (.off flash last cut))
      (ha : a = last ∨ cut.isSome = true ∧ a = cut) (hload : Holds cfg flash a) :
      Run cfg flash₀ saves completed (.on (factoryInit cfg allRead (powerOn mem) flash) flash a)
  | write {saves completed : ℕ} {f f' : Store} {flash : Mem} {last : Option (List UInt8)} {ret : ℤ}
      {path data : List UInt8} (h : Run cfg flash₀ saves completed (.on f flash last))
      (hw : factoryWrite cfg f path data = some (ret, f')) :
      Run cfg flash₀ saves completed (.on f' flash last)
  | delete {saves completed : ℕ} {f f' : Store} {flash : Mem} {last : Option (List UInt8)} {ret : ℤ}
      {path : List UInt8} (h : Run cfg flash₀ saves completed (.on f flash last))
      (hd : factoryDelete cfg f path = some (ret, f')) :
      Run cfg flash₀ saves completed (.on f' flash last)
  | unchanged {saves completed : ℕ} {f : Store} {flash : Mem} {last : Option (List UInt8)}
      (h : Run cfg flash₀ saves completed (.on f flash last)) (hclean : f.dirty = false) :
      Run cfg flash₀ saves completed (.on (factorySave cfg f flash .ok).2.1 flash last)
  | save {saves completed : ℕ} {f : Store} {flash : Mem} {last : Option (List UInt8)}
      (h : Run cfg flash₀ saves completed (.on f flash last)) (hdirty : f.dirty = true)
      (hsafe : SaveSafe cfg f flash) :
      Run cfg flash₀ (saves + 1) (completed + 1)
        (.on (factorySave cfg f flash .ok).2.1 (factorySave cfg f flash .ok).2.2 (some (archive f)))
  | cut {saves completed : ℕ} {f : Store} {flash : Mem} {last : Option (List UInt8)} (n : ℕ)
      (h : Run cfg flash₀ saves completed (.on f flash last)) (hdirty : f.dirty = true)
      (hsafe : SaveSafe cfg f flash) :
      Run cfg flash₀ (saves + 1) completed
        (.off (factorySave cfg f flash (.failed n)).2.2 last (some (archive f)))
  | powerOff {saves completed : ℕ} {f : Store} {flash : Mem} {last : Option (List UInt8)}
      (h : Run cfg flash₀ saves completed (.on f flash last)) :
      Run cfg flash₀ saves completed (.off flash last none)

def number (cfg : Config) (flash : Mem) : ℕ :=
  match selectPp cfg allRead flash with
  | none => 0
  | some pp => ppSeqnum cfg flash pp

/-- The library is where `factory_init` would start. -/
structure Synced (cfg : Config) (f : Store) (flash : Mem) : Prop where
  pp : selectPp cfg allRead flash = some f.currentPp ∨
    selectPp cfg allRead flash = none ∧ f.currentPp < 2
  number_eq : f.seqNum = number cfg flash
  dvd : f.dirty = true → 512 ∣ f.tarsize

/-! ## The operations on the archive in memory -/

section Operations

variable {cfg : Config} {f f' : Store} {flash : Mem} {path data : List UInt8} {ret : ℤ}

theorem number_lt (cfg : Config) (flash : Mem) : number cfg flash < 2 ^ 32 := by
  unfold number
  split
  · exact Nat.two_pow_pos 32
  · exact load32_lt _ _

theorem number_of_none (h : selectPp cfg allRead flash = none) : number cfg flash = 0 := by
  unfold number
  split
  · rfl
  · rename_i heq
    rw [h] at heq
    cases heq

theorem number_of_some {pp : ℕ} (h : selectPp cfg allRead flash = some pp) :
    number cfg flash = ppSeqnum cfg flash pp := by
  unfold number
  split
  · rename_i heq
    rw [h] at heq
    cases heq
  · rename_i heq
    rw [h] at heq
    cases heq
    rfl

theorem Synced.inStep (h : Synced cfg f flash) : InStep cfg f flash := by
  have hnumber := h.number_eq
  refine ⟨?_, hnumber ▸ number_lt cfg flash, fun hok => ?_⟩
  · rcases h.pp with hsel | hnone
    · exact (selectPp_some hsel).1
    · exact hnone.2
  · rcases h.pp with hsel | hnone
    · rw [hnumber, number_of_some hsel]
    · rw [selectPp_none hnone.1 hnone.2] at hok
      cases hok

theorem synced_init (cfg : Config) (mem flash : Mem) :
    Synced cfg (factoryInit cfg allRead (powerOn mem) flash) flash := by
  cases hsel : selectPp cfg allRead flash with
  | none =>
    have hinit : factoryInit cfg allRead (powerOn mem) flash =
        ⟨buildRoot (memset mem 0 cfg.half 0) 0, 512, false, 0, 0⟩ := by
      simp [factoryInit, hsel, powerOn]
    rw [hinit]
    exact ⟨Or.inr ⟨hsel, Nat.zero_lt_two⟩, (number_of_none hsel).symm, fun h => by cases h⟩
  | some pp =>
    have hinit : factoryInit cfg allRead (powerOn mem) flash =
        ⟨write (memset mem 0 cfg.half 0) 0 (read flash (cfg.base pp) (blocks (ppTarsize cfg flash pp))),
          ppTarsize cfg flash pp, false, pp, ppSeqnum cfg flash pp⟩ := by
      simp [factoryInit, hsel, powerOn]
    rw [hinit]
    exact ⟨Or.inl hsel, (number_of_some hsel).symm, fun h => by cases h⟩

theorem Synced.of_frame (h : Synced cfg f flash) (hpp : f'.currentPp = f.currentPp)
    (hseq : f'.seqNum = f.seqNum) (hdvd : f'.dirty = true → 512 ∣ f'.tarsize) : Synced cfg f' flash := by
  refine ⟨?_, hseq.trans h.number_eq, hdvd⟩
  rw [hpp]
  exact h.pp

theorem factoryWrite_dvd (h : f.dirty = true → 512 ∣ f.tarsize)
    (hw : factoryWrite cfg f path data = some (ret, f')) : f'.dirty = true → 512 ∣ f'.tarsize := by
  unfold factoryWrite at hw
  split_ifs at hw
  · cases hw
    exact h
  · have ⟨r, hadd, heq⟩ := Option.map_eq_some_iff.mp hw
    have hdvd := tarAddOrDelete_dvd hadd
    dsimp only at heq
    split_ifs at heq <;> cases heq <;> exact fun _ => hdvd

theorem Synced.write (h : Synced cfg f flash)
    (hw : factoryWrite cfg f path data = some (ret, f')) : Synced cfg f' flash := by
  have hframe := factoryWrite_frame hw
  exact h.of_frame hframe.1 hframe.2 (factoryWrite_dvd h.dvd hw)

theorem Synced.delete (h : Synced cfg f flash)
    (hd : factoryDelete cfg f path = some (ret, f')) : Synced cfg f' flash := by
  have ⟨r, hdel, heq⟩ := Option.map_eq_some_iff.mp hd
  have hdvd := tarAddOrDelete_dvd hdel
  cases heq
  exact h.of_frame rfl rfl fun _ => hdvd

end Operations

section Cut

variable {cfg : Config} {f : Store} {flash : Mem} {n : ℕ}

theorem selectPp_of_not (hpp : f.currentPp < 2) (ht : halfOk cfg allRead flash f.nextPp = false) :
    selectPp cfg allRead flash =
      if halfOk cfg allRead flash f.currentPp = true then some f.currentPp else none := by
  unfold selectPp
  rcases nextPp_cases hpp with ⟨hc, hn⟩ | ⟨hc, hn⟩
  · rw [hn] at ht
    rw [hc, ht]
    cases halfOk cfg allRead flash 0 <;> simp
  · rw [hn] at ht
    rw [hc, ht]
    cases halfOk cfg allRead flash 1 <;> simp

theorem ppTarsize_lt {pp : ℕ} (h : halfOk cfg allRead flash pp = true) :
    ppTarsize cfg flash pp < cfg.half - 512 := by
  unfold halfOk at h
  simp only [Bool.and_eq_true, decide_eq_true_eq] at h
  exact h.1.2

theorem halfOk_cut (hlt : f.tarsize < 2 ^ 32) (hn : 512 ≤ n) (hle : n ≤ f.tarsize)
    (hstale : read flash (cfg.base f.nextPp + f.tarsize) 512 ≠ read (saveBuffer f) 0 512) :
    halfOk cfg allRead (flashSaved cfg f flash n) f.nextPp = false := by
  have hheader : read (flashSaved cfg f flash n) (cfg.base f.nextPp) 512 = read (saveBuffer f) 0 512 := by
    have hread : read (flashSaved cfg f flash n) (cfg.base f.nextPp + 0) 512 = _ :=
      read_flashSaved (by omega)
    rwa [Nat.add_zero] at hread
  have hsize : ppTarsize cfg (flashSaved cfg f flash n) f.nextPp = f.tarsize := by
    refine load32_of_read hlt ?_
    rw [read_flashSaved (by omega), ← fillRtkHeader_tarsize]
    exact read_congr fun k _ hk => saveBuffer_lt (by omega)
  have hcopy : read (flashSaved cfg f flash n) (cfg.base f.nextPp + f.tarsize) 512 =
      read flash (cfg.base f.nextPp + f.tarsize) 512 := by
    apply read_write_of_disjoint
    rw [length_read]
    omega
  unfold halfOk
  simp [hsize, hcopy, hheader, beq_eq_false_iff_ne.mpr hstale]

theorem factoryInit_cut (hsync : Synced cfg f flash) (hsafe : SaveSafe cfg f flash)
    (hn : 512 ∣ n) (hle : n ≤ f.tarsize) (g : Store) :
    factoryInit cfg allRead g (flashSaved cfg f flash n) = factoryInit cfg allRead g flash ∧
      number cfg (flashSaved cfg f flash n) = number cfg flash := by
  have hhalf := cfg.half_lt
  have hfits := hsafe.fits
  have hpp := hsync.inStep.pp_lt
  rcases Nat.eq_zero_or_pos n with rfl | hpos
  · -- nothing was written
    have hsame : flashSaved cfg f flash 0 = flash := write_nil _ _
    rw [hsame]
    exact ⟨rfl, rfl⟩
  · have hbyte : ∀ k, cfg.base f.currentPp ≤ k → k < cfg.base f.currentPp + cfg.half →
        flashSaved cfg f flash n k = flash k :=
      fun k hk hlt => flashSaved_other hpp (by omega) hk hlt
    have hother := halfOk_congr hbyte
    have hsel := selectPp_of_not hpp (halfOk_cut (by omega) (Nat.le_of_dvd hpos hn) hle hsafe.stale)
    rw [hother.1] at hsel
    rcases hsync.pp with hcur | hnone
    · have hok := (selectPp_some hcur).2
      rw [if_pos hok] at hsel
      have hsize := ppTarsize_lt hok
      have hread : read (flashSaved cfg f flash n) (cfg.base f.currentPp)
          (blocks (ppTarsize cfg flash f.currentPp)) =
          read flash (cfg.base f.currentPp) (blocks (ppTarsize cfg flash f.currentPp)) := by
        refine read_congr fun k hk hlt => hbyte k hk (Nat.lt_of_lt_of_le hlt ?_)
        rw [blocks]
        omega
      refine ⟨?_, by rw [number_of_some hsel, number_of_some hcur, hother.2.1]⟩
      simp [factoryInit, hsel, hcur, hother.2.1, hother.2.2, hread]
    · rw [if_neg (by rw [selectPp_none hnone.1 hnone.2]; decide)] at hsel
      refine ⟨?_, by rw [number_of_none hsel, number_of_none hnone.1]⟩
      simp [factoryInit, hsel, hnone.1]

theorem holds_saved (hsync : Synced cfg f flash) (hsafe : SaveSafe cfg f flash) (h512 : 512 ≤ f.tarsize)
    (hdvd : 512 ∣ f.tarsize) (hseq : f.seqNum + 1 < 2 ^ 32) (hn : f.tarsize + 512 ≤ n)
    (hle : n ≤ cfg.half) :
    selectPp cfg allRead (flashSaved cfg f flash n) = some f.nextPp ∧
      number cfg (flashSaved cfg f flash n) = f.nextSeq ∧
      Holds cfg (flashSaved cfg f flash n) (some (archive f)) := by
  have hhalf := cfg.half_lt
  have hsel := (selectPp_flashSaved hsync.inStep h512 hn hle).mpr
    ⟨hsafe.named, hsafe.small, fun hwrap => by omega⟩
  have hsaved : SavedAt cfg f (flashSaved cfg f flash n) f.nextPp := savedAt_flashSaved hn
  refine ⟨hsel, (number_of_some hsel).trans (hsaved.ppSeqnum h512), fun mem => ?_⟩
  obtain ⟨-, -, hsize, hmem⟩ := factoryInit_of_savedAt hsaved h512 (by omega) hdvd hsel (powerOn mem)
  refine ⟨hsize.trans (length_read ..).symm, ?_⟩
  rw [hsize]
  exact hmem

end Cut

/-! ## Runs -/

def Device.flash : Device → Mem
  | .on _ flash _ => flash
  | .off flash _ _ => flash

structure Inv (cfg : Config) (flash₀ : Mem) (saves completed : ℕ) (d : Device) : Prop where
  number_le : number cfg d.flash ≤ number cfg flash₀ + saves
  atomic : d.Atomic cfg
  last_ne : 0 < completed → d.last ≠ none
  synced : ∀ {f flash last}, d = .on f flash last → Synced cfg f flash

section Steps

variable {cfg : Config} {flash₀ : Mem} {saves completed : ℕ} {f f' : Store} {flash : Mem}
  {last pending : Option (List UInt8)}

theorem SaveSafe.le (h : SaveSafe cfg f flash) (hdvd : 512 ∣ f.tarsize) : 512 ≤ f.tarsize :=
  Nat.le_of_dvd h.pos hdvd

theorem Inv.on (h : Inv cfg flash₀ saves completed (.on f flash last)) (hsync : Synced cfg f' flash) :
    Inv cfg flash₀ saves completed (.on f' flash last) where
  number_le := h.number_le
  atomic := h.atomic
  last_ne := h.last_ne
  synced := by
    rintro _ _ _ ⟨⟩
    exact hsync

theorem Inv.init (h : Inv cfg flash₀ saves completed (.off flash last pending)) (mem : Mem)
    {a : Option (List UInt8)} (ha : a = last ∨ pending.isSome = true ∧ a = pending) (hload : Holds cfg flash a) :
    Inv cfg flash₀ saves completed (.on (factoryInit cfg allRead (powerOn mem) flash) flash a) where
  number_le := h.number_le
  atomic := (Device.atomic_on ..).mpr hload
  last_ne := by
    intro hpos
    rcases ha with rfl | ⟨hcut, rfl⟩
    · exact h.last_ne hpos
    · exact Option.ne_none_iff_isSome.mpr hcut
  synced := by
    intro f flash' last heq
    have ⟨hf, hflash, _⟩ := Device.on.inj heq
    rw [← hf, ← hflash]
    exact synced_init cfg mem flash

variable (h : Inv cfg flash₀ saves completed (.on f flash last))

include h

theorem Inv.powerOff :
    Inv cfg flash₀ saves completed (.off flash last none) where
  number_le := h.number_le
  atomic := by
    exact Or.inl h.atomic
  last_ne := h.last_ne
  synced := by
    rintro _ _ _ ⟨⟩

theorem Inv.numbered
    (hsaves : number cfg flash₀ + (saves + 1) < 2 ^ 32) :
    Synced cfg f flash ∧ number cfg flash ≤ number cfg flash₀ + saves ∧ f.nextSeq = f.seqNum + 1 := by
  have hsync := h.synced rfl
  have hnumber : number cfg flash ≤ number cfg flash₀ + saves := h.number_le
  have hseq := hsync.number_eq
  exact ⟨hsync, hnumber, Nat.mod_eq_of_lt (by omega)⟩

theorem Inv.save (hdirty : f.dirty = true)
    (hsafe : SaveSafe cfg f flash) (hsaves : number cfg flash₀ + (saves + 1) < 2 ^ 32) :
    Inv cfg flash₀ (saves + 1) (completed + 1)
      (.on (factorySave cfg f flash .ok).2.1 (factorySave cfg f flash .ok).2.2 (some (archive f))) := by
  obtain ⟨hsync, hnumber, hnext⟩ := h.numbered hsaves
  have hdvd := hsync.dvd hdirty
  have hfits := hsafe.fits
  have hseq := hsync.number_eq
  have ⟨hsel, hnum, hholds⟩ := holds_saved hsync hsafe (hsafe.le hdvd) hdvd (by omega)
    (show f.tarsize + 512 ≤ f.tarsize + 512 + cfg.tarPadding by omega) hfits
  rw [factorySave_ok hdirty hdvd hsafe.pos (by omega)]
  refine ⟨?_, hholds, fun _ h => (by cases h), ?_⟩
  · show number cfg (flashSaved cfg f flash _) ≤ _
    omega
  · rintro _ _ _ ⟨⟩
    exact ⟨Or.inl hsel, hnum.symm, fun h => by cases h⟩

theorem Inv.cut (hdirty : f.dirty = true)
    (hsafe : SaveSafe cfg f flash) (hsaves : number cfg flash₀ + (saves + 1) < 2 ^ 32) (n : ℕ) :
    Inv cfg flash₀ (saves + 1) completed
      (.off (factorySave cfg f flash (.failed n)).2.2 last (some (archive f))) := by
  obtain ⟨hsync, hnumber, hnext⟩ := h.numbered hsaves
  have hdvd := hsync.dvd hdirty
  have hfits := hsafe.fits
  have hseq := hsync.number_eq
  rw [factorySave_failed hdirty hdvd hsafe.pos (by omega)]
  set len := min (n * 512) (f.tarsize + 512 + cfg.tarPadding) with hlen
  have hlen512 : 512 ∣ len := by
    have hpad := cfg.tarPadding_dvd
    rcases Nat.le_total (n * 512) (f.tarsize + 512 + cfg.tarPadding) with hle | hle
    · rw [hlen, Nat.min_eq_left hle]
      exact Nat.dvd_mul_left 512 n
    · omega
  -- a block is written or not, so the copy of the header is there as a whole or not at all
  rcases Nat.lt_or_ge f.tarsize len with hcopy | hle
  · have ⟨hsel, hnum, hholds⟩ := holds_saved hsync hsafe (hsafe.le hdvd) hdvd (by omega)
      (show f.tarsize + 512 ≤ len by omega) (by omega)
    refine ⟨?_, ?_, h.last_ne, by rintro _ _ _ ⟨⟩⟩
    · show number cfg (flashSaved cfg f flash len) ≤ _
      omega
    · exact Or.inr ⟨archive f, rfl, hholds⟩
  · have hcut := factoryInit_cut hsync hsafe hlen512 hle
    refine ⟨?_, ?_, h.last_ne, by rintro _ _ _ ⟨⟩⟩
    · show number cfg (flashSaved cfg f flash len) ≤ _
      rw [(hcut f).2]
      omega
    · refine Or.inl fun mem => ?_
      rw [(hcut (powerOn mem)).1]
      exact h.atomic mem

end Steps

variable {cfg : Config}

/-- The invariant holds along every run whose saves are safe and whose sequence number does not start
again. -/
theorem Run.inv {flash₀ : Mem} {saves completed : ℕ} {d : Device}
    (h : Run cfg flash₀ saves completed d) (hsaves : number cfg flash₀ + saves < 2 ^ 32) :
    Inv cfg flash₀ saves completed d := by
  induction h with
  | start hload =>
    refine ⟨Nat.le_add_right _ 0, ?_, fun h => absurd h (lt_irrefl 0), by rintro _ _ _ ⟨⟩⟩
    exact Or.inl hload
  | init mem _ ha hload ih => exact (ih hsaves).init mem ha hload
  | write _ hw ih => exact (ih hsaves).on (((ih hsaves).synced rfl).write hw)
  | delete _ hd ih => exact (ih hsaves).on (((ih hsaves).synced rfl).delete hd)
  | unchanged _ hclean ih =>
    refine (ih hsaves).on (((ih hsaves).synced rfl).of_frame ?_ ?_ ?_)
    all_goals simp [factorySave, hclean]
  | save _ hdirty hsafe ih => exact (ih (by omega)).save hdirty hsafe hsaves
  | cut n _ hdirty hsafe ih => exact (ih (by omega)).cut hdirty hsafe hsaves n
  | powerOff _ ih => exact (ih hsaves).powerOff

/-- **Saving is atomic.** In every run of safe saves, fewer than sequence numbers are left, the next `factory_init`
loads exactly the archive of the last completed save or that being saved at the cut, and there is one once a save has
completed. -/
theorem run_atomic {cfg : Config} {flash₀ : Mem} {saves completed : ℕ} {d : Device}
    (h : Run cfg flash₀ saves completed d) (hsaves : number cfg flash₀ + saves < 2 ^ 32) :
    d.Atomic cfg ∧ (0 < completed → d.last ≠ none) :=
  ⟨(h.inv hsaves).atomic, (h.inv hsaves).last_ne⟩

/-! ## Runs of a new device -/

theorem holds_blank (cfg : Config) : Holds cfg blank none := by
  intro mem
  have hsel : selectPp cfg allRead blank = none := by
    unfold selectPp
    simp [halfOk_blank]
  simp [factoryInit, hsel, powerOn]

theorem number_blank (cfg : Config) : number cfg blank = 0 := by
  apply number_of_none
  unfold selectPp
  simp [halfOk_blank]

theorem run_freshStore (cfg : Config) : Run cfg blank 0 0 (.on (freshStore cfg) blank none) :=
  .init (fun _ => 0) (.start (holds_blank cfg)) (Or.inl rfl) (holds_blank cfg)

theorem stale_blank (f : Store) (h512 : 512 ≤ f.tarsize) (hn : f.Named) (a : ℕ) :
    read blank a 512 ≠ read (saveBuffer f) 0 512 := by
  intro heq
  have hfirst : blank (a + 0) = saveBuffer f 0 := by
    have := congrArg (fun l : List UInt8 => l[0]?) heq
    simpa only [getElem?_read _ _ _ _ (Nat.zero_lt_succ 511), Option.some.injEq, Nat.zero_add] using this
  rw [blank, saveBuffer_lt (by omega), fillRtkHeader_frame (Or.inl (by omega))] at hfirst
  have hname := startsWith_eq_true.mp hn
  rw [factoryHeader, List.cons_append, List.length_cons, read_succ, List.cons.injEq, ← hfirst] at hname
  exact absurd hname.1 (by decide)

theorem run_atomic_first : ∃ f, factoryWrite nasConfig (freshStore nasConfig) pathA.1 [65] = some (0, f) ∧
    ∀ n, Device.Atomic nasConfig
      (.off (factorySave nasConfig f blank (.failed n)).2.2 none (some (archive f))) := by
  obtain ⟨f, hw, hn, hsize, -, -⟩ := freshStore_write nasConfig [65] (by decide)
  have htar : f.tarsize = 1536 := hsize
  have hsafe : SaveSafe nasConfig f blank := by
    refine ⟨?_, by omega, hn, ?_, stale_blank f (by omega) hn _⟩
    · rw [htar]
      decide
    · rw [htar]
      decide
  refine ⟨f, hw, fun n => (run_atomic (.cut n ((run_freshStore nasConfig).write hw)
    (factoryWrite_zero hw).1 hsafe) ?_).1⟩
  rw [number_blank]
  decide

theorem holds_rejected {f : Store} {path data : List UInt8}
    (hw : factoryWrite cfg (freshStore cfg) path data = some (0, f))
    (hfits : f.tarsize + 512 + cfg.tarPadding ≤ cfg.half)
    (hreject : ¬ (f.Named ∧ f.tarsize + 512 < cfg.half)) :
    (factorySave cfg f blank .ok).1 = 0 ∧ Holds cfg (factorySave cfg f blank .ok).2.2 none := by
  have ⟨hdirty, hdvd, h512⟩ := factoryWrite_zero hw
  have hhalf := cfg.half_lt
  have hpp := ((freshStore_reachable cfg).write path data hw).inStep.pp_lt
  rw [factorySave_ok hdirty hdvd (by omega) (by omega)]
  refine ⟨rfl, fun mem => ?_⟩
  have hsaved : SavedAt cfg f (flashSaved cfg f blank (f.tarsize + 512 + cfg.tarPadding)) f.nextPp :=
    savedAt_flashSaved (by omega)
  have htarget := Bool.eq_false_iff.mpr
    (mt (halfOk_of_savedAt hsaved h512 (by omega)).mp hreject)
  have hother : halfOk cfg allRead (flashSaved cfg f blank (f.tarsize + 512 + cfg.tarPadding)) f.currentPp =
      halfOk cfg allRead blank f.currentPp ∧ _ :=
    halfOk_congr fun k hk hlt => flashSaved_other hpp hfits hk hlt
  have hsel := selectPp_of_not hpp htarget
  rw [hother.1, halfOk_blank, if_neg (by decide)] at hsel
  simp [factoryInit, hsel, powerOn]

theorem not_holds_of_default {flash : Mem} {a : List UInt8} (h : Holds cfg flash none)
    (ha : a.length ≠ 512) : ¬ Holds cfg flash (some a) := by
  intro hsome
  have h1 := (h fun _ => 0).1
  have h2 := (hsome fun _ => 0).1
  exact ha (h2.symm.trans h1)

def pathT : CStr := ⟨[116], by decide⟩

theorem freshStore_write_t (cfg : Config) (hroom : 2048 + cfg.tarPadding ≤ cfg.half) :
    ∃ f, factoryWrite cfg (freshStore cfg) pathT.1 [65] = some (0, f) ∧ ¬ f.Named ∧ f.tarsize = 1024 := by
  have hsize : (freshStore cfg).tarsize = 512 := by rw [freshStore_eq cfg]
  have hpath : NameOk pathT := ⟨by decide, by decide, fun _ hc => by cases hc; decide⟩
  have hadmit : blocks [(65 : UInt8)].length + (freshStore cfg).tarsize + 512 + cfg.tarPadding ≤
      cfg.half := by
    rw [hsize, show blocks [(65 : UInt8)].length = 512 from rfl]
    omega
  obtain ⟨f, out, hw, hrew, harch, htar, -, -⟩ :=
    factoryWrite_spec (freshStore_wellFormed cfg) hpath hadmit
  have hout : ∃ e, out = [e] ∧ e.name = pathT.1 ∧ e.bytes.length = 1024 := by
    generalize hes : [abRoot] = es at hrew
    cases hrew with
    | append hno =>
      rw [← hes] at hno
      exact absurd (hno abRoot (by simp)) (by decide)
    | @replace l r e e' _ _ hname _ hlen =>
      have hnil : l = [] ∧ r = [] := by
        have := congrArg List.length hes
        simp only [List.length_append, List.length_cons, List.length_nil] at this
        exact ⟨List.length_eq_zero_iff.mp (by omega), List.length_eq_zero_iff.mp (by omega)⟩
      rw [hnil.1, hnil.2]
      exact ⟨e', rfl, hname, hlen⟩
  obtain ⟨e, rfl, hname, hlen⟩ := hout
  refine ⟨f, hw, fun hn => ?_, ?_⟩
  · have hat := (e.valid.nameAt (read_header harch.stored)).trans hname
    have ⟨rest, hread⟩ := read_nameAt (show (nameAt f.mem 0 100).length < 100 by rw [hat]; decide)
    have hroot := startsWith_eq_true.mp hn
    rw [hat, read_succ, read_succ] at hread
    -- the second byte is the end of one name, and `m` in the other
    have h1 : some (f.mem 1) = some 0 := congrArg (fun l : List UInt8 => l[1]?) hread
    have h2 : some (f.mem 1) = some 109 := congrArg (fun l : List UInt8 => l[1]?) hroot
    exact absurd (h1.symm.trans h2) (by decide)
  · rw [htar, bytes_singleton, hlen]

/-- After a completed first save the empty default is loaded: with `NAS_ENABLE` after writing `t`, and without it for
an archive that fills the half. -/
theorem run_not_atomic :
    (∃ f, Run nasConfig blank 0 0 (.on f blank none) ∧
      f.tarsize + 512 + nasConfig.tarPadding ≤ nasConfig.half ∧ (factorySave nasConfig f blank .ok).1 = 0 ∧
      Holds nasConfig (factorySave nasConfig f blank .ok).2.2 none ∧
      ¬ Holds nasConfig (factorySave nasConfig f blank .ok).2.2 (some (archive f))) ∧
    ∃ f, Run defaultConfig blank 0 0 (.on f blank none) ∧
      f.tarsize + 512 + defaultConfig.tarPadding ≤ defaultConfig.half ∧
      (factorySave defaultConfig f blank .ok).1 = 0 ∧
      Holds defaultConfig (factorySave defaultConfig f blank .ok).2.2 none ∧
      ¬ Holds defaultConfig (factorySave defaultConfig f blank .ok).2.2 (some (archive f)) := by
  constructor
  · obtain ⟨f, hw, hn, hsize⟩ := freshStore_write_t nasConfig (by decide)
    have hfits : f.tarsize + 512 + nasConfig.tarPadding ≤ nasConfig.half := by
      rw [hsize]
      decide
    have hrej := holds_rejected hw hfits fun h => hn h.1
    refine ⟨f, (run_freshStore nasConfig).write hw, hfits, hrej.1, hrej.2,
      not_holds_of_default hrej.2 ?_⟩
    rw [archive, length_read, hsize]
    decide
  · have hdvd : 512 ∣ 4192768 := by decide
    obtain ⟨f, hw, -, hsize, -, -⟩ := freshStore_write defaultConfig (List.replicate 4192768 65)
      (by rw [List.length_replicate, blocks_of_dvd hdvd]; decide)
    rw [List.length_replicate, blocks_of_dvd hdvd] at hsize
    have hfits : f.tarsize + 512 + defaultConfig.tarPadding ≤ defaultConfig.half := by
      rw [hsize]
      decide
    have hrej := holds_rejected hw hfits fun h => absurd h.2 (by rw [hsize]; decide)
    refine ⟨f, (run_freshStore defaultConfig).write hw, hfits, hrej.1, hrej.2,
      not_holds_of_default hrej.2 ?_⟩
    rw [archive, length_read, hsize]
    decide

end NasFirmware.Factory
