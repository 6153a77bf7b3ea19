import NasFirmware.Factory.Map

/-!
# Saving and loading the archive

* `SavedAt`: a half starts with the buffer of a save; **`halfOk_of_savedAt`**: when the loader accepts it;
* **`saveLoads_iff`**: when a save stays within its half and is loaded back.
-/

namespace NasFirmware.Factory

open ByteMem CString Tar

def allRead : ℕ → Bool := fun _ => true

def Store.Named (f : Store) : Prop := strcmpEq f.mem 0 factoryHeader = true

/-- Half `pp` starts with the archive that `f` saves and the copy of its header. -/
def SavedAt (cfg : Config) (f : Store) (flash : Mem) (pp : ℕ) : Prop :=
  read flash (cfg.base pp) (f.tarsize + 512) = read (saveBuffer f) 0 (f.tarsize + 512)

/-! ## The buffer -/

section Buffer

variable {f : Store}

theorem saveBuffer_lt {k : ℕ} (hk : k < f.tarsize) :
    saveBuffer f k = fillRtkHeader f.mem f.tarsize f.nextSeq k :=
  write_apply_lt hk

theorem saveBuffer_header (h512 : 512 ≤ f.tarsize) :
    read (saveBuffer f) 0 512 = read (fillRtkHeader f.mem f.tarsize f.nextSeq) 0 512 :=
  read_congr fun k _ hk => saveBuffer_lt (by omega)

theorem saveBuffer_copy (h512 : 512 ≤ f.tarsize) :
    read (saveBuffer f) f.tarsize 512 = read (saveBuffer f) 0 512 := by
  have h := read_write_self (fillRtkHeader f.mem f.tarsize f.nextSeq) f.tarsize
    (read (fillRtkHeader f.mem f.tarsize f.nextSeq) 0 512)
  rw [length_read] at h
  rw [saveBuffer_header h512, ← h]
  rfl

end Buffer

variable {cfg : Config} {flash : Mem}

section Accepted

variable {f : Store} {pp : ℕ}

variable (h : SavedAt cfg f flash pp)

include h

variable (h512 : 512 ≤ f.tarsize)

include h512

theorem SavedAt.header :
    read flash (cfg.base pp) 512 = read (fillRtkHeader f.mem f.tarsize f.nextSeq) 0 512 := by
  have := read_slice h (o := 0) (k := 512) (by omega)
  rwa [Nat.add_zero, Nat.add_zero, saveBuffer_header h512] at this

theorem SavedAt.field {o n : ℕ} (hn : o + n ≤ 512) :
    read flash (cfg.base pp + o) n = read (fillRtkHeader f.mem f.tarsize f.nextSeq) o n := by
  have := read_slice (h.header h512) hn
  rwa [Nat.zero_add] at this

theorem SavedAt.ppTarsize
    (hlt : f.tarsize < 2 ^ 32) : ppTarsize cfg flash pp = f.tarsize :=
  load32_of_read hlt ((h.field h512 (by omega)).trans fillRtkHeader_tarsize)

theorem SavedAt.ppSeqnum :
    ppSeqnum cfg flash pp = f.nextSeq :=
  load32_of_read (Nat.mod_lt _ (by omega)) ((h.field h512 (by omega)).trans fillRtkHeader_seqnum)

/-- **When the loader accepts a saved archive**: it is named right and small enough. -/
theorem halfOk_of_savedAt
    (hlt : f.tarsize < 2 ^ 32) : halfOk cfg allRead flash pp = true ↔
      f.Named ∧ f.tarsize + 512 < cfg.half := by
  set header := fillRtkHeader f.mem f.tarsize f.nextSeq with hheader
  have hblock : read (headerBlock cfg flash pp) 0 512 = read header 0 512 := by
    rw [← h.header h512, headerBlock]
    exact read_ofList_read ..
  have hname : strcmpEq (headerBlock cfg flash pp) 0 factoryHeader = strcmpEq f.mem 0 factoryHeader := by
    have hread := read_slice hblock (o := 0) (k := 13) (by omega)
    rw [Nat.zero_add, hheader, read_congr (m := f.mem) fun k _ hk =>
      fillRtkHeader_frame (Or.inl (by omega))] at hread
    unfold strcmpEq startsWith
    rw [show (factoryHeader ++ [(0 : UInt8)]).length = 13 from rfl, hread]
  have hsig : strcmpEq (headerBlock cfg flash pp) 508 rtk = true := by
    have hread := read_slice hblock (o := 508) (k := 4) (by omega)
    exact startsWith_eq_true.mpr hread
  have hcopy : read flash (cfg.base pp + f.tarsize) 512 = read flash (cfg.base pp) 512 := by
    have h1 := read_slice h (o := f.tarsize) (k := 512) le_rfl
    have h2 := read_slice h (o := 0) (k := 512) (by omega)
    rw [Nat.zero_add, saveBuffer_copy h512] at h1
    rw [h1, ← h2, Nat.add_zero]
  have hcheck : f.Named → tarCheckHeader (headerBlock cfg flash pp) 0 = true := by
    intro hn
    refine check_of_fields hblock ?_ ?_
    · have hfirst : header 0 = f.mem 0 := fillRtkHeader_frame (Or.inl (by omega))
      have ht : f.mem 0 = 116 := by
        have := startsWith_eq_true.mp hn
        rw [factoryHeader, List.cons_append, List.length_cons, read_succ, List.cons.injEq] at this
        exact this.1
      rw [hfirst, ht]
      decide
    · rw [Nat.zero_add]
      exact fillRtkHeader_sum
  have hall : (List.range (pp + 1)).all allRead = true := by simp [allRead]
  unfold halfOk
  simp only [h.ppTarsize h512 hlt, hname, hsig, hcopy, hall, Bool.and_eq_true, decide_eq_true_eq,
    beq_self_eq_true, Bool.and_true, Bool.true_and]
  constructor
  · rintro ⟨⟨⟨hn, -⟩, -⟩, hsize⟩
    exact ⟨hn, by omega⟩
  · rintro ⟨hn, hsize⟩
    exact ⟨⟨⟨hn, hcheck hn⟩, by omega⟩, by omega⟩

theorem factoryInit_of_savedAt
    (hlt : f.tarsize < 2 ^ 32) (hdvd : 512 ∣ f.tarsize) (hsel : selectPp cfg allRead flash = some pp)
    (g : Store) : let l := factoryInit cfg allRead g flash
    l.currentPp = pp ∧ l.seqNum = f.nextSeq ∧ l.tarsize = f.tarsize ∧
      read l.mem 0 f.tarsize = read (saveBuffer f) 0 f.tarsize := by
  intro l
  have hblocks : blocks f.tarsize = f.tarsize := by
    rw [blocks]
    omega
  have hl : l = { g with
      mem := write (memset g.mem 0 cfg.half 0) 0 (read flash (cfg.base pp) f.tarsize)
      tarsize := f.tarsize
      currentPp := pp
      seqNum := f.nextSeq } := by
    simp [l, factoryInit, hsel, h.ppTarsize h512 hlt, h.ppSeqnum h512, hblocks]
  rw [hl]
  refine ⟨rfl, rfl, rfl, ?_⟩
  have hself := read_write_self (memset g.mem 0 cfg.half 0) 0 (read flash (cfg.base pp) f.tarsize)
  rw [length_read] at hself
  have hpart := read_slice h (o := 0) (k := f.tarsize) (by omega)
  exact hself.trans hpart

end Accepted

variable {cfg : Config} {readOk : ℕ → Bool} {flash : Mem} {pp n : ℕ} {f f' : Store} {path data : List UInt8}

/-- Half `t` is accepted and has the number after `s`; half `c` has `s` if accepted. Then `t` is taken, unless the
numbers start again in half 1. -/
theorem selectPp_of_newer {c t s : ℕ}
    (hct : c = 0 ∧ t = 1 ∨ c = 1 ∧ t = 0)
    (hs : s < 2 ^ 32) (ht : halfOk cfg readOk flash t = true)
    (hseq : ppSeqnum cfg flash t = (s + 1) % 2 ^ 32)
    (hc : halfOk cfg readOk flash c = true → ppSeqnum cfg flash c = s) :
    selectPp cfg readOk flash = some t ↔
      ¬ (c = 0 ∧ s = 2 ^ 32 - 1 ∧ halfOk cfg readOk flash 0 = true) := by
  unfold selectPp
  rcases hct with ⟨rfl, rfl⟩ | ⟨rfl, rfl⟩
  · cases hok : halfOk cfg readOk flash 0 with
    | false => simp [ht]
    | true =>
      rw [hc hok, hseq, ht]
      rcases Nat.lt_or_ge (s + 1) (2 ^ 32) with hlt | hge
      · simp only
        rw [if_pos (by omega), if_neg (by omega)]
        simp only [true_iff]
        omega
      · have hwrap : s = 2 ^ 32 - 1 := by omega
        subst hwrap
        simp
  · cases hok : halfOk cfg readOk flash 1 with
    | false => simp [ht]
    | true =>
      rw [hc hok, hseq, ht]
      rcases Nat.lt_or_ge (s + 1) (2 ^ 32) with hlt | hge
      · rw [Nat.mod_eq_of_lt hlt]
        simp only
        rw [if_neg (by omega)]
        simp
      · have hwrap : s = 2 ^ 32 - 1 := by omega
        subst hwrap
        simp

/-! ## Reachable states -/

structure InStep (cfg : Config) (f : Store) (flash : Mem) : Prop where
  pp_lt : f.currentPp < 2
  seq_lt : f.seqNum < 2 ^ 32
  seq_eq : halfOk cfg allRead flash f.currentPp = true → ppSeqnum cfg flash f.currentPp = f.seqNum

/-- The states after `factory_init` and calls of `factory_write` that returned 0. -/
inductive Reachable (cfg : Config) (flash : Mem) : Store → Prop
  | init (g : Store) (hpp : g.currentPp < 2) (hseq : g.seqNum < 2 ^ 32) :
      Reachable cfg flash (factoryInit cfg allRead g flash)
  | write {f f' : Store} (path data : List UInt8) (h : Reachable cfg flash f)
      (hw : factoryWrite cfg f path data = some (0, f')) : Reachable cfg flash f'

theorem selectPp_some (h : selectPp cfg readOk flash = some pp) : pp < 2 ∧ halfOk cfg readOk flash pp = true := by
  unfold selectPp at h
  cases h0 : halfOk cfg readOk flash 0 <;> cases h1 : halfOk cfg readOk flash 1 <;>
    simp only [h0, h1] at h
  · cases h
  · cases h
    exact ⟨by omega, h1⟩
  · cases h
    exact ⟨by omega, h0⟩
  · split_ifs at h <;> cases h
    · exact ⟨by omega, h0⟩
    · exact ⟨by omega, h1⟩
    · exact ⟨by omega, h0⟩

theorem selectPp_none (h : selectPp cfg readOk flash = none) (hpp : pp < 2) : halfOk cfg readOk flash pp = false := by
  unfold selectPp at h
  cases h0 : halfOk cfg readOk flash 0 <;> cases h1 : halfOk cfg readOk flash 1 <;>
    simp only [h0, h1] at h
  · rcases Nat.lt_succ_iff_lt_or_eq.mp hpp with hlt | rfl
    · rwa [Nat.lt_one_iff.mp hlt]
    · exact h1
  · cases h
  · cases h
  · split_ifs at h

theorem inStep_init (cfg : Config) (flash : Mem) (g : Store) (hpp : g.currentPp < 2)
    (hseq : g.seqNum < 2 ^ 32) : InStep cfg (factoryInit cfg allRead g flash) flash := by
  unfold factoryInit
  cases hsel : selectPp cfg allRead flash with
  | none =>
    refine ⟨hpp, hseq, fun hok => ?_⟩
    rw [show halfOk cfg allRead flash g.currentPp = false from selectPp_none hsel hpp] at hok
    cases hok
  | some pp => exact ⟨(selectPp_some hsel).1, load32_lt _ _, fun _ => rfl⟩

theorem factoryWrite_frame {ret : ℤ}
    (h : factoryWrite cfg f path data = some (ret, f')) :
    f'.currentPp = f.currentPp ∧ f'.seqNum = f.seqNum := by
  unfold factoryWrite at h
  split_ifs at h
  · cases h
    exact ⟨rfl, rfl⟩
  · obtain ⟨⟨mem, tarsize⟩, -, heq⟩ := Option.map_eq_some_iff.mp h
    dsimp only at heq
    split_ifs at heq <;> cases heq <;> exact ⟨rfl, rfl⟩

theorem Reachable.inStep (h : Reachable cfg flash f) :
    InStep cfg f flash := by
  induction h with
  | init g hpp hseq => exact inStep_init cfg flash g hpp hseq
  | write path data _ hw ih =>
    obtain ⟨h1, h2⟩ := factoryWrite_frame hw
    exact ⟨h1 ▸ ih.pp_lt, h2 ▸ ih.seq_lt, by rw [h1, h2]; exact ih.seq_eq⟩

theorem tarAddOrDelete_dvd {nas add : Bool} {m m' : Mem} {dst tmp tmpLength : ℕ}
    {filename src : List UInt8}
    (h : tarAddOrDelete nas m dst filename src tmp tmpLength add = some (m', n)) : 512 ∣ n := by
  unfold tarAddOrDelete at h
  simp only [Option.bind_eq_bind, Option.bind_eq_some_iff, Option.some.injEq, Prod.mk.injEq] at h
  obtain ⟨w, hloop, -, rfl⟩ := h
  have hw : 512 ∣ w.tmpPos := by
    refine CLoop.loop_invariant (fun w : Walk => 512 ∣ w.tmpPos) (fun w => 512 ∣ w.tmpPos)
      (fun s s' hs hb => ?_) (fun s r hs hb => ?_) (Nat.dvd_zero _) hloop
    · unfold tarPass at hb
      dsimp only at hb
      split_ifs at hb <;> cases hb
      · exact Nat.dvd_add (Nat.dvd_add hs (Nat.dvd_refl _)) (blocks_dvd _)
      · exact hs
      · exact Nat.dvd_add (Nat.dvd_add hs (Nat.dvd_refl _)) (blocks_dvd _)
      · exact hs
    · unfold tarPass at hb
      dsimp only at hb
      split_ifs at hb <;> cases hb <;> exact hs
  unfold tarAppend
  split_ifs
  · exact Nat.dvd_add (Nat.dvd_add hw (Nat.dvd_refl _)) (blocks_dvd _)
  · exact hw

theorem factoryWrite_zero (h : factoryWrite cfg f path data = some (0, f')) :
    f'.dirty = true ∧ 512 ∣ f'.tarsize ∧ 512 ≤ f'.tarsize := by
  unfold factoryWrite at h
  split_ifs at h
  · cases h
  · obtain ⟨⟨mem, tarsize⟩, hadd, heq⟩ := Option.map_eq_some_iff.mp h
    have hdvd := tarAddOrDelete_dvd hadd
    dsimp only at heq
    split_ifs at heq with hzero <;> cases heq
    exact ⟨rfl, hdvd, Nat.le_of_dvd (Nat.pos_of_ne_zero hzero) hdvd⟩

/-! ## Saving -/

def Touched (cfg : Config) (f : Store) (a : ℕ) : Prop :=
  cfg.base f.nextPp ≤ a ∧ a < cfg.base f.nextPp + blocks (f.tarsize + 512 + cfg.tarPadding)

/-- If `factory_save` returns 0, it wrote to the target half only, and `factory_init` loads the archive from there. -/
def SaveLoads (cfg : Config) (f : Store) (flash : Mem) : Prop :=
  ∀ res g, let saved := factorySave cfg f flash res
    saved.1 = 0 →
    (∀ a, Touched cfg f a → a < cfg.base f.nextPp + cfg.half) ∧
    let l := factoryInit cfg allRead g saved.2.2
    l.currentPp = f.nextPp ∧ l.tarsize = f.tarsize ∧
      read l.mem 0 f.tarsize = read saved.2.1.mem 0 f.tarsize

/-- The save is refused, or the first header is named right, header copy and padding fit the half, the loader accepts
the size, and the sequence number does not start again in half 1. -/
def SaveOk (cfg : Config) (f : Store) (flash : Mem) : Prop :=
  cfg.half < f.tarsize + 512 ∨
    f.Named ∧ f.tarsize + 512 + cfg.tarPadding ≤ cfg.half ∧ f.tarsize + 512 < cfg.half ∧
      ¬ (f.currentPp = 0 ∧ f.seqNum = 2 ^ 32 - 1 ∧ halfOk cfg allRead flash 0 = true)

section Saved

variable {f : Store} {n k : ℕ}

theorem Config.tarPadding_dvd (cfg : Config) : 512 ∣ cfg.tarPadding := by
  unfold Config.tarPadding
  split_ifs
  · exact Dvd.intro 2 rfl
  · exact Nat.dvd_zero _

theorem blocks_of_dvd (h : 512 ∣ n) : blocks n = n := by
  rw [blocks]
  omega

theorem blocks_total (hdvd : 512 ∣ f.tarsize) :
    blocks (f.tarsize + 512 + cfg.tarPadding) = f.tarsize + 512 + cfg.tarPadding :=
  blocks_of_dvd (Nat.dvd_add (Nat.dvd_add hdvd (Nat.dvd_refl _)) cfg.tarPadding_dvd)

def flashSaved (cfg : Config) (f : Store) (flash : Mem) (n : ℕ) : Mem :=
  write flash (cfg.base f.nextPp) (read (saveBuffer f) 0 n)

theorem factorySave_ok (hdirty : f.dirty = true) (hdvd : 512 ∣ f.tarsize) (hpos : 0 < f.tarsize)
    (hle : f.tarsize + 512 ≤ cfg.half) : factorySave cfg f flash .ok =
      (0, { mem := memset (saveBuffer f) f.tarsize 512 0, tarsize := f.tarsize, dirty := false,
            currentPp := f.nextPp, seqNum := f.nextSeq },
        flashSaved cfg f flash (f.tarsize + 512 + cfg.tarPadding)) := by
  unfold factorySave factorySaveToEMMC
  simp only [hdirty, hpos, decide_true, Bool.and_self, if_true, Nat.not_lt.mpr hle, if_false, emmcWrite,
    blocks_total hdvd]
  rfl

theorem factorySave_failed (hdirty : f.dirty = true) (hdvd : 512 ∣ f.tarsize) (hpos : 0 < f.tarsize)
    (hle : f.tarsize + 512 ≤ cfg.half) (n : ℕ) : (factorySave cfg f flash (.failed n)).2.2 =
      flashSaved cfg f flash (min (n * 512) (f.tarsize + 512 + cfg.tarPadding)) := by
  unfold factorySave factorySaveToEMMC
  simp only [hdirty, hpos, decide_true, Bool.and_self, if_true, Nat.not_lt.mpr hle, if_false, emmcWrite,
    blocks_total hdvd]
  rfl

theorem factorySave_zero {res : WriteResult} (hdirty : f.dirty = true) (hpos : 0 < f.tarsize)
    (h : (factorySave cfg f flash res).1 = 0) : f.tarsize + 512 ≤ cfg.half ∧ res = .ok := by
  unfold factorySave factorySaveToEMMC at h
  simp only [hdirty, hpos, decide_true, Bool.and_self, if_true] at h
  split_ifs at h with hbig
  · cases h
  · cases res with
    | ok => exact ⟨by omega, rfl⟩
    | failed n => cases h

theorem read_flashSaved {o : ℕ} (hk : o + k ≤ n) :
    read (flashSaved cfg f flash n) (cfg.base f.nextPp + o) k = read (saveBuffer f) o k := by
  have h := read_write_self flash (cfg.base f.nextPp) (read (saveBuffer f) 0 n)
  rw [length_read] at h
  have hpart := read_slice h hk
  rwa [Nat.zero_add] at hpart

theorem savedAt_flashSaved (hn : f.tarsize + 512 ≤ n) :
    SavedAt cfg f (flashSaved cfg f flash n) f.nextPp := by
  have hread : read (flashSaved cfg f flash n) (cfg.base f.nextPp + 0) (f.tarsize + 512) =
      read (saveBuffer f) 0 (f.tarsize + 512) := by
    apply read_flashSaved
    rwa [Nat.zero_add]
  rwa [Nat.add_zero] at hread

theorem base_disjoint (cfg : Config) (f : Store) (hpp : f.currentPp < 2) :
    cfg.base f.currentPp + cfg.half ≤ cfg.base f.nextPp ∨
      cfg.base f.nextPp + cfg.half ≤ cfg.base f.currentPp := by
  unfold Config.base Store.nextPp
  rcases Nat.lt_succ_iff_lt_or_eq.mp hpp with h0 | h1
  · rw [Nat.lt_one_iff.mp h0]
    left
    simp
  · rw [h1]
    simp

theorem halfOk_congr {flash' : Mem} {pp : ℕ}
    (h : ∀ k, cfg.base pp ≤ k → k < cfg.base pp + cfg.half → flash' k = flash k) :
    halfOk cfg allRead flash' pp = halfOk cfg allRead flash pp ∧
      ppSeqnum cfg flash' pp = ppSeqnum cfg flash pp ∧
      ppTarsize cfg flash' pp = ppTarsize cfg flash pp := by
  have hhalf := cfg.half_le
  have hread : ∀ o n, o + n ≤ cfg.half →
      read flash' (cfg.base pp + o) n = read flash (cfg.base pp + o) n := fun o n hn =>
    read_congr fun k hk hlt => h k (by omega) (by omega)
  have hload : ∀ o, o + 4 ≤ cfg.half →
      load32 flash' (cfg.base pp + o) = load32 flash (cfg.base pp + o) := by
    intro o ho
    simp only [load32, load16]
    rw [h _ (by omega) (by omega), h _ (by omega) (by omega), h _ (by omega) (by omega),
      h _ (by omega) (by omega)]
  have hhead : read flash' (cfg.base pp) 512 = read flash (cfg.base pp) 512 := by
    simpa using hread 0 512 (by omega)
  have hsize : ppTarsize cfg flash' pp = ppTarsize cfg flash pp := hload 504 (by omega)
  refine ⟨?_, hload 500 (by omega), hsize⟩
  unfold halfOk
  simp only [hsize, headerBlock, hhead]
  by_cases hlt : ppTarsize cfg flash pp < cfg.half - 512
  · rw [hread _ _ (by omega)]
  · simp [hlt]

theorem flashSaved_other (hpp : f.currentPp < 2) (hle : n ≤ cfg.half)
    (hk : cfg.base f.currentPp ≤ k) (hlt : k < cfg.base f.currentPp + cfg.half) :
    flashSaved cfg f flash n k = flash k := by
  apply write_apply_of_not
  rw [length_read]
  rcases base_disjoint cfg f hpp with h | h <;> omega

theorem nextPp_cases (hpp : f.currentPp < 2) :
    f.currentPp = 0 ∧ f.nextPp = 1 ∨ f.currentPp = 1 ∧ f.nextPp = 0 := by
  unfold Store.nextPp
  omega

theorem selectPp_flashSaved (hstep : InStep cfg f flash) (h512 : 512 ≤ f.tarsize)
    (hn : f.tarsize + 512 ≤ n) (hle : n ≤ cfg.half) :
    selectPp cfg allRead (flashSaved cfg f flash n) = some f.nextPp ↔
      f.Named ∧ f.tarsize + 512 < cfg.half ∧
        ¬ (f.currentPp = 0 ∧ f.seqNum = 2 ^ 32 - 1 ∧ halfOk cfg allRead flash 0 = true) := by
  have hhalf := cfg.half_lt
  have hsaved : SavedAt cfg f (flashSaved cfg f flash n) f.nextPp := savedAt_flashSaved hn
  have haccept := halfOk_of_savedAt hsaved h512 (by omega)
  have hother : halfOk cfg allRead (flashSaved cfg f flash n) f.currentPp =
      halfOk cfg allRead flash f.currentPp ∧
      ppSeqnum cfg (flashSaved cfg f flash n) f.currentPp = ppSeqnum cfg flash f.currentPp ∧ _ :=
    halfOk_congr fun k hk hlt => flashSaved_other hstep.pp_lt hle hk hlt
  have hnewer : halfOk cfg allRead (flashSaved cfg f flash n) f.nextPp = true →
      (selectPp cfg allRead (flashSaved cfg f flash n) = some f.nextPp ↔
        ¬ (f.currentPp = 0 ∧ f.seqNum = 2 ^ 32 - 1 ∧ halfOk cfg allRead flash 0 = true)) := by
    intro hok
    rw [selectPp_of_newer (nextPp_cases hstep.pp_lt) hstep.seq_lt hok (hsaved.ppSeqnum h512)
      fun h => hother.2.1.trans (hstep.seq_eq (hother.1 ▸ h))]
    refine not_congr (and_congr_right fun h0 => ?_)
    rw [h0] at hother
    rw [hother.1]
  constructor
  · intro hsel
    have hok := (selectPp_some hsel).2
    exact ⟨(haccept.mp hok).1, (haccept.mp hok).2, (hnewer hok).mp hsel⟩
  · rintro ⟨hn, hlt, hwrap⟩
    exact (hnewer (haccept.mpr ⟨hn, hlt⟩)).mpr hwrap

theorem read_saved_mem : read (memset (saveBuffer f) f.tarsize 512 0) 0 f.tarsize =
    read (saveBuffer f) 0 f.tarsize :=
  read_memset_of_disjoint (Or.inl (by omega))

end Saved

/-! ## A first file -/

def blank : Mem := fun _ => 0xff

def freshStore (cfg : Config) : Store := factoryInit cfg allRead ⟨fun _ => 0, 0, false, 0, 0⟩ blank

theorem halfOk_blank (cfg : Config) (readOk : ℕ → Bool) (pp : ℕ) : halfOk cfg readOk blank pp = false := by
  have hname : strcmpEq (headerBlock cfg blank pp) 0 factoryHeader = false := by
    have hread : read blank (cfg.base pp) 512 = List.replicate 512 0xff := by
      simp [ByteMem.read, blank]
    unfold headerBlock
    rw [hread]
    decide +kernel
  unfold halfOk
  simp [hname]

theorem freshStore_eq (cfg : Config) : freshStore cfg = ⟨buildRoot (fun _ => 0) 0, 512, false, 0, 0⟩ := by
  have hzero : memset (fun _ => 0) 0 cfg.half 0 = fun _ => 0 := by
    funext k
    rcases Nat.lt_or_ge k cfg.half with h | h
    · exact memset_apply_mem (by omega) (by omega)
    · exact memset_apply_of_not (by omega)
  unfold freshStore factoryInit selectPp
  simp [halfOk_blank, hzero]

theorem freshStore_reachable (cfg : Config) : Reachable cfg blank (freshStore cfg) :=
  Reachable.init _ Nat.zero_lt_two (by decide)

theorem freshStore_wellFormed (cfg : Config) : WellFormed cfg (freshStore cfg) abRoot [] where
  root_name := rfl
  root_rtk := (abStore_wellFormed cfg).root_rtk
  unsigned := fun _ e he => absurd he List.not_mem_nil
  archived := by
    have hbytes : bytes [abRoot] = read (buildRoot (fun _ => 0) 0) 0 512 := by
      rw [bytes_singleton, ← abMem_root]
      simp [Entry.bytes, abRoot]
    rw [freshStore_eq]
    refine ⟨?_, fun k hk _ => ?_⟩
    · rw [hbytes, length_read]
    · rw [hbytes, length_read] at hk
      exact (fillRtkHeader_frame (Or.inr (Or.inr hk))).trans
        (tarBuildHeader_frame (by decide) (Or.inr (by omega)))
  tarsize := by
    rw [freshStore_eq, length_bytes_cons]
    rfl
  room := by
    have := cfg.half_le
    rw [freshStore_eq]
    exact (by omega : 512 + 512 ≤ cfg.half)

theorem named_of_archived {T : ℕ} {root : Entry} {es : List Entry}
    (h : Archived T f.mem (root :: es)) (hname : root.name = factoryHeader) : f.Named := by
  have hat : nameAt f.mem 0 100 = factoryHeader := (root.valid.nameAt (read_header h.stored)).trans hname
  have ⟨rest, hread⟩ := read_nameAt (show (nameAt f.mem 0 100).length < 100 by rw [hat]; decide)
  rw [hat, List.append_cons] at hread
  have hlen := congrArg List.length hread
  rw [length_read] at hlen
  rw [hlen] at hread
  exact startsWith_eq_true.mpr (read_append_left hread)

theorem freshStore_write (cfg : Config) (data : List UInt8)
    (hroom : blocks data.length + 1024 + cfg.tarPadding ≤ cfg.half) :
    ∃ f, factoryWrite cfg (freshStore cfg) pathA.1 data = some (0, f) ∧ f.Named ∧
      f.tarsize = 1024 + blocks data.length ∧ f.currentPp = 0 ∧ f.seqNum = 0 := by
  have hfresh := freshStore_eq cfg
  have hsize : (freshStore cfg).tarsize = 512 := by rw [hfresh]
  have hpath : NameOk pathA := ⟨by decide, by decide, fun _ hc => by cases hc; decide⟩
  have hadmit : blocks data.length + (freshStore cfg).tarsize + 512 + cfg.tarPadding ≤ cfg.half := by
    omega
  obtain ⟨f, out, hw, hrew, harch, htar, -, -⟩ :=
    factoryWrite_spec (freshStore_wellFormed cfg) hpath hadmit
  have hframe := factoryWrite_frame hw
  rw [hfresh] at hframe
  have hno : abRoot.matches pathA.1 = false := by decide
  obtain ⟨e, rfl, hlen⟩ := hrew.of_no_match (by simpa using hno)
  have hbytes : (bytes ([abRoot] ++ [e])).length = 1024 + blocks data.length := by
    rw [List.singleton_append, bytes_cons, bytes_singleton, List.length_append, hlen, abRoot.length_bytes]
    show 512 + blocks 0 + _ = _
    rw [show blocks 0 = 0 from rfl]
    omega
  refine ⟨f, hw, ?_, htar.trans hbytes, hframe.1, hframe.2⟩
  exact named_of_archived harch rfl

/-! ## The three size checks -/

section Loads

variable {f₀ f : Store} {path data : List UInt8}

theorem touched_iff (hdvd : 512 ∣ f.tarsize) :
    (∀ a, Touched cfg f a → a < cfg.base f.nextPp + cfg.half) ↔
      f.tarsize + 512 + cfg.tarPadding ≤ cfg.half := by
  unfold Touched
  rw [blocks_total hdvd]
  constructor
  · intro h
    have := h (cfg.base f.nextPp + (f.tarsize + 512 + cfg.tarPadding) - 1) ⟨by omega, by omega⟩
    omega
  · intro h a ha
    omega

theorem saveOk_of_saveLoads (hreach : Reachable cfg flash f₀)
    (hwrite : factoryWrite cfg f₀ path data = some (0, f)) (h : SaveLoads cfg f flash) :
    SaveOk cfg f flash := by
  have hstep := (hreach.write path data hwrite).inStep
  have ⟨hdirty, hdvd, h512⟩ := factoryWrite_zero hwrite
  rcases Nat.lt_or_ge cfg.half (f.tarsize + 512) with hrefused | hle
  · exact Or.inl hrefused
  · right
    have hload := h .ok f
    rw [factorySave_ok hdirty hdvd (by omega) hle] at hload
    obtain ⟨htouched, hpp, -, -⟩ := hload rfl
    have hfit := (touched_iff hdvd).mp htouched
    have hsel : selectPp cfg allRead (flashSaved cfg f flash (f.tarsize + 512 + cfg.tarPadding)) =
        some f.nextPp := by
      unfold factoryInit at hpp
      dsimp only at hpp
      cases hs : selectPp cfg allRead (flashSaved cfg f flash (f.tarsize + 512 + cfg.tarPadding)) with
      | none =>
        -- without a half, the variables stay at the half before the save
        rw [hs] at hpp
        have := nextPp_cases hstep.pp_lt
        dsimp only at hpp
        omega
      | some pp =>
        rw [hs] at hpp
        exact congrArg some hpp
    have ⟨hn, hlt, hwrap⟩ := (selectPp_flashSaved hstep h512 (by omega) hfit).mp hsel
    exact ⟨hn, hfit, hlt, hwrap⟩

theorem saveLoads_of_saveOk (hreach : Reachable cfg flash f₀)
    (hwrite : factoryWrite cfg f₀ path data = some (0, f)) (h : SaveOk cfg f flash) :
    SaveLoads cfg f flash := by
  have hhalf := cfg.half_lt
  have hstep := (hreach.write path data hwrite).inStep
  have ⟨hdirty, hdvd, h512⟩ := factoryWrite_zero hwrite
  intro res g saved hret
  have ⟨hle, hres⟩ := factorySave_zero hdirty (by omega) hret
  subst hres
  rcases h with hrefused | ⟨hn, hfit, hlt, hwrap⟩
  · omega
  · have hsel := (selectPp_flashSaved hstep h512 (by omega) hfit).mpr ⟨hn, hlt, hwrap⟩
    rw [show saved = _ from factorySave_ok hdirty hdvd (by omega) hle]
    obtain ⟨h1, -, h3, h4⟩ := factoryInit_of_savedAt (savedAt_flashSaved (by omega)) h512 (by omega) hdvd
      hsel g
    exact ⟨(touched_iff hdvd).mpr hfit, h1, h3, h4.trans read_saved_mem.symm⟩

/-- **A save stays within its half and is loaded back** iff it is refused or `SaveOk` holds. -/
theorem saveLoads_iff (hreach : Reachable cfg flash f₀)
    (hwrite : factoryWrite cfg f₀ path data = some (0, f)) :
    SaveLoads cfg f flash ↔ SaveOk cfg f flash :=
  ⟨saveOk_of_saveLoads hreach hwrite, saveLoads_of_saveOk hreach hwrite⟩

end Loads

theorem freshStore_saved : ∃ f, factoryWrite nasConfig (freshStore nasConfig) pathA.1 [65] = some (0, f) ∧
    (factorySave nasConfig f blank .ok).1 = 0 ∧ SaveLoads nasConfig f blank := by
  obtain ⟨f, hw, hn, hsize, -, hseq⟩ := freshStore_write nasConfig [65] (by decide)
  have ⟨hdirty, hdvd, h512⟩ := factoryWrite_zero hw
  have htar : f.tarsize = 1536 := hsize
  refine ⟨f, hw, ?_, (saveLoads_iff (freshStore_reachable nasConfig) hw).mpr (Or.inr ⟨hn, ?_, ?_, ?_⟩)⟩
  · rw [factorySave_ok hdirty hdvd (by omega) (by rw [htar]; decide)]
  · rw [htar]
    decide
  · rw [htar]
    decide
  · rw [hseq]
    exact fun h => absurd h.2.1 (by decide)

/-- A first file that is saved but fills more of the half than the loader or the half itself admits. -/
theorem freshStore_not_saveLoads (cfg : Config) (hn : 512 ∣ n)
    (hroom : n + 1024 + cfg.tarPadding ≤ cfg.half) (hsave : n + 1536 ≤ cfg.half)
    (hbig : cfg.half < n + 1536 + cfg.tarPadding ∨ cfg.half ≤ n + 1536) :
    ∃ f, factoryWrite cfg (freshStore cfg) pathA.1 (List.replicate n 65) = some (0, f) ∧
      (factorySave cfg f blank .ok).1 = 0 ∧ ¬ SaveLoads cfg f blank := by
  obtain ⟨f, hw, -, hsize, -, -⟩ := freshStore_write cfg (List.replicate n 65)
    (by rwa [List.length_replicate, blocks_of_dvd hn])
  rw [List.length_replicate, blocks_of_dvd hn] at hsize
  have ⟨hdirty, hdvd, h512⟩ := factoryWrite_zero hw
  refine ⟨f, hw, ?_, fun h => ?_⟩
  · rw [factorySave_ok hdirty hdvd (by omega) (by omega)]
  · rcases saveOk_of_saveLoads (freshStore_reachable cfg) hw h with hrefused | ⟨-, hfit, hlt, -⟩
    · omega
    · omega

/-- A file that fills the half up to the copy of the header is not loaded again; with `NAS_ENABLE`, the largest file
is saved beyond the half. -/
theorem largest_not_loaded :
    (∃ f, factoryWrite defaultConfig (freshStore defaultConfig) pathA.1 (List.replicate 4192768 65) =
        some (0, f) ∧
      (factorySave defaultConfig f blank .ok).1 = 0 ∧ ¬ SaveLoads defaultConfig f blank) ∧
    ∃ f, factoryWrite nasConfig (freshStore nasConfig) pathA.1 (List.replicate 2095104 65) =
        some (0, f) ∧
      (factorySave nasConfig f blank .ok).1 = 0 ∧ ¬ SaveLoads nasConfig f blank :=
  ⟨freshStore_not_saveLoads defaultConfig (by decide) (by decide) (by decide) (by decide),
    freshStore_not_saveLoads nasConfig (by decide) (by decide) (by decide) (by decide)⟩

end NasFirmware.Factory
