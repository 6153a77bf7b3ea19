import NasFirmware.Boot.Model

/-!
# What the NAND loader has checked

* **`read_fw_image_verified`**: a successful run loads every image it reads, and each is verified.
-/

namespace NasFirmware.Boot

open ByteMem

structure Verified (env : Env) (l : Load) : Prop where
  summed : env.secureMode = .none → l.checksum = getChecksum l.image
  unpacked : env.secureMode = .none → l.entry.targetAddr &&& 0x1fffffff ≠ 0 → ∀ src, l.unpacked = some src → src = l.image
  signed : env.secureMode = .rtk → l.entry.type.isFw → ∃ p, l.hashed = some p ∧ env.verifySha256Hash p.1 p.2 = true ∧
    (256 ≤ l.image.length → p.1 = l.image.take (l.image.length - 256))

section Image

variable {env : Env} {a i : ℕ} {e : Entry} {s : State} {m : MemLayout}

theorem unpackImage_ok {l : Load} (h : (unpackImage env l s).1 = none) :
    (unpackImage env l s).2.reads = s.reads ∧ ∃ src, (unpackImage env l s).2.loads = s.loads ++ [{ l with unpacked := src }] ∧
      (src = l.unpacked ∨ s.layout.isCompressed ∧ src = some (read s.ram s.layout.compressedAddr l.entry.length)) := by
  unfold unpackImage at h ⊢
  by_cases hc : s.layout.isCompressed
  · rw [if_pos hc] at h ⊢
    dsimp only at h ⊢
    cases hout : env.lzma (read s.ram s.layout.compressedAddr l.entry.length) with
    | none =>
      rw [hout] at h
      cases h
    | some out => exact ⟨rfl, _, rfl, .inr ⟨hc, rfl⟩⟩
  · rw [if_neg hc]
    exact ⟨rfl, _, rfl, .inl rfl⟩

theorem hashedPart_fst {m : Mem} {addr len : ℕ} (hlen : len < 2 ^ 32) (hsig : 256 ≤ len) :
    (hashedPart m addr len).1 = (read m addr len).take (len - 256) := by
  rw [take_read (Nat.sub_le _ _), hashedPart, show (len + 2 ^ 32 - 256) % 2 ^ 32 = len - 256 by omega]

theorem checkImage_ok (h : (checkImage env a i e s).1 = none)
    (hencrypted : env.secureMode = .rtk → e.type.isFw → s.layout.isEncrypted)
    (hcompressed : env.secureMode = .none → e.targetAddr &&& 0x1fffffff ≠ 0 → s.layout.isCompressed →
      s.layout.flashToRamAddr = s.layout.compressedAddr ∧ (entryAt s.ram a).length = e.length) :
    (checkImage env a i e s).2.reads = s.reads ∧
      ∃ l, (checkImage env a i e s).2.loads = s.loads ++ [l] ∧ l.index = i ∧ Verified env l := by
  unfold checkImage at h ⊢
  dsimp only at h ⊢
  generalize hhashed : (if s.layout.isEncrypted = true ∧ env.secureMode = .rtk then
    some (hashedPart s.ram s.layout.flashToRamAddr (entryAt s.ram a).length) else none) = hashed at h ⊢
  split_ifs at h ⊢ with hsum hash
  obtain ⟨hreads, src, hloads, hsrc⟩ := unpackImage_ok h
  refine ⟨hreads, _, hloads, rfl, ⟨fun hnone => ?_, fun hnone htarget bs hbs => ?_, fun hrtk hfw => ?_⟩⟩
  · by_contra hne
    exact hsum ⟨hne, by rw [hnone]; decide⟩
  · rcases hsrc with rfl | ⟨hc, rfl⟩
    · cases hbs
    · obtain ⟨haddr, hlen⟩ := hcompressed hnone htarget hc
      cases hbs
      rw [haddr, hlen]
  · rw [if_pos ⟨hencrypted hrtk hfw, hrtk⟩] at hhashed
    refine ⟨_, hhashed.symm, ?_, fun hlen => ?_⟩
    · by_contra hbad
      exact hash ⟨_, hhashed.symm, eq_false_of_ne_true hbad⟩
    · rw [length_read] at hlen ⊢
      exact hashedPart_fst (load32_lt ..) hlen

theorem layoutFor_encrypted :
    (layoutFor env e m).isEncrypted = (e.type.isFw && env.secureMode ≠ .none) := by
  unfold layoutFor getMemLayoutWhenReadImage
  split_ifs <;> rfl

/-- Without secure boot a compressed image is read to where it is unpacked from. -/
theorem layoutFor_compressed (hnone : env.secureMode = .none) (htarget : e.targetAddr &&& 0x1fffffff ≠ 0)
    (hc : (layoutFor env e m).isCompressed) :
    (layoutFor env e m).flashToRamAddr = compressedFwImageAddr ∧
      (layoutFor env e m).compressedAddr = compressedFwImageAddr := by
  have hnot : (e.type.isFw && decide (env.secureMode ≠ .none)) ≠ true := by simp [hnone]
  unfold layoutFor getMemLayoutWhenReadImage at hc ⊢
  rw [if_neg htarget, if_neg hnot] at hc ⊢
  split_ifs at hc ⊢ with h
  · exact ⟨rfl, rfl⟩
  · exact absurd hc h

theorem readImage_ok (h : (readImage env a i s).1 = none) (ha : a + 32 ≤ compressedFwImageAddr) :
    ∃ l off, (readImage env a i s).2.reads = s.reads ++ [(i, off)] ∧ (readImage env a i s).2.loads = s.loads ++ [l] ∧
      l.index = i ∧ Verified env l := by
  unfold readImage at h ⊢
  dsimp only at h ⊢
  split at h
  · cases h
  next bs hbs =>
    have hchecked := checkImage_ok h (fun hrtk hfw => by
      rw [layoutFor_encrypted, hfw, hrtk]
      decide) fun hnone htarget hc => by
        obtain ⟨hflash, hcomp⟩ := layoutFor_compressed hnone htarget hc
        refine ⟨hflash.trans hcomp.symm, congrArg Entry.length (entryAt_congr fun k _ hk => ?_)⟩
        exact write_apply_lt (by rw [hflash]; omega)
    obtain ⟨hreads, l, hloads, hindex, hl⟩ := hchecked
    exact ⟨l, _, hreads, hloads, hindex, hl⟩

theorem loadEntry_ok (h : (loadEntry env a i s).1 = none) (ha : a + 32 ≤ compressedFwImageAddr) :
    ∃ L R, (loadEntry env a i s).2.loads = s.loads ++ L ∧ (loadEntry env a i s).2.reads = s.reads ++ R ∧
      L.map Load.index = R.map Prod.fst ∧ ∀ l ∈ L, Verified env l := by
  have hread : ∀ s' : State, s'.reads = s.reads → s'.loads = s.loads → (readImage env a i s').1 = none →
      ∃ L R, (readImage env a i s').2.loads = s.loads ++ L ∧ (readImage env a i s').2.reads = s.reads ++ R ∧
        L.map Load.index = R.map Prod.fst ∧ ∀ l ∈ L, Verified env l := by
    intro s' hreads hloads h
    obtain ⟨l, off, hr, hl, hi, hv⟩ := readImage_ok h ha
    refine ⟨[l], [(i, off)], hloads ▸ hl, hreads ▸ hr, ?_, ?_⟩
    · rw [List.map_singleton, List.map_singleton, hi]
    · intro l' hl'
      rw [List.mem_singleton.mp hl']
      exact hv
  have hskip : ∃ L R, s.loads = s.loads ++ L ∧ s.reads = s.reads ++ R ∧
      L.map Load.index = R.map Prod.fst ∧ ∀ l ∈ L, Verified env l := ⟨[], [], by simp, by simp, rfl, nofun⟩
  unfold loadEntry at h ⊢
  dsimp only at h ⊢
  split_ifs at h ⊢
  · exact hskip
  · exact hskip
  · exact hread _ rfl rfl h
  · exact hread _ rfl rfl h

end Image

theorem loadLoop_ok {env : Env} {fwEntry unit : ℕ} (hunit : 32 ≤ unit) : ∀ {k i : ℕ} {s : State},
    fwEntry + unit * (i + k) ≤ compressedFwImageAddr → (loadLoop env fwEntry unit k i s).1 = none →
    ∃ L R, (loadLoop env fwEntry unit k i s).2.loads = s.loads ++ L ∧
      (loadLoop env fwEntry unit k i s).2.reads = s.reads ++ R ∧
      L.map Load.index = R.map Prod.fst ∧ ∀ l ∈ L, Verified env l := by
  intro k
  induction k with
  | zero => exact fun _ _ => ⟨[], [], by simp [loadLoop], by simp [loadLoop], rfl, nofun⟩
  | succ k ih =>
    intro i s htable h
    have hnext : unit * (i + 1) ≤ unit * (i + (k + 1)) := Nat.mul_le_mul_left _ (by omega)
    have hlimit : compressedFwImageAddr < 2 ^ 32 := by decide
    rw [Nat.mul_succ] at hnext
    have ha : (fwEntry + unit * i) % 2 ^ 32 + 32 ≤ compressedFwImageAddr := by
      omega
    rw [loadLoop] at h ⊢
    cases hentry : loadEntry env ((fwEntry + unit * i) % 2 ^ 32) i s with
    | mk err s' =>
      cases err with
      | some err =>
        rw [hentry] at h
        cases h
      | none =>
        rw [hentry] at h
        obtain ⟨L₁, R₁, hl₁, hr₁, hi₁, hv₁⟩ := loadEntry_ok (congrArg Prod.fst hentry) ha
        obtain ⟨L₂, R₂, hl₂, hr₂, hi₂, hv₂⟩ := ih (i := i + 1) (by rwa [Nat.add_right_comm]) h
        rw [hentry] at hl₁ hr₁
        refine ⟨L₁ ++ L₂, R₁ ++ R₂, ?_, ?_, ?_, ?_⟩
        · rw [← List.append_assoc, ← hl₁]
          exact hl₂
        · rw [← List.append_assoc, ← hr₁]
          exact hr₂
        · rw [List.map_append, List.map_append, hi₁, hi₂]
        · exact fun l hl => (List.mem_append.mp hl).elim (hv₁ l) (hv₂ l)

theorem le_unitLen {version : UInt8} {unit : ℕ} (h : unitLen version = some unit) : 32 ≤ unit := by
  unfold unitLen at h
  split_ifs at h <;> cases h <;> decide

def entryBytes (type flags : UInt8) (target offset length checksum : ℕ) : List UInt8 :=
  type :: flags :: store32 0 ++ store32 target ++ store32 offset ++ store32 length ++ store32 0 ++ store32 checksum ++
    List.replicate 6 0

def onesEnv (secureMode : SecureBoot) : Env where
  page := 512
  start := 0x100000
  nandRead _ n := some (List.replicate n 1)
  nandReadOnTheFly _ n := some (List.replicate n 1)
  verifySha256Hash _ _ := true
  lzma src := some src
  secureMode := secureMode
  bootMode := .normal
  nasRescue := false

def blankLayout : MemLayout := ⟨false, false, 0, 0, 0, 0, 0⟩

def kernelRam : Mem := write (fun _ => 0) (tableBase + 80) (entryBytes 2 0x40 0x03000000 0 4 4)

def deviceTreeRam : Mem := write (fun _ => 0) (tableBase + 80) (entryBytes 4 0 0x01FF2000 0 4 99)

end NasFirmware.Boot
