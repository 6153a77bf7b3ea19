import NasFirmware.Lib.Loop
import NasFirmware.Lib.Mem

/-!
# Hashes of the MCP engine

`AES_hash` of `mcp.c` hashes an input block by block and hands the digest of a block back to the engine, with byte 9
in the place of byte 11. `rtk_bootcodeloader` of `cmd_bootcodeloader.c` reads a second bootcode from the SPI flash,
compares its SHA-256 with its last 32 bytes and jumps to it, all at addresses that the flash names.
-/

namespace NasFirmware.Mcp

open ByteMem CLoop

/-! ## AES hash -/

def aesHIv : Fin 4 → UInt32 := ![0x2dc2df39, 0x420321d0, 0xcef1fe23, 0x74029d95]

def word (a b c d : UInt8) : UInt32 := a.toUInt32 <<< 24 ||| b.toUInt32 <<< 16 ||| c.toUInt32 <<< 8 ||| d.toUInt32

def words (v : Fin 16 → UInt8) : Fin 4 → UInt32 :=
  ![word (v 0) (v 1) (v 2) (v 3), word (v 4) (v 5) (v 6) (v 7), word (v 8) (v 9) (v 10) (v 11),
    word (v 12) (v 13) (v 14) (v 15)]

def updateInitialVector (v : Fin 16 → UInt8) : Fin 4 → UInt32 :=
  ![word (v 0) (v 1) (v 2) (v 3), word (v 4) (v 5) (v 6) (v 7), word (v 8) (v 9) (v 10) (v 9),
    word (v 12) (v 13) (v 14) (v 15)]

/-- The engine in mode `0x27`. -/
def Engine : Type := (Fin 4 → UInt32) → List UInt8 → Fin 16 → UInt8

def Engine.Chains (G : Engine) : Prop :=
  ∀ iv a b, a ≠ [] → 16 ∣ a.length → G iv (a ++ b) = G (words (G iv a)) b

section AesHash

variable (G : Engine) (m : Mem)

/-- `AES_hash_one`; the memory is `m` from the input on. -/
def aesHashOne (length : UInt32) : Fin 16 → UInt8 := G aesHIv (read m 0 length.toNat)

/-- The variables of `AES_hash`, and the ranges that the engine was given: where they start, and their lengths. -/
structure HashState where
  length : UInt32
  srcPtr : ℕ
  iniKey : Fin 4 → UInt32
  reads : List (ℕ × ℕ)

/-- One pass of the loop of `AES_hash`. The remaining length is unsigned, and the whole block size is taken off. -/
def aesHashPass (blockSize : UInt32) (s : HashState) :
    Option (Pass HashState ((Fin 16 → UInt8) × List (ℕ × ℕ))) :=
  let len := (if s.length < blockSize then s.length else blockSize).toNat
  let digest := G s.iniKey (read m s.srcPtr len)
  let reads := s.reads ++ [(s.srcPtr, len)]
  let length := s.length - blockSize
  if 0 < length then some (.next ⟨length, s.srcPtr + len, updateInitialVector digest, reads⟩)
  else some (.done (digest, reads))

/-- `AES_hash`, in at most `n` passes: the digest and the ranges that were read, or an error. -/
def aesHash (n : ℕ) (length blockSize : UInt32) : Option (Option ((Fin 16 → UInt8) × List (ℕ × ℕ))) :=
  if length = 0 ∨ blockSize = 0 then some none
  else (loop (aesHashPass G m blockSize) n ⟨length, 0, aesHIv, []⟩).map some

variable {G m} {blockSize : UInt32} {s : HashState}

theorem aesHashPass_of_ne (h : s.length ≠ blockSize) :
    ∃ data s', aesHashPass G m blockSize s = some (.next s') ∧
      s'.iniKey = updateInitialVector (G s.iniKey data) := by
  have hpos : 0 < s.length - blockSize := by
    rw [UInt32.pos_iff_ne_zero, Ne, UInt32.sub_eq_iff_eq_add, UInt32.zero_add]
    exact h
  exact ⟨_, _, if_pos hpos, rfl⟩

theorem aesHashPass_of_eq (h : s.length = blockSize) :
    aesHashPass G m blockSize s = some (.done (G s.iniKey (read m s.srcPtr blockSize.toNat),
      s.reads ++ [(s.srcPtr, blockSize.toNat)])) := by
  simp [aesHashPass, h]

end AesHash

/-- The digest whose words are the first vector. -/
def ivDigest : Fin 16 → UInt8 :=
  ![0x2d, 0xc2, 0xdf, 0x39, 0x42, 0x03, 0x21, 0xd0, 0xce, 0xf1, 0xfe, 0x23, 0x74, 0x02, 0x9d, 0x95]

/-- An engine that keeps the first vector, and any other one apart from it. -/
def keeper : Engine := fun iv _ => if iv = aesHIv then ivDigest else 0

theorem keeper_iv (data : List UInt8) : keeper aesHIv data = ivDigest := if_pos rfl

theorem keeper_of_ne {iv : Fin 4 → UInt32} (h : iv ≠ aesHIv) (data : List UInt8) : keeper iv data = 0 := if_neg h

theorem keeper_chains : keeper.Chains := by
  intro iv a b _ _
  by_cases hiv : iv = aesHIv
  · have hwords : words ivDigest = aesHIv := by decide
    rw [hiv, keeper_iv, keeper_iv, hwords, keeper_iv]
  · have hwords : words 0 ≠ aesHIv := by decide
    rw [keeper_of_ne hiv, keeper_of_ne hiv, keeper_of_ne hwords]

/-- After the first block the engine has not got the first vector back. -/
theorem keeper_forgets {m : Mem} {blockSize : UInt32} {n : ℕ} {s : HashState} {r : (Fin 16 → UInt8) × List (ℕ × ℕ)}
    (hs : s.iniKey ≠ aesHIv) (h : loop (aesHashPass keeper m blockSize) n s = some r) : r.1 = 0 := by
  refine loop_invariant (fun s => s.iniKey ≠ aesHIv) (fun r => r.1 = 0) (fun s s' hs hb => ?_)
    (fun s r hs hb => ?_) hs h
  all_goals rcases eq_or_ne s.length blockSize with heq | hne
  · rw [aesHashPass_of_eq heq] at hb
    cases hb
  · obtain ⟨data, s₁, hnext, hkey⟩ := aesHashPass_of_ne hne
    rw [hnext] at hb
    cases hb
    rw [hkey, keeper_of_ne hs]
    decide
  · rw [aesHashPass_of_eq heq, keeper_of_ne hs] at hb
    cases hb
    rfl
  · obtain ⟨data, s₁, hnext, -⟩ := aesHashPass_of_ne hne
    rw [hnext] at hb
    cases hb

/-- **Hashing in blocks.** For every engine that chains and every input, `AES_hash` ends, reads only the input and
leaves the digest of `AES_hash_one`, exactly if the input is one block. -/
theorem aesHash_eq_one_iff (length blockSize : UInt32) :
    (∀ G : Engine, G.Chains → ∀ m, ∃ n digest reads, aesHash G m n length blockSize = some (some (digest, reads)) ∧
      (∀ p ∈ reads, p.1 + p.2 ≤ length.toNat) ∧ digest = aesHashOne G m length) ↔
    0 < length ∧ length = blockSize := by
  constructor
  · intro h
    obtain ⟨n, digest, reads, hrun, -, hdigest⟩ := h keeper keeper_chains fun _ => 0
    by_cases hguard : length = 0 ∨ blockSize = 0
    · simp [aesHash, hguard] at hrun
    rw [aesHash, if_neg hguard] at hrun
    obtain ⟨hlength, hblock⟩ := not_or.mp hguard
    refine ⟨UInt32.pos_iff_ne_zero.mpr hlength, ?_⟩
    by_contra hne
    obtain ⟨r, hloop, hr⟩ := Option.map_eq_some_iff.mp hrun
    cases hr
    -- any other block size leads to a second block
    cases n with
    | zero => cases hloop
    | succ n =>
      obtain ⟨data, s', hnext, hkey⟩ := aesHashPass_of_ne (s := ⟨length, 0, aesHIv, []⟩) hne
      rw [loop_succ_next hnext] at hloop
      have hzero := keeper_forgets (by rw [hkey, keeper_iv]; decide) hloop
      rw [hdigest, aesHashOne, keeper_iv] at hzero
      exact absurd hzero (show ivDigest ≠ 0 by decide)
  · rintro ⟨hpos, rfl⟩ G - m
    have hne := UInt32.pos_iff_ne_zero.mp hpos
    refine ⟨1, _, [(0, length.toNat)], ?_, ?_, rfl⟩
    · have hpass := aesHashPass_of_eq (G := G) (m := m) (s := ⟨length, 0, aesHIv, []⟩) rfl
      rw [aesHash, if_neg (by simp [hne]), loop_succ_done hpass]
      rfl
    · simp

theorem keeper_two_blocks :
    aesHash keeper (fun _ => 0) 2 32 16 = some (some (0, [(0, 16), (16, 16)])) ∧
      aesHashOne keeper (fun _ => 0) 32 = ivDigest ∧ ivDigest ≠ 0 := by
  refine ⟨rfl, rfl, by decide⟩

/-! ## The second bootcode -/

structure Bootcode2Header where
  magicTag : UInt32
  secueMode : UInt32
  bootcodeSize : UInt32
  bootcodeEntryAddr : UInt32

/-- The memory by 32-bit addresses, which wrap around. -/
def Ram : Type := UInt32 → UInt8

def Ram.copy (ram : Ram) (addr : UInt32) (src : Mem) (n : ℕ) : Ram := fun a =>
  if (a - addr).toNat < n then src (a - addr).toNat else ram a

def Ram.bytes (ram : Ram) (addr : UInt32) (n : ℕ) : List UInt8 :=
  read (fun k => ram (addr + UInt32.ofNat k)) 0 n

/-- `rtkspi_read32` reads whole words only. -/
def rtkspiRead32 (ram : Ram) (target : UInt32) (flash : Mem) (length : UInt32) : Ram :=
  ram.copy target flash (4 * (length.toNat / 4))

def secureImage2hashBuf : UInt32 := 0x08000000

/-- The engine for SHA-256: it fails, or it computes a hash, the first 32 bytes of what it returns. -/
def ShaEngine : Type := List UInt8 → Option Mem

/-- `Verify_SHA256_hash` without recovery. -/
def verifySha256 (engine : ShaEngine) (ram : Ram) (srcAddr length refSha256 : UInt32) : ℤ × Ram :=
  if srcAddr = 0 then (-1, ram)
  else
    match engine (ram.bytes srcAddr length.toNat) with
    | none => (-1, ram)
    | some hash =>
      let ram := ram.copy secureImage2hashBuf hash 32
      (if ram.bytes secureImage2hashBuf 32 = ram.bytes refSha256 32 then 0 else -2, ram)

/-- `rtk_bootcodeloader`: where it jumps to, if it does, and the memory then. `flash` is behind the header. -/
def rtkBootcodeloader (engine : ShaEngine) (header : Bootcode2Header) (flash : Mem) (ram : Ram) :
    Option (UInt32 × Ram) :=
  let addr := header.bootcodeEntryAddr
  let size := header.bootcodeSize
  if header.magicTag ≠ 0xbeef1195 then none
  else if size < 102400 then none
  -- `SPI_BOOTCODE_RTK_MODE`
  else if header.secueMode = 2 then some (addr, ram)
  else
    let ram := rtkspiRead32 ram addr flash size
    let (ret, ram) := verifySha256 engine ram addr (size - 32) (addr + size - 32)
    if ret < 0 then none else some (addr, ram)

/-- The range that is entered holds what the flash has for it, and its hash is at its end. -/
def Verified (engine : ShaEngine) (header : Bootcode2Header) (flash : Mem) (r : UInt32 × Ram) : Prop :=
  let size := header.bootcodeSize.toNat
  r.2.bytes r.1 size = read flash 0 size ∧
    ∃ hash, engine (read flash 0 (size - 32)) = some hash ∧ read hash 0 32 = read flash (size - 32) 32

/-- All of a range is read, and the hash that is computed is not put into it. -/
def Apart (addr size : UInt32) : Prop :=
  ∀ k < size.toNat, k < 4 * (size.toNat / 4) ∧ 32 ≤ (addr + UInt32.ofNat k - secureImage2hashBuf).toNat

section Bootcode

variable {engine : ShaEngine} {flash : Mem} {ram : Ram} {mode size addr : UInt32} {r : UInt32 × Ram}

theorem offset_eq (addr : UInt32) {k : ℕ} (hk : k < 2 ^ 32) : (addr + UInt32.ofNat k - addr).toNat = k := by
  rw [UInt32.add_comm, UInt32.add_sub_cancel, UInt32.toNat_ofNat', Nat.mod_eq_of_lt hk]

theorem bytes_copy_self (addr : UInt32) (src : Mem) : (ram.copy addr src 32).bytes addr 32 = read src 0 32 := by
  refine read_congr fun k _ hk => ?_
  rw [Ram.copy, offset_eq addr (by omega), if_pos (by omega)]

/-- The memory with the bootcode, and with a hash in its buffer. -/
def loaded (addr size : UInt32) (flash : Mem) (ram : Ram) (hash : Mem) : Ram :=
  (rtkspiRead32 ram addr flash size).copy secureImage2hashBuf hash 32

/-- What leads to a jump in the other modes. -/
theorem loader_eq_some_iff (hsize : 102400 ≤ size) (hmode : mode ≠ 2) :
    rtkBootcodeloader engine ⟨0xbeef1195, mode, size, addr⟩ flash ram = some r ↔
      addr ≠ 0 ∧ ∃ hash, engine ((rtkspiRead32 ram addr flash size).bytes addr (size - 32).toNat) = some hash ∧
        read hash 0 32 = (loaded addr size flash ram hash).bytes (addr + size - 32) 32 ∧
        (addr, loaded addr size flash ram hash) = r := by
  unfold rtkBootcodeloader verifySha256
  dsimp only
  rw [if_neg (not_not.mpr rfl), if_neg (UInt32.not_lt.mpr hsize), if_neg hmode]
  by_cases haddr : addr = 0
  · simp [haddr]
  · cases engine ((rtkspiRead32 ram addr flash size).bytes addr (size - 32).toNat) with
    | none => simp
    | some hash =>
      rw [if_neg haddr]
      simp only [bytes_copy_self]
      rw [← loaded]
      by_cases heq : read hash 0 32 = (loaded addr size flash ram hash).bytes (addr + size - 32) 32
      · simp [haddr, heq]
      · simp [heq]

/-- One byte of the range is not the one that was read, and nothing shows it. -/
theorem loaded_eq_zero {p : ℕ} (hover : ¬ (p < 4 * (size.toNat / 4) ∧
      32 ≤ (addr + UInt32.ofNat p - secureImage2hashBuf).toNat)) :
    loaded addr size (fun k => if k = p then 1 else 0) (fun _ => 0) (fun _ => 0) = fun _ => 0 := by
  funext a
  simp only [loaded, Ram.copy, rtkspiRead32]
  split_ifs with h1 h2 h3
  · rfl
  · -- the byte of the flash that is not zero
    refine absurd ⟨h3 ▸ h2, ?_⟩ hover
    rw [← h3, UInt32.ofNat_toNat, UInt32.add_comm, UInt32.sub_add_cancel]
    omega
  · rfl
  · rfl

theorem verified_of_apart (hsize : 102400 ≤ size) (hmode : mode ≠ 2) (hapart : Apart addr size)
    (hrun : rtkBootcodeloader engine ⟨0xbeef1195, mode, size, addr⟩ flash ram = some r) :
    Verified engine ⟨0xbeef1195, mode, size, addr⟩ flash r := by
  obtain ⟨-, hash, hengine, heq, rfl⟩ := (loader_eq_some_iff hsize hmode).mp hrun
  have hle : 102400 ≤ size.toNat := UInt32.le_iff_toNat_le.mp hsize
  have hlt := size.toNat_lt
  have hlen : (size - 32).toNat = size.toNat - 32 :=
    UInt32.toNat_sub_of_le _ _ (UInt32.le_iff_toNat_le.mpr (le_trans (by decide) hle))
  have hread : ∀ k < size.toNat, rtkspiRead32 ram addr flash size (addr + UInt32.ofNat k) = flash k := by
    intro k hk
    rw [rtkspiRead32, Ram.copy, offset_eq _ (by omega), if_pos (hapart k hk).1]
  have hloaded : ∀ k < size.toNat, loaded addr size flash ram hash (addr + UInt32.ofNat k) = flash k := by
    intro k hk
    rw [loaded, Ram.copy, if_neg (Nat.not_lt.mpr (hapart k hk).2), hread k hk]
  have href : ∀ k, addr + size - 32 + UInt32.ofNat k = addr + UInt32.ofNat (size.toNat - 32 + k) := by
    intro k
    rw [UInt32.ofNat_add, ← hlen, UInt32.ofNat_toNat, UInt32.sub_eq_add_neg, UInt32.sub_eq_add_neg, UInt32.add_assoc,
      UInt32.add_assoc, UInt32.add_assoc]
  refine ⟨read_congr fun k _ hk => hloaded k (by simpa using hk), hash, ?_, heq.trans ?_⟩
  · rw [← hengine, hlen]
    refine congrArg engine (read_congr fun k _ hk => (hread k ?_).symm)
    dsimp only at hk
    omega
  · refine Eq.trans (read_congr fun k _ hk => ?_) (read_shift flash (size.toNat - 32) 0 32)
    rw [href, hloaded _ (by omega)]

end Bootcode

end NasFirmware.Mcp
