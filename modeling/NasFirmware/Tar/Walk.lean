import NasFirmware.Tar.Model

/-!
# The walks through an archive, in machine arithmetic

The loops of `tar_read`, `tar_read_by_index` and `tar_add_or_delete` over any contents of the memory. Positions and
sizes are `int`s of 32 bits that wrap around, and an address is taken modulo the address space, so a size field may
move a walk anywhere.

* `advance`: the next position; **`lt_advance_iff`**: it is a later one exactly for sizes from -1022 on that do not
  lead past the largest `int`;
* **`walks_advance_iff`**: each walk moves strictly forward at every header that it accepts, and returns, exactly if
  every header at which it goes on has such a size.
-/

namespace NasFirmware.Tar

open ByteMem CString CLoop

/-! ## Positions -/

/-- A number as a 32-bit `int`. -/
def int32 (x : ℤ) : ℤ := x.bmod (2 ^ 32)

theorem int32_lt (x : ℤ) : int32 x < 2 ^ 31 := Int.bmod_lt (by decide)

variable {x size : ℤ} {m : Mem} {nas add : Bool} {s filename srcBuf : List UInt8} {limit fd : ℤ} {dst tmp : ℕ}

theorem int32_of_lt (h1 : -2 ^ 31 ≤ x) (h2 : x < 2 ^ 31) : int32 x = x :=
  Int.bmod_eq_of_le_mul_two (by omega) (by omega)

theorem int32_of_ge (h1 : 2 ^ 31 ≤ x) (h2 : x < 2 ^ 32) : int32 x = x - 2 ^ 32 := by
  rw [int32, Int.bmod_def]
  split_ifs <;> omega

def roundSize (size : ℤ) : ℤ := (int32 (size + 511)).tdiv 512 * 512

/-- `pos + 512 + ((size + 511) / 512) * 512`; `tar_read` computes the same sum. -/
def advance (pos size : ℤ) : ℤ := int32 (pos + 512 + roundSize size)

def address (buf : ℕ) (pos : ℤ) : ℕ := ((buf + pos) % 2 ^ 32).toNat

/-- The size leads from `pos` to a later position. -/
def Forward (pos size : ℤ) : Prop := -1022 ≤ size ∧ pos + 512 + blocks size.toNat < 2 ^ 31

theorem tdiv_mul (x : ℤ) : x.tdiv 512 * 512 = if 0 ≤ x then x / 512 * 512 else -(-x / 512 * 512) := by
  split_ifs with hx
  · rw [Int.tdiv_eq_ediv_of_nonneg hx]
  · have h := Int.tdiv_eq_ediv_of_nonneg (a := -x) (b := 512) (by omega)
    rw [Int.neg_tdiv] at h
    omega

theorem roundSize_of_forward (h1 : -1022 ≤ size) (h2 : size + 511 < 2 ^ 31) :
    roundSize size = blocks size.toNat := by
  rw [roundSize, int32_of_lt (by omega) h2, tdiv_mul, blocks]
  split_ifs <;> omega

/-- Sizes from -1023 down, and those that overflow, do not lead forward. -/
theorem roundSize_le (h1 : -2 ^ 31 ≤ size) (h2 : size < 2 ^ 31)
    (h : size < -1022 ∨ 2 ^ 31 ≤ size + 511) : -2 ^ 31 ≤ roundSize size ∧ roundSize size ≤ -512 := by
  rw [roundSize, tdiv_mul]
  rcases h with h | h
  · rw [int32_of_lt (by omega) (by omega)]
    split_ifs <;> omega
  · rw [int32_of_ge h (by omega)]
    split_ifs <;> omega

/-- **When a size leads forward.** -/
theorem lt_advance_iff {pos : ℤ} (h0 : 0 ≤ pos) (hpos : pos < 2 ^ 31) (h1 : -2 ^ 31 ≤ size)
    (h2 : size < 2 ^ 31) : pos < advance pos size ↔ Forward pos size := by
  unfold advance Forward
  by_cases h : size < -1022 ∨ 2 ^ 31 ≤ size + 511
  · have hr := roundSize_le h1 h2 h
    rw [int32_of_lt (by omega) (by omega), blocks]
    omega
  · rw [roundSize_of_forward (by omega) (by omega)]
    by_cases hfit : pos + 512 + blocks size.toNat < 2 ^ 31
    · rw [int32_of_lt (by omega) hfit]
      omega
    · -- the sum wraps around
      have hb : (blocks size.toNat : ℤ) ≤ 2 ^ 31 - 512 := by
        rw [blocks]
        omega
      rw [int32_of_ge (by omega) (by omega)]
      omega

/-! ## The passes -/

def sizeAt (m : Mem) (header : ℕ) : ℤ := simpleStrtol m (header + 124) 8

/-- One pass of the loop of `tar_read`; `fd` is the address of the header, as an `int`. -/
def tarReadWalk (m : Mem) (s : List UInt8) (limit fd : ℤ) : Option (Pass ℤ (Option (ℕ × ℕ))) :=
  let header := address 0 fd
  if m header = 0 then some (.done none)
  else if !tarCheckHeader m header then some (.done none)
  else if strncmpEq m header s 100 then
    some (.done (some (header + 512, (sizeAt m header % 2 ^ 32).toNat)))
  else if limit < advance fd (sizeAt m header) then some (.done none)
  else some (.next (advance fd (sizeAt m header)))

structure IndexWalk where
  index : ℤ
  pos : ℤ
  header : ℕ
  fileSize : ℤ

def envPrefix : List UInt8 := [116, 109, 112, 47, 102, 97, 99, 116, 111, 114, 121, 47, 101, 110, 118, 47]

/-- One pass of the loop of `tar_read_by_index`: header and size of the file, if it is found. -/
def tarReadByIndexWalk (m : Mem) (src : ℕ) (w : IndexWalk) : Option (Pass IndexWalk (Option (ℕ × ℤ))) :=
  if w.index < 0 then some (.done (some (w.header, w.fileSize)))
  else
    let header := address src w.pos
    if !tarCheckHeader m header then some (.done none)
    else
      let index := if startsWith m header envPrefix then w.index - 1 else w.index
      some (.next ⟨index, advance w.pos (sizeAt m header), header, sizeAt m header⟩)

structure RewriteWalk where
  m : Mem
  pos : ℤ
  tmpPos : ℤ
  done : Bool

/-- What a pass of `tar_add_or_delete` leaves in memory and in `tmp_pos` and `done`, for an accepted header. -/
def rewriteHeader (nas : Bool) (header : ℕ) (filename srcBuf : List UInt8) (tmp : ℕ) (add : Bool) (w : RewriteWalk) :
    Mem × ℤ × Bool :=
  let fileSize := roundSize (sizeAt w.m header)
  if startsWith w.m header filename then
    if add && !w.done then
      let m := tarBuildHeader w.m header filename srcBuf.length 48
      let m := write m (address tmp w.tmpPos) (read m header 512)
      let tmpPos := int32 (w.tmpPos + 512)
      (write m (address tmp tmpPos) srcBuf, int32 (tmpPos + roundSize srcBuf.length), true)
    else (w.m, w.tmpPos, w.done)
  else if !nas || !strcmpEq w.m (header + 508) rtk || w.pos == 0 then
    -- the length of `memcpy` is unsigned
    let m := write w.m (address tmp w.tmpPos) (read w.m header ((512 + fileSize) % 2 ^ 32).toNat)
    (m, int32 (w.tmpPos + (512 + fileSize)), w.done)
  else (w.m, w.tmpPos, w.done)

/-- One pass of the loop of `tar_add_or_delete`. -/
def tarAddOrDeleteWalk (nas : Bool) (dst : ℕ) (filename srcBuf : List UInt8) (tmp : ℕ) (add : Bool)
    (w : RewriteWalk) : Option (Pass RewriteWalk RewriteWalk) :=
  let header := address dst w.pos
  if w.m header = 0 then some (.done w)
  else if !tarCheckHeader w.m header then some (.done w)
  else
    let (m, tmpPos, done) := rewriteHeader nas header filename srcBuf tmp add w
    some (.next ⟨m, advance w.pos (sizeAt w.m header), tmpPos, done⟩)

section Passes

variable {fd' : ℤ} {src : ℕ}

theorem neg_le_sizeAt (m : Mem) (header : ℕ) : -2 ^ 31 ≤ sizeAt m header := neg_le_simpleStrtol ..

theorem sizeAt_lt (m : Mem) (header : ℕ) : sizeAt m header < 2 ^ 31 := simpleStrtol_lt ..

theorem tarReadWalk_ne_none : tarReadWalk m s limit fd ≠ none := by
  unfold tarReadWalk
  dsimp only
  split_ifs <;> exact nofun

theorem tarReadWalk_next (h : tarReadWalk m s limit fd = some (.next fd')) :
    fd' = advance fd (sizeAt m (address 0 fd)) := by
  unfold tarReadWalk at h
  dsimp only at h
  split_ifs at h <;> cases h
  rfl

theorem tarReadByIndexWalk_ne_none {w : IndexWalk} : tarReadByIndexWalk m src w ≠ none := by
  unfold tarReadByIndexWalk
  dsimp only
  split_ifs <;> exact nofun

theorem tarReadByIndexWalk_next {w w' : IndexWalk} (h : tarReadByIndexWalk m src w = some (.next w')) :
    w'.pos = advance w.pos (sizeAt m (address src w.pos)) := by
  unfold tarReadByIndexWalk at h
  dsimp only at h
  split_ifs at h <;> cases h <;> rfl

theorem tarAddOrDeleteWalk_ne_none {w : RewriteWalk} :
    tarAddOrDeleteWalk nas dst filename srcBuf tmp add w ≠ none := by
  unfold tarAddOrDeleteWalk
  dsimp only
  split_ifs <;> exact nofun

theorem tarAddOrDeleteWalk_next {w w' : RewriteWalk}
    (h : tarAddOrDeleteWalk nas dst filename srcBuf tmp add w = some (.next w')) :
    w'.pos = advance w.pos (sizeAt w.m (address dst w.pos)) := by
  unfold tarAddOrDeleteWalk at h
  dsimp only at h
  split_ifs at h <;> cases h
  rfl

end Passes

/-- `FACTORY_DATA_ADDR`, where `factory_buffer` is. -/
def factoryDataAddr : ℕ := 0x07000000

section Main

variable (nas add : Bool) (m : Mem) (half : ℕ) (path srcBuf : List UInt8) (index : ℤ)

def readLoop : ℤ → Option (Pass ℤ (Option (ℕ × ℕ))) := tarReadWalk m path (int32 (factoryDataAddr + half))

def indexLoop : IndexWalk → Option (Pass IndexWalk (Option (ℕ × ℤ))) := tarReadByIndexWalk m factoryDataAddr

/-- The loop of `tar_add_or_delete` on it, with the second buffer behind it. -/
def rewriteLoop : RewriteWalk → Option (Pass RewriteWalk RewriteWalk) :=
  tarAddOrDeleteWalk nas factoryDataAddr path srcBuf (factoryDataAddr + half) add

/-- Where `tar_add_or_delete` starts, with the second buffer cleared. -/
def rewriteStart : RewriteWalk := ⟨memset m (factoryDataAddr + half) half 0, 0, 0, false⟩

/-- **The walks terminate** exactly if the sizes they meet lead forward. -/
theorem walks_advance_iff :
    (Advances (readLoop m half path) id factoryDataAddr ↔
      ∀ fd fd', Reaches (readLoop m half path) factoryDataAddr fd → readLoop m half path fd = some (.next fd') →
        Forward fd (sizeAt m (address 0 fd))) ∧
    (Advances (indexLoop m) IndexWalk.pos ⟨index, 0, 0, 0⟩ ↔
      ∀ w w', Reaches (indexLoop m) ⟨index, 0, 0, 0⟩ w → indexLoop m w = some (.next w') →
        Forward w.pos (sizeAt m (address factoryDataAddr w.pos))) ∧
    (Advances (rewriteLoop nas add half path srcBuf) RewriteWalk.pos (rewriteStart m half) ↔
      ∀ w w', Reaches (rewriteLoop nas add half path srcBuf) (rewriteStart m half) w →
        rewriteLoop nas add half path srcBuf w = some (.next w') →
        Forward w.pos (sizeAt w.m (address factoryDataAddr w.pos))) := by
  refine ⟨?_, ?_, ?_⟩
  · refine advances_iff (2 ^ 31) (by decide) (by decide) (fun _ => tarReadWalk_ne_none) (fun s s' h => ?_)
      fun s s' h0 hlt h => ?_
    · rw [id, tarReadWalk_next h]
      exact int32_lt _
    · rw [id, id, tarReadWalk_next h]
      exact lt_advance_iff h0 hlt (neg_le_sizeAt ..) (sizeAt_lt ..)
  · refine advances_iff (2 ^ 31) le_rfl (by decide : (0 : ℤ) < 2 ^ 31) (fun _ => tarReadByIndexWalk_ne_none) (fun s s' h => ?_)
      fun s s' h0 hlt h => ?_
    · rw [tarReadByIndexWalk_next h]
      exact int32_lt _
    · rw [tarReadByIndexWalk_next h]
      exact lt_advance_iff h0 hlt (neg_le_sizeAt ..) (sizeAt_lt ..)
  · refine advances_iff (2 ^ 31) le_rfl (by decide : (0 : ℤ) < 2 ^ 31) (fun _ => tarAddOrDeleteWalk_ne_none) (fun s s' h => ?_)
      fun s s' h0 hlt h => ?_
    · rw [tarAddOrDeleteWalk_next h]
      exact int32_lt _
    · rw [tarAddOrDeleteWalk_next h]
      exact lt_advance_iff h0 hlt (neg_le_sizeAt ..) (sizeAt_lt ..)

end Main

/-! ## An archive that is walked, and one that is not -/

theorem reaches_two {σ ρ : Type} {body : σ → Option (Pass σ ρ)} {s₀ s₁ s : σ} {r : ρ}
    (h0 : body s₀ = some (.next s₁)) (h1 : body s₁ = some (.done r)) (h : Reaches body s₀ s) :
    s = s₀ ∨ s = s₁ := by
  induction h with
  | start => exact .inl rfl
  | next _ hb ih =>
    rcases ih with rfl | rfl
    · rw [h0] at hb
      cases hb
      exact .inr rfl
    · rw [h1] at hb
      cases hb

section Accepted

theorem tarReadWalk_of_zero (h : m (address 0 fd) = 0) : tarReadWalk m s limit fd = some (.done none) := if_pos h

theorem tarReadWalk_of_accepted (h0 : m (address 0 fd) ≠ 0) (hc : tarCheckHeader m (address 0 fd) = true)
    (hs : strncmpEq m (address 0 fd) s 100 = false) (hl : advance fd (sizeAt m (address 0 fd)) ≤ limit) :
    tarReadWalk m s limit fd = some (.next (advance fd (sizeAt m (address 0 fd)))) := by
  simp [tarReadWalk, h0, hc, hs, Int.not_lt.mpr hl]

theorem tarReadByIndexWalk_of_accepted {src : ℕ} {w : IndexWalk} (hi : 0 ≤ w.index)
    (hc : tarCheckHeader m (address src w.pos) = true)
    (hs : startsWith m (address src w.pos) envPrefix = false) :
    tarReadByIndexWalk m src w = some (.next ⟨w.index, advance w.pos (sizeAt m (address src w.pos)),
      address src w.pos, sizeAt m (address src w.pos)⟩) := by
  simp [tarReadByIndexWalk, Int.not_lt.mpr hi, hc, hs]

theorem tarAddOrDeleteWalk_of_accepted {w : RewriteWalk} (h0 : w.m (address dst w.pos) ≠ 0)
    (hc : tarCheckHeader w.m (address dst w.pos) = true)
    (hs : startsWith w.m (address dst w.pos) filename = false) (hpos : (w.pos == 0) = true) :
    tarAddOrDeleteWalk nas dst filename srcBuf tmp add w = some (.next
      ⟨write w.m (address tmp w.tmpPos) (read w.m (address dst w.pos)
          ((512 + roundSize (sizeAt w.m (address dst w.pos))) % 2 ^ 32).toNat),
        advance w.pos (sizeAt w.m (address dst w.pos)),
        int32 (w.tmpPos + (512 + roundSize (sizeAt w.m (address dst w.pos)))), w.done⟩) := by
  simp [tarAddOrDeleteWalk, rewriteHeader, h0, hc, hs, hpos]

end Accepted

def oneFile : Mem := tarBuildHeader (fun _ => 0) factoryDataAddr [97] 5 48

theorem oneFile_walked :
    Advances (readLoop oneFile 0x200000 [98]) id factoryDataAddr ∧
    Advances (indexLoop oneFile) IndexWalk.pos ⟨0, 0, 0, 0⟩ ∧
    Advances (rewriteLoop true true 0x200000 [98] [49]) RewriteWalk.pos (rewriteStart oneFile 0x200000) := by
  have hsize : ∀ m : Mem, sizeAt m factoryDataAddr = 5 → ∀ pos : ℤ, pos = 0 ∨ pos = 0x07000000 →
      Forward pos (sizeAt m factoryDataAddr) := by
    rintro m h pos (rfl | rfl) <;> rw [h] <;> exact ⟨by decide, by decide⟩
  obtain ⟨h1, h2, h3⟩ := walks_advance_iff true true oneFile 0x200000 [98] [49] 0
  refine ⟨h1.mpr fun fd fd' hr hb => ?_, h2.mpr fun w w' hr hb => ?_, h3.mpr fun w w' hr hb => ?_⟩
  · have hnext : readLoop oneFile 0x200000 [98] factoryDataAddr = some (.next 0x07000400) := by
      refine (tarReadWalk_of_accepted (by decide +kernel) (by decide +kernel) (by decide +kernel)
        (by decide +kernel)).trans ?_
      exact congrArg (fun p => some (Pass.next p)) (by decide +kernel)
    have hdone : readLoop oneFile 0x200000 [98] 0x07000400 = some (.done none) :=
      tarReadWalk_of_zero (by decide +kernel)
    rcases reaches_two hnext hdone hr with rfl | rfl
    · exact hsize oneFile (by decide +kernel) _ (.inr rfl)
    · rw [hdone] at hb
      cases hb
  · have hnext : indexLoop oneFile ⟨0, 0, 0, 0⟩ = some (.next ⟨0, 1024, factoryDataAddr, 5⟩) := by
      refine (tarReadByIndexWalk_of_accepted (by decide) (by decide +kernel) (by decide +kernel)).trans ?_
      have hadv : advance 0 (sizeAt oneFile (address factoryDataAddr 0)) = 1024 := by decide +kernel
      have hsz : sizeAt oneFile (address factoryDataAddr 0) = 5 := by decide +kernel
      simp only [hadv]
      rw [hsz]
      rfl
    have hbad : tarCheckHeader oneFile (address factoryDataAddr 1024) = false := by decide +kernel
    have hdone : indexLoop oneFile ⟨0, 1024, factoryDataAddr, 5⟩ = some (.done none) := by
      simp [indexLoop, tarReadByIndexWalk, hbad]
    rcases reaches_two hnext hdone hr with rfl | rfl
    · exact hsize oneFile (by decide +kernel) _ (.inl rfl)
    · rw [hdone] at hb
      cases hb
  · have hnext := @tarAddOrDeleteWalk_of_accepted true true [98] [49] factoryDataAddr (factoryDataAddr + 0x200000)
      (rewriteStart oneFile 0x200000) (by decide +kernel) (by decide +kernel) (by decide +kernel) rfl
    have hdone : ∀ w, w.m (address factoryDataAddr w.pos) = 0 → rewriteLoop true true 0x200000 [98] [49] w = some (.done w) :=
      fun w hw => if_pos hw
    rcases reaches_two hnext (hdone _ (by decide +kernel)) hr with rfl | rfl
    · exact hsize _ (by decide +kernel) _ (.inl rfl)
    · cases hb

/-- A file `a` whose size is `-2000`, in octal digits. -/
def negativeSize : Mem :=
  tarFillChecksum (write (write (fun _ => 0) factoryDataAddr [97]) (factoryDataAddr + 124) [45, 50, 48, 48, 48])
    factoryDataAddr

/-- The header is accepted, and no walk ever gets past it. -/
theorem negativeSize_for_ever :
    tarCheckHeader negativeSize factoryDataAddr = true ∧
    (∀ n, loop (readLoop negativeSize 0x200000 [98]) n factoryDataAddr = none) ∧
    (∀ n, loop (indexLoop negativeSize) n ⟨0, 0, 0, 0⟩ = none) ∧
    (∀ n, loop (rewriteLoop true true 0x200000 [98] [49]) n (rewriteStart negativeSize 0x200000) = none) := by
  -- the first pass records the header, the next ones repeat it
  have hindex : ∀ header size,
      indexLoop negativeSize ⟨0, 0, header, size⟩ = some (.next ⟨0, 0, factoryDataAddr, -1024⟩) := by
    intro header size
    have hc : tarCheckHeader negativeSize (address factoryDataAddr 0) = true := by decide +kernel
    have hs : startsWith negativeSize (address factoryDataAddr 0) envPrefix = false := by decide +kernel
    refine (@tarReadByIndexWalk_of_accepted negativeSize factoryDataAddr ⟨0, 0, header, size⟩ le_rfl hc hs).trans ?_
    have hadv : advance 0 (sizeAt negativeSize (address factoryDataAddr 0)) = 0 := by decide +kernel
    have hsz : sizeAt negativeSize (address factoryDataAddr 0) = -1024 := by decide +kernel
    rw [hsz]
    rfl
  refine ⟨by decide +kernel, loop_fixed ?_, loop_of_next_fixed (hindex 0 0) (hindex _ _), loop_fixed ?_⟩
  · refine (tarReadWalk_of_accepted (by decide +kernel) (by decide +kernel) (by decide +kernel)
      (by decide +kernel)).trans ?_
    exact congrArg (fun p => some (Pass.next p)) (by decide +kernel)
  · refine (tarAddOrDeleteWalk_of_accepted (by decide +kernel) (by decide +kernel) (by decide +kernel) rfl).trans ?_
    have hlen : ((512 + roundSize (sizeAt (rewriteStart negativeSize 0x200000).m
        (address factoryDataAddr (rewriteStart negativeSize 0x200000).pos))) % 2 ^ 32).toNat = 0 := by
      decide +kernel
    have hadv : advance (rewriteStart negativeSize 0x200000).pos (sizeAt (rewriteStart negativeSize 0x200000).m
        (address factoryDataAddr (rewriteStart negativeSize 0x200000).pos)) = 0 := by
      decide +kernel
    have htmp : int32 ((rewriteStart negativeSize 0x200000).tmpPos +
        (512 + roundSize (sizeAt (rewriteStart negativeSize 0x200000).m
          (address factoryDataAddr (rewriteStart negativeSize 0x200000).pos)))) = 0 := by
      decide +kernel
    rw [hlen, hadv, htmp, read_zero, write_nil]
    rfl

end NasFirmware.Tar
