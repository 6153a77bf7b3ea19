import NasFirmware.Apmib.Hardware
import NasFirmware.Lzss.Expansion

/-!
# Writes and their sectors

`mib_compress_write` does not compare the length of the compressed file with the length of the sector (it takes
the flash offset for a size), and `apmib_update` writes the struct itself in the same way. A file that is too long
runs into the sector that follows.
-/

namespace NasFirmware.Apmib

open ByteMem Mib

def Setting.Outside (s : Setting) (a : ℕ) : Prop := a < s.offset ∨ s.offset + s.sectorLen ≤ a

/-- A call that reports success leaves the flash outside of the sector as it was. -/
def KeepsOutside {ρ : Type} (s : Setting) (call : Mem → Option (ρ × Mem)) (success : ρ) : Prop :=
  ∀ flash flash', call flash = some (success, flash') → ∀ a, s.Outside a → flash' a = flash a

def compFileLen (image : List UInt8) : ℕ := ((Lzss.encode true image).getD []).length + compHeaderLen

/-- The image of the hardware settings. The length is swapped to find out how many bytes are copied; the rest of the
block is as it was. -/
def expImageHw (header : ParamHeader) (data heap : Mem) : List UInt8 :=
  header.signature ++ store16 (wordSwap header.len) ++
    (read data 0 (wordSwap header.len) ++ read heap (wordSwap header.len) (header.len - wordSwap header.len))

def mibCompressWriteHw (env : UpdateEnv) (header : ParamHeader) (data flash : Mem) : Option (Bool × Mem) :=
  let expLen := header.len + hwHeaderLen
  let realSize := hwSetting.offset
  if env.compPtr ∧ env.expPtr then
    -- more bytes are copied than the block has
    if header.len < wordSwap header.len then none
    else do
      let comp ← Lzss.encode env.lzssbuf (expImageHw header data env.heap)
      if comp.length = 0 then none
      else if realSize < comp.length + compHeaderLen then none
      else some (flashWrite flash hwSetting.offset (compImage hwSetting expLen comp) env.compWrite)
  else if env.compPtr then none
  else some (false, flash)

def WriteResult.taken : WriteResult → ℕ → ℕ
  | .ok, len => len
  | .short n, len => min n len

section Writes

variable {s : Setting} {off : ℕ} {bs : List UInt8} {ρ : Type}

theorem length_compImage (hs : SettingOk s) (expLen : ℕ) (comp : List UInt8) :
    (compImage s expLen comp).length = comp.length + compHeaderLen := by
  rw [compImage, List.length_append, List.length_append, List.length_append, hs.comp_length, length_store16,
    length_store32, compHeaderLen]
  omega

theorem write_inside (hoff : s.offset ≤ off)
    (hin : off + bs.length ≤ s.offset + s.sectorLen) (flash : Mem) {a : ℕ} (ha : s.Outside a) :
    write flash off bs a = flash a := by
  refine write_apply_of_not ?_
  rcases ha with ha | ha
  · exact .inl (by omega)
  · exact .inr (by omega)

theorem byte_ne_succ (b : UInt8) : b ≠ b + 1 := by
  intro hb
  have := congrArg UInt8.toNat hb
  rw [UInt8.toNat_add] at this
  simp only [UInt8.reduceToNat] at this
  omega

/-- **Two writes that start in the sector**, one after the other, stay in it exactly if both fit. -/
theorem keepsOutside_iff {call : Mem → Option (ρ × Mem)} {success : ρ} {off₁ off₂ : ℕ}
    {bs₁ bs₂ : List UInt8} (hcall : ∀ flash, call flash = some (success, write (write flash off₁ bs₁) off₂ bs₂))
    (h₁ : s.offset ≤ off₁ ∧ off₁ ≤ s.offset + s.sectorLen) (h₂ : s.offset ≤ off₂ ∧ off₂ ≤ s.offset + s.sectorLen) :
    KeepsOutside s call success ↔
      off₁ + bs₁.length ≤ s.offset + s.sectorLen ∧ off₂ + bs₂.length ≤ s.offset + s.sectorLen := by
  constructor
  · intro hkeep
    -- a byte that is overwritten does not depend on what was there
    have hfixed : ∀ a, s.offset + s.sectorLen ≤ a →
        ¬ (off₁ ≤ a ∧ a < off₁ + bs₁.length ∨ off₂ ≤ a ∧ a < off₂ + bs₂.length) := by
      intro a ha hin
      have hconst : ∀ m m' : Mem, write (write m off₁ bs₁) off₂ bs₂ a = write (write m' off₁ bs₁) off₂ bs₂ a := by
        intro m m'
        by_cases hlast : off₂ ≤ a ∧ a < off₂ + bs₂.length
        · rw [write_apply_mem hlast.1 hlast.2, write_apply_mem hlast.1 hlast.2]
        · have hfirst := hin.resolve_right hlast
          have hskip : ∀ m : Mem, write m off₂ bs₂ a = m a := fun m => write_apply_of_not (by omega)
          rw [hskip, hskip, write_apply_mem hfirst.1 hfirst.2, write_apply_mem hfirst.1 hfirst.2]
      have hsame := hkeep (fun _ => write (write (fun _ => 0) off₁ bs₁) off₂ bs₂ a + 1) _ (hcall _) a (.inr ha)
      rw [hconst _ fun _ => 0] at hsame
      exact byte_ne_succ _ hsame
    constructor
    · by_contra hout
      exact hfixed (off₁ + bs₁.length - 1) (by omega) (.inl (by omega))
    · by_contra hout
      exact hfixed (off₂ + bs₂.length - 1) (by omega) (.inr (by omega))
  · rintro ⟨hin₁, hin₂⟩ flash flash' hrun a ha
    rw [hcall] at hrun
    cases hrun
    rw [write_inside h₂.1 hin₂ _ ha, write_inside h₁.1 hin₁ _ ha]

theorem keepsOutside_iff_one {call : Mem → Option (ρ × Mem)} {success : ρ}
    (hcall : ∀ flash, call flash = some (success, write flash off bs))
    (h : s.offset ≤ off ∧ off ≤ s.offset + s.sectorLen) :
    KeepsOutside s call success ↔ off + bs.length ≤ s.offset + s.sectorLen := by
  have htwo : ∀ flash, call flash = some (success, write (write flash off bs) off []) := fun flash => by
    rw [hcall, write_nil]
  rw [keepsOutside_iff htwo h h]
  exact and_iff_left h.2

end Writes

/-! ## Current and default settings -/

variable {env : UpdateEnv} {header : ParamHeader} {data flash flash' : Mem}

section Update

variable {s : Setting} {schema : MibSchema} {pMib : Mem} {lzssbuf : Bool} {image comp : List UInt8}

theorem lzssbuf_of_encode (henc : Lzss.encode lzssbuf image = some comp)
    (hpos : comp.length ≠ 0) : lzssbuf = true := by
  by_contra hlzss
  rw [Bool.eq_false_iff.mpr hlzss] at henc
  cases henc
  exact hpos rfl

/-- The part that the writers share: if it succeeds, the ring was allocated, and the file is not empty, fits its block
and is on the flash. -/
theorem encodeWrite_true {room expLen : ℕ} {res : WriteResult}
    (h : (do
      let comp ← Lzss.encode lzssbuf image
      if comp.length = 0 then none
      else if room < comp.length + compHeaderLen then none
      else some (flashWrite flash s.offset (compImage s expLen comp) res)) = some (true, flash')) :
    ∃ comp, lzssbuf = true ∧ Lzss.encode true image = some comp ∧ comp.length ≠ 0 ∧
      comp.length + compHeaderLen ≤ room ∧ res = .ok ∧ flash' = write flash s.offset (compImage s expLen comp) := by
  obtain ⟨comp, henc, hcall⟩ := Option.bind_eq_some_iff.mp h
  split_ifs at hcall with hpos hroom
  have hlzss := lzssbuf_of_encode henc hpos
  subst hlzss
  cases res with
  | ok =>
    cases hcall
    exact ⟨comp, rfl, henc, hpos, Nat.not_lt.mp hroom, rfl, rfl⟩
  | short n => cases hcall

theorem mibCompressWrite_cases {r : Bool × Mem} (h : mibCompressWrite s env header data flash = some r) :
    env.compPtr = false ∧ (∀ m, mibCompressWrite s env header data m = some (false, m)) ∨
      env.compPtr = true ∧ ∃ comp, Lzss.encode true (expImage header data) = some comp ∧
        ∀ m, mibCompressWrite s env header data m =
          some (flashWrite m s.offset (compImage s (header.len + headerLen) comp) env.compWrite) := by
  cases hptr : env.compPtr with
  | false =>
    refine .inl ⟨rfl, fun m => ?_⟩
    simp [mibCompressWrite, hptr]
  | true =>
    refine .inr ⟨rfl, ?_⟩
    have hexp : env.expPtr = true := by
      cases hexp : env.expPtr with
      | false => simp [mibCompressWrite, hptr, hexp] at h
      | true => rfl
    have hlzss : env.lzssbuf = true := by
      cases hlzss : env.lzssbuf with
      | false => simp [mibCompressWrite, hptr, hexp, hlzss, Lzss.encode] at h
      | true => rfl
    obtain ⟨comp, henc, hpos, -⟩ := encode_expImage header data
    refine ⟨comp, henc, fun m => ?_⟩
    have hroom : comp.length + compHeaderLen ≤ s.offset := by
      by_contra hover
      simp [mibCompressWrite, hptr, hexp, hlzss, henc, Nat.not_le.mp hover] at h
    exact mibCompressWrite_ok hptr hexp hlzss henc hpos hroom m

theorem compFileLen_eq (h : Lzss.encode true image = some comp) :
    compFileLen image = comp.length + compHeaderLen := by
  rw [compFileLen, h, Option.getD_some]

/-- **`mib_compress_write`** stays in the sector exactly if the file fits. -/
theorem mibCompressWrite_keeps_iff (hs : SettingOk s)
    (h : mibCompressWrite s env header data flash = some (true, flash')) :
    KeepsOutside s (mibCompressWrite s env header data) true ↔
      compFileLen (expImage header data) ≤ s.sectorLen := by
  rcases mibCompressWrite_cases h with ⟨-, hcall⟩ | ⟨-, comp, henc, hcall⟩
  · rw [hcall] at h
    cases h
  · have hok : env.compWrite = .ok := by
      rw [hcall] at h
      cases hres : env.compWrite with
      | ok => rfl
      | short n =>
        rw [hres] at h
        cases h
    rw [hok] at hcall
    rw [keepsOutside_iff_one hcall ⟨Nat.le_refl _, Nat.le_add_right ..⟩, length_compImage hs, compFileLen_eq henc]
    omega

/-- What an update writes fits the sector: the compressed file, and the struct if it is written in its place. -/
def UpdateFits (s : Setting) (schema : MibSchema) (env : UpdateEnv) (header : ParamHeader) (pMib : Mem) : Prop :=
  let saved := savedData schema env header pMib
  (env.compPtr = true → env.compWrite.taken (compFileLen (expImage saved.1 saved.2)) ≤ s.sectorLen) ∧
  (env.compPtr = false ∨ env.compWrite ≠ .ok → headerLen + header.len ≤ s.sectorLen)

theorem apmibUpdate_call (h : apmibUpdate s schema env header pMib flash = some (1, flash')) (m : Mem) :
    apmibUpdate s schema env header pMib m =
      let saved := savedData schema env header pMib
      (mibCompressWrite s env saved.1 saved.2 m).map (writeFallback s env header saved.2) := by
  unfold apmibUpdate at h ⊢
  split_ifs at h ⊢
  · cases h
  · rfl

theorem writeFallback_false {d : Mem} (h : writeFallback s env header d (false, flash) = (1, flash')) (m : Mem) :
    writeFallback s env header d (false, m) = (1, write m (s.offset + headerLen) (read d 0 header.len)) := by
  unfold writeFallback at h ⊢
  cases hres : env.rawWrite with
  | ok => rfl
  | short n =>
    rw [hres] at h
    exact absurd (show (0 : ℤ) = 1 from congrArg Prod.fst h) (by decide)

/-- **`apmib_update`** stays in the sector exactly if what it writes fits. -/
theorem apmibUpdate_keeps_iff (hs : SettingOk s) (hroom : headerLen ≤ s.sectorLen)
    (h : apmibUpdate s schema env header pMib flash = some (1, flash')) :
    KeepsOutside s (apmibUpdate s schema env header pMib) 1 ↔ UpdateFits s schema env header pMib := by
  have hcall := apmibUpdate_call h
  obtain ⟨r, hr, hfall⟩ := apmibUpdate_eq h
  unfold UpdateFits
  dsimp only at hcall ⊢
  set saved := savedData schema env header pMib
  have hin₁ : s.offset ≤ s.offset ∧ s.offset ≤ s.offset + s.sectorLen := ⟨Nat.le_refl _, Nat.le_add_right ..⟩
  have hin₂ : s.offset ≤ s.offset + headerLen ∧ s.offset + headerLen ≤ s.offset + s.sectorLen := by omega
  rcases mibCompressWrite_cases hr with ⟨hptr, hwrite⟩ | ⟨hptr, comp, henc, hwrite⟩
  · rw [hwrite] at hr
    cases hr
    have hrun : ∀ m, apmibUpdate s schema env header pMib m =
        some (1, write m (s.offset + headerLen) (read saved.2 0 header.len)) := fun m => by
      rw [hcall m, hwrite, Option.map_some, writeFallback_false hfall]
    rw [keepsOutside_iff_one hrun hin₂, length_read, hptr]
    simp only [Bool.false_eq_true, false_implies, true_and, true_or, true_implies]
    omega
  · have hlen := length_compImage hs (saved.1.len + headerLen) comp
    rw [hptr, compFileLen_eq henc, ← hlen]
    cases hres : env.compWrite with
    | ok =>
      rw [hres] at hwrite
      have hrun : ∀ m, apmibUpdate s schema env header pMib m =
          some (1, write m s.offset (compImage s (saved.1.len + headerLen) comp)) := fun m => by
        rw [hcall m, hwrite, Option.map_some]
        rfl
      rw [keepsOutside_iff_one hrun hin₁]
      simp only [WriteResult.taken, true_implies, reduceCtorEq, ne_eq, not_true_eq_false, or_self, false_implies,
        and_true]
      omega
    | short n =>
      rw [hres] at hwrite
      rw [hwrite] at hr
      cases hr
      have hrun : ∀ m, apmibUpdate s schema env header pMib m =
          some (1, write (write m s.offset ((compImage s (saved.1.len + headerLen) comp).take n))
            (s.offset + headerLen) (read saved.2 0 header.len)) := fun m => by
        rw [hcall m, hwrite, Option.map_some, flashWrite, writeFallback_false hfall]
      rw [keepsOutside_iff hrun hin₁ hin₂, length_read, List.length_take]
      simp only [WriteResult.taken, true_implies, reduceCtorEq, ne_eq, not_false_eq_true, or_true]
      omega

end Update

section Hardware

variable {schema : HwSchema} {st : HwState} {pHwSetting : Mem}

/-- **`apmib_update(HW_SETTING)`** stays in the sector exactly if the data fits. -/
theorem apmibUpdateHw_keeps_iff {env : HwUpdateEnv} (hsig : st.hsHeader.signature.length = 4)
    (h : apmibUpdateHw schema env st pHwSetting flash = (1, flash')) :
    KeepsOutside hwSetting (fun m => some (apmibUpdateHw schema env st pHwSetting m)) 1 ↔
      hwHeaderLen + st.hsHeader.len ≤ hwSetting.sectorLen := by
  have hdata : env.data = true := by
    cases hdata : env.data with
    | false =>
      rw [apmibUpdateHw, hdata] at h
      exact absurd (show (-1 : ℤ) = 1 from congrArg Prod.fst h) (by decide)
    | true => rfl
  have hwrite : env.dataWrite = .ok := by
    cases hres : env.dataWrite with
    | ok => rfl
    | short n =>
      rw [apmibUpdateHw, hdata, hres] at h
      exact absurd (show (0 : ℤ) = 1 from congrArg Prod.fst h) (by decide)
  -- the header, if it is written
  obtain ⟨bs, hbs, hlen⟩ : ∃ bs : List UInt8, (∀ m, (if st.compressHwSetting then
      (flashWrite m hwSetting.offset (st.hsHeader.signature ++ store16 st.hsHeader.len) env.headerWrite).2
      else m) = write m hwSetting.offset bs) ∧ bs.length ≤ hwHeaderLen := by
    cases hflag : st.compressHwSetting with
    | false => exact ⟨[], fun m => (write_nil m _).symm, Nat.zero_le _⟩
    | true =>
      cases env.headerWrite with
      | ok =>
        refine ⟨_, fun m => rfl, ?_⟩
        rw [List.length_append, hsig, length_store16]
        exact Nat.le_refl _
      | short n =>
        refine ⟨_, fun m => rfl, (List.length_take_le' ..).trans ?_⟩
        rw [List.length_append, hsig, length_store16]
        exact Nat.le_refl _
  have hrun : ∀ m, some (apmibUpdateHw schema env st pHwSetting m) = some (1, write (write m hwSetting.offset bs)
      (hwSetting.offset + hwHeaderLen) (read (swappedData schema.toMibSchema st.hsHeader pHwSetting) 0 st.hsHeader.len)) := by
    intro m
    rw [← hbs m, apmibUpdateHw, hdata, hwrite]
    rfl
  rw [keepsOutside_iff hrun ⟨Nat.le_refl _, Nat.le_add_right ..⟩ ⟨Nat.le_add_right .., by decide⟩, length_read]
  omega

variable (h : mibCompressWriteHw env header data flash = some (true, flash'))

include h

/-- A call for `HW_SETTING` that succeeds has copied no more bytes than the block has, and has written the image. -/
theorem mibCompressWriteHw_true :
    wordSwap header.len ≤ header.len ∧ ∃ comp, Lzss.encode true (expImageHw header data env.heap) = some comp ∧
      comp.length ≠ 0 ∧ comp.length + compHeaderLen ≤ hwSetting.offset ∧
      ∀ m, mibCompressWriteHw env header data m =
        some (true, write m hwSetting.offset (compImage hwSetting (header.len + hwHeaderLen) comp)) := by
  have hblocks : env.compPtr = true ∧ env.expPtr = true := by
    by_contra hblocks
    rw [mibCompressWriteHw, if_neg hblocks] at h
    split_ifs at h
    cases h
  have hcopy : ¬ header.len < wordSwap header.len := by
    intro hover
    rw [mibCompressWriteHw, if_pos hblocks, if_pos hover] at h
    cases h
  rw [mibCompressWriteHw, if_pos hblocks, if_neg hcopy] at h
  obtain ⟨comp, hlzss, henc, hpos, hroom, hwrite, -⟩ := encodeWrite_true h
  refine ⟨Nat.not_lt.mp hcopy, comp, henc, hpos, hroom, fun m => ?_⟩
  simp only [mibCompressWriteHw, if_pos hblocks, if_neg hcopy, hlzss, henc, Option.bind_eq_bind, Option.bind_some, hpos,
    Nat.not_lt.mpr hroom, if_false, hwrite, flashWrite]

/-- **`mib_compress_write(HW_SETTING)`** stays in the sector exactly if the file fits. -/
theorem mibCompressWriteHw_keeps_iff :
    KeepsOutside hwSetting (mibCompressWriteHw env header data) true ↔
      compFileLen (expImageHw header data env.heap) ≤ hwSetting.sectorLen := by
  obtain ⟨-, comp, henc, -, -, hrun⟩ := mibCompressWriteHw_true h
  rw [keepsOutside_iff_one hrun ⟨Nat.le_refl _, Nat.le_add_right ..⟩, length_compImage hwSetting_ok,
    compFileLen_eq henc]
  omega

end Hardware

/-- **Writes stay in their sector exactly if what is written fits it**, for the two functions and all settings. -/
theorem writes_keep_sector_iff (env : UpdateEnv) (header : ParamHeader) (data flash flash' : Mem) :
    (∀ s ∈ [currentSetting, defaultSetting],
      (mibCompressWrite s env header data flash = some (true, flash') →
        (KeepsOutside s (mibCompressWrite s env header data) true ↔
          compFileLen (expImage header data) ≤ s.sectorLen)) ∧
      ∀ schema, apmibUpdate s schema env header data flash = some (1, flash') →
        (KeepsOutside s (apmibUpdate s schema env header data) 1 ↔ UpdateFits s schema env header data)) ∧
    (mibCompressWriteHw env header data flash = some (true, flash') →
      (KeepsOutside hwSetting (mibCompressWriteHw env header data) true ↔
        compFileLen (expImageHw header data env.heap) ≤ hwSetting.sectorLen)) ∧
    ∀ schema hwEnv st, st.hsHeader.signature.length = 4 →
      apmibUpdateHw schema hwEnv st data flash = (1, flash') →
        (KeepsOutside hwSetting (fun m => some (apmibUpdateHw schema hwEnv st data m)) 1 ↔
          hwHeaderLen + st.hsHeader.len ≤ hwSetting.sectorLen) := by
  refine ⟨fun s hs => ?_, mibCompressWriteHw_keeps_iff, fun schema hwEnv st hsig h => apmibUpdateHw_keeps_iff hsig h⟩
  have hok : SettingOk s ∧ headerLen ≤ s.sectorLen := by
    rcases List.mem_cons.mp hs with rfl | hs
    · exact ⟨currentSetting_ok, by decide⟩
    · rw [List.mem_singleton.mp hs]
      exact ⟨defaultSetting_ok, by decide⟩
  exact ⟨mibCompressWrite_keeps_iff hok.1, fun schema h => apmibUpdate_keeps_iff hok.1 hok.2 h⟩

theorem pairSchema_keeps_sector : ∃ flash',
    apmibUpdate currentSetting pairSchema plainUpdate (validHeader currentSetting pairSchema) pairStruct
      (fun _ => 0xff) = some (1, flash') ∧ ∀ a, currentSetting.Outside a → flash' a = 0xff := by
  have hfits : Fits currentSetting pairSchema plainUpdate pairStruct := fits_of_short _ _ _ _ (by decide +kernel)
  set saved := savedData pairSchema plainUpdate (validHeader currentSetting pairSchema) pairStruct
  obtain ⟨comp, henc, hpos, -⟩ := encode_expImage saved.1 saved.2
  have hlen := hfits comp henc
  have hwrite : mibCompressWrite currentSetting plainUpdate saved.1 saved.2 (fun _ => 0xff) = _ :=
    mibCompressWrite_ok rfl rfl rfl henc hpos (hlen.trans currentSetting_ok.sector_le) _
  have hup := apmibUpdate_of_call (s := currentSetting) rfl (by decide) hwrite
  refine ⟨_, hup, ?_⟩
  refine (((writes_keep_sector_iff _ _ _ _ _).1 _ (List.mem_cons_self ..)).2 _ hup).mpr ⟨fun _ => ?_, ?_⟩ _ _ hup
  · exact (compFileLen_eq henc).trans_le hlen
  · rintro (h | h)
    · cases h
    · exact absurd rfl h

/-! ## A struct that does not compress -/

/-- Bytes below 128 and bytes from 128 on in turn: the digits of a counter. -/
def freshByte (p : ℕ) : UInt8 :=
  if p % 2 = 0 then UInt8.ofNat (p / 2 % 128) else UInt8.ofNat (128 + p / 2 / 128 % 128)

theorem toNat_freshByte (p : ℕ) :
    (freshByte p).toNat = if p % 2 = 0 then p / 2 % 128 else 128 + p / 2 / 128 % 128 := by
  unfold freshByte
  split_ifs
  · rw [UInt8.toNat_ofNat', Nat.mod_eq_of_lt (by omega)]
  · rw [UInt8.toNat_ofNat', Nat.mod_eq_of_lt (by omega)]

theorem freshByte_inj {p p' : ℕ} (hp : p < 32000) (hp' : p' < 32000)
    (h : ∀ k < 3, freshByte (p + k) = freshByte (p' + k)) : p = p' := by
  have h0 := congrArg UInt8.toNat (h 0 (by omega))
  have h1 := congrArg UInt8.toNat (h 1 (by omega))
  have h2 := congrArg UInt8.toNat (h 2 (by omega))
  rw [toNat_freshByte, toNat_freshByte] at h0 h1 h2
  have hpar : p % 2 = p' % 2 := by
    split_ifs at h0 <;> omega
  by_cases heven : p % 2 = 0
  · rw [if_pos (by omega), if_pos (by omega)] at h0
    rw [if_neg (by omega), if_neg (by omega)] at h1
    omega
  · rw [if_pos (by omega), if_pos (by omega)] at h1
    rw [if_neg (by omega), if_neg (by omega)] at h2
    omega

/-- A file of the counter behind a few bytes below 128 has nothing that occurred before. -/
theorem fresh_stream {head tail : List UInt8} {m : ℕ} (hhead : ∀ b ∈ head, b.toNat < 128) (hm : m < 32000) :
    Lzss.Fresh (Lzss.stream (head ++ ((List.range m).map freshByte ++ tail))) (Lzss.N - Lzss.F + head.length)
      (Lzss.N - Lzss.F + head.length + m - 2) := by
  set S := Lzss.stream (head ++ ((List.range m).map freshByte ++ tail)) with hS
  set B := Lzss.N - Lzss.F + head.length with hB
  have hcount : ∀ k, B ≤ k → k < B + m → S k = freshByte (k - B) := by
    intro k hk hlt
    rw [hS, Lzss.stream_ge (by omega), List.getD_append_right _ _ _ _ (by omega),
      List.getD_append _ _ _ _ (by simp only [List.length_map, List.length_range]; omega),
      show k - (Lzss.N - Lzss.F) - head.length = k - B by omega, List.getD_eq_getElem _ _ (by
        simp only [List.length_map, List.length_range]; omega), List.getElem_map, List.getElem_range]
  -- the blanks of the ring, the head and the first byte of the counter
  have hlow : ∀ k, k ≤ B → 0 < m → (S k).toNat < 128 := by
    intro k hk hpos
    rcases Nat.lt_or_ge k B with hlt | hge
    · rw [hS]
      rcases Nat.lt_or_ge k (Lzss.N - Lzss.F) with hring | hring
      · rw [Lzss.stream_lt hring]
        decide
      · have hin : k - (Lzss.N - Lzss.F) < head.length := by omega
        rw [Lzss.stream_ge hring, List.getD_append _ _ _ _ hin, List.getD_eq_getElem _ _ hin]
        exact hhead _ (List.getElem_mem hin)
    · rw [hcount k hge (by omega), show k - B = 0 by omega]
      decide
  intro q hb he src hsrc _
  rcases Nat.lt_or_ge src B with hbefore | hinside
  · -- one of the two bytes from `q` on is not below 128
    rcases Nat.mod_two_eq_zero_or_one (q - B) with heven | hodd
    · refine ⟨1, by omega, fun heq => ?_⟩
      have hsmall := hlow (src + 1) (by omega) (by omega)
      rw [heq, hcount _ (by omega) (by omega), toNat_freshByte, if_neg (by omega)] at hsmall
      omega
    · refine ⟨0, by omega, fun heq => ?_⟩
      have hsmall := hlow (src + 0) (by omega) (by omega)
      rw [heq, hcount _ (by omega) (by omega), toNat_freshByte, if_neg (by omega)] at hsmall
      omega
  · by_contra hno
    have hsame : ∀ k < 3, freshByte (src - B + k) = freshByte (q - B + k) := by
      intro k hk
      rw [show src - B + k = src + k - B by omega, show q - B + k = q + k - B by omega,
        ← hcount _ (by omega) (by omega), ← hcount _ (by omega) (by omega)]
      by_contra hne
      exact hno ⟨k, hk, hne⟩
    have := freshByte_inj (by omega) (by omega) hsame
    omega

/-- All but a few bytes of the counter take nine bits. -/
theorem length_encode_fresh {head tail y : List UInt8} {m : ℕ} (hhead : ∀ b ∈ head, b.toNat < 128) (hm : m < 32000)
    (hpos : 2 ≤ m) (henc : Lzss.encode true (head ++ ((List.range m).map freshByte ++ tail)) = some y) :
    9 * (m - 19) ≤ 8 * y.length := by
  have hlen : (head ++ ((List.range m).map freshByte ++ tail)).length = head.length + (m + tail.length) := by
    simp
  have := Lzss.encode_length_ge (fresh_stream hhead hm) (Nat.le_add_right ..) (by omega) (by rw [hlen]; omega) henc
  omega

def freshSchema : MibSchema where
  rootId := 0x8000
  table := .cons 1 .byteArrayT 0 15104 15104 .nil .nil
  size_pos := by decide
  entries := by
    refine ⟨?_, by simp [MibType.isTable], trivial⟩
    constructor <;> simp [MibType.isTable, MibTable.encLen]
  contiguous := ⟨rfl, trivial⟩
  path := by simp [MibTable.PathDistinct, MibType.isTable]

theorem expImage_freshSchema (s : Setting) :
    let saved := savedData freshSchema plainUpdate (validHeader s freshSchema) freshByte
    expImage saved.1 saved.2 = s.tag ++ digits02 s.ver ++ store32 (dwordSwap 15109) ++ raw16 1 ++ raw16 15104 ++
      ((List.range 15104).map freshByte ++ [checksum (mibWriteToRaw freshSchema.root
        (swappedData freshSchema (validHeader s freshSchema) freshByte) 0)]) := by
  set data := swappedData freshSchema (validHeader s freshSchema) freshByte with hdata
  have hread : read data 0 15104 = (List.range 15104).map freshByte := by
    have hsw : Swapped freshByte data freshSchema.table 0 := swappedData_swapped s freshSchema freshByte
    have hb : freshSchema.table.All MibEntry.Bytes := by
      refine ⟨⟨by decide, by decide⟩, by simp [MibType.isTable], trivial⟩
    have hsame : ∀ k, 0 ≤ k → k < 0 + 15104 → data k = freshByte k := fun k _ hk =>
      eq_of_swapped_bytes hsw freshSchema.contiguous freshSchema.entries hb (Nat.zero_le k) hk
    rw [read_congr hsame]
    simp [ByteMem.read]
  have htlv : mibWriteToRaw freshSchema.root data 0 = raw16 1 ++ raw16 15104 ++ (List.range 15104).map freshByte := by
    rw [← hread]
    exact List.append_nil _
  have hlen : (mibWriteToRaw freshSchema.root data 0).length = 15108 := length_writeTable ..
  have hsaved : savedData freshSchema plainUpdate (validHeader s freshSchema) freshByte =
      ({ validHeader s freshSchema with len := 15109 },
        tlvBlock (fun _ => 0) (mibWriteToRaw freshSchema.root data 0)) := by
    rw [← show (mibWriteToRaw freshSchema.root data 0).length + 1 = 15109 by rw [hlen]]
    rfl
  have hblock := read_write_self (fun _ => 0) 0
    (mibWriteToRaw freshSchema.root data 0 ++ [checksum (mibWriteToRaw freshSchema.root data 0)])
  rw [List.length_append, hlen] at hblock
  rw [hsaved]
  dsimp only [expImage, tlvBlock]
  rw [show read _ 0 15109 = _ from hblock]
  nth_rewrite 1 [htlv]
  simp [validHeader]

/-- **Saving the default settings runs into the current ones.** Every byte of the array takes nine bits, and
`apmib_update` returns 1. -/
theorem default_setting_overruns : ∃ flash flash',
    apmibUpdate defaultSetting freshSchema plainUpdate (validHeader defaultSetting freshSchema) freshByte flash =
      some (1, flash') ∧
    defaultSetting.offset + defaultSetting.sectorLen = currentSetting.offset ∧
    flash' currentSetting.offset ≠ flash currentSetting.offset := by
  set saved := savedData freshSchema plainUpdate (validHeader defaultSetting freshSchema) freshByte with hsaved
  obtain ⟨comp, henc, -, -, hhigh⟩ := Lzss.encode_spec (expImage saved.1 saved.2)
  have himage := expImage_freshSchema defaultSetting
  have hlen : (expImage saved.1 saved.2).length = 15117 := by
    rw [himage]
    simp [defaultSetting, digits02]
  have hlow : 9 * (15104 - 19) ≤ 8 * comp.length := by
    rw [himage] at henc
    exact length_encode_fresh (by decide +kernel) (by omega) (by omega) henc
  set image := compImage defaultSetting (saved.1.len + headerLen) comp with himg
  have hcall : ∀ m, apmibUpdate defaultSetting freshSchema plainUpdate (validHeader defaultSetting freshSchema)
      freshByte m = some (1, write m defaultSetting.offset image) := by
    intro m
    have hroom : comp.length + compHeaderLen ≤ defaultSetting.offset := by
      simp only [compHeaderLen, defaultSetting]
      omega
    have hwrite : mibCompressWrite defaultSetting plainUpdate saved.1 saved.2 m = _ :=
      mibCompressWrite_ok rfl rfl rfl henc (by omega) hroom m
    exact apmibUpdate_of_call rfl (by decide) hwrite
  -- the first byte behind the sector is written, whatever was there
  have hbyte : ∀ m, write m defaultSetting.offset image currentSetting.offset = image.getD 0x4000 0 := by
    intro m
    refine write_apply_mem (by decide) ?_
    rw [himg, length_compImage defaultSetting_ok]
    simp only [compHeaderLen, defaultSetting, currentSetting]
    omega
  refine ⟨fun _ => image.getD 0x4000 0 + 1, _, hcall _, rfl, ?_⟩
  rw [hbyte]
  exact byte_ne_succ _

end NasFirmware.Apmib
