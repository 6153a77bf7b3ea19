import NasFirmware.Apmib.Rate
import NasFirmware.Lzss.AnyFile
import NasFirmware.Mib.Order

/-!
# The bounds of the loader

`apmib_csconf` takes the rate and the length of the compressed file from its header, lets `Decode` write the file into
a block of that size, and takes the length of the body from what was written. None of the three is compared with
another one, so the bounds are properties of what lies on the flash.
-/

namespace NasFirmware.Apmib

open ByteMem Mib

/-! ## The file on the flash -/

def zipRate (s : Setting) (flash : Mem) : ℕ := wordSwap (load16 flash (s.offset + 6))

def storedLen (s : Setting) (flash : Mem) : ℕ := dwordSwap (load32 flash (s.offset + 8))

def storedFile (s : Setting) (flash : Mem) : List UInt8 := read flash (s.offset + compHeaderLen) (storedLen s flash)

def expRoom (s : Setting) (flash : Mem) : ℕ := zipRate s flash * storedLen s flash

/-- `csHeader.len`, from a cleared block with the expanded file. -/
def csLen (expanded : List UInt8) : ℕ := dwordSwap (load32 (write (fun _ => 0) 0 expanded) 4)

/-- What the checksum and the TLV reader are handed: the expanded file behind its header, and then `behind`. -/
def bodyOf (expanded : List UInt8) (behind : Mem) : Mem := fun k => write behind 0 expanded (headerLen + k)

/-- The elements of the body: `len - 1` bytes behind the header. -/
def bodyElems (expanded : List UInt8) : List UInt8 := (expanded.drop headerLen).take (csLen expanded - 1)

section Body

variable {expanded : List UInt8} {len : ℕ}

theorem read_bodyOf (behind behind' : Mem) {off n : ℕ} (h : headerLen + off + n ≤ expanded.length) :
    read (bodyOf expanded behind) off n = read (bodyOf expanded behind') off n := by
  refine read_congr fun k hk hlt => ?_
  unfold bodyOf
  rw [write_apply_mem (Nat.zero_le _) (by omega), write_apply_mem (Nat.zero_le _) (by omega)]

theorem bodyOf_behind {behind : Mem} {k : ℕ} (h : expanded.length ≤ headerLen + k) :
    bodyOf expanded behind k = behind (headerLen + k) :=
  write_apply_ge (by omega)

theorem sum_read_succ (m : Mem) (n : ℕ) : (read m 0 (n + 1)).sum = (read m 0 n).sum + m n := by
  rw [read_add, Nat.zero_add, List.sum_append, read_succ, read_zero, List.sum_singleton]

/-- **The checksum depends on decoded bytes only** exactly if nothing is added up, the length is refused, or the whole
body was decoded. -/
theorem checksumOk_behind_iff (expanded : List UInt8) (len : ℕ) :
    (∀ behind behind', checksumOk (bodyOf expanded behind) len = checksumOk (bodyOf expanded behind') len) ↔
      len = 0 ∨ 0x800000 < len ∨ headerLen + len ≤ expanded.length := by
  constructor
  · intro h
    by_contra hno
    obtain ⟨hpos, hle, hlong⟩ : len ≠ 0 ∧ len ≤ 0x800000 ∧ expanded.length < headerLen + len := by omega
    obtain ⟨n, rfl⟩ := Nat.exists_eq_succ_of_ne_zero hpos
    -- the last byte of the body can be chosen such that the sum is zero, and such that it is not
    set rest := (read (bodyOf expanded fun _ => 0) 0 n).sum with hrest
    have hsum : ∀ c : UInt8, (read (bodyOf expanded (Function.update (fun _ => 0) (headerLen + n) c)) 0 (n + 1)).sum =
        rest + c := by
      intro c
      rw [sum_read_succ, hrest]
      congr 1
      · congr 1
        refine read_congr fun k _ hk => ?_
        unfold bodyOf write
        split_ifs
        · rfl
        · rw [Function.update_of_ne (by omega)]
      · rw [bodyOf_behind (by omega), Function.update_self]
    have hsame := h (Function.update (fun _ => 0) (headerLen + n) (-rest))
      (Function.update (fun _ => 0) (headerLen + n) (-rest + 1))
    simp only [checksumOk, hsum, hle, decide_true, Bool.true_and] at hsame
    rw [← UInt8.add_assoc, UInt8.add_right_neg, UInt8.zero_add] at hsame
    exact absurd hsame (by decide)
  · rintro h behind behind'
    unfold checksumOk
    rcases h with rfl | h | h
    · rfl
    · rw [decide_eq_false (Nat.not_le.mpr h), Bool.false_and, Bool.false_and]
    · rw [read_bodyOf behind behind' (by omega)]

/-- A body of whole elements, with a byte for the checksum, all of it decoded. -/
structure WholeBody (t : MibTable) (expanded : List UInt8) : Prop where
  checksum : 0 < csLen expanded
  decoded : headerLen + csLen expanded ≤ expanded.length
  elems : ∃ es : List Elem, (∀ e ∈ es, ElemOk e ∧ Whole t e) ∧ bodyElems expanded = streamBytes es

/-- **The TLV reader stays within the decoded bytes** if the body is made of whole elements. -/
theorem mibTlvInit_behind {t : MibTable} (h : WholeBody t expanded) (env : TlvEnv) (pfile behind behind' : Mem) :
    mibTlvInit env t (bodyOf expanded behind) pfile (csLen expanded - 1) =
      mibTlvInit env t (bodyOf expanded behind') pfile (csLen expanded - 1) := by
  obtain ⟨es, hok, helems⟩ := h.elems
  have hdecoded := h.decoded
  have hlen : (streamBytes es).length = csLen expanded - 1 := by
    rw [← helems, bodyElems, List.length_take, List.length_drop]
    omega
  have hread : ∀ behind, read (bodyOf expanded behind) 0 (streamBytes es).length = streamBytes es := by
    intro behind
    have hall : read (write behind 0 expanded) 0 expanded.length = expanded := read_write_self ..
    have hbody : read (write behind 0 expanded) (0 + headerLen) (csLen expanded - 1) = bodyElems expanded := by
      rw [bodyElems, ← take_read (n := expanded.length - headerLen) (by omega), ← drop_read (by omega), hall]
    rw [hlen, ← helems, ← hbody, Nat.add_comm]
    exact read_shift ..
  rw [← hlen]
  exact mibTlvInit_congr hok (hread _) (hread _) pfile

end Body

theorem expandConf_overrun {s : Setting} {schema : MibSchema} {env : LoadEnv} {flash : Mem} {text : List UInt8}
    (hlen : 0 < storedLen s flash ∧ storedLen s flash ≤ s.sectorLen) (hcomp : env.compFile = true)
    (hexp : env.expFile = true) (hdec : Lzss.decode env.decodeBuf (storedFile s flash) = some text)
    (hover : expRoom s flash < text.length) : expandConf s schema env flash = none := by
  simp only [storedFile, expRoom, zipRate, storedLen] at hlen hdec hover
  simp only [expandConf, hlen, hcomp, hexp, hdec, hover, and_self, not_true, Bool.not_true, Bool.false_eq_true,
    if_false, if_true, Option.bind_eq_bind, Option.bind_some]

/-- **The bounds of the loader are those of the file on the flash.** For whatever passes the tests of the header,
`Decode` returns, and what it writes fits its block exactly if the units of the file do. The rate 9 is always enough.
The checksum is a function of the decoded bytes exactly if the body lies within them or is not added up, and so is the
TLV reader if the body is made of whole elements. -/
theorem csconf_bounds_iff (flash : Mem) (hsig : read flash currentSetting.offset 6 = currentSetting.compSignature)
    (hlen : 0 < storedLen currentSetting flash ∧ storedLen currentSetting flash ≤ currentSetting.sectorLen)
    (textBuf : ℕ → UInt8) :
    let file := storedFile currentSetting flash
    let room := expRoom currentSetting flash
    let text := Lzss.fileText textBuf file
    ∃ expanded, Lzss.decode (some textBuf) file = some expanded ∧
      (expanded.length ≤ room ∧ csLen expanded + headerLen ≤ room ↔
        Lzss.spans file ≤ room ∧ csLen text + headerLen ≤ room) ∧
      (9 ≤ zipRate currentSetting flash → expanded.length ≤ room) ∧
      (∀ schema env, env.compFile = true → env.expFile = true → env.decodeBuf = some textBuf →
        room < Lzss.spans file → apmibCsconf schema env flash = none) ∧
      ((∀ behind behind', checksumOk (bodyOf expanded behind) (csLen expanded) =
          checksumOk (bodyOf expanded behind') (csLen expanded)) ↔
        csLen text = 0 ∨ 0x800000 < csLen text ∨ headerLen + csLen text ≤ Lzss.spans file) ∧
      ∀ t, WholeBody t text → ∀ env pfile behind behind',
        mibTlvInit env t (bodyOf expanded behind) pfile (csLen expanded - 1) =
          mibTlvInit env t (bodyOf expanded behind') pfile (csLen expanded - 1) := by
  intro file room text
  have hspans : text.length = Lzss.spans file := Lzss.length_fileText textBuf file
  have hdec : Lzss.decode (some textBuf) file = some text := Lzss.decode_eq_fileText textBuf file
  refine ⟨text, hdec, ?_, fun hrate => ?_, fun schema env hcomp hexp hbuf hover => ?_, ?_,
    fun t h => mibTlvInit_behind h⟩
  · rw [hspans]
  · have hle : Lzss.spans file ≤ 9 * file.length := Lzss.spans_le file
    have hfile : file.length = storedLen currentSetting flash := length_read ..
    rw [hspans]
    calc Lzss.spans file ≤ 9 * storedLen currentSetting flash := hfile ▸ hle
      _ ≤ zipRate currentSetting flash * storedLen currentSetting flash := Nat.mul_le_mul_right _ hrate
  · rw [apmibCsconf, loadConf, if_pos hsig, expandConf_overrun hlen hcomp hexp (hbuf ▸ hdec) (hspans ▸ hover)]
    rfl
  · rw [← hspans]
    exact checksumOk_behind_iff text (csLen text)

/-! ## Files with the rate 1 -/

def rateOne (file : List UInt8) : Mem := write (fun _ => 0xff) currentSetting.offset (compImage currentSetting 0 file)

theorem rateOne_spec (file : List UInt8) (h : file.length < 2 ^ 32) :
    read (rateOne file) currentSetting.offset 6 = currentSetting.compSignature ∧
      storedLen currentSetting (rateOne file) = file.length ∧ storedFile currentSetting (rateOne file) = file ∧
      expRoom currentSetting (rateOne file) = file.length := by
  obtain ⟨hsig, hrate, hlen, hfile⟩ := read_compImage currentSetting_ok h (read_write_self (fun _ => 0xff) _ _)
  rw [Nat.zero_div] at hrate
  refine ⟨hsig, hlen, ?_, ?_⟩
  · rw [storedFile, rateOne, storedLen, hlen, hfile]
  · rw [expRoom, zipRate, rateOne, storedLen, hrate, hlen, Nat.one_mul]

/-- Fourteen plain bytes: the header, the element `1` with the value `5`, and the checksum. -/
def plainFile : List UInt8 := [255, 54, 97, 48, 51, 0, 0, 0, 6, 63, 0, 1, 0, 1, 5, 249]

/-- Eight references to eighteen bytes each. -/
def copiesFile : List UInt8 := 0 :: List.replicate 16 15

/-- A header that announces `2 ^ 32 - 1` bytes. -/
def longFile : List UInt8 := [255, 54, 97, 48, 51, 255, 255, 255, 255]

theorem plainFile_bounds : ∃ expanded,
    Lzss.decode (some fun _ => 0) (storedFile currentSetting (rateOne plainFile)) = some expanded ∧
      expanded.length ≤ expRoom currentSetting (rateOne plainFile) ∧
      csLen expanded + headerLen ≤ expRoom currentSetting (rateOne plainFile) := by
  obtain ⟨hsig, hlen, hfile, hroom⟩ := rateOne_spec plainFile (by decide)
  obtain ⟨expanded, hdec, hiff, -⟩ :=
    csconf_bounds_iff (rateOne plainFile) hsig (by rw [hlen]; decide) fun _ => 0
  refine ⟨expanded, hdec, hiff.mpr ?_⟩
  have htext : Lzss.fileText (fun _ => 0) plainFile = [54, 97, 48, 51, 0, 0, 0, 6, 0, 1, 0, 1, 5, 249] :=
    Lzss.fileText_of_lits rfl _
  rw [hfile, hroom, htext]
  decide

/-- Two flashes that pass the tests of the header: for one the output does not fit its block, for the other the length
does not. -/
theorem loader_overruns :
    (read (rateOne copiesFile) currentSetting.offset 6 = currentSetting.compSignature ∧
      (0 < storedLen currentSetting (rateOne copiesFile) ∧
        storedLen currentSetting (rateOne copiesFile) ≤ currentSetting.sectorLen) ∧
      ∃ expanded, Lzss.decode (some fun _ => 0) (storedFile currentSetting (rateOne copiesFile)) = some expanded ∧
        expRoom currentSetting (rateOne copiesFile) < expanded.length) ∧
    read (rateOne longFile) currentSetting.offset 6 = currentSetting.compSignature ∧
      (0 < storedLen currentSetting (rateOne longFile) ∧
        storedLen currentSetting (rateOne longFile) ≤ currentSetting.sectorLen) ∧
      ∃ expanded, Lzss.decode (some fun _ => 0) (storedFile currentSetting (rateOne longFile)) = some expanded ∧
        expanded.length ≤ expRoom currentSetting (rateOne longFile) ∧
        expRoom currentSetting (rateOne longFile) < csLen expanded + headerLen := by
  obtain ⟨hsig, hlen, hfile, hroom⟩ := rateOne_spec copiesFile (by decide)
  obtain ⟨hsig', hlen', hfile', hroom'⟩ := rateOne_spec longFile (by decide)
  refine ⟨⟨hsig, by rw [hlen]; decide, _, Lzss.decode_eq_fileText .., ?_⟩, hsig', by rw [hlen']; decide, _,
    Lzss.decode_eq_fileText .., ?_, ?_⟩
  · rw [Lzss.length_fileText, hfile, hroom]
    decide
  · rw [Lzss.length_fileText, hfile', hroom']
    decide
  · have htext : Lzss.fileText (fun _ => 0) longFile = [54, 97, 48, 51, 255, 255, 255, 255] :=
      Lzss.fileText_of_lits rfl _
    rw [hfile', hroom', htext]
    decide

end NasFirmware.Apmib
