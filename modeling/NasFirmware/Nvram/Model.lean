import NasFirmware.Lib.CString
import NasFirmware.Lib.Chained

/-!
# NVRAM variables

`package/utils/nvram/src/nvram.c`. Variables are kept in a hash table of 257 chains; the partition they come from
is mapped into memory. `nvram_commit` writes a header and the text `name=value\0 … \0\0` into the mapping, and
`nvram_open` finds the header by its magic word and parses the text again.
-/

namespace NasFirmware.Nvram

open ByteMem CString

abbrev Tuple := CStr × CStr

/-- `hash`: 31 times the hash so far, plus the next byte. -/
def hash (s : CStr) : ℕ := s.1.foldl (fun h c => (31 * h + c.toNat) % 2 ^ 32) 0

/-- The chain of a name: `hash(name) % NVRAM_ARRAYSIZE(h->nvram_hash)`. -/
def bucket (name : CStr) : Fin 257 := ⟨hash name % 257, Nat.mod_lt _ (by decide)⟩

/-- The partition and what the other files provide. -/
structure Env where
  nvramPartSize : ℕ
  mmapArea : ℕ
  strtoul : CStr → ℕ
  hndcrc8 : List UInt8 → UInt8 → UInt8
  nvramPartSize_lt : nvramPartSize < 2 ^ 32

/-- `nvram_handle_t`; `shared` is how the partition is mapped. -/
structure Handle where
  mmap : Mem
  shared : Bool
  length : ℕ
  offset : ℕ
  nvramHash : Chained.Table bucket CStr

/-! ## The table -/

def nvramGet (h : Handle) (name : CStr) : Option CStr := h.nvramHash.find name

/-- `nvram_set`, with the test of `_nvram_realloc`. -/
def nvramSet (h : Handle) (name value : CStr) : ℤ × Handle :=
  if value.1.length + 1 > h.length - h.offset then (-12, h)
  else (0, { h with nvramHash := h.nvramHash.insert name value })

def nvramUnset (h : Handle) (name : CStr) : ℤ × Handle := (0, { h with nvramHash := h.nvramHash.erase name })

def tuples (h : Handle) : List Tuple := h.nvramHash.entries

section Table

variable {h : Handle} {name name' value : CStr}

theorem nvramGet_set (hfit : value.1.length + 1 ≤ h.length - h.offset) :
    nvramGet (nvramSet h name value).2 name' = if name' = name then some value else nvramGet h name' := by
  rw [nvramSet, if_neg (Nat.not_lt.mpr hfit)]
  exact Chained.Table.find_insert

theorem nvramGet_unset :
    nvramGet (nvramUnset h name).2 name' = if name' = name then none else nvramGet h name' :=
  Chained.Table.find_erase

theorem nvramGet_of_set {v : CStr} (hget : nvramGet (nvramSet h name value).2 name' = some v) :
    name' = name ∨ nvramGet h name' = some v := by
  rcases Nat.lt_or_ge (h.length - h.offset) (value.1.length + 1) with hlong | hfit
  · rw [nvramSet, if_pos hlong] at hget
    exact .inr hget
  · rw [nvramGet_set hfit] at hget
    split_ifs at hget with hn
    · exact .inl hn
    · exact .inr hget

structure SameMap (h h' : Handle) : Prop where
  mmap : h'.mmap = h.mmap
  shared : h'.shared = h.shared
  length : h'.length = h.length
  offset : h'.offset = h.offset

theorem SameMap.refl (h : Handle) : SameMap h h := ⟨rfl, rfl, rfl, rfl⟩

theorem SameMap.trans {h h₁ h₂ : Handle} (h1 : SameMap h h₁) (h2 : SameMap h₁ h₂) : SameMap h h₂ :=
  ⟨h2.mmap.trans h1.mmap, h2.shared.trans h1.shared, h2.length.trans h1.length, h2.offset.trans h1.offset⟩

theorem SameMap.foldl {α : Type} {f : Handle → α → Handle} (hf : ∀ h a, SameMap h (f h a)) (l : List α)
    (h : Handle) : SameMap h (l.foldl f h) := by
  induction l generalizing h with
  | nil => exact .refl h
  | cons a l ih => exact (hf h a).trans (ih (f h a))

theorem nvramSet_sameMap (h : Handle) (name value : CStr) : SameMap h (nvramSet h name value).2 := by
  unfold nvramSet
  split_ifs <;> exact ⟨rfl, rfl, rfl, rfl⟩

end Table

/-! ## Parsing -/

def hexDigit (d : Fin 16) : UInt8 := if d.1 < 10 then UInt8.ofNat (48 + d.1) else UInt8.ofNat (55 + d.1)

theorem hexDigit_ne_zero (d : Fin 16) : hexDigit d ≠ 0 := by
  revert d
  decide

/-- `sprintf(buf, "0x%0wX", v)` for a `v` of at most `w` digits. -/
def hex (w v : ℕ) : CStr :=
  ⟨48 :: 120 :: (List.range w).map fun i => hexDigit ⟨v / 16 ^ (w - 1 - i) % 16, Nat.mod_lt _ (by decide)⟩, by
    simp only [List.mem_cons, List.mem_map, not_or, not_exists, not_and]
    exact ⟨by decide, by decide, fun _ _ => hexDigit_ne_zero _⟩⟩

theorem length_hex (w v : ℕ) : (hex w v).1.length = w + 2 := by
  simp [hex]

def sdramInit : CStr := ⟨[115, 100, 114, 97, 109, 95, 105, 110, 105, 116], by decide⟩

def sdramConfig : CStr := ⟨[115, 100, 114, 97, 109, 95, 99, 111, 110, 102, 105, 103], by decide⟩

def sdramRefresh : CStr := ⟨[115, 100, 114, 97, 109, 95, 114, 101, 102, 114, 101, 115, 104], by decide⟩

def sdramNcdl : CStr := ⟨[115, 100, 114, 97, 109, 95, 110, 99, 100, 108], by decide⟩

/-- The SDRAM parameters that the header at `off` gives, as variables. -/
def sdramParams (m : Mem) (off : ℕ) : List Tuple :=
  [(sdramInit, hex 4 (load32 m (off + 8) >>> 16)), (sdramConfig, hex 4 (load32 m (off + 12) &&& 0xffff)),
    (sdramRefresh, hex 4 (load32 m (off + 12) >>> 16)), (sdramNcdl, hex 8 (load32 m (off + 16)))]

def setMissing (h : Handle) (t : Tuple) : Handle :=
  if nvramGet h t.1 = none then (nvramSet h t.1 t.2).2 else h

def textAt (h : Handle) (a : ℕ) : CStr := ⟨strAt h.mmap (h.length - a) a, zero_notMem_strAt _ _ _⟩

theorem lt_length_of_textAt {h : Handle} {a : ℕ} (ha : (textAt h a).1 ≠ []) : a < h.length := by
  refine Nat.lt_of_not_le fun hle => ha ?_
  simp [textAt, Nat.sub_eq_zero_of_le hle, strAt]

/-- The loop of `_nvram_rehash`: the string at `a` is cut at its `=`, set, and the next one begins after its NUL. -/
def rehashLoop (a : ℕ) (h : Handle) : Handle :=
  if _hne : (textAt h a).1 = [] then h
  else
    match cut 61 (textAt h a) with
    | none => h
    | some (name, value) => rehashLoop (a + (textAt h a).1.length + 1) (nvramSet h name value).2
termination_by h.length - a
decreasing_by
  have := lt_length_of_textAt _hne
  rw [(nvramSet_sameMap ..).length]
  omega

def nvramRehash (h : Handle) : ℤ × Handle :=
  (0, (sdramParams h.mmap h.offset).foldl setMissing
    (rehashLoop (h.offset + 20) { h with nvramHash := .empty }))

/-! ## Writing and reading the partition -/

@[irreducible] def nvramMagic : ℕ := 0x48534C46

theorem nvramMagic_lt : nvramMagic < 2 ^ 32 := by
  unfold nvramMagic
  decide

def roundup (x y : ℕ) : ℕ := (x + (y - 1)) / y * y

/-- `crc_ver_init` without its check sum, `config_refresh` and `config_ncdl`. -/
def headerWords (env : Env) (h : Handle) : ℕ × ℕ × ℕ :=
  match nvramGet h sdramInit, nvramGet h sdramConfig, nvramGet h sdramRefresh, nvramGet h sdramNcdl with
  | some init, some config, some refresh, some ncdl =>
    ((1 <<< 8) ||| ((env.strtoul init &&& 0xffff) <<< 16),
      (env.strtoul config &&& 0xffff) ||| ((env.strtoul refresh &&& 0xffff) <<< 16), env.strtoul ncdl)
  | _, _, _, _ => ((1 <<< 8) ||| (0x419 <<< 16), 0 ||| (0x8040 <<< 16), 0)

def entry (t : Tuple) : List UInt8 := t.1.1 ++ 61 :: (t.2.1 ++ [0])

/-- The tuples of one chain: the first that does not fit before `lim` ends the chain. -/
def writeChain (lim : ℕ) : List Tuple → Mem × ℕ → Mem × ℕ
  | [], s => s
  | t :: ts, s =>
    if s.2 + t.1.1.length + 1 + t.2.1.length + 1 > lim then s
    else writeChain lim ts (write s.1 s.2 (entry t), s.2 + (entry t).length)

def writeTuples (lim : ℕ) (h : Handle) (s : Mem × ℕ) : Mem × ℕ :=
  (List.finRange 257).foldl (fun s i => writeChain lim (h.nvramHash.chain i) s) s

/-- How many bytes are padded: `4 - ((int)ptr % 4)`, of a signed remainder. -/
def padding (ptr : ℕ) : ℕ :=
  let r := (signed (ptr % 2 ^ 32)).tmod 4
  if r = 0 then 0 else (4 - r).toNat

/-- The data area: cleared, the tuples, a NUL and the padding; and where the text ends. -/
def commitData (env : Env) (h : Handle) : Mem × ℕ :=
  let data := memset h.mmap (h.offset + 20) (env.nvramPartSize - h.offset - 20) 0xff
  -- space is left for a double NUL
  let s := writeTuples (env.nvramPartSize - 2) h (data, h.offset + 20)
  let ptr := s.2 + 1
  (memset (write s.1 s.2 [0]) ptr (padding (env.mmapArea + ptr)) 0, ptr + 1)

def commitMap (env : Env) (h : Handle) : Mem :=
  let (init, refresh, ncdl) := headerWords env h
  let (data, ptr) := commitData env h
  let len := roundup (ptr - h.offset) 4
  -- the check sum covers the header from its version on, then the data
  let tmp := store32 0 ++ store32 0 ++ store32 init ++ store32 refresh ++ store32 ncdl
  let crc := env.hndcrc8 (read data (h.offset + 20) (len - 20)) (env.hndcrc8 (tmp.drop 9) 0xff)
  write data h.offset
    (store32 nvramMagic ++ (store32 len ++ (store32 (init ||| crc.toNat) ++ (store32 refresh ++ store32 ncdl))))

/-- `nvram_commit`: its result, the partition and the handle. -/
def nvramCommit (env : Env) (file : Mem) (h : Handle) : ℤ × Mem × Handle :=
  let r := nvramRehash { h with mmap := commitMap env h }
  (r.1, if h.shared then commitMap env h else file, r.2)

/-- Look for the magic word from word `i` on, `n` words at most; there is none past the partition. -/
def findMagic (m : Mem) (size : ℕ) : ℕ → ℕ → Option ℕ
  | 0, _ => none
  | n + 1, i =>
    if size < 4 * i + 4 then none
    else if load32 m (4 * i) = nvramMagic then some (4 * i)
    else findMagic m size n (i + 1)

/-- The search of `nvram_open`: `i <= (nvram_part_size - NVRAM_MIN_SPACE) / 4`, unsigned. -/
def headerOffset (env : Env) (m : Mem) : Option ℕ :=
  findMagic m env.nvramPartSize ((env.nvramPartSize + 2 ^ 32 - 0x8000) % 2 ^ 32 / 4 + 1) 0

/-- `nvram_open`; `rdonly` is `NVRAM_RO`. -/
def nvramOpen (env : Env) (file : Mem) (rdonly : Bool) : Option Handle := do
  let offset ← headerOffset env file
  if load32 file offset = nvramMagic ∧
      (rdonly = true ∨ load32 file (offset + 4) < env.nvramPartSize - offset) then
    some (nvramRehash ⟨file, !rdonly, env.nvramPartSize, offset, .empty⟩).2
  else none

end NasFirmware.Nvram
