import NasFirmware.Nvram.Text

/-!
# Opening what was committed

* **`nvram_commit_reopen`**: `nvram_commit` returns 0. If the text of all variables, its header and a double NUL,
  rounded up, are below the partition's size, the variables are there again. If they only just fit, they are
  not; and never unless there is room at least for those that are not SDRAM parameters.
-/

namespace NasFirmware.Nvram

open ByteMem CString

/-- The handles of a partition `file`, in a program that sets names without `=` only. -/
inductive Session (env : Env) : Mem → Handle → Prop
  | opened {file : Mem} {rdonly : Bool} {h : Handle} (ho : nvramOpen env file rdonly = some h) :
      Session env file h
  | set {file : Mem} {h : Handle} {name value : CStr} (hs : Session env file h) (hn : 61 ∉ name.1) :
      Session env file (nvramSet h name value).2
  | unset {file : Mem} {h : Handle} {name : CStr} (hs : Session env file h) :
      Session env file (nvramUnset h name).2
  | commit {file : Mem} {h : Handle} (hs : Session env file h) :
      Session env (nvramCommit env file h).2.1 (nvramCommit env file h).2.2

section Search

variable {m m' : Mem} {size n i off : ℕ}

theorem findMagic_spec (h : findMagic m size n i = some off) : 4 * i ≤ off ∧ off % 4 = 0 ∧ off + 4 ≤ size := by
  induction n generalizing i with
  | zero => cases h
  | succ n ih =>
    rw [findMagic] at h
    split_ifs at h with hend hmagic
    · cases h
      omega
    · have := ih h
      omega

theorem findMagic_congr (h : findMagic m size n i = some off) (hbefore : ∀ k < off, m' k = m k)
    (hmagic : load32 m' off = nvramMagic) : findMagic m' size n i = some off := by
  induction n generalizing i with
  | zero => cases h
  | succ n ih =>
    rw [findMagic] at h ⊢
    split_ifs at h with hend hword
    · cases h
      rw [if_neg hend, if_pos hmagic]
    · have hnext := findMagic_spec h
      have hload : load32 m' (4 * i) = load32 m (4 * i) := load32_congr fun k _ hk => hbefore k (by omega)
      rw [if_neg hend, hload, if_neg hword, ih h]

end Search

/-! ## Names -/

/-- No variable has a `=` in its name. -/
def Named (h : Handle) : Prop := ∀ name value, nvramGet h name = some value → 61 ∉ name.1

variable {env : Env} {file : Mem} {h : Handle}

section Names

variable {name : CStr}

theorem Named.set (hn : Named h) (hname : 61 ∉ name.1) (value : CStr) :
    Named (nvramSet h name value).2 := by
  intro n v hget
  rcases nvramGet_of_set hget with rfl | hget
  · exact hname
  · exact hn n v hget

theorem Named.unset (hn : Named h) (name : CStr) : Named (nvramUnset h name).2 := by
  intro n v hget
  rw [nvramGet_unset] at hget
  split_ifs at hget
  exact hn n v hget

theorem Named.foldl_setMissing {ts : List Tuple} (hn : Named h) (hts : ∀ t ∈ ts, 61 ∉ t.1.1) :
    Named (ts.foldl setMissing h) := by
  induction ts generalizing h with
  | nil => exact hn
  | cons t ts ih =>
    refine ih ?_ fun u hu => hts u (List.mem_cons_of_mem _ hu)
    unfold setMissing
    split_ifs
    · exact hn.set (hts t List.mem_cons_self) t.2
    · exact hn

theorem rehashLoop_spec (a : ℕ) (h : Handle) :
    SameMap h (rehashLoop a h) ∧ (Named h → Named (rehashLoop a h)) := by
  fun_induction rehashLoop a h with
  | case1 a h hempty => exact ⟨.refl h, id⟩
  | case2 a h hne hcut => exact ⟨.refl h, id⟩
  | case3 a h hne name value hcut ih =>
    exact ⟨(nvramSet_sameMap ..).trans ih.1, fun hn => ih.2 (hn.set (notMem_of_cut hcut) value)⟩

/-- The four names that the header has a value for. -/
def sdramNames : List CStr := [sdramInit, sdramConfig, sdramRefresh, sdramNcdl]

theorem map_fst_sdramParams (m : Mem) (off : ℕ) : (sdramParams m off).map Prod.fst = sdramNames := rfl

theorem valueIn_sdramParams {m : Mem} {off : ℕ} (hname : name ∉ sdramNames) :
    valueIn (sdramParams m off) name = none := by
  rw [valueIn, Keyed.get_eq_none_iff.mpr (by rwa [map_fst_sdramParams])]
  rfl

theorem nvramRehash_named (h : Handle) : Named (nvramRehash h).2 := by
  refine Named.foldl_setMissing ((rehashLoop_spec ..).2 fun _ _ hget => nomatch hget) fun t ht => ?_
  have hmem : t.1 ∈ sdramNames := map_fst_sdramParams h.mmap h.offset ▸ List.mem_map_of_mem ht
  have hall : ∀ n ∈ sdramNames, 61 ∉ n.1 := by decide
  exact hall t.1 hmem

theorem nvramRehash_sameMap (h : Handle) : SameMap h (nvramRehash h).2 := by
  have h0 : SameMap h { h with nvramHash := .empty } := ⟨rfl, rfl, rfl, rfl⟩
  exact (h0.trans (rehashLoop_spec ..).1).trans (SameMap.foldl setMissing_sameMap _ _)

end Names

/-! ## What a commit leaves in the mapping -/

def headerLen (ts : List Tuple) : ℕ := roundup (22 + (text ts).length) 4

section Commit

variable (env : Env) (h : Handle)

/-- The cleared data area, with the text and a NUL after it. -/
def textMap : Mem :=
  write (write (memset h.mmap (h.offset + 20) (env.nvramPartSize - h.offset - 20) 0xff) (h.offset + 20)
    (text (stored env h))) (h.offset + 20 + (text (stored env h)).length) [0]

theorem commitData_eq : ∃ n, commitData env h =
    (memset (textMap env h) (h.offset + 21 + (text (stored env h)).length) n 0,
      h.offset + 22 + (text (stored env h)).length) := by
  have hptr : ∀ k, h.offset + 20 + k + 1 = h.offset + 21 + k := by
    intro k
    omega
  have hend : ∀ k, h.offset + 21 + k + 1 = h.offset + 22 + k := by
    intro k
    omega
  refine ⟨padding (env.mmapArea + (h.offset + 21 + (text (stored env h)).length)), ?_⟩
  simp [commitData, writeTuples_eq, hptr, hend, textMap]

theorem commitMap_eq : ∃ rest : List UInt8, rest.length = 12 ∧ commitMap env h =
    write (commitData env h).1 h.offset (store32 nvramMagic ++ (store32 (headerLen (stored env h)) ++ rest)) := by
  have hlen : headerLen (stored env h) = roundup ((commitData env h).2 - h.offset) 4 := by
    obtain ⟨n, hdata⟩ := commitData_eq env h
    rw [hdata, headerLen]
    rw [Nat.add_assoc h.offset 22, Nat.add_sub_cancel_left]
  rw [hlen]
  unfold commitMap
  refine ⟨_, ?_, rfl⟩
  simp

theorem commitMap_before : ∀ k < h.offset, commitMap env h k = h.mmap k := by
  intro k hk
  obtain ⟨rest, -, hmap⟩ := commitMap_eq env h
  obtain ⟨n, hdata⟩ := commitData_eq env h
  rw [hmap, write_apply_lt hk, hdata]
  dsimp only
  rw [memset_apply_of_not (.inl (by omega)), textMap, write_apply_lt (by omega), write_apply_lt (by omega),
    memset_apply_of_not (.inl (by omega))]

theorem commitMap_magic : load32 (commitMap env h) h.offset = nvramMagic := by
  obtain ⟨rest, -, hmap⟩ := commitMap_eq env h
  exact load32_of_read nvramMagic_lt (read_append_left (read_write_self ..))

theorem commitMap_len (hlt : headerLen (stored env h) < 2 ^ 32) :
    load32 (commitMap env h) (h.offset + 4) = headerLen (stored env h) := by
  obtain ⟨rest, -, hmap⟩ := commitMap_eq env h
  rw [hmap]
  exact load32_of_read hlt (read_append_left (read_append_right (read_write_self ..)))

theorem commitMap_text :
    read (commitMap env h) (h.offset + 20) (text (stored env h) ++ [0]).length = text (stored env h) ++ [0] := by
  obtain ⟨rest, hrest, hmap⟩ := commitMap_eq env h
  have hlen : (text (stored env h) ++ [0]).length = (text (stored env h)).length + 1 := by
    rw [List.length_append, List.length_singleton]
  obtain ⟨n, hdata⟩ := commitData_eq env h
  rw [hmap, read_write_of_disjoint]
  · rw [hdata]
    rw [read_memset_of_disjoint (.inl (by omega))]
    exact read_write_append (read_write_self ..)
  · simp only [List.length_append, length_store32, hrest]
    omega

end Commit

/-! ## Sessions -/

structure Sound (env : Env) (h : Handle) : Prop where
  length : h.length = env.nvramPartSize
  found : headerOffset env h.mmap = some h.offset
  named : Named h

section Sessions

variable {h' : Handle}

theorem Sound.of_sameMap (hs : Sound env h) (hsame : SameMap h h') (hn : Named h') : Sound env h' :=
  ⟨hsame.length.trans hs.length, by rw [hsame.mmap, hsame.offset]; exact hs.found, hn⟩

theorem headerOffset_commit (hs : Sound env h) : headerOffset env (commitMap env h) = some h.offset := by
  have hfound := hs.found
  exact findMagic_congr hfound (commitMap_before env h) (commitMap_magic env h)

theorem nvramOpen_eq_some {rdonly : Bool} : nvramOpen env file rdonly = some h ↔
    ∃ offset, headerOffset env file = some offset ∧ (load32 file offset = nvramMagic ∧
      (rdonly = true ∨ load32 file (offset + 4) < env.nvramPartSize - offset)) ∧
      (nvramRehash ⟨file, !rdonly, env.nvramPartSize, offset, .empty⟩).2 = h := by
  unfold nvramOpen
  rw [Option.bind_eq_bind, Option.bind_eq_some_iff]
  simp

/-- **Every handle of a session is sound.** -/
theorem Session.sound (hs : Session env file h) : Sound env h := by
  induction hs with
  | @opened file rdonly h ho =>
    obtain ⟨offset, hoff, -, rfl⟩ := nvramOpen_eq_some.mp ho
    have hsame := nvramRehash_sameMap ⟨file, !rdonly, env.nvramPartSize, offset, .empty⟩
    refine ⟨hsame.length, ?_, nvramRehash_named _⟩
    rw [hsame.mmap, hsame.offset]
    exact hoff
  | set _ hn ih => exact ih.of_sameMap (nvramSet_sameMap ..) (ih.named.set hn _)
  | unset _ ih => exact ih.of_sameMap ⟨rfl, rfl, rfl, rfl⟩ (ih.named.unset _)
  | @commit file h _ ih =>
    have hr : (nvramCommit env file h).2.2 = (nvramRehash { h with mmap := commitMap env h }).2 := rfl
    have hsame := nvramRehash_sameMap { h with mmap := commitMap env h }
    rw [hr]
    refine ⟨hsame.length.trans ih.length, ?_, nvramRehash_named _⟩
    rw [hsame.mmap, hsame.offset]
    exact headerOffset_commit ih

theorem headerLen_stored_lt (hsize : env.nvramPartSize % 4 = 0) :
    headerLen (stored env h) < 2 ^ 32 := by
  have h1 := length_text_stored env h
  have h2 := env.nvramPartSize_lt
  simp only [headerLen, roundup]
  omega

/-- **Opening what was committed.** -/
theorem nvramOpen_commit (hs : Sound env h) (hsize : env.nvramPartSize % 4 = 0) :
    nvramOpen env (commitMap env h) false = some h' ↔
      headerLen (stored env h) < env.nvramPartSize - h.offset ∧
        (nvramRehash ⟨commitMap env h, true, env.nvramPartSize, h.offset, .empty⟩).2 = h' := by
  have hlen := commitMap_len env h (headerLen_stored_lt hsize)
  rw [nvramOpen_eq_some, headerOffset_commit hs]
  constructor
  · rintro ⟨offset, hoff, ⟨-, hlt⟩, rfl⟩
    cases hoff
    rw [hlen] at hlt
    exact ⟨hlt.resolve_left Bool.false_ne_true, rfl⟩
  · rintro ⟨hlt, rfl⟩
    exact ⟨h.offset, rfl, ⟨commitMap_magic env h, .inr (hlen.symm ▸ hlt)⟩, rfl⟩

theorem nvramGet_reopened (hs : Sound env h) (hroom : headerLen (stored env h) < env.nvramPartSize - h.offset)
    (name : CStr) :
    nvramGet (nvramRehash ⟨commitMap env h, true, env.nvramPartSize, h.offset, .empty⟩).2 name =
      (valueIn (stored env h) name).or (valueIn (sdramParams (commitMap env h) h.offset) name) := by
  refine nvramGet_rehash (stored_distinct env h) (fun t ht => ?_) ?_ (commitMap_text env h)
  · have hmem : (t.1, t.2) ∈ tuples h := (stored_sublist env h).subset ht
    exact hs.named t.1 t.2 (Chained.Table.mem_entries.mp hmem)
  · simp only [headerLen, roundup] at hroom
    dsimp only
    omega

end Sessions

theorem nvramCommit_file {env : Env} {file : Mem} {h : Handle} (hw : h.shared = true) :
    (nvramCommit env file h).2.1 = commitMap env h :=
  if_pos hw

/-- `nvram_open(file, NVRAM_RW)` succeeds with the variables of `h`, and otherwise with what the header says. -/
def Reopens (env : Env) (file : Mem) (h : Handle) : Prop :=
  ∃ h', nvramOpen env file false = some h' ∧
    ∀ name, nvramGet h' name = (nvramGet h name).or (valueIn (sdramParams file h.offset) name)

section Main

def ownTuples (h : Handle) : List Tuple := (tuples h).filter fun t => t.1 ∉ sdramNames

theorem reopens_of_room (hs : Sound env h) (hsize : env.nvramPartSize % 4 = 0)
    (hroom : headerLen (tuples h) < env.nvramPartSize - h.offset) : Reopens env (commitMap env h) h := by
  have hstored : stored env h = tuples h := by
    refine stored_eq_tuples ?_
    simp only [headerLen, roundup] at hroom
    omega
  rw [← hstored] at hroom
  refine ⟨_, (nvramOpen_commit hs hsize).mpr ⟨hroom, rfl⟩, fun name => ?_⟩
  rw [nvramGet_reopened hs hroom, hstored]
  exact congrArg (Option.or · _) Chained.Table.get_entries

theorem headerLen_of_reopens (hs : Sound env h) (hsize : env.nvramPartSize % 4 = 0)
    (hre : Reopens env (commitMap env h) h) :
    headerLen (stored env h) < env.nvramPartSize - h.offset ∧ ∀ t ∈ ownTuples h, t ∈ stored env h := by
  obtain ⟨h', hopen, hget⟩ := hre
  obtain ⟨hroom, rfl⟩ := (nvramOpen_commit hs hsize).mp hopen
  refine ⟨hroom, ?_⟩
  rintro ⟨name, value⟩ ht
  obtain ⟨hmem, hname⟩ := List.mem_filter.mp ht
  have hname : name ∉ sdramNames := of_decide_eq_true hname
  have hvalue : nvramGet h name = some value := Chained.Table.mem_entries.mp hmem
  have hsame := hget name
  rw [nvramGet_reopened hs hroom, hvalue, valueIn_sdramParams hname, Option.or_none] at hsame
  exact mem_of_valueIn hsame

theorem headerLen_mono {ts ts' : List Tuple} (hd : ts.Nodup) (hsub : ∀ t ∈ ts, t ∈ ts') :
    headerLen ts ≤ headerLen ts' := by
  obtain ⟨us, hperm, husub⟩ := hd.subperm hsub
  have h1 : (text us).length = (text ts).length := (hperm.flatMap_right _).length_eq
  have h2 : (text us).length ≤ (text ts').length := (husub.flatMap _).length_le
  simp only [headerLen, roundup]
  omega

theorem ownTuples_nodup (h : Handle) : (ownTuples h).Nodup :=
  (List.Nodup.of_map _ h.nvramHash.distinct_entries).filter _

/-- **What was committed is opened again.** -/
theorem nvram_commit_reopen (hs : Session env file h) (hsize : env.nvramPartSize % 4 = 0) :
    (nvramCommit env file h).1 = 0 ∧
      (h.shared = true → headerLen (tuples h) < env.nvramPartSize - h.offset →
        Reopens env (nvramCommit env file h).2.1 h) ∧
      (h.shared = true → Reopens env (nvramCommit env file h).2.1 h →
        headerLen (ownTuples h) < env.nvramPartSize - h.offset ∧
        (22 + (text (tuples h)).length ≤ env.nvramPartSize - h.offset →
          headerLen (tuples h) < env.nvramPartSize - h.offset)) := by
  refine ⟨rfl, fun hw hroom => ?_, fun hw hre => ?_⟩
  · rw [nvramCommit_file hw]
    exact reopens_of_room hs.sound hsize hroom
  · rw [nvramCommit_file hw] at hre
    obtain ⟨hlen, hmem⟩ := headerLen_of_reopens hs.sound hsize hre
    refine ⟨Nat.lt_of_le_of_lt (headerLen_mono (ownTuples_nodup h) hmem) hlen, fun hfit => ?_⟩
    rwa [stored_eq_tuples hfit] at hlen

end Main

/-! ## A partition of 32 KiB -/

/-- The smallest partition that the search is made for. -/
def smallEnv : Env := ⟨0x8000, 0x20000000, fun _ => 0, fun _ _ => 0, by decide⟩

def blank : Mem := ofList (store32 nvramMagic ++ store32 24)

def blankHandle : Handle := (sdramParams blank 0).foldl setMissing ⟨blank, true, 0x8000, 0, .empty⟩

theorem nvramOpen_blank : nvramOpen smallEnv blank false = some blankHandle := by
  have hloop : rehashLoop 20 ⟨blank, true, 0x8000, 0, .empty⟩ = ⟨blank, true, 0x8000, 0, .empty⟩ := by
    have hread : read blank 20 (text [] ++ [0]).length = text [] ++ [0] := by decide +kernel
    exact @rehashLoop_text ⟨blank, true, 0x8000, 0, .empty⟩ 20 [] (fun _ ht => absurd ht List.not_mem_nil) (by decide) hread
  refine nvramOpen_eq_some.mpr ⟨0, by decide +kernel, ⟨by decide +kernel, .inr (by decide +kernel)⟩, ?_⟩
  exact congrArg ((sdramParams blank 0).foldl setMissing) hloop

def nameA : CStr := ⟨[97], by decide⟩

def ones (n : ℕ) : CStr := ⟨List.replicate n 49, fun h => absurd (List.eq_of_mem_replicate h) (by decide)⟩

def withA (n : ℕ) : Handle := (nvramSet blankHandle nameA (ones n)).2

theorem withA_session (n : ℕ) : Session smallEnv blank (withA n) :=
  .set (.opened nvramOpen_blank) (by decide)

theorem withA_shared (n : ℕ) : (withA n).shared = true :=
  (nvramSet_sameMap blankHandle nameA (ones n)).shared.trans (by decide +kernel)

theorem withA_offset (n : ℕ) : (withA n).offset = 0 :=
  (nvramSet_sameMap blankHandle nameA (ones n)).offset.trans (by decide +kernel)

theorem tuples_withA {n : ℕ} (hn : n < 0x8000) :
    (tuples (withA n)).Perm ((nameA, ones n) :: tuples blankHandle) := by
  have hnew : blankHandle.nvramHash.find nameA = none := by decide +kernel
  have hfit : ¬ (ones n).1.length + 1 > blankHandle.length - blankHandle.offset := by
    have hroom : blankHandle.length - blankHandle.offset = 0x8000 := by decide +kernel
    rw [hroom, ones, List.length_replicate]
    omega
  rw [withA, nvramSet, if_neg hfit]
  exact Chained.Table.entries_insert hnew

theorem length_text_withA {n : ℕ} (hn : n < 0x8000) : (text (tuples (withA n))).length = n + 84 := by
  have hblank : (text (tuples blankHandle)).length = 81 := by decide +kernel
  have hlen : (text (tuples (withA n))).length = (text ((nameA, ones n) :: tuples blankHandle)).length :=
    ((tuples_withA hn).flatMap_right _).length_eq
  rw [hlen, text_cons, List.length_append, hblank, length_entry, ones, List.length_replicate]
  simp only [nameA, List.length_singleton]
  omega

theorem short_reopened : Session smallEnv blank (withA 1) ∧
    Reopens smallEnv (nvramCommit smallEnv blank (withA 1)).2.1 (withA 1) := by
  refine ⟨withA_session 1, (nvram_commit_reopen (withA_session 1) (by decide)).2.1 (withA_shared 1) ?_⟩
  decide

/-- A value that leaves no room for its header is not written. -/
theorem long_not_reopened {n : ℕ} (hn : n < 0x8000) (hlong : 32743 < n) :
    ¬ Reopens smallEnv (commitMap smallEnv (withA n)) (withA n) := by
  intro hre
  have hown : (nameA, ones n) ∈ ownTuples (withA n) := by
    refine List.mem_filter.mpr ⟨(tuples_withA hn).mem_iff.mpr List.mem_cons_self, ?_⟩
    exact decide_eq_true (by decide : nameA ∉ sdramNames)
  have hstored := (headerLen_of_reopens (withA_session n).sound (by decide) hre).2 _ hown
  have hentry := length_entry_le hstored
  have hroom := length_text_stored smallEnv (withA n)
  have hsize : smallEnv.nvramPartSize = 0x8000 := rfl
  rw [length_entry, ones, List.length_replicate] at hentry
  simp only [nameA, List.length_singleton] at hentry
  omega

/-- A text that fills the partition cannot be opened any more; with a longer one its variable is lost. -/
theorem full_not_reopened :
    (Session smallEnv blank (withA 32662) ∧ (nvramCommit smallEnv blank (withA 32662)).1 = 0 ∧
      nvramOpen smallEnv (nvramCommit smallEnv blank (withA 32662)).2.1 false = none) ∧
    Session smallEnv blank (withA 32750) ∧ (nvramCommit smallEnv blank (withA 32750)).1 = 0 ∧
      ¬ Reopens smallEnv (nvramCommit smallEnv blank (withA 32750)).2.1 (withA 32750) := by
  have hs := withA_session 32662
  have hlen := length_text_withA (by decide : 32662 < 0x8000)
  have hstored : stored smallEnv (withA 32662) = tuples (withA 32662) := by
    refine stored_eq_tuples ?_
    rw [hlen, withA_offset]
    decide
  refine ⟨⟨hs, rfl, ?_⟩, withA_session _, rfl, ?_⟩
  · rw [nvramCommit_file (withA_shared _), Option.eq_none_iff_forall_ne_some]
    intro h' hopen
    obtain ⟨hlt, -⟩ := (nvramOpen_commit hs.sound (by decide)).mp hopen
    rw [hstored, headerLen, hlen, withA_offset] at hlt
    exact absurd hlt (by decide)
  · rw [nvramCommit_file (withA_shared _)]
    exact long_not_reopened (by decide) (by decide)

end NasFirmware.Nvram
