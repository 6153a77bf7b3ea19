import NasFirmware.Factory.Save

/-!
# Saving again after a failed save

A save that fails has already put a copy of the first header behind the archive, and `factory_save` clears
`factory_dirty` whatever the result is.
-/

namespace NasFirmware.Factory

open ByteMem CString Tar

/-! ## The archive in memory -/

/-- The root header as `tar_build_header` makes it: an entry without data. -/
structure IsRoot (root : Entry) : Prop where
  name : root.name = factoryHeader
  size : (root.header.drop 124).take 12 = octal 11 0 ++ [0]

/-- The archive of the root header and `es`, with `tl` behind it: nothing, or a copy of the root header. -/
structure Working (cfg : Config) (f : Store) (root : Entry) (es tl : List Entry) : Prop where
  isRoot : IsRoot root
  unsigned : cfg.nas = true → ∀ e ∈ es, e.isRtk = false
  archived : Archived cfg.half f.mem (root :: es ++ tl)
  trailer : Trailer cfg.nas (root :: es) tl
  trailer_le : (bytes tl).length ≤ 512
  tarsize : f.tarsize = (bytes (root :: es)).length
  room : f.tarsize + 512 < cfg.half

variable {root : Entry} {cfg : Config} {f : Store}

section Root

variable {m : Mem} {a : ℕ}

theorem size_field (m : Mem) (a : ℕ) : ((read m a 512).drop 124).take 12 = read m (a + 124) 12 := by
  rw [show 512 = 124 + (12 + 376) from rfl, read_add, List.drop_left' (length_read ..), read_add,
    List.take_left' (length_read ..)]

theorem IsRoot.field (h : IsRoot root) (hr : read m a 512 = root.header) :
    read m (a + 124) 12 = octal 11 0 ++ [0] := by
  rw [← h.size, ← hr, size_field]

theorem IsRoot.size_eq (h : IsRoot root) : root.size = 0 := by
  have hr : read (ofList root.header) 0 512 = root.header := root.valid.length ▸ read_ofList root.header
  have hsize := root.valid.size_eq _ _ hr
  rw [simpleStrtol_octal (by omega) (by omega) (by omega) (by omega) (h.field hr)] at hsize
  exact_mod_cast hsize.symm

theorem IsRoot.length (h : IsRoot root) : root.bytes.length = 512 := by
  rw [root.length_bytes, h.size_eq]
  rfl

end Root

section Working

variable {f' : Store} {es tl : List Entry}

variable (h : Working cfg f root es tl)

include h

theorem Working.length_lt : (bytes (root :: es ++ tl)).length < cfg.half := by
  have := h.tarsize
  have := h.room
  have := h.trailer_le
  rw [bytes_append, List.length_append]
  omega

theorem Working.le : 512 ≤ f.tarsize := by
  rw [h.tarsize, length_bytes_cons]
  omega

theorem Working.named : f.Named := named_of_archived h.archived h.isRoot.name

theorem Working.fill : ∃ root' : Entry, IsRoot root' ∧ root'.isRtk = true ∧
    root'.bytes = read (fillRtkHeader f.mem f.tarsize f.nextSeq) 0 512 := by
  set m := fillRtkHeader f.mem f.tarsize f.nextSeq with hm
  have hkeep : ∀ o n, o + n ≤ 148 → read m o n = read f.mem o n := fun o n hn =>
    read_congr fun k _ hk => fillRtkHeader_frame (Or.inl (by omega))
  have hsize : read m 124 12 = octal 11 0 ++ [0] := by
    have := h.isRoot.field (read_header h.archived.stored)
    rwa [Nat.zero_add] at this
  have hv : ValidHeader factoryHeader 0 (read m 0 512) := by
    refine validHeader_of_fields rootName (by decide) (by decide) (fun c hc => by cases hc; decide) (by decide) ?_ ?_ ?_
    · exact startsWith_eq_true.mp h.named
    · exact hsize
    · exact fillRtkHeader_sum
  refine ⟨⟨factoryHeader, 0, read m 0 512, [], hv, rfl⟩, ⟨rfl, ?_⟩, ?_, ?_⟩
  · simp [size_field, hsize]
  · simp [Entry.isRtk, drop_read, hm, fillRtkHeader_signature]
  · simp [Entry.bytes]

omit h

/-- **The buffer of a save**: the archive with the new root header, and a copy of this behind it. -/
theorem Working.save (h : Working cfg f root es []) : ∃ root' : Entry, IsRoot root' ∧ root'.isRtk = true ∧
    Archived cfg.half (saveBuffer f) (root' :: es ++ [root']) ∧
    Archived cfg.half (memset (saveBuffer f) f.tarsize 512 0) (root' :: es) ∧
    (bytes (root' :: es)).length = f.tarsize := by
  obtain ⟨root', hroot, hrtk, hheader⟩ := h.fill
  have h512 := h.le
  have hlen : (bytes (root' :: es)).length = f.tarsize := by
    rw [h.tarsize, length_bytes_cons, length_bytes_cons, hroot.size_eq, h.isRoot.size_eq]
  have hfirst : read (saveBuffer f) 0 512 = root'.bytes := (saveBuffer_header h512).trans hheader.symm
  have hes : read (saveBuffer f) 512 (bytes es).length = bytes es := by
    have hstored := h.archived.stored
    rw [List.append_nil] at hstored
    have hrest := read_rest hstored
    rw [h.isRoot.size_eq] at hrest
    rw [length_bytes_cons, hroot.size_eq] at hlen
    refine Eq.trans (read_congr fun k hk hlt => ?_) hrest
    exact (saveBuffer_lt (by omega)).trans (fillRtkHeader_frame (Or.inr (Or.inr hk)))
  have hstored : read (saveBuffer f) 0 f.tarsize = bytes (root' :: es) := by
    rw [← hlen, bytes_cons, List.length_append, hroot.length, read_add, hfirst, Nat.zero_add, hes]
  have hcopy : read (saveBuffer f) f.tarsize 512 = root'.bytes := (saveBuffer_copy h512).trans hfirst
  have hzero : ∀ k, f.tarsize + 512 ≤ k → k < cfg.half → saveBuffer f k = 0 := by
    intro k hk hlt
    refine (write_apply_ge (by rw [length_read]; exact hk)).trans ?_
    refine (fillRtkHeader_frame (Or.inr (Or.inr (by omega)))).trans (h.archived.tail k ?_ hlt)
    rw [List.append_nil, ← h.tarsize]
    omega
  refine ⟨root', hroot, hrtk, ⟨?_, fun k hk hlt => ?_⟩, ⟨?_, fun k hk hlt => ?_⟩, hlen⟩
  · rw [bytes_append, List.length_append, hlen, bytes_singleton, hroot.length, read_add, hstored, Nat.zero_add, hcopy]
  · rw [bytes_append, List.length_append, hlen, bytes_singleton, hroot.length] at hk
    exact hzero k hk hlt
  · rw [hlen, read_memset_of_disjoint (Or.inl (by omega)), hstored]
  · rw [hlen] at hk
    by_cases hend : k < f.tarsize + 512
    · exact memset_apply_mem hk hend
    · exact (memset_apply_of_not (by omega)).trans (hzero k (by omega) hlt)

variable {path : CStr} {data : List UInt8}

theorem IsRoot.matches_false (h : IsRoot root) (hpath : ¬ path.1 <+: factoryHeader) :
    root.matches path.1 = false := by
  rw [Bool.eq_false_iff, Ne, Entry.matches_iff, h.name]
  exact hpath

variable (h : Working cfg f root es tl)

include h

theorem Working.unsigned_all : Unsigned cfg.nas 0 (root :: es) :=
  fun hnas => ⟨h.unsigned hnas, fun h0 => absurd rfl h0⟩

/-- **Writing**: the new data is too large, or the files change as they should and the copy is gone. -/
theorem Working.write (hp : NameOk path) (hpath : ¬ path.1 <+: factoryHeader)
    (data : List UInt8) : factoryWrite cfg f path.1 data = some (-1, f) ∨
      ∃ f' out, factoryWrite cfg f path.1 data = some (0, f') ∧ f'.dirty = true ∧
        contents out = putFile path.1 data (contents es) ∧
        (cfg.nas = true ∨ f'.tarsize + 512 < cfg.half → Working cfg f' root out []) := by
  by_cases hbig : cfg.half < blocks data.length + f.tarsize + 512 + cfg.tarPadding
  · exact Or.inl (if_pos hbig)
  · have hhalf := cfg.half_lt
    have hblk := blocks_ge data.length
    have hsize := h.tarsize
    obtain ⟨m', out, hadd, hrew, harch, -⟩ := tarAdd_trailer cfg.nas (archived_clear h.archived h.length_lt.le)
      h.length_lt h.unsigned_all h.trailer hp (show data.length < 2 ^ 31 by omega) (by omega)
    have hle := hrew.length_le
    obtain ⟨out, rfl, hrew'⟩ := hrew.cons (h.isRoot.matches_false hpath)
    have hpos : (bytes (root :: out)).length ≠ 0 := by
      rw [length_bytes_cons]
      omega
    refine Or.inr ⟨{ f with mem := m', tarsize := (bytes (root :: out)).length, dirty := true }, out, ?_, rfl,
      hrew'.contents, fun hfit => ?_⟩
    · unfold factoryWrite
      rw [if_neg hbig, hadd]
      simp [hpos]
    · refine ⟨h.isRoot, fun hnas => hrew'.unsigned (h.unsigned hnas), by rwa [List.append_nil], trailer_nil _ _,
        by simp [bytes], rfl, ?_⟩
      show (bytes (root :: out)).length + 512 < cfg.half
      rcases hfit with hnas | hfit
      · have : cfg.tarPadding = 1024 := if_pos hnas
        omega
      · exact hfit

/-- **Deleting.** -/
theorem Working.delete (hpath : ¬ path.1 <+: factoryHeader) :
    ∃ f', factoryDelete cfg f path.1 = some (0, f') ∧ f'.dirty = true ∧
      Working cfg f' root (es.filter fun e => !e.matches path.1) [] := by
  obtain ⟨m', hdel, harch, -⟩ := tarDelete_trailer cfg.nas path (archived_clear h.archived h.length_lt.le)
    h.length_lt h.unsigned_all h.trailer
  have hout : (root :: es).filter (fun e => !e.matches path.1) = root :: es.filter fun e => !e.matches path.1 :=
    List.filter_cons_of_pos (by rw [h.isRoot.matches_false hpath]; rfl)
  rw [hout] at hdel harch
  refine ⟨{ f with mem := m', tarsize := _, dirty := true }, ?_, rfl, h.isRoot,
    fun hnas e he => h.unsigned hnas e (List.mem_of_mem_filter he), by rwa [List.append_nil], trailer_nil _ _,
    by simp [bytes], rfl, ?_⟩
  · unfold factoryDelete
    rw [hdel, Option.map_some]
  · have hle := length_bytes_filter (fun e => !e.matches path.1) es
    have hsize := h.tarsize
    have hroom := h.room
    show (bytes (root :: _)).length + 512 < cfg.half
    rw [length_bytes_cons] at hsize ⊢
    omega

omit h

/-- Half `pp` of the eMMC has an archive that the loader accepts, with these files. -/
def Stores (cfg : Config) (flash : Mem) (pp : ℕ) (files : List File) : Prop :=
  halfOk cfg allRead flash pp = true ∧ ∃ root es, root.name = factoryHeader ∧ contents es = files ∧
    ppTarsize cfg flash pp = (bytes (root :: es)).length ∧
    read flash (cfg.base pp) (bytes (root :: es)).length = bytes (root :: es)

theorem Working.dvd (h : Working cfg f root es tl) : 512 ∣ f.tarsize := h.tarsize ▸ bytes_dvd _

/-- **A save that succeeds.** -/
theorem Working.save_ok (h : Working cfg f root es []) (hdirty : f.dirty = true) (flash : Mem) :
    ∃ f' flash', factorySave cfg f flash .ok = (0, f', flash') ∧
      (∃ root', Working cfg f' root' es []) ∧ Stores cfg flash' f'.currentPp (contents es) := by
  have h512 := h.le
  have hroom := h.room
  have hhalf := cfg.half_lt
  obtain ⟨root', hroot, -, hbuf, harch, hlen⟩ := h.save
  refine ⟨_, _, factorySave_ok hdirty h.dvd (by omega) hroom.le, ⟨root', hroot, h.unsigned,
    by rwa [List.append_nil], trailer_nil _ _, by simp [bytes], hlen.symm, hroom⟩, ?_⟩
  have hsaved : SavedAt cfg f (flashSaved cfg f flash (f.tarsize + 512 + cfg.tarPadding)) f.nextPp :=
    savedAt_flashSaved (Nat.le_add_right _ _)
  refine ⟨(halfOk_of_savedAt hsaved h512 (by omega)).mpr ⟨h.named, hroom⟩, root', es, hroot.name, rfl, ?_, ?_⟩
  · rw [hlen]
    exact hsaved.ppTarsize h512 (by omega)
  · have hpart := read_slice hsaved (show 0 + f.tarsize ≤ f.tarsize + 512 by omega)
    have hstored := harch.stored
    rw [hlen, read_memset_of_disjoint (Or.inl (by omega))] at hstored
    rw [hlen]
    exact hpart.trans hstored

theorem factorySave_failed_eq {flash : Mem} (hdirty : f.dirty = true) (hpos : 0 < f.tarsize)
    (hle : f.tarsize + 512 ≤ cfg.half) (n : ℕ) : (factorySave cfg f flash (.failed n)).1 = 1 ∧
      (factorySave cfg f flash (.failed n)).2.1 = { f with mem := saveBuffer f, dirty := false } := by
  unfold factorySave factorySaveToEMMC
  simp [hdirty, hpos, Nat.not_lt.mpr hle, emmcWrite, and_self]

theorem factorySave_dirty (cfg : Config) (f : Store) (flash : Mem) (res : WriteResult) :
    (factorySave cfg f flash res).2.1.dirty = false := by
  unfold factorySave
  split_ifs <;> rfl

/-- **A save that fails** leaves the copy. -/
theorem Working.save_failed (h : Working cfg f root es []) (hnas : cfg.nas = true) (hdirty : f.dirty = true)
    (flash : Mem) (n : ℕ) : ∃ root', Working cfg (factorySave cfg f flash (.failed n)).2.1 root' es [root'] := by
  have h512 := h.le
  have hroom := h.room
  obtain ⟨root', hroot, hrtk, hbuf, -, hlen⟩ := h.save
  rw [(factorySave_failed_eq hdirty (by omega) hroom.le n).2]
  have hcopy : Trailer cfg.nas (root' :: es) [root'] := by
    refine ⟨fun _ => hnas, fun c hc => ?_, fun c hc => ⟨root', List.mem_cons_self, ?_⟩⟩
    · rw [List.mem_singleton.mp hc]
      exact hrtk
    · rw [List.mem_singleton.mp hc]
  exact ⟨root', hroot, h.unsigned, hbuf, hcopy, by rw [bytes_singleton, hroot.length], hlen.symm, hroom⟩

end Working

/-! ## Runs -/

/-- Calls of the library, with the files that the updates so far make, whether there was one, and whether a save has
failed since. A save is not called again after one that failed until there was an update. -/
inductive RetryRun (cfg : Config) : Store → Mem → List File → Bool → Bool → Prop
  | start {f : Store} {root : Entry} {es : List Entry} (flash : Mem) (h : WellFormed cfg f root es)
      (hroot : IsRoot root) (hroom : f.tarsize + 512 < cfg.half) : RetryRun cfg f flash (contents es) false false
  | write {f f' : Store} {flash : Mem} {files : List File} {updated failed : Bool} {path : CStr} {data : List UInt8}
      (h : RetryRun cfg f flash files updated failed) (hp : NameOk path) (hpath : ¬ path.1 <+: factoryHeader)
      (hw : factoryWrite cfg f path.1 data = some (0, f')) (hfit : cfg.nas = true ∨ f'.tarsize + 512 < cfg.half) :
      RetryRun cfg f' flash (putFile path.1 data files) true false
  | refused {f f' : Store} {flash : Mem} {files : List File} {updated failed : Bool} {path : CStr} {data : List UInt8}
      {ret : ℤ} (h : RetryRun cfg f flash files updated failed) (hp : NameOk path)
      (hpath : ¬ path.1 <+: factoryHeader) (hw : factoryWrite cfg f path.1 data = some (ret, f')) (hret : ret ≠ 0) :
      RetryRun cfg f' flash files updated failed
  | delete {f f' : Store} {flash : Mem} {files : List File} {updated failed : Bool} {path : CStr} {ret : ℤ}
      (h : RetryRun cfg f flash files updated failed) (hpath : ¬ path.1 <+: factoryHeader)
      (hd : factoryDelete cfg f path.1 = some (ret, f')) : RetryRun cfg f' flash (dropFiles path.1 files) true false
  | save {f : Store} {flash : Mem} {files : List File} {updated : Bool} {res : WriteResult}
      (h : RetryRun cfg f flash files updated false) (hret : (factorySave cfg f flash res).1 = 0) :
      RetryRun cfg (factorySave cfg f flash res).2.1 (factorySave cfg f flash res).2.2 files updated false
  | failed {f : Store} {flash : Mem} {files : List File} {updated : Bool} {res : WriteResult}
      (h : RetryRun cfg f flash files updated false) (hnas : cfg.nas = true)
      (hret : (factorySave cfg f flash res).1 ≠ 0) :
      RetryRun cfg (factorySave cfg f flash res).2.1 (factorySave cfg f flash res).2.2 files updated true

structure RetryInv (cfg : Config) (f : Store) (flash : Mem) (files : List File) (updated failed : Bool) : Prop where
  working : ∃ root es tl, Working cfg f root es tl ∧ contents es = files ∧ (f.dirty = true → tl = [])
  clean : failed = true → f.dirty = false
  stored : updated = true → failed = false → f.dirty = false → Stores cfg flash f.currentPp files

section Runs

variable {flash : Mem} {files : List File} {updated failed : Bool} {res : WriteResult}

theorem factorySave_clean (hdirty : f.dirty = false) (res : WriteResult) :
    factorySave cfg f flash res = (0, f, flash) := by
  unfold factorySave
  cases f
  cases hdirty
  rfl

theorem RetryInv.save (h : RetryInv cfg f flash files updated false)
    (hret : (factorySave cfg f flash res).1 = 0) :
    RetryInv cfg (factorySave cfg f flash res).2.1 (factorySave cfg f flash res).2.2 files updated false := by
  cases hdirty : f.dirty with
  | false =>
    rw [factorySave_clean hdirty]
    exact h
  | true =>
    obtain ⟨root, es, tl, hwork, rfl, htl⟩ := h.working
    obtain rfl := htl hdirty
    have hpos := hwork.le
    obtain ⟨-, rfl⟩ := factorySave_zero hdirty (by omega) hret
    obtain ⟨f', flash', hs, ⟨root', hwork'⟩, hstores⟩ := hwork.save_ok hdirty flash
    rw [hs]
    exact ⟨⟨root', es, [], hwork', rfl, fun _ => rfl⟩, nofun, fun _ _ _ => hstores⟩

theorem RetryInv.save_failed (h : RetryInv cfg f flash files updated false) (hnas : cfg.nas = true)
    (hret : (factorySave cfg f flash res).1 ≠ 0) :
    RetryInv cfg (factorySave cfg f flash res).2.1 (factorySave cfg f flash res).2.2 files updated true := by
  have hdirty : f.dirty = true := by
    by_contra hd
    rw [factorySave_clean (by simpa using hd)] at hret
    exact hret rfl
  obtain ⟨root, es, tl, hwork, rfl, htl⟩ := h.working
  obtain rfl := htl hdirty
  have hclean := factorySave_dirty cfg f flash res
  cases res with
  | ok =>
    obtain ⟨f', flash', hs, -⟩ := hwork.save_ok hdirty flash
    rw [hs] at hret
    exact absurd rfl hret
  | failed n =>
    obtain ⟨root', hwork'⟩ := hwork.save_failed hnas hdirty flash n
    refine ⟨⟨root', es, [root'], hwork', rfl, fun hd => ?_⟩, fun _ => hclean, nofun⟩
    rw [hclean] at hd
    cases hd

theorem RetryRun.inv (h : RetryRun cfg f flash files updated failed) :
    RetryInv cfg f flash files updated failed := by
  induction h with
  | @start f root es flash h hroot hroom =>
    exact ⟨⟨root, es, [], ⟨hroot, h.unsigned, by rw [List.append_nil]; exact h.archived, trailer_nil _ _,
      by simp [bytes], h.tarsize, hroom⟩, rfl, fun _ => rfl⟩, nofun, nofun⟩
  | write _ hp hpath hw hfit ih =>
    obtain ⟨root, es, tl, hwork, rfl, -⟩ := ih.working
    rcases hwork.write hp hpath _ with hbig | ⟨f'', out, hw', hdirty, hout, hwork'⟩
    · cases hw.symm.trans hbig
    · cases hw.symm.trans hw'
      refine ⟨⟨root, out, [], hwork' hfit, hout, fun _ => rfl⟩, nofun, fun _ _ hd => ?_⟩
      rw [hdirty] at hd
      cases hd
  | refused _ hp hpath hw hret ih =>
    obtain ⟨root, es, tl, hwork, -, -⟩ := ih.working
    rcases hwork.write hp hpath _ with hbig | ⟨f'', out, hw', -⟩
    · cases hw.symm.trans hbig
      exact ih
    · cases hw.symm.trans hw'
      exact absurd rfl hret
  | delete _ hpath hd ih =>
    obtain ⟨root, es, tl, hwork, rfl, -⟩ := ih.working
    obtain ⟨f'', hd', hdirty, hwork'⟩ := hwork.delete hpath
    cases hd.symm.trans hd'
    refine ⟨⟨root, _, [], hwork', contents_filter .., fun _ => rfl⟩, nofun, fun _ _ hd => ?_⟩
    rw [hdirty] at hd
    cases hd
  | save _ hret ih => exact ih.save hret
  | failed _ hnas hret ih => exact ih.save_failed hnas hret

end Runs

/-- **Saving again.** After any calls with an update behind each failed save, a save that returns 0 leaves exactly the
files of all updates in the eMMC, and a save whose blocks are written returns 0. Without the update it returns 0 and
writes nothing. -/
theorem retried_save (cfg : Config) :
    (∀ f flash files res, RetryRun cfg f flash files true false → (factorySave cfg f flash res).1 = 0 →
      Stores cfg (factorySave cfg f flash res).2.2 (factorySave cfg f flash res).2.1.currentPp files) ∧
    (∀ f flash files updated failed, RetryRun cfg f flash files updated failed →
      (factorySave cfg f flash .ok).1 = 0) ∧
    (∀ f flash files updated res, RetryRun cfg f flash files updated true →
      factorySave cfg f flash res = (0, f, flash)) := by
  refine ⟨fun f flash files res h hret => ?_, fun f flash files updated failed h => ?_,
    fun f flash files updated res h => factorySave_clean (h.inv.clean rfl) res⟩
  · have hinv := h.inv.save hret
    exact hinv.stored rfl rfl (factorySave_dirty ..)
  · cases hdirty : f.dirty with
    | false => rw [factorySave_clean hdirty]
    | true =>
      obtain ⟨root, es, tl, hwork, -, htl⟩ := h.inv.working
      obtain rfl := htl hdirty
      obtain ⟨f', flash', hs, -⟩ := hwork.save_ok hdirty flash
      rw [hs]

theorem abRoot_isRoot : IsRoot abRoot := by
  refine ⟨rfl, ?_⟩
  have hsize : read (tarBuildHeader (fun _ => 0) 0 factoryHeader 0 53) (0 + 124) 12 = octal 11 0 ++ [0] :=
    tarBuildHeader_size
  simp only [abRoot, abMem_root, size_field]
  exact read_congr fun k _ hk => fillRtkHeader_frame (Or.inl (by omega))

theorem freshStore_run (cfg : Config) : RetryRun cfg (freshStore cfg) blank [] false false := by
  refine RetryRun.start blank (freshStore_wellFormed cfg) abRoot_isRoot ?_
  have := cfg.half_le
  rw [freshStore_eq]
  exact (by omega : 512 + 512 < cfg.half)

theorem firstSave_failed (cfg : Config) (hroom : 2048 + cfg.tarPadding < cfg.half) :
    ∃ f, factoryWrite cfg (freshStore cfg) pathA.1 [65] = some (0, f) ∧ f.tarsize = 1536 ∧
      factorySave cfg f blank (.failed 0) = (1, { f with mem := saveBuffer f, dirty := false }, blank) ∧
      RetryRun cfg f blank [(pathA.1, [65])] true false := by
  obtain ⟨f, hw, -, hsize, -, -⟩ := freshStore_write cfg [65] (by show 512 + _ + _ ≤ _; omega)
  have htar : f.tarsize = 1536 := hsize
  have hdirty : f.dirty = true := (factoryWrite_zero hw).1
  have hle : f.tarsize + 512 ≤ cfg.half := by omega
  have hfail := @factorySave_failed_eq cfg f blank hdirty (by omega) hle 0
  have hflash := @factorySave_failed cfg blank f hdirty ⟨3, htar⟩ (by omega) hle 0
  have hpath : NameOk pathA := ⟨by decide, by decide, fun _ hc => by cases hc; decide⟩
  exact ⟨f, hw, htar, Prod.ext hfail.1 (Prod.ext hfail.2 (hflash.trans (write_nil ..))),
    (freshStore_run cfg).write hpath (by decide) hw (Or.inr (by omega))⟩

/-- `tmp/factory/a` is written, the save fails, another file is deleted: the next save stores `tmp/factory/a`. -/
theorem retried_save_first : ∃ f f', factoryWrite nasConfig (freshStore nasConfig) pathA.1 [65] = some (0, f) ∧
    (factorySave nasConfig f blank (.failed 0)).1 = 1 ∧
    factoryDelete nasConfig (factorySave nasConfig f blank (.failed 0)).2.1 pathAb.1 = some (0, f') ∧
    Stores nasConfig (factorySave nasConfig f' blank .ok).2.2 (factorySave nasConfig f' blank .ok).2.1.currentPp
      [(pathA.1, [65])] := by
  obtain ⟨f, hw, -, hfail, hrun⟩ := firstSave_failed nasConfig (by decide)
  have hret : (factorySave nasConfig f blank (.failed 0)).1 ≠ 0 := by
    rw [hfail]
    exact one_ne_zero
  have hrun' := hrun.failed rfl hret
  obtain ⟨root, es, tl, hwork, -, -⟩ := hrun'.inv.working
  obtain ⟨f', hd, -⟩ := hwork.delete (by decide : ¬ pathAb.1 <+: factoryHeader)
  have hlast := hrun'.delete (by decide) hd
  rw [hfail] at hlast
  have hok := (retried_save nasConfig).2.1 _ _ _ _ _ hlast
  exact ⟨f, f', hw, congrArg Prod.fst hfail, hd, (retried_save nasConfig).1 _ _ _ _ hlast hok⟩

def pathB : CStr := ⟨factoryHeader ++ [98], by decide⟩

/-- After a failed save with `NAS_ENABLE` the next one returns 0, and no half has an archive. Without it, after
another write the archive has an entry more than it should. -/
theorem failed_save_loses :
    (∃ f f', factoryWrite nasConfig (freshStore nasConfig) pathA.1 [65] = some (0, f) ∧
      factorySave nasConfig f blank (.failed 0) = (1, f', blank) ∧
      factorySave nasConfig f' blank .ok = (0, f', blank) ∧ ∀ pp, halfOk nasConfig allRead blank pp = false) ∧
    (∃ f f' f'', factoryWrite defaultConfig (freshStore defaultConfig) pathA.1 [65] = some (0, f) ∧
      factorySave defaultConfig f blank (.failed 0) = (1, f', blank) ∧
      factoryWrite defaultConfig f' pathB.1 [66] = some (0, f'') ∧ f''.tarsize = 512 + 1024 + 1024 + 512) := by
  constructor
  · obtain ⟨f, hw, -, hfail, -⟩ := firstSave_failed nasConfig (by decide)
    exact ⟨f, _, hw, hfail, factorySave_clean rfl _, fun pp => halfOk_blank ..⟩
  · obtain ⟨f, hw, htar, hfail, hrun⟩ := firstSave_failed defaultConfig (by decide)
    obtain ⟨root, es, tl, hwork, hfiles, htl⟩ := hrun.inv.working
    obtain rfl := htl (factoryWrite_zero hw).1
    obtain ⟨root', hroot, -, hbuf, -, hlen⟩ := hwork.save
    have hbytes : (bytes (root' :: es ++ [root'])).length = 2048 := by
      rw [bytes_append, List.length_append, hlen, htar, bytes_singleton, hroot.length]
    have hno : ∀ e ∈ root' :: es ++ [root'], e.matches pathB.1 = false := by
      have hroot_no : root'.matches pathB.1 = false := hroot.matches_false (by decide)
      intro e he
      rcases List.mem_append.mp he with he | he
      · rcases List.mem_cons.mp he with rfl | he
        · exact hroot_no
        · have hmem : (e.name, e.data) ∈ contents es := List.mem_map_of_mem he
          rw [hfiles, List.mem_singleton, Prod.mk.injEq] at hmem
          rw [Entry.matches, hmem.1]
          decide
      · rw [List.mem_singleton.mp he]
        exact hroot_no
    have hhalf : defaultConfig.half = 0x400000 := rfl
    have hpath : NameOk pathB := ⟨by decide, by decide, fun _ hc => by cases hc; decide⟩
    let f' : Store := { f with mem := saveBuffer f, dirty := false }
    have hclear : Archived defaultConfig.half (memset f'.mem defaultConfig.half defaultConfig.half 0)
        (root' :: es ++ [root']) := archived_clear hbuf (by omega)
    obtain ⟨m', out, hadd, hrew, -, -⟩ := tarAdd_spec false hclear (by omega)
      (fun h => absurd h Bool.false_ne_true) hpath (by decide : [(66 : UInt8)].length < 2 ^ 31)
      (by rw [hbytes]; decide)
    obtain ⟨e', rfl, he'⟩ := hrew.of_no_match hno
    have htotal : (bytes (root' :: es ++ [root'] ++ [e'])).length = 512 + 1024 + 1024 + 512 := by
      rw [bytes_append, List.length_append, hbytes, bytes_singleton, he']
      rfl
    refine ⟨f, f', { f with mem := m', tarsize := 512 + 1024 + 1024 + 512, dirty := true }, hw, hfail, ?_, rfl⟩
    unfold factoryWrite
    rw [if_neg (by rw [htar]; decide)]
    rw [htotal] at hadd
    exact congrArg _ hadd

end NasFirmware.Factory
