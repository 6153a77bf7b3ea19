import NasFirmware.Factory.Root
import NasFirmware.Tar.Lookup

/-!
# The factory archive as a map

* **`factory_map_iff`**: the two hold if and only if no file of the archive has a name that goes on
  behind the path (and, for writing, the path is a possible name).
-/

namespace NasFirmware.Factory

open ByteMem CString CLoop Tar

/-- A well-formed archive: the root header, the only one with the signature `RTK`, files, and zeros
behind them. -/
structure WellFormed (cfg : Config) (f : Store) (root : Entry) (es : List Entry) : Prop where
  root_name : root.name = factoryHeader
  root_rtk : root.isRtk = true
  unsigned : cfg.nas = true → ∀ e ∈ es, e.isRtk = false
  archived : Archived cfg.half f.mem (root :: es)
  tarsize : f.tarsize = (bytes (root :: es)).length
  room : f.tarsize + 512 ≤ cfg.half

/-- After writing, the data is read under the path, and nothing has changed under other paths. -/
def MapWrite (cfg : Config) (f : Store) (path : CStr) (data : List UInt8) : Prop :=
  ∃ f', factoryWrite cfg f path.1 data = some (0, f') ∧ factoryRead cfg f' path.1 = some (some data) ∧
    ∀ q : CStr, q ≠ path → factoryRead cfg f' q.1 = factoryRead cfg f q.1

/-- After deleting, nothing is read under the path, and nothing has changed under other paths. -/
def MapDelete (cfg : Config) (f : Store) (path : CStr) : Prop :=
  ∃ f', factoryDelete cfg f path.1 = some (0, f') ∧ factoryRead cfg f' path.1 = some none ∧
    ∀ q : CStr, q ≠ path → factoryRead cfg f' q.1 = factoryRead cfg f q.1

/-- No name goes on behind `p`. -/
def Separate (p : List UInt8) (es : List Entry) : Prop := ∀ e ∈ es, p <+: e.name → e.name = p

variable {p q : List UInt8} {es : List Entry} {cfg : Config} {f : Store}

theorem Separate.find_none (h : Separate p es) (hne : q ≠ p)
    (hpre : p <+: q) : find q es = none := by
  refine find_eq_none fun e he hname => hne ?_
  rw [← hname] at hpre ⊢
  exact h e he hpre

/-- If names that go on behind `p` are lost and nothing else changes, there were none. -/
theorem separate_of_find {out : List Entry}
    (hnone : ∀ q, q ≠ p → p <+: q → find q out = none)
    (hsame : ∀ q : CStr, q.1 ≠ p → find q.1 out = find q.1 es) : Separate p es := by
  intro e he hpre
  by_contra hne
  let q : CStr := ⟨e.name, e.valid.name_eq ▸ fun h0 => by simpa using List.mem_takeWhile_imp h0⟩
  have hsome := find_isSome he
  rw [← hsame q hne, hnone e.name hne hpre] at hsome
  cases hsome

/-- **Reading an archive.** If it fills the buffer, the walk stops behind the first header in the second one. -/
theorem factoryRead_spec (h : Archived cfg.half f.mem es)
    (hle : (bytes es).length ≤ cfg.half)
    (hcopy : (bytes es).length = cfg.half → read f.mem cfg.half (bytes es).length = bytes es) (q : CStr) :
    factoryRead cfg f q.1 = some (find q.1 es) := by
  have hlen := length_le_bytes es
  have hhalf := cfg.half_le
  unfold factoryRead tarRead
  rw [Nat.zero_add]
  refine tarRead_spec h.stored (by omega) (fun hnone => ?_) (by omega)
  rw [Nat.zero_add]
  rcases Nat.lt_or_ge (bytes es).length cfg.half with hlt | hge
  · unfold tarReadPass
    rw [if_pos (h.tail _ le_rfl hlt)]
  · have heq : (bytes es).length = cfg.half := by omega
    cases es with
    | nil => simp [bytes] at heq; omega
    | cons e es =>
      have hname : e.name ≠ q.1 := by
        intro hname
        rw [← hname, find_cons_self] at hnone
        cases hnone
      rw [heq, tarReadPass_skip cfg.half (hcopy heq) hname, if_pos (by omega)]

theorem found_first {path data : List UInt8}
    (h : factoryRead cfg f path = some (some data)) :
    path ≠ [] ∧ ∀ c ∈ path.head?, c ≤ 0x7f := by
  obtain ⟨r, hloop, hr⟩ := Option.map_eq_some_iff.mp h
  obtain ⟨fd, hpass⟩ := exists_done_of_loop hloop
  obtain ⟨⟨addr, len⟩, rfl, -⟩ := Option.map_eq_some_iff.mp hr
  have hseen := tarReadPass_some hpass
  have hascii := hseen.2.1
  rw [tarCheckHeader, Bool.and_eq_true, decide_eq_true_eq] at hascii
  rcases strncmpEq_first (by omega) hseen.2.2 with hnil | hhead
  · exact absurd hnil.2 hseen.1
  · refine ⟨fun hnil => ?_, fun c hc => ?_⟩
    · rw [hnil] at hhead
      cases hhead
    · rw [hhead] at hc
      cases hc
      exact hascii.1

theorem factoryRead_congr (hp : 100 ≤ p.length)
    (hq : 100 ≤ q.length) (h : p.take 100 = q.take 100) : factoryRead cfg f p = factoryRead cfg f q := by
  have hpass : ∀ m limit, tarReadPass m p limit = tarReadPass m q limit := by
    intro m limit
    funext fd
    unfold tarReadPass
    rw [strncmpEq_congr hp hq h]
  unfold factoryRead tarRead
  rw [hpass]

section Operations

variable {cfg : Config} {f : Store} {root : Entry} {es : List Entry} {path : CStr} {data : List UInt8}

theorem WellFormed.unsigned_all (h : WellFormed cfg f root es) : Unsigned cfg.nas 0 (root :: es) :=
  fun hnas => ⟨h.unsigned hnas, fun h0 => absurd rfl h0⟩

theorem WellFormed.read (h : WellFormed cfg f root es) (q : CStr) :
    factoryRead cfg f q.1 = some (find q.1 (root :: es)) := by
  have hroom := h.room
  have hsize := h.tarsize
  exact factoryRead_spec h.archived (by omega) (fun heq => by omega) q

theorem archived_clear (h : Archived cfg.half f.mem es) (hle : (bytes es).length ≤ cfg.half) :
    Archived cfg.half (memset f.mem cfg.half cfg.half 0) es where
  stored := by rw [read_memset_of_disjoint (Or.inl (by omega)), h.stored]
  tail k hk hlt := (memset_apply_of_not (by omega)).trans (h.tail k hk hlt)

theorem factoryWrite_spec (h : WellFormed cfg f root es) (hp : NameOk path)
    (hroom : blocks data.length + f.tarsize + 512 + cfg.tarPadding ≤ cfg.half) :
    ∃ f' out, factoryWrite cfg f path.1 data = some (0, f') ∧ Rewritten path.1 data (root :: es) out ∧
      Archived cfg.half f'.mem out ∧ f'.tarsize = (bytes out).length ∧ (bytes out).length ≤ cfg.half ∧
      (∀ q : CStr, factoryRead cfg f' q.1 = some (find q.1 out)) := by
  have hsize := h.tarsize
  have hhalf := cfg.half_lt
  have hblk := blocks_ge data.length
  obtain ⟨m', out, hadd, hrew, harch, hcopy⟩ := tarAdd_spec cfg.nas (archived_clear h.archived (by omega))
    (by omega) h.unsigned_all hp (show data.length < 2 ^ 31 by omega) (by omega)
  have hle := hrew.length_le
  have hpos : (bytes out).length ≠ 0 := by
    have hself := hrew.find_self
    cases out with
    | nil => cases hself
    | cons e es => rw [length_bytes_cons]; omega
  refine ⟨{ f with mem := m', tarsize := (bytes out).length, dirty := true }, out, ?_, hrew, harch, rfl,
    by omega, fun q => factoryRead_spec harch (by omega) (fun _ => hcopy) q⟩
  unfold factoryWrite
  rw [if_neg (by omega), hadd]
  simp [hpos]

variable (h : WellFormed cfg f root es)

include h

variable (path) in
theorem factoryDelete_spec :
    ∃ f', let out := (root :: es).filter fun e => !e.matches path.1
      factoryDelete cfg f path.1 = some (0, f') ∧ Archived cfg.half f'.mem out ∧
      f'.tarsize = (bytes out).length ∧
      ∀ q : CStr, factoryRead cfg f' q.1 = some (find q.1 out) := by
  have hsize := h.tarsize
  have hroom := h.room
  obtain ⟨m', hdel, harch, hcopy⟩ := tarDelete_spec cfg.nas path (archived_clear h.archived (by omega))
    (by omega) h.unsigned_all
  have hle := length_bytes_filter (fun e => !e.matches path.1) (root :: es)
  refine ⟨{ f with mem := m', tarsize := _, dirty := true }, ?_, harch, rfl,
    fun q => factoryRead_spec harch (by omega) (fun _ => hcopy) q⟩
  unfold factoryDelete
  rw [hdel, Option.map_some]

theorem nameOk_of_mapWrite (hmap : MapWrite cfg f path data) :
    NameOk path := by
  obtain ⟨f', -, hread, hother⟩ := hmap
  have hfirst := found_first hread
  refine ⟨hfirst.1, Nat.lt_of_not_le fun hlong => ?_, hfirst.2⟩
  -- another long path with the same first 100 bytes
  obtain ⟨q, hne, hq, htake⟩ : ∃ q : CStr, q ≠ path ∧ 100 ≤ q.1.length ∧
      q.1.take 100 = path.1.take 100 := by
    refine ⟨⟨path.1 ++ [1], ?_⟩, fun heq => ?_, ?_, ?_⟩
    · simpa using path.2
    · have := congrArg (fun s : CStr => s.1.length) heq
      simp at this
    · simp only [List.length_append]
      omega
    · exact List.take_append_of_le_length hlong
  have hnone : find q.1 (root :: es) = none := by
    refine find_eq_none fun e _ hname => ?_
    have := e.valid.name_lt
    rw [hname] at this
    omega
  have hchanged := hother q hne
  rw [h.read q, hnone, factoryRead_congr hq hlong htake, hread] at hchanged
  cases hchanged

theorem mapWrite_iff
    (hroom : blocks data.length + f.tarsize + 512 + cfg.tarPadding ≤ cfg.half) :
    MapWrite cfg f path data ↔ NameOk path ∧ Separate path.1 (root :: es) := by
  constructor
  · intro hmap
    have hp := nameOk_of_mapWrite h hmap
    obtain ⟨f', hw, -, hother⟩ := hmap
    obtain ⟨f'', out, hw', hrew, -, -, -, hread⟩ := factoryWrite_spec h hp hroom
    cases hw.symm.trans hw'
    have hsame : ∀ q : CStr, q.1 ≠ path.1 → find q.1 out = find q.1 (root :: es) := by
      intro q hne
      have := hother q fun heq => hne (congrArg Subtype.val heq)
      rwa [hread, h.read, Option.some.injEq] at this
    refine ⟨hp, separate_of_find (fun q hne hpre => ?_) hsame⟩
    rw [hrew.find_other hne, if_pos hpre]
  · rintro ⟨hp, hsep⟩
    obtain ⟨f', out, hw, hrew, -, -, -, hread⟩ := factoryWrite_spec h hp hroom
    refine ⟨f', hw, by rw [hread, hrew.find_self], fun q hq => ?_⟩
    have hne : q.1 ≠ path.1 := fun heq => hq (Subtype.ext heq)
    rw [hread, h.read, hrew.find_other hne]
    split_ifs with hpre
    · rw [hsep.find_none hne hpre]
    · rfl

theorem mapDelete_iff :
    MapDelete cfg f path ↔ Separate path.1 (root :: es) := by
  obtain ⟨f', hdel, -, -, hread⟩ := factoryDelete_spec path h
  constructor
  · rintro ⟨f'', hdel', -, hother⟩
    cases hdel.symm.trans hdel'
    have hsame : ∀ q : CStr, q.1 ≠ path.1 →
        find q.1 ((root :: es).filter fun e => !e.matches path.1) = find q.1 (root :: es) := by
      intro q hne
      have := hother q fun heq => hne (congrArg Subtype.val heq)
      rwa [hread, h.read, Option.some.injEq] at this
    exact separate_of_find (fun q _ hpre => find_filter_none hpre) hsame
  · intro hsep
    refine ⟨f', hdel, by rw [hread, find_filter_none (List.prefix_refl _)], fun q hq => ?_⟩
    have hne : q.1 ≠ path.1 := fun heq => hq (Subtype.ext heq)
    rw [hread, h.read]
    by_cases hpre : path.1 <+: q.1
    · rw [find_filter_none hpre, hsep.find_none hne hpre]
    · rw [find_filter hpre]

omit h

/-- **When the factory archive behaves as a map.** Deleting does if and only if no name in the archive goes on behind
the path; writing does if and only if in addition the path fits the field for the name and starts with an ASCII
character. -/
theorem factory_map_iff (h : WellFormed cfg f root es) (path : CStr) :
    (∀ data : List UInt8, blocks data.length + f.tarsize + 512 + cfg.tarPadding ≤ cfg.half →
      (MapWrite cfg f path data ↔ NameOk path ∧ Separate path.1 (root :: es))) ∧
    (MapDelete cfg f path ↔ Separate path.1 (root :: es)) :=
  ⟨fun _ hroom => mapWrite_iff h hroom, mapDelete_iff h⟩

end Operations

/-! ## Two files -/

def pathAb : CStr := ⟨factoryHeader ++ [97, 98], by decide⟩

theorem pathAb_ascii : ∀ c ∈ pathAb.1.head?, c ≤ 0x7f := by
  intro c hc
  cases hc
  decide

def pathA : CStr := ⟨factoryHeader ++ [97], by decide⟩

def abMem : Mem :=
  write (tarBuildHeader (buildRoot (fun _ => 0) 0) 512 pathAb.1 1 48) 1024 [65]

def abStore : Store := ⟨abMem, 1536, true, 0, 0⟩

theorem abMem_root : read abMem 0 512 = read (buildRoot (fun _ => 0) 0) 0 512 := by
  refine read_congr fun k _ hk => ?_
  exact (write_apply_lt (by omega)).trans (tarBuildHeader_frame (by decide) (Or.inl (by omega)))

theorem abMem_header :
    read abMem 512 512 = read (tarBuildHeader (buildRoot (fun _ => 0) 0) 512 pathAb.1 1 48) 512 512 :=
  read_congr fun k _ hk => write_apply_lt (by omega)

theorem abMem_zero {k : ℕ} (hk : 1012 ≤ k ∧ k < 1024 ∨ 1025 ≤ k) : abMem k = 0 := by
  have hroot : buildRoot (fun _ => 0) 0 k = 0 :=
    (fillRtkHeader_frame (Or.inr (Or.inr (by omega)))).trans
      (tarBuildHeader_frame (by decide) (Or.inr (by omega)))
  refine (write_apply_of_not (by simp only [List.length_singleton]; omega)).trans ?_
  exact (tarBuildHeader_frame (by decide) (Or.inr (by omega))).trans hroot

theorem abRoot_valid : ValidHeader factoryHeader 0 (read abMem 0 512) := by
  rw [abMem_root]
  exact buildRoot_valid _ _

theorem abEntry_valid : ValidHeader pathAb.1 1 (read abMem 512 512) := by
  rw [abMem_header]
  exact tarBuildHeader_valid pathAb (by decide) (by decide) pathAb_ascii (by decide)

def abRoot : Entry where
  name := factoryHeader
  size := 0
  header := read abMem 0 512
  body := []
  valid := abRoot_valid
  body_length := rfl

def abEntry : Entry where
  name := pathAb.1
  size := 1
  header := read abMem 512 512
  body := read abMem 1024 512
  valid := abEntry_valid
  body_length := length_read abMem 1024 512

theorem drop_read (m : Mem) (a : ℕ) : ((read m a 512).drop 508).take 4 = read m (a + 508) 4 := by
  rw [show 512 = 508 + 4 from rfl, read_add, List.drop_left' (length_read ..),
    List.take_of_length_le (by rw [length_read])]

theorem abStore_wellFormed (cfg : Config) : WellFormed cfg abStore abRoot [abEntry] where
  root_name := rfl
  root_rtk := by
    have hsig : read abMem 508 4 = rtk ++ [0] := by
      have := read_slice abMem_root (o := 508) (k := 4) (by omega)
      exact this
    simp [Entry.isRtk, abRoot, drop_read, hsig]
  unsigned := by
    intro _ e he
    rw [List.mem_singleton] at he
    subst he
    have hzero : read abMem (512 + 508) 4 = [0, 0, 0, 0] := by
      simp only [read_succ, read_zero]
      rw [abMem_zero (by omega), abMem_zero (by omega), abMem_zero (by omega), abMem_zero (by omega)]
    simp only [Entry.isRtk, abEntry, drop_read, hzero]
    rfl
  archived := by
    have hbytes : bytes [abRoot, abEntry] = read abMem 0 1536 := by
      rw [show 1536 = 512 + (512 + 512) from rfl, read_add, read_add, bytes_cons, bytes_singleton]
      simp [Entry.bytes, abRoot, abEntry]
    refine ⟨?_, fun k hk _ => ?_⟩
    · show read abMem 0 (bytes [abRoot, abEntry]).length = bytes [abRoot, abEntry]
      rw [hbytes, length_read]
    · rw [hbytes, length_read] at hk
      exact abMem_zero (by omega)
  tarsize := by
    rw [length_bytes_cons, length_bytes_cons]
    rfl
  room := cfg.half_le

theorem abStore_write_ab : MapWrite nasConfig abStore pathAb [66] ∧
    MapDelete nasConfig abStore pathAb := by
  have hsep : Separate pathAb.1 [abRoot, abEntry] := by
    intro e he hpre
    rcases List.mem_pair.mp he with rfl | rfl
    · exact absurd hpre (by decide)
    · rfl
  have hmap := factory_map_iff (abStore_wellFormed nasConfig) pathAb
  exact ⟨(hmap.1 [66] (by decide)).mpr ⟨⟨by decide, by decide, pathAb_ascii⟩, hsep⟩, hmap.2.mpr hsep⟩

/-- Writing or deleting `tmp/factory/a` loses `tmp/factory/ab`. -/
theorem abStore_write_a : WellFormed nasConfig abStore abRoot [abEntry] ∧
    blocks 1 + abStore.tarsize + 512 + nasConfig.tarPadding ≤ nasConfig.half ∧
    ¬ MapWrite nasConfig abStore pathA [66] ∧ ¬ MapDelete nasConfig abStore pathA := by
  have hwf := abStore_wellFormed nasConfig
  have hsep : ¬ Separate pathA.1 [abRoot, abEntry] := fun h =>
    absurd (h abEntry (by simp) (by decide)) (by decide)
  exact ⟨hwf, by decide, fun h => hsep ((mapWrite_iff hwf (by decide)).mp h).2,
    fun h => hsep ((mapDelete_iff hwf).mp h)⟩

end NasFirmware.Factory
