import NasFirmware.Mtd.Write

/-!
# Writing behind an offset

`part_offset` moves the file position of the device, but `e` starts at `0`: with an offset the blocks that are
erased are not the blocks that are written.
-/

namespace NasFirmware.Mtd

open ByteMem CLoop

/-- What was done to the flash stays behind the offset, and every byte that was written was erased before. -/
structure Kept (es partOffset : ℕ) (log : List Op) : Prop where
  behind : ∀ op ∈ log, partOffset ≤ op.start
  erased : ∀ i off len, log[i]? = some (.write off len) → ∀ a, off ≤ a → a < off + len →
    ∃ o, .erase o ∈ log.take i ∧ o ≤ a ∧ a < o + es

variable {partOffset : ℕ} {rd : Reader} {d : Device}

section Log

variable {es off : ℕ} {log log' : List Op}

theorem kept_nil : Kept es partOffset [] := ⟨(fun _ h => nomatch h), (fun _ _ _ h => by cases h)⟩

theorem Kept.of_prefix (h : Kept es partOffset log') (hp : log <+: log') : Kept es partOffset log := by
  obtain ⟨tail, rfl⟩ := hp
  refine ⟨fun op hop => h.behind op (List.mem_append_left _ hop), fun i off len hi => ?_⟩
  have hlt : i < log.length := (List.getElem?_eq_some_iff.mp hi).1
  have := h.erased i off len (by rwa [List.getElem?_append_left hlt])
  rwa [List.take_append_of_le_length hlt.le] at this

variable (h : Kept es partOffset log)

include h

theorem Kept.snoc {op : Op} (hstart : partOffset ≤ op.start)
    (hop : ∀ off len, op = .write off len → ∀ a, off ≤ a → a < off + len →
      ∃ o, .erase o ∈ log ∧ o ≤ a ∧ a < o + es) : Kept es partOffset (log ++ [op]) := by
  refine ⟨fun op' hop' => ?_, fun i off len hi => ?_⟩
  · rcases List.mem_append.mp hop' with hold | hnew
    · exact h.behind op' hold
    · rwa [List.mem_singleton.mp hnew]
  · by_cases hlt : i < log.length
    · rw [List.getElem?_append_left hlt] at hi
      rw [List.take_append_of_le_length hlt.le]
      exact h.erased i off len hi
    · rw [List.getElem?_append_right (Nat.le_of_not_lt hlt), List.getElem?_singleton] at hi
      split at hi
      · rw [List.take_append_of_le_length (by omega), List.take_of_length_le (Nat.le_of_not_lt hlt)]
        exact hop off len (Option.some.inj hi)
      · cases hi

theorem Kept.erase (hoff : partOffset ≤ off) :
    Kept es partOffset (log ++ [.erase off]) :=
  h.snoc hoff fun _ _ hop => nomatch hop

theorem Kept.erase_write (hoff : partOffset ≤ off) :
    Kept es partOffset (log ++ [.erase off] ++ [.write off es]) := by
  refine (h.erase hoff).snoc hoff fun off' len hop a ha ha' => ?_
  cases hop
  exact ⟨off, List.mem_append_right _ (List.mem_singleton_self _), ha, ha'⟩

omit h

theorem not_kept_of_moved (hes : 0 < es) {o : ℕ} (ho : o + es ≤ off) :
    ¬ Kept es partOffset [.erase o, .write off es] := by
  intro h
  obtain ⟨o', ho', -, hlt⟩ := h.erased 1 off es rfl off (Nat.le_refl _) (by omega)
  have heq : Op.erase o' = Op.erase o := List.mem_singleton.mp ho'
  cases heq
  omega

theorem not_kept_of_unerased (hes : 0 < es) : ¬ Kept es partOffset [.write off es] := by
  intro h
  obtain ⟨o, ho, -⟩ := h.erased 0 off es rfl off (Nat.le_refl _) (by omega)
  cases ho

end Log

/-! ## A pass without erasing -/

/-- The file position is a block boundary, and with erasing the counters are aligned. -/
structure Steady (d : Device) (noErase : Bool) (partOffset : ℕ) (s : State) : Prop where
  dev : s.dev = d
  buflen_le : s.buflen ≤ d.erasesize
  pos : d.erasesize ∣ s.pos
  aligned : noErase = false → ∃ b ≤ d.blocks, Aligned d partOffset b s

section Pass

variable {s : State} {s' : State} {b fuel : ℕ}

inductive BarePass (rd : Reader) (s : State) : Pass State (Outcome × State) → Prop
  | finished {s' : State} (hf : Filled rd s s') (hempty : s'.buflen = 0) : BarePass rd s (.done (.returned, s'))
  | refused {s' t : State} (hf : Filled rd s s') (hsome : 0 < s'.buflen) (hno : ¬ s.dev.takes s.pos)
      (hlog : t.log = s.log) : BarePass rd s (.done (.exited, t))
  | stored {s' : State} (hf : Filled rd s s') (hsome : 0 < s'.buflen) (htakes : s.dev.takes s.pos) :
      BarePass rd s (.next (padBlock s').written)

theorem writePass_bare_cases (rd : Reader) (h : Steady d true partOffset s) :
    ∃ p, writePass rd true partOffset s = some p ∧ BarePass rd s p := by
  obtain ⟨s', hfill, hf⟩ := fillBuffer_spec rd (show s.buflen ≤ s.dev.erasesize by rw [h.dev]; exact h.buflen_le)
  unfold writePass
  rw [hfill]
  dsimp only
  by_cases hempty : s'.buflen = 0
  · rw [if_pos hempty]
    exact ⟨_, rfl, .finished hf hempty⟩
  · rw [if_neg hempty, if_pos rfl]
    have hsome := Nat.pos_of_ne_zero hempty
    have hdev : (padBlock s').dev = s.dev := by rw [hf.pad.1]
    have hpos : (padBlock s').pos = s.pos := by rw [hf.pad.1]
    have hlen : (padBlock s').buflen = (padBlock s').dev.erasesize := by rw [hdev, hf.pad.1]
    by_cases htakes : s.dev.takes s.pos
    · exact ⟨_, congrArg some (writeBlock_takes hlen (by rwa [hdev, hpos])), .stored hf hsome htakes⟩
    · refine ⟨_, congrArg some (writeBlock_refused hlen ?_ ?_), .refused hf hsome htakes ?_⟩
      · rw [hdev, hpos, h.dev]
        exact h.pos
      · rwa [hdev, hpos]
      · rw [hf.pad.1]

theorem Steady.stored {noErase : Bool} {g : ℕ} (hpos : d.erasesize ∣ partOffset)
    (h : Aligned d partOffset b s) (hf : Filled rd s s') (hb : b ≤ d.blocks)
    (hg : nextGood d (d.blocks - b) b = some g) :
    Steady d noErase partOffset ((padBlock s').erasedAt partOffset g).written := by
  obtain ⟨hbg, hlt, -⟩ := nextGood_spec hg
  have hdev : (padBlock s').dev = d := by rw [hf.pad.1, h.dev]
  have hlen : (padBlock s').buflen = d.erasesize := by rw [hf.pad.1, h.dev]
  refine ⟨hdev, Nat.zero_le _, ?_, fun _ => ⟨g + 1, by omega, (h.filled hf).erasedAt_written hlen hbg⟩⟩
  show d.erasesize ∣ partOffset + g * (padBlock s').dev.erasesize + (padBlock s').buflen
  rw [hdev, hlen]
  exact Nat.dvd_add (Nat.dvd_add hpos (Nat.dvd_mul_left ..)) (Nat.dvd_refl _)

theorem Steady.stored_bare (h : Steady d true partOffset s) (hf : Filled rd s s') :
    Steady d true partOffset (padBlock s').written := by
  have hlen : (padBlock s').buflen = d.erasesize := by rw [hf.pad.1, h.dev]
  refine ⟨?_, Nat.zero_le _, ?_, fun hno => by cases hno⟩
  · show (padBlock s').dev = d
    rw [hf.pad.1, h.dev]
  · show d.erasesize ∣ (padBlock s').pos + (padBlock s').buflen
    rw [hlen, hf.pad.1]
    exact Nat.dvd_add h.pos (Nat.dvd_refl _)

theorem Filled.rest_lt (hf : Filled rd s s') (hsome : 0 < s'.buflen) :
    (padBlock s').rest.length + 0 < s.rest.length + s.buflen := by
  have hrest : (padBlock s').rest = s'.rest := by rw [hf.pad.1]
  have := hf.length_eq
  rw [hrest]
  omega

/-- **The run from any state on the way** ends, and only adds to what was done. -/
theorem run_grows (rd : Reader) (noErase : Bool) (hpos : d.erasesize ∣ partOffset)
    (h : Steady d noErase partOffset s) (hfuel : s.rest.length + s.buflen < fuel) :
    ∃ r, loop (writePass rd noErase partOffset) fuel s = some r ∧ s.log <+: r.2.log := by
  refine loop_of_variant
    (fun n t => Steady d noErase partOffset t ∧ s.log <+: t.log ∧ n = t.rest.length + t.buflen)
    (fun r : Outcome × State => s.log <+: r.2.log) ?_ ⟨h, List.prefix_rfl, rfl⟩ hfuel
  rintro n t ⟨ht, hlog, rfl⟩
  cases noErase with
  | true =>
    obtain ⟨p, hp, hcases⟩ := writePass_bare_cases rd ht
    rw [hp]
    cases hcases with
    | @finished s' hf _ => exact .inr ⟨_, rfl, by rw [hf.frame]; exact hlog⟩
    | refused _ _ _ hlog' => exact .inr ⟨_, rfl, by rwa [hlog']⟩
    | @stored s' hf hsome _ =>
      refine .inl ⟨_, _, rfl, ⟨ht.stored_bare hf, ?_, rfl⟩, hf.rest_lt hsome⟩
      show s.log <+: (padBlock s').log ++ _
      rw [hf.pad.1]
      exact hlog.trans (List.prefix_append ..)
  | false =>
    obtain ⟨b, hb, halign⟩ := ht.aligned rfl
    obtain ⟨p, hp, hcases⟩ := writePass_cases rd halign ht.buflen_le hb hpos partOffset
    rw [hp]
    cases hcases with
    | @finished s' hf _ => exact .inr ⟨_, rfl, by rw [hf.frame]; exact hlog⟩
    | worn _ _ _ hlog' => exact .inr ⟨_, rfl, by rwa [hlog']⟩
    | refused _ _ _ _ hlog' =>
      exact .inr ⟨_, rfl, by rw [hlog']; exact hlog.trans (List.prefix_append ..)⟩
    | @stored s' g hf hsome hg _ =>
      refine .inl ⟨_, _, rfl, ⟨.stored hpos halign hf hb hg, ?_, rfl⟩, hf.rest_lt hsome⟩
      show s.log <+: (padBlock s').log ++ _ ++ _
      rw [hf.pad.1]
      exact hlog.trans ((List.prefix_append ..).trans (List.prefix_append ..))

/-- **Without an offset** every block is erased and then written. -/
theorem run_kept (rd : Reader) (h : Aligned d 0 b s) (hb : b ≤ d.blocks) (hlen : s.buflen ≤ d.erasesize)
    (hkept : Kept d.erasesize 0 s.log) (hfuel : s.rest.length + s.buflen < fuel) :
    ∃ r, loop (writePass rd false 0) fuel s = some r ∧ Kept d.erasesize 0 r.2.log := by
  refine loop_of_variant
    (fun n t => (∃ b ≤ d.blocks, Aligned d 0 b t) ∧ t.buflen ≤ d.erasesize ∧ Kept d.erasesize 0 t.log ∧
      n = t.rest.length + t.buflen)
    (fun r : Outcome × State => Kept d.erasesize 0 r.2.log) ?_ ⟨⟨b, hb, h⟩, hlen, hkept, rfl⟩ hfuel
  rintro n t ⟨⟨b, hb, ht⟩, hlen, hkept, rfl⟩
  obtain ⟨p, hp, hcases⟩ := writePass_cases rd ht hlen hb (Nat.dvd_zero _) 0
  rw [hp]
  cases hcases with
  | @finished s' hf _ => exact .inr ⟨_, rfl, by rw [hf.frame]; exact hkept⟩
  | worn _ _ _ hlog => exact .inr ⟨_, rfl, by rwa [hlog]⟩
  | refused _ _ _ _ hlog => exact .inr ⟨_, rfl, by rw [hlog]; exact hkept.erase (Nat.zero_le _)⟩
  | @stored s' g hf hsome hg _ =>
    have hsteady : Steady d false 0 ((padBlock s').erasedAt 0 g).written := .stored (Nat.dvd_zero _) ht hf hb hg
    have hdev : (padBlock s').dev = d := by rw [hf.pad.1, ht.dev]
    have hlen' : (padBlock s').buflen = d.erasesize := by rw [hf.pad.1, ht.dev]
    have hlog : (padBlock s').log = t.log := by rw [hf.pad.1]
    refine .inl ⟨_, _, rfl, ⟨hsteady.aligned rfl, hsteady.buflen_le, ?_, rfl⟩, hf.rest_lt hsome⟩
    show Kept _ 0 ((padBlock s').log ++ [.erase (g * (padBlock s').dev.erasesize)] ++
      [.write (0 + g * (padBlock s').dev.erasesize) (padBlock s').buflen])
    rw [hdev, hlen', hlog, Nat.zero_add]
    exact hkept.erase_write (Nat.zero_le _)

end Pass

/-! ## The calls that keep to the offset -/

/-- There is nothing to write; or nothing is erased by request and the offset takes no block; or there is no offset;
or the first good block is behind it, and a block that far behind the offset cannot be written. -/
def OffsetSafe (rd : Reader) (noErase : Bool) (d : Device) (partOffset buflen : ℕ) (rest : List UInt8) : Prop :=
  buflen = 0 ∧ (rest = [] ∨ rd.fails 0 = true) ∨
  noErase = true ∧ ¬ d.takes partOffset ∨
  noErase = false ∧ (partOffset = 0 ∨ ∀ g, nextGood d d.blocks 0 = some g →
    partOffset ≤ g * d.erasesize ∧ ¬ d.takes (partOffset + g * d.erasesize))

section Call

variable {noErase : Bool} {buflen : ℕ} {rest : List UInt8} {flash buf : Mem}

theorem start_aligned : Aligned d partOffset 0 (start partOffset d flash [] buf buflen rest) := by
  have hzero : 0 = 0 * d.erasesize := (Nat.zero_mul _).symm
  refine ⟨rfl, rfl, hzero, ?_, hzero, rfl⟩
  rw [← hzero]
  rfl

/-- The first pass is followed by a run that only adds to what it did. -/
theorem mtdWrite_next {s' : State} (hpos : d.erasesize ∣ partOffset)
    (hp : writePass rd noErase partOffset (start partOffset d flash [] buf buflen rest) = some (.next s'))
    (hs' : Steady d noErase partOffset s') (hlt : s'.rest.length + s'.buflen < rest.length + buflen) :
    ∃ r, mtdWrite rd noErase partOffset d flash [] buf buflen rest = some r ∧ s'.log <+: r.2.log := by
  obtain ⟨r, hr, hlog⟩ := run_grows rd noErase hpos hs' hlt
  exact ⟨r, (loop_succ_next hp).trans hr, hlog⟩

theorem mtdWrite_bare_iff (hlen : buflen ≤ d.erasesize) (hpos : d.erasesize ∣ partOffset) :
    ∃ r, mtdWrite rd true partOffset d flash [] buf buflen rest = some r ∧
      (Kept d.erasesize partOffset r.2.log ↔ OffsetSafe rd true d partOffset buflen rest) := by
  have hsteady : Steady d true partOffset (start partOffset d flash [] buf buflen rest) :=
    ⟨rfl, hlen, hpos, fun hno => by cases hno⟩
  obtain ⟨p, hp, hcases⟩ := writePass_bare_cases rd hsteady
  cases hcases with
  | @finished s' hf hempty =>
    refine ⟨_, loop_succ_done hp, iff_of_true ?_ (.inl (hf.empty.mp hempty))⟩
    rw [hf.frame]
    exact kept_nil
  | refused hf hsome hno hlog =>
    refine ⟨_, loop_succ_done hp, iff_of_true ?_ (.inr (.inl ⟨rfl, hno⟩))⟩
    rw [hlog]
    exact kept_nil
  | @stored s' hf hsome htakes =>
    obtain ⟨r, hr, hlog⟩ := mtdWrite_next hpos hp (hsteady.stored_bare hf) (hf.rest_lt hsome)
    refine ⟨r, hr, iff_of_false (fun hkept => ?_) ?_⟩
    · have hfirst : (padBlock s').written.log = [.write partOffset d.erasesize] := by
        show (padBlock s').log ++ [.write (padBlock s').pos (padBlock s').buflen] = _
        rw [hf.pad.1]
        rfl
      exact not_kept_of_unerased d.erasesize_pos (hfirst ▸ hkept.of_prefix hlog)
    · rintro (hnone | ⟨-, hno⟩ | ⟨herase, -⟩)
      · exact hsome.ne' (hf.empty.mpr hnone)
      · exact hno htakes
      · cases herase

theorem mtdWrite_erasing_iff (hlen : buflen ≤ d.erasesize) (hpos : d.erasesize ∣ partOffset) :
    ∃ r, mtdWrite rd false partOffset d flash [] buf buflen rest = some r ∧
      (Kept d.erasesize partOffset r.2.log ↔ OffsetSafe rd false d partOffset buflen rest) := by
  by_cases hzero : partOffset = 0
  · subst hzero
    obtain ⟨r, hr, hkept⟩ := run_kept rd (s := start 0 d flash [] buf buflen rest) start_aligned (Nat.zero_le _)
      hlen kept_nil (Nat.lt_succ_self _)
    exact ⟨r, hr, iff_of_true hkept (.inr (.inr ⟨rfl, .inl rfl⟩))⟩
  · have hes : d.erasesize ≤ partOffset := Nat.le_of_dvd (Nat.pos_of_ne_zero hzero) hpos
    obtain ⟨p, hp, hcases⟩ := writePass_cases rd start_aligned hlen (Nat.zero_le _) hpos partOffset
    cases hcases with
    | @finished s' hf hempty =>
      refine ⟨_, loop_succ_done hp, iff_of_true ?_ (.inl (hf.empty.mp hempty))⟩
      rw [hf.frame]
      exact kept_nil
    | worn hf hsome hg hlog =>
      rw [Nat.sub_zero] at hg
      refine ⟨_, loop_succ_done hp, iff_of_true ?_ (.inr (.inr ⟨rfl, .inr fun g hg' => ?_⟩))⟩
      · rw [hlog]
        exact kept_nil
      · rw [hg] at hg'
        cases hg'
    | @refused s' t g hf hsome hg hno hlog =>
      rw [Nat.sub_zero] at hg
      refine ⟨_, loop_succ_done hp, fun hkept => .inr (.inr ⟨rfl, .inr fun g' hg' => ?_⟩), ?_⟩
      · rw [hg] at hg'
        cases hg'
        refine ⟨hkept.behind (.erase _) ?_, hno⟩
        rw [hlog]
        exact List.mem_singleton_self _
      · rintro (hnone | ⟨herase, -⟩ | ⟨-, hfirst⟩)
        · exact absurd (hf.empty.mpr hnone) hsome.ne'
        · cases herase
        · rw [hlog]
          exact kept_nil.erase ((hfirst.resolve_left hzero) g hg).1
    | @stored s' g hf hsome hg htakes =>
      obtain ⟨r, hr, hlog⟩ := mtdWrite_next hpos hp (.stored hpos start_aligned hf (Nat.zero_le _) hg)
        (hf.rest_lt hsome)
      rw [Nat.sub_zero] at hg
      refine ⟨r, hr, iff_of_false (fun hkept => ?_) ?_⟩
      · have hfirst : ((padBlock s').erasedAt partOffset g).written.log =
            [.erase (g * d.erasesize), .write (partOffset + g * d.erasesize) d.erasesize] := by
          show (padBlock s').log ++ [.erase (g * (padBlock s').dev.erasesize)] ++
            [.write (partOffset + g * (padBlock s').dev.erasesize) (padBlock s').buflen] = _
          rw [hf.pad.1]
          rfl
        exact not_kept_of_moved d.erasesize_pos (by omega) (hfirst ▸ hkept.of_prefix hlog)
      · rintro (hnone | ⟨herase, -⟩ | ⟨-, hfirst⟩)
        · exact hsome.ne' (hf.empty.mpr hnone)
        · cases herase
        · exact ((hfirst.resolve_left hzero) g hg).2 htakes

end Call

/-- **Offset writes.** A call touches nothing before the offset and writes nothing unerased, exactly if it is safe. -/
theorem mtdWrite_kept_iff (rd : Reader) (noErase : Bool) (d : Device) (flash buf : Mem) (rest : List UInt8)
    {partOffset buflen : ℕ} (hlen : buflen ≤ d.erasesize) (hpos : d.erasesize ∣ partOffset) :
    ∃ r, mtdWrite rd noErase partOffset d flash [] buf buflen rest = some r ∧
      (Kept d.erasesize partOffset r.2.log ↔ OffsetSafe rd noErase d partOffset buflen rest) := by
  cases noErase with
  | true => exact mtdWrite_bare_iff hlen hpos
  | false => exact mtdWrite_erasing_iff hlen hpos

def fourBlocks : Device :=
  { nand := true, erasesize := 4, blocks := 4, bad := fun _ => some false, eraseOk := fun _ => true,
    writeOk := fun _ => true, erasesize_pos := badSecond.erasesize_pos, size_lt := by decide }

def wholeReader : Reader := ⟨fun _ => 4, fun _ => false⟩

theorem mtdWrite_kept_iff_zero :
    ∃ r, mtdWrite wholeReader false 0 fourBlocks (fun _ => 0) [] (fun _ => 0) 0 [1, 2, 3, 4, 5] = some r ∧
      OffsetSafe wholeReader false fourBlocks 0 0 [1, 2, 3, 4, 5] ∧ Kept 4 0 r.2.log := by
  obtain ⟨r, hr, hiff⟩ := mtdWrite_kept_iff wholeReader false fourBlocks (fun _ => 0) (fun _ => 0) [1, 2, 3, 4, 5]
    (show 0 ≤ fourBlocks.erasesize from Nat.zero_le _) (Nat.dvd_zero _)
  have hsafe : OffsetSafe wholeReader false fourBlocks 0 0 [1, 2, 3, 4, 5] := .inr (.inr ⟨rfl, .inl rfl⟩)
  exact ⟨r, hr, hsafe, hiff.mpr hsafe⟩

/-- **An offset of one block.** Block `0` is erased, and block `1` is written as it is. -/
theorem offset_erases_the_start :
    ∃ s, mtdWrite wholeReader false 4 fourBlocks (fun _ => 0x0f) [] (fun _ => 0) 0 [0xf1, 2, 3, 4] =
        some (.returned, s) ∧
      s.log = [.erase 0, .write 4 4] ∧ read s.flash 0 8 = [0xff, 0xff, 0xff, 0xff, 1, 2, 3, 4] ∧
      ¬ Kept 4 4 s.log := by
  refine ⟨_, rfl, by decide, by decide, fun hkept => ?_⟩
  exact absurd (hkept.behind (.erase 0) (by decide)) (by decide)

end NasFirmware.Mtd
