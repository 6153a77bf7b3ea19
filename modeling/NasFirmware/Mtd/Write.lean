import NasFirmware.Mtd.Model

/-!
# An image lands on the good blocks

On a single device the counters of `mtd_write` stay **aligned**: `e` is a block boundary, the file position is
`e` moved by `part_offset`, and `w` and `skip_bad_blocks` add up to `e`.

* **`mtdWrite_good_blocks`**: the `k`-th good block holds the `k`-th piece of the image.
-/

namespace NasFirmware.Mtd

open ByteMem CLoop

/-! ## The buffer -/

/-- What filling the buffer does: bytes go from the image to the buffer, and nothing else changes. -/
structure Filled (rd : Reader) (s s' : State) : Prop where
  frame : s' = { s with reads := s'.reads, rest := s'.rest, buf := s'.buf, buflen := s'.buflen }
  bytes : read s'.buf 0 s'.buflen ++ s'.rest = read s.buf 0 s.buflen ++ s.rest
  buflen_le : s'.buflen ≤ s.dev.erasesize
  full : (∀ n, rd.fails n = false) → s'.buflen = s.dev.erasesize ∨ s'.rest = []
  empty : s'.buflen = 0 ↔ s.buflen = 0 ∧ (s.rest = [] ∨ rd.fails s.reads = true)

/-- A state on the way: nothing was read yet, or something is in the buffer. -/
structure Filling (rd : Reader) (s t : State) : Prop where
  frame : t = { s with reads := t.reads, rest := t.rest, buf := t.buf, buflen := t.buflen }
  bytes : read t.buf 0 t.buflen ++ t.rest = read s.buf 0 s.buflen ++ s.rest
  buflen_le : t.buflen ≤ s.dev.erasesize
  started : t = s ∨ 0 < t.buflen ∧ ¬ (s.buflen = 0 ∧ (s.rest = [] ∨ rd.fails s.reads = true))

variable {b g n D : ℕ} {rd : Reader} {flash : Mem}

section Fill

variable {s t : State}

theorem Filled.length_eq (h : Filled rd s t) : t.rest.length + t.buflen = s.rest.length + s.buflen := by
  have hlen := congrArg List.length h.bytes
  rw [List.length_append, List.length_append, length_read, length_read] at hlen
  omega

theorem Filling.dev (h : Filling rd s t) : t.dev = s.dev := by rw [h.frame]

theorem read_write_buflen (buf : Mem) (n : ℕ) (bs : List UInt8) :
    read (write buf n bs) 0 (n + bs.length) = read buf 0 n ++ bs := by
  rw [read_add, Nat.zero_add, read_write_self, read_write_of_disjoint (.inl (by omega))]

theorem Filling.next {bs : List UInt8} (h : Filling rd s t) (hbs : bs ≠ []) (hrest : bs ++ t.rest.drop bs.length = t.rest)
    (hle : bs.length ≤ t.dev.erasesize - t.buflen) (hlt : t.buflen < t.dev.erasesize)
    (hread : rd.fails t.reads = false) :
    Filling rd s { t with reads := t.reads + 1, rest := t.rest.drop bs.length, buf := write t.buf t.buflen bs,
                          buflen := t.buflen + bs.length } := by
  have hpos : 0 < bs.length := List.length_pos_iff.mpr hbs
  rw [h.dev] at hle hlt
  refine ⟨?_, ?_, ?_, .inr ⟨Nat.add_pos_right _ hpos, ?_⟩⟩
  · conv_lhs => rw [h.frame]
  · rw [← h.bytes]
    rw [read_write_buflen, List.append_assoc, hrest]
  · dsimp only
    omega
  · rcases h.started with rfl | ⟨-, hsome⟩
    · rintro ⟨-, hnil | hfail⟩
      · rw [hnil, List.drop_nil, List.append_nil] at hrest
        exact hbs hrest
      · rw [hread] at hfail
        cases hfail
    · exact hsome

theorem Filling.leave (h : Filling rd s t) (hnone : t.rest = [] ∨ rd.fails t.reads = true) :
    Filled rd s { t with reads := t.reads + 1 } := by
  refine ⟨?_, h.bytes, h.buflen_le, fun hreads => .inr ?_, ?_⟩
  · conv_lhs => rw [h.frame]
  · rcases hnone with hrest | hfail
    · exact hrest
    · rw [hreads] at hfail
      cases hfail
  · rcases h.started with rfl | ⟨hpos, hsome⟩
    · exact ⟨fun hzero => ⟨hzero, hnone⟩, fun hs => hs.1⟩
    · exact ⟨fun hzero => absurd hzero hpos.ne', fun hs => absurd hs hsome⟩

theorem Filling.full (h : Filling rd s t) (hfull : t.buflen = s.dev.erasesize) : Filled rd s t := by
  have hpos := s.dev.erasesize_pos
  refine ⟨h.frame, h.bytes, h.buflen_le, fun _ => .inl hfull, ?_⟩
  rcases h.started with rfl | ⟨-, hsome⟩
  · exact ⟨fun hzero => by omega, fun hs => hs.1⟩
  · exact ⟨fun hzero => by omega, fun hs => absurd hs hsome⟩

/-- **The buffer is filled** with what comes next in the image. -/
theorem fillBuffer_spec (rd : Reader) (hs : s.buflen ≤ s.dev.erasesize) :
    ∃ s', fillBuffer rd s = some s' ∧ Filled rd s s' := by
  refine loop_of_variant (fun k t => Filling rd s t ∧ k = s.dev.erasesize - t.buflen) (Filled rd s) ?_
    ⟨⟨rfl, rfl, hs, .inl rfl⟩, rfl⟩ (by omega)
  rintro k t ⟨ht, rfl⟩
  unfold fillPass
  by_cases hlt : t.buflen < t.dev.erasesize
  · rw [if_pos hlt, Reader.read]
    by_cases hfail : rd.fails t.reads = true
    · rw [if_pos hfail]
      exact .inr ⟨_, rfl, ht.leave (.inr hfail)⟩
    · rw [if_neg hfail]
      have hmin : 0 < min (t.dev.erasesize - t.buflen) (max 1 (rd.size t.reads)) := by omega
      have hle : min (t.dev.erasesize - t.buflen) (max 1 (rd.size t.reads)) ≤ t.dev.erasesize - t.buflen :=
        Nat.min_le_left ..
      generalize min (t.dev.erasesize - t.buflen) (max 1 (rd.size t.reads)) = n at hmin hle
      cases htake : t.rest.take n with
      | nil =>
        have hrest : t.rest = [] := (List.take_eq_nil_iff.mp htake).resolve_left hmin.ne'
        exact .inr ⟨_, rfl, ht.leave (.inl hrest)⟩
      | cons b bs =>
        have hlen : (b :: bs).length ≤ n := by
          rw [← htake]
          exact List.length_take_le ..
        have hrest : (b :: bs) ++ t.rest.drop (b :: bs).length = t.rest := by
          rw [← htake, List.length_take, List.take_eq_take_min]
          exact List.take_append_drop ..
        refine .inl ⟨_, _, rfl, ⟨ht.next (List.cons_ne_nil _ _) hrest (hlen.trans hle) hlt
          (Bool.eq_false_iff.mpr hfail), rfl⟩, ?_⟩
        rw [ht.dev] at hlt
        dsimp only
        rw [List.length_cons]
        omega
  · rw [if_neg hlt]
    rw [ht.dev] at hlt
    exact .inr ⟨_, rfl, ht.full (Nat.le_antisymm ht.buflen_le (Nat.le_of_not_lt hlt))⟩

theorem padBlock_spec (hs : s.buflen ≤ s.dev.erasesize) :
    padBlock s = { s with buf := (padBlock s).buf, buflen := s.dev.erasesize } ∧
      read (padBlock s).buf 0 s.dev.erasesize =
        read s.buf 0 s.buflen ++ List.replicate (s.dev.erasesize - s.buflen) 0xff := by
  unfold padBlock
  by_cases hlt : s.buflen < s.dev.erasesize
  · rw [if_pos hlt]
    refine ⟨rfl, ?_⟩
    obtain ⟨c, hc⟩ := Nat.exists_eq_add_of_le hs
    rw [hc, Nat.add_sub_cancel_left, read_add, Nat.zero_add,
      read_memset_of_disjoint (.inl (by omega))]
    congr 1
    refine List.eq_replicate_iff.mpr ⟨length_read .., fun b hb => ?_⟩
    obtain ⟨i, hi, rfl⟩ := List.mem_map.mp hb
    exact memset_apply_mem (by omega) (by have := List.mem_range.mp hi; omega)
  · have heq : s.buflen = s.dev.erasesize := by omega
    rw [if_neg hlt]
    refine ⟨?_, by rw [heq, Nat.sub_self, List.replicate_zero, List.append_nil]⟩
    rw [← heq]

theorem Filled.pad (h : Filled rd s t) :
    padBlock t = { s with reads := t.reads, rest := t.rest, buf := (padBlock t).buf, buflen := s.dev.erasesize } ∧
      read (padBlock t).buf 0 s.dev.erasesize =
        read t.buf 0 t.buflen ++ List.replicate (s.dev.erasesize - t.buflen) 0xff := by
  have hdev : t.dev = s.dev := by rw [h.frame]
  obtain ⟨hpad, hbytes⟩ := padBlock_spec (hdev ▸ h.buflen_le)
  rw [hdev] at hpad hbytes
  exact ⟨hpad.trans (congrArg (fun u : State =>
    { u with dev := s.dev, buf := (padBlock t).buf, buflen := s.dev.erasesize }) h.frame), hbytes⟩

end Fill

/-! ## The erase loop -/

/-- The next good block among `n` from `b` on, if it is reached and can be erased. -/
def nextGood (d : Device) : ℕ → ℕ → Option ℕ
  | 0, _ => none
  | n + 1, b =>
    match mtdBlockIsBad d (b * d.erasesize) with
    | none => none
    | some true => nextGood d n (b + 1)
    | some false => if d.eraseOk b then some b else none

/-- The counters at a block boundary of a single device, with the file position moved by `D`. -/
structure Aligned (d : Device) (D b : ℕ) (s : State) : Prop where
  dev : s.dev = d
  next : s.next = []
  e : s.e = b * d.erasesize
  pos : s.pos = D + b * d.erasesize
  skipped : s.w + s.skipBadBlocks = b * d.erasesize
  offset : s.offset = 0

/-- The state in which block `g` was erased for the next write. -/
def State.erasedAt (s : State) (D g : ℕ) : State :=
  { s with flash := memset s.flash (g * s.dev.erasesize) s.dev.erasesize 0xff, pos := D + g * s.dev.erasesize,
           e := (g + 1) * s.dev.erasesize, skipBadBlocks := g * s.dev.erasesize - s.w,
           log := s.log ++ [.erase (g * s.dev.erasesize)] }

section Erase

variable {d : Device} {s : State}

theorem Aligned.erasePass_eq (h : Aligned d D b s) (hlen : s.buflen = d.erasesize) :
    erasePass s =
      match mtdBlockIsBad d (b * d.erasesize) with
      | none => some (.done (.exit s))
      | some true =>
        some (.next { s with skipBadBlocks := s.skipBadBlocks + d.erasesize, e := s.e + d.erasesize,
                             pos := s.pos + d.erasesize })
      | some false =>
        if b + 1 ≤ d.blocks ∧ d.eraseOk b then
          some (.next { s with flash := memset s.flash (b * d.erasesize) d.erasesize 0xff, e := s.e + d.erasesize,
                               log := s.log ++ [.erase s.e] })
        else some (.done (.exit s)) := by
  have hpos := d.erasesize_pos
  have hlt : s.e < s.w + s.buflen + s.skipBadBlocks := by
    rw [hlen, h.e, ← h.skipped]
    omega
  have hblock : b * d.erasesize + d.erasesize ≤ d.mtdsize ↔ b + 1 ≤ d.blocks := by
    rw [← Nat.succ_mul, Device.mtdsize]
    exact Nat.mul_le_mul_right_iff hpos
  have hfailed : eraseFailed s = .exit s := by rw [eraseFailed, h.next]
  unfold erasePass mtdEraseBlock
  rw [if_pos hlt, h.dev, h.e, Nat.mul_div_cancel _ hpos]
  rw [hfailed]
  cases mtdBlockIsBad d (b * d.erasesize) with
  | none => rfl
  | some bad =>
    cases bad with
    | true => rfl
    | false =>
      simp only [hblock]
      by_cases herase : b + 1 ≤ d.blocks ∧ d.eraseOk b = true
      · rw [if_pos herase, if_pos herase]
      · rw [if_neg herase, if_neg herase]

theorem erasePass_ready (h : s.w + s.buflen + s.skipBadBlocks ≤ s.e) : erasePass s = some (.done (.ready s)) :=
  if_neg (Nat.not_lt_of_le h)

theorem eraseLoop_from {fuel : ℕ} (h : Aligned d D b s) (hlen : s.buflen = d.erasesize) (hn : b + n = d.blocks)
    (hfuel : n + 2 ≤ fuel) :
    (∃ g, nextGood d n b = some g ∧ loop erasePass fuel s = some (.ready (s.erasedAt D g))) ∨
      nextGood d n b = none ∧ ∃ s', loop erasePass fuel s = some (.exit s') ∧ s'.log = s.log := by
  induction n generalizing b s fuel with
  | zero =>
    obtain ⟨fuel, rfl⟩ := Nat.exists_eq_add_of_le' hfuel
    -- Behind the end the query fails on NAND, and otherwise the erase.
    refine .inr ⟨rfl, s, loop_succ_done ?_, rfl⟩
    have hend : ¬ (b + 1 ≤ d.blocks ∧ d.eraseOk b = true) := by omega
    rw [h.erasePass_eq hlen, mtdBlockIsBad, Device.mtdsize]
    by_cases hnand : d.nand = true
    · rw [if_pos hnand, if_neg (by rw [← hn]; exact Nat.lt_irrefl _)]
    · rw [if_neg hnand]
      exact if_neg hend
  | succ n ih =>
    obtain ⟨fuel, rfl⟩ := Nat.exists_eq_add_of_le' hfuel
    have hpass := h.erasePass_eq hlen
    rw [nextGood]
    cases hbad : mtdBlockIsBad d (b * d.erasesize) with
    | none =>
      rw [hbad] at hpass
      exact .inr ⟨rfl, s, loop_succ_done hpass, rfl⟩
    | some bad =>
      rw [hbad] at hpass
      cases bad with
      | true =>
        rw [show fuel + (n + 1 + 2) = fuel + n + 2 + 1 by omega, loop_succ_next hpass]
        refine ih ⟨h.dev, h.next, ?_, ?_, ?_, h.offset⟩ hlen (by omega) (by omega)
        · rw [h.e, Nat.succ_mul]
        · rw [h.pos, Nat.succ_mul, Nat.add_assoc]
        · rw [← Nat.add_assoc, h.skipped, Nat.succ_mul]
      | false =>
        by_cases herase : d.eraseOk b = true
        · rw [if_pos ⟨by omega, herase⟩] at hpass
          rw [if_pos herase, show fuel + (n + 1 + 2) = fuel + n + 1 + 1 + 1 by omega, loop_succ_next hpass]
          refine .inl ⟨b, rfl, (loop_succ_done (erasePass_ready ?_)).trans ?_⟩
          · have := h.skipped
            dsimp only
            rw [hlen, h.e]
            omega
          · have hskip : s.skipBadBlocks = b * d.erasesize - s.w := by
              rw [← h.skipped, Nat.add_sub_cancel_left]
            rw [State.erasedAt, h.dev, ← h.pos, ← hskip, h.e, Nat.succ_mul]
        · rw [if_neg fun hb => herase hb.2] at hpass
          rw [if_neg herase]
          exact .inr ⟨rfl, s, loop_succ_done hpass, rfl⟩

/-- **The erase loop** skips the bad blocks and erases the next good one, or exits. -/
theorem eraseLoop_spec (h : Aligned d D b s) (hlen : s.buflen = d.erasesize) (hb : b ≤ d.blocks) :
    (∃ g, nextGood d (d.blocks - b) b = some g ∧ eraseLoop s = some (.ready (s.erasedAt D g))) ∨
      nextGood d (d.blocks - b) b = none ∧ ∃ s', eraseLoop s = some (.exit s') ∧ s'.log = s.log := by
  unfold eraseLoop
  rw [h.dev]
  exact eraseLoop_from h hlen (Nat.add_sub_cancel' hb) (by omega)

end Erase

/-! ## A pass -/

/-- A block's worth of bytes can be written there. -/
def Device.takes (d : Device) (off : ℕ) : Prop := off + d.erasesize ≤ d.mtdsize ∧ d.writeOk off = true

def State.written (s : State) : State :=
  { s with flash := program s.flash s.pos (read s.buf s.offset s.buflen), pos := s.pos + s.buflen,
           log := s.log ++ [.write s.pos s.buflen], w := s.w + s.buflen, buflen := 0, offset := 0 }

section Pass

variable {d : Device} {s : State}

theorem writeBlock_takes (hlen : s.buflen = s.dev.erasesize) (h : s.dev.takes s.pos) :
    writeBlock s = .next s.written := by
  have hpos := s.dev.erasesize_pos
  have hmin : min s.buflen (s.dev.mtdsize - s.pos) = s.buflen := by
    have := h.1
    omega
  unfold writeBlock writeOut Device.write
  rw [if_pos h.2, hmin]
  obtain ⟨n, hn⟩ := Nat.exists_eq_succ_of_ne_zero (hlen ▸ hpos.ne' : s.buflen ≠ 0)
  rw [State.written, hn]
  exact if_neg (Nat.lt_irrefl _)

theorem writeBlock_refused (hlen : s.buflen = s.dev.erasesize) (hdvd : s.dev.erasesize ∣ s.pos)
    (h : ¬ s.dev.takes s.pos) : writeBlock s = .done (.exited, s) := by
  have hpos := s.dev.erasesize_pos
  unfold writeBlock writeOut Device.write
  by_cases hok : s.dev.writeOk s.pos = true
  · have hend : s.dev.mtdsize ≤ s.pos := by
      obtain ⟨c, hc⟩ := hdvd
      have hlt : ¬ s.pos + s.dev.erasesize ≤ s.dev.mtdsize := fun hle => h ⟨hle, hok⟩
      rw [hc, Device.mtdsize, Nat.mul_comm _ c, ← Nat.succ_mul] at hlt
      rw [hc, Device.mtdsize, Nat.mul_comm _ c]
      refine Nat.mul_le_mul_right _ ?_
      by_contra hc'
      exact hlt (Nat.mul_le_mul_right _ (by omega))
    rw [if_pos hok, Nat.sub_eq_zero_of_le hend, Nat.min_zero]
    exact if_pos (hlen ▸ hpos)
  · rw [if_neg hok]

theorem Aligned.filled {s' : State} (h : Aligned d D b s) (hf : Filled rd s s') : Aligned d D b (padBlock s') := by
  rw [hf.pad.1]
  exact ⟨h.dev, h.next, h.e, h.pos, h.skipped, h.offset⟩

theorem Aligned.erasedAt_written {g : ℕ} (h : Aligned d D b s) (hlen : s.buflen = d.erasesize) (hg : b ≤ g) :
    Aligned d D (g + 1) (s.erasedAt D g).written := by
  have hw : s.w ≤ g * d.erasesize := by
    calc s.w ≤ s.w + s.skipBadBlocks := Nat.le_add_right ..
      _ = b * d.erasesize := h.skipped
      _ ≤ g * d.erasesize := Nat.mul_le_mul_right _ hg
  refine ⟨h.dev, h.next, ?_, ?_, ?_, rfl⟩
  · show (g + 1) * s.dev.erasesize = _
    rw [h.dev]
  · show D + g * s.dev.erasesize + s.buflen = _
    rw [h.dev, hlen, Nat.succ_mul, Nat.add_assoc]
  · show s.w + s.buflen + (g * s.dev.erasesize - s.w) = _
    rw [h.dev, hlen, Nat.succ_mul]
    omega

/-- What a pass does: it ends the call, or it exits, or it erases the next good block and fills it. -/
inductive PassOf (rd : Reader) (d : Device) (D b : ℕ) (s : State) : Pass State (Outcome × State) → Prop
  | finished {s' : State} (hf : Filled rd s s') (hempty : s'.buflen = 0) : PassOf rd d D b s (.done (.returned, s'))
  | worn {s' t : State} (hf : Filled rd s s') (hsome : 0 < s'.buflen) (hg : nextGood d (d.blocks - b) b = none)
      (hlog : t.log = s.log) : PassOf rd d D b s (.done (.exited, t))
  | refused {s' t : State} {g : ℕ} (hf : Filled rd s s') (hsome : 0 < s'.buflen)
      (hg : nextGood d (d.blocks - b) b = some g) (hno : ¬ d.takes (D + g * d.erasesize))
      (hlog : t.log = s.log ++ [.erase (g * d.erasesize)]) : PassOf rd d D b s (.done (.exited, t))
  | stored {s' : State} {g : ℕ} (hf : Filled rd s s') (hsome : 0 < s'.buflen)
      (hg : nextGood d (d.blocks - b) b = some g) (htakes : d.takes (D + g * d.erasesize)) :
      PassOf rd d D b s (.next ((padBlock s').erasedAt D g).written)

/-- **A pass of the main loop.** -/
theorem writePass_cases (rd : Reader) (h : Aligned d D b s) (hlen : s.buflen ≤ d.erasesize) (hb : b ≤ d.blocks)
    (hD : d.erasesize ∣ D) (partOffset : ℕ) :
    ∃ p, writePass rd false partOffset s = some p ∧ PassOf rd d D b s p := by
  obtain ⟨s', hfill, hf⟩ := fillBuffer_spec rd (show s.buflen ≤ s.dev.erasesize by rwa [h.dev])
  unfold writePass
  rw [hfill]
  dsimp only
  by_cases hempty : s'.buflen = 0
  · rw [if_pos hempty]
    exact ⟨_, rfl, .finished hf hempty⟩
  · rw [if_neg hempty, if_neg Bool.false_ne_true]
    have hsome := Nat.pos_of_ne_zero hempty
    have hdev' : (padBlock s').dev = d := by rw [hf.pad.1, h.dev]
    have hlen' : (padBlock s').buflen = d.erasesize := by rw [hf.pad.1, h.dev]
    have hlog : (padBlock s').log = s.log := by rw [hf.pad.1]
    rcases eraseLoop_spec (h.filled hf) hlen' hb with ⟨g, hg, herase⟩ | ⟨hg, t, herase, ht⟩
    · rw [herase]
      by_cases htakes : d.takes (D + g * d.erasesize)
      · refine ⟨_, congrArg some (writeBlock_takes ?_ ?_), .stored hf hsome hg htakes⟩
        · exact hlen'.trans (congrArg Device.erasesize hdev'.symm)
        · show (padBlock s').dev.takes (D + g * (padBlock s').dev.erasesize)
          rwa [hdev']
      · refine ⟨_, congrArg some (writeBlock_refused ?_ ?_ ?_), .refused hf hsome hg htakes ?_⟩
        · exact hlen'.trans (congrArg Device.erasesize hdev'.symm)
        · show (padBlock s').dev.erasesize ∣ D + g * (padBlock s').dev.erasesize
          rw [hdev']
          exact Nat.dvd_add hD (Nat.dvd_mul_left ..)
        · show ¬ (padBlock s').dev.takes (D + g * (padBlock s').dev.erasesize)
          rwa [hdev']
        · show (padBlock s').log ++ [.erase (g * (padBlock s').dev.erasesize)] = _
          rw [hlog, hdev']
    · rw [herase]
      exact ⟨_, rfl, .worn hf hsome hg (ht.trans hlog)⟩

end Pass

/-! ## The good blocks -/

def Device.goodBelow (d : Device) (b : ℕ) : List ℕ :=
  (List.range b).filter fun g => mtdBlockIsBad d (g * d.erasesize) = some false

def Device.good (d : Device) : List ℕ := d.goodBelow d.blocks

def piece (d : Device) (image : List UInt8) (k : ℕ) : List UInt8 :=
  let bytes := (image.drop (k * d.erasesize)).take d.erasesize
  bytes ++ List.replicate (d.erasesize - bytes.length) 0xff

def pieces (d : Device) (image : List UInt8) : ℕ := (image.length + d.erasesize - 1) / d.erasesize

section Good

variable {d : Device}

theorem goodBelow_succ_bad (h : mtdBlockIsBad d (b * d.erasesize) = some true) :
    d.goodBelow (b + 1) = d.goodBelow b := by
  rw [Device.goodBelow, List.range_succ, List.filter_append, List.filter_singleton, h]
  exact List.append_nil _

theorem goodBelow_succ_good (h : mtdBlockIsBad d (b * d.erasesize) = some false) :
    d.goodBelow (b + 1) = d.goodBelow b ++ [b] := by
  rw [Device.goodBelow, List.range_succ, List.filter_append, List.filter_singleton, h]
  rfl

theorem goodBelow_prefix (h : b ≤ d.blocks) : d.goodBelow b <+: d.good := by
  obtain ⟨c, hc⟩ := Nat.exists_eq_add_of_le h
  rw [Device.good, Device.goodBelow, Device.goodBelow, hc, List.range_add, List.filter_append]
  exact List.prefix_append ..

theorem lt_of_mem_goodBelow (h : g ∈ d.goodBelow b) : g < b :=
  List.mem_range.mp (List.mem_of_mem_filter h)

theorem nextGood_spec (h : nextGood d n b = some g) :
    b ≤ g ∧ g < b + n ∧ d.goodBelow (g + 1) = d.goodBelow b ++ [g] := by
  induction n generalizing b with
  | zero => cases h
  | succ n ih =>
    rw [nextGood] at h
    cases hbad : mtdBlockIsBad d (b * d.erasesize) with
    | none =>
      rw [hbad] at h
      cases h
    | some bad =>
      rw [hbad] at h
      cases bad with
      | true =>
        obtain ⟨hle, hlt, hgood⟩ := ih h
        rw [goodBelow_succ_bad hbad] at hgood
        exact ⟨by omega, by omega, hgood⟩
      | false =>
        by_cases herase : d.eraseOk b = true
        · rw [show _ = some b from if_pos herase] at h
          cases h
          exact ⟨Nat.le_refl _, by omega, goodBelow_succ_good hbad⟩
        · rw [show _ = none from if_neg herase] at h
          cases h

end Good

section Flash

variable {a : ℕ} {bs : List UInt8}

theorem read_program_erased (h : bs.length = n) : read (program (memset flash a n 0xff) a bs) a n = bs := by
  refine List.ext_getElem (by rw [length_read, h]) fun i hi hi' => ?_
  have hmem : a ≤ a + i ∧ a + i < a + bs.length := by omega
  simp only [ByteMem.read, List.getElem_map, List.getElem_range, program]
  rw [if_pos hmem, memset_apply_mem (by omega) (by omega), Nat.add_sub_cancel_left, List.getD_eq_getElem _ _ (by omega)]
  exact UInt8.toNat_inj.mp (by rw [UInt8.toNat_and, Nat.and_comm]; exact Nat.and_two_pow_sub_one_of_lt_two_pow (UInt8.toNat_lt _))

theorem program_memset_of_not {k : ℕ} (h : bs.length = n) (hk : k < a ∨ a + n ≤ k) :
    program (memset flash a n 0xff) a bs k = flash k := by
  rw [program, if_neg (by omega), memset_apply_of_not hk]

end Flash

/-! ## The image -/

/-- After `k` pieces, with `e` at block `b`. -/
structure Landed (d : Device) (flash : Mem) (image : List UInt8) (k b : ℕ) (s : State) : Prop where
  aligned : Aligned d 0 b s
  le : b ≤ d.blocks
  count : (d.goodBelow b).length = k
  unread : read s.buf 0 s.buflen ++ s.rest = image.drop (k * d.erasesize)
  buflen_le : s.buflen ≤ d.erasesize
  needed : k * d.erasesize < image.length + d.erasesize
  holds : ∀ i g, (d.goodBelow b)[i]? = some g → read s.flash (g * d.erasesize) d.erasesize = piece d image i
  frame : ∀ a, a / d.erasesize ∉ d.goodBelow b → s.flash a = flash a

section Land

variable {d : Device} {image : List UInt8} {k : ℕ} {s s' : State}

theorem Landed.start {buf : Mem} {buflen : ℕ} (hlen : buflen ≤ d.erasesize) (hbuf : read buf 0 buflen <+: image) :
    Landed d flash image 0 0 (start 0 d flash [] buf buflen (image.drop buflen)) := by
  have hes := d.erasesize_pos
  have hzero : 0 = 0 * d.erasesize := (Nat.zero_mul _).symm
  refine ⟨⟨rfl, rfl, hzero, ?_, hzero, rfl⟩, Nat.zero_le _, rfl, ?_, hlen, by omega, (fun _ _ hi => by cases hi),
    fun _ _ => rfl⟩
  · rw [← hzero]
    rfl
  have htake := List.prefix_iff_eq_take.mp hbuf
  rw [length_read] at htake
  rw [Nat.zero_mul, List.drop_zero]
  show read buf 0 buflen ++ image.drop buflen = image
  rw [htake, List.take_append_drop]

theorem outside_of_div_ne {a n : ℕ} (h : a / n ≠ g) : a < g * n ∨ g * n + n ≤ a := by
  by_contra hin
  exact h (Nat.div_eq_of_lt_le (by omega) (by rw [Nat.succ_mul]; omega))

theorem Landed.bytes (h : Landed d flash image k b s) (hreads : ∀ n, rd.fails n = false) (hf : Filled rd s s') :
    (image.drop (k * d.erasesize)).take d.erasesize = read s'.buf 0 s'.buflen ∧
      image.drop ((k + 1) * d.erasesize) = s'.rest := by
  have hbytes := hf.bytes
  have hle := hf.buflen_le
  have hfull := hf.full hreads
  rw [h.aligned.dev] at hle hfull
  rw [Nat.succ_mul, ← List.drop_drop, ← h.unread, ← hbytes]
  have hlen : (read s'.buf 0 s'.buflen).length = s'.buflen := length_read ..
  rcases hfull with hfull | hrest
  · exact ⟨List.take_left' (hlen.trans hfull), List.drop_left' (hlen.trans hfull)⟩
  · rw [hrest, List.append_nil]
    exact ⟨List.take_of_length_le (hlen.trans_le hle), List.drop_of_length_le (hlen.trans_le hle)⟩

theorem Landed.piece_eq (h : Landed d flash image k b s) (hreads : ∀ n, rd.fails n = false) (hf : Filled rd s s') :
    read (padBlock s').buf 0 d.erasesize = piece d image k := by
  have hpad := hf.pad.2
  rw [h.aligned.dev] at hpad
  rw [hpad, piece, (h.bytes hreads hf).1, length_read]

theorem length_piece (d : Device) (image : List UInt8) (k : ℕ) : (piece d image k).length = d.erasesize := by
  rw [piece, List.length_append, List.length_replicate]
  exact Nat.add_sub_cancel' (List.length_take_le ..)

variable (h : Landed d flash image k b s)

include h

variable (hreads : ∀ n, rd.fails n = false)

include hreads

theorem Landed.flash_eq (hf : Filled rd s s') :
    ((padBlock s').erasedAt 0 g).written.flash =
      program (memset s.flash (g * d.erasesize) d.erasesize 0xff) (g * d.erasesize) (piece d image k) := by
  have hdev : (padBlock s').dev = d := by rw [hf.pad.1, h.aligned.dev]
  have hlen : (padBlock s').buflen = d.erasesize := by rw [hf.pad.1, h.aligned.dev]
  have hflash : (padBlock s').flash = s.flash := by rw [hf.pad.1]
  rw [← h.piece_eq hreads hf, State.written, State.erasedAt]
  rw [hdev, hlen, hflash, (h.aligned.filled hf).offset, Nat.zero_add]

theorem Landed.stored (hf : Filled rd s s')
    (hsome : 0 < s'.buflen) (hg : nextGood d (d.blocks - b) b = some g) :
    Landed d flash image (k + 1) (g + 1) ((padBlock s').erasedAt 0 g).written := by
  obtain ⟨hbg, hlt, hgood⟩ := nextGood_spec hg
  have hlen : (padBlock s').buflen = d.erasesize := by rw [hf.pad.1, h.aligned.dev]
  have hrest : (padBlock s').rest = s'.rest := by rw [hf.pad.1]
  have hflash : ((padBlock s').erasedAt 0 g).written.flash = _ := h.flash_eq hreads hf
  refine ⟨(h.aligned.filled hf).erasedAt_written hlen hbg, by omega, ?_, ?_, Nat.zero_le _, ?_, ?_, ?_⟩
  · rw [hgood, List.length_append, h.count, List.length_singleton]
  · show read _ 0 0 ++ (padBlock s').rest = _
    rw [hrest, (h.bytes hreads hf).2, read_zero, List.nil_append]
  · -- A piece is only written while some of the image is left.
    have hleft : 0 < (image.drop (k * d.erasesize)).length := by
      rw [← h.unread, ← hf.bytes, List.length_append, length_read]
      omega
    rw [List.length_drop] at hleft
    rw [Nat.succ_mul]
    omega
  · intro i g' hi
    rw [hgood] at hi
    rw [hflash]
    by_cases hlast : i < k
    · rw [List.getElem?_append_left (h.count.symm ▸ hlast)] at hi
      have hg' := lt_of_mem_goodBelow (List.mem_of_getElem? hi)
      have hsep : g' * d.erasesize + d.erasesize ≤ g * d.erasesize := by
        rw [← Nat.succ_mul]
        exact Nat.mul_le_mul_right _ (by omega)
      rw [← h.holds i g' hi]
      exact read_congr fun a _ ha => program_memset_of_not (length_piece ..) (.inl (by omega))
    · rw [List.getElem?_append_right (h.count.symm ▸ Nat.le_of_not_lt hlast), h.count,
        List.getElem?_singleton] at hi
      split at hi
      · cases hi
        rw [show i = k by omega]
        exact read_program_erased (length_piece ..)
      · cases hi
  · intro a ha
    rw [hgood, List.mem_append, not_or, List.mem_singleton] at ha
    rw [hflash, program_memset_of_not (length_piece ..) (outside_of_div_ne ha.2)]
    exact h.frame a ha.1

theorem Landed.pieces_eq (hf : Filled rd s s')
    (hempty : s'.buflen = 0) : pieces d image = k := by
  have hes := d.erasesize_pos
  have hneeded := h.needed
  have hrest : s'.rest = [] := by
    have := hf.full hreads
    rw [h.aligned.dev] at this
    exact this.resolve_left (by omega)
  have hdone : image.length ≤ k * d.erasesize := by
    have := h.unread
    rw [← hf.bytes, hempty, read_zero, hrest, List.nil_append] at this
    exact List.drop_eq_nil_iff.mp this.symm
  exact Nat.div_eq_of_lt_le (by omega) (by rw [Nat.succ_mul]; omega)

end Land

/-- **The image lands on the good blocks.** Without an offset and with erasing, the call ends, and if it returns, the
`k`-th good block holds the `k`-th piece of the image and all else is as before. -/
theorem mtdWrite_good_blocks {rd : Reader} (hreads : ∀ n, rd.fails n = false) (d : Device) (flash buf : Mem)
    (image : List UInt8) {buflen : ℕ} (hlen : buflen ≤ d.erasesize) (hbuf : read buf 0 buflen <+: image) :
    ∃ out s, mtdWrite rd false 0 d flash [] buf buflen (image.drop buflen) = some (out, s) ∧
      (out = .returned →
        pieces d image ≤ d.good.length ∧
        (∀ k g, k < pieces d image → d.good[k]? = some g →
          read s.flash (g * d.erasesize) d.erasesize = piece d image k) ∧
        ∀ a, a / d.erasesize ∉ d.good.take (pieces d image) → s.flash a = flash a) := by
  obtain ⟨r, hr, hpost⟩ : ∃ r, mtdWrite rd false 0 d flash [] buf buflen (image.drop buflen) = some r ∧
      (r.1 = .returned → ∃ k b s, Landed d flash image k b s ∧ pieces d image = k ∧ r.2.flash = s.flash) := by
    refine loop_of_variant (fun n s => (∃ k b, Landed d flash image k b s) ∧ n = s.rest.length + s.buflen)
      (fun r : Outcome × State => r.1 = .returned → ∃ k b s, Landed d flash image k b s ∧ pieces d image = k ∧ r.2.flash = s.flash)
      ?_ ⟨⟨0, 0, .start hlen hbuf⟩, rfl⟩ (Nat.lt_succ_self _)
    rintro n s ⟨⟨k, b, h⟩, rfl⟩
    obtain ⟨p, hp, hcases⟩ := writePass_cases rd h.aligned h.buflen_le h.le (Nat.dvd_zero _) 0
    rw [hp]
    cases hcases with
    | @finished s' hf hempty =>
      refine .inr ⟨_, rfl, fun _ => ⟨k, b, s, h, h.pieces_eq hreads hf hempty, ?_⟩⟩
      rw [hf.frame]
    | worn _ _ _ _ => exact .inr ⟨_, rfl, fun hret => nomatch hret⟩
    | refused _ _ _ _ _ => exact .inr ⟨_, rfl, fun hret => nomatch hret⟩
    | @stored s' g hf hsome hg _ =>
      refine .inl ⟨_, _, rfl, ⟨⟨k + 1, g + 1, h.stored hreads hf hsome hg⟩, rfl⟩, ?_⟩
      have hrest : (padBlock s').rest = s'.rest := by rw [hf.pad.1]
      have hlen' := hf.length_eq
      show (padBlock s').rest.length + 0 < _
      rw [hrest]
      omega
  refine ⟨r.1, r.2, hr, fun hret => ?_⟩
  obtain ⟨k, b, s, h, hk, hflash⟩ := hpost hret
  obtain ⟨tail, htail⟩ := goodBelow_prefix h.le
  rw [hk, hflash, ← htail]
  refine ⟨?_, fun i g hi hg => h.holds i g ?_, fun a ha => h.frame a ?_⟩
  · rw [List.length_append, h.count]
    exact Nat.le_add_right ..
  · rwa [List.getElem?_append_left (h.count.symm ▸ hi)] at hg
  · rwa [List.take_left' h.count] at ha

def badSecond : Device :=
  { nand := true, erasesize := 4, blocks := 3, bad := fun b => some (b == 1), eraseOk := fun _ => true,
    writeOk := fun _ => true, erasesize_pos := by decide, size_lt := by decide }

def byteReader : Reader := ⟨fun _ => 1, fun _ => false⟩

/-- Six bytes, two of them in the buffer before, around a bad block. -/
theorem mtdWrite_good_blocks_around_bad :
    ∃ s, mtdWrite byteReader false 0 badSecond (fun _ => 0) [] (ofList [1, 2]) 2 [3, 4, 5, 6] = some (.returned, s) ∧
      badSecond.good = [0, 2] ∧ read s.flash 0 4 = [1, 2, 3, 4] ∧ read s.flash 8 4 = [5, 6, 0xff, 0xff] ∧
      s.flash 4 = 0 := by
  obtain ⟨out, s, hrun, hspec⟩ := mtdWrite_good_blocks (show ∀ n, byteReader.fails n = false from fun _ => rfl) badSecond (fun _ => 0)
    (ofList [1, 2]) [1, 2, 3, 4, 5, 6] (show 2 ≤ badSecond.erasesize by decide) (by decide)
  have hout : out = .returned := by
    have hret : (mtdWrite byteReader false 0 badSecond (fun _ => 0) [] (ofList [1, 2]) 2 [3, 4, 5, 6]).map
        Prod.fst = some .returned := by decide
    exact Option.some.inj ((congrArg (Option.map Prod.fst) hrun).symm.trans hret)
  subst hout
  obtain ⟨-, hholds, hframe⟩ := hspec rfl
  exact ⟨s, hrun, by decide, hholds 0 0 (by decide) (by decide), hholds 1 2 (by decide) (by decide),
    hframe 4 (by decide)⟩

end NasFirmware.Mtd
