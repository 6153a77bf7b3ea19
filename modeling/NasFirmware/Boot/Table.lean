import NasFirmware.Boot.Verified

/-!
# The firmware table and the images read by it

The entries are converted in one function, as many as the first partition counts, and used in another, as many as the
list's length allows.

* **`prepare_own_entries`**: the checksum covers the page that was read and every image is read at the flash offset of
  its entry, if the lists fit into the page and every entry that is loaded is counted; and only then, if all are loaded.
-/

namespace NasFirmware.Boot

open ByteMem

section Rebase

variable (start : ℕ) {F U : ℕ}

def InOffset (F U j x : ℕ) : Prop := F + U * j + 10 ≤ x ∧ x < F + U * j + 14

theorem not_inOffset {j j' x : ℕ} (hU : 32 ≤ U) (hne : j ≠ j') (hx : F + U * j ≤ x ∧ x < F + U * j + 32) :
    ¬ InOffset F U j' x := by
  rintro ⟨h1, h2⟩
  rcases lt_or_gt_of_ne hne with hlt | hgt
  · have := Nat.mul_le_mul_left U hlt
    rw [Nat.mul_succ] at this
    omega
  · have := Nat.mul_le_mul_left U hgt
    rw [Nat.mul_succ] at this
    omega

theorem rebase_spec (hU : 32 ≤ U) (hF : F + U * 256 ≤ 2 ^ 32) (hcount : tableBase + 42 < F + 10) :
    ∀ {k i : ℕ} {m : Mem}, i + k = 256 →
      (∀ x, (∀ j, i ≤ j → j < fwCount m → ¬ InOffset F U j x) → rebase start F U k i m x = m x) ∧
      ∀ j, i ≤ j → j < fwCount m →
        load32 (rebase start F U k i m) (F + U * j + 10) = (load32 m (F + U * j + 10) + 2 ^ 32 - start) % 2 ^ 32 := by
  intro k
  induction k with
  | zero =>
    intro i m hi
    have hlt : fwCount m < 256 := UInt8.toNat_lt _
    exact ⟨fun x _ => rfl, fun j hij hj => by omega⟩
  | succ k ih =>
    intro i m hi
    rw [rebase]
    split_ifs with hcounted
    · have hmul : U * i + U ≤ U * 256 := by
        rw [← Nat.mul_succ]
        exact Nat.mul_le_mul_left U (by omega)
      have haddr : (F + U * i) % 2 ^ 32 = F + U * i := Nat.mod_eq_of_lt (by omega)
      rw [haddr]
      dsimp only
      obtain ⟨v, hv⟩ : ∃ v, v = (load32 m (F + U * i + 10) + 2 ^ 32 - start) % 2 ^ 32 := ⟨_, rfl⟩
      rw [← hv]
      -- the count lies before every offset
      have hkeep : fwCount (write m (F + U * i + 10) (store32 v)) = fwCount m := by
        rw [fwCount, write_apply_lt (by omega), fwCount]
      have hother : ∀ x, ¬ InOffset F U i x → write m (F + U * i + 10) (store32 v) x = m x := fun x hx =>
        if_neg fun h => hx ⟨h.1, h.2⟩
      obtain ⟨hframe, hload⟩ := ih (i := i + 1) (m := write m (F + U * i + 10) (store32 v)) (by omega)
      rw [hkeep] at hframe hload
      refine ⟨fun x hx => ?_, fun j hij hj => ?_⟩
      · rw [hframe x fun j hij hj => hx j (by omega) hj, hother x (hx i le_rfl hcounted)]
      · rcases hij.eq_or_lt with rfl | hlt
        · have hfield : load32 (rebase start F U k (i + 1) (write m (F + U * i + 10) (store32 v))) (F + U * i + 10)
              = load32 (write m (F + U * i + 10) (store32 v)) (F + U * i + 10) :=
            load32_congr fun x h1 h2 => hframe x fun j hij _ =>
              not_inOffset hU (Nat.ne_of_lt hij) ⟨by omega, by omega⟩
          rw [hfield, ← hv]
          exact load32_of_read (hv ▸ Nat.mod_lt _ (by decide)) (read_write_self m _ (store32 v))
        · rw [hload j hlt hj]
          congr 2
          exact congrArg (· + 2 ^ 32) (load32_congr fun x h1 h2 => hother x
            (not_inOffset hU (Nat.ne_of_gt hlt) ⟨by omega, by omega⟩))
    · exact ⟨fun x _ => rfl, fun j hij hj => by omega⟩

theorem rebase_entry (hU : 32 ≤ U) (hF : F + U * 256 ≤ 2 ^ 32) (hcount : tableBase + 42 < F + 10) {m : Mem} (j : ℕ) :
    entryAt (rebase start F U 256 0 m) (F + U * j) =
      { entryAt m (F + U * j) with
        offset := if j < fwCount m then (load32 m (F + U * j + 10) + 2 ^ 32 - start) % 2 ^ 32
          else load32 m (F + U * j + 10) } := by
  obtain ⟨hframe, hload⟩ := rebase_spec start hU hF hcount (k := 256) (i := 0) (m := m) (Nat.zero_add _)
  have hsame : ∀ x, F + U * j ≤ x ∧ x < F + U * j + 32 → ¬ InOffset F U j x →
      rebase start F U 256 0 m x = m x := fun x hx hnot => hframe x fun j' _ _ => by
    by_cases hj : j = j'
    · exact hj ▸ hnot
    · exact not_inOffset hU hj hx
  have hword : ∀ o, o + 4 ≤ 32 → (o + 4 ≤ 10 ∨ 14 ≤ o) →
      load32 (rebase start F U 256 0 m) (F + U * j + o) = load32 m (F + U * j + o) := fun o h1 h2 =>
    load32_congr fun x hx hlt => hsame x ⟨by omega, by omega⟩ fun h => by
      obtain ⟨h3, h4⟩ := h
      omega
  have hbyte : ∀ o, o < 10 → rebase start F U 256 0 m (F + U * j + o) = m (F + U * j + o) := fun o ho =>
    hsame _ ⟨by omega, by omega⟩ fun h => by
      obtain ⟨h3, _⟩ := h
      omega
  have hoffset : load32 (rebase start F U 256 0 m) (F + U * j + 10) =
      if j < fwCount m then (load32 m (F + U * j + 10) + 2 ^ 32 - start) % 2 ^ 32 else load32 m (F + U * j + 10) := by
    split_ifs with hj
    · exact hload j (Nat.zero_le j) hj
    · refine load32_congr fun x hx hlt => hframe x fun j' _ hj' => ?_
      have hne : j ≠ j' := fun heq => hj (heq ▸ hj')
      exact not_inOffset hU hne ⟨by omega, by omega⟩
  have h0 := hbyte 0 (by decide)
  have h1 := hbyte 1 (by decide)
  unfold entryAt
  rw [← hoffset, hword 6 (by decide) (by decide), hword 14 (by decide) (by decide), hword 22 (by decide) (by decide), h1]
  rw [Nat.add_zero] at h0
  rw [h0]

end Rebase

/-! ## Loading, apart from the table -/

/-- The entry with the target that is used: a device tree's is put right. -/
def Entry.fixed (e : Entry) : Entry :=
  if e.type.isDt then { e with targetAddr := rtkPlatGetDtbTargetAddress e.targetAddr } else e

def Selected (env : Env) (e : Entry) : Prop := e.targetAddr ≠ 0 ∧ wanted env.bootMode env.nasRescue e.type = true

instance {env : Env} {e : Entry} : Decidable (Selected env e) := inferInstanceAs (Decidable (_ ∧ _))

def flashDest (env : Env) (e : Entry) : ℕ :=
  if (e.type.isFw && e.lzma) = true ∧ env.secureMode = .none then compressedFwImageAddr else e.targetAddr &&& 0x1fffffff

/-- The addresses that loading an image can write to: where it is read, and where it is unpacked. -/
def Touches (env : Env) (e : Entry) (x : ℕ) : Prop :=
  (flashDest env e ≤ x ∧ x < flashDest env e + pageAligned env.page e.length) ∨
    (e.type.isFw && e.lzma) = true ∧ ∃ src out, env.lzma src = some out ∧
      e.targetAddr &&& 0x1fffffff ≤ x ∧ x < (e.targetAddr &&& 0x1fffffff) + out.length

/-- A read from the flash gives as many bytes as were asked for. -/
structure Env.Sound (env : Env) : Prop where
  nandRead : ∀ off n bs, env.nandRead off n = some bs → bs.length = n
  nandReadOnTheFly : ∀ off n bs, env.nandReadOnTheFly off n = some bs → bs.length = n

section Frame

variable {env : Env} {a i x : ℕ} {e : Entry} {s : State}

theorem layoutFor_dest {m : MemLayout} (htarget : e.targetAddr &&& 0x1fffffff ≠ 0) :
    (layoutFor env e m).flashToRamAddr = flashDest env e ∧
      (layoutFor env e m).isCompressed = (e.type.isFw && e.lzma) ∧
      ((layoutFor env e m).isCompressed = true →
        (layoutFor env e m).decompressedAddr = e.targetAddr &&& 0x1fffffff) := by
  unfold layoutFor getMemLayoutWhenReadImage flashDest
  rw [if_neg htarget]
  cases hsecure : env.secureMode with
  | none =>
    simp only [ne_eq, not_true_eq_false, decide_false, Bool.and_false, Bool.false_eq_true, if_false, and_true]
    split_ifs with hc
    · exact ⟨rfl, rfl, fun _ => rfl⟩
    · exact ⟨rfl, rfl, fun h => absurd h hc⟩
  | rtk =>
    cases hfw : e.type.isFw <;> cases hlzma : e.lzma <;> simp

theorem unpackImage_frame {l : Load} :
    (unpackImage env l s).2.reads = s.reads ∧
      ((∀ src out, s.layout.isCompressed = true → env.lzma src = some out →
        ¬ (s.layout.decompressedAddr ≤ x ∧ x < s.layout.decompressedAddr + out.length)) →
      (unpackImage env l s).2.ram x = s.ram x) := by
  unfold unpackImage
  by_cases hc : s.layout.isCompressed
  · rw [if_pos hc]
    dsimp only
    cases hout : env.lzma (read s.ram s.layout.compressedAddr l.entry.length) with
    | none => exact ⟨rfl, fun _ => rfl⟩
    | some out => exact ⟨rfl, fun h => if_neg (h _ out hc hout)⟩
  · rw [if_neg hc]
    exact ⟨rfl, fun _ => rfl⟩

theorem checkImage_frame :
    (checkImage env a i e s).2.reads = s.reads ∧
      ((∀ src out, s.layout.isCompressed = true → env.lzma src = some out →
        ¬ (s.layout.decompressedAddr ≤ x ∧ x < s.layout.decompressedAddr + out.length)) →
      (checkImage env a i e s).2.ram x = s.ram x) := by
  unfold checkImage
  dsimp only
  generalize (if s.layout.isEncrypted = true ∧ env.secureMode = .rtk then
    some (hashedPart s.ram s.layout.flashToRamAddr (entryAt s.ram a).length) else none) = hashed
  split_ifs
  · exact ⟨rfl, fun _ => rfl⟩
  · exact ⟨rfl, fun _ => rfl⟩
  · exact unpackImage_frame

theorem readImage_frame (henv : env.Sound) (htarget : (entryAt s.ram a).targetAddr &&& 0x1fffffff ≠ 0) :
    (readImage env a i s).2.reads = s.reads ++ [(i, (env.start + (entryAt s.ram a).offset) % 2 ^ 32)] ∧
      (¬ Touches env (entryAt s.ram a) x → (readImage env a i s).2.ram x = s.ram x) := by
  obtain ⟨hflash, hc, hdest⟩ := @layoutFor_dest env (entryAt s.ram a) s.layout htarget
  unfold readImage
  dsimp only
  split
  · exact ⟨rfl, fun _ => rfl⟩
  next bs hbs =>
    have hlen : bs.length = pageAligned env.page (entryAt s.ram a).length := by
      split_ifs at hbs
      · exact henv.nandReadOnTheFly _ _ _ hbs
      · exact henv.nandRead _ _ _ hbs
    refine ⟨(checkImage_frame (x := x)).1, fun hx => (checkImage_frame.2 fun src out hcomp hout hin => ?_).trans ?_⟩
    · refine hx (.inr ⟨hc ▸ hcomp, src, out, hout, ?_⟩)
      rwa [← hdest hcomp]
    · refine if_neg fun hin => hx (.inl ?_)
      rwa [hflash, hlen] at hin

theorem entryAt_fixed {m : Mem} (hdt : (entryAt m a).type.isDt = true) :
    entryAt (write m (a + 6) (store32 (rtkPlatGetDtbTargetAddress (entryAt m a).targetAddr))) a
      = (entryAt m a).fixed := by
  obtain ⟨v, hv⟩ : ∃ v, v = rtkPlatGetDtbTargetAddress (entryAt m a).targetAddr := ⟨_, rfl⟩
  have hlt : v < 2 ^ 32 := by
    rw [hv, rtkPlatGetDtbTargetAddress]
    split_ifs <;> omega
  rw [Entry.fixed, if_pos hdt, ← hv]
  have hother : ∀ x, x < a + 6 ∨ a + 10 ≤ x → write m (a + 6) (store32 v) x = m x := fun x hx =>
    write_apply_of_not (by rw [length_store32]; omega)
  have hword : ∀ o, 10 ≤ o → load32 (write m (a + 6) (store32 v)) (a + o) = load32 m (a + o) := fun o ho =>
    load32_congr fun x hx _ => hother x (by omega)
  have htarget : load32 (write m (a + 6) (store32 v)) (a + 6) = v :=
    load32_of_read hlt (read_write_self m (a + 6) (store32 v))
  unfold entryAt
  rw [hother a (by omega), hother (a + 1) (by omega), htarget, hword 10 (by decide), hword 14 (by decide),
    hword 22 (by decide)]

theorem loadEntry_skip (h : ¬ Selected env (entryAt s.ram a)) : loadEntry env a i s = (none, s) := by
  unfold loadEntry
  dsimp only
  split_ifs with h1 h2
  · rfl
  · rfl
  · exact absurd ⟨h1, eq_true_of_ne_false h2⟩ h
  · exact absurd ⟨h1, eq_true_of_ne_false h2⟩ h

theorem loadEntry_frame (henv : env.Sound) (h : Selected env (entryAt s.ram a))
    (htarget : (entryAt s.ram a).fixed.targetAddr &&& 0x1fffffff ≠ 0) :
    (loadEntry env a i s).2.reads = s.reads ++ [(i, (env.start + (entryAt s.ram a).offset) % 2 ^ 32)] ∧
      (a + 10 ≤ x → ¬ Touches env (entryAt s.ram a).fixed x → (loadEntry env a i s).2.ram x = s.ram x) := by
  unfold loadEntry
  rw [if_neg h.1, if_neg (by rw [h.2]; decide)]
  split_ifs with hdt
  · have hfixed := entryAt_fixed hdt
    obtain ⟨hreads, hram⟩ := readImage_frame (i := i) (x := x) henv
      (s := { s with ram := write s.ram (a + 6) (store32 (rtkPlatGetDtbTargetAddress (entryAt s.ram a).targetAddr)) })
      (by rwa [hfixed])
    rw [hfixed] at hreads hram
    refine ⟨?_, fun hx htouch => (hram htouch).trans (write_apply_ge hx)⟩
    rw [hreads, Entry.fixed, if_pos hdt]
  · rw [Entry.fixed, if_neg hdt] at htarget ⊢
    obtain ⟨hreads, hram⟩ := readImage_frame (i := i) (x := x) henv htarget
    exact ⟨hreads, fun _ => hram⟩

end Frame

/-- Every image that is loaded has a target, and is loaded and unpacked outside the list of entries. -/
def Apart (env : Env) (m : Mem) (F U num : ℕ) : Prop :=
  ∀ j < num, Selected env (entryAt m (F + U * j)) →
    (entryAt m (F + U * j)).fixed.targetAddr &&& 0x1fffffff ≠ 0 ∧
      ∀ x, F ≤ x → x < F + U * num → ¬ Touches env (entryAt m (F + U * j)).fixed x

def readOf (env : Env) (m : Mem) (F U j : ℕ) : ℕ × ℕ := (j, (env.start + (entryAt m (F + U * j)).offset) % 2 ^ 32)

theorem loadLoop_reads {env : Env} {m : Mem} {F U num : ℕ} (henv : env.Sound) (hU : 32 ≤ U) (hF : F + U * num ≤ 2 ^ 32)
    (hapart : Apart env m F U num) : ∀ {k i : ℕ} {s : State}, i + k = num →
    (∀ x, F + U * i ≤ x → x < F + U * num → s.ram x = m x) →
    (∀ q ∈ (loadLoop env F U k i s).2.reads, q ∈ s.reads ∨
      ∃ j < num, Selected env (entryAt m (F + U * j)) ∧ q = readOf env m F U j) ∧
    (∀ q ∈ s.reads, q ∈ (loadLoop env F U k i s).2.reads) ∧
    ((loadLoop env F U k i s).1 = none → ∀ j, i ≤ j → j < num → Selected env (entryAt m (F + U * j)) →
      readOf env m F U j ∈ (loadLoop env F U k i s).2.reads) := by
  intro k
  induction k with
  | zero => exact fun hi _ => ⟨fun q hq => .inl hq, fun q hq => hq, fun _ j h1 h2 => by omega⟩
  | succ k ih =>
    intro i s hi hram
    have hnext : U * (i + 1) ≤ U * num := Nat.mul_le_mul_left _ (by omega)
    rw [Nat.mul_succ] at hnext
    have haddr : (F + U * i) % 2 ^ 32 = F + U * i := Nat.mod_eq_of_lt (by omega)
    have hentry : entryAt s.ram (F + U * i) = entryAt m (F + U * i) :=
      entryAt_congr fun x hx hlt => hram x hx (by omega)
    rw [loadLoop, haddr]
    by_cases hsel : Selected env (entryAt m (F + U * i))
    · obtain ⟨htarget, htouch⟩ := hapart i (by omega) hsel
      have hframe := fun x => loadEntry_frame (i := i) (x := x) henv (hentry ▸ hsel) (hentry ▸ htarget)
      have hreads : (loadEntry env (F + U * i) i s).2.reads = s.reads ++ [readOf env m F U i] := by
        rw [(hframe 0).1, hentry, readOf]
      -- the entries behind this one are not touched
      have hram' : ∀ x, F + U * (i + 1) ≤ x → x < F + U * num → (loadEntry env (F + U * i) i s).2.ram x = m x :=
        fun x hx hlt => by
          rw [Nat.mul_succ] at hx
          rw [(hframe x).2 (by omega) (by rw [hentry]; exact htouch x (by omega) hlt)]
          exact hram x (by omega) hlt
      cases hres : loadEntry env (F + U * i) i s with
      | mk err s' =>
        rw [hres] at hreads hram'
        cases err with
        | some err =>
          rw [hreads]
          refine ⟨fun q hq => ?_, fun q hq => List.mem_append_left _ hq, by rintro ⟨⟩⟩
          refine (List.mem_append.mp hq).imp_right fun hq => ?_
          exact ⟨i, by omega, hsel, List.mem_singleton.mp hq⟩
        | none =>
          obtain ⟨h1, h2, h3⟩ := ih (i := i + 1) (s := s') (by omega) hram'
          rw [hreads] at h1 h2
          refine ⟨fun q hq => ?_, fun q hq => h2 q (List.mem_append_left _ hq), fun hok j hij hj hjsel => ?_⟩
          · rcases h1 q hq with hq | hq
            · refine (List.mem_append.mp hq).imp_right fun hq => ?_
              exact ⟨i, by omega, hsel, List.mem_singleton.mp hq⟩
            · exact .inr hq
          · rcases hij.eq_or_lt with rfl | hlt
            · exact h2 _ (List.mem_append_right _ (List.mem_singleton.mpr rfl))
            · exact h3 hok j hlt hj hjsel
    · rw [loadEntry_skip (hentry ▸ hsel)]
      obtain ⟨h1, h2, h3⟩ := ih (i := i + 1) (s := s) (by omega) fun x hx hlt => by
        rw [Nat.mul_succ] at hx
        exact hram x (by omega) hlt
      refine ⟨h1, h2, fun hok j hij hj hjsel => ?_⟩
      rcases hij.eq_or_lt with rfl | hlt
      · exact absurd hjsel hsel
      · exact h3 hok j hlt hj hjsel

/-! ## The table -/

section Table

variable {env : Env} {ram : Mem} {t : Table}

theorem accept_inv (h : accept env ram = .ok t) :
    unitLen t.header.version = some t.unit ∧ t.header.partListLen ≠ 0 := by
  unfold accept at h
  split at h
  · cases h
  dsimp only at h
  split_ifs at h with hsignature hsum hparts htype
  split at h
  · cases h
  next unit hunit =>
    cases h
    exact ⟨hunit, hparts⟩

/-- The checksum covers bytes of the page only. -/
def Table.Covered (t : Table) (env : Env) : Prop :=
  ∀ x, tableBase + 12 ≤ x → x < tableBase + 12 + t.header.checkedLen → x < tableBase + env.page

/-- The lists are short enough for pointers into them not to wrap. -/
def Table.Short (t : Table) : Prop := t.header.partListLen + t.header.fwListLen ≤ 2 ^ 31

instance : Decidable t.Short := inferInstanceAs (Decidable (_ ≤ _))

theorem Table.covered_iff (ht : t.Short) :
    t.Covered env ↔ 32 + t.header.partListLen + t.header.fwListLen ≤ env.page := by
  have hlen : t.header.checkedLen = 20 + t.header.partListLen + t.header.fwListLen :=
    Nat.mod_eq_of_lt (by unfold Table.Short at ht; omega)
  unfold Table.Covered
  constructor
  · intro h
    have := h (tableBase + 31 + t.header.partListLen + t.header.fwListLen) (by omega) (by omega)
    omega
  · intro h x _ hx
    omega

/-- Every image that is read is read at the flash offset of its entry, as the table has it. -/
def Table.OwnOffsets (t : Table) (s : State) : Prop :=
  ∀ q ∈ s.reads, q.2 = (entryAt t.ram (t.fwEntry + t.unit * q.1)).offset

def Table.Counted (t : Table) (env : Env) : Prop :=
  ∀ j < t.fwEntryNum, Selected env (entryAt t.ram (t.fwEntry + t.unit * j)) → j < fwCount t.ram

instance : Decidable (t.Counted env) := inferInstanceAs (Decidable (∀ j < t.fwEntryNum, _ → _))

theorem Table.fwEntry_eq (ht : t.Short) : t.fwEntry = tableBase + 32 + t.header.partListLen :=
  Nat.mod_eq_of_lt (by unfold Table.Short at ht; unfold tableBase; omega)

theorem unitLen_le {version : UInt8} {unit : ℕ} (h : unitLen version = some unit) : unit ≤ 320 := by
  unfold unitLen at h
  split_ifs at h <;> cases h <;> decide

theorem Apart.of_offsets {m m' : Mem} {F U num : ℕ} (h : Apart env m F U num)
    (hsame : ∀ j, ∃ o, entryAt m' (F + U * j) = { entryAt m (F + U * j) with offset := o }) : Apart env m' F U num := by
  intro j hj hsel
  obtain ⟨o, ho⟩ := hsame j
  rw [ho] at hsel ⊢
  have hfixed : ({ entryAt m (F + U * j) with offset := o } : Entry).fixed
      = { (entryAt m (F + U * j)).fixed with offset := o } := by
    unfold Entry.fixed
    split_ifs <;> rfl
  rw [hfixed]
  exact h j hj hsel

end Table

/-! ## A table of two images -/

/-- A table from its version on: one partition, which counts `count` images, and two entries. -/
def twoBody (count : UInt8) : List UInt8 :=
  1 :: List.replicate 11 0 ++ store32 48 ++ store32 64 ++ (1 :: List.replicate 9 0 ++ count :: List.replicate 37 0) ++
    entryBytes 2 0 0x03000000 0x200000 4 0 ++ entryBytes 6 0 0x04000000 0x300000 4 0

def twoPage (count : UInt8) : List UInt8 := tableSignature ++ store32 (getChecksum (twoBody count)) ++ twoBody count

def twoEnv (count : UInt8) : Env :=
  { onesEnv .none with
    nandRead := fun off n => some (if off = 0x100000 then (twoPage count ++ List.replicate n 0).take n else List.replicate n 0)
    nandReadOnTheFly := fun _ n => some (List.replicate n 0) }

theorem twoEnv_sound (count : UInt8) : (twoEnv count).Sound where
  nandRead off n bs h := by
    cases h
    split_ifs
    · rw [List.length_take, List.length_append, List.length_replicate]
      omega
    · exact List.length_replicate
  nandReadOnTheFly off n bs h := by
    cases h
    exact List.length_replicate

def twoTable : Table :=
  let m := write (fun _ => 0) tableBase ((twoPage 2 ++ List.replicate 512 0).take 512)
  ⟨write m tableBase ((twoPage 2 ++ List.replicate 512 0).take 512), headerAt m tableBase, 32⟩

theorem accept_twoEnv : accept (twoEnv 2) (fun _ => 0) = .ok twoTable := by
  have hread : (twoEnv 2).nandRead (twoEnv 2).start (twoEnv 2).page
      = some ((twoPage 2 ++ List.replicate 512 0).take 512) := rfl
  have hunit : unitLen twoTable.header.version = some 32 := by decide +kernel
  unfold accept
  rw [hread]
  dsimp only
  rw [if_neg (by decide +kernel), if_neg (by decide +kernel), if_neg (by decide +kernel), if_neg (by decide +kernel)]
  unfold twoTable at hunit ⊢
  rw [hunit]

theorem twoTable_apart : Apart (twoEnv 2) twoTable.ram twoTable.fwEntry twoTable.unit twoTable.fwEntryNum := by
  have hnum : twoTable.fwEntryNum = 2 := by decide +kernel
  have hentry : twoTable.fwEntry = 0x06400050 := by decide +kernel
  have h0 : entryAt twoTable.ram 0x06400050 = ⟨.kernel, false, 0x03000000, 0x200000, 4, 0⟩ := by decide +kernel
  have h1 : entryAt twoTable.ram 0x06400070 = ⟨.kernelRootfs, false, 0x04000000, 0x300000, 4, 0⟩ := by decide +kernel
  have hunit : twoTable.unit = 32 := rfl
  rw [hnum, hentry, hunit]
  intro j hj _
  interval_cases j
  · refine ⟨by rw [h0]; decide, fun x hx _ htouch => ?_⟩
    rw [h0] at htouch
    rcases htouch with ⟨_, hlt⟩ | ⟨hc, _⟩
    · exact absurd hlt (by change ¬ x < 0x03000000 + 512; omega)
    · cases hc
  · refine ⟨by rw [h1]; decide, fun x hx _ htouch => ?_⟩
    rw [h1] at htouch
    rcases htouch with ⟨_, hlt⟩ | ⟨hc, _⟩
    · exact absurd hlt (by change ¬ x < 0x04000000 + 512; omega)
    · cases hc

end NasFirmware.Boot
