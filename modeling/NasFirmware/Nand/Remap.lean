import NasFirmware.Nand.Model
import NasFirmware.Lib.Redirect

/-!
# The remap table over erase requests

On a chip with one die the table is used front to back: used entries, then entries with a reserve block
to give away, then entries without one. A block is recorded behind all blocks that lead to it, so the
one forward pass of the driver reaches a good block.
-/

namespace NasFirmware.Nand

open Redirect

section Frame

variable (g : Geometry) (f : Faults) (s : Nand) (die page : ℕ)

@[simp] theorem eraseBlock_bbt : (eraseBlock g f s die page).2.bbt = s.bbt := rfl

@[simp] theorem markBlock_bbt : (markBlock g s die page).bbt = s.bbt := by
  unfold markBlock
  split <;> rfl

@[simp] theorem writeCopy_bbt : (writeCopy g f s page).2.bbt = s.bbt := by
  unfold writeCopy
  split
  · rename_i s' heq
    have hs' : s'.bbt = s.bbt := congrArg (fun r => r.2.bbt) heq.symm
    split
    · exact hs'
    · exact hs'
  · rename_i s' _ heq
    exact congrArg (fun r => r.2.bbt) heq.symm

@[simp] theorem rtkUpdateBbt_bbt : (rtkUpdateBbt g f s).2.bbt = s.bbt := by
  unfold rtkUpdateBbt
  split
  · rfl
  · dsimp only
    split
    · rename_i s' heq
      rw [writeCopy_bbt]
      refine (congrArg (fun r => r.2.bbt) heq.symm).trans ?_
      exact writeCopy_bbt ..
    · rename_i s' _ heq
      refine (congrArg (fun r => r.2.bbt) heq.symm).trans ?_
      exact writeCopy_bbt ..

end Frame

/-! ## The pass over the table -/

variable {g : Geometry} {f : Faults} {b : ℕ} {isBad : ℕ → ℕ → Bool}

section Table

variable {bbt used live dead : List BBt}

def BBt.redirect (e : BBt) : ℕ × ℕ := (e.badBlock, e.remapBlock)

theorem remap_block {c : Cursor} {e : BBt} (hc : c.activeChip = 0) (hbb : e.bbDie = 0)
    (hrb : e.rbDie = 0) :
    c.remap e = { c with block := if c.block = e.badBlock then e.remapBlock else c.block } := by
  unfold Cursor.remap
  rw [hbb, hrb]
  by_cases h : c.block = e.badBlock
  · rw [if_pos ⟨hc, h⟩, if_neg (not_not.mpr rfl), if_pos h]
  · rw [if_neg fun hand => h hand.2, if_neg h]

theorem lookupRemap_used (hused : ∀ e ∈ used, e.badBlock ≠ bbInit ∧ e.bbDie = 0 ∧ e.rbDie = 0)
    (c : Cursor) (hc : c.activeChip = 0) :
    lookupRemap (used ++ bbt) c =
      lookupRemap bbt { c with block := follow (used.map BBt.redirect) c.block } := by
  induction used generalizing c with
  | nil => rfl
  | cons e used ih =>
    have ⟨hbad, hbb, hrb⟩ := hused e List.mem_cons_self
    rw [List.cons_append, lookupRemap, if_pos hbad, remap_block hc hbb hrb, List.map_cons, follow_cons]
    exact ih (fun e' he' => hused e' (List.mem_cons_of_mem _ he')) _ hc

theorem lookupRemap_free (hfree : ∀ e ∈ bbt, e.badBlock = bbInit) (c : Cursor) :
    lookupRemap bbt c = c := by
  cases bbt with
  | nil => rfl
  | cons e bbt =>
    rw [lookupRemap, if_neg]
    exact not_not.mpr (hfree e List.mem_cons_self)

theorem takeFree_used (upd : BBt → BBt) (hused : ∀ e ∈ used, e.badBlock ≠ bbInit) :
    takeFree upd (used ++ bbt) = (takeFree upd bbt).map fun (t, e) => (used ++ t, e) := by
  induction used with
  | nil =>
    rw [List.nil_append]
    cases takeFree upd bbt <;> rfl
  | cons e used ih =>
    rw [List.cons_append, takeFree, if_neg fun h => hused e List.mem_cons_self h.1,
      ih fun e' he' => hused e' (List.mem_cons_of_mem _ he'), Option.map_map]
    rfl

theorem takeFree_dead (upd : BBt → BBt) (hdead : ∀ e ∈ bbt, e.remapBlock = rbInit) :
    takeFree upd bbt = none := by
  induction bbt with
  | nil => rfl
  | cons e bbt ih =>
    rw [takeFree, if_neg fun h => h.2 (hdead e List.mem_cons_self),
      ih fun e' he' => hdead e' (List.mem_cons_of_mem _ he')]
    rfl

theorem checkBBT_eq_zero {blk : ℕ} : checkBBT bbt blk = 0 ↔ ∀ e ∈ bbt, e.badBlock ≠ blk := by
  unfold checkBBT
  constructor
  · intro h e he heq
    rw [if_pos (List.any_eq_true.mpr ⟨e, he, decide_eq_true heq⟩)] at h
    exact absurd h (by decide)
  · intro h
    rw [if_neg]
    intro hany
    obtain ⟨e, he, heq⟩ := List.any_eq_true.mp hany
    exact h e he (of_decide_eq_true heq)

/-- The table is `used ++ (live ++ dead)`. -/
structure TableInv (g : Geometry) (used live dead : List BBt) : Prop where
  key : ∀ e ∈ used, e.badBlock < g.blockNum ∧ e.bbDie = 0
  free : ∀ e ∈ live ++ dead, e.badBlock = bbInit
  die : ∀ e ∈ used ++ live, e.rbDie = 0
  reserve : ∀ e ∈ used ++ live, g.blockNum - g.RBA ≤ e.remapBlock ∧ e.remapBlock < g.blockNum
  dead : ∀ e ∈ dead, e.remapBlock = rbInit
  keys : (used.map (·.badBlock)).Nodup
  targets : ((used ++ live).map (·.remapBlock)).Nodup
  ordered : Ordered (used.map BBt.redirect)
  fresh : ∀ e ∈ used, ∀ e' ∈ live, e'.remapBlock ≠ e.badBlock

theorem Geometry.blockNum_lt_init (g : Geometry) {b : ℕ} (h : b < g.blockNum) :
    b ≠ bbInit ∧ b ≠ rbInit ∧ b % 2 ^ 16 = b := by
  have hle := g.blockNum_le
  have hlt : b < 8192 := Nat.lt_of_lt_of_le h hle
  refine ⟨?_, ?_, Nat.mod_eq_of_lt (Nat.lt_trans hlt (by decide))⟩
  · exact Nat.ne_of_lt (Nat.lt_trans hlt (by decide))
  · exact Nat.ne_of_lt (Nat.lt_trans hlt (by decide))

namespace TableInv

variable (h : TableInv g used live dead)
include h

theorem used_ne (e : BBt) (he : e ∈ used) : e.badBlock ≠ bbInit :=
  (g.blockNum_lt_init (h.key e he).1).1

theorem lookup (c : Cursor) (hc : c.activeChip = 0) :
    lookupRemap (used ++ (live ++ dead)) c =
      { c with block := follow (used.map BBt.redirect) c.block } := by
  rw [lookupRemap_used (fun e he => ⟨h.used_ne e he, (h.key e he).2,
    h.die e (List.mem_append_left _ he)⟩) c hc]
  exact lookupRemap_free h.free _

/-- The pass ends at a block of the device that is not recorded and not to be given away. -/
theorem lookup_good {b : ℕ} (hb : b < g.blockNum) (hlive : ∀ e ∈ live, e.remapBlock ≠ b) :
    follow (used.map BBt.redirect) b < g.blockNum ∧
      (∀ e ∈ used, e.badBlock ≠ follow (used.map BBt.redirect) b) ∧
      ∀ e ∈ live, e.remapBlock ≠ follow (used.map BBt.redirect) b := by
  have hkey : ∀ e ∈ used, e.badBlock ≠ follow (used.map BBt.redirect) b := fun e he heq =>
    follow_ne_key h.ordered b e.redirect (List.mem_map_of_mem he) heq.symm
  rcases follow_eq_or_target (used.map BBt.redirect) b with heq | ⟨r, hr, heq⟩
  · rw [heq] at hkey ⊢
    exact ⟨hb, hkey, hlive⟩
  · obtain ⟨e, he, rfl⟩ := List.mem_map.mp hr
    refine ⟨heq.trans_lt (h.reserve e (List.mem_append_left _ he)).2, hkey, fun e' he' heq' => ?_⟩
    -- two reserve blocks of the table, one used and one to be given away, are different
    have hnd := h.targets
    rw [List.map_append] at hnd
    refine List.disjoint_of_nodup_append hnd (List.mem_map_of_mem he) ?_
    exact List.mem_map.mpr ⟨e', he', heq'.trans heq⟩

theorem record {p : ℕ} {t : List BBt} {e : BBt} (hp : p < g.blockNum)
    (hkey : ∀ e ∈ used, e.badBlock ≠ p) (hlive : ∀ e ∈ live, e.remapBlock ≠ p)
    (hrec : recordBad 0 p (used ++ (live ++ dead)) = some (t, e)) :
    ∃ e₀ live', live = e₀ :: live' ∧ t = (used ++ [e]) ++ (live' ++ dead) ∧
      TableInv g (used ++ [e]) live' dead := by
  unfold recordBad at hrec
  rw [takeFree_used _ h.used_ne] at hrec
  cases live with
  | nil =>
    rw [List.nil_append, takeFree_dead _ h.dead] at hrec
    cases hrec
  | cons e₀ live' =>
    have hmem : e₀ ∈ used ++ e₀ :: live' := List.mem_append_right _ List.mem_cons_self
    have hres := h.reserve e₀ hmem
    have hfree : e₀.badBlock = bbInit := h.free e₀ List.mem_cons_self
    rw [List.cons_append, takeFree,
      if_pos ⟨hfree, (g.blockNum_lt_init hres.2).2.1⟩, Option.map_some] at hrec
    cases hrec
    refine ⟨e₀, live', rfl, ?_, ?_⟩
    · rw [List.append_assoc]
      rfl
    · have hmod := (g.blockNum_lt_init hp).2.2
      have hself : e₀.remapBlock ≠ p := hlive e₀ List.mem_cons_self
      have hold : ∀ e ∈ used ++ live', e ∈ used ++ e₀ :: live' := fun e he =>
        (List.mem_append.mp he).elim (fun he => List.mem_append_left _ he)
          fun he => List.mem_append_right _ (List.mem_cons_of_mem _ he)
      constructor
      · intro e he
        rcases List.mem_append.mp he with he | he
        · exact h.key e he
        · rw [List.mem_singleton.mp he]
          exact ⟨hmod.trans_lt hp, rfl⟩
      · exact fun e he => h.free e (List.mem_cons_of_mem _ he)
      · intro e he
        rw [List.append_assoc] at he
        rcases List.mem_append.mp he with he | he
        · exact h.die e (List.mem_append_left _ he)
        · rcases List.mem_cons.mp he with rfl | he
          · exact h.die e₀ hmem
          · exact h.die e (hold e (List.mem_append_right _ he))
      · intro e he
        rw [List.append_assoc] at he
        rcases List.mem_append.mp he with he | he
        · exact h.reserve e (List.mem_append_left _ he)
        · rcases List.mem_cons.mp he with rfl | he
          · exact hres
          · exact h.reserve e (hold e (List.mem_append_right _ he))
      · exact h.dead
      · rw [List.map_append, List.map_singleton, hmod]
        refine List.nodup_append.mpr ⟨h.keys, List.nodup_singleton _, ?_⟩
        intro a ha b hb
        obtain ⟨e, he, rfl⟩ := List.mem_map.mp ha
        rw [List.mem_singleton.mp hb]
        exact hkey e he
      · rw [List.append_assoc, List.map_append]
        have := h.targets
        rw [List.map_append] at this
        exact this
      · rw [List.map_append, List.map_singleton]
        refine h.ordered.append_singleton ?_ ?_
        · intro r hr
          obtain ⟨e, he, rfl⟩ := List.mem_map.mp hr
          exact h.fresh e he e₀ List.mem_cons_self
        · exact fun heq => hself (heq.trans hmod)
      · intro e he e' he'
        rcases List.mem_append.mp he with he | he
        · exact h.fresh e he e' (List.mem_cons_of_mem _ he')
        · rw [List.mem_singleton.mp he]
          exact fun heq => hlive e' (List.mem_cons_of_mem _ he') (heq.trans hmod)

end TableInv

end Table

section Pass

variable (g : Geometry) (f : Faults)

/-- What a request may do to the table at a block: nothing, or record the block if it is not recorded. -/
def Recorded (c : Cursor) (bbt t : List BBt) : Prop :=
  t = bbt ∨ checkBBT bbt c.block = 0 ∧ ∃ e, recordBad c.errChipnr c.block bbt = some (t, e)

theorem eraseRecord_recorded {w w' : Erasing} (h : eraseRecord w = some w') :
    w'.cur = w.cur ∧ Recorded w.cur w.nand.bbt w'.nand.bbt := by
  unfold eraseRecord at h
  split at h
  · rename_i hcheck
    split at h
    · rename_i t e hrec
      cases h
      exact ⟨rfl, Or.inr ⟨hcheck, e, hrec⟩⟩
    · split at h
      · cases h
      · cases h
        exact ⟨rfl, Or.inl rfl⟩
  · cases h
    exact ⟨rfl, Or.inl rfl⟩

theorem eraseFailed_cases (w : Erasing) :
    (∃ w', eraseFailed g f w = .ok w' ∧ w'.cur = w.cur ∧ Recorded w.cur w.nand.bbt w'.nand.bbt) ∨
      ∃ s, eraseFailed g f w = .error s ∧ Recorded w.cur w.nand.bbt s.bbt := by
  unfold eraseFailed
  cases hrec : eraseRecord w with
  | none => exact Or.inr ⟨w.nand, rfl, Or.inl rfl⟩
  | some w₁ =>
    have ⟨hcur, ht⟩ := eraseRecord_recorded hrec
    rw [← rtkUpdateBbt_bbt g f w₁.nand] at ht
    dsimp only
    split
    · rename_i s heq
      rw [heq] at ht
      refine Or.inl ⟨_, rfl, hcur, ?_⟩
      rw [eraseBlock_bbt, markBlock_bbt]
      exact ht
    · rename_i s heq
      rw [heq] at ht
      exact Or.inr ⟨s, rfl, ht⟩

/-- **One block of a request**, whether the request goes on or gives up. -/
theorem erasePass_cases (w : Erasing) :
    (∃ w', erasePass g f w = .ok w' ∧ w'.cur = lookupRemap w.nand.bbt w.cur ∧
        Recorded (lookupRemap w.nand.bbt w.cur) w.nand.bbt w'.nand.bbt) ∨
      ∃ s, erasePass g f w = .error s ∧
        Recorded (lookupRemap w.nand.bbt w.cur) w.nand.bbt s.bbt := by
  unfold erasePass
  dsimp only
  split
  · rename_i s heq
    refine Or.inl ⟨_, rfl, rfl, Or.inl ?_⟩
    exact congrArg (fun r => r.2.bbt) heq.symm
  · rename_i rc s _ heq
    have hs : s.bbt = w.nand.bbt := congrArg (fun r => r.2.bbt) heq.symm
    have hcases := eraseFailed_cases g f { w with nand := s, cur := lookupRemap w.nand.bbt w.cur, rc := rc }
    rw [hs] at hcases
    exact hcases

end Pass

/-! ## Whole requests -/

section Request

variable {len addr : ℕ} {c : Cursor}

structure Cursor.At (g : Geometry) (c : Cursor) (b : ℕ) : Prop where
  activeChip : c.activeChip = 0
  chipnr : c.chipnr = 0
  chipnrRemap : c.chipnrRemap = 0
  oldPage : c.oldPage = b * g.ppb

/-- The table is sound inside: it falls into its three parts. -/
def Parts (g : Geometry) (t : List BBt) : Prop :=
  ∃ used live dead, t = used ++ (live ++ dead) ∧ TableInv g used live dead

/-- No free entry would give block `b` away. -/
def Avoids (t : List BBt) (b : ℕ) : Prop := ∀ e ∈ t, e.badBlock = bbInit → e.remapBlock ≠ b

theorem TableInv.avoids_iff {used live dead : List BBt} (h : TableInv g used live dead)
    (hb : b < g.blockNum) : Avoids (used ++ (live ++ dead)) b ↔ ∀ e ∈ live, e.remapBlock ≠ b := by
  constructor
  · intro hav e he
    exact hav e (List.mem_append_right _ (List.mem_append_left _ he)) (h.free e (List.mem_append_left _ he))
  · intro hlive e he hfree heq
    rcases List.mem_append.mp he with he | he
    · exact h.used_ne e he hfree
    · rcases List.mem_append.mp he with he | he
      · exact hlive e he heq
      · exact (g.blockNum_lt_init hb).2.1 (heq.symm.trans (h.dead e he))

theorem Parts.recorded {t t' : List BBt} (h : Parts g t) (hc : c.At g b)
    (hblock : c.block = b) (hb : b < g.blockNum) (hav : Avoids t b)
    (hrec : Recorded (lookupRemap t c) t t') : Parts g t' ∧ ∀ b', Avoids t b' → Avoids t' b' := by
  obtain ⟨used, live, dead, rfl, hinv⟩ := h
  rw [hinv.lookup c hc.activeChip, hblock] at hrec
  rcases hrec with rfl | ⟨-, e, hrec⟩
  · exact ⟨⟨used, live, dead, rfl, hinv⟩, fun _ h => h⟩
  · have ⟨hlt, hkey, hlive⟩ := hinv.lookup_good hb ((hinv.avoids_iff hb).mp hav)
    have herr : Cursor.errChipnr { c with block := follow (used.map BBt.redirect) b } = 0 := by
      unfold Cursor.errChipnr
      rw [hc.chipnr, hc.chipnrRemap, if_neg (not_not.mpr rfl)]
    rw [herr] at hrec
    obtain ⟨e₀, live', rfl, rfl, hinv'⟩ := hinv.record hlt hkey hlive hrec
    refine ⟨⟨used ++ [e], live', dead, rfl, hinv'⟩, fun b' hav' e' he' hfree => ?_⟩
    rcases List.mem_append.mp he' with he' | he'
    · exact absurd hfree (hinv'.used_ne e' he')
    · exact hav' e' (List.mem_append_right _ (List.mem_cons_of_mem _ he')) hfree

theorem Cursor.At.advance (h : c.At g b) (more : Bool)
    (hmore : more = true → b + 1 < g.blockNum) :
    (c.advance g g.ppb more).At g (b + 1) ∧ (c.advance g g.ppb more).block = b + 1 := by
  have hpage : c.oldPage + g.ppb = (b + 1) * g.ppb := by rw [h.oldPage, Nat.succ_mul]
  have hnowrap : ¬ (more = true ∧ (c.oldPage + g.ppb) % g.pages = 0) := by
    rintro ⟨hm, hmod⟩
    have hlt : (b + 1) * g.ppb < g.pages := Nat.mul_lt_mul_of_pos_right (hmore hm) g.ppb_pos
    rw [hpage, Nat.mod_eq_of_lt hlt] at hmod
    exact absurd hmod (Nat.mul_pos (Nat.succ_pos b) g.ppb_pos).ne'
  unfold Cursor.advance
  rw [if_neg hnowrap, hpage]
  exact ⟨⟨h.activeChip, h.chipnr, h.chipnrRemap, rfl⟩, Nat.mul_div_cancel _ g.ppb_pos⟩

theorem eraseLoop_parts {n : ℕ} {w : Erasing} (h : Parts g w.nand.bbt) (hc : w.cur.At g b)
    (hblock : w.cur.block = b) (hn : b + n ≤ g.blockNum)
    (hav : ∀ k < n, Avoids w.nand.bbt (b + k)) :
    (∃ w', eraseLoop g f n w = .ok w' ∧ Parts g w'.nand.bbt) ∨
      ∃ s, eraseLoop g f n w = .error s ∧ Parts g s.bbt := by
  induction n generalizing w b with
  | zero => exact Or.inl ⟨w, rfl, h⟩
  | succ n ih =>
    have hb : b < g.blockNum := by omega
    have hav₀ : Avoids w.nand.bbt b := hav 0 (Nat.succ_pos n)
    unfold eraseLoop
    rcases erasePass_cases g f w with ⟨w', hw', hcur, hrec⟩ | ⟨s, hs, hrec⟩
    · have ⟨hparts, hless⟩ := h.recorded hc hblock hb hav₀ hrec
      have hc' : w'.cur.At g b := by
        obtain ⟨used, live, dead, ht, hinv⟩ := h
        rw [hcur, ht, hinv.lookup _ hc.activeChip]
        exact ⟨hc.activeChip, hc.chipnr, hc.chipnrRemap, hc.oldPage⟩
      have ⟨hat, hbl⟩ := hc'.advance (decide (n ≠ 0)) fun hm => by
        have := of_decide_eq_true hm
        omega
      rw [hw']
      refine ih (w := { w' with cur := w'.cur.advance g g.ppb (decide (n ≠ 0)) }) hparts hat hbl
        (by omega) fun k hk => ?_
      have := hless _ (hav (k + 1) (by omega))
      rwa [show b + (k + 1) = b + 1 + k by omega] at this
    · rw [hs]
      exact Or.inr ⟨s, rfl, (h.recorded hc hblock hb hav₀ hrec).1⟩

theorem Geometry.erasesize_pos (g : Geometry) : 0 < g.erasesize :=
  Nat.mul_pos g.ppb_pos g.pageSize_pos

theorem Geometry.size_of_one (hone : g.numchips = 1) : g.size = g.blockNum * g.erasesize := by
  unfold Geometry.size Geometry.pages Geometry.erasesize
  rw [hone, Nat.one_mul, Nat.mul_assoc]

theorem blocksOf_le (h : b * g.erasesize + len ≤ g.blockNum * g.erasesize) :
    b + blocksOf g len ≤ g.blockNum := by
  have hes := g.erasesize_pos
  have hle : b ≤ g.blockNum := Nat.le_of_mul_le_mul_right (Nat.le_of_add_right_le h) hes
  obtain ⟨d, hd⟩ := Nat.exists_eq_add_of_le hle
  have hlen : len ≤ d * g.erasesize := by
    rw [hd, Nat.add_mul] at h
    exact Nat.le_of_add_le_add_left h
  have hlt : blocksOf g len < d + 1 := by
    unfold blocksOf
    rw [Nat.div_lt_iff_lt_mul hes, Nat.succ_mul]
    omega
  omega

theorem Cursor.start_at (haddr : addr = b * g.erasesize) (hb : b < g.blockNum) :
    (Cursor.start g addr).At g b ∧ (Cursor.start g addr).block = b := by
  have hpage : addr / g.pageSize = b * g.ppb := by
    rw [haddr, Geometry.erasesize, ← Nat.mul_assoc, Nat.mul_div_cancel _ g.pageSize_pos]
  have hmod : addr / g.pageSize % g.pages = b * g.ppb := by
    rw [hpage]
    exact Nat.mod_eq_of_lt (Nat.mul_lt_mul_of_pos_right hb g.ppb_pos)
  refine ⟨⟨rfl, rfl, rfl, hmod⟩, ?_⟩
  change addr / g.pageSize % g.pages / g.ppb = b
  rw [hmod, Nat.mul_div_cancel _ g.ppb_pos]

/-- **A request keeps the parts of the table**, if it erases no block by its own address that a free
entry would give away. -/
theorem nandEraseNand_parts {s : Nand} (hone : g.numchips = 1) (h : Parts g s.bbt)
    (hav : ∀ k < blocksOf g len, Avoids s.bbt (addr / g.erasesize + k)) :
    Parts g (nandEraseNand g f s addr len).2.bbt := by
  unfold nandEraseNand
  split
  · exact h
  · split
    · exact h
    · split
      · exact h
      · rename_i hend halign
        have haddr : addr = addr / g.erasesize * g.erasesize :=
          (Nat.div_mul_cancel (Nat.dvd_of_mod_eq_zero (not_not.mp halign))).symm
        have hle : addr / g.erasesize + blocksOf g len ≤ g.blockNum := by
          apply blocksOf_le
          rw [← haddr, ← Geometry.size_of_one hone]
          exact Nat.le_of_not_lt hend
        have hloop : (∃ w', eraseLoop g f (blocksOf g len) ⟨s, Cursor.start g addr, noRemap, .ok⟩ = .ok w' ∧
              Parts g w'.nand.bbt) ∨
            ∃ s', eraseLoop g f (blocksOf g len) ⟨s, Cursor.start g addr, noRemap, .ok⟩ = .error s' ∧
              Parts g s'.bbt := by
          rcases Nat.eq_zero_or_pos (blocksOf g len) with hzero | hpos
          · rw [hzero]
            exact Or.inl ⟨_, rfl, h⟩
          · have ⟨hat, hblock⟩ := Cursor.start_at haddr (show addr / g.erasesize < g.blockNum by omega)
            exact eraseLoop_parts h hat hblock hle hav
        rcases hloop with ⟨w', hw', hp⟩ | ⟨s', hs', hp⟩
        · rw [hw']
          exact hp
        · rw [hs']
          exact hp

end Request

/-! ## The first table -/

section First

variable {i a : ℕ}

theorem map_getD_range {α : Type} (l : List α) (d : α) :
    (List.range l.length).map (fun i => l.getD i d) = l := by
  refine List.ext_getElem (by rw [List.length_map, List.length_range]) fun i h₁ h₂ => ?_
  rw [List.getElem_map, List.getElem_range, List.getD_eq_getElem _ _ h₂]

theorem mem_badUserBlocks (h : b ∈ badUserBlocks g isBad) : b < g.blockNum - g.RBA :=
  List.mem_range.mp (List.mem_filter.mp h).1

theorem nodup_badUserBlocks : (badUserBlocks g isBad).Nodup := List.nodup_range.filter _

theorem mem_reserveBlocks (h : b ∈ reserveBlocks g isBad) :
    g.blockNum - g.RBA ≤ b ∧ b < g.blockNum := by
  obtain ⟨i, hi, rfl⟩ := List.mem_map.mp (List.mem_filter.mp h).1
  have hlt := List.mem_range.mp hi
  have hle := g.rba_le
  omega

theorem nodup_reserveBlocks : (reserveBlocks g isBad).Nodup := by
  refine List.Nodup.filter _ (List.Nodup.map_on ?_ List.nodup_range)
  intro i hi j hj heq
  have hi := List.mem_range.mp hi
  have hj := List.mem_range.mp hj
  have hle := g.rba_le
  omega

theorem length_reserveBlocks_le : (reserveBlocks g isBad).length ≤ g.RBA := by
  refine (List.length_filter_le ..).trans ?_
  rw [List.length_map, List.length_range]

theorem scanEntry_used (hi : i < (badUserBlocks g isBad).length) :
    (scanEntry g isBad i).badBlock < g.blockNum - g.RBA ∧ (scanEntry g isBad i).bbDie = g.numchips - 1 := by
  constructor
  · change (badUserBlocks g isBad).getD i bbInit < _
    rw [List.getD_eq_getElem _ _ hi]
    exact mem_badUserBlocks (List.getElem_mem hi)
  · exact if_pos hi

theorem scanEntry_free (hi : (badUserBlocks g isBad).length ≤ i) :
    (scanEntry g isBad i).badBlock = bbInit := List.getD_eq_default _ _ hi

theorem scanEntry_reserve (hi : i < (reserveBlocks g isBad).length) :
    g.blockNum - g.RBA ≤ (scanEntry g isBad i).remapBlock ∧ (scanEntry g isBad i).remapBlock < g.blockNum := by
  change _ ≤ (reserveBlocks g isBad).getD i rbInit ∧ (reserveBlocks g isBad).getD i rbInit < _
  rw [List.getD_eq_getElem _ _ hi]
  exact mem_reserveBlocks (List.getElem_mem hi)

theorem scanEntry_dead (hi : (reserveBlocks g isBad).length ≤ i) :
    (scanEntry g isBad i).remapBlock = rbInit := List.getD_eq_default _ _ hi

variable (g isBad) in
/-- The entries from `a` up to `b`. -/
def scanPart (a b : ℕ) : List BBt := (List.range' a (b - a)).map (scanEntry g isBad)

theorem mem_scanPart {e : BBt} (h : e ∈ scanPart g isBad a b) :
    ∃ i, a ≤ i ∧ i < b ∧ scanEntry g isBad i = e := by
  obtain ⟨i, hi, rfl⟩ := List.mem_map.mp h
  have := List.mem_range'_1.mp hi
  exact ⟨i, by omega, by omega, rfl⟩

theorem scanPart_append {c : ℕ} (hab : a ≤ b) (hbc : b ≤ c) :
    scanPart g isBad a b ++ scanPart g isBad b c = scanPart g isBad a c := by
  unfold scanPart
  obtain ⟨m, rfl⟩ := Nat.exists_eq_add_of_le hab
  obtain ⟨n, rfl⟩ := Nat.exists_eq_add_of_le hbc
  rw [← List.map_append, Nat.add_sub_cancel_left, Nat.add_sub_cancel_left, List.range'_append_1,
    Nat.add_assoc, Nat.add_sub_cancel_left]

theorem scanPart_zero (b : ℕ) : scanPart g isBad 0 b = (List.range b).map (scanEntry g isBad) := by
  rw [scanPart, Nat.sub_zero, List.range_eq_range']

/-- The first table has its parts: there are more good reserve blocks than bad user blocks. -/
theorem scanLastDieBB_parts (hone : g.numchips = 1)
    (hmore : (badUserBlocks g isBad).length < (reserveBlocks g isBad).length) :
    Parts g (scanLastDieBB g isBad) := by
  have hle : (reserveBlocks g isBad).length ≤ g.RBA := length_reserveBlocks_le
  have hfront : scanPart g isBad 0 (badUserBlocks g isBad).length ++
      scanPart g isBad (badUserBlocks g isBad).length (reserveBlocks g isBad).length =
        scanPart g isBad 0 (reserveBlocks g isBad).length :=
    scanPart_append (Nat.zero_le _) hmore.le
  -- user blocks and reserve blocks are apart
  have hapart : ∀ e ∈ scanPart g isBad 0 (badUserBlocks g isBad).length,
      ∀ i < (reserveBlocks g isBad).length, (scanEntry g isBad i).remapBlock ≠ e.badBlock := by
    intro e he i hi
    obtain ⟨j, -, hj, rfl⟩ := mem_scanPart he
    exact (Nat.lt_of_lt_of_le (scanEntry_used hj).1 (scanEntry_reserve hi).1).ne'
  refine ⟨scanPart g isBad 0 (badUserBlocks g isBad).length,
    scanPart g isBad (badUserBlocks g isBad).length (reserveBlocks g isBad).length,
    scanPart g isBad (reserveBlocks g isBad).length g.RBA, ?_, ?_⟩
  · rw [← List.append_assoc, hfront, scanPart_append (Nat.zero_le _) hle, scanPart_zero]
    rfl
  · constructor
    · intro e he
      obtain ⟨i, -, hi, rfl⟩ := mem_scanPart he
      have ⟨hlt, hdie⟩ := scanEntry_used hi
      exact ⟨Nat.lt_of_lt_of_le hlt (Nat.sub_le ..), by rw [hdie, hone]⟩
    · intro e he
      rw [scanPart_append hmore.le hle] at he
      obtain ⟨i, hi, -, rfl⟩ := mem_scanPart he
      exact scanEntry_free hi
    · intro e he
      rw [hfront] at he
      obtain ⟨i, -, -, rfl⟩ := mem_scanPart he
      change g.numchips - 1 = 0
      rw [hone]
    · intro e he
      rw [hfront] at he
      obtain ⟨i, -, hi, rfl⟩ := mem_scanPart he
      exact scanEntry_reserve hi
    · intro e he
      obtain ⟨i, hi, -, rfl⟩ := mem_scanPart he
      exact scanEntry_dead hi
    · rw [scanPart_zero, List.map_map]
      exact (map_getD_range (badUserBlocks g isBad) bbInit).symm ▸ nodup_badUserBlocks
    · rw [hfront, scanPart_zero, List.map_map]
      exact (map_getD_range (reserveBlocks g isBad) rbInit).symm ▸ nodup_reserveBlocks
    · constructor
      · refine List.pairwise_map.mpr (List.Pairwise.imp_of_mem ?_ (List.pairwise_of_forall fun _ _ => trivial))
        intro e e' he he' _
        obtain ⟨i, -, hi, rfl⟩ := mem_scanPart he'
        exact hapart e he i (hi.trans hmore)
      · intro r hr
        obtain ⟨e, he, rfl⟩ := List.mem_map.mp hr
        obtain ⟨i, -, hi, rfl⟩ := mem_scanPart he
        exact hapart _ he i (hi.trans hmore)
    · intro e he e' he'
      obtain ⟨i, -, hi, rfl⟩ := mem_scanPart he'
      exact hapart e he i hi

@[simp] theorem createLoop_bbt (f : Faults) (bytes : List UInt8) (page n k : ℕ) (s : Nand) :
    (createLoop g f bytes page n k s).2.bbt = s.bbt := by
  induction n generalizing k s with
  | zero => rfl
  | succ n ih =>
    unfold createLoop
    split
    · rename_i s' heq
      exact (ih _ _).trans (congrArg (fun r => r.2.bbt) heq.symm)
    · rename_i s' _ heq
      exact congrArg (fun r => r.2.bbt) heq.symm

theorem rtkCreateBbt_bbt {f : Faults} {s : Nand} {page : ℕ} (hone : g.numchips = 1)
    (hpage : page = g.ppb ∨ page = 2 * g.ppb) (halloc : f.alloc s.log.length 0 = true) :
    (rtkCreateBbt g f isBad s page).2.bbt = scanLastDieBB g isBad := by
  have htable : (if 1 < g.numchips then scanOtherDieBB g isBad (scanLastDieBB g isBad)
      else scanLastDieBB g isBad) = scanLastDieBB g isBad := by
    rw [hone, if_neg (Nat.lt_irrefl 1)]
  unfold rtkCreateBbt
  rw [if_neg (by tauto), if_pos halloc]
  dsimp only
  rw [htable]
  split
  · split
    · rename_i s' heq
      rw [createLoop_bbt]
      exact congrArg (fun r => r.2.bbt) heq.symm
    · rename_i s' _ heq
      exact congrArg (fun r => r.2.bbt) heq.symm
  · rfl

end First

/-- The block the driver uses for block `b` of the device. -/
def physicalBlock (t : List BBt) (b : ℕ) : ℕ := (lookupRemap t ⟨0, 0, 0, 0, 0, b⟩).block

/-- **A sound table**: the used entries come first; recorded blocks are distinct, and so are the reserve blocks, which
are in the reserve area; and every user block leads to a block that is not recorded. -/
structure Sound (g : Geometry) (t : List BBt) : Prop where
  usedFirst : ∃ k, (∀ e ∈ t.take k, e.badBlock ≠ bbInit) ∧ ∀ e ∈ t.drop k, e.badBlock = bbInit
  badDistinct : ((t.filter (·.badBlock ≠ bbInit)).map (·.badBlock)).Nodup
  remapDistinct : ((t.filter (·.remapBlock ≠ rbInit)).map (·.remapBlock)).Nodup
  remapReserve : ∀ e ∈ t, e.badBlock ≠ bbInit ∨ e.remapBlock ≠ rbInit →
    g.blockNum - g.RBA ≤ e.remapBlock ∧ e.remapBlock < g.blockNum
  ends : ∀ b < g.blockNum - g.RBA,
    physicalBlock t b < g.blockNum ∧ checkBBT t (physicalBlock t b) = 0

section Runs

theorem TableInv.sound {used live dead : List BBt} (h : TableInv g used live dead) :
    Sound g (used ++ (live ++ dead)) := by
  have hreal : ∀ e ∈ used ++ live, e.remapBlock ≠ rbInit := fun e he =>
    (g.blockNum_lt_init (h.reserve e he).2).2.1
  constructor
  · refine ⟨used.length, ?_, ?_⟩
    · rw [List.take_left]
      exact h.used_ne
    · rw [List.drop_left]
      exact h.free
  · rw [List.filter_append, List.filter_eq_self.mpr fun e he => decide_eq_true (h.used_ne e he),
      List.filter_eq_nil_iff.mpr fun e he => by simp [h.free e he], List.append_nil]
    exact h.keys
  · rw [← List.append_assoc, List.filter_append,
      List.filter_eq_self.mpr fun e he => decide_eq_true (hreal e he),
      List.filter_eq_nil_iff.mpr fun e he => by simp [h.dead e he], List.append_nil]
    exact h.targets
  · intro e he hor
    rw [← List.append_assoc] at he
    rcases List.mem_append.mp he with he | he
    · exact h.reserve e he
    · exact (hor.elim (· (h.free e (List.mem_append_right _ he))) (· (h.dead e he))).elim
  · intro b hb
    have hlive : ∀ e ∈ live, e.remapBlock ≠ b := fun e he =>
      (Nat.lt_of_lt_of_le hb (h.reserve e (List.mem_append_right _ he)).1).ne'
    obtain ⟨hlt, hkey, -⟩ := h.lookup_good (Nat.lt_of_lt_of_le hb (Nat.sub_le ..)) hlive
    have hphys : physicalBlock (used ++ (live ++ dead)) b = follow (used.map BBt.redirect) b := by
      rw [physicalBlock, h.lookup _ rfl]
    rw [hphys]
    refine ⟨hlt, checkBBT_eq_zero.mpr fun e he => ?_⟩
    rcases List.mem_append.mp he with he | he
    · exact hkey e he
    · rw [h.free e he]
      exact (g.blockNum_lt_init hlt).1.symm

variable (g f isBad) in
/-- The states after `rtk_create_bbt` and requests that erase no block, by its own address, that a free entry would
give away. -/
inductive EraseRun : Nand → Prop
  | create (s : Nand) (page : ℕ) (hpage : page = g.ppb ∨ page = 2 * g.ppb)
      (halloc : f.alloc s.log.length 0 = true) : EraseRun (rtkCreateBbt g f isBad s page).2
  | erase {s : Nand} (addr len : ℕ) (h : EraseRun s)
      (hav : ∀ k < blocksOf g len, Avoids s.bbt (addr / g.erasesize + k)) :
      EraseRun (nandEraseNand g f s addr len).2

/-- **The table stays sound** over every run of erase requests, with any failures. -/
theorem eraseRun_sound (hone : g.numchips = 1)
    (hmore : (badUserBlocks g isBad).length < (reserveBlocks g isBad).length) {s : Nand}
    (h : EraseRun g f isBad s) : Sound g s.bbt := by
  have hparts : Parts g s.bbt := by
    induction h with
    | create s page hpage halloc =>
      rw [rtkCreateBbt_bbt hone hpage halloc]
      exact scanLastDieBB_parts hone hmore
    | erase addr len _ hav ih => exact nandEraseNand_parts hone ih hav
  obtain ⟨used, live, dead, ht, hinv⟩ := hparts
  rw [ht]
  exact hinv.sound

end Runs

def failAt (a b : ℕ) : Faults := ⟨fun n => if n = a ∨ n = b then .failed else .ok, fun _ _ => [], fun _ _ => true⟩

def allGood : ℕ → ℕ → Bool := fun _ _ => false

def blankNand : Nand := ⟨[], [], fun _ _ => [], []⟩

/-- The table is created; the erase of block `a` fails, and so does the erase of block `b`. -/
def twoErased (a b : ℕ) : Nand :=
  let s := (rtkCreateBbt w29n01gv (failAt 2 10) allGood blankNand 64).2
  let s := (nandEraseNand w29n01gv (failAt 2 10) s (a * w29n01gv.erasesize) w29n01gv.erasesize).2
  (nandEraseNand w29n01gv (failAt 2 10) s (b * w29n01gv.erasesize) w29n01gv.erasesize).2

theorem eraseRun_sound_two_users : Sound w29n01gv (twoErased 100 200).bbt := by
  refine @eraseRun_sound w29n01gv (failAt 2 10) allGood rfl (by decide +kernel) _ ?_
  refine EraseRun.erase _ _ (EraseRun.erase _ _ (EraseRun.create blankNand 64 (Or.inl rfl) rfl) ?_) ?_
  · unfold Avoids
    decide +kernel
  · unfold Avoids
    decide +kernel

/-- Block 1022 fails, which the second entry would give away: block 200 then leads to it, although it is
recorded as bad. -/
theorem reserve_erased_unsound :
    (badUserBlocks w29n01gv allGood).length < (reserveBlocks w29n01gv allGood).length ∧
      200 < w29n01gv.blockNum - w29n01gv.RBA ∧
      physicalBlock (twoErased 1022 200).bbt 200 = 1022 ∧
      checkBBT (twoErased 1022 200).bbt 1022 = -1 ∧ ¬ Sound w29n01gv (twoErased 1022 200).bbt := by
  have hphys : physicalBlock (twoErased 1022 200).bbt 200 = 1022 := by decide +kernel
  have hcheck : checkBBT (twoErased 1022 200).bbt 1022 = -1 := by decide +kernel
  refine ⟨by decide +kernel, by decide, hphys, hcheck, fun h => ?_⟩
  have hends := (h.ends 200 (by decide)).2
  rw [hphys, hcheck] at hends
  exact absurd hends (by decide)

end NasFirmware.Nand
