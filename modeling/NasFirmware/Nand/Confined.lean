import NasFirmware.Nand.Remap
import NasFirmware.Nand.ReadBack

/-!
# What the error handlers touch

When a page of a request fails, the driver erases, marks and records the block it takes to be the bad one:
`page_ppb`, the **first block of the request**. If the failing page lies in that block, the handlers touch
that block, the reserve block they choose, and blocks 1 and 2, where the table itself is kept.
-/

namespace NasFirmware.Nand

/-! ## Effects -/

section Effect

variable (g : Geometry)

def Op.block : Op → Option (ℕ × ℕ)
  | .erase die page => some (die, page / g.ppb)
  | .mark die page => some (die, page / g.ppb)
  | _ => none

def touched (ops : List Op) : List (ℕ × ℕ) := ops.filterMap (Op.block g)

/-- From `s` to `s'` only blocks of `blocks` are erased or marked, and only entries of `entries` are new. -/
structure Effect (blocks : ℕ × ℕ → Prop) (entries : BBt → Prop) (s s' : Nand) : Prop where
  ops : ∃ ops, s'.log = s.log ++ ops ∧ ∀ b ∈ touched g ops, blocks b
  table : ∀ e ∈ s'.bbt, e ∈ s.bbt ∨ entries e

variable {g} {blocks : ℕ × ℕ → Prop} {entries : BBt → Prop} {s s' s'' : Nand}

theorem Effect.refl : Effect g blocks entries s s :=
  ⟨⟨[], (List.append_nil _).symm, fun _ hb => absurd hb List.not_mem_nil⟩, fun _ he => Or.inl he⟩

theorem Effect.trans (h : Effect g blocks entries s s') (h' : Effect g blocks entries s' s'') :
    Effect g blocks entries s s'' := by
  obtain ⟨⟨ops, hlog, hops⟩, htable⟩ := h
  obtain ⟨⟨ops', hlog', hops'⟩, htable'⟩ := h'
  refine ⟨⟨ops ++ ops', by rw [hlog', hlog, List.append_assoc], fun b hb => ?_⟩, fun e he => ?_⟩
  · rw [touched, List.filterMap_append] at hb
    rcases List.mem_append.mp hb with hb | hb
    · exact hops b hb
    · exact hops' b hb
  · rcases htable' e he with he | he
    · exact htable e he
    · exact Or.inr he

theorem Effect.single (op : Op) (hlog : s'.log = s.log ++ [op]) (hbbt : s'.bbt = s.bbt)
    (hop : ∀ b, Op.block g op = some b → blocks b) : Effect g blocks entries s s' := by
  refine ⟨⟨[op], hlog, fun b hb => ?_⟩, fun e he => Or.inl (hbbt ▸ he)⟩
  obtain ⟨op', hmem, heq⟩ := List.mem_filterMap.mp hb
  rw [List.mem_singleton.mp hmem] at heq
  exact hop b heq

theorem Effect.of_eq (hlog : s'.log = s.log) (hbbt : s'.bbt = s.bbt) : Effect g blocks entries s s' :=
  ⟨⟨[], by rw [hlog, List.append_nil], fun _ hb => absurd hb List.not_mem_nil⟩,
    fun _ he => Or.inl (hbbt ▸ he)⟩

end Effect

/-! ## The pieces of the driver -/

section Pieces

variable (g : Geometry) (f : Faults) {blocks : ℕ × ℕ → Prop} {entries : BBt → Prop}

variable (s : Nand)

include s

theorem eraseBlock_effect (die page : ℕ) (h : blocks (die, page / g.ppb)) :
    Effect g blocks entries s (eraseBlock g f s die page).2 :=
  Effect.single (.erase die page) rfl rfl fun _ hb => Option.some.inj hb ▸ h

theorem writeEccPage_effect (die page : ℕ) (data : List UInt8) :
    Effect g blocks entries s (writeEccPage f s die page data).2 :=
  Effect.single (.program die page) rfl rfl fun _ hb => nomatch hb

theorem readEccPage_effect (die page : ℕ) :
    Effect g blocks entries s (readEccPage f s die page).2.2 :=
  Effect.single (.read die page) rfl rfl fun _ hb => nomatch hb

theorem writeOob_effect (die page : ℕ) (h : blocks (die, page / g.ppb)) :
    Effect g blocks entries s (writeOob s die page) :=
  Effect.single (.mark die page) rfl rfl fun _ hb => Option.some.inj hb ▸ h

theorem markBlock_effect (die blk : ℕ) (h : blocks (die, blk)) :
    Effect g blocks entries s (markBlock g s die (blk * g.ppb)) := by
  have hpage : ∀ k < g.ppb, (blk * g.ppb + k) / g.ppb = blk := fun k hk => by
    rw [Nat.mul_comm, Nat.mul_add_div g.ppb_pos, Nat.div_eq_of_lt hk, Nat.add_zero]
  have htwo := g.two_le_ppb
  have hmark : ∀ (s : Nand) k, k < g.ppb → Effect g blocks entries s (writeOob s die (blk * g.ppb + k)) :=
    fun s k hk => writeOob_effect g s die _ (by rwa [hpage k hk])
  unfold markBlock
  split
  · rw [Nat.add_sub_assoc (by omega), Nat.add_sub_assoc (by omega)]
    exact (hmark _ _ (by omega)).trans (hmark _ _ (by omega))
  · exact (hmark s 0 (by omega)).trans (hmark _ 1 (by omega))

theorem writeCopy_effect (page : ℕ) : Effect g blocks entries s (writeCopy g f s page).2 := by
  have hfirst : Effect g blocks entries s (writeEccPage f s 0 page s.databuf).2 :=
    writeEccPage_effect g f s 0 page s.databuf
  unfold writeCopy
  split
  · rename_i s' heq
    rw [heq] at hfirst
    split
    · refine hfirst.trans (Effect.trans ?_ (writeEccPage_effect g f _ _ _ _))
      exact Effect.of_eq rfl rfl
    · exact hfirst
  · rename_i s' _ heq
    rw [heq] at hfirst
    exact hfirst

theorem rtkUpdateBbt_effect (h₁ : blocks (0, 1)) (h₂ : blocks (0, 2)) :
    Effect g blocks entries s (rtkUpdateBbt g f s).2 := by
  have hone : g.ppb / g.ppb = 1 := Nat.div_self g.ppb_pos
  have htwo : 2 * g.ppb / g.ppb = 2 := Nat.mul_div_cancel _ g.ppb_pos
  unfold rtkUpdateBbt
  split
  · exact Effect.refl
  · dsimp only
    have hcopy : Effect g blocks entries s
        { (writeCopy g f (eraseBlock g f { s with databuf := firstPage g s } 0 g.ppb).2 g.ppb).2 with
          databuf := firstPage g s } := by
      have hbuf : Effect g blocks entries s { s with databuf := firstPage g s } := Effect.of_eq rfl rfl
      refine (hbuf.trans (eraseBlock_effect g f _ 0 g.ppb (by rwa [hone]))).trans ?_
      exact (writeCopy_effect g f _ g.ppb).trans (Effect.of_eq rfl rfl)
    have herase := hcopy.trans (eraseBlock_effect g f _ 0 (2 * g.ppb) (by rwa [htwo]))
    split
    · rename_i s' heq
      rw [heq] at herase
      exact herase.trans (writeCopy_effect g f s' _)
    · rename_i s' _ heq
      rw [heq] at herase
      exact herase

omit s

/-- The entry whose reserve block is chosen next. -/
def chosen (bbt : List BBt) : Option BBt :=
  bbt.find? fun e => e.badBlock = bbInit ∧ e.remapBlock ≠ rbInit

/-- Recording a block makes one new entry out of the chosen one, whose reserve block is kept. -/
theorem recordBad_spec {die blk : ℕ} {bbt t : List BBt} {e : BBt} (h : recordBad die blk bbt = some (t, e)) :
    e ∈ t ∧ (∀ e' ∈ t, e' ∈ bbt ∨ e' = e) ∧
      ∃ e₀, chosen bbt = some e₀ ∧ e = { e₀ with bbDie := die % 2 ^ 16, badBlock := blk % 2 ^ 16 } := by
  induction bbt generalizing t with
  | nil => cases h
  | cons a bbt ih =>
    unfold recordBad takeFree at h
    unfold chosen
    rw [List.find?_cons]
    split at h
    · rename_i hfree
      cases h
      refine ⟨List.mem_cons_self, fun e' he' => ?_, a, by rw [decide_eq_true hfree], rfl⟩
      rcases List.mem_cons.mp he' with rfl | he'
      · exact Or.inr rfl
      · exact Or.inl (List.mem_cons_of_mem _ he')
    · rename_i hfree
      obtain ⟨⟨t', e'⟩, ht', heq⟩ := Option.map_eq_some_iff.mp h
      cases heq
      obtain ⟨hmem, hold, hchosen⟩ := ih ht'
      rw [decide_eq_false hfree]
      refine ⟨List.mem_cons_of_mem _ hmem, fun e' he' => ?_, hchosen⟩
      rcases List.mem_cons.mp he' with rfl | he'
      · exact Or.inl List.mem_cons_self
      · exact (hold e' he').imp_left (List.mem_cons_of_mem _)

end Pieces

section Handlers

variable {g : Geometry} {f : Faults} {pagePpb : ℕ} {s : Nand} {c : Cursor}

/-- The failing page lies in the first block of the request, on the die the handlers work on, and is not recorded yet.
-/
structure InFirstBlock (pagePpb : ℕ) (bbt : List BBt) (c : Cursor) : Prop where
  block : c.block = pagePpb
  die : c.activeChip = c.errChipnr
  unrecorded : checkBBT bbt pagePpb = 0

/-- The block with the failing page, the reserve block chosen for it, and the two blocks of the table. -/
def HandlerBlocks (bbt : List BBt) (c : Cursor) (b : ℕ × ℕ) : Prop :=
  b = (c.activeChip, c.block) ∨ (∃ e, chosen bbt = some e ∧ b = (e.rbDie, e.remapBlock)) ∨
    b = (0, 1) ∨ b = (0, 2)

/-- The new entry records the block with the failing page. -/
def HandlerEntries (c : Cursor) (e : BBt) : Prop :=
  e.bbDie = c.activeChip % 2 ^ 16 ∧ e.badBlock = c.block

theorem recordBad_effect {t : List BBt} {e : BBt} {blocks : ℕ × ℕ → Prop}
    (hc : InFirstBlock pagePpb s.bbt c) (hlt : pagePpb < 2 ^ 16)
    (h : recordBad c.errChipnr pagePpb s.bbt = some (t, e)) :
    Effect g blocks (HandlerEntries c) s { s with bbt := t } := by
  obtain ⟨-, hold, e₀, -, he⟩ := recordBad_spec h
  refine ⟨⟨[], (List.append_nil _).symm, fun _ hb => absurd hb List.not_mem_nil⟩, fun e' he' => ?_⟩
  refine (hold e' he').imp_right fun heq => ?_
  rw [heq, he, ← hc.die]
  exact ⟨rfl, by rw [Nat.mod_eq_of_lt hlt, hc.block]⟩

theorem readFailed_effect (hc : InFirstBlock pagePpb s.bbt c)
    (hlt : pagePpb < 2 ^ 16) :
    Effect g (HandlerBlocks s.bbt c) (HandlerEntries c) s (readFailed g f pagePpb s c).2 := by
  have h₁ : HandlerBlocks s.bbt c (0, 1) := Or.inr (Or.inr (Or.inl rfl))
  have h₂ : HandlerBlocks s.bbt c (0, 2) := Or.inr (Or.inr (Or.inr rfl))
  have hblock : HandlerBlocks s.bbt c (c.activeChip, pagePpb) := Or.inl (by rw [hc.block])
  have hrecord : Effect g (HandlerBlocks s.bbt c) (HandlerEntries c) s (readRecord g f pagePpb s c).2 := by
    unfold readRecord
    rw [if_pos hc.unrecorded]
    split
    · rename_i t e heq
      exact (recordBad_effect hc hlt heq).trans (rtkUpdateBbt_effect g f _ h₁ h₂)
    · exact rtkUpdateBbt_effect g f s h₁ h₂
  unfold readFailed
  split
  · rename_i s' heq
    rw [heq] at hrecord
    refine hrecord.trans ((eraseBlock_effect g f s' c.activeChip (pagePpb * g.ppb) ?_).trans
      (markBlock_effect g _ c.activeChip pagePpb hblock))
    rwa [Nat.mul_div_cancel _ g.ppb_pos]
  · rename_i s' heq
    rw [heq] at hrecord
    exact hrecord

theorem writeFailed_effect {w : Writing} (hc : InFirstBlock pagePpb w.nand.bbt w.cur) (hlt : pagePpb < 2 ^ 16)
    (hremap : ∀ e ∈ w.nand.bbt, e.remapBlock < 2 ^ 16) (hnone : w.blockRemap = noRemap) :
    (∃ w', writeFailed g f pagePpb w = .ok w' ∧
        Effect g (HandlerBlocks w.nand.bbt w.cur) (HandlerEntries w.cur) w.nand w'.nand) ∨
      ∃ s, writeFailed g f pagePpb w = .error s ∧
        Effect g (HandlerBlocks w.nand.bbt w.cur) (HandlerEntries w.cur) w.nand s := by
  have h₁ : HandlerBlocks w.nand.bbt w.cur (0, 1) := Or.inr (Or.inr (Or.inl rfl))
  have h₂ : HandlerBlocks w.nand.bbt w.cur (0, 2) := Or.inr (Or.inr (Or.inr rfl))
  have hblock : HandlerBlocks w.nand.bbt w.cur (w.cur.activeChip, pagePpb) := Or.inl (by rw [hc.block])
  unfold writeFailed writeRecord
  rw [if_pos hc.unrecorded]
  cases hrec : recordBad w.cur.errChipnr pagePpb w.nand.bbt with
  | none =>
    rw [if_pos hnone]
    exact Or.inr ⟨w.nand, rfl, Effect.refl⟩
  | some r =>
    obtain ⟨t, e⟩ := r
    obtain ⟨-, -, e₀, hchosen, he⟩ := recordBad_spec hrec
    have he₀ : e₀ ∈ w.nand.bbt := List.mem_of_find?_eq_some hchosen
    have hupdate : Effect g (HandlerBlocks w.nand.bbt w.cur) (HandlerEntries w.cur) w.nand
        (rtkUpdateBbt g f { w.nand with bbt := t }).2 :=
      (recordBad_effect hc hlt hrec).trans (rtkUpdateBbt_effect g f _ h₁ h₂)
    dsimp only
    split
    · rename_i s heq
      rw [heq] at hupdate
      refine Or.inl ⟨_, rfl, hupdate.trans ?_⟩
      -- the page of a 16-bit block number does not wrap
      have hpage : remapPage g e.remapBlock / g.ppb = e.remapBlock := by
        have hbound := hremap e₀ he₀
        have hle := g.ppb_le
        rw [remapPage, Nat.mod_eq_of_lt, Nat.mul_div_cancel _ g.ppb_pos]
        rw [he]
        calc e₀.remapBlock * g.ppb ≤ e₀.remapBlock * 256 := Nat.mul_le_mul_left _ hle
          _ < 2 ^ 32 := by omega
      have hactive : (if w.cur.errChipnr ≠ e.rbDie then { w.cur with activeChip := w.cur.errChipnr }
          else w.cur).activeChip = w.cur.activeChip := by
        split
        · exact hc.die.symm
        · rfl
      unfold writeReplace
      dsimp only
      rw [hactive]
      refine (eraseBlock_effect g f s e.rbDie _ ?_).trans ((eraseBlock_effect g f _ w.cur.errChipnr _ ?_).trans
        (markBlock_effect g _ w.cur.activeChip pagePpb hblock))
      · rw [hpage, he]
        exact Or.inr (Or.inl ⟨e₀, hchosen, rfl⟩)
      · rwa [Nat.mul_div_cancel _ g.ppb_pos, ← hc.die]
    · rename_i s heq
      rw [heq] at hupdate
      exact Or.inr ⟨s, rfl, hupdate⟩

end Handlers

/-! ## The states of a request -/

section States

variable (g : Geometry) (f : Faults) (pagePpb : ℕ)

def readStates : ℕ → Nand → Cursor → List (Nand × Cursor)
  | 0, _, _ => []
  | n + 1, s, c => (s, c) ::
    match readPass g f pagePpb s c with
    | .error _ => []
    | .ok (_, s, c) => readStates n s (c.advance g 1 (n ≠ 0))

def writeStates : List (List UInt8) → Writing → List (List UInt8 × Writing)
  | [], _ => []
  | data :: rest, w => (data, w) ::
    match writePass g f pagePpb data w with
    | .error _ => []
    | .ok w => writeStates rest { w with cur := w.cur.advance g 1 (rest ≠ []) }

def readAfter : Except Nand (List UInt8 × Nand × Cursor) → Nand
  | .error s => s
  | .ok (_, s, _) => s

def writeAfter : Except Nand Writing → Nand
  | .error s => s
  | .ok w => w.nand

/-- **Confined**, at a page: if it fails in the first block of the request, only that block, the reserve block and the
blocks of the table are touched, and only that block is recorded; otherwise nothing is. -/
def Confined (s : Nand) (c : Cursor) (s' : Nand) : Prop :=
  (s.report f = .failed → InFirstBlock pagePpb s.bbt (lookupRemap s.bbt c) →
    Effect g (HandlerBlocks s.bbt (lookupRemap s.bbt c)) (HandlerEntries (lookupRemap s.bbt c)) s s') ∧
  (s.report f ≠ .failed → Effect g (fun _ => False) (fun _ => False) s s')

variable {g f pagePpb} {w w' : Writing}

theorem readPass_confined (hlt : pagePpb < 2 ^ 16) (s : Nand) (c : Cursor) :
    Confined g f pagePpb s c (readAfter (readPass g f pagePpb s c)) := by
  have hread : ∀ blocks entries, Effect g blocks entries s (readEccPage f s
      (lookupRemap s.bbt c).activeChip ((lookupRemap s.bbt c).page g)).2.2 :=
    fun _ _ => readEccPage_effect g f s _ _
  unfold readPass
  dsimp only
  split
  · rename_i data s' heq
    have hrep : s.report f = .ok := congrArg (fun r => r.1) heq
    rw [heq] at hread
    exact ⟨fun hfail => absurd (hrep.symm.trans hfail) (by decide), fun _ => hread _ _⟩
  · rename_i data s' heq
    have hrep : s.report f = .failed := congrArg (fun r => r.1) heq
    have hbbt : s'.bbt = s.bbt := congrArg (fun r => r.2.2.bbt) heq.symm
    rw [heq] at hread
    refine ⟨fun _ hc => ?_, fun hne => absurd hrep hne⟩
    rw [← hbbt] at hc
    have heff := readFailed_effect (f := f) (g := g) hc hlt
    rw [hbbt] at heff
    split
    · rename_i s'' heq'
      rw [heq'] at heff
      exact (hread _ _).trans heff
    · rename_i s'' heq'
      rw [heq'] at heff
      exact (hread _ _).trans heff
  · rename_i data s' heq
    have hrep : s.report f = .refused := congrArg (fun r => r.1) heq
    rw [heq] at hread
    exact ⟨fun hfail => absurd (hrep.symm.trans hfail) (by decide), fun _ => hread _ _⟩

/-- In every state of a write reserve blocks are 16-bit numbers, and one is chosen only if the first block is
recorded. -/
structure WriteInv (pagePpb : ℕ) (w : Writing) : Prop where
  remap : ∀ e ∈ w.nand.bbt, e.remapBlock < 2 ^ 16
  chosen : checkBBT w.nand.bbt pagePpb = 0 → w.blockRemap = noRemap

variable (hlt : pagePpb < 2 ^ 16)

include hlt

variable (h : WriteInv pagePpb w)

include h

theorem writePass_confined (data : List UInt8) :
    Confined g f pagePpb w.nand w.cur (writeAfter (writePass g f pagePpb data w)) := by
  have hprog : ∀ blocks entries, Effect g blocks entries w.nand (writeEccPage f w.nand
      (lookupRemap w.nand.bbt w.cur).activeChip ((lookupRemap w.nand.bbt w.cur).page g) data).2 :=
    fun _ _ => writeEccPage_effect g f w.nand _ _ _
  unfold writePass
  dsimp only
  split
  · rename_i s' heq
    have hrep : w.nand.report f = .ok := congrArg (fun r => r.1) heq
    rw [heq] at hprog
    exact ⟨fun hfail => absurd (hrep.symm.trans hfail) (by decide), fun _ => hprog _ _⟩
  · rename_i s' heq
    have hrep : w.nand.report f = .failed := congrArg (fun r => r.1) heq
    have hbbt : s'.bbt = w.nand.bbt := congrArg (fun r => r.2.bbt) heq.symm
    rw [heq] at hprog
    refine ⟨fun _ hc => ?_, fun hne => absurd hrep hne⟩
    have hc' : InFirstBlock pagePpb s'.bbt (lookupRemap w.nand.bbt w.cur) := by rwa [hbbt]
    have heff := writeFailed_effect (f := f) (g := g)
      (w := { w with nand := s', cur := lookupRemap w.nand.bbt w.cur }) hc' hlt (hbbt ▸ h.remap)
      (h.chosen hc.unrecorded)
    rw [hbbt] at heff
    rcases heff with ⟨w', hw', heff⟩ | ⟨s'', hs'', heff⟩
    · rw [hw']
      exact (hprog _ _).trans heff
    · rw [hs'']
      exact (hprog _ _).trans heff
  · rename_i s' heq
    have hrep : w.nand.report f = .refused := congrArg (fun r => r.1) heq
    rw [heq] at hprog
    exact ⟨fun hfail => absurd (hrep.symm.trans hfail) (by decide), fun _ => hprog _ _⟩

theorem WriteInv.record
    (hrec : writeRecord pagePpb w = some w') : WriteInv pagePpb w' := by
  unfold writeRecord at hrec
  split at hrec
  · rename_i hcheck
    split at hrec
    · rename_i t e heq
      cases hrec
      obtain ⟨hmem, hold, e₀, hchosen, he⟩ := recordBad_spec heq
      constructor
      · intro e' he'
        rcases hold e' he' with he' | rfl
        · exact h.remap e' he'
        · rw [he]
          exact h.remap e₀ (List.mem_of_find?_eq_some hchosen)
      · intro hzero
        refine absurd ?_ (checkBBT_eq_zero.mp hzero e hmem)
        rw [he]
        exact Nat.mod_eq_of_lt hlt
    · rw [if_pos (h.chosen hcheck)] at hrec
      cases hrec
  · cases hrec
    exact h

theorem WriteInv.pass {data : List UInt8}
    (hpass : writePass g f pagePpb data w = .ok w') : WriteInv pagePpb w' := by
  unfold writePass at hpass
  dsimp only at hpass
  split at hpass
  · rename_i s' heq
    have hbbt : s'.bbt = w.nand.bbt := congrArg (fun r => r.2.bbt) heq.symm
    cases hpass
    exact ⟨hbbt ▸ h.remap, hbbt ▸ h.chosen⟩
  · rename_i s' heq
    have hbbt : s'.bbt = w.nand.bbt := congrArg (fun r => r.2.bbt) heq.symm
    have hinv : WriteInv pagePpb { w with nand := s', cur := lookupRemap w.nand.bbt w.cur } :=
      ⟨hbbt ▸ h.remap, hbbt ▸ h.chosen⟩
    unfold writeFailed at hpass
    split at hpass
    · cases hpass
    · rename_i w₁ hrec
      have hinv := hinv.record hlt hrec
      split at hpass
      · rename_i s'' hupd
        have hbbt' : s''.bbt = w₁.nand.bbt := by rw [← rtkUpdateBbt_bbt g f w₁.nand, hupd]
        cases hpass
        constructor
        · intro e he
          refine hinv.remap e (hbbt' ▸ ?_)
          simpa [writeReplace] using he
        · intro hzero
          refine hinv.chosen (hbbt' ▸ ?_)
          simpa [writeReplace] using hzero
      · cases hpass
  · cases hpass

omit h

theorem writeStates_confined (pages : List (List UInt8))
    (h : WriteInv pagePpb w) : ∀ p ∈ writeStates g f pagePpb pages w,
      Confined g f pagePpb p.2.nand p.2.cur (writeAfter (writePass g f pagePpb p.1 p.2)) := by
  induction pages generalizing w with
  | nil => exact fun p hp => absurd hp List.not_mem_nil
  | cons data rest ih =>
    intro p hp
    rcases List.mem_cons.mp hp with rfl | hp
    · exact writePass_confined hlt h data
    · split at hp
      · cases hp
      · rename_i w' hw'
        have hinv := h.pass hlt hw'
        exact ih (w := { w' with cur := w'.cur.advance g 1 (decide (rest ≠ [])) }) ⟨hinv.remap, hinv.chosen⟩ p hp

omit hlt

variable (g) in
theorem Cursor.start_block_lt (addr : ℕ) : (Cursor.start g addr).block < 2 ^ 16 := by
  have hpages : 0 < g.pages := Nat.mul_pos g.blockNum_pos g.ppb_pos
  have hlt : (Cursor.start g addr).block < g.blockNum :=
    Nat.div_lt_of_lt_mul (Nat.mul_comm g.blockNum g.ppb ▸ Nat.mod_lt _ hpages)
  exact Nat.lt_trans (Nat.lt_of_lt_of_le hlt g.blockNum_le) (by decide)

end States

end NasFirmware.Nand
