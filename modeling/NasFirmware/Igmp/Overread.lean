import NasFirmware.Igmp.Probes

/-!
# Which packets are parsed within their length

For the build with IGMPv3 there are also the sources of a record to look at: a group that has none shows which were
added, even if there is memory for one of them only.

* **`sourcesIn_of_same`**: if stale bytes never show, the sources were received;
* **`packets_within_iff`**: a packet changes the groups in the same way, whatever was in the buffer before, exactly if
  the bytes that count were received. This is so in both builds.
-/

namespace NasFirmware.Igmp

open Keyed ByteMem

/-! ## A group without sources -/

/-- An excluding group without sources, which another host is a member of. -/
structure Hollow (src : Addr) (e : McftEntry) : Prop where
  wf : Wf e
  mode : e.filterMode = .mcastExclude
  srclist : e.srclist = []
  other : ∃ u ∈ e.grpMbr, u ≠ src

variable {cfg : Config} {src s : Addr} {type : RecordType}

section

variable {group g u : Addr} {sources : List Reported} {e : McftEntry} {w : World} {st : State} {t : Timer}

theorem mem_srcaddr_iff {l : List SrcEntry} {n : ℕ} (h : leftOf l s = if ⟨s, true⟩ ∈ sources then some n else none) :
    s ∈ l.map SrcEntry.srcaddr ↔ ⟨s, true⟩ ∈ sources := by
  rw [← not_iff_not, ← leftOf_eq_none_iff, h]
  split_ifs with hmem
  · exact iff_of_false nofun (not_not.mpr hmem)
  · exact iff_of_true rfl hmem

theorem newSources_nil : newSources [] sources = sources := List.filter_eq_self.mpr fun _ _ => rfl

theorem mem_foldl_putSrc :
    s ∈ (sources.foldl (putSrc t) []).map SrcEntry.srcaddr ↔ ⟨s, true⟩ ∈ sources := by
  have hleft : leftOf ((newSources [] sources).foldl (putSrc t) []) s = _ := leftOf_foldl_new
  rw [newSources_nil] at hleft
  exact mem_srcaddr_iff hleft

theorem mem_exclusive : s ∈ (exclusive sources t []).map SrcEntry.srcaddr ↔ ⟨s, true⟩ ∈ sources := by
  have hdist : DistinctSrcs [] := List.nodup_nil
  have hnone : leftOf [] s = none := rfl
  refine mem_srcaddr_iff (n := t.lefttime) ((leftOf_exclusive hdist).trans ?_)
  split_ifs with hrep hmem hmem
  · rfl
  · rfl
  · exact absurd (checkSrc_iff.mpr ⟨_, hmem, rfl⟩) hrep
  · rfl

theorem mem_body_srclist (hmode : e.filterMode = .mcastExclude) (hnil : e.srclist = []) :
    s ∈ (type.body cfg src sources e w).entry.srclist.map SrcEntry.srcaddr ↔ ⟨s, true⟩ ∈ sources := by
  have hne : e.filterMode ≠ .mcastInclude := by
    rw [hmode]
    decide
  cases type with
  | modeIsInclude | allowNewSources =>
    change s ∈ (isin cfg src sources e w).entry.srclist.map _ ↔ _
    rw [isin_entry, hnil]
    exact mem_foldl_putSrc
  | modeIsExclude =>
    change s ∈ (isex cfg src sources e w).entry.srclist.map _ ↔ _
    rw [isex_entry, hnil]
    exact mem_exclusive
  | changeToInclude =>
    have hlist : (toin cfg src sources e w).entry.srclist = (toinSources cfg src sources e w).1.srclist := by
      rw [toin_entry]
      split_ifs
      · exact delUser_frame.2.2.2.1
      · rfl
    change s ∈ (toin cfg src sources e w).entry.srclist.map _ ↔ _
    rw [hlist, toinSources_entry, map_lowerOld, hnil]
    exact mem_foldl_putSrc
  | changeToExclude =>
    change s ∈ (toex cfg src sources e w).entry.srclist.map _ ↔ _
    rw [toex_srclist_exclude hmode, map_lower, hnil]
    exact mem_exclusive
  | blockOldSources =>
    change s ∈ (block cfg src sources e w).entry.srclist.map _ ↔ _
    rw [block_entry, if_neg hne, map_lower, hnil, newSources_nil]
    exact mem_foldl_putSrc

theorem mem_addUser_grpMbr (h : u ∈ e.grpMbr) : u ∈ (addUser e w src).1.grpMbr := by
  unfold addUser
  split_ifs
  · exact h
  · exact h
  · exact List.mem_cons_of_mem src h

theorem mem_body_grpMbr (h : u ∈ e.grpMbr) (hne : u ≠ src) : u ∈ (type.body cfg src sources e w).entry.grpMbr := by
  rw [body_grpMbr]
  split_ifs
  · exact (List.mem_erase_of_ne hne).mpr h
  · exact h
  · exact mem_addUser_grpMbr h

theorem Hollow.drop_eq_false (h : Hollow src e) : (type.body cfg src sources e w).drop = false := by
  refine Bool.eq_false_iff.mpr fun hdrop => ?_
  obtain ⟨u, hu, hne⟩ := h.other
  have hmem := (List.mem_erase_of_ne hne).mpr hu
  rw [((body_drop_iff h.wf).mp hdrop).2.2] at hmem
  cases hmem

theorem Hollow.body (h : Hollow src e) (hsources : ∀ r ∈ sources, r.malloc = false) :
    Hollow src (type.body cfg src sources e w).entry := by
  obtain ⟨u, hu, hne⟩ := h.other
  refine ⟨?_, ?_, ?_, u, mem_body_grpMbr hu hne, hne⟩
  · by_cases htype : type = .changeToExclude
    · rw [htype]
      exact wf_toex h.wf
    · exact wf_body h.wf htype
  · rw [body_filterMode, h.mode]
    cases type <;> rfl
  · refine List.eq_nil_iff_forall_not_mem.mpr fun x hx => ?_
    have hmem := (mem_body_srclist h.mode h.srclist).mp (List.mem_map_of_mem hx)
    cases hsources _ hmem

structure Has (group src : Addr) (st : State) : Prop where
  distinct : Distinct McftEntry.grpAddr st.mcpq
  hollow : ∃ e, getMcft st group = some e ∧ Hollow src e

theorem onGroup_frame {body : McftEntry → World → Outcome} (hdist : Distinct McftEntry.grpAddr st.mcpq)
    (hgrp : ∀ e w, (body e w).entry.grpAddr = e.grpAddr) :
    Distinct McftEntry.grpAddr (onGroup st group src body).mcpq ∧
    (g ≠ group → getMcft (onGroup st group src body) g = getMcft st g) := by
  have happly : ∀ {st' : State}, Distinct McftEntry.grpAddr st'.mcpq →
      (g ≠ group → getMcft st' g = getMcft st g) → Distinct McftEntry.grpAddr (apply st' group body).mcpq ∧
      (g ≠ group → getMcft (apply st' group body) g = getMcft st g) := by
    intro st' hdist' hget'
    have hgrp' : ∀ e, getMcft st' group = some e → (body e st'.world).entry.grpAddr = group :=
      fun e he => (hgrp e _).trans (grpAddr_of_getMcft he)
    refine ⟨distinct_apply hdist' hgrp', fun hne => ?_⟩
    rw [getMcft_apply_eq hdist' hgrp', if_neg hne, hget' hne]
  unfold onGroup
  split_ifs with hmulti hres hsome
  · exact ⟨hdist, fun _ => rfl⟩
  · exact ⟨hdist, fun _ => rfl⟩
  · exact happly hdist fun _ => rfl
  · have hnew := Option.not_isSome_iff_eq_none.mp hsome
    unfold addMcft
    split_ifs
    · exact ⟨hdist, fun _ => rfl⟩
    · exact ⟨hdist, fun _ => rfl⟩
    · exact happly (List.nodup_cons.mpr ⟨get_eq_none_iff.mp hnew, hdist⟩) fun hne => if_neg hne.symm

theorem has_acceptRecord (h : Has group src st) {r : Record} (hsources : ∀ x ∈ r.sources, x.malloc = false) :
    Has group src (acceptRecord cfg src st r) := by
  unfold acceptRecord
  split_ifs
  · exact h
  rw [handleRecord_eq]
  obtain ⟨e, hget, hhollow⟩ := h.hollow
  obtain ⟨hdist, hframe⟩ := @onGroup_frame src r.group group st (r.type.body cfg src r.sources) h.distinct
    fun e w => body_grpAddr
  refine ⟨hdist, ?_⟩
  by_cases hgroup : group = r.group
  · rw [← hgroup]
    by_cases hacts : Acts group
    · rw [onGroup_of_get hacts.1 hacts.2 hget]
      refine ⟨_, (getMcft_apply hget ?_ hhollow.drop_eq_false).trans (if_pos rfl), hhollow.body hsources⟩
      exact body_grpAddr.trans (grpAddr_of_getMcft hget)
    · rw [onGroup_of_not_acts hacts]
      exact ⟨e, hget, hhollow⟩
  · exact ⟨e, (hframe hgroup).trans hget, hhollow⟩

end

/-! ## Sources -/

/-- There is memory for one source only: the one that stands at `p` in the buffer. -/
def only (p : ℕ) : ℕ → Bool := fun q => decide (q = p)

section

variable {mem : Mem} {n k c : ℕ} {m : Mem} {i : ℕ}

theorem mem_grecSrc_only (hi : i < grecNsrcs m c) :
    ⟨s, true⟩ ∈ grecSrc (only (c + 8 + 4 * i)) m c ↔ s = beU32 m (c + 8 + 4 * i) := by
  unfold grecSrc only
  rw [List.mem_map]
  constructor
  · rintro ⟨j, -, hj⟩
    obtain ⟨hsrc, hmalloc⟩ := Reported.mk.inj hj
    rw [← of_decide_eq_true hmalloc]
    exact hsrc.symm
  · rintro rfl
    exact ⟨i, List.mem_range.mpr hi, by rw [decide_eq_true rfl]⟩

theorem Has.getMcft_only {st : State} {group : Addr} (h : Has group src st)
    (hacts : (handled group && group != allPrinter) = true) (hi : i < grecNsrcs m c) :
    ∃ e, getMcft (acceptRecord cfg src st ⟨type, group, grecSrc (only (c + 8 + 4 * i)) m c⟩) group = some e ∧
      ∀ s, s ∈ e.srclist.map SrcEntry.srcaddr ↔ s = beU32 m (c + 8 + 4 * i) := by
  obtain ⟨e, hget, hhollow⟩ := h.hollow
  rw [acceptRecord_eq_apply hacts hget]
  refine ⟨_, (getMcft_apply hget ?_ hhollow.drop_eq_false).trans (if_pos rfl), fun s => ?_⟩
  · exact body_grpAddr.trans (grpAddr_of_getMcft hget)
  · exact (mem_body_srclist hhollow.mode hhollow.srclist).trans (mem_grecSrc_only hi)

/-- For the sources of a record further on there is memory; for those of this one there is none. -/
theorem malloc_grecSrc {p : ℕ} (hp : nextGrec m c ≤ p) : ∀ x ∈ grecSrc (only p) m c, x.malloc = false := by
  have hge := le_nextGrec m c
  intro x hx
  obtain ⟨i, hi, rfl⟩ := List.mem_map.mp hx
  have hi := List.mem_range.mp hi
  exact decide_eq_false (by omega)

/-- Whatever is behind the packet, the records from `c` on do the same to some table that has the group. -/
def SourcesSame (cfg : Config) (src : Addr) (mem : Mem) (n k c : ℕ) : Prop :=
  ∀ group p, c ≤ p → ∃ st, Has group src st ∧ ∀ mem', Agree n mem mem' →
    ((records (only p) mem' k c).foldl (acceptRecord cfg src) st).mcpq =
      ((records (only p) mem k c).foldl (acceptRecord cfg src) st).mcpq

/-- The sources of the next record. If the last byte is stale, the last source can be one or another. -/
theorem SourcesSame.le (h : SourcesSame cfg src mem n (k + 1) c) (hc : c + 8 ≤ n)
    (htype : grecType (mem c) = some type) (hacts : (igmpv3Build cfg).acts type (grecNsrcs mem c) (grecMca mem c) = true) :
    c + 8 + 4 * grecNsrcs mem c ≤ n := by
  by_contra hle
  obtain ⟨i, hi⟩ : ∃ i, grecNsrcs mem c = i + 1 := Nat.exists_eq_add_one_of_ne_zero (by omega)
  obtain ⟨st, hhas, hsame⟩ := h (grecMca mem c) (c + 8 + 4 * i) (by omega)
  set p := c + 8 + 4 * i with hp
  have hagree : ∀ x, Agree n mem (withByte n mem (p + 3) x) := fun x j hj => withByte_of_lt hj (by omega)
  have hcount : ∀ x, grecNsrcs (withByte n mem (p + 3) x) c = i + 1 := fun x => ((hagree x).beU16 (by omega)).trans hi
  have hrecords : ∀ x, records (only p) (withByte n mem (p + 3) x) (k + 1) c =
      [⟨type, grecMca mem c, grecSrc (only p) (withByte n mem (p + 3) x) c⟩] := by
    intro x
    have hmca : grecMca (withByte n mem (p + 3) x) c = grecMca mem c := (hagree x).beU32 (by omega)
    rw [← hmca]
    refine records_single ?_ (fun j hj => ?_) k
    · rw [hagree x c (by omega)]
      exact htype
    · have hge := le_nextGrec (withByte n mem (p + 3) x) c
      rw [hcount] at hge
      exact withByte_of_ge (by omega) (by omega)
  have hresult : ∀ x, ∃ e, getMcft ((records (only p) (withByte n mem (p + 3) x) (k + 1) c).foldl
      (acceptRecord cfg src) st) (grecMca mem c) = some e ∧
      ∀ s, s ∈ e.srclist.map SrcEntry.srcaddr ↔ s = beU32 (withByte n mem (p + 3) x) p := by
    intro x
    rw [hrecords]
    exact hhas.getMcft_only hacts (by rw [hcount x]; exact Nat.lt_succ_self i)
  obtain ⟨e₁, hget₁, hsrcs₁⟩ := hresult 1
  obtain ⟨e₂, hget₂, hsrcs₂⟩ := hresult 2
  have hmcpq := (hsame _ (hagree 1)).trans (hsame _ (hagree 2)).symm
  have heq : some e₁ = some e₂ :=
    hget₁.symm.trans ((congrArg (Keyed.get McftEntry.grpAddr (grecMca mem c)) hmcpq).trans hget₂)
  cases heq
  exact beU32_update_ne _ p (by decide) ((hsrcs₂ _).mp ((hsrcs₁ _).mpr rfl))

/-- **The sources.** -/
theorem sourcesIn_of_same (hheaders : HeadersIn (igmpv3Build cfg).acts mem n k c) (h : SourcesSame cfg src mem n k c) :
    SourcesIn (igmpv3Build cfg).acts mem n k c := by
  induction k generalizing c with
  | zero => exact trivial
  | succ k ih =>
    obtain ⟨hc, hrecord, hnext, hrest⟩ := hheaders
    have hsources : ∀ type, grecType (mem c) = some type →
        (igmpv3Build cfg).acts type (grecNsrcs mem c) (grecMca mem c) = true → c + 8 + 4 * grecNsrcs mem c ≤ n := by
      intro type htype hacts
      refine h.le ((hrecord type htype).resolve_right fun hnot => ?_) htype hacts
      exact Bool.false_ne_true ((hnot mem (agree_refl n mem)).symm.trans hacts)
    refine ⟨hsources, ?_⟩
    cases k with
    | zero => exact trivial
    | succ k =>
      have hle := hnext k.succ_ne_zero
      refine ih hrest fun group p hp => ?_
      have hge := le_nextGrec mem c
      obtain ⟨st, hhas, hsame⟩ := h group p (by omega)
      refine ⟨(record (only p) mem c).toList.foldl (acceptRecord cfg src) st, ?_, fun mem' hagree => ?_⟩
      · refine List.foldlRecOn _ _ hhas fun st hst r hr => has_acceptRecord hst ?_
        obtain ⟨type, -, rfl⟩ := Option.map_eq_some_iff.mp (Option.mem_toList.mp hr)
        exact malloc_grecSrc hp
      · have heq : ((records (only p) mem' (k + 1 + 1) c).foldl ((igmpv3Build cfg).acceptRecord src) st).mcpq =
            ((records (only p) mem (k + 1 + 1) c).foldl ((igmpv3Build cfg).acceptRecord src) st).mcpq :=
          hsame mem' hagree
        rw [foldl_records_succ mem', foldl_records_succ mem,
          (igmpv3Build cfg).record_congr hagree hc hrecord fun _ => hsources, nextGrec_congr hagree hle] at heq
        exact heq

end

/-! ## Both builds -/

def hollowEntry (group src : Addr) : McftEntry where
  grpAddr := group
  userCount := 1
  grpMbr := [src + 1]
  timer := ⟨1, 1⟩
  igmpVer := .v3
  filterMode := .mcastExclude
  srclist := []
  mrtState := false

theorem has_hollowEntry (group src : Addr) (w : World) : Has group src ⟨[hollowEntry group src], w⟩ := by
  refine ⟨List.nodup_singleton group, hollowEntry group src, if_pos rfl, ?_⟩
  refine ⟨⟨List.nodup_nil, nofun, fun _ => Nat.one_pos, rfl⟩, rfl, rfl, src + 1, List.mem_singleton_self _, ?_⟩
  exact fun heq => absurd (UInt32.add_eq_left.mp heq) (by decide)

/-- **A packet changes the groups in the same way, whatever was in the buffer, exactly if the bytes that count were
received.** -/
theorem packets_within_iff (cfg : Config) (isLocal : Addr → Bool) (mem : Mem) (n : ℕ) (hn : n ≤ recvBufSize) :
    ((∀ malloc st mem', Agree n mem mem' →
      (igmpv3AcceptBuf cfg malloc isLocal st mem' n).mcpq = (igmpv3AcceptBuf cfg malloc isLocal st mem n).mcpq) ↔
      PacketIn (igmpv3Build cfg) isLocal mem n) ∧
    ((∀ st mem', Agree n mem mem' →
      (Plain.igmpAcceptBuf isLocal st mem' n).table = (Plain.igmpAcceptBuf isLocal st mem n).table) ↔
      PacketIn Plain.build isLocal mem n) := by
  refine ⟨⟨fun h => ?_, fun h malloc st mem' hagree => ?_⟩, ⟨fun h => ?_, fun h st mem' hagree => ?_⟩⟩
  · refine Fixed.packetIn (igmpv3Probe cfg) (h fun _ => true) hn fun _ hlen href htype hle hheaders => ?_
    refine @sourcesIn_of_same cfg (saddr mem) mem n _ _ hheaders fun group p _ => ?_
    refine ⟨_, has_hollowEntry group _ init.world, fun mem' hagree => ?_⟩
    have heq := @Fixed.acceptIgmp_eq State _ (igmpv3Build cfg) State.mcpq (only p) isLocal mem n (h (only p)) hlen href
      ⟨[hollowEntry group (saddr mem)], init.world⟩ mem' mem hagree (agree_refl n mem)
    rw [acceptIgmp_reportV3 htype, acceptIgmp_reportV3 ((hagree _ (by omega)).trans htype), saddr_congr hagree hlen,
      hagree.beU16 (by omega)] at heq
    exact heq
  · exact congrArg State.mcpq ((igmpv3Build cfg).acceptBuf_congr h hagree st)
  · exact Fixed.packetIn Plain.probe h hn nofun
  · exact congrArg Plain.State.table (Plain.build.acceptBuf_congr h hagree st)

/-- A report of version 3 from `192.168.1.2` that announces one record. With its header of `20` bytes it has `28`. -/
def shortReport : List UInt8 :=
  [0x45, 0, 0, 28, 0, 0, 0, 0, 1, 2, 0, 0, 192, 168, 1, 2, 224, 0, 0, 22, 0x22, 0, 0, 0, 0, 0, 0, 1]

def joinReport : List UInt8 := shortReport ++ [4, 0, 0, 0, 225, 1, 1, 1]

def bufferOf (bytes : List UInt8) : Mem := fun i => bytes.getD i 0

/-- With the record, the packet has `36` bytes, and what is behind them does not matter. -/
theorem joinReport_within : 36 ≤ recvBufSize ∧ ∀ st mem', Agree 36 (bufferOf joinReport) mem' →
    (Plain.igmpAcceptBuf (fun _ => false) st mem' 36).table =
      (Plain.igmpAcceptBuf (fun _ => false) st (bufferOf joinReport) 36).table := by
  refine ⟨by decide, ?_⟩
  refine (packets_within_iff plainConfig (fun _ => false) (bufferOf joinReport) 36 (by decide)).2.mpr (.inr (.inr ?_))
  refine ⟨by decide, fun h => absurd h (by decide), fun h => absurd h (by decide), fun _ => ⟨by decide, ?_, nofun⟩⟩
  exact ⟨by decide, fun _ _ => .inl (by decide), fun h => absurd rfl h, trivial⟩

/-- **Stale bytes join a group.** Only the short report was received. -/
theorem shortReport_stale :
    Agree 28 (bufferOf shortReport) (bufferOf joinReport) ∧
    (igmpv3AcceptBuf plainConfig (fun _ => true) (fun _ => false) init (bufferOf shortReport) 28).mcpq = [] ∧
    (igmpv3AcceptBuf plainConfig (fun _ => true) (fun _ => false) init (bufferOf joinReport) 28).mcpq ≠ [] ∧
    (Plain.igmpAcceptBuf (fun _ => false) Plain.init (bufferOf shortReport) 28).mcpq = [] ∧
    (Plain.igmpAcceptBuf (fun _ => false) Plain.init (bufferOf joinReport) 28).mcpq ≠ [] := by
  unfold Agree
  decide +kernel

end NasFirmware.Igmp
