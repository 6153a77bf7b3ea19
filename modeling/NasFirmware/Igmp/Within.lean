import NasFirmware.Igmp.Packet
import NasFirmware.Igmp.Runs

/-!
# Packets that end where they say

What a packet asks for is decided by some of its bytes, and by no others if these were received. Which bytes count
depends on the build: a record that is for no group the proxy looks after does nothing, whatever its sources are.

* **`Build.acceptBuf_congr`**: then the bytes behind the packet do not matter.
-/

namespace NasFirmware.Igmp

open ByteMem

/-- A build of the proxy: what a message and a record do; which groups they change; and if the sources are looked at.
-/
structure Build (S : Type) where
  accept : S → Message → S
  acceptRecord : Addr → S → Record → S
  actsReport : Addr → Bool
  actsLeave : Addr → Bool
  acts : RecordType → ℕ → Addr → Bool
  sources : Bool
  accept_reportV3 : ∀ st src rs, accept st (.reportV3 src rs) = rs.foldl (acceptRecord src) st
  accept_report : ∀ st group src, actsReport group = false → accept st (.report group src) = st
  accept_leave : ∀ st group src, actsLeave group = false → accept st (.leave group src) = st
  acceptRecord_inert : ∀ src st r, acts r.type r.sources.length r.group = false → acceptRecord src st r = st
  acceptRecord_count : sources = false → ∀ src st type group (l l' : List Reported), l'.length = l.length →
    acceptRecord src st ⟨type, group, l'⟩ = acceptRecord src st ⟨type, group, l⟩

def Build.acceptBuf {S : Type} (b : Build S) (malloc : ℕ → Bool) (isLocal : Addr → Bool) (st : S) (mem : Mem) (n : ℕ) :
    S :=
  match message malloc isLocal mem n with
  | none => st
  | some m => b.accept st m

section

variable (acts : RecordType → ℕ → Addr → Bool) (mem : Mem) (n : ℕ)

/-- The address at `p` was received, or what was received of it belongs to no group that counts. -/
def GroupIn (actsGroup : Addr → Bool) (p : ℕ) : Prop :=
  p + 4 ≤ n ∨ ∀ mem', Agree n mem mem' → actsGroup (beU32 mem' p) = false

def RecordIn (c : ℕ) : Prop :=
  ∀ type, grecType (mem c) = some type →
    c + 8 ≤ n ∨ ∀ mem', Agree n mem mem' → acts type (grecNsrcs mem' c) (grecMca mem' c) = false

/-- The headers of `k` records from `c` on: the type, the address, and the lengths if another record follows. -/
def HeadersIn : ℕ → ℕ → Prop
  | 0, _ => True
  | k + 1, c => c < n ∧ RecordIn acts mem n c ∧ (k ≠ 0 → c + 4 ≤ n) ∧ HeadersIn k (nextGrec mem c)

/-- The sources of the records that count. -/
def SourcesIn : ℕ → ℕ → Prop
  | 0, _ => True
  | k + 1, c =>
    (∀ type, grecType (mem c) = some type → acts type (grecNsrcs mem c) (grecMca mem c) = true →
      c + 8 + 4 * grecNsrcs mem c ≤ n) ∧ SourcesIn k (nextGrec mem c)

end

section

variable {S : Type} (b : Build S) (isLocal : Addr → Bool) (mem : Mem) (n : ℕ)

def MessageIn (h : ℕ) : Prop :=
  h < n ∧ (mem h = 0x12 ∨ mem h = 0x16 → GroupIn mem n b.actsReport (h + 4)) ∧
  (mem h = 0x17 → GroupIn mem n b.actsLeave (h + 4)) ∧
  (mem h = 0x22 → h + 8 ≤ n ∧ HeadersIn b.acts mem n (beU16 mem (h + 6)) (h + 8) ∧
    (b.sources = true → SourcesIn b.acts mem n (beU16 mem (h + 6)) (h + 8)))

/-- **The bytes that count were received.** -/
def PacketIn : Prop := n < 20 ∨ refused isLocal mem = true ∨ MessageIn b mem n (iphdrlen mem)

end

/-! ## They decide -/

section

variable {S : Type} {b : Build S} {malloc : ℕ → Bool} {isLocal : Addr → Bool} {mem mem' : Mem} {n : ℕ}
  {acts : RecordType → ℕ → Addr → Bool} {c : ℕ}

theorem length_grecSrc (malloc : ℕ → Bool) (mem : Mem) (c : ℕ) :
    (grecSrc malloc mem c).length = grecNsrcs mem c := by
  unfold grecSrc
  rw [List.length_map, List.length_range]

variable (hagree : Agree n mem mem')

include hagree

theorem grecSrc_congr (hin : c + 8 + 4 * grecNsrcs mem c ≤ n) :
    grecSrc malloc mem' c = grecSrc malloc mem c := by
  have hcount : grecNsrcs mem' c = grecNsrcs mem c := hagree.beU16 (by omega)
  unfold grecSrc
  rw [hcount]
  refine List.map_congr_left fun i hi => ?_
  have hi := List.mem_range.mp hi
  rw [hagree.beU32 (by omega)]

theorem Build.record_congr (hc : c < n) (hrecord : RecordIn b.acts mem n c)
    (hsources : b.sources = true → ∀ type, grecType (mem c) = some type →
      b.acts type (grecNsrcs mem c) (grecMca mem c) = true → c + 8 + 4 * grecNsrcs mem c ≤ n) (src : Addr) (st : S) :
    (record malloc mem' c).toList.foldl (b.acceptRecord src) st =
      (record malloc mem c).toList.foldl (b.acceptRecord src) st := by
  unfold record
  rw [hagree c hc]
  cases htype : grecType (mem c) with
  | none => rw [Option.map_none, Option.map_none]
  | some type =>
    change b.acceptRecord src st ⟨type, grecMca mem' c, grecSrc malloc mem' c⟩ =
      b.acceptRecord src st ⟨type, grecMca mem c, grecSrc malloc mem c⟩
    have hinert : ∀ m : Mem, b.acts type (grecNsrcs m c) (grecMca m c) = false →
        b.acceptRecord src st ⟨type, grecMca m c, grecSrc malloc m c⟩ = st := by
      intro m hm
      refine b.acceptRecord_inert src st _ ?_
      rw [length_grecSrc]
      exact hm
    rcases hrecord type htype with hin | hnot
    · have hmca : grecMca mem' c = grecMca mem c := hagree.beU32 (by omega)
      have hcount : grecNsrcs mem' c = grecNsrcs mem c := hagree.beU16 (by omega)
      cases hacts : b.acts type (grecNsrcs mem c) (grecMca mem c) with
      | false =>
        have hacts' : b.acts type (grecNsrcs mem' c) (grecMca mem' c) = false := by
          rw [hcount, hmca]
          exact hacts
        rw [hinert mem hacts, hinert mem' hacts']
      | true =>
        rw [hmca]
        cases hb : b.sources with
        | true => rw [grecSrc_congr hagree (hsources hb type htype hacts)]
        | false =>
          refine b.acceptRecord_count hb src st type _ _ _ ?_
          rw [length_grecSrc, length_grecSrc, hcount]
    · rw [hinert mem (hnot mem (agree_refl n mem)), hinert mem' (hnot mem' hagree)]

theorem nextGrec_congr (hc : c + 4 ≤ n) : nextGrec mem' c = nextGrec mem c := by
  unfold nextGrec
  rw [hagree (c + 1) (by omega), grecNsrcs, grecNsrcs, hagree.beU16 (by omega)]

/-- **The records.** -/
theorem Build.records_congr (src : Addr) {k : ℕ} (hheaders : HeadersIn b.acts mem n k c)
    (hsources : b.sources = true → SourcesIn b.acts mem n k c) (st : S) :
    (records malloc mem' k c).foldl (b.acceptRecord src) st =
      (records malloc mem k c).foldl (b.acceptRecord src) st := by
  induction k generalizing c st with
  | zero => rfl
  | succ k ih =>
    obtain ⟨hc, hrecord, hnext, hrest⟩ := hheaders
    unfold records
    rw [List.foldl_append, List.foldl_append, b.record_congr hagree hc hrecord fun hb => (hsources hb).1]
    cases k with
    | zero => rfl
    | succ k =>
      rw [nextGrec_congr hagree (hnext k.succ_ne_zero)]
      exact ih hrest (fun hb => (hsources hb).2) _

omit hagree

theorem GroupIn.congr {actsGroup : Addr → Bool} {p : ℕ} (h : GroupIn mem n actsGroup p) (hagree : Agree n mem mem')
    {f : Addr → S} {st : S} (hf : ∀ group, actsGroup group = false → f group = st) :
    f (beU32 mem' p) = f (beU32 mem p) := by
  rcases h with hin | hnot
  · rw [hagree.beU32 hin]
  · rw [hf _ (hnot mem' hagree), hf _ (hnot mem (agree_refl n mem))]

def Build.acceptIgmp (b : Build S) (malloc : ℕ → Bool) (st : S) (mem : Mem) (h : ℕ) : S :=
  match igmpMessage malloc mem h with
  | none => st
  | some m => b.accept st m

theorem saddr_congr (hagree : Agree n mem mem') (hn : ¬ n < 20) : saddr mem' = saddr mem := hagree.beU32 (by omega)

theorem refused_congr (hagree : Agree n mem mem') (hn : ¬ n < 20) : refused isLocal mem' = refused isLocal mem := by
  have hdaddr : daddr mem' = daddr mem := hagree.beU32 (by omega)
  unfold refused
  rw [saddr_congr hagree hn, hdaddr]

theorem Build.acceptBuf_eq (hagree : Agree n mem mem') (hn : ¬ n < 20) (href : ¬ refused isLocal mem = true) (st : S) :
    b.acceptBuf malloc isLocal st mem' n = b.acceptIgmp malloc st mem' (iphdrlen mem) := by
  have hlen : iphdrlen mem' = iphdrlen mem := by
    unfold iphdrlen
    rw [hagree 0 (by omega)]
  unfold Build.acceptBuf message
  rw [if_neg hn, refused_congr hagree hn, if_neg href, hlen]
  rfl

theorem Build.acceptBuf_of_refused (h : n < 20 ∨ refused isLocal mem = true) (hagree : Agree n mem mem') (st : S) :
    b.acceptBuf malloc isLocal st mem' n = st := by
  unfold Build.acceptBuf message
  by_cases hn : n < 20
  · rw [if_pos hn]
  rw [if_neg hn, refused_congr hagree hn, if_pos (h.resolve_left hn)]

/-- **The bytes that count decide.** -/
theorem Build.acceptBuf_congr (h : PacketIn b isLocal mem n) (hagree : Agree n mem mem') (st : S) :
    b.acceptBuf malloc isLocal st mem' n = b.acceptBuf malloc isLocal st mem n := by
  by_cases hlook : n < 20 ∨ refused isLocal mem = true
  · rw [b.acceptBuf_of_refused hlook hagree, b.acceptBuf_of_refused hlook (agree_refl n mem)]
  obtain ⟨hn, href⟩ := not_or.mp hlook
  rw [b.acceptBuf_eq hagree hn href, b.acceptBuf_eq (agree_refl n mem) hn href]
  have hsaddr := saddr_congr hagree hn
  obtain ⟨htype, hreport, hleave, hreportV3⟩ := (h.resolve_left hn).resolve_left href
  generalize iphdrlen mem = h at htype hreport hleave hreportV3
  unfold Build.acceptIgmp igmpMessage
  rw [hagree h htype, hsaddr]
  by_cases h12 : mem h = 0x12 ∨ mem h = 0x16
  · rw [if_pos h12, if_pos h12]
    exact (hreport h12).congr hagree fun group hg => b.accept_report st group _ hg
  rw [if_neg h12, if_neg h12]
  by_cases h22 : mem h = 0x22
  · rw [if_pos h22, if_pos h22]
    obtain ⟨hin, hheaders, hsources⟩ := hreportV3 h22
    change b.accept st _ = b.accept st _
    rw [b.accept_reportV3, b.accept_reportV3, hagree.beU16 (by omega)]
    exact b.records_congr hagree _ hheaders hsources st
  rw [if_neg h22, if_neg h22]
  by_cases h17 : mem h = 0x17
  · rw [if_pos h17, if_pos h17]
    exact (hleave h17).congr hagree fun group hg => b.accept_leave st group _ hg
  · rw [if_neg h17, if_neg h17]

end

/-! ## The two builds -/

/-- The groups that the handlers of the records look at. -/
def handled (group : Addr) : Bool := inMulticast group && !reserved group

theorem handled_iff {group : Addr} : handled group = true ↔ Acts group := by
  unfold handled Acts
  rw [Bool.and_eq_true, Bool.not_eq_true']

theorem onGroup_of_not_handled {group : Addr} (h : handled group = false) (st : State) (src : Addr)
    (body : McftEntry → World → Outcome) : onGroup st group src body = st :=
  onGroup_of_not_acts fun hacts => Bool.false_ne_true (h.symm.trans (handled_iff.mpr hacts))

/-- The build with `CONFIG_IGMPV3_SUPPORT`. A report of version 1 or 2 adds any group. -/
def igmpv3Build (cfg : Config) : Build State where
  accept := igmpv3Accept cfg
  acceptRecord := acceptRecord cfg
  actsReport _ := true
  actsLeave := handled
  acts _ _ group := handled group && group != allPrinter
  sources := true
  accept_reportV3 _ _ _ := rfl
  accept_report _ _ _ h := nomatch h
  accept_leave st group src h := by
    unfold igmpv3Accept
    dsimp only
    split_ifs
    · exact onGroup_of_not_handled h st src _
    · rfl
  acceptRecord_inert src st r h := by
    unfold acceptRecord
    split_ifs with hprinter
    · rfl
    · have hnot : handled r.group = false := by
        rw [bne_iff_ne.mpr hprinter, Bool.and_true] at h
        exact h
      cases htype : r.type <;> exact onGroup_of_not_handled hnot st src _
  acceptRecord_count h := nomatch h

namespace Plain

/-- The groups and records that the build without it acts on. A leave for a reserved group is not refused. -/
def actsRecord (type : RecordType) (nsrcs : ℕ) (group : Addr) : Bool :=
  group != allPrinter &&
    match type with
    | .modeIsInclude | .modeIsExclude | .changeToExclude => handled group
    | .changeToInclude => if nsrcs ≠ 0 then handled group else inMulticast group
    | .allowNewSources | .blockOldSources => false

theorem addGroupAndSrc_of_not_handled {group : Addr} (h : handled group = false) (st : State) (src : Addr) :
    addGroupAndSrc st group src = st := by
  unfold addGroupAndSrc
  unfold handled at h
  cases hmulti : inMulticast group with
  | false => rfl
  | true =>
    cases hres : reserved group with
    | true => rfl
    | false =>
      rw [hmulti, hres] at h
      cases h

theorem delGroupAndSrc_of_not_multicast {group : Addr} (h : inMulticast group = false) (st : State) (src : Addr) :
    delGroupAndSrc st group src = st := by
  unfold delGroupAndSrc
  rw [h]
  rfl

theorem acceptRecord_of_not_acts (src : Addr) (st : State) (r : Record)
    (h : actsRecord r.type r.sources.length r.group = false) : acceptRecord src st r = st := by
  unfold acceptRecord
  by_cases hprinter : r.group = allPrinter
  · rw [if_pos hprinter]
  rw [if_neg hprinter]
  unfold actsRecord at h
  rw [bne_iff_ne.mpr hprinter, Bool.true_and] at h
  cases htype : r.type with
  | modeIsInclude | modeIsExclude =>
    rw [htype] at h
    dsimp only
    split_ifs
    · exact addGroupAndSrc_of_not_handled h st src
    · rfl
  | changeToInclude =>
    rw [htype] at h
    dsimp only at h ⊢
    split_ifs at h ⊢
    · exact addGroupAndSrc_of_not_handled h st src
    · exact delGroupAndSrc_of_not_multicast h st src
  | changeToExclude =>
    rw [htype] at h
    exact addGroupAndSrc_of_not_handled h st src
  | allowNewSources | blockOldSources => rfl

def build : Build State where
  accept := igmpAccept
  acceptRecord := acceptRecord
  actsReport := handled
  actsLeave := inMulticast
  acts := actsRecord
  sources := false
  accept_reportV3 _ _ _ := rfl
  accept_report st _ src h := addGroupAndSrc_of_not_handled h st src
  accept_leave st _ src h := delGroupAndSrc_of_not_multicast h st src
  acceptRecord_inert := acceptRecord_of_not_acts
  acceptRecord_count _ src st type group l l' hlen := by
    unfold acceptRecord
    dsimp only
    rw [hlen]

end Plain

end NasFirmware.Igmp
