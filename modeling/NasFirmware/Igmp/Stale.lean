import NasFirmware.Igmp.Within

/-!
# Stale bytes

If a byte that counts was not received, whatever was in the buffer before decides. There are then two buffers with the
same packet that change the table of groups in different ways, for a table that has a single group and no room for
another: a record for this group shows, and all others do not.
-/

namespace NasFirmware.Igmp

open ByteMem

/-- Tables on which everything shows that is done to one group, and nothing that is done to others. -/
structure Probe {S T : Type} (b : Build S) (table : S → T) where
  state : Addr → Addr → S
  quiet : ∀ src group r, r.group ≠ group → b.acceptRecord src (state src group) r = state src group
  loud : ∀ src r, b.acts r.type r.sources.length r.group = true →
    table (b.acceptRecord src (state src r.group) r) ≠ table (state src r.group)
  quiet_report : ∀ src group g, g ≠ group → b.accept (state src group) (.report g src) = state src group
  loud_report : ∀ src group, b.actsReport group = true →
    table (b.accept (state src group) (.report group src)) ≠ table (state src group)
  quiet_leave : ∀ src group g, g ≠ group → b.accept (state src group) (.leave g src) = state src group
  loud_leave : ∀ src group, b.actsLeave group = true →
    table (b.accept (state src group) (.leave group src)) ≠ table (state src group)
  acts_congr : ∀ type count group group', b.acts type count group = true →
    group'.toNat / 256 = group.toNat / 256 → group' ≠ allPrinter → b.acts type count group' = true
  acts_join : ∀ group, group.toNat / 256 = 0xe10101 → b.acts .changeToExclude 0 group = true
  actsReport_join : ∀ group, group.toNat / 256 = 0xe10101 → b.actsReport group = true

/-! ## A record in stale bytes -/

/-- A record at `c` that joins `225.1.1.b`, and zeros around it. -/
def joinAt (c : ℕ) (b : UInt8) : Mem := fun i =>
  if i = c then 4 else if i = c + 4 then 225 else if i = c + 5 ∨ i = c + 6 then 1 else if i = c + 7 then b else 0

section

variable {malloc : ℕ → Bool} {m : Mem} {q c : ℕ} {i p : ℕ} {b x : UInt8} {type : RecordType}

theorem joinAt_add (b : UInt8) (k : ℕ) : joinAt c b (c + k) = joinAt 0 b k := by
  unfold joinAt
  simp

theorem joinAt_of_lt (h : i < c) : joinAt c b i = 0 := by
  unfold joinAt
  rw [if_neg (by omega), if_neg (by omega), if_neg (by omega), if_neg (by omega)]

theorem joinAt_of_ge (h : c + 8 ≤ i) : joinAt c b i = 0 := by
  unfold joinAt
  rw [if_neg (by omega), if_neg (by omega), if_neg (by omega), if_neg (by omega)]

theorem records_of_zero (k : ℕ) (h : ∀ i, c ≤ i → m i = 0) : records malloc m k c = [] := by
  induction k generalizing c with
  | zero => rfl
  | succ k ih =>
    have hnone : record malloc m c = none := by
      unfold record
      rw [h c le_rfl]
      rfl
    unfold records
    rw [hnone, ih fun i hi => h i (by unfold nextGrec at hi; omega)]
    rfl

theorem records_single (htype : grecType (m c) = some type)
    (hzero : ∀ i, nextGrec m c ≤ i → m i = 0) (k : ℕ) :
    records malloc m (k + 1) c = [⟨type, grecMca m c, grecSrc malloc m c⟩] := by
  unfold records record
  rw [htype, records_of_zero k hzero]
  rfl

theorem le_nextGrec (m : Mem) (c : ℕ) : c + 8 + 4 * grecNsrcs m c ≤ nextGrec m c := by
  unfold nextGrec
  omega

theorem beU32_joinAt (hq : q ≤ c) (b : UInt8) : (beU32 (splice q m (joinAt c b)) (c + 4)).toNat / 256 = 0xe10101 := by
  have hbyte : ∀ i, splice q m (joinAt c b) (c + i) = joinAt 0 b i :=
    fun i => (splice_of_ge (hq.trans (Nat.le_add_right c i))).trans (joinAt_add b i)
  have h₄ : joinAt 0 b 4 = 225 := rfl
  have h₅ : joinAt 0 b 5 = 1 := rfl
  have h₆ : joinAt 0 b 6 = 1 := rfl
  rw [beU32_div, beU16, hbyte 4, Nat.add_assoc, hbyte 5, Nat.add_assoc, hbyte 6, h₄, h₅, h₆]
  decide

theorem update_joinAt (hq : q ≤ c) (b : UInt8) :
    Function.update (splice q m (joinAt c 0)) (c + 4 + 3) b = splice q m (joinAt c b) := by
  funext i
  rw [Function.update_apply]
  by_cases hi : i = c + 7
  · rw [if_pos hi, hi, splice_of_ge (by omega), joinAt_add]
    rfl
  · rw [if_neg hi]
    unfold splice joinAt
    rw [if_neg hi, if_neg hi]

theorem exists_joinAt (hq : q ≤ c) {l : List Addr} (hl : l.length < 256) :
    ∃ b, beU32 (splice q m (joinAt c b)) (c + 4) ∉ l := by
  obtain ⟨b, hb⟩ := exists_byte (splice q m (joinAt c 0)) (c + 4) hl
  rw [update_joinAt hq] at hb
  exact ⟨b, hb⟩

theorem records_joinAt (hq : q ≤ c) (b : UInt8) (k : ℕ) :
    records malloc (splice q m (joinAt c b)) (k + 1) c =
      [⟨.changeToExclude, beU32 (splice q m (joinAt c b)) (c + 4), []⟩] := by
  have hbyte : ∀ i, splice q m (joinAt c b) (c + i) = joinAt 0 b i :=
    fun i => (splice_of_ge (hq.trans (Nat.le_add_right c i))).trans (joinAt_add b i)
  have htype : grecType (splice q m (joinAt c b) c) = some .changeToExclude := congrArg grecType (hbyte 0)
  have hcount : grecNsrcs (splice q m (joinAt c b)) c = 0 := by
    have h₂ : joinAt 0 b 2 = 0 := rfl
    have h₃ : joinAt 0 b 3 = 0 := rfl
    rw [grecNsrcs, beU16, hbyte 2, Nat.add_assoc, hbyte 3, h₂, h₃]
    decide
  rw [records_single htype fun i hi => ?_, grecSrc, hcount]
  · rfl
  · have hge := le_nextGrec (splice q m (joinAt c b)) c
    rw [splice_of_ge (by omega), joinAt_of_ge (by omega)]

/-- The first `q` bytes of `m` and zeros behind them, but for one byte. -/
def withByte (q : ℕ) (m : Mem) (p : ℕ) (x : UInt8) : Mem := Function.update (splice q m fun _ => 0) p x

theorem withByte_of_lt (hi : i < q) (hp : i ≠ p) : withByte q m p x i = m i := by
  unfold withByte
  rw [Function.update_of_ne hp, splice_of_lt hi]

theorem withByte_of_ge (hi : q ≤ i) (hp : i ≠ p) : withByte q m p x i = 0 := by
  unfold withByte
  rw [Function.update_of_ne hp, splice_of_ge hi]

/-- The record of `m` at `c`, with `x` as the last byte of its group, and zeros behind its header. -/
def endingIn (m : Mem) (c : ℕ) (x : UInt8) : Mem := withByte (c + 8) m (c + 4 + 3) x

theorem endingIn_of_lt (hi : i < c + 7) : endingIn m c x i = m i :=
  withByte_of_lt (by omega) (by omega)

theorem grecNsrcs_endingIn (x : UInt8) : grecNsrcs (endingIn m c x) c = grecNsrcs m c := by
  rw [grecNsrcs, grecNsrcs, beU16, beU16, endingIn_of_lt (by omega), endingIn_of_lt (by omega)]

theorem grecMca_endingIn (x : UInt8) : (grecMca (endingIn m c x) c).toNat / 256 = (grecMca m c).toNat / 256 := by
  rw [grecMca, grecMca, beU32_div, beU32_div, beU16, beU16, endingIn_of_lt (by omega), endingIn_of_lt (by omega),
    endingIn_of_lt (by omega)]

theorem records_endingIn (htype : grecType (m c) = some type) (x : UInt8) (k : ℕ) :
    records malloc (endingIn m c x) (k + 1) c =
      [⟨type, grecMca (endingIn m c x) c, grecSrc malloc (endingIn m c x) c⟩] := by
  refine records_single ?_ (fun i hi => ?_) k
  · rw [endingIn_of_lt (by omega)]
    exact htype
  · have hge := le_nextGrec (endingIn m c x) c
    exact withByte_of_ge (by omega) (by omega)

end

/-! ## Headers -/

section

variable {S T : Type} {b : Build S} {table : S → T} {malloc : ℕ → Bool} {isLocal : Addr → Bool} {mem mem' : Mem} {n : ℕ}
  {h : ℕ}

/-- Zeros and a record behind the packet give different tables. -/
theorem Probe.join_shows (P : Probe b table) (src : Addr) {m : Mem} {q c : ℕ} (hq : q ≤ c) (x : UInt8) (k : ℕ) :
    table ((records malloc (splice q m (joinAt c x)) (k + 1) c).foldl (b.acceptRecord src)
      (P.state src (beU32 (splice q m (joinAt c x)) (c + 4)))) ≠
    table ((records malloc (splice q m fun _ => 0) (k + 1) c).foldl (b.acceptRecord src)
      (P.state src (beU32 (splice q m (joinAt c x)) (c + 4)))) := by
  rw [records_joinAt hq, records_of_zero (k + 1) fun i hi => splice_of_ge (hq.trans hi)]
  exact P.loud src ⟨.changeToExclude, _, []⟩ (P.acts_join _ (beU32_joinAt hq x))

/-- Whatever is behind the packet, the records from `c` on do the same to the groups that are not in `seen`. -/
def Probe.Same (P : Probe b table) (malloc : ℕ → Bool) (src : Addr) (mem : Mem) (n k c : ℕ) (seen : List Addr) : Prop :=
  ∀ group ∉ seen, ∀ mem', Agree n mem mem' →
    table ((records malloc mem' k c).foldl (b.acceptRecord src) (P.state src group)) =
      table ((records malloc mem k c).foldl (b.acceptRecord src) (P.state src group))

section

variable {P : Probe b table} {src : Addr} {k c : ℕ} {seen : List Addr}

theorem Probe.Same.eq (h : P.Same malloc src mem n k c seen) {group : Addr} (hg : group ∉ seen) {m₁ m₂ : Mem}
    (h₁ : Agree n mem m₁) (h₂ : Agree n mem m₂) :
    table ((records malloc m₁ k c).foldl (b.acceptRecord src) (P.state src group)) =
      table ((records malloc m₂ k c).foldl (b.acceptRecord src) (P.state src group)) :=
  (h group hg m₁ h₁).trans (h group hg m₂ h₂).symm

theorem Probe.Same.lt (h : P.Same malloc src mem n (k + 1) c seen) (hseen : seen.length < 256) : c < n := by
  by_contra hc
  have hq : n ≤ c := Nat.not_lt.mp hc
  obtain ⟨x, hx⟩ := @exists_joinAt mem n c hq seen hseen
  exact P.join_shows src hq x k (h.eq hx (agree_splice n mem _) (agree_splice n mem _))

/-- Its address. If the last byte is stale, there is a group that has not been seen yet. -/
theorem Probe.Same.recordIn (h : P.Same malloc src mem n (k + 1) c seen) (hseen : seen.length < 255) :
    RecordIn b.acts mem n c := by
  intro type htype
  by_contra hnot
  rw [not_or, Classical.not_forall] at hnot
  obtain ⟨hin, m₁, hnot⟩ := hnot
  obtain ⟨hagree, hacts⟩ := Classical.not_imp.mp hnot
  rw [Bool.not_eq_false] at hacts
  have hc := h.lt (hseen.trans (Nat.lt_succ_self 255))
  have hreceived : ∀ x, Agree n mem (endingIn m₁ c x) := fun x i hi =>
    (endingIn_of_lt (by omega)).trans (hagree i hi)
  have hrecords := fun x => @records_endingIn malloc m₁ c type (by rw [hagree c hc, htype]) x k
  obtain ⟨x, hx⟩ := exists_byte (splice (c + 8) m₁ fun _ => 0) (c + 4) (l := allPrinter :: seen)
    (Nat.succ_lt_succ hseen)
  rw [List.mem_cons, not_or] at hx
  -- the same record with another last byte is about another group
  have hne : grecMca (endingIn m₁ c (x + 1)) c ≠ grecMca (endingIn m₁ c x) c := beU32_update_ne _ _ (add_one_ne x)
  have hacts' : b.acts type (grecSrc malloc (endingIn m₁ c x) c).length (grecMca (endingIn m₁ c x) c) = true := by
    rw [length_grecSrc, grecNsrcs_endingIn]
    exact P.acts_congr type _ _ _ hacts (grecMca_endingIn x) hx.1
  have hloud := P.loud src ⟨type, grecMca (endingIn m₁ c x) c, grecSrc malloc (endingIn m₁ c x) c⟩ hacts'
  have heq := h.eq hx.2 (hreceived x) (hreceived (x + 1))
  rw [hrecords, hrecords] at heq
  exact hloud (heq.trans (congrArg table (P.quiet src _ ⟨type, _, _⟩ hne)))

theorem foldl_records_succ (m : Mem) (st : S) : (records malloc m (k + 1) c).foldl (b.acceptRecord src) st =
    (records malloc m k (nextGrec m c)).foldl (b.acceptRecord src)
      ((record malloc m c).toList.foldl (b.acceptRecord src) st) :=
  List.foldl_append

theorem foldl_record_eq_self {m : Mem} {st : S} (h : ∀ type, grecType (m c) = some type →
    b.acts type (grecNsrcs m c) (grecMca m c) = false ∨ ∀ l, b.acceptRecord src st ⟨type, grecMca m c, l⟩ = st) :
    (record malloc m c).toList.foldl (b.acceptRecord src) st = st := by
  unfold record
  cases htype : grecType (m c) with
  | none =>
    rfl
  | some type =>
    rcases h type htype with hnot | hquiet
    · refine b.acceptRecord_inert src st _ ?_
      rw [length_grecSrc]
      exact hnot
    · exact hquiet _

theorem Probe.Same.le (h : P.Same malloc src mem n (k + 1 + 1) c seen) (hseen : seen.length < 255) : c + 4 ≤ n := by
  by_contra hn
  have hseen' : seen.length < 256 := hseen.trans (Nat.lt_succ_self 255)
  -- the record does nothing, and the next one is behind the packet
  have hskip : ∀ m, Agree n mem m → ∀ st, (record malloc m c).toList.foldl (b.acceptRecord src) st = st := by
    intro m hm st
    refine foldl_record_eq_self fun type htype => .inl ?_
    rw [hm c (h.lt hseen')] at htype
    exact (h.recordIn hseen type htype).resolve_left (by omega) m hm
  obtain ⟨c', hc'⟩ : ∃ c', c' = nextGrec (splice n mem fun _ => 0) c := ⟨_, rfl⟩
  have hge : c + 8 ≤ c' := by
    rw [hc', nextGrec]
    omega
  have hnext : ∀ x, nextGrec (splice n mem (joinAt c' x)) c = c' := by
    intro x
    have hbyte : ∀ i, i < c + 8 → splice n mem (joinAt c' x) i = splice n mem (fun _ => 0) i := by
      intro i hi
      unfold splice
      rw [joinAt_of_lt (hi.trans_le hge)]
    rw [nextGrec, grecNsrcs, beU16, hbyte _ (by omega), hbyte _ (by omega), hbyte _ (by omega)]
    exact hc'.symm
  have hq : n ≤ c' := by omega
  obtain ⟨x, hx⟩ := @exists_joinAt mem n c' hq seen hseen'
  have heq := h.eq hx (agree_splice n mem (joinAt c' x)) (agree_splice n mem fun _ => 0)
  rw [foldl_records_succ (splice n mem (joinAt c' x)), foldl_records_succ (splice n mem fun _ => 0),
    hskip _ (agree_splice n mem _), hskip _ (agree_splice n mem _), hnext, ← hc'] at heq
  exact P.join_shows src hq x k heq

/-- **The headers.** The address of a record that was received has been seen then. -/
theorem Probe.headersIn (hn : n ≤ recvBufSize) (h : P.Same malloc src mem n k c seen) (hc : 8 * seen.length + 8 ≤ c)
    (hseen : seen.length < 256) : HeadersIn b.acts mem n k c := by
  induction k generalizing c seen with
  | zero => exact trivial
  | succ k ih =>
    have hlt := h.lt hseen
    have hseen' : seen.length < 255 := by
      unfold recvBufSize at hn
      omega
    have hin := h.recordIn hseen'
    cases k with
    | zero => exact ⟨hlt, hin, fun h => absurd rfl h, trivial⟩
    | succ k =>
      have hle := h.le hseen'
      refine ⟨hlt, hin, fun _ => hle, @ih _ (grecMca mem c :: seen) (fun group hg mem' hagree => ?_) ?_ ?_⟩
      · rw [List.mem_cons, not_or] at hg
        have hskip : ∀ m, Agree n mem m → (record malloc m c).toList.foldl (b.acceptRecord src)
            (P.state src group) = P.state src group := by
          intro m hm
          refine foldl_record_eq_self fun type htype => ?_
          rw [hm c hlt] at htype
          refine (hin type htype).symm.imp (fun hnot => hnot m hm) fun hreceived l => ?_
          have hmca : grecMca m c = grecMca mem c := hm.beU32 (by omega)
          exact P.quiet src group ⟨type, _, l⟩ fun heq => hg.1 (heq.symm.trans hmca)
        have heq := h group hg.2 mem' hagree
        rw [foldl_records_succ mem', foldl_records_succ mem, hskip mem' hagree, hskip mem (agree_refl n mem),
          nextGrec_congr hagree hle] at heq
        exact heq
      · rw [List.length_cons]
        unfold nextGrec
        omega
      · exact Nat.succ_lt_succ hseen'

end

/-! ## The packet -/

theorem acceptIgmp_report (htype : mem h = 0x12 ∨ mem h = 0x16) (st : S) :
    b.acceptIgmp malloc st mem h = b.accept st (.report (beU32 mem (h + 4)) (saddr mem)) := by
  unfold Build.acceptIgmp igmpMessage
  rw [if_pos htype]

theorem acceptIgmp_reportV3 (htype : mem h = 0x22) (st : S) : b.acceptIgmp malloc st mem h =
    (records malloc mem (beU16 mem (h + 6)) (h + 8)).foldl (b.acceptRecord (saddr mem)) st := by
  unfold Build.acceptIgmp igmpMessage
  rw [htype, if_neg (by decide), if_pos rfl]
  exact b.accept_reportV3 st _ _

theorem acceptIgmp_leave (htype : mem h = 0x17) (st : S) :
    b.acceptIgmp malloc st mem h = b.accept st (.leave (beU32 mem (h + 4)) (saddr mem)) := by
  unfold Build.acceptIgmp igmpMessage
  rw [htype, if_neg (by decide), if_neg (by decide), if_pos rfl]

theorem acceptIgmp_zero (htype : mem h = 0) (st : S) : b.acceptIgmp malloc st mem h = st := by
  unfold Build.acceptIgmp igmpMessage
  rw [htype, if_neg (by decide), if_neg (by decide), if_neg (by decide)]

/-- If the last byte of an address is stale, it can be that of a group or of another. -/
theorem groupIn_of_same (accept : Addr → S → S) {actsGroup : Addr → Bool} {p : ℕ} {state : Addr → S}
    (hquiet : ∀ group g, g ≠ group → accept g (state group) = state group)
    (hloud : ∀ group, actsGroup group = true → table (accept group (state group)) ≠ table (state group))
    (hsame : ∀ st mem', Agree n mem mem' → table (accept (beU32 mem' p) st) = table (accept (beU32 mem p) st)) :
    GroupIn mem n actsGroup p := by
  by_contra hnot
  unfold GroupIn at hnot
  rw [not_or, Classical.not_forall] at hnot
  obtain ⟨hin, m₁, hnot⟩ := hnot
  obtain ⟨hagree, hacts⟩ := Classical.not_imp.mp hnot
  rw [Bool.not_eq_false] at hacts
  have hagree' : Agree n mem (Function.update m₁ (p + 3) (m₁ (p + 3) + 1)) := by
    intro i hi
    rw [Function.update_of_ne (by omega)]
    exact hagree i hi
  have hne : beU32 (Function.update m₁ (p + 3) (m₁ (p + 3) + 1)) p ≠ beU32 m₁ p := by
    have hne := beU32_update_ne m₁ p (add_one_ne (m₁ (p + 3)))
    rwa [Function.update_eq_self] at hne
  refine hloud _ hacts ?_
  calc table (accept (beU32 m₁ p) (state (beU32 m₁ p)))
      = table (accept (beU32 (Function.update m₁ (p + 3) (m₁ (p + 3) + 1)) p) (state (beU32 m₁ p))) :=
        (hsame _ m₁ hagree).trans (hsame _ _ hagree').symm
    _ = table (state (beU32 m₁ p)) := congrArg table (hquiet _ _ hne)

/-- Stale bytes never show. -/
def Fixed (b : Build S) (table : S → T) (malloc : ℕ → Bool) (isLocal : Addr → Bool) (mem : Mem) (n : ℕ) : Prop :=
  ∀ st mem', Agree n mem mem' →
    table (b.acceptBuf malloc isLocal st mem' n) = table (b.acceptBuf malloc isLocal st mem n)

section

variable (P : Probe b table) (hfixed : Fixed b table malloc isLocal mem n) (hn : ¬ n < 20)
  (href : ¬ refused isLocal mem = true)

include hfixed hn href

theorem Fixed.acceptIgmp_eq (st : S) {m₁ m₂ : Mem} (h₁ : Agree n mem m₁) (h₂ : Agree n mem m₂) :
    table (b.acceptIgmp malloc st m₁ (iphdrlen mem)) = table (b.acceptIgmp malloc st m₂ (iphdrlen mem)) := by
  rw [← b.acceptBuf_eq h₁ hn href, ← b.acceptBuf_eq h₂ hn href]
  exact (hfixed st m₁ h₁).trans (hfixed st m₂ h₂).symm

include P

theorem Fixed.type_lt : iphdrlen mem < n := by
  by_contra hlt
  have hle := Nat.not_lt.mp hlt
  have heq := fun st => @Fixed.acceptIgmp_eq S T b table malloc isLocal mem n hfixed hn href st
  generalize iphdrlen mem = h at hle heq
  obtain ⟨m, hm⟩ : ∃ m, m = splice n mem (joinAt h 1) := ⟨_, rfl⟩
  have hagree : Agree n mem (Function.update m h 0x16) := by
    intro i hi
    rw [Function.update_of_ne (by omega), hm, splice_of_lt hi]
  have hgroup : beU32 (Function.update m h 0x16) (h + 4) = beU32 m (h + 4) := by
    unfold beU32 beU16
    rw [Function.update_of_ne (by omega), Function.update_of_ne (by omega), Function.update_of_ne (by omega),
      Function.update_of_ne (by omega)]
  have hacts : b.actsReport (beU32 m (h + 4)) = true := P.actsReport_join _ (hm ▸ beU32_joinAt hle 1)
  have hshow := heq (P.state (saddr mem) (beU32 m (h + 4))) hagree (agree_splice n mem fun _ => 0)
  rw [acceptIgmp_report (.inr (Function.update_self ..)), acceptIgmp_zero (splice_of_ge hle), hgroup,
    saddr_congr hagree hn] at hshow
  exact P.loud_report _ _ hacts hshow

theorem Fixed.reportIn (htype : mem (iphdrlen mem) = 0x12 ∨ mem (iphdrlen mem) = 0x16) :
    GroupIn mem n b.actsReport (iphdrlen mem + 4) := by
  have hlt := Fixed.type_lt P hfixed hn href
  refine groupIn_of_same (fun group st => b.accept st (.report group (saddr mem)))
    (P.quiet_report (saddr mem)) (P.loud_report (saddr mem)) fun st mem' hagree => ?_
  have heq := Fixed.acceptIgmp_eq hfixed hn href st hagree (agree_refl n mem)
  have htype' : mem' (iphdrlen mem) = 0x12 ∨ mem' (iphdrlen mem) = 0x16 := by
    rw [hagree _ hlt]
    exact htype
  rw [acceptIgmp_report htype, acceptIgmp_report htype', saddr_congr hagree hn] at heq
  exact heq

theorem Fixed.leaveIn (htype : mem (iphdrlen mem) = 0x17) : GroupIn mem n b.actsLeave (iphdrlen mem + 4) := by
  have hlt := Fixed.type_lt P hfixed hn href
  refine groupIn_of_same (fun group st => b.accept st (.leave group (saddr mem)))
    (P.quiet_leave (saddr mem)) (P.loud_leave (saddr mem)) fun st mem' hagree => ?_
  have heq := Fixed.acceptIgmp_eq hfixed hn href st hagree (agree_refl n mem)
  rw [acceptIgmp_leave htype, acceptIgmp_leave ((hagree _ hlt).trans htype), saddr_congr hagree hn] at heq
  exact heq

theorem Fixed.ngrec_le (htype : mem (iphdrlen mem) = 0x22) : iphdrlen mem + 8 ≤ n := by
  by_contra hle
  have hlt := Fixed.type_lt P hfixed hn href
  have heq := fun st => @Fixed.acceptIgmp_eq S T b table malloc isLocal mem n hfixed hn href st
  generalize iphdrlen mem = h at htype hle hlt heq
  obtain ⟨m, hm⟩ : ∃ m, m = splice n mem fun _ => 1 := ⟨_, rfl⟩
  have hagree : ∀ f, Agree n mem (splice (h + 8) m f) := by
    intro f
    rw [hm]
    exact (agree_splice n mem _).splice (by omega)
  have hreport : ∀ f, splice (h + 8) m f h = 0x22 := by
    intro f
    rw [splice_of_lt (by omega), hm, splice_of_lt hlt]
    exact htype
  have hngrec : ∀ f, beU16 (splice (h + 8) m f) (h + 6) = (m (h + 6)).toNat * 256 + 1 := by
    intro f
    have hlast : m (h + 6 + 1) = 1 := by
      rw [hm, splice_of_ge (by omega)]
    rw [beU16, splice_of_lt (by omega), splice_of_lt (by omega), hlast]
    rfl
  have hshow := heq (P.state (saddr mem) (beU32 (splice (h + 8) m (joinAt (h + 8) 1)) (h + 8 + 4)))
    (hagree (joinAt (h + 8) 1)) (hagree fun _ => 0)
  rw [acceptIgmp_reportV3 (hreport _), acceptIgmp_reportV3 (hreport _), hngrec, hngrec, saddr_congr (hagree _) hn,
    saddr_congr (hagree _) hn] at hshow
  exact P.join_shows _ le_rfl 1 _ hshow

theorem Fixed.headersIn (hsize : n ≤ recvBufSize) (htype : mem (iphdrlen mem) = 0x22) :
    HeadersIn b.acts mem n (beU16 mem (iphdrlen mem + 6)) (iphdrlen mem + 8) := by
  have hlt := Fixed.type_lt P hfixed hn href
  have hle := Fixed.ngrec_le P hfixed hn href htype
  refine @Probe.headersIn _ _ b table malloc mem n P (saddr mem) _ _ [] hsize (fun group _ mem' hagree => ?_)
    (by rw [List.length_nil]; omega) (by decide)
  have heq := Fixed.acceptIgmp_eq hfixed hn href (P.state (saddr mem) group) hagree (agree_refl n mem)
  rw [acceptIgmp_reportV3 htype, acceptIgmp_reportV3 ((hagree _ hlt).trans htype), saddr_congr hagree hn,
    hagree.beU16 (by omega)] at heq
  exact heq

end

/-- **What was not received shows**, if it counts. -/
theorem Fixed.packetIn (P : Probe b table) (hfixed : Fixed b table malloc isLocal mem n) (hsize : n ≤ recvBufSize)
    (hsources : b.sources = true → ¬ n < 20 → ¬ refused isLocal mem = true → mem (iphdrlen mem) = 0x22 →
      iphdrlen mem + 8 ≤ n → HeadersIn b.acts mem n (beU16 mem (iphdrlen mem + 6)) (iphdrlen mem + 8) →
      SourcesIn b.acts mem n (beU16 mem (iphdrlen mem + 6)) (iphdrlen mem + 8)) : PacketIn b isLocal mem n := by
  by_cases hn : n < 20
  · exact .inl hn
  by_cases href : refused isLocal mem = true
  · exact .inr (.inl href)
  refine .inr (.inr ⟨hfixed.type_lt P hn href, hfixed.reportIn P hn href, hfixed.leaveIn P hn href, fun htype => ?_⟩)
  have hle := hfixed.ngrec_le P hn href htype
  have hheaders := hfixed.headersIn P hn href hsize htype
  exact ⟨hle, hheaders, fun hb => hsources hb hn href htype hle hheaders⟩

end

end NasFirmware.Igmp
