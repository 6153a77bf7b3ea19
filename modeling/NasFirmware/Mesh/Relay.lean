import NasFirmware.Lib.Trace
import NasFirmware.Mesh.Model

/-!
# What a node passes on

Portal announcements wait in a pool and are sent by `retx_pann`, which ends at the first announcement that may not
travel on. Route replies are sent on by `recv_rrep` as they come, whether or not they entered the table.

* **`retxPann_independent_iff`**: when `retx_pann` does that to the whole pool.
-/

namespace NasFirmware.Mesh

section

variable {Node : Type} {place : Option (Retx Node)} {pool : List (Option (Retx Node))}

/-! ## The pool of portal announcements -/

def aged : Option (Retx Node) → Option (Retx Node)
  | some r => if r.timeout - 1 = 0 then none else some { r with timeout := r.timeout - 1 }
  | none => none

/-- What is to be sent from a place of the pool: its announcement has run out, and may travel on. -/
def due : Option (Retx Node) → Option (Msg Node)
  | some r => if r.timeout - 1 = 0 ∧ r.msg.ttl ≠ 0 then some r.msg else none
  | none => none

/-- The announcement in a place of the pool has run out, and may not travel on. -/
def Spent (place : Option (Retx Node)) : Prop := ∃ r, place = some r ∧ r.timeout - 1 = 0 ∧ r.msg.ttl = 0

theorem eq_none_of_aged (h : aged place = place) : place = none := by
  cases place with
  | none => rfl
  | some r =>
    by_cases hout : r.timeout - 1 = 0
    · exact nomatch (if_pos hout).symm.trans h
    · have hsame : r.timeout - 1 = r.timeout :=
        congrArg Retx.timeout (Option.some.inj ((if_neg hout).symm.trans h))
      rw [UInt32.sub_eq_iff_eq_add, UInt32.left_eq_add] at hsame
      exact absurd hsame (by decide)

theorem map_aged_eq_self (h : pool.map aged = pool) : ∀ place ∈ pool, place = none := by
  rintro place hplace
  obtain ⟨i, hi, rfl⟩ := List.getElem_of_mem hplace
  refine eq_none_of_aged ?_
  have hget := congrArg (·[i]?) h
  simpa [hi] using hget

theorem filterMap_due_of_free (h : ∀ place ∈ pool, place = none) :
    pool.filterMap due = [] :=
  List.filterMap_eq_nil_iff.mpr fun place hplace => h place hplace ▸ rfl

theorem map_aged_of_free (h : ∀ place ∈ pool, place = none) : pool.map aged = pool := by
  refine (List.map_congr_left fun place hplace => ?_).trans (List.map_id pool)
  rw [h place hplace]
  rfl

theorem filterMap_due_cons (place : Option (Retx Node)) (pool : List (Option (Retx Node))) :
    (place :: pool).filterMap due = (due place).toList ++ pool.filterMap due := by
  cases hdue : due place with
  | none => rw [List.filterMap_cons_none hdue, Option.toList_none, List.nil_append]
  | some m => rw [List.filterMap_cons_some hdue, Option.toList_some, List.singleton_append]

theorem retxPool_cons (h : ¬ Spent place) (pool : List (Option (Retx Node))) :
    retxPool (place :: pool) = (aged place :: (retxPool pool).1, (due place).toList ++ (retxPool pool).2) := by
  cases place with
  | none => rfl
  | some r =>
    by_cases hout : r.timeout - 1 = 0
    · have httl : r.msg.ttl ≠ 0 := fun httl => h ⟨r, rfl, hout, httl⟩
      rw [retxPool, if_pos hout, if_neg httl, aged, if_pos hout, due, if_pos ⟨hout, httl⟩]
      rfl
    · rw [retxPool, if_neg hout, aged, if_neg hout, due, if_neg fun h => hout h.1]
      rfl

theorem retxPool_cons_of_spent (h : Spent place) (pool : List (Option (Retx Node))) :
    retxPool (place :: pool) = (aged place :: pool, []) ∧ due place = none := by
  obtain ⟨r, rfl, hout, httl⟩ := h
  rw [retxPool, if_pos hout, if_pos httl, aged, if_pos hout, due, if_neg fun h => h.2 httl]
  exact ⟨rfl, rfl⟩

/-- **The loop does to each place what is due to it, exactly if nothing stands behind what is spent.** -/
theorem retxPool_eq_iff (pool : List (Option (Retx Node))) :
    retxPool pool = (pool.map aged, pool.filterMap due) ↔ pool.Pairwise fun a b => Spent a → b = none := by
  induction pool with
  | nil => exact iff_of_true rfl .nil
  | cons place pool ih =>
    rw [List.pairwise_cons, ← ih, List.map_cons, filterMap_due_cons]
    by_cases hspent : Spent place
    · obtain ⟨hend, hdue⟩ := retxPool_cons_of_spent hspent pool
      rw [hend, hdue, Prod.mk.injEq, List.cons.injEq, and_iff_right rfl, Option.toList_none, List.nil_append]
      constructor
      · -- the places behind are as they were, so they were free
        rintro ⟨hpool, -⟩
        have hfree := map_aged_eq_self hpool.symm
        exact ⟨fun b hb _ => hfree b hb, ih.mpr (List.pairwise_of_forall_mem_list fun _ _ b hb _ => hfree b hb)⟩
      · rintro ⟨hfree, -⟩
        have hfree := fun b hb => hfree b hb hspent
        exact ⟨(map_aged_of_free hfree).symm, (filterMap_due_of_free hfree).symm⟩
    · rw [retxPool_cons hspent, Prod.mk.injEq, List.cons.injEq, and_iff_right rfl, List.append_cancel_left_eq,
        and_iff_right fun b _ h => absurd h hspent, ← Prod.mk.injEq]

/-- **Announcements are relayed independently** exactly if none waits behind one that runs out and may not travel on. -/
theorem retxPann_independent_iff (st : Station Node) :
    retxPann st = ({ st with pannRetxPool := st.pannRetxPool.map aged }, st.pannRetxPool.filterMap due) ↔
      st.pannRetxPool.Pairwise fun a b => Spent a → b = none := by
  rw [← retxPool_eq_iff]
  constructor
  · intro h
    have hpool : (retxPool st.pannRetxPool).1 = st.pannRetxPool.map aged := congrArg (fun x => x.1.pannRetxPool) h
    have hsent : (retxPool st.pannRetxPool).2 = st.pannRetxPool.filterMap due := congrArg (fun x => x.2) h
    exact Prod.ext hpool hsent
  · intro h
    unfold retxPann
    rw [h]

/-- An announcement of portal 1 has run out after 15 hops. One of portal 2 stands behind it, and has 12 hops left. -/
def twoPortals : Station ℕ where
  table := fun _ => none
  mySeqNum := 1
  isPortal := false
  isRoot := false
  rannRootMac := none
  rannRootSeqNum := 0
  pannRetxPool := some ⟨⟨.pann, 15, 0, 1, 7, 30⟩, 1⟩ :: some ⟨⟨.pann, 3, 12, 2, 9, 40⟩, 1⟩ :: List.replicate 13 none
  rannRetxEntry := none

/-- The announcement of portal 2 is not sent. -/
theorem twoPortals_held_up : retxPann twoPortals ≠
    ({ twoPortals with pannRetxPool := twoPortals.pannRetxPool.map aged }, twoPortals.pannRetxPool.filterMap due) := by
  intro h
  have hlen := congrArg (fun x => x.2.length) h
  exact absurd hlen (by decide)

end

section

variable {Node : Type} [LinearOrder Node] (mesh : Topology Node)

/-! ## Route replies -/

/-- `struct rrep`: a reply of `desAddress` to a request of `sourceAddress`. -/
structure Rrep (Node : Type) where
  desAddress : Node
  desSeqNum : UInt32
  metric : UInt32
  hopCount : UInt8
  ttl : UInt8
  sourceAddress : Node

/-- What a receiver makes of a reply before it enters the path. -/
def Rrep.received (r : Rrep Node) (linkMetric : UInt32) : Rrep Node :=
  { r with metric := r.metric + linkMetric, ttl := r.ttl - 1, hopCount := r.hopCount + 1 }

/-- `gen_rrep`, as `recv_rreq` calls it. -/
def genRrep (me : Node) (st : Station Node) (source : Node) : Rrep Node :=
  ⟨me, UInt32.ofNat st.mySeqNum, 0, 0, UInt8.ofNat maxMppNum, source⟩

/-- The reply that `recv_rreq` sends beside `recvRreq`. -/
def replyRreq (me myPrehop : Node) (st : Station Node) (m : Msg Node) (desAddress : Node) : List (Rrep Node) :=
  if m.origAddr = me then []
  else
    match st.update mesh m myPrehop with
    | none => []
    | some st =>
      if st.isPortal ∧ desAddress = me then [genRrep me st m.origAddr]
      else if st.isPortal ∧ mesh.isMyStat me desAddress then [genRrep me st m.origAddr]
      else []

def forwardRrep (r : Rrep Node) : List (Rrep Node) := if r.ttl = 0 then [] else [r]

/-- `recv_rrep`. The result of `updatePathByFreshness` is not looked at. -/
def recvRrep (me myPrehop : Node) (st : Station Node) (r : Rrep Node) : Station Node × List (Rrep Node) :=
  if r.desAddress = me then (st, [])
  else
    let table := updatePathByFreshness mesh st.table r.desAddress r.desSeqNum r.metric r.hopCount myPrehop
    let st := { st with table := table.getD st.table }
    if r.sourceAddress = me then (st, []) else (st, forwardRrep r)

inductive Packet (Node : Type) where
  | flood (m : Msg Node)
  | rrep (r : Rrep Node)

/-- A node receives a packet, at the metric that the link to the sender has now. -/
def handle (me sender : Node) (linkMetric : UInt32) (st : Station Node) :
    Packet Node → Station Node × List (Packet Node)
  | .flood m =>
    let m := m.received linkMetric
    match m.kind with
    | .rreq desAddress =>
      let (st', sent) := recvRreq mesh me sender st m desAddress
      (st', sent.map .flood ++ (replyRreq mesh me sender st m desAddress).map .rrep)
    | .pann => (recvPann mesh me sender st m, [])
    | .rann => (recvRann mesh me sender st m, [])
  | .rrep r =>
    let (st', sent) := recvRrep mesh me sender st (r.received linkMetric)
    (st', sent.map .rrep)

/-! ## Which replies are backed -/

structure Input (Node : Type) where
  sender : Node
  linkMetric : UInt32
  packet : Packet Node

def Station.input (me : Node) (st : Station Node) (i : Input Node) : Station Node :=
  (handle mesh me i.sender i.linkMetric st i.packet).1

def passedOn (me : Node) (st : Station Node) (i : Input Node) : List (Rrep Node) :=
  match i.packet with
  | .flood _ => []
  | .rrep r => (recvRrep mesh me i.sender st (r.received i.linkMetric)).2

/-- The path that a node holds is as fresh and as good as a reply says. -/
def Backed (st : Station Node) (r : Rrep Node) : Prop :=
  ∃ e, st.table r.desAddress = some e ∧ r.desSeqNum ≤ e.dsn ∧ e.metric ≤ r.metric

/-- The path that a node holds is as fresh and as good as a reply says, or gives way to the reply. -/
def Suits (st : Station Node) (sender : Node) (r : Rrep Node) : Prop :=
  ∀ e, st.table r.desAddress = some e →
    r.desSeqNum ≤ e.dsn ∧ e.metric ≤ r.metric ∨
      e.dsn ≤ r.desSeqNum ∧
        (sender = e.nexthopMAC ∨ betterPath mesh r.metric r.hopCount e.metric e.hopcount = true)

/-- A reply that a node has to pass on suits its table. -/
def Input.Meets (me : Node) (st : Station Node) (i : Input Node) : Prop :=
  ∀ r, i.packet = .rrep r → r.desAddress ≠ me → r.sourceAddress ≠ me → r.ttl - 1 ≠ 0 →
    Suits mesh st i.sender (r.received i.linkMetric)

variable {mesh} {me sender : Node} {st : Station Node} {r : Rrep Node}

theorem recvRrep_table (hdes : r.desAddress ≠ me) : (recvRrep mesh me sender st r).1.table =
    (updatePathByFreshness mesh st.table r.desAddress r.desSeqNum r.metric r.hopCount sender).getD st.table := by
  unfold recvRrep
  rw [if_neg hdes]
  by_cases hsource : r.sourceAddress = me
  · rw [if_pos hsource]
  · rw [if_neg hsource]

theorem mem_recvRrep {r' : Rrep Node} : r' ∈ (recvRrep mesh me sender st r).2 ↔
    r.desAddress ≠ me ∧ r.sourceAddress ≠ me ∧ r.ttl ≠ 0 ∧ r' = r := by
  unfold recvRrep forwardRrep
  by_cases hdes : r.desAddress = me
  · simp [hdes]
  · by_cases hsource : r.sourceAddress = me
    · simp [hdes, hsource]
    · by_cases httl : r.ttl = 0
      · simp [hdes, httl]
      · simp [hdes, hsource]

/-- What the table holds after a reply: the path that it says, or what it held. -/
theorem backed_recvRrep_iff (hdes : r.desAddress ≠ me) :
    Backed (recvRrep mesh me sender st r).1 r ↔ Suits mesh st sender r := by
  unfold Backed Suits
  rw [recvRrep_table hdes]
  unfold updatePathByFreshness
  have hnew : ∃ e, Function.update st.table r.desAddress (some ⟨sender, r.desSeqNum, r.metric, r.hopCount⟩)
      r.desAddress = some e ∧ r.desSeqNum ≤ e.dsn ∧ e.metric ≤ r.metric :=
    ⟨_, Function.update_self .., UInt32.le_refl _, UInt32.le_refl _⟩
  cases hheld : st.table r.desAddress with
  | none => exact iff_of_true hnew fun e he => nomatch he
  | some e =>
    have hkept : (∃ e', st.table r.desAddress = some e' ∧ r.desSeqNum ≤ e'.dsn ∧ e'.metric ≤ r.metric) ↔
        r.desSeqNum ≤ e.dsn ∧ e.metric ≤ r.metric := by
      rw [hheld]
      simp
    simp only [Option.some.injEq, forall_eq']
    by_cases hfresh : e.dsn ≤ r.desSeqNum
    · rw [if_pos hfresh]
      by_cases hhop : sender = e.nexthopMAC
      · rw [if_pos hhop]
        exact iff_of_true hnew (.inr ⟨hfresh, .inl hhop⟩)
      · rw [if_neg hhop]
        by_cases hbetter : betterPath mesh r.metric r.hopCount e.metric e.hopcount = true
        · rw [if_pos hbetter]
          exact iff_of_true hnew (.inr ⟨hfresh, .inr hbetter⟩)
        · rw [if_neg hbetter]
          exact hkept.trans (or_iff_left fun h => h.2.elim hhop hbetter).symm
    · rw [if_neg hfresh]
      exact hkept.trans (or_iff_left fun h => hfresh h.1).symm

theorem passedOn_backed_iff (i : Input Node) :
    (∀ r ∈ passedOn mesh me st i, Backed (st.input mesh me i) r) ↔ i.Meets mesh me st := by
  obtain ⟨sender, linkMetric, packet⟩ := i
  cases packet with
  | flood m => exact iff_of_true (fun _ hr => nomatch hr) fun r hr => nomatch hr
  | rrep r =>
    -- what the node makes of the reply goes to the same addresses
    have hmem (r' : Rrep Node) : r' ∈ passedOn mesh me st ⟨sender, linkMetric, .rrep r⟩ ↔
        r.desAddress ≠ me ∧ r.sourceAddress ≠ me ∧ r.ttl - 1 ≠ 0 ∧ r' = r.received linkMetric :=
      mem_recvRrep (r := r.received linkMetric)
    constructor
    · intro hall r' hr' hdes hsource httl
      obtain rfl : r = r' := Packet.rrep.inj hr'
      have hback := hall (r.received linkMetric) ((hmem _).mpr ⟨hdes, hsource, httl, rfl⟩)
      exact (backed_recvRrep_iff (r := r.received linkMetric) hdes).mp hback
    · intro hmeets r' hr'
      obtain ⟨hdes, hsource, httl, rfl⟩ := (hmem r').mp hr'
      exact (backed_recvRrep_iff (r := r.received linkMetric) hdes).mpr (hmeets r rfl hdes hsource httl)

/-- **The replies that a node passes on are backed by its table** exactly if each suits the table that it finds. -/
theorem replies_backed_iff (mesh : Topology Node) (me : Node) (st : Station Node) (inputs : List (Input Node)) :
    (∀ k i, inputs[k]? = some i → ∀ r ∈ passedOn mesh me ((inputs.take k).foldl (Station.input mesh me) st) i,
        Backed ((inputs.take (k + 1)).foldl (Station.input mesh me) st) r) ↔
      ∀ k i, inputs[k]? = some i → Input.Meets mesh me ((inputs.take k).foldl (Station.input mesh me) st) i := by
  refine forall_congr' fun k => forall_congr' fun i => forall_congr' fun hk => ?_
  rw [Trace.foldl_take_succ hk]
  exact passedOn_backed_iff i

def heldInput : Input ℕ := ⟨1, 10, .flood ⟨.pann, 0, 15, 9, 1, 0⟩⟩

/-- A newer reply of 9 to 5 comes over 2, at metric 100. -/
def dearInput : Input ℕ := ⟨2, 60, .rrep ⟨9, 2, 40, 1, 14, 5⟩⟩

/-- Node 0 passes the reply on, and keeps to the older path. -/
theorem dearInput_not_backed : ¬ ∀ k i, [heldInput, dearInput][k]? = some i →
    ∀ r ∈ passedOn ⟨fun _ _ => true, fun _ _ => 10, fun _ _ => false, 20⟩ 0
        (([heldInput, dearInput].take k).foldl
          (Station.input ⟨fun _ _ => true, fun _ _ => 10, fun _ _ => false, 20⟩ 0) (init.station 0)) i,
      Backed (([heldInput, dearInput].take (k + 1)).foldl
        (Station.input ⟨fun _ _ => true, fun _ _ => 10, fun _ _ => false, 20⟩ 0) (init.station 0)) r := by
  intro h
  obtain ⟨e, he, hdsn, -⟩ := h 1 dearInput rfl ⟨9, 2, 100, 2, 13, 5⟩ (List.mem_singleton.mpr rfl)
  cases he
  exact absurd hdsn (by decide)

end

end NasFirmware.Mesh
