import NasFirmware.Lib.Flood

/-!
# Mesh path selection

A model of the flooded messages of the path selection daemon (`util_PathUpdate.c`, `Path_OnDemand.c`,
`Tree_Proactive.c`): requests, portal announcements and root announcements. A node that accepts one enters the path
to its originator in the table of the driver; requests are forwarded at once, announcements from pools.

Replies are sent in `Mesh.Relay`; here a reply only takes a sequence number. Roots are chosen by `setRoot`; how, and which
paths are removed with it, is in `Mesh.Election`. Errors are left out.
-/

namespace NasFirmware.Mesh

/-! ## Messages and tables -/

/-- A request (for an address), a portal announcement or a root announcement. -/
inductive Kind (Node : Type) where
  | rreq (desAddress : Node)
  | pann
  | rann

structure Msg (Node : Type) where
  kind : Kind Node
  hopCount : UInt8
  ttl : UInt8
  origAddr : Node
  seqNum : UInt32
  metric : UInt32

structure PathSelEntry (Node : Type) where
  nexthopMAC : Node
  dsn : UInt32
  metric : UInt32
  hopcount : UInt8

/-- An entry of a retransmission pool whose `flag` is set. -/
structure Retx (Node : Type) where
  msg : Msg Node
  timeout : UInt32

/-- `MAX_MPP_NUM`, which is `_MESH_HEADER_TTL_` too. -/
def maxMppNum : ℕ := 15

def propagationDelay : UInt32 := 1

/-- One node: the table of its driver and the globals of its daemon. Messages carry the low 32 bits of `My_SeqNum`. -/
structure Station (Node : Type) where
  table : Node → Option (PathSelEntry Node)
  mySeqNum : ℕ
  isPortal : Bool
  isRoot : Bool
  rannRootMac : Option Node
  rannRootSeqNum : UInt32
  pannRetxPool : List (Option (Retx Node))
  rannRetxEntry : Option (Retx Node)

/-- The mesh: which nodes hear which, at what metric; who has which stations behind it; and the threshold. -/
structure Topology (Node : Type) where
  linked : Node → Node → Bool
  linkMetric : Node → Node → UInt32
  isMyStat : Node → Node → Bool
  pathSwitchThreshold : UInt32

section

variable {Node : Type} [LinearOrder Node] (mesh : Topology Node)

def betterPath (xmetric : UInt32) (xhop : UInt8) (ymetric : UInt32) (yhop : UInt8) : Bool :=
  xmetric + mesh.pathSwitchThreshold < ymetric || xmetric ≤ ymetric && xhop < yhop

/-- `updatePathByFreshness`: the new table, or `none` for the result 0. -/
def updatePathByFreshness (table : Node → Option (PathSelEntry Node)) (destMAC : Node) (dsn metric : UInt32)
    (hopcount : UInt8) (myPrehop : Node) : Option (Node → Option (PathSelEntry Node)) :=
  let table' := Function.update table destMAC (some ⟨myPrehop, dsn, metric, hopcount⟩)
  match table destMAC with
  | some pathEntry =>
    if pathEntry.dsn ≤ dsn then
      if myPrehop = pathEntry.nexthopMAC then some table'
      else if betterPath mesh metric hopcount pathEntry.metric pathEntry.hopcount then some table'
      else none
    else none
  | none => some table'

/-- What a receiver makes of a message before it looks at it. -/
def Msg.received (m : Msg Node) (linkMetric : UInt32) : Msg Node :=
  { m with metric := m.metric + linkMetric, hopCount := m.hopCount + 1, ttl := m.ttl - 1 }

def Station.update (st : Station Node) (m : Msg Node) (myPrehop : Node) : Option (Station Node) :=
  (updatePathByFreshness mesh st.table m.origAddr m.seqNum m.metric m.hopCount myPrehop).map
    fun table => { st with table }

def forwardRreq (m : Msg Node) : List (Msg Node) := if m.ttl = 0 then [] else [m]

/-- `recv_rreq`, for a request for `desAddress`. -/
def recvRreq (me myPrehop : Node) (st : Station Node) (m : Msg Node) (desAddress : Node) :
    Station Node × List (Msg Node) :=
  if m.origAddr = me then (st, [])
  else
    match st.update mesh m myPrehop with
    | none => (st, [])
    | some st =>
      -- the reply itself is `replyRreq`
      if st.isPortal ∧ desAddress = me then ({ st with mySeqNum := st.mySeqNum + 1 }, [])
      else if st.isPortal ∧ mesh.isMyStat me desAddress then ({ st with mySeqNum := st.mySeqNum + 1 }, [])
      else (st, forwardRreq m)

def Station.announce (st : Station Node) (me : Node) (kind : Kind Node) (ttl : UInt8) :
    Station Node × List (Msg Node) :=
  ({ st with mySeqNum := st.mySeqNum + 1 }, [⟨kind, 0, ttl, me, UInt32.ofNat st.mySeqNum, 0⟩])

def genRreq (me : Node) (st : Station Node) (desAddress : Node) (ttl : UInt8) : Station Node × List (Msg Node) :=
  st.announce me (.rreq desAddress) ttl

/-! ## Portal announcements -/

def genPann (me : Node) (st : Station Node) : Station Node × List (Msg Node) :=
  st.announce me .pann (UInt8.ofNat maxMppNum)

/-- An announcement of the same portal in the pool. -/
def samePortal (m : Msg Node) : Option (Retx Node) → Bool
  | some r => r.msg.origAddr = m.origAddr
  | none => false

/-- An announcement that is in the pool is replaced by a newer one. -/
def replaceOlder (m : Msg Node) : List (Option (Retx Node)) → List (Option (Retx Node))
  | [] => []
  | some r :: pool =>
    if r.msg.origAddr = m.origAddr then (if r.msg.seqNum < m.seqNum then some ⟨m, propagationDelay⟩ else some r) :: pool
    else some r :: replaceOlder m pool
  | none :: pool => none :: replaceOlder m pool

/-- An announcement goes to the first free place, if there is one. -/
def putFree (m : Msg Node) : List (Option (Retx Node)) → List (Option (Retx Node))
  | [] => []
  | none :: pool => some ⟨m, propagationDelay⟩ :: pool
  | some r :: pool => some r :: putFree m pool

def updatePannRetx (pool : List (Option (Retx Node))) (m : Msg Node) : List (Option (Retx Node)) :=
  if pool.any (samePortal m) then replaceOlder m pool else putFree m pool

def recvPann (me myPrehop : Node) (st : Station Node) (m : Msg Node) : Station Node :=
  if m.origAddr = me then st
  else
    match st.update mesh m myPrehop with
    | none => st
    | some st => { st with pannRetxPool := updatePannRetx st.pannRetxPool m }

/-- The loop of `retx_pann`: the pool, and what is sent. It ends at an announcement that may not travel on. -/
def retxPool : List (Option (Retx Node)) → List (Option (Retx Node)) × List (Msg Node)
  | [] => ([], [])
  | none :: pool =>
    let (pool, sent) := retxPool pool
    (none :: pool, sent)
  | some r :: pool =>
    if r.timeout - 1 = 0 then
      if r.msg.ttl = 0 then (none :: pool, [])
      else
        let (pool, sent) := retxPool pool
        (none :: pool, r.msg :: sent)
    else
      let (pool, sent) := retxPool pool
      (some { r with timeout := r.timeout - 1 } :: pool, sent)

def retxPann (st : Station Node) : Station Node × List (Msg Node) :=
  let (pool, sent) := retxPool st.pannRetxPool
  ({ st with pannRetxPool := pool }, sent)

def genRann (me : Node) (st : Station Node) : Station Node × List (Msg Node) :=
  { st with rannRootSeqNum := UInt32.ofNat st.mySeqNum }.announce me .rann (UInt8.ofNat maxMppNum)

/-- Whether `recv_rann` follows the root (`update_retx`), or `none` if the announcement is dropped before. -/
def followRoot (me : Node) (st : Station Node) (m : Msg Node) : Option (Station Node × Bool) :=
  if st.isRoot ∧ ¬ m.origAddr < me then none
  else
    let st := { st with isRoot := false }
    let root := { st with rannRootMac := some m.origAddr, rannRootSeqNum := m.seqNum }
    match st.rannRootMac with
    | none => some (root, true)
    | some mac =>
      if m.origAddr < mac then some (root, true)
      else if mac = m.origAddr then
        some (if st.rannRootSeqNum < m.seqNum then { st with rannRootSeqNum := m.seqNum } else st, true)
      else some (st, false)

def recvRann (me myPrehop : Node) (st : Station Node) (m : Msg Node) : Station Node :=
  if m.origAddr = me then st
  else
    match followRoot me st m with
    | none => st
    | some (st, false) => st
    | some (st, true) =>
      match st.update mesh m myPrehop with
      | none => st
      | some st => { st with rannRetxEntry := some ⟨m, propagationDelay⟩ }

def retxRann (st : Station Node) : Station Node × List (Msg Node) :=
  match st.rannRetxEntry with
  | none => (st, [])
  | some r =>
    if r.timeout - 1 = 0 then
      ({ st with rannRetxEntry := none }, if r.msg.ttl = 0 then [] else [r.msg])
    else ({ st with rannRetxEntry := some { r with timeout := r.timeout - 1 } }, [])

/-! ## The network -/

structure State (Node : Type) where
  station : Node → Station Node
  chan : Node → Node → List (Msg Node)

/-- Messages are generated, received, lost, and sent from the pools; portals open and close, and roots are chosen. -/
inductive Event (Node : Type) where
  | genRreq (me desAddress : Node) (ttl : UInt8)
  | genPann (me : Node)
  | genRann (me : Node)
  | deliver (sender me : Node)
  | lose (sender me : Node) (i : ℕ)
  | retxPann (me : Node)
  | retxRann (me : Node)
  | setPortal (me : Node) (isPortal : Bool)
  | setRoot (me : Node) (isRoot : Bool)

/-- What a node does: its new state, and what it broadcasts. -/
def State.act (st : State Node) (me : Node) (x : Station Node × List (Msg Node)) : State Node where
  station := Function.update st.station me x.1
  chan := Function.update st.chan me fun v => st.chan me v ++ x.2

def State.setChan (st : State Node) (u v : Node) (msgs : List (Msg Node)) : State Node :=
  { st with chan := Function.update st.chan u (Function.update (st.chan u) v msgs) }

def receive (sender me : Node) (st : Station Node) (m : Msg Node) : Station Node × List (Msg Node) :=
  let m := m.received (mesh.linkMetric sender me)
  match m.kind with
  | .rreq desAddress => recvRreq mesh me sender st m desAddress
  | .pann => (recvPann mesh me sender st m, [])
  | .rann => (recvRann mesh me sender st m, [])

def step (st : State Node) : Event Node → State Node
  | .genRreq me desAddress ttl => st.act me (genRreq me (st.station me) desAddress ttl)
  | .genPann me => st.act me (genPann me (st.station me))
  | .genRann me => st.act me (genRann me (st.station me))
  | .deliver sender me =>
    match st.chan sender me with
    | [] => st
    | m :: msgs =>
      let st := st.setChan sender me msgs
      if mesh.linked sender me then st.act me (receive mesh sender me (st.station me) m) else st
  | .lose sender me i => st.setChan sender me ((st.chan sender me).eraseIdx i)
  | .retxPann me => st.act me (retxPann (st.station me))
  | .retxRann me => st.act me (retxRann (st.station me))
  | .setPortal me isPortal => st.act me ({ st.station me with isPortal }, [])
  | .setRoot me isRoot =>
    st.act me ({ st.station me with isRoot, rannRootMac := if isRoot then some me else none }, [])

def init : State Node where
  station _ := ⟨fun _ => none, 1, false, false, none, 0, List.replicate maxMppNum none, none⟩
  chan _ _ := []

def run (events : List (Event Node)) : State Node := events.foldl (step mesh) init

end

end NasFirmware.Mesh
