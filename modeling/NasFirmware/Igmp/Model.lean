import NasFirmware.Lib.Keyed

/-!
# The IGMPv3 proxy

A model of `igmpv3.c` and of the group table in `main.c`, for one upstream interface. The proxy keeps a list of
groups, each with a filter mode, a timer and a list of sources with timers, and mirrors it in the multicast
forwarding cache of the kernel.

What is sent upstream (memberships and source filters) is not modelled. Addresses are in the order of the host.
-/

namespace NasFirmware.Igmp

abbrev Addr := UInt32

/-! ## The group table -/

structure Timer where
  lefttime : ℕ
  retryLeft : ℕ
  deriving DecidableEq, Repr

structure SrcEntry where
  srcaddr : Addr
  timer : Timer
  deriving DecidableEq, Repr

inductive FilterMode where
  | mcastInclude
  | mcastExclude
  deriving DecidableEq, Repr

inductive IgmpVer where
  | v2
  | v3
  deriving DecidableEq, Repr

/-- `struct mcft_entry`. `mrtState` says that the sources that are not in the list are forwarded. -/
structure McftEntry where
  grpAddr : Addr
  userCount : ℕ
  grpMbr : List Addr
  timer : Timer
  igmpVer : IgmpVer
  filterMode : FilterMode
  srclist : List SrcEntry
  mrtState : Bool
  deriving DecidableEq, Repr

/-- The build (`CONFIG_QUERIER_SELECTION`), and the number of the upstream interface. -/
structure Config where
  querierSelection : Bool
  igmpUpIfIdx : Fin 32

def Config.memberQueryInterval (cfg : Config) : ℕ := if cfg.querierSelection then 150 else 30 * 2 + 10

def lastMemberQueryInterval : ℕ := 1

/-- A timer of `MEMBER_QUERY_INTERVAL`, with `MEMBER_QUERY_COUNT`. -/
def Config.gmi (cfg : Config) : Timer := ⟨cfg.memberQueryInterval, 3⟩

/-- A timer of `LAST_MEMBER_QUERY_INTERVAL`, with `LAST_MEMBER_QUERY_COUNT`. -/
def lmqt : Timer := ⟨lastMemberQueryInterval, 2⟩

/-- `IGMPV3_MAX_SRCNUM`: the length of `gsrctmp`. -/
def igmpv3MaxSrcnum : ℕ := 64

/-! ## The kernel and the static buffers -/

inductive Query where
  | igmpv3 (group : Addr) (srcs : List Addr)
  | igmp (group : Addr)
  deriving DecidableEq, Repr

/-- The forwarding cache (whether a group and a source have a route and if it is enabled); the queries sent; and how
many entries of `mcft_entry_tbl` and `mbr_entry_tbl` are free. -/
structure World where
  mfc : Addr → Addr → Option Bool
  sent : List Query
  mcftFree : ℕ
  mbrFree : ℕ

/-- The source of the route: `0` stands for all sources, and the number of the upstream interface for it. -/
def Config.originAdr (cfg : Config) (src : Addr) : Addr :=
  if src ≠ 0 then src else UInt32.ofNat cfg.igmpUpIfIdx

def World.setMfc (w : World) (group origin : Addr) (route : Option Bool) : World :=
  { w with mfc := Function.update w.mfc group (Function.update (w.mfc group) origin route) }

theorem World.mfc_setMfc (w : World) (group origin : Addr) (route : Option Bool) (g o : Addr) :
    (w.setMfc group origin route).mfc g o = if g = group ∧ o = origin then route else w.mfc g o := by
  unfold World.setMfc
  dsimp only
  by_cases hg : g = group
  · subst hg
    rw [Function.update_self, Function.update_apply]
    exact if_congr (and_iff_right rfl).symm rfl rfl
  · rw [Function.update_of_ne hg, if_neg fun h => hg h.1]

def igmpAddMr (cfg : Config) (w : World) (group src : Addr) (enable : Bool) : World :=
  w.setMfc group (cfg.originAdr src) (some enable)

def igmpDelMr (cfg : Config) (w : World) (group src : Addr) : World :=
  w.setMfc group (cfg.originAdr src) none

def delMr (cfg : Config) (w : World) (group : Addr) : World := igmpDelMr cfg w group 0

def World.query (w : World) (q : Query) : World := { w with sent := w.sent ++ [q] }

/-- The query for the sources in `gsrctmp`, if there are any. -/
def querySrcs (w : World) (group : Addr) (gsrctmp : List Addr) : World :=
  if gsrctmp = [] then w else w.query (.igmpv3 group gsrctmp)

/-! ## Source lists -/

/-- A reported source, and what `malloc` answers if the source is new. -/
structure Reported where
  src : Addr
  malloc : Bool
  deriving DecidableEq, Repr

def checkSrcSet (src : Addr) (srclist : List SrcEntry) : Bool := srclist.any (·.srcaddr == src)

def checkSrc (src : Addr) (sources : List Reported) : Bool := sources.any (·.src == src)

/-- `add_to_srclist`: the list with a node for the source, or `none` for `NULL`. -/
def addToSrclist (srclist : List SrcEntry) (src : Addr) (malloc : Bool) : Option (List SrcEntry) :=
  if checkSrcSet src srclist then some srclist
  else if malloc then some (⟨src, ⟨0, 0⟩⟩ :: srclist)
  else none

def setTimer (srclist : List SrcEntry) (src : Addr) (t : Timer) : List SrcEntry :=
  Keyed.modify SrcEntry.srcaddr src (fun s => { s with timer := t }) srclist

def delFromSrclist (srclist : List SrcEntry) (src : Addr) : List SrcEntry :=
  Keyed.remove SrcEntry.srcaddr src srclist

/-! ### Loops over the reported sources

`oldSet` is the list before the loop. New nodes are put in front of it, so a search from `old_set` finds the
old nodes only. -/

/-- The loop of `IS_IN`, `TO_IN` and `ALLOW` in `INCLUDE` mode. The route is added before the node. -/
def includePass (cfg : Config) (group : Addr) (oldSet : List SrcEntry) (x : List SrcEntry × World) (r : Reported) :
    List SrcEntry × World :=
  let w := if checkSrcSet r.src oldSet then x.2 else igmpAddMr cfg x.2 group r.src true
  match addToSrclist x.1 r.src r.malloc with
  | some l => (setTimer l r.src cfg.gmi, w)
  | none => (x.1, w)

def putPass (cfg : Config) (group : Addr) (t : Timer) (enable : Bool) (x : List SrcEntry × World) (r : Reported) :
    List SrcEntry × World :=
  match addToSrclist x.1 r.src r.malloc with
  | some l => (setTimer l r.src t, igmpAddMr cfg x.2 group r.src enable)
  | none => x

/-- The loop of `IS_IN`, `TO_IN` and `ALLOW` in `EXCLUDE` mode. -/
def excludePass (cfg : Config) (group : Addr) : List SrcEntry × World → Reported → List SrcEntry × World :=
  putPass cfg group cfg.gmi true

/-- The loop of `IS_EX`, `TO_EX` and `BLOCK`, for sources that are not in the old list. -/
def newPass (cfg : Config) (group : Addr) (oldSet : List SrcEntry) (t : Timer) (enable : Bool)
    (x : List SrcEntry × World) (r : Reported) : List SrcEntry × World :=
  if checkSrcSet r.src oldSet then x else putPass cfg group t enable x r

/-- A loop that deletes some nodes, with their routes. -/
def deletePass (cfg : Config) (group : Addr) (p : SrcEntry → Bool) (x : List SrcEntry × World) (s : SrcEntry) :
    List SrcEntry × World :=
  if p s then (delFromSrclist x.1 s.srcaddr, igmpDelMr cfg x.2 group s.srcaddr) else x

/-- The loop of `IS_EX` and `TO_EX` over the old list. -/
def missingPass (cfg : Config) (group : Addr) (sources : List Reported) :
    List SrcEntry × World → SrcEntry → List SrcEntry × World :=
  deletePass cfg group fun s => !checkSrc s.srcaddr sources

/-- A loop that lowers the timers of some nodes and collects them in `gsrctmp`, of which `i` places are taken, until
it is full. -/
def lower (p : SrcEntry → Bool) : ℕ → List SrcEntry → List SrcEntry × List Addr
  | _, [] => ([], [])
  | i, s :: l =>
    if p s then
      if i + 1 = igmpv3MaxSrcnum then ({ s with timer := lmqt } :: l, [s.srcaddr])
      else
        let (l, gsrctmp) := lower p (i + 1) l
        ({ s with timer := lmqt } :: l, s.srcaddr :: gsrctmp)
    else
      let (l, gsrctmp) := lower p i l
      (s :: l, gsrctmp)

/-- The same loop, from `old_set` on: the last `oldLen` nodes. -/
def lowerOld (p : SrcEntry → Bool) (oldLen : ℕ) (l : List SrcEntry) : List SrcEntry × List Addr :=
  let (old, gsrctmp) := lower p 0 (l.drop (l.length - oldLen))
  (l.take (l.length - oldLen) ++ old, gsrctmp)

/-- The loop of `TO_EX` in `INCLUDE` mode. Nodes that are not reported are deleted; the others are lowered, until
`gsrctmp` is full. -/
def toexLoop (cfg : Config) (group : Addr) (sources : List Reported) :
    List SrcEntry → List SrcEntry × World × List Addr → List SrcEntry × World × List Addr
  | [], x => x
  | s :: rest, (l, w, gsrctmp) =>
    if checkSrc s.srcaddr sources then
      let x := (setTimer l s.srcaddr lmqt, w, gsrctmp ++ [s.srcaddr])
      if gsrctmp.length + 1 = igmpv3MaxSrcnum then x else toexLoop cfg group sources rest x
    else
      toexLoop cfg group sources rest
        (delFromSrclist l s.srcaddr, igmpDelMr cfg w group s.srcaddr, gsrctmp)

def addUser (e : McftEntry) (w : World) (src : Addr) : McftEntry × World :=
  if src ∈ e.grpMbr then (e, w)
  else if w.mbrFree = 0 then (e, w)
  else
    ({ e with grpMbr := src :: e.grpMbr, userCount := e.userCount + 1 }, { w with mbrFree := w.mbrFree - 1 })

/-- `del_user`. It returns the new `user_count`. -/
def delUser (e : McftEntry) (w : World) (src : Addr) : McftEntry × World :=
  if src ∈ e.grpMbr then
    ({ e with grpMbr := e.grpMbr.erase src, userCount := e.userCount - 1 }, { w with mbrFree := w.mbrFree + 1 })
  else (e, w)

/-! ## Records -/

/-- What becomes of a group: its entry, and whether the entry is handed to `del_mcft`. -/
structure Outcome where
  entry : McftEntry
  world : World
  drop : Bool := false

def isin (cfg : Config) (src : Addr) (sources : List Reported) (e : McftEntry) (w : World) : Outcome :=
  let (e, w) := addUser e w src
  match e.filterMode with
  | .mcastInclude =>
    let (l, w) := sources.foldl (includePass cfg e.grpAddr e.srclist) (e.srclist, w)
    { entry := { e with srclist := l }, world := w }
  | .mcastExclude =>
    let (l, w) := sources.foldl (excludePass cfg e.grpAddr) (e.srclist, w)
    { entry := { e with srclist := l }, world := w }

/-- `ALLOW`, which does the same to a group as `IS_IN`. -/
def allow : Config → Addr → List Reported → McftEntry → World → Outcome := isin

def isex (cfg : Config) (src : Addr) (sources : List Reported) (e : McftEntry) (w : World) : Outcome :=
  let (e, w) := addUser e w src
  let (t, enable) : Timer × Bool := match e.filterMode with
    | .mcastInclude => (⟨0, 0⟩, false)
    | .mcastExclude => (cfg.gmi, true)
  let x := sources.foldl (newPass cfg e.grpAddr e.srclist t enable) (e.srclist, w)
  let (l, w) := e.srclist.foldl (missingPass cfg e.grpAddr sources) x
  { entry := { e with srclist := l, timer := cfg.gmi, filterMode := .mcastExclude }, world := w }

/-- `TO_IN`, up to the last member. -/
def toinSources (cfg : Config) (src : Addr) (sources : List Reported) (e : McftEntry) (w : World) :
    McftEntry × World :=
  let (e, w) := if sources.isEmpty then (e, w) else addUser e w src
  match e.filterMode with
  | .mcastInclude =>
    let (l, w) := sources.foldl (includePass cfg e.grpAddr e.srclist) (e.srclist, w)
    let (l, gsrctmp) := lowerOld (fun s => !checkSrc s.srcaddr sources) e.srclist.length l
    ({ e with srclist := l }, querySrcs w e.grpAddr gsrctmp)
  | .mcastExclude =>
    let (l, w) := sources.foldl (excludePass cfg e.grpAddr) (e.srclist, w)
    let (l, gsrctmp) :=
      lowerOld (fun s => 0 < s.timer.lefttime && !checkSrc s.srcaddr sources) e.srclist.length l
    let w := querySrcs w e.grpAddr gsrctmp
    ({ e with srclist := l, timer := lmqt },
      w.query (if e.igmpVer = .v3 then .igmpv3 e.grpAddr [] else .igmp e.grpAddr))

/-- `TO_IN`. A report without sources is a leave, and the last member takes the group along. -/
def toin (cfg : Config) (src : Addr) (sources : List Reported) (e : McftEntry) (w : World) : Outcome :=
  let (e, w) := toinSources cfg src sources e w
  if sources.isEmpty then
    let (e, w) := delUser e w src
    if e.userCount = 0 then { entry := e, world := delMr cfg w e.grpAddr, drop := true }
    else { entry := e, world := w }
  else { entry := e, world := w }

def toex (cfg : Config) (src : Addr) (sources : List Reported) (e : McftEntry) (w : World) : Outcome :=
  let (e, w) := addUser e w src
  match e.filterMode with
  | .mcastInclude =>
    let (l, w) := sources.foldl (newPass cfg e.grpAddr e.srclist ⟨0, 0⟩ false) (e.srclist, w)
    let (l, w, gsrctmp) := toexLoop cfg e.grpAddr sources e.srclist (l, w, [])
    { entry := { e with srclist := l, timer := cfg.gmi, filterMode := .mcastExclude }
      world := querySrcs w e.grpAddr gsrctmp }
  | .mcastExclude =>
    let x := sources.foldl (newPass cfg e.grpAddr e.srclist ⟨e.timer.lefttime, 3⟩ true) (e.srclist, w)
    let (l, w) := e.srclist.foldl (missingPass cfg e.grpAddr sources) x
    let (l, gsrctmp) := lower (fun s => 0 < s.timer.lefttime) 0 l
    { entry := { e with srclist := l, timer := cfg.gmi }
      world := querySrcs w e.grpAddr gsrctmp }

/-- `BLOCK`. In `EXCLUDE` mode the member is not recorded. -/
def block (cfg : Config) (src : Addr) (sources : List Reported) (e : McftEntry) (w : World) : Outcome :=
  match e.filterMode with
  | .mcastInclude =>
    let (e, w) := addUser e w src
    let (l, gsrctmp) := lower (fun s => checkSrc s.srcaddr sources) 0 e.srclist
    { entry := { e with srclist := l }, world := querySrcs w e.grpAddr gsrctmp }
  | .mcastExclude =>
    let (l, w) := sources.foldl (newPass cfg e.grpAddr e.srclist ⟨e.timer.lefttime, 3⟩ true) (e.srclist, w)
    let (l, gsrctmp) := lower (fun s => checkSrc s.srcaddr sources && 0 < s.timer.lefttime) 0 l
    { entry := { e with srclist := l }, world := querySrcs w e.grpAddr gsrctmp }

/-! ## Timers -/

/-- One second of a timer, and whether a query is due. A timer that runs out is started again while there are
retries. -/
def Timer.tick (t : Timer) : Timer × Bool :=
  if t.lefttime - 1 = 0 ∧ t.retryLeft ≠ 0 then
    if t.retryLeft - 1 ≠ 0 then (⟨lastMemberQueryInterval, t.retryLeft - 1⟩, true) else (⟨0, 0⟩, false)
  else (⟨t.lefttime - 1, t.retryLeft⟩, false)

/-- The loop of `handle_group_timer` over the sources of a group that has run out. -/
def expirePass (cfg : Config) (group : Addr) : List SrcEntry × World → SrcEntry → List SrcEntry × World :=
  deletePass cfg group fun s => s.timer.lefttime = 0

def stopAll (cfg : Config) (e : McftEntry) (w : World) : McftEntry × World :=
  if e.mrtState then ({ e with mrtState := false }, igmpDelMr cfg w e.grpAddr 0) else (e, w)

def forwardAll (cfg : Config) (e : McftEntry) (w : World) : McftEntry × World :=
  if e.mrtState then (e, w) else ({ e with mrtState := true }, igmpAddMr cfg w e.grpAddr 0 true)

def groupTimer (cfg : Config) (e : McftEntry) (w : World) : Outcome :=
  if e.timer.lefttime = 0 then { entry := e, world := w }
  else
    let (t, due) := e.timer.tick
    let w := if due then w.query (.igmp e.grpAddr) else w
    let e := { e with timer := t }
    if e.filterMode = .mcastExclude ∧ t.lefttime = 0 then
      let (l, w) := e.srclist.foldl (expirePass cfg e.grpAddr) (e.srclist, w)
      let e := { e with srclist := l }
      if l ≠ [] then { entry := { e with filterMode := .mcastInclude }, world := w }
      else
        let (e, w) := stopAll cfg e w
        { entry := e, world := w, drop := true }
    else { entry := e, world := w }

def srcPass (cfg : Config) (x : McftEntry × World) (s : SrcEntry) : McftEntry × World :=
  let (e, w) := x
  if s.timer.lefttime = 0 then (e, w)
  else
    let (t, due) := s.timer.tick
    let w := if due then w.query (.igmpv3 e.grpAddr [s.srcaddr]) else w
    let e := { e with srclist := setTimer e.srclist s.srcaddr t }
    if t.lefttime ≠ 0 then stopAll cfg e w
    else
      match e.filterMode with
      | .mcastInclude =>
        ({ e with srclist := delFromSrclist e.srclist s.srcaddr }, igmpDelMr cfg w e.grpAddr s.srcaddr)
      | .mcastExclude => (e, igmpAddMr cfg w e.grpAddr s.srcaddr false)

def srcTimer (cfg : Config) (e : McftEntry) (w : World) : Outcome :=
  let (e, w) := e.srclist.foldl (srcPass cfg) (e, w)
  let (e, w) :=
    if e.filterMode = .mcastExclude ∧ e.srclist ≠ [] ∧ e.srclist.all (·.timer.lefttime = 0) then forwardAll cfg e w
    else (e, w)
  if e.srclist = [] then
    match e.filterMode with
    | .mcastInclude =>
      let (e, w) := stopAll cfg e w
      { entry := e, world := w, drop := true }
    | .mcastExclude =>
      let (e, w) := forwardAll cfg e w
      { entry := e, world := w }
  else { entry := e, world := w }

/-! ## The table -/

structure State where
  mcpq : List McftEntry
  world : World

/-- `get_mcft`; `chk_mcft` says whether there is one. -/
def getMcft (st : State) (group : Addr) : Option McftEntry := Keyed.get McftEntry.grpAddr group st.mcpq

def newEntry (group src : Addr) : McftEntry where
  grpAddr := group
  userCount := 1
  grpMbr := [src]
  timer := lmqt
  igmpVer := .v3
  filterMode := .mcastInclude
  srclist := []
  mrtState := false

/-- `add_mcft`, and whether it succeeds. If there is no entry for the member, the one for the group is lost. -/
def addMcft (st : State) (group src : Addr) : Bool × State :=
  if st.world.mcftFree = 0 then (false, st)
  else if st.world.mbrFree = 0 then
    (false, { st with world := { st.world with mcftFree := st.world.mcftFree - 1 } })
  else
    (true, { mcpq := newEntry group src :: st.mcpq
             world := { st.world with mcftFree := st.world.mcftFree - 1, mbrFree := st.world.mbrFree - 1 } })

def delMcft (st : State) (group : Addr) : State :=
  match getMcft st group with
  | none => st
  | some e =>
    { mcpq := Keyed.remove McftEntry.grpAddr group st.mcpq
      world := { st.world with
        mcftFree := st.world.mcftFree + 1, mbrFree := st.world.mbrFree + e.grpMbr.length } }

def apply (st : State) (group : Addr) (body : McftEntry → World → Outcome) : State :=
  match getMcft st group with
  | none => st
  | some e =>
    let o := body e st.world
    let st := { mcpq := Keyed.modify McftEntry.grpAddr group (fun _ => o.entry) st.mcpq, world := o.world }
    if o.drop then delMcft st group else st

def inMulticast (group : Addr) : Bool := group &&& 0xf0000000 == 0xe0000000

def reserved (group : Addr) : Bool := group &&& 0xffffff00 == 0xe0000000

/-- What the record handlers have in common. A group that is not in the table is added. -/
def onGroup (st : State) (group src : Addr) (body : McftEntry → World → Outcome) : State :=
  if !inMulticast group then st
  else if reserved group then st
  else
    let (ok, st) := if (getMcft st group).isSome then (true, st) else addMcft st group src
    if ok then apply st group body else st

inductive RecordType where
  | modeIsInclude
  | modeIsExclude
  | changeToInclude
  | changeToExclude
  | allowNewSources
  | blockOldSources
  deriving DecidableEq, Repr

section Handlers

variable (cfg : Config) (st : State) (group src : Addr) (sources : List Reported)

def handleIgmpv3Isin : State := onGroup st group src (isin cfg src sources)

def handleIgmpv3Isex : State := onGroup st group src (isex cfg src sources)

def handleIgmpv3Toin : State := onGroup st group src (toin cfg src sources)

def handleIgmpv3Toex : State := onGroup st group src (toex cfg src sources)

def handleIgmpv3Allow : State := onGroup st group src (allow cfg src sources)

def handleIgmpv3Block : State := onGroup st group src (block cfg src sources)

def handleRecord : RecordType → State
  | .modeIsInclude => handleIgmpv3Isin cfg st group src sources
  | .modeIsExclude => handleIgmpv3Isex cfg st group src sources
  | .changeToInclude => handleIgmpv3Toin cfg st group src sources
  | .changeToExclude => handleIgmpv3Toex cfg st group src sources
  | .allowNewSources => handleIgmpv3Allow cfg st group src sources
  | .blockOldSources => handleIgmpv3Block cfg st group src sources

end Handlers

/-! ## Messages and ticks -/

structure Record where
  type : RecordType
  group : Addr
  sources : List Reported

/-- The messages that `igmpv3_accept` acts on: a report of version 1 or 2, a report of version 3, a leave. -/
inductive Message where
  | report (group src : Addr)
  | reportV3 (src : Addr) (records : List Record)
  | leave (group src : Addr)

def allPrinter : Addr := 0xeffffffa

def acceptRecord (cfg : Config) (src : Addr) (st : State) (r : Record) : State :=
  if r.group = allPrinter then st else handleRecord cfg st r.group src r.sources r.type

/-- A group that is reported by a host of version 1 or 2. -/
def addReported (cfg : Config) (st : State) (group src : Addr) : Bool × State :=
  if (getMcft st group).isSome then (true, st)
  else
    let (ok, st) := addMcft st group src
    if ok then
      (true, apply st group fun e w =>
        { entry := { e with timer := cfg.gmi, filterMode := .mcastExclude }, world := w })
    else (false, st)

def igmpv3Accept (cfg : Config) (st : State) : Message → State
  | .report group src =>
    let (ok, st) := addReported cfg st group src
    if ok then
      let st := apply st group fun e w => { entry := { e with igmpVer := .v2 }, world := w }
      handleIgmpv3Isex cfg st group src []
    else st
  | .reportV3 src records => records.foldl (acceptRecord cfg src) st
  | .leave group src =>
    if (getMcft st group).isSome then handleIgmpv3Toin cfg st group src [] else st

/-- A loop over the groups; the next one is looked up before the body runs. -/
def sweep (st : State) (body : McftEntry → World → Outcome) : State :=
  (st.mcpq.map McftEntry.grpAddr).foldl (fun st group => apply st group body) st

def handleGroupTimer (cfg : Config) (st : State) : State := sweep st (groupTimer cfg)

def handleSrcTimer (cfg : Config) (st : State) : State := sweep st (srcTimer cfg)

inductive Event where
  | message (m : Message)
  | tick

def step (cfg : Config) (st : State) : Event → State
  | .message m => igmpv3Accept cfg st m
  | .tick => handleSrcTimer cfg (handleGroupTimer cfg st)

def init : State := ⟨[], ⟨fun _ _ => none, [], 128, 512⟩⟩

end NasFirmware.Igmp
