import NasFirmware.Igmp.Model
import NasFirmware.Lib.Pool

/-!
# The proxy without IGMPv3

A model of `main.c` in the default build (`KEEP_GROUP_MEMBER`, `USE_STATIC_ENTRY_BUFFER`, `PERIODICAL_SPECIFIC_QUERY`),
for one upstream interface that is there, and a kernel that does what it is asked. Groups and members are entries of
two static tables, and lists are lists of their numbers. A timer belongs to an entry, not to the group in it.

When a timer is due is not modelled: any timer that runs may be the next to run out.
-/

namespace NasFirmware.Igmp.Plain

open Keyed

/-! ## The tables -/

abbrev maxMfctEntry : ℕ := 128

abbrev maxMbrEntry : ℕ := 512

def memberQueryCount : UInt32 := 3

def lastMemberQueryCount : UInt32 := 2

/-- `struct mcft_entry`, with its list of members. -/
structure Mcft where
  grpAddr : Addr
  userCount : UInt32
  grpMbr : List (Fin maxMbrEntry)
  retryLeft : UInt32

/-- `mcft_entry_tbl` and `mbr_entry_tbl`; `mcpq`; the entries whose timers run (`callout`); the groups joined
upstream, those that have a route, and those that were queried. -/
structure State where
  mcftTbl : Pool.Table maxMfctEntry Mcft
  mbrTbl : Pool.Table maxMbrEntry Addr
  mcpq : List (Fin maxMfctEntry)
  callout : List (Fin maxMfctEntry)
  joined : Addr → Bool
  mfc : Addr → Bool
  sent : List Addr

def State.entry (st : State) (i : Fin maxMfctEntry) : Mcft := (st.mcftTbl i).entry

def State.grp (st : State) (i : Fin maxMfctEntry) : Addr := (st.entry i).grpAddr

def State.userAddr (st : State) (j : Fin maxMbrEntry) : Addr := (st.mbrTbl j).entry

def State.setEntry (st : State) (i : Fin maxMfctEntry) (e : Mcft) : State :=
  { st with mcftTbl := Function.update st.mcftTbl i { st.mcftTbl i with entry := e } }

/-- `timeout`: a timer that runs already is set to another time. -/
def timeout (st : State) (i : Fin maxMfctEntry) : State :=
  if i ∈ st.callout then st else { st with callout := i :: st.callout }

def untimeout (st : State) (i : Fin maxMfctEntry) : State := { st with callout := st.callout.erase i }

def setRetryLeft (st : State) (i : Fin maxMfctEntry) (n : UInt32) : State :=
  st.setEntry i { st.entry i with retryLeft := n }

def igmpQuery (st : State) (group : Addr) : State := { st with sent := st.sent ++ [group] }

/-- `add_mr`: join upstream, and add the route. -/
def addMr (st : State) (group : Addr) : State :=
  { st with joined := Function.update st.joined group true, mfc := Function.update st.mfc group true }

def delMr (st : State) (group : Addr) : State :=
  { st with joined := Function.update st.joined group false, mfc := Function.update st.mfc group false }

def getMcft (st : State) (group : Addr) : Option (Fin maxMfctEntry) := Keyed.get st.grp group st.mcpq

/-- `add_mcft`. If there is no entry for the member, the one for the group stays in use. -/
def addMcft (st : State) (group src : Addr) : Option (Fin maxMfctEntry) × State :=
  match Pool.find st.mcftTbl with
  | none => (none, st)
  | some i =>
    match Pool.find st.mbrTbl with
    | none => (none, { st with mcftTbl := Function.update st.mcftTbl i { st.mcftTbl i with valid := true } })
    | some j =>
      (some i, { st with
        mcftTbl := Function.update st.mcftTbl i
          ⟨true, { st.entry i with grpAddr := group, userCount := 1, grpMbr := [j] }⟩
        mbrTbl := Function.update st.mbrTbl j ⟨true, src⟩
        mcpq := i :: st.mcpq })

/-- `del_mcft`. The entry keeps what is in it. -/
def delMcft (st : State) (group : Addr) : State :=
  match getMcft st group with
  | none => st
  | some i =>
    untimeout { st with
      mcpq := Keyed.remove st.grp group st.mcpq
      mbrTbl := Pool.freeAll st.mbrTbl (st.entry i).grpMbr
      mcftTbl := Pool.free st.mcftTbl i } i

/-- `add_user`: `0` if it fails, `1` for a member that is there already, `2` for a new one. -/
def addUser (st : State) (i : Fin maxMfctEntry) (src : Addr) : ℕ × State :=
  if src ∈ (st.entry i).grpMbr.map st.userAddr then (1, st)
  else
    match Pool.find st.mbrTbl with
    | none => (0, st)
    | some j =>
      (2, { st.setEntry i { st.entry i with
              grpMbr := j :: (st.entry i).grpMbr, userCount := (st.entry i).userCount + 1 } with
            mbrTbl := Function.update st.mbrTbl j ⟨true, src⟩ })

/-- `del_user`, and the `user_count` it returns. -/
def delUser (st : State) (i : Fin maxMfctEntry) (src : Addr) : UInt32 × State :=
  match Keyed.get st.userAddr src (st.entry i).grpMbr with
  | none => ((st.entry i).userCount, st)
  | some j =>
    ((st.entry i).userCount - 1,
      { st.setEntry i { st.entry i with
          grpMbr := Keyed.remove st.userAddr src (st.entry i).grpMbr, userCount := (st.entry i).userCount - 1 } with
        mbrTbl := Pool.free st.mbrTbl j })

/-! ## Packets -/

def addGroupAndSrc (st : State) (group src : Addr) : State :=
  if !inMulticast group then st
  else if reserved group then st
  else
    match getMcft st group with
    | none =>
      match addMcft st group src with
      | (none, st) => st
      | (some i, st) => timeout (setRetryLeft (addMr st group) i (memberQueryCount + 1)) i
    | some i => timeout (setRetryLeft (addUser (untimeout st i) i src).2 i (memberQueryCount + 1)) i

/-- The end of a group: `del_mr` and `del_mcft`. -/
def dropGroup (st : State) (group : Addr) : State := delMcft (delMr st group) group

/-- `del_group_and_src`. The timer is started even if the last member is gone, and the entry with it. -/
def delGroupAndSrc (st : State) (group src : Addr) : State :=
  if !inMulticast group then st
  else
    match getMcft st group with
    | none => st
    | some i =>
      let (count, st) := delUser st i src
      let st := if count = 0 then dropGroup st (st.grp i) else st
      let st := timeout (setRetryLeft st i lastMemberQueryCount) i
      igmpQuery st (st.grp i)

def igmpSpecificTimerExpired (st : State) (i : Fin maxMfctEntry) : State :=
  let st := setRetryLeft st i ((st.entry i).retryLeft - 1)
  if (st.entry i).retryLeft = 0 then
    let st := if (st.entry i).userCount ≠ 0 then dropGroup st (st.grp i) else st
    untimeout st i
  else igmpQuery (timeout st i) (st.grp i)

def acceptRecord (src : Addr) (st : State) (r : Record) : State :=
  if r.group = allPrinter then st
  else
    match r.type with
    | .modeIsInclude | .modeIsExclude =>
      if (getMcft st r.group).isSome then addGroupAndSrc st r.group src else st
    | .changeToInclude =>
      if r.sources.length ≠ 0 then addGroupAndSrc st r.group src else delGroupAndSrc st r.group src
    | .changeToExclude => addGroupAndSrc st r.group src
    | .allowNewSources | .blockOldSources => st

def igmpAccept (st : State) : Message → State
  | .report group src => addGroupAndSrc st group src
  | .reportV3 src records => records.foldl (acceptRecord src) st
  | .leave group src => delGroupAndSrc st group src

inductive Event where
  | packet (m : Message)
  | expire (i : Fin maxMfctEntry)

/-- What the main loop does. `calltimeout` calls timers that run. -/
def step (st : State) : Event → State
  | .packet m => igmpAccept st m
  | .expire i => if i ∈ st.callout then igmpSpecificTimerExpired st i else st

def init : State where
  mcftTbl := fun _ => ⟨false, ⟨0, 0, [], 0⟩⟩
  mbrTbl := fun _ => ⟨false, 0⟩
  mcpq := []
  callout := []
  joined := fun _ => false
  mfc := fun _ => false
  sent := []

def run (events : List Event) : State := events.foldl step init

end NasFirmware.Igmp.Plain
