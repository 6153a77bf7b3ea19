import NasFirmware.Lib.Keyed

/-!
# The Bluetooth coexistence monitor

The USB Bluetooth driver (`rtk_coex.c`) watches the events and the L2CAP signalling packets that pass through it and
counts, for each profile, how many links use it, so that the Wi-Fi side can be told. It keeps two lists: the
connections (`conn_hash`), each with its own counts, and the L2CAP channels it has seen (`profile_list`).
-/

namespace NasFirmware.Bluetooth

inductive Profile where
  | sco | hid | a2dp | pan | hidInterval | hogp | voice
  deriving DecidableEq, Repr

namespace Profile

def index : Profile → Nat
  | sco => 0
  | hid => 1
  | a2dp => 2
  | pan => 3
  | hidInterval => 4
  | hogp => 5
  | voice => 6

end Profile

def bit (i : Profile) : BitVec 8 := 1#8 <<< i.index

def setBit (m : BitVec 8) (i : Profile) : BitVec 8 := m ||| bit i

def clearBit (m : BitVec 8) (i : Profile) : BitVec 8 := m &&& ~~~bit i

def HasBit (m : BitVec 8) (i : Profile) : Prop := m &&& bit i ≠ 0

instance {m : BitVec 8} {i : Profile} : Decidable (HasBit m i) := inferInstanceAs (Decidable (_ ≠ _))

/-! ## State -/

/-- A channel (`rtk_prof_info`). An identifier the driver has not seen yet is zero. -/
structure ProfInfo where
  handle : Nat
  psm : Nat
  dcid : Nat
  scid : Nat
  profileIndex : Profile
  deriving DecidableEq, Repr

/-- What `disconn_acl` tests: with both identifiers known, the L2CAP connection exists. -/
def ProfInfo.Open (d : ProfInfo) : Prop := d.scid ≠ 0 ∧ d.dcid ≠ 0

instance {d : ProfInfo} : Decidable d.Open := inferInstanceAs (Decidable (_ ∧ _))

inductive ConnType where
  | l2cap | scoEsco | le
  deriving DecidableEq, Repr

/-- A connection (`rtk_conn_prof`). -/
structure Conn where
  handle : Nat
  type : ConnType
  profileBitmap : BitVec 8
  profileRefcount : Profile → Int8

structure Counts where
  profileBitmap : BitVec 8
  profileStatus : BitVec 8
  profileRefcount : Profile → Int8

structure Coex where
  connHash : List Conn
  profileList : List ProfInfo
  counts : Counts

def init : Coex := ⟨[], [], ⟨0, 0, fun _ => 0⟩⟩

/-- The profile a channel's PSM stands for; SDP and AVCTP are not followed. -/
def psmToProfileIndex (psm : Nat) : Option Profile :=
  if psm = 0x0017 ∨ psm = 0x0001 then none
  else if psm = 0x0011 ∨ psm = 0x0013 then some .hid
  else if psm = 0x0019 then some .a2dp
  else some .pan

def bump (r : Profile → Int8) (i : Profile) (k : Int8) : Profile → Int8 := Function.update r i (r i + k)

/-- A use of profile `i` begins (`isAdd`) or ends, on connection `c`. -/
def updateProfileConnection (g : Counts) (c : Conn) (i : Profile) (isAdd : Bool) : Counts × Conn :=
  if isAdd then
    let fresh := g.profileRefcount i = 0
    ({ profileBitmap := if fresh then setBit g.profileBitmap i else g.profileBitmap
       -- SCO is always busy
       profileStatus := if fresh ∧ i = .sco then setBit g.profileStatus i else g.profileStatus
       profileRefcount := bump g.profileRefcount i 1 },
     { c with
       profileBitmap := if c.profileRefcount i = 0 then setBit c.profileBitmap i else c.profileBitmap
       profileRefcount := bump c.profileRefcount i 1 })
  else
    let last := g.profileRefcount i - 1 = 0
    let connLast := c.profileRefcount i - 1 = 0
    let connBitmap := if connLast then clearBit c.profileBitmap i else c.profileBitmap
    -- the last HID use of a connection also ends its short interval
    let interval := connLast ∧ i = .hid ∧ HasBit connBitmap .hidInterval
    let refcount := bump g.profileRefcount i (-1)
    ({ profileBitmap := if last then clearBit g.profileBitmap i else g.profileBitmap
       profileStatus := if last then clearBit g.profileStatus i else g.profileStatus
       profileRefcount := if interval then bump refcount .hidInterval (-1) else refcount },
     { c with
       profileBitmap := if interval then clearBit connBitmap .hidInterval else connBitmap
       profileRefcount := bump c.profileRefcount i (-1) })

/-- A connection that uses HID is reported with a new interval; short ones count as activity. -/
def hidActive (g : Counts) (c : Conn) (interval : Nat) : Counts × Conn :=
  if ¬ HasBit c.profileBitmap .hid then (g, c)
  else if interval < 60 then
    if HasBit c.profileBitmap .hidInterval then (g, c)
    else
      let refcount := bump g.profileRefcount .hidInterval 1
      ({ g with
         profileRefcount := refcount
         profileStatus := if refcount .hidInterval = 1 then setBit g.profileStatus .hid else g.profileStatus },
       { c with profileBitmap := setBit c.profileBitmap .hidInterval })
  else
    if HasBit c.profileBitmap .hidInterval then
      let refcount := bump g.profileRefcount .hidInterval (-1)
      ({ g with
         profileRefcount := refcount
         profileStatus := if refcount .hidInterval = 0 then clearBit g.profileStatus .hid else g.profileStatus },
       { c with profileBitmap := clearBit c.profileBitmap .hidInterval })
    else (g, c)

namespace Coex

/-! ## Searches -/

/-- The connection `find_connection_by_handle` finds; its mask leaves bit 8 out. -/
def findConnectionByHandle (s : Coex) (handle : Nat) : Option Conn :=
  Keyed.get Conn.handle (handle &&& 0xEFF) s.connHash

/-- The connection found is replaced, with the counts that go with it. -/
def putConnection (s : Coex) (handle : Nat) (gc : Counts × Conn) : Coex :=
  { s with counts := gc.1, connHash := Keyed.modify Conn.handle (handle &&& 0xEFF) (fun _ => gc.2) s.connHash }

/-- The two ways a response or a request names a channel: by our identifier, or by the peer's. -/
def byScid (d : ProfInfo) : Nat × Nat := (d.handle, d.scid)

@[inherit_doc byScid] def byDcid (d : ProfInfo) : Nat × Nat := (d.handle, d.dcid)

def byDcidScid (d : ProfInfo) : Nat × Nat × Nat := (d.handle, d.dcid, d.scid)

def findProfileByHandleScid (s : Coex) (handle scid : Nat) : Option ProfInfo :=
  Keyed.get byScid (handle &&& 0xFFF, scid) s.profileList

def findProfileByHandleDcid (s : Coex) (handle dcid : Nat) : Option ProfInfo :=
  Keyed.get byDcid (handle &&& 0xFFF, dcid) s.profileList

def findProfileByHandleDcidScid (s : Coex) (handle dcid scid : Nat) : Option ProfInfo :=
  Keyed.get byDcidScid (handle &&& 0xFFF, dcid, scid) s.profileList

/-! ## L2CAP signalling

`out` is the direction of the packet: sent by this host, or received. -/

/-- A channel is asked for. The asking side's identifier is the only one known. -/
def handleL2capConReq (s : Coex) (handle psm scid : Nat) (out : Bool) : Coex :=
  match psmToProfileIndex psm with
  | none => s
  | some i =>
    if out then
      match s.findProfileByHandleScid handle scid with
      | some _ => s
      | none => { s with profileList := s.profileList ++ [⟨handle, psm, 0, scid, i⟩] }
    else
      match s.findProfileByHandleDcid handle scid with
      | some _ => s
      | none => { s with profileList := s.profileList ++ [⟨handle, psm, scid, 0, i⟩] }

/-- The channel a response is about: the answer to our request carries our identifier as the source. -/
def answered (s : Coex) (handle scid : Nat) (out : Bool) : Option ProfInfo :=
  if out then s.findProfileByHandleDcid handle scid else s.findProfileByHandleScid handle scid

def complete (dcid : Nat) (out : Bool) (d : ProfInfo) : ProfInfo :=
  if out then { d with scid := dcid } else { d with dcid := dcid }

/-- A request is answered; `result` is the response's, cut to the eight bits of the parameter. -/
def handleL2capConRsp (s : Coex) (handle dcid scid : Nat) (out : Bool) (result : Nat) : Coex :=
  match s.answered handle scid out with
  | none => s
  | some d =>
    if result % 0x100 = 0 then
      let chans :=
        if out then Keyed.modify byDcid (handle &&& 0xFFF, scid) (complete dcid out) s.profileList
        else Keyed.modify byScid (handle &&& 0xFFF, scid) (complete dcid out) s.profileList
      let s' := { s with profileList := chans }
      match s.findConnectionByHandle handle with
      | none => s'
      | some c => s'.putConnection handle (updateProfileConnection s.counts c d.profileIndex true)
    else s

def disconnected (s : Coex) (handle dcid scid : Nat) (out : Bool) : Option ProfInfo :=
  if out then s.findProfileByHandleDcidScid handle dcid scid else s.findProfileByHandleDcidScid handle scid dcid

def handleL2capDisconReq (s : Coex) (handle dcid scid : Nat) (out : Bool) : Coex :=
  match s.disconnected handle dcid scid out with
  | none => s
  | some d =>
    match s.findConnectionByHandle handle with
    | none => s
    | some c =>
      { s with profileList := Keyed.remove byDcidScid (byDcidScid d) s.profileList }.putConnection handle
        (updateProfileConnection s.counts c d.profileIndex false)

/-! ## Events of the controller -/

def updateHidActiveState (s : Coex) (handle interval : Nat) : Coex :=
  match s.findConnectionByHandle handle with
  | none => s
  | some c => s.putConnection handle (hidActive s.counts c interval)

def idle (handle : Nat) (type : ConnType) : Conn := ⟨handle, type, 0, fun _ => 0⟩

/-- A connection is entered in the list: at its end, or in the place of the one already found. -/
def enter (s : Coex) (handle : Nat) (gc : Counts × Conn) : Coex :=
  match s.findConnectionByHandle handle with
  | none => { s with counts := gc.1, connHash := s.connHash ++ [gc.2] }
  | some _ => s.putConnection handle gc

/-- A connection is made: link types 0 and 2 are SCO and eSCO. A connection that was listed keeps its node. -/
def rtkHandleConnectionCompleteEvt (s : Coex) (status handle linkType : Nat) : Coex :=
  if status = 0 then
    let h := (s.findConnectionByHandle handle).elim handle Conn.handle
    if linkType = 0 ∨ linkType = 2 then
      s.enter handle (updateProfileConnection s.counts (idle h .scoEsco) .sco true)
    else s.enter handle (s.counts, idle h .l2cap)
  else s

/-- A low-energy connection is made; for coexistence it is the same as HID. -/
def rtkHandleLeConnectionCompleteEvt (s : Coex) (status handle interval : Nat) : Coex :=
  if status = 0 then
    let h := (s.findConnectionByHandle handle).elim handle Conn.handle
    (s.enter handle (updateProfileConnection s.counts (idle h .le) .hid true)).updateHidActiveState handle interval
  else s

/-- The loop of `disconn_acl`: every open channel of the connection is released and unlinked. -/
def disconnAcl (handle : Nat) : List ProfInfo → Counts × Conn → List ProfInfo × (Counts × Conn)
  | [], gc => ([], gc)
  | d :: l, gc =>
    if handle = d.handle ∧ d.Open then disconnAcl handle l (updateProfileConnection gc.1 gc.2 d.profileIndex false)
    else (d :: (disconnAcl handle l gc).1, (disconnAcl handle l gc).2)

/-- A connection ends: what it used is released, as its type has it, and it is unlinked. -/
def rtkHandleDisconnectCompleteEvt (s : Coex) (status handle : Nat) : Coex :=
  if status = 0 then
    match s.findConnectionByHandle handle with
    | none => s
    | some c =>
      let released :=
        match c.type with
        | .l2cap => disconnAcl handle s.profileList (s.counts, c)
        | .scoEsco => (s.profileList, updateProfileConnection s.counts c .sco false)
        | .le => (s.profileList, updateProfileConnection s.counts c .hid false)
      { connHash := Keyed.remove Conn.handle (handle &&& 0xEFF) s.connHash
        profileList := released.1
        counts := released.2.1 }
  else s

end Coex

inductive Event where
  | connectionComplete (status handle linkType : Nat)
  | leConnectionComplete (status handle interval : Nat)
  | leConnectionUpdateComplete (handle interval : Nat)
  | disconnectComplete (status handle : Nat)
  | modeChange (handle interval : Nat)
  | l2capConReq (handle psm scid : Nat) (out : Bool)
  | l2capConRsp (handle dcid scid result : Nat) (out : Bool)
  | l2capDisconReq (handle dcid scid : Nat) (out : Bool)
  deriving DecidableEq, Repr

def Event.handle : Event → Nat
  | connectionComplete _ h _ | leConnectionComplete _ h _ | leConnectionUpdateComplete h _ | disconnectComplete _ h
  | modeChange h _ | l2capConReq h _ _ _ | l2capConRsp h _ _ _ _ | l2capDisconReq h _ _ _ => h

/-- One event (`rtk_parse_event_data`, `rtl_process_l2_sig`). -/
def step (s : Coex) : Event → Coex
  | .connectionComplete status handle linkType => s.rtkHandleConnectionCompleteEvt status handle linkType
  | .leConnectionComplete status handle interval => s.rtkHandleLeConnectionCompleteEvt status handle interval
  | .leConnectionUpdateComplete handle interval => s.updateHidActiveState handle interval
  | .disconnectComplete status handle => s.rtkHandleDisconnectCompleteEvt status handle
  | .modeChange handle interval => s.updateHidActiveState handle interval
  | .l2capConReq handle psm scid out => s.handleL2capConReq (handle &&& 0xFFF) psm scid out
  | .l2capConRsp handle dcid scid result out => s.handleL2capConRsp (handle &&& 0xFFF) dcid scid out result
  | .l2capDisconReq handle dcid scid out => s.handleL2capDisconReq (handle &&& 0xFFF) dcid scid out

def run (s : Coex) (events : List Event) : Coex := events.foldl step s

/-- `P` holds of every event of a run, in the state it meets. -/
def Along (P : Coex → Event → Prop) : Coex → List Event → Prop
  | _, [] => True
  | s, e :: es => P s e ∧ Along P (step s e) es

instance decidableAlong {P : Coex → Event → Prop} [∀ s, DecidablePred (P s)] : ∀ s, DecidablePred (Along P s)
  | _, [] => .isTrue trivial
  | s, e :: es =>
    letI := decidableAlong (P := P) (step s e) es
    inferInstanceAs (Decidable (P s e ∧ Along P (step s e) es))

end NasFirmware.Bluetooth
