import NasFirmware.Bluetooth.Coex
import NasFirmware.Bluetooth.Reassembly

/-!
# Sessions and deferred work

Events and L2CAP signalling packets are received in interrupts. They are copied into buffers of two pools, and work
that runs later takes the buffers in their order, interprets them (`Coex`) and gives them back. The monitor is opened
and closed with the device; the pools stay.
-/

namespace NasFirmware.Bluetooth

open ByteMem

/-! ## Buffers -/

def maxLenOfHciEv : Nat := 32

def numRtlHciEv : Nat := 32

def l2MaxSubsecLen : Nat := 128

def l2MaxPkts : Nat := 16

structure EvNode where
  data : Mem
  len : Nat

/-- `rtl_l2_buff`; its length is not kept. -/
structure L2Node where
  data : Mem
  out : Bool

/-- A buffer in use, with the session in which it was filled. The code does not have the session. -/
structure Tagged (ν : Type) where
  node : ν
  session : Nat

/-- A pool, and its delayed work: whether it is queued, and whether it is being done. -/
structure Lane (ν : Type) where
  free : List ν
  used : List (Tagged ν)
  queued : Bool
  running : Bool

namespace Lane

variable {ν : Type}

/-- A free buffer, if there is one, is filled and goes to the end of the used ones, and the work is queued. -/
def enqueue (q : Lane ν) (fill : ν → ν) (session : Nat) : Lane ν :=
  match q.free with
  | [] => q
  | n :: free => { q with free := free, used := q.used ++ [⟨fill n, session⟩], queued := true }

def start (q : Lane ν) : Lane ν := if q.queued ∧ ¬ q.running then { q with queued := false, running := true } else q

def cancel (q : Lane ν) : Lane ν := { q with queued := false }

def next (q : Lane ν) : Option (Tagged ν) := if q.running then q.used.head? else none

def advance (q : Lane ν) : Lane ν :=
  if q.running then
    match q.used with
    | [] => { q with running := false }
    | n :: used => { q with used := used, free := q.free ++ [n.node] }
  else q

end Lane

/-- The event in a buffer, as the monitor's lists and counts are concerned (`rtk_parse_event_data`). -/
def rtkParseEventData (data : Mem) : Option Event :=
  match (data 0).toNat with
  | 0x03 | 0x2c => some (.connectionComplete (data 2).toNat (load16 data 3) (data 11).toNat)
  | 0x05 => some (.disconnectComplete (data 2).toNat (load16 data 3))
  | 0x14 => some (.modeChange (load16 data 3) (load16 data 6))
  | 0x3e =>
    match (data 2).toNat with
    | 0x01 => some (.leConnectionComplete (data 3).toNat (load16 data 4) (load16 data 14))
    | 0x03 => some (.leConnectionUpdateComplete (load16 data 4) (load16 data 6))
    | _ => none
  | _ => none

/-- The signalling in a buffer (`rtl_process_l2_sig`). -/
def rtlProcessL2Sig (l2 : L2Node) : Option Event :=
  match (l2.data 8).toNat with
  | 0x02 => some (.l2capConReq (load16 l2.data 0) (load16 l2.data 12) (load16 l2.data 14) l2.out)
  | 0x03 =>
    some (.l2capConRsp (load16 l2.data 0) (load16 l2.data 12) (load16 l2.data 14) (load16 l2.data 16) l2.out)
  | 0x06 => some (.l2capDisconReq (load16 l2.data 0) (load16 l2.data 12) (load16 l2.data 14) l2.out)
  | _ => none

def apply (s : Coex) : Option Event → Coex
  | none => s
  | some e => step s e

/-! ## The driver -/

/-- What `rtk_btcoex_close` waits for: the work on events, then the work on signalling. -/
inductive Closing where
  | events | signalling
  deriving DecidableEq, Repr

structure Driver where
  rx : Rx
  closing : Option Closing
  /-- How often the monitor has been opened. The code does not have it. -/
  session : Nat
  ev : Lane EvNode
  l2 : Lane L2Node
  coex : Coex

namespace Driver

def loaded (l2 : List L2Node) : Driver where
  rx := ⟨false, 0, 0, 0, none, fun _ => 0⟩
  closing := none
  session := 0
  ev := ⟨List.replicate numRtlHciEv ⟨fun _ => 0, 0⟩, [], false, false⟩
  l2 := ⟨l2, [], false, false⟩
  coex := init

/-- `rtk_btcoex_open`. Calls for one device do not overlap. -/
def rtkBtcoexOpen (d : Driver) : Driver :=
  if d.rx.running = true ∨ d.closing ≠ none then d
  else
    { d with
      rx := d.rx.rtkBtcoexOpen
      session := d.session + 1
      ev := d.ev.cancel
      l2 := d.l2.cancel
      coex := { d.coex with connHash := [], profileList := [] } }

/-- `rtk_btcoex_close`, until it waits for the work on events. -/
def rtkBtcoexClose (d : Driver) : Driver :=
  if d.rx.running then
    { d with rx := { d.rx with running := false }, ev := d.ev.cancel, closing := some .events }
  else d

/-- The rest of `rtk_btcoex_close`: the work has ended that it waited for. -/
def closeStep (d : Driver) : Driver :=
  match d.closing with
  | none => d
  | some .events => if d.ev.running then d else { d with l2 := d.l2.cancel, closing := some .signalling }
  | some .signalling => if d.l2.running then d else { d with rx := d.rx.reset, coex := init, closing := none }

def evFilterOut (code : UInt8) : Bool :=
  code ∉ ([0x01, 0x16, 0x31, 0x06, 0x18, 0x14, 0x0e, 0x0f, 0x03, 0x2c, 0x05, 0x3e, 0xff] : List UInt8)

/-- `rtk_btcoex_evt_enqueue`: no more of the event than a buffer holds. -/
def rtkBtcoexEvtEnqueue (session : Nat) (ev : Lane EvNode) (s : List UInt8) : Lane EvNode :=
  if evFilterOut (s.headD 0) then ev
  else ev.enqueue (fun n => ⟨write n.data 0 (s.take maxLenOfHciEv), min s.length maxLenOfHciEv⟩) session

/-- `rtk_btcoex_parse_event`. A transfer that the loop never came to the end of would change nothing. -/
def parseEvent (d : Driver) (buffer : List UInt8) : Driver :=
  match rtkBtcoexParseEvent (rtkBtcoexEvtEnqueue d.session) (d.rx, d.ev) buffer with
  | some (rx, ev) => { d with rx := rx, ev := ev }
  | none => d

def copied (len : Nat) : Nat := min (len % 0x10000) l2MaxSubsecLen

/-- A request, a response or a disconnection on the signalling channel. -/
def IsSignal (hd : Mem) : Prop := load16 hd 6 = 1 ∧ (hd 8 = 0x02 ∨ hd 8 = 0x03 ∨ hd 8 = 0x06)

instance {hd : Mem} : Decidable (IsSignal hd) := inferInstanceAs (Decidable (_ ∧ _))

/-- `rtl_l2_data_process`, for a packet at `hd`. What is no signalling is at most counted. -/
def rtlL2DataProcess (d : Driver) (hd : Mem) (len : Nat) (dir : Bool) : Driver :=
  if IsSignal hd then
    { d with l2 := d.l2.enqueue (fun n => ⟨write n.data 0 (read hd 0 (copied len)), dir⟩) d.session }
  else d

/-- `rtk_btcoex_parse_l2cap_data_tx` and `rtk_btcoex_parse_l2cap_data_rx`. -/
def parseL2capData (d : Driver) (hd : Mem) (len : Nat) (dir : Bool) : Driver :=
  if d.rx.running then d.rtlL2DataProcess hd len dir else d

def rtlEvWork (d : Driver) : Driver :=
  { d with
    ev := d.ev.advance
    coex := apply d.coex (d.ev.next.bind fun n => rtkParseEventData n.node.data) }

def rtlL2Work (d : Driver) : Driver :=
  { d with
    l2 := d.l2.advance
    coex := apply d.coex (d.l2.next.bind fun n => rtlProcessL2Sig n.node) }

end Driver

inductive Action where
  | open
  | close
  | closeStep
  | transfer (buffer : List UInt8)
  | l2capData (hd : Mem) (len : Nat) (dir : Bool)
  | startEvWork
  | evWork
  | startL2Work
  | l2Work

def Driver.step (d : Driver) : Action → Driver
  | .open => d.rtkBtcoexOpen
  | .close => d.rtkBtcoexClose
  | .closeStep => d.closeStep
  | .transfer buffer => d.parseEvent buffer
  | .l2capData hd len dir => d.parseL2capData hd len dir
  | .startEvWork => { d with ev := d.ev.start }
  | .evWork => d.rtlEvWork
  | .startL2Work => { d with l2 := d.l2.start }
  | .l2Work => d.rtlL2Work

/-- The driver after some actions; at first the pool for signalling is `l2`. -/
def Driver.run (l2 : List L2Node) (actions : List Action) : Driver := actions.foldl Driver.step (loaded l2)

end NasFirmware.Bluetooth
