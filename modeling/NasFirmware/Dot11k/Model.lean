import NasFirmware.Lib.Loop

/-!
# A measurement round

`TimerFunc` of `dot11k_deamon.c` asks the stations for beacon measurements, polls the driver for their reports, and
collects the neighbours that are reported.

`getWlStaInfo`, which fills the table from a file of the driver, has a module of its own. The requests themselves and
the neighbours that are written to the driver are left out.
-/

namespace NasFirmware.Dot11k

def maxStaNum : ℕ := 128

def maxNeighborNum : ℕ := 32

def beaconMeasureTime : ℕ := 13

/-- `MEASUREMENT_RESULT`, read from a byte. -/
inductive MeasurementResult where
  | unknown
  | processing
  | succeed
  | incapable
  | refused
  | other (b : UInt8)
deriving DecidableEq

def MeasurementResult.ofByte (b : UInt8) : MeasurementResult :=
  if b = 0 then .unknown
  else if b = 1 then .processing
  else if b = 2 then .succeed
  else if b = 3 then .incapable
  else if b = 4 then .refused
  else .other b

/-- `struct dot11k_sta_info`; of `rm_cap` only the first byte is looked at. -/
structure Station where
  valid : UInt8
  rmCap : UInt8
  channel : UInt8
  lastScanIdx : UInt8
  result : MeasurementResult

/-- A BSS of `struct dot11k_beacon_measurement_report`, with the memory from `subelements` on. -/
structure Report where
  opClass : UInt8
  channel : UInt8
  bssid : List UInt8
  subelementsLen : UInt8
  subelements : ℕ → UInt8

/-- `struct dot11k_neighbor_report` and `struct dot11k_neighbor_bss_load`. -/
structure Neighbor where
  bssid : List UInt8
  bssinfo : UInt32
  opClass : UInt8
  channel : UInt8
  phytype : UInt8
  staCount : ℕ
  channelUtilization : UInt8

/-- The settings of the interface: `iface_ft_enable`, `iface_mdid` and `iface_htcap`. -/
structure Iface where
  ftEnable : Bool
  mdid : List UInt8
  htcap : List UInt8

/-! ## Neighbours -/

section Collect

variable (iface : Iface) (r : Report)

def Report.matches (bs : List UInt8) (off : ℕ) : Bool := (List.range bs.length).map (fun k => r.subelements (off + k)) = bs

def Neighbor.setBit (n : Neighbor) (bit : UInt32) : Neighbor := { n with bssinfo := n.bssinfo ||| bit }

def Neighbor.setCaps (n : Neighbor) (capInfo : UInt8) : Neighbor :=
  let n := if capInfo &&& 0x01 ≠ 0 then n.setBit 0x10 else n
  let n := if capInfo &&& 0x02 ≠ 0 then n.setBit 0x20 else n
  let n := if capInfo &&& 0x08 ≠ 0 then n.setBit 0x40 else n
  let n := if capInfo &&& 0x10 ≠ 0 then n.setBit 0x80 else n
  let n := if capInfo &&& 0x40 ≠ 0 then n.setBit 0x100 else n
  if capInfo &&& 0x80 ≠ 0 then n.setBit 0x200 else n

/-- One element of a frame body: `_MOBILITY_DOMAIN_IE_`, `_HT_CAP_` or `_BSS_LOAD_IE_`. -/
def takeElement (n : Neighbor) (len : ℕ) : Neighbor :=
  if r.subelements len = 54 ∧ iface.ftEnable then
    if r.matches iface.mdid (len + 2) then n.setBit 0x400 else n
  else if r.subelements len = 45 then
    if r.matches iface.htcap (len + 2) then n.setBit 0x800 else n
  else if r.subelements len = 11 then
    { n with
      staCount := (r.subelements (len + 2)).toNat + 256 * (r.subelements (len + 3)).toNat
      channelUtilization := r.subelements (len + 4) }
  else n

def parseElements : ℕ → ℕ → Neighbor → ℕ × Neighbor
  | 0, len, n => (len, n)
  | fuel + 1, len, n =>
    if len + 2 ≤ r.subelementsLen.toNat then
      let elementLen := (r.subelements (len + 1)).toNat
      if r.subelementsLen.toNat < len + 2 + elementLen then (len, n)
      else parseElements fuel (len + 2 + elementLen) (takeElement iface r n len)
    else (len, n)

/-- The loop over the subelements: `_FRAME_BODY_SUBIE_` is looked into, `_VENDOR_SPEC_IE_` is skipped. -/
def parseSubelements : ℕ → ℕ → Neighbor → Neighbor
  | 0, _, n => n
  | fuel + 1, len, n =>
    if len + 2 ≤ r.subelementsLen.toNat then
      let subelementLen := (r.subelements (len + 1)).toNat
      if r.subelementsLen.toNat < len + 2 + subelementLen then n
      else if r.subelements len = 1 then
        if r.subelementsLen.toNat < len + 14 then n
        else
          let (len, n) :=
            parseElements iface r r.subelementsLen.toNat (len + 14) (n.setCaps (r.subelements (len + 13)))
          parseSubelements fuel len n
      else if r.subelements len = 221 then parseSubelements fuel (len + 2 + subelementLen) n
      else n
    else n

/-- The entry for a BSS. Every turn of a loop reads two bytes at least. -/
def newNeighbor : Neighbor :=
  parseSubelements iface r r.subelementsLen.toNat 0 ⟨r.bssid, 0x000E, r.opClass, r.channel, 0, 0, 0⟩

def colloectNeighborReport (list : List Neighbor) : List Neighbor :=
  match list.findIdx? (·.bssid = r.bssid) with
  | some i => list.set i (newNeighbor iface r)
  | none => if list.length = maxNeighborNum then list else list ++ [newNeighbor iface r]

end Collect

def Station.refresh (s : Station) : Station := { s with valid := if s.valid = 2 then 1 else 0 }

def Station.Measures (s : Station) : Prop := s.valid ≠ 0 ∧ s.rmCap &&& 0x10 ≠ 0

instance (s : Station) : Decidable s.Measures := inferInstanceAs (Decidable (_ ∧ _))

def globalOpClass : List UInt8 := [115, 118, 121, 124, 125]

/-- A beacon request is issued; above channel 13 the operating classes take turns. -/
def Station.issue (ok : Bool) (s : Station) : Station :=
  if s.Measures then
    { s with
      lastScanIdx := if s.channel < 14 then s.lastScanIdx else (s.lastScanIdx + 1) % UInt8.ofNat globalOpClass.length
      result := if ok then .processing else .unknown }
  else s

/-! ## Polling -/

/-- What the driver answers to `SIOC11KBEACONREP`: an error, or a result, with the BSSs of a success and whether there
is memory for them. -/
inductive Answer where
  | error
  | report (result bssNum : UInt8) (bss : ℕ → Report) (alloc : Bool)

inductive Pointer where
  | null
  | held (bss : ℕ → Report)
  | freed

/-- A pass that has ended: the stations that were due when it began, and those that were asked for, by their places.
-/
structure PassLog where
  due : List ℕ
  asked : List ℕ

/-- The variables of `TimerFunc` in its polling loops. For the record: the ioctls, the stations due and asked for in
this pass, the passes before, the BSSs reported and those handed on. -/
structure Poll where
  sta : ℕ → Station
  neighbors : List Neighbor
  i : ℕ
  j : ℕ
  finish : Bool
  bssNum : ℕ
  beaconReport : Pointer
  ioctls : ℕ
  due : List ℕ
  asked : List ℕ
  passes : List PassLog
  reported : List Report
  handed : List Report

def Station.Pending (s : Station) : Prop := s.Measures ∧ s.result = .processing

instance (s : Station) : Decidable s.Pending := inferInstanceAs (Decidable (_ ∧ _))

def pendingSlots (sta : ℕ → Station) : List ℕ := (List.range maxStaNum).filter fun q => (sta q).Pending

def Poll.setResult (s : Poll) (result : MeasurementResult) : Poll :=
  { s with sta := Function.update s.sta s.i { s.sta s.i with result } }

/-- `get_beacon_measurement_report`: whether it returns 0. -/
def getBeaconMeasurementReport (a : Answer) (s : Poll) : Bool × Poll :=
  let s := { s with ioctls := s.ioctls + 1, asked := s.asked ++ [s.i] }
  match a with
  | .error => (false, s)
  | .report result bssNum bss alloc =>
    let s := s.setResult (.ofByte result)
    if MeasurementResult.ofByte result = .succeed then
      let s := { s with bssNum := bssNum.toNat, reported := s.reported ++ (List.range bssNum.toNat).map bss }
      if bssNum = 0 then (true, s)
      else if alloc then (true, { s with beaconReport := .held bss })
      else (false, { s with beaconReport := .null })
    else (true, s)

/-- The loop over the BSSs of a report. It leaves `i` at their number. -/
def handBss (iface : Iface) (bss : ℕ → Report) (s : Poll) : Poll :=
  let reports := (List.range s.bssNum).map bss
  { s with
    neighbors := reports.foldl (fun list r => colloectNeighborReport iface r list) s.neighbors
    handed := s.handed ++ reports
    i := s.bssNum }

/-- `free(beacon_report)`, if it is not null; `none` if it has been freed. The pointer is not reset. -/
def freeReport (s : Poll) : Option Poll :=
  match s.beaconReport with
  | .null => some s
  | .held _ => some { s with beaconReport := .freed }
  | .freed => none

/-- What is done with a station that has still to report. -/
def pollStation (iface : Iface) (a : Answer) (s : Poll) : Option Poll :=
  let q := s.i
  match getBeaconMeasurementReport a s with
  | (false, s) => some s
  | (true, s) =>
    if (s.sta q).result = .processing then some { s with finish := false }
    else if (s.sta q).result = .succeed then
      match s.beaconReport with
      | .held bss => freeReport (handBss iface bss s)
      | _ => freeReport { s with i := 0 }
    else some s

def Poll.newPass (s : Poll) (j : ℕ) : Poll :=
  { s with i := 0, j := j, finish := true, due := pendingSlots s.sta, asked := [] }

/-- One turn of the two loops: a station, or the end of a pass. -/
def pollStep (iface : Iface) (answers : ℕ → Answer) (s : Poll) : Option (CLoop.Pass Poll Poll) :=
  if s.i < maxStaNum then
    if (s.sta s.i).Pending then
      (pollStation iface (answers s.ioctls) s).map fun s => .next { s with i := s.i + 1 }
    else some (.next { s with i := s.i + 1 })
  else
    let s := { s with passes := s.passes ++ [⟨s.due, s.asked⟩] }
    if s.finish ∨ beaconMeasureTime ≤ s.j + 1 then some (.done s) else some (.next (s.newPass (s.j + 1)))

def startPoll (sta : ℕ → Station) : Poll :=
  Poll.newPass ⟨sta, [], 0, 0, true, 0, .null, 0, [], [], [], [], []⟩ 0

def pollTurns : ℕ := 1300000

def poll (iface : Iface) (answers : ℕ → Answer) (sta : ℕ → Station) : Option Poll :=
  CLoop.loop (pollStep iface answers) pollTurns (startPoll sta)

/-- `TimerFunc` from the table that `getWlStaInfo` leaves. -/
def timerFunc (iface : Iface) (issued : ℕ → Bool) (answers : ℕ → Answer) (sta : ℕ → Station) : Option Poll :=
  poll iface answers fun q => (sta q).refresh.issue (issued q)

end NasFirmware.Dot11k
