import NasFirmware.Bluetooth.Accounting
import NasFirmware.Lib.Trace

/-!
# The activity of HID

A low-energy link counts as HID, and as an active one while its interval is short. Activity is kept three times: as a
bit of each connection, as a count for all of them, and as a bit of `profile_status`.
-/

namespace NasFirmware.Bluetooth

open Coex

/-! ## Events -/

inductive LeEvent where
  | connection (status : UInt8) (handle : Fin 0x100) (interval : UInt16)
  | update (handle : Fin 0x100) (interval : UInt16)
  | disconnection (status : UInt8) (handle : Fin 0x100)
  deriving DecidableEq, Repr

def LeEvent.toEvent : LeEvent → Event
  | connection status handle interval => .leConnectionComplete status.toNat handle interval.toNat
  | update handle interval => .leConnectionUpdateComplete handle interval.toNat
  | disconnection status handle => .disconnectComplete status.toNat handle

def leRun (events : List LeEvent) : Coex := run init (events.map LeEvent.toEvent)

def Conn.Active (c : Conn) : Prop := HasBit c.profileBitmap .hidInterval

instance {c : Conn} : Decidable c.Active := inferInstanceAs (Decidable (HasBit _ _))

def Coex.active (s : Coex) : Nat := s.connHash.countP fun c => c.Active

/-- The status bit of HID says whether a connection is active, and the count is the number of those that are. -/
def Accurate (s : Coex) : Prop :=
  (HasBit s.counts.profileStatus .hid ↔ ∃ c ∈ s.connHash, c.Active) ∧
    (s.counts.profileRefcount .hidInterval).toInt = s.active

/-- A link becomes active while the count has room, and the last active one does not end while others are listed. -/
def Steady (s : Coex) : LeEvent → Prop
  | .connection status _ interval => status = 0 → interval.toNat < 60 → s.active < 127
  | .update handle interval =>
    interval.toNat < 60 → ∀ c ∈ s.findConnectionByHandle handle, c.Active ∨ s.active < 127
  | .disconnection status handle =>
    status = 0 → ∀ c ∈ s.findConnectionByHandle handle, c.Active → s.active = 1 → s.connHash.length = 1

instance {s : Coex} : DecidablePred (Steady s)
  | .connection .. | .disconnection .. | .update .. => inferInstanceAs (Decidable (_ → _))

/-! ## The invariant -/

/-- Every connection is a low-energy one, with the one use that it is; the counts are right up to their eight bits. -/
structure LeInv (s : Coex) : Prop where
  distinct : Keyed.Distinct Conn.handle s.connHash
  small : ∀ c ∈ s.connHash, c.handle < 0x100
  le : ∀ c ∈ s.connHash, c.type = .le ∧ c.profileRefcount .hid = 1 ∧ HasBit c.profileBitmap .hid
  hid : s.counts.profileRefcount .hid = Int8.ofNat s.connHash.length
  interval : s.counts.profileRefcount .hidInterval = Int8.ofNat s.active

theorem leInv_init : LeInv init where
  distinct := List.nodup_nil
  small _ hc := nomatch hc
  le _ hc := nomatch hc
  hid := rfl
  interval := rfl

section Counting

variable {s : Coex} {h : Nat} {c c' : Conn}

def Conn.activity (c : Conn) : Nat := if c.Active then 1 else 0

theorem active_eq_sum (l : List Conn) : (l.countP fun c => c.Active) = (l.map Conn.activity).sum := by
  rw [Keyed.countP_eq_sum]
  simp only [decide_eq_true_eq]
  rfl

theorem active_pos_iff : 0 < s.active ↔ ∃ c ∈ s.connHash, c.Active := by
  rw [active, List.countP_pos_iff]
  simp

theorem LeInv.interval_toInt_iff (hs : LeInv s) :
    (s.counts.profileRefcount .hidInterval).toInt = s.active ↔ s.active ≤ 127 := by
  rw [hs.interval]
  constructor
  · intro h
    have := (Int8.ofNat s.active).toInt_le
    have hmax : Int8.maxValue.toInt = 127 := by decide
    omega
  · exact fun h => Int8.toInt_ofNat_of_lt (by omega)

theorem LeInv.accurate_iff (hs : LeInv s) :
    Accurate s ↔ (HasBit s.counts.profileStatus .hid ↔ 0 < s.active) ∧ s.active ≤ 127 := by
  rw [Accurate, hs.interval_toInt_iff, active_pos_iff]

theorem LeInv.length_le (hs : LeInv s) : s.connHash.length ≤ 256 := by
  have hsub : s.connHash.map Conn.handle ⊆ List.range 256 := fun h hh => by
    obtain ⟨c, hc, rfl⟩ := List.mem_map.mp hh
    exact List.mem_range.mpr (hs.small c hc)
  have hlen := (List.subperm_of_subset hs.distinct hsub).length_le
  rwa [List.length_map, List.length_range] at hlen

/-- The count of HID falls to zero with the last connection only, although it has eight bits. -/
theorem LeInv.hid_last_iff (hs : LeInv s) (hpos : 0 < s.connHash.length) :
    s.counts.profileRefcount .hid - 1 = 0 ↔ s.connHash.length = 1 := by
  rw [hs.hid]
  have hall : ∀ n < 257, 0 < n → (Int8.ofNat n - 1 = 0 ↔ n = 1) := by decide +kernel
  exact hall _ (Nat.lt_succ_of_le hs.length_le) hpos

theorem ofNat_sub_one_eq_zero_iff {n : Nat} (hn : n ≤ 127) (hpos : 0 < n) : Int8.ofNat n + -1 = 0 ↔ n = 1 :=
  (by decide +kernel : ∀ n < 128, 0 < n → (Int8.ofNat n + -1 = 0 ↔ n = 1)) n (Nat.lt_succ_of_le hn) hpos

end Counting

section Put

variable {s : Coex} {h : Nat} {c c' : Conn} {g' : Counts}

def Coex.put (s : Coex) (h : Nat) (g' : Counts) (c' : Conn) : Coex :=
  ⟨Keyed.modify Conn.handle h (fun _ => c') s.connHash, s.profileList, g'⟩

theorem active_put (hc : Keyed.get Conn.handle h s.connHash = some c) :
    (s.put h g' c').active + c.activity = s.active + c'.activity := by
  rw [active, active, active_eq_sum, active_eq_sum]
  exact Keyed.sum_modify (f := fun _ => c') Conn.activity hc

theorem LeInv.put (hs : LeInv s) (hc : Keyed.get Conn.handle h s.connHash = some c) (hhandle : c'.handle = c.handle)
    (hle : c'.type = .le ∧ c'.profileRefcount .hid = 1 ∧ HasBit c'.profileBitmap .hid)
    (hhid : g'.profileRefcount .hid = s.counts.profileRefcount .hid)
    (hinterval : g'.profileRefcount .hidInterval = Int8.ofNat (s.put h g' c').active) : LeInv (s.put h g' c') := by
  obtain ⟨hin, hkey⟩ := Keyed.mem_of_get hc
  have hf : ∀ a : Conn, a.handle = h → c'.handle = h := fun _ _ => hhandle.trans hkey
  have hmem : ∀ b ∈ (s.put h g' c').connHash, b ∈ s.connHash ∨ b = c' := fun b hb => by
    rcases Keyed.mem_modify hb with hold | ⟨_, _, rfl⟩
    · exact .inl hold
    · exact .inr rfl
  have hlength : (s.put h g' c').connHash.length = s.connHash.length := by
    have := congrArg List.length (Keyed.map_modify (l := s.connHash) hf)
    rwa [List.length_map, List.length_map] at this
  refine ⟨hs.distinct.modify hf, fun b hb => ?_, fun b hb => ?_, ?_, hinterval⟩
  · rcases hmem b hb with hold | rfl
    · exact hs.small b hold
    · rw [hhandle]
      exact hs.small c hin
  · rcases hmem b hb with hold | rfl
    · exact hs.le b hold
    · exact hle
  · rw [hlength]
    exact hhid.trans hs.hid

end Put

/-! ## A new interval -/

section Interval

variable {s : Coex} {g : Counts} {c : Conn} {h n : Nat}

theorem bump_self (r : Profile → Int8) (i : Profile) (k : Int8) : bump r i k i = r i + k := Function.update_self ..

theorem bump_of_ne {i p : Profile} (hp : p ≠ i) (r : Profile → Int8) (k : Int8) : bump r i k p = r p :=
  Function.update_of_ne hp ..

/-- A connection becomes active: the count is one more, and one makes HID busy. -/
structure Raised (g : Counts) (gc : Counts × Conn) : Prop where
  active : gc.2.Active
  hid : HasBit gc.2.profileBitmap .hid
  interval : gc.1.profileRefcount .hidInterval = g.profileRefcount .hidInterval + 1
  status : HasBit gc.1.profileStatus .hid ↔
    HasBit g.profileStatus .hid ∨ gc.1.profileRefcount .hidInterval = 1

/-- A connection is active no longer: the count is one less, and none makes HID idle. -/
structure Lowered (g : Counts) (gc : Counts × Conn) : Prop where
  active : ¬ gc.2.Active
  hid : HasBit gc.2.profileBitmap .hid
  interval : gc.1.profileRefcount .hidInterval = g.profileRefcount .hidInterval + -1
  status : HasBit gc.1.profileStatus .hid ↔
    HasBit g.profileStatus .hid ∧ gc.1.profileRefcount .hidInterval ≠ 0

theorem hidActive_cases (g : Counts) (n : Nat) (hhid : HasBit c.profileBitmap .hid) :
    (n < 60 → c.Active) ∧ hidActive g c n = (g, c) ∨
    n < 60 ∧ ¬ c.Active ∧ Raised g (hidActive g c n) ∨
    ¬ n < 60 ∧ c.Active ∧ Lowered g (hidActive g c n) := by
  unfold hidActive
  rw [if_neg (not_not.mpr hhid)]
  by_cases hn : n < 60
  · rw [if_pos hn]
    by_cases hactive : HasBit c.profileBitmap .hidInterval
    · exact .inl ⟨fun _ => hactive, if_pos hactive⟩
    · rw [if_neg hactive]
      refine .inr (.inl ⟨hn, hactive, ⟨hasBit_setBit.mpr (.inl rfl), hasBit_setBit.mpr (.inr hhid), ?_, ?_⟩⟩)
      · exact bump_self g.profileRefcount .hidInterval 1
      · dsimp only
        split_ifs with hfirst
        · exact iff_of_true (hasBit_setBit.mpr (.inl rfl)) (.inr hfirst)
        · exact (or_iff_left hfirst).symm
  · rw [if_neg hn]
    by_cases hactive : HasBit c.profileBitmap .hidInterval
    · rw [if_pos hactive]
      refine .inr (.inr ⟨hn, hactive, ⟨fun hbit => (hasBit_clearBit.mp hbit).1 rfl,
        hasBit_clearBit.mpr ⟨by decide, hhid⟩, ?_, ?_⟩⟩)
      · exact bump_self g.profileRefcount .hidInterval (-1)
      · dsimp only
        split_ifs with hlast
        · exact iff_of_false (fun hbit => (hasBit_clearBit.mp hbit).1 rfl) fun h => h.2 hlast
        · exact (and_iff_left hlast).symm
    · exact .inl ⟨fun hlt => absurd hlt hn, if_neg hactive⟩

theorem activity_of_active (hc : c.Active) : c.activity = 1 := if_pos hc

theorem activity_of_not_active (hc : ¬ c.Active) : c.activity = 0 := if_neg hc

section Change

variable {gc : Counts × Conn} (hs : LeInv s) (hc : Keyed.get Conn.handle h s.connHash = some c)
  (hconn : gc.2.profileRefcount = c.profileRefcount ∧ gc.2.handle = c.handle ∧ gc.2.type = c.type)
  (hhid : gc.1.profileRefcount .hid = s.counts.profileRefcount .hid)
include hs hc hconn hhid

theorem LeInv.put_of_interval (hbit : HasBit gc.2.profileBitmap .hid)
    (hinterval : gc.1.profileRefcount .hidInterval = Int8.ofNat (s.put h gc.1 gc.2).active) :
    LeInv (s.put h gc.1 gc.2) := by
  obtain ⟨htype, hone, -⟩ := hs.le c (Keyed.mem_of_get hc).1
  obtain ⟨hcount, hhandle, htypes⟩ := hconn
  exact hs.put hc hhandle ⟨htypes.trans htype, (congrFun hcount .hid).trans hone, hbit⟩ hhid hinterval

theorem LeInv.raise (hactive : ¬ c.Active) (hgc : Raised s.counts gc) :
    LeInv (s.put h gc.1 gc.2) ∧ (Accurate s → (Accurate (s.put h gc.1 gc.2) ↔ s.active < 127)) := by
  have hcount : (s.put h gc.1 gc.2).active = s.active + 1 := by
    have hsum : (s.put h gc.1 gc.2).active + c.activity = s.active + gc.2.activity := active_put hc
    rwa [activity_of_active hgc.active, activity_of_not_active hactive] at hsum
  have hinterval : gc.1.profileRefcount .hidInterval = Int8.ofNat (s.active + 1) := by
    rw [hgc.interval, hs.interval, Int8.ofNat_add]
    rfl
  have hinv := hs.put_of_interval hc hconn hhid hgc.hid (hinterval.trans (congrArg _ hcount.symm))
  refine ⟨hinv, fun hacc => ?_⟩
  -- the bit is set: it was, or this connection is the first
  have hset : HasBit gc.1.profileStatus .hid := by
    refine hgc.status.mpr (or_iff_not_imp_left.mpr fun hidle => ?_)
    have hzero := Nat.eq_zero_of_not_pos (mt (hs.accurate_iff.mp hacc).1.mpr hidle)
    rw [hinterval, hzero]
    rfl
  rw [hinv.accurate_iff, hcount]
  exact and_iff_right (iff_of_true hset (Nat.succ_pos _))

theorem LeInv.lower (hactive : c.Active) (hgc : Lowered s.counts gc) :
    LeInv (s.put h gc.1 gc.2) ∧ (Accurate s → Accurate (s.put h gc.1 gc.2)) := by
  have hcount : s.active = (s.put h gc.1 gc.2).active + 1 := by
    have hsum : (s.put h gc.1 gc.2).active + c.activity = s.active + gc.2.activity := active_put hc
    rw [activity_of_active hactive, activity_of_not_active hgc.active] at hsum
    exact hsum.symm
  have hinterval : gc.1.profileRefcount .hidInterval = Int8.ofNat (s.put h gc.1 gc.2).active := by
    rw [hgc.interval, hs.interval, hcount, Int8.ofNat_add, Int8.add_assoc]
    exact Int8.add_zero _
  have hinv := hs.put_of_interval hc hconn hhid hgc.hid hinterval
  refine ⟨hinv, fun hacc => ?_⟩
  obtain ⟨hstatus, hroom⟩ := hs.accurate_iff.mp hacc
  have hpos : 0 < s.active := by omega
  have hlast := ofNat_sub_one_eq_zero_iff hroom hpos
  rw [← hs.interval, ← hgc.interval] at hlast
  refine hinv.accurate_iff.mpr ⟨?_, by omega⟩
  change HasBit gc.1.profileStatus .hid ↔ _
  rw [hgc.status, and_iff_right (hstatus.mpr hpos), Ne, hlast]
  omega

end Change

theorem LeInv.updateHidActiveState (hs : LeInv s) (hh : h < 0x100) (n : Nat) :
    LeInv (s.updateHidActiveState h n) ∧
      (Accurate s → (Accurate (s.updateHidActiveState h n) ↔
        (n < 60 → ∀ c ∈ s.findConnectionByHandle h, c.Active ∨ s.active < 127))) := by
  unfold Coex.updateHidActiveState
  cases hc : s.findConnectionByHandle h with
  | none => exact ⟨hs, fun hacc => iff_of_true hacc fun _ c hc => nomatch hc⟩
  | some c =>
    rw [findConnection_eq hh] at hc
    obtain ⟨htype, hone, hhid⟩ := hs.le c (Keyed.mem_of_get hc).1
    have hcond : ∀ P : Prop, (P ↔ (n < 60 → c.Active ∨ s.active < 127)) →
        (P ↔ (n < 60 → ∀ c' ∈ some c, c'.Active ∨ s.active < 127)) := by
      intro P hP
      simpa using hP
    dsimp only
    rw [putConnection_eq hh]
    change LeInv (s.put h _ _) ∧ (_ → (Accurate (s.put h _ _) ↔ _))
    have hhidcount := (hidActive_counts (g := s.counts) (c := c) (n := n) (p := .hid) (by decide)).1
    rcases hidActive_cases s.counts n hhid with ⟨hn, heq⟩ | ⟨hn, hactive, hgc⟩ | ⟨hn, hactive, hgc⟩
    · rw [heq]
      have hsame : s.put h s.counts c = s := by
        unfold Coex.put
        rw [Keyed.modify_eq_self fun a ha => Option.some.inj (hc.symm.trans ha)]
      rw [hsame]
      exact ⟨hs, fun hacc => hcond _ (iff_of_true hacc fun hlt => .inl (hn hlt))⟩
    · obtain ⟨hinv, hacc⟩ := hs.raise hc hidActive_conn hhidcount hactive hgc
      refine ⟨hinv, fun h => hcond _ ((hacc h).trans ?_)⟩
      exact ⟨fun hlt _ => .inr hlt, fun hlt => (hlt hn).resolve_left hactive⟩
    · obtain ⟨hinv, hacc⟩ := hs.lower hc hidActive_conn hhidcount hactive hgc
      exact ⟨hinv, fun h => hcond _ (iff_of_true (hacc h) fun hlt => absurd hlt hn)⟩

end Interval

/-! ## Links come and go -/

section Links

variable {s : Coex} {c : Conn} {h : Nat} {status : Nat}

def leConn (s : Coex) (h : Nat) : Counts × Conn := updateProfileConnection s.counts (idle h .le) .hid true

def Coex.leEntered (s : Coex) (h : Nat) : Coex := ⟨s.connHash ++ [(leConn s h).2], s.profileList, (leConn s h).1⟩

theorem leConn_profileBitmap : (leConn s h).2.profileBitmap = setBit 0 .hid := rfl

theorem leConn_not_active : ¬ (leConn s h).2.Active := by
  rw [Conn.Active, leConn_profileBitmap]
  decide

theorem LeInv.enter (hs : LeInv s) (hh : h < 0x100) (hnone : s.findConnectionByHandle h = none) :
    LeInv (s.leEntered h) ∧ (s.leEntered h).active = s.active := by
  rw [findConnection_eq hh] at hnone
  have hactive : (s.leEntered h).active = s.active := by
    rw [active, leEntered, List.countP_append, List.countP_singleton, decide_eq_false leConn_not_active]
    rfl
  have hmem : ∀ b ∈ (s.leEntered h).connHash, b ∈ s.connHash ∨ b = (leConn s h).2 := fun b hb => by
    rwa [leEntered, List.mem_append, List.mem_singleton] at hb
  refine ⟨⟨?_, fun b hb => ?_, fun b hb => ?_, ?_, ?_⟩, hactive⟩
  · rw [Keyed.Distinct, leEntered, List.map_append]
    exact List.nodup_append_comm.mp (List.nodup_cons.mpr ⟨Keyed.get_eq_none_iff.mp hnone, hs.distinct⟩)
  · rcases hmem b hb with hold | rfl
    · exact hs.small b hold
    · exact hh
  · rcases hmem b hb with hold | rfl
    · exact hs.le b hold
    · exact ⟨rfl, rfl, by rw [leConn_profileBitmap]; decide⟩
  · rw [leEntered, List.length_append, Int8.ofNat_add, ← hs.hid]
    exact bump_self s.counts.profileRefcount .hid 1
  · rw [hactive, ← hs.interval]
    exact bump_of_ne (show Profile.hidInterval ≠ .hid by decide) s.counts.profileRefcount 1

theorem LeInv.rtkHandleLeConnectionCompleteEvt (hs : LeInv s) (hh : h < 0x100)
    (hfree : status = 0 → s.findConnectionByHandle h = none) (n : Nat) :
    LeInv (s.rtkHandleLeConnectionCompleteEvt status h n) ∧
      (Accurate s → (Accurate (s.rtkHandleLeConnectionCompleteEvt status h n) ↔
        (status = 0 → n < 60 → s.active < 127))) := by
  unfold Coex.rtkHandleLeConnectionCompleteEvt
  split_ifs with hstatus
  · have hnone := hfree hstatus
    obtain ⟨hinv, hactive⟩ := hs.enter hh hnone
    obtain ⟨hnext, hiff⟩ := hinv.updateHidActiveState hh n
    have hentered : s.enter h (updateProfileConnection s.counts (idle h .le) .hid true)
        = s.leEntered h := by
      unfold Coex.enter
      rw [hnone]
      rfl
    have hfound : (s.leEntered h).findConnectionByHandle h = some (leConn s h).2 := by
      rw [findConnection_eq hh] at hnone ⊢
      rw [leEntered, Keyed.get_append, hnone, Option.none_or]
      exact if_pos rfl
    rw [hnone, Option.elim_none]
    dsimp only
    rw [hentered]
    refine ⟨hnext, fun hacc => ?_⟩
    have hstill : Accurate (s.leEntered h) := by
      rw [hinv.accurate_iff, hactive]
      have hsame : (s.leEntered h).counts.profileStatus = s.counts.profileStatus := if_neg fun hsco => nomatch hsco.2
      rw [hsame]
      exact hs.accurate_iff.mp hacc
    rw [hiff hstill, hfound, hactive]
    constructor
    · exact fun hroom _ hn => (hroom hn _ rfl).resolve_left leConn_not_active
    · exact fun hroom hn c _ => .inr (hroom hstatus hn)
  · exact ⟨hs, fun hacc => iff_of_true hacc fun h => absurd h hstatus⟩

theorem update_end_le {g : Counts} (hone : c.profileRefcount .hid = 1) :
    (updateProfileConnection g c .hid false).1.profileRefcount .hid = g.profileRefcount .hid + -1 ∧
    (updateProfileConnection g c .hid false).1.profileRefcount .hidInterval
      = g.profileRefcount .hidInterval - Int8.ofNat c.activity ∧
    (HasBit (updateProfileConnection g c .hid false).1.profileStatus .hid ↔
      HasBit g.profileStatus .hid ∧ g.profileRefcount .hid - 1 ≠ 0) := by
  have hactive : HasBit (clearBit c.profileBitmap .hid) .hidInterval ↔ c.Active := by
    rw [hasBit_clearBit, and_iff_right (by decide)]
    rfl
  have hzero : c.profileRefcount .hid - 1 = 0 := by rw [hone]; rfl
  refine ⟨?_, ?_, ?_⟩
  · exact ite_bump_interval (p := .hid) (by decide) |>.trans (bump_self ..)
  · change (if _ then _ else _ : Profile → Int8) .hidInterval = _
    simp only [hzero, true_and, if_true, hactive]
    by_cases hc : c.Active
    · rw [if_pos hc, bump_self, bump_of_ne (by decide), activity_of_active hc, Int8.sub_eq_add_neg]
      rfl
    · rw [if_neg hc, bump_of_ne (by decide), activity_of_not_active hc]
      exact (Int8.sub_zero _).symm
  · change HasBit (if _ then _ else _) _ ↔ _
    split_ifs with hlast
    · exact iff_of_false (fun hbit => (hasBit_clearBit.mp hbit).1 rfl) fun h => h.2 hlast
    · exact (and_iff_left hlast).symm

def Coex.leLeft (s : Coex) (h : Nat) (c : Conn) : Coex :=
  ⟨Keyed.remove Conn.handle h s.connHash, s.profileList, (updateProfileConnection s.counts c .hid false).1⟩

theorem LeInv.leave (hs : LeInv s) (hc : Keyed.get Conn.handle h s.connHash = some c) :
    LeInv (s.leLeft h c) ∧ (Accurate s → (Accurate (s.leLeft h c) ↔
      (c.Active → s.active = 1 → s.connHash.length = 1))) := by
  have hin := (Keyed.mem_of_get hc).1
  obtain ⟨htype, hone, -⟩ := hs.le c hin
  obtain ⟨hhid, hinterval, hstatus⟩ := update_end_le (g := s.counts) hone
  have hlength : s.connHash.length = (s.leLeft h c).connHash.length + 1 := (Keyed.length_remove hc).symm
  have hcount : s.active = (s.leLeft h c).active + c.activity := by
    rw [active, active, active_eq_sum, active_eq_sum]
    exact (Keyed.sum_remove Conn.activity hc).symm
  have hinv : LeInv (s.leLeft h c) := by
    refine ⟨hs.distinct.remove, fun b hb => hs.small b (Keyed.mem_of_mem_remove hb),
      fun b hb => hs.le b (Keyed.mem_of_mem_remove hb), ?_, ?_⟩
    · refine hhid.trans ?_
      rw [hs.hid, hlength, Int8.ofNat_add, Int8.add_assoc]
      exact Int8.add_zero _
    · refine hinterval.trans ?_
      rw [hs.interval, hcount, Int8.ofNat_add]
      exact Int8.add_sub_cancel ..
  refine ⟨hinv, fun hacc => ?_⟩
  obtain ⟨hbusy, hroom⟩ := hs.accurate_iff.mp hacc
  have hlast := hs.hid_last_iff (by omega)
  have hfew : (s.leLeft h c).active ≤ (s.leLeft h c).connHash.length := List.countP_le_length
  have hbit : HasBit (s.leLeft h c).counts.profileStatus .hid ↔ 0 < s.active ∧ s.connHash.length ≠ 1 := by
    rw [← hbusy, Ne, ← hlast]
    exact hstatus
  rw [hinv.accurate_iff, hbit]
  by_cases hactive : c.Active
  · rw [activity_of_active hactive] at hcount
    simp only [hactive, true_imp_iff]
    omega
  · rw [activity_of_not_active hactive] at hcount
    simp only [hactive, false_imp_iff, iff_true]
    omega

theorem LeInv.rtkHandleDisconnectCompleteEvt (hs : LeInv s) (hh : h < 0x100) :
    LeInv (s.rtkHandleDisconnectCompleteEvt status h) ∧
      (Accurate s → (Accurate (s.rtkHandleDisconnectCompleteEvt status h) ↔
        (status = 0 → ∀ c ∈ s.findConnectionByHandle h, c.Active → s.active = 1 → s.connHash.length = 1))) := by
  unfold Coex.rtkHandleDisconnectCompleteEvt
  split_ifs with hstatus
  · cases hc : s.findConnectionByHandle h with
    | none => exact ⟨hs, fun hacc => iff_of_true hacc fun _ _ h => by cases h⟩
    | some c =>
      rw [findConnection_eq hh] at hc
      obtain ⟨hinv, hiff⟩ := hs.leave hc
      rw [and_eff hh]
      dsimp only
      rw [(hs.le c (Keyed.mem_of_get hc).1).1]
      refine ⟨hinv, fun hacc => (hiff hacc).trans ?_⟩
      simp [hstatus]
  · exact ⟨hs, fun hacc => iff_of_true hacc fun h => absurd h hstatus⟩

end Links

/-! ## Runs -/

variable {s : Coex} {e : LeEvent} {events : List LeEvent}

/-- **One event.** -/
theorem LeInv.step (hs : LeInv s) (hfresh : Fresh s e.toEvent) :
    LeInv (step s e.toEvent) ∧ (Accurate s → (Accurate (step s e.toEvent) ↔ Steady s e)) := by
  have hzero : ∀ status : UInt8, status.toNat = 0 ↔ status = 0 := fun status => UInt8.toNat_inj (b := 0)
  cases e with
  | connection status handle interval =>
    rw [Steady, ← hzero]
    exact hs.rtkHandleLeConnectionCompleteEvt handle.isLt hfresh.2 _
  | update handle interval => exact hs.updateHidActiveState handle.isLt _
  | disconnection status handle =>
    rw [Steady, ← hzero]
    exact hs.rtkHandleDisconnectCompleteEvt handle.isLt

theorem along_append {P : Coex → Event → Prop} {l : List Event} {e : Event} :
    Along P s (l ++ [e]) ↔ Along P s l ∧ P (run s l) e := by
  induction l generalizing s with
  | nil => simp only [List.nil_append, Along, and_true, true_and]; rfl
  | cons a l ih =>
    change P s a ∧ Along P (Bluetooth.step s a) (l ++ [e]) ↔ (P s a ∧ Along P (Bluetooth.step s a) l) ∧ _
    rw [ih, and_assoc]
    rfl

theorem leRun_append (p : List LeEvent) (e : LeEvent) : leRun (p ++ [e]) = step (leRun p) e.toEvent := by
  rw [leRun, List.map_append, run, List.foldl_append]
  rfl

/-- New connections are made on handles that are free. -/
def LeFresh (events : List LeEvent) : Prop := Along Fresh init (events.map LeEvent.toEvent)

instance {events : List LeEvent} : Decidable (LeFresh events) := inferInstanceAs (Decidable (Along _ _ _))

theorem leFresh_append {p : List LeEvent} :
    LeFresh (p ++ [e]) ↔ LeFresh p ∧ Fresh (leRun p) e.toEvent := by
  rw [LeFresh, List.map_append]
  exact along_append

theorem leInv_leRun (hfresh : LeFresh events) : LeInv (leRun events) := by
  induction events using List.reverseRecOn with
  | nil => exact leInv_init
  | append_singleton p e ih =>
    obtain ⟨hp, he⟩ := leFresh_append.mp hfresh
    rw [leRun_append]
    exact ((ih hp).step he).1

theorem LeFresh.take (hfresh : LeFresh events) (k : Nat) : LeFresh (events.take k) := by
  induction events using List.reverseRecOn with
  | nil => rwa [List.take_nil]
  | append_singleton p e ih =>
    rcases Nat.lt_or_ge p.length k with hlt | hge
    · rwa [List.take_of_length_le (by rw [List.length_append]; exact hlt)]
    · rw [List.take_append_of_le_length hge]
      exact ih (leFresh_append.mp hfresh).1

/-- A mouse that reports often goes before a link that rests comes. -/
def mouseRun : List LeEvent := [.connection 0 1 24, .disconnection 0 1, .connection 0 2 80, .update 2 24, .update 2 80]

def restingRun : List LeEvent := [.connection 0 1 80, .connection 0 2 24, .disconnection 0 2]

end NasFirmware.Bluetooth
