import NasFirmware.Bluetooth.Driver
import NasFirmware.Bluetooth.Links
import NasFirmware.Lib.Trace

/-!
# What a closed session leaves behind

`rtk_btcoex_close` cancels the work, but the buffers that were waiting for it stay among the used ones. The next session
finds them there, before its own.
-/

namespace NasFirmware.Bluetooth

open Coex

/-! ## Inert events -/

namespace Event

/-- Neither a connection that was made, nor a request for a channel that is followed. -/
def Inert : Event → Prop
  | connectionComplete status _ _ | leConnectionComplete status _ _ => status ≠ 0
  | l2capConReq _ psm _ _ => psmToProfileIndex psm = none
  | _ => True

def IsL2cap : Event → Prop
  | l2capConReq .. | l2capConRsp .. | l2capDisconReq .. => True
  | _ => False

end Event

section Empty

variable {s : Coex} {handle interval : Nat} {gc : Counts × Conn} {e : Event}

theorem findConnection_of_nil (h : s.connHash = []) (handle : Nat) : s.findConnectionByHandle handle = none := by
  rw [findConnectionByHandle, h]
  rfl

theorem enter_ne (h : s.connHash = []) : (s.enter handle gc).connHash ≠ [] := by
  unfold enter
  rw [findConnection_of_nil h]
  exact List.append_ne_nil_of_right_ne_nil _ (List.cons_ne_nil _ _)

theorem connHash_updateHidActiveState (h : s.connHash ≠ []) :
    (s.updateHidActiveState handle interval).connHash ≠ [] := by
  have hlen : (s.updateHidActiveState handle interval).handles.length = s.handles.length :=
    congrArg List.length (handles_updateHidActiveState interval)
  unfold handles at hlen
  rw [List.length_map, List.length_map] at hlen
  intro hnil
  rw [hnil] at hlen
  exact h (List.length_eq_zero_iff.mp hlen.symm)

/-- Without connections, an event of the controller changes something exactly if it makes one. -/
theorem step_eq_iff_of_connHash (he : ¬ e.IsL2cap) (h : s.connHash = []) :
    step s e = s ↔ e.Inert := by
  have hnone := findConnection_of_nil h
  have hne : ∀ t : Coex, t.connHash ≠ [] → t ≠ s := fun t ht heq => ht (heq ▸ h)
  cases e with
  | connectionComplete status handle linkType =>
    change rtkHandleConnectionCompleteEvt s status handle linkType = s ↔ status ≠ 0
    unfold rtkHandleConnectionCompleteEvt
    split_ifs with hstatus hlink
    · exact iff_of_false (hne _ (enter_ne h)) (not_not.mpr hstatus)
    · exact iff_of_false (hne _ (enter_ne h)) (not_not.mpr hstatus)
    · exact iff_of_true rfl hstatus
  | leConnectionComplete status handle interval =>
    change rtkHandleLeConnectionCompleteEvt s status handle interval = s ↔ status ≠ 0
    unfold rtkHandleLeConnectionCompleteEvt
    split_ifs with hstatus
    · exact iff_of_false (hne _ (connHash_updateHidActiveState (enter_ne h))) (not_not.mpr hstatus)
    · exact iff_of_true rfl hstatus
  | leConnectionUpdateComplete handle interval =>
    refine iff_of_true ?_ trivial
    change updateHidActiveState s handle interval = s
    rw [updateHidActiveState, hnone]
  | disconnectComplete status handle =>
    refine iff_of_true ?_ trivial
    change rtkHandleDisconnectCompleteEvt s status handle = s
    unfold rtkHandleDisconnectCompleteEvt
    rw [hnone]
    exact ite_self s
  | modeChange handle interval =>
    refine iff_of_true ?_ trivial
    change updateHidActiveState s handle interval = s
    rw [updateHidActiveState, hnone]
  | l2capConReq => exact absurd trivial he
  | l2capConRsp => exact absurd trivial he
  | l2capDisconReq => exact absurd trivial he

/-- Without channels, signalling changes something exactly if it asks for one. -/
theorem step_eq_iff_of_profileList (he : e.IsL2cap) (h : s.profileList = []) :
    step s e = s ↔ e.Inert := by
  cases e with
  | l2capConReq handle psm scid out =>
    change handleL2capConReq s (handle &&& 0xFFF) psm scid out = s ↔ psmToProfileIndex psm = none
    have hne : ∀ d : ProfInfo, { s with profileList := s.profileList ++ [d] } ≠ s := fun d heq => by
      have := congrArg Coex.profileList heq
      rw [h] at this
      exact List.cons_ne_nil _ _ this
    unfold handleL2capConReq
    cases hpsm : psmToProfileIndex psm with
    | none => exact iff_of_true rfl rfl
    | some i =>
      have hscid : s.findProfileByHandleScid (handle &&& 0xFFF) scid = none := by
        rw [findProfileByHandleScid, h]
        rfl
      have hdcid : s.findProfileByHandleDcid (handle &&& 0xFFF) scid = none := by
        rw [findProfileByHandleDcid, h]
        rfl
      rw [hscid, hdcid]
      refine iff_of_false ?_ (Option.some_ne_none i)
      split_ifs
      · exact hne _
      · exact hne _
  | l2capConRsp handle dcid scid result out =>
    refine iff_of_true ?_ trivial
    change handleL2capConRsp s (handle &&& 0xFFF) dcid scid out result = s
    have hnone : s.answered (handle &&& 0xFFF) scid out = none := by
      rw [answered, findProfileByHandleDcid, findProfileByHandleScid, h]
      exact ite_self none
    rw [handleL2capConRsp, hnone]
  | l2capDisconReq handle dcid scid out =>
    refine iff_of_true ?_ trivial
    change handleL2capDisconReq s (handle &&& 0xFFF) dcid scid out = s
    have hnone : s.disconnected (handle &&& 0xFFF) dcid scid out = none := by
      rw [disconnected, findProfileByHandleDcidScid, findProfileByHandleDcidScid, h]
      exact ite_self none
    rw [handleL2capDisconReq, hnone]
  | connectionComplete => exact he.elim
  | leConnectionComplete => exact he.elim
  | leConnectionUpdateComplete => exact he.elim
  | disconnectComplete => exact he.elim
  | modeChange => exact he.elim

theorem connHash_step_of_isL2cap (he : e.IsL2cap) (h : s.connHash = []) : (step s e).connHash = [] := by
  have hnone := findConnection_of_nil h
  cases e with
  | l2capConReq handle psm scid out =>
    change (handleL2capConReq s (handle &&& 0xFFF) psm scid out).connHash = []
    unfold handleL2capConReq
    split
    · exact h
    · split_ifs
      · split <;> exact h
      · split <;> exact h
  | l2capConRsp handle dcid scid result out =>
    change (handleL2capConRsp s (handle &&& 0xFFF) dcid scid out result).connHash = []
    unfold handleL2capConRsp
    split
    · exact h
    · rw [hnone]
      split_ifs
      · exact h
      · exact h
      · exact h
  | l2capDisconReq handle dcid scid out =>
    change (handleL2capDisconReq s (handle &&& 0xFFF) dcid scid out).connHash = []
    unfold handleL2capDisconReq
    split
    · exact h
    · rw [hnone]
      exact h
  | connectionComplete => exact he.elim
  | leConnectionComplete => exact he.elim
  | leConnectionUpdateComplete => exact he.elim
  | disconnectComplete => exact he.elim
  | modeChange => exact he.elim

theorem profileList_enter : (s.enter handle gc).profileList = s.profileList := by
  unfold enter
  split <;> rfl

theorem profileList_updateHidActiveState :
    (s.updateHidActiveState handle interval).profileList = s.profileList := by
  unfold updateHidActiveState
  split <;> rfl

theorem profileList_step_of_not_isL2cap (he : ¬ e.IsL2cap) (h : s.profileList = []) :
    (step s e).profileList = [] := by
  cases e with
  | connectionComplete status handle linkType =>
    change (rtkHandleConnectionCompleteEvt s status handle linkType).profileList = []
    unfold rtkHandleConnectionCompleteEvt
    split_ifs
    · exact profileList_enter.trans h
    · exact profileList_enter.trans h
    · exact h
  | leConnectionComplete status handle interval =>
    change (rtkHandleLeConnectionCompleteEvt s status handle interval).profileList = []
    unfold rtkHandleLeConnectionCompleteEvt
    split_ifs
    · exact profileList_updateHidActiveState.trans (profileList_enter.trans h)
    · exact h
  | leConnectionUpdateComplete handle interval => exact profileList_updateHidActiveState.trans h
  | disconnectComplete status handle =>
    change (rtkHandleDisconnectCompleteEvt s status handle).profileList = []
    unfold rtkHandleDisconnectCompleteEvt
    split_ifs
    · cases s.findConnectionByHandle handle with
      | none => exact h
      | some c =>
        dsimp only
        rw [h]
        cases c.type <;> rfl
    · exact h
  | modeChange handle interval => exact profileList_updateHidActiveState.trans h
  | l2capConReq => exact absurd trivial he
  | l2capConRsp => exact absurd trivial he
  | l2capDisconReq => exact absurd trivial he

end Empty

variable {e : Event} {d : Driver}

theorem not_isL2cap_of_parse {data : ByteMem.Mem} (h : rtkParseEventData data = some e) : ¬ e.IsL2cap := by
  unfold rtkParseEventData at h
  split at h
  · cases h; exact id
  · cases h; exact id
  · cases h; exact id
  · cases h; exact id
  · split at h
    · cases h; exact id
    · cases h; exact id
    · cases h
  · cases h

theorem isL2cap_of_process {l2 : L2Node} (h : rtlProcessL2Sig l2 = some e) : e.IsL2cap := by
  unfold rtlProcessL2Sig at h
  split at h
  · cases h; trivial
  · cases h; trivial
  · cases h; trivial
  · cases h

/-! ## Buffers of earlier sessions -/

namespace Lane

variable {ν : Type} {q : Lane ν} {k : Nat} {fill : ν → ν} {n : Tagged ν}

/-- Buffers are used in the order of their sessions, of which `k` is the last. -/
structure InOrder (q : Lane ν) (k : Nat) : Prop where
  sorted : q.used.Pairwise fun a b => a.session ≤ b.session
  le : ∀ n ∈ q.used, n.session ≤ k

/-- A buffer of a session before `k` waits. -/
def Leftover (q : Lane ν) (k : Nat) : Prop := ∃ n ∈ q.used, n.session < k

theorem used_start : q.start.used = q.used := by
  unfold start
  split_ifs <;> rfl

theorem InOrder.of_used {q' : Lane ν} (h : q.InOrder k) (heq : q'.used = q.used) : q'.InOrder k :=
  ⟨heq ▸ h.sorted, heq ▸ h.le⟩

theorem InOrder.succ (h : q.InOrder k) : q.InOrder (k + 1) :=
  ⟨h.sorted, fun n hn => Nat.le_succ_of_le (h.le n hn)⟩

theorem mem_used_enqueue (hn : n ∈ (q.enqueue fill k).used) : n ∈ q.used ∨ n.session = k := by
  unfold enqueue at hn
  split at hn
  · exact .inl hn
  · rcases List.mem_append.mp hn with hold | hnew
    · exact .inl hold
    · rw [List.mem_singleton.mp hnew]
      exact .inr rfl

theorem InOrder.enqueue (h : q.InOrder k) : (q.enqueue fill k).InOrder k := by
  refine ⟨?_, fun n hn => (mem_used_enqueue hn).elim (h.le n) Nat.le_of_eq⟩
  unfold Lane.enqueue
  split
  · exact h.sorted
  · refine List.pairwise_append.mpr ⟨h.sorted, List.pairwise_singleton _ _, fun a ha b hb => ?_⟩
    rw [List.mem_singleton.mp hb]
    exact h.le a ha

theorem leftover_of_enqueue (h : (q.enqueue fill k).Leftover k) : q.Leftover k := by
  obtain ⟨n, hn, hlt⟩ := h
  exact ⟨n, (mem_used_enqueue hn).resolve_right (Nat.ne_of_lt hlt), hlt⟩

theorem used_advance : q.advance.used = if q.running then q.used.tail else q.used := by
  unfold advance
  split_ifs
  · split
    · next heq => rw [heq]; rfl
    · next heq => rw [heq]; rfl
  · rfl

theorem InOrder.advance (h : q.InOrder k) : q.advance.InOrder k := by
  refine ⟨?_, fun n hn => ?_⟩
  · rw [used_advance]
    split_ifs
    · exact h.sorted.tail
    · exact h.sorted
  · rw [used_advance] at hn
    split_ifs at hn
    · exact h.le n (List.mem_of_mem_tail hn)
    · exact h.le n hn

/-- If an old buffer is left after one was taken, the one taken was old as well. -/
theorem leftover_of_advance (h : q.InOrder k) (hleft : q.advance.Leftover k) :
    q.Leftover k ∧ ∀ n ∈ q.next, n.session < k := by
  obtain ⟨n, hn, hlt⟩ := hleft
  rw [used_advance] at hn
  split_ifs at hn with hrun
  · refine ⟨⟨n, List.mem_of_mem_tail hn, hlt⟩, fun m hm => ?_⟩
    have hm' : q.used.head? = some m := by simpa [next, hrun] using hm
    obtain ⟨used, hused⟩ := List.head?_eq_some_iff.mp hm'
    have hsorted := h.sorted
    rw [hused] at hsorted hn
    exact Nat.lt_of_le_of_lt ((List.pairwise_cons.mp hsorted).1 n hn) hlt
  · refine ⟨⟨n, hn, hlt⟩, fun m hm => ?_⟩
    rw [next, if_neg hrun] at hm
    cases hm

theorem mem_used_of_next (hn : n ∈ q.next) : n ∈ q.used := by
  unfold next at hn
  split_ifs at hn
  · exact List.mem_of_head? hn
  · cases hn

end Lane

/-! ## The invariant -/

structure SessInv (d : Driver) : Prop where
  ev : d.ev.InOrder d.session
  l2 : d.l2.InOrder d.session
  connHash : d.ev.Leftover d.session → d.coex.connHash = []
  profileList : d.l2.Leftover d.session → d.coex.profileList = []

namespace Driver

/-- If the action takes a buffer filled before the monitor was last opened, the lists and counts stay as they are. -/
def Untouched (d : Driver) : Action → Prop
  | .evWork => ∀ n ∈ d.ev.next, n.session < d.session → d.rtlEvWork.coex = d.coex
  | .l2Work => ∀ n ∈ d.l2.next, n.session < d.session → d.rtlL2Work.coex = d.coex
  | _ => True

/-- If the action takes such a buffer, what is in it is inert. -/
def Spared (d : Driver) : Action → Prop
  | .evWork => ∀ n ∈ d.ev.next, n.session < d.session → ∀ e ∈ rtkParseEventData n.node.data, e.Inert
  | .l2Work => ∀ n ∈ d.l2.next, n.session < d.session → ∀ e ∈ rtlProcessL2Sig n.node, e.Inert
  | _ => True

end Driver

section Step

variable {d : Driver} {s : Coex} {o : Option Event}

theorem apply_eq_iff (h : ∀ e ∈ o, (step s e = s ↔ e.Inert)) :
    apply s o = s ↔ ∀ e ∈ o, e.Inert := by
  cases o with
  | none => exact iff_of_true rfl nofun
  | some e =>
    refine (h e rfl).trans ⟨fun hi e' he' => ?_, fun hi => hi e rfl⟩
    rw [← Option.some.inj he']
    exact hi

/-- A buffer of an earlier session leaves the lists and counts alone exactly if it is inert. -/
theorem SessInv.untouched_iff (h : SessInv d) (a : Action) : d.Untouched a ↔ d.Spared a := by
  cases a with
  | evWork =>
    refine forall₂_congr fun n hn => imp_congr_right fun hold => ?_
    have hnil := h.connHash ⟨n, Lane.mem_used_of_next hn, hold⟩
    unfold Driver.rtlEvWork
    rw [Option.mem_def.mp hn, Option.bind_some]
    exact apply_eq_iff fun e he => step_eq_iff_of_connHash (not_isL2cap_of_parse he) hnil
  | l2Work =>
    refine forall₂_congr fun n hn => imp_congr_right fun hold => ?_
    have hnil := h.profileList ⟨n, Lane.mem_used_of_next hn, hold⟩
    unfold Driver.rtlL2Work
    rw [Option.mem_def.mp hn, Option.bind_some]
    exact apply_eq_iff fun e he => step_eq_iff_of_profileList (isL2cap_of_process he) hnil
  | «open» => exact Iff.rfl
  | close => exact Iff.rfl
  | closeStep => exact Iff.rfl
  | transfer => exact Iff.rfl
  | l2capData => exact Iff.rfl
  | startEvWork => exact Iff.rfl
  | startL2Work => exact Iff.rfl

theorem SessInv.parseEvent (h : SessInv d) (buffer : List UInt8) : SessInv (d.parseEvent buffer) := by
  unfold Driver.parseEvent
  split
  · next rx ev heq =>
      have hev : ev.InOrder d.session ∧ (ev.Leftover d.session → d.ev.Leftover d.session) := by
        refine rtkBtcoexParseEvent_invariant
          (fun q => q.InOrder d.session ∧ (q.Leftover d.session → d.ev.Leftover d.session)) (fun q bytes hq => ?_)
          (x := (d.rx, d.ev)) ⟨h.ev, id⟩ heq
        unfold Driver.rtkBtcoexEvtEnqueue
        split_ifs
        · exact hq
        · exact ⟨hq.1.enqueue, fun hleft => hq.2 (Lane.leftover_of_enqueue hleft)⟩
      exact ⟨hev.1, h.l2, fun hleft => h.connHash (hev.2 hleft), h.profileList⟩
  · exact h

theorem apply_keeps {P : Coex → Prop} (hs : P s) (h : ∀ e ∈ o, P (step s e)) :
    P (apply s o) := by
  cases o with
  | none => exact hs
  | some e => exact h e rfl

theorem SessInv.rtlEvWork (h : SessInv d) (hspared : d.Spared .evWork) : SessInv d.rtlEvWork := by
  refine ⟨h.ev.advance, h.l2, fun hleft => ?_, fun hleft => ?_⟩
  · -- what is taken is old too, and changes nothing
    obtain ⟨hold, hnext⟩ := Lane.leftover_of_advance h.ev hleft
    cases hn : d.ev.next with
    | none =>
      unfold Driver.rtlEvWork
      rw [hn]
      exact h.connHash hold
    | some n =>
      rw [(h.untouched_iff .evWork).mpr hspared n hn (hnext n hn)]
      exact h.connHash hold
  · refine apply_keeps (P := fun s => s.profileList = []) (h.profileList hleft) fun e he => ?_
    obtain ⟨n, -, hparse⟩ := Option.bind_eq_some_iff.mp he
    exact profileList_step_of_not_isL2cap (not_isL2cap_of_parse hparse) (h.profileList hleft)

theorem SessInv.rtlL2Work (h : SessInv d) (hspared : d.Spared .l2Work) : SessInv d.rtlL2Work := by
  refine ⟨h.ev, h.l2.advance, fun hleft => ?_, fun hleft => ?_⟩
  · refine apply_keeps (P := fun s => s.connHash = []) (h.connHash hleft) fun e he => ?_
    obtain ⟨n, -, hparse⟩ := Option.bind_eq_some_iff.mp he
    exact connHash_step_of_isL2cap (isL2cap_of_process hparse) (h.connHash hleft)
  · obtain ⟨hold, hnext⟩ := Lane.leftover_of_advance h.l2 hleft
    cases hn : d.l2.next with
    | none =>
      unfold Driver.rtlL2Work
      rw [hn]
      exact h.profileList hold
    | some n =>
      rw [(h.untouched_iff .l2Work).mpr hspared n hn (hnext n hn)]
      exact h.profileList hold

/-- **One action.** -/
theorem SessInv.step (h : SessInv d) {a : Action} (hspared : d.Spared a) : SessInv (d.step a) := by
  cases a with
  | «open» =>
    change SessInv d.rtkBtcoexOpen
    unfold Driver.rtkBtcoexOpen
    split_ifs
    · exact h
    · exact ⟨h.ev.succ.of_used rfl, h.l2.succ.of_used rfl, fun _ => rfl, fun _ => rfl⟩
  | close =>
    change SessInv d.rtkBtcoexClose
    unfold Driver.rtkBtcoexClose
    split_ifs
    · exact ⟨h.ev.of_used rfl, h.l2, h.connHash, h.profileList⟩
    · exact h
  | closeStep =>
    change SessInv d.closeStep
    unfold Driver.closeStep
    split
    · exact h
    · split_ifs
      · exact h
      · exact ⟨h.ev, h.l2.of_used rfl, h.connHash, h.profileList⟩
    · split_ifs
      · exact h
      · exact ⟨h.ev, h.l2, fun _ => rfl, fun _ => rfl⟩
  | transfer buffer => exact h.parseEvent buffer
  | l2capData hd len dir =>
    change SessInv (d.parseL2capData hd len dir)
    unfold Driver.parseL2capData Driver.rtlL2DataProcess
    split_ifs
    · exact ⟨h.ev, h.l2.enqueue, h.connHash, fun hleft => h.profileList (Lane.leftover_of_enqueue hleft)⟩
    · exact h
    · exact h
  | startEvWork =>
    refine ⟨h.ev.of_used Lane.used_start, h.l2, fun hleft => h.connHash ?_, h.profileList⟩
    exact (Lane.used_start (q := d.ev) ▸ hleft : ∃ n ∈ d.ev.used, n.session < d.session)
  | evWork => exact h.rtlEvWork hspared
  | startL2Work =>
    refine ⟨h.ev, h.l2.of_used Lane.used_start, h.connHash, fun hleft => h.profileList ?_⟩
    exact (Lane.used_start (q := d.l2) ▸ hleft : ∃ n ∈ d.l2.used, n.session < d.session)
  | l2Work => exact h.rtlL2Work hspared

end Step

theorem sessInv_loaded (l2 : List L2Node) : SessInv (Driver.loaded l2) where
  ev := ⟨List.Pairwise.nil, nofun⟩
  l2 := ⟨List.Pairwise.nil, nofun⟩
  connHash := fun ⟨_, hn, _⟩ => nomatch hn
  profileList := fun ⟨_, hn, _⟩ => nomatch hn

/-- **Sealed sessions.** Nothing received before a close changes anything after the next open, exactly if what work
then takes of it is inert. -/
theorem sessions_sealed_iff (l2 : List L2Node) (actions : List Action) :
    (∀ k a, actions[k]? = some a → (Driver.run l2 (actions.take k)).Untouched a) ↔
      ∀ k a, actions[k]? = some a → (Driver.run l2 (actions.take k)).Spared a :=
  Trace.steps_iff (sessInv_loaded l2) (fun _ a h => h.untouched_iff a) (fun _ _ h hspared => h.step hspared) actions

def aclMade : List UInt8 := [0x03, 0x0b, 0x00, 0x01, 0x00, 0x06, 0x05, 0x04, 0x03, 0x02, 0x01, 0x01, 0x00]

/-- The monitor is closed and opened again before the work on an event begins; another event arrives, and the work
takes the old one. -/
def reopened : List Action :=
  [.open, .transfer aclMade, .close, .closeStep, .closeStep, .open, .transfer [0x01, 0x01, 0x00], .startEvWork, .evWork]

/-- The connection of the first session is entered in the second one. -/
theorem reopened_leaks :
    ¬ ∀ k a, reopened[k]? = some a → (Driver.run [] (reopened.take k)).Untouched a := by
  intro hall
  have hbefore : (Driver.run [] (reopened.take 8)).coex.connHash.length = 0 := by decide +kernel
  have hafter : (Driver.run [] (reopened.take 8)).rtlEvWork.coex.connHash.length = 1 := by decide +kernel
  obtain ⟨n, hn, hold⟩ : ∃ n, (Driver.run [] (reopened.take 8)).ev.next = some n ∧
      n.session < (Driver.run [] (reopened.take 8)).session := ⟨_, rfl, by decide +kernel⟩
  have hsame := hall 8 .evWork rfl n hn hold
  rw [hsame, hbefore] at hafter
  exact absurd hafter (by decide)

/-- The receiver is between frames or inside one, whenever it listens. -/
def Rx.Sane (rx : Rx) : Prop := rx.running = true → ∃ p, rx.Holds p

theorem Rx.Sane.parseEvent (h : d.rx.Sane) (buffer : List UInt8) :
    ∃ y, rtkBtcoexParseEvent (Driver.rtkBtcoexEvtEnqueue d.session) (d.rx, d.ev) buffer = some y ∧ y.1.Sane := by
  by_cases hrun : d.rx.running = true
  · obtain ⟨p, hp⟩ := h hrun
    obtain ⟨rx', heq, hholds⟩ := rtkBtcoexParseEvent_feed (Driver.rtkBtcoexEvtEnqueue d.session) hp d.ev buffer
    exact ⟨_, heq, fun _ => ⟨_, hholds⟩⟩
  · exact ⟨(d.rx, d.ev), if_neg hrun, h⟩

theorem Rx.Sane.step (h : d.rx.Sane) (a : Action) : (d.step a).rx.Sane := by
  cases a with
  | «open» =>
    change d.rtkBtcoexOpen.rx.Sane
    unfold Driver.rtkBtcoexOpen
    split_ifs with hopen
    · exact h
    · unfold Rx.rtkBtcoexOpen
      rw [if_neg fun hrun => hopen (.inl hrun)]
      exact fun _ => ⟨[], rfl, rfl, rfl⟩
  | close =>
    change d.rtkBtcoexClose.rx.Sane
    unfold Driver.rtkBtcoexClose
    split_ifs
    · exact nofun
    · exact h
  | closeStep =>
    change d.closeStep.rx.Sane
    unfold Driver.closeStep
    split
    · exact h
    · split_ifs <;> exact h
    · split_ifs
      · exact h
      · exact fun hrun => ⟨[], hrun, rfl, rfl⟩
  | transfer buffer =>
    change (d.parseEvent buffer).rx.Sane
    obtain ⟨y, heq, hy⟩ := h.parseEvent buffer
    unfold Driver.parseEvent
    rw [heq]
    exact hy
  | l2capData hd len dir =>
    change (d.parseL2capData hd len dir).rx.Sane
    unfold Driver.parseL2capData Driver.rtlL2DataProcess
    split_ifs <;> exact h
  | startEvWork => exact h
  | evWork => exact h
  | startL2Work => exact h
  | l2Work => exact h

/-- **In every state of every run, `rtk_btcoex_parse_event` comes to the end of its transfer**, whatever is in it. -/
theorem run_parseEvent_isSome (l2 : List L2Node) (actions : List Action) (buffer : List UInt8) :
    (rtkBtcoexParseEvent (Driver.rtkBtcoexEvtEnqueue (Driver.run l2 actions).session)
      ((Driver.run l2 actions).rx, (Driver.run l2 actions).ev) buffer).isSome := by
  have hsane : (Driver.run l2 actions).rx.Sane :=
    List.foldlRecOn (motive := fun d : Driver => d.rx.Sane) _ _ (fun hrun => by cases hrun) fun _ h a _ => h.step a
  obtain ⟨y, heq, -⟩ := hsane.parseEvent buffer
  rw [heq]
  rfl

end NasFirmware.Bluetooth
