import NasFirmware.Bluetooth.Driver

/-!
# Signalling in reused buffers

As much of a signalling packet as a buffer holds is copied into it, and nothing says later how much that was. The
fields are read from fixed places, so a short packet is completed by what an earlier one left there.
-/

namespace NasFirmware.Bluetooth

open ByteMem Coex Driver

/-! ## Packets -/

/-- The fields that are read were received: identifiers and PSM, and for a response the low byte of the result. The
identifier of a request only counts if its PSM is followed. -/
def Carries (hd : Mem) (len : Nat) : Prop :=
  (hd 8 = 0x02 → 16 ≤ copied len ∨ 14 ≤ copied len ∧ psmToProfileIndex (load16 hd 12) = none) ∧
    (hd 8 = 0x03 → 17 ≤ copied len) ∧ (hd 8 = 0x06 → 16 ≤ copied len)

instance {hd : Mem} {len : Nat} : Decidable (Carries hd len) := inferInstanceAs (Decidable (_ ∧ _ ∧ _))

section Read

variable {data hd m : Mem} {n : Nat} {out : Bool} {s : Coex} {handle scid i : Nat}

theorem rtlProcessL2Sig_req (h : data 8 = 0x02) : rtlProcessL2Sig ⟨data, out⟩
    = some (.l2capConReq (load16 data 0) (load16 data 12) (load16 data 14) out) := by
  unfold rtlProcessL2Sig
  dsimp only
  rw [h]
  rfl

theorem rtlProcessL2Sig_rsp (h : data 8 = 0x03) : rtlProcessL2Sig ⟨data, out⟩
    = some (.l2capConRsp (load16 data 0) (load16 data 12) (load16 data 14) (load16 data 16) out) := by
  unfold rtlProcessL2Sig
  dsimp only
  rw [h]
  rfl

theorem rtlProcessL2Sig_discon (h : data 8 = 0x06) : rtlProcessL2Sig ⟨data, out⟩
    = some (.l2capDisconReq (load16 data 0) (load16 data 12) (load16 data 14) out) := by
  unfold rtlProcessL2Sig
  dsimp only
  rw [h]
  rfl

theorem step_conReq_ignored {psm scid' : Nat} (h : psmToProfileIndex psm = none) :
    step s (.l2capConReq handle psm scid out) = step s (.l2capConReq handle psm scid' out) := by
  change handleL2capConReq .. = handleL2capConReq ..
  unfold handleL2capConReq
  rw [h]

theorem step_conRsp_congr {dcid r r' : Nat} (h : r % 0x100 = r' % 0x100) :
    step s (.l2capConRsp handle dcid scid r out) = step s (.l2capConRsp handle dcid scid r' out) := by
  change handleL2capConRsp .. = handleL2capConRsp ..
  unfold handleL2capConRsp
  rw [h]

theorem write_read_apply (hi : i < n) : write m 0 (read hd 0 n) i = hd i :=
  write_apply_of_read rfl (Nat.zero_le i) (by rwa [Nat.zero_add])

theorem load16_write_read (hi : i + 2 ≤ n) : load16 (write m 0 (read hd 0 n)) i = load16 hd i :=
  load16_congr fun _ _ hk => write_read_apply (by omega)

/-- **A buffer is read as the packet.** -/
theorem apply_fill {len : Nat} (hsignal : IsSignal hd) (hcarries : Carries hd len) (m : Mem) (dir : Bool) (s : Coex) :
    apply s (rtlProcessL2Sig ⟨write m 0 (read hd 0 (copied len)), dir⟩) = apply s (rtlProcessL2Sig ⟨hd, dir⟩) := by
  obtain ⟨hreq, hrsp, hdiscon⟩ := hcarries
  rcases hsignal.2 with hcode | hcode | hcode
  · have hlen : 14 ≤ copied len := (hreq hcode).elim (Nat.le_trans (by decide)) And.left
    rw [rtlProcessL2Sig_req hcode, rtlProcessL2Sig_req ((write_read_apply (by omega)).trans hcode),
      load16_write_read (by omega), load16_write_read (by omega)]
    rcases hreq hcode with hlen | ⟨-, hpsm⟩
    · rw [load16_write_read (by omega)]
    · exact step_conReq_ignored hpsm
  · have hlen := hrsp hcode
    rw [rtlProcessL2Sig_rsp hcode, rtlProcessL2Sig_rsp ((write_read_apply (by omega)).trans hcode),
      load16_write_read (by omega), load16_write_read (by omega), load16_write_read (by omega)]
    refine step_conRsp_congr ?_
    rw [load16, load16, write_read_apply (by omega)]
    omega
  · have hlen := hdiscon hcode
    rw [rtlProcessL2Sig_discon hcode, rtlProcessL2Sig_discon ((write_read_apply (by omega)).trans hcode),
      load16_write_read (by omega), load16_write_read (by omega), load16_write_read (by omega)]

end Read

/-! ## Two drivers -/

/-- Used buffers that are read alike, and as many free ones. -/
structure Lane.Alike (q q' : Lane L2Node) : Prop where
  free : q.free.length = q'.free.length
  used : List.Forall₂ (fun a b => a.session = b.session ∧
    ∀ s, apply s (rtlProcessL2Sig a.node) = apply s (rtlProcessL2Sig b.node)) q.used q'.used
  queued : q.queued = q'.queued
  running : q.running = q'.running

section Alike

variable {q q' : Lane L2Node}

variable (h : q.Alike q')

include h

theorem Lane.Alike.start : q.start.Alike q'.start := by
  unfold Lane.start
  rw [h.queued, h.running]
  split_ifs
  · exact ⟨h.free, h.used, rfl, rfl⟩
  · exact h

theorem Lane.Alike.cancel : q.cancel.Alike q'.cancel := ⟨h.free, h.used, rfl, h.running⟩

theorem Lane.Alike.advance : q.advance.Alike q'.advance := by
  obtain ⟨free, used, queued, running⟩ := q
  obtain ⟨free', used', queued', running'⟩ := q'
  obtain ⟨hfree, hused, rfl, rfl⟩ := h
  unfold Lane.advance
  split_ifs
  · cases hused with
    | nil => exact ⟨hfree, .nil, rfl, rfl⟩
    | cons _ htail =>
      refine ⟨?_, htail, rfl, rfl⟩
      rw [List.length_append, List.length_append, hfree]
      rfl
  · exact ⟨hfree, hused, rfl, rfl⟩

theorem Lane.Alike.apply_next (s : Coex) :
    apply s (q.next.bind fun n => rtlProcessL2Sig n.node) = apply s (q'.next.bind fun n => rtlProcessL2Sig n.node) := by
  obtain ⟨free, used, queued, running⟩ := q
  obtain ⟨free', used', queued', running'⟩ := q'
  obtain ⟨hfree, hused, rfl, rfl⟩ := h
  unfold Lane.next
  split_ifs
  · cases hused with
    | nil => rfl
    | cons hread _ => exact hread.2 s
  · rfl

theorem Lane.Alike.enqueue {fill : L2Node → L2Node} {k : Nat}
    (hfill : ∀ m m' s, apply s (rtlProcessL2Sig (fill m)) = apply s (rtlProcessL2Sig (fill m'))) :
    (q.enqueue fill k).Alike (q'.enqueue fill k) := by
  unfold Lane.enqueue
  have hfree := h.free
  cases hq : q.free with
  | nil =>
    rw [hq, List.length_nil] at hfree
    rw [List.length_eq_zero_iff.mp hfree.symm]
    exact h
  | cons n free =>
    rw [hq, List.length_cons] at hfree
    obtain ⟨n', free', hq'⟩ := List.exists_cons_of_length_eq_add_one hfree.symm
    rw [hq']
    rw [hq', List.length_cons, Nat.add_right_cancel_iff] at hfree
    exact ⟨hfree, List.rel_append h.used (.cons ⟨rfl, hfill n n'⟩ .nil), rfl, h.running⟩

end Alike

def Driver.withL2 (d : Driver) (q : Lane L2Node) : Driver := { d with l2 := q }

def Action.Carries : Action → Prop
  | .l2capData hd len _ => IsSignal hd → Bluetooth.Carries hd len
  | _ => True

instance : DecidablePred Action.Carries
  | .l2capData hd len _ => inferInstanceAs (Decidable (IsSignal hd → Bluetooth.Carries hd len))
  | .open | .close | .closeStep | .transfer _ | .startEvWork | .evWork | .startL2Work | .l2Work => .isTrue trivial

/-- **One action.** The drivers stay alike in everything but the older bytes. -/
theorem Driver.step_alike {d : Driver} {q : Lane L2Node} (h : d.l2.Alike q) {a : Action} (ha : a.Carries) :
    ∃ q', (d.withL2 q).step a = (d.step a).withL2 q' ∧ (d.step a).l2.Alike q' := by
  obtain ⟨rx, closing, session, ev, l2, coex⟩ := d
  cases a with
  | «open» =>
    dsimp only [Driver.step, rtkBtcoexOpen, Driver.withL2]
    split_ifs
    · exact ⟨q, rfl, h⟩
    · exact ⟨q.cancel, rfl, h.cancel⟩
  | close =>
    dsimp only [Driver.step, rtkBtcoexClose, Driver.withL2]
    split_ifs
    · exact ⟨q, rfl, h⟩
    · exact ⟨q, rfl, h⟩
  | closeStep =>
    dsimp only [Driver.step, Driver.closeStep, Driver.withL2]
    cases closing with
    | none => exact ⟨q, rfl, h⟩
    | some phase =>
      cases phase with
      | events =>
        dsimp only
        split_ifs
        · exact ⟨q, rfl, h⟩
        · exact ⟨q.cancel, rfl, h.cancel⟩
      | signalling =>
        dsimp only
        rw [← h.running]
        split_ifs
        · exact ⟨q, rfl, h⟩
        · exact ⟨q, rfl, h⟩
  | transfer buffer =>
    dsimp only [Driver.step, parseEvent, Driver.withL2]
    cases rtkBtcoexParseEvent (rtkBtcoexEvtEnqueue session) (rx, ev) buffer with
    | none => exact ⟨q, rfl, h⟩
    | some x => exact ⟨q, rfl, h⟩
  | l2capData hd len dir =>
    dsimp only [Driver.step, parseL2capData, rtlL2DataProcess, Driver.withL2]
    split_ifs with hrunning hsignal
    · refine ⟨_, rfl, h.enqueue fun m m' s => ?_⟩
      exact (apply_fill hsignal (ha hsignal) m.data dir s).trans (apply_fill hsignal (ha hsignal) m'.data dir s).symm
    · exact ⟨q, rfl, h⟩
    · exact ⟨q, rfl, h⟩
  | startEvWork => exact ⟨q, rfl, h⟩
  | evWork => exact ⟨q, rfl, h⟩
  | startL2Work => exact ⟨q.start, rfl, h.start⟩
  | l2Work =>
    refine ⟨q.advance, ?_, h.advance⟩
    dsimp only [Driver.step, rtlL2Work, Driver.withL2]
    rw [h.apply_next]

theorem run_alike {l2 l2' : List L2Node} (hlen : l2.length = l2'.length) (actions : List Action)
    (hcarries : ∀ a ∈ actions, a.Carries) :
    ∃ q, Driver.run l2' actions = (Driver.run l2 actions).withL2 q ∧ (Driver.run l2 actions).l2.Alike q := by
  induction actions using List.reverseRecOn with
  | nil => exact ⟨⟨l2', [], false, false⟩, rfl, hlen, .nil, rfl, rfl⟩
  | append_singleton actions a ih =>
    obtain ⟨q, heq, halike⟩ := ih fun a ha => hcarries a (List.mem_append_left _ ha)
    obtain ⟨q', hstep, halike'⟩ := Driver.step_alike halike
      (hcarries a (List.mem_append_right _ (List.mem_singleton_self a)))
    unfold Driver.run at heq ⊢
    rw [List.foldl_append, List.foldl_append, heq]
    exact ⟨q', hstep, halike'⟩

/-- **Signalling is read within the packet.** If every signalling packet carries the fields that are read, the lists
and counts are the same, whatever the buffers held at first. -/
theorem signalling_within (l2 l2' : List L2Node) (hlen : l2.length = l2'.length) (actions : List Action)
    (hcarries : ∀ a ∈ actions, a.Carries) (k : Nat) :
    (Driver.run l2 (actions.take k)).coex = (Driver.run l2' (actions.take k)).coex := by
  obtain ⟨q, heq, -⟩ := run_alike hlen (actions.take k) fun a ha => hcarries a (List.mem_of_mem_take ha)
  rw [heq]
  rfl

def signal (code : UInt8) (tail : List UInt8) : Mem :=
  ofList ([0x01, 0x20, 0x0c, 0x00, 0x08, 0x00, 0x01, 0x00, code] ++ tail)

def oneSignal (hd : Mem) (len : Nat) : List Action :=
  [.open, .l2capData hd len true, .startL2Work, .l2Work]

def filled (c : UInt8) : List L2Node := List.replicate l2MaxPkts ⟨fun _ => c, false⟩

theorem request_within :
    (∀ a ∈ oneSignal (signal 0x02 [0x01, 0x04, 0x00, 0x19, 0x00, 0x40, 0x00]) 16, a.Carries) ∧
    ∀ k, (Driver.run (filled 0) ((oneSignal (signal 0x02 [0x01, 0x04, 0x00, 0x19, 0x00, 0x40, 0x00]) 16).take k)).coex
      = (Driver.run (filled 1) ((oneSignal (signal 0x02 [0x01, 0x04, 0x00, 0x19, 0x00, 0x40, 0x00]) 16).take k)).coex :=
  ⟨by decide, fun k => signalling_within (filled 0) (filled 1) rfl _ (by decide) k⟩

/-- A request that ends with its code gets its PSM and its channel from the buffer. -/
theorem shortRequest_stale :
    ¬ ∀ k, (Driver.run (filled 0) ((oneSignal (signal 0x02 []) 9).take k)).coex
      = (Driver.run (filled 1) ((oneSignal (signal 0x02 []) 9).take k)).coex := by
  intro hall
  have hzero : (Driver.run (filled 0) ((oneSignal (signal 0x02 []) 9).take 4)).coex.profileList
      = [⟨1, 0, 0, 0, .pan⟩] := by decide +kernel
  have hone : (Driver.run (filled 1) ((oneSignal (signal 0x02 []) 9).take 4)).coex.profileList
      = [⟨1, 0x101, 0, 0x101, .pan⟩] := by decide +kernel
  rw [hall 4, hone] at hzero
  exact absurd hzero (by decide)

end NasFirmware.Bluetooth
