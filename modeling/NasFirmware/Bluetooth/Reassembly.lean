import NasFirmware.Lib.Framing
import NasFirmware.Lib.Loop
import NasFirmware.Lib.Mem

/-!
# Events from transfers

The controller's events arrive in transfers of the interrupt endpoint, which need not begin or end where events do.
`rtk_btcoex_parse_event` collects them in `back_buff`: first the two bytes of the header, then as many as the header
says.
-/

namespace NasFirmware.Bluetooth

open ByteMem CLoop

/-! ## The receiver -/

def hciEventHdrSize : Nat := 2

def hciMaxEventSize : Nat := 260

def hciEventPkt : Nat := 4

/-- The receive fields of `btrtl_coex`. `tbuff` is a place in `back_buff`, or `NULL`. -/
structure Rx where
  running : Bool
  pktType : Nat
  expect : Nat
  elen : Nat
  tbuff : Option Nat
  backBuff : Mem

namespace Rx

def rtkBtcoexOpen (rx : Rx) : Rx :=
  if rx.running then rx else { rx with running := true, pktType := 0, expect := 0, elen := 0, tbuff := none }

def startFrame (rx : Rx) : Rx :=
  match rx.tbuff with
  | some _ => rx
  | none => { rx with tbuff := some 0, elen := 0, pktType := hciEventPkt, expect := hciEventHdrSize }

def copyIn (rx : Rx) (bytes : List UInt8) : Rx :=
  { rx with
    backBuff := write rx.backBuff (rx.tbuff.getD 0) bytes
    tbuff := rx.tbuff.map (· + bytes.length)
    elen := rx.elen + bytes.length
    expect := rx.expect - bytes.length }

def reset (rx : Rx) : Rx := { rx with tbuff := none, elen := 0 }

end Rx

section Parse

variable {σ : Type} (enqueue : σ → List UInt8 → σ)

/-- The loop's variables: the receive fields, what is left of the transfer, and whatever `enqueue` changes. -/
structure Parsing (σ : Type) where
  rx : Rx
  buffer : List UInt8
  rest : σ

/-- The end of a pass: a complete frame is enqueued. -/
def finishPass (s : Parsing σ) : Parsing σ :=
  if s.rx.expect = 0 then ⟨s.rx.reset, s.buffer, enqueue s.rest (read s.rx.backBuff 0 s.rx.elen)⟩ else s

/-- One pass of the loop of `rtk_btcoex_parse_event`. -/
def parsePass (s : Parsing σ) : Pass (Parsing σ) (Parsing σ) :=
  if s.buffer = [] then .done s
  else
    let len := min s.rx.startFrame.expect s.buffer.length
    let rx := s.rx.startFrame.copyIn (s.buffer.take len)
    let buffer := s.buffer.drop len
    if rx.elen = hciEventHdrSize then
      let expect := (rx.backBuff 1).toNat
      -- tbuff room is not enough
      if hciMaxEventSize - rx.elen < expect then .done ⟨{ rx.reset with expect := expect }, buffer, s.rest⟩
      else .next (finishPass enqueue ⟨{ rx with expect := expect }, buffer, s.rest⟩)
    else .next (finishPass enqueue ⟨rx, buffer, s.rest⟩)

/-- A transfer. While the monitor is closed it is ignored. -/
def rtkBtcoexParseEvent (x : Rx × σ) (buffer : List UInt8) : Option (Rx × σ) :=
  if x.1.running then
    (loop (fun s => some (parsePass enqueue s)) (buffer.length + 1) ⟨x.1, buffer, x.2⟩).map fun s => (s.rx, s.rest)
  else some x

def parseTransfers (x : Rx × σ) (transfers : List (List UInt8)) : Option (Rx × σ) :=
  transfers.foldlM (rtkBtcoexParseEvent enqueue) x

end Parse

/-! ## Events -/

structure HciEvent where
  code : UInt8
  params : List UInt8
  length_le : params.length ≤ 255

def HciEvent.bytes (e : HciEvent) : List UInt8 := e.code :: UInt8.ofNat e.params.length :: e.params

def eventLength (p : List UInt8) : Nat := hciEventHdrSize + (p.getD 1 0).toNat

def Whole (p : List UInt8) : Prop := hciEventHdrSize ≤ p.length ∧ p.length = eventLength p

instance : DecidablePred Whole := fun _ => inferInstanceAs (Decidable (_ ∧ _))

def need (p : List UInt8) : Nat :=
  if p.length < hciEventHdrSize then hciEventHdrSize - p.length else eventLength p - p.length

section Need

variable {p c : List UInt8}

theorem eventLength_append (hp : hciEventHdrSize ≤ p.length) : eventLength (p ++ c) = eventLength p := by
  unfold eventLength
  rw [List.getD_append _ _ _ _ hp]

theorem need_of_lt (hp : p.length < hciEventHdrSize) : need p = hciEventHdrSize - p.length := if_pos hp

theorem need_of_ge (hp : hciEventHdrSize ≤ p.length) : need p = eventLength p - p.length :=
  if_neg (Nat.not_lt.mpr hp)

theorem not_whole_append (hc : c.length < need p) : ¬ Whole (p ++ c) := by
  unfold Whole
  rw [List.length_append]
  rcases Nat.lt_or_ge p.length hciEventHdrSize with hp | hp
  · rw [need_of_lt hp] at hc
    omega
  · rw [need_of_ge hp] at hc
    rw [eventLength_append hp]
    omega

theorem need_append (hc : c.length ≤ need p) (hlen : (p ++ c).length ≠ hciEventHdrSize) :
    need (p ++ c) = need p - c.length := by
  have happ : (p ++ c).length = p.length + c.length := List.length_append
  rcases Nat.lt_or_ge p.length hciEventHdrSize with hp | hp
  · rw [need_of_lt hp] at hc ⊢
    rw [need_of_lt (by omega)]
    omega
  · rw [need_of_ge hp, need_of_ge (by omega), eventLength_append hp]
    omega

theorem whole_iff_need (hpos : 0 < need p) (hc : c.length ≤ need p) : Whole (p ++ c) ↔ need (p ++ c) = 0 := by
  have happ : (p ++ c).length = p.length + c.length := List.length_append
  unfold Whole
  rcases Nat.lt_or_ge (p ++ c).length hciEventHdrSize with hpc | hpc
  · rw [need_of_lt hpc]
    omega
  · rw [need_of_ge hpc]
    -- not more bytes than the event has
    have hle : (p ++ c).length ≤ eventLength (p ++ c) := by
      rcases Nat.lt_or_ge p.length hciEventHdrSize with hp | hp
      · rw [need_of_lt hp] at hc
        exact Nat.le_trans (by omega) (Nat.le_add_right ..)
      · rw [need_of_ge hp] at hc hpos
        rw [eventLength_append hp]
        omega
    omega

theorem isFrame_bytes (e : HciEvent) : Framing.IsFrame Whole e.bytes := by
  have hlen : (UInt8.ofNat e.params.length).toNat = e.params.length := by
    exact Nat.mod_eq_of_lt (Nat.lt_succ_of_le e.length_le)
  have hwhole : Whole e.bytes := by
    refine ⟨Nat.le_add_left .., ?_⟩
    change e.params.length + 2 = 2 + (UInt8.ofNat e.params.length).toNat
    rw [hlen, Nat.add_comm]
  refine ⟨hwhole, fun c c' hsplit _ hc' hpart => hc' ?_⟩
  -- a beginning that is whole has the header of the event, and so its length
  have hle := hwhole.2
  rw [hsplit, List.length_append, eventLength_append hpart.1, ← hpart.2] at hle
  exact List.length_eq_zero_iff.mp (by omega)

end Need

namespace Rx

variable {rx : Rx} {p c : List UInt8}

/-- A frame is begun, `p` has been collected of it, and more is expected. -/
structure Collects (rx : Rx) (p : List UInt8) : Prop where
  running : rx.running = true
  tbuff : rx.tbuff = some p.length
  elen : rx.elen = p.length
  bytes : read rx.backBuff 0 p.length = p
  expect : rx.expect = need p
  pos : 0 < need p

structure Ready (rx : Rx) : Prop where
  running : rx.running = true
  tbuff : rx.tbuff = none
  elen : rx.elen = 0

/-- Between two frames, or inside one. -/
def Holds (rx : Rx) (p : List UInt8) : Prop := if p = [] then rx.Ready else rx.Collects p

theorem collects_startFrame (h : rx.Holds p) : rx.startFrame.Collects p := by
  unfold Holds at h
  split_ifs at h with hp
  · subst hp
    unfold startFrame
    rw [h.tbuff]
    exact ⟨h.running, rfl, rfl, rfl, rfl, Nat.two_pos⟩
  · unfold startFrame
    rw [h.tbuff]
    exact h

theorem Collects.copyIn (h : rx.Collects p) :
    (rx.copyIn c).tbuff = some (p ++ c).length ∧ (rx.copyIn c).elen = (p ++ c).length ∧
      read (rx.copyIn c).backBuff 0 (p ++ c).length = p ++ c ∧ (rx.copyIn c).expect = need p - c.length := by
  unfold Rx.copyIn
  rw [h.tbuff, h.elen, h.expect, Option.map_some, Option.getD_some, List.length_append]
  refine ⟨rfl, rfl, ?_, rfl⟩
  have happ : read (write rx.backBuff (0 + p.length) c) 0 (p ++ c).length = p ++ c := read_write_append h.bytes
  rwa [Nat.zero_add, List.length_append] at happ

end Rx

/-! ## Passes -/

section Passes

variable {σ : Type} {enqueue : σ → List UInt8 → σ} {rx : Rx} {p buffer : List UInt8} {s : σ}

theorem finishPass_holds (rx : Rx) (buffer : List UInt8) (hrun : rx.running = true)
    (htbuff : rx.tbuff = some p.length) (helen : rx.elen = p.length) (hbytes : read rx.backBuff 0 p.length = p)
    (hexpect : rx.expect = need p) (hne : p ≠ []) (hwhole : Whole p ↔ need p = 0) {y : List UInt8 × σ}
    (hy : y = if Whole p then ([], enqueue s p) else (p, s)) :
    ∃ rx', finishPass enqueue ⟨rx, buffer, s⟩ = ⟨rx', buffer, y.2⟩ ∧ rx'.Holds y.1 := by
  unfold finishPass
  rw [hexpect, helen, hbytes]
  split_ifs at hy with hw
  · subst hy
    rw [if_pos (hwhole.mp hw)]
    exact ⟨_, rfl, hrun, rfl, rfl⟩
  · subst hy
    rw [if_neg (mt hwhole.mpr hw)]
    refine ⟨rx, rfl, ?_⟩
    unfold Rx.Holds
    rw [if_neg hne]
    exact ⟨hrun, htbuff, helen, hbytes, hexpect, Nat.pos_of_ne_zero (mt hwhole.mpr hw)⟩

theorem rtkBtcoexParseEvent_invariant (P : σ → Prop) (henqueue : ∀ s bytes, P s → P (enqueue s bytes)) {x y : Rx × σ}
    (hx : P x.2) (h : rtkBtcoexParseEvent enqueue x buffer = some y) : P y.2 := by
  have hfinish : ∀ t : Parsing σ, P t.rest → P (finishPass enqueue t).rest := fun t ht => by
    unfold finishPass
    split_ifs
    · exact henqueue _ _ ht
    · exact ht
  have hpass : ∀ t : Parsing σ, P t.rest →
      (∀ t', parsePass enqueue t = .next t' → P t'.rest) ∧ ∀ t', parsePass enqueue t = .done t' → P t'.rest := by
    intro t ht
    unfold parsePass
    dsimp only
    split_ifs
    · exact ⟨nofun, fun t' heq => Pass.done.inj heq ▸ ht⟩
    · exact ⟨nofun, fun t' heq => Pass.done.inj heq ▸ ht⟩
    · exact ⟨fun t' heq => Pass.next.inj heq ▸ hfinish _ ht, nofun⟩
    · exact ⟨fun t' heq => Pass.next.inj heq ▸ hfinish _ ht, nofun⟩
  unfold rtkBtcoexParseEvent at h
  split_ifs at h
  · obtain ⟨t, hloop, rfl⟩ := Option.map_eq_some_iff.mp h
    exact loop_invariant (fun t => P t.rest) (fun t => P t.rest)
      (fun t t' ht hb => (hpass t ht).1 t' (Option.some.inj hb))
      (fun t t' ht hb => (hpass t ht).2 t' (Option.some.inj hb)) hx hloop
  · cases h
    exact hx

/-- **One pass.** It takes as much of the transfer as may belong to the header, or to the event. -/
theorem parsePass_holds (enqueue : σ → List UInt8 → σ) (h : rx.Holds p) (hbuffer : buffer ≠ []) :
    ∃ len rx', 0 < len ∧
      parsePass enqueue ⟨rx, buffer, s⟩
        = .next ⟨rx', buffer.drop len, (Framing.feed Whole enqueue (p, s) (buffer.take len)).2⟩ ∧
      rx'.Holds (Framing.feed Whole enqueue (p, s) (buffer.take len)).1 := by
  have hcollects := Rx.collects_startFrame h
  have hpos := hcollects.pos
  have hexpect := hcollects.expect
  have hrunning := hcollects.running
  have hbufpos := List.length_pos_of_ne_nil hbuffer
  set len := min rx.startFrame.expect buffer.length with hlen
  have htake : (buffer.take len).length = len := by
    rw [List.length_take]
    omega
  have hle : (buffer.take len).length ≤ need p := by omega
  have hc : buffer.take len ≠ [] := List.ne_nil_of_length_pos (by omega)
  have hne : p ++ buffer.take len ≠ [] := List.append_ne_nil_of_right_ne_nil p hc
  obtain ⟨htbuff, helen, hbytes, hleft⟩ := hcollects.copyIn (c := buffer.take len)
  have hwhole := whole_iff_need hpos hle
  have hfeed : Framing.feed Whole enqueue (p, s) (buffer.take len)
      = if Whole (p ++ buffer.take len) then ([], enqueue s (p ++ buffer.take len)) else (p ++ buffer.take len, s) := by
    refine Framing.feed_block hc fun c₁ c₂ hsplit _ h₂ => not_whole_append ?_
    have hsum := congrArg List.length hsplit
    have := List.length_pos_of_ne_nil h₂
    rw [List.length_append] at hsum
    omega
  refine ⟨len, ?_⟩
  unfold parsePass
  rw [if_neg hbuffer, ← hlen]
  by_cases hheader : (rx.startFrame.copyIn (buffer.take len)).elen = hciEventHdrSize
  · rw [if_pos hheader]
    rw [helen] at hheader
    -- the second byte is the length of the parameters, which is below the room that is left
    have hplen : ((rx.startFrame.copyIn (buffer.take len)).backBuff 1).toNat = need (p ++ buffer.take len) := by
      have hone := getElem?_read (rx.startFrame.copyIn (buffer.take len)).backBuff 0 _ 1
        (by rw [hheader]; decide : 1 < (p ++ buffer.take len).length)
      rw [hbytes, Nat.zero_add] at hone
      rw [need_of_ge (Nat.le_of_eq hheader.symm), eventLength, hheader, Nat.add_sub_cancel_left,
        List.getD_eq_getElem?_getD, hone, Option.getD_some]
    have hroom : ¬ hciMaxEventSize - (rx.startFrame.copyIn (buffer.take len)).elen
        < ((rx.startFrame.copyIn (buffer.take len)).backBuff 1).toNat := by
      have := ((rx.startFrame.copyIn (buffer.take len)).backBuff 1).toNat_lt
      rw [helen, hheader, hciMaxEventSize, hciEventHdrSize]
      omega
    rw [if_neg hroom]
    obtain ⟨rx', heq, hholds⟩ := finishPass_holds
      { rx.startFrame.copyIn (buffer.take len) with
        expect := ((rx.startFrame.copyIn (buffer.take len)).backBuff 1).toNat }
      (buffer.drop len) hrunning htbuff helen hbytes hplen hne hwhole hfeed
    exact ⟨rx', by omega, congrArg Pass.next heq, hholds⟩
  · rw [if_neg hheader]
    rw [helen] at hheader
    obtain ⟨rx', heq, hholds⟩ := finishPass_holds (rx.startFrame.copyIn (buffer.take len)) (buffer.drop len)
      hrunning htbuff helen hbytes (hleft.trans (need_append hle hheader).symm) hne hwhole hfeed
    exact ⟨rx', by omega, congrArg Pass.next heq, hholds⟩

/-- **One transfer** is fed to the receiver. -/
theorem rtkBtcoexParseEvent_feed (enqueue : σ → List UInt8 → σ) (h : rx.Holds p) (s : σ) (buffer : List UInt8) :
    ∃ rx', rtkBtcoexParseEvent enqueue (rx, s) buffer = some (rx', (Framing.feed Whole enqueue (p, s) buffer).2) ∧
      rx'.Holds (Framing.feed Whole enqueue (p, s) buffer).1 := by
  have hrunning : rx.running = true := by
    unfold Rx.Holds at h
    split_ifs at h
    · exact h.running
    · exact h.running
  set y := Framing.feed Whole enqueue (p, s) buffer with hy
  -- what is left of the transfer, fed to what is held, gives the same
  have hloop : ∃ t, loop (fun t => some (parsePass enqueue t)) (buffer.length + 1) ⟨rx, buffer, s⟩ = some t ∧
      t.rx.Holds y.1 ∧ t.rest = y.2 := by
    refine loop_of_variant
      (fun k (t : Parsing σ) => t.buffer.length = k ∧
        ∃ q, t.rx.Holds q ∧ Framing.feed Whole enqueue (q, t.rest) t.buffer = y)
      (fun t : Parsing σ => t.rx.Holds y.1 ∧ t.rest = y.2) (fun k t ht => ?_) ⟨rfl, p, h, hy.symm⟩ (Nat.lt_succ_self _)
    obtain ⟨rfl, q, hq, hfeed⟩ := ht
    by_cases hempty : t.buffer = []
    · rw [hempty, Framing.feed_nil] at hfeed
      refine .inr ⟨t, ?_, ?_⟩
      · unfold parsePass
        rw [if_pos hempty]
      · rw [← hfeed]
        exact ⟨hq, rfl⟩
    · obtain ⟨len, rx', hpos, hpass, hholds⟩ := parsePass_holds (s := t.rest) enqueue hq hempty
      refine .inl ⟨_, _, congrArg some hpass, ⟨rfl, _, hholds, ?_⟩, ?_⟩
      · rw [← hfeed, ← Framing.feed_append, List.take_append_drop]
      · have := List.length_pos_of_ne_nil hempty
        rw [List.length_drop]
        omega
  obtain ⟨t, heq, hholds, hrest⟩ := hloop
  refine ⟨t.rx, ?_, hholds⟩
  unfold rtkBtcoexParseEvent
  rw [if_pos hrunning, heq, Option.map_some, hrest]

theorem parseTransfers_feed (enqueue : σ → List UInt8 → σ) (h : rx.Holds p) (transfers : List (List UInt8)) :
    ∃ rx', parseTransfers enqueue (rx, s) transfers
        = some (rx', (Framing.feed Whole enqueue (p, s) transfers.flatten).2) ∧
      rx'.Holds (Framing.feed Whole enqueue (p, s) transfers.flatten).1 := by
  induction transfers generalizing rx p s with
  | nil => exact ⟨rx, rfl, h⟩
  | cons t transfers ih =>
    obtain ⟨rx₁, hone, hholds⟩ := rtkBtcoexParseEvent_feed enqueue h s t
    obtain ⟨rx₂, hrest, hlast⟩ := ih (s := (Framing.feed Whole enqueue (p, s) t).2) hholds
    rw [List.flatten_cons, Framing.feed_append]
    refine ⟨rx₂, ?_, hlast⟩
    unfold parseTransfers at hrest ⊢
    rw [List.foldlM_cons, hone]
    exact hrest

/-- **Reassembly.** The events whose bytes arrive are enqueued one after the other, wherever the transfers are cut. -/
theorem transfers_enqueue (enqueue : σ → List UInt8 → σ) (s : σ) (rx : Rx) (hclosed : rx.running = false)
    (events : List HciEvent) (transfers : List (List UInt8))
    (hcut : transfers.flatten = (events.map HciEvent.bytes).flatten) :
    ∃ rx', parseTransfers enqueue (rx.rtkBtcoexOpen, s) transfers
        = some (rx', (events.map HciEvent.bytes).foldl enqueue s) ∧ rx'.Ready := by
  have hopen : rx.rtkBtcoexOpen.Holds [] := by
    unfold Rx.rtkBtcoexOpen
    rw [if_neg (by rw [hclosed]; decide)]
    exact ⟨rfl, rfl, rfl⟩
  obtain ⟨rx', heq, hholds⟩ := parseTransfers_feed (s := s) enqueue hopen transfers
  have hframes : ∀ f ∈ events.map HciEvent.bytes, f ≠ [] ∧ Framing.IsFrame Whole f := fun f hf => by
    obtain ⟨e, -, rfl⟩ := List.mem_map.mp hf
    exact ⟨List.cons_ne_nil _ _, isFrame_bytes e⟩
  rw [hcut, Framing.feed_frames hframes] at heq hholds
  exact ⟨rx', heq, hholds⟩

def closedRx : Rx := ⟨false, 0, 0, 0, none, fun _ => 0⟩

theorem twoEvents_enqueue :
    closedRx.running = false ∧
    ∃ rx', parseTransfers (fun log e => log ++ [e]) (closedRx.rtkBtcoexOpen, [])
        [[0x01], [0x00, 0x05], [0x04, 0x00, 0x01], [0x00, 0x13]]
      = some (rx', [[0x01, 0x00], [0x05, 0x04, 0x00, 0x01, 0x00, 0x13]]) ∧ rx'.Ready :=
  ⟨rfl, transfers_enqueue _ [] closedRx rfl [⟨0x01, [], by decide⟩, ⟨0x05, [0x00, 0x01, 0x00, 0x13], by decide⟩]
    _ rfl⟩

end Passes

end NasFirmware.Bluetooth
