import NasFirmware.Bluetooth.Accounting
import NasFirmware.Lib.Trace

/-!
# The list of connections and the controller

A handle has twelve bits, and the driver enters a connection under all of them, but looks for one with the mask
`0xEFF`, which leaves bit 8 out. A connection whose handle has bit 8 set is never found again.
-/

namespace NasFirmware.Bluetooth

open Coex

/-! ## Events -/

inductive LinkEvent where
  | connection (handle : Fin 0x1000) (linkType : UInt8)
  | leConnection (handle : Fin 0x1000) (interval : UInt16)
  | disconnection (handle : Fin 0x1000)
  deriving DecidableEq, Repr

namespace LinkEvent

def toEvent : LinkEvent → Event
  | connection handle linkType => .connectionComplete 0 handle linkType.toNat
  | leConnection handle interval => .leConnectionComplete 0 handle interval.toNat
  | disconnection handle => .disconnectComplete 0 handle

def handle : LinkEvent → Nat
  | connection handle _ | leConnection handle _ | disconnection handle => handle

def Connects : LinkEvent → Prop
  | connection .. | leConnection .. => True
  | disconnection _ => False

instance : DecidablePred Connects
  | connection .. | leConnection .. => .isTrue trivial
  | disconnection _ => .isFalse id

end LinkEvent

def linkRun (events : List LinkEvent) : Coex := run init (events.map LinkEvent.toEvent)

/-- The latest event of the handle made a connection. -/
def Live (events : List LinkEvent) (handle : Nat) : Prop :=
  ∃ e, (events.filter fun e => e.handle = handle).getLast? = some e ∧ e.Connects

instance {events : List LinkEvent} {handle : Nat} : Decidable (Live events handle) :=
  match h : (events.filter fun e => e.handle = handle).getLast? with
  | none => .isFalse fun ⟨_, he, _⟩ => nomatch h.symm.trans he
  | some e => decidable_of_iff e.Connects
      ⟨fun hc => ⟨e, h, hc⟩, fun ⟨_, he, hc⟩ => Option.some.inj (h.symm.trans he) ▸ hc⟩

/-! ## Handles -/

def Coex.handles (s : Coex) : List Nat := s.connHash.map Conn.handle

section Handles

variable {s : Coex} {handle : Nat} {gc : Counts × Conn}

theorem findConnection_isNone_iff : s.findConnectionByHandle handle = none ↔ handle &&& 0xEFF ∉ s.handles :=
  Keyed.get_eq_none_iff

theorem handles_putConnection {c : Conn} (hc : s.findConnectionByHandle handle = some c)
    (hgc : gc.2.handle = c.handle) : (s.putConnection handle gc).handles = s.handles :=
  Keyed.map_modify fun _ _ => hgc.trans (Keyed.mem_of_get hc).2

theorem handles_updateHidActiveState (interval : Nat) :
    (s.updateHidActiveState handle interval).handles = s.handles := by
  unfold updateHidActiveState
  cases hc : s.findConnectionByHandle handle with
  | none => rfl
  | some c => exact handles_putConnection hc hidActive_conn.2.1

theorem handles_enter (hgc : gc.2.handle = (s.findConnectionByHandle handle).elim handle Conn.handle) :
    (s.enter handle gc).handles = if handle &&& 0xEFF ∈ s.handles then s.handles else s.handles ++ [handle] := by
  unfold enter
  cases hc : s.findConnectionByHandle handle with
  | none =>
    rw [if_neg (findConnection_isNone_iff.mp hc)]
    rw [hc] at hgc
    change List.map _ (_ ++ [_]) = _
    rw [List.map_append, List.map_singleton, hgc]
    rfl
  | some c =>
    have hmem : handle &&& 0xEFF ∈ s.handles := by
      by_contra hnot
      rw [findConnection_isNone_iff.mpr hnot] at hc
      cases hc
    rw [if_pos hmem]
    rw [hc] at hgc
    exact handles_putConnection hc hgc

theorem handles_disconnect :
    (s.rtkHandleDisconnectCompleteEvt 0 handle).handles = s.handles.erase (handle &&& 0xEFF) := by
  rw [rtkHandleDisconnectCompleteEvt, if_pos rfl]
  cases hc : s.findConnectionByHandle handle with
  | none => exact (List.erase_of_not_mem (findConnection_isNone_iff.mp hc)).symm
  | some c => exact Keyed.map_remove

/-- **One event.** -/
theorem handles_step (e : LinkEvent) :
    (step s e.toEvent).handles =
      if e.Connects then if e.handle &&& 0xEFF ∈ s.handles then s.handles else s.handles ++ [e.handle]
      else s.handles.erase (e.handle &&& 0xEFF) := by
  cases e with
  | connection handle linkType =>
    change (s.rtkHandleConnectionCompleteEvt 0 handle _).handles = ite True _ _
    rw [if_pos trivial, rtkHandleConnectionCompleteEvt, if_pos rfl]
    by_cases hsco : linkType.toNat = 0 ∨ linkType.toNat = 2
    · rw [if_pos hsco]
      exact handles_enter (update_handle true)
    · rw [if_neg hsco]
      exact handles_enter rfl
  | leConnection handle interval =>
    change (s.rtkHandleLeConnectionCompleteEvt 0 handle _).handles = ite True _ _
    rw [if_pos trivial, rtkHandleLeConnectionCompleteEvt, if_pos rfl, handles_updateHidActiveState]
    exact handles_enter (update_handle true)
  | disconnection handle => exact handles_disconnect

end Handles

/-! ## Runs -/

theorem linkRun_append (p : List LinkEvent) (e : LinkEvent) : linkRun (p ++ [e]) = step (linkRun p) e.toEvent := by
  rw [linkRun, List.map_append, run, List.foldl_append]
  rfl

variable {p : List LinkEvent} {e : LinkEvent} {h : Nat}

theorem live_append :
    Live (p ++ [e]) h ↔ if h = e.handle then e.Connects else Live p h := by
  unfold Live
  rw [List.filter_append]
  by_cases heq : e.handle = h
  · rw [List.filter_cons_of_pos (by simpa using heq), List.filter_nil, List.getLast?_concat, if_pos heq.symm]
    simp
  · rw [List.filter_cons_of_neg (by simpa using heq), List.filter_nil, List.append_nil, if_neg (Ne.symm heq)]

theorem live_append_self : Live (p ++ [e]) e.handle ↔ e.Connects := by
  rw [live_append, if_pos rfl]

theorem live_append_of_ne (hne : h ≠ e.handle) :
    Live (p ++ [e]) h ↔ Live p h := by
  rw [live_append, if_neg hne]

/-- The handles in the list are distinct, and are those of the live links. -/
def Follows (events : List LinkEvent) : Prop :=
  (linkRun events).handles.Nodup ∧ ∀ h, h ∈ (linkRun events).handles ↔ Live events h

/-- The mask does not confuse the event's handle: the handle looked for is live exactly if the event's own is, when a
connection is made; it is the event's own, or neither is live, when one ends. -/
def Told (before : List LinkEvent) (e : LinkEvent) : Prop :=
  if e.Connects then Live before (e.handle &&& 0xEFF) ↔ Live before e.handle
  else e.handle &&& 0xEFF = e.handle ∨ ¬ Live before (e.handle &&& 0xEFF) ∧ ¬ Live before e.handle

section Step

variable {p : List LinkEvent} {e : LinkEvent}

theorem follows_connects_iff (hp : Follows p) (he : e.Connects) : Follows (p ++ [e]) ↔ Told p e := by
  obtain ⟨hnodup, hmem⟩ := hp
  rw [Told, if_pos he, Follows, linkRun_append, handles_step, if_pos he, ← hmem, ← hmem]
  simp only [live_append]
  by_cases hfound : e.handle &&& 0xEFF ∈ (linkRun p).handles
  · -- the connection found is taken for this one
    rw [if_pos hfound, iff_true_left hfound]
    constructor
    · intro h
      rw [h.2, if_pos rfl]
      exact he
    · refine fun h => ⟨hnodup, fun k => ?_⟩
      split_ifs with hk
      · exact iff_of_true (hk ▸ h) he
      · exact hmem k
  · rw [if_neg hfound, iff_false_left hfound]
    constructor
    · intro h hin
      exact (List.nodup_append.mp h.1).2.2 _ hin _ (List.mem_singleton_self _) rfl
    · refine fun h => ⟨List.nodup_append_comm.mp (List.nodup_cons.mpr ⟨h, hnodup⟩), fun k => ?_⟩
      rw [List.mem_append, List.mem_singleton]
      split_ifs with hk
      · exact iff_of_true (.inr hk) he
      · rw [or_iff_left hk, hmem]

theorem follows_disconnects_iff (hp : Follows p) (he : ¬ e.Connects) : Follows (p ++ [e]) ↔ Told p e := by
  obtain ⟨hnodup, hmem⟩ := hp
  rw [Told, if_neg he, Follows, linkRun_append, handles_step, if_neg he, and_iff_right (hnodup.erase _), ← hmem, ← hmem]
  simp only [live_append, hnodup.mem_erase_iff, ← hmem]
  constructor
  · intro h
    by_cases heq : e.handle &&& 0xEFF = e.handle
    · exact .inl heq
    · have hmask := h (e.handle &&& 0xEFF)
      have hown := h e.handle
      rw [if_neg heq] at hmask
      rw [if_pos rfl] at hown
      exact .inr ⟨fun hin => (hmask.mpr hin).1 rfl, fun hin => he (hown.mp ⟨Ne.symm heq, hin⟩)⟩
  · intro h k
    split_ifs with hk
    · subst hk
      refine iff_of_false (fun hk => ?_) he
      rcases h with heq | ⟨-, hown⟩
      · exact hk.1 heq.symm
      · exact hown hk.2
    · refine ⟨And.right, fun hin => ⟨?_, hin⟩⟩
      rintro rfl
      rcases h with heq | ⟨hmask, -⟩
      · exact hk heq
      · exact hmask hin

theorem follows_append_iff (hp : Follows p) : Follows (p ++ [e]) ↔ Told p e := by
  by_cases he : e.Connects
  · exact follows_connects_iff hp he
  · exact follows_disconnects_iff hp he

end Step

/-- Over the whole run the list is right; in particular a disconnection takes the record of its handle, and no other. -/
structure Faithful (events : List LinkEvent) : Prop where
  follows : ∀ k, Follows (events.take k)
  gone : ∀ (k : Nat) (h : Fin 0x1000), events[k]? = some (.disconnection h) → (h : Nat) ∉ (linkRun (events.take (k + 1))).handles
  kept : ∀ (k : Nat) (h : Fin 0x1000), events[k]? = some (.disconnection h) → ∀ j ∈ (linkRun (events.take k)).handles,
    j ≠ h → j ∈ (linkRun (events.take (k + 1))).handles

theorem faithful_of_follows {events : List LinkEvent} (h : ∀ k, Follows (events.take k)) : Faithful events where
  follows := h
  gone k j hk := by
    rw [(h (k + 1)).2, Trace.take_succ hk]
    exact mt live_append_self.mp id
  kept k j hk i hi hne := by
    rw [(h (k + 1)).2, Trace.take_succ hk]
    exact (live_append_of_ne hne).mpr (((h k).2 i).mp hi)

def bitEightRun : List LinkEvent := [.connection 0x100 1, .disconnection 0x100]

end NasFirmware.Bluetooth
