import NasFirmware.Igmp.Settled
import NasFirmware.Lib.Trace

/-!
# Routable groups

The handlers of the records ignore groups that are not multicast addresses and the reserved block `224.0.0.0/24`. A
report of version 1 or 2 adds its group before a handler is called.

* **`routable_step_iff`**: the table stays routable exactly if they are met.
-/

namespace NasFirmware.Igmp

open Keyed

/-- Every group in the table is a multicast address and not a reserved one. -/
def Routable (st : State) : Prop := ∀ e ∈ st.mcpq, inMulticast e.grpAddr = true ∧ reserved e.grpAddr = false

/-- A report of version 1 or 2 is for a group that the handlers accept, or finds no free entries. -/
def Admits (st : State) : Event → Prop
  | .message (.report group _) => Acts group ∨ st.world.mcftFree = 0 ∨ st.world.mbrFree = 0
  | .message (.reportV3 _ _) | .message (.leave _ _) | .tick => True

section

variable {cfg : Config} {st : State} {group src : Addr} {P Q : McftEntry → Prop} {body : McftEntry → World → Outcome}
  {event : Event}

theorem Turns.and_grpAddr (h : Turns P Q body) (A : Addr → Prop) :
    Turns (fun e => P e ∧ A e.grpAddr) (fun e => Q e ∧ A e.grpAddr) body := by
  rintro e w ⟨hP, hA⟩
  obtain ⟨hgrp, hQ⟩ := h e w hP
  refine ⟨hgrp, fun hkeep => ⟨hQ hkeep, ?_⟩⟩
  rw [hgrp]
  exact hA

theorem Stable.and_grpAddr (h : Stable cfg P) (A : Addr → Prop) : Stable cfg fun e => P e ∧ A e.grpAddr where
  record type src sources := (h.record type src sources).and_grpAddr A
  reported := h.reported.and_grpAddr A
  ver := h.ver.and_grpAddr A
  groupTimer := h.groupTimer.and_grpAddr A
  srcTimer := h.srcTimer.and_grpAddr A

theorem Every.and_grpAddr_iff (h : Every P st) {A : Addr → Prop} :
    Every (fun e => P e ∧ A e.grpAddr) st ↔ ∀ e ∈ st.mcpq, A e.grpAddr := by
  refine ⟨fun hA e he => (hA.of_mem he).2, fun hA => ⟨h.distinct, fun g e hget => ⟨h.all g e hget, ?_⟩⟩⟩
  exact hA e (mem_of_get hget).1

variable (hget : getMcft st group = none)

include hget

theorem addReported_of_none : addReported cfg st group src =
    if (addMcft st group src).1 then (true, apply (addMcft st group src).2 group (startReported cfg))
    else (false, (addMcft st group src).2) := by
  unfold addReported
  rw [hget]
  rfl

/-- A report for a new group that the handlers do not look at: the group is in the table then. -/
theorem getMcft_report (hno : ¬ Acts group) (hmcft : st.world.mcftFree ≠ 0)
    (hmbr : st.world.mbrFree ≠ 0) : ∃ e, getMcft (igmpv3Accept cfg st (.report group src)) group = some e := by
  have hok : (addMcft st group src).1 = true := by
    unfold addMcft
    rw [if_neg hmcft, if_neg hmbr]
  have hstart : getMcft (apply (addMcft st group src).2 group (startReported cfg)) group = _ :=
    (getMcft_apply (getMcft_addMcft hok) rfl rfl).trans (if_pos rfl)
  have hver : getMcft (apply (apply (addMcft st group src).2 group (startReported cfg)) group setVer2) group = _ :=
    (getMcft_apply hstart rfl rfl).trans (if_pos rfl)
  refine ⟨_, Eq.trans ?_ hver⟩
  unfold igmpv3Accept
  dsimp only
  rw [addReported_of_none hget, if_pos hok]
  exact congrArg (getMcft · group) (onGroup_of_not_acts hno)

theorem mcpq_report_of_full
    (hfull : st.world.mcftFree = 0 ∨ st.world.mbrFree = 0) :
    (igmpv3Accept cfg st (.report group src)).mcpq = st.mcpq := by
  obtain ⟨hok, hmcpq⟩ : (addMcft st group src).1 = false ∧ (addMcft st group src).2.mcpq = st.mcpq := by
    unfold addMcft
    split_ifs with hmcft hmbr
    · exact ⟨rfl, rfl⟩
    · exact ⟨rfl, rfl⟩
    · exact absurd hfull (not_or.mpr ⟨hmcft, hmbr⟩)
  unfold igmpv3Accept
  dsimp only
  rw [addReported_of_none hget, hok]
  exact hmcpq

omit hget

variable (cfg) in
/-- **One step.** -/
theorem routable_step_iff (h : Every Wf st) (hroutable : Routable st) :
    Routable (step cfg st event) ↔ Admits st event := by
  have hboth : Every (fun e => Wf e ∧ Acts e.grpAddr) st := h.and_grpAddr_iff.mpr hroutable
  have hstable : Stable cfg fun e => Wf e ∧ Acts e.grpAddr := stable_wf.and_grpAddr Acts
  have hnew : ∀ group src, inMulticast group = true → reserved group = false →
      Wf (newEntry group src) ∧ Acts (newEntry group src).grpAddr :=
    fun group src hmulti hres => ⟨wf_newEntry group src, hmulti, hres⟩
  have haccept : ∀ m, (∀ group src, m = .report group src → Acts group) → Routable (igmpv3Accept cfg st m) := by
    intro m hreport e he
    exact ((every_accept hstable hboth hnew fun group src heq _ =>
      hnew group src (hreport group src heq).1 (hreport group src heq).2).of_mem he).2
  cases event with
  | tick => exact iff_of_true (fun e he => ((every_tick hstable hboth).of_mem he).2) trivial
  | message m =>
    cases m with
    | reportV3 src records => exact iff_of_true (haccept _ fun _ _ h => nomatch h) trivial
    | leave group src => exact iff_of_true (haccept _ fun _ _ h => nomatch h) trivial
    | report group src =>
      by_cases hacts : Acts group
      · refine iff_of_true (haccept _ fun group' src' heq => ?_) (.inl hacts)
        cases heq
        exact hacts
      -- the group is not in the table yet, and comes into it if it can
      have hget : getMcft st group = none := by
        refine get_eq_none_iff.mpr fun hmem => hacts ?_
        obtain ⟨e, he, rfl⟩ := List.mem_map.mp hmem
        exact hroutable e he
      by_cases hfull : st.world.mcftFree = 0 ∨ st.world.mbrFree = 0
      · refine iff_of_true (fun e he => hroutable e ?_) (.inr hfull)
        rwa [step, mcpq_report_of_full hget hfull] at he
      · rw [not_or] at hfull
        obtain ⟨e, he⟩ := @getMcft_report cfg st group src hget hacts hfull.1 hfull.2
        obtain ⟨hmem, hgrp⟩ := mem_of_get he
        refine iff_of_false (fun hall => hacts ?_) fun hd => hd.elim hacts (not_or.mpr hfull)
        rw [← hgrp]
        exact hall e hmem

end

/-- **Which runs track routable groups only.** -/
theorem run_routable_iff (cfg : Config) (events : List Event) :
    (∀ k, Routable (run cfg (events.take k))) ↔
      ∀ k event, events[k]? = some event → Admits (run cfg (events.take k)) event :=
  Trace.always_iff run_wf nofun (fun _ _ h hroutable => routable_step_iff cfg h hroutable) events

theorem reported_routable :
    ∀ k, Routable (run plainConfig ([Event.message (.report 0xef010203 0xc0a80102), .tick].take k)) := by
  refine (run_routable_iff plainConfig _).mpr fun k event hk => ?_
  match k with
  | 0 =>
    cases hk
    exact .inl ⟨by decide, by decide⟩
  | 1 =>
    cases hk
    exact trivial
  | k + 2 => cases hk

/-- **A reserved group that is tracked.** A host of version 2 reports `224.0.0.9`. -/
theorem reserved_tracked : ∃ e ∈ (run plainConfig [.message (.report 0xe0000009 0xc0a80102)]).mcpq,
    e.grpAddr = 0xe0000009 ∧ reserved e.grpAddr = true := by
  decide

end NasFirmware.Igmp
