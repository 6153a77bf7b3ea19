import NasFirmware.Igmp.Bookkeeping
import NasFirmware.Lib.Trace

/-!
# Timers and their groups

A timer is meant for a group in the list: `del_mcft` stops it before the entry is given back. `del_group_and_src` starts
it again after that.
-/

namespace NasFirmware.Igmp.Plain

open Keyed

/-! ## Single actions -/

/-- What a packet asks for, and the timers. A report of the state of a group counts only if the group is known. -/
inductive Action where
  | join (group src : Addr)
  | renew (group src : Addr)
  | leave (group src : Addr)
  | expire (i : Fin maxMfctEntry)

section

local instance lawfulIndex : LawfulBEq (Fin maxMfctEntry) := inferInstance

def act (st : State) : Action → State
  | .join group src => addGroupAndSrc st group src
  | .renew group src => if (getMcft st group).isSome then addGroupAndSrc st group src else st
  | .leave group src => delGroupAndSrc st group src
  | .expire i => if i ∈ st.callout then igmpSpecificTimerExpired st i else st

end

def recordActions (src : Addr) (r : Record) : List Action :=
  if r.group = allPrinter then []
  else
    match r.type with
    | .modeIsInclude | .modeIsExclude => [.renew r.group src]
    | .changeToInclude => if r.sources.length ≠ 0 then [.join r.group src] else [.leave r.group src]
    | .changeToExclude => [.join r.group src]
    | .allowNewSources | .blockOldSources => []

def Event.actions : Event → List Action
  | .packet (.report group src) => [.join group src]
  | .packet (.reportV3 src records) => records.flatMap (recordActions src)
  | .packet (.leave group src) => [.leave group src]
  | .expire i => [.expire i]

def perform (actions : List Action) : State := actions.foldl act init

theorem acceptRecord_eq (src : Addr) (st : State) (r : Record) :
    acceptRecord src st r = (recordActions src r).foldl act st := by
  unfold acceptRecord recordActions
  by_cases hprinter : r.group = allPrinter
  · rw [if_pos hprinter, if_pos hprinter]
    rfl
  rw [if_neg hprinter, if_neg hprinter]
  cases r.type with
  | changeToInclude =>
    split_ifs <;> rfl
  | modeIsInclude | modeIsExclude | changeToExclude | allowNewSources | blockOldSources => rfl

theorem step_eq (st : State) (event : Event) : step st event = event.actions.foldl act st := by
  cases event with
  | packet m =>
    cases m with
    | report group src => rfl
    | leave group src => rfl
    | reportV3 src records =>
      change records.foldl (acceptRecord src) st = (records.flatMap (recordActions src)).foldl act st
      rw [List.foldl_flatMap]
      simp [← acceptRecord_eq]
  | expire i => rfl

/-- **A run, action by action.** -/
theorem run_eq_perform (events : List Event) : run events = perform (events.flatMap Event.actions) := by
  unfold run perform
  rw [List.foldl_flatMap]
  simp [← step_eq]

section

variable {st : State} {i : Fin maxMfctEntry} {group src : Addr}

theorem inv_act (h : Inv st) (a : Action) : Inv (act st a) := by
  cases a with
  | join group src => exact inv_addGroupAndSrc h
  | renew group src =>
    unfold act
    dsimp only
    split_ifs
    · exact inv_addGroupAndSrc h
    · exact h
  | leave group src => exact inv_delGroupAndSrc h
  | expire i =>
    unfold act
    dsimp only
    split_ifs with hi
    · exact inv_igmpSpecificTimerExpired h hi
    · exact h

theorem perform_inv (actions : List Action) : Inv (perform actions) :=
  List.foldlRecOn _ _ inv_init fun _ h a _ => inv_act h a

/-! ## The timers of the groups -/

/-- Every timer that runs belongs to a group in the list. -/
def Timed (st : State) : Prop := ∀ i ∈ st.callout, i ∈ st.mcpq

/-- A leave from the only member of a group. -/
def Last (st : State) (group src : Addr) : Prop :=
  inMulticast group = true ∧ ∃ i, getMcft st group = some i ∧ st.members i = [src]

theorem mem_timeout (st : State) (i : Fin maxMfctEntry) : i ∈ (timeout st i).callout := by
  unfold timeout
  split_ifs with h
  · exact h
  · exact List.mem_cons_self

theorem mcpq_timeout (st : State) (i : Fin maxMfctEntry) : (timeout st i).mcpq = st.mcpq := by
  unfold timeout
  split_ifs <;> rfl

theorem timed_timeout (h : Timed st) (hi : i ∈ st.mcpq) : Timed (timeout st i) := by
  unfold timeout
  split_ifs
  · exact h
  · intro k hk
    rcases List.mem_cons.mp hk with rfl | hk
    · exact hi
    · exact h k hk

theorem timed_untimeout (h : Timed st) (i : Fin maxMfctEntry) : Timed (untimeout st i) :=
  fun k hk => h k (List.mem_of_mem_erase hk)

theorem callout_addUser (st : State) (i : Fin maxMfctEntry) (src : Addr) :
    (addUser st i src).2.callout = st.callout ∧ (addUser st i src).2.mcpq = st.mcpq := by
  obtain ⟨-, heq⟩ | ⟨j, -, -, heq⟩ := addUser_cases st i src
  · rw [heq]
    exact ⟨rfl, rfl⟩
  · rw [heq]
    exact ⟨rfl, rfl⟩

theorem callout_delUser (st : State) (i : Fin maxMfctEntry) (src : Addr) :
    (delUser st i src).2.callout = st.callout ∧ (delUser st i src).2.mcpq = st.mcpq := by
  obtain heq | ⟨j, -, heq⟩ := delUser_cases st i src
  · rw [heq]
    exact ⟨rfl, rfl⟩
  · rw [heq]
    exact ⟨rfl, rfl⟩

theorem timed_dropGroup (h : Books st) (ht : Timed st) (hi : i ∈ st.mcpq) : Timed (dropGroup st (st.grp i)) := by
  intro k hk
  have hcall : k ∈ st.callout.erase i := by
    rw [dropGroup_eq h hi] at hk
    exact hk
  obtain ⟨hki, hcall⟩ := h.once.mem_erase_iff.mp hcall
  exact (mem_dropGroup h hi).mpr ⟨ht k hcall, hki⟩

theorem timed_addGroupAndSrc (ht : Timed st) : Timed (addGroupAndSrc st group src) := by
  unfold addGroupAndSrc
  split_ifs
  · exact ht
  · exact ht
  cases hget : getMcft st group with
  | none =>
    obtain ⟨-, heq⟩ | ⟨i, -, -, heq⟩ | ⟨i, j, -, -, heq⟩ := addMcft_cases st group src
    · rw [heq]
      exact ht
    · rw [heq]
      exact ht
    · rw [heq]
      exact timed_timeout (fun k hk => List.mem_cons_of_mem i (ht k hk)) List.mem_cons_self
  | some i =>
    obtain ⟨hcall, hq⟩ := callout_addUser (untimeout st i) i src
    refine timed_timeout (fun k hk => ?_) ?_
    · change k ∈ (addUser (untimeout st i) i src).2.mcpq
      rw [hq]
      exact timed_untimeout ht i k (hcall ▸ hk)
    · change i ∈ (addUser (untimeout st i) i src).2.mcpq
      rw [hq]
      exact (mem_of_getMcft hget).1

theorem delUser_eq_zero_iff (h : Inv st) (hi : i ∈ st.mcpq) : (delUser st i src).1 = 0 ↔ st.members i = [src] := by
  have hcount := h.userCount_eq hi
  have hpos : 0 < (st.entry i).grpMbr.length := List.length_pos_of_ne_nil (h.nonempty i hi)
  have hlen : (st.members i).length = (st.entry i).grpMbr.length := List.length_map _
  cases hget : Keyed.get st.userAddr src (st.entry i).grpMbr with
  | none =>
    have heq : (delUser st i src).1 = (st.entry i).userCount := by
      unfold delUser
      rw [hget]
    refine iff_of_false (fun hzero => ?_) fun hmem => get_eq_none_iff.mp hget ?_
    · rw [heq.symm.trans hzero] at hcount
      exact absurd hcount hpos.ne
    · change src ∈ st.members i
      rw [hmem]
      exact List.mem_singleton_self src
  | some j =>
    have heq : (delUser st i src).1 = (st.entry i).userCount - 1 := by
      unfold delUser
      rw [hget]
    obtain ⟨hj, hsrc⟩ := mem_of_get hget
    have hin : src ∈ st.members i := List.mem_map.mpr ⟨j, hj, hsrc⟩
    have hone : (st.entry i).userCount - 1 = 0 ↔ (st.entry i).userCount = 1 := by
      refine ⟨fun hzero => ?_, fun hone => by rw [hone]; rfl⟩
      rw [← UInt32.sub_add_cancel (st.entry i).userCount 1, hzero]
      rfl
    rw [heq, hone, ← UInt32.toNat_inj, hcount, ← hlen]
    constructor
    · intro hone
      obtain ⟨a, ha⟩ := List.length_eq_one_iff.mp hone
      rw [ha] at hin ⊢
      rw [List.mem_singleton.mp hin]
    · intro hmem
      rw [hmem]
      rfl

/-- A leave. The timer is started at the end, whether the group is there or not. -/
theorem timed_delGroupAndSrc_iff (h : Inv st) (ht : Timed st) :
    Timed (delGroupAndSrc st group src) ↔ ¬ Last st group src := by
  unfold delGroupAndSrc Last
  cases hmulti : inMulticast group with
  | false => exact iff_of_true ht fun hl => Bool.false_ne_true hl.1
  | true =>
    cases hget : getMcft st group with
    | none => exact iff_of_true ht fun ⟨_, _, hi, _⟩ => nomatch hi
    | some i =>
      have hi := (mem_of_getMcft hget).1
      have hzero := @delUser_eq_zero_iff st i src h hi
      have hbooks := (books_delUser h.toBooks hi src).1
      obtain ⟨hcall, hq⟩ := callout_delUser st i src
      dsimp only
      generalize delUser st i src = x at hzero hbooks hcall hq
      obtain ⟨count, st₁⟩ := x
      dsimp only at hzero hbooks hcall hq ⊢
      have hi₁ : i ∈ st₁.mcpq := hq ▸ hi
      by_cases hlast : st.members i = [src]
      · rw [if_pos (hzero.mpr hlast)]
        refine iff_of_false (fun hall => ?_) (not_not.mpr ⟨rfl, i, rfl, hlast⟩)
        have hin := hall i (mem_timeout _ i)
        change i ∈ (timeout _ i).mcpq at hin
        rw [mcpq_timeout] at hin
        exact ((mem_dropGroup hbooks hi₁).mp hin).2 rfl
      · rw [if_neg fun hz => hlast (hzero.mp hz)]
        refine iff_of_true (timed_timeout (fun k hk => ?_) hi₁) ?_
        · exact hq ▸ ht k (hcall ▸ hk)
        · rintro ⟨-, k, hk, hmem⟩
          cases hk
          exact hlast hmem

theorem timed_igmpSpecificTimerExpired (h : Inv st) (ht : Timed st) (hi : i ∈ st.callout) :
    Timed (igmpSpecificTimerExpired st i) := by
  unfold igmpSpecificTimerExpired
  have hin : i ∈ (setRetryLeft st i ((st.entry i).retryLeft - 1)).mcpq := ht i hi
  have hset := same_setRetryLeft st i ((st.entry i).retryLeft - 1)
  have h := h.same hset
  have ht : Timed (setRetryLeft st i ((st.entry i).retryLeft - 1)) := ht
  dsimp only
  split_ifs
  · exact timed_untimeout (timed_dropGroup h.toBooks ht hin) i
  · exact timed_untimeout ht i
  · exact timed_timeout ht hin

/-- **One action.** -/
theorem timed_act_iff (h : Inv st) (ht : Timed st) (a : Action) :
    Timed (act st a) ↔ ∀ group src, a = .leave group src → ¬ Last st group src := by
  cases a with
  | join group src => exact iff_of_true (timed_addGroupAndSrc ht) fun _ _ heq => nomatch heq
  | renew group src =>
    refine iff_of_true ?_ fun _ _ heq => nomatch heq
    unfold act
    dsimp only
    split_ifs
    · exact timed_addGroupAndSrc ht
    · exact ht
  | leave group src =>
    refine (timed_delGroupAndSrc_iff h ht).trans ⟨fun hnot group' src' heq => ?_, fun hall => hall group src rfl⟩
    cases heq
    exact hnot
  | expire i =>
    refine iff_of_true ?_ fun _ _ heq => nomatch heq
    unfold act
    dsimp only
    split_ifs with hi
    · exact timed_igmpSpecificTimerExpired h ht hi
    · exact ht

end

/-- **Which runs keep the timers with their groups.** In every state of a run, the timers that run belong to groups in
the list, exactly if no leave of the run comes from the only member of its group. -/
theorem perform_timed_iff (events : List Event) :
    (∀ k, Timed (perform ((events.flatMap Event.actions).take k))) ↔
      ∀ k group src, (events.flatMap Event.actions)[k]? = some (.leave group src) →
        ¬ Last (perform ((events.flatMap Event.actions).take k)) group src := by
  refine (Trace.always_iff perform_inv nofun (fun s a h ht => timed_act_iff h ht a) _).trans ?_
  refine ⟨fun hall k group src hk => hall k _ hk group src rfl, fun hall k a hk group src heq => ?_⟩
  exact hall k group src (heq ▸ hk)

/-- **A timer without a group.** The only member of `239.1.2.3` leaves. -/
theorem last_leave_timer : ¬ ∀ events : List Event, Timed (run events) := by
  intro hall
  have htimed := hall [.packet (.report 0xef010203 0xc0a80102), .packet (.leave 0xef010203 0xc0a80102)]
  exact absurd (htimed 0 (by decide +kernel)) (by decide +kernel)

end NasFirmware.Igmp.Plain
