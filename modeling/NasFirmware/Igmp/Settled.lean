import NasFirmware.Igmp.Runs

/-!
# The route for all sources

A group in `EXCLUDE` mode forwards all sources while none of its timers runs. `mrt_state` says so after every second.

* **`settled_srcTimer`**: what holds of a group that `handle_src_timer` has looked at;
* **`run_settled`**: the groups after every second of every run.
-/

namespace NasFirmware.Igmp

open Keyed

/-- A group after a second: if it excludes sources, its own timer runs, and all sources are forwarded if no timer of
theirs runs; if it includes sources, it has some, and their timers run. -/
structure Settled (e : McftEntry) : Prop where
  mrtState : e.mrtState = true ↔ e.filterMode = .mcastExclude ∧ ¬ ∃ s ∈ e.srclist, 0 < s.timer.lefttime
  included : e.filterMode = .mcastInclude → e.srclist ≠ [] ∧ ∀ s ∈ e.srclist, 0 < s.timer.lefttime
  excluded : e.filterMode = .mcastExclude → 0 < e.timer.lefttime

/-- A source that `handle_src_timer` has looked at, in a group with this mode and state. -/
structure Swept (mode : FilterMode) (mrtState : Bool) (s : SrcEntry) : Prop where
  running : mode = .mcastInclude → 0 < s.timer.lefttime
  stopped : 0 < s.timer.lefttime → mrtState = false

variable {cfg : Config}

section Timers

variable {e : McftEntry} {w : World} {x : SrcEntry} {rest : List SrcEntry}

theorem groupTimer_grpAddr : (groupTimer cfg e w).entry.grpAddr = e.grpAddr := by
  unfold groupTimer
  dsimp only
  generalize (if e.timer.tick.2 then w.query (.igmp e.grpAddr) else w) = w'
  split_ifs
  · rfl
  · rfl
  · exact stopAll_frame.1
  · rfl

theorem wf_groupTimer (h : Wf e) (hkeep : (groupTimer cfg e w).drop = false) : Wf (groupTimer cfg e w).entry := by
  unfold groupTimer at hkeep ⊢
  split_ifs with hzero
  · exact h
  dsimp only at hkeep ⊢
  generalize (if e.timer.tick.2 then w.query (.igmp e.grpAddr) else w) = w' at hkeep ⊢
  split_ifs at hkeep ⊢ with hout hsrcs
  · -- what is left of an `EXCLUDE` group that has run out
    have hdist : DistinctSrcs (e.srclist.foldl (expirePass cfg e.grpAddr) (e.srclist, w')).1 := by
      rw [expirePass, foldl_deletePass_fst]
      exact h.distinct.foldl_del
    exact ⟨hdist, fun _ => (running_iff hdist).mpr (status_expired h.distinct), by rintro ⟨⟩, h.users⟩
  · exact ⟨h.distinct, h.running, fun hmode => Nat.pos_of_ne_zero fun hleft => hout ⟨hmode, hleft⟩, h.users⟩

/-! ## The timers of its sources -/

theorem stopAll_eq : (stopAll cfg e w).1 = { e with mrtState := false } := by
  unfold stopAll
  split_ifs with hmrt
  · rfl
  · rw [← Bool.eq_false_iff.mpr hmrt]

theorem forwardAll_eq : (forwardAll cfg e w).1 = { e with mrtState := true } := by
  unfold forwardAll
  split_ifs with hmrt
  · rw [← hmrt]
  · rfl

theorem get_setTimer {l : List SrcEntry} {s s' : Addr} {t : Timer} : get SrcEntry.srcaddr s' (setTimer l s t) =
    if s' = s then (get SrcEntry.srcaddr s l).map fun y => { y with timer := t } else get SrcEntry.srcaddr s' l :=
  get_modify fun _ h => h

variable (cfg w) in
theorem srcPass_eq (hl : DistinctSrcs e.srclist) (hx : get SrcEntry.srcaddr x.srcaddr e.srclist = some x)
    (hrun : e.filterMode = .mcastInclude → 0 < x.timer.lefttime) :
    ∃ l m, (srcPass cfg (e, w) x).1 = { e with srclist := l, mrtState := m } ∧ DistinctSrcs l ∧
      (e.mrtState = false → m = false) ∧
      (∀ s, s ≠ x.srcaddr → get SrcEntry.srcaddr s l = get SrcEntry.srcaddr s e.srclist) ∧
      ∀ y, get SrcEntry.srcaddr x.srcaddr l = some y → Swept e.filterMode m y := by
  unfold srcPass
  dsimp only
  by_cases hzero : x.timer.lefttime = 0
  · refine ⟨e.srclist, e.mrtState, by rw [if_pos hzero], hl, id, fun _ _ => rfl, fun y hy => ?_⟩
    cases hx.symm.trans hy
    exact ⟨hrun, fun hpos => absurd hpos (by omega)⟩
  rw [if_neg hzero]
  generalize x.timer.tick = t
  have hset : ∀ s, s ≠ x.srcaddr →
      get SrcEntry.srcaddr s (setTimer e.srclist x.srcaddr t.1) = get SrcEntry.srcaddr s e.srclist :=
    fun s hs => get_setTimer.trans (if_neg hs)
  have hself : get SrcEntry.srcaddr x.srcaddr (setTimer e.srclist x.srcaddr t.1) = some { x with timer := t.1 } := by
    rw [get_setTimer, if_pos rfl, hx]
    rfl
  by_cases hleft : t.1.lefttime = 0
  · rw [if_neg (not_not.mpr hleft)]
    cases hmode : e.filterMode with
    | mcastInclude =>
      refine ⟨_, e.mrtState, rfl, hl.setTimer.del, id, fun s hs => ?_, fun y hy => ?_⟩
      · rw [delFromSrclist, get_remove hl.setTimer, if_neg hs, hset s hs]
      · rw [delFromSrclist, get_remove hl.setTimer, if_pos rfl] at hy
        cases hy
    | mcastExclude =>
      refine ⟨_, e.mrtState, rfl, hl.setTimer, id, hset, fun y hy => ?_⟩
      cases hself.symm.trans hy
      exact ⟨by rintro ⟨⟩, fun hpos => absurd hpos (by simp [hleft])⟩
  · rw [if_pos hleft]
    refine ⟨_, false, stopAll_eq, hl.setTimer, fun _ => rfl, hset, fun y hy => ?_⟩
    cases hself.symm.trans hy
    exact ⟨fun _ => Nat.pos_of_ne_zero hleft, fun _ => rfl⟩

variable (cfg) in
/-- **The loop over the sources.** The induction is on the sources that are still to come. -/
theorem foldl_srcPass_eq (hl : DistinctSrcs e.srclist) (hrest : DistinctSrcs rest)
    (hin : ∀ x ∈ rest, get SrcEntry.srcaddr x.srcaddr e.srclist = some x ∧
      (e.filterMode = .mcastInclude → 0 < x.timer.lefttime))
    (hdone : ∀ s y, s ∉ rest.map SrcEntry.srcaddr → get SrcEntry.srcaddr s e.srclist = some y →
      Swept e.filterMode e.mrtState y) :
    ∃ l m, (rest.foldl (srcPass cfg) (e, w)).1 = { e with srclist := l, mrtState := m } ∧ DistinctSrcs l ∧
      ∀ y ∈ l, Swept e.filterMode m y := by
  induction rest generalizing e w with
  | nil =>
    exact ⟨e.srclist, e.mrtState, rfl, hl, fun y hy => hdone y.srcaddr y List.not_mem_nil (hl.get_eq hy)⟩
  | cons x rest ih =>
    obtain ⟨hnot, hrest⟩ := List.nodup_cons.mp hrest
    obtain ⟨hx, hrun⟩ := hin x List.mem_cons_self
    obtain ⟨l₁, m₁, heq, hl₁, hmrt, hothers, hself⟩ := srcPass_eq cfg w hl hx hrun
    have hne : ∀ y ∈ rest, y.srcaddr ≠ x.srcaddr := fun y hy h => hnot (h ▸ List.mem_map_of_mem hy)
    obtain ⟨l, m, hfold, hl', hall⟩ := ih (e := { e with srclist := l₁, mrtState := m₁ })
      (w := (srcPass cfg (e, w) x).2) hl₁ hrest
      (fun y hy => by
        rw [hothers _ (hne y hy)]
        exact hin y (List.mem_cons_of_mem _ hy))
      fun s y hs hy => by
        by_cases heq : s = x.srcaddr
        · exact hself y (heq ▸ hy)
        · have hold := hdone s y (fun hmem => (List.mem_cons.mp hmem).elim heq hs) (hothers s heq ▸ hy)
          exact ⟨hold.running, fun hpos => hmrt (hold.stopped hpos)⟩
    refine ⟨l, m, ?_, hl', hall⟩
    rw [List.foldl_cons, ← hfold, ← heq]

/-- After the loop: an `INCLUDE` group without sources goes, and if no timer of an `EXCLUDE` group runs, all sources
are forwarded. -/
theorem srcTimer_eq {y : McftEntry} (hy : (e.srclist.foldl (srcPass cfg) (e, w)).1 = y) :
    (srcTimer cfg e w).entry.grpAddr = y.grpAddr ∧
      ((srcTimer cfg e w).drop = false → (y.filterMode = .mcastInclude → y.srclist ≠ []) ∧ (srcTimer cfg e w).entry =
        if y.filterMode = .mcastExclude ∧ y.srclist.all (·.timer.lefttime = 0) then { y with mrtState := true }
        else y) := by
  unfold srcTimer
  dsimp only
  rw [hy]
  generalize (e.srclist.foldl (srcPass cfg) (e, w)).2 = w'
  by_cases hnil : y.srclist = []
  · have hno : ¬ (y.filterMode = .mcastExclude ∧ y.srclist ≠ [] ∧ y.srclist.all (·.timer.lefttime = 0)) :=
      fun hd => hd.2.1 hnil
    rw [if_neg hno, if_pos hnil]
    cases hmode : y.filterMode with
    | mcastInclude => exact ⟨stopAll_frame.1, nofun⟩
    | mcastExclude =>
      refine ⟨forwardAll_frame.1, fun _ => ⟨nofun, ?_⟩⟩
      simp [forwardAll_eq, hnil, hmode]
  · by_cases hall : y.filterMode = .mcastExclude ∧ y.srclist.all (·.timer.lefttime = 0)
    · have hyes : y.filterMode = .mcastExclude ∧ y.srclist ≠ [] ∧ y.srclist.all (·.timer.lefttime = 0) :=
        ⟨hall.1, hnil, hall.2⟩
      have hlist : (forwardAll cfg y w').1.srclist ≠ [] := by
        rw [forwardAll_eq]
        exact hnil
      rw [if_pos hyes, if_neg hlist, if_pos hall]
      exact ⟨forwardAll_frame.1, fun _ => ⟨fun _ => hnil, forwardAll_eq⟩⟩
    · have hno : ¬ (y.filterMode = .mcastExclude ∧ y.srclist ≠ [] ∧ y.srclist.all (·.timer.lefttime = 0)) :=
        fun hd => hall ⟨hd.1, hd.2.2⟩
      rw [if_neg hno, if_neg hnil, if_neg hall]
      exact ⟨rfl, fun _ => ⟨fun _ => hnil, rfl⟩⟩

/-- **A group that `handle_src_timer` has looked at.** -/
theorem settled_srcTimer (h : Wf e) : (srcTimer cfg e w).entry.grpAddr = e.grpAddr ∧
    ((srcTimer cfg e w).drop = false → Wf (srcTimer cfg e w).entry ∧ Settled (srcTimer cfg e w).entry) := by
  obtain ⟨l, m, hy, hl, hswept⟩ := foldl_srcPass_eq cfg (w := w) h.distinct h.distinct
    (fun x hx => ⟨h.distinct.get_eq hx, fun hmode => h.running hmode x hx⟩)
    fun s y hs hy => absurd (get_eq_none_iff.mpr hs) (by rw [hy]; exact nofun)
  obtain ⟨hgrp, hentry⟩ := srcTimer_eq hy
  refine ⟨hgrp, fun hkeep => ?_⟩
  obtain ⟨hsome, hentry⟩ := hentry hkeep
  rw [hentry]
  split_ifs with hall
  · obtain ⟨hmode, hall⟩ := hall
    have hzero : ¬ ∃ s ∈ l, 0 < s.timer.lefttime := by
      rintro ⟨s, hs, hpos⟩
      have := of_decide_eq_true (List.all_eq_true.mp hall s hs)
      omega
    have hinc : e.filterMode ≠ .mcastInclude := fun hinc => nomatch hmode.symm.trans hinc
    exact ⟨⟨hl, fun hmode => absurd hmode hinc, h.timer, h.users⟩, iff_of_true rfl ⟨hmode, hzero⟩,
      fun hmode => absurd hmode hinc, h.timer⟩
  · -- some timer runs, and when its second was counted the route for all sources was stopped
    obtain ⟨s, hs, hpos⟩ : ∃ s ∈ l, 0 < s.timer.lefttime := by
      cases hmode : e.filterMode with
      | mcastInclude =>
        obtain ⟨s, hs⟩ := List.exists_mem_of_ne_nil _ (hsome hmode)
        exact ⟨s, hs, (hswept s hs).running hmode⟩
      | mcastExclude =>
        by_contra hnone
        refine hall ⟨hmode, List.all_eq_true.mpr fun s hs => decide_eq_true ?_⟩
        exact Nat.eq_zero_of_not_pos fun hpos => hnone ⟨s, hs, hpos⟩
    have hm : m = false := (hswept s hs).stopped hpos
    have hrun : e.filterMode = .mcastInclude → ∀ s ∈ l, 0 < s.timer.lefttime :=
      fun hmode s hs => (hswept s hs).running hmode
    refine ⟨⟨hl, hrun, h.timer, h.users⟩, iff_of_false ?_ fun hd => hd.2 ⟨s, hs, hpos⟩,
      fun hmode => ⟨hsome hmode, hrun hmode⟩, h.timer⟩
    rw [hm]
    exact Bool.false_ne_true

end Timers

section Runs

theorem wf_newEntry (group src : Addr) : Wf (newEntry group src) := ⟨List.nodup_nil, nofun, nofun, rfl⟩

/-- **Groups stay in order.** -/
theorem stable_wf : Stable cfg Wf where
  record type src sources e w h := by
    refine ⟨body_grpAddr, fun _ => ?_⟩
    by_cases htype : type = .changeToExclude
    · rw [htype]
      exact wf_toex h
    · exact wf_body h htype
  reported e w h := ⟨rfl, fun _ => ⟨h.distinct, nofun, fun _ => cfg.memberQueryInterval_pos, h.users⟩⟩
  ver e w h := ⟨rfl, fun _ => ⟨h.distinct, h.running, h.timer, h.users⟩⟩
  groupTimer e w h := ⟨groupTimer_grpAddr, wf_groupTimer h⟩
  srcTimer e w h := ⟨(settled_srcTimer h).1, fun hkeep => ((settled_srcTimer h).2 hkeep).1⟩

variable (cfg) in
def run (events : List Event) : State := events.foldl (step cfg) init

theorem run_wf (events : List Event) : Every Wf (run cfg events) := by
  refine List.foldlRecOn _ _ ⟨List.nodup_nil, nofun⟩ fun st h event _ => ?_
  cases event with
  | message m =>
    exact every_accept stable_wf h (fun group src _ _ => wf_newEntry group src)
      fun group src _ _ => wf_newEntry group src
  | tick => exact every_tick stable_wf h

end Runs

end NasFirmware.Igmp
