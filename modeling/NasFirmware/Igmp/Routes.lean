import NasFirmware.Igmp.ToEx

/-!
# Routes

The forwarding cache mirrors the sources of a group: each source has a route, enabled while its timer runs.
-/

namespace NasFirmware.Igmp

open Keyed

/-! ## The routes of a group -/

/-- The source in the route for all sources. -/
def Config.wild (cfg : Config) : Addr := cfg.originAdr 0

/-- The address of a source: not the one that stands for all sources, nor the one in their route. -/
def Proper (cfg : Config) (s : Addr) : Prop := s ≠ 0 ∧ s ≠ cfg.wild

/-- The routes that a group should have: one for each source, enabled while its timer runs, and one for the other
sources if these are forwarded. -/
def routes (cfg : Config) (mrtState : Bool) (l : List SrcEntry) : Addr → Option Bool :=
  Function.update (status l) cfg.wild (if mrtState then some true else none)

/-- The list `l` of `group` and its routes in `w`, when the routes of other groups are as in `w₀`. -/
structure Mirror (cfg : Config) (group : Addr) (mrtState : Bool) (w₀ : World) (l : List SrcEntry) (w : World) :
    Prop where
  distinct : DistinctSrcs l
  proper : ∀ s, status l s ≠ none → Proper cfg s
  routes : w.mfc group = routes cfg mrtState l
  frame : ∀ g, g ≠ group → w.mfc g = w₀.mfc g

section Passes

variable {cfg : Config} {group s : Addr} {mrt : Bool} {w₀ w w' : World} {l l' old : List SrcEntry} {b : Option Bool}
  {t : Timer} {sources : List Reported} {p : SrcEntry → Bool}

theorem Proper.originAdr (hs : Proper cfg s) : cfg.originAdr s = s := if_pos hs.1

theorem mfc_setMfc_self (origin : Addr) (route : Option Bool) :
    (w.setMfc group origin route).mfc group = Function.update (w.mfc group) origin route := by
  funext o
  rw [World.mfc_setMfc, Function.update_apply]
  exact if_congr (and_iff_right rfl) rfl rfl

theorem mfc_setMfc_of_ne {g : Addr} (hg : g ≠ group) (origin : Addr) (route : Option Bool) :
    (w.setMfc group origin route).mfc g = w.mfc g := by
  funext o
  rw [World.mfc_setMfc, if_neg fun h => hg h.1]

variable (h : Mirror cfg group mrt w₀ l w)

include h

/-- **One source changes**, in the list and in the cache. -/
theorem Mirror.update (hs : Proper cfg s) (hl' : DistinctSrcs l')
    (hst : status l' = Function.update (status l) s b) :
    Mirror cfg group mrt w₀ l' (w.setMfc group (cfg.originAdr s) b) := by
  refine ⟨hl', fun s' hs' => ?_, ?_, fun g hg => ?_⟩
  · rw [hst] at hs'
    by_cases heq : s' = s
    · exact heq ▸ hs
    · rw [Function.update_of_ne heq] at hs'
      exact h.proper s' hs'
  · rw [mfc_setMfc_self, h.routes, hs.originAdr]
    unfold Igmp.routes
    rw [hst, Function.update_comm hs.2]
  · rw [mfc_setMfc_of_ne hg, h.frame g hg]

theorem Mirror.same (hl' : DistinctSrcs l') (hst : status l' = status l)
    (hw : w'.mfc = w.mfc) : Mirror cfg group mrt w₀ l' w' := by
  refine ⟨hl', fun s hs => h.proper s (hst ▸ hs), ?_, fun g hg => ?_⟩
  · rw [hw, h.routes]
    unfold Igmp.routes
    rw [hst]
  · rw [hw, h.frame g hg]

theorem Mirror.world (hw : w'.mfc = w.mfc) : Mirror cfg group mrt w₀ l w' :=
  h.same h.distinct rfl hw

omit h

theorem status_eq_update_of_leftOf {n : ℕ} (h : ∀ s', leftOf l' s' = if s' = s then some n else leftOf l s') :
    status l' = Function.update (status l) s (some (decide (0 < n))) := by
  funext s'
  rw [status, h, Function.update_apply]
  split_ifs <;> rfl

theorem status_delFromSrclist (hl : DistinctSrcs l) :
    status (delFromSrclist l s) = Function.update (status l) s none := by
  funext s'
  rw [status, leftOf_delFromSrclist hl, Function.update_apply]
  split_ifs <;> rfl

theorem status_setTimer (hs : leftOf l s ≠ none) :
    status (setTimer l s t) = Function.update (status l) s (some (decide (0 < t.lefttime))) := by
  refine status_eq_update_of_leftOf fun s' => ?_
  rw [leftOf_setTimer]
  exact if_congr (and_iff_left hs) rfl rfl

section Put

variable {enable : Bool} (hen : enable = decide (0 < t.lefttime))
include hen

include h

theorem Mirror.putPass {r : Reported} (hr : Proper cfg r.src) :
    Mirror cfg group mrt w₀ (putPass cfg group t enable (l, w) r).1 (putPass cfg group t enable (l, w) r).2 := by
  subst hen
  unfold Igmp.putPass
  cases hadd : addToSrclist l r.src r.malloc with
  | none => exact h
  | some l₁ => exact h.update hr (h.distinct.put hadd) (status_eq_update_of_leftOf fun s' => leftOf_put hadd)

theorem Mirror.foldl_putPass (hr : ∀ r ∈ sources, Proper cfg r.src) :
    Mirror cfg group mrt w₀ (sources.foldl (Igmp.putPass cfg group t enable) (l, w)).1
      (sources.foldl (Igmp.putPass cfg group t enable) (l, w)).2 :=
  List.foldlRecOn (motive := fun x : List SrcEntry × World => Mirror cfg group mrt w₀ x.1 x.2) sources _ h
    fun _ hx r hmem => hx.putPass hen (hr r hmem)

theorem Mirror.foldl_newPass (old : List SrcEntry) (hr : ∀ r ∈ sources, Proper cfg r.src) :
    Mirror cfg group mrt w₀ (sources.foldl (newPass cfg group old t enable) (l, w)).1
      (sources.foldl (newPass cfg group old t enable) (l, w)).2 := by
  rw [Igmp.foldl_newPass]
  exact h.foldl_putPass hen fun r hmem => hr r (List.mem_filter.mp hmem).1

end Put

/-- The routes that the loop in `INCLUDE` mode adds: all sources that are reported and were not in the list. -/
theorem foldl_includePass_mfc {x : List SrcEntry × World} (hr : ∀ r ∈ sources, Proper cfg r.src) (g o : Addr) :
    (sources.foldl (includePass cfg group old) x).2.mfc g o =
      if g = group ∧ checkSrc o sources = true ∧ leftOf old o = none then some true else x.2.mfc g o := by
  induction sources generalizing x with
  | nil => simp [checkSrc]
  | cons r sources ih =>
    have hstep : (includePass cfg group old x r).2.mfc g o =
        if g = group ∧ o = r.src ∧ leftOf old o = none then some true else x.2.mfc g o := by
      have hworld : (includePass cfg group old x r).2 =
          if checkSrcSet r.src old then x.2 else igmpAddMr cfg x.2 group r.src true := by
        unfold includePass
        cases addToSrclist x.1 r.src r.malloc <;> rfl
      rw [hworld]
      by_cases hold : checkSrcSet r.src old = true
      · rw [if_pos hold, if_neg]
        rintro ⟨-, rfl, hnew⟩
        exact checkSrcSet_iff.mp hold hnew
      · rw [if_neg hold, igmpAddMr, World.mfc_setMfc, (hr r List.mem_cons_self).originAdr]
        have hnew : o = r.src → leftOf old o = none := by
          rintro rfl
          exact checkSrcSet_eq_false_iff.mp (Bool.eq_false_iff.mpr hold)
        exact if_congr (and_congr_right fun _ => (and_iff_left_of_imp hnew).symm) rfl rfl
    have hcons : checkSrc o (r :: sources) = true ↔ o = r.src ∨ checkSrc o sources = true := by
      rw [checkSrc, List.any_cons, Bool.or_eq_true, beq_iff_eq, eq_comm (a := r.src)]
      rfl
    rw [List.foldl_cons, ih fun r hmem => hr r (List.mem_cons_of_mem _ hmem), hstep]
    split_ifs <;> first | rfl | tauto

include h

theorem Mirror.foldl_includePass (hr : ∀ r ∈ sources, Proper cfg r.src)
    (hrun : ∀ s, status l s ≠ some false)
    (hmem : ∀ s, checkSrc s sources = true → leftOf l s = none → ⟨s, true⟩ ∈ sources) :
    Mirror cfg group mrt w₀ (sources.foldl (includePass cfg group l) (l, w)).1
      (sources.foldl (includePass cfg group l) (l, w)).2 := by
  have hst : ∀ s, status (sources.foldl (putSrc cfg.gmi) l) s =
      if checkSrc s sources = true ∧ leftOf l s = none then some true else status l s := by
    intro s
    have hrun := hrun s
    rw [status, leftOf_foldl_putSrc]
    cases hrep : checkSrc s sources with
    | false => simp [status]
    | true =>
      cases hold : leftOf l s with
      | none => simp [hmem s hrep hold, Config.gmi, cfg.memberQueryInterval_pos]
      | some n =>
        rw [status_of_leftOf hold] at hrun
        have hpos : 0 < n := by
          by_contra hzero
          exact hrun (congrArg some (decide_eq_false hzero))
        simp [Config.gmi, cfg.memberQueryInterval_pos, status_of_leftOf hold, hpos]
  have hproper : ∀ s, checkSrc s sources = true → Proper cfg s := by
    intro s hs
    obtain ⟨r, hmem, rfl⟩ := checkSrc_iff.mp hs
    exact hr r hmem
  have hmfc := fun g => funext fun o => @foldl_includePass_mfc cfg group l sources (l, w) hr g o
  rw [foldl_includePass_fst]
  refine ⟨h.distinct.foldl_putSrc, fun s hs => ?_, ?_, fun g hg => ?_⟩
  · rw [hst] at hs
    split_ifs at hs with hnew
    · exact hproper s hnew.1
    · exact h.proper s hs
  · rw [hmfc]
    funext o
    rw [h.routes]
    unfold Igmp.routes
    by_cases ho : o = cfg.wild
    · subst ho
      rw [if_neg fun hh => (hproper _ hh.2.1).2 rfl, Function.update_self, Function.update_self]
    · rw [Function.update_of_ne ho, Function.update_of_ne ho, hst]
      exact if_congr (and_iff_right rfl) rfl rfl
  · rw [hmfc]
    funext o
    rw [if_neg fun hh => hg hh.1, h.frame g hg]

theorem Mirror.foldl_deletePass (hold : ∀ x ∈ old, Proper cfg x.srcaddr) :
    Mirror cfg group mrt w₀ (old.foldl (deletePass cfg group p) (l, w)).1
      (old.foldl (deletePass cfg group p) (l, w)).2 := by
  refine List.foldlRecOn (motive := fun x : List SrcEntry × World => Mirror cfg group mrt w₀ x.1 x.2) old _ h
    fun x hx s hmem => ?_
  unfold deletePass
  split_ifs
  · exact hx.update (hold s hmem) hx.distinct.del (status_delFromSrclist hx.distinct)
  · exact hx

theorem Mirror.proper_of_mem : ∀ x ∈ l, Proper cfg x.srcaddr := by
  intro x hx
  refine h.proper _ ?_
  rw [status_of_leftOf (h.distinct.leftOf_eq hx)]
  exact Option.some_ne_none _

theorem Mirror.lower {i : ℕ} (hp : ∀ x ∈ l, p x = true → 0 < x.timer.lefttime)
    (hw : w'.mfc = w.mfc) : Mirror cfg group mrt w₀ (lower p i l).1 w' := by
  refine h.same ?_ (funext fun s => status_lower hp) hw
  rw [DistinctSrcs, Distinct, map_lower]
  exact h.distinct

theorem Mirror.lowerOld {n : ℕ}
    (hp : ∀ x ∈ l, p x = true → 0 < x.timer.lefttime) (hw : w'.mfc = w.mfc) :
    Mirror cfg group mrt w₀ (lowerOld p n l).1 w' := by
  refine h.same ?_ (funext fun s => status_lowerOld hp) hw
  rw [DistinctSrcs, Distinct, map_lowerOld]
  exact h.distinct

theorem Mirror.toexLoop {rest : List SrcEntry} {gsrctmp : List Addr}
    (hrest : DistinctSrcs rest) (hrun : ∀ x ∈ rest, status l x.srcaddr = some true) :
    Mirror cfg group mrt w₀ (toexLoop cfg group sources rest (l, w, gsrctmp)).1
      (toexLoop cfg group sources rest (l, w, gsrctmp)).2.1 := by
  induction rest generalizing l w gsrctmp with
  | nil => exact h
  | cons x rest ih =>
    obtain ⟨hx, hrest⟩ := List.nodup_cons.mp hrest
    have hrunx : status l x.srcaddr = some true := hrun x List.mem_cons_self
    have hxl : leftOf l x.srcaddr ≠ none := fun hnone => nomatch hrunx.symm.trans (status_eq_none_iff.mpr hnone)
    have hne : ∀ y ∈ rest, y.srcaddr ≠ x.srcaddr := fun y hy heq => hx (heq ▸ List.mem_map_of_mem hy)
    have hset : status (setTimer l x.srcaddr lmqt) = status l := by
      rw [status_setTimer hxl, Function.update_eq_self_iff, hrunx]
      rfl
    have hlow : Mirror cfg group mrt w₀ (setTimer l x.srcaddr lmqt) w := h.same h.distinct.setTimer hset rfl
    have hproper : Proper cfg x.srcaddr := h.proper _ fun hnone => hxl (status_eq_none_iff.mp hnone)
    rw [Igmp.toexLoop]
    split_ifs
    · exact hlow
    · exact ih hlow hrest fun y hy => hset ▸ hrun y (List.mem_cons_of_mem _ hy)
    · refine ih (h.update hproper h.distinct.del (status_delFromSrclist h.distinct)) hrest fun y hy => ?_
      rw [status_delFromSrclist h.distinct, Function.update_of_ne (hne y hy)]
      exact hrun y (List.mem_cons_of_mem _ hy)

end Passes

structure Good (cfg : Config) (e : McftEntry) (w : World) : Prop where
  wf : Wf e
  proper : ∀ s, status e.srclist s ≠ none → Proper cfg s
  routes : w.mfc e.grpAddr = routes cfg e.mrtState e.srclist

/-- What may become of a group: it is in order, or dropped without routes, and the routes of other groups stay. -/
structure Kept (cfg : Config) (group : Addr) (w : World) (o : Outcome) : Prop where
  grpAddr : o.entry.grpAddr = group
  frame : ∀ g, g ≠ group → o.world.mfc g = w.mfc g
  kept : o.drop = false → Good cfg o.entry o.world
  dropped : o.drop = true → o.world.mfc group = fun _ => none

section Bodies

variable {cfg : Config} {src : Addr} {sources : List Reported} {e : McftEntry} {w w' : World} {o : Outcome}
  {l : List SrcEntry}

theorem Good.mirror (h : Good cfg e w) (hw : w'.mfc = w.mfc) :
    Mirror cfg e.grpAddr e.mrtState w e.srclist w' :=
  ⟨h.wf.distinct, h.proper, by rw [hw, h.routes], fun g _ => by rw [hw]⟩

theorem Mirror.kept (hm : Mirror cfg e.grpAddr e.mrtState w o.entry.srclist o.world) (hwf : Wf o.entry)
    (hgrp : o.entry.grpAddr = e.grpAddr) (hmrt : o.entry.mrtState = e.mrtState) (hdrop : o.drop = false) :
    Kept cfg e.grpAddr w o := by
  refine ⟨hgrp, hm.frame, fun _ => ⟨hwf, hm.proper, ?_⟩, fun h => nomatch hdrop.symm.trans h⟩
  rw [hgrp, hmrt, hm.routes]

theorem mfc_delMr {group : Addr} {mrt : Bool} (hw : w.mfc group = routes cfg mrt l) :
    (delMr cfg w group).mfc group = routes cfg false l := by
  rw [delMr, igmpDelMr, mfc_setMfc_self, hw, routes, routes]
  exact Function.update_idem ..

theorem routes_eq_none (hl : ∀ s, status l s = none) : routes cfg false l = fun _ => none := by
  funext o
  unfold routes
  rw [Function.update_apply, hl]
  exact ite_self _

/-! ### Records -/

theorem toinSources_mrtState : (toinSources cfg src sources e w).1.mrtState = e.mrtState := by
  rw [toinSources_entry]
  split_ifs <;> simp

theorem good_delUser (h : Good cfg e w) : Good cfg (delUser e w src).1 (delUser e w src).2 := by
  obtain ⟨hgrp, -, -, hlist, hmrt, hmfc⟩ := @delUser_frame src e w
  refine ⟨wf_delUser h.wf, fun s hs => h.proper s (hlist ▸ hs), ?_⟩
  rw [hgrp, hmrt, hlist, hmfc, h.routes]

section Sources

variable (h : Good cfg e w) (hr : ∀ r ∈ sources, Proper cfg r.src)
include h hr

theorem kept_isin (hmem : e.filterMode = .mcastInclude → ∀ s, checkSrc s sources = true → leftOf e.srclist s = none →
    ⟨s, true⟩ ∈ sources) : Kept cfg e.grpAddr w (isin cfg src sources e w) := by
  refine Mirror.kept ?_ (wf_isin h.wf) (by simp [isin_entry]) (by simp [isin_entry]) isin_drop
  obtain ⟨mbr, n, w', hadd, hmfc⟩ := @addUser_eq src e w
  have hm := h.mirror hmfc
  unfold isin
  rw [hadd]
  cases hmode : e.filterMode with
  | mcastInclude => exact hm.foldl_includePass hr (h.wf.status_ne hmode) (hmem hmode)
  | mcastExclude => exact hm.foldl_putPass (decide_eq_true cfg.memberQueryInterval_pos).symm hr

theorem kept_isex : Kept cfg e.grpAddr w (isex cfg src sources e w) := by
  refine Mirror.kept ?_ (wf_isex h.wf) (by simp [isex_entry]) (by simp [isex_entry]) rfl
  obtain ⟨mbr, n, w', hadd, hmfc⟩ := @addUser_eq src e w
  have hm := h.mirror hmfc
  unfold isex
  rw [hadd]
  have hold := (h.mirror rfl).proper_of_mem
  cases hmode : e.filterMode with
  | mcastInclude => exact (hm.foldl_newPass rfl _ hr).foldl_deletePass hold
  | mcastExclude =>
    exact (hm.foldl_newPass (decide_eq_true cfg.memberQueryInterval_pos).symm _ hr).foldl_deletePass hold

theorem kept_toex : Kept cfg e.grpAddr w (toex cfg src sources e w) := by
  refine Mirror.kept ?_ (wf_toex h.wf) (by simp [toex_entry]) (by simp [toex_entry]) toex_drop
  obtain ⟨mbr, n, w', hadd, hmfc⟩ := @addUser_eq src e w
  have hm := h.mirror hmfc
  have hold := (h.mirror rfl).proper_of_mem
  unfold toex
  rw [hadd]
  cases hmode : e.filterMode with
  | mcastInclude =>
    have hnew := hm.foldl_newPass (t := ⟨0, 0⟩) rfl e.srclist hr
    refine (hnew.toexLoop h.wf.distinct fun x hx => ?_).world (querySrcs_mfc ..)
    rw [foldl_newPass, foldl_putPass_fst, status, leftOf_foldl_new, h.wf.distinct.leftOf_eq hx, Option.some_or,
      Option.map_some, decide_eq_true (h.wf.running hmode x hx)]
  | mcastExclude =>
    have hnew := hm.foldl_newPass (t := ⟨e.timer.lefttime, 3⟩) (decide_eq_true (h.wf.timer hmode)).symm e.srclist hr
    exact (hnew.foldl_deletePass hold).lower (fun _ _ hpos => of_decide_eq_true hpos) (querySrcs_mfc ..)

theorem kept_block : Kept cfg e.grpAddr w (block cfg src sources e w) := by
  refine Mirror.kept ?_ (wf_block h.wf) ?_ ?_ block_drop
  · unfold block
    cases hmode : e.filterMode with
    | mcastInclude =>
      obtain ⟨mbr, n, w', hadd, hmfc⟩ := @addUser_eq src e w
      rw [hadd]
      exact (h.mirror hmfc).lower (fun x hx _ => h.wf.running hmode x hx) (querySrcs_mfc ..)
    | mcastExclude =>
      have hnew := (h.mirror rfl).foldl_newPass (t := ⟨e.timer.lefttime, 3⟩)
        (decide_eq_true (h.wf.timer hmode)).symm e.srclist hr
      refine hnew.lower (fun _ _ hpos => ?_) (querySrcs_mfc ..)
      rw [Bool.and_eq_true, decide_eq_true_eq] at hpos
      exact hpos.2
  · rw [block_entry]
    split_ifs <;> simp
  · rw [block_entry]
    split_ifs <;> simp

variable (hmem : e.filterMode = .mcastInclude → ∀ s, checkSrc s sources = true → leftOf e.srclist s = none →
  ⟨s, true⟩ ∈ sources)
include hmem

theorem mirror_toinSources : Mirror cfg e.grpAddr e.mrtState w (toinSources cfg src sources e w).1.srclist
    (toinSources cfg src sources e w).2 := by
  obtain ⟨mbr, n, w', hadd, hmfc⟩ : ∃ mbr n w', (if sources.isEmpty then (e, w) else addUser e w src) =
      ({ e with grpMbr := mbr, userCount := n }, w') ∧ w'.mfc = w.mfc := by
    split_ifs
    · exact ⟨_, _, _, rfl, rfl⟩
    · exact addUser_eq
  have hm := h.mirror hmfc
  have hlow := @toinLowers_pos cfg sources e h.wf
  unfold toinSources
  rw [hadd]
  cases hmode : e.filterMode with
  | mcastInclude =>
    rw [hmode] at hlow
    refine (hm.foldl_includePass hr (h.wf.status_ne hmode) (hmem hmode)).lowerOld ?_ (querySrcs_mfc ..)
    rw [foldl_includePass_fst]
    exact hlow
  | mcastExclude =>
    rw [hmode] at hlow
    refine (hm.foldl_putPass (decide_eq_true cfg.memberQueryInterval_pos).symm hr).lowerOld ?_ (querySrcs_mfc ..)
    rw [foldl_putPass_fst]
    exact hlow

theorem good_toinSources : Good cfg (toinSources cfg src sources e w).1 (toinSources cfg src sources e w).2 := by
  have hm := @mirror_toinSources cfg src sources e w h hr hmem
  refine ⟨wf_toinSources h.wf, hm.proper, ?_⟩
  rw [toinSources_grpAddr, toinSources_mrtState, hm.routes]

theorem kept_toin (hlast : sources = [] → e.grpMbr.erase src = [] → e.srclist = []) :
    Kept cfg e.grpAddr w (toin cfg src sources e w) := by
  have hframe := (@mirror_toinSources cfg src sources e w h hr hmem).frame
  have hgood := @good_toinSources cfg src sources e w h hr hmem
  have hgrp := @toinSources_grpAddr cfg src sources e w
  have hdrop := @toin_drop_iff cfg src sources e w h.wf
  have hstatus := fun s => @status_toinSources cfg src sources e w s h.wf
  unfold toin at hdrop ⊢
  dsimp only at hdrop ⊢
  generalize toinSources cfg src sources e w = x at hframe hgood hgrp hdrop hstatus ⊢
  obtain ⟨hgrp', -, -, -, -, hmfc⟩ := @delUser_frame src x.1 x.2
  split_ifs at hdrop ⊢ with hnil hzero
  · have hgood' := @good_delUser cfg src x.1 x.2 hgood
    obtain ⟨rfl, hmbr⟩ := hdrop.mp rfl
    refine ⟨hgrp'.trans hgrp, fun g hg => ?_, by rintro ⟨⟩, fun _ => ?_⟩
    · rw [delMr, igmpDelMr, hgrp', hgrp, mfc_setMfc_of_ne hg, hmfc, hframe g hg]
    · have hnone : ∀ s, status (delUser x.1 x.2 src).1.srclist s = none := by
        intro s
        rw [delUser_frame.2.2.2.1, hstatus, hlast rfl hmbr]
        rfl
      rw [← hgrp, ← hgrp', mfc_delMr hgood'.routes, routes_eq_none hnone]
  · exact ⟨hgrp'.trans hgrp, fun g hg => by rw [hmfc, hframe g hg], fun _ => good_delUser hgood, by rintro ⟨⟩⟩
  · exact ⟨hgrp, hframe, fun _ => hgood, by rintro ⟨⟩⟩

end Sources

/-! ### Timers -/

theorem Good.setSrclist (h : Good cfg e w) (hm : Mirror cfg e.grpAddr e.mrtState w l w')
    (hrun : e.filterMode = .mcastInclude → ∀ s, status l s ≠ some false) : Good cfg { e with srclist := l } w' :=
  ⟨⟨hm.distinct, fun hmode => (running_iff hm.distinct).mpr (hrun hmode), h.wf.timer, h.wf.users⟩, hm.proper, hm.routes⟩

theorem good_stopAll (h : Good cfg e w) : Good cfg (stopAll cfg e w).1 (stopAll cfg e w).2 := by
  unfold stopAll
  split_ifs
  · exact ⟨⟨h.wf.distinct, h.wf.running, h.wf.timer, h.wf.users⟩, h.proper, mfc_delMr h.routes⟩
  · exact h

theorem stopAll_frame : (stopAll cfg e w).1.grpAddr = e.grpAddr ∧ (stopAll cfg e w).1.srclist = e.srclist ∧
    (stopAll cfg e w).1.filterMode = e.filterMode ∧ (stopAll cfg e w).1.mrtState = false ∧
    ∀ g, g ≠ e.grpAddr → (stopAll cfg e w).2.mfc g = w.mfc g := by
  unfold stopAll
  split_ifs with hmrt
  · exact ⟨rfl, rfl, rfl, rfl, fun g hg => mfc_setMfc_of_ne hg ..⟩
  · exact ⟨rfl, rfl, rfl, Bool.eq_false_iff.mpr hmrt, fun _ _ => rfl⟩

theorem stopAll_mfc (hw : w.mfc e.grpAddr = routes cfg e.mrtState e.srclist) (hnil : e.srclist = []) :
    (stopAll cfg e w).2.mfc e.grpAddr = fun _ => none := by
  have hnone : routes cfg false e.srclist = fun _ => none := routes_eq_none fun s => by rw [hnil]; rfl
  unfold stopAll
  split_ifs with hmrt
  · rw [← hnone]
    exact mfc_delMr hw
  · rw [← hnone, ← Bool.eq_false_iff.mpr hmrt]
    exact hw

theorem good_forwardAll (h : Good cfg e w) : Good cfg (forwardAll cfg e w).1 (forwardAll cfg e w).2 := by
  unfold forwardAll
  split_ifs
  · exact h
  · refine ⟨⟨h.wf.distinct, h.wf.running, h.wf.timer, h.wf.users⟩, h.proper, ?_⟩
    rw [igmpAddMr, mfc_setMfc_self, h.routes, routes, routes]
    exact Function.update_idem ..

theorem forwardAll_frame : (forwardAll cfg e w).1.grpAddr = e.grpAddr ∧
    ∀ g, g ≠ e.grpAddr → (forwardAll cfg e w).2.mfc g = w.mfc g := by
  unfold forwardAll
  split_ifs
  · exact ⟨rfl, fun _ _ => rfl⟩
  · exact ⟨rfl, fun g hg => mfc_setMfc_of_ne hg ..⟩

theorem status_expired (h : DistinctSrcs e.srclist) (s : Addr) :
    status (e.srclist.foldl (expirePass cfg e.grpAddr) (e.srclist, w)).1 s ≠ some false := by
  intro hs
  rw [expirePass, foldl_deletePass_fst, status, leftOf_foldl_del h] at hs
  split_ifs at hs with hgone
  · cases hs
  obtain ⟨x, hx, rfl, hzero⟩ := exists_of_status hs
  refine hgone (List.mem_map_of_mem (List.mem_filter.mpr ⟨hx, ?_⟩))
  exact decide_eq_true (Nat.eq_zero_of_not_pos (of_decide_eq_false hzero))

theorem kept_groupTimer (h : Good cfg e w) : Kept cfg e.grpAddr w (groupTimer cfg e w) := by
  unfold groupTimer
  split_ifs with hzero
  · exact ⟨rfl, fun _ _ => rfl, fun _ => h, nofun⟩
  dsimp only
  generalize e.timer.tick = x
  have hmfc : (if x.2 then w.query (.igmp e.grpAddr) else w).mfc = w.mfc := by
    split_ifs <;> rfl
  generalize (if x.2 then w.query (.igmp e.grpAddr) else w) = w' at hmfc ⊢
  split_ifs with hout hsrcs
  · -- sources whose timers run are left
    have hm := (h.mirror hmfc).foldl_deletePass (p := fun s => s.timer.lefttime = 0) (h.mirror rfl).proper_of_mem
    refine Mirror.kept hm ⟨hm.distinct, fun _ => ?_, nofun, h.wf.users⟩ rfl rfl rfl
    exact (running_iff hm.distinct).mpr (status_expired h.wf.distinct)
  · have hm := (h.mirror hmfc).foldl_deletePass (p := fun s => s.timer.lefttime = 0) (h.mirror rfl).proper_of_mem
    obtain ⟨hgrp, -, -, -, hframe⟩ := @stopAll_frame cfg
      { e with timer := x.1, srclist := (e.srclist.foldl (expirePass cfg e.grpAddr) (e.srclist, w')).1 }
      (e.srclist.foldl (expirePass cfg e.grpAddr) (e.srclist, w')).2
    refine ⟨hgrp, fun g hg => ?_, nofun, fun _ => stopAll_mfc hm.routes (not_not.mp hsrcs)⟩
    rw [hframe g hg]
    exact hm.frame g hg
  · refine ⟨rfl, fun g _ => by rw [hmfc], fun _ => ⟨⟨h.wf.distinct, h.wf.running, fun hmode => ?_, h.wf.users⟩,
      h.proper, ?_⟩, nofun⟩
    · exact Nat.pos_of_ne_zero fun hleft => hout ⟨hmode, hleft⟩
    · rw [hmfc]
      exact h.routes

structure Passed (cfg : Config) (x : SrcEntry) (e : McftEntry) (w : World) (y : McftEntry × World) : Prop where
  good : Good cfg y.1 y.2
  grpAddr : y.1.grpAddr = e.grpAddr
  frame : ∀ g, g ≠ e.grpAddr → y.2.mfc g = w.mfc g
  others : ∀ s, s ≠ x.srcaddr → status y.1.srclist s = status e.srclist s

theorem passed_srcPass {x : SrcEntry} (h : Good cfg e w)
    (hx : status e.srclist x.srcaddr = some (decide (0 < x.timer.lefttime))) :
    Passed cfg x e w (srcPass cfg (e, w) x) := by
  unfold srcPass
  dsimp only
  by_cases hzero : x.timer.lefttime = 0
  · rw [if_pos hzero]
    exact ⟨h, rfl, fun _ _ => rfl, fun _ _ => rfl⟩
  rw [if_neg hzero]
  generalize x.timer.tick = y
  have hmfc : (if y.2 then w.query (.igmpv3 e.grpAddr [x.srcaddr]) else w).mfc = w.mfc := by
    split_ifs <;> rfl
  generalize (if y.2 then w.query (.igmpv3 e.grpAddr [x.srcaddr]) else w) = w' at hmfc ⊢
  rw [decide_eq_true (Nat.pos_of_ne_zero hzero)] at hx
  have hm := h.mirror hmfc
  have hin : leftOf e.srclist x.srcaddr ≠ none := fun hnone => nomatch hx.symm.trans (status_eq_none_iff.mpr hnone)
  have hset := @status_setTimer x.srcaddr e.srclist y.1 hin
  have hproper : Proper cfg x.srcaddr := h.proper _ fun hnone => hin (status_eq_none_iff.mp hnone)
  by_cases hleft : y.1.lefttime = 0
  · rw [if_neg (not_not.mpr hleft)]
    cases hmode : e.filterMode with
    | mcastInclude =>
      have hdel : status (delFromSrclist (setTimer e.srclist x.srcaddr y.1) x.srcaddr) =
          Function.update (status e.srclist) x.srcaddr none := by
        rw [status_delFromSrclist h.wf.distinct.setTimer, hset, Function.update_idem]
      have hm' := hm.update hproper h.wf.distinct.setTimer.del hdel
      have hgood := h.setSrclist hm' fun _ s => by
        rw [hdel, Function.update_apply]
        split_ifs
        · exact nofun
        · exact h.wf.status_ne hmode s
      rw [hmode] at hgood
      exact ⟨hgood, rfl, hm'.frame, fun s hs => (congrFun hdel s).trans (Function.update_of_ne hs ..)⟩
    | mcastExclude =>
      rw [decide_eq_false (by omega)] at hset
      have hm' := hm.update hproper h.wf.distinct.setTimer hset
      have hgood := h.setSrclist hm' fun hinc => absurd (hmode.symm.trans hinc) (by decide)
      rw [hmode] at hgood
      exact ⟨hgood, rfl, hm'.frame, fun s hs => (congrFun hset s).trans (Function.update_of_ne hs ..)⟩
  · have hsame : status (setTimer e.srclist x.srcaddr y.1) = status e.srclist := by
      rw [hset, Function.update_eq_self_iff, hx, decide_eq_true (Nat.pos_of_ne_zero hleft)]
    have hm' := hm.same h.wf.distinct.setTimer hsame rfl
    have hgood := h.setSrclist hm' fun hmode s => hsame ▸ h.wf.status_ne hmode s
    obtain ⟨hgrp, hlist, -, -, hframe⟩ :=
      @stopAll_frame cfg { e with srclist := setTimer e.srclist x.srcaddr y.1 } w'
    rw [if_pos hleft]
    refine ⟨good_stopAll hgood, hgrp, fun g hg => ?_, fun s _ => ?_⟩
    · rw [hframe g hg, hmfc]
    · rw [hlist, hsame]

theorem good_foldl_srcPass {rest : List SrcEntry} (h : Good cfg e w) (hrest : DistinctSrcs rest)
    (hin : ∀ x ∈ rest, status e.srclist x.srcaddr = some (decide (0 < x.timer.lefttime))) :
    Good cfg (rest.foldl (srcPass cfg) (e, w)).1 (rest.foldl (srcPass cfg) (e, w)).2 ∧
    (rest.foldl (srcPass cfg) (e, w)).1.grpAddr = e.grpAddr ∧
    ∀ g, g ≠ e.grpAddr → (rest.foldl (srcPass cfg) (e, w)).2.mfc g = w.mfc g := by
  induction rest generalizing e w with
  | nil => exact ⟨h, rfl, fun _ _ => rfl⟩
  | cons x rest ih =>
    obtain ⟨hx, hrest⟩ := List.nodup_cons.mp hrest
    have hpass := passed_srcPass h (hin x List.mem_cons_self)
    obtain ⟨hgood, hgrp, hframe⟩ := ih (e := (srcPass cfg (e, w) x).1) (w := (srcPass cfg (e, w) x).2) hpass.good hrest
      fun y hy => by
        rw [hpass.others y.srcaddr fun heq => hx (heq ▸ List.mem_map_of_mem hy)]
        exact hin y (List.mem_cons_of_mem _ hy)
    refine ⟨hgood, hgrp.trans hpass.grpAddr, fun g hg => ?_⟩
    exact (hframe g (hpass.grpAddr ▸ hg)).trans (hpass.frame g hg)

theorem kept_srcTimer (h : Good cfg e w) : Kept cfg e.grpAddr w (srcTimer cfg e w) := by
  obtain ⟨hgood, hgrp, hframe⟩ := good_foldl_srcPass h h.wf.distinct fun x hx =>
    status_of_leftOf (h.wf.distinct.leftOf_eq hx)
  unfold srcTimer
  dsimp only
  generalize e.srclist.foldl (srcPass cfg) (e, w) = x at hgood hgrp hframe ⊢
  obtain ⟨y, hy⟩ : ∃ y, y = if x.1.filterMode = .mcastExclude ∧ x.1.srclist ≠ [] ∧
      x.1.srclist.all (·.timer.lefttime = 0) then forwardAll cfg x.1 x.2 else (x.1, x.2) := ⟨_, rfl⟩
  rw [← hy]
  replace hgood : Good cfg y.1 y.2 ∧ y.1.grpAddr = e.grpAddr ∧ ∀ g, g ≠ e.grpAddr → y.2.mfc g = w.mfc g := by
    rw [hy]
    split_ifs
    · refine ⟨good_forwardAll hgood, forwardAll_frame.1.trans hgrp, fun g hg => ?_⟩
      rw [forwardAll_frame.2 g (hgrp ▸ hg), hframe g hg]
    · exact ⟨hgood, hgrp, hframe⟩
  obtain ⟨hgood, hgrp, hframe⟩ := hgood
  split_ifs with hnil
  · cases y.1.filterMode with
    | mcastInclude =>
      obtain ⟨hgrp', -, -, -, hframe'⟩ := @stopAll_frame cfg y.1 y.2
      refine ⟨hgrp'.trans hgrp, fun g hg => ?_, nofun, fun _ => ?_⟩
      · exact (hframe' g (hgrp ▸ hg)).trans (hframe g hg)
      · exact hgrp ▸ stopAll_mfc hgood.routes hnil
    | mcastExclude =>
      refine ⟨forwardAll_frame.1.trans hgrp, fun g hg => ?_, fun _ => good_forwardAll hgood, nofun⟩
      exact (forwardAll_frame.2 g (hgrp ▸ hg)).trans (hframe g hg)
  · exact ⟨hgrp, hframe, fun _ => hgood, nofun⟩

end Bodies

end NasFirmware.Igmp
