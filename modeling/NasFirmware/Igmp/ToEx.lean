import NasFirmware.Igmp.Transitions

/-!
# `TO_EX`

The handler of `TO_EX` queries the sources that it lowers, and its loops end when the query is full, with 64
sources. In `EXCLUDE` mode the timers behind run on; in `INCLUDE` mode the same loop deletes the sources that are
not reported, so that these stay too.
-/

namespace NasFirmware.Igmp

open Keyed

/-! ## Loops that end when the buffer is full -/

section Reached

variable {p : SrcEntry → Bool} {i : ℕ} {l : List SrcEntry} {s : SrcEntry}

/-- The nodes that a loop with `gsrctmp` visits, when `i` places are taken. -/
def reached (p : SrcEntry → Bool) : ℕ → List SrcEntry → List SrcEntry
  | _, [] => []
  | i, s :: l =>
    if p s then if i + 1 = igmpv3MaxSrcnum then [s] else s :: reached p (i + 1) l
    else s :: reached p i l

/-- The nodes behind the one that fills `gsrctmp`. -/
def unreached (p : SrcEntry → Bool) : ℕ → List SrcEntry → List SrcEntry
  | _, [] => []
  | i, s :: l =>
    if p s then if i + 1 = igmpv3MaxSrcnum then l else unreached p (i + 1) l else unreached p i l

theorem reached_append_unreached : reached p i l ++ unreached p i l = l := by
  induction l generalizing i with
  | nil => rfl
  | cons s l ih =>
    rw [reached, unreached]
    split_ifs
    · rfl
    · rw [List.cons_append, ih]
    · rw [List.cons_append, ih]

theorem mem_reached_or_unreached : s ∈ l ↔ s ∈ reached p i l ∨ s ∈ unreached p i l := by
  rw [← List.mem_append, reached_append_unreached]

/-- Of the nodes to be queried, those behind the first 64 are not reached. -/
theorem filter_unreached (hi : i < igmpv3MaxSrcnum) :
    (unreached p i l).filter p = (l.filter p).drop (igmpv3MaxSrcnum - i) := by
  induction l generalizing i with
  | nil => rw [unreached, List.filter_nil, List.drop_nil]
  | cons s l ih =>
    rw [unreached]
    split_ifs with hp hfull
    · rw [List.filter_cons_of_pos hp, show igmpv3MaxSrcnum - i = 0 + 1 by omega, List.drop_succ_cons, List.drop_zero]
    · rw [List.filter_cons_of_pos hp, ih (by omega),
        show igmpv3MaxSrcnum - i = igmpv3MaxSrcnum - (i + 1) + 1 by omega, List.drop_succ_cons]
    · rw [List.filter_cons_of_neg hp, ih hi]

theorem lower_eq : (lower p i l).1 =
    (reached p i l).map (fun s => if p s then { s with timer := lmqt } else s) ++ unreached p i l := by
  induction l generalizing i with
  | nil => rfl
  | cons s l ih =>
    rw [lower, reached, unreached]
    split_ifs with hp hfull
    · rw [List.map_singleton, if_pos hp]
      rfl
    · rw [List.map_cons, if_pos hp, List.cons_append, ← ih]
    · rw [List.map_cons, if_neg hp, List.cons_append, ← ih]

theorem leftOf_lower_of_mem (hl : DistinctSrcs l) :
    (s ∈ reached p i l → leftOf (lower p i l).1 s.srcaddr =
      some (if p s then lastMemberQueryInterval else s.timer.lefttime)) ∧
    (s ∈ unreached p i l → leftOf (lower p i l).1 s.srcaddr = some s.timer.lefttime) := by
  have hl' : DistinctSrcs (lower p i l).1 := by
    rw [DistinctSrcs, Distinct, map_lower]
    exact hl
  constructor
  · intro hs
    have hmem : (if p s then { s with timer := lmqt } else s) ∈ (lower p i l).1 := by
      rw [lower_eq]
      exact List.mem_append_left _ (List.mem_map_of_mem hs)
    have := hl'.leftOf_eq hmem
    split_ifs at this ⊢ <;> exact this
  · intro hs
    refine hl'.leftOf_eq ?_
    rw [lower_eq]
    exact List.mem_append_right _ hs

end Reached

section Exclude

variable {t : Timer} {l old gone : List SrcEntry} {sources : List Reported} {fresh : List Addr}

/-- The new sources for which memory is found, the last one first. -/
def freshSrcs (old : List SrcEntry) (sources : List Reported) : List Addr :=
  (newSources old sources).foldl
    (fun fresh r => if r.malloc && !fresh.contains r.src then r.src :: fresh else fresh) []

theorem get_map_mk {a : Addr} :
    get SrcEntry.srcaddr a (fresh.map (⟨·, t⟩)) = if a ∈ fresh then some ⟨a, t⟩ else none := by
  induction fresh with
  | nil => rfl
  | cons b fresh ih =>
    rw [List.map_cons, get_cons, ih]
    by_cases hb : b = a
    · simp [hb]
    · simp [hb, Ne.symm hb]

theorem putSrc_fresh {r : Reported} (hnew : leftOf old r.src = none) :
    putSrc t (fresh.map (⟨·, t⟩) ++ old) r =
      (if r.malloc && !fresh.contains r.src then r.src :: fresh else fresh).map (⟨·, t⟩) ++ old := by
  have hold : get SrcEntry.srcaddr r.src old = none := Option.map_eq_none_iff.mp hnew
  unfold putSrc addToSrclist
  by_cases hin : r.src ∈ fresh
  · have hget : get SrcEntry.srcaddr r.src (fresh.map (⟨·, t⟩) ++ old) = some ⟨r.src, t⟩ := by
      rw [get_append, get_map_mk, if_pos hin, Option.some_or]
    have hset : checkSrcSet r.src (fresh.map (⟨·, t⟩) ++ old) = true := by
      rw [checkSrcSet_iff, leftOf, hget]
      rintro ⟨⟩
    rw [if_pos hset]
    simp only [List.contains_iff_mem.mpr hin, Bool.not_true, Bool.and_false, Bool.false_eq_true, if_false]
    refine modify_eq_self fun a ha => ?_
    cases Option.some.inj (hget.symm.trans ha)
    rfl
  · have hset : checkSrcSet r.src (fresh.map (⟨·, t⟩) ++ old) = false := by
      rw [checkSrcSet_eq_false_iff, leftOf, get_append, get_map_mk, if_neg hin, hold]
      rfl
    rw [if_neg (Bool.eq_false_iff.mp hset)]
    cases r.malloc with
    | false => rfl
    | true => simp [hin, setTimer, Keyed.modify]

theorem foldl_putSrc_eq {news : List Reported}
    (hnew : ∀ r ∈ news, leftOf old r.src = none) :
    news.foldl (putSrc t) (fresh.map (⟨·, t⟩) ++ old) =
      (news.foldl (fun fresh r => if r.malloc && !fresh.contains r.src then r.src :: fresh else fresh)
        fresh).map (⟨·, t⟩) ++ old := by
  induction news generalizing fresh with
  | nil => rfl
  | cons r news ih =>
    rw [List.foldl_cons, List.foldl_cons, putSrc_fresh (hnew r List.mem_cons_self),
      ih fun r hr => hnew r (List.mem_cons_of_mem _ hr)]

theorem foldl_del_eq (hl : DistinctSrcs l) : gone.foldl (fun l s => delFromSrclist l s.srcaddr) l =
    l.filter fun s => !(gone.map SrcEntry.srcaddr).contains s.srcaddr := by
  induction gone generalizing l with
  | nil => simp
  | cons s gone ih =>
    rw [List.foldl_cons, ih hl.del, delFromSrclist, hl.remove_eq, List.filter_filter]
    congr 1
    simp [Bool.and_comm]

/-- **The list after `IS_EX`**: the new sources in front, and of the old ones those that are reported. -/
theorem exclusive_eq (hl : DistinctSrcs l) : exclusive sources t l =
    (freshSrcs l sources).map (⟨·, t⟩) ++ l.filter fun s => checkSrc s.srcaddr sources := by
  have hnew : ∀ r ∈ newSources l sources, leftOf l r.src = none := fun r hr =>
    (checkSrc_newSources.mp (checkSrc_iff.mpr ⟨r, hr, rfl⟩)).2
  have hput : (newSources l sources).foldl (putSrc t) (([] : List Addr).map (⟨·, t⟩) ++ l) =
      (freshSrcs l sources).map (⟨·, t⟩) ++ l := foldl_putSrc_eq hnew
  rw [List.map_nil, List.nil_append] at hput
  have hl' : DistinctSrcs ((newSources l sources).foldl (putSrc t) l) := hl.foldl_putSrc
  rw [exclusive, foldl_del_eq hl', hput, List.filter_append]
  rw [hput, DistinctSrcs, Distinct, List.map_append] at hl'
  have hgone : ∀ a, a ∈ (l.filter fun s => !checkSrc s.srcaddr sources).map SrcEntry.srcaddr ↔
      a ∈ l.map SrcEntry.srcaddr ∧ checkSrc a sources = false := by
    intro a
    simp only [List.mem_map, List.mem_filter, Bool.not_eq_true']
    constructor
    · rintro ⟨s, ⟨hs, hrep⟩, rfl⟩
      exact ⟨⟨s, hs, rfl⟩, hrep⟩
    · rintro ⟨⟨s, hs, rfl⟩, hrep⟩
      exact ⟨s, ⟨hs, hrep⟩, rfl⟩
  congr 1
  · refine List.filter_eq_self.mpr fun s hs => ?_
    have hout : s.srcaddr ∉ l.map SrcEntry.srcaddr := fun hin =>
      (List.nodup_append.mp hl').2.2 _ (List.mem_map_of_mem hs) _ hin rfl
    simpa using fun h => hout ((hgone _).mp h).1
  · refine List.filter_congr fun s hs => ?_
    have hin := hgone s.srcaddr
    rw [and_iff_right (List.mem_map_of_mem hs)] at hin
    cases hrep : checkSrc s.srcaddr sources with
    | true => simpa using fun h => Bool.false_ne_true ((hin.mp h).symm.trans hrep)
    | false => simpa using hin.mpr hrep

end Exclude

section Include

variable {cfg : Config} {group s : Addr} {sources : List Reported} {rest l : List SrcEntry} {w : World}
  {gsrctmp : List Addr}

def isReported (sources : List Reported) (s : SrcEntry) : Bool := checkSrc s.srcaddr sources

theorem DistinctSrcs.setTimer {t : Timer} (hl : DistinctSrcs l) : DistinctSrcs (setTimer l s t) :=
  Distinct.modify (fun _ h => h) hl

theorem DistinctSrcs.toexLoop (hl : DistinctSrcs l) :
    DistinctSrcs (toexLoop cfg group sources rest (l, w, gsrctmp)).1 := by
  induction rest generalizing l w gsrctmp with
  | nil => exact hl
  | cons x rest ih =>
    rw [Igmp.toexLoop]
    split_ifs
    · exact hl.setTimer
    · exact ih hl.setTimer
    · exact ih hl.del

/-- **The loop of `TO_EX`.** Of the nodes reached, those that are reported are lowered, the others deleted. -/
theorem leftOf_toexLoop (hl : DistinctSrcs l) (hrest : DistinctSrcs rest)
    (hin : ∀ x ∈ rest, leftOf l x.srcaddr ≠ none) :
    leftOf (toexLoop cfg group sources rest (l, w, gsrctmp)).1 s =
      if s ∈ (reached (isReported sources) gsrctmp.length rest).map SrcEntry.srcaddr then
        if checkSrc s sources then some lastMemberQueryInterval else none
      else leftOf l s := by
  induction rest generalizing l w gsrctmp with
  | nil => simp [toexLoop, reached]
  | cons x rest ih =>
    obtain ⟨hx, hrest⟩ := List.nodup_cons.mp hrest
    have hsub : ∀ i, x.srcaddr ∉ (reached (isReported sources) i rest).map SrcEntry.srcaddr := by
      intro i h
      refine hx ?_
      rw [← @reached_append_unreached (isReported sources) i rest, List.map_append]
      exact List.mem_append_left _ h
    have hne : ∀ y ∈ rest, y.srcaddr ≠ x.srcaddr := fun y hy heq => hx (heq ▸ List.mem_map_of_mem hy)
    have hset := @leftOf_setTimer l x.srcaddr lmqt s
    rw [toexLoop, reached]
    cases hrep : checkSrc x.srcaddr sources with
    | true =>
      rw [if_pos rfl, isReported, hrep, if_pos rfl]
      by_cases hfull : gsrctmp.length + 1 = igmpv3MaxSrcnum
      · rw [if_pos hfull, if_pos hfull, hset]
        by_cases hs : s = x.srcaddr
        · subst hs
          simp [hin x List.mem_cons_self, hrep, lmqt]
        · simp [hs]
      · rw [if_neg hfull, if_neg hfull, ih hl.setTimer hrest, List.length_append, List.length_singleton, hset]
        · by_cases hs : s = x.srcaddr
          · subst hs
            simp [hsub, hin x List.mem_cons_self, hrep, lmqt, List.mem_cons, ne_eq, and_self]
          · simp [hs]
        · intro y hy
          rw [leftOf_setTimer, if_neg fun h => hne y hy h.1]
          exact hin y (List.mem_cons_of_mem _ hy)
    | false =>
      rw [if_neg Bool.false_ne_true, isReported, hrep, if_neg Bool.false_ne_true, ih hl.del hrest,
        leftOf_delFromSrclist hl]
      · by_cases hs : s = x.srcaddr
        · subst hs
          simp [hrep]
        · simp [hs]
      · intro y hy
        rw [leftOf_delFromSrclist hl, if_neg (hne y hy)]
        exact hin y (List.mem_cons_of_mem _ hy)

theorem toexLoop_mfc_none {g o : Addr} (h : w.mfc g o = none) :
    (toexLoop cfg group sources rest (l, w, gsrctmp)).2.1.mfc g o = none := by
  induction rest generalizing l w gsrctmp with
  | nil => exact h
  | cons x rest ih =>
    rw [toexLoop]
    split_ifs
    · exact h
    · exact ih h
    · refine ih ?_
      rw [igmpDelMr, World.mfc_setMfc, h, ite_self]

theorem toexLoop_mfc {x : SrcEntry} (hx : x ∈ reached (isReported sources) gsrctmp.length rest)
    (hrep : checkSrc x.srcaddr sources = false) :
    (toexLoop cfg group sources rest (l, w, gsrctmp)).2.1.mfc group (cfg.originAdr x.srcaddr) = none := by
  induction rest generalizing l w gsrctmp with
  | nil => cases hx
  | cons y rest ih =>
    rw [reached] at hx
    rw [toexLoop]
    cases hy : checkSrc y.srcaddr sources with
    | true =>
      have hne : x ≠ y := by
        rintro rfl
        exact Bool.false_ne_true (hrep.symm.trans hy)
      rw [isReported, hy, if_pos rfl] at hx
      rw [if_pos rfl]
      split_ifs at hx ⊢ with hfull
      · exact absurd (List.mem_singleton.mp hx) hne
      · refine ih ?_
        rw [List.length_append, List.length_singleton]
        exact (List.mem_cons.mp hx).resolve_left hne
    | false =>
      rw [isReported, hy, if_neg Bool.false_ne_true] at hx
      rcases List.mem_cons.mp hx with rfl | hx
      · exact toexLoop_mfc_none (by rw [igmpDelMr, World.mfc_setMfc, if_pos ⟨rfl, rfl⟩])
      · exact ih hx

end Include

/-! ## The handler -/

section Toex

variable {cfg : Config} {st : State} {group src s : Addr} {sources : List Reported} {e : McftEntry} {w : World}

theorem querySrcs_mfc (g : Addr) (q : List Addr) : (querySrcs w g q).mfc = w.mfc := by
  unfold querySrcs
  split_ifs <;> rfl

theorem Wf.leftOf_toexSrclist (h : Wf e) : leftOf (toexSrclist cfg sources e w) s =
    if s ∈ (reached (isReported sources) 0 e.srclist).map SrcEntry.srcaddr then
      if checkSrc s sources then some lastMemberQueryInterval else none
    else (leftOf e.srclist s).or (if ⟨s, true⟩ ∈ sources then some 0 else none) := by
  have hnew : ∀ s, leftOf (sources.foldl (newPass cfg e.grpAddr e.srclist ⟨0, 0⟩ false) (e.srclist, w)).1 s =
      (leftOf e.srclist s).or (if ⟨s, true⟩ ∈ sources then some 0 else none) := by
    intro s
    rw [foldl_newPass, foldl_putPass_fst, leftOf_foldl_new]
  have hdist : DistinctSrcs (sources.foldl (newPass cfg e.grpAddr e.srclist ⟨0, 0⟩ false) (e.srclist, w)).1 := by
    rw [foldl_newPass, foldl_putPass_fst]
    exact h.distinct.foldl_putSrc
  unfold toexSrclist
  rw [leftOf_toexLoop hdist h.distinct, hnew]
  · rfl
  · intro x hx
    rw [hnew, h.distinct.leftOf_eq hx]
    nofun

theorem DistinctSrcs.toexSrclist (h : Wf e) : DistinctSrcs (toexSrclist cfg sources e w) := by
  refine DistinctSrcs.toexLoop ?_
  rw [foldl_newPass, foldl_putPass_fst]
  exact h.distinct.foldl_putSrc

theorem wf_toex (h : Wf e) : Wf (toex cfg src sources e w).entry := by
  rw [toex_entry]
  refine ⟨?_, nofun, fun _ => cfg.memberQueryInterval_pos, addUser_users h.users⟩
  split_ifs
  · exact DistinctSrcs.toexSrclist h
  · rw [DistinctSrcs, Distinct, map_lower]
    exact h.distinct.exclusive

structure Excluded (cfg : Config) (sources : List Reported) (e e' : McftEntry) (w' : World) : Prop where
  filter : filterOf e' = (filterOf e).next .changeToExclude (reportedSet sources)
  timer : e'.timer.lefttime = cfg.memberQueryInterval
  lowered : ∀ s, status e'.srclist s = some true → leftOf e'.srclist s = some lastMemberQueryInterval
  routes : e.filterMode = .mcastInclude → ∀ s, leftOf e.srclist s ≠ none → s ∉ reportedSet sources →
    w'.mfc e.grpAddr (cfg.originAdr s) = none

/-- The nodes of an `EXCLUDE` group that are to be queried, in the order of the list. -/
def queried (e : McftEntry) (sources : List Reported) : List SrcEntry :=
  (freshSrcs e.srclist sources).map (⟨·, e.timer.lefttime, 3⟩) ++
    e.srclist.filter fun s => checkSrc s.srcaddr sources && decide (0 < s.timer.lefttime)

/-- New sources find memory, and nothing is left to do for the nodes behind the 64th that is queried. -/
def FitsQuery (e : McftEntry) (sources : List Reported) : Prop :=
  (∀ s ∈ reportedSet sources, leftOf e.srclist s = none → ⟨s, true⟩ ∈ sources) ∧
    match e.filterMode with
    | .mcastInclude => ∀ x ∈ unreached (isReported sources) 0 e.srclist,
        isReported sources x = true ∧ x.timer.lefttime = lastMemberQueryInterval
    | .mcastExclude => ∀ x ∈ (queried e sources).drop igmpv3MaxSrcnum, x.timer.lefttime = lastMemberQueryInterval

theorem filterOf_eq_exc_iff {x y : Set Addr} : filterOf e = .exc x y ↔ e.filterMode = .mcastExclude ∧
    ∀ s, (status e.srclist s = some true ↔ s ∈ x) ∧ (status e.srclist s = some false ↔ s ∈ y) := by
  unfold filterOf
  cases e.filterMode with
  | mcastInclude => exact iff_of_false nofun fun h => nomatch h.1
  | mcastExclude =>
    rw [Filter.exc.injEq, Set.ext_iff, Set.ext_iff, ← forall_and]
    exact (and_iff_right rfl).symm

/-- The sources that the filter names after `TO_EX` are those that are reported. -/
theorem Excluded.status_ne_none_iff {e' : McftEntry} {w' : World} (h : Excluded cfg sources e e' w') :
    status e'.srclist s ≠ none ↔ s ∈ reportedSet sources := by
  have hsplit : status e'.srclist s ≠ none ↔ status e'.srclist s = some true ∨ status e'.srclist s = some false := by
    rcases status e'.srclist s with _ | _ | _ <;> simp
  have hfilter := h.filter
  rw [hsplit]
  cases hf : filterOf e with
  | inc a =>
    rw [hf, Filter.next, filterOf_eq_exc_iff] at hfilter
    rw [(hfilter.2 s).1, (hfilter.2 s).2, ← Set.mem_union, Set.inter_comm, Set.inter_union_sdiff]
  | exc x y =>
    rw [hf, Filter.next, filterOf_eq_exc_iff] at hfilter
    rw [(hfilter.2 s).1, (hfilter.2 s).2, ← Set.mem_union, Set.inter_comm, Set.sdiff_union_inter]

section Exclude

theorem toex_srclist_exclude (hmode : e.filterMode = .mcastExclude) : (toex cfg src sources e w).entry.srclist =
    (lower (fun s => 0 < s.timer.lefttime) 0 (exclusive sources ⟨e.timer.lefttime, 3⟩ e.srclist)).1 := by
  rw [toex_entry]
  rw [hmode, if_neg (by decide)]

variable (h : Wf e) (hmode : e.filterMode = .mcastExclude)
include h hmode

theorem queried_eq : queried e sources =
    (exclusive sources ⟨e.timer.lefttime, 3⟩ e.srclist).filter fun s => 0 < s.timer.lefttime := by
  have hpos : 0 < e.timer.lefttime := h.timer hmode
  rw [exclusive_eq h.distinct, List.filter_append, List.filter_filter, queried]
  congr 1
  · refine (List.filter_eq_self.mpr fun s hs => ?_).symm
    obtain ⟨a, -, rfl⟩ := List.mem_map.mp hs
    exact decide_eq_true hpos
  · refine List.filter_congr fun s _ => ?_
    rw [Bool.and_comm]

/-- Timers run on in the nodes that the loop does not reach. -/
theorem toex_lowered_iff :
    (∀ s, status (toex cfg src sources e w).entry.srclist s = some true →
      leftOf (toex cfg src sources e w).entry.srclist s = some lastMemberQueryInterval) ↔
    ∀ x ∈ (queried e sources).drop igmpv3MaxSrcnum, x.timer.lefttime = lastMemberQueryInterval := by
  have hl : DistinctSrcs (exclusive sources ⟨e.timer.lefttime, 3⟩ e.srclist) := h.distinct.exclusive
  rw [toex_srclist_exclude hmode, queried_eq h hmode]
  generalize exclusive sources ⟨e.timer.lefttime, 3⟩ e.srclist = l at hl ⊢
  have hdrop := filter_unreached (p := fun s => decide (0 < s.timer.lefttime)) (l := l)
    (show 0 < igmpv3MaxSrcnum by decide)
  rw [Nat.sub_zero] at hdrop
  rw [← hdrop]
  constructor
  · intro hlow x hx
    rw [List.mem_filter, decide_eq_true_eq] at hx
    have hleft := (leftOf_lower_of_mem hl).2 hx.1
    have hst := status_of_leftOf hleft
    rw [decide_eq_true hx.2] at hst
    exact Option.some.inj (hleft.symm.trans (hlow _ hst))
  · intro hrest s hs
    rw [status_lower fun _ _ hpos => of_decide_eq_true hpos] at hs
    obtain ⟨x, hx, rfl, hpos⟩ := exists_of_status hs
    rw [← @reached_append_unreached (fun s => decide (0 < s.timer.lefttime)) 0 l, List.mem_append] at hx
    rcases hx with hx | hx
    · rw [(leftOf_lower_of_mem hl).1 hx, hpos, if_pos rfl]
    · rw [(leftOf_lower_of_mem hl).2 hx, hrest x (List.mem_filter.mpr ⟨hx, hpos⟩)]

theorem status_toex_exclude : status (toex cfg src sources e w).entry.srclist s =
    if checkSrc s sources then (status e.srclist s).or (if ⟨s, true⟩ ∈ sources then some true else none)
    else none := by
  have hpos := h.timer hmode
  rw [toex_srclist_exclude hmode, status_lower fun _ _ hpos => of_decide_eq_true hpos, status,
    leftOf_exclusive h.distinct]
  split_ifs
  · rw [Option.map_or, Option.map_some, decide_eq_true hpos]
    rfl
  · rw [Option.map_or]
    rfl
  · rfl

end Exclude

section Include

theorem toex_mfc (hmode : e.filterMode = .mcastInclude) {x : SrcEntry}
    (hx : x ∈ reached (isReported sources) 0 e.srclist) (hrep : checkSrc x.srcaddr sources = false) :
    (toex cfg src sources e w).world.mfc e.grpAddr (cfg.originAdr x.srcaddr) = none := by
  obtain ⟨hgrp, -, hmode', hlist, -⟩ := @addUser_frame src e w
  unfold toex
  generalize addUser e w src = y at hgrp hmode' hlist ⊢
  obtain ⟨⟨_, _, _, _, _, _, _, _⟩, w₁⟩ := y
  subst hgrp hmode' hlist
  rw [hmode]
  rw [querySrcs_mfc]
  exact toexLoop_mfc hx hrep

variable (h : Wf e) (hmode : e.filterMode = .mcastInclude)
include h hmode

theorem leftOf_toex_include : leftOf (toex cfg src sources e w).entry.srclist s =
    if s ∈ (reached (isReported sources) 0 e.srclist).map SrcEntry.srcaddr then
      if checkSrc s sources then some lastMemberQueryInterval else none
    else (leftOf e.srclist s).or (if ⟨s, true⟩ ∈ sources then some 0 else none) := by
  rw [toex_entry]
  rw [if_pos hmode, h.leftOf_toexSrclist]

theorem leftOf_toex_of_mem {x : SrcEntry} :
    (x ∈ reached (isReported sources) 0 e.srclist → leftOf (toex cfg src sources e w).entry.srclist x.srcaddr =
      if isReported sources x then some lastMemberQueryInterval else none) ∧
    (x ∈ unreached (isReported sources) 0 e.srclist →
      leftOf (toex cfg src sources e w).entry.srclist x.srcaddr = some x.timer.lefttime) := by
  have hdist := h.distinct
  rw [← @reached_append_unreached (isReported sources) 0 e.srclist, DistinctSrcs, Distinct, List.map_append,
    List.nodup_append] at hdist
  rw [leftOf_toex_include h hmode]
  constructor
  · intro hx
    rw [if_pos (List.mem_map_of_mem hx)]
    rfl
  · intro hx
    rw [if_neg fun hin => hdist.2.2 _ hin _ (List.mem_map_of_mem hx) rfl,
      h.distinct.leftOf_eq (mem_reached_or_unreached.mpr (.inr hx))]
    rfl

theorem leftOf_toex_new (hnew : leftOf e.srclist s = none) :
    leftOf (toex cfg src sources e w).entry.srclist s = if ⟨s, true⟩ ∈ sources then some 0 else none := by
  have hout : s ∉ (reached (isReported sources) 0 e.srclist).map SrcEntry.srcaddr := by
    intro hin
    obtain ⟨x, hx, rfl⟩ := List.mem_map.mp hin
    exact leftOf_eq_none_iff.mp hnew (List.mem_map_of_mem (mem_reached_or_unreached.mpr (.inl hx)))
  rw [leftOf_toex_include h hmode, if_neg hout, hnew, Option.none_or]

theorem leftOf_toex_of_fits (hmem : ∀ s ∈ reportedSet sources, leftOf e.srclist s = none → ⟨s, true⟩ ∈ sources)
    (hrest : ∀ x ∈ unreached (isReported sources) 0 e.srclist,
      isReported sources x = true ∧ x.timer.lefttime = lastMemberQueryInterval) :
    leftOf (toex cfg src sources e w).entry.srclist s =
      if checkSrc s sources then some (if leftOf e.srclist s = none then 0 else lastMemberQueryInterval)
      else none := by
  cases hold : leftOf e.srclist s with
  | none =>
    rw [leftOf_toex_new h hmode hold, if_pos rfl]
    cases hrep : checkSrc s sources with
    | false =>
      have hout : ⟨s, true⟩ ∉ sources := fun hin =>
        Bool.false_ne_true (hrep.symm.trans (checkSrc_iff.mpr ⟨_, hin, rfl⟩))
      rw [if_neg hout, if_neg Bool.false_ne_true]
    | true => rw [if_pos (hmem s hrep hold), if_pos rfl]
  | some n =>
    obtain ⟨x, hx, rfl, -⟩ := exists_of_leftOf hold
    rw [if_neg (Option.some_ne_none n)]
    rcases (@mem_reached_or_unreached (isReported sources) 0 _ _).mp hx with hx | hx
    · rw [(leftOf_toex_of_mem h hmode).1 hx, isReported]
    · have hrep : checkSrc x.srcaddr sources = true := (hrest x hx).1
      rw [(leftOf_toex_of_mem h hmode).2 hx, hrep, (hrest x hx).2, if_pos rfl]

/-- **`TO_EX` for an `INCLUDE` group.** -/
theorem excluded_include_iff :
    Excluded cfg sources e (toex cfg src sources e w).entry (toex cfg src sources e w).world ↔
      FitsQuery e sources := by
  unfold FitsQuery
  rw [hmode]
  constructor
  · intro hex
    refine ⟨fun s hs hnew => ?_, fun x hx => ?_⟩
    · by_contra hmalloc
      refine hex.status_ne_none_iff.mpr hs ?_
      rw [status_eq_none_iff, leftOf_toex_new h hmode hnew, if_neg hmalloc]
    · have hleft := (@leftOf_toex_of_mem cfg src sources e w h hmode x).2 hx
      have hpos := h.running hmode x (mem_reached_or_unreached.mpr (.inr hx))
      have hstatus := status_of_leftOf hleft
      rw [decide_eq_true hpos] at hstatus
      refine ⟨hex.status_ne_none_iff.mp fun hnone => ?_, Option.some.inj (hleft.symm.trans (hex.lowered _ hstatus))⟩
      rw [hstatus] at hnone
      cases hnone
  · rintro ⟨hmem, hrest⟩
    have hleft := fun s => @leftOf_toex_of_fits cfg src s sources e w h hmode hmem hrest
    refine ⟨filterOf_next h.status_ne (@body_filterMode cfg src sources e w .changeToExclude) fun s => ?_,
      congrArg (·.timer.lefttime) toex_entry, fun s hs => ?_, fun _ s hold hrep => ?_⟩
    · rw [status, hleft, hmode, nextStatus]
      cases hold : leftOf e.srclist s with
      | none =>
        rw [status, hold]
        cases checkSrc s sources <;> rfl
      | some n =>
        obtain ⟨x, hx, rfl, rfl⟩ := exists_of_leftOf hold
        rw [status_of_leftOf hold, decide_eq_true (h.running hmode x hx)]
        cases checkSrc x.srcaddr sources <;> rfl
    · rw [hleft]
      rw [status, hleft] at hs
      split_ifs at hs ⊢ with hrep hold
      · cases hs
      · rfl
      · cases hs
    · obtain ⟨n, hold⟩ := Option.ne_none_iff_exists'.mp hold
      obtain ⟨x, hx, rfl, -⟩ := exists_of_leftOf hold
      have hrep' : checkSrc x.srcaddr sources = false := Bool.eq_false_iff.mpr hrep
      rcases (@mem_reached_or_unreached (isReported sources) 0 _ _).mp hx with hx | hx
      · exact toex_mfc hmode hx hrep'
      · exact absurd (hrest x hx).1 hrep

end Include

/-- **`TO_EX` for an `EXCLUDE` group.** -/
theorem excluded_exclude_iff (h : Wf e) (hmode : e.filterMode = .mcastExclude) :
    Excluded cfg sources e (toex cfg src sources e w).entry (toex cfg src sources e w).world ↔
      FitsQuery e sources := by
  unfold FitsQuery
  rw [hmode]
  constructor
  · intro hex
    refine ⟨fun s hs hnew => ?_, (toex_lowered_iff h hmode).mp hex.lowered⟩
    have hrep : checkSrc s sources = true := hs
    by_contra hmalloc
    refine hex.status_ne_none_iff.mpr hs ?_
    rw [status_toex_exclude h hmode, hrep, if_pos rfl, if_neg hmalloc, status_eq_none_iff.mpr hnew]
    rfl
  · rintro ⟨hmem, hrest⟩
    refine ⟨filterOf_next h.status_ne (@body_filterMode cfg src sources e w .changeToExclude) fun s => ?_,
      congrArg (·.timer.lefttime) toex_entry, (toex_lowered_iff h hmode).mpr hrest,
      fun hinc => nomatch hmode.symm.trans hinc⟩
    rw [status_toex_exclude h hmode, hmode, nextStatus]
    cases hrep : checkSrc s sources with
    | false => rfl
    | true =>
      cases hold : leftOf e.srclist s with
      | none =>
        rw [if_pos (hmem s hrep hold)]
        rfl
      | some n =>
        rw [status_of_leftOf hold]
        rfl

/-- What a group that the handler does not look at has to be like. -/
def Unmoved (cfg : Config) (e : McftEntry) (sources : List Reported) : Prop :=
  e.filterMode = .mcastExclude ∧ e.timer.lefttime = cfg.memberQueryInterval ∧
    (∀ s, s ∈ reportedSet sources ↔ leftOf e.srclist s ≠ none) ∧
    ∀ x ∈ e.srclist, x.timer.lefttime ≤ lastMemberQueryInterval

theorem excluded_self_iff (h : Wf e) : Excluded cfg sources e e w ↔ Unmoved cfg e sources := by
  constructor
  · intro hex
    have hmode : e.filterMode = .mcastExclude := by
      have hfilter := hex.filter
      cases hf : filterOf e <;> rw [hf, Filter.next, ← hf] at hfilter <;> exact (filterOf_eq_exc_iff.mp hfilter).1
    refine ⟨hmode, hex.timer, fun s => ?_, fun x hx => ?_⟩
    · rw [← hex.status_ne_none_iff, Ne, Ne, status_eq_none_iff]
    · have hleft := h.distinct.leftOf_eq hx
      by_cases hpos : 0 < x.timer.lefttime
      · have hstatus := status_of_leftOf hleft
        rw [decide_eq_true hpos] at hstatus
        exact (Option.some.inj (hleft.symm.trans (hex.lowered _ hstatus))).le
      · exact (Nat.eq_zero_of_not_pos hpos).trans_le (Nat.zero_le _)
  · rintro ⟨hmode, htimer, hrep, hlow⟩
    refine ⟨filterOf_next h.status_ne ?_ fun s => ?_, htimer, fun s hs => ?_,
      fun hinc => by cases hmode.symm.trans hinc⟩
    · rw [hmode, nextMode]
    · have hrep := hrep s
      rw [nextStatus]
      cases hold : leftOf e.srclist s with
      | none =>
        have hout : checkSrc s sources ≠ true := fun hin => hrep.mp hin hold
        rw [if_neg hout, status_eq_none_iff, hold]
      | some n =>
        have hin : checkSrc s sources = true := hrep.mpr (hold ▸ Option.some_ne_none n)
        rw [if_pos hin, status_of_leftOf hold, Option.some_or]
    · obtain ⟨x, hx, rfl, hpos⟩ := exists_of_status hs
      rw [h.distinct.leftOf_eq hx]
      exact congrArg some (le_antisymm (hlow x hx) (of_decide_eq_true hpos))

/-- **When `TO_EX` does what it should**: if nothing is left to do behind the 64th node that is queried. -/
theorem toex_excludes_iff (hget : getMcft st group = some e) (h : Wf e) :
    (∃ e', getMcft (handleIgmpv3Toex cfg st group src sources) group = some e' ∧
      Excluded cfg sources e e' (handleIgmpv3Toex cfg st group src sources).world) ↔
    if inMulticast group = true ∧ reserved group = false then FitsQuery e sources else Unmoved cfg e sources := by
  have hgrp : e.grpAddr = group := (mem_of_get hget).2
  split_ifs with hacts
  · have hbody : (toex cfg src sources e st.world).entry.grpAddr = group :=
      (@body_grpAddr cfg src sources e st.world .changeToExclude).trans hgrp
    have hstep : handleIgmpv3Toex cfg st group src sources = apply st group (toex cfg src sources) :=
      onGroup_of_get hacts.1 hacts.2 hget
    have hworld : (apply st group (toex cfg src sources)).world = (toex cfg src sources e st.world).world := by
      unfold apply
      rw [hget]
      dsimp only
      rw [toex_drop, if_neg Bool.false_ne_true]
    rw [hstep, getMcft_apply hget hbody toex_drop, if_pos rfl, hworld]
    have hex : Excluded cfg sources e (toex cfg src sources e st.world).entry (toex cfg src sources e st.world).world ↔
        FitsQuery e sources := by
      cases hmode : e.filterMode with
      | mcastInclude => exact excluded_include_iff h hmode
      | mcastExclude => exact excluded_exclude_iff h hmode
    rw [← hex]
    constructor
    · rintro ⟨e', he', hex⟩
      cases he'
      exact hex
    · intro hex
      exact ⟨_, rfl, hex⟩
  · have hstep : handleIgmpv3Toex cfg st group src sources = st := by
      unfold handleIgmpv3Toex onGroup
      cases hmulti : inMulticast group with
      | false => rfl
      | true =>
        cases hres : reserved group with
        | false => exact absurd ⟨hmulti, hres⟩ hacts
        | true => rfl
    rw [hstep, hget, ← excluded_self_iff h]
    constructor
    · rintro ⟨e', he', hex⟩
      cases he'
      exact hex
    · intro hex
      exact ⟨_, rfl, hex⟩

end Toex

theorem askedEntry_excluded : ∃ e',
    getMcft (handleIgmpv3Toex plainConfig askedState 0xef010203 0xc0a80103 askedReport) 0xef010203 = some e' ∧
    Excluded plainConfig askedReport askedEntry e'
      (handleIgmpv3Toex plainConfig askedState 0xef010203 0xc0a80103 askedReport).world := by
  refine (toex_excludes_iff rfl askedEntry_wf).mpr ?_
  have hrest : ∀ x ∈ unreached (isReported askedReport) 0 askedEntry.srclist,
      isReported askedReport x = true ∧ x.timer.lefttime = lastMemberQueryInterval := by decide
  exact ⟨fun s hs _ => (mem_of_checkSrc (by decide)).mpr hs, hrest⟩

def crowd : List Reported := (List.range 65).map fun i => ⟨0x0a000001 + UInt32.ofNat i, true⟩

def crowdedState : State := handleRecord plainConfig init 0xef010203 0xc0a80102 crowd.reverse .allowNewSources

def crowdedEntry : McftEntry := { newEntry 0xef010203 0xc0a80102 with
  srclist := crowd.map fun r => ⟨r.src, plainConfig.gmi⟩ }

/-- **The last source of the list stays.** It is not reported, but the loop ends before it. -/
theorem crowdedEntry_keeps_last : getMcft crowdedState 0xef010203 = some crowdedEntry ∧ Wf crowdedEntry ∧
    checkSrc 0x0a000041 (crowd.take 64) = false ∧
    ∀ e', getMcft (handleIgmpv3Toex plainConfig crowdedState 0xef010203 0xc0a80102 (crowd.take 64)) 0xef010203 =
        some e' →
      leftOf e'.srclist 0x0a000041 = some 150 ∧
      ¬ Excluded plainConfig (crowd.take 64) crowdedEntry e'
        (handleIgmpv3Toex plainConfig crowdedState 0xef010203 0xc0a80102 (crowd.take 64)).world := by
  have hrep : checkSrc 0x0a000041 (crowd.take 64) = false := by decide +kernel
  refine ⟨by decide +kernel, ⟨by decide +kernel, by decide +kernel, by decide, rfl⟩, hrep, fun e' he' => ?_⟩
  have hlast : (getMcft (handleIgmpv3Toex plainConfig crowdedState 0xef010203 0xc0a80102 (crowd.take 64))
      0xef010203).map (leftOf ·.srclist 0x0a000041) = some (some 150) := by decide +kernel
  rw [he', Option.map_some, Option.some.injEq] at hlast
  refine ⟨hlast, fun hex => ?_⟩
  have hin : checkSrc 0x0a000041 (crowd.take 64) = true := by
    refine hex.status_ne_none_iff.mp ?_
    rw [status_of_leftOf hlast]
    exact Option.some_ne_none _
  exact Bool.false_ne_true (hrep.symm.trans hin)

end NasFirmware.Igmp
