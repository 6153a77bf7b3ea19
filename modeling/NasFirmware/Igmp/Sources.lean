import NasFirmware.Igmp.Model

/-!
# Source lists

What the loops of the handlers do to a list of sources, said for one source at a time.
-/

namespace NasFirmware.Igmp

open Keyed

/-! ## What a list says about a source -/

def leftOf (l : List SrcEntry) (s : Addr) : Option ℕ := (get SrcEntry.srcaddr s l).map (·.timer.lefttime)

/-- Whether a source is in the list, and if so, whether its timer runs. -/
def status (l : List SrcEntry) (s : Addr) : Option Bool := (leftOf l s).map (decide <| 0 < ·)

abbrev DistinctSrcs (l : List SrcEntry) : Prop := Distinct SrcEntry.srcaddr l

variable {l old : List SrcEntry} {s group : Addr} {t : Timer} {cfg : Config} {sources : List Reported} {x : List SrcEntry × World}

section Lists

variable {l₁ : List SrcEntry} {s' : Addr} {m : Bool}

theorem leftOf_eq_none_iff : leftOf l s = none ↔ s ∉ l.map SrcEntry.srcaddr := by
  rw [leftOf, Option.map_eq_none_iff, get_eq_none_iff]

theorem checkSrcSet_iff : checkSrcSet s l = true ↔ leftOf l s ≠ none := by
  rw [Ne, leftOf_eq_none_iff, not_not, checkSrcSet, List.any_eq_true, List.mem_map]
  simp

theorem checkSrcSet_eq_false_iff : checkSrcSet s l = false ↔ leftOf l s = none := by
  rw [← Bool.not_eq_true, checkSrcSet_iff, not_not]

theorem DistinctSrcs.leftOf_eq (hl : DistinctSrcs l) {e : SrcEntry} (he : e ∈ l) :
    leftOf l e.srcaddr = some e.timer.lefttime := by
  rw [leftOf, hl.get_eq he, Option.map_some]

theorem status_of_leftOf {n : ℕ} (h : leftOf l s = some n) : status l s = some (decide (0 < n)) := by
  rw [status, h, Option.map_some]

theorem status_eq_none_iff : status l s = none ↔ leftOf l s = none := Option.map_eq_none_iff

theorem exists_of_leftOf {n : ℕ} (h : leftOf l s = some n) : ∃ e ∈ l, e.srcaddr = s ∧ e.timer.lefttime = n := by
  obtain ⟨e, he, hn⟩ := Option.map_eq_some_iff.mp h
  exact ⟨e, (mem_of_get he).1, (mem_of_get he).2, hn⟩

theorem exists_of_status {b : Bool} (h : status l s = some b) :
    ∃ e ∈ l, e.srcaddr = s ∧ decide (0 < e.timer.lefttime) = b := by
  obtain ⟨n, hn, hb⟩ := Option.map_eq_some_iff.mp h
  obtain ⟨e, he, hs, rfl⟩ := exists_of_leftOf hn
  exact ⟨e, he, hs, hb⟩

theorem running_iff (hl : DistinctSrcs l) : (∀ e ∈ l, 0 < e.timer.lefttime) ↔ ∀ s, status l s ≠ some false := by
  constructor
  · intro h s hs
    obtain ⟨e, he, -, hzero⟩ := exists_of_status hs
    exact of_decide_eq_false hzero (h e he)
  · intro h e he
    by_contra hzero
    refine h e.srcaddr ?_
    rw [status_of_leftOf (hl.leftOf_eq he), decide_eq_false hzero]

theorem leftOf_append {l₂ : List SrcEntry} : leftOf (l ++ l₂) s = (leftOf l s).or (leftOf l₂ s) := by
  rw [leftOf, get_append, Option.map_or]
  rfl

theorem leftOf_setTimer :
    leftOf (setTimer l s t) s' = if s' = s ∧ leftOf l s ≠ none then some t.lefttime else leftOf l s' := by
  have hkey : ∀ e : SrcEntry, e.srcaddr = s → SrcEntry.srcaddr { e with timer := t } = s := fun _ h => h
  unfold leftOf setTimer
  rw [get_modify hkey]
  by_cases hs : s' = s
  · subst hs
    cases get SrcEntry.srcaddr s' l <;> simp
  · simp [hs]

theorem addToSrclist_eq_none_iff : addToSrclist l s m = none ↔ leftOf l s = none ∧ m = false := by
  unfold addToSrclist
  split_ifs with hold hm
  · exact iff_of_false nofun fun h => checkSrcSet_iff.mp hold h.1
  · exact iff_of_false nofun fun h => Bool.false_ne_true (h.2.symm.trans hm)
  · exact iff_of_true rfl ⟨checkSrcSet_eq_false_iff.mp (Bool.eq_false_iff.mpr hold), Bool.eq_false_iff.mpr hm⟩

theorem leftOf_put (h : addToSrclist l s m = some l₁) :
    leftOf (setTimer l₁ s t) s' = if s' = s then some t.lefttime else leftOf l s' := by
  unfold addToSrclist at h
  split_ifs at h with hold hm
  · cases h
    rw [leftOf_setTimer]
    simp [checkSrcSet_iff.mp hold]
  · cases h
    rw [leftOf_setTimer]
    have hnew : leftOf (⟨s, ⟨0, 0⟩⟩ :: l) s = some 0 := by rw [leftOf, get_cons, if_pos rfl]; rfl
    by_cases hs : s' = s
    · simp [hs, hnew]
    · rw [if_neg (fun h => hs h.1), if_neg hs, leftOf, get_cons, if_neg (Ne.symm hs)]
      rfl

theorem DistinctSrcs.put (hl : DistinctSrcs l) (h : addToSrclist l s m = some l₁) :
    DistinctSrcs (setTimer l₁ s t) := by
  refine Distinct.modify (fun _ h => h) ?_
  unfold addToSrclist at h
  split_ifs at h with hold hm
  · cases h
    exact hl
  · cases h
    have hnew := checkSrcSet_eq_false_iff.mp (Bool.eq_false_iff.mpr hold)
    exact List.nodup_cons.mpr ⟨leftOf_eq_none_iff.mp hnew, hl⟩

theorem DistinctSrcs.del (hl : DistinctSrcs l) : DistinctSrcs (delFromSrclist l s) := hl.remove

theorem leftOf_delFromSrclist (hl : DistinctSrcs l) :
    leftOf (delFromSrclist l s) s' = if s' = s then none else leftOf l s' := by
  rw [leftOf, delFromSrclist, get_remove hl, leftOf]
  split_ifs <;> rfl

end Lists

/-! ## Loops over the reported sources -/

section Report

variable {enable : Bool}

theorem checkSrc_iff : checkSrc s sources = true ↔ ∃ r ∈ sources, r.src = s := by
  rw [checkSrc, List.any_eq_true]
  simp

def putSrc (t : Timer) (l : List SrcEntry) (r : Reported) : List SrcEntry :=
  match addToSrclist l r.src r.malloc with
  | some l₁ => setTimer l₁ r.src t
  | none => l

theorem includePass_fst (r : Reported) : (includePass cfg group old x r).1 = putSrc cfg.gmi x.1 r := by
  unfold includePass putSrc
  cases addToSrclist x.1 r.src r.malloc <;> rfl

theorem putPass_fst (r : Reported) : (putPass cfg group t enable x r).1 = putSrc t x.1 r := by
  unfold putPass putSrc
  cases addToSrclist x.1 r.src r.malloc <;> rfl

theorem foldl_includePass_fst :
    (sources.foldl (includePass cfg group old) x).1 = sources.foldl (putSrc cfg.gmi) x.1 :=
  (List.foldl_hom Prod.fst fun _ r => (includePass_fst r).symm).symm

theorem foldl_putPass_fst :
    (sources.foldl (putPass cfg group t enable) x).1 = sources.foldl (putSrc t) x.1 :=
  (List.foldl_hom Prod.fst fun _ r => (putPass_fst r).symm).symm

def newSources (old : List SrcEntry) (sources : List Reported) : List Reported :=
  sources.filter fun r => !checkSrcSet r.src old

theorem foldl_newPass : sources.foldl (newPass cfg group old t enable) x =
    (newSources old sources).foldl (putPass cfg group t enable) x := by
  rw [newSources, List.foldl_filter]
  congr
  funext x r
  unfold newPass
  cases checkSrcSet r.src old <;> rfl

theorem checkSrc_newSources : checkSrc s (newSources old sources) = true ↔
    checkSrc s sources = true ∧ leftOf old s = none := by
  rw [checkSrc_iff, checkSrc_iff]
  constructor
  · rintro ⟨r, hr, rfl⟩
    obtain ⟨hmem, hnew⟩ := List.mem_filter.mp hr
    exact ⟨⟨r, hmem, rfl⟩, checkSrcSet_eq_false_iff.mp (by simpa using hnew)⟩
  · rintro ⟨⟨r, hr, rfl⟩, hnew⟩
    refine ⟨r, List.mem_filter.mpr ⟨hr, ?_⟩, rfl⟩
    rw [checkSrcSet_eq_false_iff.mpr hnew]
    rfl

theorem leftOf_putSrc (r : Reported) : leftOf (putSrc t l r) s =
    if s = r.src ∧ (leftOf l s ≠ none ∨ r.malloc = true) then some t.lefttime else leftOf l s := by
  unfold putSrc
  cases hadd : addToSrclist l r.src r.malloc with
  | none =>
    obtain ⟨hnew, hm⟩ := addToSrclist_eq_none_iff.mp hadd
    refine (if_neg ?_).symm
    rintro ⟨rfl, hold | hm'⟩
    · exact hold hnew
    · exact Bool.false_ne_true (hm.symm.trans hm')
  | some l₁ =>
    rw [leftOf_put hadd]
    by_cases hs : s = r.src
    · subst hs
      have hok : leftOf l r.src ≠ none ∨ r.malloc = true := by
        by_contra hno
        rw [not_or, not_not, Bool.not_eq_true] at hno
        rw [addToSrclist_eq_none_iff.mpr hno] at hadd
        cases hadd
      rw [if_pos rfl, if_pos ⟨rfl, hok⟩]
    · rw [if_neg hs, if_neg fun h => hs h.1]

theorem DistinctSrcs.putSrc (hl : DistinctSrcs l) (r : Reported) : DistinctSrcs (putSrc t l r) := by
  unfold Igmp.putSrc
  cases hadd : addToSrclist l r.src r.malloc with
  | none => exact hl
  | some l₁ => exact hl.put hadd

theorem DistinctSrcs.foldl_putSrc (hl : DistinctSrcs l) : DistinctSrcs (sources.foldl (Igmp.putSrc t) l) :=
  List.foldlRecOn sources _ hl fun _ h r _ => h.putSrc r

/-- **The sources after a loop.** Those reported have the timer `t`, if they were there or memory was found. -/
theorem leftOf_foldl_putSrc : leftOf (sources.foldl (putSrc t) l) s =
    if checkSrc s sources ∧ (leftOf l s ≠ none ∨ ⟨s, true⟩ ∈ sources) then some t.lefttime else leftOf l s := by
  induction sources generalizing l with
  | nil => simp [checkSrc]
  | cons r sources ih =>
    obtain ⟨a, m⟩ := r
    rw [List.foldl_cons, ih, leftOf_putSrc]
    by_cases hs : s = a
    · subst hs
      by_cases hmem : (⟨s, true⟩ : Reported) ∈ sources
      · have hrep : ∃ r ∈ sources, r.src = s := ⟨_, hmem, rfl⟩
        cases m <;> simp [checkSrc, hmem, hrep]
      · cases hl : leftOf l s <;> cases m <;> simp [checkSrc, hmem]
    · simp [checkSrc, hs, Ne.symm hs]

theorem leftOf_foldl_new : leftOf ((newSources l sources).foldl (putSrc t) l) s =
    (leftOf l s).or (if ⟨s, true⟩ ∈ sources then some t.lefttime else none) := by
  rw [leftOf_foldl_putSrc]
  simp only [checkSrc_newSources]
  cases hs : leftOf l s with
  | some n => simp
  | none =>
    have hmem : (⟨s, true⟩ : Reported) ∈ newSources l sources ↔ ⟨s, true⟩ ∈ sources := by
      rw [newSources, List.mem_filter, checkSrcSet_eq_false_iff.mpr hs]
      exact and_iff_left rfl
    have hrep : (⟨s, true⟩ : Reported) ∈ sources → checkSrc s sources = true := fun h =>
      checkSrc_iff.mpr ⟨_, h, rfl⟩
    simp only [hmem, and_true, ne_eq, not_true_eq_false, false_or, Option.none_or]
    exact if_congr (and_iff_right_of_imp hrep) rfl rfl

theorem mem_of_checkSrc (hmalloc : ∀ r ∈ sources, r.malloc = true) :
    (⟨s, true⟩ : Reported) ∈ sources ↔ checkSrc s sources = true := by
  rw [checkSrc_iff]
  constructor
  · exact fun h => ⟨_, h, rfl⟩
  · rintro ⟨⟨a, m⟩, hr, rfl⟩
    obtain rfl : m = true := hmalloc _ hr
    exact hr

end Report

/-! ## Loops over the list -/

section Walk

variable {gone : List SrcEntry} {p : SrcEntry → Bool} {i n : ℕ}

theorem foldl_deletePass_fst : (old.foldl (deletePass cfg group p) x).1 =
    (old.filter p).foldl (fun l e => delFromSrclist l e.srcaddr) x.1 := by
  rw [List.foldl_filter]
  refine (List.foldl_hom Prod.fst fun x e => ?_).symm
  unfold deletePass
  split_ifs <;> rfl

theorem DistinctSrcs.foldl_del (hl : DistinctSrcs l) :
    DistinctSrcs (gone.foldl (fun l e => delFromSrclist l e.srcaddr) l) :=
  List.foldlRecOn gone _ hl fun _ h _ _ => h.del

theorem leftOf_foldl_del (hl : DistinctSrcs l) : leftOf (gone.foldl (fun l e => delFromSrclist l e.srcaddr) l) s =
    if s ∈ gone.map SrcEntry.srcaddr then none else leftOf l s := by
  induction gone generalizing l with
  | nil => simp
  | cons e gone ih =>
    rw [List.foldl_cons, ih hl.del, leftOf_delFromSrclist hl]
    by_cases hs : s = e.srcaddr <;> simp [hs]

/-- The list after `IS_EX`: new sources get timer `t`, and sources that are not reported are deleted. -/
def exclusive (sources : List Reported) (t : Timer) (l : List SrcEntry) : List SrcEntry :=
  (l.filter fun s => !checkSrc s.srcaddr sources).foldl (fun l s => delFromSrclist l s.srcaddr)
    ((newSources l sources).foldl (putSrc t) l)

theorem DistinctSrcs.exclusive (hl : DistinctSrcs l) : DistinctSrcs (exclusive sources t l) :=
  hl.foldl_putSrc.foldl_del

theorem leftOf_exclusive (hl : DistinctSrcs l) : leftOf (exclusive sources t l) s =
    if checkSrc s sources then (leftOf l s).or (if ⟨s, true⟩ ∈ sources then some t.lefttime else none) else none := by
  rw [Igmp.exclusive, leftOf_foldl_del hl.foldl_putSrc, leftOf_foldl_new]
  cases hrep : checkSrc s sources with
  | true =>
    have hkept : s ∉ (l.filter fun s => !checkSrc s.srcaddr sources).map SrcEntry.srcaddr := by
      rintro h
      obtain ⟨e, he, rfl⟩ := List.mem_map.mp h
      have := (List.mem_filter.mp he).2
      rw [hrep] at this
      cases this
    rw [if_neg hkept, if_pos rfl]
  | false =>
    have hnew : (⟨s, true⟩ : Reported) ∉ sources := fun h =>
      Bool.false_ne_true (hrep.symm.trans (checkSrc_iff.mpr ⟨_, h, rfl⟩))
    rw [if_neg hnew, Option.or_none, if_neg Bool.false_ne_true, ite_eq_left_iff, leftOf_eq_none_iff]
    intro hkept hmem
    obtain ⟨e, he, rfl⟩ := List.mem_map.mp hmem
    exact hkept (List.mem_map_of_mem (List.mem_filter.mpr ⟨he, by rw [hrep]; rfl⟩))

theorem map_lower : (lower p i l).1.map SrcEntry.srcaddr = l.map SrcEntry.srcaddr := by
  induction l generalizing i with
  | nil => rfl
  | cons e l ih =>
    rw [lower]
    split_ifs
    · rfl
    · exact congrArg (e.srcaddr :: ·) ih
    · exact congrArg (e.srcaddr :: ·) ih

theorem status_lower (hp : ∀ e ∈ l, p e = true → 0 < e.timer.lefttime) : status (lower p i l).1 s = status l s := by
  induction l generalizing i with
  | nil => rfl
  | cons e l ih =>
    have htail := fun i => @ih i fun e he => hp e (List.mem_cons_of_mem _ he)
    have hcons : ∀ (e' : SrcEntry) (l' : List SrcEntry),
        status (e' :: l') s = if e'.srcaddr = s then some (decide (0 < e'.timer.lefttime)) else status l' s := by
      intro e' l'
      rw [status, leftOf, get_cons]
      split_ifs <;> rfl
    rw [lower]
    split_ifs with hpe hfull
    · rw [hcons, hcons, decide_eq_true (hp e List.mem_cons_self hpe)]
      rfl
    · rw [hcons, hcons, decide_eq_true (hp e List.mem_cons_self hpe), htail]
      rfl
    · rw [hcons, hcons, htail]

theorem map_lowerOld : (lowerOld p n l).1.map SrcEntry.srcaddr = l.map SrcEntry.srcaddr := by
  rw [lowerOld, List.map_append, map_lower, ← List.map_append, List.take_append_drop]

theorem status_lowerOld (hp : ∀ e ∈ l, p e = true → 0 < e.timer.lefttime) :
    status (lowerOld p n l).1 s = status l s := by
  have hlow : status (lower p 0 (l.drop (l.length - n))).1 s = status (l.drop (l.length - n)) s :=
    status_lower fun e he => hp e (List.mem_of_mem_drop he)
  have happ : ∀ l₁ l₂ : List SrcEntry, status (l₁ ++ l₂) s = (status l₁ s).or (status l₂ s) := fun l₁ l₂ => by
    rw [status, leftOf_append, Option.map_or]
    rfl
  rw [lowerOld, happ, hlow, ← happ, List.take_append_drop]

end Walk

end NasFirmware.Igmp
