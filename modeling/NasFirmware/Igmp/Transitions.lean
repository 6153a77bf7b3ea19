import NasFirmware.Igmp.Sources

/-!
# Filter transitions

What the records do to the filter of a group, as sets of sources.

* **`record_transition`**: the transitions of all records but `TO_EX`.
-/

namespace NasFirmware.Igmp

open Keyed

/-! ## Filters -/

/-- `IN(A)`, or `EX(X, Y)`: the sources that are asked for or wait to be blocked, and the blocked ones. -/
inductive Filter where
  | inc (a : Set Addr)
  | exc (x y : Set Addr)

/-- The transitions that the comments in the handlers state. -/
def Filter.next : RecordType → Filter → Set Addr → Filter
  | .modeIsInclude, .inc a, b | .changeToInclude, .inc a, b | .allowNewSources, .inc a, b => .inc (a ∪ b)
  | .modeIsInclude, .exc x y, a | .changeToInclude, .exc x y, a | .allowNewSources, .exc x y, a =>
    .exc (x ∪ a) (y \ a)
  | .modeIsExclude, .inc a, b | .changeToExclude, .inc a, b => .exc (a ∩ b) (b \ a)
  | .modeIsExclude, .exc _ y, a | .changeToExclude, .exc _ y, a => .exc (a \ y) (y ∩ a)
  | .blockOldSources, .inc a, _ => .inc a
  | .blockOldSources, .exc x y, a => .exc (x ∪ (a \ y)) y

def filterOf (e : McftEntry) : Filter :=
  match e.filterMode with
  | .mcastInclude => .inc {s | status e.srclist s ≠ none}
  | .mcastExclude => .exc {s | status e.srclist s = some true} {s | status e.srclist s = some false}

def reportedSet (sources : List Reported) : Set Addr := {s | checkSrc s sources = true}

def nextMode : RecordType → FilterMode → FilterMode
  | .modeIsExclude, _ | .changeToExclude, _ => .mcastExclude
  | _, mode => mode

/-- The status of one source after a record that reports it or does not. -/
def nextStatus : RecordType → FilterMode → Bool → Option Bool → Option Bool
  | .modeIsInclude, _, reported, st | .changeToInclude, _, reported, st | .allowNewSources, _, reported, st =>
    if reported then some true else st
  | .modeIsExclude, mode, reported, st | .changeToExclude, mode, reported, st =>
    if reported then st.or (some (mode = .mcastExclude)) else none
  | .blockOldSources, .mcastInclude, _, st => st
  | .blockOldSources, .mcastExclude, reported, st => if reported then st.or (some true) else st

theorem filterOf_next {type : RecordType} {e e' : McftEntry} {sources : List Reported}
    (hrun : e.filterMode = .mcastInclude → ∀ s, status e.srclist s ≠ some false)
    (hmode : e'.filterMode = nextMode type e.filterMode)
    (hst : ∀ s, status e'.srclist s = nextStatus type e.filterMode (checkSrc s sources) (status e.srclist s)) :
    filterOf e' = (filterOf e).next type (reportedSet sources) := by
  unfold filterOf
  rw [hmode]
  cases hm : e.filterMode with
  | mcastInclude =>
    rw [hm] at hst
    have hst' : ∀ s, status e.srclist s = none ∨ status e.srclist s = some true := fun s => by
      have hne := hrun hm s
      rcases hs : status e.srclist s with _ | _ | _
      · exact .inl rfl
      · exact absurd hs hne
      · exact .inr rfl
    cases type <;> simp only [nextMode, Filter.next, Filter.inc.injEq, Filter.exc.injEq]
    all_goals first | ext s | refine ⟨?_, ?_⟩ <;> ext s
    all_goals
      rcases hst' s with hs | hs <;> cases hr : checkSrc s sources <;> simp [reportedSet, hst s, nextStatus, hs]
  | mcastExclude =>
    rw [hm] at hst
    cases type <;> simp only [nextMode, Filter.next, Filter.exc.injEq]
    all_goals refine ⟨?_, ?_⟩ <;> ext s
    all_goals
      rcases hs : status e.srclist s with _ | _ | _ <;> cases hr : checkSrc s sources <;>
        simp [reportedSet, hst s, nextStatus, hs]

/-- A group in the table: sources are distinct, the timers of an `INCLUDE` group run, an `EXCLUDE` group has time
left, and members are counted. -/
structure Wf (e : McftEntry) : Prop where
  distinct : DistinctSrcs e.srclist
  running : e.filterMode = .mcastInclude → ∀ s ∈ e.srclist, 0 < s.timer.lefttime
  timer : e.filterMode = .mcastExclude → 0 < e.timer.lefttime
  users : e.userCount = e.grpMbr.length

theorem Wf.status_ne {e : McftEntry} (h : Wf e) (hmode : e.filterMode = .mcastInclude) (s : Addr) :
    status e.srclist s ≠ some false :=
  (running_iff h.distinct).mp (h.running hmode) s

theorem Config.memberQueryInterval_pos (cfg : Config) : 0 < cfg.memberQueryInterval := by
  unfold Config.memberQueryInterval
  split_ifs <;> decide

variable {cfg : Config} {src : Addr} {sources : List Reported} {e : McftEntry} {w : World}

section Bodies

variable {s : Addr} {l : List SrcEntry} {t : Timer}

@[simp] theorem addUser_frame :
    (addUser e w src).1.grpAddr = e.grpAddr ∧ (addUser e w src).1.timer = e.timer ∧
      (addUser e w src).1.filterMode = e.filterMode ∧ (addUser e w src).1.srclist = e.srclist ∧
      (addUser e w src).1.mrtState = e.mrtState ∧ (addUser e w src).2.mfc = w.mfc := by
  unfold addUser
  split_ifs <;> exact ⟨rfl, rfl, rfl, rfl, rfl, rfl⟩

theorem addUser_eq : ∃ mbr n w', addUser e w src = ({ e with grpMbr := mbr, userCount := n }, w') ∧ w'.mfc = w.mfc := by
  unfold addUser
  split_ifs
  · exact ⟨_, _, _, rfl, rfl⟩
  · exact ⟨_, _, _, rfl, rfl⟩
  · exact ⟨_, _, _, rfl, rfl⟩

theorem addUser_users (h : e.userCount = e.grpMbr.length) :
    (addUser e w src).1.userCount = (addUser e w src).1.grpMbr.length := by
  unfold addUser
  split_ifs
  · exact h
  · exact h
  · exact congrArg (· + 1) h

@[simp] theorem delUser_frame :
    (delUser e w src).1.grpAddr = e.grpAddr ∧ (delUser e w src).1.timer = e.timer ∧
      (delUser e w src).1.filterMode = e.filterMode ∧ (delUser e w src).1.srclist = e.srclist ∧
      (delUser e w src).1.mrtState = e.mrtState ∧ (delUser e w src).2.mfc = w.mfc := by
  unfold delUser
  split_ifs <;> exact ⟨rfl, rfl, rfl, rfl, rfl, rfl⟩

theorem delUser_grpMbr : (delUser e w src).1.grpMbr = e.grpMbr.erase src := by
  unfold delUser
  split_ifs with hmem
  · rfl
  · exact (List.erase_of_not_mem hmem).symm

theorem delUser_users (h : e.userCount = e.grpMbr.length) :
    (delUser e w src).1.userCount = (delUser e w src).1.grpMbr.length := by
  rw [delUser_grpMbr]
  unfold delUser
  split_ifs with hmem
  · rw [List.length_erase_of_mem hmem, ← h]
  · rw [List.erase_of_not_mem hmem, h]

/-! ### What the records do to an entry -/

theorem isin_entry : (isin cfg src sources e w).entry =
    { (addUser e w src).1 with srclist := sources.foldl (putSrc cfg.gmi) e.srclist } := by
  unfold isin
  cases hmode : (addUser e w src).1.filterMode <;> dsimp only
  · rw [foldl_includePass_fst, addUser_frame.2.2.2.1, hmode]
  · rw [excludePass, foldl_putPass_fst, addUser_frame.2.2.2.1, hmode]

theorem isex_entry : (isex cfg src sources e w).entry =
    { (addUser e w src).1 with
      srclist := exclusive sources (if e.filterMode = .mcastInclude then ⟨0, 0⟩ else cfg.gmi) e.srclist
      timer := cfg.gmi
      filterMode := .mcastExclude } := by
  unfold isex exclusive
  dsimp only
  rw [missingPass, foldl_deletePass_fst, foldl_newPass, foldl_putPass_fst, addUser_frame.2.2.2.1,
    addUser_frame.2.2.1]
  cases e.filterMode <;> rfl

def toinLowers (mode : FilterMode) (sources : List Reported) (s : SrcEntry) : Bool :=
  match mode with
  | .mcastInclude => !checkSrc s.srcaddr sources
  | .mcastExclude => 0 < s.timer.lefttime && !checkSrc s.srcaddr sources

theorem toinSources_entry : (toinSources cfg src sources e w).1 =
    { (if sources.isEmpty then (e, w) else addUser e w src).1 with
      srclist := (lowerOld (toinLowers e.filterMode sources) e.srclist.length
        (sources.foldl (putSrc cfg.gmi) e.srclist)).1
      timer := if e.filterMode = .mcastInclude then e.timer else lmqt } := by
  have hframe : ∀ x : McftEntry × World, x = (e, w) ∨ x = addUser e w src →
      x.1.filterMode = e.filterMode ∧ x.1.srclist = e.srclist ∧ x.1.timer = e.timer := by
    rintro _ (rfl | rfl)
    · exact ⟨rfl, rfl, rfl⟩
    · simp
  obtain ⟨hmode, hlist, htimer⟩ := hframe (if sources.isEmpty then (e, w) else addUser e w src) (ite_eq_or_eq ..)
  unfold toinSources
  generalize (if sources.isEmpty then (e, w) else addUser e w src) = x at hmode hlist htimer ⊢
  obtain ⟨⟨_, _, _, _, _, _, _, _⟩, w₁⟩ := x
  dsimp only at hmode hlist htimer ⊢
  subst hmode hlist htimer
  cases e.filterMode with
  | mcastInclude =>
    rw [foldl_includePass_fst]
    rfl
  | mcastExclude =>
    rw [excludePass, foldl_putPass_fst]
    rfl

theorem toin_entry : (toin cfg src sources e w).entry =
    if sources.isEmpty then
      (delUser (toinSources cfg src sources e w).1 (toinSources cfg src sources e w).2 src).1
    else (toinSources cfg src sources e w).1 := by
  unfold toin
  dsimp only
  split_ifs <;> rfl

theorem block_entry : (block cfg src sources e w).entry =
    if e.filterMode = .mcastInclude then
      { (addUser e w src).1 with srclist := (lower (fun s => checkSrc s.srcaddr sources) 0 e.srclist).1 }
    else
      { e with srclist := (lower (fun s => checkSrc s.srcaddr sources && 0 < s.timer.lefttime) 0
        ((newSources e.srclist sources).foldl (putSrc ⟨e.timer.lefttime, 3⟩) e.srclist)).1 } := by
  unfold block
  obtain ⟨_, _, _, _, _, mode, _, _⟩ := e
  cases mode with
  | mcastInclude =>
    dsimp only
    rw [addUser_frame.2.2.2.1]
    rfl
  | mcastExclude =>
    dsimp only
    rw [foldl_newPass, foldl_putPass_fst]
    rfl

def toexSrclist (cfg : Config) (sources : List Reported) (e : McftEntry) (w : World) : List SrcEntry :=
  let x := sources.foldl (newPass cfg e.grpAddr e.srclist ⟨0, 0⟩ false) (e.srclist, w)
  (toexLoop cfg e.grpAddr sources e.srclist (x.1, x.2, [])).1

theorem toex_entry : (toex cfg src sources e w).entry =
    { (addUser e w src).1 with
      srclist :=
        if e.filterMode = .mcastInclude then toexSrclist cfg sources e (addUser e w src).2
        else (lower (fun s => 0 < s.timer.lefttime) 0 (exclusive sources ⟨e.timer.lefttime, 3⟩ e.srclist)).1
      timer := cfg.gmi
      filterMode := .mcastExclude } := by
  obtain ⟨hgrp, htimer, hmode, hlist, -⟩ := @addUser_frame src e w
  unfold toex toexSrclist exclusive
  generalize addUser e w src = x at hgrp htimer hmode hlist ⊢
  obtain ⟨⟨_, _, _, _, _, _, _, _⟩, w₁⟩ := x
  subst hgrp htimer hmode hlist
  cases e.filterMode with
  | mcastInclude => rfl
  | mcastExclude =>
    dsimp only
    rw [missingPass, foldl_deletePass_fst, foldl_newPass, foldl_putPass_fst]
    rfl

/-! ### Entries stay well formed -/

theorem Wf.running_put (h : Wf e) (hmode : e.filterMode = .mcastInclude) :
    ∀ s ∈ sources.foldl (putSrc cfg.gmi) e.srclist, 0 < s.timer.lefttime := by
  refine (running_iff h.distinct.foldl_putSrc).mpr fun s => ?_
  rw [status, leftOf_foldl_putSrc]
  split_ifs
  · simp [Config.gmi, cfg.memberQueryInterval_pos]
  · exact h.status_ne hmode s

theorem wf_isin (h : Wf e) : Wf (isin cfg src sources e w).entry := by
  rw [isin_entry]
  refine ⟨h.distinct.foldl_putSrc, fun hmode => h.running_put ?_, fun hmode => ?_, addUser_users h.users⟩
  · exact addUser_frame.2.2.1.symm.trans hmode
  · rw [addUser_frame.2.1]
    exact h.timer (addUser_frame.2.2.1.symm.trans hmode)

theorem wf_isex (h : Wf e) : Wf (isex cfg src sources e w).entry := by
  rw [isex_entry]
  exact ⟨h.distinct.exclusive, nofun, fun _ => cfg.memberQueryInterval_pos, addUser_users h.users⟩

theorem toinLowers_pos (h : Wf e) : ∀ s ∈ sources.foldl (putSrc cfg.gmi) e.srclist,
    toinLowers e.filterMode sources s = true → 0 < s.timer.lefttime := by
  intro s hs hlow
  cases hmode : e.filterMode with
  | mcastInclude => exact h.running_put hmode s hs
  | mcastExclude =>
    rw [hmode, toinLowers, Bool.and_eq_true, decide_eq_true_eq] at hlow
    exact hlow.1

theorem status_toinSources (h : Wf e) : status (toinSources cfg src sources e w).1.srclist s =
    status (sources.foldl (putSrc cfg.gmi) e.srclist) s := by
  rw [toinSources_entry]
  exact status_lowerOld (toinLowers_pos h)

theorem toinSources_filterMode : (toinSources cfg src sources e w).1.filterMode = e.filterMode := by
  rw [toinSources_entry]
  split_ifs <;> simp

theorem wf_toinSources (h : Wf e) : Wf (toinSources cfg src sources e w).1 := by
  have hdist : DistinctSrcs (toinSources cfg src sources e w).1.srclist := by
    rw [toinSources_entry, DistinctSrcs, Distinct, map_lowerOld]
    exact h.distinct.foldl_putSrc
  refine ⟨hdist, fun hmode => ?_, fun hmode => ?_, ?_⟩
  · rw [toinSources_filterMode] at hmode
    refine (running_iff hdist).mpr fun s => ?_
    rw [status_toinSources h]
    exact (running_iff h.distinct.foldl_putSrc).mp (h.running_put hmode) s
  · rw [toinSources_filterMode] at hmode
    rw [toinSources_entry]
    dsimp only
    rw [hmode, if_neg (by decide)]
    decide
  · rw [toinSources_entry]
    dsimp only
    split_ifs
    · exact h.users
    · exact addUser_users h.users

theorem wf_delUser (h : Wf e) : Wf (delUser e w src).1 := by
  obtain ⟨-, htimer, hmode, hlist, -⟩ := @delUser_frame src e w
  exact ⟨hlist ▸ h.distinct, fun hm => hlist ▸ h.running (hmode.symm.trans hm),
    fun hm => htimer ▸ h.timer (hmode.symm.trans hm), delUser_users h.users⟩

theorem wf_toin (h : Wf e) : Wf (toin cfg src sources e w).entry := by
  rw [toin_entry]
  split_ifs
  · exact wf_delUser (wf_toinSources h)
  · exact wf_toinSources h

theorem wf_block (h : Wf e) : Wf (block cfg src sources e w).entry := by
  rw [block_entry]
  split_ifs with hmode
  · have hdist : DistinctSrcs (lower (fun s => checkSrc s.srcaddr sources) 0 e.srclist).1 := by
      rw [DistinctSrcs, Distinct, map_lower]
      exact h.distinct
    refine ⟨hdist, fun _ => (running_iff hdist).mpr fun s => ?_, fun hm => ?_, addUser_users h.users⟩
    · rw [status_lower fun s hs _ => h.running hmode s hs]
      exact h.status_ne hmode s
    · rw [addUser_frame.2.2.1, hmode] at hm
      cases hm
  · refine ⟨?_, fun hm => absurd hm hmode, h.timer, h.users⟩
    rw [DistinctSrcs, Distinct, map_lower]
    exact h.distinct.foldl_putSrc

section Malloc

variable (hmalloc : ∀ r ∈ sources, r.malloc = true)
include hmalloc

theorem status_put : status (sources.foldl (putSrc cfg.gmi) e.srclist) s =
    if checkSrc s sources then some true else status e.srclist s := by
  rw [status, leftOf_foldl_putSrc]
  simp only [mem_of_checkSrc hmalloc]
  cases checkSrc s sources <;> simp [Config.gmi, cfg.memberQueryInterval_pos, status]

theorem status_isin : status (isin cfg src sources e w).entry.srclist s =
    nextStatus .modeIsInclude e.filterMode (checkSrc s sources) (status e.srclist s) := by
  rw [isin_entry]
  exact status_put hmalloc

variable (h : Wf e)
include h

theorem status_isex : status (isex cfg src sources e w).entry.srclist s =
    nextStatus .modeIsExclude e.filterMode (checkSrc s sources) (status e.srclist s) := by
  rw [isex_entry, status, leftOf_exclusive h.distinct]
  simp only [mem_of_checkSrc hmalloc, nextStatus]
  cases checkSrc s sources with
  | false => rfl
  | true =>
    have hpos : 0 < cfg.gmi.lefttime := cfg.memberQueryInterval_pos
    rw [if_pos rfl, if_pos rfl, if_pos rfl, Option.map_or, status]
    cases e.filterMode <;> simp [hpos]

theorem status_toin : status (toin cfg src sources e w).entry.srclist s =
    nextStatus .changeToInclude e.filterMode (checkSrc s sources) (status e.srclist s) := by
  have hsame : status (toin cfg src sources e w).entry.srclist s =
      status (toinSources cfg src sources e w).1.srclist s := by
    rw [toin_entry]
    split_ifs <;> simp
  rw [hsame, status_toinSources h]
  exact status_put hmalloc

theorem status_block : status (block cfg src sources e w).entry.srclist s =
    nextStatus .blockOldSources e.filterMode (checkSrc s sources) (status e.srclist s) := by
  rw [block_entry]
  cases hmode : e.filterMode with
  | mcastInclude =>
    exact status_lower fun s hs _ => h.running hmode s hs
  | mcastExclude =>
    have hlow : ∀ s ∈ (newSources e.srclist sources).foldl (putSrc ⟨e.timer.lefttime, 3⟩) e.srclist,
        (checkSrc s.srcaddr sources && decide (0 < s.timer.lefttime)) = true → 0 < s.timer.lefttime := by
      intro s _ hs
      rw [Bool.and_eq_true, decide_eq_true_eq] at hs
      exact hs.2
    rw [if_neg (by decide)]
    rw [status_lower hlow, status, leftOf_foldl_new]
    simp only [mem_of_checkSrc hmalloc, nextStatus, Option.map_or]
    cases checkSrc s sources <;> simp [h.timer hmode, status]

end Malloc

end Bodies

/-! ## Handlers -/

def RecordType.body (cfg : Config) : RecordType → Addr → List Reported → McftEntry → World → Outcome
  | .modeIsInclude => isin cfg
  | .modeIsExclude => isex cfg
  | .changeToInclude => toin cfg
  | .changeToExclude => toex cfg
  | .allowNewSources => allow cfg
  | .blockOldSources => block cfg

section Handlers

variable {cfg : Config} {st : State} {group src g : Addr} {sources : List Reported} {e : McftEntry} {w : World}
  {type : RecordType} {body : McftEntry → World → Outcome}

theorem handleRecord_eq :
    handleRecord cfg st group src sources type = onGroup st group src (type.body cfg src sources) := by
  cases type <;> rfl

theorem onGroup_of_get (hmulti : inMulticast group = true) (hres : reserved group = false)
    (hget : getMcft st group = some e) : onGroup st group src body = apply st group body := by
  unfold onGroup
  simp [hmulti, hres, hget]

theorem getMcft_apply (hget : getMcft st group = some e) (hgrp : (body e st.world).entry.grpAddr = group)
    (hkeep : (body e st.world).drop = false) :
    getMcft (apply st group body) g = if g = group then some (body e st.world).entry else getMcft st g := by
  unfold apply
  rw [hget]
  dsimp only
  rw [hkeep, if_neg Bool.false_ne_true, getMcft, get_modify fun _ _ => hgrp]
  rw [getMcft] at hget
  rw [hget]
  rfl

theorem toinSources_grpAddr : (toinSources cfg src sources e w).1.grpAddr = e.grpAddr := by
  rw [toinSources_entry]
  split_ifs <;> simp

theorem body_grpAddr : (type.body cfg src sources e w).entry.grpAddr = e.grpAddr := by
  cases type <;> unfold RecordType.body
  · simp [isin_entry]
  · simp [isex_entry]
  · rw [toin_entry]
    split_ifs <;> simp [toinSources_grpAddr]
  · simp [toex_entry]
  · rw [allow]
    simp [isin_entry]
  · rw [block_entry]
    split_ifs <;> simp

theorem isin_drop : (isin cfg src sources e w).drop = false := by
  unfold isin
  dsimp only
  cases (addUser e w src).1.filterMode <;> rfl

theorem toex_drop : (toex cfg src sources e w).drop = false := by
  unfold toex
  dsimp only
  cases (addUser e w src).1.filterMode <;> rfl

theorem block_drop : (block cfg src sources e w).drop = false := by
  unfold block
  cases e.filterMode <;> rfl

theorem toinSources_grpMbr (hnil : sources = []) : (toinSources cfg src sources e w).1.grpMbr = e.grpMbr := by
  rw [toinSources_entry, hnil]
  rfl

theorem toin_drop_iff (h : Wf e) :
    (toin cfg src sources e w).drop = true ↔ sources = [] ∧ e.grpMbr.erase src = [] := by
  have hcount : (delUser (toinSources cfg src sources e w).1 (toinSources cfg src sources e w).2
      src).1.userCount = ((toinSources cfg src sources e w).1.grpMbr.erase src).length := by
    rw [delUser_users (wf_toinSources h).users, delUser_grpMbr]
  unfold toin
  dsimp only
  split_ifs with hnil hzero
  · rw [hcount, toinSources_grpMbr (List.isEmpty_iff.mp hnil), List.length_eq_zero_iff] at hzero
    exact iff_of_true rfl ⟨List.isEmpty_iff.mp hnil, hzero⟩
  · rw [hcount, toinSources_grpMbr (List.isEmpty_iff.mp hnil), List.length_eq_zero_iff] at hzero
    exact iff_of_false nofun fun h => hzero h.2
  · exact iff_of_false nofun fun h => hnil (List.isEmpty_iff.mpr h.1)

theorem body_drop_iff (h : Wf e) : (type.body cfg src sources e w).drop = true ↔
    type = .changeToInclude ∧ sources = [] ∧ e.grpMbr.erase src = [] := by
  have hfalse : ∀ {b : Bool} {p : Prop}, b = false → ¬ p → (b = true ↔ p) := fun hb hp =>
    iff_of_false (hb ▸ Bool.false_ne_true) hp
  cases type with
  | modeIsInclude => exact hfalse isin_drop nofun
  | modeIsExclude => exact hfalse rfl nofun
  | changeToInclude => exact (toin_drop_iff h).trans (and_iff_right rfl).symm
  | changeToExclude => exact hfalse toex_drop nofun
  | allowNewSources => exact hfalse isin_drop nofun
  | blockOldSources => exact hfalse block_drop nofun

theorem body_filterMode : (type.body cfg src sources e w).entry.filterMode = nextMode type e.filterMode := by
  cases type <;> unfold RecordType.body nextMode
  · simp [isin_entry]
  · simp [isex_entry]
  · rw [toin_entry]
    split_ifs <;> simp [toinSources_filterMode]
  · simp [toex_entry]
  · rw [allow]
    simp [isin_entry]
  · rw [block_entry]
    split_ifs <;> simp

/-- The reporter joins, leaves with an empty `TO_IN`, and is not looked at by `BLOCK` in an excluding group. -/
theorem body_grpMbr : (type.body cfg src sources e w).entry.grpMbr =
    if type = .changeToInclude ∧ sources = [] then e.grpMbr.erase src
    else if type = .blockOldSources ∧ e.filterMode ≠ .mcastInclude then e.grpMbr
    else (addUser e w src).1.grpMbr := by
  cases type with
  | modeIsInclude | allowNewSources =>
    change (isin cfg src sources e w).entry.grpMbr = (addUser e w src).1.grpMbr
    rw [isin_entry]
  | modeIsExclude =>
    change (isex cfg src sources e w).entry.grpMbr = (addUser e w src).1.grpMbr
    rw [isex_entry]
  | changeToExclude =>
    change (toex cfg src sources e w).entry.grpMbr = (addUser e w src).1.grpMbr
    rw [toex_entry]
  | changeToInclude =>
    change (toin cfg src sources e w).entry.grpMbr = _
    rw [toin_entry]
    by_cases hnil : sources = []
    · rw [if_pos (List.isEmpty_iff.mpr hnil), if_pos ⟨rfl, hnil⟩, delUser_grpMbr, toinSources_grpMbr hnil]
    · have hne : ¬ sources.isEmpty = true := fun h => hnil (List.isEmpty_iff.mp h)
      rw [if_neg hne, if_neg fun h => hnil h.2]
      change (toinSources cfg src sources e w).1.grpMbr = (addUser e w src).1.grpMbr
      rw [toinSources_entry, if_neg hne]
  | blockOldSources =>
    change (block cfg src sources e w).entry.grpMbr =
      if RecordType.blockOldSources = .blockOldSources ∧ e.filterMode ≠ .mcastInclude then e.grpMbr
      else (addUser e w src).1.grpMbr
    rw [block_entry]
    by_cases hmode : e.filterMode = .mcastInclude
    · rw [if_pos hmode, if_neg fun h => h.2 hmode]
    · rw [if_neg hmode, if_pos ⟨rfl, hmode⟩]

theorem body_status (h : Wf e) (hmalloc : ∀ r ∈ sources, r.malloc = true) (htype : type ≠ .changeToExclude)
    (s : Addr) : status (type.body cfg src sources e w).entry.srclist s =
      nextStatus type e.filterMode (checkSrc s sources) (status e.srclist s) := by
  cases type with
  | modeIsInclude => exact status_isin hmalloc
  | modeIsExclude => exact status_isex hmalloc h
  | changeToInclude => exact status_toin hmalloc h
  | changeToExclude => exact absurd rfl htype
  | allowNewSources => exact status_isin hmalloc
  | blockOldSources => exact status_block hmalloc h

theorem wf_body (h : Wf e) (htype : type ≠ .changeToExclude) : Wf (type.body cfg src sources e w).entry := by
  cases type with
  | modeIsInclude => exact wf_isin h
  | modeIsExclude => exact wf_isex h
  | changeToInclude => exact wf_toin h
  | changeToExclude => exact absurd rfl htype
  | allowNewSources => exact wf_isin h
  | blockOldSources => exact wf_block h

theorem leftOf_isin (hmalloc : ∀ r ∈ sources, r.malloc = true) {s : Addr} (hs : s ∈ reportedSet sources) :
    leftOf (isin cfg src sources e w).entry.srclist s = some cfg.memberQueryInterval := by
  rw [isin_entry]
  rw [leftOf_foldl_putSrc, if_pos ⟨hs, .inr ((mem_of_checkSrc hmalloc).mpr hs)⟩]
  rfl

theorem leftOf_isex (h : Wf e) (hmalloc : ∀ r ∈ sources, r.malloc = true) (hmode : e.filterMode = .mcastExclude)
    {s : Addr} (hs : s ∈ reportedSet sources) (hnew : leftOf e.srclist s = none) :
    leftOf (isex cfg src sources e w).entry.srclist s = some cfg.memberQueryInterval := by
  have hrep : checkSrc s sources = true := hs
  rw [isex_entry]
  rw [leftOf_exclusive h.distinct, hrep, if_pos rfl, if_pos ((mem_of_checkSrc hmalloc).mpr hs), hnew, hmode,
    if_neg (by decide)]
  rfl

end Handlers

def plainConfig : Config := ⟨true, 1⟩

def askedEntry : McftEntry where
  grpAddr := 0xef010203
  userCount := 1
  grpMbr := [0xc0a80102]
  timer := lmqt
  igmpVer := .v3
  filterMode := .mcastInclude
  srclist := [⟨0x0a000001, ⟨5, 3⟩⟩]
  mrtState := false

theorem askedEntry_wf : Wf askedEntry := ⟨by decide, by decide, by decide, rfl⟩

def askedState : State := ⟨[askedEntry], init.world⟩

def askedReport : List Reported := [⟨0x0a000002, true⟩, ⟨0x0a000001, true⟩, ⟨0x0a000002, true⟩]

def ripEntry : McftEntry where
  grpAddr := 0xe0000009
  userCount := 1
  grpMbr := [0xc0a80102]
  timer := ⟨150, 3⟩
  igmpVer := .v2
  filterMode := .mcastExclude
  srclist := []
  mrtState := false

def ripState : State := igmpv3Accept plainConfig init (.report 0xe0000009 0xc0a80102)

end NasFirmware.Igmp
