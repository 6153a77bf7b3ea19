import NasFirmware.Dot11k.Model

/-!
# Every station is polled

The loop over the BSSs of a report leaves `i` at their number, and the loop over the stations goes on behind it. A
pass is complete as long as this does no harm: no station that has still to report lies between the one that was
asked and the number of BSSs.
-/

namespace NasFirmware.Dot11k

open CLoop

theorem filter_range_of_none {d : ℕ → Bool} {a b : ℕ} (hab : a ≤ b) (h : ∀ q, a ≤ q → q < b → d q = false) :
    (List.range b).filter d = (List.range a).filter d := by
  obtain ⟨k, rfl⟩ := Nat.exists_eq_add_of_le hab
  rw [List.range_add, List.filter_append]
  have hnil : ((List.range k).map (a + ·)).filter d = [] := by
    rw [List.filter_eq_nil_iff]
    intro q hq
    obtain ⟨i, hi, rfl⟩ := List.mem_map.mp hq
    rw [h _ (Nat.le_add_right _ _) (Nat.add_lt_add_left (List.mem_range.mp hi) a)]
    decide
  rw [hnil, List.append_nil]

theorem filter_range_succ {d : ℕ → Bool} {a : ℕ} (h : d a = true) :
    (List.range (a + 1)).filter d = (List.range a).filter d ++ [a] := by
  rw [List.range_succ, List.filter_append, List.filter_cons_of_pos h, List.filter_nil]

theorem mem_pendingSlots {sta : ℕ → Station} {q : ℕ} :
    q ∈ pendingSlots sta ↔ q < maxStaNum ∧ (sta q).Pending := by
  unfold pendingSlots
  rw [List.mem_filter, List.mem_range, decide_eq_true_iff]

/-! ## Harmless answers -/

/-- The answer is no error; if it is a report, there is memory for it, an empty one does not follow an earlier one,
and no station between its place and the number of BSSs has still to report. -/
def Harmless (answers : ℕ → Answer) (s : Poll) : Prop :=
  s.i < maxStaNum → (s.sta s.i).Pending →
    match answers s.ioctls with
    | .error => False
    | .report result bssNum _ alloc => MeasurementResult.ofByte result = .succeed →
      (bssNum ≠ 0 → alloc = true) ∧ (bssNum = 0 → s.beaconReport = .null) ∧
        ∀ q < maxStaNum, s.i < q ∧ q ≤ bssNum.toNat ∨ bssNum.toNat < q ∧ q < s.i → ¬ (s.sta q).Pending

/-- The invariant of the polling loops. The stations below `m` have been asked in this pass. -/
structure PollInv (m : ℕ) (s : Poll) : Prop where
  le : s.i ≤ m
  bound : m ≤ 256
  due : s.due = (List.range maxStaNum).filter (· ∈ s.due)
  asked : s.asked = (List.range m).filter (· ∈ s.due)
  behind : ∀ q, s.i ≤ q → q < m → q < maxStaNum → ¬ (s.sta q).Pending
  ahead : ∀ q, m ≤ q → q < maxStaNum → ((s.sta q).Pending ↔ q ∈ s.due)
  finish : s.finish = true → ∀ q, q < m → q < maxStaNum → ¬ (s.sta q).Pending
  handed : s.handed = s.reported
  pointer : ∀ bss, s.beaconReport ≠ .held bss
  passes : ∀ p ∈ s.passes, p.asked = p.due
  rounds : s.passes.length = s.j
  j_lt : s.j < beaconMeasureTime

variable {iface : Iface} {answers : ℕ → Answer} {s : Poll}

section Steps

variable {m : ℕ}

variable (h : PollInv m s)

include h

theorem PollInv.lt_of_due {q : ℕ} (hq : q ∈ s.due) : q < maxStaNum := by
  rw [h.due] at hq
  exact List.mem_range.mp (List.mem_filter.mp hq).1

variable (hi : s.i < maxStaNum)

include hi

theorem PollInv.skip (hno : ¬ (s.sta s.i).Pending) :
    PollInv (max m (s.i + 1)) { s with i := s.i + 1 } := by
  have hm : max m (s.i + 1) = m ∨ s.i = m ∧ max m (s.i + 1) = m + 1 := by
    have := h.le
    omega
  obtain ⟨hle, hbound, hdue, hasked, hbehind, hahead, hfinish, hhanded, hpointer, hpasses, hrounds, hj⟩ := h
  rcases hm with hm | ⟨him, hm⟩
  · rw [hm]
    refine ⟨?_, hbound, hdue, hasked, fun q hq => hbehind q ?_, hahead, hfinish, hhanded, hpointer, hpasses, hrounds, hj⟩
    · dsimp only
      omega
    · dsimp only at hq
      omega
  · have hnot : m ∉ s.due := fun hmem => hno (by
      rw [him]
      exact (hahead m le_rfl (him ▸ hi)).mpr hmem)
    rw [hm]
    refine ⟨by dsimp only; omega, ?_, hdue, ?_, fun q hq hlt => ?_, fun q hq => hahead q (by omega), fun hf q hq => ?_,
      hhanded, hpointer, hpasses, hrounds, hj⟩
    · have : maxStaNum = 128 := rfl
      omega
    · rw [filter_range_of_none (Nat.le_succ m) fun q hq hlt => ?_]
      · exact hasked
      · rw [show q = m by omega]
        exact decide_eq_false hnot
    · dsimp only at hq
      omega
    · rcases Nat.lt_succ_iff_lt_or_eq.mp hq with hq | rfl
      · exact hfinish hf q hq
      · intro _
        rwa [← him]

variable (hp : (s.sta s.i).Pending)

include hp

theorem PollInv.eq_of_pending :
    s.i = m ∧ m ∈ s.due := by
  have him : s.i = m := by
    by_contra hne
    have := h.le
    exact h.behind s.i le_rfl (by omega) hi hp
  exact ⟨him, (h.ahead m le_rfl (him ▸ hi)).mp (him ▸ hp)⟩

/-- A station is asked, and the loop goes on ahead, over stations that have nothing to report, or behind, where all
have. -/
theorem PollInv.ask {s' : Poll} {x : Station}
    (hdue : s'.due = s.due) (hasked : s'.asked = s.asked ++ [s.i]) (hsta : s'.sta = Function.update s.sta s.i x)
    (hbound : s'.i ≤ 256) (hfront : ∀ q, s.i < q → q < s'.i → q < maxStaNum → ¬ (s.sta q).Pending)
    (hback : ∀ q, s'.i ≤ q → q ≤ s.i → ¬ (s'.sta q).Pending)
    (hfinish : s'.finish = true → s.finish = true ∧ ¬ x.Pending) (hhanded : s'.handed = s'.reported)
    (hpointer : ∀ bss, s'.beaconReport ≠ .held bss) (hpasses : s'.passes = s.passes) (hj : s'.j = s.j) :
    PollInv (max (m + 1) s'.i) s' := by
  obtain ⟨him, hmem⟩ := h.eq_of_pending hi hp
  have hother : ∀ q, q ≠ m → s'.sta q = s.sta q := by
    intro q hq
    rw [hsta, Function.update_of_ne (him ▸ hq)]
  have hskip : ∀ q, m < q → q < s'.i → q ∉ s.due := by
    intro q hq hlt hq'
    have hq₁ := h.lt_of_due hq'
    exact hfront q (him ▸ hq) hlt hq₁ ((h.ahead q hq.le hq₁).mpr hq')
  have hmax : maxStaNum = 128 := rfl
  refine ⟨le_max_right _ _, by omega, ?_, ?_, fun q hq hlt hq₁ => ?_, fun q hq hq₁ => ?_, fun hf q hlt hq₁ => ?_,
    hhanded, hpointer, hpasses ▸ h.passes, ?_, hj ▸ h.j_lt⟩
  · rw [hdue]
    exact h.due
  · rw [hdue, hasked, h.asked, him, ← filter_range_succ (d := (· ∈ s.due)) (decide_eq_true hmem)]
    refine (filter_range_of_none (le_max_left _ _) fun q hq hlt => decide_eq_false ?_).symm
    exact hskip q (by omega) (by omega)
  · by_cases hle : q ≤ m
    · exact hback q hq (him ▸ hle)
    · omega
  · rw [hdue, hother q (by omega)]
    exact h.ahead q (by omega) hq₁
  · obtain ⟨hf₀, hx⟩ := hfinish hf
    rcases Nat.lt_trichotomy q m with hq | rfl | hq
    · rw [hother q hq.ne]
      exact h.finish hf₀ q hq hq₁
    · rw [hsta, ← him, Function.update_self]
      exact hx
    · rw [hother q hq.ne']
      exact hfront q (him ▸ hq) (by omega) hq₁
  · rw [hpasses, hj]
    exact h.rounds

/-- **A harmless answer.** -/
theorem PollInv.answer
    (hharm : Harmless answers s) : ∃ s' m', pollStation iface (answers s.ioctls) s = some s' ∧ s'.j = s.j ∧
      m < m' ∧ PollInv m' { s' with i := s'.i + 1 } := by
  have hharm := hharm hi hp
  cases ha : answers s.ioctls with
  | error =>
    rw [ha] at hharm
    exact hharm.elim
  | report result bssNum bss alloc =>
    rw [ha] at hharm
    have hmax : maxStaNum = 128 := rfl
    set x : Station := { s.sta s.i with result := .ofByte result } with hx
    have hself : Function.update s.sta s.i x s.i = x := Function.update_self ..
    have hresult : (Function.update s.sta s.i x s.i).result = .ofByte result := by rw [hself]
    have hnot : x.result ≠ .processing → ¬ x.Pending := fun hne hx => hne hx.2
    unfold pollStation getBeaconMeasurementReport
    dsimp only [Poll.setResult]
    rw [← hx]
    by_cases hsucc : MeasurementResult.ofByte result = .succeed
    · obtain ⟨halloc, hnull, hbetween⟩ := hharm hsucc
      rw [hsucc] at hresult
      have hproc : x.result ≠ .processing := by
        rw [show x.result = .succeed from hsucc]
        decide
      have hproc' : (Function.update s.sta s.i x s.i).result ≠ .processing := by
        rw [hresult]
        decide
      have hfront : ∀ q, s.i < q → q < bssNum.toNat + 1 → q < maxStaNum → ¬ (s.sta q).Pending :=
        fun q hq hlt hq₁ => hbetween q hq₁ (.inl ⟨hq, Nat.lt_succ_iff.mp hlt⟩)
      have hback : ∀ q, bssNum.toNat + 1 ≤ q → q ≤ s.i → ¬ (Function.update s.sta s.i x q).Pending := by
        intro q hq hle
        by_cases hqi : q = s.i
        · rw [hqi, hself]
          exact hnot hproc
        · rw [Function.update_of_ne hqi]
          exact hbetween q (by omega) (.inr ⟨hq, by omega⟩)
      have hbyte := bssNum.toNat_lt
      rw [if_pos hsucc]
      by_cases hzero : bssNum = 0
      · rw [if_pos hzero]
        dsimp only
        rw [if_neg hproc', if_pos hresult, hnull hzero]
        subst hzero
        refine ⟨_, _, rfl, rfl, ?_, h.ask hi hp rfl rfl rfl ?_ hfront hback (fun hf => ⟨hf, hnot hproc⟩) ?_ nofun rfl rfl⟩
        · exact Nat.lt_of_lt_of_le (Nat.lt_succ_self m) (le_max_left _ _)
        · exact Nat.succ_le_of_lt (by decide : 0 < 256)
        · exact h.handed.trans (List.append_nil _).symm
      · rw [if_neg hzero, halloc hzero, if_pos rfl]
        dsimp only
        rw [if_neg hproc', if_pos hresult]
        dsimp only [handBss, freeReport]
        refine ⟨_, _, rfl, rfl, ?_, h.ask hi hp rfl rfl rfl ?_ hfront hback (fun hf => ⟨hf, hnot hproc⟩) ?_ nofun rfl rfl⟩
        · exact Nat.lt_of_lt_of_le (Nat.lt_succ_self m) (le_max_left _ _)
        · dsimp only
          omega
        · dsimp only
          rw [h.handed]
    · rw [if_neg hsucc]
      dsimp only
      rw [if_neg (fun hs => hsucc (hresult.symm.trans hs))]
      have hfront : ∀ q, s.i < q → q < s.i + 1 → q < maxStaNum → ¬ (s.sta q).Pending := fun q hq hlt => by omega
      have hback : ∀ q, s.i + 1 ≤ q → q ≤ s.i → ¬ (Function.update s.sta s.i x q).Pending := fun q hq hle => by omega
      by_cases hproc : MeasurementResult.ofByte result = .processing
      · rw [if_pos (hresult.trans hproc)]
        refine ⟨_, _, rfl, rfl, ?_, h.ask hi hp rfl rfl rfl ?_ hfront hback nofun h.handed h.pointer rfl rfl⟩
        · exact Nat.lt_of_lt_of_le (Nat.lt_succ_self m) (le_max_left _ _)
        · dsimp only
          omega
      · rw [if_neg (fun hs => hproc (hresult.symm.trans hs))]
        refine ⟨_, _, rfl, rfl, ?_, h.ask hi hp rfl rfl rfl ?_ hfront hback (fun hf => ⟨hf, hnot hproc⟩) h.handed h.pointer
          rfl rfl⟩
        · exact Nat.lt_of_lt_of_le (Nat.lt_succ_self m) (le_max_left _ _)
        · dsimp only
          omega

omit hp

omit hi

omit h

theorem pollInv_newPass {j : ℕ} (hj : j < beaconMeasureTime) (hhanded : s.handed = s.reported)
    (hpointer : ∀ bss, s.beaconReport ≠ .held bss) (hpasses : ∀ p ∈ s.passes, p.asked = p.due)
    (hrounds : s.passes.length = j) : PollInv 0 (s.newPass j) := by
  refine ⟨le_rfl, by decide, ?_, rfl, fun q _ hq => absurd hq (Nat.not_lt_zero q), fun q _ hq => ?_,
    fun _ q hq => absurd hq (Nat.not_lt_zero q), hhanded, hpointer, hpasses, hrounds, hj⟩
  · refine List.filter_congr fun q hq => ?_
    refine decide_eq_decide.mpr ?_
    rw [show (s.newPass j).due = pendingSlots s.sta from rfl, mem_pendingSlots]
    exact ⟨fun hp => ⟨List.mem_range.mp hq, hp⟩, And.right⟩
  · rw [show (s.newPass j).due = pendingSlots s.sta from rfl, mem_pendingSlots]
    exact ⟨fun hp => ⟨hq, hp⟩, And.right⟩

theorem PollInv.complete (h : PollInv m s) (hi : ¬ s.i < maxStaNum) : s.asked = s.due := by
  have hle := h.le
  have hdue := h.due
  rw [h.asked, filter_range_of_none (by omega : maxStaNum ≤ m) fun q hq _ => ?_]
  · exact hdue.symm
  · exact decide_eq_false fun hq' => absurd (h.lt_of_due hq') (by omega)

structure Polled (s : Poll) : Prop where
  /-- every pass asked every station that was due, once -/
  passes : ∀ p ∈ s.passes, p.asked = p.due
  /-- the passes ended when none was left, or after the last -/
  ended : s.passes.length = beaconMeasureTime ∨ ∀ q < maxStaNum, ¬ (s.sta q).Pending
  /-- every BSS that was reported was handed on, once -/
  handed : s.handed = s.reported

def turnsLeft (m : ℕ) (s : Poll) : ℕ := (beaconMeasureTime - s.j) * 90301 + (300 - m) * 300 + (300 - s.i)

theorem pollStep_inv (h : PollInv m s) (hharm : Harmless answers s) :
    (∃ s' m', pollStep iface answers s = some (.next s') ∧ PollInv m' s' ∧ turnsLeft m' s' < turnsLeft m s) ∨
      ∃ r, pollStep iface answers s = some (.done r) ∧ Polled r := by
  have hj := h.j_lt
  have hbound := h.bound
  have hle := h.le
  unfold pollStep turnsLeft
  by_cases hi : s.i < maxStaNum
  · rw [if_pos hi]
    by_cases hp : (s.sta s.i).Pending
    · obtain ⟨s', m', hask, hjs, hlt, h'⟩ := h.answer hi hp hharm
      have hbound' := h'.bound
      rw [if_pos hp, hask]
      refine .inl ⟨_, m', rfl, h', ?_⟩
      dsimp only
      omega
    · rw [if_neg hp]
      refine .inl ⟨_, _, rfl, h.skip hi hp, ?_⟩
      dsimp only
      omega
  · rw [if_neg hi]
    have hcomplete := h.complete hi
    have hpasses : ∀ p ∈ s.passes ++ [⟨s.due, s.asked⟩], p.asked = p.due := by
      intro p hp
      rcases List.mem_append.mp hp with hp | hp
      · exact h.passes p hp
      · rw [List.mem_singleton.mp hp]
        exact hcomplete
    have hlen : (s.passes ++ [(⟨s.due, s.asked⟩ : PassLog)]).length = s.j + 1 := by
      rw [List.length_append, h.rounds]
      rfl
    dsimp only
    by_cases hend : s.finish = true ∨ beaconMeasureTime ≤ s.j + 1
    · rw [if_pos hend]
      refine .inr ⟨_, rfl, hpasses, ?_, h.handed⟩
      rcases hend with hfinish | hend
      · exact .inr fun q hq => h.finish hfinish q (by omega) hq
      · refine .inl (hlen.trans ?_)
        omega
    · rw [if_neg hend]
      refine .inl ⟨_, 0, rfl, pollInv_newPass (by omega) h.handed h.pointer hpasses hlen, ?_⟩
      change (beaconMeasureTime - (s.j + 1)) * 90301 + (300 - 0) * 300 + (300 - 0) < _
      omega

end Steps

/-- **A measurement round with harmless answers.** Every pass asks every station that is due once, the passes end when
no station has still to report or after `BEACON_MEASURE_TIME` of them, and every BSS that is reported is handed on
once. -/
theorem poll_complete (iface : Iface) (issued : ℕ → Bool) (answers : ℕ → Answer) (sta : ℕ → Station)
    (hharm : ∀ s, Reaches (pollStep iface answers) (startPoll fun q => (sta q).refresh.issue (issued q)) s →
      Harmless answers s) : ∃ s, timerFunc iface issued answers sta = some s ∧ Polled s := by
  have hstart : PollInv 0 (startPoll fun q => (sta q).refresh.issue (issued q)) := by
    refine pollInv_newPass ?_ rfl ?_ ?_ rfl
    · decide
    · exact nofun
    · exact nofun
  have hturns : turnsLeft 0 (startPoll fun q => (sta q).refresh.issue (issued q)) < pollTurns := by
    change 13 * 90301 + 300 * 300 + 300 < 1300000
    omega
  refine loop_of_reaches (fun k s => ∃ m, PollInv m s ∧ turnsLeft m s = k) (Harmless answers) Polled
    (fun k s ⟨m, h, hk⟩ hs => ?_) ⟨0, hstart, rfl⟩ hharm hturns
  rcases pollStep_inv h hs with ⟨s', m', hstep, h', hlt⟩ | hdone
  · exact .inl ⟨turnsLeft m' s', s', hstep, ⟨m', h', rfl⟩, hk ▸ hlt⟩
  · exact .inr hdone

/-! ## A station by itself -/

section Lone

variable {s' : Poll}

theorem measures_setResult (s : Poll) (r : MeasurementResult) (q : ℕ) :
    ((s.setResult r).sta q).Measures ↔ (s.sta q).Measures := by
  unfold Poll.setResult
  by_cases hq : q = s.i
  · subst hq
    dsimp only
    rw [Function.update_self]
    rfl
  · dsimp only
    rw [Function.update_of_ne hq]

theorem measures_get (a : Answer) (s : Poll) (q : ℕ) :
    ((getBeaconMeasurementReport a s).2.sta q).Measures ↔ (s.sta q).Measures := by
  unfold getBeaconMeasurementReport
  cases a with
  | error => rfl
  | report result bssNum bss alloc =>
    dsimp only
    split_ifs <;> exact measures_setResult _ _ q

theorem freeReport_sta (h : freeReport s = some s') : s'.sta = s.sta := by
  unfold freeReport at h
  split at h
  · cases h
    rfl
  · cases h
    rfl
  · cases h

theorem pollStation_measures {a : Answer} (h : pollStation iface a s = some s') (q : ℕ) :
    (s'.sta q).Measures ↔ (s.sta q).Measures := by
  rw [← measures_get a s q]
  unfold pollStation at h
  dsimp only at h
  split at h
  · rename_i s₁ hget
    cases h
    rw [hget]
  · rename_i s₁ hget
    rw [hget]
    split_ifs at h
    · cases h
      rfl
    · split at h
      · rw [freeReport_sta h]
        rfl
      · rw [freeReport_sta h]
    · cases h
      rfl

theorem pollStep_measures (h : pollStep iface answers s = some (.next s')) (q : ℕ) :
    (s'.sta q).Measures ↔ (s.sta q).Measures := by
  unfold pollStep at h
  split_ifs at h
  · obtain ⟨s₁, hs₁, heq⟩ := Option.map_eq_some_iff.mp h
    cases heq
    exact pollStation_measures hs₁ q
  · cases h
    rfl
  · dsimp only at h
    split_ifs at h
    · cases h
    · cases h
      rfl

theorem measures_of_reaches {s₀ : Poll} (h : Reaches (pollStep iface answers) s₀ s) (q : ℕ) :
    (s.sta q).Measures ↔ (s₀.sta q).Measures := by
  induction h with
  | start => rfl
  | next _ hb ih => exact (pollStep_measures hb q).trans ih

end Lone

def loneStation (q : ℕ) : Station := if q = 5 then ⟨2, 0x10, 1, 0, .unknown⟩ else ⟨0, 0, 0, 0, .unknown⟩

def someBss (_ : ℕ) : Report := ⟨81, 6, [2, 0, 0, 0, 0, 1], 0, fun _ => 0⟩

def threeBss (k : ℕ) : Answer := if k = 0 then .report 1 0 someBss true else .report 2 3 someBss true

def plainIface : Iface := ⟨false, [0, 0, 0], List.replicate 26 0⟩

theorem poll_complete_lone : ∃ s, timerFunc plainIface (fun _ => true) threeBss loneStation = some s ∧ Polled s := by
  refine poll_complete plainIface (fun _ => true) threeBss loneStation fun s hs hi hp => ?_
  have hlone : ∀ q, (s.sta q).Pending → q = 5 := by
    intro q hq
    have hmeasures := (measures_of_reaches hs q).mp hq.1
    by_contra hne
    change ((loneStation q).refresh.issue true).Measures at hmeasures
    unfold loneStation at hmeasures
    rw [if_neg hne] at hmeasures
    exact absurd hmeasures (by decide)
  have h5 := hlone _ hp
  unfold threeBss
  split_ifs
  · exact nofun
  · refine fun _ => ⟨fun _ => rfl, nofun, fun q _ hq hpq => ?_⟩
    have := hlone q hpq
    omega

def twoStations (q : ℕ) : Station := if q < 2 then ⟨2, 0x10, 1, 0, .unknown⟩ else ⟨0, 0, 0, 0, .unknown⟩

def oneBss (_ : ℕ) : Answer := .report 2 1 someBss true

/-- The second station is not asked, and the passes end although it has still to report. -/
theorem skipped_station : ∃ s, timerFunc plainIface (fun _ => true) oneBss twoStations = some s ∧
    s.passes.map PassLog.due = [[0, 1]] ∧ s.passes.map PassLog.asked = [[0]] ∧ (s.sta 1).Pending := by
  refine ⟨_, rfl, ?_⟩
  decide +kernel

end NasFirmware.Dot11k
