import NasFirmware.Dot11k.Polling

/-!
# The buffers of the reports

`TimerFunc` frees the buffer of a report when its BSSs are handed on, and keeps the pointer. A report without BSSs has
no buffer, and the pointer is freed again.
-/

namespace NasFirmware.Dot11k

open CLoop

/-- `beacon_report` is not a buffer that has still to be freed. -/
def Poll.Released (s : Poll) : Prop := ∀ bss, s.beaconReport ≠ .held bss

def Answer.Empty : Answer → Prop
  | .error => False
  | .report result bssNum _ _ => MeasurementResult.ofByte result = .succeed ∧ bssNum = 0

/-- A station is asked that reports no BSSs, and the pointer is that of an earlier report. -/
def FreesAgain (answers : ℕ → Answer) (s : Poll) : Prop :=
  s.i < maxStaNum ∧ (s.sta s.i).Pending ∧ (answers s.ioctls).Empty ∧ s.beaconReport = .freed

section Steps

variable {iface : Iface} {answers : ℕ → Answer} {s : Poll}

theorem pendingSlots_lt {sta : ℕ → Station} {i : ℕ} {x : Station} (hi : i < maxStaNum) (hp : (sta i).Pending)
    (hx : ¬ x.Pending) : (pendingSlots (Function.update sta i x)).length < (pendingSlots sta).length := by
  have heq : pendingSlots (Function.update sta i x) = (pendingSlots sta).filter (· ≠ i) := by
    unfold pendingSlots
    rw [List.filter_filter]
    refine List.filter_congr fun q _ => ?_
    by_cases hq : q = i
    · simp [hq, hx]
    · simp [hq]
  rw [heq, List.length_filter_lt_length_iff_exists]
  exact ⟨i, mem_pendingSlots.mpr ⟨hi, hp⟩, by simp⟩

theorem pendingSlots_setResult_lt {r : MeasurementResult} (hi : s.i < maxStaNum) (hp : (s.sta s.i).Pending)
    (hr : r ≠ .processing) : (pendingSlots (s.setResult r).sta).length < (pendingSlots s.sta).length :=
  pendingSlots_lt hi hp fun hx => hr hx.2

theorem pendingSlots_setResult_le (r : MeasurementResult) (hi : s.i < maxStaNum) (hp : (s.sta s.i).Pending) :
    (pendingSlots (s.setResult r).sta).length ≤ (pendingSlots s.sta).length := by
  by_cases hr : r = .processing
  · have hself : (s.setResult r).sta = s.sta := by
      rw [Poll.setResult, hr, ← hp.2]
      exact Function.update_eq_self ..
    rw [hself]
  · exact (pendingSlots_setResult_lt hi hp hr).le

/-- **Asking a station.** Either a pointer is freed for the second time, or no buffer is held afterwards, and the loop
goes on behind the station, or anywhere with one station less to ask. -/
theorem pollStation_cases (iface : Iface) (a : Answer) (hrel : s.Released) (hi : s.i < maxStaNum)
    (hp : (s.sta s.i).Pending) :
    (a.Empty ∧ s.beaconReport = .freed ∧ pollStation iface a s = none) ∨
    ¬ (a.Empty ∧ s.beaconReport = .freed) ∧ ∃ s', pollStation iface a s = some s' ∧ s'.Released ∧ s'.j = s.j ∧
      (s'.i = s.i ∧ (pendingSlots s'.sta).length ≤ (pendingSlots s.sta).length ∨
        s'.i < 256 ∧ (pendingSlots s'.sta).length < (pendingSlots s.sta).length) := by
  cases a with
  | error => exact .inr ⟨fun h => h.1, _, rfl, hrel, rfl, .inl ⟨rfl, le_rfl⟩⟩
  | report result bssNum bss alloc =>
    have hle := pendingSlots_setResult_le (.ofByte result) hi hp
    unfold pollStation getBeaconMeasurementReport
    dsimp only [Poll.setResult]
    by_cases hsucc : MeasurementResult.ofByte result = .succeed
    · have hlt := pendingSlots_setResult_lt hi hp (r := .succeed) (by decide)
      have hbyte := bssNum.toNat_lt
      rw [if_pos hsucc]
      by_cases hzero : bssNum = 0
      · cases hptr : s.beaconReport with
        | null =>
          refine .inr ⟨by simp, ?_⟩
          simp only [hzero, hsucc, Function.update_self, freeReport, reduceCtorEq, if_true, if_false]
          exact ⟨_, rfl, nofun, rfl, .inr ⟨Nat.succ_pos 255, hlt⟩⟩
        | held bss => exact absurd hptr (hrel bss)
        | freed =>
          refine .inl ⟨⟨hsucc, hzero⟩, rfl, ?_⟩
          simp [hzero, hsucc, freeReport]
      · refine .inr ⟨fun h => hzero h.1.2, ?_⟩
        cases alloc with
        | false =>
          simp only [hzero, if_false, Bool.false_eq_true]
          exact ⟨_, rfl, nofun, rfl, .inl ⟨rfl, hle⟩⟩
        | true =>
          simp only [hzero, hsucc, Function.update_self, handBss, freeReport, reduceCtorEq, if_true, if_false]
          exact ⟨_, rfl, nofun, rfl, .inr ⟨hbyte, hlt⟩⟩
    · refine .inr ⟨fun h => hsucc h.1.1, ?_⟩
      simp only [hsucc, Function.update_self, if_false]
      split_ifs
      · exact ⟨_, rfl, hrel, rfl, .inl ⟨rfl, hle⟩⟩
      · exact ⟨_, rfl, hrel, rfl, .inl ⟨rfl, hle⟩⟩

/-- The turns that are left, at most: a pass comes back to a station only when another has reported. -/
def turnsAhead (s : Poll) : ℕ :=
  (beaconMeasureTime - s.j) * 60000 + (pendingSlots s.sta).length * 300 + (300 - s.i)

structure Polling (s : Poll) : Prop where
  released : s.Released
  i_le : s.i ≤ 256
  j_lt : s.j < beaconMeasureTime

theorem pollStep_of_freesAgain (h : Polling s) (hfree : FreesAgain answers s) : pollStep iface answers s = none := by
  obtain ⟨hi, hp, hempty, hptr⟩ := hfree
  rw [pollStep, if_pos hi, if_pos hp]
  rcases pollStation_cases iface _ h.released hi hp with ⟨-, -, hnone⟩ | ⟨hnot, -⟩
  · rw [hnone]
    rfl
  · exact absurd ⟨hempty, hptr⟩ hnot

theorem pollStep_of_not (iface : Iface) (h : Polling s) (hfree : ¬ FreesAgain answers s) :
    (∃ s', pollStep iface answers s = some (.next s') ∧ Polling s' ∧ turnsAhead s' < turnsAhead s) ∨
      ∃ r, pollStep iface answers s = some (.done r) ∧ r.Released := by
  obtain ⟨hrel, hile, hj⟩ := h
  have hmax : maxStaNum = 128 := rfl
  unfold pollStep turnsAhead
  by_cases hi : s.i < maxStaNum
  · rw [if_pos hi]
    by_cases hp : (s.sta s.i).Pending
    · rw [if_pos hp]
      rcases pollStation_cases iface (answers s.ioctls) hrel hi hp with
        ⟨hempty, hptr, -⟩ | ⟨-, s', hs', hrel', hj', hnext⟩
      · exact absurd ⟨hi, hp, hempty, hptr⟩ hfree
      · rw [hs']
        refine .inl ⟨_, rfl, ⟨hrel', ?_, hj' ▸ hj⟩, ?_⟩ <;> dsimp only <;> omega
    · rw [if_neg hp]
      refine .inl ⟨_, rfl, ⟨hrel, ?_, hj⟩, ?_⟩ <;> dsimp only <;> omega
  · rw [if_neg hi]
    by_cases hend : s.finish = true ∨ beaconMeasureTime ≤ s.j + 1
    · rw [if_pos hend]
      exact .inr ⟨_, rfl, hrel⟩
    · rw [if_neg hend]
      refine .inl ⟨_, rfl, ⟨hrel, Nat.zero_le _, by simp only [Poll.newPass]; omega⟩, ?_⟩
      simp only [Poll.newPass]
      omega

end Steps

/-- **The buffers of a round.** For every table of stations and every sequence of answers: `TimerFunc` returns, no
pointer is freed twice, and no buffer is left at the end of a turn that allocates one, exactly if no station reports
no BSSs while the pointer is that of an earlier report. -/
theorem timerFunc_released_iff (iface : Iface) (issued : ℕ → Bool) (answers : ℕ → Answer) (sta : ℕ → Station) :
    ((∃ r, timerFunc iface issued answers sta = some r ∧ r.Released) ∧
      ∀ s, Reaches (pollStep iface answers) (startPoll fun q => (sta q).refresh.issue (issued q)) s → s.Released) ↔
    ∀ s, Reaches (pollStep iface answers) (startPoll fun q => (sta q).refresh.issue (issued q)) s →
      ¬ FreesAgain answers s := by
  have hstart : Polling (startPoll fun q => (sta q).refresh.issue (issued q)) :=
    ⟨nofun, Nat.zero_le _, Nat.succ_pos 12⟩
  have hreach : ∀ s, Reaches (pollStep iface answers) (startPoll fun q => (sta q).refresh.issue (issued q)) s →
      Polling s := by
    intro s hs
    induction hs with
    | start => exact hstart
    | @next s s' _ hb ih =>
      by_cases hfree : FreesAgain answers s
      · rw [pollStep_of_freesAgain ih hfree] at hb
        cases hb
      · rcases pollStep_of_not iface ih hfree with ⟨s₁, hnext, h₁, -⟩ | ⟨r, hdone, -⟩
        · rw [hnext] at hb
          cases hb
          exact h₁
        · rw [hdone] at hb
          cases hb
  constructor
  · rintro ⟨⟨r, hr, -⟩, -⟩ s hs hfree
    have hnone := loop_eq_none_of_reaches hs (pollStep_of_freesAgain (hreach s hs) hfree) pollTurns
    rw [timerFunc, poll, hnone] at hr
    cases hr
  · intro hnot
    refine ⟨?_, fun s hs => (hreach s hs).released⟩
    have hlen : (pendingSlots fun q => (sta q).refresh.issue (issued q)).length ≤ 128 :=
      (List.length_filter_le _ _).trans_eq List.length_range
    refine loop_of_reaches (fun k s => Polling s ∧ turnsAhead s = k) (fun s => ¬ FreesAgain answers s) Poll.Released
      (fun k s ⟨h, hk⟩ hs => ?_) ⟨hstart, rfl⟩ hnot ?_
    · exact (pollStep_of_not iface h hs).imp_left fun ⟨s', hnext, h', hlt⟩ => ⟨_, s', hnext, ⟨h', rfl⟩, hk ▸ hlt⟩
    · change 13 * 60000 + (pendingSlots fun q => (sta q).refresh.issue (issued q)).length * 300 + 300 < 1300000
      omega

def farStations (q : ℕ) : Station :=
  if q = 0 ∨ q = 5 then ⟨2, 0x10, 1, 0, .unknown⟩ else ⟨0, 0, 0, 0, .unknown⟩

/-- The first station reports one BSS, the second none. -/
def thenNone (k : ℕ) : Answer := if k = 0 then .report 2 1 someBss true else .report 2 0 someBss true

theorem thenNone_frees_again : timerFunc plainIface (fun _ => true) thenNone farStations = none := rfl

end NasFirmware.Dot11k
