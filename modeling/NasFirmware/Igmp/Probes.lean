import NasFirmware.Igmp.Leaks
import NasFirmware.Igmp.Stale
import NasFirmware.Igmp.ToEx

/-!
# Tables on which records show

For both builds, a table with a single group and no room for another.
-/

namespace NasFirmware.Igmp

open Keyed ByteMem

theorem and_high (x : ℕ) {mask k : ℕ} (hmask : mask % 2 ^ k = 0) :
    x &&& mask = 2 ^ k * (x / 2 ^ k &&& mask / 2 ^ k) := by
  have hdiv : (x &&& mask) / 2 ^ k = x / 2 ^ k &&& mask / 2 ^ k := Nat.and_div_two_pow
  have hmod : (x &&& mask) % 2 ^ k = 0 := by
    rw [Nat.and_mod_two_pow, hmask, Nat.and_zero]
  have hsum := Nat.div_add_mod (x &&& mask) (2 ^ k)
  rw [hdiv, hmod, Nat.add_zero] at hsum
  exact hsum.symm

theorem inMulticast_iff {group : Addr} : inMulticast group = true ↔ group.toNat / 2 ^ 28 = 14 := by
  have hlt := group.toNat_lt
  unfold inMulticast
  rw [beq_iff_eq, ← UInt32.toNat_inj, UInt32.toNat_and]
  change group.toNat &&& 0xf0000000 = 0xe0000000 ↔ _
  rw [and_high group.toNat (k := 28) (by decide), show 0xf0000000 / 2 ^ 28 = 2 ^ 4 - 1 from rfl,
    Nat.and_two_pow_sub_one_eq_mod]
  omega

theorem reserved_iff {group : Addr} : reserved group = true ↔ group.toNat / 256 = 0xe00000 := by
  have hlt := group.toNat_lt
  unfold reserved
  rw [beq_iff_eq, ← UInt32.toNat_inj, UInt32.toNat_and]
  change group.toNat &&& 0xffffff00 = 0xe0000000 ↔ _
  rw [and_high group.toNat (k := 8) (by decide), show 0xffffff00 / 2 ^ 8 = 2 ^ 24 - 1 from rfl,
    Nat.and_two_pow_sub_one_eq_mod]
  omega

section

variable {group group' : Addr}

theorem inMulticast_congr (h : group'.toNat / 256 = group.toNat / 256) : inMulticast group' = inMulticast group := by
  rw [Bool.eq_iff_iff, inMulticast_iff, inMulticast_iff]
  omega

theorem handled_congr (h : group'.toNat / 256 = group.toNat / 256) : handled group' = handled group := by
  have hres : reserved group' = reserved group := by
    rw [Bool.eq_iff_iff, reserved_iff, reserved_iff, h]
  unfold handled
  rw [inMulticast_congr h, hres]

theorem handled_join (h : group.toNat / 256 = 0xe10101) : handled group = true ∧ group ≠ allPrinter := by
  refine ⟨handled_iff.mpr ⟨inMulticast_iff.mpr (by omega), Bool.eq_false_iff.mpr fun hres => ?_⟩, fun heq => ?_⟩
  · have hres := reserved_iff.mp hres
    omega
  · rw [heq] at h
    exact absurd h (by decide)

end

/-! ## The build with IGMPv3 -/

section Igmpv3

variable {cfg : Config} {st : State} {group src : Addr} {body : McftEntry → World → Outcome} {e : McftEntry} {w : World}

def probeEntry (group : Addr) : McftEntry where
  grpAddr := group
  userCount := 0
  grpMbr := []
  timer := ⟨0, 0⟩
  igmpVer := .v3
  filterMode := .mcastInclude
  srclist := []
  mrtState := false

/-- This group, an entry for a member, and none for another group. -/
def probeState (group : Addr) : State := ⟨[probeEntry group], ⟨fun _ _ => none, [], 0, 1⟩⟩

theorem getMcft_probeState_self : getMcft (probeState group) group = some (probeEntry group) := if_pos rfl

theorem getMcft_probeState_of_ne {g : Addr} (h : g ≠ group) : getMcft (probeState group) g = none := if_neg h.symm

theorem distinct_probeState : Distinct McftEntry.grpAddr (probeState group).mcpq := List.nodup_singleton group

theorem addMcft_of_full (h : st.world.mcftFree = 0) : addMcft st group src = (false, st) := if_pos h

theorem onGroup_of_full (hget : getMcft st group = none) (h : st.world.mcftFree = 0) : onGroup st group src body = st := by
  unfold onGroup
  rw [hget, addMcft_of_full h]
  split_ifs with _ _ hsome
  · rfl
  · rfl
  · cases hsome
  · rfl

theorem apply_probeState_ne (hgrp : ∀ e w, (body e w).entry.grpAddr = e.grpAddr)
    (hne : (body (probeEntry group) (probeState group).world).left ≠ some (probeEntry group)) :
    (apply (probeState group) group body).mcpq ≠ (probeState group).mcpq := by
  intro heq
  have hget : getMcft (apply (probeState group) group body) group = getMcft (probeState group) group :=
    congrArg (Keyed.get McftEntry.grpAddr group) heq
  rw [getMcft_apply_eq distinct_probeState fun e he => (hgrp e _).trans (grpAddr_of_getMcft he), if_pos rfl,
    getMcft_probeState_self] at hget
  exact hne hget

theorem body_probeEntry (type : RecordType) (sources : List Reported) :
    (type.body cfg src sources (probeEntry group) (probeState group).world).left ≠ some (probeEntry group) := by
  intro hleft
  obtain ⟨hkeep, hentry⟩ := Outcome.left_eq_some_iff.mp hleft
  have hmbr : _ = [] := body_grpMbr.symm.trans (congrArg McftEntry.grpMbr hentry)
  split_ifs at hmbr with hleaves hblock
  · obtain ⟨rfl, rfl⟩ := hleaves
    cases hkeep
  · exact hblock.2 rfl
  · have hadd : (addUser (probeEntry group) (probeState group).world src).1.grpMbr = [src] := rfl
    cases hadd.symm.trans hmbr

theorem acceptRecord_eq_apply {r : Record} (hacts : (handled r.group && r.group != allPrinter) = true)
    (hget : getMcft st r.group = some e) :
    acceptRecord cfg src st r = apply st r.group (r.type.body cfg src r.sources) := by
  rw [Bool.and_eq_true, bne_iff_ne] at hacts
  obtain ⟨hmulti, hres⟩ := handled_iff.mp hacts.1
  unfold acceptRecord
  rw [if_neg hacts.2, handleRecord_eq, onGroup_of_get hmulti hres hget]

theorem report_probeState_ne :
    (igmpv3Accept cfg (probeState group) (.report group src)).mcpq ≠ (probeState group).mcpq := by
  have hver : getMcft (apply (probeState group) group setVer2) group =
      some { probeEntry group with igmpVer := .v2 } :=
    (getMcft_apply getMcft_probeState_self rfl rfl).trans (if_pos rfl)
  have hresult : ∃ e, getMcft (igmpv3Accept cfg (probeState group) (.report group src)) group = some e ∧
      e.igmpVer = .v2 := by
    unfold igmpv3Accept addReported
    dsimp only
    rw [getMcft_probeState_self]
    change ∃ e, getMcft (handleIgmpv3Isex cfg (apply (probeState group) group setVer2) group src []) group = some e ∧ _
    rw [handleIgmpv3Isex]
    by_cases hacts : Acts group
    · rw [onGroup_of_get hacts.1 hacts.2 hver]
      refine ⟨_, (getMcft_apply hver ?_ rfl).trans (if_pos rfl), ?_⟩
      · exact @body_grpAddr cfg src [] _ _ .modeIsExclude
      · rw [isex_entry]
        unfold addUser
        split_ifs <;> rfl
    · rw [onGroup_of_not_acts hacts]
      exact ⟨_, hver, rfl⟩
  intro heq
  obtain ⟨e, hget, he⟩ := hresult
  have hsame : getMcft (probeState group) group = some e := Eq.trans (congrArg (Keyed.get _ group) heq.symm) hget
  cases getMcft_probeState_self.symm.trans hsame
  cases he

/-- The tables for the build with IGMPv3. -/
def igmpv3Probe (cfg : Config) : Probe (igmpv3Build cfg) State.mcpq where
  state _ group := probeState group
  quiet src group r hne := by
    change acceptRecord cfg src (probeState group) r = probeState group
    unfold acceptRecord
    split_ifs
    · rfl
    · rw [handleRecord_eq]
      exact onGroup_of_full (getMcft_probeState_of_ne hne) rfl
  loud src r hacts := by
    change (acceptRecord cfg src (probeState r.group) r).mcpq ≠ _
    rw [acceptRecord_eq_apply hacts getMcft_probeState_self]
    exact apply_probeState_ne (fun _ _ => body_grpAddr) (body_probeEntry r.type r.sources)
  quiet_report src group g hne := by
    change igmpv3Accept cfg (probeState group) (.report g src) = probeState group
    unfold igmpv3Accept addReported
    dsimp only
    rw [getMcft_probeState_of_ne hne, addMcft_of_full rfl]
    rfl
  loud_report _ _ _ := report_probeState_ne
  quiet_leave src group g hne := by
    change igmpv3Accept cfg (probeState group) (.leave g src) = probeState group
    unfold igmpv3Accept
    dsimp only
    rw [getMcft_probeState_of_ne hne]
    rfl
  loud_leave src group hacts := by
    obtain ⟨hmulti, hres⟩ := handled_iff.mp hacts
    change (igmpv3Accept cfg (probeState group) (.leave group src)).mcpq ≠ _
    unfold igmpv3Accept
    dsimp only
    rw [getMcft_probeState_self]
    change (onGroup (probeState group) group src (toin cfg src [])).mcpq ≠ _
    rw [onGroup_of_get hmulti hres getMcft_probeState_self]
    exact apply_probeState_ne (fun e w => @body_grpAddr cfg src [] e w .changeToInclude)
      (@body_probeEntry cfg group src .changeToInclude [])
  acts_congr _ _ group group' hacts hdiv hne := by
    change (handled group' && group' != allPrinter) = true
    rw [handled_congr hdiv, bne_iff_ne.mpr hne, Bool.and_true]
    exact (Bool.and_eq_true_iff.mp hacts).1
  acts_join group hdiv := by
    obtain ⟨hhandled, hne⟩ := handled_join hdiv
    change (handled group && group != allPrinter) = true
    rw [hhandled, bne_iff_ne.mpr hne]
    rfl
  actsReport_join _ _ := rfl

end Igmpv3

/-! ## The default build -/

namespace Plain

section

variable {group src : Addr} {g : Addr}

def probeState (src group : Addr) : State where
  mcftTbl _ := ⟨true, ⟨group, 1, [0], 7⟩⟩
  mbrTbl _ := ⟨true, src⟩
  mcpq := [0]
  callout := []
  joined _ := false
  mfc _ := false
  sent := []

theorem getMcft_probeState_self : getMcft (probeState src group) group = some 0 := if_pos rfl

theorem getMcft_probeState_of_ne (h : g ≠ group) : getMcft (probeState src group) g = none := if_neg h.symm

theorem addGroupAndSrc_probeState_of_ne (h : g ≠ group) :
    addGroupAndSrc (probeState src group) g src = probeState src group := by
  obtain ⟨-, heq⟩ | ⟨i, hget, -⟩ | ⟨-, -, heq⟩ := addGroupAndSrc_cases (probeState src group) g src
  · exact heq
  · cases (getMcft_probeState_of_ne h).symm.trans hget
  · have hfull : Pool.find (probeState src group).mcftTbl = none := Pool.find_eq_none_iff.mpr fun _ => rfl
    rw [heq]
    unfold addMcft
    rw [hfull]

theorem retryLeft_timeout (st : State) (i : Fin maxMfctEntry) (n : UInt32) :
    ((timeout (setRetryLeft st i n) i).entry i).retryLeft = n := by
  have hset : ((setRetryLeft st i n).entry i).retryLeft = n := by
    rw [setRetryLeft, entry_setEntry, if_pos rfl]
  unfold timeout
  split_ifs <;> exact hset

theorem table_ne {st : State} (h : (st.entry 0).retryLeft ≠ 7) : st.table ≠ (probeState src group).table :=
  fun htable => h (congrArg (fun t => (t.1 0).entry.retryLeft) htable)

theorem addGroupAndSrc_probeState_ne (h : handled group = true) :
    (addGroupAndSrc (probeState src group) group src).table ≠ (probeState src group).table := by
  obtain ⟨hno, -⟩ | ⟨i, hget, heq⟩ | ⟨-, hget, -⟩ := addGroupAndSrc_cases (probeState src group) group src
  · exact absurd (handled_iff.mp h) hno
  · cases getMcft_probeState_self.symm.trans hget
    rw [heq]
    refine table_ne ?_
    rw [retryLeft_timeout]
    decide
  · cases getMcft_probeState_self.symm.trans hget

theorem delGroupAndSrc_probeState_of_ne (h : g ≠ group) :
    delGroupAndSrc (probeState src group) g src = probeState src group := by
  unfold delGroupAndSrc
  rw [getMcft_probeState_of_ne h]
  split_ifs <;> rfl

theorem delGroupAndSrc_probeState_ne (h : inMulticast group = true) :
    (delGroupAndSrc (probeState src group) group src).table ≠ (probeState src group).table := by
  refine table_ne ?_
  unfold delGroupAndSrc
  rw [h, getMcft_probeState_self]
  change ((timeout (setRetryLeft _ 0 lastMemberQueryCount) 0).entry 0).retryLeft ≠ 7
  rw [retryLeft_timeout]
  decide

def probe : Probe build State.table where
  state := probeState
  quiet src group r hne := by
    change acceptRecord src (probeState src group) r = probeState src group
    unfold acceptRecord
    rw [getMcft_probeState_of_ne hne, addGroupAndSrc_probeState_of_ne hne, delGroupAndSrc_probeState_of_ne hne,
      ite_self, ite_self]
    cases r.type <;> exact ite_self _
  loud src r hacts := by
    change (acceptRecord src (probeState src r.group) r).table ≠ _
    obtain ⟨hprinter, hacts⟩ := Bool.and_eq_true_iff.mp hacts
    unfold acceptRecord
    rw [if_neg (bne_iff_ne.mp hprinter), getMcft_probeState_self]
    cases htype : r.type with
    | modeIsInclude | modeIsExclude | changeToExclude =>
      rw [htype] at hacts
      exact addGroupAndSrc_probeState_ne hacts
    | changeToInclude =>
      rw [htype] at hacts
      dsimp only at hacts ⊢
      split_ifs at hacts ⊢
      · exact addGroupAndSrc_probeState_ne hacts
      · exact delGroupAndSrc_probeState_ne hacts
    | allowNewSources | blockOldSources =>
      rw [htype] at hacts
      cases hacts
  quiet_report _ _ _ hne := addGroupAndSrc_probeState_of_ne hne
  loud_report _ _ hacts := addGroupAndSrc_probeState_ne hacts
  quiet_leave _ _ _ hne := delGroupAndSrc_probeState_of_ne hne
  loud_leave _ _ hacts := delGroupAndSrc_probeState_ne hacts
  acts_congr type count group group' hacts hdiv hne := by
    change actsRecord type count group' = true
    unfold actsRecord
    rw [handled_congr hdiv, inMulticast_congr hdiv, bne_iff_ne.mpr hne]
    exact (Bool.and_eq_true_iff.mp hacts).2
  acts_join group hdiv := by
    obtain ⟨hhandled, hne⟩ := handled_join hdiv
    change actsRecord .changeToExclude 0 group = true
    unfold actsRecord
    rw [bne_iff_ne.mpr hne]
    exact hhandled
  actsReport_join _ hdiv := (handled_join hdiv).1

end

end Plain

end NasFirmware.Igmp
