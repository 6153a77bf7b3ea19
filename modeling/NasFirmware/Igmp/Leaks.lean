import NasFirmware.Igmp.Pending

/-!
# Entries that are lost

An entry of a table is meant to be in use exactly while it is in a list. `add_mcft` takes an entry for the group and one
for its first member. If there is none for the member, it leaves without giving the first one back, and no list has it.

* **`act_entries`**, **`perform_exact_iff`**: for one action, and for a run.
-/

namespace NasFirmware.Igmp.Plain

open Keyed

/-- The entries in use are those of the groups in the list and those of their members. -/
structure Exact (st : State) : Prop where
  groups : ∀ i, (st.mcftTbl i).valid = true ↔ i ∈ st.mcpq
  members : ∀ j, (st.mbrTbl j).valid = true ↔ ∃ i ∈ st.mcpq, j ∈ (st.entry i).grpMbr

/-- Every entry of a member that is in use is in the list of a group. -/
def Held (st : State) : Prop := ∀ j, (st.mbrTbl j).valid = true → ∃ i ∈ st.mcpq, j ∈ (st.entry i).grpMbr

/-- An entry of a group that is in use, and not in the list. -/
def Lost (st : State) (i : Fin maxMfctEntry) : Prop := (st.mcftTbl i).valid = true ∧ i ∉ st.mcpq

/-- A report for a new group, when there is an entry for the group and none for its member. -/
def Loses (st : State) : Action → Prop
  | .join group _ => inMulticast group = true ∧ reserved group = false ∧ getMcft st group = none ∧
      (∃ i, (st.mcftTbl i).valid = false) ∧ ∀ j, (st.mbrTbl j).valid = true
  | .renew _ _ | .leave _ _ | .expire _ => False

section

variable {st st' : State} {i : Fin maxMfctEntry} {group src : Addr}

theorem exact_iff (h : Inv st) (hheld : Held st) : Exact st ↔ ¬ ∃ i, Lost st i := by
  constructor
  · rintro hexact ⟨i, hvalid, hnot⟩
    exact hnot ((hexact.groups i).mp hvalid)
  · intro hlost
    refine ⟨fun i => ⟨fun hvalid => ?_, h.valid i⟩, fun j => ⟨hheld j, fun ⟨i, hi, hj⟩ => h.owns.valid i hi j hj⟩⟩
    by_contra hnot
    exact hlost ⟨i, hvalid, hnot⟩

/-! ## Operations -/

structure SameEntries (st st' : State) : Prop where
  mcpq : st'.mcpq = st.mcpq
  valid : ∀ i, (st'.mcftTbl i).valid = (st.mcftTbl i).valid
  grpMbr : ∀ i, (st'.entry i).grpMbr = (st.entry i).grpMbr
  mbrTbl : st'.mbrTbl = st.mbrTbl

/-- No entry has been lost, and none that was lost has been found. -/
structure Tight (st st' : State) : Prop where
  held : Held st'
  lost : ∀ i, Lost st' i ↔ Lost st i

theorem tight_refl (h : Held st) : Tight st st := ⟨h, fun _ => Iff.rfl⟩

theorem Tight.trans {st'' : State} (h : Tight st st') (h' : Tight st' st'') : Tight st st'' :=
  ⟨h'.held, fun i => (h'.lost i).trans (h.lost i)⟩

theorem SameEntries.tight (hs : SameEntries st st') (h : Held st) : Tight st st' := by
  refine ⟨fun j hj => ?_, fun i => ?_⟩
  · rw [hs.mbrTbl] at hj
    obtain ⟨i, hi, hmem⟩ := h j hj
    refine ⟨i, hs.mcpq ▸ hi, ?_⟩
    rw [hs.grpMbr]
    exact hmem
  · unfold Lost
    rw [hs.valid, hs.mcpq]

theorem sameEntries_setRetryLeft (st : State) (i : Fin maxMfctEntry) (n : UInt32) :
    SameEntries st (setRetryLeft st i n) :=
  ⟨rfl, valid_setEntry _, field_setEntry Mcft.grpMbr rfl, rfl⟩

theorem sameEntries_timeout (st : State) (i : Fin maxMfctEntry) : SameEntries st (timeout st i) := by
  unfold timeout
  split_ifs <;> exact ⟨rfl, fun _ => rfl, fun _ => rfl, rfl⟩

theorem Tight.timeout (h : Tight st st') (i : Fin maxMfctEntry) (n : UInt32) :
    Tight st (timeout (setRetryLeft st' i n) i) := by
  have hset := (sameEntries_setRetryLeft st' i n).tight h.held
  exact h.trans (hset.trans ((sameEntries_timeout _ i).tight hset.held))

theorem tight_setMembers {l : List (Fin maxMbrEntry)} {n : UInt32} {tbl : Pool.Table maxMbrEntry Addr}
    (hi : i ∈ st.mcpq) (hheld : ∀ y, (tbl y).valid = true → y ∈ l ∨ ∃ k ∈ st.mcpq, k ≠ i ∧ y ∈ (st.entry k).grpMbr) :
    Tight st (st.setMembers i l n tbl) := by
  refine ⟨fun y hy => ?_, fun k => ?_⟩
  · rcases hheld y hy with hmem | ⟨k, hk, hki, hmem⟩
    · refine ⟨i, hi, ?_⟩
      rw [entry_setMembers, if_pos rfl]
      exact hmem
    · refine ⟨k, hk, ?_⟩
      rw [entry_setMembers, if_neg hki]
      exact hmem
  · exact and_congr_left' (Bool.eq_iff_iff.mp (valid_setEntry _ k))

theorem tight_addUser (h : Held st) (hi : i ∈ st.mcpq) (src : Addr) : Tight st (addUser st i src).2 := by
  obtain ⟨-, heq⟩ | ⟨j, -, -, heq⟩ := addUser_cases st i src
  · rw [heq]
    exact tight_refl h
  rw [heq]
  refine tight_setMembers hi fun y hy => ?_
  by_cases hyj : y = j
  · exact .inl (hyj ▸ List.mem_cons_self)
  rw [Function.update_of_ne hyj] at hy
  obtain ⟨k, hk, hmem⟩ := h y hy
  by_cases hki : k = i
  · exact .inl (List.mem_cons_of_mem j (hki ▸ hmem))
  · exact .inr ⟨k, hk, hki, hmem⟩

theorem tight_delUser (h : Held st) (hbooks : Books st) (hi : i ∈ st.mcpq) (src : Addr) :
    Tight st (delUser st i src).2 := by
  obtain heq | ⟨j, hget, heq⟩ := delUser_cases st i src
  · rw [heq]
    exact tight_refl h
  rw [heq]
  refine tight_setMembers hi fun y hy => ?_
  obtain ⟨hy, hyj⟩ := Pool.free_valid_iff.mp hy
  obtain ⟨k, hk, hmem⟩ := h y hy
  by_cases hki : k = i
  · subst hki
    -- the entry that was given back is the only one with this address
    obtain ⟨hj, hsrc⟩ := mem_of_get hget
    have hdist : Distinct st.userAddr (st.entry k).grpMbr := hbooks.nodup k hk
    rw [hdist.remove_eq]
    refine .inl (List.mem_filter.mpr ⟨hmem, decide_eq_true fun haddr => hyj ?_⟩)
    exact List.inj_on_of_nodup_map hdist hmem hj (haddr.trans hsrc.symm)
  · exact .inr ⟨k, hk, hki, hmem⟩

theorem tight_dropGroup (h : Held st) (hbooks : Books st) (hi : i ∈ st.mcpq) :
    Tight st (dropGroup st (st.grp i)) := by
  refine ⟨fun y hy => ?_, fun k => ?_⟩
  · have hfreed : (Pool.freeAll st.mbrTbl (st.entry i).grpMbr y).valid = true := by
      rw [dropGroup_eq hbooks hi] at hy
      exact hy
    obtain ⟨hy, hnot⟩ := Pool.freeAll_valid_iff.mp hfreed
    obtain ⟨k, hk, hmem⟩ := h y hy
    refine ⟨k, (mem_dropGroup hbooks hi).mpr ⟨hk, fun hki => hnot (hki ▸ hmem)⟩, ?_⟩
    rw [(books_dropGroup hbooks hi).2.2]
    exact hmem
  · have hvalid : ((dropGroup st (st.grp i)).mcftTbl k).valid = true ↔ (st.mcftTbl k).valid = true ∧ k ≠ i := by
      rw [dropGroup_eq hbooks hi]
      exact Pool.free_valid_iff
    unfold Lost
    rw [hvalid, mem_dropGroup hbooks hi]
    by_cases hki : k = i
    · exact iff_of_false (fun hl => hl.1.2 hki) fun hl => hl.2 (hki ▸ hi)
    · rw [and_iff_left hki, and_iff_left hki]

theorem tight_pushGroup {j : Fin maxMbrEntry} (h : Held st) (hbooks : Books st) (hi : (st.mcftTbl i).valid = false) :
    Tight st (st.pushGroup i j group src) := by
  refine ⟨fun y hy => ?_, fun k => ?_⟩
  · by_cases hyj : y = j
    · refine ⟨i, List.mem_cons_self, ?_⟩
      rw [entry_pushGroup, if_pos rfl, hyj]
      exact List.mem_singleton_self j
    · obtain ⟨k, hk, hmem⟩ := h y ((congrArg Pool.Cell.valid (Function.update_of_ne hyj _ _)).symm.trans hy)
      refine ⟨k, List.mem_cons_of_mem i hk, ?_⟩
      have hki : k ≠ i := fun hki => Bool.false_ne_true (hi.symm.trans (hki ▸ hbooks.valid k hk))
      rw [entry_pushGroup, if_neg hki]
      exact hmem
  · by_cases hki : k = i
    · rw [hki]
      exact iff_of_false (fun hl => hl.2 List.mem_cons_self) fun hl => Bool.false_ne_true (hi.symm.trans hl.1)
    · have hvalid : ((st.pushGroup i j group src).mcftTbl k).valid = (st.mcftTbl k).valid :=
        congrArg Pool.Cell.valid (Function.update_of_ne hki _ _)
      have hmem : k ∈ (st.pushGroup i j group src).mcpq ↔ k ∈ st.mcpq := List.mem_cons.trans (or_iff_right hki)
      unfold Lost
      rw [hvalid, hmem]

/-! ## Actions -/

theorem tight_delGroupAndSrc (h : Inv st) (hheld : Held st) : Tight st (delGroupAndSrc st group src) := by
  unfold delGroupAndSrc
  split_ifs
  · exact tight_refl hheld
  cases hget : getMcft st group with
  | none => exact tight_refl hheld
  | some i =>
    have hi := (mem_of_getMcft hget).1
    have hbooks := (books_delUser h.toBooks hi src).1
    have hq := (callout_delUser st i src).2
    have hdel := tight_delUser hheld h.toBooks hi src
    dsimp only
    generalize delUser st i src = x at hbooks hq hdel
    obtain ⟨count, st₁⟩ := x
    have hi₁ : i ∈ st₁.mcpq := hq ▸ hi
    have hdrop : Tight st (if count = 0 then dropGroup st₁ (st₁.grp i) else st₁) := by
      split_ifs
      · exact hdel.trans (tight_dropGroup hdel.held hbooks hi₁)
      · exact hdel
    have htimeout := hdrop.timeout i lastMemberQueryCount
    exact ⟨htimeout.held, htimeout.lost⟩

theorem tight_igmpSpecificTimerExpired (h : Inv st) (hheld : Held st) (hi : i ∈ st.callout) :
    Tight st (igmpSpecificTimerExpired st i) := by
  unfold igmpSpecificTimerExpired
  have hset : SameEntries st (setRetryLeft st i ((st.entry i).retryLeft - 1)) := sameEntries_setRetryLeft st i _
  have hcall : i ∈ (setRetryLeft st i ((st.entry i).retryLeft - 1)).callout := hi
  have h := h.same (same_setRetryLeft st i ((st.entry i).retryLeft - 1))
  generalize setRetryLeft st i ((st.entry i).retryLeft - 1) = st₁ at h hset hcall
  have htight := hset.tight hheld
  dsimp only
  split_ifs with hretry hcount
  · have hin : i ∈ st₁.mcpq := by
      by_contra hout
      exact hcount (h.pending i hcall hout)
    have hdrop := htight.trans (tight_dropGroup htight.held h.toBooks hin)
    exact ⟨hdrop.held, hdrop.lost⟩
  · exact ⟨htight.held, htight.lost⟩
  · have htimeout := htight.trans ((sameEntries_timeout st₁ i).tight htight.held)
    exact ⟨htimeout.held, htimeout.lost⟩

theorem lost_takeEntry (h : Books st) (hi : (st.mcftTbl i).valid = false) : Lost (st.takeEntry i) i := by
  refine ⟨?_, fun hmem => Bool.false_ne_true (hi.symm.trans (h.valid i hmem))⟩
  unfold State.takeEntry
  dsimp only
  rw [Function.update_self]

theorem addGroupAndSrc_cases (st : State) (group src : Addr) :
    (¬ (inMulticast group = true ∧ reserved group = false) ∧ addGroupAndSrc st group src = st) ∨
    (∃ i, getMcft st group = some i ∧ addGroupAndSrc st group src =
      timeout (setRetryLeft (addUser (untimeout st i) i src).2 i (memberQueryCount + 1)) i) ∨
    ((inMulticast group = true ∧ reserved group = false) ∧ getMcft st group = none ∧ addGroupAndSrc st group src =
      match addMcft st group src with
      | (none, st) => st
      | (some i, st) => timeout (setRetryLeft (addMr st group) i (memberQueryCount + 1)) i) := by
  unfold addGroupAndSrc
  cases hmulti : inMulticast group with
  | false => exact .inl ⟨fun hacts => Bool.false_ne_true hacts.1, rfl⟩
  | true =>
    cases hres : reserved group with
    | true => exact .inl ⟨fun hacts => Bool.false_ne_true hacts.2.symm, rfl⟩
    | false =>
      cases hget : getMcft st group with
      | some i => exact .inr (.inl ⟨i, rfl, rfl⟩)
      | none => exact .inr (.inr ⟨⟨rfl, rfl⟩, rfl, rfl⟩)

theorem addGroupAndSrc_entries (h : Inv st) (hheld : Held st) : Held (addGroupAndSrc st group src) ∧
    ((∃ i, Lost (addGroupAndSrc st group src) i) ↔ (∃ i, Lost st i) ∨ Loses st (.join group src)) := by
  have htight : ∀ st', Tight st st' → ¬ Loses st (.join group src) →
      Held st' ∧ ((∃ i, Lost st' i) ↔ (∃ i, Lost st i) ∨ Loses st (.join group src)) :=
    fun st' ht hnot => ⟨ht.held, (exists_congr ht.lost).trans (or_iff_left hnot).symm⟩
  obtain ⟨hacts, heq⟩ | ⟨i, hget, heq⟩ | ⟨hacts, hget, heq⟩ := addGroupAndSrc_cases st group src
  · rw [heq]
    exact htight st (tight_refl hheld) fun hl => hacts ⟨hl.1, hl.2.1⟩
  · rw [heq]
    have hstop : Tight st (untimeout st i) := ⟨hheld, fun _ => Iff.rfl⟩
    have hadd := tight_addUser hstop.held (mem_of_getMcft hget).1 src
    exact htight _ ((hstop.trans hadd).timeout i _) fun hl => nomatch hget.symm.trans hl.2.2.1
  · rw [heq]
    obtain ⟨hall, hadd⟩ | ⟨i, hi, hall, hadd⟩ | ⟨i, j, hi, hj, hadd⟩ := addMcft_cases st group src
    · rw [hadd]
      refine htight st (tight_refl hheld) fun ⟨_, _, _, ⟨i, hi⟩, _⟩ => ?_
      exact Bool.false_ne_true (hi.symm.trans (hall i))
    · rw [hadd]
      refine ⟨fun y hy => ?_, iff_of_true ⟨i, lost_takeEntry h.toBooks hi⟩ (.inr ?_)⟩
      · obtain ⟨k, hk, hmem⟩ := hheld y hy
        refine ⟨k, hk, ?_⟩
        rw [entry_takeEntry]
        exact hmem
      · exact ⟨hacts.1, hacts.2, hget, ⟨i, hi⟩, hall⟩
    · rw [hadd]
      have hpush : Tight st (addMr (st.pushGroup i j group src) group) := by
        obtain ⟨hpush, hlost⟩ := @tight_pushGroup st i group src j hheld h.toBooks hi
        exact ⟨hpush, hlost⟩
      refine htight _ (hpush.timeout i _) fun ⟨_, _, _, _, hall⟩ => ?_
      exact Bool.false_ne_true (hj.symm.trans (hall j))

/-- **One action.** Only a report can lose an entry, and none is ever found again. -/
theorem act_entries (h : Inv st) (hheld : Held st) (a : Action) :
    Held (act st a) ∧ ((∃ i, Lost (act st a) i) ↔ (∃ i, Lost st i) ∨ Loses st a) := by
  have htight : ∀ st', Tight st st' → Held st' ∧ ((∃ i, Lost st' i) ↔ (∃ i, Lost st i) ∨ False) :=
    fun st' ht => ⟨ht.held, (exists_congr ht.lost).trans (or_false _).symm.to_iff⟩
  cases a with
  | join group src => exact addGroupAndSrc_entries h hheld
  | renew group src =>
    unfold act
    dsimp only
    split_ifs with hsome
    · obtain ⟨hheld', hlost⟩ := @addGroupAndSrc_entries st group src h hheld
      refine ⟨hheld', hlost.trans (or_congr_right (iff_false_intro fun hl => ?_))⟩
      rw [hl.2.2.1] at hsome
      cases hsome
    · exact htight st (tight_refl hheld)
  | leave group src => exact htight _ (tight_delGroupAndSrc h hheld)
  | expire i =>
    unfold act
    dsimp only
    split_ifs with hi
    · exact htight _ (tight_igmpSpecificTimerExpired h hheld hi)
    · exact htight st (tight_refl hheld)

end

theorem perform_held (actions : List Action) : Inv (perform actions) ∧ Held (perform actions) :=
  List.foldlRecOn (motive := fun st => Inv st ∧ Held st) _ _ ⟨inv_init, nofun⟩
    fun _ h a _ => ⟨inv_act h.1 a, (act_entries h.1 h.2 a).1⟩

theorem perform_lost_iff (actions : List Action) : (∃ i, Lost (perform actions) i) ↔
    ∃ k a, actions[k]? = some a ∧ Loses (perform (actions.take k)) a :=
  Trace.eventually_iff (I := fun st => Inv st ∧ Held st) (P := fun st => ∃ i, Lost st i) perform_held
    (fun ⟨_, hl⟩ => Bool.false_ne_true hl.1) (fun _ a h => (act_entries h.1 h.2 a).2) actions

/-- **Which runs lose no entries.** At the end the entries in use are those in the lists, if and only if no report was
for a new group when there was an entry for a group and none for a member. -/
theorem run_exact_iff (events : List Event) :
    Exact (run events) ↔ ∀ k a, (events.flatMap Event.actions)[k]? = some a →
      ¬ Loses (perform ((events.flatMap Event.actions).take k)) a := by
  rw [run_eq_perform]
  generalize events.flatMap Event.actions = actions
  rw [exact_iff (perform_held actions).1 (perform_held actions).2, perform_lost_iff]
  simp

/-! ## A crowd -/

def host (k : ℕ) : Addr := 0x0a000001 + UInt32.ofNat k

def crowd (n : ℕ) : List Event := (List.range n).map fun k => .packet (.report 0xef010203 (host k))

variable {n : ℕ} {st : State}

theorem host_injective {k : ℕ} (hk : k < 512) (hn : n < 512) (h : host k = host n) : k = n := by
  have heq : UInt32.ofNat k = UInt32.ofNat n := (UInt32.add_right_inj 0x0a000001).mp h
  have hnat := congrArg UInt32.toNat heq
  rw [UInt32.toNat_ofNat', UInt32.toNat_ofNat', Nat.mod_eq_of_lt (by omega), Nat.mod_eq_of_lt (by omega)] at hnat
  exact hnat

structure Crowded (n : ℕ) (st : State) : Prop where
  inv : Inv st
  held : Held st
  mcpq : st.mcpq = [0]
  grp : st.grp 0 = 0xef010203
  members : ∀ a ∈ st.members 0, ∃ k < n, a = host k
  length : (st.members 0).length = n
  free : (st.mcftTbl 1).valid = false

variable (h : Crowded n st)

include h

theorem Crowded.not_full (hn : n < 512) :
    ¬ ∀ j, (st.mbrTbl j).valid = true := by
  intro hfull
  have hall : ∀ j, j ∈ (st.entry 0).grpMbr := by
    intro j
    obtain ⟨i, hi, hj⟩ := h.held j (hfull j)
    rw [h.mcpq] at hi
    rwa [List.mem_singleton.mp hi] at hj
  have hle := ((List.nodup_finRange 512).subperm fun j _ => hall j).length_le
  have hlen : (st.entry 0).grpMbr.length = n := (List.length_map _).symm.trans h.length
  rw [List.length_finRange, hlen] at hle
  exact absurd hle (Nat.not_le_of_lt hn)

theorem Crowded.mem : (0 : Fin maxMfctEntry) ∈ st.mcpq := by
  rw [h.mcpq]
  exact List.mem_singleton_self 0

theorem Crowded.addUser (hn : n < 512) :
    (addUser (untimeout st 0) 0 (host n)).2.members 0 = host n :: st.members 0 ∧
    (addUser (untimeout st 0) 0 (host n)).2.grp = st.grp ∧
    ((addUser (untimeout st 0) 0 (host n)).2.mcftTbl 1).valid = (st.mcftTbl 1).valid := by
  obtain ⟨hfail, -⟩ | ⟨j, hfree, -, hadd⟩ := addUser_cases (untimeout st 0) 0 (host n)
  · rcases hfail with hin | hfull
    · obtain ⟨k, hk, hhost⟩ := h.members _ hin
      exact absurd (host_injective hn (hk.trans hn) hhost) hk.ne'
    · exact absurd hfull (h.not_full hn)
  · rw [hadd]
    refine ⟨?_, grp_setMembers, valid_setEntry _ 1⟩
    rw [members_setMembers, if_pos rfl, List.map_cons, Function.update_self]
    exact congrArg (host n :: ·) (h.inv.map_entry h.mem hfree)

theorem crowded_succ (hn : n < 512) :
    Crowded (n + 1) (addGroupAndSrc st 0xef010203 (host n)) := by
  have hget : getMcft st 0xef010203 = some 0 := h.grp ▸ Distinct.get_eq h.inv.distinct h.mem
  have hinv := @inv_addGroupAndSrc (host n) 0xef010203 st h.inv
  have hheld := (@addGroupAndSrc_entries st 0xef010203 (host n) h.inv h.held).1
  have heq : addGroupAndSrc st 0xef010203 (host n) =
      timeout (setRetryLeft (addUser (untimeout st 0) 0 (host n)).2 0 (memberQueryCount + 1)) 0 := by
    obtain ⟨hno, -⟩ | ⟨i, hi, heq⟩ | ⟨-, hnone, -⟩ := addGroupAndSrc_cases st 0xef010203 (host n)
    · exact absurd (by decide) hno
    · cases hget.symm.trans hi
      exact heq
    · cases hget.symm.trans hnone
  rw [heq] at hinv hheld ⊢
  obtain ⟨hmembers, hgrp, hvalid⟩ := h.addUser hn
  have hq : (addUser (untimeout st 0) 0 (host n)).2.mcpq = st.mcpq := (callout_addUser (untimeout st 0) 0 (host n)).2
  generalize (addUser (untimeout st 0) 0 (host n)).2 = st₁ at hinv hheld hmembers hgrp hq hvalid ⊢
  -- the counter and the timer change none of it
  have hset := same_setRetryLeft st₁ 0 (memberQueryCount + 1)
  have hslot := (sameEntries_setRetryLeft st₁ 0 (memberQueryCount + 1)).valid 1
  have hin : (0 : Fin maxMfctEntry) ∈ (setRetryLeft st₁ 0 (memberQueryCount + 1)).mcpq := hq ▸ h.mem
  generalize setRetryLeft st₁ 0 (memberQueryCount + 1) = st₂ at hinv hheld hset hslot hin ⊢
  have hsame : Same st₂ (timeout st₂ 0) := same_timeout (.inr (.inl hin))
  have hall : (timeout st₂ 0).members 0 = host n :: st.members 0 :=
    (hsame.members 0).trans ((hset.members 0).trans hmembers)
  refine ⟨hinv, hheld, ?_, ?_, fun a ha => ?_, ?_, ?_⟩
  · rw [hsame.mcpq, hset.mcpq, hq]
    exact h.mcpq
  · rw [hsame.grp, hset.grp, hgrp]
    exact h.grp
  · rw [hall] at ha
    rcases List.mem_cons.mp ha with rfl | ha
    · exact ⟨n, Nat.lt_succ_self n, rfl⟩
    · obtain ⟨k, hk, hhost⟩ := h.members a ha
      exact ⟨k, Nat.lt_succ_of_lt hk, hhost⟩
  · rw [hall, List.length_cons, h.length]
  · rw [(sameEntries_timeout st₂ 0).valid, hslot, hvalid]
    exact h.free

omit h

theorem run_concat (events : List Event) (event : Event) : run (events ++ [event]) = step (run events) event :=
  List.foldl_append

theorem run_crowd_succ (n : ℕ) : run (crowd (n + 1)) = addGroupAndSrc (run (crowd n)) 0xef010203 (host n) := by
  have hcrowd : crowd (n + 1) = crowd n ++ [.packet (.report 0xef010203 (host n))] := by
    unfold crowd
    rw [List.range_succ, List.map_append]
    rfl
  rw [hcrowd, run_concat]
  rfl

theorem crowded_run (hn : n < 512) : Crowded (n + 1) (run (crowd (n + 1))) := by
  induction n with
  | zero =>
    have hheld : Inv (run (crowd 1)) ∧ Held (run (crowd 1)) := by
      rw [run_eq_perform]
      exact perform_held _
    have hmembers : (run (crowd 1)).members 0 = [host 0] := by decide +kernel
    refine ⟨hheld.1, hheld.2, by decide +kernel, by decide +kernel, fun a ha => ⟨0, Nat.one_pos, ?_⟩, ?_,
      by decide +kernel⟩
    · rw [hmembers] at ha
      exact List.mem_singleton.mp ha
    · rw [hmembers]
      rfl
  | succ n ih =>
    rw [run_crowd_succ]
    exact crowded_succ (ih (Nat.lt_of_succ_lt hn)) hn

theorem Crowded.full (h : Crowded 512 st) (j : Fin maxMbrEntry) : (st.mbrTbl j).valid = true := by
  have hmem : (0 : Fin maxMfctEntry) ∈ st.mcpq := by
    rw [h.mcpq]
    exact List.mem_singleton_self 0
  have hnodup : (st.entry 0).grpMbr.Nodup := (h.inv.nodup 0 hmem).of_map _
  have hlen : (st.entry 0).grpMbr.length = 512 := (List.length_map _).symm.trans h.length
  have huniv : (st.entry 0).grpMbr.toFinset = Finset.univ := by
    refine Finset.eq_univ_of_card _ ?_
    rw [List.toFinset_card_of_nodup hnodup, hlen]
    exact (Fintype.card_fin 512).symm
  refine h.inv.owns.valid 0 hmem j (List.mem_toFinset.mp ?_)
  rw [huniv]
  exact Finset.mem_univ j

/-- Another group takes an entry, and finds none for its member. -/
theorem Crowded.not_exact (h : Crowded 512 st) :
    ¬ Exact (step st (.packet (.report 0xef010204 (host 0)))) := by
  have hnone : getMcft st 0xef010204 = none := by
    refine get_eq_none_iff.mpr ?_
    rw [h.mcpq, List.map_singleton, h.grp]
    decide
  have hloses : Loses st (.join 0xef010204 (host 0)) := ⟨by decide, by decide, hnone, ⟨1, h.free⟩, h.full⟩
  obtain ⟨i, hvalid, hnot⟩ := (act_entries h.inv h.held _).2.mpr (.inr hloses)
  exact fun hexact => hnot ((hexact.groups i).mp hvalid)

/-- **A lost entry.** `512` hosts are in one group, and one of them reports another. -/
theorem crowd_loses : ¬ Exact (run (crowd 512 ++ [.packet (.report 0xef010204 (host 0))])) := by
  rw [run_concat]
  exact (crowded_run (n := 511) (by decide)).not_exact

end NasFirmware.Igmp.Plain
