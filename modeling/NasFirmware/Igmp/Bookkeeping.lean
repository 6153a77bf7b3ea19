import NasFirmware.Igmp.Plain

/-!
# Groups, members and the kernel

The list of groups, the lists of members, their counts, and what the kernel has been told are changed in different
places, and after the last member has left a timer runs for an entry that has been given back.
-/

namespace NasFirmware.Igmp.Plain

open Keyed

def State.groups (st : State) : List Addr := st.mcpq.map st.grp

def State.members (st : State) (i : Fin maxMfctEntry) : List Addr := (st.entry i).grpMbr.map st.userAddr

structure Books (st : State) : Prop where
  valid : ∀ i ∈ st.mcpq, (st.mcftTbl i).valid = true
  distinct : st.groups.Nodup
  owns : Pool.Owns st.mbrTbl st.mcpq fun i => (st.entry i).grpMbr
  nodup : ∀ i ∈ st.mcpq, (st.members i).Nodup
  count : ∀ i ∈ st.mcpq, (st.entry i).userCount.toNat = (st.members i).length
  once : st.callout.Nodup
  pending : ∀ i ∈ st.callout, i ∉ st.mcpq → (st.entry i).userCount = 0
  joined : ∀ g, st.joined g = true ↔ g ∈ st.groups
  routed : ∀ g, st.mfc g = true ↔ g ∈ st.groups

/-- And no group is without members. -/
structure Inv (st : State) : Prop extends Books st where
  nonempty : ∀ i ∈ st.mcpq, (st.entry i).grpMbr ≠ []

/-! ## What changes nothing -/

/-- Lists, counts and the kernel are the same; a timer that was started belongs to a listed group or to an entry
without members. -/
structure Same (st st' : State) : Prop where
  mcpq : st'.mcpq = st.mcpq
  valid : ∀ i, (st.mcftTbl i).valid = true → (st'.mcftTbl i).valid = true
  grp : st'.grp = st.grp
  userCount : ∀ i, (st'.entry i).userCount = (st.entry i).userCount
  grpMbr : ∀ i, (st'.entry i).grpMbr = (st.entry i).grpMbr
  mbrTbl : st'.mbrTbl = st.mbrTbl
  joined : st'.joined = st.joined
  mfc : st'.mfc = st.mfc
  once : st.callout.Nodup → st'.callout.Nodup
  callout : ∀ i ∈ st'.callout, i ∈ st.callout ∨ i ∈ st.mcpq ∨ (st.entry i).userCount = 0

variable {i : Fin maxMfctEntry} {src group : Addr}

section

variable {st st' : State}

theorem Same.members (h : Same st st') (i : Fin maxMfctEntry) : st'.members i = st.members i := by
  unfold State.members State.userAddr
  rw [h.grpMbr, h.mbrTbl]

theorem Same.groups (h : Same st st') : st'.groups = st.groups := by
  unfold State.groups
  rw [h.mcpq, h.grp]

theorem Books.same (h : Books st) (hs : Same st st') : Books st' where
  valid i hi := hs.valid i (h.valid i (hs.mcpq ▸ hi))
  distinct := by
    rw [hs.groups]
    exact h.distinct
  owns := by
    rw [hs.mcpq, hs.mbrTbl]
    simp only [hs.grpMbr]
    exact h.owns
  nodup i hi := by
    rw [hs.members]
    exact h.nodup i (hs.mcpq ▸ hi)
  count i hi := by
    rw [hs.members, hs.userCount]
    exact h.count i (hs.mcpq ▸ hi)
  once := hs.once h.once
  pending i hi hnot := by
    rw [hs.mcpq] at hnot
    rw [hs.userCount]
    rcases hs.callout i hi with hold | hin | hzero
    · exact h.pending i hold hnot
    · exact absurd hin hnot
    · exact hzero
  joined g := by
    rw [hs.joined, hs.groups]
    exact h.joined g
  routed g := by
    rw [hs.mfc, hs.groups]
    exact h.routed g

theorem Inv.same (h : Inv st) (hs : Same st st') : Inv st' :=
  ⟨h.toBooks.same hs, fun i hi => by
    rw [hs.grpMbr]
    exact h.nonempty i (hs.mcpq ▸ hi)⟩

theorem entry_setEntry (e : Mcft) (k : Fin maxMfctEntry) :
    (st.setEntry i e).entry k = if k = i then e else st.entry k := by
  unfold State.entry State.setEntry
  dsimp only
  rw [Function.update_apply]
  split_ifs <;> rfl

theorem valid_setEntry (e : Mcft) (k : Fin maxMfctEntry) :
    ((st.setEntry i e).mcftTbl k).valid = (st.mcftTbl k).valid := by
  unfold State.setEntry
  dsimp only
  rw [Function.update_apply]
  split_ifs with h
  · rw [h]
  · rfl

theorem field_setEntry {β : Type} (f : Mcft → β) {e : Mcft} (he : f e = f (st.entry i)) (k : Fin maxMfctEntry) :
    f ((st.setEntry i e).entry k) = f (st.entry k) := by
  rw [entry_setEntry]
  split_ifs with h
  · rw [h, he]
  · rfl

theorem same_setRetryLeft (st : State) (i : Fin maxMfctEntry) (n : UInt32) : Same st (setRetryLeft st i n) :=
  ⟨rfl, fun k hk => (valid_setEntry _ k).trans hk, funext (field_setEntry Mcft.grpAddr rfl),
    field_setEntry Mcft.userCount rfl, field_setEntry Mcft.grpMbr rfl, rfl, rfl, rfl, id, fun _ hk => .inl hk⟩

theorem same_timeout (h : i ∈ st.callout ∨ i ∈ st.mcpq ∨ (st.entry i).userCount = 0) : Same st (timeout st i) := by
  unfold timeout
  split_ifs with hin
  · exact ⟨rfl, fun _ => id, rfl, fun _ => rfl, fun _ => rfl, rfl, rfl, rfl, id, fun k hk => .inl hk⟩
  · refine ⟨rfl, fun _ => id, rfl, fun _ => rfl, fun _ => rfl, rfl, rfl, rfl,
      fun honce => List.nodup_cons.mpr ⟨hin, honce⟩, fun k hk => ?_⟩
    rcases List.mem_cons.mp hk with rfl | hk
    · exact h
    · exact .inl hk

theorem same_untimeout (st : State) (i : Fin maxMfctEntry) : Same st (untimeout st i) :=
  ⟨rfl, fun _ => id, rfl, fun _ => rfl, fun _ => rfl, rfl, rfl, rfl, fun honce => honce.erase i,
    fun _ hk => .inl (List.mem_of_mem_erase hk)⟩

theorem same_igmpQuery (st : State) (group : Addr) : Same st (igmpQuery st group) :=
  ⟨rfl, fun _ => id, rfl, fun _ => rfl, fun _ => rfl, rfl, rfl, rfl, id, fun _ hk => .inl hk⟩

end

/-! ## One group and its members -/

section Members

variable {st st' : State}

def State.setMembers (st : State) (i : Fin maxMfctEntry) (l : List (Fin maxMbrEntry)) (n : UInt32)
    (tbl : Pool.Table maxMbrEntry Addr) : State :=
  { st.setEntry i { st.entry i with grpMbr := l, userCount := n } with mbrTbl := tbl }

section Set

variable {l : List (Fin maxMbrEntry)} {n : UInt32} {tbl : Pool.Table maxMbrEntry Addr}

theorem grp_setMembers : (st.setMembers i l n tbl).grp = st.grp := funext (field_setEntry Mcft.grpAddr rfl)

theorem groups_setMembers : (st.setMembers i l n tbl).groups = st.groups := congrArg st.mcpq.map grp_setMembers

theorem entry_setMembers (k : Fin maxMfctEntry) : (st.setMembers i l n tbl).entry k =
    if k = i then { st.entry i with grpMbr := l, userCount := n } else st.entry k :=
  entry_setEntry _ k

theorem members_setMembers (k : Fin maxMfctEntry) : (st.setMembers i l n tbl).members k =
    if k = i then l.map fun j => (tbl j).entry else (st.entry k).grpMbr.map fun j => (tbl j).entry := by
  unfold State.members
  rw [entry_setMembers]
  split_ifs <;> rfl

theorem Books.setMembers (h : Books st) (hi : i ∈ st.mcpq)
    (howns : Pool.Owns tbl st.mcpq fun k => if k = i then l else (st.entry k).grpMbr)
    (hothers : ∀ k ∈ st.mcpq, k ≠ i → ∀ j ∈ (st.entry k).grpMbr, (tbl j).entry = st.userAddr j)
    (hnodup : (l.map fun j => (tbl j).entry).Nodup) (hcount : n.toNat = l.length) :
    Books (st.setMembers i l n tbl) := by
  have hmembers : ∀ k ∈ st.mcpq, k ≠ i → (st.setMembers i l n tbl).members k = st.members k := by
    intro k hk hki
    rw [members_setMembers, if_neg hki]
    exact List.map_congr_left (hothers k hk hki)
  have hentry : ∀ k, k ≠ i → (st.setMembers i l n tbl).entry k = st.entry k :=
    fun k hki => (entry_setMembers k).trans (if_neg hki)
  have hgroups : (st.setMembers i l n tbl).groups = st.groups := groups_setMembers
  refine ⟨fun k hk => (valid_setEntry _ k).trans (h.valid k hk), hgroups ▸ h.distinct, ?_, fun k hk => ?_,
    fun k hk => ?_, h.once, fun k hk hnot => ?_, fun g => ?_, fun g => ?_⟩
  · have hlists : (fun k => ((st.setMembers i l n tbl).entry k).grpMbr) =
        fun k => if k = i then l else (st.entry k).grpMbr := by
      funext k
      rw [entry_setMembers]
      split_ifs <;> rfl
    rw [hlists]
    exact howns
  · by_cases hki : k = i
    · rw [members_setMembers, if_pos hki]
      exact hnodup
    · rw [hmembers k hk hki]
      exact h.nodup k hk
  · by_cases hki : k = i
    · rw [members_setMembers, entry_setMembers, if_pos hki, if_pos hki, List.length_map]
      exact hcount
    · rw [hmembers k hk hki, hentry k hki]
      exact h.count k hk
  · rw [hentry k fun hki => hnot (hki ▸ hi)]
    exact h.pending k hk hnot
  · rw [hgroups]
    exact h.joined g
  · rw [hgroups]
    exact h.routed g

end Set

theorem Books.length_grpMbr_le (h : Books st) (hi : i ∈ st.mcpq) : (st.entry i).grpMbr.length ≤ 512 := by
  have hnodup : (st.entry i).grpMbr.Nodup := (h.nodup i hi).of_map _
  exact hnodup.length_le_card.trans (Fintype.card_fin 512).le

theorem Books.userCount_eq (h : Books st) (hi : i ∈ st.mcpq) :
    (st.entry i).userCount.toNat = (st.entry i).grpMbr.length :=
  (h.count i hi).trans (List.length_map _)

theorem addUser_cases (st : State) (i : Fin maxMfctEntry) (src : Addr) :
    ((src ∈ st.members i ∨ ∀ j, (st.mbrTbl j).valid = true) ∧ (addUser st i src).2 = st) ∨
    ∃ j, (st.mbrTbl j).valid = false ∧ src ∉ st.members i ∧ (addUser st i src).2 =
      st.setMembers i (j :: (st.entry i).grpMbr) ((st.entry i).userCount + 1)
        (Function.update st.mbrTbl j ⟨true, src⟩) := by
  unfold addUser
  split_ifs with hin
  · exact .inl ⟨.inl hin, rfl⟩
  · cases hfind : Pool.find st.mbrTbl with
    | none => exact .inl ⟨.inr (Pool.find_eq_none_iff.mp hfind), rfl⟩
    | some j => exact .inr ⟨j, Pool.valid_of_find hfind, hin, rfl⟩

theorem delUser_cases (st : State) (i : Fin maxMfctEntry) (src : Addr) :
    delUser st i src = ((st.entry i).userCount, st) ∨
    ∃ j, Keyed.get st.userAddr src (st.entry i).grpMbr = some j ∧ delUser st i src =
      ((st.entry i).userCount - 1, st.setMembers i (Keyed.remove st.userAddr src (st.entry i).grpMbr)
        ((st.entry i).userCount - 1) (Pool.free st.mbrTbl j)) := by
  unfold delUser
  cases hget : Keyed.get st.userAddr src (st.entry i).grpMbr with
  | none => exact .inl rfl
  | some j => exact .inr ⟨j, rfl, rfl⟩

theorem Books.map_entry {j : Fin maxMbrEntry} (h : Books st) (hi : i ∈ st.mcpq) (hfree : (st.mbrTbl j).valid = false) :
    (st.entry i).grpMbr.map (fun y => (Function.update st.mbrTbl j ⟨true, src⟩ y).entry) = st.members i := by
  refine List.map_congr_left fun y hy => ?_
  have hne : y ≠ j := fun heq => h.owns.not_mem hfree hi (heq ▸ hy)
  exact congrArg Pool.Cell.entry (Function.update_of_ne hne _ _)

/-- **A member joins.** -/
theorem inv_addUser (h : Inv st) (hi : i ∈ st.mcpq) (src : Addr) :
    Inv (addUser st i src).2 ∧ (addUser st i src).2.mcpq = st.mcpq := by
  obtain ⟨-, heq⟩ | ⟨j, hfree, hin, heq⟩ := addUser_cases st i src
  · rw [heq]
    exact ⟨h, rfl⟩
  rw [heq]
  refine ⟨⟨h.setMembers hi (h.owns.give (k := i) hfree (fun k hk => .inr hk) (fun k hki => if_neg hki) ?_)
    (fun k hk _ y hy => ?_) ?_ ?_, fun k hk => ?_⟩, rfl⟩
  · intro y hy
    rw [if_pos rfl] at hy
    exact (List.mem_cons.mp hy).imp_right fun hy => ⟨hi, hy⟩
  · have hne : y ≠ j := fun heq => h.owns.not_mem hfree hk (heq ▸ hy)
    rw [Function.update_of_ne hne]
    rfl
  · rw [List.map_cons, h.map_entry hi hfree, Function.update_self]
    exact List.nodup_cons.mpr ⟨hin, h.nodup i hi⟩
  · have hcount := h.userCount_eq hi
    have hle := h.length_grpMbr_le hi
    rw [UInt32.toNat_add, hcount, List.length_cons]
    exact Nat.mod_eq_of_lt (lt_of_le_of_lt (Nat.succ_le_succ hle) (by decide))
  · rw [entry_setMembers]
    split_ifs
    · exact List.cons_ne_nil _ _
    · exact h.nonempty k hk

/-- **A member leaves**, and it may be the last one. -/
theorem books_delUser (h : Books st) (hi : i ∈ st.mcpq) (src : Addr) : Books (delUser st i src).2 ∧
    (delUser st i src).2.mcpq = st.mcpq ∧ (delUser st i src).1 = ((delUser st i src).2.entry i).userCount ∧
    ∀ k, k ≠ i → (delUser st i src).2.entry k = st.entry k := by
  obtain heq | ⟨j, hget, heq⟩ := delUser_cases st i src
  · rw [heq]
    exact ⟨h, rfl, rfl, fun _ _ => rfl⟩
  rw [heq]
  obtain ⟨hj, hsrc⟩ := mem_of_get hget
  have hdist : Distinct st.userAddr (st.entry i).grpMbr := h.nodup i hi
  have hremove := hdist.remove_eq (k := src)
  refine ⟨h.setMembers hi (h.owns.release (k := i) (l := [j]) hi (fun y hy => ?_) (fun _ => id)
    (fun k hki => if_neg hki) fun _ y hy => ?_) (fun k _ _ y _ => Pool.free_entry _ _ _) ?_ ?_, rfl, ?_, ?_⟩
  · rw [List.mem_singleton.mp hy]
    exact hj
  · rw [if_pos rfl, hremove] at hy
    obtain ⟨hy, hne⟩ := List.mem_filter.mp hy
    refine ⟨hy, fun hmem => of_decide_eq_true hne ?_⟩
    rw [List.mem_singleton.mp hmem, hsrc]
  · simp only [Pool.free_entry]
    exact hdist.remove
  · have hcount := h.userCount_eq hi
    have hlen := length_remove hget
    have hone : (1 : UInt32) ≤ (st.entry i).userCount := by
      rw [UInt32.le_iff_toNat_le, hcount, ← hlen]
      exact Nat.succ_le_succ (Nat.zero_le _)
    rw [UInt32.toNat_sub_of_le _ _ hone, hcount, ← hlen]
    rfl
  · rw [entry_setMembers, if_pos rfl]
  · exact fun k hki => (entry_setMembers k).trans (if_neg hki)

end Members

/-! ## Groups -/

section Groups

variable {st st' : State} {j : Fin maxMbrEntry}

def State.pushGroup (st : State) (i : Fin maxMfctEntry) (j : Fin maxMbrEntry) (group src : Addr) : State :=
  { st with
    mcftTbl := Function.update st.mcftTbl i ⟨true, { st.entry i with grpAddr := group, userCount := 1, grpMbr := [j] }⟩
    mbrTbl := Function.update st.mbrTbl j ⟨true, src⟩
    mcpq := i :: st.mcpq }

theorem entry_pushGroup (k : Fin maxMfctEntry) : (st.pushGroup i j group src).entry k =
    if k = i then { st.entry i with grpAddr := group, userCount := 1, grpMbr := [j] } else st.entry k := by
  unfold State.entry State.pushGroup
  dsimp only
  rw [Function.update_apply]
  split_ifs <;> rfl

def State.takeEntry (st : State) (i : Fin maxMfctEntry) : State :=
  { st with mcftTbl := Function.update st.mcftTbl i { st.mcftTbl i with valid := true } }

theorem entry_takeEntry (k : Fin maxMfctEntry) : (st.takeEntry i).entry k = st.entry k := by
  unfold State.entry State.takeEntry
  dsimp only
  rw [Function.update_apply]
  split_ifs with hki
  · rw [hki]
  · rfl

theorem same_takeEntry (st : State) (i : Fin maxMfctEntry) : Same st (st.takeEntry i) := by
  refine ⟨rfl, fun k hk => ?_, funext fun k => congrArg Mcft.grpAddr (entry_takeEntry k),
    fun k => congrArg Mcft.userCount (entry_takeEntry k), fun k => congrArg Mcft.grpMbr (entry_takeEntry k), rfl, rfl,
    rfl, id, fun _ hk => .inl hk⟩
  unfold State.takeEntry
  dsimp only
  rw [Function.update_apply]
  split_ifs
  · rfl
  · exact hk

theorem addMcft_cases (st : State) (group src : Addr) :
    ((∀ i, (st.mcftTbl i).valid = true) ∧ addMcft st group src = (none, st)) ∨
    (∃ i, (st.mcftTbl i).valid = false ∧ (∀ j, (st.mbrTbl j).valid = true) ∧
      addMcft st group src = (none, st.takeEntry i)) ∨
    ∃ i j, (st.mcftTbl i).valid = false ∧ (st.mbrTbl j).valid = false ∧
      addMcft st group src = (some i, st.pushGroup i j group src) := by
  unfold addMcft
  cases hfind : Pool.find st.mcftTbl with
  | none => exact .inl ⟨Pool.find_eq_none_iff.mp hfind, rfl⟩
  | some i =>
    have hi := Pool.valid_of_find hfind
    cases hfindMbr : Pool.find st.mbrTbl with
    | none => exact .inr (.inl ⟨i, hi, Pool.find_eq_none_iff.mp hfindMbr, rfl⟩)
    | some j => exact .inr (.inr ⟨i, j, hi, Pool.valid_of_find hfindMbr, rfl⟩)

/-- **A group is new.** Its entry was free, so it is not that of another group. -/
theorem inv_pushGroup (h : Inv st) (hget : getMcft st group = none)
    (hi : (st.mcftTbl i).valid = false) (hj : (st.mbrTbl j).valid = false) :
    Inv (addMr (st.pushGroup i j group src) group) := by
  have hnot : i ∉ st.mcpq := fun hmem => Bool.false_ne_true (hi.symm.trans (h.valid i hmem))
  have hne : ∀ k ∈ st.mcpq, k ≠ i := fun k hk hki => hnot (hki ▸ hk)
  have hold : ∀ k, k ≠ i → (st.pushGroup i j group src).entry k = st.entry k :=
    fun k hki => (entry_pushGroup k).trans (if_neg hki)
  have hself : (st.pushGroup i j group src).entry i = _ := (entry_pushGroup i).trans (if_pos rfl)
  have hgroups : (st.pushGroup i j group src).groups = group :: st.groups := by
    refine congrArg₂ List.cons (congrArg Mcft.grpAddr hself) (List.map_congr_left fun k hk => ?_)
    exact congrArg Mcft.grpAddr (hold k (hne k hk))
  have hnew : group ∉ st.groups := get_eq_none_iff.mp hget
  have hmember : (st.pushGroup i j group src).members i = [src] := by
    unfold State.members
    rw [hself]
    change [(Function.update st.mbrTbl j ⟨true, src⟩ j).entry] = [src]
    rw [Function.update_self]
  have hmembers : ∀ k ∈ st.mcpq, (st.pushGroup i j group src).members k = st.members k := by
    intro k hk
    unfold State.members
    rw [hold k (hne k hk)]
    refine List.map_congr_left fun y hy => ?_
    have hyj : y ≠ j := fun heq => h.owns.not_mem hj hk (heq ▸ hy)
    exact congrArg Pool.Cell.entry (Function.update_of_ne hyj _ _)
  have hkernel : ∀ (f : Addr → Bool), (∀ g, f g = true ↔ g ∈ st.groups) →
      ∀ g, Function.update f group true g = true ↔ g ∈ (st.pushGroup i j group src).groups := by
    intro f hf g
    rw [hgroups, List.mem_cons, Function.update_apply]
    split_ifs with hg
    · exact iff_of_true rfl (.inl hg)
    · rw [hf, or_iff_right hg]
  refine ⟨⟨fun k hk => ?_, ?_, ?_, fun k hk => ?_, fun k hk => ?_, h.once, fun k hk hout => ?_, hkernel _ h.joined,
    hkernel _ h.routed⟩, fun k hk => ?_⟩
  · change (Function.update st.mcftTbl i _ k).valid = true
    rw [Function.update_apply]
    split_ifs with hki
    · rfl
    · exact h.valid k ((List.mem_cons.mp hk).resolve_left hki)
  · change (st.pushGroup i j group src).groups.Nodup
    rw [hgroups]
    exact List.nodup_cons.mpr ⟨hnew, h.distinct⟩
  · refine h.owns.give (k := i) hj (fun k hk => List.mem_cons.mp hk) (fun k hki => ?_) fun y hy => .inl ?_
    · exact congrArg Mcft.grpMbr (hold k hki)
    · have hy : y ∈ ((st.pushGroup i j group src).entry i).grpMbr := hy
      rw [hself] at hy
      exact List.mem_singleton.mp hy
  · change ((st.pushGroup i j group src).members k).Nodup
    rcases List.mem_cons.mp hk with rfl | hk
    · rw [hmember]
      exact List.nodup_singleton src
    · rw [hmembers k hk]
      exact h.nodup k hk
  · change ((st.pushGroup i j group src).entry k).userCount.toNat = ((st.pushGroup i j group src).members k).length
    rcases List.mem_cons.mp hk with rfl | hk
    · rw [hmember, hself]
      rfl
    · rw [hmembers k hk, hold k (hne k hk)]
      exact h.count k hk
  · obtain ⟨hki, hout⟩ := not_or.mp fun hd => hout (List.mem_cons.mpr hd)
    change ((st.pushGroup i j group src).entry k).userCount = 0
    rw [hold k hki]
    exact h.pending k hk hout
  · change ((st.pushGroup i j group src).entry k).grpMbr ≠ []
    rcases List.mem_cons.mp hk with rfl | hk
    · rw [hself]
      exact List.cons_ne_nil _ _
    · rw [hold k (hne k hk)]
      exact h.nonempty k hk

theorem dropGroup_eq (h : Books st) (hi : i ∈ st.mcpq) : dropGroup st (st.grp i) =
    { delMr st (st.grp i) with
      mcpq := Keyed.remove st.grp (st.grp i) st.mcpq
      mbrTbl := Pool.freeAll st.mbrTbl (st.entry i).grpMbr
      mcftTbl := Pool.free st.mcftTbl i
      callout := st.callout.erase i } := by
  have hget : getMcft (delMr st (st.grp i)) (st.grp i) = some i := Distinct.get_eq h.distinct hi
  unfold dropGroup delMcft
  rw [hget]
  rfl

theorem mem_dropGroup {k : Fin maxMfctEntry} (h : Books st) (hi : i ∈ st.mcpq) :
    k ∈ (dropGroup st (st.grp i)).mcpq ↔ k ∈ st.mcpq ∧ k ≠ i := by
  have hdist : Distinct st.grp st.mcpq := h.distinct
  have hq : (dropGroup st (st.grp i)).mcpq = st.mcpq.filter fun k => st.grp k ≠ st.grp i := by
    rw [dropGroup_eq h hi]
    exact hdist.remove_eq
  rw [hq, List.mem_filter]
  refine and_congr_right fun hk => decide_eq_true_iff.trans (not_congr ⟨fun hgrp => ?_, congrArg st.grp⟩)
  exact List.inj_on_of_nodup_map h.distinct hk hi hgrp

/-- **The end of a group.** -/
theorem books_dropGroup (h : Books st) (hi : i ∈ st.mcpq) : Books (dropGroup st (st.grp i)) ∧
    (∀ k ∈ (dropGroup st (st.grp i)).mcpq, k ∈ st.mcpq ∧ k ≠ i) ∧
    ∀ k, (dropGroup st (st.grp i)).entry k = st.entry k := by
  have heq := dropGroup_eq h hi
  have hiff : ∀ k, k ∈ (dropGroup st (st.grp i)).mcpq ↔ k ∈ st.mcpq ∧ k ≠ i := fun k => mem_dropGroup h hi
  generalize dropGroup st (st.grp i) = st' at heq hiff ⊢
  have hmem : ∀ k ∈ st'.mcpq, k ∈ st.mcpq ∧ k ≠ i := fun k => (hiff k).mp
  have hentry : ∀ k, st'.entry k = st.entry k := by
    intro k
    rw [heq]
    exact Pool.free_entry _ _ _
  have hmembers : ∀ k, st'.members k = st.members k := by
    intro k
    unfold State.members
    rw [hentry, heq]
    exact List.map_congr_left fun y _ => Pool.freeAll_entry _ _ _
  have hgroups : st'.groups = st.groups.erase (st.grp i) := by
    have hgrp : st'.grp = st.grp := funext fun k => congrArg Mcft.grpAddr (hentry k)
    unfold State.groups
    rw [hgrp, heq]
    exact map_remove
  have hkernel : ∀ (f : Addr → Bool), (∀ g, f g = true ↔ g ∈ st.groups) →
      ∀ g, Function.update f (st.grp i) false g = true ↔ g ∈ st'.groups := by
    intro f hf g
    rw [hgroups, h.distinct.mem_erase_iff, Function.update_apply]
    split_ifs with hg
    · exact iff_of_false not_false fun hd => hd.1 hg
    · rw [hf, and_iff_right hg]
  refine ⟨⟨fun k hk => ?_, ?_, ?_, fun k hk => ?_, fun k hk => ?_, ?_, fun k hk hout => ?_, ?_, ?_⟩, hmem, hentry⟩
  · rw [heq]
    exact Pool.free_valid_iff.mpr ⟨h.valid k (hmem k hk).1, (hmem k hk).2⟩
  · rw [hgroups]
    exact h.distinct.erase _
  · have howns := h.owns.release (k := i) (l := (st.entry i).grpMbr) hi (fun _ => id) (fun k hk => (hmem k hk).1)
      (fun _ _ => rfl) fun hin => absurd rfl (hmem i hin).2
    simp only [hentry]
    rw [heq] at howns ⊢
    exact howns
  · rw [hmembers]
    exact h.nodup k (hmem k hk).1
  · rw [hmembers, hentry]
    exact h.count k (hmem k hk).1
  · rw [heq]
    exact h.once.erase i
  · have hcall : k ∈ st.callout.erase i := by
      rw [heq] at hk
      exact hk
    obtain ⟨hki, hcall⟩ := h.once.mem_erase_iff.mp hcall
    rw [hentry]
    exact h.pending k hcall fun hin => hout ((hiff k).mpr ⟨hin, hki⟩)
  · have hjoined := hkernel _ h.joined
    rw [heq] at hjoined ⊢
    exact hjoined
  · have hrouted := hkernel _ h.routed
    rw [heq] at hrouted ⊢
    exact hrouted

theorem inv_dropGroup (h : Books st) (hi : i ∈ st.mcpq) (hothers : ∀ k ∈ st.mcpq, k ≠ i → (st.entry k).grpMbr ≠ []) :
    Inv (dropGroup st (st.grp i)) := by
  obtain ⟨hbooks, hmem, hentry⟩ := books_dropGroup h hi
  refine ⟨hbooks, fun k hk => ?_⟩
  rw [hentry]
  exact hothers k (hmem k hk).1 (hmem k hk).2

end Groups

/-! ## Packets and timers -/

section Steps

variable {st : State}

theorem mem_of_getMcft (h : getMcft st group = some i) : i ∈ st.mcpq ∧ st.grp i = group := mem_of_get h

variable (h : Inv st)

include h

theorem inv_timeout (hi : i ∈ st.mcpq ∨ (st.entry i).userCount = 0) (n : UInt32) :
    Inv (timeout (setRetryLeft st i n) i) := by
  have hset := same_setRetryLeft st i n
  refine (h.same hset).same (same_timeout (.inr ?_))
  rw [hset.mcpq, hset.userCount]
  exact hi

theorem inv_addGroupAndSrc : Inv (addGroupAndSrc st group src) := by
  unfold addGroupAndSrc
  split_ifs
  · exact h
  · exact h
  cases hget : getMcft st group with
  | none =>
    obtain ⟨-, heq⟩ | ⟨i, -, -, heq⟩ | ⟨i, j, hi, hj, heq⟩ := addMcft_cases st group src
    · rw [heq]
      exact h
    · rw [heq]
      exact h.same (same_takeEntry st i)
    · rw [heq]
      exact inv_timeout (inv_pushGroup h hget hi hj) (.inl List.mem_cons_self) _
  | some i =>
    have hstop := same_untimeout st i
    have hi : i ∈ (untimeout st i).mcpq := (mem_of_getMcft hget).1
    obtain ⟨hinv, hq⟩ := inv_addUser (h.same hstop) hi src
    exact inv_timeout hinv (.inl (hq ▸ hi)) _

/-- The last member may take the group along. Its entry has no members then, and its timer does no harm. -/
theorem inv_delGroupAndSrc : Inv (delGroupAndSrc st group src) := by
  unfold delGroupAndSrc
  split_ifs
  · exact h
  cases hget : getMcft st group with
  | none => exact h
  | some i =>
    have hi := (mem_of_getMcft hget).1
    obtain ⟨hbooks, hq, hcount, hothers⟩ := books_delUser h.toBooks hi src
    dsimp only
    generalize delUser st i src = x at hbooks hq hcount hothers
    obtain ⟨count, st₁⟩ := x
    have hi₁ : i ∈ st₁.mcpq := hq ▸ hi
    have hrest : ∀ k ∈ st₁.mcpq, k ≠ i → (st₁.entry k).grpMbr ≠ [] := by
      intro k hk hki
      rw [hothers k hki]
      exact h.nonempty k (hq ▸ hk)
    refine Inv.same ?_ (same_igmpQuery _ _)
    by_cases hzero : count = 0
    · rw [if_pos hzero]
      refine inv_timeout (inv_dropGroup hbooks hi₁ hrest) (.inr ?_) _
      rw [(books_dropGroup hbooks hi₁).2.2, ← hcount]
      exact hzero
    · rw [if_neg hzero]
      refine inv_timeout ⟨hbooks, fun k hk => ?_⟩ (.inl hi₁) _
      by_cases hki : k = i
      · intro hnil
        have hlen := hbooks.userCount_eq hi₁
        rw [← hcount, ← hki, hnil] at hlen
        exact hzero (UInt32.toNat_inj.mp hlen)
      · exact hrest k hk hki

theorem inv_igmpSpecificTimerExpired (hi : i ∈ st.callout) : Inv (igmpSpecificTimerExpired st i) := by
  unfold igmpSpecificTimerExpired
  have hset := same_setRetryLeft st i ((st.entry i).retryLeft - 1)
  have hcall : i ∈ (setRetryLeft st i ((st.entry i).retryLeft - 1)).callout := hi
  have h := h.same hset
  generalize setRetryLeft st i ((st.entry i).retryLeft - 1) = st₁ at h hcall
  dsimp only
  split_ifs with hretry hcount
  · refine Inv.same ?_ (same_untimeout _ i)
    -- an entry with members is that of a group in the list
    have hin : i ∈ st₁.mcpq := by
      by_contra hout
      exact hcount (h.pending i hcall hout)
    exact inv_dropGroup h.toBooks hin fun k hk _ => h.nonempty k hk
  · exact h.same (same_untimeout _ i)
  · exact (h.same (same_timeout (.inl hcall))).same (same_igmpQuery _ _)

theorem inv_acceptRecord (r : Record) : Inv (acceptRecord src st r) := by
  unfold acceptRecord
  by_cases hprinter : r.group = allPrinter
  · rw [if_pos hprinter]
    exact h
  rw [if_neg hprinter]
  cases r.type with
  | modeIsInclude | modeIsExclude =>
    dsimp only
    split_ifs
    · exact inv_addGroupAndSrc h
    · exact h
  | changeToInclude =>
    dsimp only
    split_ifs
    · exact inv_addGroupAndSrc h
    · exact inv_delGroupAndSrc h
  | changeToExclude => exact inv_addGroupAndSrc h
  | allowNewSources | blockOldSources => exact h

/-- **A step.** -/
theorem inv_step (event : Event) : Inv (step st event) := by
  cases event with
  | packet m =>
    cases m with
    | report group src => exact inv_addGroupAndSrc h
    | reportV3 src records => exact List.foldlRecOn _ _ h fun st hst r _ => inv_acceptRecord hst r
    | leave group src => exact inv_delGroupAndSrc h
  | expire i =>
    unfold step
    dsimp only
    split_ifs with hi
    · exact inv_igmpSpecificTimerExpired h hi
    · exact h

end Steps

theorem inv_init : Inv init where
  valid := nofun
  distinct := List.nodup_nil
  owns := ⟨nofun, nofun⟩
  nodup := nofun
  count := nofun
  once := List.nodup_nil
  pending := nofun
  joined _ := iff_of_false Bool.false_ne_true List.not_mem_nil
  routed _ := iff_of_false Bool.false_ne_true List.not_mem_nil
  nonempty := nofun

theorem run_inv (events : List Event) : Inv (run events) :=
  List.foldlRecOn _ _ inv_init fun _ h event _ => inv_step h event

/-- **The books.** Groups are distinct; `user_count` is the number of the members, who are distinct; and the groups
joined upstream and those that have a route are those in the list. -/
theorem run_bookkept (events : List Event) :
    (run events).groups.Nodup ∧
    (∀ i ∈ (run events).mcpq,
      ((run events).entry i).userCount.toNat = ((run events).members i).length ∧
        1 ≤ ((run events).entry i).userCount.toNat ∧ ((run events).members i).Nodup) ∧
    (∀ g, (run events).joined g = true ↔ g ∈ (run events).groups) ∧
    ∀ g, (run events).mfc g = true ↔ g ∈ (run events).groups := by
  have h := run_inv events
  refine ⟨h.distinct, fun i hi => ⟨h.count i hi, ?_, h.nodup i hi⟩, h.joined, h.routed⟩
  rw [h.userCount_eq hi]
  exact List.length_pos_of_ne_nil (h.nonempty i hi)

/-- A member comes and goes: the list is empty, and the timer of the entry runs. -/
example : (run [.packet (.report 0xef010203 0xc0a80102), .packet (.leave 0xef010203 0xc0a80102)]).mcpq = [] ∧
    (run [.packet (.report 0xef010203 0xc0a80102), .packet (.leave 0xef010203 0xc0a80102)]).callout = [0] := by
  decide +kernel

end NasFirmware.Igmp.Plain
