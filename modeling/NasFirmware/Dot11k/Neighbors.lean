import NasFirmware.Dot11k.Polling

/-!
# The neighbours of a round

* **`neighbors_of_reaches`**: at every moment of the polling loops the list has at most `MAX_NEIGHBOR_NUM` entries, one
  for each BSS.
-/

namespace NasFirmware.Dot11k

open CLoop

section Parse

variable (iface : Iface) (r : Report)

theorem parseElements_le (fuel len : ℕ) (n : Neighbor) : len ≤ (parseElements iface r fuel len n).1 := by
  induction fuel generalizing len n with
  | zero => exact le_rfl
  | succ fuel ih =>
    unfold parseElements
    dsimp only
    split_ifs
    · exact le_rfl
    · exact le_trans (by omega) (ih _ _)
    · exact le_rfl

theorem parseElements_stable {fuel len : ℕ} (h : r.subelementsLen.toNat ≤ len + fuel) (k : ℕ) (n : Neighbor) :
    parseElements iface r (fuel + k) len n = parseElements iface r fuel len n := by
  induction fuel generalizing len n with
  | zero =>
    cases k with
    | zero => rfl
    | succ k =>
      exact if_neg (by omega)
  | succ fuel ih =>
    rw [Nat.add_right_comm]
    unfold parseElements
    dsimp only
    split_ifs
    · rfl
    · exact ih (by omega) _
    · rfl

theorem parseSubelements_stable {fuel len : ℕ} (h : r.subelementsLen.toNat ≤ len + fuel) (k : ℕ) (n : Neighbor) :
    parseSubelements iface r (fuel + k) len n = parseSubelements iface r fuel len n := by
  induction fuel generalizing len n with
  | zero =>
    cases k with
    | zero => rfl
    | succ k =>
      exact if_neg (by omega)
  | succ fuel ih =>
    rw [Nat.add_right_comm]
    unfold parseSubelements
    dsimp only
    have hle := parseElements_le iface r r.subelementsLen.toNat (len + 14) (n.setCaps (r.subelements (len + 13)))
    split_ifs
    · rfl
    · rfl
    · exact ih (by omega) _
    · exact ih (by omega) _
    · rfl
    · rfl

theorem bssid_setCaps (n : Neighbor) (c : UInt8) : (n.setCaps c).bssid = n.bssid := by
  unfold Neighbor.setCaps Neighbor.setBit
  split_ifs <;> rfl

theorem bssid_takeElement (n : Neighbor) (len : ℕ) : (takeElement iface r n len).bssid = n.bssid := by
  unfold takeElement Neighbor.setBit
  split_ifs <;> rfl

theorem bssid_parseElements (fuel len : ℕ) (n : Neighbor) : (parseElements iface r fuel len n).2.bssid = n.bssid := by
  induction fuel generalizing len n with
  | zero => rfl
  | succ fuel ih =>
    unfold parseElements
    dsimp only
    split_ifs
    · rfl
    · exact (ih _ _).trans (bssid_takeElement iface r n len)
    · rfl

theorem bssid_parseSubelements (fuel len : ℕ) (n : Neighbor) :
    (parseSubelements iface r fuel len n).bssid = n.bssid := by
  induction fuel generalizing len n with
  | zero => rfl
  | succ fuel ih =>
    unfold parseSubelements
    dsimp only
    split_ifs
    · rfl
    · rfl
    · exact (ih _ _).trans ((bssid_parseElements iface r _ _ _).trans (bssid_setCaps n _))
    · exact ih _ _
    · rfl
    · rfl

end Parse

/-! ## One entry for each BSS -/

/-- The list of neighbours: one entry for a BSS, and not too many. -/
structure Distinct (list : List Neighbor) : Prop where
  nodup : (list.map Neighbor.bssid).Nodup
  length_le : list.length ≤ maxNeighborNum

variable (iface : Iface) {list : List Neighbor}

theorem colloectNeighborReport_distinct (r : Report) (h : Distinct list) :
    Distinct (colloectNeighborReport iface r list) := by
  have hbssid : (newNeighbor iface r).bssid = r.bssid := bssid_parseSubelements iface r _ _ _
  unfold colloectNeighborReport
  split
  · rename_i i hi
    refine ⟨?_, (List.length_set ..).trans_le h.length_le⟩
    obtain ⟨hlt, hsame, -⟩ := List.findIdx?_eq_some_iff_getElem.mp hi
    have hset : (list.set i (newNeighbor iface r)).map Neighbor.bssid = list.map Neighbor.bssid := by
      have hget : r.bssid = (list.map Neighbor.bssid).get ⟨i, by rwa [List.length_map]⟩ := by
        rw [List.get_eq_getElem, List.getElem_map, of_decide_eq_true hsame]
      rw [List.map_set, hbssid, hget, List.get_eq_getElem, List.set_getElem_self]
    rw [hset]
    exact h.nodup
  · rename_i hnone
    split_ifs with hfull
    · exact h
    · have hle := h.length_le
      rw [List.findIdx?_eq_none_iff] at hnone
      refine ⟨?_, by rw [List.length_append, List.length_singleton]; omega⟩
      rw [List.map_append, List.nodup_append]
      refine ⟨h.nodup, List.nodup_singleton _, fun a ha b hb hab => ?_⟩
      obtain ⟨n, hn, rfl⟩ := List.mem_map.mp ha
      rw [List.map_singleton, List.mem_singleton, hbssid] at hb
      exact absurd (hab.trans hb) (of_decide_eq_false (hnone n hn))

theorem foldl_colloect_distinct (reports : List Report) (h : Distinct list) :
    Distinct (reports.foldl (fun list r => colloectNeighborReport iface r list) list) := by
  induction reports generalizing list with
  | nil => exact h
  | cons r reports ih => exact ih (colloectNeighborReport_distinct iface r h)

section Polling

variable {iface : Iface} {answers : ℕ → Answer} {s s' : Poll}

theorem neighbors_get (a : Answer) (s : Poll) : (getBeaconMeasurementReport a s).2.neighbors = s.neighbors := by
  unfold getBeaconMeasurementReport
  cases a with
  | error => rfl
  | report result bssNum bss alloc =>
    dsimp only
    split_ifs <;> rfl

theorem freeReport_neighbors (h : freeReport s = some s') : s'.neighbors = s.neighbors := by
  unfold freeReport at h
  split at h
  · cases h
    rfl
  · cases h
    rfl
  · cases h

theorem pollStation_distinct {a : Answer} (h : pollStation iface a s = some s') (hs : Distinct s.neighbors) :
    Distinct s'.neighbors := by
  rw [← neighbors_get a s] at hs
  unfold pollStation at h
  dsimp only at h
  split at h
  · rename_i s₁ hget
    cases h
    rw [hget] at hs
    exact hs
  · rename_i s₁ hget
    rw [hget] at hs
    split_ifs at h
    · cases h
      exact hs
    · split at h
      · rw [freeReport_neighbors h]
        exact foldl_colloect_distinct iface _ hs
      · rw [freeReport_neighbors h]
        exact hs
    · cases h
      exact hs

theorem pollStep_distinct (h : pollStep iface answers s = some (.next s')) (hs : Distinct s.neighbors) :
    Distinct s'.neighbors := by
  unfold pollStep at h
  split_ifs at h
  · obtain ⟨s₁, hs₁, heq⟩ := Option.map_eq_some_iff.mp h
    cases heq
    have h₁ : Distinct s₁.neighbors := pollStation_distinct hs₁ hs
    exact h₁
  · cases h
    exact hs
  · dsimp only at h
    split_ifs at h
    · cases h
    · cases h
      exact hs

/-- **The list of neighbours at every moment of a round.** -/
theorem neighbors_of_reaches {sta : ℕ → Station} (h : Reaches (pollStep iface answers) (startPoll sta) s) :
    Distinct s.neighbors := by
  induction h with
  | start => exact ⟨List.nodup_nil, Nat.zero_le _⟩
  | next _ hb ih => exact pollStep_distinct hb ih

theorem neighbors_of_reaches_oneBss : ∃ s, Reaches (pollStep plainIface oneBss)
    (startPoll fun q => (twoStations q).refresh.issue true) s ∧ s.neighbors.length = 1 ∧ Distinct s.neighbors :=
  have h := Reaches.next .start rfl
  ⟨_, h, by decide, neighbors_of_reaches h⟩

end Polling

end NasFirmware.Dot11k
