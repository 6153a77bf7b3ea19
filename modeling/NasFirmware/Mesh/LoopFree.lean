import NasFirmware.Mesh.Receive

set_option autoImplicit false
set_option linter.unusedSectionVars false

/-!
# Paths without loops

Every step of the mesh keeps the invariant of the floods, so in every run metrics decrease along next hops.
-/

namespace NasFirmware.Mesh

open Flood

variable {Node : Type} [LinearOrder Node] {mesh : Topology Node} {given : Node → ℕ → Kind Node} {st : State Node}
  {sender me : Node} {m : Msg Node} {v D : Node} {s : Station Node} {msgs : List (Msg Node)}

def give (given : Node → ℕ → Kind Node) (me : Node) (n : ℕ) (kind : Kind Node) : Node → ℕ → Kind Node :=
  Function.update given me (Function.update (given me) n kind)

theorem give_self (n : ℕ) (kind : Kind Node) : give given me n kind me n = kind := by
  unfold give
  rw [Function.update_self, Function.update_self]

theorem give_of_ne {n k : ℕ} (kind : Kind Node) (h : v = me → k ≠ n) :
    give given me n kind v k = given v k := by
  unfold give
  by_cases hv : v = me
  · subst hv
    rw [Function.update_self, Function.update_of_ne (h rfl)]
  · rw [Function.update_of_ne hv]

theorem Inv.give (h : Inv mesh given st) (kind : Kind Node) :
    Inv mesh (give given me (st.station me).mySeqNum kind) st := by
  refine ⟨h.flood, h.tidy, fun m hm => ?_⟩
  obtain ⟨hkind, hlt⟩ := h.messages m hm
  refine ⟨?_, hlt⟩
  rw [give_of_ne kind fun hme => ?_]
  · exact hkind
  · rw [hme] at hlt
    exact hlt.ne

theorem Inv.announce (h : Inv mesh given st) (hfew : (st.station me).mySeqNum < 2 ^ 32) (kind : Kind Node)
    (ttl : UInt8) : Inv mesh (Mesh.give given me (st.station me).mySeqNum kind)
      (st.act me ((st.station me).announce me kind ttl)) := by
  set s := st.station me with hs
  set s' : Station Node := { s with mySeqNum := s.mySeqNum + 1 } with hs'
  have h' : Inv mesh (Mesh.give given me s.mySeqNum kind) (st.act me (s', [])) :=
    (h.give kind).quiet ((h.tidy me).congr rfl rfl rfl) rfl (Nat.le_succ _) (.refl _)
  have hself : (st.act me (s', [])).station me = s' := station_act_self
  have hnum : (UInt32.ofNat s.mySeqNum).toNat = s.mySeqNum := UInt32.toNat_ofNat_of_lt hfew
  unfold Station.announce
  rw [← act_act]
  refine h'.act (fun D => ?_) ((h.tidy me).congr rfl rfl rfl) (by rw [hself]) fun x hx => ?_
  · by_cases hD : me = D
    · subst hD
      refine (h'.flood me).announce (k := ⟨s'.mySeqNum, 0⟩) (a := ⟨s.mySeqNum, 0⟩)
        (says_act (by rw [hself]) (fun _ => by rw [hself]) ?_ ?_) ?_ rfl (Nat.le_succ _) rfl ?_
      · rw [List.filterMap_cons, about, if_pos rfl, hnum]
        rfl
      · rw [pend_act_self]
      · change (if me = me then _ else _) = _
        rw [if_pos rfl, hself]
      · rw [pend_act_self]
        refine List.filterMap_eq_nil_iff.mpr fun x hx => about_of_ne ((h.tidy me).ownPending x hx)
    · refine (h'.flood D).shrink (shrinks_act (h'.tidy me).own (by rw [hself]) (by rw [hself]) ?_ ?_)
      · rw [List.filterMap_cons, about, if_neg hD]
        rfl
      · rw [pend_act_self]
  · rcases hx with hx | hx
    · rw [List.mem_singleton.mp hx]
      refine ⟨?_, ?_⟩
      · rw [hnum, give_self]
      · change (UInt32.ofNat s.mySeqNum).toNat < ((st.act me (s', [])).station me).mySeqNum
        rw [hnum, hself]
        exact Nat.lt_succ_self _
    · exact h'.messages x (.inr ⟨me, hself.symm ▸ hx⟩)

theorem Inv.gen (h : Inv mesh given st) (hs : Alike (st.station me) s) {kind : Kind Node}
    {ttl : UInt8} (hfew : ((st.act me (s.announce me kind ttl)).station me).mySeqNum ≤ 2 ^ 32) :
    ∃ given', Inv mesh given' (st.act me (s.announce me kind ttl)) := by
  have hself : (st.act me (s, [])).station me = s := station_act_self
  have hlt : s.mySeqNum < 2 ^ 32 := by
    rw [station_act_self] at hfew
    exact hfew
  have hfew' : ((st.act me (s, [])).station me).mySeqNum < 2 ^ 32 := by rwa [hself]
  have h' := (h.alike hs).announce hfew' kind ttl
  rw [hself] at h'
  unfold Station.announce at h' ⊢
  rw [act_act] at h'
  exact ⟨_, h'⟩

theorem chan_setChan (msgs : List (Msg Node)) (u v : Node) : (st.setChan sender me msgs).chan u v =
    if u = sender ∧ v = me then msgs else st.chan u v := by
  unfold State.setChan
  by_cases hu : u = sender
  · subst hu
    by_cases hv : v = me
    · subst hv
      simp
    · simp [hv]
  · simp [hu]

theorem Inv.setChan (h : Inv mesh given st) (hsub : msgs.Sublist (st.chan sender me)) :
    Inv mesh given (st.setChan sender me msgs) := by
  have hchan : ∀ u v, ((st.setChan sender me msgs).chan u v).Sublist (st.chan u v) := by
    intro u v
    rw [chan_setChan]
    split_ifs with huv
    · rw [huv.1, huv.2]
      exact hsub
    · exact .refl _
  refine ⟨fun D => (h.flood D).shrink ?_, h.tidy, fun m hm => h.messages m ?_⟩
  · exact ⟨fun u k hk => ⟨k, hk, le_rfl, rfl⟩, fun v u hv => ⟨hv, rfl⟩, fun u v => (hchan u v).filterMap _,
      fun u => .refl _⟩
  · exact hm.imp_left fun ⟨u, v, hm⟩ => ⟨u, v, (hchan u v).subset hm⟩

theorem taken_of_chan (h : Inv mesh given st) (hlink : mesh.Hears sender me)
    (hchan : st.chan sender me = m :: msgs) : Taken mesh given (st.setChan sender me msgs) sender me m := by
  have hq : (view st m.origAddr).link sender me = ⟨m.seqNum.toNat, m.metric.toNat⟩ :: msgs.filterMap (about m.origAddr) := by
    change (st.chan sender me).filterMap (about m.origAddr) = _
    rw [hchan, List.filterMap_cons, about_self]
  have hview : view (st.setChan sender me msgs) m.origAddr = (view st m.origAddr).pop sender me := by
    refine View.mk.injEq .. |>.mpr ⟨rfl, rfl, ?_, rfl⟩
    funext u v
    rw [chan_setChan]
    refine Eq.trans ?_ (View.link_pop u v).symm
    rw [hq, List.tail_cons]
    split_ifs
    · rfl
    · rfl
  refine ⟨hlink, ?_, h.messages m (.inl ⟨sender, me, ?_⟩)⟩
  · rw [hview]
    exact (h.flood m.origAddr).inHand hq
  · rw [hchan]
    exact List.mem_cons_self

theorem Inv.retxPann (h : Inv mesh given st) : Inv mesh given (st.act me (retxPann (st.station me))) := by
  obtain ⟨hown, hownPending, hhears, hportals, hpann, hrann⟩ := h.tidy me
  have hsub := retxPool_subperm (st.station me).pannRetxPool
  have hkept : (panns (retxPool (st.station me).pannRetxPool).1).Subperm (panns (st.station me).pannRetxPool) :=
    (List.sublist_append_right ..).subperm.trans hsub
  have hsent : (retxPool (st.station me).pannRetxPool).2.Subperm (panns (st.station me).pannRetxPool) :=
    (List.sublist_append_left ..).subperm.trans hsub
  have hnodup : ∀ {l : List (Msg Node)}, l.Subperm (panns (st.station me).pannRetxPool) →
      (l.map Msg.origAddr).Nodup := by
    rintro l ⟨p, hp, hps⟩
    exact (hp.map _).nodup_iff.mp (hportals.sublist (hps.map _))
  refine h.send ⟨hown, fun x hx => hownPending x ?_, hhears, hnodup hkept, fun x hx => hpann x (hkept.subset hx), hrann⟩
    rfl rfl ?_ (hnodup hsent)
  · exact List.mem_append.mpr ((List.mem_append.mp hx).imp_left fun hx => hkept.subset hx)
  · unfold Station.pending
    rw [← List.append_assoc]
    exact (List.subperm_append_right _).mpr hsub

theorem retxRann_eq (s : Station Node) : ∃ entry out, retxRann s = ({ s with rannRetxEntry := entry }, out) ∧
    (out ++ ranns entry).Sublist (ranns s.rannRetxEntry) := by
  unfold Mesh.retxRann
  split
  · exact ⟨s.rannRetxEntry, [], rfl, .refl _⟩
  · rename_i r hentry
    rw [hentry]
    split_ifs
    · exact ⟨none, [], rfl, List.nil_sublist _⟩
    · exact ⟨none, [r.msg], rfl, .refl _⟩
    · exact ⟨some { r with timeout := r.timeout - 1 }, [], rfl, .refl _⟩

theorem Inv.retxRann (h : Inv mesh given st) : Inv mesh given (st.act me (retxRann (st.station me))) := by
  obtain ⟨hown, hownPending, hhears, hportals, hpann, hrann⟩ := h.tidy me
  obtain ⟨entry, out, heq, hsub⟩ := retxRann_eq (st.station me)
  have hkept : (ranns entry).Sublist (ranns (st.station me).rannRetxEntry) :=
    (List.sublist_append_right ..).trans hsub
  have hone : ((ranns (st.station me).rannRetxEntry).map Msg.origAddr).Nodup := by
    cases (st.station me).rannRetxEntry with
    | none => exact List.nodup_nil
    | some r => exact List.nodup_singleton _
  rw [heq]
  refine h.send ⟨hown, fun x hx => hownPending x ?_, hhears, hportals, hpann, fun x hx => hrann x (hkept.subset hx)⟩
    rfl rfl ?_ (hone.sublist (((List.sublist_append_left ..).trans hsub).map _))
  · exact List.mem_append.mpr ((List.mem_append.mp hx).imp_right fun hx => hkept.subset hx)
  · refine (List.perm_append_comm_assoc ..).subperm.trans ?_
    exact (hsub.append_left _).subperm

/-! ## Steps and runs -/

theorem mySeqNum_act {out : List (Msg Node)} (hmy : (st.station me).mySeqNum ≤ s.mySeqNum)
    (v : Node) : (st.station v).mySeqNum ≤ ((st.act me (s, out)).station v).mySeqNum := by
  by_cases hv : v = me
  · subst hv
    rw [station_act_self]
    exact hmy
  · rw [station_act_of_ne hv]

theorem mySeqNum_receive (s : Station Node) (m : Msg Node) :
    s.mySeqNum ≤ (receive mesh sender me s m).1.mySeqNum := by
  unfold receive
  dsimp only
  split
  · unfold recvRreq
    split_ifs
    · exact le_rfl
    · split
      · exact le_rfl
      · rename_i s' hs
        rw [← update_mySeqNum hs]
        split_ifs
        · exact Nat.le_succ _
        · exact Nat.le_succ _
        · exact le_rfl
  · unfold recvPann
    split_ifs
    · exact le_rfl
    · split
      · exact le_rfl
      · rename_i s' hs
        exact (update_mySeqNum hs).ge
  · unfold recvRann
    split_ifs
    · exact le_rfl
    · split
      · exact le_rfl
      · rename_i s₁ hfollow
        exact (followRoot_alike hfollow).mySeqNum.ge
      · rename_i s₁ hfollow
        have hs₁ := (followRoot_alike hfollow).mySeqNum.ge
        split
        · exact hs₁
        · rename_i s' hs
          exact hs₁.trans (update_mySeqNum hs).ge

theorem mySeqNum_step (event : Event Node) (v : Node) :
    (st.station v).mySeqNum ≤ ((step mesh st event).station v).mySeqNum := by
  cases event with
  | genRreq me desAddress ttl => exact mySeqNum_act (Nat.le_succ _) v
  | genPann me => exact mySeqNum_act (Nat.le_succ _) v
  | genRann me => exact mySeqNum_act (Nat.le_succ _) v
  | deliver sender me =>
    unfold step
    dsimp only
    split
    · exact le_rfl
    · split_ifs
      · refine le_trans (le_of_eq ?_) (mySeqNum_act (mySeqNum_receive _ _) v)
        rfl
      · exact le_rfl
  | lose sender me i => exact le_rfl
  | retxPann me => exact mySeqNum_act (by exact le_rfl) v
  | retxRann me =>
    obtain ⟨entry, out, heq, -⟩ := retxRann_eq (st.station me)
    unfold step
    dsimp only
    rw [heq]
    exact mySeqNum_act (by exact le_rfl) v
  | setPortal me isPortal => exact mySeqNum_act (by exact le_rfl) v
  | setRoot me isRoot => exact mySeqNum_act (by exact le_rfl) v

/-- **Every step keeps the invariant.** -/
theorem Inv.step (hsound : mesh.Sound) (h : Inv mesh given st) (event : Event Node)
    (hfew : ∀ v, ((step mesh st event).station v).mySeqNum ≤ 2 ^ 32) :
    ∃ given', Inv mesh given' (step mesh st event) := by
  cases event with
  | genRreq me desAddress ttl => exact h.gen ⟨rfl, rfl, rfl, rfl⟩ (hfew me)
  | genPann me => exact h.gen ⟨rfl, rfl, rfl, rfl⟩ (hfew me)
  | genRann me =>
    have hs : Alike (st.station me)
        { st.station me with rannRootSeqNum := UInt32.ofNat (st.station me).mySeqNum } := ⟨rfl, rfl, rfl, rfl⟩
    exact h.gen hs (hfew me)
  | deliver sender me =>
    unfold Mesh.step
    dsimp only
    split
    · exact ⟨given, h⟩
    · rename_i m msgs hchan
      have h' : Inv mesh given (st.setChan sender me msgs) := h.setChan (hchan ▸ List.sublist_cons_self ..)
      split_ifs with hlink
      · exact ⟨given, h'.receive hsound (taken_of_chan h hlink hchan)⟩
      · exact ⟨given, h'⟩
  | lose sender me i => exact ⟨given, h.setChan (List.eraseIdx_sublist ..)⟩
  | retxPann me => exact ⟨given, h.retxPann⟩
  | retxRann me => exact ⟨given, h.retxRann⟩
  | setPortal me isPortal => exact ⟨given, h.alike ⟨rfl, rfl, rfl, rfl⟩⟩
  | setRoot me isRoot => exact ⟨given, h.alike ⟨rfl, rfl, rfl, rfl⟩⟩

theorem inv_init : Inv mesh (fun _ _ => .pann) (init : State Node) := by
  refine ⟨fun D => ok_of_silent (fun u v => rfl) (fun u => rfl) fun v => rfl, fun v => ?_, fun m hm => ?_⟩
  · exact ⟨rfl, nofun, nofun, List.nodup_nil, nofun, nofun⟩
  · rcases hm with ⟨u, v, hm⟩ | ⟨u, hm⟩
    · cases hm
    · cases hm

theorem run_append (events : List (Event Node)) (event : Event Node) :
    run mesh (events ++ [event]) = step mesh (run mesh events) event := List.foldl_concat ..

/-- **The invariant of a run.** -/
theorem exists_inv_run (hsound : mesh.Sound) (events : List (Event Node))
    (hfew : ∀ v, ((run mesh events).station v).mySeqNum ≤ 2 ^ 32) : ∃ given, Inv mesh given (run mesh events) := by
  induction events using List.reverseRecOn with
  | nil => exact ⟨_, inv_init⟩
  | append_singleton events event ih =>
    rw [run_append] at hfew ⊢
    obtain ⟨given, h⟩ := ih fun v => (mySeqNum_step event v).trans (hfew v)
    exact h.step hsound event hfew

/-- The messages that a node has originated: its counter starts at 1. -/
def Station.originated (s : Station Node) : ℕ := s.mySeqNum - 1

def State.nextHop (st : State Node) (D v : Node) : Option Node := ((st.station v).table D).map (·.nexthopMAC)

def State.rank (st : State Node) (D v : Node) : ℕ := ((view st D).known v).elim 0 Ad.cost

theorem Inv.rank_lt (hsound : mesh.Sound) (h : Inv mesh given st) {u : Node} (hhop : st.nextHop D v = some u) :
    ((view st D).known u).isSome ∧ st.rank D u < st.rank D v := by
  have hpos : ∀ u v, (view st D).hop v = some u → 0 < mesh.cost u v := by
    intro u v hv
    obtain ⟨e, he, rfl⟩ := Option.map_eq_some_iff.mp hv
    exact hsound.positive _ _ ((h.tidy v).hears D e he)
  obtain ⟨k, k', hk, hk', hlt⟩ := (h.flood D).descends hpos hhop
  unfold State.rank
  rw [hk, hk']
  exact ⟨rfl, hlt⟩

theorem State.rank_of_entry (hv : v ≠ D) {e : PathSelEntry Node} (he : (st.station v).table D = some e) :
    st.rank D v = e.metric.toNat := by
  have hk : (view st D).known v = some ⟨e.dsn.toNat, e.metric.toNat⟩ := by
    change (if v = D then _ else _) = _
    rw [if_neg hv, he]
    rfl
  unfold State.rank
  rw [hk]
  rfl

/-- Node 1 hears the two others, and they hear it. -/
def lineMesh : Topology (Fin 3) where
  linked u v := u = 1 && v != 1 || u != 1 && v = 1
  linkMetric _ _ := 5
  isMyStat _ _ := false
  pathSwitchThreshold := 2

/-- A portal announcement of node 0 travels to node 2. -/
def lineEvents : List (Event (Fin 3)) := [.genPann 0, .deliver 0 1, .retxPann 1, .deliver 1 2]

theorem lineMesh_path_le {D : Fin 3} {l : List (Fin 3)} {c : ℕ} (h : Path lineMesh.cost lineMesh.Hears D l c) :
    l.Nodup ∧ c ≤ 5 * l.length := by
  induction h with
  | origin => exact ⟨List.nodup_singleton _, Nat.zero_le _⟩
  | step _ _ hv ih =>
    refine ⟨List.nodup_cons.mpr ⟨hv, ih.1⟩, ?_⟩
    have hcost : ∀ u v, lineMesh.cost u v = 5 := fun _ _ => rfl
    rw [hcost, List.length_cons]
    omega

theorem lineMesh_sound : lineMesh.Sound where
  positive _ _ _ := Nat.succ_pos 4
  sums D u v l c h _ _ := by
    obtain ⟨hnodup, hle⟩ := lineMesh_path_le h
    have hlen := hnodup.length_le_card
    rw [Fintype.card_fin] at hlen
    change c + 5 + 2 < 2 ^ 32
    omega

end NasFirmware.Mesh
