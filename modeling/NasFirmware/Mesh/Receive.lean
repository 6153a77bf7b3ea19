import NasFirmware.Mesh.Flooding

set_option autoImplicit false
set_option linter.unusedSectionVars false

/-!
# Receiving a message

A node that takes a message from a link adds the metric of the link, enters the path if it is no worse than its own,
and relays the message, or keeps it to be relayed.

* **`Taken.better`**, `Inv.accept`: what enters a table costs no more than what it replaces;
* **`Inv.receive`**: every message that is received keeps the invariant.
-/

namespace NasFirmware.Mesh

open Flood

variable {Node : Type} {m : Msg Node} {sender me : Node}

/-- Link metrics are positive, and no sum that a receiver makes along a path, which may lie on it, reaches `2 ^ 32`
with the threshold. -/
structure Topology.Sound (mesh : Topology Node) : Prop where
  positive : ∀ u v, mesh.Hears u v → 0 < mesh.cost u v
  sums : ∀ D u v l c, Path mesh.cost mesh.Hears D (u :: l) c → mesh.Hears u v → v ≠ D →
    c + mesh.cost u v + mesh.pathSwitchThreshold.toNat < 2 ^ 32

section

variable {mesh : Topology Node}

theorem received_metric (hsound : mesh.Sound) (hlink : mesh.Hears sender me) (hme : m.origAddr ≠ me) {V : View Node}
    (hin : InHand V mesh.cost mesh.Hears m.origAddr sender me ⟨m.seqNum.toNat, m.metric.toNat⟩) :
    (m.received (mesh.linkMetric sender me)).metric.toNat = m.metric.toNat + mesh.cost sender me ∧
      m.metric.toNat + mesh.cost sender me + mesh.pathSwitchThreshold.toNat < 2 ^ 32 := by
  obtain ⟨l, hl⟩ := hin.trail
  have hsum := hsound.sums _ _ _ _ _ hl.path hlink hme.symm
  dsimp only at hsum
  refine ⟨?_, hsum⟩
  change (m.metric + mesh.linkMetric sender me).toNat = _
  rw [UInt32.toNat_add]
  exact Nat.mod_eq_of_lt (by unfold Topology.cost at hsum; omega)

theorem le_of_betterPath {x y : UInt32} {xhop yhop : UInt8} (hsum : x.toNat + mesh.pathSwitchThreshold.toNat < 2 ^ 32)
    (h : betterPath mesh x xhop y yhop = true) : x.toNat ≤ y.toNat := by
  unfold betterPath at h
  rw [Bool.or_eq_true, Bool.and_eq_true, decide_eq_true_iff, decide_eq_true_iff] at h
  rcases h with h | ⟨h, -⟩
  · have h' := UInt32.lt_iff_toNat_lt.mp h
    rw [UInt32.toNat_add, Nat.mod_eq_of_lt hsum] at h'
    omega
  · exact UInt32.le_iff_toNat_le.mp h

end

section Pools

theorem panns_cons_some (r : Retx Node) (pool : List (Option (Retx Node))) :
    panns (some r :: pool) = r.msg :: panns pool := rfl

theorem retxPool_subperm (pool : List (Option (Retx Node))) :
    ((retxPool pool).2 ++ panns (retxPool pool).1).Subperm (panns pool) := by
  induction pool with
  | nil => exact .refl _
  | cons slot pool ih =>
    cases slot with
    | none => exact ih
    | some r =>
      unfold retxPool
      split_ifs
      · exact (List.sublist_cons_self ..).subperm
      · exact (List.subperm_cons _).mpr ih
      · exact List.perm_middle.subperm.trans ((List.subperm_cons _).mpr ih)

theorem putFree_panns (m : Msg Node) (pool : List (Option (Retx Node))) :
    panns (putFree m pool) = panns pool ∨ (panns (putFree m pool)).Perm (m :: panns pool) := by
  induction pool with
  | nil => exact .inl rfl
  | cons slot pool ih =>
    cases slot with
    | none => exact .inr (.refl _)
    | some r =>
      unfold putFree
      rw [panns_cons_some, panns_cons_some]
      rcases ih with ih | ih
      · exact .inl (by rw [ih])
      · exact .inr ((ih.cons _).trans (.swap ..))

variable [LinearOrder Node] {pool : List (Option (Retx Node))}

theorem samePortal_iff {r : Retx Node} : samePortal m (some r) = true ↔ r.msg.origAddr = m.origAddr :=
  decide_eq_true_iff

theorem replaceOlder_panns (hnodup : ((panns pool).map Msg.origAddr).Nodup) (hany : pool.any (samePortal m) = true) :
    panns (replaceOlder m pool) = panns pool ∨ ∃ rest, (panns (replaceOlder m pool)).Perm (m :: rest) ∧
      rest.Sublist (panns pool) ∧ ∀ x ∈ rest, x.origAddr ≠ m.origAddr := by
  induction pool with
  | nil => cases hany
  | cons slot pool ih =>
    cases slot with
    | none => exact ih hnodup hany
    | some r =>
      rw [panns_cons_some, List.map_cons, List.nodup_cons] at hnodup
      unfold replaceOlder
      split_ifs with hsame hold
      · refine .inr ⟨panns pool, .refl _, List.sublist_cons_self .., fun x hx hxm => hnodup.1 ?_⟩
        rw [hsame, ← hxm]
        exact List.mem_map_of_mem hx
      · exact .inl rfl
      · rw [List.any_cons, Bool.or_eq_true, samePortal_iff] at hany
        rw [panns_cons_some, panns_cons_some]
        rcases ih hnodup.2 (hany.resolve_left hsame) with ih | ⟨rest, hperm, hsub, hne⟩
        · exact .inl (by rw [ih])
        · refine .inr ⟨r.msg :: rest, (hperm.cons _).trans (.swap ..), hsub.cons_cons _, fun x hx => ?_⟩
          rcases List.mem_cons.mp hx with rfl | hx
          · exact hsame
          · exact hne x hx

/-- **The pool keeps one announcement of each portal.** -/
theorem updatePannRetx_panns (hnodup : ((panns pool).map Msg.origAddr).Nodup) :
    panns (updatePannRetx pool m) = panns pool ∨ ∃ rest, (panns (updatePannRetx pool m)).Perm (m :: rest) ∧
      rest.Sublist (panns pool) ∧ ∀ x ∈ rest, x.origAddr ≠ m.origAddr := by
  unfold updatePannRetx
  split_ifs with hany
  · exact replaceOlder_panns hnodup hany
  · refine (putFree_panns m pool).imp_right fun hperm => ⟨panns pool, hperm, .refl _, fun x hx hxm => hany ?_⟩
    obtain ⟨slot, hslot, hx⟩ := List.mem_filterMap.mp hx
    obtain ⟨r, rfl, rfl⟩ := Option.map_eq_some_iff.mp hx
    exact List.any_eq_true.mpr ⟨some r, hslot, samePortal_iff.mpr hxm⟩

end Pools

section Receive

variable [LinearOrder Node] {mesh : Topology Node} {given : Node → ℕ → Kind Node} {st : State Node}
  {s s' : Station Node}

theorem update_eq_some (h : s.update mesh m sender = some s') :
    s' = { s with table := Function.update s.table m.origAddr (some ⟨sender, m.seqNum, m.metric, m.hopCount⟩) } ∧
      ∀ e, s.table m.origAddr = some e → e.dsn ≤ m.seqNum ∧
        (sender = e.nexthopMAC ∨ betterPath mesh m.metric m.hopCount e.metric e.hopcount = true) := by
  obtain ⟨table, htable, rfl⟩ := Option.map_eq_some_iff.mp h
  unfold updatePathByFreshness at htable
  cases hentry : s.table m.origAddr with
  | none =>
    rw [hentry] at htable
    exact ⟨by rw [← Option.some.inj htable], fun e he => nomatch he⟩
  | some e =>
    rw [hentry] at htable
    dsimp only at htable
    split_ifs at htable with hseq hhop hbetter
    · refine ⟨by rw [← Option.some.inj htable], fun e' he => ?_⟩
      cases he
      exact ⟨hseq, .inl hhop⟩
    · refine ⟨by rw [← Option.some.inj htable], fun e' he => ?_⟩
      cases he
      exact ⟨hseq, .inr hbetter⟩

structure Taken (mesh : Topology Node) (given : Node → ℕ → Kind Node) (st : State Node) (sender me : Node)
    (m : Msg Node) : Prop where
  link : mesh.Hears sender me
  hand : InHand (view st m.origAddr) mesh.cost mesh.Hears m.origAddr sender me ⟨m.seqNum.toNat, m.metric.toNat⟩
  num : Numbered given st m

/-- What a node has of a message after it has entered the path. -/
def Entered (mesh : Topology Node) (st : State Node) (me : Node) (r : Msg Node) : Prop :=
  Current (view st r.origAddr) mesh.cost mesh.Hears r.origAddr me ⟨r.seqNum.toNat, r.metric.toNat⟩

theorem Taken.better (hsound : mesh.Sound) (ht : Taken mesh given st sender me m) (hme : m.origAddr ≠ me)
    (hs : (st.station me).update mesh (m.received (mesh.linkMetric sender me)) sender = some s') (k : Ad)
    (hk : (view st m.origAddr).known me = some k) :
    k.seq ≤ m.seqNum.toNat ∧ m.metric.toNat + mesh.cost sender me ≤ k.cost := by
  obtain ⟨hmetric, hsum⟩ := received_metric hsound ht.link hme ht.hand
  obtain ⟨e, he, rfl⟩ := Option.map_eq_some_iff.mp ((if_neg hme.symm).symm.trans hk)
  obtain ⟨hseq, hrule⟩ := (update_eq_some hs).2 e he
  refine ⟨UInt32.le_iff_toNat_le.mp hseq, ?_⟩
  rcases hrule with rfl | hbetter
  · have hhop : (view st m.origAddr).hop me = some e.nexthopMAC := by
      change Option.map _ ((st.station me).table m.origAddr) = _
      rw [show (st.station me).table m.origAddr = some e from he]
      rfl
    obtain ⟨k, hk', hle⟩ := ht.hand.hop hhop
    cases hk.symm.trans hk'
    exact hle (UInt32.le_iff_toNat_le.mp hseq)
  · rw [← hmetric]
    exact le_of_betterPath (by omega) hbetter

theorem view_enter (hme : m.origAddr ≠ me) {e : PathSelEntry Node}
    (hs : s'.table = Function.update (st.station me).table m.origAddr (some e))
    (hpend : s'.pending = (st.station me).pending) {a : Ad} {w : Node → Node → ℕ} (hseq : e.dsn.toNat = a.seq)
    (hcost : e.metric.toNat = a.cost + w e.nexthopMAC me) :
    view (st.act me (s', [])) m.origAddr = (view st m.origAddr).learn w e.nexthopMAC me a := by
  have hentry : s'.table m.origAddr = some e := by rw [hs, Function.update_self]
  refine View.mk.injEq .. |>.mpr ⟨?_, ?_, link_act_of_silent rfl, ?_⟩
  · funext u
    by_cases hu : u = me
    · subst hu
      rw [Function.update_self, if_neg hme.symm, station_act_self, hentry, ← hseq, ← hcost]
      rfl
    · rw [Function.update_of_ne hu, station_act_of_ne hu, station_act_of_ne hme]
      rfl
  · funext u
    by_cases hu : u = me
    · subst hu
      rw [Function.update_self, station_act_self, hentry]
      rfl
    · rw [Function.update_of_ne hu, station_act_of_ne hu]
      rfl
  · funext u
    by_cases hu : u = me
    · subst hu
      rw [station_act_self, hpend]
      rfl
    · rw [station_act_of_ne hu]
      rfl

/-- **What is accepted keeps the invariant.** -/
theorem Inv.accept (hsound : mesh.Sound) (h : Inv mesh given st) (ht : Taken mesh given st sender me m)
    (hme : m.origAddr ≠ me)
    (hs : (st.station me).update mesh (m.received (mesh.linkMetric sender me)) sender = some s') :
    Inv mesh given (st.act me (s', [])) ∧
      Entered mesh (st.act me (s', [])) me (m.received (mesh.linkMetric sender me)) := by
  have hpos := hsound.positive sender me ht.link
  have hbetter := ht.better hsound hme hs
  have hmetric := (received_metric hsound ht.link hme ht.hand).1
  obtain ⟨rfl, -⟩ := update_eq_some hs
  set e : PathSelEntry Node := ⟨sender, m.seqNum, (m.received (mesh.linkMetric sender me)).metric, m.hopCount + 1⟩
  set table := Function.update (st.station me).table m.origAddr (some e) with htable
  have hnew : table m.origAddr = some e := Function.update_self ..
  have hold : ∀ D, D ≠ m.origAddr → table D = (st.station me).table D := fun D hD => Function.update_of_ne hD ..
  have hview : view (st.act me ({ st.station me with table }, [])) m.origAddr =
      (view st m.origAddr).learn mesh.cost sender me ⟨m.seqNum.toNat, m.metric.toNat⟩ := by
    refine view_enter (e := e) hme htable ?_ ?_ hmetric
    · rfl
    · rfl
  refine ⟨h.act (fun D => ?_) ?_ le_rfl fun x hx => ?_, ?_⟩
  · by_cases hD : D = m.origAddr
    · subst hD
      exact hview ▸ (h.flood _).learn ht.hand hpos hbetter
    · exact (h.flood D).shrink (shrinks_act (h.tidy me).own (hold D hD) le_rfl rfl (.refl _))
  · obtain ⟨hown, hownPending, hhears, hportals, hpann, hrann⟩ := h.tidy me
    refine ⟨(hold me hme.symm).trans hown, hownPending, fun D e' he' => ?_, hportals, hpann, hrann⟩
    by_cases hD : D = m.origAddr
    · subst hD
      cases hnew.symm.trans he'
      exact ht.link
    · exact hhears D e' ((hold D hD).symm.trans he')
  · exact h.messages x (.inr ⟨me, hx.resolve_left List.not_mem_nil⟩)
  · unfold Entered
    rw [hmetric]
    exact hview ▸ ht.hand.current hpos hbetter ht.link

/-! ### The three kinds -/

structure Alike (s s' : Station Node) : Prop where
  table : s'.table = s.table
  mySeqNum : s'.mySeqNum = s.mySeqNum
  pool : s'.pannRetxPool = s.pannRetxPool
  entry : s'.rannRetxEntry = s.rannRetxEntry

theorem Tidy.congr (h : Tidy mesh me s) (htable : s'.table = s.table) (hpool : s'.pannRetxPool = s.pannRetxPool)
    (hentry : s'.rannRetxEntry = s.rannRetxEntry) : Tidy mesh me s' := by
  obtain ⟨hown, hownPending, hhears, hportals, hpann, hrann⟩ := h
  unfold Station.pending at hownPending
  rw [← htable] at hown hhears
  rw [← hpool, ← hentry] at hownPending
  rw [← hpool] at hportals hpann
  rw [← hentry] at hrann
  exact ⟨hown, hownPending, hhears, hportals, hpann, hrann⟩

theorem Alike.pending (h : Alike s s') : s'.pending = s.pending := by
  unfold Station.pending
  rw [h.pool, h.entry]

theorem Inv.alike (h : Inv mesh given st) (hs : Alike (st.station me) s') : Inv mesh given (st.act me (s', [])) := by
  refine h.quiet ((h.tidy me).congr hs.table hs.pool hs.entry) hs.table hs.mySeqNum.ge ?_
  rw [hs.pending]

theorem Inv.idle (h : Inv mesh given st) : Inv mesh given (st.act me (st.station me, [])) :=
  h.alike ⟨rfl, rfl, rfl, rfl⟩

theorem view_act_of_alike (hs : Alike (st.station me) s') (D : Node) : view (st.act me (s', [])) D = view st D := by
  have hpend : (view (st.act me (s', [])) D).pend = (view st D).pend := by
    funext u
    by_cases hu : u = me
    · subst hu
      rw [pend_act_self, hs.pending]
      rfl
    · exact pend_act_of_ne hu
  exact View.mk.injEq .. |>.mpr ⟨known_act (congrFun hs.table D) fun _ => hs.mySeqNum, hop_act (congrFun hs.table D),
    link_act_of_silent rfl, hpend⟩

theorem Taken.alike (ht : Taken mesh given st sender me m) (hs : Alike (st.station me) s') :
    Taken mesh given (st.act me (s', [])) sender me m := by
  refine ⟨ht.link, ?_, ht.num.mono hs.mySeqNum.ge⟩
  rw [view_act_of_alike hs]
  exact ht.hand

theorem Taken.received (ht : Taken mesh given st sender me m) (hmy : s'.mySeqNum = (st.station me).mySeqNum) :
    Numbered given (st.act me (s', [])) (m.received (mesh.linkMetric sender me)) :=
  Numbered.mono hmy.ge ht.num

theorem update_mySeqNum (h : s.update mesh m sender = some s') : s'.mySeqNum = s.mySeqNum := by
  rw [(update_eq_some h).1]

theorem Tidy.kind_pending (h : Tidy mesh me s) {x : Msg Node} (hx : x ∈ s.pending) : x.kind = .pann ∨ x.kind = .rann :=
  (List.mem_append.mp hx).imp (h.pannKind x) (h.rannKind x)

theorem Inv.recvRreq (hsound : mesh.Sound) (h : Inv mesh given st) (ht : Taken mesh given st sender me m)
    {desAddress : Node} (hkind : m.kind = .rreq desAddress) :
    Inv mesh given (st.act me
      (recvRreq mesh me sender (st.station me) (m.received (mesh.linkMetric sender me)) desAddress)) := by
  unfold Mesh.recvRreq
  split_ifs with hme
  · exact h.idle
  · split
    · exact h.idle
    · rename_i s' hs
      obtain ⟨h', hentered⟩ := h.accept hsound ht hme hs
      have hself : (st.act me (s', [])).station me = s' := station_act_self
      have htidy := h'.tidy me
      rw [hself] at htidy
      have hreply : Inv mesh given (st.act me ({ s' with mySeqNum := s'.mySeqNum + 1 }, [])) := by
        rw [← act_act]
        refine h'.quiet (htidy.congr rfl rfl rfl) (congrArg Station.table hself).symm ?_ ?_
        · rw [hself]
          exact Nat.le_succ _
        · rw [hself]
          exact .refl _
      split_ifs
      · exact hreply
      · exact hreply
      · rw [forwardRreq]
        split_ifs
        · exact h'
        · have hrelay := h'.relay (ht.received (update_mySeqNum hs)) hentered fun x hx heq => ?_
          · rw [hself, act_act] at hrelay
            exact hrelay
          · rw [hself] at hx
            have hr : (m.received (mesh.linkMetric sender me)).kind = .rreq desAddress := hkind
            rw [hr] at heq
            rcases htidy.kind_pending hx with hx | hx
            · cases hx.symm.trans heq
            · cases hx.symm.trans heq

theorem Inv.recvPann (hsound : mesh.Sound) (h : Inv mesh given st) (ht : Taken mesh given st sender me m)
    (hkind : m.kind = .pann) :
    Inv mesh given (st.act me
      (recvPann mesh me sender (st.station me) (m.received (mesh.linkMetric sender me)), [])) := by
  set r := m.received (mesh.linkMetric sender me) with hr
  unfold Mesh.recvPann
  split_ifs with hme
  · exact h.idle
  · split
    · exact h.idle
    · rename_i s' hs
      obtain ⟨h', hentered⟩ := h.accept hsound ht hme hs
      have hself : (st.act me (s', [])).station me = s' := station_act_self
      have htidy := h'.tidy me
      rw [hself] at htidy
      obtain ⟨hown, hownPending, hhears, hportals, hpann, hrann⟩ := htidy
      rw [← act_act]
      rcases updatePannRetx_panns (m := r) hportals with hsame | ⟨rest, hperm, hsub, hne⟩
      · have hpend : ({ s' with pannRetxPool := updatePannRetx s'.pannRetxPool r } : Station Node).pending =
            s'.pending := by
          unfold Station.pending
          rw [hsame]
        refine h'.quiet ⟨hown, ?_, hhears, ?_, ?_, hrann⟩ (congrArg Station.table hself).symm ?_ ?_
        · rw [hpend]
          exact hownPending
        · rw [hsame]
          exact hportals
        · rw [hsame]
          exact hpann
        · rw [hself]
        · rw [hself, hpend]
      · -- the pool holds no other message of the portal; the root announcement is of another kind
        have hmem : ∀ x ∈ panns (updatePannRetx s'.pannRetxPool r), x = r ∨ x ∈ panns s'.pannRetxPool := by
          intro x hx
          exact (List.mem_cons.mp (hperm.subset hx)).imp_right fun hx => hsub.subset hx
        refine h'.keep (ht.received (update_mySeqNum hs)) hentered ⟨hown, fun x hx => ?_, hhears, ?_, fun x hx => ?_,
          hrann⟩ (congrArg Station.table hself).symm (congrArg Station.mySeqNum hself).symm ?_
        · rcases List.mem_append.mp hx with hx | hx
          · rcases hmem x hx with rfl | hx
            · exact hme
            · exact hownPending x (List.mem_append_left _ hx)
          · exact hownPending x (List.mem_append_right _ hx)
        · rw [(hperm.map Msg.origAddr).nodup_iff, List.map_cons, List.nodup_cons]
          refine ⟨fun hr => ?_, hportals.sublist (hsub.map _)⟩
          obtain ⟨x, hx, hxr⟩ := List.mem_map.mp hr
          exact hne x hx hxr
        · rcases hmem x hx with rfl | hx
          · exact hkind
          · exact hpann x hx
        · rw [hself]
          refine ⟨rest ++ ranns s'.rannRetxEntry, hperm.append_right _, (hsub.append_right _).subperm, fun x hx hxr => ?_⟩
          rcases List.mem_append.mp hx with hx | hx
          · exact absurd hxr (hne x hx)
          · rw [hrann x hx, show r.kind = .pann from hkind]
            exact nofun

theorem followRoot_alike {b : Bool} (h : followRoot me s m = some (s', b)) : Alike s s' := by
  unfold followRoot at h
  split_ifs at h with hroot
  dsimp only at h
  split at h
  · cases h
    exact ⟨rfl, rfl, rfl, rfl⟩
  · split_ifs at h <;> cases h <;> exact ⟨rfl, rfl, rfl, rfl⟩

theorem Inv.recvRann (hsound : mesh.Sound) (h : Inv mesh given st) (ht : Taken mesh given st sender me m)
    (hkind : m.kind = .rann) :
    Inv mesh given (st.act me
      (recvRann mesh me sender (st.station me) (m.received (mesh.linkMetric sender me)), [])) := by
  set r := m.received (mesh.linkMetric sender me) with hr
  unfold Mesh.recvRann
  split_ifs with hme
  · exact h.idle
  · split
    · exact h.idle
    · rename_i s₁ hfollow
      exact h.alike (followRoot_alike hfollow)
    · rename_i s₁ hfollow
      have hs₁ := followRoot_alike hfollow
      have h₁ := h.alike hs₁
      have hself₁ : (st.act me (s₁, [])).station me = s₁ := station_act_self
      split
      · exact h₁
      · rename_i s' hs
        obtain ⟨h', hentered⟩ := h₁.accept hsound (ht.alike hs₁) hme (hself₁.symm ▸ hs)
        have hnum : Numbered given ((st.act me (s₁, [])).act me (s', [])) r :=
          (ht.alike hs₁).received (hself₁.symm ▸ update_mySeqNum hs)
        rw [act_act] at h' hentered hnum
        have hself : (st.act me (s', [])).station me = s' := station_act_self
        have htidy := h'.tidy me
        rw [hself] at htidy
        obtain ⟨hown, hownPending, hhears, hportals, hpann, hrann⟩ := htidy
        rw [← act_act]
        refine h'.keep hnum hentered ⟨hown, fun x hx => ?_, hhears, hportals, hpann, fun x hx => ?_⟩
          (congrArg Station.table hself).symm (congrArg Station.mySeqNum hself).symm ?_
        · rcases List.mem_append.mp hx with hx | hx
          · exact hownPending x (List.mem_append_left _ hx)
          · rw [List.mem_singleton.mp hx]
            exact hme
        · rw [List.mem_singleton.mp hx]
          exact hkind
        · rw [hself]
          refine ⟨panns s'.pannRetxPool, List.perm_append_singleton .., (List.sublist_append_left ..).subperm,
            fun x hx _ => ?_⟩
          rw [hpann x hx, show r.kind = .rann from hkind]
          exact nofun

/-- **What is received keeps the invariant.** -/
theorem Inv.receive (hsound : mesh.Sound) (h : Inv mesh given st) (ht : Taken mesh given st sender me m) :
    Inv mesh given (st.act me (receive mesh sender me (st.station me) m)) := by
  unfold Mesh.receive
  dsimp only
  split
  · rename_i desAddress hkind
    exact h.recvRreq hsound ht hkind
  · rename_i hkind
    exact h.recvPann hsound ht hkind
  · rename_i hkind
    exact h.recvRann hsound ht hkind

end Receive

end NasFirmware.Mesh
