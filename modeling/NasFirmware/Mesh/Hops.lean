import NasFirmware.Lib.Provenance
import NasFirmware.Mesh.LoopFree
import NasFirmware.Mesh.Relay

/-!
# Hops

All messages of the mesh, replies among them, on the air. What a node sends may reach any node, more than once and in
any order, at any metric: the driver chooses who gets a reply. A history beside the nodes says what was originated and
what was received.
-/

namespace NasFirmware.Mesh

open Provenance

/-! ## Packets -/

variable {Node : Type}

section

variable {p : Packet Node}

/-- What a receiver makes of a packet. -/
def Packet.received : Packet Node → UInt32 → Packet Node
  | .flood m, linkMetric => .flood (m.received linkMetric)
  | .rrep r, linkMetric => .rrep (r.received linkMetric)

def Packet.ttl : Packet Node → UInt8
  | .flood m => m.ttl
  | .rrep r => r.ttl

def Packet.hopCount : Packet Node → UInt8
  | .flood m => m.hopCount
  | .rrep r => r.hopCount

def Packet.metric : Packet Node → UInt32
  | .flood m => m.metric
  | .rrep r => r.metric

theorem ttl_received (p : Packet Node) (w : UInt32) : (p.received w).ttl = p.ttl - 1 := by
  cases p <;> rfl

theorem hopCount_received (p : Packet Node) (w : UInt32) : (p.received w).hopCount = p.hopCount + 1 := by
  cases p <;> rfl

theorem metric_received (p : Packet Node) (w : UInt32) : (p.received w).metric = p.metric + w := by
  cases p <;> rfl

theorem toNat_ttl_received (w : UInt32) (hp : p.ttl.toNat ≠ 0) :
    (p.received w).ttl.toNat + 1 = p.ttl.toNat := by
  have hle : (1 : UInt8) ≤ p.ttl := UInt8.le_iff_toNat_le.mpr (Nat.one_le_iff_ne_zero.mpr hp)
  rw [ttl_received, UInt8.toNat_sub_of_le _ _ hle]
  exact Nat.sub_add_cancel (Nat.one_le_iff_ne_zero.mpr hp)

theorem toNat_hopCount_received (w : UInt32) (hp : p.ttl.toNat ≠ 0)
    (hfit : p.hopCount.toNat + p.ttl.toNat ≤ 255) : (p.received w).hopCount.toNat = p.hopCount.toNat + 1 := by
  rw [hopCount_received, UInt8.toNat_add]
  exact Nat.mod_eq_of_lt (by change _ + 1 < 256; omega)

theorem toNat_metric_received (p : Packet Node) (w : UInt32) :
    (p.received w).metric.toNat = (p.metric.toNat + w.toNat) % 2 ^ 32 := by
  rw [metric_received, UInt32.toNat_add]

end

/-! ## The air -/

/-- The nodes, what each has sent and may still be received, and what has happened to packets. -/
structure Traffic (Node : Type) where
  station : Node → Station Node
  air : Node → List (Packet Node)
  history : History Node (Packet Node) UInt32

/-- What can happen. The daemon's other business leaves the pools alone. -/
inductive Happening (Node : Type) where
  | genRreq (me desAddress : Node) (ttl : UInt8)
  | genPann (me : Node)
  | genRann (me : Node)
  | receive (sender me : Node) (i : ℕ) (linkMetric : UInt32)
  | fade (sender : Node) (i : ℕ)
  | retxPann (me : Node)
  | retxRann (me : Node)
  | other (me : Node) (st : Station Node)

section

variable [LinearOrder Node] (mesh : Topology Node)

/-- The replies that a node originates when it receives a packet. -/
def answers (me sender : Node) (linkMetric : UInt32) (st : Station Node) : Packet Node → List (Rrep Node)
  | .flood m =>
    let m := m.received linkMetric
    match m.kind with
    | .rreq desAddress => replyRreq mesh me sender st m desAddress
    | .pann => []
    | .rann => []
  | .rrep _ => []

def Traffic.originate (t : Traffic Node) (me : Node) (x : Station Node × List (Msg Node)) : Traffic Node where
  station := Function.update t.station me x.1
  air := Function.update t.air me (t.air me ++ x.2.map .flood)
  history := { t.history with origins := t.history.origins ++ x.2.map fun m => (me, .flood m) }

/-- A node sends messages that waited in a pool. -/
def Traffic.relay (t : Traffic Node) (me : Node) (x : Station Node × List (Msg Node)) : Traffic Node where
  station := Function.update t.station me x.1
  air := Function.update t.air me (t.air me ++ x.2.map .flood)
  history := t.history

def Traffic.deliver (t : Traffic Node) (sender me : Node) (linkMetric : UInt32) (p : Packet Node) : Traffic Node :=
  let x := handle mesh me sender linkMetric (t.station me) p
  { station := Function.update t.station me x.1
    air := Function.update t.air me (t.air me ++ x.2)
    history :=
      { origins := t.history.origins ++
          (answers mesh me sender linkMetric (t.station me) p).map fun r => (me, .rrep r)
        hops := t.history.hops ++ [⟨sender, me, p, linkMetric⟩] } }

def Traffic.step (t : Traffic Node) : Happening Node → Traffic Node
  | .genRreq me desAddress ttl => t.originate me (Mesh.genRreq me (t.station me) desAddress ttl)
  | .genPann me => t.originate me (Mesh.genPann me (t.station me))
  | .genRann me => t.originate me (Mesh.genRann me (t.station me))
  | .receive sender me i linkMetric =>
    match (t.air sender)[i]? with
    | none => t
    | some p => t.deliver mesh sender me linkMetric p
  | .fade sender i => { t with air := Function.update t.air sender ((t.air sender).eraseIdx i) }
  | .retxPann me => t.relay me (Mesh.retxPann (t.station me))
  | .retxRann me => t.relay me (Mesh.retxRann (t.station me))
  | .other me st =>
    let { pannRetxPool, rannRetxEntry, .. } := t.station me
    { t with station := Function.update t.station me { st with pannRetxPool, rannRetxEntry } }

def Traffic.init : Traffic Node := ⟨Mesh.init.station, fun _ => [], ⟨[], []⟩⟩

def Traffic.run (happenings : List (Happening Node)) : Traffic Node := happenings.foldl (Traffic.step mesh) Traffic.init

end

/-! ## What a packet can lead to -/

section

variable {pool : List (Option (Retx Node))} {desAddress : Node} {r : Rrep Node} {linkMetric : UInt32}
  {p : Packet Node}

theorem ttl_of_due {place : Option (Retx Node)} {m : Msg Node} (h : due place = some m) : m.ttl ≠ 0 := by
  cases place with
  | none => cases h
  | some r =>
    unfold due at h
    dsimp only at h
    split_ifs at h with hout
    cases h
    exact hout.2

theorem ttl_of_mem_retxPool {m : Msg Node} (h : m ∈ (retxPool pool).2) :
    m.ttl ≠ 0 := by
  induction pool with
  | nil => cases h
  | cons place pool ih =>
    by_cases hspent : Spent place
    · rw [(retxPool_cons_of_spent hspent pool).1] at h
      cases h
    · rw [retxPool_cons hspent] at h
      rcases List.mem_append.mp h with h | h
      · exact ttl_of_due (Option.mem_toList.mp h)
      · exact ih h

theorem retxPann_sent (s : Station Node) : ∀ m ∈ (retxPann s).2, m ∈ s.pending ∧ m.ttl ≠ 0 := fun _ hm =>
  ⟨List.mem_append_left _ ((retxPool_subperm s.pannRetxPool).subset (List.mem_append_left _ hm)),
    ttl_of_mem_retxPool hm⟩

theorem retxPann_kept (s : Station Node) : (retxPann s).1.pending ⊆ s.pending := fun _ hm =>
  List.mem_append.mpr ((List.mem_append.mp hm).imp_left fun hm =>
    (retxPool_subperm s.pannRetxPool).subset (List.mem_append_right _ hm))

theorem retxRann_sent (s : Station Node) : ∀ m ∈ (retxRann s).2, m ∈ s.pending ∧ m.ttl ≠ 0 := by
  intro m hm
  unfold retxRann at hm
  cases hentry : s.rannRetxEntry with
  | none =>
    rw [hentry] at hm
    cases hm
  | some r =>
    rw [hentry] at hm
    dsimp only at hm
    split_ifs at hm with hout httl
    · cases hm
    · obtain rfl := List.mem_singleton.mp hm
      refine ⟨List.mem_append_right _ ?_, httl⟩
      rw [hentry]
      exact List.mem_singleton.mpr rfl
    · cases hm

variable [LinearOrder Node] {mesh : Topology Node} {me sender : Node} {s s' : Station Node} {m x : Msg Node}

theorem retxRann_kept (s : Station Node) : (retxRann s).1.pending ⊆ s.pending := by
  obtain ⟨entry, out, heq, hsub⟩ := retxRann_eq s
  rw [heq]
  intro m hm
  refine List.mem_append.mpr ((List.mem_append.mp hm).imp_right fun hm => ?_)
  exact hsub.subset (List.mem_append_right _ hm)

theorem mem_panns_replaceOlder (h : x ∈ panns (replaceOlder m pool)) :
    x = m ∨ x ∈ panns pool := by
  induction pool with
  | nil => cases h
  | cons place pool ih =>
    cases place with
    | none => exact ih h
    | some r =>
      unfold replaceOlder at h
      split_ifs at h
      · exact (List.mem_cons.mp h).imp_right fun h => List.mem_cons_of_mem _ h
      · exact .inr h
      · rcases List.mem_cons.mp h with rfl | h
        · exact .inr List.mem_cons_self
        · exact (ih h).imp_right fun h => List.mem_cons_of_mem _ h

theorem mem_panns_updatePannRetx (h : x ∈ panns (updatePannRetx pool m)) :
    x = m ∨ x ∈ panns pool := by
  unfold updatePannRetx at h
  split_ifs at h
  · exact mem_panns_replaceOlder h
  · rcases putFree_panns m pool with heq | hperm
    · exact .inr (heq ▸ h)
    · exact List.mem_cons.mp (hperm.subset h)

theorem update_pending (h : s.update mesh m sender = some s') : s'.pending = s.pending := by
  rw [(update_eq_some h).1]
  rfl

theorem recvRreq_pending (desAddress : Node) : (recvRreq mesh me sender s m desAddress).1.pending = s.pending := by
  unfold recvRreq
  split_ifs with hme
  · rfl
  · split
    · rfl
    · rename_i s' hs
      rw [← update_pending hs]
      split_ifs <;> rfl

theorem recvRreq_sent (h : x ∈ (recvRreq mesh me sender s m desAddress).2) : x = m ∧ x.ttl ≠ 0 := by
  unfold recvRreq at h
  split_ifs at h with hme
  · cases h
  · split at h
    · cases h
    · split_ifs at h
      · cases h
      · cases h
      · unfold forwardRreq at h
        split_ifs at h with httl
        · cases h
        · obtain rfl := List.mem_singleton.mp h
          exact ⟨rfl, httl⟩

theorem recvPann_pending (h : x ∈ (recvPann mesh me sender s m).pending) : x ∈ s.pending ∨ x = m := by
  unfold recvPann at h
  split_ifs at h with hme
  · exact .inl h
  · split at h
    · exact .inl h
    · rename_i s' hs
      rw [← update_pending hs]
      rcases List.mem_append.mp h with h | h
      · exact (mem_panns_updatePannRetx h).symm.imp_left fun h => List.mem_append_left _ h
      · exact .inl (List.mem_append_right _ h)

theorem recvRann_pending (h : x ∈ (recvRann mesh me sender s m).pending) : x ∈ s.pending ∨ x = m := by
  unfold recvRann at h
  split_ifs at h with hme
  · exact .inl h
  · split at h
    · exact .inl h
    · rename_i s' hfollow
      rw [(followRoot_alike hfollow).pending] at h
      exact .inl h
    · rename_i s₁ hfollow
      rw [← (followRoot_alike hfollow).pending]
      split at h
      · exact .inl h
      · rename_i s' hs
        rw [← update_pending hs]
        rcases List.mem_append.mp h with h | h
        · exact .inl (List.mem_append_left _ h)
        · exact .inr (List.mem_singleton.mp h)

theorem mem_replyRreq (h : r ∈ replyRreq mesh me sender s m desAddress) :
    ∃ s', r = genRrep me s' m.origAddr := by
  unfold replyRreq at h
  split_ifs at h with hme
  · cases h
  · split at h
    · cases h
    · rename_i s' _
      split_ifs at h
      · exact ⟨s', List.mem_singleton.mp h⟩
      · exact ⟨s', List.mem_singleton.mp h⟩
      · cases h

/-- **What is sent** on a packet: the packet itself, if it may travel on, or an answer. -/
theorem handle_sent {q : Packet Node} (h : q ∈ (handle mesh me sender linkMetric s p).2) :
    q = p.received linkMetric ∧ q.ttl ≠ 0 ∨ ∃ r ∈ answers mesh me sender linkMetric s p, q = .rrep r := by
  cases p with
  | flood m =>
    unfold handle at h
    unfold answers
    dsimp only at h ⊢
    cases hkind : (m.received linkMetric).kind with
    | rreq desAddress =>
      rw [hkind] at h
      rcases List.mem_append.mp h with h | h
      · obtain ⟨x, hx, rfl⟩ := List.mem_map.mp h
        obtain ⟨rfl, httl⟩ := recvRreq_sent hx
        exact .inl ⟨rfl, httl⟩
      · obtain ⟨r, hr, rfl⟩ := List.mem_map.mp h
        exact .inr ⟨r, hr, rfl⟩
    | pann =>
      rw [hkind] at h
      cases h
    | rann =>
      rw [hkind] at h
      cases h
  | rrep r =>
    obtain ⟨x, hx, rfl⟩ := List.mem_map.mp h
    obtain ⟨-, -, httl, rfl⟩ := mem_recvRrep.mp hx
    exact .inl ⟨rfl, httl⟩

theorem recvRrep_pending (r : Rrep Node) : (recvRrep mesh me sender s r).1.pending = s.pending := by
  unfold recvRrep
  split_ifs <;> rfl

/-- **What waits** after a packet: what waited before, or the packet itself. -/
theorem handle_pending
    (h : x ∈ (handle mesh me sender linkMetric s p).1.pending) : x ∈ s.pending ∨ .flood x = p.received linkMetric := by
  cases p with
  | flood m =>
    unfold handle at h
    dsimp only at h
    split at h
    · rw [recvRreq_pending] at h
      exact .inl h
    · exact (recvPann_pending h).imp_right (congrArg Packet.flood)
    · exact (recvRann_pending h).imp_right (congrArg Packet.flood)
  | rrep r =>
    change x ∈ (recvRrep mesh me sender s (r.received linkMetric)).1.pending at h
    rw [recvRrep_pending] at h
    exact .inl h

theorem mem_answers (h : r ∈ answers mesh me sender linkMetric s p) : ∃ s' source, r = genRrep me s' source := by
  cases p with
  | flood m =>
    unfold answers at h
    dsimp only at h
    split at h
    · obtain ⟨s', rfl⟩ := mem_replyRreq h
      exact ⟨s', _, rfl⟩
    · cases h
    · cases h
  | rrep r => cases h

end

/-! ## The invariant -/

section

/-- A packet was carried to a node. -/
def Traffic.Came (t : Traffic Node) (p : Packet Node) (u : Node) : Prop :=
  ∃ p₀ trail, Carried Packet.received t.history p u p₀ trail

def Packet.Fresh (p : Packet Node) : Prop := p.hopCount = 0 ∧ p.metric = 0 ∧ p.ttl ≠ 0

theorem headerTtl_ne_zero : UInt8.ofNat maxMppNum ≠ 0 := by decide

/-- **The invariant of the air.** Packets start fresh; what is on the air has hops left, and was carried to its
sender, as what waits was. -/
structure Traffic.Inv (t : Traffic Node) : Prop where
  origins : ∀ u p, (u, p) ∈ t.history.origins → p.Fresh
  hops : ∀ d ∈ t.history.hops, d.packet.ttl ≠ 0
  air : ∀ u, ∀ p ∈ t.air u, p.ttl ≠ 0 ∧ t.Came p u
  pools : ∀ u, ∀ m ∈ (t.station u).pending, t.Came (.flood m) u

variable {t t' : Traffic Node} {p : Packet Node} {u me : Node}

theorem Traffic.Came.mono (horigins : t.history.origins ⊆ t'.history.origins) (hhops : t.history.hops ⊆ t'.history.hops)
    (h : t.Came p u) : t'.Came p u := by
  obtain ⟨p₀, trail, hp⟩ := h
  exact ⟨p₀, trail, hp.mono horigins hhops⟩

theorem Traffic.inv_init : (Traffic.init : Traffic Node).Inv where
  origins _ _ hp := nomatch hp
  hops _ hd := nomatch hd
  air _ _ hp := nomatch hp
  pools u m hm := by
    have hempty : (Traffic.init.station u).pending = ([] : List (Msg Node)) := rfl
    cases hm

theorem Traffic.Inv.grow [DecidableEq Node] {s : Station Node} {out : List (Packet Node)} (h : t.Inv)
    (hstation : t'.station = Function.update t.station me s)
    (hair : t'.air = Function.update t.air me (t.air me ++ out))
    (horigins : t.history.origins ⊆ t'.history.origins) (hhops : t.history.hops ⊆ t'.history.hops)
    (hfresh : ∀ u p, (u, p) ∈ t'.history.origins → p.Fresh) (hleft : ∀ d ∈ t'.history.hops, d.packet.ttl ≠ 0)
    (hout : ∀ p ∈ out, p.ttl ≠ 0 ∧ t'.Came p me) (hpools : ∀ m ∈ s.pending, t'.Came (.flood m) me) : t'.Inv where
  origins := hfresh
  hops := hleft
  air u p hp := by
    rw [hair] at hp
    have hold : ∀ p ∈ t.air u, p.ttl ≠ 0 ∧ t'.Came p u := fun p hp =>
      ⟨(h.air u p hp).1, (h.air u p hp).2.mono horigins hhops⟩
    by_cases hu : u = me
    · subst hu
      rw [Function.update_self, List.mem_append] at hp
      exact hp.elim (hold p) (hout p)
    · rw [Function.update_of_ne hu] at hp
      exact hold p hp
  pools u m hm := by
    rw [hstation] at hm
    by_cases hu : u = me
    · subst hu
      rw [Function.update_self] at hm
      exact hpools m hm
    · rw [Function.update_of_ne hu] at hm
      exact (h.pools u m hm).mono horigins hhops

end

section

variable [LinearOrder Node] {mesh : Topology Node} {t : Traffic Node} {me : Node} {s : Station Node}
  {out : List (Msg Node)}

theorem Traffic.Inv.originate (h : t.Inv) (hs : s.pending = (t.station me).pending)
    (hfresh : ∀ m ∈ out, Packet.Fresh (.flood m)) : (t.originate me (s, out)).Inv := by
  have horigins : t.history.origins ⊆ (t.originate me (s, out)).history.origins := List.subset_append_left ..
  refine h.grow rfl rfl horigins (List.Subset.refl _) (fun u p hp => ?_) h.hops (fun p hp => ?_) fun m hm => ?_
  · rcases List.mem_append.mp hp with hp | hp
    · exact h.origins u p hp
    · obtain ⟨m, hm, heq⟩ := List.mem_map.mp hp
      cases heq
      exact hfresh m hm
  · obtain ⟨m, hm, rfl⟩ := List.mem_map.mp hp
    refine ⟨(hfresh m hm).2.2, .flood m, [], .origin (List.mem_append_right _ ?_)⟩
    exact List.mem_map.mpr ⟨m, hm, rfl⟩
  · rw [hs] at hm
    exact (h.pools me m hm).mono horigins (List.Subset.refl _)

theorem Traffic.Inv.relay (h : t.Inv) (hkept : s.pending ⊆ (t.station me).pending)
    (hsent : ∀ m ∈ out, m ∈ (t.station me).pending ∧ m.ttl ≠ 0) : (t.relay me (s, out)).Inv := by
  refine h.grow rfl rfl (List.Subset.refl _) (List.Subset.refl _) h.origins h.hops (fun p hp => ?_) fun m hm => ?_
  · obtain ⟨m, hm, rfl⟩ := List.mem_map.mp hp
    obtain ⟨hpending, httl⟩ := hsent m hm
    exact ⟨httl, h.pools me m hpending⟩
  · exact h.pools me m (hkept hm)

theorem Traffic.Inv.deliver {sender : Node} {linkMetric : UInt32} {p : Packet Node} (h : t.Inv)
    (hp : p ∈ t.air sender) : (t.deliver mesh sender me linkMetric p).Inv := by
  obtain ⟨httl, p₀, trail, hcame⟩ := h.air sender p hp
  have horigins : t.history.origins ⊆ (t.deliver mesh sender me linkMetric p).history.origins :=
    List.subset_append_left ..
  have hhops : t.history.hops ⊆ (t.deliver mesh sender me linkMetric p).history.hops := List.subset_append_left ..
  -- the packet has come one hop further
  have hhere : (t.deliver mesh sender me linkMetric p).Came (p.received linkMetric) me :=
    ⟨p₀, trail ++ [⟨sender, me, p, linkMetric⟩],
      .hop (d := ⟨sender, me, p, linkMetric⟩) (hcame.mono horigins hhops)
        (List.mem_append_right _ (List.mem_singleton.mpr rfl)) rfl⟩
  refine h.grow rfl rfl horigins hhops (fun u q hq => ?_) (fun d hd => ?_) (fun q hq => ?_) fun m hm => ?_
  · rcases List.mem_append.mp hq with hq | hq
    · exact h.origins u q hq
    · obtain ⟨r, hr, heq⟩ := List.mem_map.mp hq
      cases heq
      obtain ⟨s', source, rfl⟩ := mem_answers hr
      exact ⟨rfl, rfl, headerTtl_ne_zero⟩
  · rcases List.mem_append.mp hd with hd | hd
    · exact h.hops d hd
    · rw [List.mem_singleton.mp hd]
      exact httl
  · rcases handle_sent hq with ⟨rfl, hleft⟩ | ⟨r, hr, rfl⟩
    · exact ⟨hleft, hhere⟩
    · have horigin : (me, .rrep r) ∈ (t.deliver mesh sender me linkMetric p).history.origins :=
        List.mem_append_right _ (List.mem_map.mpr ⟨r, hr, rfl⟩)
      obtain ⟨s', source, rfl⟩ := mem_answers hr
      exact ⟨headerTtl_ne_zero, _, [], .origin horigin⟩
  · rcases handle_pending hm with hm | heq
    · exact (h.pools me m hm).mono horigins hhops
    · rw [heq]
      exact hhere

/-- Requests start with hops to go. -/
def Happening.Lives : Happening Node → Prop
  | .genRreq _ _ ttl => ttl ≠ 0
  | _ => True

/-- **Every step keeps the invariant.** -/
theorem Traffic.Inv.step (h : t.Inv) (e : Happening Node) (he : e.Lives) : (t.step mesh e).Inv := by
  cases e with
  | genRreq me desAddress ttl =>
    refine h.originate rfl fun m hm => ?_
    obtain rfl := List.mem_singleton.mp hm
    exact ⟨rfl, rfl, he⟩
  | genPann me =>
    refine h.originate rfl fun m hm => ?_
    obtain rfl := List.mem_singleton.mp hm
    exact ⟨rfl, rfl, headerTtl_ne_zero⟩
  | genRann me =>
    refine h.originate rfl fun m hm => ?_
    obtain rfl := List.mem_singleton.mp hm
    exact ⟨rfl, rfl, headerTtl_ne_zero⟩
  | receive sender me i linkMetric =>
    change Traffic.Inv (match (t.air sender)[i]? with
      | none => t
      | some p => t.deliver mesh sender me linkMetric p)
    cases hi : (t.air sender)[i]? with
    | none => exact h
    | some p => exact h.deliver (List.mem_of_getElem? hi)
  | fade sender i =>
    refine ⟨h.origins, h.hops, fun u p hp => h.air u p ?_, h.pools⟩
    change p ∈ Function.update t.air sender _ u at hp
    by_cases hu : u = sender
    · subst hu
      rw [Function.update_self] at hp
      exact List.mem_of_mem_eraseIdx hp
    · rwa [Function.update_of_ne hu] at hp
  | retxPann me => exact h.relay (retxPann_kept _) (retxPann_sent _)
  | retxRann me => exact h.relay (retxRann_kept _) (retxRann_sent _)
  | other me st =>
    refine ⟨h.origins, h.hops, h.air, fun u m hm => h.pools u m ?_⟩
    change m ∈ (Function.update t.station me _ u).pending at hm
    by_cases hu : u = me
    · subst hu
      rw [Function.update_self] at hm
      exact hm
    · rwa [Function.update_of_ne hu] at hm

/-- **The invariant of a run.** -/
theorem Traffic.inv_run (mesh : Topology Node) (happenings : List (Happening Node)) (hlives : ∀ e ∈ happenings, e.Lives) :
    (Traffic.run mesh happenings).Inv :=
  List.foldlRecOn _ _ Traffic.inv_init fun _ h e he => h.step e (hlives e he)

end

section

/-- A packet has hops left; those it has made and has left are what it started with, its metric is the cost of its
links, and it was relayed less often than it may travel. -/
structure Accounts (p p₀ : Packet Node) (trail : List (Hop Node (Packet Node) UInt32)) : Prop where
  ttl : 1 ≤ p.ttl.toNat
  hops : p.hopCount.toNat + p.ttl.toNat = p₀.ttl.toNat + p₀.hopCount.toNat
  metric : p.metric.toNat = (trail.map fun d => d.cost.toNat).sum % 2 ^ 32
  relayed : trail.length ≤ p₀.ttl.toNat - 1

theorem Traffic.Inv.accounts {t : Traffic Node} (h : t.Inv) {u : Node} {p p₀ : Packet Node}
    {trail : List (Hop Node (Packet Node) UInt32)} (hleft : p.ttl ≠ 0)
    (hp : Carried Packet.received t.history p u p₀ trail) : Accounts p p₀ trail := by
  have hpos {p : Packet Node} (hne : p.ttl ≠ 0) : p.ttl.toNat ≠ 0 := fun hzero => hne (UInt8.toNat_inj.mp hzero)
  have hfresh (u : Node) (p : Packet Node) (hp : (u, p) ∈ t.history.origins) :
      p.hopCount.toNat = 0 ∧ p.ttl.toNat ≤ 255 ∧ p.metric.toNat = 0 := by
    obtain ⟨hhop, hmetric, -⟩ := h.origins u p hp
    rw [hhop, hmetric]
    exact ⟨rfl, Nat.le_of_lt_succ p.ttl.toNat_lt, rfl⟩
  obtain ⟨hlen, hsum, -, hcost⟩ := hp.accounts (fun p => p.ttl.toNat) (fun p => p.hopCount.toNat)
    (fun p => p.metric.toNat) UInt32.toNat 255 (2 ^ 32) (fun p w => toNat_ttl_received w)
    (fun p w => toNat_hopCount_received w) toNat_metric_received hfresh fun d hd => hpos (h.hops d hd)
  obtain ⟨u₀, horigin⟩ := hp.exists_origin
  have hstart := (hfresh u₀ p₀ horigin).1
  have hleft := hpos hleft
  exact ⟨Nat.one_le_iff_ne_zero.mpr hleft, by omega, hcost, by omega⟩

end

section

variable [LinearOrder Node]

/-- **Hops are accounted for.** In every run in which requests start with hops to go, whatever is on the air has come
from its origin over links of the run, and over whichever it came, its hops and its metric account for them. -/
theorem run_accounts (mesh : Topology Node) (happenings : List (Happening Node)) (hlives : ∀ e ∈ happenings, e.Lives)
    (u : Node) (p : Packet Node) (hp : p ∈ (Traffic.run mesh happenings).air u) :
    (∃ p₀ trail, Carried Packet.received (Traffic.run mesh happenings).history p u p₀ trail) ∧
      ∀ p₀ trail, Carried Packet.received (Traffic.run mesh happenings).history p u p₀ trail →
        Accounts p p₀ trail := by
  have hinv := Traffic.inv_run mesh happenings hlives
  obtain ⟨hleft, hcame⟩ := hinv.air u p hp
  exact ⟨hcame, fun p₀ trail htrail => hinv.accounts hleft htrail⟩

section

local instance threeNodes : NeZero 3 := ⟨by decide⟩

/-- Node 0 asks for node 2, a portal, and the reply comes back to node 1. -/
def replyHappenings : List (Happening (Fin 3)) :=
  [.other 2 { init.station 2 with isPortal := true }, .genRreq 0 2 5, .receive 0 1 0 7, .receive 1 2 0 9,
    .receive 2 1 0 4]

end

theorem replyRun_accounts : Packet.rrep ⟨2, 1, 4, 1, 14, 0⟩ ∈ (Traffic.run lineMesh replyHappenings).air 1 ∧
    (∃ p₀ trail, Carried Packet.received (Traffic.run lineMesh replyHappenings).history
      (.rrep ⟨2, 1, 4, 1, 14, 0⟩) 1 p₀ trail) ∧
    ∀ p₀ trail, Carried Packet.received (Traffic.run lineMesh replyHappenings).history
      (.rrep ⟨2, 1, 4, 1, 14, 0⟩) 1 p₀ trail → Accounts (.rrep ⟨2, 1, 4, 1, 14, 0⟩) p₀ trail := by
  have hmem : Packet.rrep ⟨2, 1, 4, 1, 14, 0⟩ ∈ (Traffic.run lineMesh replyHappenings).air 1 := by
    refine List.mem_of_getElem? (i := 1) ?_
    rfl
  have hlives : ∀ e ∈ replyHappenings, e.Lives := by
    intro e he
    simp only [replyHappenings, List.mem_cons, List.not_mem_nil, or_false] at he
    rcases he with rfl | rfl | rfl | rfl | rfl
    · trivial
    · change (5 : UInt8) ≠ 0
      decide
    · trivial
    · trivial
    · trivial
  exact ⟨hmem, run_accounts lineMesh replyHappenings hlives 1 _ hmem⟩

end

end NasFirmware.Mesh
