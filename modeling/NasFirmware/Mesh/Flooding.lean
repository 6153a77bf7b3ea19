import NasFirmware.Mesh.Model

/-!
# Floods in the mesh

The messages of one originator are a flood in the sense of `Flood`: `view` reads it off the tables, pools and links.
Numbers are shared by the three kinds of messages, and pools keep one message of an originator and kind.
-/

namespace NasFirmware.Mesh

open Flood

/-! ## Views -/

section

variable {Node : Type}

def Topology.cost (mesh : Topology Node) (u v : Node) : ℕ := (mesh.linkMetric u v).toNat

def Topology.Hears (mesh : Topology Node) (u v : Node) : Prop := mesh.linked u v = true

def panns (pool : List (Option (Retx Node))) : List (Msg Node) := pool.filterMap (Option.map Retx.msg)

def ranns (entry : Option (Retx Node)) : List (Msg Node) := (entry.map Retx.msg).toList

def Station.pending (s : Station Node) : List (Msg Node) := panns s.pannRetxPool ++ ranns s.rannRetxEntry

/-- A message is on a link, or waits to be relayed. -/
def State.InFlight (st : State Node) (m : Msg Node) : Prop :=
  (∃ u v, m ∈ st.chan u v) ∨ ∃ u, m ∈ (st.station u).pending

end

section

variable {Node : Type} [LinearOrder Node]

/-- What a message says about the path to `D`. -/
def about (D : Node) (m : Msg Node) : Option Ad :=
  if m.origAddr = D then some ⟨m.seqNum.toNat, m.metric.toNat⟩ else none

/-- What the nodes and links hold about the path to `D`. -/
def view (st : State Node) (D : Node) : View Node where
  known u := if u = D then some ⟨(st.station D).mySeqNum, 0⟩
    else ((st.station u).table D).map fun e => ⟨e.dsn.toNat, e.metric.toNat⟩
  hop u := ((st.station u).table D).map (·.nexthopMAC)
  link u v := (st.chan u v).filterMap (about D)
  pend u := (st.station u).pending.filterMap (about D)

theorem about_self (m : Msg Node) : about m.origAddr m = some ⟨m.seqNum.toNat, m.metric.toNat⟩ := if_pos rfl

theorem about_of_ne {D : Node} {m : Msg Node} (h : m.origAddr ≠ D) : about D m = none := if_neg h

theorem mem_filterMap_about {D : Node} {l : List (Msg Node)} {x : Ad} (hx : x ∈ l.filterMap (about D)) :
    ∃ m ∈ l, m.origAddr = D ∧ x = ⟨m.seqNum.toNat, m.metric.toNat⟩ := by
  obtain ⟨m, hm, hx⟩ := List.mem_filterMap.mp hx
  unfold about at hx
  split_ifs at hx with horig
  exact ⟨m, hm, horig, (Option.some.inj hx).symm⟩

theorem subperm_filterMap {α β : Type} {l l' : List α} (f : α → Option β) (h : l.Subperm l') :
    (l.filterMap f).Subperm (l'.filterMap f) := by
  obtain ⟨p, hp, hsub⟩ := h
  exact ⟨p.filterMap f, hp.filterMap f, hsub.filterMap f⟩

/-- One node: no path to itself, nothing of its own to relay, next hops that it hears, and pools that hold what they
are for. -/
structure Tidy (mesh : Topology Node) (me : Node) (s : Station Node) : Prop where
  own : s.table me = none
  ownPending : ∀ m ∈ s.pending, m.origAddr ≠ me
  hears : ∀ D e, s.table D = some e → mesh.Hears e.nexthopMAC me
  portals : ((panns s.pannRetxPool).map Msg.origAddr).Nodup
  pannKind : ∀ m ∈ panns s.pannRetxPool, m.kind = .pann
  rannKind : ∀ m ∈ ranns s.rannRetxEntry, m.kind = .rann

/-- A message carries a number that its originator has given away, to a message of its kind. -/
def Numbered (given : Node → ℕ → Kind Node) (st : State Node) (m : Msg Node) : Prop :=
  m.kind = given m.origAddr m.seqNum.toNat ∧ m.seqNum.toNat < (st.station m.origAddr).mySeqNum

/-- **The invariant of the mesh.** -/
structure Inv (mesh : Topology Node) (given : Node → ℕ → Kind Node) (st : State Node) : Prop where
  flood : ∀ D, Ok (view st D) mesh.cost mesh.Hears D
  tidy : ∀ v, Tidy mesh v (st.station v)
  messages : ∀ m, st.InFlight m → Numbered given st m

/-! ## What one node does -/

section Act

variable {mesh : Topology Node} {given : Node → ℕ → Kind Node} {st : State Node} {me D : Node} {s s' : Station Node}
  {out : List (Msg Node)} {u : Node} {m r : Msg Node}

theorem station_act_self : (st.act me (s, out)).station me = s := Function.update_self ..

theorem station_act_of_ne (hu : u ≠ me) : (st.act me (s, out)).station u = st.station u :=
  Function.update_of_ne hu ..

theorem chan_act_self (v : Node) : (st.act me (s, out)).chan me v = st.chan me v ++ out := by
  change Function.update st.chan me _ me v = _
  rw [Function.update_self]

theorem chan_act_of_ne (hu : u ≠ me) : (st.act me (s, out)).chan u = st.chan u :=
  Function.update_of_ne hu ..

theorem act_act : (st.act me (s, [])).act me (s', out) = st.act me (s', out) := by
  unfold State.act
  simp

theorem known_act (htable : s.table D = (st.station me).table D)
    (hmy : me = D → s.mySeqNum = (st.station me).mySeqNum) :
    (view (st.act me (s, out)) D).known = (view st D).known := by
  funext u
  change (if u = D then _ else _) = if u = D then _ else _
  by_cases hu : u = D
  · rw [if_pos hu, if_pos hu]
    by_cases hme : me = D
    · subst hme
      rw [station_act_self, hmy rfl]
    · rw [station_act_of_ne (Ne.symm hme)]
  · rw [if_neg hu, if_neg hu]
    by_cases hme : u = me
    · subst hme
      rw [station_act_self, htable]
    · rw [station_act_of_ne hme]

theorem hop_act (htable : s.table D = (st.station me).table D) :
    (view (st.act me (s, out)) D).hop = (view st D).hop := by
  funext u
  change Option.map _ (((st.act me (s, out)).station u).table D) = Option.map _ ((st.station u).table D)
  by_cases hme : u = me
  · subst hme
    rw [station_act_self, htable]
  · rw [station_act_of_ne hme]

theorem link_act_self (v : Node) :
    (view (st.act me (s, out)) D).link me v = (view st D).link me v ++ out.filterMap (about D) := by
  change List.filterMap _ ((st.act me (s, out)).chan me v) = _
  rw [chan_act_self, List.filterMap_append]
  rfl

theorem link_act_of_ne (hu : u ≠ me) : (view (st.act me (s, out)) D).link u = (view st D).link u := by
  funext v
  change List.filterMap _ ((st.act me (s, out)).chan u v) = _
  rw [chan_act_of_ne hu]
  rfl

theorem link_act_of_silent (hout : out.filterMap (about D) = []) :
    (view (st.act me (s, out)) D).link = (view st D).link := by
  funext u
  by_cases hu : u = me
  · subst hu
    funext v
    rw [link_act_self, hout, List.append_nil]
  · exact link_act_of_ne hu

theorem pend_act_self : (view (st.act me (s, out)) D).pend me = s.pending.filterMap (about D) := by
  change List.filterMap _ ((st.act me (s, out)).station me).pending = _
  rw [station_act_self]

theorem pend_act_of_ne (hu : u ≠ me) : (view (st.act me (s, out)) D).pend u = (view st D).pend u := by
  change List.filterMap _ ((st.act me (s, out)).station u).pending = _
  rw [station_act_of_ne hu]
  rfl

theorem subperm_pend_act (hpend : (s.pending.filterMap (about D)).Subperm ((view st D).pend me)) (u : Node) :
    ((view (st.act me (s, out)) D).pend u).Subperm ((view st D).pend u) := by
  by_cases hu : u = me
  · subst hu
    rw [pend_act_self]
    exact hpend
  · rw [pend_act_of_ne hu]

theorem shrinks_act (hown : (st.station me).table me = none) (htable : s.table D = (st.station me).table D)
    (hmy : (st.station me).mySeqNum ≤ s.mySeqNum) (hout : out.filterMap (about D) = [])
    (hpend : (s.pending.filterMap (about D)).Subperm ((view st D).pend me)) :
    Shrinks (view st D) (view (st.act me (s, out)) D) := by
  refine ⟨fun u k hk => ?_, fun v u hv => ?_, fun u v => ?_, subperm_pend_act hpend⟩
  · by_cases hu : me = D ∧ u = D
    · obtain ⟨rfl, rfl⟩ := hu
      obtain rfl : (⟨(st.station u).mySeqNum, 0⟩ : Ad) = k := Option.some.inj ((if_pos rfl).symm.trans hk)
      refine ⟨⟨s.mySeqNum, 0⟩, ?_, hmy, rfl⟩
      change (if u = u then _ else _) = _
      rw [if_pos rfl, station_act_self]
    · refine ⟨k, ?_, le_rfl, rfl⟩
      rw [← hk]
      change (if u = D then _ else _) = if u = D then _ else _
      by_cases huD : u = D
      · rw [if_pos huD, if_pos huD, station_act_of_ne fun h => hu ⟨h.symm, huD⟩]
      · rw [if_neg huD, if_neg huD]
        by_cases hme : u = me
        · subst hme
          rw [station_act_self, htable]
        · rw [station_act_of_ne hme]
  · rw [hop_act htable] at hv
    refine ⟨hv, ?_⟩
    by_cases hmeD : me = D
    · subst hmeD
      have hvD : v ≠ me := by
        rintro rfl
        change Option.map _ ((st.station v).table v) = _ at hv
        rw [hown] at hv
        cases hv
      change (if v = me then _ else _) = if v = me then _ else _
      rw [if_neg hvD, if_neg hvD, station_act_of_ne hvD]
    · rw [known_act htable fun h => absurd h hmeD]
  · rw [link_act_of_silent hout]

theorem says_act {a : Ad} (htable : s.table D = (st.station me).table D)
    (hmy : me = D → s.mySeqNum = (st.station me).mySeqNum) (hout : out.filterMap (about D) = [a])
    (hpend : (s.pending.filterMap (about D)).Subperm ((view st D).pend me)) :
    Says (view st D) (view (st.act me (s, out)) D) me a where
  known := known_act htable hmy
  hop := hop_act htable
  link v := by rw [link_act_self, hout]
  others _ hu := link_act_of_ne hu
  pend := subperm_pend_act hpend

theorem Numbered.mono (hmy : (st.station me).mySeqNum ≤ s.mySeqNum) (h : Numbered given st m) :
    Numbered given (st.act me (s, out)) m := by
  refine ⟨h.1, h.2.trans_le ?_⟩
  by_cases hme : m.origAddr = me
  · rw [hme, station_act_self]
    exact hmy
  · rw [station_act_of_ne hme]

theorem inFlight_act (hm : (st.act me (s, out)).InFlight m) :
    st.InFlight m ∨ m ∈ out ∨ m ∈ s.pending := by
  rcases hm with ⟨u, v, hm⟩ | ⟨u, hm⟩
  · by_cases hu : u = me
    · subst hu
      rw [chan_act_self, List.mem_append] at hm
      exact hm.imp (fun hm => .inl ⟨u, v, hm⟩) .inl
    · rw [chan_act_of_ne hu] at hm
      exact .inl (.inl ⟨u, v, hm⟩)
  · by_cases hu : u = me
    · subst hu
      rw [station_act_self] at hm
      exact .inr (.inr hm)
    · rw [station_act_of_ne hu] at hm
      exact .inl (.inr ⟨u, hm⟩)

theorem Inv.act (h : Inv mesh given st) (hflood : ∀ D, Ok (view (st.act me (s, out)) D) mesh.cost mesh.Hears D)
    (htidy : Tidy mesh me s) (hmy : (st.station me).mySeqNum ≤ s.mySeqNum)
    (hnew : ∀ m, m ∈ out ∨ m ∈ s.pending → Numbered given st m) : Inv mesh given (st.act me (s, out)) where
  flood := hflood
  tidy v := by
    by_cases hv : v = me
    · subst hv
      rw [station_act_self]
      exact htidy
    · rw [station_act_of_ne hv]
      exact h.tidy v
  messages m hm := by
    refine Numbered.mono hmy ?_
    rcases inFlight_act hm with hm | hm
    · exact h.messages m hm
    · exact hnew m hm

theorem Inv.quiet (h : Inv mesh given st) (htidy : Tidy mesh me s) (htable : s.table = (st.station me).table)
    (hmy : (st.station me).mySeqNum ≤ s.mySeqNum) (hpend : s.pending.Subperm (st.station me).pending) :
    Inv mesh given (st.act me (s, [])) := by
  refine h.act (fun D => ?_) htidy hmy fun m hm => ?_
  · exact (h.flood D).shrink
      (shrinks_act (h.tidy me).own (congrFun htable D) hmy rfl (subperm_filterMap (about D) hpend))
  · exact h.messages m (.inr ⟨me, hpend.subset (hm.resolve_left List.not_mem_nil)⟩)

/-- What is known may be said at once, if only messages of other kinds wait to be relayed. -/
theorem Inv.relay (h : Inv mesh given st) (hnum : Numbered given st r)
    (hcur : Current (view st r.origAddr) mesh.cost mesh.Hears r.origAddr me ⟨r.seqNum.toNat, r.metric.toNat⟩)
    (hkind : ∀ m ∈ (st.station me).pending, m.kind ≠ r.kind) : Inv mesh given (st.act me (st.station me, [r])) := by
  refine h.act (fun D => ?_) (h.tidy me) le_rfl fun m hm => ?_
  · by_cases hD : r.origAddr = D
    · subst hD
      have hout : [r].filterMap (about r.origAddr) = [⟨r.seqNum.toNat, r.metric.toNat⟩] := by
        rw [List.filterMap_cons, about_self]
        rfl
      refine (h.flood _).push (says_act rfl (fun _ => rfl) hout (.refl _)) hcur fun y hy heq => ?_
      rw [pend_act_self] at hy
      obtain ⟨m, hm, horig, rfl⟩ := mem_filterMap_about hy
      refine hkind m hm ?_
      have hseq : m.seqNum.toNat = r.seqNum.toNat := heq
      rw [(h.messages m (.inr ⟨me, hm⟩)).1, hnum.1, horig, hseq]
    · have hout : [r].filterMap (about D) = [] := by
        rw [List.filterMap_cons, about_of_ne hD]
        rfl
      exact (h.flood D).shrink (shrinks_act (h.tidy me).own rfl le_rfl hout (.refl _))
  · rcases hm with hm | hm
    · rw [List.mem_singleton.mp hm]
      exact hnum
    · exact h.messages m (.inr ⟨me, hm⟩)

/-- A message is stored; it may take the place of others. -/
def Stores (r : Msg Node) (l l' : List (Msg Node)) : Prop :=
  ∃ rest, l'.Perm (r :: rest) ∧ rest.Subperm l ∧ ∀ m ∈ rest, m.origAddr = r.origAddr → m.kind ≠ r.kind

/-- What is known may be kept to be relayed, if it is the only message of its originator and kind. -/
theorem Inv.keep (h : Inv mesh given st) (hnum : Numbered given st r)
    (hcur : Current (view st r.origAddr) mesh.cost mesh.Hears r.origAddr me ⟨r.seqNum.toNat, r.metric.toNat⟩)
    (htidy : Tidy mesh me s) (htable : s.table = (st.station me).table)
    (hmy : s.mySeqNum = (st.station me).mySeqNum) (hpend : Stores r (st.station me).pending s.pending) :
    Inv mesh given (st.act me (s, [])) := by
  obtain ⟨rest, hperm, hsub, hkind⟩ := hpend
  refine h.act (fun D => ?_) htidy hmy.ge fun m hm => ?_
  · have hperm' := hperm.filterMap (about D)
    have hsub' := subperm_filterMap (about D) hsub
    by_cases hD : r.origAddr = D
    · subst hD
      rw [List.filterMap_cons, about_self] at hperm'
      refine (h.flood _).store hcur (known_act (congrFun htable _) fun _ => hmy) (hop_act (congrFun htable _))
        (link_act_of_silent rfl) (fun u hu => pend_act_of_ne hu) (q := rest.filterMap (about r.origAddr)) ?_ hsub'
        fun y hy heq => ?_
      · rw [pend_act_self]
        exact hperm'
      · obtain ⟨m, hm, horig, rfl⟩ := mem_filterMap_about hy
        refine hkind m hm horig ?_
        have hseq : m.seqNum.toNat = r.seqNum.toNat := heq
        rw [(h.messages m (.inr ⟨me, hsub.subset hm⟩)).1, hnum.1, horig, hseq]
    · rw [List.filterMap_cons, about_of_ne hD] at hperm'
      exact (h.flood D).shrink
        (shrinks_act (h.tidy me).own (congrFun htable D) hmy.ge rfl (hperm'.subperm.trans hsub'))
  · have hm := hperm.subset (hm.resolve_left List.not_mem_nil)
    rcases List.mem_cons.mp hm with rfl | hm
    · exact hnum
    · exact h.messages m (.inr ⟨me, hsub.subset hm⟩)

/-- What was kept may be sent, at most one message of each originator. -/
theorem Inv.send (h : Inv mesh given st) (htidy : Tidy mesh me s) (htable : s.table = (st.station me).table)
    (hmy : s.mySeqNum = (st.station me).mySeqNum) (hpend : (out ++ s.pending).Subperm (st.station me).pending)
    (hout : (out.map Msg.origAddr).Nodup) : Inv mesh given (st.act me (s, out)) := by
  refine h.act (fun D => ?_) htidy hmy.ge fun m hm => ?_
  · have hpend' := subperm_filterMap (about D) hpend
    rw [List.filterMap_append] at hpend'
    have hsub : (s.pending.filterMap (about D)).Subperm ((view st D).pend me) :=
      (List.sublist_append_right ..).subperm.trans hpend'
    by_cases hD : D ∈ out.map Msg.origAddr
    · obtain ⟨m, hm, rfl⟩ := List.mem_map.mp hD
      obtain ⟨l₁, l₂, rfl⟩ := List.append_of_mem hm
      rw [List.map_append, List.map_cons, List.nodup_middle, List.nodup_cons, List.mem_append] at hout
      have hnone : ∀ l : List (Msg Node), m.origAddr ∉ l.map Msg.origAddr → l.filterMap (about m.origAddr) = [] := by
        intro l hl
        refine List.filterMap_eq_nil_iff.mpr fun x hx => about_of_ne fun hxm => hl ?_
        exact List.mem_map.mpr ⟨x, hx, hxm⟩
      have hout' : (l₁ ++ m :: l₂).filterMap (about m.origAddr) = [⟨m.seqNum.toNat, m.metric.toNat⟩] := by
        rw [List.filterMap_append, List.filterMap_cons, about_self, hnone l₁ fun hl => hout.1 (.inl hl),
          hnone l₂ fun hl => hout.1 (.inr hl)]
        rfl
      rw [hout'] at hpend'
      refine (h.flood _).emit (says_act (congrFun htable _) (fun _ => hmy) hout' hsub) ?_
      rw [pend_act_self]
      exact hpend'
    · have hnone : out.filterMap (about D) = [] :=
        List.filterMap_eq_nil_iff.mpr fun x hx => about_of_ne fun hxD => hD (List.mem_map.mpr ⟨x, hx, hxD⟩)
      exact (h.flood D).shrink (shrinks_act (h.tidy me).own (congrFun htable D) hmy.ge hnone hsub)
  · exact h.messages m (.inr ⟨me, hpend.subset (List.mem_append.mpr hm)⟩)

end Act

end

end NasFirmware.Mesh
