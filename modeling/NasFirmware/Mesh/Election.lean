import NasFirmware.Mesh.Receive

/-!
# The election of a root

Portals that want to be root announce it, and `root_decision` makes the one with the smallest address root. A root gives
way to root announcements from smaller addresses (`recv_rann`). The rest of the daemon that touches the choice is here
too: the pool of portals, the timers of `pann_handler`, and `init_root`, which runs when the bridge opens or closes the
portal. `init_root` takes a recorded root of all zeros for none.
-/

namespace NasFirmware.Mesh

/-! ## Portals -/

/-- A MAC address, in the order of `memcmp`. -/
abbrev Mac := Fin (2 ^ 48)

def zeroMac : Mac := ⟨0, by decide⟩

def lastMac : Mac := ⟨2 ^ 48 - 1, by decide⟩

/-- `ROOT_ANNOUNCEMENT_TIMEOUT` and `PORTAL_ANNOUNCEMENT_TIMEOUT`. -/
def announcementTimeout : UInt32 := 17

/-- An entry of `pann_mpp_pool` whose `flag` is set. -/
structure MppEntry where
  mac : Mac
  timeout : UInt32
  seqNum : UInt32
  beRoot : UInt8

inductive Timer where
  | genPann
  | retxPann
  | tblPann
  | genRann
  | retxRann
  | tblRann
  | rootDecision
  deriving DecidableEq

/-- `p_count`: `PORTAL_ARBITRATION_TIME` for `root_decision`. -/
def Timer.period : Timer → UInt32
  | .rootDecision => 20
  | _ => 1

/-- A node. `rootTimeout` belongs to `rann_root_entry`, whose address is zero while its `flag` is not set. The daemon
does not keep `accepted`: the origins of the announcements accepted since it last cleared that entry. -/
structure Portal where
  st : Station Mac
  toBeRoot : Bool
  decided : Bool
  mppPool : List (Option MppEntry)
  rootTimeout : UInt32
  count : Timer → UInt32
  accepted : List Mac

def eligible (pool : List (Option MppEntry)) : List Mac :=
  pool.filterMap fun place => place.bind fun e => if e.beRoot = 1 then some e.mac else none

/-- `isRoot` after the loops of `root_decision`. A node that does not want to be root leaves it as it is. -/
def elects (me : Mac) (p : Portal) : Bool :=
  if p.toBeRoot then
    if (eligible p.mppPool).length = 0 then true
    else
      let root := if me < lastMac then me else lastMac
      let root := (eligible p.mppPool).foldl (fun root mac => if mac < root then mac else root) root
      if root = me then true else p.st.isRoot
  else p.st.isRoot

def rootDecision (me : Mac) (p : Portal) : Portal :=
  if p.decided then p
  else if elects me p then
    { p with
      st := { p.st with isRoot := true, rannRootMac := some me }
      decided := true
      rootTimeout := announcementTimeout }
  else { p with st := { p.st with isRoot := false }, decided := true }

/-- `init_root`, with `reset_timer`. -/
def initRoot (me : Mac) (p : Portal) : Portal :=
  let mac := p.st.rannRootMac.getD zeroMac
  let count t := if t = .genPann ∨ t = .genRann ∨ t = .rootDecision then t.period else p.count t
  if p.st.isPortal ∧ p.toBeRoot then
    if me < mac ∨ mac = zeroMac then
      { p with st := { p.st with isRoot := true, rannRootMac := some me }, rootTimeout := announcementTimeout, count }
    else { p with count }
  else if mac = me then
    { p with st := { p.st with isRoot := false, rannRootMac := none }, count, accepted := [] }
  else { p with count }

/-- What `GetMeshPortStat` says of the port of the bridge. -/
inductive PortState where
  | blocking
  | forwarding
  | other

def callbackUsr2 (me : Mac) (p : Portal) : PortState → Portal
  | .blocking => if p.st.isPortal then initRoot me { p with st := { p.st with isPortal := false } } else p
  | .forwarding => if p.st.isPortal then p else initRoot me { p with st := { p.st with isPortal := true } }
  | .other => p

/-- A portal that is in the pool is entered again. -/
def renew (e : MppEntry) : List (Option MppEntry) → List (Option MppEntry)
  | [] => []
  | some x :: pool => if x.mac = e.mac then some e :: pool else some x :: renew e pool
  | none :: pool => none :: renew e pool

/-- A portal goes to the first free place, if there is one. -/
def enter (e : MppEntry) : List (Option MppEntry) → List (Option MppEntry)
  | [] => []
  | none :: pool => some e :: pool
  | some x :: pool => some x :: enter e pool

def updateMppPool (pool : List (Option MppEntry)) (m : Msg Mac) (flag : UInt8) : List (Option MppEntry) :=
  let e : MppEntry := ⟨m.origAddr, announcementTimeout, m.seqNum, flag⟩
  if pool.any fun place => place.any fun x => x.mac = e.mac then renew e pool else enter e pool

section

variable (mesh : Topology Mac) (me myPrehop : Mac) (p : Portal)

/-- `recv_pann`, with the pool of portals. -/
def Portal.recvPann (m : Msg Mac) (flag : UInt8) : Portal :=
  if m.origAddr = me then p
  else
    match p.st.update mesh m myPrehop with
    | none => p
    | some _ =>
      { p with st := Mesh.recvPann mesh me myPrehop p.st m, mppPool := updateMppPool p.mppPool m flag }

/-- `recv_rann`, with the choice of the root. -/
def Portal.recvRann (m : Msg Mac) : Portal :=
  let st := Mesh.recvRann mesh me myPrehop p.st m
  if m.origAddr = me then p
  else if p.st.isRoot ∧ ¬ m.origAddr < me then p
  else
    let root :=
      { p with st, decided := true, rootTimeout := announcementTimeout, accepted := m.origAddr :: p.accepted }
    match p.st.rannRootMac with
    | none => root
    | some mac =>
      if m.origAddr < mac then root
      else if mac = m.origAddr then
        let rootTimeout := if p.st.rannRootSeqNum < m.seqNum then announcementTimeout else p.rootTimeout
        { p with st, rootTimeout, accepted := m.origAddr :: p.accepted }
      else { p with st }

end

def tblPlace : Option MppEntry → Option MppEntry
  | some e => if e.timeout - 1 = 0 then none else some { e with timeout := e.timeout - 1 }
  | none => none

/-- `tbl_pann`: the paths to portals that have run out are removed. -/
def tblPann (p : Portal) : Portal :=
  let out := p.mppPool.filterMap fun place => place.bind fun e => if e.timeout - 1 = 0 then some e.mac else none
  { p with
    mppPool := p.mppPool.map tblPlace
    st := { p.st with table := out.foldl (fun table mac => Function.update table mac none) p.st.table } }

def tblRann (p : Portal) : Portal :=
  match p.st.rannRootMac with
  | none => p
  | some mac =>
    if p.rootTimeout - 1 = 0 then
      { p with
        st := { p.st with table := Function.update p.st.table mac none, rannRootMac := none }
        rootTimeout := 0
        decided := false
        accepted := [] }
    else { p with rootTimeout := p.rootTimeout - 1 }

/-- A function of `i_timer`; what it sends goes to other nodes. -/
def Portal.fire (me : Mac) (p : Portal) : Timer → Portal
  | .genPann => { p with st := (genPann me p.st).1 }
  | .retxPann => { p with st := (retxPann p.st).1 }
  | .tblPann => tblPann p
  | .genRann => { p with st := (genRann me p.st).1, rootTimeout := announcementTimeout }
  | .retxRann => { p with st := (retxRann p.st).1 }
  | .tblRann => tblRann p
  | .rootDecision => rootDecision me p

def Portal.tick (me : Mac) (p : Portal) (t : Timer) : Portal :=
  let c := p.count t - 1
  if c = 0 then { p.fire me t with count := Function.update p.count t t.period }
  else { p with count := Function.update p.count t c }

def pannHandler (me : Mac) (p : Portal) : Portal :=
  let p :=
    if ¬ p.st.isRoot ∧ ¬ p.st.isPortal then
      [.retxPann, .tblPann, .retxRann, .tblRann].foldl (Portal.tick me) p
    else p
  if ¬ p.st.isRoot ∧ p.st.isPortal then
    let p := [.genPann, .retxPann, .tblPann, .retxRann, .tblRann].foldl (Portal.tick me) p
    if p.decided then p else p.tick me .rootDecision
  else if p.st.isRoot ∧ p.st.isPortal then [.genPann, .retxPann, .tblPann, .genRann].foldl (Portal.tick me) p
  else p

/-- What can happen to a node. Other messages leave the choice of the root alone. -/
inductive Occurrence where
  | pann (myPrehop : Mac) (linkMetric : UInt32) (m : Msg Mac) (flag : UInt8)
  | rann (myPrehop : Mac) (linkMetric : UInt32) (m : Msg Mac)
  | alarm
  | usr2 (state : PortState)
  | other (st : Station Mac)

def Portal.step (mesh : Topology Mac) (me : Mac) (p : Portal) : Occurrence → Portal
  | .pann myPrehop linkMetric m flag => p.recvPann mesh me myPrehop (m.received linkMetric) flag
  | .rann myPrehop linkMetric m => p.recvRann mesh me myPrehop (m.received linkMetric)
  | .alarm => pannHandler me p
  | .usr2 state => callbackUsr2 me p state
  | .other st =>
    let { isPortal, isRoot, rannRootMac, rannRootSeqNum, .. } := p.st
    { p with st := { st with isPortal, isRoot, rannRootMac, rannRootSeqNum } }

structure Portal.Undecided (p : Portal) : Prop where
  decided : p.decided = false
  isRoot : p.st.isRoot = false
  rannRootMac : p.st.rannRootMac = none
  accepted : p.accepted = []

theorem foldl_least_le (l : List Mac) (root : Mac) :
    l.foldl (fun root mac => if mac < root then mac else root) root ≤ root := by
  induction l generalizing root with
  | nil => exact le_rfl
  | cons mac l ih =>
    rw [List.foldl_cons]
    refine (ih _).trans ?_
    split_ifs with hlt
    · exact hlt.le
    · exact le_rfl

theorem foldl_least_eq_iff (l : List Mac) (root : Mac) :
    l.foldl (fun root mac => if mac < root then mac else root) root = root ↔ ∀ mac ∈ l, root ≤ mac := by
  induction l generalizing root with
  | nil => exact iff_of_true rfl fun mac hmac => nomatch hmac
  | cons mac l ih =>
    rw [List.foldl_cons, List.forall_mem_cons]
    by_cases hlt : mac < root
    · rw [if_pos hlt]
      refine iff_of_false (fun heq => ?_) fun h => absurd hlt h.1.not_gt
      exact absurd ((foldl_least_le l mac).trans_lt hlt) (heq ▸ lt_irrefl _)
    · rw [if_neg hlt, ih, and_iff_right (not_lt.mp hlt)]

theorem start_eq (me : Mac) : (if me < lastMac then me else lastMac) = me := by
  split_ifs with hlt
  · rfl
  · exact le_antisymm (not_lt.mp hlt) (Nat.le_sub_one_of_lt me.isLt)

section

variable {me : Mac} {p : Portal} {t : Timer}

/-- **A portal that wants to be root chooses itself** exactly if it knows of no smaller one. -/
theorem rootDecision_isRoot (hp : p.Undecided) (hwants : p.toBeRoot = true) :
    (rootDecision me p).st.isRoot = true ↔ ∀ mac ∈ eligible p.mppPool, me ≤ mac := by
  have helects : (rootDecision me p).st.isRoot = elects me p := by
    unfold rootDecision
    rw [hp.decided, if_neg Bool.false_ne_true]
    cases elects me p <;> rfl
  rw [helects]
  unfold elects
  rw [hwants, if_pos rfl, start_eq, hp.isRoot]
  by_cases hnone : (eligible p.mppPool).length = 0
  · rw [List.length_eq_zero_iff.mp hnone]
    exact iff_of_true rfl fun mac hmac => nomatch hmac
  · rw [← foldl_least_eq_iff, if_neg hnone]
    dsimp only
    split_ifs with hleast
    · exact iff_of_true rfl hleast
    · exact iff_of_false not_false hleast

/-- **The invariant of a portal.** A root records itself. A recorded root is no larger than what was accepted; if it
is another node, or if anything was accepted, the choice is made; it is zero only if the node is. -/
structure Portal.Inv (me : Mac) (p : Portal) : Prop where
  root : p.st.isRoot = true → p.st.rannRootMac = some me
  empty : p.st.rannRootMac = none → p.accepted = []
  least : ∀ r, p.st.rannRootMac = some r → ∀ a ∈ p.accepted, r ≤ a
  chosen : p.accepted ≠ [] → p.decided = true
  other : ∀ r, p.st.rannRootMac = some r → r ≠ me → p.decided = true
  nonzero : ∀ r, p.st.rannRootMac = some r → r ≠ me → r ≠ zeroMac

structure Portal.Agrees (p p' : Portal) : Prop where
  isRoot : p'.st.isRoot = p.st.isRoot
  rannRootMac : p'.st.rannRootMac = p.st.rannRootMac
  decided : p'.decided = p.decided
  accepted : p'.accepted = p.accepted

theorem Portal.Inv.congr {p' : Portal} (h : p.Inv me) (hsame : p.Agrees p') : p'.Inv me := by
  obtain ⟨hroot, hempty, hleast, hchosen, hother, hnonzero⟩ := h
  obtain ⟨hisRoot, hmac, hdecided, haccepted⟩ := hsame
  rw [← hisRoot, ← hmac] at hroot
  rw [← hmac, ← haccepted] at hempty hleast
  rw [← haccepted, ← hdecided] at hchosen
  rw [← hmac, ← hdecided] at hother
  rw [← hmac] at hnonzero
  exact ⟨hroot, hempty, hleast, hchosen, hother, hnonzero⟩

/-- A node that records itself, after all that it has accepted came from larger addresses. -/
theorem Portal.Inv.of_self (hmac : p.st.rannRootMac = some me) (hleast : ∀ a ∈ p.accepted, me ≤ a)
    (hchosen : p.accepted ≠ [] → p.decided = true) : p.Inv me where
  root _ := hmac
  empty hnone := nomatch hmac.symm.trans hnone
  least _ hr := Option.some.inj (hmac.symm.trans hr) ▸ hleast
  chosen := hchosen
  other _ hr hne := absurd (Option.some.inj (hr.symm.trans hmac)) hne
  nonzero _ hr hne := absurd (Option.some.inj (hr.symm.trans hmac)) hne

/-- A node that has chosen, and records a root that is not itself. -/
theorem Portal.Inv.of_some {r : Mac} (hroot : p.st.isRoot = false) (hmac : p.st.rannRootMac = some r)
    (hleast : ∀ a ∈ p.accepted, r ≤ a) (hdecided : p.decided = true) (hzero : r ≠ me → r ≠ zeroMac) : p.Inv me where
  root h := nomatch hroot.symm.trans h
  empty hnone := nomatch hmac.symm.trans hnone
  least _ hr := Option.some.inj (hmac.symm.trans hr) ▸ hleast
  chosen _ := hdecided
  other _ _ _ := hdecided
  nonzero _ hr := Option.some.inj (hmac.symm.trans hr) ▸ hzero

theorem Portal.Inv.of_none (hmac : p.st.rannRootMac = none) (hroot : p.st.isRoot = false) (haccepted : p.accepted = []) :
    p.Inv me where
  root h := nomatch hroot.symm.trans h
  empty _ := haccepted
  least _ hr := nomatch hmac.symm.trans hr
  chosen h := absurd haccepted h
  other _ hr := nomatch hmac.symm.trans hr
  nonzero _ hr := nomatch hmac.symm.trans hr

theorem Portal.Inv.rootDecision (h : p.Inv me) : (rootDecision me p).Inv me := by
  unfold Mesh.rootDecision
  by_cases hdecided : p.decided = true
  · rw [if_pos hdecided]
    exact h
  · rw [if_neg hdecided]
    -- nothing was accepted, and nobody else is recorded
    have haccepted : p.accepted = [] := not_not.mp fun hne => hdecided (h.chosen hne)
    have hself : ∀ r, p.st.rannRootMac = some r → r = me := fun r hr =>
      not_not.mp fun hne => hdecided (h.other r hr hne)
    by_cases hroot : elects me p = true
    · rw [if_pos hroot]
      refine .of_self rfl (fun a ha => ?_) fun _ => rfl
      rw [haccepted] at ha
      cases ha
    · rw [if_neg hroot]
      exact ⟨fun hfalse => (nomatch hfalse), h.empty, h.least, fun _ => rfl, fun _ _ _ => rfl,
        fun r hr hne => absurd (hself r hr) hne⟩

theorem Portal.Inv.initRoot (h : p.Inv me) : (initRoot me p).Inv me := by
  unfold Mesh.initRoot
  dsimp only
  split_ifs with hportal htakes hmine
  · refine .of_self rfl (fun a ha => ?_) h.chosen
    cases hmac : p.st.rannRootMac with
    | none => exact absurd (h.empty hmac) (List.ne_nil_of_mem ha)
    | some r =>
      rw [hmac, Option.getD_some] at htakes
      have hle := h.least r hmac a ha
      rcases htakes with hlt | hzero
      · exact hlt.le.trans hle
      · obtain rfl : r = me := not_not.mp fun hne => h.nonzero r hmac hne hzero
        exact hle
  · exact h.congr ⟨rfl, rfl, rfl, rfl⟩
  · exact .of_none rfl rfl rfl
  · exact h.congr ⟨rfl, rfl, rfl, rfl⟩

theorem Portal.Inv.callbackUsr2 (h : p.Inv me) (state : PortState) : (callbackUsr2 me p state).Inv me := by
  have hset (isPortal : Bool) : Portal.Inv me { p with st := { p.st with isPortal } } :=
    h.congr ⟨rfl, rfl, rfl, rfl⟩
  unfold Mesh.callbackUsr2
  cases state with
  | blocking =>
    dsimp only
    split_ifs
    · exact (hset false).initRoot
    · exact h
  | forwarding =>
    dsimp only
    split_ifs
    · exact h
    · exact (hset true).initRoot
  | other => exact h

/-! ### Timers -/

theorem Portal.Inv.tblRann (h : p.Inv me) (hroot : p.st.isRoot = false) : (tblRann p).Inv me := by
  unfold Mesh.tblRann
  split
  · exact h
  · split_ifs
    · exact .of_none rfl hroot rfl
    · exact h.congr ⟨rfl, rfl, rfl, rfl⟩

theorem retxRann_agrees (p : Portal) : p.Agrees { p with st := (retxRann p.st).1 } := by
  unfold retxRann
  split
  · exact ⟨rfl, rfl, rfl, rfl⟩
  · split_ifs <;> exact ⟨rfl, rfl, rfl, rfl⟩

theorem Portal.Inv.fire (h : p.Inv me) (t : Timer) (hroot : p.st.isRoot = true → t ≠ .tblRann) :
    (p.fire me t).Inv me := by
  cases t with
  | genPann => exact h.congr ⟨rfl, rfl, rfl, rfl⟩
  | retxPann => exact h.congr ⟨rfl, rfl, rfl, rfl⟩
  | tblPann => exact h.congr ⟨rfl, rfl, rfl, rfl⟩
  | genRann => exact h.congr ⟨rfl, rfl, rfl, rfl⟩
  | retxRann => exact h.congr (retxRann_agrees p)
  | tblRann => exact h.tblRann (Bool.eq_false_of_not_eq_true fun h => hroot h rfl)
  | rootDecision => exact h.rootDecision

theorem tblRann_isRoot (p : Portal) : (tblRann p).st.isRoot = p.st.isRoot := by
  unfold tblRann
  split
  · rfl
  · split_ifs <;> rfl

theorem fire_isRoot (ht : t ≠ .rootDecision) : (p.fire me t).st.isRoot = p.st.isRoot := by
  cases t with
  | genPann => rfl
  | retxPann => rfl
  | tblPann => rfl
  | genRann => rfl
  | retxRann => exact (retxRann_agrees p).isRoot
  | tblRann => exact tblRann_isRoot p
  | rootDecision => exact absurd rfl ht

theorem Portal.Inv.tick (h : p.Inv me) (t : Timer) (hroot : p.st.isRoot = true → t ≠ .tblRann) :
    (p.tick me t).Inv me := by
  unfold Portal.tick
  dsimp only
  split_ifs
  · exact (h.fire t hroot).congr ⟨rfl, rfl, rfl, rfl⟩
  · exact h.congr ⟨rfl, rfl, rfl, rfl⟩

theorem tick_isRoot (ht : t ≠ .rootDecision) : (p.tick me t).st.isRoot = p.st.isRoot := by
  unfold Portal.tick
  dsimp only
  split_ifs
  · exact fire_isRoot ht
  · rfl

theorem Portal.Inv.ticks (h : p.Inv me) (l : List Timer) (hl : .rootDecision ∉ l)
    (hroot : p.st.isRoot = true → .tblRann ∉ l) :
    (l.foldl (Portal.tick me) p).Inv me ∧ (l.foldl (Portal.tick me) p).st.isRoot = p.st.isRoot := by
  induction l generalizing p with
  | nil => exact ⟨h, rfl⟩
  | cons t l ih =>
    rw [List.mem_cons, not_or] at hl
    have hsame : (p.tick me t).st.isRoot = p.st.isRoot := tick_isRoot (Ne.symm hl.1)
    have hnext := h.tick t fun hisRoot heq => hroot hisRoot (heq ▸ List.mem_cons_self)
    obtain ⟨hinv, heq⟩ := ih hnext hl.2 fun hisRoot hmem => hroot (hsame ▸ hisRoot) (List.mem_cons_of_mem _ hmem)
    exact ⟨hinv, heq.trans hsame⟩

theorem Portal.Inv.pannHandler (h : p.Inv me) : (pannHandler me p).Inv me := by
  -- a node that is no portal runs its timers and stays what it is
  have hfirst : Portal.Inv me (if ¬ p.st.isRoot ∧ ¬ p.st.isPortal then
      [.retxPann, .tblPann, .retxRann, .tblRann].foldl (Portal.tick me) p else p) := by
    split_ifs with hplain
    · exact (h.ticks _ (by decide) fun hroot => absurd hroot hplain.1).1
    · exact h
  unfold Mesh.pannHandler
  dsimp only
  generalize (if ¬ p.st.isRoot ∧ ¬ p.st.isPortal then
    [.retxPann, .tblPann, .retxRann, .tblRann].foldl (Portal.tick me) p else p) = q at hfirst ⊢
  split_ifs with hportal hdecided hroot
  · exact (hfirst.ticks _ (by decide) fun hroot => absurd hroot hportal.1).1
  · refine (hfirst.ticks _ (by decide) fun hroot => absurd hroot hportal.1).1.tick _ fun _ => ?_
    decide
  · exact (hfirst.ticks _ (by decide) fun _ => by decide).1
  · exact hfirst

/-! ### Announcements -/

variable {mesh : Topology Mac} {myPrehop : Mac} {m : Msg Mac} {st st' : Station Mac}

theorem update_root (h : st.update mesh m myPrehop = some st') :
    st'.isRoot = st.isRoot ∧ st'.rannRootMac = st.rannRootMac := by
  rw [(update_eq_some h).1]
  exact ⟨rfl, rfl⟩

theorem recvPann_agrees (flag : UInt8) : p.Agrees (p.recvPann mesh me myPrehop m flag) := by
  unfold Portal.recvPann Mesh.recvPann
  split_ifs with hme
  · exact ⟨rfl, rfl, rfl, rfl⟩
  · cases hupdate : p.st.update mesh m myPrehop with
    | none => exact ⟨rfl, rfl, rfl, rfl⟩
    | some st' =>
      obtain ⟨hroot, hmac⟩ := update_root hupdate
      exact ⟨hroot, hmac, rfl, rfl⟩

/-- The root that is recorded after an announcement. -/
def heard (recorded : Option Mac) (orig : Mac) : Mac := recorded.elim orig fun mac => if orig < mac then orig else mac

theorem followRoot_root {b : Bool} (h : followRoot me st m = some (st', b)) :
    st'.isRoot = false ∧ st'.rannRootMac = some (heard st.rannRootMac m.origAddr) := by
  unfold followRoot at h
  split_ifs at h with hroot
  unfold heard
  cases hmac : st.rannRootMac with
  | none =>
    rw [hmac] at h
    cases h
    exact ⟨rfl, rfl⟩
  | some mac =>
    rw [hmac] at h
    dsimp only at h
    rw [Option.elim_some]
    split_ifs at h with hlt heq hseq
    · cases h
      rw [if_pos hlt]
      exact ⟨rfl, rfl⟩
    · cases h
      rw [if_neg hlt]
      exact ⟨rfl, rfl⟩
    · cases h
      rw [if_neg hlt]
      exact ⟨rfl, rfl⟩
    · cases h
      rw [if_neg hlt]
      exact ⟨rfl, rfl⟩

theorem recvRann_root (mesh : Topology Mac) (myPrehop : Mac) (hme : m.origAddr ≠ me)
    (hroot : ¬ (st.isRoot = true ∧ ¬ m.origAddr < me)) :
    (recvRann mesh me myPrehop st m).isRoot = false ∧
      (recvRann mesh me myPrehop st m).rannRootMac = some (heard st.rannRootMac m.origAddr) := by
  unfold recvRann
  rw [if_neg hme]
  cases hfollow : followRoot me st m with
  | none =>
    unfold followRoot at hfollow
    rw [if_neg hroot] at hfollow
    dsimp only at hfollow
    split at hfollow
    · cases hfollow
    · split_ifs at hfollow
  | some x =>
    obtain ⟨st₁, b⟩ := x
    obtain ⟨hfalse, hmac⟩ := followRoot_root hfollow
    cases b with
    | false => exact ⟨hfalse, hmac⟩
    | true =>
      dsimp only
      cases hupdate : st₁.update mesh m myPrehop with
      | none => exact ⟨hfalse, hmac⟩
      | some st₂ =>
        obtain ⟨hroot', hmac'⟩ := update_root hupdate
        exact ⟨hroot'.trans hfalse, hmac'.trans hmac⟩

theorem Portal.Inv.recvRann (h : p.Inv me) (hzero : m.origAddr ≠ zeroMac) :
    (p.recvRann mesh me myPrehop m).Inv me := by
  unfold Portal.recvRann
  by_cases hme : m.origAddr = me
  · rw [if_pos hme]
    exact h
  by_cases hroot : p.st.isRoot = true ∧ ¬ m.origAddr < me
  · rw [if_neg hme, if_pos hroot]
    exact h
  rw [if_neg hme, if_neg hroot]
  obtain ⟨hfalse, hmac⟩ := recvRann_root mesh myPrehop hme hroot
  cases hold : p.st.rannRootMac with
  | none =>
    rw [hold] at hmac
    refine .of_some hfalse hmac (fun a ha => ?_) rfl fun _ => hzero
    rw [h.empty hold] at ha
    exact (List.mem_singleton.mp ha).ge
  | some mac =>
    rw [hold] at hmac
    dsimp only
    by_cases hlt : m.origAddr < mac
    · rw [if_pos hlt]
      rw [heard, Option.elim_some, if_pos hlt] at hmac
      refine .of_some hfalse hmac (fun a ha => ?_) rfl fun _ => hzero
      rcases List.mem_cons.mp ha with rfl | ha
      · exact le_rfl
      · exact hlt.le.trans (h.least mac hold a ha)
    · rw [if_neg hlt]
      rw [heard, Option.elim_some, if_neg hlt] at hmac
      by_cases heq : mac = m.origAddr
      · -- the recorded root again: it is another node, so that the choice is made
        rw [if_pos heq]
        have hne : mac ≠ me := fun hmac => hme (heq ▸ hmac)
        refine .of_some hfalse hmac (fun a ha => ?_) (h.other mac hold hne) (h.nonzero mac hold)
        rcases List.mem_cons.mp ha with rfl | ha
        · exact heq.le
        · exact h.least mac hold a ha
      · rw [if_neg heq]
        have hsame : (Mesh.recvRann mesh me myPrehop p.st m).rannRootMac = p.st.rannRootMac := hmac.trans hold.symm
        exact ⟨fun hroot => (nomatch hfalse.symm.trans hroot), fun hnone => h.empty (hsame.symm.trans hnone),
          fun r hr => h.least r (hsame.symm.trans hr), h.chosen, fun r hr => h.other r (hsame.symm.trans hr),
          fun r hr => h.nonzero r (hsame.symm.trans hr)⟩

/-- A root announcement does not come from the all-zero address. -/
def Occurrence.Nonzero : Occurrence → Prop
  | .rann _ _ m => m.origAddr ≠ zeroMac
  | _ => True

/-- **Every step keeps the invariant.** -/
theorem Portal.Inv.step (h : p.Inv me) (e : Occurrence) (he : e.Nonzero) : (p.step mesh me e).Inv me := by
  cases e with
  | pann myPrehop linkMetric m flag => exact h.congr (recvPann_agrees flag)
  | rann myPrehop linkMetric m => exact h.recvRann he
  | alarm => exact h.pannHandler
  | usr2 state => exact h.callbackUsr2 state
  | other st => exact h.congr ⟨rfl, rfl, rfl, rfl⟩

/-- **The invariant of a run.** -/
theorem Portal.Inv.run (h : p.Inv me) (events : List Occurrence) (hevents : ∀ e ∈ events, e.Nonzero) :
    (events.foldl (Portal.step mesh me) p).Inv me :=
  List.foldlRecOn _ _ h fun _ h e he => h.step e (hevents e he)

theorem recvRann_st (hme : m.origAddr ≠ me) (hroot : ¬ (p.st.isRoot = true ∧ ¬ m.origAddr < me)) :
    (p.recvRann mesh me myPrehop m).st = Mesh.recvRann mesh me myPrehop p.st m := by
  unfold Portal.recvRann
  rw [if_neg hme, if_neg hroot]
  split
  · rfl
  · split_ifs <;> rfl

theorem step_rann_isRoot {linkMetric : UInt32} (hlt : m.origAddr < me) :
    (p.step mesh me (.rann myPrehop linkMetric m)).st.isRoot = false := by
  have hlt' : (m.received linkMetric).origAddr < me := hlt
  have hlooks : ¬ (p.st.isRoot = true ∧ ¬ (m.received linkMetric).origAddr < me) := fun h => h.2 hlt'
  refine (congrArg Station.isRoot (recvRann_st hlt'.ne hlooks)).trans ?_
  exact (recvRann_root mesh myPrehop hlt'.ne hlooks).1

end

/-! ## Agreement -/

/-- The portals of a set that have announced themselves to one another, and have not chosen. -/
def Ready (S : Finset Mac) (portal : Mac → Portal) : Prop :=
  ∀ me ∈ S, (portal me).Undecided ∧ (portal me).toBeRoot = true ∧
    ∀ a, a ∈ eligible (portal me).mppPool ↔ a ∈ S ∧ a ≠ me

/-- **The portals agree on a root.** The smallest of them, and no other, is root after all have chosen. Then, without
announcements from the all-zero address, a root stops being one with the first announcement from a smaller address,
and no recorded root is larger than what was accepted since the entry was last cleared. -/
theorem rootDecision_agrees (mesh : Topology Mac) (S : Finset Mac) (portal : Mac → Portal) (hS : S.Nonempty)
    (hready : Ready S portal) :
    (∃ r ∈ S, (∀ a ∈ S, r ≤ a) ∧ ∀ me ∈ S, (rootDecision me (portal me)).st.isRoot = true ↔ me = r) ∧
      ∀ me ∈ S, ∀ events : List Occurrence, (∀ e ∈ events, e.Nonzero) →
        ∀ p, p = events.foldl (Portal.step mesh me) (rootDecision me (portal me)) →
          (∀ myPrehop linkMetric m, p.st.isRoot = true → m.origAddr < me →
            (p.step mesh me (.rann myPrehop linkMetric m)).st.isRoot = false) ∧
          ∀ r, p.st.rannRootMac = some r → ∀ a ∈ p.accepted, r ≤ a := by
  refine ⟨⟨S.min' hS, S.min'_mem hS, fun a ha => S.min'_le a ha, fun me hme => ?_⟩, ?_⟩
  · obtain ⟨hundecided, hwants, hpool⟩ := hready me hme
    rw [rootDecision_isRoot hundecided hwants]
    constructor
    · intro hleast
      refine le_antisymm (S.le_min' hS me fun a ha => ?_) (S.min'_le me hme)
      by_cases hself : a = me
      · exact hself.ge
      · exact hleast a ((hpool a).mpr ⟨ha, hself⟩)
    · rintro rfl a ha
      exact S.min'_le a ((hpool a).mp ha).1
  · rintro me hme events hevents p rfl
    obtain ⟨hundecided, -, -⟩ := hready me hme
    have hstart : (portal me).Inv me := .of_none hundecided.rannRootMac hundecided.isRoot hundecided.accepted
    exact ⟨fun myPrehop linkMetric m _ hlt => step_rann_isRoot hlt, (hstart.rootDecision.run events hevents).least⟩

def lonePortal : Portal where
  st := { init.station 2 with isPortal := true }
  toBeRoot := true
  decided := false
  mppPool := List.replicate maxMppNum none
  rootTimeout := 0
  count := Timer.period
  accepted := []

theorem lonePortal_ready : Ready {2} fun _ => lonePortal := by
  intro me hme
  refine ⟨⟨rfl, rfl, rfl, rfl⟩, rfl, fun a => ?_⟩
  rw [Finset.mem_singleton] at hme ⊢
  subst hme
  exact iff_of_false (fun ha => nomatch ha) fun ha => ha.2 ha.1

def pairPortal (me : Mac) : Portal :=
  { lonePortal with mppPool := some ⟨if me = 2 then 5 else 2, announcementTimeout, 1, 1⟩ :: List.replicate 14 none }

theorem pairPortal_ready : Ready {2, 5} pairPortal := by
  intro me hme
  refine ⟨⟨rfl, rfl, rfl, rfl⟩, rfl, fun a => ?_⟩
  have hpool : eligible (pairPortal me).mppPool = [if me = 2 then 5 else 2] := rfl
  rw [hpool, List.mem_singleton]
  rw [Finset.mem_insert, Finset.mem_singleton] at hme ⊢
  rcases hme with rfl | rfl
  · constructor
    · rintro rfl
      exact ⟨.inr rfl, by decide⟩
    · rintro ⟨ha, hne⟩
      exact ha.resolve_left hne
  · constructor
    · rintro rfl
      exact ⟨.inl rfl, by decide⟩
    · rintro ⟨ha, hne⟩
      exact ha.resolve_right hne

def evenMesh : Topology Mac := ⟨fun _ _ => true, fun _ _ => 5, fun _ _ => false, 20⟩

theorem pairPortal_agrees : (rootDecision 2 (pairPortal 2)).st.isRoot = true ∧
    ¬ (rootDecision 5 (pairPortal 5)).st.isRoot = true := by
  obtain ⟨⟨r, hr, hleast, hroot⟩, -⟩ :=
    rootDecision_agrees evenMesh {2, 5} pairPortal (Finset.insert_nonempty ..) pairPortal_ready
  have htwo : (2 : Mac) ∈ ({2, 5} : Finset Mac) := Finset.mem_insert_self ..
  have hfive : (5 : Mac) ∈ ({2, 5} : Finset Mac) := by decide
  obtain rfl : r = 2 := by
    rw [Finset.mem_insert, Finset.mem_singleton] at hr
    refine hr.resolve_right fun h => absurd (hleast 2 htwo) ?_
    rw [h]
    decide
  exact ⟨(hroot 2 htwo).mpr rfl, fun h => absurd ((hroot 5 hfive).mp h) (by decide)⟩

/-- Node 2 is root, gives way to an announcement from the all-zero address, and its portal closes and opens. -/
def zeroEvents : List Occurrence := [.rann 7 5 ⟨.rann, 0, 15, zeroMac, 1, 0⟩, .usr2 .blocking, .usr2 .forwarding]

/-- It is root again, and has recorded itself. -/
theorem zeroEvents_forgotten : Ready {2} (fun _ => lonePortal) ∧
    ¬ ∀ events : List Occurrence, ∀ p, p = events.foldl (Portal.step evenMesh 2) (rootDecision 2 lonePortal) →
      ∀ r, p.st.rannRootMac = some r → ∀ a ∈ p.accepted, r ≤ a := by
  refine ⟨lonePortal_ready, fun h => ?_⟩
  have hrecorded : (zeroEvents.foldl (Portal.step evenMesh 2) (rootDecision 2 lonePortal)).st.rannRootMac = some 2 := by
    decide +kernel
  have haccepted : (zeroEvents.foldl (Portal.step evenMesh 2) (rootDecision 2 lonePortal)).accepted = [zeroMac] := by
    decide +kernel
  refine absurd (h zeroEvents _ rfl 2 hrecorded zeroMac ?_) (by decide)
  exact List.mem_singleton.mpr rfl

end NasFirmware.Mesh
