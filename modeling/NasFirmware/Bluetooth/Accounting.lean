import NasFirmware.Bluetooth.Coex

/-!
# The profile counts of the coexistence monitor

* **`run_accounted`**: over a run of such events the counts of the driver are the sums of its connections' counts.
-/

namespace NasFirmware.Bluetooth

open Coex

namespace Profile

theorem index_lt (i : Profile) : i.index < 8 := by cases i <;> decide

theorem index_inj {i j : Profile} : i.index = j.index ↔ i = j := by cases i <;> cases j <;> decide

end Profile

variable {i p : Profile} {m : BitVec 8} {a : Int8} {r : Profile → Int8} {h : Nat} {c : Conn}

theorem getLsbD_bit {j : Nat} : (bit i).getLsbD j = decide (j = i.index) := by
  have hi := i.index_lt
  rw [bit, BitVec.getLsbD_shiftLeft, BitVec.getLsbD_one]
  by_cases hj : j = i.index
  · subst hj; simpa using hi
  · by_cases hlt : j < i.index
    · simp [hlt, hj]
    · simp [hj, show j - i.index ≠ 0 by omega]

theorem hasBit_iff : HasBit m i ↔ m.getLsbD i.index = true := by
  rw [HasBit, Ne, BitVec.ofNat_eq_ofNat, BitVec.zero_iff_eq_false, not_forall]
  simp [getLsbD_bit]

@[simp] theorem hasBit_setBit : HasBit (setBit m i) p ↔ p = i ∨ HasBit m p := by
  simp [hasBit_iff, setBit, getLsbD_bit, Profile.index_inj, or_comm]

@[simp] theorem hasBit_clearBit : HasBit (clearBit m i) p ↔ p ≠ i ∧ HasBit m p := by
  rw [hasBit_iff, hasBit_iff, clearBit, BitVec.getLsbD_and, BitVec.getLsbD_not, getLsbD_bit, Bool.and_eq_true, and_comm]
  simp only [p.index_lt, Profile.index_inj, decide_true, Bool.true_and, Bool.not_eq_true', decide_eq_false_iff_not, ne_eq]

/-! ## One use more, one use less -/

def one (i p : Profile) : Int := if p = i then 1 else 0

theorem one_self (i : Profile) : one i i = 1 := if_pos rfl

theorem one_nonneg (i p : Profile) : 0 ≤ one i p := by unfold one; split_ifs <;> decide

theorem toInt_add_one (ha : a.toInt < 127) : (a + 1).toInt = a.toInt + 1 := by
  have := a.le_toInt
  rw [Int8.toInt_add]
  exact Int.bmod_eq_of_le (by simpa using by omega) (by simpa using by omega)

theorem toInt_add_neg_one (ha : -128 < a.toInt) : (a + -1).toInt = a.toInt - 1 := by
  have := a.toInt_lt
  rw [Int8.toInt_add]
  exact Int.bmod_eq_of_le (by simpa using by omega) (by simpa using by omega)

theorem toInt_bump_one (h : p = i → (r p).toInt < 127) :
    (bump r i 1 p).toInt = (r p).toInt + one i p := by
  by_cases hp : p = i
  · subst hp
    rw [bump, Function.update_self, toInt_add_one (h rfl), one_self]
  · rw [bump, Function.update_of_ne hp, one, if_neg hp, add_zero]

theorem toInt_bump_neg_one (h : p = i → -128 < (r p).toInt) :
    (bump r i (-1) p).toInt = (r p).toInt - one i p := by
  by_cases hp : p = i
  · subst hp
    rw [bump, Function.update_self, toInt_add_neg_one (h rfl), one_self]
  · rw [bump, Function.update_of_ne hp, one, if_neg hp, sub_zero]

/-- The count of `p` is not negative, and its bit says whether it is positive. -/
def Counts.Marked (g : Counts) (p : Profile) : Prop :=
  0 ≤ (g.profileRefcount p).toInt ∧ (HasBit g.profileBitmap p ↔ 0 < (g.profileRefcount p).toInt)

theorem toInt_eq_zero : a.toInt = 0 ↔ a = 0 := by
  rw [← Int8.toInt_inj]; rfl

theorem ite_bump_interval {P : Prop} [Decidable P] (hp : p ≠ .hidInterval) :
    (if P then bump r .hidInterval (-1) else r) p = r p := by
  split_ifs
  · exact Function.update_of_ne hp ..
  · rfl

section Update

variable {g : Counts}

theorem update_add (hg : g.Marked p) (hroom : p = i → (g.profileRefcount p).toInt < 127) :
    (updateProfileConnection g c i true).1.Marked p ∧
      ((updateProfileConnection g c i true).1.profileRefcount p).toInt = (g.profileRefcount p).toInt + one i p := by
  have hcount : ((updateProfileConnection g c i true).1.profileRefcount p).toInt
      = (g.profileRefcount p).toInt + one i p := toInt_bump_one hroom
  refine ⟨⟨?_, ?_⟩, hcount⟩
  · rw [hcount]
    exact add_nonneg hg.1 (one_nonneg i p)
  · rw [hcount]
    change HasBit (if g.profileRefcount i = 0 then _ else _) p ↔ _
    have h0 := hg.1
    by_cases hp : p = i
    · subst hp
      rw [one_self]
      split_ifs with hz
      · simpa using by omega
      · rw [hg.2]
        have := mt toInt_eq_zero.mp hz
        omega
    · rw [one, if_neg hp, add_zero, ← hg.2]
      split_ifs
      · simp [hp]
      · rfl

theorem update_add_conn (hroom : p = i → (c.profileRefcount p).toInt < 127) :
    ((updateProfileConnection g c i true).2.profileRefcount p).toInt = (c.profileRefcount p).toInt + one i p :=
  toInt_bump_one hroom

theorem update_end (htracked : p ≠ .hidInterval) (hg : g.Marked p)
    (hused : p = i → 0 < (g.profileRefcount p).toInt) :
    (updateProfileConnection g c i false).1.Marked p ∧
      ((updateProfileConnection g c i false).1.profileRefcount p).toInt = (g.profileRefcount p).toInt - one i p := by
  have hlow : p = i → -128 < (g.profileRefcount p).toInt := fun hp => by
    have := hused hp
    omega
  have hcount : ((updateProfileConnection g c i false).1.profileRefcount p).toInt
      = (g.profileRefcount p).toInt - one i p := by
    rw [← toInt_bump_neg_one hlow]
    exact congrArg Int8.toInt (ite_bump_interval htracked)
  refine ⟨⟨?_, ?_⟩, hcount⟩
  · rw [hcount]
    by_cases hp : p = i
    · have := hused hp
      rw [hp, one_self, ← hp]
      omega
    · rw [one, if_neg hp, sub_zero]
      exact hg.1
  · rw [hcount]
    change HasBit (if g.profileRefcount i - 1 = 0 then _ else _) p ↔ _
    by_cases hp : p = i
    · subst hp
      have hdec : (g.profileRefcount p - 1).toInt = (g.profileRefcount p).toInt - 1 := by
        rw [Int8.sub_eq_add_neg]
        exact toInt_add_neg_one (hlow rfl)
      rw [one_self, ← hdec]
      split_ifs with hz
      · simp [hz]
      · rw [hg.2]
        have := mt toInt_eq_zero.mp hz
        omega
    · rw [one, if_neg hp, sub_zero, ← hg.2]
      split_ifs
      · simp [hp]
      · rfl

theorem update_end_conn (hused : p = i → 0 < (c.profileRefcount p).toInt) :
    ((updateProfileConnection g c i false).2.profileRefcount p).toInt = (c.profileRefcount p).toInt - one i p :=
  toInt_bump_neg_one fun hp => by
    have := hused hp
    omega

@[simp] theorem update_handle (isAdd : Bool) : (updateProfileConnection g c i isAdd).2.handle = c.handle := by
  cases isAdd <;> rfl

@[simp] theorem update_type (isAdd : Bool) : (updateProfileConnection g c i isAdd).2.type = c.type := by
  cases isAdd <;> rfl

end Update

/-! ## The invariant -/

def openAt (h : Nat) (p : Profile) (d : ProfInfo) : Int := if d.handle = h ∧ d.profileIndex = p ∧ d.Open then 1 else 0

def openChans (l : List ProfInfo) (h : Nat) (p : Profile) : Int := (l.map (openAt h p)).sum

/-- The use that a link is by itself. -/
def ConnType.link : ConnType → Profile → Int
  | .l2cap, _ => 0
  | .scoEsco, p => one .sco p
  | .le, p => one .hid p

structure Inv (s : Coex) : Prop where
  distinct : Keyed.Distinct Conn.handle s.connHash
  marked : ∀ p, p ≠ .hidInterval → s.counts.Marked p
  total : ∀ p, p ≠ .hidInterval →
    (s.counts.profileRefcount p).toInt = (s.connHash.map fun c => (c.profileRefcount p).toInt).sum
  uses : ∀ h c, Keyed.get Conn.handle h s.connHash = some c → ∀ p, p ≠ .hidInterval →
    (c.profileRefcount p).toInt = c.type.link p + openChans s.profileList h p
  owned : ∀ d ∈ s.profileList, d.Open → ∃ c, Keyed.get Conn.handle d.handle s.connHash = some c ∧ c.type = .l2cap

theorem inv_init : Inv init where
  distinct := List.nodup_nil
  marked p _ := by
    refine ⟨le_rfl, ?_⟩
    simp [hasBit_iff, init]
  total _ _ := rfl
  uses _ _ hc := nomatch hc
  owned _ hd := nomatch hd

section OpenChans

variable {l : List ProfInfo} {d : ProfInfo} {h : Nat}

theorem openAt_nonneg : 0 ≤ openAt h p d := by unfold openAt; split_ifs <;> decide

theorem openAt_of_not_open (hd : ¬ d.Open) : openAt h p d = 0 := if_neg fun hopen => hd hopen.2.2

theorem openAt_of_open (hd : d.Open) : openAt h p d = if h = d.handle then one d.profileIndex p else 0 := by
  unfold openAt one
  simp [hd, eq_comm (a := d.handle), eq_comm (a := d.profileIndex), ite_and]

theorem openChans_nonneg : 0 ≤ openChans l h p :=
  List.sum_nonneg fun x hx => by
    obtain ⟨d, -, rfl⟩ := List.mem_map.mp hx
    exact openAt_nonneg

theorem openChans_eq_zero (hl : ∀ d ∈ l, d.Open → d.handle ≠ h) : openChans l h p = 0 := by
  refine List.sum_eq_zero fun x hx => ?_
  obtain ⟨d, hd, rfl⟩ := List.mem_map.mp hx
  exact if_neg fun hopen => hl d hd hopen.2.2 hopen.1

theorem openChans_filter {P : ProfInfo → Bool} (hP : ∀ d, P d = false → openAt h p d = 0) :
    openChans (l.filter P) h p = openChans l h p := by
  induction l with
  | nil => rfl
  | cons d l ih =>
    have hsum : openChans (d :: l) h p = openAt h p d + openChans l h p := List.sum_cons
    cases hd : P d with
    | true =>
      rw [List.filter_cons_of_pos hd, hsum, ← ih]
      exact List.sum_cons
    | false => rw [List.filter_cons_of_neg (by rw [hd]; decide), ih, hsum, hP d hd, zero_add]

theorem link_nonneg {t : ConnType} : 0 ≤ t.link p := by
  cases t with
  | l2cap => exact le_rfl
  | scoEsco => exact one_nonneg ..
  | le => exact one_nonneg ..

end OpenChans

namespace Inv

variable {s : Coex} {h : Nat} {c c' : Conn} {g' : Counts} {L' : List ProfInfo} {δ : Profile → Int} {p : Profile}

variable (hs : Inv s)

include hs

variable (hc : Keyed.get Conn.handle h s.connHash = some c)

include hc

theorem nonneg (hp : p ≠ .hidInterval) :
    0 ≤ (c.profileRefcount p).toInt := by
  rw [hs.uses h c hc p hp]
  exact add_nonneg link_nonneg openChans_nonneg

theorem le_total (hp : p ≠ .hidInterval) :
    (c.profileRefcount p).toInt ≤ (s.counts.profileRefcount p).toInt := by
  rw [hs.total p hp]
  refine List.single_le_sum (fun x hx => ?_) _ (List.mem_map_of_mem (Keyed.mem_of_get hc).1)
  obtain ⟨b, hb, rfl⟩ := List.mem_map.mp hx
  exact hs.nonneg (hs.distinct.get_eq hb) hp

theorem put (hhandle : c'.handle = c.handle)
    (htype : c'.type = c.type)
    (hg : ∀ p, p ≠ .hidInterval → g'.Marked p ∧
      (g'.profileRefcount p).toInt = (s.counts.profileRefcount p).toInt + δ p)
    (hcount : ∀ p, p ≠ .hidInterval → (c'.profileRefcount p).toInt = (c.profileRefcount p).toInt + δ p)
    (hL : ∀ k p, openChans L' k p = openChans s.profileList k p + if k = h then δ p else 0)
    (hown : ∀ d ∈ L', d.Open → d ∈ s.profileList ∨ d.handle = h ∧ c.type = .l2cap) :
    Inv ⟨Keyed.modify Conn.handle h (fun _ => c') s.connHash, L', g'⟩ := by
  have hkey := (Keyed.mem_of_get hc).2
  have hf : ∀ a : Conn, a.handle = h → c'.handle = h := fun _ _ => hhandle.trans hkey
  refine ⟨hs.distinct.modify hf, fun p hp => (hg p hp).1, fun p hp => ?_, fun k b hb p hp => ?_, fun d hd hopen => ?_⟩
  · have hsum := Keyed.sum_modify (f := fun _ => c') (fun c => (c.profileRefcount p).toInt) hc
    have htotal := hs.total p hp
    have hgp := (hg p hp).2
    have hcp := hcount p hp
    simp only at hsum ⊢
    omega
  · simp only [Keyed.get_modify hf] at hb
    rw [hL]
    split_ifs at hb ⊢ with hk
    · rw [hc] at hb
      cases hb
      rw [hcount p hp, hs.uses h c hc p hp, htype, hk, add_assoc]
    · rw [hs.uses k b hb p hp, add_zero]
  · simp only [Keyed.get_modify hf]
    rcases hown d hd hopen with hold | ⟨hdh, htc⟩
    · obtain ⟨b, hb, hbt⟩ := hs.owned d hold hopen
      split_ifs with hk
      · rw [hk, hc] at hb
        cases hb
        exact ⟨c', by rw [hc]; rfl, htype.trans hbt⟩
      · exact ⟨b, hb, hbt⟩
    · rw [if_pos hdh, hc]
      exact ⟨c', rfl, htype.trans htc⟩

omit hc

theorem not_open (hnone : Keyed.get Conn.handle h s.connHash = none) :
    ∀ d ∈ s.profileList, d.Open → d.handle ≠ h := by
  rintro d hd hopen rfl
  obtain ⟨c, hc, -⟩ := hs.owned d hd hopen
  rw [hnone] at hc
  cases hc

theorem add (hnone : Keyed.get Conn.handle h s.connHash = none) (hhandle : c'.handle = h)
    (hg : ∀ p, p ≠ .hidInterval → g'.Marked p ∧
      (g'.profileRefcount p).toInt = (s.counts.profileRefcount p).toInt + (c'.profileRefcount p).toInt)
    (hcount : ∀ p, p ≠ .hidInterval → (c'.profileRefcount p).toInt = c'.type.link p) :
    Inv ⟨s.connHash ++ [c'], s.profileList, g'⟩ := by
  have hget : ∀ k, Keyed.get Conn.handle k (s.connHash ++ [c'])
      = (Keyed.get Conn.handle k s.connHash).or (if c'.handle = k then some c' else none) :=
    fun k => Keyed.get_append
  refine ⟨?_, fun p hp => (hg p hp).1, fun p hp => ?_, fun k b hb p hp => ?_, fun d hd hopen => ?_⟩
  · rw [Keyed.Distinct, List.map_append, List.map_singleton, ← List.concat_eq_append]
    refine List.Nodup.concat ?_ hs.distinct
    rw [hhandle]
    exact Keyed.get_eq_none_iff.mp hnone
  · rw [List.map_append, List.sum_append, ← hs.total p hp, (hg p hp).2]
    simp
  · rw [hget] at hb
    cases hold : Keyed.get Conn.handle k s.connHash with
    | some a =>
      rw [hold, Option.some_or] at hb
      cases hb
      exact hs.uses k b hold p hp
    | none =>
      rw [hold, Option.none_or] at hb
      split_ifs at hb with hk
      cases hb
      rw [hcount p hp, openChans_eq_zero (hs.not_open hold), add_zero]
  · obtain ⟨b, hb, hbt⟩ := hs.owned d hd hopen
    exact ⟨b, by rw [hget, hb, Option.some_or], hbt⟩

theorem drop (hc : Keyed.get Conn.handle h s.connHash = some c)
    (hg : ∀ p, p ≠ .hidInterval → g'.Marked p ∧
      (g'.profileRefcount p).toInt = (s.counts.profileRefcount p).toInt - (c.profileRefcount p).toInt)
    (hL : ∀ k p, k ≠ h → openChans L' k p = openChans s.profileList k p)
    (hown : ∀ d ∈ L', d.Open → d ∈ s.profileList ∧ d.handle ≠ h) :
    Inv ⟨Keyed.remove Conn.handle h s.connHash, L', g'⟩ := by
  refine ⟨hs.distinct.remove, fun p hp => (hg p hp).1, fun p hp => ?_, fun k b hb p hp => ?_, fun d hd hopen => ?_⟩
  · have hsum := Keyed.sum_remove (fun c => (c.profileRefcount p).toInt) hc
    have htotal := hs.total p hp
    have hgp := (hg p hp).2
    simp only at hsum ⊢
    omega
  · simp only [Keyed.get_remove hs.distinct] at hb
    split_ifs at hb with hk
    rw [hL k p hk]
    exact hs.uses k b hb p hp
  · obtain ⟨hold, hne⟩ := hown d hd hopen
    simp only [Keyed.get_remove hs.distinct, if_neg hne]
    exact hs.owned d hold hopen

end Inv

theorem disconnAcl_spec : ∀ {l : List ProfInfo} {g : Counts} {c : Conn},
    (∀ p, p ≠ .hidInterval → g.Marked p ∧ (c.profileRefcount p).toInt = openChans l h p ∧
      (c.profileRefcount p).toInt ≤ (g.profileRefcount p).toInt) →
    (disconnAcl h l (g, c)).1 = l.filter (fun d => ¬ (h = d.handle ∧ d.Open)) ∧
      ∀ p, p ≠ .hidInterval → (disconnAcl h l (g, c)).2.1.Marked p ∧
        ((disconnAcl h l (g, c)).2.1.profileRefcount p).toInt = (g.profileRefcount p).toInt - openChans l h p := by
  intro l
  induction l with
  | nil => exact fun hgc => ⟨rfl, fun p hp => ⟨(hgc p hp).1, by simp [openChans, disconnAcl]⟩⟩
  | cons d l ih =>
    intro g c hgc
    have hsum : ∀ p, openChans (d :: l) h p = openAt h p d + openChans l h p := fun p => List.sum_cons
    rw [disconnAcl]
    split_ifs with hd
    · -- the channel is released: its count is positive on the connection, so it is in the driver's
      have hat : ∀ p, openAt h p d = one d.profileIndex p := fun p => by
        rw [openAt_of_open hd.2, if_pos hd.1]
      have hpos : ∀ p, p ≠ .hidInterval → p = d.profileIndex → 0 < (c.profileRefcount p).toInt :=
        fun p hp hpd => by
          have hrest := openChans_nonneg (l := l) (h := h) (p := p)
          rw [(hgc p hp).2.1, hsum, hat, hpd, one_self]
          rw [hpd] at hrest
          omega
      have hend := fun (p : Profile) (hp : p ≠ .hidInterval) =>
        update_end (c := c) hp (hgc p hp).1 fun hpd => (hpos p hp hpd).trans_le (hgc p hp).2.2
      have hconn := fun (p : Profile) (hp : p ≠ .hidInterval) => update_end_conn (g := g) (hpos p hp)
      obtain ⟨hl, hrest⟩ := ih (g := (updateProfileConnection g c d.profileIndex false).1)
        (c := (updateProfileConnection g c d.profileIndex false).2) fun p hp => by
          refine ⟨(hend p hp).1, ?_, ?_⟩
          · rw [hconn p hp, (hgc p hp).2.1, hsum, hat]
            omega
          · rw [hconn p hp, (hend p hp).2]
            exact sub_le_sub_right (hgc p hp).2.2 _
      refine ⟨?_, fun p hp => ⟨(hrest p hp).1, ?_⟩⟩
      · rw [List.filter_cons_of_neg (by simpa using hd)]
        exact hl
      · rw [hsum, hat, ← sub_sub, ← (hend p hp).2]
        exact (hrest p hp).2
    · have hat : ∀ p, openAt h p d = 0 := fun p => if_neg fun hopen => hd ⟨hopen.1.symm, hopen.2.2⟩
      obtain ⟨hl, hrest⟩ := ih (g := g) (c := c) fun p hp => by
        have := hgc p hp
        rwa [hsum, hat, zero_add] at this
      refine ⟨?_, fun p hp => ?_⟩
      · rw [List.filter_cons_of_pos (by rw [decide_eq_true_eq]; exact hd), hl]
      · rw [hsum, hat, zero_add]
        exact hrest p hp

/-! ## Events -/

/-- What the events of a run have in common: small handles, and connections on handles that are free. -/
def Fresh (s : Coex) : Event → Prop
  | .connectionComplete status handle _ => handle < 0x100 ∧ (status = 0 → s.findConnectionByHandle handle = none)
  | .leConnectionComplete status handle _ => handle < 0x100 ∧ (status = 0 → s.findConnectionByHandle handle = none)
  | e => e.handle < 0x100

/-- A count that is raised is not at its end; a successful response completes a half-open channel of an ACL
connection, and none without a connection; a channel that is disconnected is open. -/
def Careful (s : Coex) : Event → Prop
  | .connectionComplete status _ linkType =>
    status = 0 → linkType = 0 ∨ linkType = 2 → s.counts.profileRefcount .sco ≠ 127
  | .leConnectionComplete status _ _ => status = 0 → s.counts.profileRefcount .hid ≠ 127
  | .l2capConRsp handle dcid scid result out =>
    result % 0x100 = 0 → ∀ d ∈ s.answered handle scid out,
      (∀ c ∈ s.findConnectionByHandle handle, c.type = .l2cap ∧ ¬ d.Open ∧ (complete dcid out d).Open ∧
        s.counts.profileRefcount d.profileIndex ≠ 127) ∧
      (s.findConnectionByHandle handle = none → ¬ (complete dcid out d).Open)
  | .l2capDisconReq handle dcid scid out =>
    ∀ d ∈ s.disconnected handle dcid scid out, ∀ _ ∈ s.findConnectionByHandle handle, d.Open
  | _ => True

instance {s : Coex} : DecidablePred (Fresh s)
  | .connectionComplete .. | .leConnectionComplete .. => inferInstanceAs (Decidable (_ ∧ _))
  | .leConnectionUpdateComplete .. | .disconnectComplete .. | .modeChange .. | .l2capConReq .. | .l2capConRsp ..
  | .l2capDisconReq .. => inferInstanceAs (Decidable (_ < _))

instance {s : Coex} : DecidablePred (Careful s)
  | .connectionComplete .. | .leConnectionComplete .. | .l2capConRsp .. => inferInstanceAs (Decidable (_ → _))
  | .l2capDisconReq handle dcid scid out =>
    inferInstanceAs (Decidable (∀ d ∈ s.disconnected handle dcid scid out, ∀ _ ∈ s.findConnectionByHandle handle, d.Open))
  | .leConnectionUpdateComplete .. | .disconnectComplete .. | .modeChange .. | .l2capConReq .. => .isTrue trivial

theorem and_eff (hh : h < 0x100) : h &&& 0xEFF = h :=
  (by decide +kernel : ∀ h < 0x100, h &&& 0xEFF = h) h hh

theorem and_fff (hh : h < 0x100) : h &&& 0xFFF = h :=
  (by decide +kernel : ∀ h < 0x100, h &&& 0xFFF = h) h hh

theorem toInt_lt_of_ne (ha : a ≠ 127) : a.toInt < 127 := by
  have hle := a.toInt_le
  have hne : a.toInt ≠ 127 := fun heq => ha (Int8.toInt_inj.mp heq)
  exact lt_of_le_of_ne hle hne

section Events

variable {s : Coex} {handle : Nat} {g : Counts} {n dcid scid status : Nat} {out : Bool}

theorem findConnection_eq (hh : handle < 0x100) :
    s.findConnectionByHandle handle = Keyed.get Conn.handle handle s.connHash := by
  rw [findConnectionByHandle, and_eff hh]

theorem putConnection_eq (hh : handle < 0x100) (gc : Counts × Conn) :
    s.putConnection handle gc = ⟨Keyed.modify Conn.handle handle (fun _ => gc.2) s.connHash, s.profileList, gc.1⟩ := by
  rw [putConnection, and_eff hh]

theorem hidActive_counts {p : Profile} (hp : p ≠ .hidInterval) :
    (hidActive g c n).1.profileRefcount p = g.profileRefcount p ∧
      (hidActive g c n).1.profileBitmap = g.profileBitmap := by
  unfold hidActive bump
  split_ifs <;> simp [Function.update_of_ne hp]

theorem hidActive_conn :
    (hidActive g c n).2.profileRefcount = c.profileRefcount ∧ (hidActive g c n).2.handle = c.handle ∧
      (hidActive g c n).2.type = c.type := by
  unfold hidActive
  split_ifs <;> exact ⟨rfl, rfl, rfl⟩

theorem Inv.updateHidActiveState (hs : Inv s) (hh : handle < 0x100) (n : Nat) :
    Inv (s.updateHidActiveState handle n) := by
  unfold Coex.updateHidActiveState
  cases hc : s.findConnectionByHandle handle with
  | none => exact hs
  | some c =>
    obtain ⟨hcount, hhandle, htype⟩ := hidActive_conn (g := s.counts) (c := c) (n := n)
    rw [findConnection_eq hh] at hc
    dsimp only
    rw [putConnection_eq hh]
    refine hs.put (δ := fun _ => 0) hc hhandle htype (fun p hp => ?_) (fun p _ => ?_) (fun k p => ?_)
      fun d hd _ => .inl hd
    · obtain ⟨hp1, hp2⟩ := hidActive_counts (g := s.counts) (c := c) (n := n) hp
      rw [Counts.Marked, hp1, hp2]
      exact ⟨hs.marked p hp, (add_zero _).symm⟩
    · rw [hcount, add_zero]
    · rw [ite_self, add_zero]

/-! ### L2CAP -/

theorem Inv.handleL2capConReq (hs : Inv s) (handle psm scid : Nat) (out : Bool) :
    Inv (s.handleL2capConReq handle psm scid out) := by
  -- the new channel has one identifier, so it is not open
  have hadd : ∀ d : ProfInfo, ¬ d.Open → Inv { s with profileList := s.profileList ++ [d] } := fun d hd => by
    have hsum : ∀ h p, openChans (s.profileList ++ [d]) h p = openChans s.profileList h p := fun h p => by
      rw [openChans, List.map_append, List.sum_append, List.map_singleton, List.sum_singleton, openAt_of_not_open hd,
        add_zero, openChans]
    refine ⟨hs.distinct, hs.marked, hs.total, fun h c hc p hp => ?_, fun b hb hopen => ?_⟩
    · rw [hsum]
      exact hs.uses h c hc p hp
    · rcases List.mem_append.mp hb with hb | hb
      · exact hs.owned b hb hopen
      · rw [List.mem_singleton.mp hb] at hopen
        exact absurd hopen hd
  unfold Coex.handleL2capConReq
  split
  · exact hs
  · split_ifs
    · split
      · exact hs
      · exact hadd _ fun hopen => hopen.2 rfl
    · split
      · exact hs
      · exact hadd _ fun hopen => hopen.1 rfl

theorem complete_handle (dcid : Nat) (out : Bool) (d : ProfInfo) : (complete dcid out d).handle = d.handle := by
  cases out <;> rfl

theorem complete_profileIndex (dcid : Nat) (out : Bool) (d : ProfInfo) :
    (complete dcid out d).profileIndex = d.profileIndex := by
  cases out <;> rfl

section Answer

variable {κ : Type} [DecidableEq κ] {key : ProfInfo → κ} {k : κ} {d : ProfInfo} {dcid : Nat} {out : Bool} {c : Conn}

theorem Inv.answer (hs : Inv s) (hd : Keyed.get key k s.profileList = some d) (hdh : d.handle = handle)
    (hc : Keyed.get Conn.handle handle s.connHash = some c) (htype : c.type = .l2cap) (hhalf : ¬ d.Open)
    (hopen : (complete dcid out d).Open) (hroom : s.counts.profileRefcount d.profileIndex ≠ 127) :
    Inv ⟨Keyed.modify Conn.handle handle
        (fun _ => (updateProfileConnection s.counts c d.profileIndex true).2) s.connHash,
      Keyed.modify key k (complete dcid out) s.profileList,
      (updateProfileConnection s.counts c d.profileIndex true).1⟩ := by
  have hlt : ∀ p, p = d.profileIndex → (s.counts.profileRefcount p).toInt < 127 := fun p hp =>
    toInt_lt_of_ne (hp ▸ hroom)
  refine hs.put (δ := one d.profileIndex) hc (update_handle _) (update_type _)
    (fun p hp => update_add (hs.marked p hp) (hlt p))
    (fun p hp => update_add_conn fun hpd => (hs.le_total hc hp).trans_lt (hlt p hpd)) (fun h p => ?_)
    fun b hb hbopen => ?_
  · have hsum := Keyed.sum_modify (f := complete dcid out) (openAt h p) hd
    rw [openAt_of_not_open hhalf, openAt_of_open hopen, complete_handle, complete_profileIndex, hdh, add_zero] at hsum
    exact hsum
  · rcases Keyed.mem_modify hb with hold | ⟨a, ha, rfl⟩
    · exact .inl hold
    · rw [hd] at ha
      cases ha
      exact .inr ⟨(complete_handle ..).trans hdh, htype⟩

theorem Inv.answer_none (hs : Inv s) (hd : Keyed.get key k s.profileList = some d) (hhalf : ¬ d.Open)
    (hstill : ¬ (complete dcid out d).Open) :
    Inv { s with profileList := Keyed.modify key k (complete dcid out) s.profileList } := by
  refine ⟨hs.distinct, hs.marked, hs.total, fun h c hc p hp => ?_, fun b hb hbopen => ?_⟩
  · have hsum := Keyed.sum_modify (f := complete dcid out) (openAt h p) hd
    rw [openAt_of_not_open hhalf, openAt_of_not_open hstill, add_zero, add_zero] at hsum
    exact (hs.uses h c hc p hp).trans (congrArg _ hsum.symm)
  · rcases Keyed.mem_modify hb with hold | ⟨a, ha, rfl⟩
    · exact hs.owned b hold hbopen
    · rw [hd] at ha
      cases ha
      exact absurd hbopen hstill

end Answer

theorem Inv.handleL2capConRsp {result : Nat} (hs : Inv s) (hh : handle < 0x100)
    (hcareful : Careful s (.l2capConRsp handle dcid scid result out)) :
    Inv (s.handleL2capConRsp handle dcid scid out result) := by
  unfold Coex.handleL2capConRsp
  split
  · exact hs
  next d hd =>
    by_cases hresult : result % 0x100 = 0
    · rw [if_pos hresult]
      obtain ⟨hconn, hnone⟩ := hcareful hresult d hd
      -- the two directions differ in the key only
      have hkey : ∀ {κ : Type} [DecidableEq κ] {key : ProfInfo → κ} {k : κ},
          Keyed.get key k s.profileList = some d → d.handle = handle →
          (s.findConnectionByHandle handle = none →
            Inv { s with profileList := Keyed.modify key k (complete dcid out) s.profileList }) ∧
          ∀ c, s.findConnectionByHandle handle = some c →
            Inv (Coex.putConnection { s with profileList := Keyed.modify key k (complete dcid out) s.profileList }
              handle (updateProfileConnection s.counts c d.profileIndex true)) := by
        intro κ _ key k hget hdh
        refine ⟨fun hc => ?_, fun c hc => ?_⟩
        · refine hs.answer_none hget (fun hopen => ?_) (hnone hc)
          rw [findConnection_eq hh] at hc
          exact hs.not_open hc d (Keyed.mem_of_get hget).1 hopen hdh
        · obtain ⟨htype, hhalf, hopen, hroom⟩ := hconn c hc
          rw [findConnection_eq hh] at hc
          rw [putConnection_eq hh]
          exact hs.answer hget hdh hc htype hhalf hopen hroom
      cases out with
      | false =>
        have hget : Keyed.get byScid (handle &&& 0xFFF, scid) s.profileList = some d := hd
        have hinv := hkey hget ((congrArg Prod.fst (Keyed.mem_of_get hget).2).trans (and_fff hh))
        dsimp only
        split
        next hc => exact hinv.1 hc
        next c hc => exact hinv.2 c hc
      | true =>
        have hget : Keyed.get byDcid (handle &&& 0xFFF, scid) s.profileList = some d := hd
        have hinv := hkey hget ((congrArg Prod.fst (Keyed.mem_of_get hget).2).trans (and_fff hh))
        dsimp only
        split
        next hc => exact hinv.1 hc
        next c hc => exact hinv.2 c hc
    · rw [if_neg hresult]
      exact hs

theorem disconnected_get {d : ProfInfo} (hh : handle < 0x100)
    (hd : s.disconnected handle dcid scid out = some d) :
    Keyed.get byDcidScid (byDcidScid d) s.profileList = some d ∧ d.handle = handle := by
  have hkey : ∀ k, Keyed.get byDcidScid (handle &&& 0xFFF, k) s.profileList = some d →
      Keyed.get byDcidScid (byDcidScid d) s.profileList = some d ∧ d.handle = handle := fun k hget => by
    have hdk := (Keyed.mem_of_get hget).2
    exact ⟨hdk ▸ hget, (congrArg Prod.fst hdk).trans (and_fff hh)⟩
  cases out with
  | false => exact hkey _ hd
  | true => exact hkey _ hd

variable (hs : Inv s)

include hs

theorem Inv.handleL2capDisconReq (hh : handle < 0x100)
    (hcareful : Careful s (.l2capDisconReq handle dcid scid out)) :
    Inv (s.handleL2capDisconReq handle dcid scid out) := by
  unfold Coex.handleL2capDisconReq
  split
  · exact hs
  next d hd =>
    split
    · exact hs
    next c hc =>
      have hopen := hcareful d hd c hc
      obtain ⟨hget, hdh⟩ := disconnected_get hh hd
      rw [findConnection_eq hh] at hc
      rw [putConnection_eq hh]
      dsimp only
      have hsum : ∀ h p, openChans (Keyed.remove byDcidScid (byDcidScid d) s.profileList) h p + openAt h p d
          = openChans s.profileList h p := fun h p => Keyed.sum_remove (openAt h p) hget
      have hat : ∀ h p, openAt h p d = if h = handle then one d.profileIndex p else 0 := fun h p => by
        rw [openAt_of_open hopen, hdh]
      have hpos : ∀ p, p ≠ .hidInterval → p = d.profileIndex → 0 < (c.profileRefcount p).toInt := fun p hp hpd => by
        have hrest := openChans_nonneg (l := Keyed.remove byDcidScid (byDcidScid d) s.profileList) (h := handle) (p := p)
        have hlink := link_nonneg (t := c.type) (p := p)
        have hone : openAt handle p d = 1 := by rw [hat, if_pos rfl, hpd, one_self]
        rw [hs.uses handle c hc p hp, ← hsum, hone]
        omega
      refine hs.put (δ := fun p => -one d.profileIndex p) hc (update_handle _) (update_type _) (fun p hp => ?_)
        (fun p hp => update_end_conn (hpos p hp)) (fun h p => ?_) fun b hb _ => .inl (Keyed.mem_of_mem_remove hb)
      · exact update_end hp (hs.marked p hp) fun hpd => (hpos p hp hpd).trans_le (hs.le_total hc hp)
      · rw [← hsum, hat]
        split_ifs <;> omega

theorem Inv.enter {t : ConnType} (hh : handle < 0x100)
    (hnone : s.findConnectionByHandle handle = none) (hlink : ∀ p, t.link p = one i p)
    (hroom : s.counts.profileRefcount i ≠ 127) :
    Inv (s.enter handle (updateProfileConnection s.counts (idle handle t) i true)) := by
  have hone : ∀ p, ((updateProfileConnection s.counts (idle handle t) i true).2.profileRefcount p).toInt = one i p :=
    fun p => by
      have hzero : ((idle handle t).profileRefcount p).toInt = 0 := Int8.toInt_zero
      rw [update_add_conn fun _ => by rw [hzero]; decide, hzero, zero_add]
  rw [Coex.enter, hnone]
  rw [findConnection_eq hh] at hnone
  refine hs.add hnone rfl (fun p hp => ?_) fun p _ => (hone p).trans (hlink p).symm
  rw [hone]
  exact update_add (hs.marked p hp) fun hpi => toInt_lt_of_ne (hpi ▸ hroom)

theorem Inv.rtkHandleConnectionCompleteEvt {linkType : Nat}
    (hfresh : Fresh s (.connectionComplete status handle linkType))
    (hcareful : Careful s (.connectionComplete status handle linkType)) :
    Inv (s.rtkHandleConnectionCompleteEvt status handle linkType) := by
  obtain ⟨hh, hnone⟩ := hfresh
  unfold Coex.rtkHandleConnectionCompleteEvt
  split_ifs with hstatus hsco
  · rw [hnone hstatus]
    exact hs.enter hh (hnone hstatus) (fun _ => rfl) (hcareful hstatus hsco)
  · have hn := hnone hstatus
    rw [Coex.enter, hn]
    rw [findConnection_eq hh] at hn
    exact hs.add hn rfl (fun p hp => ⟨hs.marked p hp, (add_zero _).symm⟩) fun _ _ => rfl
  · exact hs

theorem Inv.rtkHandleLeConnectionCompleteEvt {interval : Nat}
    (hfresh : Fresh s (.leConnectionComplete status handle interval))
    (hcareful : Careful s (.leConnectionComplete status handle interval)) :
    Inv (s.rtkHandleLeConnectionCompleteEvt status handle interval) := by
  obtain ⟨hh, hnone⟩ := hfresh
  unfold Coex.rtkHandleLeConnectionCompleteEvt
  split_ifs with hstatus
  · rw [hnone hstatus]
    exact (hs.enter hh (hnone hstatus) (fun _ => rfl) (hcareful hstatus)).updateHidActiveState hh interval
  · exact hs

theorem Inv.leave (hc : Keyed.get Conn.handle handle s.connHash = some c)
    (htype : c.type ≠ .l2cap) (hlink : ∀ p, c.type.link p = one i p) :
    Inv ⟨Keyed.remove Conn.handle handle s.connHash, s.profileList, (updateProfileConnection s.counts c i false).1⟩ := by
  have hown : ∀ d ∈ s.profileList, d.Open → d.handle ≠ handle := by
    rintro d hd hopen rfl
    obtain ⟨b, hb, hbt⟩ := hs.owned d hd hopen
    rw [hc] at hb
    cases hb
    exact htype hbt
  have hone : ∀ p, p ≠ .hidInterval → (c.profileRefcount p).toInt = one i p := fun p hp => by
    rw [hs.uses handle c hc p hp, hlink, openChans_eq_zero hown, add_zero]
  refine hs.drop hc (fun p hp => ?_) (fun _ _ _ => rfl) fun d hd hopen => ⟨hd, hown d hd hopen⟩
  rw [hone p hp]
  refine update_end hp (hs.marked p hp) fun hpi => lt_of_lt_of_le ?_ (hs.le_total hc hp)
  rw [hone p hp, hpi, one_self]
  decide

theorem Inv.rtkHandleDisconnectCompleteEvt (hh : handle < 0x100) (status : Nat) :
    Inv (s.rtkHandleDisconnectCompleteEvt status handle) := by
  unfold Coex.rtkHandleDisconnectCompleteEvt
  split_ifs
  · split
    · exact hs
    next c hc =>
      rw [findConnection_eq hh] at hc
      rw [and_eff hh]
      cases htype : c.type with
      | l2cap =>
        have huses : ∀ p, p ≠ .hidInterval → (c.profileRefcount p).toInt = openChans s.profileList handle p :=
          fun p hp => by rw [hs.uses handle c hc p hp, htype, ConnType.link, zero_add]
        obtain ⟨hl, hrest⟩ := disconnAcl_spec fun p hp => ⟨hs.marked p hp, huses p hp, hs.le_total hc hp⟩
        refine hs.drop hc (fun p hp => ?_) (fun k p hk => ?_) fun d hd hopen => ?_
        · rw [huses p hp]
          exact hrest p hp
        · -- the channels that were unlinked are of this handle
          rw [hl]
          refine openChans_filter fun d hd => if_neg fun hopen => ?_
          have hgone := not_not.mp (of_decide_eq_false hd)
          exact hk (hopen.1.symm.trans hgone.1.symm)
        · rw [hl] at hd
          obtain ⟨hmem, hkeep⟩ := List.mem_filter.mp hd
          exact ⟨hmem, fun heq => of_decide_eq_true hkeep ⟨heq.symm, hopen⟩⟩
      | scoEsco => exact hs.leave hc (by rw [htype]; decide) fun p => by rw [htype]; rfl
      | le => exact hs.leave hc (by rw [htype]; decide) fun p => by rw [htype]; rfl
  · exact hs

end Events

/-! ## Runs -/

theorem Inv.step {s : Coex} {e : Event} (hs : Inv s) (hfresh : Fresh s e) (hcareful : Careful s e) : Inv (step s e) := by
  cases e with
  | connectionComplete => exact hs.rtkHandleConnectionCompleteEvt hfresh hcareful
  | leConnectionComplete => exact hs.rtkHandleLeConnectionCompleteEvt hfresh hcareful
  | leConnectionUpdateComplete => exact hs.updateHidActiveState hfresh _
  | disconnectComplete => exact hs.rtkHandleDisconnectCompleteEvt hfresh _
  | modeChange => exact hs.updateHidActiveState hfresh _
  | l2capConReq => exact hs.handleL2capConReq ..
  | l2capConRsp handle =>
    rw [Bluetooth.step, and_fff (h := handle) hfresh]
    exact hs.handleL2capConRsp hfresh hcareful
  | l2capDisconReq handle =>
    rw [Bluetooth.step, and_fff (h := handle) hfresh]
    exact hs.handleL2capDisconReq hfresh hcareful

theorem Inv.run {events : List Event} : ∀ {s : Coex}, Inv s → Along Fresh s events → Along Careful s events →
    Inv (run s events) := by
  induction events with
  | nil => exact fun hs _ _ => hs
  | cons e es ih => exact fun hs hfresh hcareful => ih (hs.step hfresh.1 hcareful.1) hfresh.2 hcareful.2

/-- For each profile: the driver's count is the sum of the connections', and the bit says whether it is positive. -/
def Accounted (s : Coex) : Prop :=
  ∀ p ∈ [Profile.sco, .hid, .a2dp, .pan],
    (s.counts.profileRefcount p).toInt = (s.connHash.map fun c => (c.profileRefcount p).toInt).sum ∧
      0 ≤ (s.counts.profileRefcount p).toInt ∧
      (HasBit s.counts.profileBitmap p ↔ 0 < (s.counts.profileRefcount p).toInt)

/-- An A2DP channel opens and closes while a synchronous and a low-energy link come and go. -/
def headsetRun : List Event :=
  [.connectionComplete 0 1 1, .l2capConReq 1 0x19 0x40 true, .l2capConRsp 1 0x41 0x40 0 false,
   .leConnectionComplete 0 2 24, .connectionComplete 0 3 2, .modeChange 2 100, .l2capDisconReq 1 0x41 0x40 true,
   .disconnectComplete 0 2, .disconnectComplete 0 1]

/-- A channel that was asked for, and never answered, is disconnected. -/
def halfOpenRun : List Event :=
  [.connectionComplete 0 1 1, .l2capConReq 1 0x19 0x40 true, .l2capDisconReq 1 0 0x40 true]

end NasFirmware.Bluetooth
