import NasFirmware.Dot11k.Neighbors

/-!
# What a neighbour is read from

A beacon report carries the body of a frame as a subelement, and the body has elements. `colloect_neighbor_report` walks
over the elements of the body up to the end of all subelements, and looks at a fixed number of bytes of an element.
-/

namespace NasFirmware.Dot11k

/-- `mde`, `high_tp`, and the BSS load. -/
@[ext]
structure Reads where
  mde : Bool
  highTp : Bool
  bssLoad : ℕ × UInt8
  deriving DecidableEq

def Neighbor.reads (n : Neighbor) : Reads :=
  ⟨n.bssinfo &&& 0x400 != 0, n.bssinfo &&& 0x800 != 0, (n.staCount, n.channelUtilization)⟩

section

variable (iface : Iface) (r : Report)

/-- What the code finds at `q`, if an element starts there. -/
def mdeAt (q : ℕ) : Bool := r.subelements q == 54 && iface.ftEnable && r.matches iface.mdid (q + 2)

def highTpAt (q : ℕ) : Bool := r.subelements q == 45 && r.matches iface.htcap (q + 2)

def bssLoadAt (q : ℕ) : Option (ℕ × UInt8) :=
  if r.subelements q = 11 then
    some ((r.subelements (q + 2)).toNat + 256 * (r.subelements (q + 3)).toNat, r.subelements (q + 4))
  else none

def Reads.take (f : Reads) (q : ℕ) : Reads :=
  ⟨f.mde || mdeAt iface r q, f.highTp || highTpAt iface r q, (bssLoadAt r q).getD f.bssLoad⟩

end

/-! ## Elements -/

structure Element where
  id : UInt8
  payload : List UInt8

section

variable (r : Report)

def elementLen (q : ℕ) : ℕ := (r.subelements (q + 1)).toNat

def elementAt (q : ℕ) : Element :=
  ⟨r.subelements q, (List.range (elementLen r q)).map fun k => r.subelements (q + 2 + k)⟩

def walk (stop : ℕ) : ℕ → ℕ → List ℕ
  | 0, _ => []
  | fuel + 1, len =>
    if len + 2 ≤ stop ∧ len + 2 + elementLen r len ≤ stop then len :: walk stop fuel (len + 2 + elementLen r len)
    else []

/-- The frame body that is looked into: the first one, if only vendor specific subelements stand before it. -/
def frameBody : ℕ → ℕ → Option ℕ
  | 0, _ => none
  | fuel + 1, len =>
    if len + 2 ≤ r.subelementsLen.toNat ∧ len + 2 + elementLen r len ≤ r.subelementsLen.toNat then
      if r.subelements len = 1 then some len
      else if r.subelements len = 221 then frameBody fuel (len + 2 + elementLen r len)
      else none
    else none

def visited : List ℕ :=
  match frameBody r r.subelementsLen.toNat 0 with
  | none => []
  | some p => walk r r.subelementsLen.toNat r.subelementsLen.toNat (p + 14)

/-- The elements within the body, which has `12` bytes of fixed fields. -/
def within : List ℕ :=
  match frameBody r r.subelementsLen.toNat 0 with
  | none => []
  | some p => walk r (p + 2 + elementLen r p) r.subelementsLen.toNat (p + 14)

/-- **The complete elements of the body.** -/
def elements : List Element := (within r).map (elementAt r)

end

/-! ## What the code reads -/

variable {iface : Iface} {r : Report}

section

variable {n : Neighbor} {bit : UInt32} {fuel len : ℕ}

theorem or_and (a b c : UInt32) : (a ||| b) &&& c = (a &&& c) ||| (b &&& c) := by
  refine UInt32.toBitVec_inj.mp (BitVec.eq_of_getLsbD_eq fun i _ => ?_)
  simp [Bool.and_or_distrib_right]

theorem and_setBit {mask : UInt32} (h : bit &&& mask = 0) :
    (n.setBit bit).bssinfo &&& mask = n.bssinfo &&& mask := by
  unfold Neighbor.setBit
  rw [or_and, h, UInt32.or_zero]

theorem and_setBit_self (h : bit ≠ 0) : (n.setBit bit).bssinfo &&& bit ≠ 0 := by
  unfold Neighbor.setBit
  rw [or_and, UInt32.and_self]
  exact fun hzero => h (UInt32.or_eq_zero_iff.mp hzero).2

theorem reads_setBit (h₄ : bit &&& 0x400 = 0) (h₈ : bit &&& 0x800 = 0) :
    (n.setBit bit).reads = n.reads := by
  unfold Neighbor.reads
  rw [and_setBit h₄, and_setBit h₈]
  rfl

theorem reads_setCaps (n : Neighbor) (capInfo : UInt8) : (n.setCaps capInfo).reads = n.reads := by
  have hif : ∀ (p : Prop) [Decidable p] (n : Neighbor) (bit : UInt32), bit &&& 0x400 = 0 → bit &&& 0x800 = 0 →
      (if p then n.setBit bit else n).reads = n.reads := by
    intro p _ n bit h₄ h₈
    split_ifs
    · exact reads_setBit h₄ h₈
    · rfl
  unfold Neighbor.setCaps
  rw [hif _ _ _ (by decide) (by decide), hif _ _ _ (by decide) (by decide), hif _ _ _ (by decide) (by decide),
    hif _ _ _ (by decide) (by decide), hif _ _ _ (by decide) (by decide), hif _ _ _ (by decide) (by decide)]

theorem reads_setMde : (n.setBit 0x400).reads = { n.reads with mde := true } := by
  unfold Neighbor.reads
  rw [@and_setBit n 0x400 0x800 (by decide), bne_iff_ne.mpr (and_setBit_self (by decide))]
  rfl

theorem reads_setHighTp : (n.setBit 0x800).reads = { n.reads with highTp := true } := by
  unfold Neighbor.reads
  rw [@and_setBit n 0x800 0x400 (by decide), bne_iff_ne.mpr (and_setBit_self (by decide))]
  rfl

theorem reads_takeElement (n : Neighbor) (q : ℕ) : (takeElement iface r n q).reads = n.reads.take iface r q := by
  unfold takeElement Reads.take mdeAt highTpAt bssLoadAt
  by_cases h54 : r.subelements q = 54 ∧ iface.ftEnable
  · rw [if_pos h54, h54.1, h54.2]
    cases r.matches iface.mdid (q + 2) with
    | true =>
      rw [if_pos rfl, reads_setMde]
      simp
    | false => simp
  rw [if_neg h54]
  have hmde : (r.subelements q == 54 && iface.ftEnable) = false := by
    rw [Bool.eq_false_iff, Ne, Bool.and_eq_true, beq_iff_eq]
    exact h54
  rw [hmde, Bool.false_and, Bool.or_false]
  by_cases h45 : r.subelements q = 45
  · rw [if_pos h45, h45]
    cases r.matches iface.htcap (q + 2) with
    | true =>
      rw [if_pos rfl, reads_setHighTp]
      simp
    | false => simp
  rw [if_neg h45, beq_eq_false_iff_ne.mpr h45, Bool.false_and, Bool.or_false]
  split_ifs <;> rfl

theorem parseElements_eq (fuel len : ℕ) (n : Neighbor) : (parseElements iface r fuel len n).2 =
    (walk r r.subelementsLen.toNat fuel len).foldl (takeElement iface r) n := by
  induction fuel generalizing len n with
  | zero => rfl
  | succ fuel ih =>
    unfold parseElements walk elementLen
    by_cases hlen : len + 2 ≤ r.subelementsLen.toNat
    · by_cases hend : r.subelementsLen.toNat < len + 2 + (r.subelements (len + 1)).toNat
      · rw [if_pos hlen, if_pos hend, if_neg fun h => by omega]
        rfl
      · rw [if_pos hlen, if_neg hend, if_pos ⟨hlen, Nat.not_lt.mp hend⟩, ih]
        rfl
    · rw [if_neg hlen, if_neg fun h => hlen h.1]
      rfl

/-- The loop over the elements ends where another one would not be complete. -/
theorem parseElements_end (h : r.subelementsLen.toNat ≤ len + fuel) (n : Neighbor) :
    ¬ ((parseElements iface r fuel len n).1 + 2 ≤ r.subelementsLen.toNat ∧
      (parseElements iface r fuel len n).1 + 2 + elementLen r (parseElements iface r fuel len n).1
        ≤ r.subelementsLen.toNat) := by
  induction fuel generalizing len n with
  | zero =>
    unfold parseElements
    omega
  | succ fuel ih =>
    unfold parseElements
    dsimp only
    split_ifs with hlen hend
    · exact fun hle => Nat.not_le.mpr hend hle.2
    · exact ih (by omega) _
    · exact fun hle => hlen hle.1

theorem parseSubelements_of_end
    (h : ¬ (len + 2 ≤ r.subelementsLen.toNat ∧ len + 2 + elementLen r len ≤ r.subelementsLen.toNat)) (n : Neighbor) :
    parseSubelements iface r fuel len n = n := by
  cases fuel with
  | zero => rfl
  | succ fuel =>
    unfold parseSubelements
    dsimp only
    split_ifs with hlen hend
    all_goals first | rfl | exact absurd ⟨hlen, Nat.not_lt.mp hend⟩ h

theorem walk_eq_nil {stop : ℕ} (h : stop < len + 2) (fuel : ℕ) : walk r stop fuel len = [] := by
  cases fuel with
  | zero => rfl
  | succ fuel => exact if_neg fun hle => Nat.not_le.mpr h hle.1

theorem reads_parseSubelements (fuel len : ℕ) (n : Neighbor) : (parseSubelements iface r fuel len n).reads =
    List.foldl (Reads.take iface r) n.reads
      (match frameBody r fuel len with
      | none => []
      | some p => walk r r.subelementsLen.toNat r.subelementsLen.toNat (p + 14)) := by
  have hreads : ∀ (l : List ℕ) (n : Neighbor),
      (l.foldl (takeElement iface r) n).reads = l.foldl (Reads.take iface r) n.reads := by
    intro l
    induction l with
    | nil => exact fun _ => rfl
    | cons q l ih =>
      intro n
      rw [List.foldl_cons, List.foldl_cons, ih, reads_takeElement]
  induction fuel generalizing len n with
  | zero => rfl
  | succ fuel ih =>
    by_cases hin : len + 2 ≤ r.subelementsLen.toNat ∧ len + 2 + elementLen r len ≤ r.subelementsLen.toNat
    swap
    · rw [parseSubelements_of_end hin, frameBody, if_neg hin]
      rfl
    have hend : ¬ r.subelementsLen.toNat < len + 2 + (r.subelements (len + 1)).toNat := Nat.not_lt.mpr hin.2
    unfold parseSubelements frameBody
    rw [if_pos hin, if_pos hin.1, if_neg hend]
    by_cases hbody : r.subelements len = 1
    · rw [if_pos hbody, if_pos hbody]
      dsimp only
      by_cases hfixed : r.subelementsLen.toNat < len + 14
      · rw [if_pos hfixed, walk_eq_nil (by omega)]
        rfl
      · rw [if_neg hfixed, parseSubelements_of_end (parseElements_end (by omega) _), parseElements_eq, hreads,
          reads_setCaps]
    rw [if_neg hbody, if_neg hbody]
    by_cases hvendor : r.subelements len = 221
    · rw [if_pos hvendor, if_pos hvendor]
      exact ih _ _
    · rw [if_neg hvendor, if_neg hvendor]
      rfl

theorem foldl_take (l : List ℕ) (f : Reads) : l.foldl (Reads.take iface r) f =
    ⟨f.mde || l.any (mdeAt iface r), f.highTp || l.any (highTpAt iface r),
      (l.filterMap (bssLoadAt r)).getLast?.getD f.bssLoad⟩ := by
  induction l generalizing f with
  | nil => simp
  | cons q l ih =>
    rw [List.foldl_cons, ih]
    unfold Reads.take
    ext1
    · simp [Bool.or_assoc]
    · simp [Bool.or_assoc]
    · dsimp only
      rw [List.filterMap_cons]
      cases bssLoadAt r q with
      | none => rfl
      | some x =>
        rw [List.getLast?_cons]
        rfl

/-- **The fields come from the elements that are visited.** -/
theorem reads_newNeighbor (iface : Iface) (r : Report) : (newNeighbor iface r).reads =
    ⟨(visited r).any (mdeAt iface r), (visited r).any (highTpAt iface r),
      ((visited r).filterMap (bssLoadAt r)).getLast?.getD (0, 0)⟩ := by
  have hstart : (⟨r.bssid, 0x000E, r.opClass, r.channel, 0, 0, 0⟩ : Neighbor).reads = ⟨false, false, (0, 0)⟩ := by
    unfold Neighbor.reads
    dsimp only
    decide
  unfold newNeighbor
  rw [reads_parseSubelements, hstart]
  exact foldl_take (visited r) _

end

/-! ## What complete elements say -/

def Element.mde (iface : Iface) (e : Element) : Bool := e.id == 54 && iface.ftEnable && iface.mdid.isPrefixOf e.payload

def Element.highTp (iface : Iface) (e : Element) : Bool := e.id == 45 && iface.htcap.isPrefixOf e.payload

def Element.bssLoad (e : Element) : Option (ℕ × UInt8) :=
  if e.id = 11 then
    match e.payload with
    | a :: b :: c :: _ => some (a.toNat + 256 * b.toNat, c)
    | _ => none
  else none

/-- The fields as a list of elements says: some element is ours; the last load counts. -/
def Reads.ofElements (iface : Iface) (l : List Element) : Reads :=
  ⟨l.any (·.mde iface), l.any (·.highTp iface), (l.filterMap Element.bssLoad).getLast?.getD (0, 0)⟩

/-- **Whatever is found in the elements that are visited, complete elements of the body say as well.** -/
structure Covered (iface : Iface) (r : Report) : Prop where
  mde : ∀ q ∈ visited r, mdeAt iface r q = true → ∃ e ∈ elements r, e.mde iface = true
  highTp : ∀ q ∈ visited r, highTpAt iface r q = true → ∃ e ∈ elements r, e.highTp iface = true
  bssLoad : ∀ x, ((visited r).filterMap (bssLoadAt r)).getLast? = some x →
    x = ((elements r).filterMap Element.bssLoad).getLast?.getD (0, 0)

section

variable {q : ℕ}

theorem matches_of_prefix {bs : List UInt8} (h : bs.isPrefixOf (elementAt r q).payload = true) :
    r.matches bs (q + 2) = true := by
  have hprefix : bs <+: (elementAt r q).payload := List.isPrefixOf_iff_prefix.mp h
  have hlen := hprefix.length_le
  have htake := List.prefix_iff_eq_take.mp hprefix
  unfold elementAt at hlen htake
  rw [List.length_map, List.length_range] at hlen
  rw [← List.map_take, List.take_range, Nat.min_eq_left hlen] at htake
  exact decide_eq_true htake.symm

theorem mdeAt_of_mde (h : (elementAt r q).mde iface = true) : mdeAt iface r q = true := by
  obtain ⟨hid, hprefix⟩ := Bool.and_eq_true_iff.mp h
  exact Bool.and_eq_true_iff.mpr ⟨hid, matches_of_prefix hprefix⟩

theorem highTpAt_of_highTp (h : (elementAt r q).highTp iface = true) : highTpAt iface r q = true := by
  obtain ⟨hid, hprefix⟩ := Bool.and_eq_true_iff.mp h
  exact Bool.and_eq_true_iff.mpr ⟨hid, matches_of_prefix hprefix⟩

theorem bssLoadAt_of_bssLoad {x : ℕ × UInt8} (h : (elementAt r q).bssLoad = some x) : bssLoadAt r q = some x := by
  unfold Element.bssLoad elementAt at h
  unfold bssLoadAt
  split_ifs at h ⊢ with hid
  generalize elementLen r q = m at h
  match m with
  | 0 | 1 | 2 => cases h
  | m + 3 =>
    rw [List.range_succ_eq_map, List.range_succ_eq_map, List.range_succ_eq_map] at h
    exact h

/-! ## The body and the walk -/

theorem frameBody_le {fuel len p : ℕ} (h : frameBody r fuel len = some p) :
    p + 2 + elementLen r p ≤ r.subelementsLen.toNat := by
  induction fuel generalizing len with
  | zero => cases h
  | succ fuel ih =>
    unfold frameBody at h
    split_ifs at h with hin
    · cases h
      exact hin.2
    · exact ih h

theorem mem_walk {stop stop' : ℕ} (hle : stop ≤ stop') {fuel len : ℕ} (h : q ∈ walk r stop fuel len) :
    q ∈ walk r stop' fuel len := by
  induction fuel generalizing len with
  | zero => cases h
  | succ fuel ih =>
    unfold walk at h ⊢
    split_ifs at h with hin
    · rw [if_pos ⟨hin.1.trans hle, hin.2.trans hle⟩]
      exact (List.mem_cons.mp h).elim (fun heq => heq ▸ List.mem_cons_self) fun h => List.mem_cons_of_mem _ (ih h)
    · cases h

theorem mem_visited (h : q ∈ within r) : q ∈ visited r := by
  unfold within at h
  unfold visited
  cases hbody : frameBody r r.subelementsLen.toNat 0 with
  | none =>
    rw [hbody] at h
    cases h
  | some p =>
    rw [hbody] at h
    exact mem_walk (frameBody_le hbody) h

theorem mem_elements {e : Element} (h : e ∈ elements r) : ∃ q ∈ visited r, elementAt r q = e := by
  obtain ⟨q, hq, rfl⟩ := List.mem_map.mp h
  exact ⟨q, mem_visited hq, rfl⟩

theorem bssLoad_eq_nil (h : ((visited r).filterMap (bssLoadAt r)).getLast? = none) :
    (elements r).filterMap Element.bssLoad = [] := by
  rw [List.getLast?_eq_none_iff, List.filterMap_eq_nil_iff] at h
  refine List.filterMap_eq_nil_iff.mpr fun e he => ?_
  obtain ⟨q, hq, rfl⟩ := mem_elements he
  cases hload : (elementAt r q).bssLoad with
  | none => rfl
  | some x => cases (h q hq).symm.trans (bssLoadAt_of_bssLoad hload)

end

theorem any_eq_any_iff {α β : Type} {l : List α} {l' : List β} {f : α → Bool} {g : β → Bool}
    (hsub : ∀ b ∈ l', g b = true → ∃ a ∈ l, f a = true) :
    l.any f = l'.any g ↔ ∀ a ∈ l, f a = true → ∃ b ∈ l', g b = true := by
  rw [Bool.eq_iff_iff, List.any_eq_true, List.any_eq_true]
  refine ⟨fun h a ha hf => h.mp ⟨a, ha, hf⟩, fun h => ⟨fun ⟨a, ha, hf⟩ => h a ha hf, fun ⟨b, hb, hg⟩ => ?_⟩⟩
  exact hsub b hb hg

theorem reads_eq_iff (iface : Iface) (r : Report) :
    (newNeighbor iface r).reads = .ofElements iface (elements r) ↔ Covered iface r := by
  have hmde : (visited r).any (mdeAt iface r) = (elements r).any (·.mde iface) ↔ _ := any_eq_any_iff fun e he h => by
    obtain ⟨q, hq, rfl⟩ := mem_elements he
    exact ⟨q, hq, mdeAt_of_mde h⟩
  have hhighTp : (visited r).any (highTpAt iface r) = (elements r).any (·.highTp iface) ↔ _ :=
    any_eq_any_iff fun e he h => by
      obtain ⟨q, hq, rfl⟩ := mem_elements he
      exact ⟨q, hq, highTpAt_of_highTp h⟩
  rw [reads_newNeighbor]
  unfold Reads.ofElements
  rw [Reads.mk.injEq, hmde, hhighTp]
  refine ⟨fun ⟨h₁, h₂, h₃⟩ => ⟨h₁, h₂, fun x hx => ?_⟩, fun h => ⟨h.mde, h.highTp, ?_⟩⟩
  · rw [hx] at h₃
    exact h₃
  · cases hlast : ((visited r).filterMap (bssLoadAt r)).getLast? with
    | none =>
      rw [bssLoad_eq_nil hlast]
      rfl
    | some x => exact h.bssLoad x hlast

/-- A frame body without elements, and behind it a subelement with the bytes of a BSS load. -/
def laterLoad (count utilization : UInt8) : Report :=
  ⟨81, 6, [2, 0, 0, 0, 0, 1], 19,
    fun k => [1, 12, 0, 0, 0, 0, 0, 0, 0, 0, 0, 0, 0, 0, 11, 3, count, 0, utilization].getD k 0⟩

end NasFirmware.Dot11k
