import NasFirmware.Nand.Model

/-!
# Reading back what was written

A page whose program fails is not written again: the driver records a block, erases it and goes on with
the next page, and the request still succeeds. So the bytes are read back exactly when no program fails.
-/

namespace NasFirmware.Nand

variable {g : Geometry} {f : Faults}

section Pages

theorem pagesOf_flatten {pages : List (List UInt8)} (h : ∀ p ∈ pages, p.length = g.pageSize) :
    pagesOf g pages.flatten = pages := by
  induction pages with
  | nil => rw [pagesOf, List.flatten_nil, List.length_nil, Nat.zero_div, List.range_zero, List.map_nil]
  | cons p pages ih =>
    have hp : p.length = g.pageSize := h p List.mem_cons_self
    have ih := ih fun q hq => h q (List.mem_cons_of_mem _ hq)
    have hlen : (p :: pages).flatten.length / g.pageSize = pages.flatten.length / g.pageSize + 1 := by
      rw [List.flatten_cons, List.length_append, hp, Nat.add_comm, Nat.add_div_right _ g.pageSize_pos]
    rw [pagesOf, hlen, List.range_succ_eq_map, List.map_cons, List.map_map, List.flatten_cons,
      Nat.zero_mul, List.drop_zero, ← hp, List.take_left]
    refine congrArg (p :: ·) (Eq.trans ?_ ih)
    rw [pagesOf, ← hp]
    refine List.map_congr_left fun k _ => ?_
    rw [Function.comp_apply, Nat.succ_mul, Nat.add_comm, ← List.drop_drop, List.drop_left]

theorem length_of_mem_pagesOf {buf p : List UInt8} (h : p ∈ pagesOf g buf) : p.length = g.pageSize := by
  obtain ⟨k, hk, rfl⟩ := List.mem_map.mp h
  have hk := List.mem_range.mp hk
  have hle : (k + 1) * g.pageSize ≤ buf.length :=
    (Nat.mul_le_mul_right _ hk).trans (Nat.div_mul_le_self ..)
  rw [Nat.succ_mul] at hle
  rw [List.length_take, List.length_drop]
  omega

theorem length_pagesOf (buf : List UInt8) : (pagesOf g buf).length = buf.length / g.pageSize := by
  rw [pagesOf, List.length_map, List.length_range]

theorem flatten_pagesOf {n : ℕ} {buf : List UInt8} (h : buf.length = n * g.pageSize) :
    (pagesOf g buf).flatten = buf := by
  have hdiv : buf.length / g.pageSize = n := by rw [h, Nat.mul_div_cancel _ g.pageSize_pos]
  rw [pagesOf, hdiv]
  clear hdiv
  induction n generalizing buf with
  | zero =>
    rw [Nat.zero_mul] at h
    rw [List.eq_nil_of_length_eq_zero h]
    rfl
  | succ n ih =>
    rw [Nat.succ_mul] at h
    have hdrop : (buf.drop g.pageSize).length = n * g.pageSize := by
      rw [List.length_drop]
      omega
    have ih := ih hdrop
    rw [List.range_succ_eq_map, List.map_cons, List.map_map, List.flatten_cons, Nat.zero_mul,
      List.drop_zero]
    refine Eq.trans (congrArg (buf.take g.pageSize ++ ·) (Eq.trans ?_ ih)) (List.take_append_drop ..)
    refine congrArg List.flatten (List.map_congr_left fun k _ => ?_)
    rw [Function.comp_apply, List.drop_drop, Nat.succ_mul, Nat.add_comm]

end Pages

/-! ## The physical pages of a request -/

section Walk

variable (g : Geometry) (bbt : List BBt)

def walk : ℕ → Cursor → List (ℕ × ℕ)
  | 0, _ => []
  | n + 1, c =>
    let c := lookupRemap bbt c
    (c.activeChip, c.page g) :: walk n (c.advance g 1 (n ≠ 0))

variable {g bbt} {as : List (ℕ × ℕ)} {pages : List (List UInt8)} {a : ℕ × ℕ}

theorem length_walk (n : ℕ) (c : Cursor) : (walk g bbt n c).length = n := by
  induction n generalizing c with
  | zero => rfl
  | succ n ih => exact congrArg (· + 1) (ih _)

def storeAt (m : ℕ → ℕ → List UInt8) (a : ℕ × ℕ) (data : List UInt8) : ℕ → ℕ → List UInt8 :=
  fun d p => if d = a.1 ∧ p = a.2 then data else m d p

def storeAll (m : ℕ → ℕ → List UInt8) : List (ℕ × ℕ) → List (List UInt8) → ℕ → ℕ → List UInt8
  | a :: as, data :: rest => storeAll (storeAt m a data) as rest
  | _, _ => m

theorem storeAll_of_notMem {m : ℕ → ℕ → List UInt8} (h : a ∉ as) : storeAll m as pages a.1 a.2 = m a.1 a.2 := by
  induction as generalizing m pages with
  | nil => rfl
  | cons b as ih =>
    cases pages with
    | nil => rfl
    | cons data rest =>
      refine (ih fun hmem => h (List.mem_cons_of_mem _ hmem)).trans (if_neg ?_)
      exact fun heq => h (Prod.ext heq.1 heq.2 ▸ List.mem_cons_self)

theorem map_storeAll (hlen : as.length = pages.length)
    (hnd : as.Nodup) (m : ℕ → ℕ → List UInt8) :
    as.map (fun a => storeAll m as pages a.1 a.2) = pages := by
  induction as generalizing m pages with
  | nil => exact (List.eq_nil_of_length_eq_zero hlen.symm).symm
  | cons a as ih =>
    cases pages with
    | nil => cases hlen
    | cons data rest =>
      have ⟨hnot, hnd⟩ := List.nodup_cons.mp hnd
      refine congrArg₂ List.cons ?_ (ih (Nat.succ.inj hlen) hnd (storeAt m a data))
      exact (storeAll_of_notMem hnot).trans (if_pos ⟨rfl, rfl⟩)

theorem storeAll_mem (hlen : as.length = pages.length) (ha : a ∈ as) (m : ℕ → ℕ → List UInt8) : storeAll m as pages a.1 a.2 ∈ pages := by
  induction as generalizing m pages with
  | nil => cases ha
  | cons b as ih =>
    cases pages with
    | nil => cases hlen
    | cons data rest =>
      by_cases hmem : a ∈ as
      · exact List.mem_cons_of_mem _ (ih (Nat.succ.inj hlen) hmem _)
      · have hab : a = b := (List.mem_cons.mp ha).resolve_right hmem
        refine List.mem_cons.mpr (Or.inl ((storeAll_of_notMem hmem).trans (if_pos ?_)))
        exact ⟨congrArg Prod.fst hab, congrArg Prod.snd hab⟩

end Walk

section Loops

variable {pagePpb : ℕ} {w : Writing}

theorem writePass_ok (h : w.nand.report f = .ok) (data : List UInt8) :
    writePass g f pagePpb data w = .ok { w with
      nand := { w.nand with
        page := storeAt w.nand.page ((lookupRemap w.nand.bbt w.cur).activeChip,
          (lookupRemap w.nand.bbt w.cur).page g) data
        log := w.nand.log ++ [.program (lookupRemap w.nand.bbt w.cur).activeChip
          ((lookupRemap w.nand.bbt w.cur).page g)] }
      cur := lookupRemap w.nand.bbt w.cur } := by
  simp only [writePass, writeEccPage, h, if_true]
  rfl

/-- A write without failures stores every page where its cursor leads. -/
theorem writeLoop_ok {pages : List (List UInt8)}
    (hok : ∀ k < pages.length, f.rc (w.nand.log.length + k) = .ok) :
    ∃ w', writeLoop g f pagePpb pages w = .ok w' ∧ w'.nand.bbt = w.nand.bbt ∧
      w'.nand.page = storeAll w.nand.page (walk g w.nand.bbt pages.length w.cur) pages := by
  induction pages generalizing w with
  | nil => exact ⟨w, rfl, rfl, rfl⟩
  | cons data rest ih =>
    have hnow : w.nand.report f = .ok := hok 0 (Nat.succ_pos _)
    rw [writeLoop, writePass_ok hnow]
    have hlater : ∀ k < rest.length, f.rc ((w.nand.log ++ [Op.program
        (lookupRemap w.nand.bbt w.cur).activeChip ((lookupRemap w.nand.bbt w.cur).page g)]).length + k) =
        .ok := by
      intro k hk
      rw [List.length_append, List.length_singleton, Nat.add_assoc, Nat.add_comm 1 k]
      exact hok (k + 1) (Nat.succ_lt_succ hk)
    obtain ⟨w', hw', hbbt, hpage⟩ := ih (w := { w with
      nand := { w.nand with
        page := storeAt w.nand.page ((lookupRemap w.nand.bbt w.cur).activeChip,
          (lookupRemap w.nand.bbt w.cur).page g) data
        log := w.nand.log ++ [.program (lookupRemap w.nand.bbt w.cur).activeChip
          ((lookupRemap w.nand.bbt w.cur).page g)] }
      cur := (lookupRemap w.nand.bbt w.cur).advance g 1 (decide (rest ≠ [])) }) hlater
    refine ⟨w', hw', hbbt, hpage.trans ?_⟩
    have hmore : decide (rest ≠ []) = decide (rest.length ≠ 0) :=
      decide_eq_decide.mpr (not_congr List.length_eq_zero_iff.symm)
    rw [hmore]
    rfl

theorem readLoop_ok {n : ℕ} {s : Nand} {c : Cursor} (hok : ∀ k, s.log.length ≤ k → f.rc k = .ok) :
    ∃ s', readLoop g f pagePpb n s c =
      .ok (((walk g s.bbt n c).map fun a => s.page a.1 a.2).flatten, s') := by
  induction n generalizing s c with
  | zero => exact ⟨s, rfl⟩
  | succ n ih =>
    have hnow : s.report f = .ok := hok _ le_rfl
    have hpass : readPass g f pagePpb s c =
        .ok (s.page (lookupRemap s.bbt c).activeChip ((lookupRemap s.bbt c).page g),
          { s with log := s.log ++ [.read (lookupRemap s.bbt c).activeChip ((lookupRemap s.bbt c).page g)] },
          lookupRemap s.bbt c) := by
      simp [readPass, readEccPage, hnow]
    obtain ⟨s', hs'⟩ := ih
      (s := { s with log := s.log ++ [.read (lookupRemap s.bbt c).activeChip ((lookupRemap s.bbt c).page g)] })
      fun k hk => hok k (by rw [List.length_append] at hk; omega)
    refine ⟨s', ?_⟩
    rw [readLoop, hpass]
    dsimp only
    rw [hs']
    rfl

theorem writePass_forgets (h : w.nand.report f ≠ .ok) (data data' : List UInt8) :
    writePass g f pagePpb data w = writePass g f pagePpb data' w := by
  simp [writePass, writeEccPage, if_neg h]

/-- The bytes of the first page whose program fails make no difference to anything. -/
theorem writeLoop_forgets {before after : List (List UInt8)} (data data' : List UInt8)
    (hok : ∀ k < before.length, f.rc (w.nand.log.length + k) = .ok)
    (hfail : f.rc (w.nand.log.length + before.length) ≠ .ok) :
    writeLoop g f pagePpb (before ++ data :: after) w =
      writeLoop g f pagePpb (before ++ data' :: after) w := by
  induction before generalizing w with
  | nil => rw [List.nil_append, List.nil_append, writeLoop, writeLoop, writePass_forgets hfail data data']
  | cons first before ih =>
    have hnow : w.nand.report f = .ok := hok 0 (Nat.succ_pos _)
    have hmore : ∀ d : List UInt8, decide (before ++ d :: after ≠ []) = true := fun d =>
      decide_eq_true (List.append_ne_nil_of_right_ne_nil _ (List.cons_ne_nil _ _))
    rw [List.cons_append, List.cons_append, writeLoop, writeLoop, writePass_ok hnow]
    rw [hmore, hmore]
    apply ih
    · intro k hk
      rw [List.length_append, List.length_singleton, Nat.add_assoc, Nat.add_comm 1 k]
      exact hok (k + 1) (Nat.succ_lt_succ hk)
    · rw [List.length_append, List.length_singleton, Nat.add_assoc, Nat.add_comm 1]
      exact hfail

end Loops

/-! ## Requests -/

section Requests

variable {s : Nand} {addr len : ℕ} {buf : List UInt8}

def Admissible (g : Geometry) (addr len : ℕ) : Prop := beyond g addr len = false ∧ notAligned g addr len = false

/-- If the write succeeds, a read without failures returns the bytes. -/
def ReadsBack (g : Geometry) (f : Faults) (s : Nand) (addr : ℕ) (buf : List UInt8) : Prop :=
  ∀ retlen, (nandWriteEcc g f s addr buf retlen).ret = 0 →
    (nandWriteEcc g f s addr buf retlen).retlen = buf.length →
    ∀ f' : Faults, (∀ k, (nandWriteEcc g f s addr buf retlen).nand.log.length ≤ k → f'.rc k = .ok) →
    ∀ retlen', ∃ s',
      nandReadEcc g f' (nandWriteEcc g f s addr buf retlen).nand addr buf.length retlen' =
        ⟨0, buf.length, buf, s'⟩

theorem nandWriteEcc_eq (h : Admissible g addr buf.length) (retlen : ℕ) :
    nandWriteEcc g f s addr buf retlen =
      match writeLoop g f (Cursor.start g addr).block (pagesOf g buf) (Writing.start g s addr) with
      | .ok w => ⟨0, buf.length, [], w.nand⟩
      | .error s => ⟨-1, 0, [], s⟩ := by
  rw [nandWriteEcc, h.1, h.2]
  rfl

theorem nandReadEcc_eq (h : Admissible g addr len) (retlen : ℕ) :
    nandReadEcc g f s addr len retlen =
      match readLoop g f (Cursor.start g addr).block (len / g.pageSize) s (Cursor.start g addr) with
      | .ok (data, s) => ⟨0, len, data, s⟩
      | .error s => ⟨-1, 0, [], s⟩ := by
  rw [nandReadEcc, h.1, h.2]
  rfl

theorem admissible_of_ret {retlen : ℕ}
    (h : (nandWriteEcc g f s addr buf retlen).ret = 0) : Admissible g addr buf.length := by
  unfold nandWriteEcc at h
  split at h
  · exact absurd (show (-22 : ℤ) = 0 from h) (by decide)
  · split at h
    · exact absurd (show (-22 : ℤ) = 0 from h) (by decide)
    · rename_i hbeyond haligned
      exact ⟨Bool.eq_false_of_not_eq_true hbeyond, Bool.eq_false_of_not_eq_true haligned⟩

theorem Admissible.length_eq (h : Admissible g addr len) : len = len / g.pageSize * g.pageSize := by
  have hor := of_decide_eq_false h.2
  have hlen : len % g.pageSize = 0 := by
    by_contra hne
    exact hor (Or.inr hne)
  exact (Nat.div_mul_cancel (Nat.dvd_of_mod_eq_zero hlen)).symm

theorem read_after_write (h : Admissible g addr buf.length)
    (hok : ∀ k < buf.length / g.pageSize, f.rc (s.log.length + k) = .ok) (retlen : ℕ) :
    (nandWriteEcc g f s addr buf retlen).ret = 0 ∧
      (nandWriteEcc g f s addr buf retlen).retlen = buf.length ∧
      ∀ f' : Faults, (∀ k, (nandWriteEcc g f s addr buf retlen).nand.log.length ≤ k → f'.rc k = .ok) →
        ∀ retlen', ∃ s',
          nandReadEcc g f' (nandWriteEcc g f s addr buf retlen).nand addr buf.length retlen' =
            ⟨0, buf.length, ((walk g s.bbt (buf.length / g.pageSize) (Cursor.start g addr)).map fun a =>
              storeAll s.page (walk g s.bbt (buf.length / g.pageSize) (Cursor.start g addr))
                (pagesOf g buf) a.1 a.2).flatten, s'⟩ := by
  obtain ⟨w, hw, hbbt, hpage⟩ : ∃ w, writeLoop g f (Cursor.start g addr).block (pagesOf g buf)
      (Writing.start g s addr) = .ok w ∧ w.nand.bbt = s.bbt ∧
        w.nand.page = storeAll s.page (walk g s.bbt (pagesOf g buf).length (Cursor.start g addr))
          (pagesOf g buf) :=
    writeLoop_ok (by rwa [length_pagesOf])
  rw [nandWriteEcc_eq h, hw]
  refine ⟨rfl, rfl, fun f' hf' retlen' => ?_⟩
  obtain ⟨s', hs'⟩ : ∃ s', readLoop g f' (Cursor.start g addr).block (buf.length / g.pageSize) w.nand
      (Cursor.start g addr) = .ok (((walk g w.nand.bbt (buf.length / g.pageSize)
        (Cursor.start g addr)).map fun a => w.nand.page a.1 a.2).flatten, s') :=
    readLoop_ok hf'
  refine ⟨s', ?_⟩
  rw [nandReadEcc_eq h, hs', hbbt, hpage, length_pagesOf]

theorem exists_other_page {p : List UInt8} (h : p.length = g.pageSize) :
    ∃ q : List UInt8, q.length = g.pageSize ∧ q ≠ p := by
  refine ⟨p.map fun b => if b = 0 then 1 else 0, by rw [List.length_map, h], fun heq => ?_⟩
  cases p with
  | nil => exact absurd h g.pageSize_pos.ne
  | cons b p =>
    have hb : (if b = 0 then (1 : UInt8) else 0) = b := (List.cons.inj heq).1
    by_cases hzero : b = 0
    · rw [hzero] at hb
      exact absurd hb (by decide)
    · rw [if_neg hzero] at hb
      exact hzero hb.symm

def noFaults : Faults := ⟨fun _ => .ok, fun _ _ => [], fun _ _ => true⟩

theorem ReadsBack.read (h : ReadsBack g f s addr buf)
    (hret : (nandWriteEcc g f s addr buf 0).ret = 0) :
    (nandReadEcc g noFaults (nandWriteEcc g f s addr buf 0).nand addr buf.length 0).data = buf := by
  have hadm := admissible_of_ret hret
  have hlen : (nandWriteEcc g f s addr buf 0).retlen = buf.length := by
    rw [nandWriteEcc_eq hadm] at hret ⊢
    split
    · rfl
    · rename_i heq
      rw [heq] at hret
      exact absurd (show (-1 : ℤ) = 0 from hret) (by decide)
  obtain ⟨s', hs'⟩ := h 0 hret hlen noFaults (fun _ _ => rfl) 0
  rw [hs']

theorem ReadsBack.no_failure (h : ∀ buf', buf'.length = buf.length → ReadsBack g f s addr buf')
    (hret : (nandWriteEcc g f s addr buf 0).ret = 0) {k : ℕ} (hk : k < buf.length / g.pageSize)
    (hok : ∀ j < k, f.rc (s.log.length + j) = .ok) : f.rc (s.log.length + k) = .ok := by
  by_contra hfail
  have hadm := admissible_of_ret hret
  have hpages : (pagesOf g buf).flatten = buf := flatten_pagesOf hadm.length_eq
  rw [← length_pagesOf (g := g)] at hk
  obtain ⟨before, data, after, hsplit, hbefore⟩ :
      ∃ before data after, pagesOf g buf = before ++ data :: after ∧ before.length = k :=
    ⟨_, _, _, (List.take_append_drop k _).symm.trans (congrArg _ (List.drop_eq_getElem_cons hk)),
      List.length_take_of_le hk.le⟩
  have hall : ∀ p ∈ before ++ data :: after, p.length = g.pageSize := fun p hp =>
    length_of_mem_pagesOf (hsplit ▸ hp)
  have hdata : data.length = g.pageSize := hall data (List.mem_append_right _ List.mem_cons_self)
  obtain ⟨data', hdata', hne⟩ := exists_other_page hdata
  have hall' : ∀ p ∈ before ++ data' :: after, p.length = g.pageSize := by
    intro p hp
    rcases List.mem_append.mp hp with hp | hp
    · exact hall p (List.mem_append_left _ hp)
    · rcases List.mem_cons.mp hp with rfl | hp
      · exact hdata'
      · exact hall p (List.mem_append_right _ (List.mem_cons_of_mem _ hp))
  have hlen : (before ++ data' :: after).flatten.length = buf.length := by
    rw [← hpages, hsplit, List.flatten_append, List.flatten_append, List.flatten_cons, List.flatten_cons,
      List.length_append, List.length_append, List.length_append, List.length_append, hdata, hdata']
  -- both requests end in the same state, so the same bytes are read
  have hsame : nandWriteEcc g f s addr (before ++ data' :: after).flatten 0 = nandWriteEcc g f s addr buf 0 := by
    rw [nandWriteEcc_eq hadm, nandWriteEcc_eq (hlen ▸ hadm), pagesOf_flatten hall', hlen, hsplit,
      writeLoop_forgets data' data (by rwa [hbefore]) (by rwa [hbefore])]
  have hread := (h buf rfl).read hret
  have hread' := (h _ hlen).read (hsame ▸ hret)
  rw [hsame, hlen, hread] at hread'
  have heq := congrArg (pagesOf g) hread'
  rw [pagesOf_flatten hall', hsplit] at heq
  exact hne (List.cons.inj (List.append_cancel_left heq)).1.symm

theorem ReadsBack.nodup (h : ∀ buf, buf.length = len → ReadsBack g f s addr buf)
    (hadm : Admissible g addr len) (hok : ∀ k < len / g.pageSize, f.rc (s.log.length + k) = .ok) :
    (walk g s.bbt (len / g.pageSize) (Cursor.start g addr)).Nodup := by
  refine List.nodup_iff_getElem?_ne_getElem?.mpr fun i j hij hj heq => ?_
  rw [length_walk] at hj
  -- page `j` is written with ones, the others with zeros
  obtain ⟨pages, hpages⟩ : ∃ pages, pages = (List.range (len / g.pageSize)).map fun k =>
    List.replicate g.pageSize (if k = j then (1 : UInt8) else 0) := ⟨_, rfl⟩
  have hall : ∀ p ∈ pages, p.length = g.pageSize := by
    intro p hp
    rw [hpages] at hp
    obtain ⟨k, -, rfl⟩ := List.mem_map.mp hp
    exact List.length_replicate
  have hcount : pages.length = len / g.pageSize := by rw [hpages, List.length_map, List.length_range]
  have hlen : pages.flatten.length = len := by
    rw [List.length_flatten, List.map_congr_left hall, List.map_const', List.sum_replicate_nat, hcount]
    exact hadm.length_eq.symm
  have hwrite := read_after_write (f := f) (s := s) (hlen.symm ▸ hadm) (hlen.symm ▸ hok) 0
  have hread := (h _ hlen).read hwrite.1
  obtain ⟨s', hs'⟩ := hwrite.2.2 noFaults (fun _ _ => rfl) 0
  rw [hs', hlen, pagesOf_flatten hall] at hread
  have hmap := List.eq_iff_flatten_eq.mpr ⟨hread, by
    rw [List.map_map, List.map_congr_left hall, List.map_const', hcount]
    refine (List.map_congr_left fun a ha => ?_).trans ((List.map_const' ..).trans (by rw [length_walk]))
    exact hall _ (storeAll_mem (by rw [length_walk, hcount]) ha _)⟩
  have hi : pages[i]? = pages[j]? := by
    rw [← hmap, List.getElem?_map, List.getElem?_map, heq]
  rw [hpages, List.getElem?_map, List.getElem?_map, List.getElem?_range (hij.trans hj),
    List.getElem?_range hj, Option.map_some, Option.map_some, if_neg hij.ne, if_pos rfl] at hi
  obtain ⟨m, hm⟩ := Nat.exists_eq_succ_of_ne_zero g.pageSize_pos.ne'
  rw [hm, List.replicate_succ, List.replicate_succ] at hi
  exact absurd (List.cons.inj (Option.some.inj hi)).1 (by decide)

/-- **When a write that succeeds can be read back**: exactly when no page program of the request fails and no two of
its pages lead to the same place. -/
theorem readsBack_iff (hret : ∃ buf, buf.length = len ∧ (nandWriteEcc g f s addr buf 0).ret = 0) :
    (∀ buf, buf.length = len → ReadsBack g f s addr buf) ↔
      (∀ k < len / g.pageSize, f.rc (s.log.length + k) = .ok) ∧
        (walk g s.bbt (len / g.pageSize) (Cursor.start g addr)).Nodup := by
  obtain ⟨buf₀, rfl, hret⟩ := hret
  have hadm := admissible_of_ret hret
  constructor
  · intro h
    have hok : ∀ k < buf₀.length / g.pageSize, f.rc (s.log.length + k) = .ok := by
      intro k
      induction k using Nat.strong_induction_on with
      | _ k ih => exact fun hk => ReadsBack.no_failure h hret hk fun j hj => ih j hj (hj.trans hk)
    exact ⟨hok, ReadsBack.nodup h hadm hok⟩
  · rintro ⟨hok, hnd⟩ buf hlen retlen - -
    have hwrite := read_after_write (f := f) (s := s) (hlen ▸ hadm) (hlen ▸ hok) retlen
    have hbuf : buf.length = buf.length / g.pageSize * g.pageSize := by
      rw [hlen]
      exact hadm.length_eq
    rw [← hlen] at hnd
    intro f' hf' retlen'
    obtain ⟨s', hs'⟩ := hwrite.2.2 f' hf' retlen'
    refine ⟨s', hs'.trans ?_⟩
    rw [map_storeAll (by rw [length_walk, length_pagesOf]) hnd, flatten_pagesOf hbuf]

end Requests

def freshNand : Nand :=
  ⟨scanLastDieBB w29n01gv fun _ _ => false, [], fun _ _ => List.replicate 2048 0xFF, []⟩

def twoPages : List UInt8 := List.replicate 4096 0

theorem length_twoPages : twoPages.length = 4096 := List.length_replicate

theorem readsBack_iff_two_pages :
    (∃ buf, buf.length = 4096 ∧ (nandWriteEcc w29n01gv noFaults freshNand 13107200 buf 0).ret = 0) ∧
      ∀ buf, buf.length = 4096 → ReadsBack w29n01gv noFaults freshNand 13107200 buf := by
  have hret : ∃ buf, buf.length = 4096 ∧
      (nandWriteEcc w29n01gv noFaults freshNand 13107200 buf 0).ret = 0 :=
    ⟨twoPages, length_twoPages, by decide +kernel⟩
  exact ⟨hret, (readsBack_iff hret).mpr ⟨fun _ _ => rfl, by decide +kernel⟩⟩

def secondFails : Faults :=
  ⟨fun n => if n = 1 then .failed else .ok, fun _ _ => List.replicate 2048 0xFF, fun _ _ => true⟩

/-- The write of two pages succeeds although the second program fails; what is read back starts with `0xff`. -/
theorem second_page_lost :
    (nandWriteEcc w29n01gv secondFails freshNand 13107200 twoPages 0).ret = 0 ∧
      (nandWriteEcc w29n01gv secondFails freshNand 13107200 twoPages 0).retlen = 4096 ∧
      ¬ ReadsBack w29n01gv secondFails freshNand 13107200 twoPages := by
  have hret : (nandWriteEcc w29n01gv secondFails freshNand 13107200 twoPages 0).ret = 0 := by
    decide +kernel
  have hfirst : (nandReadEcc w29n01gv noFaults
      (nandWriteEcc w29n01gv secondFails freshNand 13107200 twoPages 0).nand 13107200 4096 0).data.head? =
        some 0xFF := by
    decide +kernel
  refine ⟨hret, by decide +kernel, fun h => ?_⟩
  have hread := h.read hret
  rw [length_twoPages] at hread
  rw [hread] at hfirst
  exact absurd hfirst (by decide)

end NasFirmware.Nand
