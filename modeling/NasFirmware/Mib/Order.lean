import NasFirmware.Lib.Patch
import NasFirmware.Mib.Schema

/-!
# Unknown elements and the order of elements

`mib_tlv_init` stores each element where its tag says, and skips elements whose tag it does not know.
-/

namespace NasFirmware.Mib

open CLoop ByteMem

/-! ## Reading is a patch -/

def writePatch (off : ℕ) (bs : List UInt8) : Patch ℕ UInt8 :=
  fun k => if off ≤ k ∧ k < off + bs.length then some (bs.getD (k - off) 0) else none

theorem write_eq_apply (m : Mem) (off : ℕ) (bs : List UInt8) : write m off bs = (writePatch off bs).apply m := by
  funext k
  unfold write Patch.apply writePatch
  split_ifs <;> rfl

/-- `initFrom` returns, and what it does to the struct is a patch. -/
def ByPatch (initFrom : MibTable → Mem → Mem → ℕ → ℕ → Option (Bool × Mem)) (t : MibTable) : Prop :=
  ∀ idx dataSize off, ∃ (b : Bool) (p : Patch ℕ UInt8), ∀ pfile,
    initFrom t idx pfile dataSize off = some (b, p.apply pfile)

theorem mibSearchById_depth {i : ℕ} {t : MibTable} {num : ℕ → UInt8} {off : ℕ} {r : MibEntry × ℕ}
    (h : mibSearchById i t num off = some r) : r.1.next.depth < t.depth := by
  induction t generalizing num off with
  | nil => cases h
  | cons id type offset totalSize unitSize next rest ihn ihr =>
    rw [mibSearchById] at h
    rw [MibTable.depth]
    split_ifs at h with hid htab
    · cases h
      show next.depth < _
      omega
    · cases hnext : mibSearchById i next (fun k => num (k + 1)) (off + (offset + unitSize * (num 0).toNat)) with
      | none =>
        rw [hnext] at h
        have := ihr h
        omega
      | some r' =>
        rw [hnext] at h
        cases h
        have := ihn hnext
        omega
    · have := ihr h
      omega

theorem findSameTagTimes_isSome (m : Mem) (n : ℕ) : ∃ times, findSameTagTimes m n = some times := by
  have hloop : ∃ times, findSameTagTimes m n = some times ∧ True := by
    refine loop_of_variant (fun k (s : ℕ × ℕ) => n - s.1 = k) (fun _ => True) ?_ rfl (Nat.lt_succ_self _)
    rintro k ⟨i, times⟩ hk
    by_cases hlt : i < n
    · refine Or.inl ⟨_, _, congrArg some (if_pos hlt), rfl, ?_⟩
      omega
    · exact Or.inr ⟨times, congrArg some (if_neg hlt), trivial⟩
  exact hloop.imp fun _ h => h.1

theorem mibInitValue_patch (value : Mem) (len : ℕ) (e : MibEntry) (off : ℕ) :
    ∃ p : Patch ℕ UInt8, ∀ pfile, (mibInitValue value len e pfile off).getD pfile = p.apply pfile := by
  have hwrite : ∀ bs : List UInt8, ∃ p : Patch ℕ UInt8, ∀ pfile, (some (write pfile off bs)).getD pfile = p.apply pfile :=
    fun bs => ⟨writePatch off bs, fun pfile => write_eq_apply ..⟩
  unfold mibInitValue
  cases e.type
  case tableListT | wlacArrayT | dhcprsvdipArryT | wdsArrayT | meshAclArrayT | scheduleArrayT
      | capPortalAllowArrayT =>
    exact ⟨Patch.nothing, fun _ => rfl⟩
  all_goals exact hwrite _

section Reading

variable {initFrom : MibTable → Mem → Mem → ℕ → ℕ → Option (Bool × Mem)} {env : TlvEnv} {t : MibTable} {idx : Mem}
  {dataSize off : ℕ} {e : MibEntry} {v v' : Mem} {i i' len n tag : ℕ}

theorem initUnits_patch (h : ByPatch initFrom e.next) (idx : Mem) (i len base n j : ℕ) (buf : Mem) :
    ∃ p : Patch ℕ UInt8, ∀ pfile, initUnits initFrom e idx i len base n j buf pfile = some (p.apply pfile) := by
  induction n generalizing j buf with
  | zero => exact ⟨Patch.nothing, fun _ => rfl⟩
  | succ n ih =>
    obtain ⟨q, hq⟩ := ih (j + 1) (copyTo buf idx (i + len * j) len)
    by_cases hj : j < e.totalSize / e.unitSize
    · obtain ⟨b, p, hp⟩ := h (copyTo buf idx (i + len * j) len) len (base + j * e.unitSize)
      refine ⟨p.seq q, fun pfile => ?_⟩
      simp [initUnits, hj, hp, hq, Patch.apply_seq]
    · refine ⟨q, fun pfile => ?_⟩
      simp [initUnits, hj, hq]

/-! ## One element -/

/-- What an element with the value `v` does: how far the reader moves on behind the header, and the struct. -/
def elemEffect (env : TlvEnv) (initFrom : MibTable → Mem → Mem → ℕ → ℕ → Option (Bool × Mem)) (t : MibTable)
    (off tag len : ℕ) (v pfile : Mem) : Option (ℕ × Mem) :=
  match mibSearchById tag t (mibNum env) 0 with
  | none => some (len, pfile)
  | some (mibTbl, mibOffset) =>
    let buf := copyTo env.junk v 0 len
    if tag &&& 0x8000 = 0 then some (len, (mibInitValue buf len mibTbl pfile (mibOffset + off)).getD pfile)
    else do
      let num ← findSameTagTimes buf len
      let unit := if num ≠ 0 then len / num else len
      let pfile ← initUnits initFrom mibTbl v 0 unit (mibOffset + off) num 0 buf pfile
      some (unit * num, pfile)

theorem initUnits_congr {base j : ℕ} (buf pfile : Mem)
    (h : ∀ k < len * (j + n), v (i + k) = v' (i' + k)) :
    initUnits initFrom e v i len base n j buf pfile = initUnits initFrom e v' i' len base n j buf pfile := by
  induction n generalizing j buf pfile with
  | zero => rfl
  | succ n ih =>
    have hcopy : copyTo buf v (i + len * j) len = copyTo buf v' (i' + len * j) len := by
      funext k
      unfold copyTo
      split_ifs with hk
      · rw [Nat.add_assoc, Nat.add_assoc]
        refine h _ ?_
        calc len * j + k < len * j + len := by omega
          _ = len * (j + 1) := by ring
          _ ≤ len * (j + (n + 1)) := Nat.mul_le_mul_left _ (by omega)
      · rfl
    have hrest : ∀ k < len * (j + 1 + n), v (i + k) = v' (i' + k) := fun k hk => h k (by rwa [Nat.add_comm n, ← Nat.add_assoc])
    simp [initUnits, hcopy, ih _ _ hrest]

theorem copyTo_congr {old : Mem} (h : ∀ k < n, v (i + k) = v' (i' + k)) :
    copyTo old v i n = copyTo old v' i' n := by
  funext k
  unfold copyTo
  split_ifs with hk
  · exact h k hk
  · rfl

theorem div_mul_le' (len num : ℕ) : (if num ≠ 0 then len / num else len) * num ≤ len := by
  split_ifs with h
  · exact Nat.div_mul_le_self _ _
  · rw [not_not.mp h, Nat.mul_zero]
    exact Nat.zero_le _

theorem elemEffect_congr (h : ∀ k < len, v k = v' k) (pfile : Mem) :
    elemEffect env initFrom t off tag len v pfile = elemEffect env initFrom t off tag len v' pfile := by
  have h0 : ∀ k < len, v (0 + k) = v' (0 + k) := fun k hk => by simpa using h k hk
  unfold elemEffect
  rw [copyTo_congr h0]
  split
  · rfl
  · dsimp only
    split_ifs
    · rfl
    · congr 1
      funext num
      rw [initUnits_congr _ _ fun k hk => h0 k (lt_of_lt_of_le hk (by rw [Nat.zero_add]; exact div_mul_le' ..))]

theorem elemEffect_patch (h : ∀ e : MibEntry, e.next.depth < t.depth → ByPatch initFrom e.next) (tag len : ℕ)
    (v : Mem) : ∃ (n : ℕ) (p : Patch ℕ UInt8), ∀ pfile,
      elemEffect env initFrom t off tag len v pfile = some (n, p.apply pfile) := by
  unfold elemEffect
  cases hs : mibSearchById tag t (mibNum env) 0 with
  | none => exact ⟨len, Patch.nothing, fun _ => rfl⟩
  | some r =>
    dsimp only
    split_ifs
    · obtain ⟨p, hp⟩ := mibInitValue_patch (copyTo env.junk v 0 len) len r.1 (r.2 + off)
      exact ⟨len, p, fun pfile => by rw [hp]⟩
    · obtain ⟨num, hnum⟩ := findSameTagTimes_isSome (copyTo env.junk v 0 len) len
      obtain ⟨p, hp⟩ := initUnits_patch (h r.1 (mibSearchById_depth hs)) v 0
        (if num ≠ 0 then len / num else len) (r.2 + off) num 0 (copyTo env.junk v 0 len)
      refine ⟨(if num ≠ 0 then len / num else len) * num, p, fun pfile => ?_⟩
      rw [hnum, Option.bind_eq_bind, Option.bind_some, hp]
      rfl

/-- The pass over an element whose value is at `i + 4`. -/
theorem tlvPass_eq (hlt : i < dataSize) (htag : wordSwap (load16 idx i) = tag)
    (hlen : wordSwap (load16 idx (i + 2)) = len) (hm : env.malloc len = true) (pfile : Mem) :
    tlvPass env initFrom t idx dataSize off (i, pfile) =
      (elemEffect env initFrom t off tag len (fun k => idx (i + 4 + k)) pfile).map
        fun r => .next (i + 4 + r.1, r.2) := by
  have hcopy : copyTo env.junk idx (i + 4) len = copyTo env.junk (fun k => idx (i + 4 + k)) 0 len :=
    copyTo_congr fun k _ => by rw [Nat.zero_add]
  unfold tlvPass elemEffect
  simp only [hlt, not_true, if_false, htag, hlen, hm, Bool.not_true, Bool.false_eq_true, hcopy]
  cases hs : mibSearchById tag t (mibNum env) 0 with
  | none => simp
  | some r =>
    dsimp only
    split_ifs with hbit
    · cases mibInitValue (copyTo env.junk (fun k => idx (i + 4 + k)) 0 len) len r.1 pfile (r.2 + off) <;> rfl
    · cases findSameTagTimes (copyTo env.junk (fun k => idx (i + 4 + k)) 0 len) len with
      | none => rfl
      | some num =>
        have hunits : ∀ n, initUnits initFrom r.1 idx (i + 4) n (r.2 + off) num 0
            (copyTo env.junk (fun k => idx (i + 4 + k)) 0 len) pfile =
            initUnits initFrom r.1 (fun k => idx (i + 4 + k)) 0 n (r.2 + off) num 0
              (copyTo env.junk (fun k => idx (i + 4 + k)) 0 len) pfile :=
          fun n => initUnits_congr _ _ fun k _ => by rw [Nat.zero_add]
        simp only [Option.bind_eq_bind, Option.bind_some, hunits]
        cases initUnits initFrom r.1 (fun k => idx (i + 4 + k)) 0 (if num ≠ 0 then len / num else len) (r.2 + off)
          num 0 (copyTo env.junk (fun k => idx (i + 4 + k)) 0 len) pfile <;> rfl

/-- A pass whose block is not allocated: it skips an unknown table, and leaves otherwise. -/
theorem tlvPass_noBlock (hlt : i < dataSize) (htag : wordSwap (load16 idx i) = tag)
    (hlen : wordSwap (load16 idx (i + 2)) = len) (hm : env.malloc len = false) (pfile : Mem) :
    tlvPass env initFrom t idx dataSize off (i, pfile) =
      some (if tag &&& 0x8000 ≠ 0 ∧ (mibSearchById tag t (mibNum env) 0).isNone then .next (i + 4 + len, pfile)
        else .done (false, pfile)) := by
  by_cases hbit : tag &&& 0x8000 = 0
  · simp only [tlvPass, hlt, htag, hlen, hbit, hm]
    rfl
  · cases hs : mibSearchById tag t (mibNum env) 0 with
    | none => simp [tlvPass, hlt, htag, hlen, hbit, hs]
    | some r => simp [tlvPass, hlt, htag, hlen, hm, hs]

variable (h : ∀ e : MibEntry, e.next.depth < t.depth → ByPatch initFrom e.next)

include h

theorem tlvPass_patch (i : ℕ) :
    (∃ b, ∀ pfile, tlvPass env initFrom t idx dataSize off (i, pfile) = some (.done (b, pfile))) ∨
      i < dataSize ∧ ∃ (i' : ℕ) (p : Patch ℕ UInt8), i < i' ∧
        ∀ pfile, tlvPass env initFrom t idx dataSize off (i, pfile) = some (.next (i', p.apply pfile)) := by
  by_cases hlt : i < dataSize
  · cases hm : env.malloc (wordSwap (load16 idx (i + 2))) with
    | true =>
      obtain ⟨n, p, hp⟩ := @elemEffect_patch initFrom env t off h (wordSwap (load16 idx i))
        (wordSwap (load16 idx (i + 2))) fun k => idx (i + 4 + k)
      refine Or.inr ⟨hlt, i + 4 + n, p, by omega, fun pfile => ?_⟩
      rw [tlvPass_eq hlt rfl rfl hm, hp]
      rfl
    | false =>
      have hpass : ∀ pfile, tlvPass env initFrom t idx dataSize off (i, pfile) = _ := tlvPass_noBlock hlt rfl rfl hm
      split_ifs at hpass
      · refine Or.inr ⟨hlt, i + 4 + wordSwap (load16 idx (i + 2)), Patch.nothing, by omega, fun pfile => ?_⟩
        rw [hpass, Patch.apply_nothing]
      · exact Or.inl ⟨false, hpass⟩
  · exact Or.inl ⟨true, fun pfile => by simp [tlvPass, hlt]⟩

theorem tlvLoop_patch {fuel : ℕ}
    (hfuel : dataSize - i < fuel) : ∃ (b : Bool) (p : Patch ℕ UInt8), ∀ pfile,
      loop (tlvPass env initFrom t idx dataSize off) fuel (i, pfile) = some (b, p.apply pfile) := by
  induction fuel generalizing i with
  | zero => omega
  | succ fuel ih =>
    rcases @tlvPass_patch initFrom env t idx dataSize off h i with ⟨b, hdone⟩ | ⟨hlt, i', p, hi, hnext⟩
    · exact ⟨b, Patch.nothing, fun pfile => loop_succ_done (hdone pfile)⟩
    · obtain ⟨b, q, hq⟩ := @ih i' (by omega)
      refine ⟨b, p.seq q, fun pfile => ?_⟩
      rw [loop_succ_next (hnext pfile), hq, Patch.apply_seq]

omit h

/-- **Reading a table is a patch.** -/
theorem mibTlvInitFrom_patch (env : TlvEnv) {t : MibTable} (hn : t.depth < n) :
    ByPatch (mibTlvInitFrom env n) t := by
  induction n generalizing t with
  | zero => omega
  | succ n ih =>
    intro idx dataSize off
    exact tlvLoop_patch (fun e he => ih (by omega)) (by omega)

end Reading

/-- An element that fills its length. The value of a table is a sequence of elements, and the number of those with the
first one's tag divides its length. -/
def Whole (t : MibTable) (e : Elem) : Prop :=
  e.1 ∈ t.allIds → e.1 &&& 0x8000 ≠ 0 → ∃ units : List Elem, (∀ x ∈ units, ElemOk x) ∧ e.2 = streamBytes units ∧
    ∀ x ∈ units.head?, units.countP (fun y => y.1 = x.1) ∣ e.2.length

section Streams

variable {initFrom : MibTable → Mem → Mem → ℕ → ℕ → Option (Bool × Mem)} {env : TlvEnv} {t : MibTable} {idx : Mem}
  {dataSize off : ℕ} {e : Elem} {es : List Elem} {i fuel : ℕ} {idx' : Mem}

theorem elemEffect_whole (h : Whole t e) {v : Mem} (hv : read v 0 e.2.length = e.2) {pfile pfile' : Mem} {n : ℕ}
    (heff : elemEffect env initFrom t off e.1 e.2.length v pfile = some (n, pfile')) : n = e.2.length := by
  unfold elemEffect at heff
  cases hs : mibSearchById e.1 t (mibNum env) 0 with
  | none =>
    rw [hs] at heff
    cases heff
    rfl
  | some r =>
    rw [hs] at heff
    split_ifs at heff with hbit
    · cases heff
      rfl
    · have hknown : e.1 ∈ t.allIds := by
        by_contra hno
        rw [mibSearchById_none hno] at hs
        cases hs
      obtain ⟨units, hunits, hbytes, hdvd⟩ := h hknown hbit
      obtain ⟨num, hnum, heff⟩ := Option.bind_eq_some_iff.mp heff
      obtain ⟨pf, -, heff⟩ := Option.bind_eq_some_iff.mp heff
      cases heff
      have hbuf := (read_copyTo env.junk v 0 e.2.length).trans hv
      cases units with
      | nil =>
        have hlen : e.2.length = 0 := by rw [hbytes]; rfl
        rw [hlen]
        split_ifs <;> simp
      | cons x xs =>
        rw [hbytes] at hbuf hnum
        rw [findSameTagTimes_stream hunits hbuf] at hnum
        cases hnum
        have hpos : (x :: xs).countP (fun y => y.1 = x.1) ≠ 0 := by
          rw [List.countP_cons_of_pos (by simp)]
          exact Nat.succ_ne_zero _
        rw [if_pos hpos]
        exact Nat.div_mul_cancel (hdvd x rfl)

/-- **A stream is read element by element.** -/
theorem stream_loop (hmalloc : ∀ n, env.malloc n = true) {P : Elem → Patch ℕ UInt8}
    (hP : ∀ e ∈ es, ∀ pfile, ∃ n, elemEffect env initFrom t off e.1 e.2.length (ofList e.2) pfile =
      some (n, (P e).apply pfile))
    (hok : ∀ e ∈ es, ElemOk e ∧ Whole t e)
    (hin : read idx i (streamBytes es).length = streamBytes es) (hsize : dataSize = i + (streamBytes es).length)
    (hfuel : es.length < fuel) (pfile : Mem) :
    loop (tlvPass env initFrom t idx dataSize off) fuel (i, pfile) =
      some (true, es.foldl (fun m e => (P e).apply m) pfile) := by
  induction es generalizing i fuel pfile with
  | nil =>
    obtain ⟨k, rfl⟩ : ∃ k, fuel = k + 1 := ⟨fuel - 1, by omega⟩
    refine loop_succ_done ?_
    simp only [streamBytes, List.flatMap_nil, List.length_nil] at hsize
    simp [tlvPass, hsize]
  | cons e es ih =>
    obtain ⟨k, rfl⟩ : ∃ k, fuel = k + 1 := ⟨fuel - 1, by omega⟩
    rw [List.forall_mem_cons] at hP hok
    obtain ⟨-, htag, hlen, hval, hrest⟩ := read_elem hok.1.1 hin
    have hcons : (streamBytes (e :: es)).length = e.2.length + 4 + (streamBytes es).length := by
      simp [streamBytes]
    have hsame : ∀ k < e.2.length, idx (i + 4 + k) = ofList e.2 k := by
      intro k hk
      have hshift : read (fun k => idx (i + 4 + k)) 0 e.2.length = read (ofList e.2) 0 e.2.length := by
        rw [read_shift, Nat.add_zero, hval, read_ofList]
      exact eq_of_read_eq hshift (Nat.zero_le k) (by omega)
    obtain ⟨n, heff⟩ := hP.1 pfile
    have hn := elemEffect_whole hok.1.2 (read_ofList e.2) heff
    have hpass : tlvPass env initFrom t idx dataSize off (i, pfile) =
        some (.next (i + 4 + e.2.length, (P e).apply pfile)) := by
      rw [tlvPass_eq (by omega) htag hlen (hmalloc _), elemEffect_congr hsame, heff, hn]
      rfl
    rw [loop_succ_next hpass, List.foldl_cons]
    exact ih hP.2 hok.2 hrest (by omega) (Nat.lt_of_succ_lt_succ hfuel) _

/-- A pass over a whole element: the same wherever the element lies, and it goes on behind it. -/
theorem tlvPass_whole (hok : ElemOk e ∧ Whole t e)
    (hin : read idx i (streamBytes (e :: es)).length = streamBytes (e :: es))
    (hin' : read idx' i (streamBytes (e :: es)).length = streamBytes (e :: es)) (pfile : Mem) :
    tlvPass env initFrom t idx dataSize off (i, pfile) = tlvPass env initFrom t idx' dataSize off (i, pfile) ∧
      ∀ i' pfile', tlvPass env initFrom t idx dataSize off (i, pfile) = some (.next (i', pfile')) →
        i' = i + 4 + e.2.length := by
  obtain ⟨-, htag, hlen, hval, -⟩ := read_elem hok.1 hin
  obtain ⟨-, htag', hlen', hval', -⟩ := read_elem hok.1 hin'
  by_cases hlt : i < dataSize
  · cases hm : env.malloc e.2.length with
    | true =>
      have hsame : ∀ k < e.2.length, idx (i + 4 + k) = idx' (i + 4 + k) := by
        intro k hk
        have hread := hval.trans hval'.symm
        exact eq_of_read_eq hread (by omega) (by omega)
      rw [tlvPass_eq hlt htag hlen hm, tlvPass_eq hlt htag' hlen' hm, elemEffect_congr hsame]
      refine ⟨rfl, fun i' pfile' hnext => ?_⟩
      obtain ⟨r, heff, hr⟩ := Option.map_eq_some_iff.mp hnext
      cases hr
      rw [elemEffect_whole hok.2 (v := fun k => idx' (i + 4 + k)) (by rw [read_shift]; exact hval') heff]
    | false =>
      rw [tlvPass_noBlock hlt htag hlen hm, tlvPass_noBlock hlt htag' hlen' hm]
      refine ⟨rfl, fun i' pfile' hnext => ?_⟩
      split_ifs at hnext
      · cases hnext
        rfl
      · cases hnext
  · simp [tlvPass, hlt]

theorem stream_loop_congr (hok : ∀ e ∈ es, ElemOk e ∧ Whole t e)
    (hin : read idx i (streamBytes es).length = streamBytes es)
    (hin' : read idx' i (streamBytes es).length = streamBytes es) (hsize : dataSize = i + (streamBytes es).length)
    (hfuel : es.length < fuel) (pfile : Mem) :
    loop (tlvPass env initFrom t idx dataSize off) fuel (i, pfile) =
      loop (tlvPass env initFrom t idx' dataSize off) fuel (i, pfile) := by
  induction es generalizing i fuel pfile with
  | nil =>
    obtain ⟨k, rfl⟩ : ∃ k, fuel = k + 1 := ⟨fuel - 1, by omega⟩
    simp only [streamBytes, List.flatMap_nil, List.length_nil] at hsize
    simp [loop, tlvPass, hsize]
  | cons e es ih =>
    obtain ⟨k, rfl⟩ : ∃ k, fuel = k + 1 := ⟨fuel - 1, by omega⟩
    rw [List.forall_mem_cons] at hok
    have hcons : (streamBytes (e :: es)).length = e.2.length + 4 + (streamBytes es).length := by
      simp [streamBytes]
    obtain ⟨-, -, -, -, hrest⟩ := read_elem hok.1.1 hin
    obtain ⟨-, -, -, -, hrest'⟩ := read_elem hok.1.1 hin'
    obtain ⟨hpass, hnext⟩ := @tlvPass_whole initFrom env t idx dataSize off e es i idx' hok.1 hin hin' pfile
    rw [loop, loop, ← hpass]
    cases hp : tlvPass env initFrom t idx dataSize off (i, pfile) with
    | none => rfl
    | some r =>
      cases r with
      | done r => rfl
      | next s =>
        obtain ⟨i', pfile'⟩ := s
        obtain rfl := hnext i' pfile' hp
        exact ih hok.2 hrest hrest' (by omega) (Nat.lt_of_succ_lt_succ hfuel) pfile'

/-- **The reader stays within a stream of whole elements**: what lies behind it makes no difference. -/
theorem mibTlvInit_congr {data data' : Mem} (hok : ∀ e ∈ es, ElemOk e ∧ Whole t e)
    (hin : read data 0 (streamBytes es).length = streamBytes es)
    (hin' : read data' 0 (streamBytes es).length = streamBytes es) (pfile : Mem) :
    mibTlvInit env t data pfile (streamBytes es).length = mibTlvInit env t data' pfile (streamBytes es).length := by
  have hfuel : es.length < (streamBytes es).length + 1 := Nat.lt_succ_of_le (length_le_streamBytes es)
  unfold mibTlvInit
  split_ifs
  · rfl
  · exact stream_loop_congr hok hin hin' (Nat.zero_add _).symm hfuel pfile

end Streams

/-! ## The result -/

/-- The tag occurs in the schema. -/
def known (t : MibTable) (e : Elem) : Bool := t.allIds.contains e.1

/-- The element, read alone, stores byte `k`: what is there afterwards does not depend on what was there. -/
def Writes (env : TlvEnv) (t : MibTable) (e : Elem) (k : ℕ) : Prop :=
  ∀ pfile pfile' r r', mibTlvInit env t (ofList (elemBytes e)) pfile (elemBytes e).length = some r →
    mibTlvInit env t (ofList (elemBytes e)) pfile' (elemBytes e).length = some r' → r.2 k = r'.2 k

section Result

variable {env : TlvEnv} {t : MibTable} {P : Elem → Patch ℕ UInt8}

/-- `P e` is what the element `e` does to the struct. -/
def PatchOf (env : TlvEnv) (t : MibTable) (P : Elem → Patch ℕ UInt8) : Prop :=
  ∀ e pfile, ∃ n, elemEffect env (mibTlvInitFrom env t.depth) t 0 e.1 e.2.length (ofList e.2) pfile =
    some (n, (P e).apply pfile)

theorem exists_patchOf (env : TlvEnv) (t : MibTable) : ∃ P, PatchOf env t P := by
  have h := fun e : Elem => @elemEffect_patch (mibTlvInitFrom env t.depth) env t 0
    (fun _ he => mibTlvInitFrom_patch env he) e.1 e.2.length (ofList e.2)
  choose n P hP using h
  exact ⟨P, fun e pfile => ⟨n e, hP e pfile⟩⟩

variable (hP : PatchOf env t P)

include hP

/-- **A stream is the patches of its elements**, one after the other. -/
theorem PatchOf.init (hmalloc : ∀ n, env.malloc n = true) {es : List Elem}
    (hok : ∀ e ∈ es, ElemOk e ∧ Whole t e) {data : Mem} (hin : read data 0 (streamBytes es).length = streamBytes es)
    (pfile : Mem) : mibTlvInit env t data pfile (streamBytes es).length =
      some (!es.isEmpty, es.foldl (fun m e => (P e).apply m) pfile) := by
  cases es with
  | nil => rfl
  | cons e es =>
    have hne : (streamBytes (e :: es)).length ≠ 0 := by
      simp only [streamBytes, List.flatMap_cons, List.length_append, length_elemBytes]
      omega
    exact stream_loop hmalloc (fun e _ => hP e) hok hin (Nat.zero_add _).symm
      (Nat.lt_succ_of_le (length_le_streamBytes _)) pfile

theorem PatchOf.unknown {e : Elem} (he : known t e = false) (pfile : Mem) :
    (P e).apply pfile = pfile := by
  obtain ⟨n, heff⟩ := hP e pfile
  have hno : e.1 ∉ t.allIds := by simpa [known] using he
  rw [elemEffect, mibSearchById_none hno] at heff
  exact ((Prod.mk.injEq ..).mp (Option.some.inj heff)).2.symm

theorem PatchOf.foldl_known (es : List Elem) (pfile : Mem) :
    es.foldl (fun m e => (P e).apply m) pfile = (es.filter (known t)).foldl (fun m e => (P e).apply m) pfile := by
  induction es generalizing pfile with
  | nil => rfl
  | cons e es ih =>
    cases he : known t e with
    | true => rw [List.filter_cons_of_pos he, List.foldl_cons, List.foldl_cons, ih]
    | false =>
      rw [List.filter_cons_of_neg (by rw [he]; exact Bool.false_ne_true), List.foldl_cons, hP.unknown he, ih]

theorem PatchOf.writes (hmalloc : ∀ n, env.malloc n = true) {e : Elem}
    (hok : ElemOk e ∧ Whole t e) {k : ℕ} (hk : P e k ≠ none) : Writes env t e k := by
  have hone : streamBytes [e] = elemBytes e := by simp [streamBytes]
  have hinit := fun pfile => @PatchOf.init env t P hP hmalloc [e] (by simpa using hok) (ofList (elemBytes e))
    (by rw [hone, read_ofList]) pfile
  simp only [hone] at hinit
  intro pfile pfile' r r' hr hr'
  rw [hinit] at hr hr'
  cases hr
  cases hr'
  exact (Patch.ne_none_iff (by decide : (0 : UInt8) ≠ 1) (P e) k).mp hk pfile pfile'

end Result

theorem Writes.mem {env : TlvEnv} {t : MibTable} {e : Elem} {off k : ℕ} {bs : List UInt8}
    (hinit : ∀ pfile, mibTlvInit env t (ofList (elemBytes e)) pfile (elemBytes e).length =
      some (true, write pfile off bs)) (h : Writes env t e k) : off ≤ k ∧ k < off + bs.length := by
  by_contra hno
  have hk := h _ _ _ _ (hinit fun _ => 0) (hinit fun _ => 1)
  dsimp only at hk
  rw [write_apply_of_not (by omega), write_apply_of_not (by omega)] at hk
  exact absurd hk (by decide)

def bytesTable : MibTable := .cons 1 .byteT 0 1 1 .nil (.cons 2 .byteT 1 1 1 .nil .nil)

def plainEnv : TlvEnv := ⟨fun _ => 0, fun _ => true⟩

/-- A table of one byte, that is found under its own tag too. -/
def nestedTable : MibTable := .cons 0x8001 .tableListT 0 1 1 (.cons 1 .byteT 0 1 1 .nil .nil) .nil

/-- Two arrays of two bytes, and a byte. -/
def arraysTable : MibTable :=
  .cons 0x8001 .tableListT 0 4 2 (.cons 1 .byteArrayT 0 2 1 .nil .nil) (.cons 3 .byteT 4 1 1 .nil .nil)

end NasFirmware.Mib
