import NasFirmware.Mib.Schema

/-!
# Round trip of the MIB through TLV

A struct is swapped, written as elements and read back. The reader takes the elements one by one,
looks each tag up from the top of the table, and puts the value at the offset it finds.
-/

namespace NasFirmware.Mib

open CLoop ByteMem

/-- All bytes after the first NUL are zero. -/
def ZeroAfterNul (bs : List UInt8) : Prop := ∀ c ∈ bs.dropWhile (· ≠ 0), c = 0

/-- The strings of the struct `d` at `o` are zero after their first NUL. -/
def StringsOk (d : Mem) : MibTable → ℕ → Prop
  | .nil, _ => True
  | .cons _ type off totalSize unitSize next rest, o =>
    (type.isTable = true → ∀ j < totalSize / unitSize, StringsOk d next (o + off + j * unitSize)) ∧
    (type = .stringT → ZeroAfterNul (read d (o + off) totalSize)) ∧ StringsOk d rest o

theorem strncpy_eq_self {bs : List UInt8} (h : ZeroAfterNul bs) : strncpy bs = bs := by
  induction bs with
  | nil => rfl
  | cons c bs ih =>
    by_cases hc : c = 0
    · have hall : ∀ b ∈ c :: bs, b = 0 := by simpa [ZeroAfterNul, hc] using h
      rw [strncpy, if_pos hc]
      exact (List.eq_replicate_of_mem hall).symm
    · rw [strncpy, if_neg hc, ih]
      simpa [ZeroAfterNul, hc] using h

/-- `mib_init_value` stores the bytes that were swapped before they were written. -/
theorem mibInitValue_spec {e : MibEntry} (he : EntryOk e) (htab : e.type.isTable = false) {d value : Mem}
    {p : ℕ} (hval : read value 0 e.totalSize = swapBytes e.type (read d p e.totalSize))
    (hstr : e.type = .stringT → ZeroAfterNul (read d p e.totalSize)) (data : Mem) :
    mibInitValue value e.totalSize e data p = some (write data p (read d p e.totalSize)) := by
  cases ht : e.type with
  | wordT =>
    rw [(he.word ht).2, ht] at hval
    simp only [swapBytes, read_succ, read_zero, List.reverse_cons, List.reverse_nil, List.nil_append,
      List.cons_append, List.cons.injEq, and_true, Nat.zero_add] at hval
    simp [mibInitValue, ht, store16_wordSwap, hval, (he.word ht).2, read_succ]
  | dwordT =>
    rw [(he.dword ht).2, ht] at hval
    simp only [swapBytes, read_succ, read_zero, List.reverse_cons, List.reverse_nil, List.nil_append,
      List.cons_append, List.cons.injEq, and_true, Nat.zero_add, Nat.add_assoc, Nat.reduceAdd] at hval
    simp [mibInitValue, ht, store32_dwordSwap, hval, (he.dword ht).2, read_succ]
  | stringT =>
    simp [mibInitValue, ht, hval, swapBytes, strncpy_eq_self (hstr ht)]
  | tableListT | wlacArrayT | dhcprsvdipArryT | wdsArrayT | meshAclArrayT | scheduleArrayT
  | capPortalAllowArrayT =>
    simp [ht, MibType.isTable] at htab
  | byteT | byteArrayT | dwordArrayT | iaT | byte5T | byte6T | byte13T =>
    simp [mibInitValue, ht, hval, swapBytes]

/-- `initFrom` reads one unit of `t` back. -/
def Reads (d d' : Mem) (initFrom : MibTable → Mem → Mem → ℕ → ℕ → Option (Bool × Mem)) (t : MibTable) :
    Prop :=
  ∀ o idx pfile, Swapped d d' t o → StringsOk d t o → read idx 0 t.encLen = writeTable d' t o →
    initFrom t idx pfile t.encLen o = some (true, write pfile o (read d o t.size))

variable {d d' : Mem} {initFrom : MibTable → Mem → Mem → ℕ → ℕ → Option (Bool × Mem)} {i : ℕ} {t : MibTable}

section Read

variable {e : MibEntry} {m : Mem}

theorem read_flatMap {L n : ℕ} {f : ℕ → List UInt8} (hL : ∀ j, (f j).length = L)
    (h : read m i (n * L) = (List.range n).flatMap f) {j : ℕ} (hj : j < n) :
    read m (i + L * j) L = f j := by
  induction n with
  | zero => omega
  | succ n ih =>
    have hlen : ((List.range n).flatMap f).length = n * L := by
      simp [hL]
    rw [List.range_succ, List.flatMap_append, List.flatMap_singleton, Nat.succ_mul, read_add] at h
    obtain ⟨h1, h2⟩ := List.append_inj h (by simp [hlen])
    rcases Nat.lt_succ_iff_lt_or_eq.mp hj with hlt | rfl
    · exact ih h1 hlt
    · rwa [Nat.mul_comm] at h2

theorem initUnits_spec (hr : Reads d d' initFrom e.next) (hu : e.unitSize = e.next.size) {idx : Mem}
    {base : ℕ} (hsw : ∀ j < e.totalSize / e.unitSize, Swapped d d' e.next (base + j * e.unitSize))
    (hst : ∀ j < e.totalSize / e.unitSize, StringsOk d e.next (base + j * e.unitSize))
    (hin : ∀ j < e.totalSize / e.unitSize,
      read idx (i + e.next.encLen * j) e.next.encLen = writeTable d' e.next (base + j * e.unitSize))
    (n j : ℕ) (hn : j + n ≤ e.totalSize / e.unitSize) (buf pfile : Mem) :
    initUnits initFrom e idx i e.next.encLen base n j buf pfile =
      some (write pfile (base + j * e.unitSize) (read d (base + j * e.unitSize) (n * e.unitSize))) := by
  induction n generalizing j buf pfile with
  | zero => simp [initUnits]
  | succ n ih =>
    have hj : j < e.totalSize / e.unitSize := by omega
    have hunit := hr (base + j * e.unitSize) (copyTo buf idx (i + e.next.encLen * j) e.next.encLen)
      pfile (hsw j hj) (hst j hj) (by rw [read_copyTo, hin j hj])
    simp only [initUnits, hj, if_true, hunit, Option.bind_eq_bind, Option.bind_some]
    rw [ih (j + 1) (by omega), ← hu, show base + (j + 1) * e.unitSize =
      base + j * e.unitSize + e.unitSize by ring, write_read_add,
      show e.unitSize + n * e.unitSize = (n + 1) * e.unitSize by ring]

section Pass

variable {env : TlvEnv} {tbl : MibTable} {idx : Mem} {dataSize o i : ℕ} {pfile : Mem}

theorem tlvPass_field (hmalloc : ∀ n, env.malloc n = true) (he : EntryOk e)
    (htab : e.type.isTable = false) (hlt : i < dataSize)
    (hsearch : mibSearchById e.id tbl (mibNum env) 0 = some (e, e.offset))
    (htag : wordSwap (load16 idx i) = e.id) (hlen : wordSwap (load16 idx (i + 2)) = e.totalSize)
    (hval : read idx (i + 4) e.totalSize = swapBytes e.type (read d (o + e.offset) e.totalSize))
    (hstr : e.type = .stringT → ZeroAfterNul (read d (o + e.offset) e.totalSize)) :
    tlvPass env initFrom tbl idx dataSize o (i, pfile) = some (.next (i + 4 + e.totalSize,
      write pfile (o + e.offset) (read d (o + e.offset) e.totalSize))) := by
  have hbit : e.id &&& 0x8000 = 0 := by
    by_contra hne
    simp [he.bit.mp hne] at htab
  have hcopy : read (copyTo env.junk idx (i + 4) e.totalSize) 0 e.totalSize =
      swapBytes e.type (read d (o + e.offset) e.totalSize) := by
    rw [read_copyTo, hval]
  have hinit := mibInitValue_spec he htab hcopy hstr pfile
  rw [Nat.add_comm o] at hinit ⊢
  simp [tlvPass, hlt, htag, hlen, hbit, hmalloc, hsearch, hinit]

theorem tlvPass_units (hmalloc : ∀ n, env.malloc n = true) (he : EntryOk e)
    (htab : e.type.isTable = true) (hlt : i < dataSize)
    (hsearch : mibSearchById e.id tbl (mibNum env) 0 = some (e, e.offset))
    (htag : wordSwap (load16 idx i) = e.id) {num : ℕ}
    (hlen : wordSwap (load16 idx (i + 2)) = num * e.next.encLen)
    (htimes : findSameTagTimes (copyTo env.junk idx (i + 4) (num * e.next.encLen))
      (num * e.next.encLen) = some num) {pfile' : Mem}
    (hunits : ∀ buf, initUnits initFrom e idx (i + 4) e.next.encLen (o + e.offset) num 0 buf pfile =
      some pfile') :
    tlvPass env initFrom tbl idx dataSize o (i, pfile) =
      some (.next (i + 4 + num * e.next.encLen, pfile')) := by
  have hbit : ¬ e.id &&& 0x8000 = 0 := he.bit.mpr htab
  rw [Nat.add_comm o] at hunits
  have hdiv : (if num ≠ 0 then num * e.next.encLen / num else num * e.next.encLen) * num =
      num * e.next.encLen := by
    rcases Nat.eq_zero_or_pos num with h0 | hpos
    · simp [h0]
    · rw [if_pos hpos.ne', Nat.mul_div_cancel_left _ hpos, Nat.mul_comm]
  simp only [tlvPass, hlt, not_true, if_false, htag, hlen, hbit, hmalloc, Bool.not_true,
    Bool.false_eq_true, hsearch, htimes, Option.bind_eq_bind, Option.bind_some, hdiv]
  rcases Nat.eq_zero_or_pos num with h0 | hpos
  · subst h0
    have h := hunits (copyTo env.junk idx (i + 4) (0 * e.next.encLen))
    simp only [initUnits] at h ⊢
    simp [h]
  · rw [if_pos hpos.ne', Nat.mul_div_cancel_left _ hpos, hunits]
    simp

end Pass

theorem countP_entries_first {e₀ : MibEntry} {es : List MibEntry} (h : t.Unshadowed)
    (hes : t.entries = e₀ :: es) (m : Mem) (o : ℕ) :
    (t.entries.map (entryElem m o)).countP (fun x => x.1 = e₀.id) = 1 := by
  cases t with
  | nil => simp [MibTable.entries] at hes
  | cons id type offset totalSize unitSize next rest =>
    obtain ⟨rfl, rfl⟩ := hes
    rw [MibTable.entries, List.map_cons, List.countP_cons_of_pos (by simp [entryElem])]
    -- no later entry has the id of the first one
    have hzero : (rest.entries.map (entryElem m o)).countP (fun x => x.1 = id) = 0 := by
      rw [List.countP_eq_zero]
      intro x hx
      obtain ⟨e, he, rfl⟩ := List.mem_map.mp hx
      rw [decide_eq_true_eq]
      exact (h.1 e.id (List.mem_map_of_mem he)).1
    rw [hzero]

theorem sum_map_eq_length {l : List ℕ} {f : ℕ → ℕ} (h : ∀ j ∈ l, f j = 1) : (l.map f).sum = l.length := by
  induction l with
  | nil => rfl
  | cons a l ih =>
    rw [List.map_cons, List.sum_cons, h a (by simp), ih fun j hj => h j (by simp [hj]),
      List.length_cons]
    omega

theorem entries_ne_nil (h : 0 < t.size) : ∃ e₀ es, t.entries = e₀ :: es := by
  cases t with
  | nil => simp [MibTable.size] at h
  | cons id type offset totalSize unitSize next rest => exact ⟨_, _, rfl⟩

theorem findSameTagTimes_units (hun : t.Unshadowed) (hok : t.All EntryOk)
    (hc : t.Contiguous 0) (hsize : 0 < t.size) {buf : Mem} {p num u : ℕ}
    (hbuf : read buf 0 (num * t.encLen) =
      (List.range num).flatMap fun j => writeTable m t (p + j * u)) :
    findSameTagTimes buf (num * t.encLen) = some num := by
  rcases Nat.eq_zero_or_pos num with rfl | hpos
  · rw [Nat.zero_mul]
    exact findSameTagTimes_zero buf
  obtain ⟨e₀, es, hes⟩ := entries_ne_nil hsize
  have hunit : ∀ j, writeTable m t (p + j * u) =
      streamBytes (t.entries.map (entryElem m (p + j * u))) :=
    fun j => writeTable_eq (p + j * u) hc fun e he => hok.of_mem he
  -- the content as one stream of elements
  set elems := (List.range num).flatMap fun j => t.entries.map (entryElem m (p + j * u)) with helems
  have hstream : ((List.range num).flatMap fun j => writeTable m t (p + j * u)) = streamBytes elems := by
    simp [hunit, helems, streamBytes, List.flatMap_assoc]
  have hlen : num * t.encLen = (streamBytes elems).length := by
    rw [← hstream]
    simp [length_writeTable]
  have hokE : ∀ x ∈ elems, ElemOk x := by
    intro x hx
    obtain ⟨j, -, hj⟩ := List.mem_flatMap.mp hx
    obtain ⟨e, he, rfl⟩ := List.mem_map.mp hj
    exact entryElem_ok (hok.of_mem he)
  have hcount : elems.countP (fun x => x.1 = e₀.id) = num := by
    rw [helems, List.countP_flatMap]
    have := sum_map_eq_length (l := List.range num)
      fun j _ => countP_entries_first hun hes m (p + j * u)
    rwa [List.length_range] at this
  -- its first element is the first entry of the first unit
  obtain ⟨rest, hfirst⟩ : ∃ rest, elems = entryElem m (p + 0 * u) e₀ :: rest := by
    obtain ⟨k, rfl⟩ : ∃ k, num = k + 1 := ⟨num - 1, by omega⟩
    rw [helems, List.range_succ_eq_map, List.flatMap_cons, hes]
    exact ⟨_, rfl⟩
  rw [hstream, hlen] at hbuf
  rw [hlen]
  rw [hfirst] at hbuf hokE hcount ⊢
  rw [findSameTagTimes_stream hokE hbuf]
  exact congrArg some hcount

end Read

section Table

variable {env : TlvEnv} {tbl : MibTable} {idx : Mem} {dataSize o : ℕ}

variable (hmalloc : ∀ n, env.malloc n = true)

include hmalloc

theorem tlvPass_entry {e : MibEntry} (he : EntryOk e)
    (hnext : e.type.isTable → e.next.All EntryOk ∧ e.next.Unshadowed ∧ Reads d d' initFrom e.next)
    (hsearch : mibSearchById e.id tbl (mibNum env) 0 = some (e, e.offset))
    (hsw : (e.type.isTable = true → ∀ j < e.totalSize / e.unitSize,
        Swapped d d' e.next (o + e.offset + j * e.unitSize)) ∧
      (e.type.isTable = false → read d' (o + e.offset) e.totalSize =
        swapBytes e.type (read d (o + e.offset) e.totalSize)))
    (hst : (e.type.isTable = true → ∀ j < e.totalSize / e.unitSize,
        StringsOk d e.next (o + e.offset + j * e.unitSize)) ∧
      (e.type = .stringT → ZeroAfterNul (read d (o + e.offset) e.totalSize))) {es : List Elem} (hin : read idx i (streamBytes (entryElem d' o e :: es)).length =
      streamBytes (entryElem d' o e :: es)) (hlt : i < dataSize) (pfile : Mem) :
    tlvPass env initFrom tbl idx dataSize o (i, pfile) =
      some (.next (i + 4 + (entryElem d' o e).2.length,
        write pfile (o + e.offset) (read d (o + e.offset) e.totalSize))) := by
  obtain ⟨-, htag, hlen, hval, -⟩ := read_elem (entryElem_ok he) hin
  by_cases htab : e.type.isTable = true
  · obtain ⟨hall, hun, hr⟩ := hnext htab
    obtain ⟨hc, hu⟩ := he.layout htab
    have hnum : e.totalSize / e.unitSize * e.unitSize = e.totalSize := Nat.div_mul_cancel he.dvd
    have hvalue : (entryElem d' o e).2 = (List.range (e.totalSize / e.unitSize)).flatMap fun j =>
        writeTable d' e.next (o + e.offset + j * e.unitSize) := if_pos htab
    have hl : (entryElem d' o e).2.length = e.totalSize / e.unitSize * e.next.encLen :=
      length_entryValue_table htab
    rw [hl] at hval hlen ⊢
    have hpieces := hval.trans hvalue
    refine tlvPass_units hmalloc he htab hlt hsearch htag hlen ?_ fun buf => ?_
    · exact findSameTagTimes_units hun hall hc (hu ▸ he.unit_pos) (by rw [read_copyTo, hpieces])
    · rw [initUnits_spec hr hu (hsw.1 htab) (hst.1 htab)
        (fun j hj => read_flatMap (fun j => length_writeTable ..) hpieces hj) _ 0 (by omega)]
      rw [Nat.zero_mul, Nat.add_zero, hnum]
  · have htab' : e.type.isTable = false := by simpa using htab
    have hvalue : (entryElem d' o e).2 = read d' (o + e.offset) e.totalSize := if_neg htab
    rw [hvalue, length_read] at hval hlen ⊢
    exact tlvPass_field hmalloc he htab' hlt hsearch htag hlen (hval.trans (hsw.2 htab')) hst.2

/-- **The loop over the elements of a table**, from the one of the first entry of `t` on. -/
theorem tlvLoop_spec {x : ℕ} (hc : t.Contiguous x)
    (hok : t.All EntryOk)
    (hnext : ∀ e ∈ t.entries, e.type.isTable → e.next.Unshadowed ∧ Reads d d' initFrom e.next)
    (hsearch : ∀ e ∈ t.entries, mibSearchById e.id tbl (mibNum env) 0 = some (e, e.offset))
    (hsw : Swapped d d' t o) (hst : StringsOk d t o) {fuel : ℕ}
    (hin : read idx i (streamBytes (t.entries.map (entryElem d' o))).length =
      streamBytes (t.entries.map (entryElem d' o)))
    (hsize : dataSize = i + (streamBytes (t.entries.map (entryElem d' o))).length)
    (hfuel : t.entries.length < fuel) (pfile : Mem) :
    loop (tlvPass env initFrom tbl idx dataSize o) fuel (i, pfile) =
      some (true, write pfile (o + x) (read d (o + x) t.size)) := by
  induction t generalizing x i fuel pfile with
  | nil =>
    obtain ⟨k, rfl⟩ : ∃ k, fuel = k + 1 := ⟨fuel - 1, by omega⟩
    refine loop_succ_done ?_
    simp only [MibTable.entries, List.map_nil, streamBytes, List.flatMap_nil, List.length_nil] at hsize
    simp [tlvPass, hsize, MibTable.size]
  | cons id type offset totalSize unitSize next rest _ ih =>
    obtain ⟨k, rfl⟩ : ∃ k, fuel = k + 1 := ⟨fuel - 1, by omega⟩
    obtain ⟨rfl, hc⟩ := hc
    set e : MibEntry := ⟨id, type, offset, totalSize, unitSize, next⟩ with he
    have hmem : e ∈ (MibTable.cons id type offset totalSize unitSize next rest).entries :=
      List.mem_cons_self
    have hoke : EntryOk e := hok.1
    have hin' : read idx i (streamBytes (entryElem d' o e :: rest.entries.map (entryElem d' o))).length =
        streamBytes (entryElem d' o e :: rest.entries.map (entryElem d' o)) := hin
    have hcons : (streamBytes (entryElem d' o e :: rest.entries.map (entryElem d' o))).length =
        (entryElem d' o e).2.length + 4 + (streamBytes (rest.entries.map (entryElem d' o))).length := by
      simp [streamBytes]
    have hsize' : dataSize = i +
        (streamBytes (entryElem d' o e :: rest.entries.map (entryElem d' o))).length := hsize
    have hlt : i < dataSize := by omega
    have hpass := tlvPass_entry hmalloc hoke
      (fun htab => ⟨hok.next_of_mem hmem htab, hnext e hmem htab⟩) (hsearch e hmem)
      ⟨hsw.1, hsw.2.1⟩ ⟨hst.1, hst.2.1⟩ hin' hlt pfile
    rw [loop_succ_next hpass, ih hc hok.2.2
      (fun e' he' => hnext e' (List.mem_cons_of_mem _ he'))
      (fun e' he' => hsearch e' (List.mem_cons_of_mem _ he')) hsw.2.2 hst.2.2
      (read_elem (entryElem_ok hoke) hin').2.2.2.2 (by omega)
      (by simp only [MibTable.entries, List.length_cons] at hfuel; omega)]
    rw [MibTable.size, ← Nat.add_assoc]
    exact congrArg (fun m => some (true, m)) (write_read_add ..)

/-- **Reading back one unit of a table**, by induction on the nesting. -/
theorem mibTlvInitFrom_reads {n : ℕ}
    (hn : t.depth < n) (hc : t.Contiguous 0) (hok : t.All EntryOk) (hun : t.AllUnshadowed) :
    Reads d d' (mibTlvInitFrom env n) t := by
  induction n generalizing t with
  | zero => omega
  | succ n ih =>
    intro o idx pfile hsw hst hin
    have hw := writeTable_eq (m := d') o hc fun e he => hok.of_mem he
    rw [Nat.add_zero] at hw
    have hlen : (streamBytes (t.entries.map (entryElem d' o))).length = t.encLen := by
      rw [← hw, length_writeTable]
    have hnext : ∀ e ∈ t.entries, e.type.isTable →
        e.next.Unshadowed ∧ Reads d d' (mibTlvInitFrom env n) e.next := by
      intro e he htab
      have hdepth := MibTable.depth_of_mem he
      have hun' := hun.2.of_mem he htab
      exact ⟨hun', ih (by omega) ((hok.of_mem he).layout htab).1 (hok.next_of_mem he htab)
        ⟨hun', hun.2.next_of_mem he htab⟩⟩
    have hsearch : ∀ e ∈ t.entries, mibSearchById e.id t (mibNum env) 0 = some (e, e.offset) := by
      intro e he
      rw [mibSearchById_entry hun.1 he _ rfl, Nat.zero_add]
    have hle := length_le_streamBytes (t.entries.map (entryElem d' o))
    rw [List.length_map, hlen] at hle
    have hsize : t.encLen = 0 + (streamBytes (t.entries.map (entryElem d' o))).length := by
      rw [hlen, Nat.zero_add]
    have := tlvLoop_spec hmalloc hc hok hnext hsearch hsw hst (by rw [hlen, hin, hw]) hsize
      (Nat.lt_succ_of_le hle) pfile
    rwa [Nat.add_zero] at this

end Table

/-! ## The whole struct -/

theorem mibSearchById_root (s : MibSchema) (hun : s.table.Unshadowed) {e : MibEntry}
    (he : e ∈ s.table.entries) (env : TlvEnv) :
    mibSearchById e.id s.rootTable (mibNum env) 0 = some (e, e.offset) := by
  have hne : e.id ≠ s.rootId := by
    have key : ∀ {t : MibTable} {above : List ℕ}, t.PathDistinct above → e ∈ t.entries →
        e.id ∉ above := by
      intro t above h he
      induction t with
      | nil => simp [MibTable.entries] at he
      | cons id type offset totalSize unitSize next rest _ ih =>
        rcases List.mem_cons.mp he with rfl | he
        · exact h.1
        · exact ih h.2.2 he
    simpa using key s.path he
  have hin : MibType.tableListT.isTable = true ∧ s.table.size % s.table.size = 0 ∧
      (mibNum env 0).toNat < s.table.size / s.table.size :=
    ⟨rfl, Nat.mod_self _, by rw [Nat.div_self s.size_pos]; exact Nat.one_pos⟩
  have hfound := mibSearchById_entry hun he (fun k => mibNum env (k + 1)) rfl 0
  rw [MibSchema.rootTable, mibSearchById, if_neg hne, if_pos hin]
  simp [show (mibNum env 0).toNat = 0 from rfl, hfound]

theorem mibTlvInit_swapped (s : MibSchema) (hun : s.table.AllUnshadowed) (env : TlvEnv)
    (hmalloc : ∀ n, env.malloc n = true) {d d' : Mem} (hsw : Swapped d d' s.table 0)
    (hst : StringsOk d s.table 0) {fromData : Mem}
    (hfrom : read fromData 0 s.table.encLen = writeTable d' s.table 0) (pfile : Mem) :
    mibTlvInit env s.rootTable fromData pfile s.table.encLen =
      some (true, write pfile 0 (read d 0 s.table.size)) := by
  have hw := writeTable_eq (m := d') 0 s.contiguous fun e he => s.entries.of_mem he
  have hlen : (streamBytes (s.table.entries.map (entryElem d' 0))).length = s.table.encLen := by
    rw [← hw, length_writeTable]
  have hle := length_le_streamBytes (s.table.entries.map (entryElem d' 0))
  rw [List.length_map, hlen] at hle
  obtain ⟨e₀, es, hes⟩ := entries_ne_nil s.size_pos
  have hpos : s.table.encLen ≠ 0 := by
    rw [hes, List.length_cons] at hle
    omega
  have hdepth : s.rootTable.depth = s.table.depth + 1 := by
    simp [MibSchema.rootTable, MibTable.depth]
  have hnext : ∀ e ∈ s.table.entries, e.type.isTable →
      e.next.Unshadowed ∧ Reads d d' (mibTlvInitFrom env s.rootTable.depth) e.next := by
    intro e he htab
    have := MibTable.depth_of_mem he
    have hun' := hun.2.of_mem he htab
    exact ⟨hun', mibTlvInitFrom_reads hmalloc (by omega) ((s.entries.of_mem he).layout htab).1
      (s.entries.next_of_mem he htab) ⟨hun', hun.2.next_of_mem he htab⟩⟩
  rw [mibTlvInit, if_neg hpos, mibTlvInitFrom]
  exact tlvLoop_spec hmalloc s.contiguous s.entries hnext
    (fun e he => mibSearchById_root s hun.1 he env) hsw hst (i := 0)
    (by rw [hlen, hfrom, hw]) (by rw [hlen, Nat.zero_add]) (Nat.lt_succ_of_le hle) pfile

theorem mibtblSwapValue_root (s : MibSchema) (d : Mem) :
    mibtblSwapValue s.rootTable d 0 = mibtblSwapValue s.table d 0 := by
  simp [MibSchema.rootTable, mibtblSwapValue, Nat.div_self s.size_pos, MibType.isTable]

/-- **Round trip of the MIB through TLV.** A struct that is swapped, written as elements and read into any struct is
the same, if no tag of a table occurs at or below an earlier entry of the table. -/
theorem mibTlvInit_mibWriteToRaw (s : MibSchema) (hun : s.table.AllUnshadowed) (env : TlvEnv)
    (hmalloc : ∀ n, env.malloc n = true) (d : Mem) (hst : StringsOk d s.table 0) (fromData pfile : Mem)
    (hfrom : read fromData 0 (mibWriteToRaw s.root (mibtblSwapValue s.rootTable d 0) 0).length =
      mibWriteToRaw s.root (mibtblSwapValue s.rootTable d 0) 0) :
    ∃ pfile', mibTlvInit env s.rootTable fromData pfile
        (mibWriteToRaw s.root (mibtblSwapValue s.rootTable d 0) 0).length = some (true, pfile') ∧
      read pfile' 0 s.table.size = read d 0 s.table.size := by
  have hraw : ∀ m, mibWriteToRaw s.root m 0 = writeTable m s.table 0 := fun m => if_pos rfl
  rw [mibtblSwapValue_root, hraw, length_writeTable] at hfrom
  rw [mibtblSwapValue_root, hraw, length_writeTable]
  have hsw := (mibtblSwapValue_swapped s.contiguous s.entries d 0).1
  refine ⟨_, mibTlvInit_swapped s hun env hmalloc hsw hst hfrom pfile, ?_⟩
  have := read_write_self pfile 0 (read d 0 s.table.size)
  rwa [length_read] at this

def pairSchema : MibSchema where
  rootId := 0x9000
  table := .cons 0x8001 .tableListT 0 6 3
    (.cons 2 .byteT 0 1 1 .nil (.cons 3 .wordT 1 2 2 .nil .nil)) (.cons 1 .stringT 6 3 1 .nil .nil)
  size_pos := by decide
  entries := by
    refine ⟨⟨?_, ?_, ?_, ?_, ?_, ?_, ?_, ?_, fun _ => ⟨⟨rfl, rfl, trivial⟩, rfl⟩, ?_⟩,
      fun _ => ⟨⟨?_, ?_, ?_, ?_, ?_, ?_, ?_, ?_, ?_, ?_⟩, by simp [MibType.isTable],
        ⟨?_, ?_, ?_, ?_, ?_, ?_, ?_, ?_, ?_, ?_⟩, by simp [MibType.isTable], trivial⟩,
      ⟨?_, ?_, ?_, ?_, ?_, ?_, ?_, ?_, ?_, ?_⟩, by simp [MibType.isTable], trivial⟩
    all_goals simp [MibType.isTable, MibTable.encLen]
  contiguous := ⟨rfl, rfl, trivial⟩
  path := by simp [MibTable.PathDistinct, MibType.isTable]

def pairStruct : Mem := ofList [1, 2, 3, 4, 5, 6, 97, 0, 0]

theorem pairStruct_round_trip :
    let raw := mibWriteToRaw pairSchema.root (mibtblSwapValue pairSchema.rootTable pairStruct 0) 0
    ∃ pfile', mibTlvInit ⟨fun _ => 0, fun _ => true⟩ pairSchema.rootTable (ofList raw) (fun _ => 0)
        raw.length = some (true, pfile') ∧ read pfile' 0 9 = read pairStruct 0 9 :=
  mibTlvInit_mibWriteToRaw pairSchema
    ⟨by simp [pairSchema, MibTable.Unshadowed, MibTable.ids, MibTable.entries, MibTable.allIds],
      by simp [pairSchema, MibTable.All, MibTable.Unshadowed, MibTable.ids, MibTable.entries, MibType.isTable]⟩
    ⟨fun _ => 0, fun _ => true⟩ (fun _ => rfl) pairStruct
    (by simp [pairSchema, StringsOk, ZeroAfterNul, pairStruct, ofList, read_succ])
    _ _ (read_ofList _)

/-- A table and a later byte with the id of a byte inside the table. -/
def shadowSchema : MibSchema where
  rootId := 0x9000
  table := .cons 0x8001 .tableListT 0 1 1 (.cons 1 .byteT 0 1 1 .nil .nil) (.cons 1 .byteT 1 1 1 .nil .nil)
  size_pos := by decide
  entries := by
    refine ⟨⟨?_, ?_, ?_, ?_, ?_, ?_, ?_, ?_, fun _ => ⟨⟨rfl, trivial⟩, rfl⟩, ?_⟩,
      fun _ => ⟨⟨?_, ?_, ?_, ?_, ?_, ?_, ?_, ?_, ?_, ?_⟩, by simp [MibType.isTable], trivial⟩,
      ⟨?_, ?_, ?_, ?_, ?_, ?_, ?_, ?_, ?_, ?_⟩, by simp [MibType.isTable], trivial⟩
    all_goals simp [MibType.isTable, MibTable.encLen]
  contiguous := ⟨rfl, rfl, trivial⟩
  path := by simp [MibTable.PathDistinct, MibType.isTable]

/-- The later byte lands in the table: `5, 7` is read back as `7, 0`. -/
theorem shadowed_id_overwrites :
    let d := ofList [5, 7]
    let raw := mibWriteToRaw shadowSchema.root (mibtblSwapValue shadowSchema.rootTable d 0) 0
    StringsOk d shadowSchema.table 0 ∧ read (ofList raw) 0 raw.length = raw ∧
      ∃ pfile', mibTlvInit ⟨fun _ => 0, fun _ => true⟩ shadowSchema.rootTable (ofList raw) (fun _ => 0)
        raw.length = some (true, pfile') ∧ read pfile' 0 shadowSchema.table.size = [7, 0] ∧
        read pfile' 0 shadowSchema.table.size ≠ read d 0 shadowSchema.table.size := by
  refine ⟨by simp [shadowSchema, StringsOk], read_ofList _, _, rfl, ?_, ?_⟩
  · decide +kernel
  · decide +kernel

end NasFirmware.Mib
