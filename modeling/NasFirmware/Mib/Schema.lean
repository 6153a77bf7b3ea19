import NasFirmware.Mib.Elements

/-!
# Schemas

What a schema tree has to satisfy, and what follows for each of the functions that walk it.
-/

namespace NasFirmware.Mib

open ByteMem

def MibTable.size : MibTable → ℕ
  | .nil => 0
  | .cons _ _ _ totalSize _ _ rest => totalSize + rest.size

/-- The entries follow each other without gaps, the first one at `o`. -/
def MibTable.Contiguous : MibTable → ℕ → Prop
  | .nil, _ => True
  | .cons _ _ offset totalSize _ _ rest, o => offset = o ∧ rest.Contiguous (o + totalSize)

/-- The number of bytes of one unit in TLV form. -/
def MibTable.encLen : MibTable → ℕ
  | .nil => 0
  | .cons _ type _ totalSize unitSize next rest =>
    4 + (if type.isTable then totalSize / unitSize * next.encLen else totalSize) + rest.encLen

/-- `P` holds of every entry, at every level. -/
def MibTable.All (P : MibEntry → Prop) : MibTable → Prop
  | .nil => True
  | .cons id type offset totalSize unitSize next rest =>
    P ⟨id, type, offset, totalSize, unitSize, next⟩ ∧ (type.isTable → next.All P) ∧ rest.All P

/-- What an entry has to satisfy: sizes, tag, and the layout and length of the table below it. -/
structure EntryOk (e : MibEntry) : Prop where
  unit_pos : 0 < e.unitSize
  dvd : e.unitSize ∣ e.totalSize
  total_lt : e.totalSize < 65536
  word : e.type = .wordT → e.unitSize = 2 ∧ e.totalSize = 2
  dword : e.type = .dwordT → e.unitSize = 4 ∧ e.totalSize = 4
  id_pos : 0 < e.id
  id_lt : e.id < 65536
  bit : e.id &&& 0x8000 ≠ 0 ↔ e.type.isTable = true
  layout : e.type.isTable → e.next.Contiguous 0 ∧ e.unitSize = e.next.size
  content : e.type.isTable → e.totalSize / e.unitSize * e.next.encLen < 65536

def MibTable.ids (t : MibTable) : List ℕ := t.entries.map MibEntry.id

def MibTable.allIds : MibTable → List ℕ
  | .nil => []
  | .cons id type _ _ _ next rest => id :: (if type.isTable then next.allIds else []) ++ rest.allIds

/-- No id is one of those `above` it, on any path downwards. -/
def MibTable.PathDistinct : MibTable → List ℕ → Prop
  | .nil, _ => True
  | .cons id type _ _ _ next rest, above =>
    id ∉ above ∧ (type.isTable → next.PathDistinct (id :: above)) ∧ rest.PathDistinct above

/-- No id of the table occurs at or below an earlier entry of the table. -/
def MibTable.Unshadowed : MibTable → Prop
  | .nil => True
  | .cons id type _ _ _ next rest =>
    (∀ i ∈ rest.ids, i ≠ id ∧ (type.isTable → i ∉ next.allIds)) ∧ rest.Unshadowed

def MibTable.AllUnshadowed (t : MibTable) : Prop :=
  t.Unshadowed ∧ t.All fun e => e.type.isTable → e.next.Unshadowed

/-- A schema tree: the table of a struct below a root entry. -/
structure MibSchema where
  rootId : ℕ
  table : MibTable
  size_pos : 0 < table.size
  entries : table.All EntryOk
  contiguous : table.Contiguous 0
  path : table.PathDistinct [rootId]

def MibSchema.root (s : MibSchema) : MibEntry :=
  ⟨s.rootId, .tableListT, 0, s.table.size, s.table.size, s.table⟩

/-- The root table, as `mib_get_table` returns it. -/
def MibSchema.rootTable (s : MibSchema) : MibTable :=
  .cons s.rootId .tableListT 0 s.table.size s.table.size s.table .nil

section Entries

variable {P : MibEntry → Prop} {t : MibTable} {e : MibEntry}

theorem MibTable.All.of_mem (h : t.All P) (he : e ∈ t.entries) : P e := by
  induction t with
  | nil => simp [MibTable.entries] at he
  | cons id type offset totalSize unitSize next rest _ ih =>
    rcases List.mem_cons.mp he with rfl | he
    · exact h.1
    · exact ih h.2.2 he

theorem MibTable.All.next_of_mem (h : t.All P) (he : e ∈ t.entries) (htab : e.type.isTable) :
    e.next.All P := by
  induction t with
  | nil => simp [MibTable.entries] at he
  | cons id type offset totalSize unitSize next rest _ ih =>
    rcases List.mem_cons.mp he with rfl | he
    · exact h.2.1 htab
    · exact ih h.2.2 he

theorem MibTable.depth_of_mem (he : e ∈ t.entries) : e.next.depth < t.depth := by
  induction t with
  | nil => simp [MibTable.entries] at he
  | cons id type offset totalSize unitSize next rest _ ih =>
    simp only [MibTable.depth]
    rcases List.mem_cons.mp he with rfl | he
    · show next.depth < _
      omega
    · have := ih he
      omega

end Entries

variable {t : MibTable} {e : MibEntry} {m : Mem} {o x : ℕ}

theorem mibSearchById_none {i : ℕ} (h : i ∉ t.allIds) (num : ℕ → UInt8) (off : ℕ) :
    mibSearchById i t num off = none := by
  induction t generalizing num off with
  | nil => rfl
  | cons id type offset totalSize unitSize next rest ihn ihr =>
    simp only [MibTable.allIds, List.cons_append, List.mem_cons, List.mem_append, not_or] at h
    obtain ⟨hid, hnext, hrest⟩ := h
    rw [mibSearchById, if_neg hid, ihr hrest]
    split_ifs with htab
    · rw [if_pos htab.1] at hnext
      rw [ihn hnext]
    · rfl

/-- **The search finds the entries of an unshadowed table.** -/
theorem mibSearchById_entry (h : t.Unshadowed) (he : e ∈ t.entries)
    (num : ℕ → UInt8) (h0 : num 0 = 0) (off : ℕ) :
    mibSearchById e.id t num off = some (e, off + e.offset) := by
  induction t with
  | nil => simp [MibTable.entries] at he
  | cons id type offset totalSize unitSize next rest _ ih =>
    rcases List.mem_cons.mp he with rfl | he
    · simp [mibSearchById, h0]
    · obtain ⟨hne, hbelow⟩ := h.1 e.id (List.mem_map_of_mem he)
      rw [mibSearchById, if_neg hne, ih h.2 he]
      split_ifs with htab
      · rw [mibSearchById_none (hbelow htab.1)]
      · rfl

/-- The value of an entry in TLV form; `o` is the address of the struct. -/
def entryValue (m : Mem) (o : ℕ) (e : MibEntry) : List UInt8 :=
  if e.type.isTable then (List.range (e.totalSize / e.unitSize)).flatMap fun j =>
    writeTable m e.next (o + e.offset + j * e.unitSize)
  else read m (o + e.offset) e.totalSize

def entryElem (m : Mem) (o : ℕ) (e : MibEntry) : Elem := (e.id, entryValue m o e)

theorem length_writeTable (m : Mem) (t : MibTable) (p : ℕ) : (writeTable m t p).length = t.encLen := by
  induction t generalizing p with
  | nil => rfl
  | cons id type offset totalSize unitSize next rest ihn ihr =>
    rw [writeTable, MibTable.encLen]
    split_ifs with htab
    · simp only [List.length_append, length_raw16, List.length_flatMap, ihn, ihr, List.map_const',
        List.length_range, List.sum_replicate, smul_eq_mul]
    · simp only [List.length_append, length_raw16, length_read, ihr]

theorem length_entryValue_table (h : e.type.isTable) :
    (entryValue m o e).length = e.totalSize / e.unitSize * e.next.encLen := by
  simp [entryValue, h, length_writeTable, List.map_const', List.length_range, smul_eq_mul]

theorem entryElem_ok (h : EntryOk e) : ElemOk (entryElem m o e) := by
  refine ⟨h.id_lt, ?_⟩
  by_cases htab : e.type.isTable
  · simp only [entryElem]
    rw [length_entryValue_table htab]
    exact h.content htab
  · simp only [entryElem, entryValue, htab, Bool.false_eq_true, if_false, length_read]
    exact h.total_lt

/-- **The running offset of the writer meets the offsets of the entries.** -/
theorem writeTable_eq (o : ℕ) (hc : t.Contiguous x)
    (hok : ∀ e ∈ t.entries, EntryOk e) :
    writeTable m t (o + x) = streamBytes (t.entries.map (entryElem m o)) := by
  induction t generalizing x with
  | nil => rfl
  | cons id type offset totalSize unitSize next rest _ ih =>
    obtain ⟨rfl, hc⟩ := hc
    have he := hok ⟨id, type, offset, totalSize, unitSize, next⟩ List.mem_cons_self
    have hmul : totalSize / unitSize * unitSize = totalSize := Nat.div_mul_cancel he.dvd
    have hrest := ih hc fun e he => hok e (List.mem_cons_of_mem _ he)
    rw [writeTable, MibTable.entries, List.map_cons]
    simp only [streamBytes, List.flatMap_cons, elemBytes, entryElem, entryValue]
    rw [← Nat.add_assoc] at hrest
    split_ifs with htab
    · rw [hmul, hrest]
      rfl
    · rw [hrest, length_read]
      rfl

/-! ## Swapping -/

def swapBytes (type : MibType) (bs : List UInt8) : List UInt8 :=
  match type with
  | .wordT | .dwordT => bs.reverse
  | _ => bs

/-- `d'` is the struct `d` at `o` with the words of all its fields swapped. -/
def Swapped (d d' : Mem) : MibTable → ℕ → Prop
  | .nil, _ => True
  | .cons _ type off totalSize unitSize next rest, o =>
    (type.isTable = true → ∀ j < totalSize / unitSize, Swapped d d' next (o + off + j * unitSize)) ∧
    (type.isTable = false → read d' (o + off) totalSize = swapBytes type (read d (o + off) totalSize)) ∧
    Swapped d d' rest o

theorem unit_le {totalSize unitSize j : ℕ} (hd : unitSize ∣ totalSize)
    (hj : j < totalSize / unitSize) : j * unitSize + unitSize ≤ totalSize := by
  calc j * unitSize + unitSize = (j + 1) * unitSize := by ring
    _ ≤ totalSize / unitSize * unitSize := Nat.mul_le_mul_right _ hj
    _ = totalSize := Nat.div_mul_cancel hd

theorem Swapped.congr {d d' e e' : Mem} (h : Swapped d d' t o)
    (hc : t.Contiguous x) (hok : t.All EntryOk)
    (hd : ∀ k, o + x ≤ k → k < o + x + t.size → e k = d k)
    (hd' : ∀ k, o + x ≤ k → k < o + x + t.size → e' k = d' k) : Swapped e e' t o := by
  induction t generalizing o x with
  | nil => trivial
  | cons id type off totalSize unitSize next rest ihn ihr =>
    obtain ⟨rfl, hc⟩ := hc
    obtain ⟨he, hnext, hrest⟩ := hok
    obtain ⟨h1, h2, h3⟩ := h
    simp only [MibTable.size] at hd hd'
    refine ⟨fun htab j hj => ?_, fun htab => ?_, ?_⟩
    · obtain ⟨hc0, hu⟩ := he.layout htab
      have hle := unit_le he.dvd hj
      simp only at hu hle
      refine ihn (h1 htab j hj) hc0 (hnext htab) (fun k hk hlt => hd k ?_ ?_)
        (fun k hk hlt => hd' k ?_ ?_)
      all_goals omega
    · rw [read_congr (m := d') fun k hk hlt => hd' k hk (by omega),
        read_congr (m := d) fun k hk hlt => hd k hk (by omega)]
      exact h2 htab
    · refine ihr h3 hc hrest (fun k hk hlt => hd k ?_ ?_) (fun k hk hlt => hd' k ?_ ?_)
      all_goals omega

theorem swap_field (he : EntryOk e) (htab : e.type.isTable = false) (m : Mem) (p : ℕ) :
    let m' := (List.range (e.totalSize / e.unitSize)).foldl
      (fun data j => mibSwapValue e.type data (p + j * e.unitSize)) m
    read m' p e.totalSize = swapBytes e.type (read m p e.totalSize) ∧
      ∀ k, k < p ∨ p + e.totalSize ≤ k → m' k = m k := by
  by_cases hw : e.type = .wordT
  · obtain ⟨hu, ht⟩ := he.word hw
    rw [hw, hu, ht]
    have hone : mibSwapValue .wordT m (p + 0 * 2) = write m p [m (p + 1), m p] := by
      simp [mibSwapValue, store16_wordSwap]
    simp only [Nat.div_self, Nat.zero_lt_succ, List.range_one, List.foldl_cons, List.foldl_nil, hone]
    refine ⟨read_write_self m p [m (p + 1), m p], fun k hk => ?_⟩
    exact hk.elim write_apply_lt fun h => write_apply_ge (by simpa using h)
  by_cases hdw : e.type = .dwordT
  · obtain ⟨hu, ht⟩ := he.dword hdw
    rw [hdw, hu, ht]
    have hone : mibSwapValue .dwordT m (p + 0 * 4) =
        write m p [m (p + 3), m (p + 2), m (p + 1), m p] := by
      simp [mibSwapValue, store32_dwordSwap]
    simp only [Nat.div_self, Nat.zero_lt_succ, List.range_one, List.foldl_cons, List.foldl_nil, hone]
    refine ⟨read_write_self m p [m (p + 3), m (p + 2), m (p + 1), m p], fun k hk => ?_⟩
    exact hk.elim write_apply_lt fun h => write_apply_ge (by simpa using h)
  · -- other types are left alone
    have hid : ∀ data q, mibSwapValue e.type data q = data := by
      intro data q
      cases ht : e.type <;> simp_all [mibSwapValue, MibType.isTable]
    have hsb : ∀ bs, swapBytes e.type bs = bs := by
      intro bs
      cases ht : e.type <;> simp_all [swapBytes]
    simp [hid, hsb]

theorem swap_units {next : MibTable} {u : ℕ} (hu : u = next.size) (hc : next.Contiguous 0)
    (hok : next.All EntryOk)
    (ih : ∀ m o, Swapped m (mibtblSwapValue next m o) next o ∧
      ∀ k, k < o ∨ o + next.size ≤ k → mibtblSwapValue next m o k = m k)
    (m : Mem) (p n : ℕ) :
    let m' := (List.range n).foldl (fun data j => mibtblSwapValue next data (p + j * u)) m
    (∀ j < n, Swapped m m' next (p + j * u)) ∧ ∀ k, k < p ∨ p + n * u ≤ k → m' k = m k := by
  induction n with
  | zero => exact ⟨by omega, fun k _ => rfl⟩
  | succ n ihn =>
    obtain ⟨hs, hf⟩ := ihn
    simp only [List.range_succ, List.foldl_append, List.foldl_cons, List.foldl_nil]
    set m₁ := (List.range n).foldl (fun data j => mibtblSwapValue next data (p + j * u)) m
    obtain ⟨hs', hf'⟩ := ih m₁ (p + n * u)
    have hmul : (n + 1) * u = n * u + u := by ring
    refine ⟨fun j hj => ?_, fun k hk => ?_⟩
    · rcases Nat.lt_succ_iff_lt_or_eq.mp hj with hlt | rfl
      · have hle : j * u + u ≤ n * u := by
          rw [← Nat.succ_mul]
          exact Nat.mul_le_mul_right _ hlt
        refine (hs j hlt).congr (x := 0) hc hok (fun _ _ _ => rfl) fun k hk hlt' => hf' k ?_
        omega
      · exact hs'.congr (x := 0) hc hok (fun k hk hlt' => (hf k (by omega)).symm) fun _ _ _ => rfl
    · rw [hf' k (by omega), hf k (by omega)]

/-- **`_mibtbl_swap_value` swaps the fields of the struct and nothing else.** -/
theorem mibtblSwapValue_swapped (hc : t.Contiguous x) (hok : t.All EntryOk)
    (m : Mem) (o : ℕ) : Swapped m (mibtblSwapValue t m o) t o ∧
      ∀ k, k < o + x ∨ o + x + t.size ≤ k → mibtblSwapValue t m o k = m k := by
  induction t generalizing x m o with
  | nil => exact ⟨trivial, fun k _ => rfl⟩
  | cons id type off totalSize unitSize next rest ihn ihr =>
    obtain ⟨rfl, hc⟩ := hc
    obtain ⟨he, hnext, hrest⟩ := hok
    -- the entry itself: its fields are swapped, nothing outside it is touched
    have hentry : ∃ m₁, mibtblSwapValue (.cons id type off totalSize unitSize next rest) m o =
          mibtblSwapValue rest m₁ o ∧
        (∀ k, k < o + off ∨ o + off + totalSize ≤ k → m₁ k = m k) ∧
        (type.isTable = true → ∀ j < totalSize / unitSize,
          Swapped m m₁ next (o + off + j * unitSize)) ∧
        (type.isTable = false →
          read m₁ (o + off) totalSize = swapBytes type (read m (o + off) totalSize)) := by
      by_cases htab : type.isTable = true
      · obtain ⟨hc0, hu⟩ := he.layout htab
        have hu' : unitSize = next.size := hu
        have hmul : totalSize / unitSize * unitSize = totalSize := Nat.div_mul_cancel he.dvd
        obtain ⟨hs, hf⟩ := swap_units hu' hc0 (hnext htab)
          (fun m o => by simpa using ihn hc0 (hnext htab) m o) m (o + off) (totalSize / unitSize)
        rw [hmul] at hf
        exact ⟨_, by simp [mibtblSwapValue, htab], hf, fun _ => hs, by simp [htab]⟩
      · have htab' : type.isTable = false := by simpa using htab
        obtain ⟨hs, hf⟩ := swap_field he htab' m (o + off)
        exact ⟨_, by simp [mibtblSwapValue, htab'], hf,
          by simp [htab'], fun _ => hs⟩
    obtain ⟨m₁, heq, hf₁, htab₁, hscal₁⟩ := hentry
    obtain ⟨hs, hf⟩ := ihr hc hrest m₁ o
    rw [heq]
    simp only [MibTable.size]
    refine ⟨⟨fun htab j hj => ?_, fun htab => ?_, ?_⟩, fun k hk => ?_⟩
    · obtain ⟨hc0, hu⟩ := he.layout htab
      have hu' : unitSize = next.size := hu
      have hle : j * unitSize + unitSize ≤ totalSize := unit_le he.dvd hj
      exact (htab₁ htab j hj).congr (x := 0) hc0 (hnext htab) (fun _ _ _ => rfl)
        fun k hk hlt => hf k (by omega)
    · rw [read_congr fun k hk hlt => hf k (by omega)]
      exact hscal₁ htab
    · exact hs.congr hc hrest (fun k hk _ => (hf₁ k (by omega)).symm) fun _ _ _ => rfl
    · rw [hf k (by omega), hf₁ k (by omega)]

end NasFirmware.Mib
