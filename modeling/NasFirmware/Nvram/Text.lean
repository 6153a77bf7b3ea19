import NasFirmware.Nvram.Model

/-!
# The text of the variables

What `nvram_commit` writes and what `_nvram_rehash` makes of it.

* **`nvramGet_rehash`**: the table afterwards holds the tuples of the text, and for a name that is not among them
  the SDRAM parameter of the header, if there is one of that name.
-/

namespace NasFirmware.Nvram

open ByteMem CString

/-! ## Writing -/

def text (ts : List Tuple) : List UInt8 := ts.flatMap entry

@[simp] theorem text_nil : text [] = [] := rfl

theorem text_cons (t : Tuple) (ts : List Tuple) : text (t :: ts) = entry t ++ text ts := List.flatMap_cons

theorem text_append (ts ts' : List Tuple) : text (ts ++ ts') = text ts ++ text ts' := List.flatMap_append

theorem length_entry (t : Tuple) : (entry t).length = t.1.1.length + 1 + t.2.1.length + 1 := by
  simp only [entry, List.length_append, List.length_cons, List.length_nil]
  omega

theorem length_entry_le {t : Tuple} {ts : List Tuple} (ht : t ∈ ts) : (entry t).length ≤ (text ts).length := by
  rw [text, List.length_flatMap]
  exact List.le_sum_of_mem (List.mem_map_of_mem ht)

def fit (lim : ℕ) : ℕ → List Tuple → List Tuple
  | _, [] => []
  | p, t :: ts => if p + (entry t).length > lim then [] else t :: fit lim (p + (entry t).length) ts

def fitChains (lim : ℕ) : ℕ → List (List Tuple) → List Tuple
  | _, [] => []
  | p, c :: cs => fit lim p c ++ fitChains lim (p + (text (fit lim p c)).length) cs

/-- The tuples that `nvram_commit` writes. -/
def stored (env : Env) (h : Handle) : List Tuple :=
  fitChains (env.nvramPartSize - 2) (h.offset + 20) ((List.finRange 257).map h.nvramHash.chain)

section Write

variable {lim p : ℕ} {m : Mem} {ts : List Tuple} {cs : List (List Tuple)}

theorem writeChain_eq (lim : ℕ) (ts : List Tuple) (m : Mem) (p : ℕ) :
    writeChain lim ts (m, p) = (write m p (text (fit lim p ts)), p + (text (fit lim p ts)).length) := by
  induction ts generalizing m p with
  | nil => simp [writeChain, fit]
  | cons t ts ih =>
    have hsize : p + t.1.1.length + 1 + t.2.1.length + 1 = p + (entry t).length := by
      rw [length_entry]
      omega
    rw [writeChain, fit]
    rw [hsize]
    split_ifs with hlim
    · simp
    · rw [ih, text_cons, write_append, List.length_append, Nat.add_assoc]

/-- **The chains are written one after the other.** -/
theorem foldl_writeChain (lim : ℕ) (cs : List (List Tuple)) (m : Mem) (p : ℕ) :
    cs.foldl (fun s c => writeChain lim c s) (m, p) =
      (write m p (text (fitChains lim p cs)), p + (text (fitChains lim p cs)).length) := by
  induction cs generalizing m p with
  | nil => simp [fitChains]
  | cons c cs ih =>
    rw [List.foldl_cons, writeChain_eq, ih, fitChains, text_append, write_append, List.length_append,
      Nat.add_assoc]

theorem writeTuples_eq (env : Env) (h : Handle) (m : Mem) :
    writeTuples (env.nvramPartSize - 2) h (m, h.offset + 20) =
      (write m (h.offset + 20) (text (stored env h)), h.offset + 20 + (text (stored env h)).length) := by
  rw [stored, ← foldl_writeChain, List.foldl_map]
  rfl

theorem fit_sublist : (fit lim p ts).Sublist ts := by
  induction ts generalizing p with
  | nil => exact List.Sublist.slnil
  | cons t ts ih =>
    rw [fit]
    split_ifs
    · exact List.nil_sublist _
    · exact ih.cons_cons t

theorem fitChains_sublist : (fitChains lim p cs).Sublist cs.flatten := by
  induction cs generalizing p with
  | nil => exact List.Sublist.slnil
  | cons c cs ih => exact fit_sublist.append ih

theorem length_text_fit : (text (fit lim p ts)).length ≤ lim - p := by
  induction ts generalizing p with
  | nil => exact Nat.zero_le _
  | cons t ts ih =>
    rw [fit]
    split_ifs with hlim
    · exact Nat.zero_le _
    · have := @ih (p + (entry t).length)
      rw [text_cons, List.length_append]
      omega

theorem length_text_fitChains : (text (fitChains lim p cs)).length ≤ lim - p := by
  induction cs generalizing p with
  | nil => exact Nat.zero_le _
  | cons c cs ih =>
    have h1 := @length_text_fit lim p c
    have h2 := @ih (p + (text (fit lim p c)).length)
    rw [fitChains, text_append, List.length_append]
    omega

theorem fit_eq_self (h : p + (text ts).length ≤ lim) : fit lim p ts = ts := by
  induction ts generalizing p with
  | nil => rfl
  | cons t ts ih =>
    rw [text_cons, List.length_append] at h
    rw [fit, if_neg (by omega), ih (by omega)]

theorem fitChains_eq_flatten (h : p + (text cs.flatten).length ≤ lim) : fitChains lim p cs = cs.flatten := by
  induction cs generalizing p with
  | nil => rfl
  | cons c cs ih =>
    rw [List.flatten_cons, text_append, List.length_append] at h
    rw [fitChains, fit_eq_self (by omega), ih (by omega), List.flatten_cons]

end Write

section Stored

variable {env : Env} {h : Handle}

theorem tuples_eq (h : Handle) : tuples h = ((List.finRange 257).map h.nvramHash.chain).flatten := by
  rw [tuples, Chained.Table.entries, List.flatMap_def]

theorem stored_sublist (env : Env) (h : Handle) : (stored env h).Sublist (tuples h) := by
  exact fitChains_sublist

theorem stored_distinct (env : Env) (h : Handle) : Keyed.Distinct Prod.fst (stored env h) :=
  h.nvramHash.distinct_entries.sublist ((stored_sublist env h).map _)

theorem length_text_stored (env : Env) (h : Handle) :
    (text (stored env h)).length ≤ env.nvramPartSize - h.offset - 22 := by
  have := @length_text_fitChains (env.nvramPartSize - 2) (h.offset + 20)
    ((List.finRange 257).map h.nvramHash.chain)
  rw [stored]
  omega

theorem stored_eq_tuples (hroom : 22 + (text (tuples h)).length ≤ env.nvramPartSize - h.offset) :
    stored env h = tuples h := by
  rw [tuples_eq] at hroom ⊢
  exact fitChains_eq_flatten (by omega)

end Stored

/-! ## Reading -/

section Read

variable {h : Handle} {a : ℕ} {ts : List Tuple} {name : CStr} {t : Tuple}

def setAll (h : Handle) (ts : List Tuple) : Handle := ts.foldl (fun h t => (nvramSet h t.1 t.2).2) h

/-- **The text of `ts` is read back.** -/
theorem rehashLoop_text (hnames : ∀ t ∈ ts, 61 ∉ t.1.1) (hend : a + (text ts).length < h.length)
    (hread : read h.mmap a (text ts ++ [0]).length = text ts ++ [0]) : rehashLoop a h = setAll h ts := by
  induction ts generalizing a h with
  | nil =>
    have htext : (textAt h a).1 = [] := strAt_of_read List.not_mem_nil (by simpa using Nat.sub_pos_of_lt hend) hread
    rw [rehashLoop, dif_pos htext]
    rfl
  | cons t ts ih =>
    have hnul : 0 ∉ t.1.1 ++ 61 :: t.2.1 := by
      rw [List.mem_append, List.mem_cons, not_or, not_or]
      exact ⟨t.1.2, by decide, t.2.2⟩
    have hentry : entry t = (t.1.1 ++ 61 :: t.2.1) ++ [0] := by simp [entry]
    rw [text_cons, List.append_assoc] at hread
    rw [text_cons, List.length_append] at hend
    have htext : (textAt h a).1 = t.1.1 ++ 61 :: t.2.1 := by
      have hfirst := read_append_left hread
      rw [hentry] at hfirst
      refine strAt_of_read hnul ?_ hfirst
      rw [hentry, List.length_append, List.length_singleton] at hend
      omega
    have hlen : a + (textAt h a).1.length + 1 = a + (entry t).length := by
      rw [htext, hentry, ← List.concat_eq_append, List.length_concat, Nat.add_assoc]
    rw [rehashLoop, dif_neg (by rw [htext]; simp), cut_append (hnames t List.mem_cons_self) htext]
    dsimp only
    rw [hlen, ih (fun u hu => hnames u (List.mem_cons_of_mem _ hu))
      (by rw [(nvramSet_sameMap ..).length]; omega)
      (by rw [(nvramSet_sameMap ..).mmap]; exact read_append_right hread)]
    rfl

theorem setAll_sameMap (h : Handle) (ts : List Tuple) : SameMap h (setAll h ts) :=
  SameMap.foldl (fun _ _ => nvramSet_sameMap ..) ts h

def valueIn (ts : List Tuple) (name : CStr) : Option CStr := (Keyed.get Prod.fst name ts).map Prod.snd

theorem valueIn_cons (t : Tuple) (ts : List Tuple) (name : CStr) :
    valueIn (t :: ts) name = if t.1 = name then some t.2 else valueIn ts name := by
  rw [valueIn, Keyed.get_cons]
  split_ifs <;> rfl

theorem mem_of_valueIn {value : CStr} (hv : valueIn ts name = some value) : (name, value) ∈ ts := by
  obtain ⟨t, ht, rfl⟩ := Option.map_eq_some_iff.mp hv
  obtain ⟨hmem, rfl⟩ := Keyed.mem_of_get ht
  exact hmem

theorem nvramGet_setAll (hd : Keyed.Distinct Prod.fst ts) (hfit : ∀ t ∈ ts, t.2.1.length + 1 ≤ h.length - h.offset) :
    nvramGet (setAll h ts) name = (valueIn ts name).or (nvramGet h name) := by
  induction ts generalizing h with
  | nil => rfl
  | cons t ts ih =>
    obtain ⟨ht, hd⟩ := List.nodup_cons.mp hd
    have hih := @ih (nvramSet h t.1 t.2).2 hd fun u hu => by
      rw [(nvramSet_sameMap ..).length, (nvramSet_sameMap ..).offset]
      exact hfit u (List.mem_cons_of_mem _ hu)
    have hcons : setAll h (t :: ts) = setAll (nvramSet h t.1 t.2).2 ts := rfl
    rw [hcons, hih, nvramGet_set (hfit t List.mem_cons_self), valueIn_cons]
    by_cases hn : t.1 = name
    · -- the name does not come again
      subst hn
      rw [if_pos rfl, if_pos rfl, valueIn, Keyed.get_eq_none_iff.mpr ht]
      rfl
    · rw [if_neg hn, if_neg (Ne.symm hn)]

theorem setMissing_sameMap (h : Handle) (t : Tuple) : SameMap h (setMissing h t) := by
  unfold setMissing
  split_ifs
  · exact nvramSet_sameMap ..
  · exact .refl h

theorem nvramGet_setMissing (hfit : t.2.1.length + 1 ≤ h.length - h.offset) :
    nvramGet (setMissing h t) name = (nvramGet h name).or (if t.1 = name then some t.2 else none) := by
  unfold setMissing
  split_ifs with hn ht ht
  · subst ht
    rw [nvramGet_set hfit, if_pos rfl, hn]
    rfl
  · rw [nvramGet_set hfit, if_neg (Ne.symm ht), Option.or_none]
  · subst ht
    obtain ⟨v, hv⟩ := Option.ne_none_iff_exists'.mp hn
    rw [hv, Option.some_or]
  · rw [Option.or_none]

theorem nvramGet_foldl_setMissing (hfit : ∀ t ∈ ts, t.2.1.length + 1 ≤ h.length - h.offset) :
    nvramGet (ts.foldl setMissing h) name = (nvramGet h name).or (valueIn ts name) := by
  induction ts generalizing h with
  | nil => exact (Option.or_none).symm
  | cons t ts ih =>
    rw [List.foldl_cons, ih fun u hu => by
        rw [(setMissing_sameMap ..).length, (setMissing_sameMap ..).offset]
        exact hfit u (List.mem_cons_of_mem _ hu),
      nvramGet_setMissing (hfit t List.mem_cons_self), valueIn_cons, Option.or_assoc]
    split_ifs <;> rfl

theorem length_sdramParams {m : Mem} {off : ℕ} (ht : t ∈ sdramParams m off) : t.2.1.length ≤ 10 := by
  simp only [sdramParams, List.mem_cons, List.not_mem_nil, or_false] at ht
  rcases ht with rfl | rfl | rfl | rfl <;> simp [length_hex]

/-- **What the table holds after the text of `ts` has been parsed.** -/
theorem nvramGet_rehash (hd : Keyed.Distinct Prod.fst ts) (hnames : ∀ t ∈ ts, 61 ∉ t.1.1)
    (hroom : h.offset + 20 + (text ts).length < h.length)
    (hread : read h.mmap (h.offset + 20) (text ts ++ [0]).length = text ts ++ [0]) :
    nvramGet (nvramRehash h).2 name = (valueIn ts name).or (valueIn (sdramParams h.mmap h.offset) name) := by
  have hfit : ∀ t ∈ ts, t.2.1.length + 1 ≤ h.length - h.offset := by
    intro t ht
    have hle := length_entry_le ht
    rw [length_entry] at hle
    omega
  have hloop : rehashLoop (h.offset + 20) { h with nvramHash := .empty } =
      setAll { h with nvramHash := .empty } ts := rehashLoop_text hnames hroom hread
  unfold nvramRehash
  rw [hloop, nvramGet_foldl_setMissing]
  · have hset : nvramGet (setAll { h with nvramHash := .empty } ts) name = (valueIn ts name).or none :=
      nvramGet_setAll hd hfit
    rw [hset, Option.or_none]
  · intro t ht
    have := length_sdramParams ht
    rw [(setAll_sameMap ..).length, (setAll_sameMap ..).offset]
    dsimp only
    omega

end Read

end NasFirmware.Nvram
