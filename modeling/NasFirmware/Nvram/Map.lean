import NasFirmware.Nvram.Model

/-!
# A handle is a map

`nvram_set` and `nvram_unset` are called in any order, and what they returned says which value a name has. The list of
dead tuples, which only `_nvram_free` reads, is left out.
-/

namespace NasFirmware.Nvram

open CString

inductive Call
  | set (name value : CStr)
  | unset (name : CStr)

def Handle.call (h : Handle) : Call → ℤ × Handle
  | .set name value => nvramSet h name value
  | .unset name => nvramUnset h name

/-- The calls with what they returned, and the handle after them. -/
def calls (h : Handle) : List Call → List (Call × ℤ) × Handle
  | [] => ([], h)
  | c :: cs => ((c, (h.call c).1) :: (calls (h.call c).2 cs).1, (calls (h.call c).2 cs).2)

/-- `nvram_getall`, if memory is found: every tuple goes in front of those before it. -/
def nvramGetall (h : Handle) : List Tuple :=
  (List.finRange 257).foldl (fun l i => (h.nvramHash.chain i).foldl (fun l t => t :: l) l) []

/-- What a call and its result say about a name: a value, that there is none (`some none`), or nothing. -/
def told (name : CStr) : Call × ℤ → Option (Option CStr)
  | (.set n value, result) => if n = name ∧ result = 0 then some (some value) else none
  | (.unset n, _) => if n = name then some none else none

section

variable {h : Handle} {name value : CStr}

theorem nvramSet_failed (hfail : (nvramSet h name value).1 ≠ 0) : (nvramSet h name value).2 = h := by
  unfold nvramSet at hfail ⊢
  split_ifs at hfail ⊢ with hlong
  · rfl
  · exact absurd rfl hfail

theorem nvramGet_call (c : Call) :
    nvramGet (h.call c).2 name = (told name (c, (h.call c).1)).getD (nvramGet h name) := by
  cases c with
  | set n v =>
    rcases Nat.lt_or_ge (h.length - h.offset) (v.1.length + 1) with hlong | hfit
    · simp [Handle.call, nvramSet, told, hlong]
    · have hzero : (nvramSet h n v).1 = 0 := by rw [nvramSet, if_neg (Nat.not_lt.mpr hfit)]
      rw [Handle.call, nvramGet_set hfit, told, hzero]
      by_cases hn : name = n
      · simp [hn]
      · simp [hn, Ne.symm hn]
  | unset n =>
    rw [Handle.call, nvramGet_unset, told]
    by_cases hn : name = n
    · simp [hn]
    · simp [hn, Ne.symm hn]

theorem nvramGet_calls (cs : List Call) : nvramGet (calls h cs).2 name =
    ((calls h cs).1.reverse.findSome? (told name)).getD (nvramGet h name) := by
  induction cs generalizing h with
  | nil => rfl
  | cons c cs ih =>
    rw [calls, ih, nvramGet_call, List.reverse_cons, List.findSome?_append, List.findSome?_singleton]
    -- what a later call says counts first
    cases (calls (h.call c).2 cs).1.reverse.findSome? (told name) <;> rfl

theorem nvramGetall_eq : nvramGetall h = (tuples h).reverse := by
  rw [nvramGetall, ← List.foldl_flatMap, List.foldl_flip_cons_eq_append', List.append_nil]
  rfl

end

/-- **A handle is a map.** After any calls a name has the value that the latest call about it says, or the one it had;
a failing `nvram_set` changes nothing; and `nvram_getall` lists every variable once. -/
theorem handle_map (h : Handle) (cs : List Call) :
    (∀ name, nvramGet (calls h cs).2 name =
      ((calls h cs).1.reverse.findSome? (told name)).getD (nvramGet h name)) ∧
    (∀ name value, (nvramSet (calls h cs).2 name value).1 ≠ 0 →
      (nvramSet (calls h cs).2 name value).2 = (calls h cs).2) ∧
    ((nvramGetall (calls h cs).2).map Prod.fst).Nodup ∧
    ∀ name value, (name, value) ∈ nvramGetall (calls h cs).2 ↔ nvramGet (calls h cs).2 name = some value := by
  refine ⟨fun name => nvramGet_calls cs, fun name value => nvramSet_failed, ?_, fun name value => ?_⟩
  · rw [nvramGetall_eq, List.map_reverse, List.nodup_reverse]
    exact Chained.Table.distinct_entries
  · rw [nvramGetall_eq, List.mem_reverse]
    exact Chained.Table.mem_entries

end NasFirmware.Nvram
