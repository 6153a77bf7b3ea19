import NasFirmware.Lib.Keyed

/-!
# Hash tables with chains

A table of `n` chains. A key has one chain, `bucket k`, and a chain holds a key once; the record carries both
facts, so every operation has to keep them.

* `entries`: the chains one after the other; **`mem_entries`**: they are what is found, once each
  (`distinct_entries`); `entries_insert`: a new key adds one.
-/

namespace Chained

variable {κ β : Type} {n : ℕ}

/-- Chains, each with its own keys, no key twice. -/
structure Table (bucket : κ → Fin n) (β : Type) where
  chain : Fin n → List (κ × β)
  hashed : ∀ i, ∀ e ∈ chain i, bucket e.1 = i
  distinct : ∀ i, Keyed.Distinct Prod.fst (chain i)

namespace Table

variable {bucket : κ → Fin n} {T : Table bucket β} {k k' : κ} {v : β}

def empty : Table bucket β where
  chain _ := []
  hashed _ _ h := absurd h List.not_mem_nil
  distinct _ := List.nodup_nil

def entries (T : Table bucket β) : List (κ × β) := (List.finRange n).flatMap T.chain

def setChain (T : Table bucket β) (k : κ) (l : List (κ × β)) (hl : ∀ e ∈ l, bucket e.1 = bucket k)
    (hd : Keyed.Distinct Prod.fst l) : Table bucket β where
  chain := Function.update T.chain (bucket k) l
  hashed i e he := by
    by_cases hi : i = bucket k
    · subst hi
      rw [Function.update_self] at he
      exact hl e he
    · rw [Function.update_of_ne hi] at he
      exact T.hashed i e he
  distinct i := by
    by_cases hi : i = bucket k
    · subst hi
      rwa [Function.update_self]
    · rw [Function.update_of_ne hi]
      exact T.distinct i

theorem distinct_entries : Keyed.Distinct Prod.fst T.entries := by
  rw [Keyed.Distinct, entries, List.map_flatMap, List.nodup_flatMap]
  refine ⟨fun i _ => T.distinct i, ?_⟩
  refine (List.nodup_finRange n).imp fun {i j} hij => ?_
  -- a key in two chains would have two buckets
  intro k hi hj
  obtain ⟨e, he, rfl⟩ := List.mem_map.mp hi
  obtain ⟨e', he', hk⟩ := List.mem_map.mp hj
  exact hij ((T.hashed i e he).symm.trans ((congrArg bucket hk.symm).trans (T.hashed j e' he')))

variable [DecidableEq κ]

def find (T : Table bucket β) (k : κ) : Option β := (Keyed.get Prod.fst k (T.chain (bucket k))).map Prod.snd

/-- `k` gets the value `v` in a chain: in its entry, or in a new one at the head. -/
def put (k : κ) (v : β) (l : List (κ × β)) : List (κ × β) :=
  match Keyed.get Prod.fst k l with
  | some _ => Keyed.modify Prod.fst k (fun e => (e.1, v)) l
  | none => (k, v) :: l

section Put

variable {l : List (κ × β)}

theorem get_put : (Keyed.get Prod.fst k' (put k v l)).map Prod.snd =
    if k' = k then some v else (Keyed.get Prod.fst k' l).map Prod.snd := by
  unfold put
  cases hg : Keyed.get Prod.fst k l with
  | none =>
    rw [Keyed.get_cons]
    by_cases hk : k' = k
    · rw [if_pos hk.symm, if_pos hk, Option.map_some]
    · rw [if_neg (Ne.symm hk), if_neg hk]
  | some e =>
    have hf : ∀ e : κ × β, e.1 = k → (e.1, v).1 = k := fun _ h => h
    rw [Keyed.get_modify hf, hg]
    split_ifs <;> rfl

theorem distinct_put (hl : Keyed.Distinct Prod.fst l) : Keyed.Distinct Prod.fst (put k v l) := by
  unfold put
  cases hg : Keyed.get Prod.fst k l with
  | none => exact List.nodup_cons.mpr ⟨Keyed.get_eq_none_iff.mp hg, hl⟩
  | some e => exact hl.modify fun _ h => h

theorem bucket_of_mem_put (hl : ∀ e ∈ l, bucket e.1 = bucket k) : ∀ e ∈ put k v l, bucket e.1 = bucket k := by
  intro e he
  unfold put at he
  cases hg : Keyed.get Prod.fst k l with
  | none =>
    rw [hg] at he
    rcases List.mem_cons.mp he with rfl | he
    · rfl
    · exact hl e he
  | some e' =>
    rw [hg] at he
    rcases Keyed.mem_modify he with he | ⟨a, ha, rfl⟩
    · exact hl e he
    · exact hl a (Keyed.mem_of_get ha).1

end Put

def insert (T : Table bucket β) (k : κ) (v : β) : Table bucket β :=
  T.setChain k (put k v (T.chain (bucket k))) (bucket_of_mem_put (T.hashed _)) (distinct_put (T.distinct _))

def erase (T : Table bucket β) (k : κ) : Table bucket β :=
  T.setChain k (Keyed.remove Prod.fst k (T.chain (bucket k)))
    (fun e he => T.hashed _ e (Keyed.mem_of_mem_remove he)) (T.distinct _).remove

theorem find_setChain {l : List (κ × β)} {hl : ∀ e ∈ l, bucket e.1 = bucket k}
    {hd : Keyed.Distinct Prod.fst l} : (T.setChain k l hl hd).find k' =
      if bucket k' = bucket k then (Keyed.get Prod.fst k' l).map Prod.snd else T.find k' := by
  simp only [find, setChain]
  split_ifs with h
  · rw [h, Function.update_self]
  · rw [Function.update_of_ne h]

theorem find_insert : (T.insert k v).find k' = if k' = k then some v else T.find k' := by
  rw [insert, find_setChain, get_put]
  by_cases hk : k' = k
  · rw [if_pos (congrArg bucket hk), if_pos hk, if_pos hk]
  · split_ifs with hb
    · rw [find, hb]
    · rfl

theorem find_erase : (T.erase k).find k' = if k' = k then none else T.find k' := by
  rw [erase, find_setChain, Keyed.get_remove (T.distinct _)]
  by_cases hk : k' = k
  · rw [if_pos (congrArg bucket hk), if_pos hk, if_pos hk, Option.map_none]
  · split_ifs with hb
    · rw [find, hb]
    · rfl

/-- **The entries are what is found.** -/
theorem mem_entries : (k, v) ∈ T.entries ↔ T.find k = some v := by
  rw [entries, List.mem_flatMap, find, Option.map_eq_some_iff]
  constructor
  · rintro ⟨i, -, he⟩
    have hi : bucket k = i := T.hashed i _ he
    subst hi
    exact ⟨(k, v), (T.distinct _).get_eq he, rfl⟩
  · rintro ⟨⟨a, b⟩, hg, rfl⟩
    obtain ⟨he, rfl⟩ := Keyed.mem_of_get hg
    exact ⟨bucket a, List.mem_finRange _, he⟩

theorem get_entries : (Keyed.get Prod.fst k T.entries).map Prod.snd = T.find k := by
  refine Option.ext fun v => ?_
  rw [← mem_entries, Option.map_eq_some_iff]
  constructor
  · rintro ⟨⟨a, b⟩, hg, rfl⟩
    obtain ⟨he, rfl⟩ := Keyed.mem_of_get hg
    exact he
  · intro he
    exact ⟨(k, v), distinct_entries.get_eq he, rfl⟩

theorem entries_insert (hk : T.find k = none) : (T.insert k v).entries.Perm ((k, v) :: T.entries) := by
  have hnew : (k, v) ∉ T.entries := by
    rw [mem_entries, hk]
    exact nofun
  refine (List.perm_ext_iff_of_nodup (List.Nodup.of_map _ distinct_entries)
    (List.nodup_cons.mpr ⟨hnew, List.Nodup.of_map _ distinct_entries⟩)).mpr ?_
  rintro ⟨a, b⟩
  rw [List.mem_cons, mem_entries, mem_entries, find_insert]
  by_cases ha : a = k
  · subst ha
    simp [hk, eq_comm]
  · simp [ha]

end Table

end Chained
