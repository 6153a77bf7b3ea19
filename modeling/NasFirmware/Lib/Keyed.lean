import Mathlib

/-!
# Lists searched by a key

A linked list as C code keeps it: to find, change or unlink a node, the list is searched from its head, and the
search stops at the first node that has the key.
-/

namespace Keyed

variable {α κ : Type} [DecidableEq κ] {key : α → κ} {k k' : κ} {a : α} {l l₁ l₂ : List α} {f : α → α}

def get (key : α → κ) (k : κ) : List α → Option α
  | [] => none
  | a :: l => if key a = k then some a else get key k l

def modify (key : α → κ) (k : κ) (f : α → α) : List α → List α
  | [] => []
  | a :: l => if key a = k then f a :: l else a :: modify key k f l

def remove (key : α → κ) (k : κ) : List α → List α
  | [] => []
  | a :: l => if key a = k then l else a :: remove key k l

def Distinct (key : α → κ) (l : List α) : Prop := (l.map key).Nodup

instance : Decidable (Distinct key l) := inferInstanceAs (Decidable (l.map key).Nodup)

@[simp] theorem get_nil : get key k [] = none := rfl

theorem get_cons : get key k (a :: l) = if key a = k then some a else get key k l := rfl

theorem get_eq_none_iff : get key k l = none ↔ k ∉ l.map key := by
  induction l with
  | nil => simp
  | cons b l ih =>
    rw [get_cons, List.map_cons, List.mem_cons, not_or]
    split_ifs with hb
    · simp [hb]
    · rw [ih]
      exact (and_iff_right (Ne.symm hb)).symm

theorem mem_of_get (h : get key k l = some a) : a ∈ l ∧ key a = k := by
  induction l with
  | nil => cases h
  | cons b l ih =>
    rw [get_cons] at h
    split_ifs at h with hb
    · cases h
      exact ⟨List.mem_cons_self, hb⟩
    · exact ⟨List.mem_cons_of_mem _ (ih h).1, (ih h).2⟩

theorem Distinct.get_eq (hl : Distinct key l) (ha : a ∈ l) : get key (key a) l = some a := by
  induction l with
  | nil => cases ha
  | cons b l ih =>
    obtain ⟨hb, hl⟩ := List.nodup_cons.mp hl
    rcases List.mem_cons.mp ha with rfl | ha
    · rw [get_cons, if_pos rfl]
    · have hne : key b ≠ key a := fun heq => hb (heq ▸ List.mem_map_of_mem ha)
      rw [get_cons, if_neg hne, ih hl ha]

theorem get_append : get key k (l₁ ++ l₂) = (get key k l₁).or (get key k l₂) := by
  induction l₁ with
  | nil => rfl
  | cons b l ih =>
    rw [List.cons_append, get_cons, get_cons, ih]
    split_ifs <;> rfl

section Modify

variable (hf : ∀ a, key a = k → key (f a) = k)
include hf

theorem get_modify : get key k' (modify key k f l) = if k' = k then (get key k l).map f else get key k' l := by
  induction l with
  | nil => simp [modify]
  | cons b l ih =>
    by_cases hb : key b = k
    · rw [modify, if_pos hb, get_cons, get_cons, get_cons, hf b hb, hb, if_pos rfl]
      by_cases hk : k = k'
      · rw [if_pos hk, if_pos hk.symm, Option.map_some]
      · rw [if_neg hk, if_neg (Ne.symm hk), if_neg hk]
    · rw [modify, if_neg hb, get_cons, ih, get_cons, get_cons, if_neg hb]
      by_cases hk : key b = k'
      · rw [if_pos hk, if_pos hk, if_neg fun h => hb (hk.trans h)]
      · rw [if_neg hk, if_neg hk]

theorem map_modify : (modify key k f l).map key = l.map key := by
  induction l with
  | nil => rfl
  | cons b l ih =>
    rw [modify]
    split_ifs with hb
    · rw [List.map_cons, List.map_cons, hf b hb, hb]
    · rw [List.map_cons, List.map_cons, ih]

theorem Distinct.modify (hl : Distinct key l) : Distinct key (modify key k f l) := by
  rwa [Distinct, map_modify hf]

end Modify

theorem modify_eq_self (h : ∀ a, get key k l = some a → f a = a) : modify key k f l = l := by
  induction l with
  | nil => rfl
  | cons b l ih =>
    rw [modify]
    split_ifs with hb
    · rw [h b (if_pos hb)]
    · rw [ih fun a ha => h a ((if_neg hb).trans ha)]

theorem mem_modify {b : α} (hb : b ∈ modify key k f l) : b ∈ l ∨ ∃ a, get key k l = some a ∧ b = f a := by
  induction l with
  | nil => cases hb
  | cons c l ih =>
    rw [modify] at hb
    rw [get_cons]
    split_ifs at hb ⊢ with hc
    · rcases List.mem_cons.mp hb with rfl | hb
      · exact .inr ⟨c, rfl, rfl⟩
      · exact .inl (List.mem_cons_of_mem _ hb)
    · rcases List.mem_cons.mp hb with rfl | hb
      · exact .inl List.mem_cons_self
      · exact (ih hb).imp_left (List.mem_cons_of_mem _)

theorem map_remove : (remove key k l).map key = (l.map key).erase k := by
  induction l with
  | nil => rfl
  | cons b l ih =>
    rw [remove, List.map_cons, List.erase_cons]
    by_cases hb : key b = k
    · rw [if_pos hb, if_pos (beq_iff_eq.mpr hb)]
    · rw [if_neg hb, if_neg fun h => hb (beq_iff_eq.mp h), List.map_cons, ih]

theorem length_remove (h : get key k l = some a) : (remove key k l).length + 1 = l.length := by
  obtain ⟨ha, rfl⟩ := mem_of_get h
  have hlen : ((remove key (key a) l).map key).length = l.length - 1 := by
    rw [map_remove, List.length_erase_of_mem (List.mem_map_of_mem ha), List.length_map]
  rw [List.length_map] at hlen
  rw [hlen]
  exact Nat.sub_add_cancel (List.length_pos_of_mem ha)

theorem Distinct.remove (hl : Distinct key l) : Distinct key (remove key k l) := by
  rw [Distinct, map_remove]
  exact hl.erase k

theorem mem_of_mem_remove {b : α} (hb : b ∈ Keyed.remove key k l) : b ∈ l := by
  induction l with
  | nil => cases hb
  | cons c l ih =>
    rw [Keyed.remove] at hb
    split_ifs at hb
    · exact List.mem_cons_of_mem _ hb
    · exact (List.mem_cons.mp hb).elim (fun h => h ▸ List.mem_cons_self) fun h => List.mem_cons_of_mem _ (ih h)

theorem get_remove (hl : Distinct key l) :
    get key k' (remove key k l) = if k' = k then none else get key k' l := by
  induction l with
  | nil => simp [remove]
  | cons b l ih =>
    obtain ⟨hb, hl⟩ := List.nodup_cons.mp hl
    by_cases hk : key b = k
    · rw [Keyed.remove, if_pos hk, get_cons]
      by_cases hk' : k' = k
      · rw [if_pos hk', get_eq_none_iff, hk', ← hk]
        exact hb
      · rw [if_neg hk', if_neg fun h => hk' (h.symm.trans hk)]
    · rw [Keyed.remove, if_neg hk, get_cons, ih hl, get_cons]
      by_cases hk' : k' = k
      · rw [if_pos hk', if_pos hk', if_neg fun h => hk (h.trans hk')]
      · rw [if_neg hk', if_neg hk']

theorem Distinct.remove_eq (hl : Distinct key l) : Keyed.remove key k l = l.filter fun a => key a ≠ k := by
  induction l with
  | nil => rfl
  | cons b l ih =>
    obtain ⟨hb, hl⟩ := List.nodup_cons.mp hl
    by_cases hk : key b = k
    · rw [Keyed.remove, if_pos hk, List.filter_cons_of_neg (by simpa using hk)]
      refine (List.filter_eq_self.mpr fun a ha => ?_).symm
      have hne : key a ≠ k := fun h => hb (hk.trans h.symm ▸ List.mem_map_of_mem ha)
      simpa using hne
    · rw [Keyed.remove, if_neg hk, List.filter_cons_of_pos (by simpa using hk), ih hl]

section Sum

variable {M : Type} [AddCommMonoid M] (g : α → M)

theorem countP_eq_sum (p : α → Bool) : l.countP p = (l.map fun a => if p a then 1 else 0).sum := by
  induction l with
  | nil => rfl
  | cons b l ih => rw [List.countP_cons, List.map_cons, List.sum_cons, ih, Nat.add_comm]

theorem sum_modify (ha : get key k l = some a) :
    ((modify key k f l).map g).sum + g a = (l.map g).sum + g (f a) := by
  induction l with
  | nil => cases ha
  | cons b l ih =>
    rw [get_cons] at ha
    rw [modify]
    split_ifs at ha ⊢
    · cases ha
      simp only [List.map_cons, List.sum_cons]
      rw [add_right_comm, add_comm (g (f a)), add_right_comm]
    · simp only [List.map_cons, List.sum_cons]
      rw [add_assoc, ih ha, add_assoc]

theorem sum_remove (ha : get key k l = some a) : ((Keyed.remove key k l).map g).sum + g a = (l.map g).sum := by
  induction l with
  | nil => cases ha
  | cons b l ih =>
    rw [get_cons] at ha
    rw [Keyed.remove]
    split_ifs at ha ⊢
    · cases ha
      rw [List.map_cons, List.sum_cons, add_comm]
    · rw [List.map_cons, List.sum_cons, List.map_cons, List.sum_cons, add_assoc, ih ha]

end Sum

end Keyed
