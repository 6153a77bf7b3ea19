import Mathlib

/-!
# Doubly linked chains

A chain hanging below `a` is a list of nodes, stored in two functions: `next` leads down the
chain and is `nil` at its end, `prev` leads back up. `Linked next prev nil a l` says that the nodes
below `a` are exactly `l`, in this order.

* **`Linked.snoc`**, **`Linked.erase`**, **`Linked.replace`**: the three updates.
-/

namespace Chain

open Function

variable {α : Type} {next prev next' prev' : α → α} {nil a p r x : α} {l l₁ l₂ : List α}

/-- The nodes below `a` are `l`. -/
def Linked (next prev : α → α) (nil : α) : α → List α → Prop
  | a, [] => next a = nil
  | a, q :: l => next a = q ∧ prev q = a ∧ Linked next prev nil q l

variable (h : Linked next prev nil a l)

include h

theorem Linked.congr (hn : ∀ x ∈ a :: l, next' x = next x)
    (hp : ∀ x ∈ l, prev' x = prev x) : Linked next' prev' nil a l := by
  induction l generalizing a with
  | nil => exact (hn a (by simp)).trans h
  | cons q l ih =>
    obtain ⟨h1, h2, h3⟩ := h
    refine ⟨(hn a (by simp)).trans h1, (hp q (by simp)).trans h2, ih h3 ?_ ?_⟩
    · exact fun x hx => hn x (List.mem_cons_of_mem _ hx)
    · exact fun x hx => hp x (List.mem_cons_of_mem _ hx)

theorem Linked.prev_mem (hx : p ∈ l) : prev p ∈ a :: l := by
  induction l generalizing a with
  | nil => simp at hx
  | cons q l ih =>
    obtain ⟨-, h2, h3⟩ := h
    rcases List.mem_cons.mp hx with rfl | hx
    · simp [h2]
    · exact List.mem_cons_of_mem _ (ih h3 hx)

theorem Linked.next_prev (hx : p ∈ l) : next (prev p) = p := by
  induction l generalizing a with
  | nil => simp at hx
  | cons q l ih =>
    obtain ⟨h1, h2, h3⟩ := h
    rcases List.mem_cons.mp hx with rfl | hx
    · rw [h2, h1]
    · exact ih h3 hx

theorem Linked.next_mem (hx : p ∈ a :: l) :
    next p = nil ∨ next p ∈ l := by
  induction l generalizing a with
  | nil =>
    rw [List.mem_singleton.mp hx]
    exact Or.inl h
  | cons q l ih =>
    obtain ⟨h1, -, h3⟩ := h
    rcases List.mem_cons.mp hx with rfl | hx
    · exact Or.inr (by simp [h1])
    · exact (ih h3 hx).imp id (List.mem_cons_of_mem _)

theorem Linked.next_ne (hnd : (a :: l).Nodup) (hnil : nil ∉ a :: l)
    (hx : p ∈ a :: l) : next p ≠ p := by
  induction l generalizing a with
  | nil =>
    rw [List.mem_singleton.mp hx, show next a = nil from h]
    exact fun he => hnil (by simp [he])
  | cons q l ih =>
    obtain ⟨h1, -, h3⟩ := h
    obtain ⟨ha, hnd'⟩ := List.nodup_cons.mp hnd
    rcases List.mem_cons.mp hx with rfl | hx
    · exact fun he => ha (by simp [← h1, he])
    · exact ih h3 hnd' (fun hm => hnil (List.mem_cons_of_mem _ hm)) hx

omit h

/-- In front of the node before `p`, no link that leads to `p` or from it is stored. -/
theorem Linked.apart {y : α} (h : Linked next prev nil y (l₁ ++ p :: l₂)) (hnil : nil ∉ y :: l₁)
    (hnd : (a :: y :: (l₁ ++ p :: l₂)).Nodup) : a ≠ prev p ∧ y ≠ p ∧ y ≠ next p := by
  obtain ⟨ha, hnd'⟩ := List.nodup_cons.mp hnd
  have hmem : p ∈ l₁ ++ p :: l₂ := by simp
  have hy := (List.nodup_cons.mp hnd').1
  refine ⟨fun he => ha (by simpa [he] using h.prev_mem hmem), fun he => hy (he ▸ hmem), ?_⟩
  rcases h.next_mem (List.mem_cons_of_mem _ hmem) with hn | hn
  · rw [hn]
    exact fun he => hnil (by simp [he])
  · exact fun he => hy (he ▸ hn)

section Update

variable [DecidableEq α]

/-- **Adding a node at the end of a chain.** -/
theorem Linked.snoc {d : α} (h : Linked next prev nil a l) (hd : d ∈ a :: l) (hdn : next d = nil)
    (hnil : nil ∉ l) (hnd : (a :: l).Nodup) (hr : r ∉ a :: l) (hrn : next r = nil) :
    Linked (update next d r) (update prev r d) nil a (l ++ [r]) := by
  induction l generalizing a with
  | nil =>
    obtain rfl : d = a := by simpa using hd
    have hrd : r ≠ d := by simpa using hr
    exact ⟨update_self .., update_self .., (update_of_ne hrd ..).trans hrn⟩
  | cons q l ih =>
    obtain ⟨h1, h2, h3⟩ := h
    -- the end of the chain is not `a`, whose successor is `q`
    have hda : d ≠ a := by
      rintro rfl
      exact hnil (by simp [← hdn, h1])
    have hdl : d ∈ q :: l := (List.mem_cons.mp hd).resolve_left hda
    refine ⟨(update_of_ne hda.symm ..).trans h1, (update_of_ne ?_ ..).trans h2, ih h3 hdl ?_ ?_ ?_⟩
    · rintro rfl
      simp at hr
    · exact fun hm => hnil (List.mem_cons_of_mem _ hm)
    · exact (List.nodup_cons.mp hnd).2
    · exact fun hm => hr (List.mem_cons_of_mem _ hm)

/-- **Taking a node out of a chain**: its neighbours are joined, `prev` of the node is free. -/
theorem Linked.erase (h : Linked next prev nil a (l₁ ++ p :: l₂)) (hnil : nil ∉ l₁)
    (hnd : (a :: (l₁ ++ p :: l₂)).Nodup) :
    Linked (update next (prev p) (next p)) (update (update prev (next p) (prev p)) p x) nil a
      (l₁ ++ l₂) := by
  induction l₁ generalizing a with
  | nil =>
    obtain ⟨h1, h2, h3⟩ := h
    simp only [List.nil_append, List.nodup_cons, List.mem_cons, not_or] at hnd
    obtain ⟨⟨hap, ha⟩, hp, hnd⟩ := hnd
    rw [h2]
    cases l₂ with
    | nil => exact (update_self ..).trans h3
    | cons q l₃ =>
      obtain ⟨h4, h5, h6⟩ := h3
      simp only [List.mem_cons, not_or] at hp ha
      rw [h4]
      refine ⟨update_self .., ?_, h6.congr ?_ ?_⟩
      · rw [update_of_ne (Ne.symm hp.1), update_self]
      · intro y hy
        exact update_of_ne (fun hya => by simp_all) ..
      · intro y hy
        have hyq : y ≠ q := by
          rintro rfl
          exact (List.nodup_cons.mp hnd).1 hy
        have hyp : y ≠ p := by
          rintro rfl
          exact hp.2 hy
        rw [update_of_ne hyp, update_of_ne hyq]
  | cons y l₁ ih =>
    obtain ⟨h1, h2, h3⟩ := h
    obtain ⟨hpa, hyp, hyn⟩ := h3.apart hnil hnd
    refine ⟨(update_of_ne hpa ..).trans h1, ?_, ih h3 (fun hm => hnil (by simp [hm])) (List.nodup_cons.mp hnd).2⟩
    rw [update_of_ne hyp, update_of_ne hyn, h2]

/-- **Putting a node in the place of another.** -/
theorem Linked.replace (h : Linked next prev nil a (l₁ ++ p :: l₂)) (hnil : nil ∉ l₁)
    (hnd : (a :: (l₁ ++ p :: l₂)).Nodup) (hr : r ∉ a :: (l₁ ++ p :: l₂)) (hrn : r ≠ nil) :
    Linked (update (update next r (next p)) (prev p) r)
      (update (update (update prev r (prev p)) (next p) r) p x) nil a (l₁ ++ r :: l₂) := by
  induction l₁ generalizing a with
  | nil =>
    obtain ⟨h1, h2, h3⟩ := h
    simp only [List.nil_append, List.nodup_cons, List.mem_cons, not_or] at hnd hr
    obtain ⟨⟨hap, ha⟩, hp, hnd⟩ := hnd
    obtain ⟨hra, hrp, hrl⟩ := hr
    have hrnext : r ≠ next p := by
      rcases h3.next_mem List.mem_cons_self with hn | hn
      · rwa [hn]
      · exact fun he => hrl (he ▸ hn)
    rw [h2]
    refine ⟨update_self .., ?_, ?_⟩
    · rw [update_of_ne hrp, update_of_ne hrnext, update_self]
    · cases l₂ with
      | nil =>
        refine (update_of_ne hra ..).trans ((update_self ..).trans h3)
      | cons q l₃ =>
        obtain ⟨h4, h5, h6⟩ := h3
        simp only [List.mem_cons, not_or] at hp ha hrl
        rw [h4]
        refine ⟨(update_of_ne hra ..).trans (update_self ..), ?_, h6.congr ?_ ?_⟩
        · rw [update_of_ne (Ne.symm hp.1), update_self]
        · intro y hy
          have hya : y ≠ a := fun he => by simp_all
          have hyr : y ≠ r := fun he => by simp_all
          rw [update_of_ne hya, update_of_ne hyr]
        · intro y hy
          have hyq : y ≠ q := fun he => (List.nodup_cons.mp hnd).1 (he ▸ hy)
          have hyp : y ≠ p := fun he => hp.2 (he ▸ hy)
          have hyr : y ≠ r := fun he => hrl.2 (he ▸ hy)
          rw [update_of_ne hyp, update_of_ne hyq, update_of_ne hyr]
  | cons y l₁ ih =>
    obtain ⟨h1, h2, h3⟩ := h
    obtain ⟨hpa, hyp, hyn⟩ := h3.apart hnil hnd
    have har : a ≠ r := fun he => hr (by simp [he])
    have hyr : y ≠ r := fun he => hr (by simp [he])
    refine ⟨?_, ?_, ih h3 (fun hm => hnil (by simp [hm])) (List.nodup_cons.mp hnd).2 ?_⟩
    · rw [update_of_ne hpa, update_of_ne har, h1]
    · rw [update_of_ne hyp, update_of_ne hyn, update_of_ne hyr, h2]
    · exact fun hm => hr (List.mem_cons_of_mem _ hm)

end Update

end Chain
