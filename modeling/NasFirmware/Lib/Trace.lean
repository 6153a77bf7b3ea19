import Mathlib

/-!
# Which runs meet a condition

A run is a fold of a step over a list of actions, and the state after `k` of them is the fold over the first `k`. An
invariant holds in every state. A condition holds in every state exactly if no action breaks it, and a flaw that stays
is there at the end exactly if some action brought it.

* **`always_iff`**, `prefixes_iff`: conditions that actions may break, of the state or of the history;
* **`steps_iff`**: conditions on the steps themselves;
* **`eventually_iff`**: flaws that stay.
-/

namespace Trace

variable {σ ε : Type} {step : σ → ε → σ} {init : σ} {I P : σ → Prop} {C : σ → ε → Prop} {l : List ε} {k : ℕ} {e : ε}

theorem take_succ (hk : l[k]? = some e) : l.take (k + 1) = l.take k ++ [e] := by
  rw [List.take_add_one, hk]
  rfl

theorem foldl_take_succ (hk : l[k]? = some e) :
    (l.take (k + 1)).foldl step init = step ((l.take k).foldl step init) e := by
  rw [take_succ hk, List.foldl_append]
  rfl

/-- **Conditions.** If they hold before a step, they hold after it exactly if the step meets `C`. -/
theorem always_iff (hI : ∀ l : List ε, I (l.foldl step init)) (hinit : P init)
    (hstep : ∀ s e, I s → P s → (P (step s e) ↔ C s e)) (l : List ε) :
    (∀ k, P ((l.take k).foldl step init)) ↔ ∀ k e, l[k]? = some e → C ((l.take k).foldl step init) e := by
  constructor
  · intro hall k e hk
    have hnext := hall (k + 1)
    rw [foldl_take_succ hk] at hnext
    exact (hstep _ e (hI _) (hall k)).mp hnext
  · intro hmeets k
    induction k with
    | zero => exact hinit
    | succ k ih =>
      cases hk : l[k]? with
      | none =>
        rw [List.take_add_one, hk]
        simpa using ih
      | some e =>
        rw [foldl_take_succ hk]
        exact (hstep _ e (hI _) ih).mpr (hmeets k e hk)

/-- **Conditions on steps.** In the states of the invariant a step is good exactly if it meets `C`, and then keeps the
invariant. -/
theorem steps_iff {P : σ → ε → Prop} (hinit : I init) (hiff : ∀ s e, I s → (P s e ↔ C s e))
    (hstep : ∀ s e, I s → C s e → I (step s e)) (l : List ε) :
    (∀ k e, l[k]? = some e → P ((l.take k).foldl step init) e) ↔
      ∀ k e, l[k]? = some e → C ((l.take k).foldl step init) e := by
  -- either way the invariant holds in every state
  have hinv : (∀ k e, l[k]? = some e → I ((l.take k).foldl step init) → C ((l.take k).foldl step init) e) →
      ∀ k, I ((l.take k).foldl step init) := by
    intro hmeets k
    induction k with
    | zero => exact hinit
    | succ k ih =>
      cases hk : l[k]? with
      | none =>
        rw [List.take_add_one, hk]
        simpa using ih
      | some e =>
        rw [foldl_take_succ hk]
        exact hstep _ e ih (hmeets k e hk ih)
  constructor
  · intro hgood k e hk
    have hI := hinv (fun k e hk hI => (hiff _ e hI).mp (hgood k e hk)) k
    exact (hiff _ e hI).mp (hgood k e hk)
  · intro hmeets k e hk
    exact (hiff _ e (hinv (fun k e hk _ => hmeets k e hk) k)).mpr (hmeets k e hk)

theorem foldl_concat (l : List ε) : l.foldl (fun p e => p ++ [e]) [] = l := by
  induction l using List.reverseRecOn with
  | nil => rfl
  | append_singleton l e ih =>
    rw [List.foldl_append, ih]
    rfl

/-- **Conditions on histories.** The state is what has happened so far. -/
theorem prefixes_iff {P : List ε → Prop} {C : List ε → ε → Prop} (hnil : P [])
    (hstep : ∀ p e, P p → (P (p ++ [e]) ↔ C p e)) (l : List ε) :
    (∀ k, P (l.take k)) ↔ ∀ k e, l[k]? = some e → C (l.take k) e := by
  have hiff : (∀ k, P ((l.take k).foldl (fun p e => p ++ [e]) [])) ↔
      ∀ k e, l[k]? = some e → C ((l.take k).foldl (fun p e => p ++ [e]) []) e :=
    always_iff (I := fun _ => True) (fun _ => trivial) hnil (fun p e _ => hstep p e) l
  simpa only [foldl_concat] using hiff

/-- **Flaws that stay.** A step leaves one exactly if it was there before, or if the step does `C`. -/
theorem eventually_iff (hI : ∀ l : List ε, I (l.foldl step init)) (hinit : ¬ P init)
    (hstep : ∀ s e, I s → (P (step s e) ↔ P s ∨ C s e)) (l : List ε) :
    P (l.foldl step init) ↔ ∃ k e, l[k]? = some e ∧ C ((l.take k).foldl step init) e := by
  -- from the end, since the states are those of the beginnings
  induction l using List.reverseRecOn with
  | nil => exact iff_of_false hinit fun ⟨_, _, hk, _⟩ => nomatch hk
  | append_singleton l a ih =>
    rw [List.foldl_append]
    refine (hstep _ a (hI l)).trans ?_
    rw [ih]
    constructor
    · rintro (⟨k, e, hk, hC⟩ | hC)
      · have hlt : k < l.length := (List.getElem?_eq_some_iff.mp hk).1
        refine ⟨k, e, (List.getElem?_append_left hlt).trans hk, ?_⟩
        rwa [List.take_append_of_le_length (Nat.le_of_lt hlt)]
      · refine ⟨l.length, a, List.getElem?_concat_length, ?_⟩
        rwa [List.take_left]
    · rintro ⟨k, e, hk, hC⟩
      rcases Nat.lt_or_ge k l.length with hlt | hge
      · rw [List.getElem?_append_left hlt] at hk
        rw [List.take_append_of_le_length (Nat.le_of_lt hlt)] at hC
        exact .inl ⟨k, e, hk, hC⟩
      · rw [List.getElem?_append_right hge] at hk
        have hlen : k = l.length := by
          have hlt := (List.getElem?_eq_some_iff.mp hk).1
          rw [List.length_singleton] at hlt
          omega
        subst hlen
        rw [Nat.sub_self] at hk
        cases hk
        rw [List.take_left] at hC
        exact .inr hC

end Trace
