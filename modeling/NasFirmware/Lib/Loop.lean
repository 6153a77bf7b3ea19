import Mathlib

/-!
# C loops with an explicit bound

A C loop is a body that either goes on with a new state or leaves with a result. `loop body n s`
runs at most `n` passes from `s`; it is `none` when the bound is used up or when a pass itself is
stuck. A result `some r` is therefore a statement about the unbounded loop: it stops, with `r`.

* **`loop_invariant`**: partial correctness; `exists_done_of_loop`: a result comes from some pass;
* **`loop_of_variant`**: total correctness from an invariant and a variant;
* `Advances`, **`advances_iff`**: a walk that moves forward at every pass, and therefore stops.
-/

namespace CLoop

variable {σ ρ : Type}

/-- What one pass of a loop does: go on with a state, or leave with a result. -/
inductive Pass (σ ρ : Type) where
  | next (s : σ)
  | done (r : ρ)

def loop (body : σ → Option (Pass σ ρ)) : ℕ → σ → Option ρ
  | 0, _ => none
  | n + 1, s =>
    match body s with
    | none => none
    | some (.next s') => loop body n s'
    | some (.done r) => some r

variable {body : σ → Option (Pass σ ρ)} {n k : ℕ} {s s' s₀ : σ} {r : ρ}

theorem loop_succ_next (h : body s = some (.next s')) :
    loop body (n + 1) s = loop body n s' := by
  simp [loop, h]

theorem loop_succ_done (h : body s = some (.done r)) :
    loop body (n + 1) s = some r := by
  simp [loop, h]

/-- **Partial correctness of a loop.** What every pass keeps holds when the loop leaves. -/
theorem loop_invariant (P : σ → Prop) (Q : ρ → Prop)
    (hnext : ∀ s s', P s → body s = some (.next s') → P s')
    (hdone : ∀ s r, P s → body s = some (.done r) → Q r) (hs : P s)
    (h : loop body n s = some r) : Q r := by
  induction n generalizing s with
  | zero => cases h
  | succ n ih =>
    cases hb : body s with
    | none => simp only [loop, hb] at h; cases h
    | some p =>
      cases p with
      | next s' =>
        rw [loop_succ_next hb] at h
        exact ih (hnext s s' hs hb) h
      | done r' =>
        rw [loop_succ_done hb] at h
        cases h
        exact hdone s r hs hb

theorem exists_done_of_loop (h : loop body n s = some r) :
    ∃ s', body s' = some (.done r) :=
  loop_invariant (fun _ => True) (fun r => ∃ s', body s' = some (.done r)) (fun _ _ _ _ => trivial)
    (fun s _ _ hb => ⟨s, hb⟩) trivial h

/-- **Total correctness of a loop.** If every pass from an invariant state either keeps the invariant with a smaller
variant or leaves with a good result, then the loop stops within `k + 1` passes, with a good result. -/
theorem loop_of_variant (Inv : ℕ → σ → Prop) (Post : ρ → Prop)
    (hbody : ∀ k s, Inv k s → (∃ k' s', body s = some (.next s') ∧ Inv k' s' ∧ k' < k) ∨
      ∃ r, body s = some (.done r) ∧ Post r) (hs : Inv k s) (hn : k < n) : ∃ r, loop body n s = some r ∧ Post r := by
  induction n generalizing s k with
  | zero => omega
  | succ n ih =>
    rcases hbody k s hs with ⟨k', s', hb, hi, hk⟩ | ⟨r, hb, hr⟩
    · rw [loop_succ_next hb]
      exact ih hi (by omega)
    · exact ⟨r, loop_succ_done hb, hr⟩

inductive Reaches (body : σ → Option (Pass σ ρ)) (s₀ : σ) : σ → Prop where
  | start : Reaches body s₀ s₀
  | next {s s' : σ} (h : Reaches body s₀ s) (hb : body s = some (.next s')) : Reaches body s₀ s'

/-- Total correctness of a loop all of whose states meet a condition. -/
theorem loop_of_reaches (Inv : ℕ → σ → Prop) (Cond : σ → Prop) (Post : ρ → Prop)
    (hbody : ∀ k s, Inv k s → Cond s → (∃ k' s', body s = some (.next s') ∧ Inv k' s' ∧ k' < k) ∨
      ∃ r, body s = some (.done r) ∧ Post r) (hs : Inv k s₀) (hcond : ∀ s, Reaches body s₀ s → Cond s) (hn : k < n) :
    ∃ r, loop body n s₀ = some r ∧ Post r := by
  refine loop_of_variant (fun k s => Reaches body s₀ s ∧ Inv k s) Post (fun k s h => ?_) ⟨.start, hs⟩ hn
  refine (hbody k s h.2 (hcond s h.1)).imp_left fun ⟨k', s', hb, hinv, hk⟩ => ?_
  exact ⟨k', s', hb, ⟨h.1.next hb, hinv⟩, hk⟩

theorem loop_eq_none_of_reaches (h : Reaches body s₀ s) (hs : body s = none) (n : ℕ) :
    loop body n s₀ = none := by
  have hback : ∀ s, Reaches body s₀ s → (∀ n, loop body n s = none) → ∀ n, loop body n s₀ = none := by
    intro s h
    induction h with
    | start => exact id
    | next _ hb ih =>
      refine fun hnone => ih fun n => ?_
      cases n with
      | zero => rfl
      | succ n => rw [loop_succ_next hb, hnone]
  refine hback s h (fun n => ?_) n
  cases n with
  | zero => rfl
  | succ n => simp [loop, hs]

theorem loop_fixed (h : body s = some (.next s)) (n : ℕ) : loop body n s = none := by
  induction n with
  | zero => rfl
  | succ n ih => rw [loop_succ_next h, ih]

theorem loop_of_next_fixed (h : body s = some (.next s')) (h' : body s' = some (.next s')) (n : ℕ) :
    loop body n s = none := by
  cases n with
  | zero => rfl
  | succ n => rw [loop_succ_next h, loop_fixed h']

/-- Every pass moves a position strictly forward, and the loop stops. -/
def Advances (body : σ → Option (Pass σ ρ)) (pos : σ → ℤ) (s₀ : σ) : Prop :=
  (∀ s s', Reaches body s₀ s → body s = some (.next s') → pos s < pos s') ∧ ∃ n r, loop body n s₀ = some r

/-- **Walks below a bound.** If a pass moves forward exactly from good states, then the walk advances, and stops,
exactly if all states at which it goes on are good. -/
theorem advances_iff (bound : ℤ) {pos : σ → ℤ} {Good : σ → Prop} (h0 : 0 ≤ pos s₀)
    (hlt : pos s₀ < bound) (hstuck : ∀ s, body s ≠ none)
    (hbound : ∀ s s', body s = some (.next s') → pos s' < bound)
    (hgood : ∀ s s', 0 ≤ pos s → pos s < bound → body s = some (.next s') → (pos s < pos s' ↔ Good s)) :
    Advances body pos s₀ ↔ ∀ s s', Reaches body s₀ s → body s = some (.next s') → Good s := by
  -- positions stay in range as long as every pass moves forward
  have hrange : (∀ s s', Reaches body s₀ s → body s = some (.next s') → 0 ≤ pos s → pos s < bound → pos s < pos s') →
      ∀ s, Reaches body s₀ s → 0 ≤ pos s ∧ pos s < bound := by
    intro hfwd s hs
    induction hs with
    | start => exact ⟨h0, hlt⟩
    | @next s s' hs hb ih => exact ⟨by have := hfwd s s' hs hb ih.1 ih.2; omega, hbound s s' hb⟩
  constructor
  · rintro ⟨hfwd, -⟩ s s' hs hb
    have hr := hrange (fun s s' hs hb _ _ => hfwd s s' hs hb) s hs
    exact (hgood s s' hr.1 hr.2 hb).mp (hfwd s s' hs hb)
  · intro hall
    have hr := hrange fun s s' hs hb h1 h2 => (hgood s s' h1 h2 hb).mpr (hall s s' hs hb)
    have hfwd : ∀ s s', Reaches body s₀ s → body s = some (.next s') → pos s < pos s' :=
      fun s s' hs hb => (hgood s s' (hr s hs).1 (hr s hs).2 hb).mpr (hall s s' hs hb)
    have hbody : ∀ k s, (Reaches body s₀ s ∧ (bound - pos s).toNat = k) →
        (∃ k' s', body s = some (.next s') ∧ (Reaches body s₀ s' ∧ (bound - pos s').toNat = k') ∧ k' < k) ∨
          ∃ r, body s = some (.done r) ∧ True := by
      rintro k s ⟨hs, rfl⟩
      cases hb : body s with
      | none => exact absurd hb (hstuck s)
      | some p =>
        cases p with
        | done r => exact .inr ⟨r, rfl, trivial⟩
        | next s' =>
          have h1 := hfwd s s' hs hb
          have h2 := hbound s s' hb
          exact .inl ⟨_, s', rfl, ⟨hs.next hb, rfl⟩, by omega⟩
    obtain ⟨r, hloop, -⟩ := loop_of_variant _ _ hbody ⟨.start, rfl⟩ (Nat.lt_succ_self _)
    exact ⟨hfwd, _, r, hloop⟩

end CLoop
