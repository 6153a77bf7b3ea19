import NasFirmware.Lzss.RoundTrip

/-!
# Input that does not compress

Where no three bytes of the stream occurred before within reach of the ring, every unit is a plain byte. With the
flags the compressed file is then longer than its input.

* **`encode_length_ge`**, `encode_length_ge_of_distinct`: lower bounds for what `Encode` writes;
* **`encode_length_le`**: no input grows by more than one byte in eight.
-/

namespace NasFirmware.Lzss

open Window

/-- From `b` to `e` no three bytes of the stream occurred before, within reach of the ring. -/
def Fresh (S : ℕ → UInt8) (b e : ℕ) : Prop :=
  ∀ q, b ≤ q → q < e → ∀ src < q, q ≤ src + N → ∃ k < 3, S (src + k) ≠ S (q + k)

section Units

variable {S : ℕ → UInt8} {b e q q' : ℕ} {us : List (CodeUnit UInt8)}

theorem Fresh.span_eq_one (h : Fresh S b e) (hb : b ≤ q) (he : q < e) {u : CodeUnit UInt8} (hval : ValidUnit u)
    (hfits : u.Fits N S q) : u.span = 1 := by
  cases u with
  | lit c => rfl
  | copy src len =>
    obtain ⟨hlt, hreach, heq⟩ := hfits
    obtain ⟨k, hk, hne⟩ := h q hb he src hlt hreach
    have hlen : 2 < len := hval.1
    exact absurd (heq k (by omega)) hne

theorem length_ge_of_fresh (h : Fresh S b e) (hb : b ≤ q) (he : e ≤ q') (hval : ∀ u ∈ us, ValidUnit u)
    (hcov : Covers N S q us q') : e ≤ q + us.length := by
  induction us generalizing q with
  | nil =>
    cases hcov
    exact he
  | cons u us ih =>
    by_cases hq : q < e
    · have hspan := h.span_eq_one hb hq (hval u List.mem_cons_self) hcov.1
      have := ih (q := q + u.span) (by omega) (fun u' hu' => hval u' (List.mem_cons_of_mem _ hu')) hcov.2
      rw [List.length_cons]
      omega
    · omega

/-- A unit that starts before the stretch reaches at most 17 bytes into it. -/
theorem length_ge_of_fresh_from (h : Fresh S b e) (hq : q ≤ b) (hbe : b ≤ e) (he : e ≤ q')
    (hval : ∀ u ∈ us, ValidUnit u) (hcov : Covers N S q us q') : e ≤ b + 17 + us.length := by
  induction us generalizing q with
  | nil =>
    cases hcov
    omega
  | cons u us ih =>
    have hval' : ∀ u' ∈ us, ValidUnit u' := fun u' hu' => hval u' (List.mem_cons_of_mem _ hu')
    have hspan : u.span ≤ 18 := by
      cases u with
      | lit c => exact show 1 ≤ 18 by decide
      | copy src len => exact (hval _ List.mem_cons_self).2
    rw [List.length_cons]
    by_cases hin : q + u.span ≤ b
    · have := ih hin hval' hcov.2
      omega
    · have := length_ge_of_fresh h (Nat.le_of_not_le hin) he hval' hcov.2
      by_cases hq' : q = b
      · -- the stretch starts with this unit
        by_cases hbe' : q < e
        · omega
        · omega
      · omega

end Units

theorem length_groups_ge {gs : List (List (CodeUnit UInt8))} (hgr : Grouped gs) :
    9 * gs.flatten.length ≤ 8 * (gs.flatMap groupBytes).length := by
  induction gs with
  | nil => exact Nat.le_refl _
  | cons g gs ih =>
    have hrest := ih hgr.2.2.2
    have hle : g.length ≤ 8 := hgr.2.1
    have hbytes : g.length ≤ (g.flatMap unitBytes).length := by
      rw [List.length_flatMap]
      calc g.length = (g.map fun _ => 1).sum := by rw [List.map_const', List.sum_replicate, smul_eq_mul, Nat.mul_one]
        _ ≤ (g.map fun u => (unitBytes u).length).sum := List.sum_le_sum fun u _ => unitBytes_length_pos u
    rw [List.flatten_cons, List.flatMap_cons, List.length_append, List.length_append, groupBytes, List.length_cons]
    omega

/-- **What does not repeat grows.** -/
theorem encode_length_ge {x y : List UInt8} {b e : ℕ} (h : Fresh (stream x) b e) (hb : N - F ≤ b) (hbe : b ≤ e)
    (he : e ≤ N - F + x.length) (henc : encode true x = some y) : 9 * (e - (b + 17)) ≤ 8 * y.length := by
  obtain ⟨gs, henc', hgr, hval, hcov⟩ := encode_groups x
  rw [henc] at henc'
  cases henc'
  have hunits := length_ge_of_fresh_from h hb hbe he hval hcov
  have hbytes := length_groups_ge hgr
  omega

/-- A text whose first `n` bytes each start three new bytes, none of them a blank, is not made shorter. -/
theorem encode_length_ge_of_distinct {x y : List UInt8} {n : ℕ} (hblank : 32 ∉ x) (hn : n ≤ x.length)
    (hnew : ∀ j < n, ∀ i < j, ∃ k < 3, x.getD (i + k) 0 ≠ x.getD (j + k) 0) (henc : encode true x = some y) :
    9 * n ≤ 8 * y.length := by
  have hfresh : Fresh (stream x) (N - F) (N - F + n) := by
    intro q hq hqn src hsrc _
    obtain ⟨j, rfl⟩ := Nat.exists_eq_add_of_le hq
    by_cases hpre : src < N - F
    · refine ⟨0, by omega, fun heq => hblank ?_⟩
      rw [Nat.add_zero, Nat.add_zero, stream_lt hpre, stream_ge hq, Nat.add_sub_cancel_left,
        List.getD_eq_getElem _ _ (by omega)] at heq
      exact heq ▸ List.getElem_mem _
    · obtain ⟨i, rfl⟩ := Nat.exists_eq_add_of_le (Nat.not_lt.mp hpre)
      obtain ⟨k, hk, hne⟩ := hnew j (by omega) i (by omega)
      refine ⟨k, hk, ?_⟩
      rwa [Nat.add_assoc, Nat.add_assoc, stream_ge (Nat.le_add_right ..), stream_ge (Nat.le_add_right ..),
        Nat.add_sub_cancel_left, Nat.add_sub_cancel_left]
  obtain ⟨gs, henc', hgr, hval, hcov⟩ := encode_groups x
  rw [henc] at henc'
  cases henc'
  have hunits := length_ge_of_fresh hfresh le_rfl (by omega) hval hcov
  have hbytes := length_groups_ge hgr
  omega

theorem length_groups_le {gs : List (List (CodeUnit UInt8))} (hgr : Grouped gs) (hval : ∀ u ∈ gs.flatten, ValidUnit u) :
    8 * (gs.flatMap groupBytes).length ≤ 9 * (gs.flatten.map CodeUnit.span).sum + 7 := by
  induction gs with
  | nil => exact Nat.zero_le _
  | cons g gs ih =>
    obtain ⟨hne, -, hfull, hgr⟩ := hgr
    have hg : ∀ u ∈ g, ValidUnit u := fun u hu => hval u (List.mem_append_left _ hu)
    have hbytes : (g.flatMap unitBytes).length ≤ (g.map CodeUnit.span).sum := by
      rw [List.length_flatMap]
      exact List.sum_le_sum fun u hu => length_unitBytes_le (hg u hu)
    have hspan : g.length ≤ (g.map CodeUnit.span).sum := by
      rw [← List.length_map CodeUnit.span]
      refine List.length_le_sum_of_one_le _ fun i hi => ?_
      obtain ⟨u, hu, rfl⟩ := List.mem_map.mp hi
      exact (unitBytes_length_pos u).trans_le (length_unitBytes_le (hg u hu))
    have hpos := List.length_pos_iff.mpr hne
    have hgs := ih hgr fun u hu => hval u (List.mem_append_right _ hu)
    rw [List.flatMap_cons, List.flatten_cons, List.map_append, List.sum_append, List.length_append, groupBytes,
      List.length_cons]
    -- the flags of a full group are paid by its eight units, those of the last one by the seven
    rcases hfull with rfl | hfull
    · simp only [List.flatMap_nil, List.flatten_nil, List.map_nil, List.sum_nil, List.length_nil]
      omega
    · omega

/-- **The output of `Encode` is at most one byte in eight longer than its input.** -/
theorem encode_length_le (x : List UInt8) : ∃ y, encode true x = some y ∧ 8 * y.length ≤ 9 * x.length + 7 := by
  obtain ⟨gs, henc, hgr, hval, hcov⟩ := encode_groups x
  have hspan : N - F + x.length = _ := hcov.eq_add
  have hle := length_groups_le hgr hval
  exact ⟨_, henc, by omega⟩

end NasFirmware.Lzss
