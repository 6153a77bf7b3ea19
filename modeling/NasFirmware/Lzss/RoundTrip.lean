import NasFirmware.Lzss.Encoder

/-!
# Round trip of the LZSS coder

`Encode` turns its input into groups of units that describe it (`encode_groups`), `Decode` writes the
stream that such groups describe (`decode_groups`), and that stream, from `N - F` on, is the input.
The bytes of the groups are counted as well: `length_groups`, `encode_spec`.
-/

namespace NasFirmware.Lzss

open Window

theorem written_stream (x : List UInt8) : written (stream x) (N - F + x.length) = x := by
  rw [written, Nat.add_sub_cancel_left]
  refine List.ext_getElem (by simp) fun i h₁ h₂ => ?_
  rw [List.getElem_map, List.getElem_range, stream_ge (by omega), Nat.add_sub_cancel_left,
    List.getD_eq_getElem?_getD, List.getElem?_eq_getElem h₂, Option.getD_some]

theorem span_le {u : CodeUnit UInt8} (h : ValidUnit u) : u.span ≤ 9 * (unitBytes u).length := by
  cases u with
  | lit c => simp [CodeUnit.span, unitBytes]
  | copy src len => exact h.2

theorem length_unitBytes_le {u : CodeUnit UInt8} (h : ValidUnit u) : (unitBytes u).length ≤ u.span := by
  cases u with
  | lit c => exact le_rfl
  | copy src len => exact h.1.le

/-- A group stands for at most nine times as many bytes as it has, and has at most twice as many as
it stands for. -/
theorem length_groupBytes {g : List (CodeUnit UInt8)} (hne : g ≠ []) (hg : ∀ u ∈ g, ValidUnit u) :
    (g.map CodeUnit.span).sum ≤ 9 * (groupBytes g).length ∧
      (groupBytes g).length ≤ 2 * (g.map CodeUnit.span).sum := by
  have hlow : (g.map CodeUnit.span).sum ≤ 9 * (g.flatMap unitBytes).length := by
    rw [List.length_flatMap, ← List.sum_map_mul_left]
    exact List.sum_le_sum fun u hu => span_le (hg u hu)
  have hup : (g.flatMap unitBytes).length ≤ (g.map CodeUnit.span).sum := by
    rw [List.length_flatMap]
    exact List.sum_le_sum fun u hu => length_unitBytes_le (hg u hu)
  have hpos : 0 < (g.flatMap unitBytes).length := by
    obtain ⟨u, g, rfl⟩ := List.exists_cons_of_ne_nil hne
    rw [List.flatMap_cons, List.length_append]
    exact Nat.add_pos_left (unitBytes_length_pos u) _
  rw [groupBytes, List.length_cons]
  omega

theorem length_groups {gs : List (List (CodeUnit UInt8))} (hgr : Grouped gs)
    (hval : ∀ u ∈ gs.flatten, ValidUnit u) :
    (gs.flatten.map CodeUnit.span).sum ≤ 9 * (gs.flatMap groupBytes).length ∧
      (gs.flatMap groupBytes).length ≤ 2 * (gs.flatten.map CodeUnit.span).sum := by
  induction gs with
  | nil => exact ⟨le_rfl, le_rfl⟩
  | cons g gs ih =>
    have hg := length_groupBytes hgr.1 fun u hu => hval u (List.mem_append_left _ hu)
    have hgs := ih hgr.2.2.2 fun u hu => hval u (List.mem_append_right _ hu)
    simp only [List.flatten_cons, List.flatMap_cons, List.map_append, List.sum_append,
      List.length_append]
    omega

theorem encode_spec (x : List UInt8) : ∃ y, encode true x = some y ∧
    (∀ block, decode (some block) y = some x) ∧ x.length ≤ 9 * y.length ∧ y.length ≤ 2 * x.length := by
  obtain ⟨gs, henc, hgr, hval, hcov⟩ := encode_groups x
  have hspan : (gs.flatten.map CodeUnit.span).sum = x.length := by
    have := hcov.eq_add
    omega
  have hlen := length_groups hgr hval
  rw [hspan] at hlen
  refine ⟨_, henc, fun block => ?_, hlen⟩
  rw [decode_groups (fun k hk => stream_lt hk) hgr hval hcov, written_stream]

/-- **Decoding what was encoded gives the input back**, whatever the ring of the decoder contained before. -/
theorem decode_encode (x : List UInt8) (block : ℕ → UInt8) :
    ∃ y, encode true x = some y ∧ decode (some block) y = some x := by
  obtain ⟨y, henc, hdec, _⟩ := encode_spec x
  exact ⟨y, henc, hdec block⟩

end NasFirmware.Lzss
