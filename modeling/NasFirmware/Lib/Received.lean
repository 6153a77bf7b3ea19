import NasFirmware.Lib.Mem

/-!
# What was received, and what was there before

A receive buffer is a memory of which the first `n` bytes are those of a packet. The others are older, and can be
anything.

* **`exists_byte`**: of the addresses that differ in the last byte, some is not in a short list.
-/

namespace ByteMem

variable {m m' f : Mem} {n p : ℕ}

def Agree (n : ℕ) (m m' : Mem) : Prop := ∀ i < n, m' i = m i

/-- The first `n` bytes of `m`, and then those of `f`. -/
def splice (n : ℕ) (m f : Mem) : Mem := fun i => if i < n then m i else f i

theorem splice_of_lt {i : ℕ} (h : i < n) : splice n m f i = m i := if_pos h

theorem splice_of_ge {i : ℕ} (h : n ≤ i) : splice n m f i = f i := if_neg (Nat.not_lt.mpr h)

theorem agree_refl (n : ℕ) (m : Mem) : Agree n m m := fun _ _ => rfl

theorem agree_splice (n : ℕ) (m f : Mem) : Agree n m (splice n m f) := fun _ h => splice_of_lt h

theorem Agree.splice {k : ℕ} (h : Agree n m m') (hk : n ≤ k) : Agree n m (splice k m' f) :=
  fun i hi => (splice_of_lt (hi.trans_le hk)).trans (h i hi)

def beU16 (m : Mem) (p : ℕ) : ℕ := (m p).toNat * 256 + (m (p + 1)).toNat

/-- `ntohl` of the four bytes at `p`. -/
def beU32 (m : Mem) (p : ℕ) : UInt32 := UInt32.ofNat (beU16 m p * 65536 + beU16 m (p + 2))

theorem beU16_lt (m : Mem) (p : ℕ) : beU16 m p < 65536 := by
  have h₁ := (m p).toNat_lt
  have h₂ := (m (p + 1)).toNat_lt
  unfold beU16
  omega

theorem toNat_beU32 (m : Mem) (p : ℕ) : (beU32 m p).toNat = beU16 m p * 65536 + beU16 m (p + 2) := by
  have h₁ := beU16_lt m p
  have h₂ := beU16_lt m (p + 2)
  unfold beU32
  rw [UInt32.toNat_ofNat']
  omega

theorem beU32_div (m : Mem) (p : ℕ) : (beU32 m p).toNat / 256 = beU16 m p * 256 + (m (p + 2)).toNat := by
  have h : (m (p + 2 + 1)).toNat < 256 := (m (p + 2 + 1)).toNat_lt
  rw [toNat_beU32, beU16.eq_1 m (p + 2)]
  omega

theorem beU32_mod (m : Mem) (p : ℕ) : (beU32 m p).toNat % 256 = (m (p + 3)).toNat := by
  have h : (m (p + 2 + 1)).toNat < 256 := (m (p + 2 + 1)).toNat_lt
  change _ = (m (p + 2 + 1)).toNat
  rw [toNat_beU32, beU16.eq_1 m (p + 2)]
  omega

theorem Agree.beU16 (h : Agree n m m') (hp : p + 2 ≤ n) : beU16 m' p = beU16 m p := by
  unfold ByteMem.beU16
  rw [h p (by omega), h (p + 1) (by omega)]

theorem Agree.beU32 (h : Agree n m m') (hp : p + 4 ≤ n) : beU32 m' p = beU32 m p := by
  unfold ByteMem.beU32
  rw [h.beU16 (by omega), h.beU16 (by omega)]

theorem beU32_update_ne (m : Mem) (p : ℕ) {x y : UInt8} (hxy : x ≠ y) :
    beU32 (Function.update m (p + 3) x) p ≠ beU32 (Function.update m (p + 3) y) p := by
  intro heq
  have hmod := congrArg (fun a => a.toNat % 256) heq
  simp only [beU32_mod, Function.update_self] at hmod
  exact hxy (UInt8.toNat_inj.mp hmod)

theorem add_one_ne (x : UInt8) : x + 1 ≠ x := fun heq => absurd (UInt8.add_eq_left.mp heq) (by decide)

/-- **An address that is not in a list**, with any last byte. -/
theorem exists_byte (m : Mem) (p : ℕ) {l : List UInt32} (hl : l.length < 256) :
    ∃ b : UInt8, beU32 (Function.update m (p + 3) b) p ∉ l := by
  by_contra hall
  rw [not_exists] at hall
  -- the last byte can be read back, so there are `256` such addresses
  have hnodup : ((List.range 256).map fun k => beU32 (Function.update m (p + 3) (UInt8.ofNat k)) p).Nodup := by
    refine List.Nodup.map_on (fun k hk k' hk' heq => ?_) List.nodup_range
    have hmod := congrArg (fun a => a.toNat % 256) heq
    simp only [beU32_mod, Function.update_self, UInt8.toNat_ofNat'] at hmod
    have := List.mem_range.mp hk
    have := List.mem_range.mp hk'
    omega
  have hsub : ((List.range 256).map fun k => beU32 (Function.update m (p + 3) (UInt8.ofNat k)) p) ⊆ l := by
    intro a ha
    obtain ⟨k, -, rfl⟩ := List.mem_map.mp ha
    exact not_not.mp (hall (UInt8.ofNat k))
  have hle := (hnodup.subperm hsub).length_le
  rw [List.length_map, List.length_range] at hle
  exact absurd hl (Nat.not_lt.mpr hle)

end ByteMem
