import NasFirmware.Factory.Model
import NasFirmware.Tar.Archive

/-!
# The RTK header
-/

namespace NasFirmware.Factory

open ByteMem CString Tar

variable {m : Mem} {tarsize seqnum : ℕ}

theorem fillRtkHeader_eq (m : Mem) (tarsize seqnum : ℕ) : fillRtkHeader m tarsize seqnum =
    tarFillChecksum (write (write (write m 508 (rtk ++ [0])) 504 (store32 tarsize)) 500 (store32 seqnum))
      0 := rfl

theorem fillRtkHeader_frame {k : ℕ} (hk : k < 148 ∨ 156 ≤ k ∧ k < 500 ∨ 512 ≤ k) :
    fillRtkHeader m tarsize seqnum k = m k := by
  rw [fillRtkHeader_eq, tarFillChecksum, write_apply_of_not, write_apply_of_not, write_apply_of_not,
    write_apply_of_not]
  all_goals simp only [List.length_append, length_octal, length_store32, rtk, List.length_cons,
    List.length_nil]
  all_goals omega

theorem fillRtkHeader_tail {off n : ℕ} (hoff : 156 ≤ off) : read (fillRtkHeader m tarsize seqnum) off n =
    read (write (write (write m 508 (rtk ++ [0])) 504 (store32 tarsize)) 500 (store32 seqnum)) off n := by
  apply read_write_of_disjoint
  simp only [List.length_append, length_octal, List.length_cons, List.length_nil]
  omega

theorem fillRtkHeader_signature : read (fillRtkHeader m tarsize seqnum) 508 4 = rtk ++ [0] := by
  exact read_write_self m 508 (rtk ++ [0])

theorem fillRtkHeader_tarsize : read (fillRtkHeader m tarsize seqnum) 504 4 = store32 tarsize := by
  rw [fillRtkHeader_tail (by omega), read_write_of_disjoint (Or.inr (by simp))]
  exact read_write_self _ 504 (store32 tarsize)

theorem fillRtkHeader_seqnum : read (fillRtkHeader m tarsize seqnum) 500 4 = store32 seqnum := by
  rw [fillRtkHeader_tail (by omega)]
  exact read_write_self _ 500 (store32 seqnum)

theorem fillRtkHeader_sum : read (fillRtkHeader m tarsize seqnum) 148 7 =
    octal 6 (tarChecksum (fillRtkHeader m tarsize seqnum) 0) ++ [0] := by
  have := tarFillChecksum_field
    (write (write (write m 508 (rtk ++ [0])) 504 (store32 tarsize)) 500 (store32 seqnum)) 0
  rwa [← fillRtkHeader_eq, Nat.zero_add] at this

def rootName : CStr := ⟨factoryHeader, by decide⟩

theorem buildRoot_valid (m : Mem) (seqnum : ℕ) :
    ValidHeader factoryHeader 0 (read (buildRoot m seqnum) 0 512) := by
  have hkeep : ∀ off n, off + n ≤ 148 →
      read (buildRoot m seqnum) off n = read (tarBuildHeader m 0 factoryHeader 0 53) off n :=
    fun off n h => read_congr fun k _ hk => fillRtkHeader_frame (Or.inl (by omega))
  refine validHeader_of_fields rootName (by decide) (by decide) (fun c hc => ?_) (by decide) ?_ ?_ ?_
  · cases hc
    decide
  · rw [hkeep _ _ (by decide)]
    exact tarBuildHeader_name (by decide)
  · rw [hkeep _ _ (by decide)]
    exact tarBuildHeader_size
  · exact fillRtkHeader_sum

end NasFirmware.Factory
