import NasFirmware.Igmp.Model
import NasFirmware.Lib.OnesComplement

/-!
# The checksum of queries

`igmpv3_query` and `igmp_query` build a query in `send_buf`, set its checksum to zero, and then to what `in_cksum` says.
`in_cksum` adds the carries of the sum once, and what this carries again is lost.
-/

namespace NasFirmware.Igmp

open OnesComplement

/-- `in_cksum`. The sum fits an `int`. -/
def inCksum (o : Order) (addr : List UInt8) : UInt16 := ~~~UInt16.ofNat (carry (wordSum o addr))

def addrBytes (a : Addr) : List UInt8 :=
  [.ofNat (a.toNat / 2 ^ 24), .ofNat (a.toNat / 2 ^ 16), .ofNat (a.toNat / 2 ^ 8), .ofNat a.toNat]

/-- `struct igmpv3_query`, from the group on: `resv` is `0`, `suppress` is `1`, `qrv` is `2`. -/
def igmpv3Fields (group : Addr) (qqic : UInt8) (srcs : List Addr) : List UInt8 :=
  addrBytes group ++ [16 * 0 + 8 * 1 + 2, qqic, .ofNat (srcs.length / 256), .ofNat srcs.length] ++ srcs.flatMap addrBytes

/-- A message of type `0x11`, with a checksum. -/
def query (o : Order) (code : UInt8) (fields : List UInt8) : List UInt8 :=
  [0x11, code] ++ o.bytes (inCksum o ([0x11, code, 0, 0] ++ fields)) ++ fields

def periodicalGeneralQueryInterval : UInt8 := 30

section

variable (o : Order) (cfg : Config) (grp : Addr) (srcfilter : List Addr) (mrt : UInt8)

def igmpv3QueryMessage : List UInt8 :=
  query o (.ofNat lastMemberQueryInterval) (igmpv3Fields grp (.ofNat cfg.memberQueryInterval) srcfilter)

/-- `igmp_query`, if the proxy is built with IGMPv3. -/
def igmpQueryMessage : List UInt8 := query o mrt (igmpv3Fields grp periodicalGeneralQueryInterval [])

/-- `igmp_query`, in the default build. -/
def Plain.igmpQueryMessage : List UInt8 := query o mrt (addrBytes grp)

end

/-! ## Carries -/

def Folds (o : Order) (code : UInt8) (fields : List UInt8) : Prop :=
  carry (wordSum o ([0x11, code, 0, 0] ++ fields)) < 65536

section

variable {o : Order} {code : UInt8} {fields : List UInt8}

theorem valid_query_iff (hlen : fields.length ≤ 2 ^ 15) : Valid (query o code fields) ↔ Folds o code fields := by
  have hpos : 0 < wordSum o (0x11 :: code :: 0 :: 0 :: fields) := by
    have hword : 0 < o.word 0x11 code := by
      cases o with
      | little => exact Nat.lt_of_lt_of_le (by decide) (Nat.le_add_right 17 _)
      | big => exact Nat.lt_of_lt_of_le (by decide) (Nat.le_add_right (256 * 17) _)
    rw [wordSum_cons_cons]
    omega
  have hle := wordSum_le o (0x11 :: code :: 0 :: 0 :: fields)
  rw [List.length_cons, List.length_cons, List.length_cons, List.length_cons] at hle
  have hlt : wordSum o (0x11 :: code :: 0 :: 0 :: fields) < 2 ^ 32 := by omega
  exact valid_stamp_iff hpos hlt

theorem length_addrBytes (a : Addr) : (addrBytes a).length = 4 := rfl

theorem length_igmpv3Fields (group : Addr) (qqic : UInt8) (srcs : List Addr) :
    (igmpv3Fields group qqic srcs).length = 8 + 4 * srcs.length := by
  have hsrcs : (srcs.flatMap addrBytes).length = 4 * srcs.length := by
    simp [length_addrBytes, Nat.mul_comm]
  unfold igmpv3Fields
  rw [List.length_append, List.length_append, hsrcs, length_addrBytes]
  rfl

end

/-- **A query is valid exactly if the carries of its sum carry nothing again**, for hosts of both byte orders. -/
theorem queries_valid_iff (o : Order) (cfg : Config) (grp : Addr) (srcfilter : List Addr) (mrt : UInt8)
    (h : srcfilter.length ≤ igmpv3MaxSrcnum) :
    (Valid (igmpv3QueryMessage o cfg grp srcfilter) ↔
      Folds o (.ofNat lastMemberQueryInterval) (igmpv3Fields grp (.ofNat cfg.memberQueryInterval) srcfilter)) ∧
    (Valid (igmpQueryMessage o grp mrt) ↔ Folds o mrt (igmpv3Fields grp periodicalGeneralQueryInterval [])) ∧
    (Valid (Plain.igmpQueryMessage o grp mrt) ↔ Folds o mrt (addrBytes grp)) := by
  unfold igmpv3MaxSrcnum at h
  refine ⟨valid_query_iff ?_, valid_query_iff ?_, valid_query_iff ?_⟩
  · rw [length_igmpv3Fields]
    omega
  · rw [length_igmpv3Fields]
    decide
  · rw [length_addrBytes]
    decide

theorem querySources_valid : Valid (igmpv3QueryMessage .little ⟨false, 0⟩ 0xe1010101 [0x0a000001, 0x0a000002]) := by
  refine (queries_valid_iff .little ⟨false, 0⟩ 0xe1010101 [0x0a000001, 0x0a000002] 1 (by decide)).1.mpr ?_
  unfold Folds
  decide

/-- **Queries that are not valid**, one for each build. -/
theorem querySources_invalid :
    ¬ Valid (igmpv3QueryMessage .little ⟨false, 0⟩ 0xefffebb6 [0x0a000001]) ∧
    ¬ Valid (Plain.igmpQueryMessage .little 0xeffffffe 1) := by
  rw [valid_iff .little, valid_iff .little]
  decide

end NasFirmware.Igmp
