import Mathlib

/-!
# Firmware download to the Bluetooth controller

`download_data` of `rtk_bt.c` cuts the firmware into pieces of 252 bytes and sends each in a vendor command, with a
running index whose top bit marks the last piece.

* **`downloadData_framed_iff`**: the controller gets the image, marked once and at the end, just if the image is shorter
  than 129 pieces. The index of piece 128 has its top bit set by counting.
-/

namespace NasFirmware.Bluetooth

def patchSegMax : Nat := 252

def patchLengthMax : Nat := 40 * 1024

def dataEnd : UInt8 := 0x80

/-- What comes back for a command: of `send_hci_cmd`, of `rcv_hci_evt`, and the status in the event. -/
structure Answer where
  send : Int
  event : Int
  status : UInt8

def Answer.Good (a : Answer) : Prop := 0 ≤ a.send ∧ 0 ≤ a.event ∧ a.status = 0

/-- The variables of the loop, with the data field of the command buffer and the packets sent so far. -/
structure Xfer where
  pcur : Nat
  pktLen : Nat
  fragLen : Nat
  data : List UInt8
  sent : List (List UInt8)

def fragment (fw : List UInt8) (fragNum i : Nat) (x : Xfer) : Xfer :=
  let last := i = fragNum - 1
  let index := if last then UInt8.ofNat i ||| dataEnd else UInt8.ofNat i
  let fragLen := if last then fw.length % patchSegMax else x.fragLen
  let pktLen := if last then x.pktLen - (patchSegMax - fragLen) else x.pktLen
  let data := (fw.drop x.pcur).take fragLen ++ x.data.drop fragLen
  { x with
    fragLen, pktLen, data
    sent := x.sent ++ [(0x20 :: 0xfc :: UInt8.ofNat (1 + fragLen) :: index :: data).take pktLen] }

/-- The commands from number `i` on, `k` of them. -/
def downloadLoop (fw : List UInt8) (fragNum : Nat) (answers : Nat → Answer) : Nat → Nat → Xfer → Int × Xfer
  | 0, _, x => (fw.length, x)
  | k + 1, i, x =>
    let x' := fragment fw fragNum i x
    if (answers i).send < 0 then ((answers i).send, x')
    else if (answers i).event < 0 then ((answers i).event, x')
    else if (answers i).status ≠ 0 then (-1, x')
    else downloadLoop fw fragNum answers k (i + 1) { x' with pcur := x'.pcur + patchSegMax }

/-- `download_data`: what it returns, and the packets it has sent. `buf` is what the command buffer held before. -/
def downloadData (fw buf : List UInt8) (answers : Nat → Answer) : Int × List (List UInt8) :=
  let fragNum := fw.length / patchSegMax + 1
  let r := downloadLoop fw fragNum answers fragNum 0 ⟨0, 3 + (1 + patchSegMax), patchSegMax, buf, []⟩
  (r.1, r.2.sent)

def plen (c : List UInt8) : Nat := (c.getD 2 0).toNat

def payload (c : List UInt8) : List UInt8 := c.drop 4

def DataEnd (c : List UInt8) : Prop := c.getD 3 0 &&& dataEnd ≠ 0

instance {c : List UInt8} : Decidable (DataEnd c) := inferInstanceAs (Decidable (_ ≠ _))

/-- A controller that stops at the first mark. -/
def receive : List (List UInt8) → List UInt8
  | [] => []
  | c :: cs => if DataEnd c then payload c else payload c ++ receive cs

/-- The image arrives: every command has its declared length and at most `PATCH_SEG_MAX` bytes, their data are the
image, and the mark is on the last alone. -/
def Framed (fw : List UInt8) (cs : List (List UInt8)) : Prop :=
  (∀ c ∈ cs, c.length = 3 + plen c ∧ plen c = 1 + (payload c).length ∧ (payload c).length ≤ patchSegMax) ∧
    cs.flatMap payload = fw ∧
    (∃ l last, cs = l ++ [last] ∧ DataEnd last ∧ ∀ c ∈ l, ¬ DataEnd c) ∧
    receive cs = fw

/-! ## The commands that are sent -/

section Sent

variable {fw buf : List UInt8} {answers : Nat → Answer} {n i k : Nat}

def segLen (fw : List UInt8) (n i : Nat) : Nat := if i = n - 1 then fw.length % patchSegMax else patchSegMax

def command (fw : List UInt8) (n i : Nat) : List UInt8 :=
  0x20 :: 0xfc :: UInt8.ofNat (1 + segLen fw n i) ::
    (if i = n - 1 then UInt8.ofNat i ||| dataEnd else UInt8.ofNat i) ::
    (fw.drop (patchSegMax * i)).take (segLen fw n i)

theorem segLen_le : segLen fw n i ≤ patchSegMax := by
  unfold segLen
  split_ifs
  · exact (Nat.mod_lt _ (by decide)).le
  · exact le_rfl

theorem segLen_fits (hn : n = fw.length / patchSegMax + 1) (hi : i < n) :
    patchSegMax * i + segLen fw n i ≤ fw.length := by
  have hdiv := Nat.div_add_mod fw.length patchSegMax
  unfold segLen
  split_ifs with hlast
  · rw [hlast, hn, Nat.add_sub_cancel]
    exact hdiv.le
  · have hmul : patchSegMax * (i + 1) ≤ patchSegMax * (fw.length / patchSegMax) :=
      Nat.mul_le_mul_left _ (by omega)
    rw [Nat.mul_succ] at hmul
    omega

theorem payload_length (hn : n = fw.length / patchSegMax + 1) (hi : i < n) :
    (payload (command fw n i)).length = segLen fw n i := by
  have hfits := segLen_fits hn hi
  change ((fw.drop (patchSegMax * i)).take (segLen fw n i)).length = _
  rw [List.length_take, List.length_drop]
  omega

def atFragment (fw : List UInt8) (n i : Nat) (x : Xfer) : Prop :=
  x.pcur = patchSegMax * i ∧ x.pktLen = 4 + patchSegMax ∧ x.fragLen = patchSegMax ∧
    x.sent = (List.range i).map (command fw n)

theorem fragment_sent {x : Xfer} (hn : n = fw.length / patchSegMax + 1) (hi : i < n) (hx : atFragment fw n i x) :
    (fragment fw n i x).sent = (List.range (i + 1)).map (command fw n) := by
  obtain ⟨hpcur, hpkt, hfrag, hsent⟩ := hx
  have hlen := payload_length hn hi
  have hle : segLen fw n i ≤ patchSegMax := segLen_le
  have hseg : (if i = n - 1 then fw.length % patchSegMax else x.fragLen) = segLen fw n i := by rw [hfrag, segLen]
  have hpktLen : (if i = n - 1 then x.pktLen - (patchSegMax - segLen fw n i) else x.pktLen) = 4 + segLen fw n i := by
    rw [hpkt]
    split_ifs with hlast
    · omega
    · rw [segLen, if_neg hlast]
  simp only [fragment]
  rw [hseg, hpktLen, hpcur, hsent, List.range_succ, List.map_append, List.map_singleton]
  congr 2
  -- the header and the data make up the packet length: what is left in the buffer is not sent
  have hcommand : (command fw n i).length = 4 + segLen fw n i := by
    rw [← hlen, payload, List.length_drop]
    simp only [command, List.length_cons]
    omega
  rw [← hcommand]
  exact List.take_left

theorem downloadLoop_sent (hn : n = fw.length / patchSegMax + 1) (hgood : ∀ i, (answers i).Good) :
    ∀ {k i : Nat} {x : Xfer}, i + k = n → 0 < k → atFragment fw n i x →
      (downloadLoop fw n answers k i x).1 = fw.length ∧
        (downloadLoop fw n answers k i x).2.sent = (List.range n).map (command fw n) := by
  intro k
  induction k with
  | zero => exact fun _ hk => absurd hk (lt_irrefl 0)
  | succ k ih =>
    intro i x hik _ hx
    obtain ⟨hsend, hevent, hstatus⟩ := hgood i
    have hsent := fragment_sent hn (by omega) hx
    rw [downloadLoop, if_neg (Int.not_lt.mpr hsend), if_neg (Int.not_lt.mpr hevent), if_neg (not_not.mpr hstatus)]
    rcases k.eq_zero_or_pos with rfl | hk
    · exact ⟨rfl, hsent.trans (by rw [hik])⟩
    · -- not the last command, so the lengths stay
      have hlast : i ≠ n - 1 := by omega
      refine ih (by omega) hk ⟨?_, ?_, ?_, hsent⟩
      · change x.pcur + patchSegMax = _
        rw [hx.1, Nat.mul_succ]
      · exact (if_neg hlast).trans hx.2.1
      · exact (if_neg hlast).trans hx.2.2.1

theorem downloadData_sent (hgood : ∀ i, (answers i).Good) :
    downloadData fw buf answers =
      ((fw.length : Int), (List.range (fw.length / patchSegMax + 1)).map
        (command fw (fw.length / patchSegMax + 1))) := by
  obtain ⟨hret, hsent⟩ := downloadLoop_sent (k := fw.length / patchSegMax + 1) (i := 0)
    (x := ⟨0, 3 + (1 + patchSegMax), patchSegMax, buf, []⟩) rfl hgood (Nat.zero_add _) (Nat.succ_pos _)
    ⟨rfl, (by decide : 3 + (1 + patchSegMax) = 4 + patchSegMax), rfl, rfl⟩
  exact Prod.ext hret hsent

/-! ## What arrives -/

theorem payload_command : payload (command fw n i) = (fw.drop (patchSegMax * i)).take (segLen fw n i) := rfl

theorem plen_command : plen (command fw n i) = 1 + segLen fw n i := by
  have hle : segLen fw n i ≤ 252 := segLen_le
  exact UInt8.toNat_ofNat_of_lt (by omega : 1 + segLen fw n i < 256)

theorem flatMap_payload {m : Nat} (hm : m < n) :
    ((List.range m).map (command fw n)).flatMap payload = fw.take (patchSegMax * m) := by
  induction m with
  | zero => rfl
  | succ m ih =>
    have hlast : m ≠ n - 1 := by omega
    rw [List.range_succ, List.map_append, List.flatMap_append, ih (by omega), Nat.mul_succ, List.take_add]
    rw [List.map_singleton, List.flatMap_singleton, payload_command, segLen, if_neg hlast]

/-- The index is marked at the end, and from 128 on by counting. -/
theorem dataEnd_command (hi : i < 163) : DataEnd (command fw n i) ↔ i = n - 1 ∨ 128 ≤ i := by
  have hmarked : ∀ i < 163, (UInt8.ofNat i ||| dataEnd) &&& dataEnd ≠ 0 := by decide +kernel
  have hcounted : ∀ i < 163, UInt8.ofNat i &&& dataEnd ≠ 0 ↔ 128 ≤ i := by decide +kernel
  change (if i = n - 1 then UInt8.ofNat i ||| dataEnd else UInt8.ofNat i) &&& dataEnd ≠ 0 ↔ _
  split_ifs with hlast
  · exact iff_of_true (hmarked i hi) (.inl hlast)
  · rw [hcounted i hi, or_iff_right hlast]

theorem receive_append {l r : List (List UInt8)} {c : List UInt8} (hl : ∀ d ∈ l, ¬ DataEnd d) (hc : DataEnd c) :
    receive (l ++ c :: r) = l.flatMap payload ++ payload c := by
  induction l with
  | nil => exact if_pos hc
  | cons d l ih =>
    rw [List.cons_append, receive, if_neg (hl d List.mem_cons_self), ih fun b hb => hl b (List.mem_cons_of_mem _ hb),
      List.flatMap_cons, List.append_assoc]

theorem not_dataEnd {m : Nat} (hmn : m < n) (hm : m ≤ 128) : ∀ c ∈ (List.range m).map (command fw n), ¬ DataEnd c := by
  intro c hc
  obtain ⟨i, hi, rfl⟩ := List.mem_map.mp hc
  rw [List.mem_range] at hi
  rw [dataEnd_command (by omega)]
  omega

theorem receive_of_long (hlong : 130 ≤ n) :
    receive ((List.range n).map (command fw n)) = fw.take (129 * patchSegMax) := by
  obtain ⟨k, rfl⟩ : ∃ k, n = 129 + k := ⟨n - 129, by omega⟩
  rw [List.range_add, List.map_append, List.range_succ, List.map_append, List.append_assoc, List.map_singleton,
    List.singleton_append, receive_append (not_dataEnd (by omega) le_rfl) ((dataEnd_command (by decide)).mpr (.inr le_rfl)),
    ← List.flatMap_singleton payload, ← List.flatMap_append, ← List.map_singleton, ← List.map_append, ← List.range_succ,
    flatMap_payload (by omega), Nat.mul_comm]

end Sent

/-- **Framing of a download.** With every command answered, the image arrives just if it is shorter than 129 pieces. -/
theorem downloadData_framed_iff (fw buf : List UInt8) (answers : Nat → Answer) (hmax : fw.length ≤ patchLengthMax)
    (hgood : ∀ i, (answers i).Good) :
    (downloadData fw buf answers).1 = fw.length ∧
      (Framed fw (downloadData fw buf answers).2 ↔ fw.length < 129 * patchSegMax) := by
  obtain ⟨m, hm⟩ : ∃ m, m = fw.length / patchSegMax := ⟨_, rfl⟩
  rw [downloadData_sent hgood, ← hm]
  refine ⟨rfl, ?_⟩
  have hsize : m ≤ 162 := hm ▸ Nat.div_le_div_right hmax
  have hshort : fw.length < 129 * patchSegMax ↔ m < 129 := by rw [hm, Nat.div_lt_iff_lt_mul (by decide)]
  have hsplit : (List.range (m + 1)).map (command fw (m + 1))
      = (List.range m).map (command fw (m + 1)) ++ [command fw (m + 1) m] := by
    rw [List.range_succ, List.map_append, List.map_singleton]
  have hend : DataEnd (command fw (m + 1) m) := (dataEnd_command (by omega)).mpr (.inl rfl)
  have hflat : ((List.range m).map (command fw (m + 1))).flatMap payload ++ payload (command fw (m + 1) m) = fw := by
    have hlast : segLen fw (m + 1) m = fw.length % patchSegMax := if_pos rfl
    rw [flatMap_payload (Nat.lt_succ_self m), payload_command, hlast, ← List.take_add, hm, Nat.div_add_mod,
      List.take_length]
  rw [hshort]
  constructor
  · rintro ⟨-, -, ⟨l, last, heq, -, hl⟩, -⟩
    by_contra hlong
    -- command 128 is not the last one, and it is marked
    have hprefix : (List.range m).map (command fw (m + 1)) = l :=
      (List.append_inj' (hsplit.symm.trans heq) rfl).1
    refine hl (command fw (m + 1) 128) ?_ ((dataEnd_command (by decide)).mpr (.inr le_rfl))
    rw [← hprefix]
    exact List.mem_map_of_mem (List.mem_range.mpr (by omega))
  · intro hlt
    have hunmarked : ∀ c ∈ (List.range m).map (command fw (m + 1)), ¬ DataEnd c :=
      not_dataEnd (Nat.lt_succ_self m) (Nat.lt_succ_iff.mp hlt)
    refine ⟨fun c hc => ?_, ?_, ⟨_, _, hsplit, hend, hunmarked⟩, ?_⟩
    · obtain ⟨i, hi, rfl⟩ := List.mem_map.mp hc
      have hlen : (payload (command fw (m + 1) i)).length = segLen fw (m + 1) i :=
        payload_length (congrArg (· + 1) hm) (List.mem_range.mp hi)
      rw [plen_command, hlen]
      refine ⟨?_, rfl, segLen_le⟩
      rw [← hlen, payload_command]
      simp only [command, List.length_cons]
      omega
    · rw [hsplit, List.flatMap_append, List.flatMap_singleton]
      exact hflat
    · rw [hsplit, receive_append hunmarked hend]
      exact hflat

def answering : Nat → Answer := fun _ => ⟨0, 0, 0⟩

theorem answering_good (i : Nat) : (answering i).Good := ⟨Int.le_refl 0, Int.le_refl 0, rfl⟩

theorem downloadData_framed_short : Framed [0x52, 0x65, 0x61] (downloadData [0x52, 0x65, 0x61] [] answering).2 :=
  (downloadData_framed_iff _ _ _ (by decide) answering_good).2.mpr (by decide)

/-- Of an image of the largest length the controller gets 32508 bytes. -/
theorem downloadData_cut_off :
    (receive (downloadData (List.replicate patchLengthMax 0xff) [] answering).2).length = 32508 := by
  have hlen : (List.replicate patchLengthMax (0xff : UInt8)).length = 40960 := List.length_replicate
  rw [downloadData_sent answering_good, hlen, receive_of_long (by decide), List.length_take, hlen]
  decide

end NasFirmware.Bluetooth
