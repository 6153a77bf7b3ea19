import Mathlib

/-!
# Where packets come from

Nodes originate packets and receive them from one another; each receiver changes a packet by what the link costs, and
may send it on. A history holds what was originated and what was received. `Carried` follows a packet back to its
origin over the hops of a history, without a name for it.

* **`Carried.accounts`**: packets with a budget of hops that count them and add up what they cost.
-/

namespace Provenance

structure Hop (Node Packet Cost : Type) where
  sender : Node
  receiver : Node
  packet : Packet
  cost : Cost

structure History (Node Packet Cost : Type) where
  origins : List (Node × Packet)
  hops : List (Hop Node Packet Cost)

variable {Node Packet Cost : Type}

section

variable (recv : Packet → Cost → Packet)

/-- `Carried recv h p u p₀ trail`: the packet `p` at `u` was originated as `p₀` and came over the hops of `trail`. -/
inductive Carried (h : History Node Packet Cost) : Packet → Node → Packet → List (Hop Node Packet Cost) → Prop where
  | origin {u : Node} {p : Packet} : (u, p) ∈ h.origins → Carried h p u p []
  | hop {p p₀ : Packet} {trail : List (Hop Node Packet Cost)} {d : Hop Node Packet Cost} :
      Carried h d.packet d.sender p₀ trail → d ∈ h.hops →
        p = recv d.packet d.cost → Carried h p d.receiver p₀ (trail ++ [d])

variable {recv} {h h' : History Node Packet Cost} {p p₀ : Packet} {u : Node} {trail : List (Hop Node Packet Cost)}

theorem Carried.mono (horigins : h.origins ⊆ h'.origins) (hhops : h.hops ⊆ h'.hops)
    (hp : Carried recv h p u p₀ trail) : Carried recv h' p u p₀ trail := by
  induction hp with
  | origin hp => exact .origin (horigins hp)
  | hop _ hd hp ih => exact .hop ih (hhops hd) hp

theorem Carried.exists_origin (hp : Carried recv h p u p₀ trail) : ∃ u₀, (u₀, p₀) ∈ h.origins := by
  induction hp with
  | origin hp => exact ⟨_, hp⟩
  | hop _ _ _ ih => exact ih

end

section

variable {recv : Packet → Cost → Packet} {h : History Node Packet Cost} {p p₀ : Packet} {u : Node}
  {trail : List (Hop Node Packet Cost)}

/-- **A budget of hops.** A receiver takes one hop from what is left, counts it and adds its cost. -/
theorem Carried.accounts (hp : Carried recv h p u p₀ trail) (left gone total : Packet → ℕ) (weight : Cost → ℕ)
    (bound modulus : ℕ) (hleft : ∀ p c, left p ≠ 0 → left (recv p c) + 1 = left p)
    (hgone : ∀ p c, left p ≠ 0 → gone p + left p ≤ bound → gone (recv p c) = gone p + 1)
    (htotal : ∀ p c, total (recv p c) = (total p + weight c) % modulus)
    (horigins : ∀ u p, (u, p) ∈ h.origins → gone p = 0 ∧ left p ≤ bound ∧ total p = 0)
    (hhops : ∀ d ∈ h.hops, left d.packet ≠ 0) :
    gone p = trail.length ∧ gone p + left p = left p₀ ∧ left p₀ ≤ bound ∧
      total p = (trail.map fun d => weight d.cost).sum % modulus := by
  induction hp with
  | origin hp =>
    obtain ⟨hzero, hbound, hnone⟩ := horigins _ _ hp
    refine ⟨hzero, ?_, hbound, ?_⟩
    · rw [hzero, Nat.zero_add]
    · rw [hnone, List.map_nil, List.sum_nil, Nat.zero_mod]
  | @hop p p₀ trail d _ hd hp ih =>
    obtain ⟨hlen, hsum, hbound, hcost⟩ := ih
    subst hp
    have hpos := hhops d hd
    have hless := hleft d.packet d.cost hpos
    have hmore := hgone d.packet d.cost hpos (by omega)
    refine ⟨?_, by omega, hbound, ?_⟩
    · rw [hmore, hlen, List.length_append, List.length_singleton]
    · rw [htotal, hcost, Nat.mod_add_mod, List.map_append, List.sum_append, List.map_singleton, List.sum_singleton]

end

end Provenance
