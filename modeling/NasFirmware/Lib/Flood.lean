import Mathlib

/-!
# Flooding with sequence numbers

One origin floods numbered messages through a network. A node keeps the number and the cost of the best path it has
heard of, and the neighbour it heard it from; it relays what it keeps, at once or later, over links that deliver in
order and may lose.

* **`Ok.descends`**: costs decrease along the hops.
-/

namespace Flood

/-- A message about the origin, as it is sent: a number and the cost of the path of the sender. -/
structure Ad where
  seq : ℕ
  cost : ℕ

/-- After `x`, a node that does not go back in numbers hears no higher cost in `y`. -/
def Later (x y : Ad) : Prop := x.seq ≤ y.seq → y.cost ≤ x.cost

/-- Neither can be heard after the other at a higher cost. -/
def Apart (x y : Ad) : Prop := x.seq ≠ y.seq ∧ Later x y ∧ Later y x

theorem Apart.symm {x y : Ad} (h : Apart x y) : Apart y x := ⟨h.1.symm, h.2.2, h.2.1⟩

theorem pairwise_apart_of_subperm {p q : List Ad} (h : p.Subperm q) (hq : q.Pairwise Apart) : p.Pairwise Apart := by
  obtain ⟨l, hl, hsub⟩ := h
  exact (hl.pairwise_iff Apart.symm).mp (hq.sublist hsub)

/-- What the nodes and links hold about one origin: the number and cost that a node knows, from which neighbour, the
messages on each link in their order, and those that wait to be relayed. -/
structure View (ν : Type) where
  known : ν → Option Ad
  hop : ν → Option ν
  link : ν → ν → List Ad
  pend : ν → List Ad

variable {ν : Type} {V V' : View ν} {w : ν → ν → ℕ} {linked : ν → ν → Prop} {D u v : ν} {a x y : Ad} {l : List ν} {c : ℕ}

/-- The messages that a node has sent or is going to relay. -/
def View.Says (V : View ν) (u : ν) (x : Ad) : Prop := x ∈ V.pend u ∨ ∃ v, x ∈ V.link u v

/-- What a node knows is at least as new as `x`, and costs no more. -/
def View.Covers (V : View ν) (u : ν) (x : Ad) : Prop := ∃ k, V.known u = some k ∧ x.seq ≤ k.seq ∧ k.cost ≤ x.cost

/-- A path without repetitions from the origin, the last node first, and its cost. -/
inductive Path (w : ν → ν → ℕ) (linked : ν → ν → Prop) (D : ν) : List ν → ℕ → Prop where
  | origin : Path w linked D [D] 0
  | step {u v : ν} {l : List ν} {c : ℕ} (h : Path w linked D (u :: l) c) (hlink : linked u v) (hv : v ∉ u :: l) :
      Path w linked D (v :: u :: l) (c + w u v)

/-- A path whose nodes know nothing worse than what it costs up to them. -/
inductive Trail (V : View ν) (w : ν → ν → ℕ) (linked : ν → ν → Prop) (D : ν) : List ν → ℕ → Prop where
  | origin {k : Ad} (hk : V.known D = some k) (hzero : k.cost = 0) : Trail V w linked D [D] 0
  | step {u v : ν} {l : List ν} {c : ℕ} {k : Ad} (h : Trail V w linked D (u :: l) c) (hlink : linked u v)
      (hv : v ∉ u :: l) (hk : V.known v = some k) (hcost : k.cost ≤ c + w u v) :
      Trail V w linked D (v :: u :: l) (c + w u v)

theorem Trail.path (h : Trail V w linked D l c) : Path w linked D l c := by
  induction h with
  | origin => exact .origin
  | step _ hlink hv _ _ ih => exact .step ih hlink hv

theorem Trail.known_le (h : Trail V w linked D l c) (hv : v ∈ l) : ∃ k, V.known v = some k ∧ k.cost ≤ c := by
  induction h with
  | origin hk hzero =>
    rw [List.mem_singleton.mp hv]
    exact ⟨_, hk, hzero.le⟩
  | step _ _ _ hk hcost ih =>
    rcases List.mem_cons.mp hv with rfl | hv
    · exact ⟨_, hk, hcost⟩
    · obtain ⟨k, hk, hle⟩ := ih hv
      exact ⟨k, hk, hle.trans (Nat.le_add_right _ _)⟩

theorem Trail.mono (hknown : ∀ u k, V.known u = some k → ∃ k', V'.known u = some k' ∧ k'.cost ≤ k.cost)
    (h : Trail V w linked D l c) : Trail V' w linked D l c := by
  induction h with
  | origin hk hzero =>
    obtain ⟨k', hk', hle⟩ := hknown _ _ hk
    exact .origin hk' (by omega)
  | step _ hlink hv hk hcost ih =>
    obtain ⟨k', hk', hle⟩ := hknown _ _ hk
    exact .step ih hlink hv hk' (hle.trans hcost)

/-- What a node still has to hear from its hop: nothing with a higher cost, unless it is older. -/
structure Heard (V : View ν) (w : ν → ν → ℕ) (u v : ν) (k : Ad) : Prop where
  covers : ∃ k', V.known u = some k' ∧ k.seq ≤ k'.seq ∧ k'.cost + w u v ≤ k.cost
  link : ∀ x ∈ V.link u v, k.seq ≤ x.seq → x.cost + w u v ≤ k.cost
  pend : ∀ x ∈ V.pend u, k.seq ≤ x.seq → x.cost + w u v ≤ k.cost

/-- **The invariant of a flood.** -/
structure Ok (V : View ν) (w : ν → ν → ℕ) (linked : ν → ν → Prop) (D : ν) : Prop where
  /-- nodes know what they say, or something better -/
  covers : ∀ u x, V.Says u x → V.Covers u x
  /-- what is said has come along a trail -/
  trail : ∀ u x, V.Says u x → ∃ l, Trail V w linked D (u :: l) x.cost
  order : ∀ u v, (V.link u v).Pairwise Later
  ahead : ∀ u v, ∀ x ∈ V.link u v, ∀ y ∈ V.pend u, Later x y
  apart : ∀ u, (V.pend u).Pairwise Apart
  heard : ∀ u v, V.hop v = some u → ∃ k, V.known v = some k ∧ Heard V w u v k

/-- **Costs decrease along the hops.** -/
theorem Ok.descends (h : Ok V w linked D) (hpos : ∀ u v, V.hop v = some u → 0 < w u v) (hhop : V.hop v = some u) :
    ∃ k k', V.known v = some k ∧ V.known u = some k' ∧ k'.cost < k.cost := by
  obtain ⟨k, hk, ⟨⟨k', hk', -, hle⟩, -, -⟩⟩ := h.heard u v hhop
  have := hpos u v hhop
  exact ⟨k, k', hk, hk', by omega⟩

/-- Something is lost, and what is known stays or grows newer at no cost. -/
structure Shrinks (V V' : View ν) : Prop where
  known : ∀ u k, V.known u = some k → ∃ k', V'.known u = some k' ∧ k.seq ≤ k'.seq ∧ k'.cost = k.cost
  hop : ∀ v u, V'.hop v = some u → V.hop v = some u ∧ V'.known v = V.known v
  link : ∀ u v, (V'.link u v).Sublist (V.link u v)
  pend : ∀ u, (V'.pend u).Subperm (V.pend u)

theorem Shrinks.told (h : Shrinks V V') (hx : V'.Says u x) : V.Says u x := by
  rcases hx with hx | ⟨v, hx⟩
  · exact .inl ((h.pend u).subset hx)
  · exact .inr ⟨v, (h.link u v).subset hx⟩

theorem Ok.shrink (h : Ok V w linked D) (hs : Shrinks V V') : Ok V' w linked D := by
  refine ⟨fun u x hx => ?_, fun u x hx => ?_, fun u v => ?_, fun u v x hx y hy => ?_, fun u => ?_, fun u v hv => ?_⟩
  · obtain ⟨k, hk, hseq, hcost⟩ := h.covers u x (hs.told hx)
    obtain ⟨k', hk', hseq', hcost'⟩ := hs.known u k hk
    exact ⟨k', hk', hseq.trans hseq', hcost'.trans_le hcost⟩
  · obtain ⟨l, hl⟩ := h.trail u x (hs.told hx)
    refine ⟨l, hl.mono fun u k hk => ?_⟩
    obtain ⟨k', hk', -, hcost⟩ := hs.known u k hk
    exact ⟨k', hk', hcost.le⟩
  · exact (h.order u v).sublist (hs.link u v)
  · exact h.ahead u v x ((hs.link u v).subset hx) y ((hs.pend u).subset hy)
  · exact pairwise_apart_of_subperm (hs.pend u) (h.apart u)
  · obtain ⟨hhop, hsame⟩ := hs.hop v u hv
    obtain ⟨k, hk, ⟨k', hk', hseq, hcost⟩, hlink, hpend⟩ := h.heard u v hhop
    obtain ⟨k'', hk'', hseq', hcost'⟩ := hs.known u k' hk'
    refine ⟨k, hsame.trans hk, ⟨k'', hk'', hseq.trans hseq', by omega⟩, fun x hx => hlink x ((hs.link u v).subset hx),
      fun x hx => hpend x ((hs.pend u).subset hx)⟩

/-! ## Something is heard -/

structure InHand (V : View ν) (w : ν → ν → ℕ) (linked : ν → ν → Prop) (D u v : ν) (a : Ad) : Prop where
  covers : V.Covers u a
  trail : ∃ l, Trail V w linked D (u :: l) a.cost
  link : ∀ x ∈ V.link u v, Later a x
  pend : ∀ x ∈ V.pend u, Later a x
  hop : V.hop v = some u → ∃ k, V.known v = some k ∧ (k.seq ≤ a.seq → a.cost + w u v ≤ k.cost)

def View.pop [DecidableEq ν] (V : View ν) (u v : ν) : View ν :=
  { V with link := Function.update V.link u (Function.update (V.link u) v (V.link u v).tail) }

section Pop

variable [DecidableEq ν]

theorem View.link_pop (u' v' : ν) :
    (V.pop u v).link u' v' = if u' = u ∧ v' = v then (V.link u v).tail else V.link u' v' := by
  unfold View.pop
  by_cases hu : u' = u
  · subst hu
    by_cases hv : v' = v
    · subst hv
      simp
    · simp [hv]
  · simp [hu]

theorem Ok.inHand (h : Ok V w linked D) {q : List Ad} (hq : V.link u v = a :: q) :
    InHand (V.pop u v) w linked D u v a := by
  have hmem : a ∈ V.link u v := by
    rw [hq]
    exact List.mem_cons_self
  have htold : V.Says u a := .inr ⟨v, hmem⟩
  refine ⟨h.covers u a htold, ?_, fun x hx => ?_, h.ahead u v a hmem, fun hhop => ?_⟩
  · obtain ⟨l, hl⟩ := h.trail u a htold
    exact ⟨l, Trail.mono (V := V) (fun _ k hk => ⟨k, hk, le_rfl⟩) hl⟩
  · have horder := h.order u v
    rw [View.link_pop, if_pos ⟨rfl, rfl⟩, hq, List.tail_cons] at hx
    rw [hq] at horder
    exact List.rel_of_pairwise_cons horder hx
  · obtain ⟨k, hk, hheard⟩ := h.heard u v hhop
    exact ⟨k, hk, hheard.link a hmem⟩

end Pop

structure Current (V : View ν) (w : ν → ν → ℕ) (linked : ν → ν → Prop) (D u : ν) (a : Ad) : Prop where
  known : V.known u = some a
  trail : ∃ l, Trail V w linked D (u :: l) a.cost

def View.learn [DecidableEq ν] (V : View ν) (w : ν → ν → ℕ) (u v : ν) (a : Ad) : View ν :=
  { V with known := Function.update V.known v (some ⟨a.seq, a.cost + w u v⟩), hop := Function.update V.hop v (some u) }

section Learn

variable (hin : InHand V w linked D u v a) (hpos : 0 < w u v)
  (hbetter : ∀ k, V.known v = some k → k.seq ≤ a.seq ∧ a.cost + w u v ≤ k.cost)
include hin hpos hbetter

theorem InHand.ne : u ≠ v := by
  rintro rfl
  obtain ⟨k, hk, -, hcost⟩ := hin.covers
  have := (hbetter k hk).2
  omega

variable [DecidableEq ν]

theorem known_learn (u' : ν) (k : Ad) (hk : V.known u' = some k) :
    ∃ k', (V.learn w u v a).known u' = some k' ∧ k.seq ≤ k'.seq ∧ k'.cost ≤ k.cost := by
  unfold View.learn
  by_cases hu : u' = v
  · subst hu
    exact ⟨_, Function.update_self .., (hbetter k hk).1, (hbetter k hk).2⟩
  · exact ⟨k, (Function.update_of_ne hu ..).trans hk, le_rfl, le_rfl⟩

/-- **Learning keeps the invariant.** -/
theorem Ok.learn (h : Ok V w linked D) : Ok (V.learn w u v a) w linked D := by
  have hknown := known_learn hin hpos hbetter
  refine ⟨fun u' x hx => ?_, fun u' x hx => ?_, h.order, h.ahead, h.apart, fun u' v' hhop => ?_⟩
  · obtain ⟨k, hk, hseq, hcost⟩ := h.covers u' x hx
    obtain ⟨k', hk', hseq', hcost'⟩ := hknown u' k hk
    exact ⟨k', hk', hseq.trans hseq', hcost'.trans hcost⟩
  · obtain ⟨l, hl⟩ := h.trail u' x hx
    refine ⟨l, Trail.mono (V := V) (fun z k hk => ?_) hl⟩
    obtain ⟨k', hk', -, hcost⟩ := hknown z k hk
    exact ⟨k', hk', hcost⟩
  · by_cases hv : v' = v
    · subst hv
      have hself : (V.learn w u v' a).hop v' = some u := Function.update_self ..
      obtain rfl : u = u' := Option.some.inj (hself.symm.trans hhop)
      refine ⟨_, Function.update_self .., ?_, fun x hx hseq => ?_, fun x hx hseq => ?_⟩
      · obtain ⟨k, hk, hseq, hcost⟩ := hin.covers
        refine ⟨k, (Function.update_of_ne (hin.ne hpos hbetter) ..).trans hk, hseq, ?_⟩
        dsimp only
        omega
      · exact Nat.add_le_add_right (hin.link x hx hseq) _
      · exact Nat.add_le_add_right (hin.pend x hx hseq) _
    · have hhop' : V.hop v' = some u' := (Function.update_of_ne hv ..).symm.trans hhop
      obtain ⟨k, hk, ⟨k', hk', hseq, hcost⟩, hlink, hpend⟩ := h.heard u' v' hhop'
      obtain ⟨k'', hk'', hseq', hcost'⟩ := hknown u' k' hk'
      exact ⟨k, (Function.update_of_ne hv ..).trans hk, ⟨k'', hk'', hseq.trans hseq', by omega⟩, hlink, hpend⟩

theorem InHand.current (hlink : linked u v) :
    Current (V.learn w u v a) w linked D v ⟨a.seq, a.cost + w u v⟩ := by
  have hknown := known_learn hin hpos hbetter
  obtain ⟨l, hl⟩ := hin.trail
  have hout : v ∉ u :: l := by
    intro hv
    obtain ⟨k, hk, hle⟩ := hl.known_le hv
    have := (hbetter k hk).2
    omega
  refine ⟨Function.update_self .., u :: l, .step (k := ⟨a.seq, a.cost + w u v⟩) ?_ hlink hout ?_ le_rfl⟩
  · refine Trail.mono (V := V) (fun z k hk => ?_) hl
    obtain ⟨k', hk', -, hcost⟩ := hknown z k hk
    exact ⟨k', hk', hcost⟩
  · exact Function.update_self ..

end Learn

/-! ## Something is said -/

section Say

/-- A node says something new to all: what it knows, or what it was going to relay. -/
structure Says (V V' : View ν) (u : ν) (a : Ad) : Prop where
  known : V'.known = V.known
  hop : V'.hop = V.hop
  link : ∀ v, V'.link u v = V.link u v ++ [a]
  others : ∀ u', u' ≠ u → V'.link u' = V.link u'
  pend : ∀ u', (V'.pend u').Subperm (V.pend u')

/-- **Saying something keeps the invariant**, if nothing that is said before or after it contradicts it. -/
theorem Ok.say (h : Ok V w linked D) (hs : Says V V' u a) (hcovers : V.Covers u a)
    (htrail : ∃ l, Trail V w linked D (u :: l) a.cost) (hbefore : ∀ v, ∀ x ∈ V.link u v, Later x a)
    (hafter : ∀ y ∈ V'.pend u, Later a y)
    (hheard : ∀ v, V.hop v = some u → ∀ k, V.known v = some k → k.seq ≤ a.seq → a.cost + w u v ≤ k.cost) :
    Ok V' w linked D := by
  have hlink : ∀ u' v x, x ∈ V'.link u' v → x ∈ V.link u' v ∨ u' = u ∧ x = a := by
    intro u' v x hx
    by_cases hu : u' = u
    · subst hu
      rw [hs.link, List.mem_append, List.mem_singleton] at hx
      exact hx.imp_right fun hx => ⟨rfl, hx⟩
    · rw [hs.others u' hu] at hx
      exact .inl hx
  have htold : ∀ u' x, V'.Says u' x → V.Says u' x ∨ u' = u ∧ x = a := by
    rintro u' x (hx | ⟨v, hx⟩)
    · exact .inl (.inl ((hs.pend u').subset hx))
    · exact (hlink u' v x hx).imp_left fun hx => .inr ⟨v, hx⟩
  have htrail' : ∀ {u' : ν} {c : ℕ}, (∃ l, Trail V w linked D (u' :: l) c) → ∃ l, Trail V' w linked D (u' :: l) c := by
    rintro u' c ⟨l, hl⟩
    exact ⟨l, Trail.mono (V := V) (fun z k hk => ⟨k, (congrFun hs.known z).trans hk, le_rfl⟩) hl⟩
  refine ⟨fun u' x hx => ?_, fun u' x hx => ?_, fun u' v => ?_, fun u' v x hx y hy => ?_, fun u' => ?_,
    fun u' v hhop => ?_⟩
  · unfold View.Covers
    rw [hs.known]
    rcases htold u' x hx with hx | ⟨rfl, rfl⟩
    · exact h.covers u' x hx
    · exact hcovers
  · rcases htold u' x hx with hx | ⟨rfl, rfl⟩
    · exact htrail' (h.trail u' x hx)
    · exact htrail' htrail
  · by_cases hu : u' = u
    · subst hu
      rw [hs.link, List.pairwise_append]
      refine ⟨h.order u' v, List.pairwise_singleton .., fun x hx y hy => ?_⟩
      rw [List.mem_singleton.mp hy]
      exact hbefore v x hx
    · rw [hs.others u' hu]
      exact h.order u' v
  · rcases hlink u' v x hx with hx | ⟨rfl, rfl⟩
    · exact h.ahead u' v x hx y ((hs.pend u').subset hy)
    · exact hafter y hy
  · exact pairwise_apart_of_subperm (hs.pend u') (h.apart u')
  · rw [hs.hop] at hhop
    obtain ⟨k, hk, hcov, hlk, hpd⟩ := h.heard u' v hhop
    rw [hs.known]
    refine ⟨k, hk, ?_, fun x hx hseq => ?_, fun x hx => hpd x ((hs.pend u').subset hx)⟩
    · rw [hs.known]
      exact hcov
    · rcases hlink u' v x hx with hx | ⟨rfl, rfl⟩
      · exact hlk x hx hseq
      · exact hheard v hhop k hk hseq

theorem Ok.below (h : Ok V w linked D) (hcur : Current V w linked D u a) (hx : V.Says u x) :
    x.seq ≤ a.seq ∧ a.cost ≤ x.cost := by
  obtain ⟨k, hk, hle⟩ := h.covers u x hx
  cases hcur.known.symm.trans hk
  exact hle

/-- What a node knows may be said at once, if nothing with its number is going to be relayed. -/
theorem Ok.push (h : Ok V w linked D) (hs : Says V V' u a) (hcur : Current V w linked D u a)
    (hnew : ∀ y ∈ V'.pend u, y.seq ≠ a.seq) : Ok V' w linked D := by
  refine h.say hs ⟨a, hcur.known, le_rfl, le_rfl⟩ hcur.trail (fun v x hx _ => (h.below hcur (.inr ⟨v, hx⟩)).2)
    (fun y hy hseq => ?_) fun v hhop k hk _ => ?_
  · exact absurd (le_antisymm (h.below hcur (.inl ((hs.pend u).subset hy))).1 hseq) (hnew y hy)
  · obtain ⟨k', hk', hheard⟩ := h.heard u v hhop
    cases hk.symm.trans hk'
    obtain ⟨k'', hk'', -, hle⟩ := hheard.covers
    cases hcur.known.symm.trans hk''
    exact hle

theorem Ok.emit (h : Ok V w linked D) (hs : Says V V' u a) (hpend : (a :: V'.pend u).Subperm (V.pend u)) :
    Ok V' w linked D := by
  have hmem : a ∈ V.pend u := hpend.subset List.mem_cons_self
  have htold : V.Says u a := .inl hmem
  refine h.say hs (h.covers u a htold) (h.trail u a htold) (fun v x hx => h.ahead u v x hx a hmem) (fun y hy => ?_)
    fun v hhop k hk => ?_
  · exact (List.rel_of_pairwise_cons (pairwise_apart_of_subperm hpend (h.apart u)) hy).2.1
  · obtain ⟨k', hk', hheard⟩ := h.heard u v hhop
    cases hk.symm.trans hk'
    exact hheard.pend a hmem

end Say

theorem Ok.store {q : List Ad} (h : Ok V w linked D) (hcur : Current V w linked D u a) (hknown : V'.known = V.known)
    (hhop : V'.hop = V.hop) (hlink : V'.link = V.link) (hothers : ∀ u', u' ≠ u → V'.pend u' = V.pend u')
    (hperm : (V'.pend u).Perm (a :: q)) (hsub : q.Subperm (V.pend u)) (hnew : ∀ y ∈ q, y.seq ≠ a.seq) :
    Ok V' w linked D := by
  have hpend : ∀ u' x, x ∈ V'.pend u' → x ∈ V.pend u' ∨ u' = u ∧ x = a := by
    intro u' x hx
    by_cases hu : u' = u
    · subst hu
      rcases List.mem_cons.mp (hperm.subset hx) with rfl | hx
      · exact .inr ⟨rfl, rfl⟩
      · exact .inl (hsub.subset hx)
    · rw [hothers u' hu] at hx
      exact .inl hx
  have htold : ∀ u' x, V'.Says u' x → V.Says u' x ∨ u' = u ∧ x = a := by
    rintro u' x (hx | ⟨v, hx⟩)
    · exact (hpend u' x hx).imp_left .inl
    · rw [hlink] at hx
      exact .inl (.inr ⟨v, hx⟩)
  have htrail : ∀ {u' : ν} {c : ℕ}, (∃ l, Trail V w linked D (u' :: l) c) → ∃ l, Trail V' w linked D (u' :: l) c := by
    rintro u' c ⟨l, hl⟩
    exact ⟨l, Trail.mono (V := V) (fun z k hk => ⟨k, (congrFun hknown z).trans hk, le_rfl⟩) hl⟩
  refine ⟨fun u' x hx => ?_, fun u' x hx => ?_, fun u' v => ?_, fun u' v x hx y hy => ?_, fun u' => ?_,
    fun u' v hv => ?_⟩
  · unfold View.Covers
    rw [hknown]
    rcases htold u' x hx with hx | ⟨rfl, rfl⟩
    · exact h.covers u' x hx
    · exact ⟨x, hcur.known, le_rfl, le_rfl⟩
  · rcases htold u' x hx with hx | ⟨rfl, rfl⟩
    · exact htrail (h.trail u' x hx)
    · exact htrail hcur.trail
  · rw [hlink]
    exact h.order u' v
  · rw [hlink] at hx
    rcases hpend u' y hy with hy | ⟨rfl, rfl⟩
    · exact h.ahead u' v x hx y hy
    · exact fun _ => (h.below hcur (.inr ⟨v, hx⟩)).2
  · by_cases hu : u' = u
    · subst hu
      rw [hperm.pairwise_iff Apart.symm, List.pairwise_cons]
      refine ⟨fun y hy => ?_, pairwise_apart_of_subperm hsub (h.apart u')⟩
      obtain ⟨hseq, hcost⟩ := h.below hcur (.inl (hsub.subset hy))
      exact ⟨(hnew y hy).symm, fun hle => absurd (le_antisymm hseq hle) (hnew y hy), fun _ => hcost⟩
    · rw [hothers u' hu]
      exact h.apart u'
  · rw [hhop] at hv
    obtain ⟨k, hk, hcov, hlk, hpd⟩ := h.heard u' v hv
    rw [hknown]
    refine ⟨k, hk, ?_, fun x hx => hlk x (by rwa [hlink] at hx), fun x hx hseq => ?_⟩
    · rw [hknown]
      exact hcov
    · rcases hpend u' x hx with hx | ⟨rfl, rfl⟩
      · exact hpd x hx hseq
      · obtain ⟨k', hk', -, hle⟩ := hcov
        cases hcur.known.symm.trans hk'
        exact hle

theorem Ok.announce {k : Ad} (h : Ok V w linked D) (hs : Says V V' D a) (hk : V.known D = some k) (hzero : k.cost = 0)
    (hseq : a.seq ≤ k.seq) (hcost : a.cost = 0) (hpend : V.pend D = []) : Ok V' w linked D := by
  refine h.say hs ⟨k, hk, hseq, by omega⟩ ⟨[], hcost ▸ .origin hk hzero⟩ (fun v x _ _ => ?_) (fun y hy => ?_)
    fun v hhop k' hk' _ => ?_
  · exact hcost.trans_le (Nat.zero_le _)
  · have hsub := (hs.pend D).subset hy
    rw [hpend] at hsub
    cases hsub
  · obtain ⟨k₁, hk₁, hheard⟩ := h.heard D v hhop
    cases hk'.symm.trans hk₁
    obtain ⟨k₂, hk₂, -, hle⟩ := hheard.covers
    cases hk.symm.trans hk₂
    omega

theorem ok_of_silent (hlink : ∀ u v, V.link u v = []) (hpend : ∀ u, V.pend u = []) (hhop : ∀ v, V.hop v = none) :
    Ok V w linked D := by
  have htold : ∀ u x, ¬ V.Says u x := by
    rintro u x (hx | ⟨v, hx⟩)
    · rw [hpend] at hx
      cases hx
    · rw [hlink] at hx
      cases hx
  refine ⟨fun u x hx => absurd hx (htold u x), fun u x hx => absurd hx (htold u x), fun u v => ?_, fun u v x hx => ?_,
    fun u => ?_, fun u v hv => ?_⟩
  · rw [hlink]
    exact .nil
  · exact absurd (.inr ⟨v, hx⟩) (htold u x)
  · rw [hpend]
    exact .nil
  · rw [hhop] at hv
    cases hv

end Flood
