import NasFirmware.Igmp.ToEx

/-!
# The groups in the table

* `every_apply`, **`every_sweep`**, `every_onGroup`: one group, every group once, and the group of a record;
* `Stable`, **`every_step`**: properties that messages and ticks keep.
-/

namespace NasFirmware.Igmp

open Keyed

def Outcome.left (o : Outcome) : Option McftEntry := if o.drop then none else some o.entry

theorem Outcome.left_eq_some_iff {o : Outcome} {e : McftEntry} : o.left = some e ↔ o.drop = false ∧ o.entry = e := by
  unfold Outcome.left
  split_ifs with hdrop
  · simp [hdrop]
  · simp [Bool.eq_false_iff.mpr hdrop]

theorem Outcome.left_eq_none_iff {o : Outcome} : o.left = none ↔ o.drop = true := by
  unfold Outcome.left
  split_ifs with hdrop
  · exact iff_of_true rfl hdrop
  · exact iff_of_false nofun hdrop

structure Every (P : McftEntry → Prop) (st : State) : Prop where
  distinct : Distinct McftEntry.grpAddr st.mcpq
  all : ∀ g e, getMcft st g = some e → P e

/-- A group with `P` keeps its address, and if it stays it has `Q` then. -/
def Turns (P Q : McftEntry → Prop) (body : McftEntry → World → Outcome) : Prop :=
  ∀ e w, P e → (body e w).entry.grpAddr = e.grpAddr ∧ ((body e w).drop = false → Q (body e w).entry)

variable {cfg : Config} {st : State} {group src : Addr} {P : McftEntry → Prop}

section Table

variable {g : Addr} {body : McftEntry → World → Outcome} {Q : McftEntry → Prop} {e : McftEntry}

theorem Every.of_mem (h : Every P st) (he : e ∈ st.mcpq) : P e := h.all _ e (h.distinct.get_eq he)

theorem grpAddr_of_getMcft (h : getMcft st group = some e) : e.grpAddr = group := (mem_of_get h).2

section Apply

variable (hdist : Distinct McftEntry.grpAddr st.mcpq)
  (hgrp : ∀ e, getMcft st group = some e → (body e st.world).entry.grpAddr = group)

include hdist hgrp

theorem distinct_apply : Distinct McftEntry.grpAddr (apply st group body).mcpq := by
  unfold apply
  cases hget : getMcft st group with
  | none => exact hdist
  | some e =>
    have hmod := hdist.modify (k := group) (f := fun _ => (body e st.world).entry) fun _ _ => hgrp e hget
    dsimp only
    split_ifs
    · unfold delMcft
      split
      · exact hmod
      · exact hmod.remove
    · exact hmod

/-- **One group changes**, or goes. -/
theorem getMcft_apply_eq : getMcft (apply st group body) g =
    if g = group then (getMcft st group).bind fun e => (body e st.world).left else getMcft st g := by
  cases hget : getMcft st group with
  | none =>
    unfold apply
    rw [hget]
    split_ifs with heq
    · rw [heq, hget]
      rfl
    · rfl
  | some e =>
    have hmod := hdist.modify (k := group) (f := fun _ => (body e st.world).entry) fun _ _ => hgrp e hget
    have hentry : ∀ g, get McftEntry.grpAddr g (Keyed.modify McftEntry.grpAddr group
        (fun _ => (body e st.world).entry) st.mcpq) =
          if g = group then some (body e st.world).entry else getMcft st g := by
      intro g
      rw [get_modify fun _ _ => hgrp e hget]
      split_ifs
      · exact congrArg (Option.map _) hget
      · rfl
    unfold apply
    rw [hget, Option.bind_some, Outcome.left]
    dsimp only
    generalize Keyed.modify McftEntry.grpAddr group (fun _ => (body e st.world).entry) st.mcpq = l at hmod hentry ⊢
    by_cases hdrop : (body e st.world).drop = true
    · have hself : getMcft ⟨l, (body e st.world).world⟩ group = some (body e st.world).entry := by
        rw [getMcft, hentry, if_pos rfl]
      rw [if_pos hdrop, if_pos hdrop, delMcft, hself, getMcft, get_remove hmod, hentry]
      split_ifs <;> rfl
    · rw [if_neg hdrop, if_neg hdrop, getMcft, hentry]

end Apply

theorem apply_mfc (hget : getMcft st group = some e) : (apply st group body).world.mfc = (body e st.world).world.mfc := by
  unfold apply
  rw [hget]
  dsimp only
  split_ifs
  · unfold delMcft
    split <;> rfl
  · rfl

theorem Turns.left (hbody : Turns P Q body) {w : World} (he : P e) {e' : McftEntry}
    (hleft : (body e w).left = some e') : Q e' := by
  obtain ⟨hkeep, rfl⟩ := Outcome.left_eq_some_iff.mp hleft
  exact (hbody e w he).2 hkeep

theorem Turns.apply_grpAddr (hbody : Turns P Q body) (h : ∀ e, getMcft st group = some e → P e) :
    ∀ e, getMcft st group = some e → (body e st.world).entry.grpAddr = group :=
  fun e hget => (hbody e st.world (h e hget)).1.trans (grpAddr_of_getMcft hget)

theorem every_apply (h : Every P st) (hbody : Turns P P body) : Every P (apply st group body) := by
  have hgrp := hbody.apply_grpAddr (h.all group)
  refine ⟨distinct_apply h.distinct hgrp, fun g e hget => ?_⟩
  rw [getMcft_apply_eq h.distinct hgrp] at hget
  split_ifs at hget
  · obtain ⟨e₀, he₀, hleft⟩ := Option.bind_eq_some_iff.mp hget
    exact hbody.left (h.all _ e₀ he₀) hleft
  · exact h.all g e hget

/-- Something is done to some groups, one after the other: these have `Q` then. -/
theorem every_foldl_apply {groups : List Addr} (hnodup : groups.Nodup)
    (hdist : Distinct McftEntry.grpAddr st.mcpq)
    (hall : ∀ g e, getMcft st g = some e → (g ∈ groups → P e) ∧ (g ∉ groups → Q e)) (hbody : Turns P Q body) :
    Every Q (groups.foldl (fun st group => apply st group body) st) := by
  induction groups generalizing st with
  | nil => exact ⟨hdist, fun g e hget => (hall g e hget).2 List.not_mem_nil⟩
  | cons group groups ih =>
    obtain ⟨hnot, hnodup⟩ := List.nodup_cons.mp hnodup
    have hP : ∀ e, getMcft st group = some e → P e := fun e hget => (hall group e hget).1 List.mem_cons_self
    have hgrp := hbody.apply_grpAddr hP
    refine ih hnodup (distinct_apply hdist hgrp) fun g e hget => ?_
    rw [getMcft_apply_eq hdist hgrp] at hget
    split_ifs at hget with heq
    · subst heq
      obtain ⟨e₀, he₀, hleft⟩ := Option.bind_eq_some_iff.mp hget
      exact ⟨fun hmem => absurd hmem hnot, fun _ => hbody.left (hP e₀ he₀) hleft⟩
    · obtain ⟨hin, hout⟩ := hall g e hget
      exact ⟨fun hmem => hin (List.mem_cons_of_mem _ hmem),
        fun hmem => hout fun hcons => hmem ((List.mem_cons.mp hcons).resolve_left heq)⟩

/-- **A loop over all groups** reaches each of them. -/
theorem every_sweep (h : Every P st) (hbody : Turns P Q body) : Every Q (sweep st body) := by
  refine every_foldl_apply h.distinct h.distinct (fun g e hget => ⟨fun _ => h.all g e hget, fun hmem => ?_⟩) hbody
  obtain ⟨hmem', rfl⟩ := mem_of_get hget
  exact absurd (List.mem_map_of_mem hmem') hmem

theorem every_addMcft (h : Every P st) (hget : getMcft st group = none) (hnew : P (newEntry group src)) :
    Every P (addMcft st group src).2 := by
  unfold addMcft
  split_ifs
  · exact h
  · exact ⟨h.distinct, h.all⟩
  · refine ⟨List.nodup_cons.mpr ⟨get_eq_none_iff.mp hget, h.distinct⟩, fun g e hg => ?_⟩
    rw [getMcft, get_cons] at hg
    split_ifs at hg
    · cases hg
      exact hnew
    · exact h.all g e hg

theorem every_onGroup (h : Every P st) (hbody : Turns P P body)
    (hnew : inMulticast group = true → reserved group = false → P (newEntry group src)) :
    Every P (onGroup st group src body) := by
  unfold onGroup
  split_ifs with hmulti hres hsome
  · exact h
  · exact h
  · exact every_apply h hbody
  · have hentry : P (newEntry group src) := hnew (by simpa using hmulti) (Bool.eq_false_iff.mpr hres)
    have hadd := every_addMcft h (Option.not_isSome_iff_eq_none.mp hsome) hentry
    dsimp only
    split_ifs
    · exact every_apply hadd hbody
    · exact hadd

end Table

/-! ## Messages and ticks -/

def startReported (cfg : Config) (e : McftEntry) (w : World) : Outcome :=
  { entry := { e with timer := cfg.gmi, filterMode := .mcastExclude }, world := w }

def setVer2 (e : McftEntry) (w : World) : Outcome := { entry := { e with igmpVer := .v2 }, world := w }

structure Stable (cfg : Config) (P : McftEntry → Prop) : Prop where
  record : ∀ (type : RecordType) (src : Addr) (sources : List Reported), Turns P P (type.body cfg src sources)
  reported : Turns P P (startReported cfg)
  ver : Turns P P setVer2
  groupTimer : Turns P P (groupTimer cfg)
  srcTimer : Turns P P (srcTimer cfg)

section Steps

variable {records : List Record} {m : Message}

theorem every_handleRecord {type : RecordType} {sources : List Reported} (hP : Stable cfg P) (h : Every P st)
    (hnew : inMulticast group = true → reserved group = false → P (newEntry group src)) :
    Every P (handleRecord cfg st group src sources type) := by
  rw [handleRecord_eq]
  exact every_onGroup h (hP.record type src sources) hnew

theorem every_records (hP : Stable cfg P) (h : Every P st)
    (hnew : ∀ group, inMulticast group = true → reserved group = false → P (newEntry group src)) :
    Every P (records.foldl (acceptRecord cfg src) st) := by
  refine List.foldlRecOn _ _ h fun st hst r _ => ?_
  unfold acceptRecord
  split_ifs
  · exact hst
  · exact every_handleRecord hP hst (hnew r.group)

theorem every_addReported (hP : Stable cfg P) (h : Every P st)
    (hnew : getMcft st group = none → P (newEntry group src)) : Every P (addReported cfg st group src).2 := by
  unfold addReported
  split_ifs with hsome
  · exact h
  · have hget := Option.not_isSome_iff_eq_none.mp hsome
    have hadd := every_addMcft h hget (hnew hget)
    dsimp only
    split_ifs
    · exact every_apply hadd hP.reported
    · exact hadd

/-- **A message.** Records add groups that the handlers accept; a report of version 1 or 2 adds any group. -/
theorem every_accept (hP : Stable cfg P) (h : Every P st)
    (hnew : ∀ group src, inMulticast group = true → reserved group = false → P (newEntry group src))
    (hreport : ∀ group src, m = .report group src → getMcft st group = none → P (newEntry group src)) :
    Every P (igmpv3Accept cfg st m) := by
  cases m with
  | report group src =>
    have hadd := every_addReported hP h (hreport group src rfl)
    unfold igmpv3Accept
    dsimp only
    split_ifs
    · exact @every_handleRecord cfg _ group src P .modeIsExclude [] hP (every_apply hadd hP.ver) (hnew group src)
    · exact hadd
  | reportV3 src records => exact every_records hP h fun group => hnew group src
  | leave group src =>
    unfold igmpv3Accept
    dsimp only
    split_ifs
    · exact @every_handleRecord cfg _ group src P .changeToInclude [] hP h (hnew group src)
    · exact h

theorem every_tick (hP : Stable cfg P) (h : Every P st) : Every P (step cfg st .tick) :=
  every_sweep (every_sweep h hP.groupTimer) hP.srcTimer

end Steps

end NasFirmware.Igmp
