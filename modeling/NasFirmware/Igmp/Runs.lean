import NasFirmware.Igmp.Routes
import NasFirmware.Igmp.Table

/-!
# Runs of the proxy

In every run the forwarding cache says what the group table says, as long as the reports meet three conditions:
they name proper sources, memory is found for new sources of `INCLUDE` groups, and no group is dropped with its last
member while it has sources.
-/

namespace NasFirmware.Igmp

open Keyed

/-! ## The table and the cache -/

/-- The groups in the table have their routes, and there are no others. -/
structure Coherent (cfg : Config) (st : State) : Prop where
  distinct : Distinct McftEntry.grpAddr st.mcpq
  good : ∀ g e, getMcft st g = some e → Good cfg e st.world
  absent : ∀ g, getMcft st g = none → st.world.mfc g = fun _ => none

section Table

variable {cfg : Config} {st : State} {group src : Addr} {body : McftEntry → World → Outcome} {e : McftEntry}
  {w w' : World}

theorem Good.world (h : Good cfg e w) (hw : w'.mfc e.grpAddr = w.mfc e.grpAddr) : Good cfg e w' :=
  ⟨h.wf, h.proper, hw.trans h.routes⟩

theorem kept_of_entry {e' : McftEntry} (h : Good cfg e w) (hgroup : e.grpAddr = group)
    (hgrp : e'.grpAddr = e.grpAddr) (hlist : e'.srclist = e.srclist) (hmrt : e'.mrtState = e.mrtState) (hwf : Wf e') :
    Kept cfg group w { entry := e', world := w } := by
  subst hgroup
  refine ⟨hgrp, fun _ _ => rfl, fun _ => ⟨hwf, fun s hs => h.proper s (hlist ▸ hs), ?_⟩, nofun⟩
  rw [hgrp, hlist, hmrt]
  exact h.routes

theorem Coherent.update {st' : State} {x : Option McftEntry} (h : Coherent cfg st)
    (hdist : Distinct McftEntry.grpAddr st'.mcpq) (hget : ∀ g, getMcft st' g = if g = group then x else getMcft st g)
    (hframe : ∀ g, g ≠ group → st'.world.mfc g = st.world.mfc g) (hgood : ∀ e, x = some e → Good cfg e st'.world)
    (habsent : x = none → st'.world.mfc group = fun _ => none) : Coherent cfg st' := by
  refine ⟨hdist, fun g e hg => ?_, fun g hg => ?_⟩
  · rw [hget] at hg
    split_ifs at hg with heq
    · exact hgood e hg
    · refine (h.good g e hg).world ?_
      rw [grpAddr_of_getMcft hg]
      exact hframe g heq
  · rw [hget] at hg
    split_ifs at hg with heq
    · exact heq ▸ habsent hg
    · exact (hframe g heq).trans (h.absent g hg)

theorem coherent_apply (h : Coherent cfg st)
    (hbody : ∀ e, getMcft st group = some e → Kept cfg group st.world (body e st.world)) :
    Coherent cfg (apply st group body) := by
  have hgrp : ∀ e, getMcft st group = some e → (body e st.world).entry.grpAddr = group :=
    fun e hget => (hbody e hget).grpAddr
  have hget' : ∀ g, getMcft (apply st group body) g = _ := fun g => getMcft_apply_eq h.distinct hgrp
  have hdist := distinct_apply h.distinct hgrp
  cases hget : getMcft st group with
  | none =>
    unfold apply
    rw [hget]
    exact h
  | some e =>
    have hkept := hbody e hget
    have hmfc : (apply st group body).world.mfc = _ := apply_mfc hget
    rw [hget] at hget'
    refine h.update hdist hget' (fun g hg => ?_) (fun e' he' => ?_) fun hnone => ?_
    · rw [hmfc, hkept.frame g hg]
    · obtain ⟨hkeep, rfl⟩ := Outcome.left_eq_some_iff.mp he'
      exact (hkept.kept hkeep).world (congrFun hmfc _)
    · rw [hmfc, hkept.dropped (Outcome.left_eq_none_iff.mp hnone)]

theorem coherent_sweep (h : Coherent cfg st)
    (hbody : ∀ e w, Good cfg e w → Kept cfg e.grpAddr w (body e w)) : Coherent cfg (sweep st body) := by
  refine List.foldlRecOn _ _ h fun st hst group _ => coherent_apply hst fun e hget => ?_
  rw [← grpAddr_of_getMcft hget]
  exact hbody e st.world (hst.good _ e hget)

theorem coherent_addMcft (h : Coherent cfg st) (hnew : getMcft st group = none) :
    Coherent cfg (addMcft st group src).2 := by
  unfold addMcft
  split_ifs
  · exact h
  · exact ⟨h.distinct, fun g e hg => (h.good g e hg).world rfl, h.absent⟩
  · refine @Coherent.update cfg st group _ (some (newEntry group src)) h ?_ (fun g => ?_) (fun _ _ => rfl)
      (fun e he => ?_) nofun
    · exact List.nodup_cons.mpr ⟨get_eq_none_iff.mp hnew, h.distinct⟩
    · exact if_congr eq_comm rfl rfl
    · cases he
      refine ⟨⟨List.nodup_nil, nofun, nofun, rfl⟩, fun s hs => absurd rfl hs, ?_⟩
      exact (h.absent group hnew).trans (routes_eq_none fun _ => rfl).symm

theorem getMcft_addMcft (hok : (addMcft st group src).1 = true) :
    getMcft (addMcft st group src).2 group = some (newEntry group src) := by
  unfold addMcft at hok ⊢
  split_ifs at hok ⊢
  exact if_pos rfl

theorem coherent_onGroup (h : Coherent cfg st)
    (hold : ∀ e, getMcft st group = some e → Good cfg e st.world → Kept cfg group st.world (body e st.world))
    (hnew : getMcft st group = none → ∀ w, Good cfg (newEntry group src) w →
      Kept cfg group w (body (newEntry group src) w)) :
    Coherent cfg (onGroup st group src body) := by
  unfold onGroup
  split_ifs with hmulti hres hsome
  · exact h
  · exact h
  · exact coherent_apply h fun e hget => hold e hget (h.good _ e hget)
  · have hget : getMcft st group = none := Option.not_isSome_iff_eq_none.mp hsome
    have hadd := @coherent_addMcft cfg st group src h hget
    have hself := @getMcft_addMcft st group src
    dsimp only
    split_ifs with hok
    · refine coherent_apply hadd fun e he => ?_
      have hgood := hadd.good _ e he
      cases (hself hok).symm.trans he
      exact hnew hget _ hgood
    · exact hadd

end Table

/-! ## Records -/

/-- The groups that the handlers look at. -/
def Acts (group : Addr) : Prop := inMulticast group = true ∧ reserved group = false

variable {st : State} {cfg : Config}

theorem onGroup_of_not_acts {group src : Addr} {body : McftEntry → World → Outcome}
    (h : ¬ Acts group) : onGroup st group src body = st := by
  unfold onGroup
  cases hmulti : inMulticast group with
  | false => rfl
  | true =>
    cases hres : reserved group with
    | false => exact absurd ⟨hmulti, hres⟩ h
    | true => rfl

def modeOf (st : State) (group : Addr) : FilterMode := ((getMcft st group).map (·.filterMode)).getD .mcastInclude

def srclistOf (st : State) (group : Addr) : List SrcEntry := ((getMcft st group).map (·.srclist)).getD []

/-- **The conditions on a record**, in the state in which it is handled. -/
structure RecordOk (cfg : Config) (st : State) (group src : Addr) (sources : List Reported) (type : RecordType) :
    Prop where
  /-- sources have proper addresses -/
  proper : ∀ r ∈ sources, Proper cfg r.src
  /-- the route of a source in an `INCLUDE` group is added before its node, which needs memory -/
  memory : type = .modeIsInclude ∨ type = .changeToInclude ∨ type = .allowNewSources →
    modeOf st group = .mcastInclude → ∀ s, checkSrc s sources = true → leftOf (srclistOf st group) s = none →
      ⟨s, true⟩ ∈ sources
  /-- the last member to leave takes no sources along -/
  last : type = .changeToInclude → sources = [] → ∀ e, getMcft st group = some e → e.grpMbr.erase src = [] →
    e.srclist = []

section Records

variable {cfg : Config} {st : State} {group src : Addr} {sources : List Reported} {type : RecordType} {e : McftEntry}
  {w : World}

theorem kept_body (h : Good cfg e w) (hr : ∀ r ∈ sources, Proper cfg r.src)
    (hmem : type = .modeIsInclude ∨ type = .changeToInclude ∨ type = .allowNewSources →
      e.filterMode = .mcastInclude → ∀ s, checkSrc s sources = true → leftOf e.srclist s = none → ⟨s, true⟩ ∈ sources)
    (hlast : type = .changeToInclude → sources = [] → e.grpMbr.erase src = [] → e.srclist = []) :
    Kept cfg e.grpAddr w (type.body cfg src sources e w) := by
  cases type with
  | modeIsInclude => exact kept_isin h hr (hmem (.inl rfl))
  | modeIsExclude => exact kept_isex h hr
  | changeToInclude => exact kept_toin h hr (hmem (.inr (.inl rfl))) (hlast rfl)
  | changeToExclude => exact kept_toex h hr
  | allowNewSources => exact kept_isin h hr (hmem (.inr (.inr rfl)))
  | blockOldSources => exact kept_block h hr

theorem coherent_handleRecord (h : Coherent cfg st) (hok : Acts group → RecordOk cfg st group src sources type) :
    Coherent cfg (handleRecord cfg st group src sources type) := by
  rw [handleRecord_eq]
  by_cases hacts : Acts group
  · obtain ⟨hr, hmem, hlast⟩ := hok hacts
    refine coherent_onGroup h (fun e hget hgood => ?_) fun hnew w hgood => ?_
    · rw [modeOf, srclistOf, hget] at hmem
      rw [← grpAddr_of_getMcft hget]
      exact kept_body hgood hr hmem fun htype hnil => hlast htype hnil e hget
    · rw [modeOf, srclistOf, hnew] at hmem
      exact kept_body hgood hr (fun htype _ => hmem htype rfl) fun _ _ _ => rfl
  · rw [onGroup_of_not_acts hacts]
    exact h

end Records

/-! ## Messages and ticks -/

/-- The conditions on the records of a report, one after the other. -/
def RecordsOk (cfg : Config) (src : Addr) : State → List Record → Prop
  | _, [] => True
  | st, r :: records =>
    (r.group ≠ allPrinter → Acts r.group → RecordOk cfg st r.group src r.sources r.type) ∧
      RecordsOk cfg src (acceptRecord cfg src st r) records

def Allowed (cfg : Config) (st : State) : Event → Prop
  | .message (.reportV3 src records) => RecordsOk cfg src st records
  | .message (.leave group src) => Acts group → ∀ e, getMcft st group = some e → e.grpMbr.erase src = [] →
      e.srclist = []
  | .message (.report _ _) | .tick => True

section Steps

variable {cfg : Config} {st : State} {src group : Addr} {records : List Record} {e : McftEntry} {w : World}

theorem coherent_records (h : Coherent cfg st) (hok : RecordsOk cfg src st records) :
    Coherent cfg (records.foldl (acceptRecord cfg src) st) := by
  induction records generalizing st with
  | nil => exact h
  | cons r records ih =>
    refine ih ?_ hok.2
    unfold acceptRecord
    split_ifs with hprinter
    · exact h
    · exact coherent_handleRecord h (hok.1 hprinter)

theorem coherent_addReported (h : Coherent cfg st) : Coherent cfg (addReported cfg st group src).2 := by
  unfold addReported
  split_ifs with hsome
  · exact h
  · have hadd := @coherent_addMcft cfg st group src h (Option.not_isSome_iff_eq_none.mp hsome)
    dsimp only
    split_ifs
    · dsimp only
      refine coherent_apply hadd fun e hget => ?_
      have hgood := hadd.good _ e hget
      refine kept_of_entry hgood (grpAddr_of_getMcft hget) rfl rfl rfl ?_
      exact ⟨hgood.wf.distinct, nofun, fun _ => cfg.memberQueryInterval_pos, hgood.wf.users⟩
    · exact hadd

theorem recordOk_nil {type : RecordType} (hlast : type = .changeToInclude → ∀ e, getMcft st group = some e →
    e.grpMbr.erase src = [] → e.srclist = []) : RecordOk cfg st group src [] type :=
  { proper := nofun, memory := fun _ _ _ hrep => (nomatch hrep), last := fun htype _ => hlast htype }

/-- **A step keeps the routes in order.** -/
theorem coherent_step {event : Event} (h : Coherent cfg st) (hok : Allowed cfg st event) :
    Coherent cfg (step cfg st event) := by
  cases event with
  | tick =>
    refine coherent_sweep ?_ fun e w => kept_srcTimer
    exact coherent_sweep h fun e w => kept_groupTimer
  | message m =>
    cases m with
    | report group src =>
      have hadd := @coherent_addReported cfg st src group h
      unfold step igmpv3Accept
      dsimp only
      split_ifs
      · refine @coherent_handleRecord cfg _ group src [] .modeIsExclude ?_ fun _ => recordOk_nil nofun
        refine coherent_apply hadd fun e hget => ?_
        have hgood := hadd.good _ e hget
        refine kept_of_entry hgood (grpAddr_of_getMcft hget) rfl rfl rfl ?_
        exact ⟨hgood.wf.distinct, hgood.wf.running, hgood.wf.timer, hgood.wf.users⟩
      · exact hadd
    | reportV3 src records => exact coherent_records h hok
    | leave group src =>
      unfold step igmpv3Accept
      dsimp only
      split_ifs
      · exact @coherent_handleRecord cfg _ group src [] .changeToInclude h fun hacts => recordOk_nil fun _ => hok hacts
      · exact h

end Steps

inductive Run (cfg : Config) : State → Prop where
  | init : Run cfg init
  | step {st : State} {event : Event} (h : Run cfg st) (hok : Allowed cfg st event) : Run cfg (step cfg st event)

theorem coherent_init : Coherent cfg init := ⟨List.nodup_nil, nofun, fun _ _ => rfl⟩

theorem Run.coherent (h : Run cfg st) : Coherent cfg st := by
  induction h with
  | init => exact coherent_init
  | step _ hok ih => exact coherent_step ih hok

def askedEvent : Event := .message (.reportV3 0xc0a80102 [⟨.allowNewSources, 0xef010203, [⟨0x0a000001, true⟩]⟩])

theorem askedEvent_allowed : Allowed plainConfig init askedEvent := by
  refine ⟨fun _ _ => ⟨fun r hr => ?_, fun _ _ s hs _ => (mem_of_checkSrc (by decide)).mpr hs, nofun⟩, trivial⟩
  rw [List.mem_singleton.mp hr]
  exact ⟨by decide, by decide⟩

def leftRun : State :=
  step plainConfig (step plainConfig init askedEvent)
    (.message (.reportV3 0xc0a80102 [⟨.changeToInclude, 0xef010203, []⟩]))

end NasFirmware.Igmp
