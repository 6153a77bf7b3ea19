import NasFirmware.Nand.Steps

/-!
# The table survives

* **`persists_iff`**: a table of one page is kept by both, one of two pages by an update only.
-/

namespace NasFirmware.Nand

open ByteMem

section

variable {g : Geometry} {e : Env} {c : Tagged} (isBad : ℕ → ℕ → Bool) {bbt : List BBt} {n k : ℕ}

theorem takeFree_fits {upd : BBt → BBt} (hupd : ∀ b : BBt, b.Fits → (upd b).Fits) {t : List BBt} {b : BBt}
    (hfits : ∀ b ∈ bbt, b.Fits) (h : takeFree upd bbt = some (t, b)) :
    t.length = bbt.length ∧ ∀ b ∈ t, b.Fits := by
  induction bbt generalizing t b with
  | nil => cases h
  | cons a bbt ih =>
    have ha := hfits a List.mem_cons_self
    have hbbt : ∀ b ∈ bbt, b.Fits := fun b hb => hfits b (List.mem_cons_of_mem _ hb)
    unfold takeFree at h
    split_ifs at h with hfree
    · cases h
      exact ⟨rfl, List.forall_mem_cons.mpr ⟨hupd a ha, hbbt⟩⟩
    · obtain ⟨⟨t', b'⟩, h', heq⟩ := Option.map_eq_some_iff.mp h
      cases heq
      obtain ⟨hlen, ht⟩ := ih hbbt h'
      exact ⟨congrArg Nat.succ hlen, List.forall_mem_cons.mpr ⟨ha, ht⟩⟩

theorem getD_lt {l : List ℕ} {d : ℕ} (hl : ∀ b ∈ l, b < n) (hd : d < n) (i : ℕ) : l.getD i d < n := by
  rw [List.getD_eq_getElem?_getD]
  cases h : l[i]? with
  | none => exact hd
  | some b => exact hl b (List.mem_of_getElem? h)

variable (hchips : g.numchips ≤ 256)

include hchips

theorem scanEntry_fits (i : ℕ) : (scanEntry g isBad i).Fits := by
  have hnum := g.blockNum_le
  refine ⟨?_, getD_lt (fun b hb => ?_) (by decide) i, ?_, getD_lt (fun b hb => ?_) (by decide) i⟩
  · unfold scanEntry
    dsimp only
    split_ifs
    · omega
    · decide
  · have := List.mem_range.mp (List.mem_filter.mp hb).1
    omega
  · change g.numchips - 1 < 65536
    omega
  · obtain ⟨j, -, rfl⟩ := List.mem_map.mp (List.mem_filter.mp hb).1
    omega

theorem scanOtherDie_fits (hfits : ∀ b ∈ bbt, b.Fits)
    (hk : k < g.numchips) :
    (scanOtherDie g isBad bbt k).length = bbt.length ∧ ∀ b ∈ scanOtherDie g isBad bbt k, b.Fits := by
  have hnum := g.blockNum_le
  have haddr : ∀ addr ∈ otherDieAddrs g k, addr / g.erasesize < 65536 := by
    intro addr h
    have hlt : addr < g.pages * g.pageSize := of_decide_eq_true (List.mem_filter.mp h).2
    have hpages : g.pages * g.pageSize = g.erasesize * g.blockNum := by
      unfold Geometry.pages Geometry.erasesize
      rw [Nat.mul_assoc, Nat.mul_comm]
    rw [hpages] at hlt
    have := Nat.div_lt_of_lt_mul hlt
    omega
  unfold scanOtherDie
  generalize otherDieAddrs g k = addrs at haddr
  induction addrs generalizing bbt with
  | nil => exact ⟨rfl, hfits⟩
  | cons addr addrs ih =>
    have hlt := haddr addr List.mem_cons_self
    have haddr := fun a ha => haddr a (List.mem_cons_of_mem _ ha)
    rw [List.foldl_cons]
    split_ifs
    · cases htake : takeFree (fun b => { b with badBlock := addr / g.erasesize, bbDie := k, rbDie := g.numchips - 1 })
          bbt with
      | none => exact ih hfits haddr
      | some x =>
        have hupd : ∀ b : BBt, b.Fits →
            BBt.Fits { b with badBlock := addr / g.erasesize, bbDie := k, rbDie := g.numchips - 1 } := by
          intro b hb
          refine ⟨?_, hlt, ?_, hb.remapBlock⟩
          · exact hk.trans_le (hchips.trans (by decide))
          · exact (Nat.sub_le ..).trans_lt (Nat.lt_of_le_of_lt hchips (by decide))
        obtain ⟨hlen, ht⟩ := takeFree_fits hupd hfits htake
        obtain ⟨hlen', ht'⟩ := ih ht haddr
        exact ⟨hlen'.trans hlen, ht'⟩
    · exact ih hfits haddr

theorem newTable_fits :
    (newTable g isBad).length = g.RBA ∧ ∀ b ∈ newTable g isBad, b.Fits := by
  have hlast : (scanLastDieBB g isBad).length = g.RBA ∧ ∀ b ∈ scanLastDieBB g isBad, b.Fits := by
    unfold scanLastDieBB
    refine ⟨by rw [List.length_map, List.length_range], fun b hb => ?_⟩
    obtain ⟨i, -, rfl⟩ := List.mem_map.mp hb
    exact scanEntry_fits isBad hchips i
  unfold newTable
  split_ifs with hmore
  · unfold scanOtherDieBB
    have hdies : ∀ k ∈ List.range (g.numchips - 1), k < g.numchips := by
      intro k hk
      have := List.mem_range.mp hk
      omega
    revert hlast
    generalize scanLastDieBB g isBad = bbt
    generalize List.range (g.numchips - 1) = dies at hdies
    induction dies generalizing bbt with
    | nil => exact id
    | cons k dies ih =>
      rintro ⟨hlen, hfits⟩
      obtain ⟨hlen', hfits'⟩ := scanOtherDie_fits isBad hchips hfits (hdies k List.mem_cons_self)
      exact ih _ (fun k hk => hdies k (List.mem_cons_of_mem _ hk)) ⟨hlen'.trans hlen, hfits'⟩
  · exact hlast

omit hchips

/-! ## The number of pages -/

def tablePages (g : Geometry) : ℕ := (8 * g.RBA + g.pageSize - 1) / g.pageSize

theorem le_tablePages_mul (g : Geometry) : 8 * g.RBA ≤ tablePages g * g.pageSize := by
  have hps := g.pageSize_pos
  have h := Nat.lt_div_mul_add hps (a := 8 * g.RBA + g.pageSize - 1)
  unfold tablePages
  omega

theorem mul_lt_of_lt_tablePages (h : k < tablePages g) : k * g.pageSize < 8 * g.RBA := by
  have hps := g.pageSize_pos
  have h' := (Nat.le_div_iff_mul_le hps).mp (Nat.succ_le_of_lt h)
  rw [Nat.succ_mul] at h'
  omega

theorem tablePages_le_iff : tablePages g ≤ n ↔ 8 * g.RBA ≤ n * g.pageSize := by
  refine ⟨fun h => (le_tablePages_mul g).trans (Nat.mul_le_mul_right _ h), fun h => ?_⟩
  by_contra hlt
  exact absurd (mul_lt_of_lt_tablePages (Nat.lt_of_not_le hlt)) (by omega)

theorem memPageNum_eq (h : tablePages g < 256) : memPageNum g = tablePages g := Nat.mod_eq_of_lt h

theorem tablePages_pos : 0 < tablePages g ↔ 0 < g.RBA := by
  rw [← not_iff_not, Nat.not_lt, Nat.not_lt, tablePages_le_iff]
  omega

theorem memPageNum_of_zero (h : g.RBA = 0) : memPageNum g = 0 := by
  have hpages : tablePages g = 0 := by
    have := tablePages_pos (g := g)
    omega
  rw [memPageNum_eq (by omega), hpages]

/-! ## What is written is loaded -/

/-- The next scan loads the table that is in memory now. -/
def LoadsBack (g : Geometry) (e : Env) (isBad : ℕ → ℕ → Bool) (c : Tagged) : Prop :=
  ∃ c', c.rtkNandScanBbt g e isBad = some (0, c') ∧ c'.nand.bbt = c.nand.bbt

/-- `rtk_create_bbt` keeps its table. A table in block 2 is only looked for if there is none in block 1. -/
def CreatePersists (g : Geometry) : Prop :=
  ∀ (e : Env) (isBad : ℕ → ℕ → Bool) (c : Tagged) (page : ℕ), Healthy e c →
    page = g.ppb ∨ page = 2 * g.ppb ∧ c.oob g.ppb ≠ bbtTag →
    ∃ c', c.rtkCreateBbt g e isBad page = some (0, c') ∧ LoadsBack g e isBad c'

def UpdatePersists (g : Geometry) : Prop :=
  ∀ (e : Env) (isBad : ℕ → ℕ → Bool) (c : Tagged), Healthy e c → c.nand.bbt.length = g.RBA →
    (∀ b ∈ c.nand.bbt, b.Fits) → ∃ c', c.rtkUpdateBbt g e = some (true, c') ∧ LoadsBack g e isBad c'

/-- A copy that starts with the bytes of the table, in whole pages. -/
theorem loadsBack_of_pages {base : ℕ} (h : Healthy e c) (hcopy : Copy g c base) (hn : 0 < g.RBA)
    (hpages : tablePages g < 256) (hlen : c.nand.bbt.length = g.RBA) (hfits : ∀ b ∈ c.nand.bbt, b.Fits)
    (hwhole : ∀ j, 1 ≤ j → j < tablePages g → (c.nand.page 0 (base + j)).length = g.pageSize)
    (hread : ∀ temp : Mem,
      read temp 0 ((c.nand.page 0 base).take g.pageSize).length = (c.nand.page 0 base).take g.pageSize →
      (∀ j, 1 ≤ j → j < tablePages g → read temp (j * g.pageSize) g.pageSize = c.nand.page 0 (base + j)) →
      read temp 0 (tableBytes c.nand.bbt).length = tableBytes c.nand.bbt) : LoadsBack g e isBad c := by
  have hmem := memPageNum_eq hpages
  have hpos := tablePages_pos.mpr hn
  rw [← hmem] at hwhole hread hpos
  obtain ⟨temp, c', hscan, hbbt, hfirst, hrest⟩ := scan_loads isBad h hcopy hpos.ne' hwhole
  refine ⟨c', hscan, ?_⟩
  rw [hbbt, ← hlen]
  exact tableAt_of_read hfits (hread temp hfirst hrest)

theorem createPersists_of_le (hchips : g.numchips ≤ 256) (hpos : 0 < g.RBA) (hle : 8 * g.RBA ≤ g.pageSize) :
    CreatePersists g := by
  intro e isBad c page h hpage
  have hone : tablePages g = 1 := by
    have hle := tablePages_le_iff.mpr (by omega : 8 * g.RBA ≤ 1 * g.pageSize)
    have := tablePages_pos.mpr hpos
    omega
  have hmem : memPageNum g = 1 := (memPageNum_eq (by omega)).trans hone
  obtain ⟨c', hcreate, h', hbbt, hoob, hpages⟩ := create_ok isBad h (hpage.imp_right And.left) (by
    rw [hmem]
    omega)
  obtain ⟨hfirst, htag⟩ := hpages 0 (by omega)
  have hcopy : Copy g c' page := by
    rcases hpage with rfl | ⟨rfl, hno⟩
    · exact .inl ⟨rfl, htag⟩
    · have hppb := g.two_le_ppb
      have hblock : g.ppb / g.ppb ≠ 2 * g.ppb / g.ppb := by
        rw [Nat.div_self (by omega), Nat.mul_div_cancel _ (by omega)]
        decide
      refine .inr ⟨rfl, ?_, htag⟩
      rw [hoob _ (by omega) hblock]
      exact hno
  obtain ⟨hlen, hfits⟩ := newTable_fits isBad hchips
  have hbytes : (tableBytes (newTable g isBad)).length ≤ g.pageSize := by
    rw [length_tableBytes, hlen]
    exact hle
  rw [← hbbt] at hlen hfits
  refine ⟨c', hcreate, loadsBack_of_pages isBad h' hcopy hpos (by omega) hlen hfits (fun j hj hlt => by omega) ?_⟩
  intro temp hread _
  rw [Nat.add_zero] at hfirst
  rw [hfirst, List.take_of_length_le (length_read ..).le, length_read] at hread
  rw [hbbt]
  -- the first page of the buffer starts with the table
  have hslice := read_slice (o := 0) hread ((Nat.zero_add _).trans_le hbytes)
  rw [Nat.zero_mul, Nat.mul_zero] at hslice
  exact hslice.trans (read_write_self ..)

theorem length_paddedBytes (h : 8 * bbt.length ≤ 2 * g.pageSize) :
    (paddedBytes g bbt).length = g.pageSize + g.pageSize := by
  unfold paddedBytes
  rw [List.length_append, List.length_replicate, length_tableBytes]
  omega

theorem two_le_tablePages (hlarge : g.large = true) : 1 < tablePages g := by
  by_contra hone
  have := tablePages_le_iff.mp (Nat.le_of_not_lt hone)
  have := of_decide_eq_true hlarge
  omega

theorem read_table_of_pages {s : Nand} {m : Mem} (hle : 8 * g.RBA ≤ 2 * g.pageSize) (hlen : s.bbt.length = g.RBA)
    (h₀ : read m 0 ((firstPage g s).take g.pageSize).length = (firstPage g s).take g.pageSize)
    (h₁ : g.large = true → read m g.pageSize g.pageSize = (paddedBytes g s.bbt).drop g.pageSize) :
    read m 0 (tableBytes s.bbt).length = tableBytes s.bbt := by
  unfold firstPage at h₀
  by_cases hlarge : g.large = true
  · have hsize := length_paddedBytes (hlen.symm ▸ hle)
    have htake : ((paddedBytes g s.bbt).take g.pageSize).length = g.pageSize := by
      rw [List.length_take, hsize]
      omega
    rw [if_pos hlarge, List.take_take, Nat.min_self, htake] at h₀
    have hall : read m 0 (paddedBytes g s.bbt).length = paddedBytes g s.bbt := by
      rw [hsize, read_add, h₀, Nat.zero_add, h₁ hlarge, List.take_append_drop]
    exact read_append_left hall
  · have hsmall : 8 * g.RBA ≤ g.pageSize := by
      unfold Geometry.large at hlarge
      simpa using hlarge
    have hbytes := length_tableBytes s.bbt
    rw [if_neg hlarge, List.take_append, List.take_of_length_le (by omega)] at h₀
    exact read_append_left h₀

theorem updatePersists_of_le (hpos : 0 < g.RBA) (hle : 8 * g.RBA ≤ 2 * g.pageSize) : UpdatePersists g := by
  intro e isBad c h hlen hfits
  obtain ⟨c', hupdate, h', hbbt, htag, hfirst, hsecond⟩ := update_ok h hle
  have hpages := tablePages_le_iff.mpr hle
  have hlarge : 1 < tablePages g → g.large = true := by
    intro htwo
    by_contra hsmall
    have hsmall : 8 * g.RBA ≤ 1 * g.pageSize := by
      unfold Geometry.large at hsmall
      simpa using hsmall
    have := tablePages_le_iff.mpr hsmall
    omega
  rw [← hbbt] at hlen hfits
  refine ⟨c', hupdate, loadsBack_of_pages isBad h' (.inl ⟨rfl, htag⟩) hpos (by omega) hlen hfits (fun j hj hlt => ?_)
    fun temp h₀ h₁ => ?_⟩
  · obtain rfl : j = 1 := by omega
    rw [hbbt] at hlen
    rw [hsecond (hlarge (by omega)), List.length_drop, length_paddedBytes (hlen.symm ▸ hle)]
    omega
  · rw [hfirst] at h₀
    rw [hbbt] at hlen ⊢
    refine read_table_of_pages hle hlen h₀ fun hl => ?_
    rw [← hsecond hl, ← h₁ 1 le_rfl (two_le_tablePages hl), Nat.one_mul]

/-! ## What is lost -/

def filled (b : UInt8) : Env := ⟨⟨fun _ => .ok, fun _ _ => [], fun _ _ => true⟩, fun _ _ => 0, fun _ => b⟩

theorem healthy_filled (b : UInt8) : Healthy (filled b) c := fun _ _ => ⟨rfl, fun _ => rfl⟩

/-- The byte of a new table at the start of its last page. -/
def lastPageByte (g : Geometry) (isBad : ℕ → ℕ → Bool) : UInt8 :=
  (tableBytes (newTable g isBad)).getD ((tablePages g - 1) * g.pageSize) 0

/-- **A new table of two pages or more is lost**: behind its buffer there may be anything. -/
theorem create_loses (hchips : g.numchips ≤ 256) (hlarge : g.pageSize < 8 * g.RBA) (c : Tagged) :
    ¬ ∃ c', c.rtkCreateBbt g (filled (lastPageByte g isBad + 1)) isBad g.ppb = some (0, c') ∧
      LoadsBack g (filled (lastPageByte g isBad + 1)) isBad c' := by
  set e := filled (lastPageByte g isBad + 1) with he
  have h : Healthy e c := healthy_filled _
  have htwo : 1 < tablePages g := by
    by_contra hone
    have := tablePages_le_iff.mp (Nat.le_of_not_lt hone)
    omega
  have hps := g.pageSize_pos
  rintro ⟨c', hcreate, c'', hscan, hloaded⟩
  by_cases hwrap : tablePages g < 256
  · have hmem := memPageNum_eq hwrap
    obtain ⟨c₁, hcreate₁, h₁, hbbt, -, hpages⟩ := create_ok isBad h (.inl rfl) (by
      rw [hmem]
      exact le_tablePages_mul g)
    cases hcreate.symm.trans hcreate₁
    rw [hmem] at hpages
    have htag : c'.oob g.ppb = bbtTag := (hpages 0 (by omega)).2
    obtain ⟨temp, c₂, hscan₂, hbbt₂, -, hrest⟩ := scan_loads isBad h₁ (.inl ⟨rfl, htag⟩) (by omega)
      fun j _ hlt => by
        rw [(hpages j (by omega)).1, length_read]
    cases hscan.symm.trans hscan₂
    -- the last page was taken from behind the buffer
    set k := (tablePages g - 1) * g.pageSize with hk
    have hlast := hrest (tablePages g - 1) (by omega) (by omega)
    rw [(hpages _ (by omega)).1] at hlast
    have hpage : tablePages g * g.pageSize = k + g.pageSize := by
      rw [hk, ← Nat.succ_mul]
      congr 1
      omega
    have hge : g.pageSize ≤ k := Nat.le_mul_of_pos_left _ (by omega)
    obtain ⟨hlen, -⟩ := newTable_fits isBad hchips
    have hbytes := length_tableBytes (newTable g isBad)
    have hfit := le_tablePages_mul g
    have hheap : temp k = lastPageByte g isBad + 1 := by
      have hfirst := read_slice (o := 0) (k := 1) hlast (by omega)
      rw [read_succ, read_succ] at hfirst
      refine (List.cons.inj hfirst).1.trans ?_
      unfold tempBBT
      rw [write_apply_ge (by omega), memset_apply_of_not (by omega)]
      rfl
    have htable : temp k = lastPageByte g isBad := by
      have hread := tableBytes_tableAt temp g.RBA
      rw [← hbbt₂, hloaded, hbbt] at hread
      unfold lastPageByte
      rw [List.getD_eq_getElem?_getD, hread, getElem?_read _ _ _ _ (mul_lt_of_lt_tablePages (by omega)), Nat.zero_add]
      rfl
    have hnat := congrArg UInt8.toNat (hheap.symm.trans htable)
    change ((lastPageByte g isBad).toNat + 1) % 256 = _ at hnat
    omega
  · -- the count of pages has wrapped
    obtain ⟨c₁, -, -, -, -, heq⟩ := create_eq isBad h (Or.inl rfl)
    have hmod : memPageNum g < 256 := Nat.mod_lt _ (by decide)
    rw [if_pos (mul_lt_of_lt_tablePages (g := g) (by omega)), hcreate] at heq
    cases heq

/-- Without a reserve area, a scan that finds a tag has no room for its page. -/
theorem createPersists_pos (h : CreatePersists g) : 0 < g.RBA := by
  by_contra hzero
  have hmem := memPageNum_of_zero (g := g) (by omega)
  have hppb := g.two_le_ppb
  have hblock : 2 * g.ppb / g.ppb ≠ g.ppb / g.ppb := by
    rw [Nat.div_self (by omega), Nat.mul_div_cancel _ (by omega)]
    decide
  let c : Tagged := ⟨⟨[], [], fun _ _ => [], []⟩, fun _ => bbtTag⟩
  obtain ⟨c', hcreate, c'', hscan, -⟩ := h (filled 0) (fun _ _ => false) c g.ppb (healthy_filled 0) (.inl rfl)
  obtain ⟨c₁, h₁, -, hoob, hff, heq⟩ :=
    create_eq (g := g) (c := c) (fun _ _ => false) (healthy_filled 0) (.inl rfl)
  rw [hcreate, hmem, if_neg (by omega)] at heq
  cases heq
  have hcopy : Copy g c' (2 * g.ppb) := by
    refine .inr ⟨rfl, ?_, hoob _ hblock⟩
    rw [hff]
    decide
  rw [scan_eq_none _ (healthy_filled 0) hcopy hmem] at hscan
  cases hscan

theorem updatePersists_pos (h : UpdatePersists g) : 0 < g.RBA := by
  by_contra hzero
  have hmem := memPageNum_of_zero (g := g) (by omega)
  let c : Tagged := ⟨⟨[], [], fun _ _ => [], []⟩, fun _ => 0⟩
  have hc : c.nand.bbt.length = g.RBA := by
    change 0 = g.RBA
    omega
  obtain ⟨c', hupdate, c'', hscan, -⟩ := h (filled 0) (fun _ _ => false) c (healthy_filled 0) hc nofun
  obtain ⟨c₁, hupdate₁, -, -, htag, -⟩ := update_ok (g := g) (c := c) (healthy_filled 0) (by omega)
  cases hupdate.symm.trans hupdate₁
  rw [scan_eq_none _ (healthy_filled 0) (.inl ⟨rfl, htag⟩) hmem] at hscan
  cases hscan

/-- **When the table survives.** A new table does exactly when it fits in one page, an updated one when it fits in
two. -/
theorem persists_iff (g : Geometry) (hchips : g.numchips ≤ 256) :
    (CreatePersists g ↔ 0 < g.RBA ∧ 8 * g.RBA ≤ g.pageSize) ∧
      (UpdatePersists g ↔ 0 < g.RBA ∧ 8 * g.RBA ≤ 2 * g.pageSize) := by
  refine ⟨⟨fun h => ⟨createPersists_pos h, ?_⟩, fun h => createPersists_of_le hchips h.1 h.2⟩,
    ⟨fun h => ⟨updatePersists_pos h, ?_⟩, fun h => updatePersists_of_le h.1 h.2⟩⟩
  · by_contra hlarge
    exact create_loses (fun _ _ => false) hchips (Nat.lt_of_not_le hlarge)
      ⟨⟨[], [], fun _ _ => [], []⟩, fun _ => 0⟩ (h _ _ _ _ (healthy_filled _) (.inl rfl))
  · by_contra hlarge
    let c : Tagged := ⟨⟨newTable g fun _ _ => false, [], fun _ _ => [], []⟩, fun _ => 0⟩
    obtain ⟨hlen, hfits⟩ := newTable_fits (fun _ _ => false) hchips
    obtain ⟨c', hupdate, -⟩ := h (filled 0) (fun _ _ => false) c (healthy_filled 0) hlen hfits
    unfold Tagged.rtkUpdateBbt at hupdate
    rw [if_neg (by exact fun hd => nomatch hd.2), if_pos (Nat.lt_of_not_le hlarge)] at hupdate
    cases hupdate

theorem persists_w29n01gv : CreatePersists w29n01gv ∧ UpdatePersists w29n01gv :=
  ⟨(persists_iff w29n01gv (by decide)).1.mpr (by decide), (persists_iff w29n01gv (by decide)).2.mpr (by decide)⟩

/-- A chip of 8192 blocks of 64 pages: `K9K8G08U0A`. Its table has 409 entries, and 3272 bytes. -/
def k9k8g08u0a : Geometry :=
  ⟨2048, 64, 8192, 409, 1, false, w29n01gv.pageSize_pos, w29n01gv.two_le_ppb, w29n01gv.ppb_le, by decide, by decide,
    by decide⟩

def emptyTable : Tagged := ⟨⟨List.replicate 409 ⟨0, 0, 0, 0⟩, [], fun _ _ => [], []⟩, fun _ => 0xFF⟩

/-- A table is created without an error, and the scan does not load it. -/
theorem k9k8g08u0a_loses_table : ∃ e : Env, Healthy e emptyTable ∧
    ¬ ∃ c', emptyTable.rtkCreateBbt k9k8g08u0a e (fun _ _ => false) 64 = some (0, c') ∧
      LoadsBack k9k8g08u0a e (fun _ _ => false) c' :=
  ⟨_, healthy_filled _, create_loses _ (by decide) (by decide) emptyTable⟩

end

end NasFirmware.Nand
