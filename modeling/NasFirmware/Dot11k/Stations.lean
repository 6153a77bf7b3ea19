import NasFirmware.Dot11k.Model

/-!
# The table of stations

`getWlStaInfo` reads the stations of an interface from a file of the driver, and enters them into the table. A known
station is found by its address. A new one gets a free entry, which is looked for once: `empty` stays what it is when
the entry has been taken.

* `Entered`, `entered_step`, **`entered_run`**: what becomes of the entries.
-/

namespace NasFirmware.Dot11k

/-! ## Lines -/

abbrev Line := List Char

def hwaddrToken : Line := ['h', 'w', 'a', 'd', 'd', 'r', ':']

def rmCapToken : Line := ['r', 'm', '_', 'c', 'a', 'p', ':']

def strstr (buf token : Line) : Option Line := buf.tails.find? fun s => token.isPrefixOf s

def valueAfter (token buf : Line) : Option Line :=
  (strstr buf token).map fun s => (s.drop token.length).dropWhile (· == ' ')

/-- `_is_hex`, and the value of the digit. -/
def hexVal (c : Char) : Option ℕ :=
  if '0' ≤ c ∧ c ≤ '9' then some (c.toNat - '0'.toNat)
  else if 'A' ≤ c ∧ c ≤ 'F' then some (c.toNat - 'A'.toNat + 10)
  else if 'a' ≤ c ∧ c ≤ 'f' then some (c.toNat - 'a'.toNat + 10)
  else none

/-- `string_to_hex`: the bytes that are read replace those of `key`, up to the first digit that is none. -/
def stringToHex : Line → List UInt8 → Bool × List UInt8
  | _, [] => (true, [])
  | string, k :: key =>
    match string with
    | c :: d :: rest =>
      match hexVal c, hexVal d with
      | some hi, some lo =>
        let (ok, key) := stringToHex rest key
        (ok, .ofNat (16 * hi + lo) :: key)
      | _, _ => (false, k :: key)
    | _ => (false, k :: key)

/-! ## Entries -/

structure StaInfo where
  valid : UInt8
  iface : Line
  hwaddr : List UInt8
  rmCap : List UInt8
  channel : UInt8
  lastScanIdx : UInt8
  result : MeasurementResult
  deriving DecidableEq

structure Listed where
  hwaddr : List UInt8
  rmCap : List UInt8
  deriving DecidableEq

/-- `dot11k_sta`. -/
abbrev StaTable := Fin maxStaNum → StaInfo

structure Refresh where
  sta : StaTable
  empty : Option (Fin maxStaNum)

/-- The loop over the table: the entry of a station, and a free one. -/
def scan (sta : StaTable) (hwaddr : List UInt8) :
    List (Fin maxStaNum) → Option (Fin maxStaNum) → Option (Fin maxStaNum) × Option (Fin maxStaNum)
  | [], empty => (none, empty)
  | i :: l, empty =>
    if (sta i).valid ≠ 0 then
      if (sta i).hwaddr = hwaddr then (some i, empty) else scan sta hwaddr l empty
    else scan sta hwaddr l (empty.or (some i))

section

variable (ifname : Line) (channel : UInt8)

def freshEntry (s : Listed) : StaInfo := ⟨2, ifname, s.hwaddr, s.rmCap, channel, 0, .unknown⟩

def refreshStation (x : Refresh) (s : Listed) : Refresh :=
  match scan x.sta s.hwaddr (List.finRange maxStaNum) x.empty with
  | (some i, empty) =>
    ⟨Function.update x.sta i { x.sta i with iface := ifname, rmCap := s.rmCap, channel := channel, valid := 2 }, empty⟩
  | (none, some e) => ⟨Function.update x.sta e (freshEntry ifname channel s), some e⟩
  | (none, none) => ⟨x.sta, none⟩

/-- The inner loop: up to the line with `rm_cap:`. -/
def readRmCap : List Line → List UInt8 → List UInt8 × List Line
  | [], rmCap => (rmCap, [])
  | buf :: lines, rmCap =>
    match valueAfter rmCapToken buf with
    | some ptr => ((stringToHex ptr rmCap).2, lines)
    | none => readRmCap lines rmCap

theorem length_readRmCap (lines : List Line) (rmCap : List UInt8) :
    (readRmCap lines rmCap).2.length ≤ lines.length := by
  induction lines with
  | nil => exact Nat.le_refl 0
  | cons buf lines ih =>
    unfold readRmCap
    split
    · exact Nat.le_succ lines.length
    · exact Nat.le_succ_of_le ih

/-- The outer loop. `hwaddr` and `rm_cap` keep what is not read. -/
def readStations (x : Refresh) (hwaddr rmCap : List UInt8) : List Line → Refresh
  | [] => x
  | buf :: lines =>
    match valueAfter hwaddrToken buf with
    | none => readStations x hwaddr rmCap lines
    | some ptr =>
      let hwaddr := (stringToHex ptr hwaddr).2
      let rest := readRmCap lines rmCap
      readStations (refreshStation ifname channel x ⟨hwaddr, rest.1⟩) hwaddr rest.1 rest.2
termination_by lines => lines.length
decreasing_by
  · exact Nat.lt_succ_self _
  · exact Nat.lt_succ_of_le (length_readRmCap lines rmCap)

/-- `getWlStaInfo`, with the lines of the file, if it can be opened. At first `hwaddr` and `rm_cap` are not
initialised. -/
def getWlStaInfo (hwaddr rmCap : List UInt8) (file : Option (List Line)) (sta : StaTable) : StaTable :=
  match file with
  | none => sta
  | some lines => (readStations ifname channel ⟨sta, none⟩ hwaddr rmCap lines).sta

end

inductive Digits : Line → List UInt8 → Prop
  | nil (rest : Line) : Digits rest []
  | cons {c d : Char} {hi lo : ℕ} {b : UInt8} {rest : Line} {bytes : List UInt8} (hc : hexVal c = some hi)
      (hd : hexVal d = some lo) (hb : b = .ofNat (16 * hi + lo)) (h : Digits rest bytes) :
      Digits (c :: d :: rest) (b :: bytes)

/-- The file lists stations: for each a line with its address, and then one with its capabilities. -/
inductive Lists : List Line → List Listed → Prop
  | nil : Lists [] []
  | other {buf : Line} {lines : List Line} {listed : List Listed} (hbuf : valueAfter hwaddrToken buf = none)
      (h : Lists lines listed) : Lists (buf :: lines) listed
  | station {buf buf' ptr ptr' : Line} {between lines : List Line} {s : Listed} {listed : List Listed}
      (hbuf : valueAfter hwaddrToken buf = some ptr) (hhwaddr : Digits ptr s.hwaddr) (hlen : s.hwaddr.length = 6)
      (hbetween : ∀ line ∈ between, valueAfter rmCapToken line = none)
      (hbuf' : valueAfter rmCapToken buf' = some ptr') (hrmCap : Digits ptr' s.rmCap) (hlen' : s.rmCap.length = 5)
      (h : Lists lines listed) : Lists (buf :: (between ++ buf' :: lines)) (s :: listed)

theorem stringToHex_of_digits {text : Line} {bytes key : List UInt8} (h : Digits text bytes)
    (hlen : key.length = bytes.length) : stringToHex text key = (true, bytes) := by
  induction h generalizing key with
  | nil rest =>
    rw [List.length_eq_zero_iff.mp hlen, stringToHex]
  | cons hc hd hb _ ih =>
    cases key with
    | nil => cases hlen
    | cons k key =>
      unfold stringToHex
      simp [hc, hd, hb, ih (Nat.succ.inj hlen)]

variable {lines : List Line} {listed : List Listed} {channel : UInt8} {i j : Fin maxStaNum}

theorem readRmCap_append {between : List Line} {buf ptr : Line}
    (hbetween : ∀ line ∈ between, valueAfter rmCapToken line = none) (hbuf : valueAfter rmCapToken buf = some ptr)
    (rmCap : List UInt8) : readRmCap (between ++ buf :: lines) rmCap = ((stringToHex ptr rmCap).2, lines) := by
  induction between with
  | nil =>
    rw [List.nil_append, readRmCap, hbuf]
  | cons line between ih =>
    rw [List.cons_append, readRmCap, hbetween line List.mem_cons_self]
    exact ih fun line hline => hbetween line (List.mem_cons_of_mem _ hline)

/-- **The stations are entered one after the other.** -/
theorem readStations_eq {ifname : Line} {channel : UInt8}
    (h : Lists lines listed) {hwaddr rmCap : List UInt8} (hlen : hwaddr.length = 6) (hlen' : rmCap.length = 5)
    (x : Refresh) :
    readStations ifname channel x hwaddr rmCap lines = listed.foldl (refreshStation ifname channel) x := by
  induction h generalizing x hwaddr rmCap with
  | nil => rw [readStations, List.foldl_nil]
  | other hbuf _ ih =>
    rw [readStations, hbuf]
    exact ih hlen hlen' x
  | station hbuf hhwaddr hs hbetween hbuf' hrmCap hs' _ ih =>
    rw [readStations, hbuf]
    dsimp only
    rw [readRmCap_append hbetween hbuf', stringToHex_of_digits hhwaddr (hlen.trans hs.symm),
      stringToHex_of_digits hrmCap (hlen'.trans hs'.symm)]
    exact ih hs hs' _

/-! ## The entries of the table -/

def first (sta : StaTable) (hwaddr : List UInt8) : Option (Fin maxStaNum) :=
  (List.finRange maxStaNum).find? fun i => (sta i).valid ≠ 0 ∧ (sta i).hwaddr = hwaddr

section

variable {ifname : Line} {sta sta' : StaTable} {hwaddr : List UInt8} {l : List (Fin maxStaNum)}
  {empty : Option (Fin maxStaNum)} {e : Fin maxStaNum} {x : Refresh} {s : Listed} {seen listed : List Listed}

theorem scan_fst : (scan sta hwaddr l empty).1 =
    l.find? fun i => (sta i).valid ≠ 0 ∧ (sta i).hwaddr = hwaddr := by
  induction l generalizing empty with
  | nil => rfl
  | cons i l ih =>
    unfold scan
    by_cases hvalid : (sta i).valid ≠ 0
    · by_cases haddr : (sta i).hwaddr = hwaddr
      · simp [hvalid, haddr]
      · simp [hvalid, haddr, ih]
    · simp [not_not.mp hvalid, ih]

theorem scan_snd : (scan sta hwaddr l empty).2 = empty ∨
    empty = none ∧ ∃ e, (scan sta hwaddr l empty).2 = some e ∧ (sta e).valid = 0 := by
  induction l generalizing empty with
  | nil => exact .inl rfl
  | cons i l ih =>
    unfold scan
    by_cases hvalid : (sta i).valid ≠ 0
    · by_cases haddr : (sta i).hwaddr = hwaddr
      · rw [if_pos hvalid, if_pos haddr]
        exact .inl rfl
      · rw [if_pos hvalid, if_neg haddr]
        exact ih
    · rw [if_neg hvalid]
      cases empty with
      | some e => exact .inl ((@ih (some e)).resolve_right fun h => nomatch h.1)
      | none =>
        refine .inr ⟨rfl, i, ?_, not_not.mp hvalid⟩
        exact (@ih (some i)).resolve_right fun h => nomatch h.1

theorem scan_snd_ne_none (hi : i ∈ l) (hfree : (sta i).valid = 0) (hnone : (scan sta hwaddr l empty).1 = none) :
    (scan sta hwaddr l empty).2 ≠ none := by
  induction l generalizing empty with
  | nil => cases hi
  | cons k l ih =>
    unfold scan at hnone ⊢
    by_cases hvalid : (sta k).valid ≠ 0
    · by_cases haddr : (sta k).hwaddr = hwaddr
      · rw [if_pos hvalid, if_pos haddr] at hnone
        cases hnone
      · rw [if_pos hvalid, if_neg haddr] at hnone ⊢
        refine ih ((List.mem_cons.mp hi).resolve_left ?_) hnone
        rintro rfl
        exact hvalid hfree
    · rw [if_neg hvalid]
      intro h
      obtain heq | ⟨hor, -⟩ := @scan_snd sta hwaddr l (empty.or (some k))
      · cases empty <;> cases heq.symm.trans h
      · cases empty <;> cases hor

theorem first_eq_some (h : first sta hwaddr = some i) : (sta i).valid ≠ 0 ∧ (sta i).hwaddr = hwaddr := by
  simpa using List.find?_some h

theorem first_eq_none_iff : first sta hwaddr = none ↔ ∀ i, (sta i).valid ≠ 0 → (sta i).hwaddr ≠ hwaddr := by
  unfold first
  simp

theorem first_lt (h : first sta hwaddr = some i) (hj : (sta j).valid ≠ 0) (haddr : (sta j).hwaddr = hwaddr)
    (hne : j ≠ i) : i < j := by
  obtain ⟨-, before, behind, heq, hbefore⟩ := List.find?_eq_some_iff_append.mp h
  have hsorted := List.pairwise_lt_finRange maxStaNum
  have hmem := List.mem_finRange j
  rw [heq] at hsorted hmem
  rcases List.mem_append.mp hmem with hj' | hj'
  · simpa [hj, haddr] using hbefore j hj'
  · exact (List.pairwise_cons.mp (List.pairwise_append.mp hsorted).2.1).1 j ((List.mem_cons.mp hj').resolve_left hne)

/-! ## What becomes of them -/

structure Carries (ifname : Line) (s : Listed) (y : StaInfo) : Prop where
  valid : y.valid = 2
  hwaddr : y.hwaddr = s.hwaddr
  rmCap : y.rmCap = s.rmCap
  iface : y.iface = ifname

/-- Between two stations: entries in use keep their address, and at most the one in `empty` has been taken, for a new
station. -/
structure Entered (ifname : Line) (channel : UInt8) (sta : StaTable) (seen : List Listed) (x : Refresh) : Prop where
  used : ∀ i, (sta i).valid ≠ 0 → (x.sta i).valid ≠ 0 ∧ (x.sta i).hwaddr = (sta i).hwaddr
  free : ∀ i, (sta i).valid = 0 → x.sta i = sta i ∨
    x.empty = some i ∧ ∃ s ∈ seen, first sta s.hwaddr = none ∧ x.sta i = freshEntry ifname channel s
  empty : ∀ e, x.empty = some e → (sta e).valid = 0
  taken : ∀ s ∈ seen, first sta s.hwaddr = none → ∃ e, x.empty = some e ∧ (x.sta e).valid ≠ 0

theorem entered_start : Entered ifname channel sta [] ⟨sta, none⟩ :=
  ⟨fun _ hi => ⟨hi, rfl⟩, fun _ _ => .inl rfl, nofun, nofun⟩

variable (h : Entered ifname channel sta seen x)

include h

theorem Entered.scan_fst (hs : s.hwaddr ∉ seen.map Listed.hwaddr) :
    (scan x.sta s.hwaddr (List.finRange maxStaNum) x.empty).1 = first sta s.hwaddr := by
  rw [Dot11k.scan_fst, first]
  congr 1
  funext i
  refine decide_eq_decide.mpr ?_
  by_cases hi : (sta i).valid ≠ 0
  · obtain ⟨hvalid, haddr⟩ := h.used i hi
    rw [haddr]
    exact and_congr_left fun _ => iff_of_true hvalid hi
  · refine iff_of_false (fun hmatch => ?_) fun hmatch => hi hmatch.1
    rcases h.free i (not_not.mp hi) with heq | ⟨-, t, ht, -, heq⟩
    · rw [heq] at hmatch
      exact hi hmatch.1
    · rw [heq] at hmatch
      exact hs (hmatch.2 ▸ List.mem_map_of_mem ht)

theorem Entered.scan_snd :
    (∀ e, (scan x.sta s.hwaddr (List.finRange maxStaNum) x.empty).2 = some e → (sta e).valid = 0) ∧
    ∀ e, x.empty = some e → (scan x.sta s.hwaddr (List.finRange maxStaNum) x.empty).2 = some e := by
  rcases @Dot11k.scan_snd x.sta s.hwaddr (List.finRange maxStaNum) x.empty with heq | ⟨hnone, e', he', hfree⟩
  · rw [heq]
    exact ⟨h.empty, fun _ he => he⟩
  · refine ⟨fun e he => ?_, fun e he => nomatch hnone.symm.trans he⟩
    cases he'.symm.trans he
    exact not_not.mp fun hused => (h.used e' hused).1 hfree

variable (hs : s.hwaddr ∉ seen.map Listed.hwaddr)

include hs

theorem refreshStation_known
    (hi : first sta s.hwaddr = some i) : ∃ y, refreshStation ifname channel x s = y ∧
    y.sta i = { x.sta i with iface := ifname, rmCap := s.rmCap, channel := channel, valid := 2 } ∧
    (∀ j, j ≠ i → y.sta j = x.sta j) ∧ (∀ e, y.empty = some e → (sta e).valid = 0) ∧
    ∀ e, x.empty = some e → y.empty = some e := by
  have hfst := (h.scan_fst hs).trans hi
  obtain ⟨hempty, hkeep⟩ := @Entered.scan_snd _ _ _ _ s _ h
  unfold refreshStation
  generalize scan x.sta s.hwaddr (List.finRange maxStaNum) x.empty = r at hfst hempty hkeep
  obtain ⟨found, empty⟩ := r
  cases hfst
  exact ⟨_, rfl, Function.update_self .., fun j hj => Function.update_of_ne hj _ _, hempty, hkeep⟩

/-- What is done with a new one. It takes the entry in `empty`, whatever is in it. -/
theorem refreshStation_new
    (hnew : first sta s.hwaddr = none) (hfree : ∃ k, (sta k).valid = 0) : ∃ y e,
    refreshStation ifname channel x s = y ∧ y.sta e = freshEntry ifname channel s ∧ (∀ j, j ≠ e → y.sta j = x.sta j) ∧
    y.empty = some e ∧ (sta e).valid = 0 ∧ ∀ e', x.empty = some e' → e' = e := by
  have hfst := (h.scan_fst hs).trans hnew
  obtain ⟨hempty, hkeep⟩ := @Entered.scan_snd _ _ _ _ s _ h
  -- some entry is free still, or `empty` has been set
  have hsome : (scan x.sta s.hwaddr (List.finRange maxStaNum) x.empty).2 ≠ none := by
    obtain ⟨k, hk⟩ := hfree
    rcases h.free k hk with heq | ⟨he, -⟩
    · refine scan_snd_ne_none (List.mem_finRange k) ?_ hfst
      rw [heq]
      exact hk
    · rw [hkeep k he]
      exact Option.some_ne_none k
  unfold refreshStation
  generalize scan x.sta s.hwaddr (List.finRange maxStaNum) x.empty = r at hfst hempty hkeep hsome
  obtain ⟨found, empty⟩ := r
  cases hfst
  cases empty with
  | none => exact absurd rfl hsome
  | some e =>
    refine ⟨_, e, rfl, Function.update_self .., fun j hj => Function.update_of_ne hj _ _, rfl, hempty e rfl, ?_⟩
    exact fun e' he' => (Option.some.inj (hkeep e' he')).symm

theorem entered_known
    (hi : first sta s.hwaddr = some i) :
    Entered ifname channel sta (seen ++ [s]) (refreshStation ifname channel x s) ∧
    Carries ifname s ((refreshStation ifname channel x s).sta i) ∧
    ∀ j, j ≠ i → (refreshStation ifname channel x s).sta j = x.sta j := by
  obtain ⟨hvalid, haddr⟩ := first_eq_some hi
  obtain ⟨y, hy, hself, hother, hempty, hkeep⟩ := refreshStation_known h hs hi
  have hfree : ∀ j, (sta j).valid = 0 → j ≠ i := fun j hj hji => hvalid (hji ▸ hj)
  rw [hy]
  refine ⟨⟨fun j hj => ?_, fun j hj => ?_, hempty, fun t ht htnew => ?_⟩, ?_, hother⟩
  · by_cases hji : j = i
    · rw [hji, hself]
      exact ⟨(by decide : (2 : UInt8) ≠ 0), (h.used i hvalid).2⟩
    · rw [hother j hji]
      exact h.used j hj
  · rw [hother j (hfree j hj)]
    exact (h.free j hj).imp id fun ⟨he, t, ht, hrest⟩ => ⟨hkeep j he, t, List.mem_append_left _ ht, hrest⟩
  · rcases List.mem_append.mp ht with ht | ht
    · obtain ⟨e, he, htaken⟩ := h.taken t ht htnew
      refine ⟨e, hkeep e he, ?_⟩
      rw [hother e (hfree e (h.empty e he))]
      exact htaken
    · rw [List.mem_singleton.mp ht] at htnew
      cases hi.symm.trans htnew
  · rw [hself]
    exact ⟨rfl, (h.used i hvalid).2.trans haddr, rfl, rfl⟩

theorem entered_new
    (hnew : first sta s.hwaddr = none) (hfree : ∃ k, (sta k).valid = 0) :
    Entered ifname channel sta (seen ++ [s]) (refreshStation ifname channel x s) ∧
    ∀ j, (sta j).valid ≠ 0 → (refreshStation ifname channel x s).sta j = x.sta j := by
  obtain ⟨y, e, hy, hself, hother, hempty, he, hkeep⟩ := refreshStation_new h hs hnew hfree
  have hused : ∀ j, (sta j).valid ≠ 0 → y.sta j = x.sta j := fun j hj => hother j fun hje => hj (hje ▸ he)
  rw [hy]
  refine ⟨⟨fun j hj => ?_, fun j hj => ?_, fun e' he' => ?_, fun t _ _ => ⟨e, hempty, ?_⟩⟩, hused⟩
  · rw [hused j hj]
    exact h.used j hj
  · by_cases hje : j = e
    · rw [hje]
      exact .inr ⟨hempty, s, List.mem_append_right _ (List.mem_singleton_self s), hnew, hself⟩
    · rw [hother j hje]
      exact .inl ((h.free j hj).resolve_right fun ⟨hj', _⟩ => hje (hkeep j hj'))
  · rw [← Option.some.inj (hempty.symm.trans he')]
    exact he
  · rw [hself]
    exact (by decide : (2 : UInt8) ≠ 0)

omit hs

theorem entered_step {s : Listed} (hnew : s.hwaddr ∉ seen.map Listed.hwaddr)
    (hfree : first sta s.hwaddr = none → ∃ k, (sta k).valid = 0) :
    Entered ifname channel sta (seen ++ [s]) (refreshStation ifname channel x s) ∧
    (∀ i, first sta s.hwaddr = some i → Carries ifname s ((refreshStation ifname channel x s).sta i)) ∧
    ∀ j, (sta j).valid ≠ 0 → first sta s.hwaddr ≠ some j → (refreshStation ifname channel x s).sta j = x.sta j := by
  cases hfirst : first sta s.hwaddr with
  | some i =>
    obtain ⟨hentered, hcarries, hother⟩ := entered_known h hnew hfirst
    refine ⟨hentered, fun k hk => ?_, fun j _ hj => hother j fun hji => hj (congrArg some hji.symm)⟩
    cases hk
    exact hcarries
  | none =>
    obtain ⟨hentered, hother⟩ := entered_new h hnew hfirst (hfree hfirst)
    exact ⟨hentered, nofun, fun j hj _ => hother j hj⟩

/-- **All stations of a file.** -/
theorem entered_run
    (hseen : ∀ s ∈ listed, s.hwaddr ∉ seen.map Listed.hwaddr) (hnodup : (listed.map Listed.hwaddr).Nodup)
    (hfree : ∀ s ∈ listed, first sta s.hwaddr = none → ∃ k, (sta k).valid = 0) :
    Entered ifname channel sta (seen ++ listed) (listed.foldl (refreshStation ifname channel) x) ∧
    (∀ s ∈ listed, ∀ i, first sta s.hwaddr = some i →
      Carries ifname s ((listed.foldl (refreshStation ifname channel) x).sta i)) ∧
    ∀ i, (sta i).valid ≠ 0 → (∀ s ∈ listed, first sta s.hwaddr ≠ some i) →
      (listed.foldl (refreshStation ifname channel) x).sta i = x.sta i := by
  induction listed generalizing seen x with
  | nil =>
    rw [List.append_nil]
    exact ⟨h, nofun, fun _ _ _ => rfl⟩
  | cons s listed ih =>
    obtain ⟨hs, hnodup⟩ := List.nodup_cons.mp hnodup
    obtain ⟨hentered, hcarries, hother⟩ :=
      entered_step h (hseen s List.mem_cons_self) (hfree s List.mem_cons_self)
    have hseen' : ∀ t ∈ listed, t.hwaddr ∉ (seen ++ [s]).map Listed.hwaddr := by
      intro t ht hmem
      rw [List.map_append, List.mem_append] at hmem
      rcases hmem with hmem | hmem
      · exact hseen t (List.mem_cons_of_mem s ht) hmem
      · rw [List.map_singleton, List.mem_singleton] at hmem
        exact hs (hmem ▸ List.mem_map_of_mem ht)
    obtain ⟨hall, hknown, hrest⟩ := ih hentered hseen' hnodup fun t ht => hfree t (List.mem_cons_of_mem s ht)
    rw [List.append_assoc] at hall
    refine ⟨hall, fun t ht i hi => ?_, fun i hi hno => ?_⟩
    · rcases List.mem_cons.mp ht with rfl | ht
      · -- the stations behind have other addresses, and leave its entry alone
        rw [List.foldl_cons, hrest i (first_eq_some hi).1 fun u hu hui => hs ?_]
        · exact hcarries i hi
        · rw [← (first_eq_some hi).2, (first_eq_some hui).2]
          exact List.mem_map_of_mem hu
      · exact hknown t ht i hi
    · rw [List.foldl_cons, hrest i hi fun t ht => hno t (List.mem_cons_of_mem s ht)]
      exact hother i hi (hno s List.mem_cons_self)

omit h

end

/-! ## The table afterwards -/

/-- Every station of the file has exactly one entry of this round, with what was read, and other stations keep
theirs. -/
structure Complete (ifname : Line) (listed : List Listed) (sta sta' : StaTable) : Prop where
  entry : ∀ s ∈ listed, ∃ i, Carries ifname s (sta' i) ∧
    ∀ j, (sta' j).valid = 2 → (sta' j).hwaddr = s.hwaddr → j = i
  others : ∀ i, (sta i).valid ≠ 0 → (sta i).hwaddr ∉ listed.map Listed.hwaddr → sta' i = sta i

def Known (sta : StaTable) (s : Listed) : Prop := ∃ i, (sta i).valid ≠ 0 ∧ (sta i).hwaddr = s.hwaddr

instance (sta : StaTable) (s : Listed) : Decidable (Known sta s) := inferInstanceAs (Decidable (∃ _, _))

/-- At most one station of the file is new, and no station of it has an entry of this round behind another entry. -/
structure Enterable (listed : List Listed) (sta : StaTable) : Prop where
  new : ∀ s ∈ listed, ∀ t ∈ listed, ¬ Known sta s → ¬ Known sta t → s = t
  once : ∀ s ∈ listed, ∀ i j, i < j → (sta i).valid ≠ 0 → (sta i).hwaddr = s.hwaddr → (sta j).hwaddr = s.hwaddr →
    (sta j).valid ≠ 2

section

variable {ifname : Line} {sta : StaTable} {listed : List Listed} {y : Refresh} {s : Listed}

theorem first_eq_none_iff_not_known : first sta s.hwaddr = none ↔ ¬ Known sta s := by
  rw [first_eq_none_iff]
  exact ⟨fun h ⟨i, hi, haddr⟩ => h i hi haddr, fun h i hi haddr => h ⟨i, hi, haddr⟩⟩

theorem eq_of_hwaddr (hnodup : (listed.map Listed.hwaddr).Nodup) {t : Listed} (hs : s ∈ listed) (ht : t ∈ listed)
    (heq : t.hwaddr = s.hwaddr) : t = s :=
  List.inj_on_of_nodup_map hnodup ht hs heq

theorem exists_free (hfits : (Finset.univ.filter fun i => (sta i).valid ≠ 0).card +
      (listed.filter fun s => ¬ Known sta s).length ≤ maxStaNum) (hs : s ∈ listed) (hnew : first sta s.hwaddr = none) :
    ∃ k, (sta k).valid = 0 := by
  by_contra hall
  rw [not_exists] at hall
  have hcard : (Finset.univ.filter fun i => (sta i).valid ≠ 0).card = maxStaNum := by
    rw [Finset.filter_true_of_mem fun i _ => hall i]
    exact Finset.card_fin maxStaNum
  have hmem : s ∈ listed.filter fun s => ¬ Known sta s :=
    List.mem_filter.mpr ⟨hs, decide_eq_true (first_eq_none_iff_not_known.mp hnew)⟩
  have := List.length_pos_of_mem hmem
  omega

section

variable (hnodup : (listed.map Listed.hwaddr).Nodup) (h : Entered ifname channel sta listed y)
  (hknown : ∀ s ∈ listed, ∀ i, first sta s.hwaddr = some i → Carries ifname s (y.sta i))
  (hrest : ∀ i, (sta i).valid ≠ 0 → (∀ s ∈ listed, first sta s.hwaddr ≠ some i) → y.sta i = sta i)

include hnodup h

/-- An entry of this round that a station has: it had it before, or it is new and has taken the one in `empty`. -/
theorem Entered.entry_cases (hs : s ∈ listed) (hvalid : (y.sta j).valid = 2) (haddr : (y.sta j).hwaddr = s.hwaddr) :
    (sta j).valid ≠ 0 ∧ (sta j).hwaddr = s.hwaddr ∨
    y.empty = some j ∧ first sta s.hwaddr = none ∧ y.sta j = freshEntry ifname channel s := by
  by_cases hused : (sta j).valid ≠ 0
  · exact .inl ⟨hused, (h.used j hused).2.symm.trans haddr⟩
  · rcases h.free j (not_not.mp hused) with heq | ⟨he, t, ht, hnew, heq⟩
    · rw [← heq, hvalid] at hused
      exact absurd (by decide) hused
    · rw [heq] at haddr
      cases eq_of_hwaddr hnodup hs ht haddr
      exact .inr ⟨he, hnew, heq⟩

include hrest

omit h in
theorem twin_eq (hs : s ∈ listed) (hi : first sta s.hwaddr = some i) (hj : (sta j).valid ≠ 0)
    (haddr : (sta j).hwaddr = s.hwaddr) (hne : j ≠ i) : y.sta j = sta j := by
  refine hrest j hj fun t ht hfirst => hne ?_
  cases eq_of_hwaddr hnodup hs ht ((first_eq_some hfirst).2.symm.trans haddr)
  exact Option.some.inj (hfirst.symm.trans hi)

include hknown

theorem Entered.complete (hok : Enterable listed sta) : Complete ifname listed sta y.sta := by
  refine ⟨fun s hs => ?_, fun i hi hout => hrest i hi fun s hs hfirst => hout ?_⟩
  · cases hfirst : first sta s.hwaddr with
    | some i =>
      refine ⟨i, hknown s hs i hfirst, fun j hvalid haddr => ?_⟩
      rcases h.entry_cases hnodup hs hvalid haddr with ⟨hj, haddr'⟩ | ⟨-, hnew, -⟩
      · by_contra hne
        rw [twin_eq hnodup hrest hs hfirst hj haddr' hne] at hvalid
        obtain ⟨hi, hiaddr⟩ := first_eq_some hfirst
        exact hok.once s hs i j (first_lt hfirst hj haddr' hne) hi hiaddr haddr' hvalid
      · cases hnew.symm.trans hfirst
    | none =>
      have hnew := first_eq_none_iff_not_known.mp hfirst
      obtain ⟨e, he, htaken⟩ := h.taken s hs hfirst
      rcases h.free e (h.empty e he) with heq | ⟨-, t, ht, htnew, heq⟩
      · rw [heq] at htaken
        exact absurd (h.empty e he) htaken
      · cases hok.new t ht s hs (first_eq_none_iff_not_known.mp htnew) hnew
        refine ⟨e, ?_, fun j hvalid haddr => ?_⟩
        · rw [heq]
          exact ⟨rfl, rfl, rfl, rfl⟩
        · rcases h.entry_cases hnodup hs hvalid haddr with ⟨hj, haddr'⟩ | ⟨hj, -⟩
          · exact absurd ⟨j, hj, haddr'⟩ hnew
          · exact Option.some.inj (hj.symm.trans he)
  · rw [(first_eq_some hfirst).2]
    exact List.mem_map_of_mem hs

theorem Entered.enterable (hcomplete : Complete ifname listed sta y.sta) : Enterable listed sta := by
  refine ⟨fun s hs t ht hsnew htnew => ?_, fun s hs i j hij hi hiaddr hjaddr hvalid => ?_⟩
  · -- both have the entry in `empty`
    have htaken : ∀ u ∈ listed, ¬ Known sta u → ∃ e, y.empty = some e ∧ y.sta e = freshEntry ifname channel u := by
      intro u hu hunew
      obtain ⟨e, hcarries, -⟩ := hcomplete.entry u hu
      rcases h.entry_cases hnodup hu hcarries.valid hcarries.hwaddr with ⟨hj, haddr⟩ | ⟨he, -, heq⟩
      · exact absurd ⟨e, hj, haddr⟩ hunew
      · exact ⟨e, he, heq⟩
    obtain ⟨e, he, hse⟩ := htaken s hs hsnew
    obtain ⟨e', he', hte⟩ := htaken t ht htnew
    cases he.symm.trans he'
    exact eq_of_hwaddr hnodup ht hs (congrArg StaInfo.hwaddr (hse.symm.trans hte))
  · have hj : (sta j).valid ≠ 0 := by
      rw [hvalid]
      decide
    cases hfirst : first sta s.hwaddr with
    | none => exact first_eq_none_iff.mp hfirst i hi hiaddr
    | some k =>
      have hkj : j ≠ k := by
        rintro rfl
        exact absurd (first_lt hfirst hi hiaddr hij.ne) (Fin.lt_asymm hij)
      obtain ⟨e, -, hunique⟩ := hcomplete.entry s hs
      have hcarries := hknown s hs k hfirst
      have htwin := twin_eq hnodup hrest hs hfirst hj hjaddr hkj
      refine hkj ((hunique j ?_ ?_).trans (hunique k hcarries.valid hcarries.hwaddr).symm)
      · rw [htwin]
        exact hvalid
      · rw [htwin]
        exact hjaddr

end

end

/-- **The table is complete exactly if one station at most is new**, and none was entered twice: for every table and
every file of distinct stations that fit. -/
theorem getWlStaInfo_complete_iff (ifname : Line) (channel : UInt8) (hwaddr rmCap : List UInt8) (lines : List Line)
    (listed : List Listed) (sta : StaTable) (hhwaddr : hwaddr.length = 6) (hrmCap : rmCap.length = 5)
    (hlists : Lists lines listed) (hnodup : (listed.map Listed.hwaddr).Nodup)
    (hfits : (Finset.univ.filter fun i => (sta i).valid ≠ 0).card + (listed.filter fun s => ¬ Known sta s).length
      ≤ maxStaNum) :
    Complete ifname listed sta (getWlStaInfo ifname channel hwaddr rmCap (some lines) sta) ↔ Enterable listed sta := by
  have heq : getWlStaInfo ifname channel hwaddr rmCap (some lines) sta =
      (listed.foldl (refreshStation ifname channel) ⟨sta, none⟩).sta :=
    congrArg Refresh.sta (readStations_eq hlists hhwaddr hrmCap _)
  obtain ⟨hentered, hknown, hrest⟩ := entered_run entered_start (fun _ _ => List.not_mem_nil) hnodup
    fun s hs hnew => exists_free hfits hs hnew
  rw [heq]
  exact ⟨hentered.enterable hnodup hknown hrest, hentered.complete hnodup hknown hrest⟩

def emptyTable : StaTable := fun _ => ⟨0, [], [], [], 0, 0, .unknown⟩

def someStation (n : UInt8) : Listed := ⟨[2, 0, 0, 0, 0, n], [0x10, 0, 0, 0, 0]⟩

def stationLines (n : Char) : List Line :=
  [hwaddrToken ++ [' ', '0', '2', '0', '0', '0', '0', '0', '0', '0', '0', '0', n],
    rmCapToken ++ [' ', '1', '0', '0', '0', '0', '0', '0', '0', '0', '0']]

theorem lists_someStation (c : Char) (k : ℕ) (n : UInt8) (hc : hexVal c = some k) (hn : n = .ofNat (16 * 0 + k)) (h : Lists lines listed) :
    Lists (stationLines c ++ lines) (someStation n :: listed) := by
  have hhwaddr : Digits ['0', '2', '0', '0', '0', '0', '0', '0', '0', '0', '0', c] (someStation n).hwaddr :=
    .cons rfl rfl rfl (.cons rfl rfl rfl (.cons rfl rfl rfl (.cons rfl rfl rfl (.cons rfl rfl rfl
      (.cons rfl hc hn (.nil _))))))
  have hrmCap : Digits ['1', '0', '0', '0', '0', '0', '0', '0', '0', '0'] (someStation n).rmCap :=
    .cons rfl rfl rfl (.cons rfl rfl rfl (.cons rfl rfl rfl (.cons rfl rfl rfl (.cons rfl rfl rfl (.nil _)))))
  exact @Lists.station _ _ _ _ [] _ _ _ rfl hhwaddr rfl nofun rfl hrmCap rfl h

theorem oneStation_complete : Complete ['w'] [someStation 1] emptyTable
    (getWlStaInfo ['w'] 1 [0, 0, 0, 0, 0, 0] [0, 0, 0, 0, 0] (some (stationLines '1' ++ [])) emptyTable) := by
  refine (getWlStaInfo_complete_iff ['w'] 1 _ _ _ [someStation 1] emptyTable rfl rfl
    (lists_someStation '1' 1 1 rfl rfl .nil) (List.nodup_singleton _) ?_).mpr
    ⟨fun s hs t ht _ _ => ?_, fun s _ i j _ hi => absurd rfl hi⟩
  · decide +kernel
  · rw [List.mem_singleton.mp hs, List.mem_singleton.mp ht]

/-- **Of two new stations, the first is lost**: the second one gets the same entry. -/
theorem twoStations_lost : Lists (stationLines '1' ++ (stationLines '2' ++ [])) [someStation 1, someStation 2] ∧
    ∀ i, (getWlStaInfo ['w'] 1 [0, 0, 0, 0, 0, 0] [0, 0, 0, 0, 0] (some (stationLines '1' ++ (stationLines '2' ++ [])))
      emptyTable i).hwaddr ≠ (someStation 1).hwaddr := by
  have hlists : Lists (stationLines '1' ++ (stationLines '2' ++ [])) [someStation 1, someStation 2] :=
    lists_someStation '1' 1 1 rfl rfl (lists_someStation '2' 2 2 rfl rfl .nil)
  refine ⟨hlists, ?_⟩
  unfold getWlStaInfo
  dsimp only
  decide +kernel

end NasFirmware.Dot11k
