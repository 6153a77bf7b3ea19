import NasFirmware.Tar.Header

/-!
# Archives as lists of files

* **`tarRead_spec`**: `tar_read` finds just that;
* `WalkInv`: the walk of `tar_add_or_delete`; `tarPass_keep`, `tarPass_drop`, `tarPass_replace`: its
  steps; **`tarAdd_spec`**, **`tarDelete_spec`**: its result.
-/

namespace NasFirmware.Tar

open ByteMem CString CLoop

structure Entry where
  name : List UInt8
  size : ℕ
  header : List UInt8
  body : List UInt8
  valid : ValidHeader name size header
  body_length : body.length = blocks size

def Entry.bytes (e : Entry) : List UInt8 := e.header ++ e.body

def Entry.data (e : Entry) : List UInt8 := e.body.take e.size

/-- Does the header have the signature `RTK`? -/
def Entry.isRtk (e : Entry) : Bool := (e.header.drop 508).take 4 == rtk ++ [0]

def bytes (es : List Entry) : List UInt8 := es.flatMap Entry.bytes

/-- What is found under a name: the first file that has it. -/
def find (q : List UInt8) (es : List Entry) : Option (List UInt8) :=
  (es.find? fun e => e.name == q).map Entry.data

/-! ## Entries in memory -/

theorem blocks_ge (n : ℕ) : n ≤ blocks n := by
  rw [blocks]
  omega

theorem blocks_dvd (n : ℕ) : 512 ∣ blocks n := Dvd.intro_left _ rfl

theorem Entry.length_bytes (e : Entry) : e.bytes.length = 512 + blocks e.size := by
  rw [Entry.bytes, List.length_append, e.valid.length, e.body_length]

theorem bytes_cons (e : Entry) (es : List Entry) : bytes (e :: es) = e.bytes ++ bytes es := rfl

theorem bytes_append (es fs : List Entry) : bytes (es ++ fs) = bytes es ++ bytes fs :=
  List.flatMap_append

theorem bytes_singleton (e : Entry) : bytes [e] = e.bytes := by
  rw [bytes_cons, show bytes [] = [] from rfl, List.append_nil]

theorem length_bytes_cons (e : Entry) (es : List Entry) :
    (bytes (e :: es)).length = 512 + blocks e.size + (bytes es).length := by
  rw [bytes_cons, List.length_append, e.length_bytes]

theorem length_le_bytes (es : List Entry) : 512 * es.length ≤ (bytes es).length := by
  induction es with
  | nil => simp
  | cons e es ih =>
    rw [length_bytes_cons, List.length_cons]
    omega

theorem bytes_dvd (es : List Entry) : 512 ∣ (bytes es).length := by
  induction es with
  | nil => exact Nat.dvd_zero _
  | cons e es ih =>
    rw [length_bytes_cons]
    exact Nat.dvd_add (Nat.dvd_add (Nat.dvd_refl _) (blocks_dvd _)) ih

section Stored

variable {m : Mem} {a : ℕ} {e : Entry} {es : List Entry}

variable (h : read m a (bytes (e :: es)).length = bytes (e :: es))

include h

theorem read_header :
    read m a 512 = e.header := by
  have h1 := read_append_left (read_append_left h)
  rwa [e.valid.length] at h1

theorem read_body :
    read m (a + 512) (blocks e.size) = e.body := by
  have h1 := read_append_right (read_append_left h)
  rwa [e.valid.length, e.body_length] at h1

theorem read_rest :
    read m (a + (512 + blocks e.size)) (bytes es).length = bytes es := by
  have h1 := read_append_right h
  rwa [e.length_bytes] at h1

theorem read_data :
    read m (a + 512) e.size = e.data := by
  have hb := read_body h
  obtain ⟨r, hr⟩ := Nat.exists_eq_add_of_le (blocks_ge e.size)
  rw [Entry.data, ← hb, hr, read_add, List.take_left' (length_read ..)]

theorem strcmpEq_rtk :
    strcmpEq m (a + 508) rtk = e.isRtk := by
  have hr : read m (a + 508) 4 = (e.header.drop 508).take 4 := by
    rw [← read_header h, show 512 = 508 + 4 from rfl, read_add, List.drop_left' (length_read ..),
      List.take_of_length_le (by rw [length_read])]
  rw [strcmpEq, startsWith, Entry.isRtk, ← hr]
  rfl

end Stored

section Read

variable {m : Mem} {fd limit : ℕ} {e : Entry} {es : List Entry} {s : CStr}

theorem entry_seen (h : read m fd (bytes (e :: es)).length = bytes (e :: es)) :
    m fd ≠ 0 ∧ tarCheckHeader m fd = true ∧ simpleStrtol m (fd + 124) 8 = e.size ∧
      nameAt m fd 100 = e.name := by
  have hr := read_header h
  exact ⟨(e.valid.first hr).2.1, e.valid.check m fd hr, e.valid.size_eq m fd hr, e.valid.nameAt hr⟩

theorem Entry.size_lt (e : Entry) : e.size < 2 ^ 31 := by
  have h := simpleStrtol_lt (ofList e.header) (0 + 124) 8
  have hr : read (ofList e.header) 0 512 = e.header := e.valid.length ▸ read_ofList e.header
  rw [e.valid.size_eq _ _ hr] at h
  exact_mod_cast h

theorem tarReadPass_found (h : read m fd (bytes (e :: es)).length = bytes (e :: es))
    (hname : e.name = s.1) : tarReadPass m s.1 limit fd = some (.done (some (fd + 512, e.size))) := by
  have hseen := entry_seen h
  have hlt := e.size_lt
  have hcmp : strncmpEq m fd s.1 100 = true := by
    rw [strncmpEq_iff (by rw [hseen.2.2.2]; exact e.valid.name_lt), hseen.2.2.2, hname]
  have hmod : ((e.size : ℤ) % 2 ^ 32).toNat = e.size := by omega
  unfold tarReadPass
  simp only [hseen.1, hseen.2.1, hseen.2.2.1, hcmp, hmod, if_false, if_true, Bool.not_true,
    Bool.false_eq_true]

theorem tarReadPass_skip (limit : ℕ) (h : read m fd (bytes (e :: es)).length = bytes (e :: es))
    (hname : e.name ≠ s.1) : tarReadPass m s.1 limit fd =
      if limit < fd + (512 + blocks e.size) then some (.done none)
      else some (.next (fd + (512 + blocks e.size))) := by
  have hseen := entry_seen h
  have hcmp : strncmpEq m fd s.1 100 = false := by
    rw [Bool.eq_false_iff, Ne, strncmpEq_iff (by rw [hseen.2.2.2]; exact e.valid.name_lt), hseen.2.2.2]
    exact fun h => hname h.symm
  have hstep : (((e.size : ℤ).toNat + 511) / 512 + 1) * 512 = 512 + blocks e.size := by
    rw [blocks, Int.toNat_natCast]
    ring
  have hpos : ¬ (e.size : ℤ) < 0 := by omega
  unfold tarReadPass
  simp only [hseen.1, hseen.2.1, hseen.2.2.1, hcmp, hstep, hpos, if_false, Bool.not_true,
    Bool.false_eq_true]

/-- A pass that finds something has compared the name in an accepted header. -/
theorem tarReadPass_some {s : List UInt8} {r : ℕ × ℕ}
    (h : tarReadPass m s limit fd = some (.done (some r))) :
    m fd ≠ 0 ∧ tarCheckHeader m fd = true ∧ strncmpEq m fd s 100 = true := by
  unfold tarReadPass at h
  dsimp only at h
  split_ifs at h with h0 hcheck hcmp
  · cases h
  · cases h
  · exact ⟨h0, by simpa using hcheck, hcmp⟩
  all_goals cases h

/-- **`tar_read` finds the first file with the name**, if the walk stops behind the archive. -/
theorem tarRead_spec (h : read m fd (bytes es).length = bytes es) (hlim : fd + (bytes es).length ≤ limit)
    (hstop : find s.1 es = none → tarReadPass m s.1 limit (fd + (bytes es).length) = some (.done none))
    {fuel : ℕ} (hfuel : es.length < fuel) :
    (loop (tarReadPass m s.1 limit) fuel fd).map (fun r => r.map fun (addr, len) => read m addr len) =
      some (find s.1 es) := by
  induction es generalizing fd fuel with
  | nil =>
    obtain ⟨n, rfl⟩ : ∃ n, fuel = n + 1 := ⟨fuel - 1, by omega⟩
    have hpass : tarReadPass m s.1 limit fd = some (.done none) := hstop rfl
    rw [loop_succ_done hpass]
    rfl
  | cons e es ih =>
    obtain ⟨n, rfl⟩ : ∃ n, fuel = n + 1 := ⟨fuel - 1, by omega⟩
    rw [length_bytes_cons] at hlim
    by_cases hname : e.name = s.1
    · rw [loop_succ_done (tarReadPass_found h hname), find, List.find?_cons_of_pos (by simpa using hname)]
      simp [read_data h]
    · have hfind : find s.1 (e :: es) = find s.1 es := by
        rw [find, List.find?_cons_of_neg (by simpa using hname), find]
      have hpass := tarReadPass_skip limit h hname
      rw [if_neg (by omega)] at hpass
      rw [loop_succ_next hpass, hfind]
      refine ih (read_rest h) (by omega) (fun hnone => ?_) (Nat.lt_of_succ_lt_succ hfuel)
      rw [← hstop (hfind.trans hnone), length_bytes_cons]
      congr 1
      omega

end Read

/-! ## The walk -/

/-- The walk before the entries `es`, with `out` in the second buffer, which starts at `T`. -/
structure WalkInv (T : ℕ) (w : Walk) (es out : List Entry) : Prop where
  stored : read w.m w.pos (bytes es).length = bytes es
  room : w.pos + (bytes es).length < T
  tail : ∀ k, w.pos + (bytes es).length ≤ k → k < T → w.m k = 0
  out_eq : read w.m T (bytes out).length = bytes out
  tmpPos : w.tmpPos = (bytes out).length
  blank : ∀ k, T + w.tmpPos ≤ k → k < 2 * T → w.m k = 0

/-- With `NAS_ENABLE`, only the first header of the archive has the signature `RTK`. -/
def Unsigned (nas : Bool) (pos : ℕ) (es : List Entry) : Prop :=
  nas = true → (∀ e ∈ es.tail, e.isRtk = false) ∧ (pos ≠ 0 → ∀ e ∈ es, e.isRtk = false)

variable {nas : Bool} {pos : ℕ} {e : Entry} {es : List Entry} {p : List UInt8}

theorem Unsigned.next {pos' : ℕ}
    (h : Unsigned nas pos (e :: es)) : Unsigned nas pos' es := fun hnas =>
  ⟨fun x hx => (h hnas).1 x (List.mem_of_mem_tail hx), fun _ x hx => (h hnas).1 x hx⟩

theorem Unsigned.head (h : Unsigned nas pos (e :: es))
    (hnas : nas = true) (hpos : pos ≠ 0) : e.isRtk = false :=
  (h hnas).2 hpos e List.mem_cons_self

def Entry.matches (p : List UInt8) (e : Entry) : Bool := p.isPrefixOf e.name

theorem Entry.matches_iff : e.matches p = true ↔ p <+: e.name :=
  List.isPrefixOf_iff_prefix

section Walk

variable {T : ℕ} {w : Walk} {e : Entry} {es out tl : List Entry} {nas add : Bool} {p : CStr}
  {src : List UInt8}

theorem WalkInv.advance (h : WalkInv T w (e :: es) out) {m' : Mem} {out' : List Entry} (done : Bool)
    (hdst : ∀ k, w.pos + 512 + blocks e.size ≤ k → k < T → m' k = w.m k)
    (hout : read m' T (bytes out').length = bytes out')
    (hblank : ∀ k, T + (bytes out').length ≤ k → k < 2 * T → m' k = 0) :
    WalkInv T ⟨m', w.pos + 512 + blocks e.size, (bytes out').length, done⟩ es out' := by
  have hroom := h.room
  have htail := h.tail
  rw [length_bytes_cons] at hroom htail
  have hrest := read_rest h.stored
  rw [← Nat.add_assoc] at hrest
  refine ⟨?_, ?_, fun k hk hlt => ?_, hout, rfl, hblank⟩
  · show read m' _ _ = _
    rw [read_congr fun k hk hlt => hdst k hk (by omega)]
    exact hrest
  · show w.pos + 512 + blocks e.size + _ < T
    omega
  · have hk' : w.pos + 512 + blocks e.size + (bytes es).length ≤ k := hk
    exact (hdst k (by omega) hlt).trans (htail k (by omega) hlt)

theorem tarPass_eq (h : WalkInv T w (e :: es) out) : tarPass nas 0 p.1 src T add w =
    let pos := w.pos + 512 + blocks e.size
    if e.matches p.1 then
      if add && !w.done then
        let m := tarBuildHeader w.m w.pos p.1 src.length 48
        let m := write m (T + w.tmpPos) (read m w.pos 512)
        let m := write m (T + w.tmpPos + 512) src
        some (.next ⟨m, pos, w.tmpPos + 512 + blocks src.length, true⟩)
      else some (.next { w with pos := pos })
    else if !nas || !e.isRtk || w.pos == 0 then
      some (.next ⟨write w.m (T + w.tmpPos) e.bytes, pos, w.tmpPos + 512 + blocks e.size, w.done⟩)
    else some (.next { w with pos := pos }) := by
  have hseen := entry_seen h.stored
  have hmatch : startsWith w.m w.pos p.1 = e.matches p.1 := by
    rw [Bool.eq_iff_iff, startsWith_iff (by rw [hseen.2.2.2]; exact e.valid.name_lt), hseen.2.2.2,
      Entry.matches_iff]
  have hbytes : read w.m w.pos (512 + blocks e.size) = e.bytes := by
    rw [read_add, read_header h.stored, read_body h.stored]
    rfl
  have hpos : ¬ (e.size : ℤ) < 0 := by omega
  unfold tarPass
  simp [hseen.1, hseen.2.1, hseen.2.2.1, hpos, hmatch, strcmpEq_rtk h.stored, hbytes, Bool.not_true]

theorem tarPass_stop (h : WalkInv T w [] out) : tarPass nas 0 p.1 src T add w = some (.done w) := by
  have hzero : w.m w.pos = 0 := h.tail w.pos (by simp [bytes]) (by simpa [bytes] using h.room)
  unfold tarPass
  simp [hzero]

variable (nas add src) in
theorem tarPass_keep (h : WalkInv T w (e :: es) out) (hun : nas = true → w.pos ≠ 0 → e.isRtk = false)
    (hno : e.matches p.1 = false) : ∃ w', tarPass nas 0 p.1 src T add w = some (.next w') ∧
      WalkInv T w' es (out ++ [e]) ∧ w'.done = w.done ∧ w'.pos = w.pos + 512 + blocks e.size := by
  have hcopied : (!nas || !e.isRtk || w.pos == 0) = true := by
    cases nas with
    | false => rfl
    | true =>
      by_cases hpos : w.pos = 0
      · simp [hpos]
      · simp [hun rfl hpos]
  have hlen : (bytes (out ++ [e])).length = w.tmpPos + 512 + blocks e.size := by
    rw [bytes_append, bytes_singleton, List.length_append, e.length_bytes, h.tmpPos, Nat.add_assoc]
  rw [tarPass_eq h]
  simp only [hno, Bool.false_eq_true, if_false, hcopied, if_true]
  refine ⟨_, rfl, ?_, rfl, rfl⟩
  rw [← hlen]
  refine h.advance w.done (fun k _ hlt => write_apply_lt (by omega)) ?_ fun k hk hlt => ?_
  · rw [bytes_append, bytes_singleton, h.tmpPos]
    exact read_write_append h.out_eq
  · rw [write_apply_ge (by rw [e.length_bytes]; omega)]
    exact h.blank k (by omega) hlt

variable (nas src) in
theorem tarPass_drop (h : WalkInv T w (e :: es) out) (hmatch : e.matches p.1 = true)
    (hadd : (add && !w.done) = false) : ∃ w', tarPass nas 0 p.1 src T add w = some (.next w') ∧
      WalkInv T w' es out ∧ w'.done = w.done ∧ w'.pos = w.pos + 512 + blocks e.size := by
  rw [tarPass_eq h]
  simp only [hmatch, hadd, Bool.false_eq_true, if_false, if_true]
  refine ⟨_, rfl, ?_, rfl, rfl⟩
  have := h.advance w.done (fun k _ _ => rfl) h.out_eq (by rw [← h.tmpPos]; exact h.blank)
  rwa [← h.tmpPos] at this

theorem newEntry {m : Mem} {h : List UInt8} (hv : ValidHeader p.1 src.length h)
    (hout : read m T (bytes out).length = bytes out)
    (hblank : ∀ k, T + (bytes out).length + 512 ≤ k → k < 2 * T → m k = 0) :
    let m' := write (write m (T + (bytes out).length) h) (T + (bytes out).length + 512) src
    ∃ e' : Entry, e'.name = p.1 ∧ e'.data = src ∧ e'.header = h ∧
      (bytes (out ++ [e'])).length = (bytes out).length + 512 + blocks src.length ∧
      read m' T (bytes (out ++ [e'])).length = bytes (out ++ [e']) ∧
      (∀ k, k < T → m' k = m k) ∧
      ∀ k, T + (bytes (out ++ [e'])).length ≤ k → k < 2 * T → m' k = 0 := by
  intro m'
  have hblk := blocks_ge src.length
  set q := T + (bytes out).length with hq
  have hlen : h.length = 512 := hv.length
  let e' : Entry := ⟨p.1, src.length, h, read m' (q + 512) (blocks src.length), hv, length_read ..⟩
  have hbytes : (bytes (out ++ [e'])).length = (bytes out).length + 512 + blocks src.length := by
    rw [bytes_append, bytes_singleton, List.length_append, e'.length_bytes, Nat.add_assoc]
  refine ⟨e', rfl, ?_, rfl, hbytes, ?_, fun k hk => ?_, fun k hk hlt => ?_⟩
  · show (read m' (q + 512) (blocks src.length)).take src.length = src
    obtain ⟨r, hr⟩ := Nat.exists_eq_add_of_le hblk
    rw [hr, read_add, List.take_left' (length_read ..), read_write_self]
  · rw [hbytes, bytes_append, bytes_singleton, Nat.add_assoc, read_add, read_add, ← hq]
    refine congrArg₂ _ ?_ (congrArg₂ _ ?_ rfl)
    · rw [read_write_of_disjoint (Or.inl (by omega)), read_write_of_disjoint (Or.inl (by omega)), hout]
    · rw [read_write_of_disjoint (Or.inl (by omega))]
      have := read_write_self m q h
      rwa [hlen] at this
  · exact (write_apply_lt (by omega)).trans (write_apply_lt (by omega))
  · exact (write_apply_ge (by omega)).trans
      ((write_apply_ge (by omega)).trans (hblank k (by omega) hlt))

/-- The name of a new file: it fits its field and starts with an ASCII character. -/
structure NameOk (p : CStr) : Prop where
  ne : p.1 ≠ []
  lt : p.1.length < 100
  ascii : ∀ c ∈ p.1.head?, c ≤ 0x7f

/-- A header that is built in front of the second buffer, or behind what is in it, leaves what is in it. -/
theorem WalkInv.of_frame {m₁ : Mem} {q : ℕ} (h : WalkInv T w es out)
    (hframe : ∀ k, k < q ∨ q + 500 ≤ k → m₁ k = w.m k) (hq : q + 500 ≤ T ∨ q = T + (bytes out).length) :
    (∀ k, T + (bytes out).length + 512 ≤ k → k < 2 * T → m₁ k = 0) ∧
      read m₁ T (bytes out).length = bytes out := by
  refine ⟨fun k hk hlt => ?_, ?_⟩
  · rw [hframe k (by omega)]
    exact h.blank k (by rw [h.tmpPos]; omega) hlt
  · rw [read_congr fun k hk hlt => hframe k (by omega), h.out_eq]

variable (nas) in
theorem tarPass_replace (h : WalkInv T w (e :: es) out) (hp : NameOk p) (hsrc : src.length < 2 ^ 31)
    (hmatch : e.matches p.1 = true) (hdone : w.done = false) :
    ∃ w' e', tarPass nas 0 p.1 src T true w = some (.next w') ∧ WalkInv T w' es (out ++ [e']) ∧
      w'.done = true ∧ w'.pos = w.pos + 512 + blocks e.size ∧
      e'.name = p.1 ∧ e'.data = src ∧ e'.isRtk = e.isRtk ∧ e'.bytes.length = 512 + blocks src.length := by
  set m₁ := tarBuildHeader w.m w.pos p.1 src.length 48 with hm₁
  have hroom := h.room
  rw [length_bytes_cons] at hroom
  have hframe : ∀ k, k < w.pos ∨ w.pos + 500 ≤ k → m₁ k = w.m k := fun k hk =>
    tarBuildHeader_frame hp.lt hk
  have hv : ValidHeader p.1 src.length (read m₁ w.pos 512) :=
    tarBuildHeader_valid p hp.ne hp.lt hp.ascii hsrc
  obtain ⟨hblank, hout⟩ := h.of_frame hframe (Or.inl (by omega))
  obtain ⟨e', hname, hdata, hheader, hlen, hread, hlow, hblank'⟩ := newEntry hv hout hblank
  refine ⟨_, e', ?_, h.advance true (fun k hk hlt => ?_) hread hblank', rfl, rfl, hname, hdata, ?_, ?_⟩
  · rw [tarPass_eq h]
    simp [hmatch, hdone, ← hm₁, hlen, h.tmpPos]
  · rw [hlow k hlt, hframe k (by omega)]
  · rw [Entry.isRtk, Entry.isRtk, hheader, ← read_header h.stored]
    have hsig : ∀ m : Mem, (read m w.pos 512).drop 508 = read m (w.pos + 508) 4 := by
      intro m
      rw [show 512 = 508 + 4 from rfl, read_add, List.drop_left' (length_read ..)]
    rw [hsig, hsig, read_congr fun k hk _ => hframe k (by omega)]
  · rw [bytes_append, bytes_singleton, List.length_append] at hlen
    omega

theorem tarAppend_spec (h : WalkInv T w [] out) (hp : NameOk p) (hsrc : src.length < 2 ^ 31)
    (hdone : w.done = false) (hroom : (bytes out).length + 512 ≤ T) :
    ∃ w' e', tarAppend p.1 src T true w = w' ∧ WalkInv T w' [] (out ++ [e']) ∧ w'.pos = w.pos ∧
      e'.name = p.1 ∧ e'.data = src ∧ e'.isRtk = false ∧ e'.bytes.length = 512 + blocks src.length := by
  set q := T + (bytes out).length with hq
  set m₁ := tarBuildHeader w.m q p.1 src.length 48 with hm₁
  have hpos : w.pos < T := by simpa [bytes] using h.room
  have hframe : ∀ k, k < q ∨ q + 500 ≤ k → m₁ k = w.m k := fun k hk => tarBuildHeader_frame hp.lt hk
  have hv : ValidHeader p.1 src.length (read m₁ q 512) :=
    tarBuildHeader_valid p hp.ne hp.lt hp.ascii hsrc
  obtain ⟨hblank, hout⟩ := h.of_frame hframe (Or.inr hq)
  obtain ⟨e', hname, hdata, hheader, hlen, hread, hlow, hblank'⟩ := newEntry hv hout hblank
  rw [← hq, write_read_self] at hread hlow hblank'
  refine ⟨⟨write m₁ (q + 512) src, w.pos, (bytes (out ++ [e'])).length, w.done⟩, e', ?_, ?_, rfl, hname,
    hdata, ?_, ?_⟩
  · unfold tarAppend
    simp [hdone, h.tmpPos, ← hq, ← hm₁, hlen]
  · refine ⟨rfl, by simpa [bytes] using hpos, fun k hk hlt => ?_, hread, rfl, hblank'⟩
    have hk' : w.pos ≤ k := by simpa [bytes] using hk
    refine (hlow k hlt).trans ((hframe k (by omega)).trans (h.tail k ?_ hlt))
    simpa [bytes] using hk'
  · -- the second buffer was cleared
    have hzero : (read m₁ q 512).drop 508 = [0, 0, 0, 0] := by
      rw [show 512 = 508 + 4 from rfl, read_add, List.drop_left' (length_read ..)]
      have hb : ∀ i, 500 ≤ i → i < 512 → m₁ (q + i) = 0 := by
        intro i hi hlt
        rw [hframe _ (by omega)]
        exact h.blank _ (by rw [h.tmpPos]; omega) (by omega)
      simp only [read_succ, read_zero, Nat.add_assoc]
      rw [hb 508 (by omega) (by omega), hb 509 (by omega) (by omega), hb 510 (by omega) (by omega),
        hb 511 (by omega) (by omega)]
    rw [Entry.isRtk, hheader, hzero]
    rfl
  · rw [bytes_append, bytes_singleton, List.length_append] at hlen
    omega

variable (nas add src) in
theorem tarPass_skip (h : WalkInv T w (e :: es) out) (hnas : nas = true) (hrtk : e.isRtk = true) (hpos : w.pos ≠ 0)
    (hno : e.matches p.1 = false) : ∃ w', tarPass nas 0 p.1 src T add w = some (.next w') ∧
      WalkInv T w' es out ∧ w'.done = w.done ∧ w'.pos = w.pos + 512 + blocks e.size := by
  have hskip : (!nas || !e.isRtk || w.pos == 0) = false := by simp [hnas, hrtk, hpos]
  rw [tarPass_eq h]
  simp only [hno, hskip, Bool.false_eq_true, if_false]
  refine ⟨_, rfl, ?_, rfl, rfl⟩
  have := h.advance w.done (fun k _ _ => rfl) h.out_eq (by rw [← h.tmpPos]; exact h.blank)
  rwa [← h.tmpPos] at this

variable (nas p src) in
/-- The walk without a replacement, up to the entries `tl`: what matches is dropped. -/
theorem walk_drop (h : WalkInv T w (es ++ tl) out) (hun : Unsigned nas w.pos es)
    (hadd : (add && !w.done) = false) (n : ℕ) :
    ∃ w', loop (tarPass nas 0 p.1 src T add) (n + es.length) w = loop (tarPass nas 0 p.1 src T add) n w' ∧
      WalkInv T w' tl (out ++ es.filter fun e => !e.matches p.1) ∧ w'.done = w.done ∧
      w'.pos = w.pos + (bytes es).length := by
  induction es generalizing w out with
  | nil => exact ⟨w, rfl, by simpa using h, rfl, by simp [bytes]⟩
  | cons e es ih =>
    rw [length_bytes_cons]
    by_cases hmatch : e.matches p.1 = true
    · obtain ⟨w₁, hpass, hinv, hdone, hpos⟩ := tarPass_drop nas src h hmatch hadd
      obtain ⟨w', hloop, hinv', hdone', hpos'⟩ := ih hinv hun.next (by rw [hdone]; exact hadd)
      refine ⟨w', (loop_succ_next hpass).trans hloop, ?_, hdone'.trans hdone, by omega⟩
      rwa [List.filter_cons_of_neg (by simp [hmatch])]
    · have hno : e.matches p.1 = false := by simpa using hmatch
      obtain ⟨w₁, hpass, hinv, hdone, hpos⟩ := tarPass_keep nas add src h hun.head hno
      obtain ⟨w', hloop, hinv', hdone', hpos'⟩ := ih hinv hun.next (by rw [hdone]; exact hadd)
      refine ⟨w', (loop_succ_next hpass).trans hloop, ?_, hdone'.trans hdone, by omega⟩
      rwa [List.filter_cons_of_pos (by simp [hno]), List.append_cons]

variable (nas add p src) in
theorem walk_trailer (h : WalkInv T w tl out) (hnas : tl ≠ [] → nas = true)
    (hrtk : ∀ c ∈ tl, c.isRtk = true) (hpos : tl ≠ [] → w.pos ≠ 0)
    (hadd : ∀ c ∈ tl, c.matches p.1 = true → (add && !w.done) = false) {fuel : ℕ} (hfuel : tl.length < fuel) :
    ∃ w', loop (tarPass nas 0 p.1 src T add) fuel w = some w' ∧ WalkInv T w' [] out ∧ w'.done = w.done := by
  induction tl generalizing w fuel with
  | nil =>
    obtain ⟨n, rfl⟩ : ∃ n, fuel = n + 1 := ⟨fuel - 1, by omega⟩
    exact ⟨w, loop_succ_done (tarPass_stop h), h, rfl⟩
  | cons c tl ih =>
    obtain ⟨n, rfl⟩ : ∃ n, fuel = n + 1 := ⟨fuel - 1, by omega⟩
    have hstep : ∃ w₁, tarPass nas 0 p.1 src T add w = some (.next w₁) ∧ WalkInv T w₁ tl out ∧
        w₁.done = w.done ∧ w₁.pos = w.pos + 512 + blocks c.size := by
      by_cases hmatch : c.matches p.1 = true
      · exact tarPass_drop nas src h hmatch (hadd c List.mem_cons_self hmatch)
      · exact tarPass_skip nas add src h (hnas (List.cons_ne_nil _ _)) (hrtk c List.mem_cons_self)
          (hpos (List.cons_ne_nil _ _)) (by simpa using hmatch)
    obtain ⟨w₁, hpass, hinv, hdone, hpos₁⟩ := hstep
    obtain ⟨w', hloop, hinv', hdone'⟩ := ih hinv (fun _ => hnas (List.cons_ne_nil _ _))
      (fun c hc => hrtk c (List.mem_cons_of_mem _ hc)) (fun _ => by omega)
      (fun c hc hm => by rw [hdone]; exact hadd c (List.mem_cons_of_mem _ hc) hm) (Nat.lt_of_succ_lt_succ hfuel)
    exact ⟨w', (loop_succ_next hpass).trans hloop, hinv', hdone'.trans hdone⟩

/-- `tar_add_or_delete`: the first file that matches is replaced and the others are dropped, or the new file is added
at the end. -/
inductive Rewritten (p src : List UInt8) : List Entry → List Entry → Prop
  | append {es : List Entry} {e' : Entry} (hno : ∀ e ∈ es, e.matches p = false) (hname : e'.name = p)
      (hdata : e'.data = src) (hlen : e'.bytes.length = 512 + blocks src.length)
      (hrtk : e'.isRtk = false) : Rewritten p src es (es ++ [e'])
  | replace {l r : List Entry} {e e' : Entry} (hno : ∀ e ∈ l, e.matches p = false)
      (hmatch : e.matches p = true) (hname : e'.name = p) (hdata : e'.data = src)
      (hlen : e'.bytes.length = 512 + blocks src.length) (hrtk : e'.isRtk = e.isRtk) :
      Rewritten p src (l ++ e :: r) (l ++ e' :: r.filter fun e => !e.matches p)

variable (nas) in
theorem walk_add (h : WalkInv T w (es ++ tl) out) (hun : Unsigned nas w.pos es) (hp : NameOk p)
    (hsrc : src.length < 2 ^ 31) (hdone : w.done = false) (n : ℕ) :
    ∃ w', loop (tarPass nas 0 p.1 src T true) (n + es.length) w = loop (tarPass nas 0 p.1 src T true) n w' ∧
      w'.pos = w.pos + (bytes es).length ∧
      ((w'.done = false ∧ (∀ e ∈ es, e.matches p.1 = false) ∧ WalkInv T w' tl (out ++ es)) ∨
        (w'.done = true ∧ ∃ new, Rewritten p.1 src es new ∧ WalkInv T w' tl (out ++ new))) := by
  induction es generalizing w out with
  | nil => exact ⟨w, rfl, by simp [bytes], Or.inl ⟨hdone, by simp, by simpa using h⟩⟩
  | cons e es ih =>
    rw [length_bytes_cons]
    by_cases hmatch : e.matches p.1 = true
    · obtain ⟨w₁, e', hpass, hinv, hdone₁, hpos, hname, hdata, hrtk, hlen⟩ :=
        tarPass_replace nas h hp hsrc hmatch hdone
      have hadd : (true && !w₁.done) = false := by rw [hdone₁]; rfl
      obtain ⟨w', hloop, hinv', hdone', hpos'⟩ := walk_drop nas p src hinv hun.next hadd n
      refine ⟨w', (loop_succ_next hpass).trans hloop, by omega, Or.inr ⟨hdone'.trans hdone₁, _,
        Rewritten.replace (l := []) (by simp) hmatch hname hdata hlen hrtk, ?_⟩⟩
      rwa [List.nil_append, List.append_cons]
    · have hno : e.matches p.1 = false := by simpa using hmatch
      obtain ⟨w₁, hpass, hinv, hdone₁, hpos⟩ := tarPass_keep nas true src h hun.head hno
      obtain ⟨w', hloop, hpos', hcase⟩ := ih hinv hun.next (hdone₁.trans hdone)
      refine ⟨w', (loop_succ_next hpass).trans hloop, by omega, ?_⟩
      rcases hcase with ⟨hd, hall, hinv'⟩ | ⟨hd, new, hnew, hinv'⟩
      · refine Or.inl ⟨hd, List.forall_mem_cons.mpr ⟨hno, hall⟩, ?_⟩
        rwa [List.append_cons]
      · refine Or.inr ⟨hd, e :: new, ?_, by rwa [List.append_cons]⟩
        cases hnew with
        | append hno' hname hdata hlen hrtk =>
          exact Rewritten.append (List.forall_mem_cons.mpr ⟨hno, hno'⟩) hname hdata hlen hrtk
        | replace hno' hmatch' hname hdata hlen hrtk =>
          exact Rewritten.replace (List.forall_mem_cons.mpr ⟨hno, hno'⟩) hmatch' hname hdata hlen hrtk

end Walk

/-! ## The result -/

/-- The buffer of `T` bytes holds the archive of `es` and zeros behind it. -/
structure Archived (T : ℕ) (m : Mem) (es : List Entry) : Prop where
  stored : read m 0 (bytes es).length = bytes es
  tail : ∀ k, (bytes es).length ≤ k → k < T → m k = 0

theorem length_bytes_filter (f : Entry → Bool) (es : List Entry) :
    (bytes (es.filter f)).length ≤ (bytes es).length := by
  induction es with
  | nil => exact le_rfl
  | cons e es ih =>
    by_cases hf : f e = true
    · rw [List.filter_cons_of_pos hf, length_bytes_cons, length_bytes_cons]
      omega
    · rw [List.filter_cons_of_neg hf, length_bytes_cons]
      omega

theorem Rewritten.length_le {src : List UInt8} {out : List Entry} (h : Rewritten p src es out) :
    (bytes out).length ≤ (bytes es).length + 512 + blocks src.length := by
  cases h with
  | append _ _ _ hlen _ =>
    rw [bytes_append, bytes_singleton, List.length_append]
    omega
  | @replace l r e e' _ _ _ _ hlen _ =>
    have := length_bytes_filter (fun e => !e.matches p) r
    simp only [bytes_append, bytes_cons, List.length_append]
    omega

section Result

variable {T : ℕ} {m : Mem} {w : Walk} {es out tl : List Entry} {nas : Bool} {p : CStr} {src : List UInt8}

theorem walkInv_start (h : Archived T m es) (hlt : (bytes es).length < T) :
    WalkInv T ⟨memset m T T 0, 0, 0, false⟩ es [] where
  stored := by
    show read (memset m T T 0) 0 _ = _
    rw [read_memset_of_disjoint (Or.inl (by omega)), h.stored]
  room := by
    show 0 + _ < T
    omega
  tail k hk hlt' := by
    have hk' : (bytes es).length ≤ k := by simpa using hk
    exact (memset_apply_of_not (by omega)).trans (h.tail k hk' hlt')
  out_eq := rfl
  tmpPos := rfl
  blank k hk hlt' := by
    have hk' : T ≤ k := hk
    exact memset_apply_mem hk' (by omega)

theorem copyBack_spec (h : WalkInv T w [] out) (hle : (bytes out).length ≤ T) :
    let m := write w.m (T + w.tmpPos) [0]
    let m := memset m 0 w.pos 0
    Archived T (write m 0 (read m T w.tmpPos)) out ∧
      read (write m 0 (read m T w.tmpPos)) T (bytes out).length = bytes out := by
  intro m₁ m
  have hpos : w.pos < T := by simpa [bytes] using h.room
  have htmp : read m T w.tmpPos = bytes out := by
    rw [h.tmpPos, read_memset_of_disjoint (Or.inr (by omega)),
      read_write_of_disjoint (Or.inl (by rw [h.tmpPos])), h.out_eq]
  rw [htmp]
  refine ⟨⟨?_, fun k hk hlt => ?_⟩, ?_⟩
  · exact read_write_self m 0 (bytes out)
  · rw [write_apply_ge (by omega)]
    rcases Nat.lt_or_ge k w.pos with hk' | hk'
    · exact memset_apply_mem (by omega) (by omega)
    · refine (memset_apply_of_not (by omega)).trans ((write_apply_lt (by omega)).trans ?_)
      exact h.tail k (by simpa [bytes] using hk') hlt
  · rw [read_write_of_disjoint (Or.inr (by omega)), ← h.tmpPos, htmp]

theorem fuel_lt (hlt : (bytes es).length < T) : es.length < T / 512 + 1 := by
  have := length_le_bytes es
  omega

/-- Headers behind the archive that a walk drops: with `NAS_ENABLE`, signed ones that have the name of an entry. -/
structure Trailer (nas : Bool) (es tl : List Entry) : Prop where
  nas : tl ≠ [] → nas = true
  rtk : ∀ c ∈ tl, c.isRtk = true
  name : ∀ c ∈ tl, ∃ e ∈ es, e.name = c.name

theorem trailer_nil (nas : Bool) (es : List Entry) : Trailer nas es [] :=
  ⟨fun h => absurd rfl h, fun _ h => absurd h List.not_mem_nil, fun _ h => absurd h List.not_mem_nil⟩

theorem Trailer.matches_false (h : Trailer nas es tl) (hno : ∀ e ∈ es, e.matches p.1 = false)
    {c : Entry} (hc : c ∈ tl) : c.matches p.1 = false := by
  obtain ⟨e, he, hname⟩ := h.name c hc
  rw [Entry.matches, ← hname]
  exact hno e he

theorem Trailer.pos_ne (h : Trailer nas es tl) (hne : tl ≠ []) : (bytes es).length ≠ 0 := by
  obtain ⟨c, hc⟩ := List.exists_mem_of_ne_nil tl hne
  obtain ⟨e, he, -⟩ := h.name c hc
  have := length_le_bytes es
  have := List.length_pos_of_mem he
  omega

theorem Trailer.fuel (hlt : (bytes (es ++ tl)).length < T) :
    ∃ n, T / 512 + 1 = n + es.length ∧ tl.length < n := by
  have hfuel := fuel_lt hlt
  rw [List.length_append] at hfuel
  exact ⟨T / 512 + 1 - es.length, by omega, by omega⟩

variable (nas) in
/-- **Adding a file to an archive** with a trailer. -/
theorem tarAdd_trailer (h : Archived T m (es ++ tl)) (hlt : (bytes (es ++ tl)).length < T)
    (hun : Unsigned nas 0 es) (htl : Trailer nas es tl) (hp : NameOk p) (hsrc : src.length < 2 ^ 31)
    (hroom : (bytes es).length + 512 + blocks src.length ≤ T) :
    ∃ m' out, tarAddOrDelete nas m 0 p.1 src T T true = some (m', (bytes out).length) ∧
      Rewritten p.1 src es out ∧ Archived T m' out ∧ read m' T (bytes out).length = bytes out := by
  obtain ⟨n, hn, hfuel⟩ := Trailer.fuel hlt
  obtain ⟨w₁, hloop₁, hpos₁, hcase⟩ := walk_add nas (walkInv_start h hlt) hun hp hsrc rfl n
  have hpos : tl ≠ [] → w₁.pos ≠ 0 := fun hne => by
    rw [hpos₁]
    simpa using htl.pos_ne hne
  have hfinish : ∃ w out, loop (tarPass nas 0 p.1 src T true) n w₁ = some w ∧ Rewritten p.1 src es out ∧
      WalkInv T (tarAppend p.1 src T true w) [] out := by
    rcases hcase with ⟨hdone₁, hno, hinv₁⟩ | ⟨hdone₁, out, hrew, hinv₁⟩
    · obtain ⟨w, hloop, hinv, hdone⟩ := walk_trailer nas true p src hinv₁ htl.nas htl.rtk hpos
        (fun c hc hm => absurd hm (by simp [htl.matches_false hno hc])) hfuel
      obtain ⟨w', e', happ, hinv', -, hname, hdata, hrtk, hlen⟩ :=
        tarAppend_spec hinv hp hsrc (hdone.trans hdone₁) (by rw [List.nil_append]; omega)
      exact ⟨w, es ++ [e'], hloop, Rewritten.append hno hname hdata hlen hrtk, happ ▸ hinv'⟩
    · obtain ⟨w, hloop, hinv, hdone⟩ := walk_trailer nas true p src hinv₁ htl.nas htl.rtk hpos
        (fun c _ _ => by rw [hdone₁]; rfl) hfuel
      refine ⟨w, out, hloop, hrew, ?_⟩
      unfold tarAppend
      simpa [hdone.trans hdone₁] using hinv
  obtain ⟨w, out, hloop, hrew, hinv⟩ := hfinish
  have hle := hrew.length_le
  have hback := copyBack_spec hinv (by omega)
  refine ⟨_, out, ?_, hrew, hback⟩
  unfold tarAddOrDelete
  simp [hn, hloop₁, hloop, ← hinv.tmpPos]

variable (nas) in
/-- **Adding a file to an archive.** -/
theorem tarAdd_spec (h : Archived T m es) (hlt : (bytes es).length < T) (hun : Unsigned nas 0 es)
    (hp : NameOk p) (hsrc : src.length < 2 ^ 31)
    (hroom : (bytes es).length + 512 + blocks src.length ≤ T) :
    ∃ m' out, tarAddOrDelete nas m 0 p.1 src T T true = some (m', (bytes out).length) ∧
      Rewritten p.1 src es out ∧ Archived T m' out ∧ read m' T (bytes out).length = bytes out := by
  rw [← List.append_nil es] at h hlt
  exact tarAdd_trailer nas h hlt hun (trailer_nil nas es) hp hsrc hroom

variable (nas p) in
/-- **Deleting files from an archive** with a trailer. -/
theorem tarDelete_trailer (h : Archived T m (es ++ tl)) (hlt : (bytes (es ++ tl)).length < T)
    (hun : Unsigned nas 0 es) (htl : Trailer nas es tl) :
    ∃ m', let out := es.filter fun e => !e.matches p.1
      tarAddOrDelete nas m 0 p.1 [] T T false = some (m', (bytes out).length) ∧
      Archived T m' out ∧ read m' T (bytes out).length = bytes out := by
  obtain ⟨n, hn, hfuel⟩ := Trailer.fuel hlt
  obtain ⟨w₁, hloop₁, hinv₁, hdone₁, hpos₁⟩ := walk_drop nas p [] (walkInv_start h hlt) hun
    (show (false && _) = false from rfl) n
  obtain ⟨w, hloop, hinv, hdone⟩ := walk_trailer nas false p [] hinv₁ htl.nas htl.rtk
    (fun hne => by rw [hpos₁]; simpa using htl.pos_ne hne) (fun _ _ _ => rfl) hfuel
  rw [List.nil_append] at hinv
  have hle := length_bytes_filter (fun e => !e.matches p.1) es
  have hes : (bytes es).length ≤ (bytes (es ++ tl)).length := by
    rw [bytes_append, List.length_append]
    exact Nat.le_add_right _ _
  have hback := copyBack_spec hinv (by omega)
  refine ⟨_, ?_, hback⟩
  have happ : tarAppend p.1 [] T false w = w := by
    unfold tarAppend
    rw [Bool.and_false]
    rfl
  unfold tarAddOrDelete
  simp [hn, hloop₁, hloop, happ, ← hinv.tmpPos]

variable (nas p) in
/-- **Deleting files from an archive.** -/
theorem tarDelete_spec (h : Archived T m es) (hlt : (bytes es).length < T) (hun : Unsigned nas 0 es) :
    ∃ m', let out := es.filter fun e => !e.matches p.1
      tarAddOrDelete nas m 0 p.1 [] T T false = some (m', (bytes out).length) ∧
      Archived T m' out ∧ read m' T (bytes out).length = bytes out := by
  rw [← List.append_nil es] at h hlt
  exact tarDelete_trailer nas p h hlt hun (trailer_nil nas es)

end Result

end NasFirmware.Tar
