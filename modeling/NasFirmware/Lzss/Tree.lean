import NasFirmware.Lib.Chain
import NasFirmware.Lzss.Model

/-!
# The search trees are chains

`cmp` is unsigned, so `InsertNode` always goes right: tree `c` is a chain of right sons below
`root c`, its left sons are all `NIL`. `TreeInv b chains` says so: the nodes of tree `c` are
`chains c`, they start with byte `c`, and a ring position outside the trees has `dad = NIL`.
-/

namespace NasFirmware.Lzss

open CLoop Chain Function

def root (c : UInt8) : ℕ := N + 1 + c.toNat

theorem root_inj {c c' : UInt8} (h : root c = root c') : c = c' :=
  UInt8.toNat_inj.mp (by simp only [root] at h; omega)

theorem lt_root (c : UInt8) : N < root c := by
  simp only [root]
  omega

/-- The length of the match that `InsertNode` sees between the strings at `r` and `p`. -/
def keyLen (text : ℕ → UInt8) (r p : ℕ) : ℕ := (compareKey text r p (F - 1) 1 1).1

theorem toUInt16_sub_eq_zero (a b : UInt8) : a.toUInt16 - b.toUInt16 = 0 ↔ a = b := by
  rw [UInt16.sub_eq_iff_eq_add, UInt16.zero_add, UInt8.toUInt16_inj]

/-- The comparison loop from index `i` with `n` indices left stops at the first difference. -/
theorem compareKey_spec (text : ℕ → UInt8) (r p n i : ℕ) (cmp : UInt16) :
    i ≤ (compareKey text r p n i cmp).1 ∧ (compareKey text r p n i cmp).1 ≤ i + n ∧
      (∀ k, i ≤ k → k < (compareKey text r p n i cmp).1 → text (r + k) = text (p + k)) ∧
      ((compareKey text r p n i cmp).1 < i + n →
        text (r + (compareKey text r p n i cmp).1) ≠ text (p + (compareKey text r p n i cmp).1)) := by
  induction n generalizing i cmp with
  | zero => simp only [compareKey]; exact ⟨le_refl _, by omega, by omega, by omega⟩
  | succ n ih =>
    simp only [compareKey, ne_eq, ite_not, toUInt16_sub_eq_zero]
    split_ifs with h
    · obtain ⟨h1, h2, h3, h4⟩ := ih (i + 1) ((text (r + i)).toUInt16 - (text (p + i)).toUInt16)
      refine ⟨by omega, by omega, fun k hk hlt => ?_, fun hlt => h4 (by omega)⟩
      rcases Nat.eq_or_lt_of_le hk with rfl | hk
      · exact h
      · exact h3 k hk hlt
    · exact ⟨le_refl _, by omega, by omega, fun _ => h⟩

theorem keyLen_le (text : ℕ → UInt8) (r p : ℕ) : keyLen text r p ≤ F :=
  (compareKey_spec text r p (F - 1) 1 1).2.1

variable {text : ℕ → UInt8} {r pos len q : ℕ} {seen : List ℕ} {chains : UInt8 → List ℕ} {p : ℕ}

theorem keyLen_agree {p k : ℕ} (h0 : text r = text p)
    (hk : k < keyLen text r p) : text (r + k) = text (p + k) := by
  rcases Nat.eq_zero_or_pos k with rfl | hpos
  · exact h0
  · exact (compareKey_spec text r p (F - 1) 1 1).2.2.1 k hpos hk

/-! ## The invariant -/

/-- The nodes of tree `c` are the chain `chains c`; a position outside the trees is free. -/
structure TreeInv (b : LzssBuffer) (chains : UInt8 → List ℕ) : Prop where
  linked : ∀ c, Linked b.rson b.dad NIL (root c) (chains c)
  nodup : ∀ c, (chains c).Nodup
  lt : ∀ {c p}, p ∈ chains c → p < N
  byte : ∀ {c p}, p ∈ chains c → b.textBuf p = c
  lson : ∀ {c p}, p ∈ chains c → b.lson p = NIL
  free : ∀ {p}, p < N → (∀ c, p ∉ chains c) → b.dad p = NIL

def setChain (chains : UInt8 → List ℕ) (c : UInt8) (l : List ℕ) : UInt8 → List ℕ :=
  update chains c l

section Invariant

variable {b b' : LzssBuffer} {c : UInt8}

variable (h : TreeInv b chains)

include h

theorem TreeInv.root_notMem (c c' : UInt8) : root c' ∉ chains c := by
  intro hm
  have := h.lt hm
  have := lt_root c'
  omega

theorem TreeInv.nil_notMem (c : UInt8) : NIL ∉ chains c := by
  intro hm
  have := h.lt hm
  simp only [NIL] at this
  omega

theorem TreeInv.nodup_root (c : UInt8) : (root c :: chains c).Nodup :=
  List.nodup_cons.mpr ⟨h.root_notMem c c, h.nodup c⟩

theorem TreeInv.nil_notMem_root (c : UInt8) : NIL ∉ root c :: chains c := by
  rw [List.mem_cons, not_or]
  exact ⟨(lt_root c).ne, h.nil_notMem c⟩

theorem TreeInv.length_le (c : UInt8) : (chains c).length ≤ N := by
  have hsub : (chains c).toFinset ⊆ Finset.range N := by
    intro p hp
    exact Finset.mem_range.mpr (h.lt (List.mem_toFinset.mp hp))
  have := Finset.card_le_card hsub
  rwa [List.toFinset_card_of_nodup (h.nodup c), Finset.card_range] at this

/-- **A change confined to tree `c` keeps the invariant.** -/
theorem TreeInv.setChain (l : List ℕ) (htext : b'.textBuf = b.textBuf)
    (hl : Linked b'.rson b'.dad NIL (root c) l) (hnd : l.Nodup)
    (hnode : ∀ p ∈ l, p < N ∧ b.textBuf p = c ∧ b'.lson p = NIL)
    (hframe : ∀ x, x ≠ NIL → x ∉ root c :: chains c → x ∉ l →
      b'.rson x = b.rson x ∧ b'.dad x = b.dad x ∧ b'.lson x = b.lson x)
    (hfree : ∀ x ∈ chains c, x ∉ l → b'.dad x = NIL) :
    TreeInv b' (setChain chains c l) := by
  -- nodes and root of another tree are outside tree `c`
  have hout : ∀ {c' x}, c' ≠ c → x ∈ root c' :: chains c' →
      x ≠ NIL ∧ x ∉ root c :: chains c ∧ x ∉ l := by
    intro c' x hc hx
    refine ⟨fun he => h.nil_notMem_root c' (he ▸ hx), ?_, ?_⟩
    · rcases List.mem_cons.mp hx with rfl | hx
      · rw [List.mem_cons, not_or]
        exact ⟨fun he => hc (root_inj he), h.root_notMem c c'⟩
      · rw [List.mem_cons, not_or]
        refine ⟨fun he => h.root_notMem c' c (he ▸ hx), fun hm => hc ?_⟩
        rw [← h.byte hx, h.byte hm]
    · intro hm
      obtain ⟨hlt, htx, -⟩ := hnode x hm
      rcases List.mem_cons.mp hx with rfl | hx
      · have := lt_root c'
        omega
      · exact hc (by rw [← h.byte hx, htx])
  constructor
  · intro c'
    by_cases hc : c' = c
    · subst hc
      simpa only [Lzss.setChain, update_self] using hl
    · rw [Lzss.setChain, update_of_ne hc]
      refine (h.linked c').congr (fun x hx => ?_) (fun x hx => ?_)
      · obtain ⟨h1, h2, h3⟩ := hout hc hx
        exact (hframe x h1 h2 h3).1
      · obtain ⟨h1, h2, h3⟩ := hout hc (List.mem_cons_of_mem _ hx)
        exact (hframe x h1 h2 h3).2.1
  · intro c'
    by_cases hc : c' = c
    · subst hc
      simpa only [Lzss.setChain, update_self] using hnd
    · rw [Lzss.setChain, update_of_ne hc]
      exact h.nodup c'
  · intro c' x hx
    by_cases hc : c' = c
    · subst hc
      rw [Lzss.setChain, update_self] at hx
      exact (hnode x hx).1
    · rw [Lzss.setChain, update_of_ne hc] at hx
      exact h.lt hx
  · intro c' x hx
    rw [htext]
    by_cases hc : c' = c
    · subst hc
      rw [Lzss.setChain, update_self] at hx
      exact (hnode x hx).2.1
    · rw [Lzss.setChain, update_of_ne hc] at hx
      exact h.byte hx
  · intro c' x hx
    by_cases hc : c' = c
    · subst hc
      rw [Lzss.setChain, update_self] at hx
      exact (hnode x hx).2.2
    · rw [Lzss.setChain, update_of_ne hc] at hx
      obtain ⟨h1, h2, h3⟩ := hout hc (List.mem_cons_of_mem _ hx)
      rw [(hframe x h1 h2 h3).2.2, h.lson hx]
  · intro x hx hno
    have hxl : x ∉ l := by simpa only [Lzss.setChain, update_self] using hno c
    by_cases hxc : x ∈ chains c
    · exact hfree x hxc hxl
    · have hxr : x ∉ root c :: chains c := by
        rw [List.mem_cons, not_or]
        refine ⟨?_, hxc⟩
        have := lt_root c
        omega
      rw [(hframe x (by simp only [NIL]; omega) hxr hxl).2.1]
      refine h.free hx fun c' => ?_
      by_cases hc : c' = c
      · exact hc ▸ hxc
      · simpa only [Lzss.setChain, update_of_ne hc] using hno c'

theorem TreeInv.setText (text : ℕ → UInt8)
    (ht : ∀ c, ∀ p ∈ chains c, text p = b.textBuf p) :
    TreeInv { b with textBuf := text } chains where
  linked := h.linked
  nodup := h.nodup
  lt := h.lt
  byte := fun {c p} hp => (ht c p hp).trans (h.byte hp)
  lson := h.lson
  free := h.free

theorem TreeInv.clearSons (hr : r < N) (hfree : ∀ c, r ∉ chains c) (ml : ℕ) :
    TreeInv { b with
      lson := update b.lson r NIL, rson := update b.rson r NIL, matchLength := ml } chains where
  linked := fun c => (h.linked c).congr
    (fun x hx => update_of_ne (by
      rintro rfl
      rcases List.mem_cons.mp hx with he | hx
      · have := lt_root c
        omega
      · exact hfree c hx) ..) (fun _ _ => rfl)
  nodup := h.nodup
  lt := h.lt
  byte := h.byte
  lson := fun {c p} hp => by
    have hpr : p ≠ r := fun he => hfree c (he ▸ hp)
    simp [update_of_ne hpr, h.lson hp]
  free := h.free

end Invariant

/-! ## Inserting a node -/

/-- The match `(pos, len)` is the longest one among the nodes `seen`. -/
structure Best (text : ℕ → UInt8) (r : ℕ) (seen : List ℕ) (pos len : ℕ) : Prop where
  sound : len = 0 ∨ pos ∈ seen ∧ len = keyLen text r pos
  longest : ∀ q ∈ seen, keyLen text r q ≤ len

theorem Best.snoc_gt (h : Best text r seen pos len) (hq : len < keyLen text r q) :
    Best text r (seen ++ [q]) q (keyLen text r q) where
  sound := Or.inr ⟨by simp, rfl⟩
  longest := by
    intro x hx
    rcases List.mem_append.mp hx with hx | hx
    · exact (h.longest x hx).trans hq.le
    · rw [List.mem_singleton.mp hx]

theorem Best.snoc_le (h : Best text r seen pos len) (hq : keyLen text r q ≤ len) :
    Best text r (seen ++ [q]) pos len where
  sound := h.sound.imp id fun ⟨hm, he⟩ => ⟨List.mem_append_left _ hm, he⟩
  longest := by
    intro x hx
    rcases List.mem_append.mp hx with hx | hx
    · exact h.longest x hx
    · rwa [List.mem_singleton.mp hx]

def LzssBuffer.setMatch (b : LzssBuffer) (pos len : ℕ) : LzssBuffer :=
  { b with matchPosition := pos, matchLength := len }

/-- Hang node `r` below `d`, on the right. -/
def LzssBuffer.hang (b : LzssBuffer) (d r : ℕ) : LzssBuffer :=
  { b with rson := update b.rson d r, dad := update b.dad r d }

section Insert

variable {b : LzssBuffer} {l : List ℕ} {q : ℕ}

theorem insertCompare_eq (r : ℕ) (b : LzssBuffer) (pos len q : ℕ) :
    insertCompare r (b.setMatch pos len) q =
      if keyLen b.textBuf r q > len then
        if keyLen b.textBuf r q ≥ F then
          .done (replaceNode (b.setMatch q (keyLen b.textBuf r q)) q r)
        else .next ⟨b.setMatch q (keyLen b.textBuf r q), q, (compareKey b.textBuf r q (F - 1) 1 1).2⟩
      else .next ⟨b.setMatch pos len, q, (compareKey b.textBuf r q (F - 1) 1 1).2⟩ := rfl

/-- `cmp >= 0` holds of every unsigned short: the loop only looks at right sons. -/
theorem insertPass_eq (r : ℕ) (t : InsertState) :
    insertPass r t = some (if t.buf.rson t.p ≠ NIL then insertCompare r t.buf (t.buf.rson t.p)
      else .done (t.buf.hang t.p r)) := by
  have hcmp : t.cmp ≥ 0 := UInt16.zero_le
  simp only [insertPass, hcmp, if_true, LzssBuffer.hang]
  split_ifs <;> rfl

/-- How the loop of `InsertNode` ends on a chain `l` below `a`: with `r` at the end, or in the place of a node with
the same `F` bytes. -/
inductive InsertEnd (b : LzssBuffer) (r a : ℕ) (l : List ℕ) : LzssBuffer → Prop where
  | hang (d pos len : ℕ) (hd : d ∈ a :: l) (hnil : b.rson d = NIL)
      (best : Best b.textBuf r l pos len) : InsertEnd b r a l ((b.setMatch pos len).hang d r)
  | replace (q : ℕ) (hq : q ∈ l) (full : keyLen b.textBuf r q = F) :
      InsertEnd b r a l (replaceNode (b.setMatch q F) q r)

/-- The invariant of the loop of `InsertNode`: `k` nodes are still below the one it stands on. -/
def InsertInv (b : LzssBuffer) (r a : ℕ) (l : List ℕ) (k : ℕ) (t : InsertState) : Prop :=
  ∃ l₁ l₂ pos len, l = l₁ ++ l₂ ∧ k = l₂.length ∧ t.buf = b.setMatch pos len ∧ t.p ∈ a :: l₁ ∧
    Linked b.rson b.dad NIL t.p l₂ ∧ Best b.textBuf r l₁ pos len

theorem insertPass_step {a : ℕ} (hnil : NIL ∉ l) (k : ℕ) (t : InsertState)
    (h : InsertInv b r a l k t) :
    (∃ k' t', insertPass r t = some (.next t') ∧ InsertInv b r a l k' t' ∧ k' < k) ∨
      ∃ b', insertPass r t = some (.done b') ∧ InsertEnd b r a l b' := by
  obtain ⟨l₁, l₂, pos, len, rfl, rfl, hb, hp, hlink, hbest⟩ := h
  rw [insertPass_eq, hb]
  cases l₂ with
  | nil =>
    have hend : b.rson t.p = NIL := hlink
    refine Or.inr ⟨_, by simp [LzssBuffer.setMatch, hend], .hang t.p pos len ?_ hend ?_⟩
    · simpa using hp
    · simpa using hbest
  | cons q l₃ =>
    obtain ⟨hq, -, hrest⟩ := hlink
    have hqn : q ≠ NIL := by
      rintro rfl
      simp at hnil
    have hson : (b.setMatch pos len).rson t.p = q := hq
    rw [hson, if_pos hqn, insertCompare_eq]
    by_cases h1 : keyLen b.textBuf r q > len
    · rw [if_pos h1]
      by_cases h2 : keyLen b.textBuf r q ≥ F
      · have hF : keyLen b.textBuf r q = F := le_antisymm (keyLen_le ..) h2
        rw [if_pos h2, hF]
        exact Or.inr ⟨_, rfl, .replace q (by simp) hF⟩
      · rw [if_neg h2]
        exact Or.inl ⟨l₃.length, _, rfl,
          ⟨l₁ ++ [q], l₃, q, _, by simp, rfl, rfl, by simp, hrest, hbest.snoc_gt h1⟩, by simp⟩
    · rw [if_neg h1]
      exact Or.inl ⟨l₃.length, _, rfl,
        ⟨l₁ ++ [q], l₃, pos, len, by simp, rfl, rfl, by simp, hrest,
          hbest.snoc_le (not_lt.mp h1)⟩, by simp⟩

/-- The loop of `InsertNode` stops, within the bound, in one of its two ways. -/
theorem insertNode_ends (h : TreeInv b chains) (hr : r < N) (hfree : ∀ c, r ∉ chains c) :
    ∃ b', insertNode b r = some b' ∧
      InsertEnd { b with
        lson := update b.lson r NIL, rson := update b.rson r NIL, matchLength := 0 }
        r (root (b.textBuf r)) (chains (b.textBuf r)) b' := by
  have h' := h.clearSons hr hfree 0
  have hlen := h.length_le (b.textBuf r)
  refine loop_of_variant _ _ (insertPass_step (h.nil_notMem _))
    (k := (chains (b.textBuf r)).length) ?_ (by omega)
  exact ⟨[], _, b.matchPosition, 0, rfl, rfl, rfl, by simp [root], h'.linked _,
    ⟨Or.inl rfl, by simp⟩⟩

/-- The links after `r` took the place of `q`, a node without a left son. -/
theorem replaceNode_eq (hqr : q ≠ r) (hqn : q ≠ NIL) (hl : b.lson q = NIL)
    (hrs : b.rson q ≠ q) (hdr : b.dad q ≠ r) (hdq : b.rson (b.dad q) = q) :
    replaceNode b q r = { b with
      dad := update (update (update (update b.dad r (b.dad q)) NIL r) (b.rson q) r) q NIL
      lson := update b.lson r NIL
      rson := update (update b.rson r (b.rson q)) (b.dad q) r } := by
  simp [replaceNode, update_of_ne hqr, hl, update_of_ne hqn, update_of_ne hrs.symm, update_of_ne hdr, hdq]

/-- What `insertNode` leaves: the position in its tree, and the longest match among the nodes that were there. -/
structure Inserted (b : LzssBuffer) (chains : UInt8 → List ℕ) (r : ℕ) (b' : LzssBuffer)
    (chains' : UInt8 → List ℕ) : Prop where
  inv : TreeInv b' chains'
  textBuf : b'.textBuf = b.textBuf
  mem : r ∈ chains' (b.textBuf r)
  sub : ∀ {c p}, p ∈ chains' c → p = r ∨ p ∈ chains c
  best : Best b.textBuf r (chains (b.textBuf r)) b'.matchPosition b'.matchLength

theorem mem_setChain_sub {c : UInt8} (hl : ∀ p ∈ l, p = r ∨ p ∈ chains c) {c' : UInt8}
    {p : ℕ} (hp : p ∈ setChain chains c l c') : p = r ∨ p ∈ chains c' := by
  by_cases hc : c' = c
  · subst hc
    rw [setChain, update_self] at hp
    exact hl p hp
  · rw [setChain, update_of_ne hc] at hp
    exact Or.inr hp

theorem inserted_hang (h : TreeInv b chains) (hr : r < N) (hfree : ∀ c, r ∉ chains c)
    (hrs : b.rson r = NIL) (hls : b.lson r = NIL) {d pos len : ℕ}
    (hd : d ∈ root (b.textBuf r) :: chains (b.textBuf r)) (hnil : b.rson d = NIL)
    (best : Best b.textBuf r (chains (b.textBuf r)) pos len) :
    Inserted b chains r ((b.setMatch pos len).hang d r)
      (setChain chains (b.textBuf r) (chains (b.textBuf r) ++ [r])) := by
  set c := b.textBuf r with hc
  have hrc : r ∉ root c :: chains c := by
    rw [List.mem_cons, not_or]
    have := lt_root c
    exact ⟨by omega, hfree c⟩
  refine ⟨h.setChain _ rfl ?_ ?_ ?_ ?_ ?_, rfl, ?_, ?_, best⟩
  · exact (h.linked c).snoc hd hnil (h.nil_notMem c) (h.nodup_root c) hrc hrs
  · exact (List.nodup_cons.mpr ⟨hfree c, h.nodup c⟩).perm (List.perm_append_singleton _ _).symm
  · intro p hp
    rcases List.mem_append.mp hp with hp | hp
    · exact ⟨h.lt hp, h.byte hp, h.lson hp⟩
    · rw [List.mem_singleton.mp hp]
      exact ⟨hr, rfl, hls⟩
  · intro x _ hx hxl
    have hxd : x ≠ d := fun he => hx (he ▸ hd)
    have hxr : x ≠ r := fun he => hxl (by simp [he])
    exact ⟨update_of_ne hxd .., update_of_ne hxr .., rfl⟩
  · intro x hx hxl
    exact absurd (List.mem_append_left _ hx) hxl
  · rw [setChain, ← hc, update_self]
    simp
  · refine mem_setChain_sub fun p hp => ?_
    rcases List.mem_append.mp hp with hp | hp
    · exact Or.inr hp
    · exact Or.inl (List.mem_singleton.mp hp)

theorem inserted_replace (h : TreeInv b chains) (hr : r < N) (hfree : ∀ c, r ∉ chains c)
    (hq : q ∈ chains (b.textBuf r)) (full : keyLen b.textBuf r q = F) :
    ∃ chains', Inserted b chains r (replaceNode (b.setMatch q F) q r) chains' := by
  set c := b.textBuf r with hc
  obtain ⟨l₁, l₂, hl⟩ := List.append_of_mem hq
  have hnd := h.nodup_root c
  have hnil := h.nil_notMem_root c
  have hlink := h.linked c
  have hqr : q ≠ r := fun he => hfree c (he ▸ hq)
  have hqn : q ≠ NIL := fun he => h.nil_notMem c (he ▸ hq)
  have hrn : r ≠ NIL := hr.ne
  have hrc : r ∉ root c :: chains c := by
    rw [List.mem_cons, not_or]
    have := lt_root c
    exact ⟨by omega, hfree c⟩
  have hdad := hlink.prev_mem hq
  have hson := hlink.next_mem (List.mem_cons_of_mem _ hq)
  have hqs : b.rson q ≠ q := hlink.next_ne hnd hnil (List.mem_cons_of_mem _ hq)
  have hdr : b.dad q ≠ r := fun he => hrc (he ▸ hdad)
  have hmem : ∀ x ∈ l₁ ++ r :: l₂, x = r ∨ x ∈ chains c ∧ x ≠ q := by
    intro x hx
    grind
  refine ⟨setChain chains c (l₁ ++ r :: l₂), ?_⟩
  rw [replaceNode_eq (b := b.setMatch q F) hqr hqn (h.lson hq) hqs hdr (hlink.next_prev hq)]
  rw [hl] at hlink hnd hrc hnil
  refine ⟨h.setChain _ rfl ?_ ?_ ?_ ?_ ?_, rfl, ?_, ?_, ?_⟩
  · have hnil₁ : NIL ∉ l₁ := fun hm => hnil (by simp [hm])
    refine (hlink.replace (x := NIL) hnil₁ hnd hrc hrn).congr (fun _ _ => rfl) fun x hx => ?_
    -- the extra store through the absent left son goes to index `NIL`
    have hxn : x ≠ NIL := by
      rintro rfl
      rcases hmem _ hx with he | ⟨hm, -⟩
      · exact hrn he.symm
      · exact h.nil_notMem c hm
    simp [LzssBuffer.setMatch, update_apply, hxn]
  · have hr' : r ∉ l₁ ++ l₂ := fun hm => hrc (by simp at hm ⊢; tauto)
    have hnd' : (l₁ ++ l₂).Nodup := (List.nodup_cons.mp (List.perm_middle.nodup_iff.mp
      (List.nodup_cons.mp hnd).2)).2
    exact List.perm_middle.nodup_iff.mpr (List.nodup_cons.mpr ⟨hr', hnd'⟩)
  · intro p hp
    rcases hmem p hp with rfl | ⟨hm, -⟩
    · exact ⟨hr, rfl, update_self ..⟩
    · have hpr : p ≠ r := fun he => hfree c (he ▸ hm)
      exact ⟨h.lt hm, h.byte hm, (update_of_ne hpr ..).trans (h.lson hm)⟩
  · intro x hxn hx hxl
    have hxr : x ≠ r := fun he => hxl (by simp [he])
    have hxq : x ≠ q := fun he => hx (List.mem_cons_of_mem _ (he ▸ hq))
    have hxd : x ≠ b.dad q := fun he => hx (he ▸ hdad)
    have hxs : x ≠ b.rson q := by
      rcases hson with hs | hs
      · rwa [hs]
      · exact fun he => hx (List.mem_cons_of_mem _ (he ▸ hs))
    simp [LzssBuffer.setMatch, hxr, hxq, hxd, hxs, hxn]
  · intro x hx hxl
    obtain rfl : x = q := by
      grind
    exact update_self ..
  · rw [setChain, ← hc, update_self]
    simp
  · exact mem_setChain_sub fun p hp => (hmem p hp).imp id And.left
  · exact ⟨Or.inr ⟨hq, full.symm⟩, fun x _ => keyLen_le ..⟩

/-- **Inserting a free position** keeps the trees and reports the longest match among the nodes of its tree. -/
theorem insertNode_spec (h : TreeInv b chains) (hr : r < N) (hfree : ∀ c, r ∉ chains c) :
    ∃ b' chains', insertNode b r = some b' ∧ Inserted b chains r b' chains' := by
  obtain ⟨b', hb', hend⟩ := insertNode_ends h hr hfree
  have h' := h.clearSons hr hfree 0
  have key : ∃ chains', Inserted { b with
      lson := update b.lson r NIL, rson := update b.rson r NIL, matchLength := 0 } chains r b'
      chains' := by
    cases hend with
    | hang d pos len hd hnil best =>
      exact ⟨_, inserted_hang h' hr hfree (update_self ..) (update_self ..) hd hnil best⟩
    | replace q hq full => exact inserted_replace h' hr hfree hq full
  obtain ⟨chains', hins⟩ := key
  exact ⟨b', chains', hb', hins.inv, hins.textBuf, hins.mem, hins.sub, hins.best⟩

end Insert

section Delete

variable {b : LzssBuffer}

theorem unlinkNode_eq (hs : b.rson p ≠ p) (hd : b.rson (b.dad p) = p) :
    unlinkNode b p (b.rson p) = { b with
      dad := update (update b.dad (b.rson p) (b.dad p)) p NIL
      rson := update b.rson (b.dad p) (b.rson p) } := by
  simp [unlinkNode, update_of_ne hs.symm, hd]

/-- A node without a left son is replaced by its right son. -/
theorem deleteNode_eq (hd : b.dad p ≠ NIL) (hl : b.lson p = NIL) :
    deleteNode b p = some (unlinkNode b p (b.rson p)) := by
  simp only [deleteNode, hd, if_false, hl, if_true]
  split_ifs with hr
  · rw [hr]
  · rfl

/-- **Deleting a position** keeps the trees and the match, and takes exactly this position out of its tree. -/
theorem deleteNode_spec (h : TreeInv b chains) (hp : p < N) :
    ∃ b' chains', deleteNode b p = some b' ∧ TreeInv b' chains' ∧ b'.textBuf = b.textBuf ∧
      b'.matchPosition = b.matchPosition ∧ b'.matchLength = b.matchLength ∧
      ∀ {c x}, x ∈ chains' c ↔ x ∈ chains c ∧ x ≠ p := by
  by_cases hlive : ∃ c, p ∈ chains c
  · obtain ⟨c, hpc⟩ := hlive
    obtain ⟨l₁, l₂, hl⟩ := List.append_of_mem hpc
    have hnd := h.nodup_root c
    have hnil := h.nil_notMem_root c
    have hlink := h.linked c
    have hdad := hlink.prev_mem hpc
    have hson := hlink.next_mem (List.mem_cons_of_mem _ hpc)
    have hps : b.rson p ≠ p := hlink.next_ne hnd hnil (List.mem_cons_of_mem _ hpc)
    have hmem : ∀ x, x ∈ l₁ ++ l₂ ↔ x ∈ chains c ∧ x ≠ p := by
      intro x
      grind
    refine ⟨_, setChain chains c (l₁ ++ l₂), deleteNode_eq (fun he => hnil (he ▸ hdad)) (h.lson hpc),
      ?_, ?_⟩
    · rw [unlinkNode_eq hps (hlink.next_prev hpc)]
      refine h.setChain _ rfl ?_ ?_ ?_ ?_ ?_
      · rw [hl] at hlink hnd hnil
        exact hlink.erase (fun hm => hnil (by simp [hm])) hnd
      · exact (List.nodup_cons.mp (List.perm_middle.nodup_iff.mp (hl ▸ h.nodup c))).2
      · intro x hx
        have hxc := ((hmem x).mp hx).1
        exact ⟨h.lt hxc, h.byte hxc, h.lson hxc⟩
      · intro x hxn hx _
        have hxp : x ≠ p := fun he => hx (List.mem_cons_of_mem _ (he ▸ hpc))
        have hxd : x ≠ b.dad p := fun he => hx (he ▸ hdad)
        have hxs : x ≠ b.rson p := by
          rcases hson with hs | hs
          · rwa [hs]
          · exact fun he => hx (List.mem_cons_of_mem _ (he ▸ hs))
        simp [hxp, hxd, hxs]
      · intro x hx hxl
        obtain rfl : x = p := by
          by_contra hne
          exact hxl ((hmem x).mpr ⟨hx, hne⟩)
        exact update_self ..
    · rw [unlinkNode_eq hps (hlink.next_prev hpc)]
      refine ⟨rfl, rfl, rfl, fun {c' x} => ?_⟩
      by_cases hc : c' = c
      · subst hc
        rw [setChain, update_self]
        exact hmem x
      · rw [setChain, update_of_ne hc]
        refine ⟨fun hx => ⟨hx, fun he => hc ?_⟩, And.left⟩
        rw [← h.byte hx, he, h.byte hpc]
  · have hno : ∀ c, p ∉ chains c := fun c hc => hlive ⟨c, hc⟩
    refine ⟨b, chains, by simp [deleteNode, h.free hp hno], h, rfl, rfl, rfl, fun {c x} => ?_⟩
    exact ⟨fun hx => ⟨hx, fun he => hno c (he ▸ hx)⟩, And.left⟩

end Delete

end NasFirmware.Lzss
