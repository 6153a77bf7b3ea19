import NasFirmware.Lzss.Decoder
import NasFirmware.Lzss.Tree

/-!
# The encoder describes its input

`Encode` sees the input as the stream `stream x`: `N - F` blanks and then `x`. At index `q` of the
stream its ring holds the last `N` bytes before the end of the lookahead `q + len`, the first bytes
of the ring once more behind it, and the trees hold the last `N - F` strings.

* **`encode_groups`**: `Encode` returns the bytes of groups of units that describe its input.
-/

namespace NasFirmware.Lzss

open CLoop Function Window

/-- What `Encode` sees: blanks, then its input. -/
def stream (x : List UInt8) (k : ℕ) : UInt8 :=
  if k < N - F then 32 else x.getD (k - (N - F)) 0

variable {x : List UInt8} {k q : ℕ} {chains : UInt8 → List ℕ} {e : EncState} {groups : List (List (CodeUnit UInt8))} {g : List (CodeUnit UInt8)}

theorem stream_lt (hk : k < N - F) : stream x k = 32 :=
  if_pos hk

theorem stream_ge (hk : N - F ≤ k) : stream x k = x.getD (k - (N - F)) 0 :=
  if_neg (by omega)

/-- The ring holds the stream up to `hi`, and its first `F - 1` cells are repeated behind it. -/
structure TextInv (x : List UInt8) (text : ℕ → UInt8) (hi : ℕ) : Prop where
  ring : Holds N (stream x) text hi
  mirror : ∀ k, k < hi → hi ≤ k + N → N ≤ k → k % N < F - 1 → text (k % N + N) = stream x k

section Text

variable {text : ℕ → UInt8} {hi : ℕ}

theorem TextInv.read (h : TextInv x text hi) {j i : ℕ} (hiF : i < F) (hlt : j + i < hi)
    (hW : hi ≤ j + N) : text (j % N + i) = stream x (j + i) := by
  have hmod : (j + i) % N = (j % N + i) % N := (Nat.mod_add_mod j N i).symm
  have hj : j % N < N := Nat.mod_lt _ (by decide)
  rcases Nat.lt_or_ge (j % N + i) N with hlow | hhigh
  · rw [← h.ring (j + i) hlt (by omega), hmod, Nat.mod_eq_of_lt hlow]
  · have hk : (j + i) % N = j % N + i - N := by
      simp only [N, F] at *
      omega
    have hjle : j % N ≤ j := Nat.mod_le j N
    rw [← h.mirror (j + i) hlt (by omega) (by omega) (by omega), hk,
      show j % N + i - N + N = j % N + i by omega]

theorem TextInv.push (h : TextInv x text hi) :
    TextInv x (if hi % N < F - 1 then
        update (update text (hi % N) (stream x hi)) (hi % N + N) (stream x hi)
      else update text (hi % N) (stream x hi)) (hi + 1) := by
  have hlt : ∀ k, k % N < N := fun k => Nat.mod_lt _ (by decide)
  constructor
  · intro k hk hW
    rw [← h.ring.push k hk hW]
    split_ifs with hs
    · exact update_of_ne (by have := hlt k; omega) ..
    · rfl
  · intro k hk hW hN hm
    have hh := hlt hi
    rcases Nat.lt_succ_iff_lt_or_eq.mp hk with hlt' | rfl
    · have hne : k % N ≠ hi % N := mod_ne_mod hlt' (by omega)
      rw [← h.mirror k hlt' (by omega) hN hm]
      split_ifs with hs
      · rw [update_of_ne (by omega), update_of_ne (by omega)]
      · rw [update_of_ne (by omega)]
    · rw [if_pos hm, update_self]

end Text

/-! ## The state between two bytes -/

/-- The match found for the string at `q` is an earlier string of the stream. -/
def MatchOk (x : List UInt8) (b : LzssBuffer) (q len : ℕ) : Prop :=
  b.matchLength = 0 ∨ ∃ j, b.matchPosition = j % N ∧ j < q ∧ q + F ≤ j + N ∧ b.matchLength ≤ F ∧
    ∀ k < b.matchLength, k < len → stream x (j + k) = stream x (q + k)

/-- The nodes of the trees are strings from the last `N - F` indices before `q`. -/
def Live (chains : UInt8 → List ℕ) (q : ℕ) : Prop :=
  ∀ c p, p ∈ chains c → ∃ j, p = j % N ∧ j < q ∧ q + F ≤ j + N + 1

/-- `Encode` is at index `q` of the stream. -/
structure EncInv (x : List UInt8) (e : EncState) (q : ℕ) (chains : UInt8 → List ℕ) : Prop where
  le : N - F ≤ q
  r : e.r = q % N
  s : e.s = (q + F) % N
  pos : q + e.len = N - F + e.ulPos
  ulPos_le : e.ulPos ≤ x.length
  len_le : e.len ≤ F
  len_eq : e.ulPos < x.length → e.len = F
  text : TextInv x e.buf.textBuf (q + e.len)
  tree : TreeInv e.buf chains
  live : Live chains (q + 1)

theorem insertNode_live {b : LzssBuffer} {len : ℕ}
    (htree : TreeInv b chains) (htext : TextInv x b.textBuf (q + len)) (hlen : len ≤ F)
    (hlive : ∀ c p, p ∈ chains c → ∃ j, p = j % N ∧ j < q ∧ q + F ≤ j + N) :
    ∃ b' chains', insertNode b (q % N) = some b' ∧ TreeInv b' chains' ∧ b'.textBuf = b.textBuf ∧
      Live chains' (q + 1) ∧ MatchOk x b' q len := by
  have hfree : ∀ c, q % N ∉ chains c := by
    intro c hm
    obtain ⟨j, hj, hlt, hW⟩ := hlive c _ hm
    exact mod_ne_mod hlt (by simp only [F] at hW; omega) hj.symm
  obtain ⟨b', chains', hb', hins⟩ := insertNode_spec htree (Nat.mod_lt _ (by decide)) hfree
  refine ⟨b', chains', hb', hins.inv, hins.textBuf, ?_, ?_⟩
  · intro c p hp
    rcases hins.sub hp with rfl | hp
    · exact ⟨q, rfl, by omega, by simp only [F, N]; omega⟩
    · obtain ⟨j, hj, hlt, hW⟩ := hlive c p hp
      exact ⟨j, hj, by omega, by omega⟩
  · rcases hins.best.sound with h0 | ⟨hm, hlenEq⟩
    · exact Or.inl h0
    · obtain ⟨j, hj, hlt, hW⟩ := hlive _ _ hm
      have hF : b'.matchLength ≤ F := hlenEq ▸ keyLen_le ..
      refine Or.inr ⟨j, hj, hlt, hW, hF, fun k hk hkl => ?_⟩
      have hagree := keyLen_agree (htree.byte hm).symm (hlenEq ▸ hk)
      rw [hj, htext.read (by omega) (by omega) (by simp only [N, F] at *; omega),
        htext.read (by omega) (by omega) (by omega)] at hagree
      exact hagree.symm

/-- The part of the state that holds the code written so far. -/
def EncState.code (e : EncState) : (ℕ → UInt8) × ℕ × UInt8 × List UInt8 :=
  (e.codeBuf, e.codeBufPtr, e.mask, e.out)

variable (h : EncInv x e q chains)

include h

theorem deleteNode_live :
    ∃ b' chains', deleteNode e.buf e.s = some b' ∧ TreeInv b' chains' ∧
      b'.textBuf = e.buf.textBuf ∧ (∀ c, e.s ∉ chains' c) ∧
      ∀ c p, p ∈ chains' c → ∃ j, p = j % N ∧ j < q + 1 ∧ q + 1 + F ≤ j + N := by
  have hs : e.s < N := h.s ▸ Nat.mod_lt _ (by decide)
  obtain ⟨b', chains', hb', hinv, htext, -, -, hmem⟩ := deleteNode_spec h.tree hs
  refine ⟨b', chains', hb', hinv, htext, fun c hc => (hmem.mp hc).2 rfl, fun c p hp => ?_⟩
  obtain ⟨hp, hne⟩ := hmem.mp hp
  obtain ⟨j, rfl, hlt, hW⟩ := h.live c p hp
  refine ⟨j, rfl, hlt, ?_⟩
  have hjne : j + N ≠ q + F := by
    intro he
    rw [h.s, ← he, Nat.add_mod_right] at hne
    exact hne rfl
  omega

/-- **One byte further, with input left.** -/
theorem readByte_spec {c : UInt8} (hc : x[e.ulPos]? = some c) :
    ∃ e' chains', readByte c e = some e' ∧ EncInv x e' (q + 1) chains' ∧
      MatchOk x e'.buf (q + 1) e'.len ∧ e'.code = e.code ∧ e'.len = e.len := by
  obtain ⟨hlt, hget⟩ := List.getElem?_eq_some_iff.mp hc
  have hF := h.len_eq hlt
  have hpos := h.pos
  obtain ⟨b₁, chains₁, hdel, htree₁, htext₁, hfree, hlive₁⟩ := deleteNode_live h
  have hcS : c = stream x (q + e.len) := by
    rw [stream_ge (by have := h.le; omega), show q + e.len - (N - F) = e.ulPos by omega,
      List.getD_eq_getElem?_getD, hc, Option.getD_some]
  have hsmod : e.s = (q + e.len) % N := by rw [h.s, hF]
  set text := if e.s < F - 1 then update (update b₁.textBuf e.s c) (e.s + N) c
    else update b₁.textBuf e.s c with htextdef
  have htext : TextInv x text (q + 1 + e.len) := by
    rw [htextdef, htext₁, hcS, hsmod, show q + 1 + e.len = q + e.len + 1 by omega]
    exact h.text.push
  have htree : TreeInv { b₁ with textBuf := text } chains₁ := by
    refine htree₁.setText text fun c' p hp => ?_
    have hps : p ≠ e.s := fun he => hfree c' (he ▸ hp)
    have hpN := htree₁.lt hp
    rw [htextdef]
    split_ifs
    · rw [update_of_ne (by omega), update_of_ne hps]
    · rw [update_of_ne hps]
  obtain ⟨b₂, chains₂, hins, htree₂, htext₂, hlive₂, hmatch⟩ :=
    insertNode_live htree htext h.len_le hlive₁
  have hr : (e.r + 1) &&& (N - 1) = (q + 1) % N := by rw [h.r, mod_succ_mask]
  refine ⟨{ e with
      buf := b₂, ulPos := e.ulPos + 1, s := (e.s + 1) &&& (N - 1), r := (q + 1) % N }, chains₂,
    ?_, ⟨Nat.le_succ_of_le h.le, rfl, ?_, ?_, hlt, h.len_le, fun _ => hF, ?_, htree₂, hlive₂⟩,
    hmatch, rfl, rfl⟩
  · simp [readByte, hdel, hr, ← htextdef, hins]
  · show (e.s + 1) &&& (N - 1) = _
    rw [h.s, mod_succ_mask, show q + F + 1 = q + 1 + F by omega]
  · show q + 1 + e.len = N - F + (e.ulPos + 1)
    omega
  · show TextInv x b₂.textBuf _
    rw [htext₂]
    exact htext

/-- **One byte further, past the end of the input.** -/
theorem skipByte_spec (hlen : 0 < e.len) (hend : e.ulPos = x.length) :
    ∃ e' chains', skipByte e = some e' ∧ EncInv x e' (q + 1) chains' ∧
      (0 < e'.len → MatchOk x e'.buf (q + 1) e'.len) ∧ e'.code = e.code ∧ e'.len + 1 = e.len ∧
      e'.ulPos = x.length := by
  have hpos := h.pos
  have hlenF := h.len_le
  obtain ⟨b₁, chains₁, hdel, htree₁, htext₁, -, hlive₁⟩ := deleteNode_live h
  have htext : TextInv x b₁.textBuf (q + 1 + (e.len - 1)) := by
    rw [htext₁, show q + 1 + (e.len - 1) = q + e.len by omega]
    exact h.text
  have hr : (e.r + 1) &&& (N - 1) = (q + 1) % N := by rw [h.r, mod_succ_mask]
  -- the string at `q + 1` is inserted only if something is left of the lookahead
  have hins : ∃ b₂ chains₂, (if e.len - 1 ≠ 0 then insertNode b₁ ((q + 1) % N) else some b₁) =
      some b₂ ∧ TreeInv b₂ chains₂ ∧ b₂.textBuf = b₁.textBuf ∧ Live chains₂ (q + 1 + 1) ∧
      (0 < e.len - 1 → MatchOk x b₂ (q + 1) (e.len - 1)) := by
    by_cases h0 : e.len - 1 = 0
    · rw [if_neg (not_not.mpr h0)]
      refine ⟨b₁, chains₁, rfl, htree₁, rfl, fun c p hp => ?_, by omega⟩
      obtain ⟨j, hj, hlt, hW⟩ := hlive₁ c p hp
      exact ⟨j, hj, by omega, by omega⟩
    · rw [if_pos h0]
      obtain ⟨b₂, chains₂, hb₂, htree₂, htext₂, hlive₂, hm⟩ :=
        insertNode_live htree₁ htext (by omega) hlive₁
      exact ⟨b₂, chains₂, hb₂, htree₂, htext₂, hlive₂, fun _ => hm⟩
  obtain ⟨b₂, chains₂, hb₂, htree₂, htext₂, hlive₂, hm⟩ := hins
  refine ⟨{ e with buf := b₂, len := e.len - 1, s := (e.s + 1) &&& (N - 1), r := (q + 1) % N }, chains₂,
    ?_, ⟨Nat.le_succ_of_le h.le, rfl, ?_, ?_, hend.le, ?_, ?_, ?_, htree₂, hlive₂⟩, hm, rfl, ?_, hend⟩
  · simp only [skipByte, hdel, Option.bind_eq_bind, Option.bind_some, hr, hb₂]
  · show (e.s + 1) &&& (N - 1) = _
    rw [h.s, mod_succ_mask, show q + F + 1 = q + 1 + F by omega]
  · show q + 1 + (e.len - 1) = N - F + e.ulPos
    omega
  · show e.len - 1 ≤ F
    omega
  · intro hlt
    have : e.ulPos < x.length := hlt
    omega
  · show TextInv x b₂.textBuf _
    rw [htext₂]
    exact htext
  · show e.len - 1 + 1 = e.len
    omega

omit h

section Advance

variable {e : EncState}

theorem readBytes_spec (n : ℕ) (h : EncInv x e q chains) :
    ∃ e' rest chains', readBytes x n e = some (e', rest) ∧ rest ≤ n ∧
      EncInv x e' (q + (n - rest)) chains' ∧ e'.code = e.code ∧ e'.len = e.len ∧
      (rest < n ∨ MatchOk x e.buf q e.len → MatchOk x e'.buf (q + (n - rest)) e'.len) ∧
      (0 < rest → e'.ulPos = x.length) := by
  induction n generalizing e q chains with
  | zero => exact ⟨e, 0, chains, rfl, le_rfl, h, rfl, rfl, fun hm => hm.resolve_left (by omega), by omega⟩
  | succ n ih =>
    cases hc : x[e.ulPos]? with
    | none =>
      have hend : e.ulPos = x.length :=
        le_antisymm h.ulPos_le (List.getElem?_eq_none_iff.mp hc)
      rw [show readBytes x (n + 1) e = some (e, n + 1) by simp [readBytes, hc]]
      refine ⟨e, n + 1, chains, rfl, le_rfl, ?_, rfl, rfl, fun hm => ?_, fun _ => hend⟩
      · simpa using h
      · simpa using hm
    | some c =>
      obtain ⟨e₁, chains₁, h₁, hinv₁, hm₁, hcode₁, hlen₁⟩ := readByte_spec h hc
      obtain ⟨e', rest, chains', h', hle, hinv, hcode, hlen, hm, hend⟩ := ih hinv₁
      rw [show q + 1 + (n - rest) = q + (n + 1 - rest) by omega] at hinv hm
      refine ⟨e', rest, chains', ?_, by omega, hinv, hcode.trans hcode₁, hlen.trans hlen₁,
        fun _ => hm (Or.inr hm₁), hend⟩
      simp [readBytes, hc, h₁, h']

/-- The `while` loop moves on past the end of the input. -/
theorem skipBytes_spec (n : ℕ) (h : EncInv x e q chains) (hn : n ≤ e.len)
    (hend : 0 < n → e.ulPos = x.length) :
    ∃ e' chains', skipBytes n e = some e' ∧ EncInv x e' (q + n) chains' ∧ e'.code = e.code ∧
      (0 < n ∨ MatchOk x e.buf q e.len → 0 < e'.len → MatchOk x e'.buf (q + n) e'.len) := by
  induction n generalizing e q chains with
  | zero => exact ⟨e, chains, rfl, h, rfl, fun hm _ => hm.resolve_left (by omega)⟩
  | succ n ih =>
    obtain ⟨e₁, chains₁, h₁, hinv₁, hm₁, hcode₁, hlen₁, hend₁⟩ :=
      skipByte_spec h (by omega) (hend (by omega))
    obtain ⟨e', chains', h', hinv, hcode, hm⟩ := ih hinv₁ (by omega) fun _ => hend₁
    rw [show q + 1 + n = q + (n + 1) by omega] at hinv hm
    refine ⟨e', chains', ?_, hinv, hcode.trans hcode₁, fun _ hpos => ?_⟩
    · simp [skipBytes, h₁, h']
    · rcases Nat.eq_zero_or_pos n with rfl | hn0
      · obtain rfl : e₁ = e' := by simpa [skipBytes] using h'
        exact hm₁ hpos
      · exact hm (Or.inl hn0) hpos

end Advance

/-! ## The code written so far -/

/-- The full groups `groups` are in the output and the units `g` of the present one in `code_buf`. -/
structure CodeInv (e : EncState) (groups : List (List (CodeUnit UInt8))) (g : List (CodeUnit UInt8)) :
    Prop where
  out : e.out = groups.flatMap groupBytes
  full : ∀ g' ∈ groups, g'.length = 8
  lt : g.length < 8
  mask : e.mask = UInt8.ofNat (2 ^ g.length)
  code : codeBytes e.codeBuf e.codeBufPtr = groupBytes g

section Code

variable {e e' : EncState} {groups : List (List (CodeUnit UInt8))} {g : List (CodeUnit UInt8)}

theorem CodeInv.of_code_eq (h : CodeInv e groups g) (he : e'.code = e.code) : CodeInv e' groups g := by
  simp only [EncState.code, Prod.mk.injEq] at he
  obtain ⟨h1, h2, h3, h4⟩ := he
  exact ⟨h4 ▸ h.out, h.full, h.lt, h3 ▸ h.mask, h1 ▸ h2 ▸ h.code⟩

theorem mask_shift {n : ℕ} (hn : n < 8) :
    UInt8.ofNat (2 ^ n) <<< 1 = UInt8.ofNat (2 ^ (n + 1)) ∧
      (UInt8.ofNat (2 ^ (n + 1)) = 0 ↔ n = 7) := by
  interval_cases n <;> decide

/-- The mask moves on with each unit, and the eighth unit sends the group. -/
theorem shiftMask_spec {u : CodeUnit UInt8} (hout : e.out = groups.flatMap groupBytes)
    (hfull : ∀ g' ∈ groups, g'.length = 8) (hlt : g.length < 8)
    (hmask : e.mask = UInt8.ofNat (2 ^ g.length))
    (hcode : codeBytes e.codeBuf e.codeBufPtr = groupBytes (g ++ [u])) :
    ∃ groups' g', CodeInv (shiftMask e) groups' g' ∧
      groups'.flatten ++ g' = groups.flatten ++ g ++ [u] := by
  obtain ⟨hshift, hzero⟩ := mask_shift hlt
  by_cases h7 : g.length = 7
  · refine ⟨groups ++ [g ++ [u]], [], ?_, by simp⟩
    have hm : e.mask <<< 1 = 0 := by rw [hmask, hshift, hzero.mpr h7]
    rw [shiftMask, if_pos hm]
    refine ⟨?_, fun g' hg' => ?_, by simp, rfl, rfl⟩
    · simp [hout, hcode]
    · rcases List.mem_append.mp hg' with hg' | hg'
      · exact hfull g' hg'
      · rw [List.mem_singleton.mp hg']
        simp [h7]
  · refine ⟨groups, g ++ [u], ?_, by simp⟩
    have hm : ¬ e.mask <<< 1 = 0 := by rw [hmask, hshift, hzero]; exact h7
    rw [shiftMask, if_neg hm]
    exact ⟨hout, hfull, by simp; omega, by simp [hmask, hshift], hcode⟩

theorem EncInv.of_frame (h : EncInv x e q chains) {ml : ℕ} (hr : e'.r = e.r) (hs : e'.s = e.s)
    (hl : e'.len = e.len) (hp : e'.ulPos = e.ulPos) (hb : e'.buf = { e.buf with matchLength := ml }) :
    EncInv x e' q chains where
  le := h.le
  r := hr ▸ h.r
  s := hs ▸ h.s
  pos := by rw [hl, hp, h.pos]
  ulPos_le := hp ▸ h.ulPos_le
  len_le := hl ▸ h.len_le
  len_eq := by
    rw [hl, hp]
    exact h.len_eq
  text := by
    rw [hb, hl]
    exact h.text
  tree := by
    rw [hb]
    exact ⟨h.tree.linked, h.tree.nodup, h.tree.lt, h.tree.byte, h.tree.lson, h.tree.free⟩
  live := h.live

theorem EncInv.putUnit (h : EncInv x e q chains) : EncInv x (putUnit e) q chains := by
  unfold Lzss.putUnit
  dsimp only
  split_ifs
  all_goals exact h.of_frame rfl rfl rfl rfl rfl

theorem EncInv.shiftMask (h : EncInv x e q chains) : EncInv x (shiftMask e) q chains := by
  unfold Lzss.shiftMask
  dsimp only
  split_ifs
  all_goals exact h.of_frame rfl rfl rfl rfl rfl

@[simp] theorem shiftMask_buf (e : EncState) : (shiftMask e).buf = e.buf := by
  unfold Lzss.shiftMask
  dsimp only
  split_ifs <;> rfl

/-- **The unit put into `code_buf` describes the stream at `q`.** -/
theorem putUnit_spec (h : EncInv x e q chains) (hlen : 0 < e.len) (hm : MatchOk x e.buf q e.len)
    (hc : CodeInv e groups g) :
    ∃ u groups' g', CodeInv (shiftMask (putUnit e)) groups' g' ∧
      groups'.flatten ++ g' = groups.flatten ++ g ++ [u] ∧ u.Fits N (stream x) q ∧ ValidUnit u ∧
      (shiftMask (putUnit e)).buf.matchLength = u.span ∧ 0 < u.span ∧ u.span ≤ e.len := by
  set ml := if e.buf.matchLength > e.len then e.len else e.buf.matchLength with hml
  have hle : ml ≤ e.len := by
    rw [hml]
    split_ifs <;> omega
  by_cases hshort : ml ≤ THRESHOLD
  · have hput : putUnit e = { e with
        buf := { e.buf with matchLength := 1 }
        codeBuf := update (update e.codeBuf 0 (e.codeBuf 0 ||| e.mask)) e.codeBufPtr
          (e.buf.textBuf e.r)
        codeBufPtr := e.codeBufPtr + 1 } := by
      simp [putUnit, ← hml, hshort]
    have hbyte : e.buf.textBuf e.r = stream x q := by
      rw [h.r]
      have hF := h.len_le
      exact h.text.ring q (by omega) (by simp only [N, F] at *; omega)
    obtain ⟨groups', g', hinv, hcat⟩ := shiftMask_spec (e := putUnit e) (u := .lit (stream x q))
      (by rw [hput]; exact hc.out) hc.full hc.lt (by rw [hput]; exact hc.mask) (by
        rw [hput, hc.mask, hbyte]
        exact codeBytes_lit hc.code _)
    refine ⟨_, groups', g', hinv, hcat, rfl, trivial, ?_, Nat.one_pos, hlen⟩
    rw [shiftMask_buf, hput]
    rfl
  · have hml0 : 0 < ml := by omega
    have hmle : ml ≤ e.buf.matchLength := by
      rw [hml]
      split_ifs <;> omega
    obtain ⟨j, hj, hlt, hW, hF, hS⟩ := hm.resolve_left (by omega)
    have hput : putUnit e = { e with
        buf := { e.buf with matchLength := ml }
        codeBuf := update (update e.codeBuf e.codeBufPtr (UInt8.ofNat (j % N))) (e.codeBufPtr + 1)
          (UInt8.ofNat (((j % N) >>> 4 &&& 0xf0) ||| (ml - (THRESHOLD + 1))))
        codeBufPtr := e.codeBufPtr + 2 } := by
      simp [putUnit, ← hml, hshort, hj]
    obtain ⟨groups', g', hinv, hcat⟩ := shiftMask_spec (e := putUnit e) (u := .copy j ml)
      (by rw [hput]; exact hc.out) hc.full hc.lt (by rw [hput]; exact hc.mask) (by
        rw [hput]
        exact codeBytes_copy hc.code rfl)
    refine ⟨_, groups', g', hinv, hcat, ⟨hlt, ?_, fun k hk => hS k ?_ ?_⟩, ⟨?_, ?_⟩, ?_, hml0, hle⟩
    · omega
    · omega
    · omega
    · omega
    · omega
    · rw [shiftMask_buf, hput]
      rfl

end Code

/-- `Encode` at a pass of its main loop: the units so far describe the stream up to `q`, and `k` bytes are left. -/
def LoopInv (x : List UInt8) (k : ℕ) (e : EncState) : Prop :=
  ∃ q chains groups g, EncInv x e q chains ∧ 0 < e.len ∧ MatchOk x e.buf q e.len ∧
    CodeInv e groups g ∧ Covers N (stream x) (N - F) (groups.flatten ++ g) q ∧
    (∀ u ∈ groups.flatten ++ g, ValidUnit u) ∧ q + k = N - F + x.length

def LoopEnd (x : List UInt8) (e : EncState) : Prop :=
  ∃ groups g, CodeInv e groups g ∧ Covers N (stream x) (N - F) (groups.flatten ++ g) (N - F + x.length) ∧
    ∀ u ∈ groups.flatten ++ g, ValidUnit u

section Main

theorem encodePass_step (k : ℕ) (e : EncState) (h : LoopInv x k e) :
    (∃ k' e', encodePass x e = some (.next e') ∧ LoopInv x k' e' ∧ k' < k) ∨
      ∃ e', encodePass x e = some (.done e') ∧ LoopEnd x e' := by
  obtain ⟨q, chains, groups, g, hinv, hlen, hm, hcode, hcov, hval, hk⟩ := h
  obtain ⟨u, groups', g', hcode', hcat, hfit, hvalid, hspan, hpos, hle⟩ :=
    putUnit_spec hinv hlen hm hcode
  set e₀ := shiftMask (putUnit e) with he₀
  have hinv₀ : EncInv x e₀ q chains := hinv.putUnit.shiftMask
  have hlen₀ : e₀.len = e.len := by
    have h1 := hinv₀.pos
    have h2 := hinv.pos
    have h3 : e₀.ulPos = e.ulPos := by
      rw [he₀]
      unfold shiftMask putUnit
      dsimp only
      split_ifs <;> rfl
    omega
  obtain ⟨e₁, rest, chains₁, h₁, hrest, hinv₁, hc₁, hl₁, hm₁, hend⟩ :=
    readBytes_spec e₀.buf.matchLength hinv₀
  obtain ⟨e₂, chains₂, h₂, hinv₂, hc₂, hm₂⟩ :=
    skipBytes_spec rest hinv₁ (by rw [hl₁, hlen₀]; omega) hend
  have hpass : encodePass x e = some (if e₂.len > 0 then .next e₂ else .done e₂) := by
    simp [encodePass, ← he₀, h₁, h₂]
  rw [hspan] at hinv₂ hm₁ hm₂ hrest
  rw [show q + (u.span - rest) + rest = q + u.span by omega] at hinv₂ hm₂
  have hcode₂ : CodeInv e₂ groups' g' := hcode'.of_code_eq (hc₂.trans hc₁)
  have hcov₂ : Covers N (stream x) (N - F) (groups'.flatten ++ g') (q + u.span) := by
    rw [hcat]
    exact covers_snoc hcov hfit
  have hval₂ : ∀ v ∈ groups'.flatten ++ g', ValidUnit v := by
    intro v hv
    rw [hcat] at hv
    rcases List.mem_append.mp hv with hv | hv
    · exact hval v hv
    · rw [List.mem_singleton.mp hv]
      exact hvalid
  rw [hpass]
  have hpos₂ := hinv₂.pos
  have hul := hinv₂.ulPos_le
  by_cases h0 : e₂.len > 0
  · rw [if_pos h0]
    refine Or.inl ⟨k - u.span, e₂, rfl,
      ⟨q + u.span, chains₂, groups', g', hinv₂, h0, ?_, hcode₂, hcov₂, hval₂, by omega⟩, by omega⟩
    refine hm₂ ?_ h0
    rcases Nat.eq_zero_or_pos rest with h | h
    · exact Or.inr (hm₁ (Or.inl (by omega)))
    · exact Or.inl h
  · rw [if_neg h0]
    -- an empty lookahead means that all of the input was read
    have hall : e₂.ulPos = x.length := by
      by_contra hne
      have := hinv₂.len_eq (by omega)
      simp only [F] at this
      omega
    refine Or.inr ⟨e₂, rfl, groups', g', hcode₂, ?_, hval₂⟩
    rwa [show N - F + x.length = q + u.span by omega]

end Main

section Start

variable (x : List UInt8)

theorem startBuffer_tree : TreeInv (startBuffer x) fun _ => [] where
  linked := by
    intro c
    have hc : c.toNat < 256 := c.toNat_lt
    have : N + 1 ≤ root c ∧ root c ≤ N + 256 := by
      simp only [root]
      omega
    exact if_pos this
  nodup := by simp
  lt := by simp
  byte := by simp
  lson := by simp
  free := by
    intro p hp _
    simp [startBuffer, initTree, hp]

theorem startBuffer_text : TextInv x (startBuffer x).textBuf (N - F + min F x.length) := by
  have hN : N - F + min F x.length ≤ N := by
    simp only [N, F]
    omega
  constructor
  · intro k hk _
    rw [Nat.mod_eq_of_lt (by omega)]
    simp only [startBuffer, initTree, stream]
    split_ifs <;> first | rfl | omega
  · intro k hk _ hNk
    omega

theorem insert_blanks {n : ℕ} (hn : n ≤ F) :
    ∃ b chains, (List.range n).foldlM (fun b i => insertNode b (N - F - (i + 1))) (startBuffer x) =
        some b ∧ TreeInv b chains ∧ b.textBuf = (startBuffer x).textBuf ∧
      ∀ c p, p ∈ chains c → p < N - F ∧ N - F ≤ p + n := by
  induction n with
  | zero => exact ⟨_, _, rfl, startBuffer_tree x, rfl, by simp⟩
  | succ n ih =>
    obtain ⟨b, chains, hb, htree, htext, hlive⟩ := ih (by omega)
    have hfree : ∀ c, N - F - (n + 1) ∉ chains c := by
      intro c hm
      have := hlive c _ hm
      simp only [N, F] at *
      omega
    obtain ⟨b', chains', hb', hins⟩ :=
      insertNode_spec htree (by simp only [N, F]; omega) hfree
    refine ⟨b', chains', ?_, hins.inv, hins.textBuf.trans htext, fun c p hp => ?_⟩
    · rw [List.range_succ, List.foldlM_append, hb]
      simp [hb']
    · rcases hins.sub hp with rfl | hp
      · simp only [N, F] at *
        omega
      · have := hlive c p hp
        omega

theorem startState_spec (hx : 0 < x.length) : ∃ e, startState x = some e ∧ LoopInv x x.length e := by
  obtain ⟨b, chains, hb, htree, htext, hlive⟩ := insert_blanks x (le_refl F)
  have htext' : TextInv x b.textBuf (N - F + min F x.length) := htext ▸ startBuffer_text x
  obtain ⟨b', chains', hb', htree', htext'', hlive', hm⟩ :=
    insertNode_live htree htext' (min_le_left ..) fun c p hp => by
      have := hlive c p hp
      exact ⟨p, (Nat.mod_eq_of_lt (by omega)).symm, by omega, by simp only [N, F] at *; omega⟩
  rw [show (N - F) % N = N - F from rfl] at hb'
  refine ⟨{ buf := b', codeBuf := fun _ => 0, codeBufPtr := 1, mask := 1, ulPos := min F x.length
            len := min F x.length, r := N - F, s := 0, out := [] }, ?_, N - F, chains', [], [],
    ⟨le_rfl, rfl, rfl, rfl, min_le_right .., min_le_left .., ?_, ?_, htree', hlive'⟩, ?_, hm,
    ⟨rfl, by simp, by simp, rfl, rfl⟩, rfl, by simp, rfl⟩
  · simp [startState, hb, hb']
  · intro hlt
    have : min F x.length < x.length := hlt
    show min F x.length = F
    omega
  · show TextInv x b'.textBuf (N - F + min F x.length)
    rw [htext'']
    exact htext'
  · show 0 < min F x.length
    simp only [F]
    omega

end Start

theorem ptr_le_one (h : CodeInv e groups g) : e.codeBufPtr > 1 ↔ g ≠ [] := by
  have hlen := congrArg List.length h.code
  simp only [codeBytes, List.length_map, List.length_range, groupBytes, List.length_cons] at hlen
  rw [hlen]
  cases g with
  | nil => simp
  | cons u g =>
    have := unitBytes_length_pos u
    simp only [List.flatMap_cons, List.length_append, ne_eq, reduceCtorEq, not_false_eq_true, iff_true]
    omega

theorem grouped_of_full (hfull : ∀ g' ∈ groups, g'.length = 8) (hlt : g.length < 8) :
    Grouped (groups ++ if g = [] then [] else [g]) := by
  induction groups with
  | nil =>
    by_cases hg : g = []
    · simp [hg, Grouped]
    · simp [hg, Grouped, hlt.le]
  | cons g' groups ih =>
    have h8 := hfull g' (by simp)
    refine ⟨fun he => by simp [he] at h8, h8.le, Or.inr h8, ih fun g'' hg => hfull g'' (by simp [hg])⟩

/-- **`Encode` returns, and what it writes describes its input.** -/
theorem encode_groups (x : List UInt8) :
    ∃ gs, encode true x = some (gs.flatMap groupBytes) ∧ Grouped gs ∧
      (∀ u ∈ gs.flatten, ValidUnit u) ∧
      Covers N (stream x) (N - F) gs.flatten (N - F + x.length) := by
  rcases Nat.eq_zero_or_pos x.length with h0 | hpos
  · exact ⟨[], by simp [encode, h0], trivial, by simp, by simp [Covers, h0]⟩
  · obtain ⟨e₀, he₀, hstart⟩ := startState_spec x hpos
    obtain ⟨e, he, groups, g, hcode, hcov, hval⟩ :=
      loop_of_variant (LoopInv x) (LoopEnd x) encodePass_step hstart (Nat.lt_succ_self _)
    have hflat : (groups ++ if g = [] then [] else [g]).flatten = groups.flatten ++ g := by
      split_ifs with hg <;> simp [hg]
    refine ⟨groups ++ if g = [] then [] else [g], ?_, grouped_of_full hcode.full hcode.lt, ?_, ?_⟩
    · simp only [encode, Bool.not_true, Bool.false_eq_true, if_false, hpos.ne', he₀, he,
        Option.bind_eq_bind, Option.bind_some, ptr_le_one hcode, hcode.code, hcode.out]
      by_cases hg : g = [] <;> simp [hg]
    · rwa [hflat]
    · rwa [hflat]

end NasFirmware.Lzss
