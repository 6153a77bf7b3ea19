import NasFirmware.Lib.Loop

/-!
# The LZSS coder of the configuration store

`apmib.c` compresses a configuration image with LZSS over a ring of `N` bytes. The strings of the
ring are kept in 256 search trees, one for each first byte; a node is a ring position and
`N + 1 + c` is the root of tree `c`.

Arrays are functions of their index and positions are natural numbers. The one allocation that
each function makes is a parameter: `encode` clears the block, `decode` does not.
-/

namespace NasFirmware.Lzss

open CLoop Function

def N : ℕ := 4096

/-- Upper limit for `match_length`. -/
def F : ℕ := 18

/-- A string is coded as position and length when its match is longer than this. -/
def THRESHOLD : ℕ := 2

/-- The index that stands for "no node". -/
def NIL : ℕ := N

/-- `struct lzss_buffer` with the two globals that `InsertNode` sets. -/
structure LzssBuffer where
  textBuf : ℕ → UInt8
  lson : ℕ → ℕ
  rson : ℕ → ℕ
  dad : ℕ → ℕ
  matchPosition : ℕ
  matchLength : ℕ

/-- The comparison loop of `InsertNode`, with `n` indices left: where `key` and the string at `p` differ (or `F`) and
the last difference. -/
def compareKey (textBuf : ℕ → UInt8) (r p : ℕ) : ℕ → ℕ → UInt16 → ℕ × UInt16
  | 0, i, cmp => (i, cmp)
  | n + 1, i, _ =>
    let cmp := (textBuf (r + i)).toUInt16 - (textBuf (p + i)).toUInt16
    if cmp ≠ 0 then (i, cmp) else compareKey textBuf r p n (i + 1) cmp

/-- The end of `InsertNode` for a match of full length: `r` takes the place of `p`. -/
def replaceNode (b : LzssBuffer) (p r : ℕ) : LzssBuffer :=
  let b := { b with dad := update b.dad r (b.dad p) }
  let b := { b with lson := update b.lson r (b.lson p) }
  let b := { b with rson := update b.rson r (b.rson p) }
  let b := { b with dad := update b.dad (b.lson p) r }
  let b := { b with dad := update b.dad (b.rson p) r }
  let b :=
    if b.rson (b.dad p) = p then { b with rson := update b.rson (b.dad p) r }
    else { b with lson := update b.lson (b.dad p) r }
  { b with dad := update b.dad p NIL }

structure InsertState where
  buf : LzssBuffer
  p : ℕ
  cmp : UInt16

/-- The lower half of the loop of `InsertNode`: compare with node `p` and keep the best match. -/
def insertCompare (r : ℕ) (b : LzssBuffer) (p : ℕ) : Pass InsertState LzssBuffer :=
  let (i, cmp) := compareKey b.textBuf r p (F - 1) 1 1
  if i > b.matchLength then
    let b := { b with matchPosition := p, matchLength := i }
    if i ≥ F then .done (replaceNode b p r) else .next ⟨b, p, cmp⟩
  else .next ⟨b, p, cmp⟩

/-- One pass of the loop of `InsertNode`. -/
def insertPass (r : ℕ) (t : InsertState) : Option (Pass InsertState LzssBuffer) :=
  let b := t.buf
  if t.cmp ≥ 0 then
    if b.rson t.p ≠ NIL then some (insertCompare r b (b.rson t.p))
    else some (.done { b with rson := update b.rson t.p r, dad := update b.dad r t.p })
  else
    if b.lson t.p ≠ NIL then some (insertCompare r b (b.lson t.p))
    else some (.done { b with lson := update b.lson t.p r, dad := update b.dad r t.p })

/-- `InsertNode`: insert the string at `r` and find its longest match. A tree has at most `N` nodes. -/
def insertNode (b : LzssBuffer) (r : ℕ) : Option LzssBuffer :=
  let p := N + 1 + (b.textBuf r).toNat
  let b := { b with
    lson := update b.lson r NIL, rson := update b.rson r NIL, matchLength := 0 }
  loop (insertPass r) (N + 2) ⟨b, p, 1⟩

def initTree (b : LzssBuffer) : LzssBuffer :=
  { b with
    rson := fun i => if N + 1 ≤ i ∧ i ≤ N + 256 then NIL else b.rson i
    dad := fun i => if i < N then NIL else b.dad i }

/-- The `do … while` of `DeleteNode`: the rightmost node below `q`. -/
def rightmost (b : LzssBuffer) : ℕ → Option ℕ :=
  loop (fun q => some (if b.rson (b.rson q) ≠ NIL then .next (b.rson q) else .done (b.rson q)))
    (N + 2)

/-- The end of `DeleteNode`: node `q` takes the place of `p`. -/
def unlinkNode (b : LzssBuffer) (p q : ℕ) : LzssBuffer :=
  let b := { b with dad := update b.dad q (b.dad p) }
  let b :=
    if b.rson (b.dad p) = p then { b with rson := update b.rson (b.dad p) q }
    else { b with lson := update b.lson (b.dad p) q }
  { b with dad := update b.dad p NIL }

/-- `DeleteNode`: delete node `p` from its tree. -/
def deleteNode (b : LzssBuffer) (p : ℕ) : Option LzssBuffer :=
  if b.dad p = NIL then some b
  else if b.rson p = NIL then some (unlinkNode b p (b.lson p))
  else if b.lson p = NIL then some (unlinkNode b p (b.rson p))
  else
    let q := b.lson p
    let below : Option (LzssBuffer × ℕ) :=
      if b.rson q ≠ NIL then do
        let q ← rightmost b q
        let b := { b with rson := update b.rson (b.dad q) (b.lson q) }
        let b := { b with dad := update b.dad (b.lson q) (b.dad q) }
        let b := { b with lson := update b.lson q (b.lson p) }
        let b := { b with dad := update b.dad (b.lson p) q }
        some (b, q)
      else some (b, q)
    do
      let (b, q) ← below
      let b := { b with rson := update b.rson q (b.rson p) }
      let b := { b with dad := update b.dad (b.rson p) q }
      some (unlinkNode b p q)

/-! ## The encoder -/

/-- The variables of `Encode`; `out` is what has been stored in `ucOutput`. -/
structure EncState where
  buf : LzssBuffer
  codeBuf : ℕ → UInt8
  codeBufPtr : ℕ
  mask : UInt8
  ulPos : ℕ
  len : ℕ
  r : ℕ
  s : ℕ
  out : List UInt8

/-- `for (i = 0; i < code_buf_ptr; i++) ucOutput[enIdx++] = code_buf[i]`. -/
def codeBytes (codeBuf : ℕ → UInt8) (codeBufPtr : ℕ) : List UInt8 :=
  (List.range codeBufPtr).map codeBuf

/-- The head of the main loop of `Encode`: put one unit of code into `code_buf`. -/
def putUnit (e : EncState) : EncState :=
  let matchLength := if e.buf.matchLength > e.len then e.len else e.buf.matchLength
  if matchLength ≤ THRESHOLD then
    { e with
      buf := { e.buf with matchLength := 1 }
      codeBuf := update (update e.codeBuf 0 (e.codeBuf 0 ||| e.mask)) e.codeBufPtr
        (e.buf.textBuf e.r)
      codeBufPtr := e.codeBufPtr + 1 }
  else
    { e with
      buf := { e.buf with matchLength := matchLength }
      codeBuf := update (update e.codeBuf e.codeBufPtr (UInt8.ofNat e.buf.matchPosition))
        (e.codeBufPtr + 1) (UInt8.ofNat
          (((e.buf.matchPosition >>> 4) &&& 0xf0) ||| (matchLength - (THRESHOLD + 1))))
      codeBufPtr := e.codeBufPtr + 2 }

/-- Shift the mask; after eight units send `code_buf`. -/
def shiftMask (e : EncState) : EncState :=
  let mask := e.mask <<< 1
  if mask = 0 then
    { e with
      out := e.out ++ codeBytes e.codeBuf e.codeBufPtr
      codeBuf := update e.codeBuf 0 0
      codeBufPtr := 1
      mask := 1 }
  else { e with mask := mask }

/-- The body of the `for` loop of `Encode`: read one byte into the ring. -/
def readByte (c : UInt8) (e : EncState) : Option EncState := do
  let b ← deleteNode e.buf e.s
  let textBuf := update b.textBuf e.s c
  let textBuf := if e.s < F - 1 then update textBuf (e.s + N) c else textBuf
  let r := (e.r + 1) &&& (N - 1)
  let b ← insertNode { b with textBuf := textBuf } r
  some { e with buf := b, ulPos := e.ulPos + 1, s := (e.s + 1) &&& (N - 1), r := r }

/-- The `for` loop of `Encode` with `n` passes left; the second component is how many were not made as the input had
ended. -/
def readBytes (ucInput : List UInt8) : ℕ → EncState → Option (EncState × ℕ)
  | 0, e => some (e, 0)
  | n + 1, e =>
    match ucInput[e.ulPos]? with
    | some c => do
      let e ← readByte c e
      readBytes ucInput n e
    | none => some (e, n + 1)

def skipByte (e : EncState) : Option EncState := do
  let b ← deleteNode e.buf e.s
  let r := (e.r + 1) &&& (N - 1)
  let len := e.len - 1
  let inserted : Option LzssBuffer := if len ≠ 0 then insertNode b r else some b
  let b ← inserted
  some { e with buf := b, len := len, s := (e.s + 1) &&& (N - 1), r := r }

def skipBytes : ℕ → EncState → Option EncState
  | 0, e => some e
  | n + 1, e => do
    let e ← skipByte e
    skipBytes n e

def encodePass (ucInput : List UInt8) (e : EncState) :
    Option (Pass EncState EncState) := do
  let e := shiftMask (putUnit e)
  let (e, rest) ← readBytes ucInput e.buf.matchLength e
  let e ← skipBytes rest e
  some (if e.len > 0 then .next e else .done e)

/-- The cleared `struct lzss_buffer`, with empty trees, a ring of blanks and the start of the input in its last `F`
places. -/
def startBuffer (ucInput : List UInt8) : LzssBuffer :=
  let b : LzssBuffer := initTree ⟨fun _ => 0, fun _ => 0, fun _ => 0, fun _ => 0, 0, 0⟩
  let blank : ℕ → UInt8 := fun i => if i < N - F then 32 else b.textBuf i
  { b with
    textBuf := fun i =>
      if N - F ≤ i ∧ i < N - F + min F ucInput.length then ucInput.getD (i - (N - F)) 0
      else blank i }

/-- `Encode` enters its main loop: `F` strings of blanks and the first string of the input are in the trees. -/
def startState (ucInput : List UInt8) : Option EncState := do
  let len := min F ucInput.length
  let r := N - F
  let b ← (List.range F).foldlM (fun b i => insertNode b (r - (i + 1))) (startBuffer ucInput)
  let b ← insertNode b r
  some { buf := b, codeBuf := fun _ => 0, codeBufPtr := 1, mask := 1, ulPos := len, len := len
         r := r, s := 0, out := [] }

/-- `Encode`: the bytes stored in `ucOutput`. -/
def encode (mallocOk : Bool) (ucInput : List UInt8) : Option (List UInt8) :=
  if !mallocOk then some []
  else if ucInput.length = 0 then some []
  else do
    let e ← startState ucInput
    let e ← loop (encodePass ucInput) (ucInput.length + 1) e
    some (if e.codeBufPtr > 1 then e.out ++ codeBytes e.codeBuf e.codeBufPtr else e.out)

/-- The variables of `Decode`; `out` is what has been stored in `ucOutput`. -/
structure DecState where
  textBuf : ℕ → UInt8
  r : ℕ
  flags : ℕ
  ulPos : ℕ
  out : List UInt8

def putByte (c : UInt8) (d : DecState) : DecState :=
  { d with
    out := d.out ++ [c]
    textBuf := update d.textBuf d.r c
    r := (d.r + 1) &&& (N - 1) }

/-- The copy loop of `Decode` from ring position `i`, `n` bytes. -/
def copyBytes (i : ℕ) : ℕ → DecState → DecState
  | 0, d => d
  | n + 1, d => copyBytes (i + 1) n (putByte (d.textBuf (i &&& (N - 1))) d)

/-- The lower half of the loop of `Decode`: one unit of code. -/
def decodeUnit (ucInput : List UInt8) (d : DecState) : Pass DecState (List UInt8) :=
  if d.flags &&& 1 ≠ 0 then
    match ucInput[d.ulPos]? with
    | none => .done d.out
    | some c => .next (putByte c { d with ulPos := d.ulPos + 1 })
  else
    match ucInput[d.ulPos]?, ucInput[d.ulPos + 1]? with
    | some i, some j =>
      let i := i.toNat ||| ((j.toNat &&& 0xf0) <<< 4)
      let j := (j.toNat &&& 0x0f) + THRESHOLD
      .next (copyBytes i (j + 1) { d with ulPos := d.ulPos + 2 })
    | _, _ => .done d.out

def decodePass (ucInput : List UInt8) (d : DecState) : Option (Pass DecState (List UInt8)) :=
  let flags := d.flags >>> 1
  if flags &&& 256 = 0 then
    match ucInput[d.ulPos]? with
    | none => some (.done d.out)
    | some c => some (decodeUnit ucInput { d with ulPos := d.ulPos + 1, flags := c.toNat ||| 0xff00 })
  else some (decodeUnit ucInput { d with flags := flags })

/-- `Decode`: the bytes stored in `ucOutput`. `block` is the ring as it was allocated. Every pass but the last reads a
byte or more. -/
def decode (block : Option (ℕ → UInt8)) (ucInput : List UInt8) : Option (List UInt8) :=
  match block with
  | none => some []
  | some textBuf => loop (decodePass ucInput) (ucInput.length + 1)
    { textBuf := fun i => if i < N - F then 32 else textBuf i
      r := N - F, flags := 0, ulPos := 0, out := [] }

end NasFirmware.Lzss
