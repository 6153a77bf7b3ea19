import NasFirmware.Lib.Limbs
import NasFirmware.Lib.Loop

/-!
# Big integers

`big_int.c` of the boot loader: numbers of up to 129 limbs of 32 bits for the signatures of secure boot.

Allocations succeed, and `lldiv` is the exact quotient. The bounds of the loops of `Mod` and `Exp_Mod` are
the values of the numbers that get smaller in them.
-/

namespace NasFirmware.BigInt

open CLoop Limbs

def maxLen : ℕ := 129

/-- `BI`. The sign is 1 for a nonnegative number and 0 for a negative one. -/
structure BI where
  sign : ℤ
  length : ℕ
  value : ℕ → UInt32

def BI.digit (A : BI) (i : ℕ) : ℕ := (A.value i).toNat

def BI.val (A : BI) : ℕ := Limbs.val (2 ^ 32) A.digit A.length

def init : BI := ⟨1, 1, fun _ => 0⟩

def cleared : BI := ⟨0, 0, fun _ => 0⟩

/-- `move_p`: a number of 64 bits. -/
def moveP (b : ℕ) : BI :=
  if 0xffffffff < b then
    ⟨1, 2, Function.update (Function.update (fun _ => 0) 0 (UInt32.ofNat b)) 1 (UInt32.ofNat (b / 2 ^ 32))⟩
  else ⟨1, 1, Function.update (fun _ => 0) 0 (UInt32.ofNat b)⟩

def cmpLimbs (a b : ℕ → UInt32) : ℕ → Ordering
  | 0 => .eq
  | n + 1 => if b n < a n then .gt else if a n < b n then .lt else cmpLimbs a b n

/-- `Cmp`: the lengths first, without the signs. -/
def cmp (A B : BI) : Ordering :=
  if B.length < A.length then .gt
  else if A.length < B.length then .lt
  else cmpLimbs A.value B.value A.length

/-! ## Addition and subtraction -/

def addLimbs (a b : ℕ → UInt32) : ℕ → (ℕ → UInt32) × ℕ
  | 0 => (a, 0)
  | n + 1 =>
    let (v, carry) := addLimbs a b n
    let sum := (b n).toNat + (v n).toNat + carry
    (Function.update v n (UInt32.ofNat sum), if 0xffffffff < sum then 1 else 0)

def addSame (A B : BI) : BI :=
  let length := if A.length < B.length then B.length else A.length
  let (v, carry) := addLimbs A.value B.value length
  if length < maxLen then ⟨A.sign, length + carry, Function.update v length (UInt32.ofNat carry)⟩
  else ⟨A.sign, length, v⟩

/-- The loop of `Sub`, which writes the limbs of `s - d` to `v`: the limbs after `n` passes, and the borrow. -/
def subLimbs (s d v : ℕ → UInt32) : ℕ → (ℕ → UInt32) × UInt32
  | 0 => (v, 0)
  | n + 1 =>
    let (v, carry) := subLimbs s d v n
    if d n ≤ s n - carry then (Function.update v n (s n - carry - d n), 0)
    else
      let num := 2 ^ 32 + (s n).toNat
      (Function.update v n (UInt32.ofNat (num - carry.toNat - (d n).toNat)), 1)

/-- The last loop of `Sub`: drop leading zeros. Below the first limb it meets the old length, which is
not 0. -/
def trim (v : ℕ → UInt32) : ℕ → ℕ
  | 0 => 0
  | n + 1 => if v n = 0 then trim v n else n + 1

def subSame (A B : BI) : BI :=
  match cmp A B with
  | .eq => cleared
  | .gt =>
    let v := (subLimbs A.value B.value A.value A.length).1
    ⟨A.sign, trim v A.length, v⟩
  | .lt =>
    let v := (subLimbs B.value A.value A.value B.length).1
    ⟨1 - A.sign, trim v B.length, v⟩

/-- `Add`: the sum, in the place of `A`, and `B`, whose sign is flipped for a subtraction. -/
def add (A B : BI) : BI × BI :=
  if A.sign = B.sign then (addSame A B, B)
  else
    let p := { B with sign := 1 - B.sign }
    (subSame A p, p)

/-- `Sub`: the difference, in the place of `A`, and `B`. -/
def sub (A B : BI) : BI × BI :=
  if A.sign = B.sign then (subSame A B, B)
  else
    let p := { B with sign := 1 - B.sign }
    (addSame A p, p)

/-- The inner loop of `Mul`: one row, and the carry. -/
def mulRow (a : ℕ → UInt32) (b : UInt32) (q : ℕ → UInt32) : ℕ → (ℕ → UInt32) × ℕ
  | 0 => (q, 0)
  | j + 1 =>
    let (q, carry) := mulRow a b q j
    let mul := (a j).toNat * b.toNat + carry
    (Function.update q j (UInt32.ofNat mul), mul / 2 ^ 32)

/-- Move the limbs below `length` up by `i`, from the top down, and clear the ones below. -/
def shiftUp (v : ℕ → UInt32) (length i : ℕ) : ℕ → UInt32 := fun k =>
  if k < i then 0 else if k < length then v (k - i) else v k

def mulLimb (A B q : BI) (i : ℕ) : BI :=
  let (v, carry) := mulRow A.value (B.value i) q.value A.length
  if carry ≠ 0 ∧ A.length < maxLen then
    ⟨q.sign, A.length + 1, Function.update v A.length (UInt32.ofNat carry)⟩
  else ⟨q.sign, A.length, v⟩

def mulShifted (A B q : BI) (i : ℕ) : BI :=
  let q := mulLimb A B q i
  if q.length + i < maxLen then ⟨q.sign, q.length + i, shiftUp q.value (q.length + i) i⟩ else q

/-- The outer loop of `Mul`: the sum of the first `n` rows, and the last row. -/
def mulRows (A B : BI) : ℕ → BI × BI
  | 0 => (init, init)
  | i + 1 =>
    let (p, q) := mulRows A B i
    add p (mulShifted A B q i)

def mul (A B : BI) : BI :=
  { (mulRows A B B.length).1 with sign := if A.sign + B.sign = 1 then 0 else 1 }

/-- The loop of `Sub_p` that looks for a limb to borrow from. -/
def borrowPass (s : (ℕ → UInt32) × ℕ) : Option (Pass ((ℕ → UInt32) × ℕ) ((ℕ → UInt32) × ℕ)) :=
  if s.1 s.2 = 0 then some (.next (Function.update s.1 s.2 0xffffffff, s.2 + 1)) else some (.done s)

/-- `Sub_p`, for a `b` that is not negative. -/
def subP (A : BI) (b : UInt32) : Option BI :=
  if b ≤ A.value 0 then some { A with value := Function.update A.value 0 (A.value 0 - b) }
  else if A.length = 1 then
    some ⟨1 - A.sign, A.length, Function.update A.value 0 (b - A.value 0)⟩
  else
    (loop borrowPass maxLen (Function.update A.value 0 (A.value 0 - b), 1)).map fun (v, i) =>
      ⟨A.sign, if v i = 1 then A.length - 1 else A.length, Function.update v i (v i - 1)⟩

/-- The loop of `Div_p`, from limb `n - 1` down: the limbs and the remainder so far. -/
def divLimbs (b : ℕ) : ℕ → (ℕ → UInt32) × ℕ → (ℕ → UInt32) × ℕ
  | 0, s => s
  | n + 1, (v, carry) =>
    let div := carry * 2 ^ 32 + (v n).toNat
    divLimbs b n (Function.update v n (UInt32.ofNat (div / b)), div - div / b * b)

/-- `Div_p`, for a positive `b`. -/
def divP (A : BI) (b : ℕ) : BI :=
  if A.length = 1 then { A with value := Function.update A.value 0 (UInt32.ofNat ((A.value 0).toNat / b)) }
  else
    let v := (divLimbs b A.length (A.value, 0)).1
    ⟨A.sign, if v (A.length - 1) = 0 then A.length - 1 else A.length, v⟩

/-- Subtract `div` times `B`, moved up by `len` limbs. -/
def reduceBy (p B : BI) (div len : ℕ) : BI :=
  let q := mul (moveP div) B
  (sub p ⟨q.sign, q.length + len, shiftUp q.value (q.length + len) len⟩).1

def modEnd (p B : BI) : BI := if cmp p B = .eq then cleared else p

/-- One pass of the loop of `Mod`. The quotient is estimated from the leading limbs. -/
def modPass (s : BI × BI) : Option (Pass (BI × BI) (BI × BI)) :=
  let (p, B) := s
  let pTop := p.value (p.length - 1)
  let bTop := B.value (B.length - 1)
  if cmp p B = .gt then
    if bTop < pTop then
      some (.next (reduceBy p B (pTop.toNat / (bTop + 1).toNat) (p.length - B.length), B))
    else if B.length < p.length then
      let num := pTop.toNat * 2 ^ 32 + (p.value (p.length - 2)).toNat
      let div := if bTop = 0xffffffff then num / 2 ^ 32 else num / (bTop + 1).toNat
      some (.next (reduceBy p B div (p.length - B.length - 1), B))
    else
      let (p, B) := sub p B
      some (.done (modEnd p B, B))
  else some (.done (modEnd p B, B))

/-- `Mod`: the remainder, in the place of `A`, and `B`. -/
def mod (A B : BI) : Option (BI × BI) := loop modPass (A.val + 1) (A, B)

structure Power where
  x : BI
  y : BI
  z : BI
  m : BI

def expPass (s : Power) : Option (Pass Power BI) :=
  if s.z.length ≠ 1 ∨ s.z.value 0 ≠ 0 then
    if s.z.value 0 &&& 1 ≠ 0 then do
      let z ← subP s.z 1
      let (x, m) ← mod (mul s.x s.y) s.m
      some (.next ⟨x, s.y, z, m⟩)
    else do
      let (y, m) ← mod (mul s.y s.y) s.m
      some (.next ⟨s.x, y, divP s.z 2, m⟩)
  else some (.done s.x)

def expMod (base exp m : BI) : Option BI := loop expPass (exp.val + 1) ⟨moveP 1, base, exp, m⟩

end NasFirmware.BigInt
