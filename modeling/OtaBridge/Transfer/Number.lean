import OtaBridge.Logic.Substring
import OtaBridge.Text

/-!
# The number files

`readUint32FromFile` of the client and of both servers: the first line of a file, read with
`operator>>` of a string stream. `extractUint32` is that operator for `uint32_t`: white space is
skipped, a sign is taken, base 16 takes a `0x`, and the digits end at the first byte that is none.
-/

namespace OtaBridge.Transfer

open Logic.Substring

/-- The value of a digit in base `base`. -/
def digit (base : Nat) (b : Byte) : Option Nat :=
  let d :=
    if 48 ≤ b ∧ b ≤ 57 then some (b.toNat - 48)
    else if 97 ≤ b ∧ b ≤ 102 then some (b.toNat - 87)
    else if 65 ≤ b ∧ b ≤ 70 then some (b.toNat - 55)
    else none
  d.filter (· < base)

/-- The digits in front of the first byte that is none. -/
def digits (base : Nat) : Text → List Nat
  | [] => []
  | b :: t =>
    match digit base b with
    | some d => d :: digits base t
    | none => []

def ofDigits (base : Nat) (ds : List Nat) : Nat := ds.foldl (fun v d => v * base + d) 0

/-- `0x` or `0X`, which base 16 skips. -/
def skipHexPrefix : Text → Text
  | 48 :: 120 :: t => t
  | 48 :: 88 :: t => t
  | t => t

/-- `ss >> valueOut`: whether the stream is still good, and the new value. With nothing but white
space the operator does not get as far as assigning a value. -/
def extractUint32 (base : Nat) (s : Text) (valueOut : UInt32) : Bool × UInt32 :=
  match s.dropWhile isspace with
  | [] => (false, valueOut)
  | c :: t =>
    let negative := c == 45
    let t := if c = 45 ∨ c = 43 then t else c :: t
    let t := if base = 16 then skipHexPrefix t else t
    let ds := digits base t
    let v := ofDigits base ds
    if ds = [] then (false, 0)
    else if UInt32.size ≤ v then (false, 4294967295)
    else (true, if negative then - UInt32.ofNat v else UInt32.ofNat v)

/-- The file cannot be opened (`none`), or holds these bytes. -/
abbrev FileState := Option (List Byte)

def readUint32FromFile (file : FileState) (valueOut : UInt32) : Bool × UInt32 :=
  match file with
  | none => (false, valueOut)
  | some content =>
    let s := content.takeWhile (· ≠ 10)
    if s = [] then (false, valueOut)
    else if find (ascii "0x") s = some 0 ∨ find (ascii "0X") s = some 0 then extractUint32 16 s valueOut
    else extractUint32 10 s valueOut

example : readUint32FromFile (some (ascii "0x1F\n")) 0 = (true, 31) := by decide

end OtaBridge.Transfer
