import GoSecs.Lib.Strings

-- Bytes in base64 with padding, as Go's package `encoding/base64` writes and strictly reads them.

namespace Base64

open Strings

-- The 64 digits of an encoding.
structure Alphabet where
  digits : List UInt8
  read   : ∀ n < 64, indexByte digits (digits.getD n 0) = some n
  noPad  : indexByte digits '='.toUInt8 = none
  plain  : ∀ n < 64, digits.getD n 0 ≠ '\r'.toUInt8 ∧ digits.getD n 0 ≠ '\n'.toUInt8

def common : List UInt8 :=
  (List.range' 65 26 ++ List.range' 97 26 ++ List.range' 48 10).map UInt8.ofNat

def std : Alphabet where
  digits := common ++ ['+'.toUInt8, '/'.toUInt8]
  read   := by decide +kernel
  noPad  := by decide +kernel
  plain  := by decide +kernel

def url : Alphabet where
  digits := common ++ ['-'.toUInt8, '_'.toUInt8]
  read   := by decide +kernel
  noPad  := by decide +kernel
  plain  := by decide +kernel

variable (al : Alphabet)

def pad : UInt8 := '='.toUInt8

def digit (n : Nat) : UInt8 :=
  al.digits.getD n 0

def value (c : UInt8) : Option Nat :=
  indexByte al.digits c

-- `EncodeToString`
def encode : List UInt8 → List UInt8
  | [] => []
  | [a] => [digit al (a.toNat / 4), digit al (a.toNat % 4 * 16), pad, pad]
  | [a, b] =>
    [digit al (a.toNat / 4), digit al (a.toNat % 4 * 16 + b.toNat / 16),
     digit al (b.toNat % 16 * 4), pad]
  | a :: b :: c :: s =>
    digit al (a.toNat / 4) :: digit al (a.toNat % 4 * 16 + b.toNat / 16) ::
      digit al (b.toNat % 16 * 4 + c.toNat / 64) :: digit al (c.toNat % 64) :: encode s

def valueAt (c : UInt8) (off : Nat) : Except Nat Nat :=
  match value al c with
  | some n => .ok n
  | none   => .error off

-- The quanta of four digits from offset `off` on, or the offset that Go reports. Bits that the last
-- quantum does not use are zero.
def quanta (off : Nat) : List UInt8 → Except Nat (List UInt8)
  | [] => .ok []
  | [a] => do
    let _ ← valueAt al a off
    .error off
  | [a, b] => do
    let _ ← valueAt al a off
    let _ ← valueAt al b (off + 1)
    .error off
  | [a, b, c] => do
    let _ ← valueAt al a off
    let _ ← valueAt al b (off + 1)
    if c = pad then .error (off + 3)
    let _ ← valueAt al c (off + 2)
    .error off
  | a :: b :: c :: d :: s => do
    let x ← valueAt al a off
    let y ← valueAt al b (off + 1)
    let first : UInt8 := .ofNat (x * 4 + y / 16)
    if c = pad then
      if d ≠ pad ∨ y % 16 ≠ 0 then .error (off + 2)
      if s ≠ [] then .error (off + 4)
      return [first]
    let z ← valueAt al c (off + 2)
    let second : UInt8 := .ofNat (y % 16 * 16 + z / 4)
    if d = pad then
      if z % 4 ≠ 0 then .error (off + 3)
      if s ≠ [] then .error (off + 4)
      return [first, second]
    let w ← valueAt al d (off + 3)
    let third : UInt8 := .ofNat (z % 4 * 64 + w)
    return first :: second :: third :: (← quanta (off + 4) s)

-- `Strict().DecodeString` of a text without line breaks, which Go would skip.
def decode (s : List UInt8) : Except Nat (List UInt8) :=
  quanta al 0 s

end Base64
