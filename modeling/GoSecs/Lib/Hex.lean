import GoSecs.Lib.Strings

-- Bytes in hexadecimal, as Go's package `encoding/hex` writes and reads them.

namespace Hex

open Strings

def lowerDigits : List UInt8 :=
  ascii "0123456789abcdef"

def digit (n : Nat) : UInt8 :=
  lowerDigits.getD n 0

def encode (b : List UInt8) : List UInt8 :=
  b.flatMap fun c => [digit (c.toNat / 16), digit (c.toNat % 16)]

def value (c : UInt8) : Option Nat :=
  if '0'.toUInt8 ≤ c ∧ c ≤ '9'.toUInt8 then some (c.toNat - 48)
  else if 'a'.toUInt8 ≤ c ∧ c ≤ 'f'.toUInt8 then some (c.toNat - 87)
  else if 'A'.toUInt8 ≤ c ∧ c ≤ 'F'.toUInt8 then some (c.toNat - 55)
  else none

def decode : List UInt8 → Option (List UInt8)
  | [] => some []
  | [_] => none
  | a :: b :: s => do
    let hi ← value a
    let lo ← value b
    return .ofNat (hi * 16 + lo) :: (← decode s)

theorem value_digit {n : Nat} (h : n < 16) : value (digit n) = some n := by
  interval_cases n <;> decide

theorem decode_encode (b : List UInt8) : decode (encode b) = some b := by
  induction b
  case nil => rfl
  case cons c b hi =>
    have hc : c.toNat / 16 * 16 + c.toNat % 16 = c.toNat := Nat.div_add_mod' ..
    have hlt := c.toNat_lt
    show decode (digit (c.toNat / 16) :: digit (c.toNat % 16) :: encode b) = _
    rw [decode, value_digit (by omega), value_digit (by omega), hi]
    show some (UInt8.ofNat (c.toNat / 16 * 16 + c.toNat % 16) :: b) = _
    rw [hc, UInt8.ofNat_toNat]

theorem length_encode (b : List UInt8) : (encode b).length = 2 * b.length := by
  induction b
  case nil => rfl
  case cons c b hi =>
    show (digit _ :: digit _ :: encode b).length = _
    rw [List.length_cons, List.length_cons, List.length_cons, hi]
    omega

theorem digit_mem {n : Nat} (h : n < 16) : digit n ∈ lowerDigits := by
  interval_cases n <;> decide

theorem mem_encode {b : List UInt8} {c : UInt8} (h : c ∈ encode b) : c ∈ lowerDigits := by
  have ⟨d, _, hd⟩ := List.mem_flatMap.mp h
  have hlt := d.toNat_lt
  rcases List.mem_pair.mp hd with rfl | rfl
  · exact digit_mem (by omega)
  · exact digit_mem (by omega)

end Hex
