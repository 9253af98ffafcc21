import Mathlib.Tactic

-- CRC-32/ISO-HDLC: polynomial 0x04C11DB7 reflected, initial value and final mask 0xFFFFFFFF.

namespace Crc32

def shift (crc : UInt32) : UInt32 :=
  if crc &&& 1 = 1 then (crc >>> 1) ^^^ 0xEDB88320 else crc >>> 1

def feed (crc : UInt32) (b : UInt8) : UInt32 :=
  shift^[8] (crc ^^^ b.toUInt32)

def checksum (bs : List UInt8) : UInt32 :=
  bs.foldl feed 0xFFFFFFFF ^^^ 0xFFFFFFFF

-- The checksum of the bytes that `crc` covers and of `bs` behind them.
def update (crc : UInt32) (bs : List UInt8) : UInt32 :=
  bs.foldl feed (crc ^^^ 0xFFFFFFFF) ^^^ 0xFFFFFFFF

theorem update_nil (crc : UInt32) : update crc [] = crc := by
  rw [update, List.foldl_nil, UInt32.xor_assoc, UInt32.xor_self, UInt32.xor_zero]

theorem update_append (crc : UInt32) (a b : List UInt8) :
    update crc (a ++ b) = update (update crc a) b := by
  have h := update_nil (a.foldl feed (crc ^^^ 0xFFFFFFFF))
  rw [update, List.foldl_nil] at h
  rw [update, update, update, h, List.foldl_append]

theorem checksum_eq_update (bs : List UInt8) : checksum bs = update 0 bs := by
  simp [checksum, update]

example : checksum [0x31, 0x32, 0x33, 0x34, 0x35, 0x36, 0x37, 0x38, 0x39] = 0xCBF43926 := by
  decide +kernel

end Crc32
