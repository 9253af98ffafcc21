import GoSecs.Lib.BigEndian

-- SHA-256 and HMAC-SHA-256.

open BigEndian

namespace Sha256

-- The 64 round constants, eight in a row.
def constants : List UInt32 :=
  [0x428a2f9871374491b5c0fbcfe9b5dba53956c25b59f111f1923f82a4ab1c5ed5,
   0xd807aa9812835b01243185be550c7dc372be5d7480deb1fe9bdc06a7c19bf174,
   0xe49b69c1efbe47860fc19dc6240ca1cc2de92c6f4a7484aa5cb0a9dc76f988da,
   0x983e5152a831c66db00327c8bf597fc7c6e00bf3d5a7914706ca635114292967,
   0x27b70a852e1b21384d2c6dfc53380d13650a7354766a0abb81c2c92e92722c85,
   0xa2bfe8a1a81a664bc24b8b70c76c51a3d192e819d6990624f40e3585106aa070,
   0x19a4c1161e376c082748774c34b0bcb5391c0cb34ed8aa4a5b9cca4f682e6ff3,
   0x748f82ee78a5636f84c878148cc7020890befffaa4506cebbef9a3f7c67178f2].flatMap fun r =>
    (fields 4 8 (bytes 32 r)).map fun b => .ofNat (nat b)

structure State where
  (a b c d e f g h : UInt32)

def State.init : State :=
  ⟨0x6a09e667, 0xbb67ae85, 0x3c6ef372, 0xa54ff53a, 0x510e527f, 0x9b05688c, 0x1f83d9ab, 0x5be0cd19⟩

def State.add (s t : State) : State :=
  ⟨s.a + t.a, s.b + t.b, s.c + t.c, s.d + t.d, s.e + t.e, s.f + t.f, s.g + t.g, s.h + t.h⟩

def rotr (x n : UInt32) : UInt32 :=
  x >>> n ||| x <<< (32 - n)

-- One round, with the sum `kw` of its constant and its word of the schedule.
def State.round (s : State) (kw : UInt32) : State :=
  let ch  := (s.e &&& s.f) ^^^ (~~~s.e &&& s.g)
  let maj := (s.a &&& s.b) ^^^ (s.a &&& s.c) ^^^ (s.b &&& s.c)
  let t₁  := s.h + (rotr s.e 6 ^^^ rotr s.e 11 ^^^ rotr s.e 25) + ch + kw
  let t₂  := (rotr s.a 2 ^^^ rotr s.a 13 ^^^ rotr s.a 22) + maj
  ⟨t₁ + t₂, s.a, s.b, s.c, s.d + t₁, s.e, s.f, s.g⟩

-- The word of the schedule behind the sixteen words `w`.
def next (w : List UInt32) : UInt32 :=
  let x := w.getD 1 0
  let y := w.getD 14 0
  (rotr y 17 ^^^ rotr y 19 ^^^ y >>> 10) + w.getD 9 0 +
    (rotr x 7 ^^^ rotr x 18 ^^^ x >>> 3) + w.getD 0 0

def rounds : List UInt32 → State → List UInt32 → State
  | [],      s, _ => s
  | k :: ks, s, w => rounds ks (s.round (k + w.getD 0 0)) (w.tail ++ [next w])

def compress (s : State) (block : List UInt8) : State :=
  s.add (rounds constants s ((fields 4 16 block).map fun b => .ofNat (nat b)))

def pad (m : List UInt8) : List UInt8 :=
  m ++ 0x80 :: List.replicate ((119 - m.length % 64) % 64) 0 ++ bytes 8 (8 * m.length)

def sum (m : List UInt8) : List UInt8 :=
  let s := (fields 64 ((pad m).length / 64) (pad m)).foldl compress .init
  [s.a, s.b, s.c, s.d, s.e, s.f, s.g, s.h].flatMap fun x => bytes 4 x.toNat

@[simp]
theorem length_sum (m : List UInt8) : (sum m).length = 32 := by
  simp [sum]

def hmac (key m : List UInt8) : List UInt8 :=
  let key := if 64 < key.length then sum key else key
  let key := key ++ List.replicate (64 - key.length) 0
  sum (key.map (· ^^^ 0x5c) ++ sum (key.map (· ^^^ 0x36) ++ m))

example : nat (sum [0x61, 0x62, 0x63]) =
    0xba7816bf8f01cfea414140de5dae2223b00361a396177a9cb410ff61f20015ad := by
  decide +kernel

end Sha256
