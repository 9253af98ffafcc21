import GoSecs.Lib.BigEndian

-- AES-256, its message authentication code CMAC, and the deterministic authenticated cipher AES-SIV
-- with one string of associated data. A block is the number of its sixteen bytes.

open BigEndian List

namespace AesSiv

section Aes

-- The rows of the S-box.
def sbox : List Nat :=
  [0x637c777bf26b6fc53001672bfed7ab76, 0xca82c97dfa5947f0add4a2af9ca472c0,
   0xb7fd9326363ff7cc34a5e5f171d83115, 0x04c723c31896059a071280e2eb27b275,
   0x09832c1a1b6e5aa0523bd6b329e32f84, 0x53d100ed20fcb15b6acbbe394a4c58cf,
   0xd0efaafb434d338545f9027f503c9fa8, 0x51a3408f929d38f5bcb6da2110fff3d2,
   0xcd0c13ec5f974417c4a77e3d645d1973, 0x60814fdc222a908846eeb814de5e0bdb,
   0xe0323a0a4906245cc2d3ac629195e479, 0xe7c8376d8dd54ea96c56f4ea657aae08,
   0xba78252e1ca6b4c6e8dd741f4bbd8b8a, 0x703eb5664803f60e613557b986c11d9e,
   0xe1f8981169d98e949b1e87e9ce5528df, 0x8ca1890dbfe6426841992d0fb054bb16]

def subByte (x : UInt8) : UInt8 :=
  .ofNat (sbox.getD (x.toNat / 16) 0 >>> (8 * (15 - x.toNat % 16)))

def xor (a b : List UInt8) : List UInt8 :=
  zipWith (· ^^^ ·) a b

def shiftRows (s : List UInt8) : List UInt8 :=
  (range 16).map fun i => s.getD (5 * i % 16) 0

def xtime (x : UInt8) : UInt8 :=
  x <<< 1 ^^^ if x < 0x80 then 0 else 0x1b

def mixColumns : List UInt8 → List UInt8
  | a :: b :: c :: d :: s =>
    let t := a ^^^ b ^^^ c ^^^ d
    (a ^^^ t ^^^ xtime (a ^^^ b)) :: (b ^^^ t ^^^ xtime (b ^^^ c)) ::
      (c ^^^ t ^^^ xtime (c ^^^ d)) :: (d ^^^ t ^^^ xtime (d ^^^ a)) :: mixColumns s
  | s => s

-- The `n` words of the key schedule from number `i` on, behind the eight words `w`.
def expand : (n i : Nat) → (w : List (List UInt8)) → List (List UInt8)
  | 0,     _, _ => []
  | n + 1, i, w =>
    let t := w.getD 7 []
    let t :=
      if i % 8 = 0 then xor ((t.rotateLeft 1).map subByte) [.ofNat (2 ^ (i / 8 - 1)), 0, 0, 0]
      else if i % 8 = 4 then t.map subByte
      else t
    let word := xor (w.headD []) t
    word :: expand n (i + 1) (w.tail ++ [word])

-- The 15 round keys.
def roundKeys (key : List UInt8) : List (List UInt8) :=
  fields 16 15 (key ++ (expand 52 8 (fields 4 8 key)).flatten)

def encryptBlock (key : List UInt8) (b : Nat) : Nat :=
  let keys := roundKeys key
  let s := ((keys.drop 1).take 13).foldl
    (fun s k => xor (mixColumns (shiftRows (s.map subByte))) k) (xor (bytes 16 b) (keys.headD []))
  nat (xor (shiftRows (s.map subByte)) (keys.getD 14 []))

end Aes

-- The double of a block in the field of 2 ^ 128 elements.
def dbl (b : Nat) : Nat :=
  2 * b % 2 ^ 128 ^^^ if b < 2 ^ 127 then 0 else 0x87

-- A short block, with a one bit behind it.
def pad (b : List UInt8) : Nat :=
  nat (b ++ 0x80 :: replicate (15 - b.length) 0)

def cmac (key m : List UInt8) : Nat :=
  let n := (m.length - 1) / 16
  let last := m.drop (16 * n)
  let k := dbl (encryptBlock key 0)
  let c := (fields 16 n m).foldl (fun c b => encryptBlock key (c ^^^ nat b)) 0
  encryptBlock key (c ^^^ if last.length = 16 then nat last ^^^ k else pad last ^^^ dbl k)

def s2v (key ad p : List UInt8) : Nat :=
  let d := dbl (cmac key (bytes 16 0)) ^^^ cmac key ad
  if p.length < 16 then
    cmac key (bytes 16 (dbl d ^^^ pad p))
  else
    let n := p.length - 16
    cmac key (p.take n ++ bytes 16 (nat (p.drop n) ^^^ d))

-- The counter is the synthetic IV without two of its bits.
def keystream (key iv : List UInt8) (n : Nat) : List UInt8 :=
  let q := nat iv &&& (2 ^ 128 - 1 - 2 ^ 63 - 2 ^ 31)
  (range n).flatMap fun i => bytes 16 (encryptBlock key (q + i))

def mask : List UInt8 → List UInt8 → List UInt8
  | a :: s, k :: ks => (a ^^^ k) :: mask s ks
  | s,      _ => s

def ctr (key iv s : List UInt8) : List UInt8 :=
  mask s (keystream key iv ((s.length + 15) / 16))

def encrypt (key p ad : List UInt8) : Option (List UInt8) :=
  if key.length = 64 then
    let iv := bytes 16 (s2v (key.take 32) ad p)
    some (iv ++ ctr (key.drop 32) iv p)
  else
    none

def decrypt (key c ad : List UInt8) : Option (List UInt8) :=
  if key.length = 64 ∧ 16 ≤ c.length then
    let iv := c.take 16
    let p := ctr (key.drop 32) iv (c.drop 16)
    if bytes 16 (s2v (key.take 32) ad p) = iv then some p else none
  else
    none

@[simp]
theorem length_mask (s ks : List UInt8) : (mask s ks).length = s.length := by
  fun_induction mask s ks
  case case1 hi => simp [hi]
  case case2    => rfl

@[simp]
theorem mask_mask (s ks : List UInt8) : mask (mask s ks) ks = s := by
  fun_induction mask s ks
  case case1 a s k ks hi => rw [mask, hi, UInt8.xor_assoc, UInt8.xor_self, UInt8.xor_zero]
  case case2 s ks h =>
    rcases s with _ | ⟨a, s⟩ <;> rcases ks with _ | ⟨k, ks⟩
    exacts [rfl, rfl, rfl, (h a s k ks rfl rfl).elim]

@[simp]
theorem length_ctr (key iv s : List UInt8) : (ctr key iv s).length = s.length :=
  length_mask ..

@[simp]
theorem ctr_ctr (key iv s : List UInt8) : ctr key iv (ctr key iv s) = s := by
  simp [ctr]

variable {key p ad c : List UInt8}

theorem encrypt_eq_some : encrypt key p ad = some c ↔
    let iv := bytes 16 (s2v (key.take 32) ad p)
    key.length = 64 ∧ iv ++ ctr (key.drop 32) iv p = c := by
  simp [encrypt]

theorem length_encrypt (h : encrypt key p ad = some c) : c.length = 16 + p.length := by
  obtain ⟨_, rfl⟩ := encrypt_eq_some.mp h
  simp

theorem decrypt_encrypt (h : encrypt key p ad = some c) : decrypt key c ad = some p := by
  obtain ⟨hk, rfl⟩ := encrypt_eq_some.mp h
  simp [decrypt, hk]

end AesSiv
