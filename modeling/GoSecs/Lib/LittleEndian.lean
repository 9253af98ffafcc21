import GoSecs.Lib.BigEndian

-- Little-endian numerals over octet strings, unsigned and two's complement, of any width, and the
-- fields of fixed layouts made of them.

namespace LittleEndian

-- The `w` low-order octets of `n`, least significant first.
def bytes : Nat → Nat → List UInt8
  | 0,     _ => []
  | w + 1, n => UInt8.ofNat n :: bytes w (n / 256)

def nat : List UInt8 → Nat
  | [] => 0
  | b :: bs => b.toNat + 256 * nat bs

def intBytes (w : Nat) (v : Int) : List UInt8 :=
  bytes w (v % (256 ^ w : Nat)).toNat

-- The integer whose two's complement in `w` octets is `n`.
def signed (w n : Nat) : Int :=
  Int.bmod n (256 ^ w)

def InRange (w : Nat) (v : Int) : Prop :=
  -(256 ^ w / 2 : Nat) ≤ v ∧ v < (256 ^ w / 2 : Nat)

-- The number in the `w` octets at `off`.
def field (bs : List UInt8) (off w : Nat) : Nat :=
  nat ((bs.drop off).take w)

instance (w : Nat) (v : Int) : Decidable (InRange w v) :=
  inferInstanceAs (Decidable (_ ∧ _))

@[simp]
theorem length_bytes (w n : Nat) : (bytes w n).length = w := by
  induction w generalizing n
  case zero => rfl
  case succ w hi => simp [bytes, hi]

@[simp]
theorem length_intBytes (w : Nat) (v : Int) : (intBytes w v).length = w :=
  length_bytes ..

theorem nat_lt (bs : List UInt8) : nat bs < 256 ^ bs.length := by
  induction bs
  case nil => simp [nat]
  case cons b bs hi =>
    have hb := b.toNat_lt
    simp only [nat, List.length_cons, pow_succ]
    omega

theorem nat_bytes (w n : Nat) : nat (bytes w n) = n % 256 ^ w := by
  induction w generalizing n
  case zero => simp [bytes, nat, Nat.mod_one]
  case succ w hi =>
    have h8 : (2 : Nat) ^ 8 = 256 := rfl
    rw [bytes, nat, hi, UInt8.toNat_ofNat', h8, pow_succ', Nat.mod_mul]

theorem nat_bytes_of_lt {w n : Nat} (h : n < 256 ^ w) : nat (bytes w n) = n := by
  rw [nat_bytes, Nat.mod_eq_of_lt h]

theorem signed_intBytes {w : Nat} {v : Int} (h : InRange w v) :
    signed w (nat (intBytes w v)) = v := by
  rw [signed, intBytes, nat_bytes_of_lt (BigEndian.toNat_emod_lt w v)]
  exact BigEndian.bmod_toNat_emod h

theorem field_lt (bs : List UInt8) (off w : Nat) : field bs off w < 256 ^ w := by
  have h := nat_lt ((bs.drop off).take w)
  have hl : ((bs.drop off).take w).length ≤ w := by simp
  exact h.trans_le (Nat.pow_le_pow_right (by omega) hl)

theorem field_bytes (w n : Nat) (bs : List UInt8) : field (bytes w n ++ bs) 0 w = n % 256 ^ w := by
  simp [field, nat_bytes]

theorem field_append {as : List UInt8} {off : Nat} (h : as.length ≤ off) (bs : List UInt8)
    (w : Nat) : field (as ++ bs) off w = field bs (off - as.length) w := by
  simp [field, List.drop_append, List.drop_eq_nil_of_le h]

end LittleEndian
