import Mathlib.Tactic

open List

-- Big-endian numerals over octet strings, unsigned and two's complement, of any width.

namespace BigEndian

-- The `w` low-order octets of `n`, most significant first.
def bytes : Nat → Nat → List UInt8
  | 0,     _ => []
  | w + 1, n => UInt8.ofNat (n / 256 ^ w) :: bytes w n

def nat (bs : List UInt8) : Nat :=
  bs.foldl (fun n b => n * 256 + b.toNat) 0

-- Two's complement: the `w` low-order octets of the (possibly negative) integer `v`.
def intBytes (w : Nat) (v : Int) : List UInt8 :=
  bytes w (v % (256 ^ w : Nat)).toNat

def int (bs : List UInt8) : Int :=
  Int.bmod (nat bs) (256 ^ bs.length)

def InRange (w : Nat) (v : Int) : Prop :=
  -(256 ^ w / 2 : Nat) ≤ v ∧ v < (256 ^ w / 2 : Nat)

-- The first `n` fields of `w` octets each.
def fields (w : Nat) : Nat → List UInt8 → List (List UInt8)
  | 0,     _  => []
  | n + 1, bs => bs.take w :: fields w n (bs.drop w)

@[simp]
theorem length_bytes (w n : Nat) : (bytes w n).length = w := by
  induction w
  case zero => rfl
  case succ w hi => simp [bytes, hi]

@[simp]
theorem length_intBytes (w : Nat) (v : Int) : (intBytes w v).length = w :=
  length_bytes ..

theorem foldl_eq (bs : List UInt8) (n : Nat) :
    bs.foldl (fun n b => n * 256 + b.toNat) n = n * 256 ^ bs.length + nat bs := by
  induction bs generalizing n
  case nil => simp [nat]
  case cons b bs hi =>
    rw [nat, foldl_cons, hi, foldl_cons, hi, length_cons]
    ring

@[simp]
theorem nat_nil : nat [] = 0 :=
  rfl

@[simp]
theorem nat_cons (b : UInt8) (bs : List UInt8) :
    nat (b :: bs) = b.toNat * 256 ^ bs.length + nat bs := by
  rw [nat, foldl_cons, foldl_eq, Nat.zero_mul, Nat.zero_add]

theorem nat_lt (bs : List UInt8) : nat bs < 256 ^ bs.length := by
  induction bs
  case nil => simp
  case cons b bs hi =>
    have hb : b.toNat ≤ 255 := Nat.le_of_lt_succ b.toNat_lt
    have := Nat.mul_le_mul_right (256 ^ bs.length) hb
    simp only [nat_cons, length_cons, pow_succ]
    omega

theorem nat_bytes (w n : Nat) : nat (bytes w n) = n % 256 ^ w := by
  induction w
  case zero => simp [bytes, Nat.mod_one]
  case succ w hi =>
    simp only [bytes, nat_cons, length_bytes, hi, UInt8.toNat_ofNat']
    rw [pow_succ 256 w, Nat.mod_mul, Nat.mul_comm (256 ^ w), Nat.add_comm]

variable {w : Nat}

theorem nat_bytes_of_lt {n : Nat} (h : n < 256 ^ w) : nat (bytes w n) = n := by
  rw [nat_bytes, Nat.mod_eq_of_lt h]

theorem bytes_mod (w n k : Nat) (h : w ≤ k) : bytes w (n % 256 ^ k) = bytes w n := by
  induction w
  case zero => rfl
  case succ w hi =>
    have hk : (256 : Nat) ^ k = 256 ^ w * 256 ^ (k - w) := by rw [← pow_add]; congr 1; omega
    have hd : n % 256 ^ k / 256 ^ w = n / 256 ^ w % 256 ^ (k - w) := by
      rw [hk, Nat.mod_mul_right_div_self]
    have hm : (256 : Nat) ∣ 256 ^ (k - w) := dvd_pow_self _ (by omega)
    simp only [bytes, hi (by omega), hd, List.cons.injEq, and_true]
    apply UInt8.toNat_inj.mp
    simp [Nat.mod_mod_of_dvd _ hm]

theorem bytes_nat (bs : List UInt8) : bytes bs.length (nat bs) = bs := by
  induction bs
  case nil => rfl
  case cons b bs hi =>
    have hn := nat_lt bs
    have hd : (b.toNat * 256 ^ bs.length + nat bs) / 256 ^ bs.length = b.toNat := by
      rw [Nat.mul_comm, Nat.mul_add_div (by positivity), Nat.div_eq_of_lt hn, Nat.add_zero]
    have ht : bytes bs.length (b.toNat * 256 ^ bs.length + nat bs) = bs := by
      rw [← bytes_mod _ _ _ le_rfl, Nat.mul_comm, Nat.mul_add_mod, Nat.mod_eq_of_lt hn, hi]
    simp [bytes, hd, ht]

theorem toNat_emod_lt (w : Nat) (v : Int) : (v % (256 ^ w : Nat)).toNat < 256 ^ w := by
  have hp : (0 : Int) < (256 ^ w : Nat) := by positivity
  have := Int.emod_lt_of_pos v hp
  omega

theorem bmod_toNat_emod {v : Int} (h : InRange w v) :
    Int.bmod (v % (256 ^ w : Nat)).toNat (256 ^ w) = v := by
  rw [Int.toNat_of_nonneg (Int.emod_nonneg v (by positivity)), Int.emod_bmod]
  apply Int.bmod_eq_of_le
  · have := h.1; push_cast at *; omega
  · have := h.2; push_cast at *; omega

theorem int_intBytes {v : Int} (h : InRange w v) : int (intBytes w v) = v := by
  rw [int, length_intBytes, intBytes, nat_bytes_of_lt (toNat_emod_lt w v), bmod_toNat_emod h]

theorem int_inRange (bs : List UInt8) (h : bs ≠ []) : InRange bs.length (int bs) := by
  have hp : 0 < 256 ^ bs.length := by positivity
  have ⟨k, hk⟩ : 2 ∣ 256 ^ bs.length := dvd_pow (by decide) (by simpa using h)
  have h₁ := Int.le_bmod (x := nat bs) hp
  have h₂ := Int.bmod_lt (x := nat bs) hp
  simp only [hk] at h₁ h₂
  constructor <;> simp only [int, hk] <;> omega

theorem fields_eq_range (w n : Nat) (bs : List UInt8) :
    fields w n bs = (List.range n).map fun i => (bs.drop (i * w)).take w := by
  induction n generalizing bs
  case zero => rfl
  case succ n hi =>
    simp [fields, hi, range_succ_eq_map, Nat.succ_mul, Nat.add_comm]

variable {α : Type}

theorem fields_flatMap {enc : α → List UInt8} {as : List α}
    (h : ∀ a ∈ as, (enc a).length = w) : fields w as.length (as.flatMap enc) = as.map enc := by
  induction as
  case nil => rfl
  case cons a as hi =>
    have ha := h a (by simp)
    have := hi fun b hb => h b (by simp [hb])
    simp only [length_cons, flatMap_cons, fields, map_cons]
    rw [take_left' ha, drop_left' ha, this]

theorem length_flatMap {enc : α → List UInt8} {as : List α}
    (h : ∀ a ∈ as, (enc a).length = w) : (as.flatMap enc).length = as.length * w := by
  induction as
  case nil => simp
  case cons a as hi =>
    rw [flatMap_cons, length_append, h a (by simp), hi fun b hb => h b (by simp [hb]),
      length_cons]
    ring

end BigEndian
