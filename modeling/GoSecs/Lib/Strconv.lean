import Mathlib.Tactic

-- Integers to and from text, as Go's package `strconv` converts them.

namespace Strconv

inductive NumErr
  | errSyntax
  | errRange
deriving DecidableEq

def lower (c : UInt8) : UInt8 :=
  c ||| 0x20

def isDecimal (c : UInt8) : Bool :=
  '0'.toUInt8 ≤ c && c ≤ '9'.toUInt8

def digitValue (c : UInt8) : Option Nat :=
  if isDecimal c then
    some (c.toNat - 48)
  else if 'a'.toUInt8 ≤ lower c ∧ lower c ≤ 'z'.toUInt8 then
    some ((lower c).toNat - 87)
  else
    none

-- The base that a literal's prefix chooses when the caller leaves it open, and what follows it.
def literalBase : List UInt8 → Nat × List UInt8
  | 48 :: c :: d :: s =>
    if lower c = 'b'.toUInt8 then (2, d :: s)
    else if lower c = 'o'.toUInt8 then (8, d :: s)
    else if lower c = 'x'.toUInt8 then (16, d :: s)
    else (8, c :: d :: s)
  | 48 :: s => (8, s)
  | s => (10, s)

def splitBase (s : List UInt8) : Nat → Nat × List UInt8
  | 0 => literalBase s
  | base + 1 => (base + 1, s)

-- Underscores separate digits: each one follows a digit or the base prefix, and a digit follows it.
inductive Seen
  | start | digit | underscore | other
deriving DecidableEq

def underscoreScan (hex : Bool) : Seen → List UInt8 → Bool
  | seen, [] => seen ≠ .underscore
  | seen, c :: s =>
    if isDecimal c || (hex && 'a'.toUInt8 ≤ lower c && lower c ≤ 'f'.toUInt8) then
      underscoreScan hex .digit s
    else if c = '_'.toUInt8 then
      seen = .digit && underscoreScan hex .underscore s
    else
      seen ≠ .underscore && underscoreScan hex .other s

def dropSign : List UInt8 → List UInt8
  | c :: s => if c = '-'.toUInt8 ∨ c = '+'.toUInt8 then s else c :: s
  | [] => []

def underscoreOK (s : List UInt8) : Bool :=
  match dropSign s with
  | 48 :: c :: s =>
    if lower c = 'b'.toUInt8 ∨ lower c = 'o'.toUInt8 then underscoreScan false .digit s
    else if lower c = 'x'.toUInt8 then underscoreScan true .digit s
    else underscoreScan false .start (48 :: c :: s)
  | s => underscoreScan false .start s

-- The digit loop of `ParseUint`: a value past `maxVal` ends it at once.
def scanDigits (base maxVal : Nat) (underscores : Bool) : Nat → List UInt8 → Nat × Option NumErr
  | n, [] => (n, none)
  | n, c :: s =>
    if c = '_'.toUInt8 ∧ underscores then
      scanDigits base maxVal underscores n s
    else
      match digitValue c with
      | none   => (0, some .errSyntax)
      | some d =>
        if base ≤ d then (0, some .errSyntax)
        else if maxVal < n * base + d then (maxVal, some .errRange)
        else scanDigits base maxVal underscores (n * base + d) s

def effectiveBits (bitSize : Nat) : Nat :=
  if bitSize = 0 then 64 else bitSize

def checkUnderscores (s : List UInt8) (underscores : Bool) :
    Nat × Option NumErr → Nat × Option NumErr
  | (n, none) => if underscores ∧ ¬underscoreOK s then (0, some .errSyntax) else (n, none)
  | r => r

-- The base and the bit size are those that the library accepts: 0 or 2 to 36, and 0 to 64.
def parseUint (s : List UInt8) (base bitSize : Nat) : Nat × Option NumErr :=
  if s = [] then
    (0, some .errSyntax)
  else
    checkUnderscores s (base = 0 ∧ '_'.toUInt8 ∈ (splitBase s base).2)
      (scanDigits (splitBase s base).1 (2 ^ effectiveBits bitSize - 1) (base = 0) 0
        (splitBase s base).2)

def signedResult (neg : Bool) (bits : Nat) (un : Nat) : Int × Option NumErr :=
  if neg = false ∧ 2 ^ (bits - 1) ≤ un then (2 ^ (bits - 1) - 1, some .errRange)
  else if neg ∧ 2 ^ (bits - 1) < un then (-2 ^ (bits - 1), some .errRange)
  else (if neg then -un else un, none)

def parseSigned (neg : Bool) (bitSize : Nat) : Nat × Option NumErr → Int × Option NumErr
  | (_, some .errSyntax) => (0, some .errSyntax)
  | (un, _) => signedResult neg (effectiveBits bitSize) un

def parseInt (s : List UInt8) (base bitSize : Nat) : Int × Option NumErr :=
  match s with
  | [] => (0, some .errSyntax)
  | c :: t =>
    if c = '+'.toUInt8 then parseSigned false bitSize (parseUint t base bitSize)
    else if c = '-'.toUInt8 then parseSigned true bitSize (parseUint t base bitSize)
    else parseSigned false bitSize (parseUint s base bitSize)

def decimalByte (d : Nat) : UInt8 :=
  UInt8.ofNat (48 + d)

-- `FormatUint(n, 10)`
def formatUint (n : Nat) : List UInt8 :=
  (Nat.toDigits 10 n).map Char.toUInt8

-- `FormatInt(v, 10)`
def formatInt (v : Int) : List UInt8 :=
  if v < 0 then '-'.toUInt8 :: formatUint v.natAbs else formatUint v.natAbs

variable {c : UInt8}

theorem isDecimal_iff : isDecimal c ↔ 48 ≤ c.toNat ∧ c.toNat ≤ 57 := by
  rw [isDecimal, Bool.and_eq_true, decide_eq_true_eq, decide_eq_true_eq]
  exact Iff.rfl

variable {s : List UInt8} {bitSize : Nat}

theorem parseUint_of_not_digit (h : ∀ d, digitValue c = some d → 10 ≤ d) (hu : c ≠ '_'.toUInt8) :
    parseUint (c :: s) 0 bitSize = (0, some .errSyntax) := by
  have h₀ : c ≠ 48 := by
    rintro rfl
    exact absurd (h 0 rfl) (by decide)
  have hb : splitBase (c :: s) 0 = (10, c :: s) := by
    rw [splitBase, literalBase]
    · simpa using fun _ _ _ h => absurd h h₀
    · simpa using fun h => absurd h h₀
  have hs : scanDigits 10 (2 ^ effectiveBits bitSize - 1) true 0 (c :: s) =
      (0, some .errSyntax) := by
    rw [scanDigits, if_neg fun h => hu h.1]
    rcases hd : digitValue c with _ | d
    case none => rfl
    case some => exact if_pos (h d hd)
  rw [parseUint, if_neg (List.cons_ne_nil c s), hb]
  simp only [decide_true, hs, checkUnderscores]

theorem parseInt_of_not_digit
    (h : ∀ d, digitValue c = some d → 10 ≤ d) (hu : c ≠ '_'.toUInt8) (hp : c ≠ '+'.toUInt8)
    (hm : c ≠ '-'.toUInt8) : parseInt (c :: s) 0 bitSize = (0, some .errSyntax) := by
  rw [parseInt, if_neg hp, if_neg hm, parseUint_of_not_digit h hu]
  rfl

variable {maxVal n : Nat}

theorem scanDigits_append {base m : Nat} {u : Bool} (t : List UInt8)
    (h : scanDigits base maxVal u n s = (m, none)) :
    scanDigits base maxVal u n (s ++ t) = scanDigits base maxVal u m t := by
  induction s generalizing n
  case nil => simp_all [scanDigits]
  case cons c s hi =>
    unfold scanDigits at h
    rw [List.cons_append, scanDigits]
    split at h
    case isTrue hc => rw [if_pos hc, hi h]
    case isFalse hc =>
      rw [if_neg hc]
      split at h
      case h_1 => cases h
      case h_2 d hd =>
        split at h
        case isTrue => cases h
        case isFalse hb =>
          rw [if_neg hb]
          split at h
          case isTrue => cases h
          case isFalse hv => rw [if_neg hv, hi h]

variable {d : Nat}

theorem digitChar_toUInt8 (h : d < 10) : (Nat.digitChar d).toUInt8 = decimalByte d := by
  interval_cases d <;> rfl

theorem isDecimal_decimalByte (h : d < 10) : isDecimal (decimalByte d) := by
  interval_cases d <;> rfl

theorem digitValue_decimalByte (h : d < 10) : digitValue (decimalByte d) = some d := by
  interval_cases d <;> rfl

-- The last digit comes off the end, and the rest is the numeral of `n / 10`.
theorem formatUint_eq (n : Nat) :
    formatUint n = (if n < 10 then [] else formatUint (n / 10)) ++ [decimalByte (n % 10)] := by
  rw [formatUint, Nat.toDigits_eq_if (by decide)]
  split
  case isTrue h => simp [digitChar_toUInt8 h, Nat.mod_eq_of_lt h]
  case isFalse h => simp [formatUint, digitChar_toUInt8 (Nat.mod_lt n (by decide : 0 < 10))]

theorem formatUint_ne_nil (n : Nat) : formatUint n ≠ [] := by
  rw [formatUint_eq]
  simp

theorem isDecimal_formatUint (h : c ∈ formatUint n) : isDecimal c := by
  induction n using Nat.strongRecOn
  case ind n hi =>
    have hl := isDecimal_decimalByte (Nat.mod_lt n (by decide : 0 < 10))
    rw [formatUint_eq, List.mem_append, List.mem_singleton] at h
    rcases h with h | rfl
    · split at h
      · cases h
      · exact hi _ (by omega) h
    · exact hl

-- A numeral does not start with a zero, unless it is that of zero.
theorem formatUint_head (h : n ≠ 0) : (formatUint n).head? ≠ some 48 := by
  induction n using Nat.strongRecOn
  case ind n hi =>
    rw [formatUint_eq]
    split
    case isTrue hn => interval_cases n <;> first | contradiction | decide
    case isFalse hn =>
      rw [List.head?_append_of_ne_nil _ (formatUint_ne_nil _)]
      exact hi (n / 10) (by omega) (by omega)

theorem scanDigits_decimalByte {m : Nat} {u : Bool} (hd : d < 10) (hm : m * 10 + d ≤ maxVal) :
    scanDigits 10 maxVal u m [decimalByte d] = (m * 10 + d, none) := by
  have hne : decimalByte d ≠ '_'.toUInt8 := by interval_cases d <;> decide
  simp only [scanDigits, hne, false_and, if_false, digitValue_decimalByte hd]
  rw [if_neg (by omega), if_neg (by omega)]

theorem scanDigits_formatUint (u : Bool) (h : n ≤ maxVal) :
    scanDigits 10 maxVal u 0 (formatUint n) = (n, none) := by
  induction n using Nat.strongRecOn
  case ind n hi =>
    rw [formatUint_eq]
    split
    case isTrue hn =>
      have := scanDigits_decimalByte (u := u) (m := 0) (d := n % 10) (by omega)
        (show _ ≤ maxVal by omega)
      simpa [Nat.mod_eq_of_lt hn] using this
    case isFalse hn =>
      rw [scanDigits_append _ (hi (n / 10) (by omega) (by omega)),
        scanDigits_decimalByte (by omega) (by omega)]
      congr 1
      omega

theorem parseUint_formatUint (h : n < 2 ^ effectiveBits bitSize) :
    parseUint (formatUint n) 10 bitSize = (n, none) := by
  rw [parseUint, if_neg (formatUint_ne_nil n)]
  simp only [splitBase, scanDigits_formatUint _ (Nat.le_sub_one_of_lt h)]
  simp [checkUnderscores]

end Strconv
