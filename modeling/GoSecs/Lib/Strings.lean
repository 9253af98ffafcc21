import GoSecs.Lib.Utf8

open Utf8 List

-- The functions of Go's package `strings` on byte strings.

namespace Strings

def ascii (s : String) : List UInt8 :=
  s.toList.map Char.toUInt8

def indexByte (s : List UInt8) (c : UInt8) : Option Nat :=
  s.findIdx? (· == c)

-- The characters searched for are ASCII.
def indexAny (s chars : List UInt8) : Option Nat :=
  s.findIdx? (chars.contains ·)

def hasPrefix (s pre : List UInt8) : Bool :=
  pre.isPrefixOf s

def index : List UInt8 → List UInt8 → Option Nat
  | [],      sub => if sub = [] then some 0 else none
  | b :: bs, sub => if hasPrefix (b :: bs) sub then some 0 else (index bs sub).map (· + 1)

-- `unicode.IsSpace`
def isSpace (r : Nat) : Bool :=
  (9 ≤ r && r ≤ 13) || r = 32 || r = 0x85 || r = 0xA0 || r = 0x1680 ||
    (0x2000 ≤ r && r ≤ 0x200A) || r = 0x2028 || r = 0x2029 || r = 0x202F || r = 0x205F || r = 0x3000

-- The maximal runs without white space. `start` is where the current run begins.
def fieldsFrom (s : List UInt8) : Option Nat → List (Nat × Nat) → List (List UInt8)
  | none,       [] => []
  | some start, [] => [s.drop start]
  | none,       (i, r) :: rs => fieldsFrom s (if isSpace r then none else some i) rs
  | some start, (i, r) :: rs =>
    if isSpace r then
      (s.take i).drop start :: fieldsFrom s none rs
    else
      fieldsFrom s (some start) rs

def fields (s : List UInt8) : List (List UInt8) :=
  fieldsFrom s none (range s)

-- The upper case of a rune, as far as it is an ASCII letter. All other runes are left alone.
def toUpperRune (r : Nat) : Nat :=
  if 97 ≤ r ∧ r ≤ 122 then r - 32
  else if r = 0x131 then 73
  else if r = 0x17F then 83
  else r

-- For comparison with ASCII words only: other letters keep their case.
def toUpper (s : List UInt8) : List UInt8 :=
  (range s).flatMap fun (_, r) => encodeRune (toUpperRune r)

variable {s : List UInt8} {c : UInt8} {i : Nat}

theorem indexByte_lt (h : indexByte s c = some i) :
    i < s.length :=
  (findIdx?_eq_some_iff_getElem.mp h).1

variable {chars : List UInt8}

theorem indexAny_lt (h : indexAny s chars = some i) :
    i < s.length :=
  (findIdx?_eq_some_iff_getElem.mp h).1

variable {sub : List UInt8}

theorem index_add_le (h : index s sub = some i) :
    i + sub.length ≤ s.length := by
  induction s generalizing i
  case nil =>
    rw [index] at h
    split at h <;> simp_all
  case cons b s hi =>
    rw [index] at h
    split at h
    case isTrue hp =>
      cases h
      simpa using (List.isPrefixOf_iff_prefix.mp hp).length_le
    case isFalse =>
      have ⟨j, hj, he⟩ := Option.map_eq_some_iff.mp h
      have := hi hj
      simp only [length_cons]
      omega

variable {w : List UInt8}

theorem fieldsFrom_head {rs : List (Nat × Nat)} (hr : ∀ r ∈ rs, 1 ≤ r.1) :
    ∃ v l, fieldsFrom (c :: w) (some 0) rs = (c :: v) :: l := by
  induction rs
  case nil => exact ⟨w, [], rfl⟩
  case cons r rs hi =>
    rcases r with ⟨i, ch⟩
    obtain ⟨i, rfl⟩ : ∃ j, i = j + 1 := ⟨i - 1, by have := hr (i, ch) (by simp); omega⟩
    by_cases hs : isSpace ch
    case pos => exact ⟨w.take i, fieldsFrom (c :: w) none rs, if_pos hs⟩
    case neg =>
      have ⟨v, l, h⟩ := hi fun r h => hr r (by simp [h])
      exact ⟨v, l, (if_neg hs).trans h⟩

theorem fields_head (hc : c < 0x80) (hs : isSpace c.toNat = false) :
    ∃ v l, fields (c :: w) = (c :: v) :: l := by
  have hf : fields (c :: w) = fieldsFrom (c :: w) (some 0) (runes 0 1 w) := by
    rw [fields, Utf8.range, runes_ascii hc]
    exact congrArg (fieldsFrom (c :: w) · (runes 0 1 w)) (if_neg (Bool.eq_false_iff.mp hs))
  rw [hf]
  exact fieldsFrom_head fun r h => (runes_bounds h).1

section Append

variable {s t : List UInt8} {i : Nat}

theorem indexByte_append (h : indexByte s c = some i) :
    indexByte (s ++ t) c = some i := by
  rw [indexByte, findIdx?_append, show s.findIdx? (· == c) = some i from h]
  rfl

theorem indexByte_append_of_none (h : indexByte s c = none) :
    indexByte (s ++ t) c = (indexByte t c).map (· + s.length) := by
  rw [indexByte, findIdx?_append, show s.findIdx? (· == c) = none from h]
  rfl

theorem indexAny_append (h : indexAny s chars = some i) :
    indexAny (s ++ t) chars = some i := by
  rw [indexAny, findIdx?_append, show s.findIdx? (chars.contains ·) = some i from h]
  rfl

theorem hasPrefix_append {pre : List UInt8} (h : pre.length ≤ s.length) :
    hasPrefix (s ++ t) pre = hasPrefix s pre := by
  rw [Bool.eq_iff_iff, hasPrefix, hasPrefix, isPrefixOf_iff_prefix, isPrefixOf_iff_prefix]
  exact ⟨fun hp => prefix_of_prefix_length_le hp (prefix_append s t) h,
    fun hp => hp.trans (prefix_append s t)⟩

theorem index_append (h : index s sub = some i) :
    index (s ++ t) sub = some i := by
  induction s generalizing i
  case nil =>
    rw [index] at h
    split at h
    case isFalse => cases h
    case isTrue hs =>
      cases h
      subst hs
      cases t <;> simp [index, hasPrefix]
  case cons b s hi =>
    have hl := index_add_le h
    have hp : hasPrefix (b :: (s ++ t)) sub = hasPrefix (b :: s) sub :=
      hasPrefix_append (s := b :: s) (by omega)
    rw [cons_append, index, hp]
    rw [index] at h
    split at h
    case isTrue hp  => rw [if_pos hp, h]
    case isFalse hp =>
      have ⟨j, hj, he⟩ := Option.map_eq_some_iff.mp h
      rw [if_neg hp, hi hj, Option.map_some, he]

end Append

end Strings
