import GoSecs.Secs2.Theorems.Valid

open Ieee754 Strconv List

namespace Secs2

def Arg.count : Arg → Nat
  | .ints _ vs => vs.length
  | .float32s vs => vs.length
  | .float64s vs => vs.length
  | .strings ss => ss.length
  | .bools bs => bs.length
  | _ => 1

def supplied (values : List Arg) : Nat :=
  (values.map Arg.count).sum

inductive Numeric
  | int (byteSize : Int)
  | uint (byteSize : Int)
  | float (byteSize : Int)
  | boolean

namespace Numeric

def byteSize : Numeric → Int
  | int w | uint w | float w => w
  | boolean => 1

def byteSizes : Numeric → List Int
  | int _ | uint _ => [1, 2, 4, 8]
  | float _ => [4, 8]
  | boolean => [1]

variable (parseFloat : Bytes → Except NumErr F64)

def item : Numeric → List Arg → Item
  | int w,   values => newIntItem w values
  | uint w,  values => newUintItem w values
  | float w, values => newFloatItem parseFloat w values
  | boolean, values => newBooleanItem values

-- The constructor takes the type of the argument and can convert each of its values.
def Takes : Numeric → Arg → Prop
  | int _,   .int .. => True
  | int _,   .ints .. => True
  | int _,   .string s => (parseInt s 0 64).2 ≠ some .errSyntax
  | int _,   .strings ss => ∀ s ∈ ss, (parseInt s 0 64).2 ≠ some .errSyntax
  | uint _,  .int _ v => 0 ≤ v.val
  | uint _,  .ints _ vs => ∀ v ∈ vs, 0 ≤ v.val
  | uint _,  .string s => (parseUint s 0 64).2 ≠ some .errSyntax
  | uint _,  .strings ss => ∀ s ∈ ss, (parseUint s 0 64).2 ≠ some .errSyntax
  | float _, .float32 _ => True
  | float _, .float32s _ => True
  | float _, .float64 _ => True
  | float _, .float64s _ => True
  | float _, .int k v => k.wide = true → -2 ^ 53 ≤ v.val ∧ v.val ≤ 2 ^ 53
  | float _, .ints k vs => k.wide = true → ∀ v ∈ vs, -2 ^ 53 ≤ v.val ∧ v.val ≤ 2 ^ 53
  | float _, .string s => (parseFloat s).isOk = true
  | float _, .strings ss => ∀ s ∈ ss, (parseFloat s).isOk = true
  | boolean, .bool _ => True
  | boolean, .bools _ => True
  | _,       _ => False

end Numeric

section Collect

variable {α β : Type} {f : β → Collected α} {bs : List β}

theorem collect_ok_iff : (collect f bs).2 = none ↔ ∀ b ∈ bs, (f b).2 = none := by
  induction bs
  case nil => simp [collect]
  case cons b bs hi =>
    rw [collect]
    cases h : (f b).2
    case none   => simp [h, hi]
    case some e => simp [h]

theorem length_collect {g : β → Nat} (h : (collect f bs).2 = none)
    (hg : ∀ b ∈ bs, (f b).2 = none → (f b).1.length = g b) :
    (collect f bs).1.length = (bs.map g).sum := by
  induction bs
  case nil => rfl
  case cons b bs hi =>
    have ⟨hb, hbs⟩ := forall_mem_cons.mp (collect_ok_iff.mp h)
    have ⟨hgb, hgbs⟩ := forall_mem_cons.mp hg
    rw [collect, hb]
    simp [hgb hb, hi (collect_ok_iff.mpr hbs) hgbs]

theorem length_collect_one (h : (collect f bs).2 = none)
    (hg : ∀ b, (f b).2 = none → (f b).1.length = 1) : (collect f bs).1.length = bs.length := by
  rw [length_collect h fun b _ => hg b]
  simp

end Collect

structure Converts (P : Arg → Prop) (f : Arg → Collected α) : Prop where
  ok    : ∀ a, (f a).2 = none ↔ P a
  count : ∀ a, (f a).2 = none → (f a).1.length = a.count

section Conversions

variable {parseFloat : Bytes → Except NumErr F64} {byteSize : Int} {w : Nat} {s : Bytes}
  {k : IntKind}

theorem intOfString_ok :
    ((intOfString w s).2 = none ↔ (parseInt s 0 64).2 ≠ some .errSyntax) ∧
    ((intOfString w s).2 = none → (intOfString w s).1.length = 1) := by
  rw [intOfString]
  cases parseInt s 0 64
  case mk v e =>
    cases e
    case none   => simp [one]
    case some e => cases e <;> simp [one, fail]

theorem converts_int : Converts ((Numeric.int byteSize).Takes parseFloat) (combineIntValue w) where
  ok a := by
    cases a
    case string s   => exact intOfString_ok.1
    case strings ss => simp [combineIntValue, collect_ok_iff, Numeric.Takes, intOfString_ok.1]
    all_goals simp [combineIntValue, collect_ok_iff, Numeric.Takes, one, fail]
  count a h := by
    cases a
    case int => rfl
    case ints => exact length_collect_one h fun _ _ => rfl
    case string s => exact intOfString_ok.2 h
    case strings ss => exact length_collect_one h fun _ => intOfString_ok.2
    all_goals simp [combineIntValue, fail] at h

theorem toUintValue_ok {v : IntValue k} :
    ((toUintValue w v).2 = none ↔ 0 ≤ v.val) ∧
    ((toUintValue w v).2 = none → (toUintValue w v).1.length = 1) := by
  unfold toUintValue
  split
  case isTrue h  => simp [fail]; omega
  case isFalse h => simp [one]; omega

theorem uintOfString_ok :
    ((uintOfString w s).2 = none ↔ (parseUint s 0 64).2 ≠ some .errSyntax) ∧
    ((uintOfString w s).2 = none → (uintOfString w s).1.length = 1) := by
  rw [uintOfString]
  cases parseUint s 0 64
  case mk v e =>
    cases e
    case none   => simp [one]
    case some e => cases e <;> simp [one, fail]

theorem converts_uint :
    Converts ((Numeric.uint byteSize).Takes parseFloat) (combineUintValue w) where
  ok a := by
    cases a
    case int k v    => exact toUintValue_ok.1
    case ints k vs  => simp [combineUintValue, collect_ok_iff, Numeric.Takes, toUintValue_ok.1]
    case string s   => exact uintOfString_ok.1
    case strings ss => simp [combineUintValue, collect_ok_iff, Numeric.Takes, uintOfString_ok.1]
    all_goals simp [combineUintValue, Numeric.Takes, fail]
  count a h := by
    cases a
    case int => exact toUintValue_ok.2 h
    case ints => exact length_collect_one h fun _ => toUintValue_ok.2
    case string s => exact uintOfString_ok.2 h
    case strings ss => exact length_collect_one h fun _ => uintOfString_ok.2
    all_goals simp [combineUintValue, fail] at h

theorem floatOfInt_ok {v : IntValue k} :
    ((floatOfInt v).2 = none ↔ (k.wide = true → -2 ^ 53 ≤ v.val ∧ v.val ≤ 2 ^ 53)) ∧
    ((floatOfInt v).2 = none → (floatOfInt v).1.length = 1) := by
  unfold floatOfInt
  split
  case isTrue h  => simp [fail, h.1]; omega
  case isFalse h =>
    refine ⟨iff_of_true rfl fun hw => ?_, fun _ => rfl⟩
    by_contra hn
    exact h ⟨hw, by omega⟩

theorem floatOfString_ok :
    ((floatOfString parseFloat w s).2 = none ↔ (parseFloat s).isOk = true) ∧
    ((floatOfString parseFloat w s).2 = none → (floatOfString parseFloat w s).1.length = 1) := by
  unfold floatOfString
  cases parseFloat s <;> simp [fail, one, Except.isOk, Except.toBool]

theorem converts_float :
    Converts ((Numeric.float byteSize).Takes parseFloat) (combineFloatValue parseFloat w) where
  ok a := by
    cases a
    case int k v    => exact floatOfInt_ok.1
    case ints k vs  =>
      simp only [combineFloatValue, collect_ok_iff, Numeric.Takes, floatOfInt_ok.1]
      exact ⟨fun h hw v hv => h v hv hw, fun h v hv hw => h hw v hv⟩
    case string s   => exact floatOfString_ok.1
    case strings ss => simp [combineFloatValue, collect_ok_iff, Numeric.Takes, floatOfString_ok.1]
    all_goals simp [combineFloatValue, Numeric.Takes, fail, one]
  count a h := by
    cases a
    case float32 => rfl
    case float64 => rfl
    case float32s => simp [combineFloatValue, Arg.count]
    case float64s => simp [combineFloatValue, Arg.count]
    case int => exact floatOfInt_ok.2 h
    case ints => exact length_collect_one h fun _ => floatOfInt_ok.2
    case string s => exact floatOfString_ok.2 h
    case strings ss => exact length_collect_one h fun _ => floatOfString_ok.2
    all_goals simp [combineFloatValue, fail] at h

theorem converts_boolean : Converts (Numeric.boolean.Takes parseFloat) combineBoolValue where
  ok a := by cases a <;> simp [combineBoolValue, Numeric.Takes, fail, one]
  count a h := by cases a <;> simp_all [combineBoolValue, Arg.count, fail, one]

end Conversions

variable {α : Type}

theorem Vec.ofValues_size [Inhabited α] {vs : List α} :
    (Vec.ofValues vs).size = int32 vs.length := by
  unfold Vec.ofValues
  split
  case isTrue h  => exact h.symm
  case isFalse h => rfl

theorem setError_ne_none {b : Base} {e : Err} : (b.setError e).itemErr ≠ none := by
  cases h : b.itemErr <;> simp [Base.setError, Err.joined, reduceOption, h]

theorem limited_error_eq_none {l : Leaf} :
    (limited l).error = none ↔ l.lengthField ≤ maxByteSize := by
  unfold limited
  split
  case isTrue h  => exact iff_of_false setError_ne_none (by omega)
  case isFalse h => exact iff_of_true rfl (by omega)

theorem limited_size {l : Leaf} : (limited l).size = l.size := by
  unfold limited
  split <;> rfl

-- No error, and as the size what is left of the number of values in an int32.
structure Accepts (ok : Prop) (byteSize : Int) (count : Nat) (x : Item) : Prop where
  error : x.error = none ↔ ok ∧ int32 count * byteSize ≤ maxByteSize
  size  : x.error = none → x.size = int32 count

variable {w : Int} {n : Nat}

section Accepts

variable {parseFloat : Bytes → Except NumErr F64} {values : List Arg} {byteSize : Int}

theorem accepts_ofCollected [Inhabited α] {mk : Vec α → Leaf} {P : Arg → Prop}
    {f : Arg → Collected α} (hc : Converts P f) (hs : ∀ v, (mk v).size = v.size)
    (hf : ∀ v, (mk v).lengthField = v.size * w) :
    Accepts (∀ a ∈ values, P a) w (supplied values) (ofCollected mk (collect f values)) := by
  have hok : (collect f values).2 = none ↔ ∀ a ∈ values, P a := by
    simp only [collect_ok_iff, hc.ok]
  cases he : (collect f values).2
  case some e =>
    have hx : (ofCollected mk (collect f values)).error ≠ none := by
      rw [← Prod.eta (collect f values), he]
      exact setError_ne_none
    refine ⟨iff_of_false hx fun h => ?_, fun h => absurd h hx⟩
    simp [hok.mpr h.1] at he
  case none =>
    have hn : (collect f values).1.length = supplied values :=
      length_collect he fun a _ => hc.count a
    rw [← Prod.eta (collect f values), he, ofCollected]
    refine ⟨?_, fun _ => by rw [limited_size, hs, Vec.ofValues_size, hn]⟩
    rw [limited_error_eq_none, hf, Vec.ofValues_size, hn]
    exact (and_iff_right (hok.mp he)).symm

theorem toUint32_of_mem (h : w ∈ [1, 2, 4, 8]) : (toUint32 w : Int) = w := by
  simp only [mem_cons, not_mem_nil, or_false] at h
  rcases h with rfl | rfl | rfl | rfl <;> rfl

theorem accepts_byteSize [Inhabited α] {mk : Vec α → Leaf} {x : Item} {P bad : Prop}
    [Decidable bad] {sizes : List Int} (hb : bad ↔ w ∉ sizes) (hx : w ∈ sizes → Accepts P w n x) :
    Accepts (w ∈ sizes ∧ P) w n (if bad then badByteSize mk else x) := by
  split
  case isTrue h =>
    exact ⟨iff_of_false setError_ne_none fun he => hb.mp h he.1.1,
      fun he => absurd he setError_ne_none⟩
  case isFalse h =>
    have hw : w ∈ sizes := not_not.mp (mt hb.mpr h)
    rw [eq_true hw, true_and]
    exact hx hw

theorem accepts_scalar {u : Nat} {v : Int} (hw : u = w) :
    Accepts True w 1 (limited (.int u { size := 1, scalar := v, values := [] })) := by
  have h₁ : int32 (1 : Nat) = 1 := int32_eq (by decide)
  refine ⟨?_, fun _ => by rw [limited_size, h₁]; rfl⟩
  rw [limited_error_eq_none, true_and, h₁, ← hw]
  rfl

theorem accepts_newIntItem :
    Accepts (byteSize ∈ (Numeric.int byteSize).byteSizes ∧
        ∀ a ∈ values, (Numeric.int byteSize).Takes parseFloat a)
      byteSize (supplied values) (newIntItem byteSize values) := by
  refine accepts_byteSize (by simp [Numeric.byteSizes]) fun hm => ?_
  have hw := toUint32_of_mem hm
  split
  case h_1 x h =>
    unfold intScalarFastPath at h
    split at h
    case h_1 k v =>
      have ht : ∀ a ∈ [Arg.int k v], (Numeric.int byteSize).Takes parseFloat a := by
        simp [Numeric.Takes]
      rw [eq_true ht]
      exact accepts_scalar hw
    case h_2 => cases h
  case h_2 h =>
    exact accepts_ofCollected converts_int (fun _ => rfl) fun v => congrArg (v.size * ·) hw

theorem accepts_newUintItem :
    Accepts (byteSize ∈ (Numeric.uint byteSize).byteSizes ∧
        ∀ a ∈ values, (Numeric.uint byteSize).Takes parseFloat a)
      byteSize (supplied values) (newUintItem byteSize values) := by
  refine accepts_byteSize (by simp [Numeric.byteSizes]) fun hm => ?_
  exact accepts_ofCollected converts_uint (fun _ => rfl) fun v =>
    congrArg (v.size * ·) (toUint32_of_mem hm)

theorem accepts_newFloatItem :
    Accepts (byteSize ∈ (Numeric.float byteSize).byteSizes ∧
        ∀ a ∈ values, (Numeric.float byteSize).Takes parseFloat a)
      byteSize (supplied values) (newFloatItem parseFloat byteSize values) := by
  refine accepts_byteSize (by simp [Numeric.byteSizes]) fun hm => ?_
  have hm' : byteSize ∈ [1, 2, 4, 8] := mem_cons_of_mem _ (mem_cons_of_mem _ hm)
  exact accepts_ofCollected converts_float (fun _ => rfl) fun v =>
    congrArg (v.size * ·) (toUint32_of_mem hm')

theorem accepts_newBooleanItem :
    Accepts (∀ a ∈ values, Numeric.boolean.Takes parseFloat a) 1 (supplied values)
      (newBooleanItem values) :=
  accepts_ofCollected converts_boolean (fun _ => rfl) fun v => (Int.mul_one v.size).symm

theorem Numeric.accepts (c : Numeric) :
    Accepts (c.byteSize ∈ c.byteSizes ∧ ∀ a ∈ values, c.Takes parseFloat a) c.byteSize
      (supplied values) (c.item parseFloat values) := by
  cases c
  case int => exact accepts_newIntItem
  case uint => exact accepts_newUintItem
  case float => exact accepts_newFloatItem
  case boolean =>
    have h : boolean.byteSize ∈ boolean.byteSizes := mem_singleton_self 1
    rw [eq_true h, true_and]
    exact accepts_newBooleanItem

end Accepts

theorem Numeric.one_le_byteSize {c : Numeric} (h : c.byteSize ∈ c.byteSizes) :
    1 ≤ c.byteSize := by
  cases c
  case boolean => exact Int.le_refl 1
  all_goals
    simp only [byteSizes, mem_cons, not_mem_nil, or_false] at h
    omega

theorem int32_limit (hw : 1 ≤ w) :
    maxByteSize < int32 n * w ↔ n % 2 ^ 32 < 2 ^ 31 ∧ maxByteSize < (n % 2 ^ 32 : Nat) * w := by
  by_cases h : n % 2 ^ 32 < 2 ^ 31
  case pos =>
    have : int32 n = (n % 2 ^ 32 : Nat) := by unfold int32; rw [Int.bmod_def]; omega
    rw [this, and_iff_right h]
  case neg =>
    have : int32 n < 0 := by unfold int32; rw [Int.bmod_def]; omega
    refine iff_of_false ?_ fun hc => h hc.1
    have := Int.mul_neg_of_neg_of_pos this (by omega : 0 < w)
    omega

section Limit

variable (parseFloat : Bytes → Except NumErr F64)

-- The count is narrowed to an int32 before the limit is checked.
theorem numeric_limit (c : Numeric) (values : List Arg) :
    ((c.item parseFloat values).error = none →
      (c.item parseFloat values).size = supplied values ∧
      supplied values * c.byteSize ≤ maxByteSize) ↔
    (c.byteSize ∈ c.byteSizes → (∀ a ∈ values, c.Takes parseFloat a) →
      supplied values * c.byteSize ≤ maxByteSize ∨
      supplied values % 2 ^ 32 < 2 ^ 31 ∧
        maxByteSize < (supplied values % 2 ^ 32 : Nat) * c.byteSize) := by
  have ha : Accepts _ _ (supplied values) (c.item parseFloat values) := c.accepts
  constructor
  case mp =>
    intro h hb ht
    by_contra hn
    have ⟨hn₁, hn₂⟩ := not_or.mp hn
    rw [← int32_limit (Numeric.one_le_byteSize hb)] at hn₂
    exact hn₁ (h (ha.error.mpr ⟨⟨hb, ht⟩, by omega⟩)).2
  case mpr =>
    intro h he
    have ⟨⟨hb, ht⟩, hlim⟩ := ha.error.mp he
    have hw := Numeric.one_le_byteSize hb
    cases h hb ht
    case inl hn =>
      have hle : (supplied values : Int) ≤ supplied values * c.byteSize :=
        le_mul_of_one_le_right (by omega) hw
      refine ⟨?_, hn⟩
      rw [ha.size he, int32_eq]
      unfold maxByteSize at hn
      omega
    case inr hn =>
      have := (int32_limit hw).mpr hn
      omega

end Limit

theorem newBooleanItem_replicate (h : int32 n ≤ maxByteSize) :
    (newBooleanItem [.bools (replicate n true)]).error = none ∧
    (newBooleanItem [.bools (replicate n true)]).size = int32 n ∧
    supplied [.bools (replicate n true)] = n := by
  have ha := @accepts_newBooleanItem (fun _ => .error .errSyntax) [.bools (replicate n true)]
  have hn : supplied [.bools (replicate n true)] = n := by simp [supplied, Arg.count]
  rw [hn] at ha
  have he := ha.error.mpr ⟨by simp [Numeric.Takes], by omega⟩
  exact ⟨he, ha.size he, hn⟩

theorem newBooleanItem_wraps :
    (newBooleanItem [.bools (List.replicate (2 ^ 32) true)]).error = none ∧
    (newBooleanItem [.bools (List.replicate (2 ^ 32) true)]).size = 0 ∧
    supplied [.bools (List.replicate (2 ^ 32) true)] = 2 ^ 32 := by
  have h₀ : int32 (2 ^ 32 : Nat) = 0 := by
    unfold int32
    decide
  have h := newBooleanItem_replicate (n := 2 ^ 32) (by rw [h₀]; decide)
  exact ⟨h.1, h.2.1.trans h₀, h.2.2⟩

end Secs2
