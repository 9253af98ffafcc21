import GoSecs.Tracepack.Theorems.TlvRoundTrip

open Run LittleEndian List

namespace Tracepack.Tlv

-- A map with fields of minors that a file header can state, and nested registries with `P`.
structure Level (P : Registry → Prop) (reg : Registry) : Prop where
  sorted : reg.Pairwise (·.1 < ·.1)
  since  : ∀ p ∈ reg, p.2.since < 2 ^ 16
  nested : ∀ p ∈ reg, ∀ reg' ∈ p.2.nested, P reg'

def Nests : Nat → Registry → Prop
  | 0 => Level fun _ => False
  | n + 1 => Level (Nests n)

variable {minor room n : Nat} {reg reg' : Registry} {f : Field} {P : Registry → Prop}

theorem Nests.level (h : Nests n reg) : Level (fun reg' => ∃ k < n, Nests k reg') reg := by
  cases n
  case zero   => exact ⟨h.sorted, h.since, fun p hp reg' hr => (h.nested p hp reg' hr).elim⟩
  case succ n =>
    exact ⟨h.sorted, h.since, fun p hp reg' hr => ⟨n, n.lt_succ_self, h.nested p hp reg' hr⟩⟩

theorem Level.tail {p : Nat × Field} (h : Level P (p :: reg)) : Level P reg :=
  ⟨h.sorted.of_cons, fun p hp => h.since p (.tail _ hp), fun p hp => h.nested p (.tail _ hp)⟩

@[simp]
theorem since_viewField (f : Field) : (viewField minor f).since = f.since := by
  cases f
  rfl

@[simp]
theorem type_viewField (f : Field) : (viewField minor f).type = f.type := by
  cases f
  rfl

@[simp]
theorem repeatable_viewField (f : Field) : (viewField minor f).repeatable = f.repeatable := by
  cases f
  rfl

@[simp]
theorem required_viewField (f : Field) : (viewField minor f).required = f.required := by
  cases f
  rfl

theorem viewNested_eq (h : viewItems minor reg = reg) : viewNested minor (some reg) = some reg := by
  simp only [viewNested, h, ite_self]

-- A registry without later tags is its own view.
theorem viewItems_eq (h : Nests n reg) (hn : n < room) (hd : definesAfter minor room reg = false) :
    viewItems minor reg = reg := by
  induction room generalizing n reg
  case zero => omega
  case succ room hi =>
    have hl := h.level
    rw [definesAfter, any_eq_false] at hd
    clear h
    induction reg
    case nil => rfl
    case cons p reg hr =>
      obtain ⟨tag, name, type, rep, req, since, nested⟩ := p
      have hp := hd _ mem_cons_self
      simp only [Bool.or_eq_true, decide_eq_true_eq, not_or, Bool.not_eq_true] at hp
      rw [viewItems, if_neg hp.1, hr (fun p h => hd p (.tail _ h)) hl.tail, viewField]
      cases nested
      case none => rfl
      case some reg' =>
        obtain ⟨k, hk, h⟩ := hl.nested _ mem_cons_self reg' rfl
        rw [viewNested_eq (hi h (by omega) hp.2)]

theorem atMinor_eq (h : Nests n reg) (hn : n ≤ maxNestingDepth) :
    atMinor minor reg = viewItems minor reg := by
  unfold atMinor
  split
  case isTrue => rfl
  case isFalse hd => exact (viewItems_eq h (Nat.lt_succ_of_le hn) (Bool.eq_false_iff.mpr hd)).symm

theorem nested_viewField (h : ∀ reg ∈ f.nested, ∃ n < maxNestingDepth, Nests n reg) :
    (viewField minor f).nested = f.nested.map (viewItems minor) := by
  obtain ⟨_, _, _, _, _, nested⟩ := f
  cases nested
  case none => rfl
  case some reg =>
    obtain ⟨n, hn, h⟩ := h reg rfl
    show viewNested minor (some reg) = _
    unfold viewNested
    split
    case isTrue => exact congrArg some (atMinor_eq h hn.le)
    case isFalse hd => exact congrArg some (viewItems_eq h hn (Bool.eq_false_iff.mpr hd)).symm

theorem lookup_eq_none_of_lt {tag : Nat} (h : ∀ p ∈ reg, tag < p.1) : reg.lookup tag = none := by
  rw [lookup_eq_none_iff]
  exact fun p hp => by simpa using (h p hp).ne

theorem lookup_viewItems (h : Level P reg) (minor tag : Nat) :
    (viewItems minor reg).lookup tag = (reg.lookup tag).bind fun f =>
      if minor < f.since then none else some (viewField minor f) := by
  induction reg
  case nil => rfl
  case cons p reg hi =>
    obtain ⟨t, f⟩ := p
    have hi := hi h.tail
    rw [viewItems, lookup_cons]
    cases ht : tag == t
    case false => split <;> simp [lookup_cons, ht, hi]
    case true =>
      obtain rfl := beq_iff_eq.mp ht
      rw [lookup_eq_none_of_lt (pairwise_cons.mp h.sorted).1] at hi
      split
      case isTrue hs  => simp [hi, hs]
      case isFalse hs => simp [hs]

section Validation

variable {nested nested' : Registry → Entry → Run Err Unit}

theorem validateEntries_view (h : Level P reg)
    (hf : ∀ p ∈ reg, (viewField minor p.2).nested = p.2.nested.map (viewItems minor))
    (hn : ∀ reg', P reg' → ∀ e, nested reg' e = nested' (viewItems minor reg') e)
    (es : List Entry) (seen : List Nat) :
    validateEntries nested reg minor es seen =
      validateEntries nested' (viewItems minor reg) (2 ^ 16 - 1) es seen := by
  induction es generalizing seen
  case nil => rfl
  case cons e es hi =>
    have hv := lookup_viewItems h minor e.tag
    rw [validateEntries, validateEntries]
    cases hl : reg.lookup e.tag <;> rw [hl] at hv
    case none =>
      rw [show List.lookup _ _ = none from hv]
      exact hi seen
    case some f =>
      obtain ⟨_, _, hm, _⟩ := lookup_eq_some_iff.mp hl
      have hm : (e.tag, f) ∈ reg := by simp [hm]
      rw [Option.bind_some] at hv
      by_cases hs : minor < f.since
      case pos =>
        rw [if_pos hs] at hv
        simp only [hv, if_pos hs, hi]
      case neg =>
        rw [if_neg hs] at hv
        have hmax : ¬2 ^ 16 - 1 < f.since := Nat.not_lt.mpr (Nat.le_pred_of_lt (h.since _ hm))
        simp only [hv, if_neg hs, since_viewField, if_neg hmax, type_viewField, repeatable_viewField,
          hf _ hm, hi]
        cases hr : f.nested
        case none => rfl
        case some reg' => simp only [Option.map_some, hn reg' (h.nested _ hm reg' hr)]

theorem checkRequired_view (h : ∀ p ∈ reg, p.2.since < 2 ^ 16) (seen : List Nat) :
    checkRequired minor seen reg =
      checkRequired (2 ^ 16 - 1) seen (viewItems minor reg) := by
  induction reg
  case nil => rfl
  case cons p reg hi =>
    have ⟨hp, hr⟩ := forall_mem_cons.mp h
    have hp : p.2.since ≤ 2 ^ 16 - 1 := Nat.le_pred_of_lt hp
    rw [viewItems, checkRequired, hi hr]
    split
    case isTrue hs  => simp [not_le.mpr hs, failIf]
    case isFalse hs =>
      simp only [checkRequired, since_viewField, required_viewField, not_lt.mp hs, hp]

theorem validateAt_view (h : Nests n reg) (hn : n ≤ maxNestingDepth) (es : List Entry) :
    validateAt minor room reg es = validateAt (2 ^ 16 - 1) room (viewItems minor reg) es := by
  induction room using Nat.strong_induction_on generalizing n reg es
  case h room hi =>
    have hl := h.level
    have hf (p) (hp : p ∈ reg) :
        (viewField minor p.2).nested = p.2.nested.map (viewItems minor) := by
      refine nested_viewField fun reg' hr => ?_
      obtain ⟨k, hk, h⟩ := hl.nested p hp reg' hr
      exact ⟨k, hk.trans_le hn, h⟩
    rw [validateAt, validateAt]
    simp only [checkRequired_view hl.since]
    refine congrArg (· >>= _) (validateEntries_view hl hf (fun reg' h e => ?_) es [])
    obtain ⟨k, hk, h⟩ := h
    cases room
    case zero => rfl
    case succ room => simp only [hi room room.lt_succ_self h (hk.le.trans hn)]

end Validation

def longEntry : Entry :=
  bytesEntry 1 (List.replicate (2 ^ 32) 0)

-- A value whose length does not fit in the header of its entry is not read back.
theorem decode_of_long : longEntry.tag ≠ 0 ∧ longEntry.tag < 2 ^ 16 ∧
    (∀ n ∈ fixedLen longEntry.type, longEntry.value.length = n) ∧
    decode (appendEntry longEntry) ≠ .ok [longEntry] := by
  refine ⟨Nat.one_ne_zero, Nat.one_lt_two_pow (by decide), nofun, fun h => ?_⟩
  have hv : longEntry.value.length = 2 ^ 32 := List.length_replicate ..
  have hlt := (decode_spec _).post _ h _ List.mem_cons_self
  exact Nat.lt_irrefl _ (hv ▸ hlt)

-- Validation for a minor is that of the registry's view, and what is written is read.
theorem validateMinor_eq_validate :
    (∀ reg minor es, Nests 31 reg → validateMinor es reg minor = validate es (atMinor minor reg)) ∧
    ∀ es : List Entry, (∀ e ∈ es, e.Ok) → decode (es.flatMap appendEntry) = .ok (placed 0 es) := by
  refine ⟨fun reg minor es h => ?_, fun es h => decode_flatMap h⟩
  rw [atMinor_eq h (by decide)]
  exact validateAt_view h (by decide) es

def laterTag : Registry :=
  [(1, .mk "nest" typeTLV false true 0 (some [(2, .mk "later" typeU8 false true 1 none)]))]

theorem validateMinor_laterTag :
    validate [nestedEntry 1 []] (atMinor 0 laterTag) = .ok () ∧
      decode ([nestedEntry 1 []].flatMap appendEntry) = .ok [nestedEntry 1 []] := by
  have h : Nests 31 laterTag := by
    refine ⟨by decide, by decide, ?_⟩
    simp only [laterTag, List.mem_singleton, forall_eq, Field.nested, Option.mem_some, forall_eq']
    exact ⟨by decide, by decide, by simp [Field.nested]⟩
  have hv : validateMinor [nestedEntry 1 []] laterTag 0 = .ok () := by decide +kernel
  refine ⟨validateMinor_eq_validate.1 _ _ _ h ▸ hv, validateMinor_eq_validate.2 _ fun e he => ?_⟩
  rw [List.mem_singleton.mp he]
  exact ⟨by decide, by decide, by decide, nofun⟩

end Tracepack.Tlv
