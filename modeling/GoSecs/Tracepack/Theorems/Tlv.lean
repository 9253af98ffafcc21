import GoSecs.Tracepack.Tlv
import GoSecs.Tracepack.Theorems.Format

open Run LittleEndian

namespace Tracepack.Tlv

open Format (uint uint_eq)

variable {b : Bytes}

theorem uint_spec {lo hi : Nat} (hl : lo ≤ hi) (hh : hi ≤ b.length) :
    Spec (uint b lo hi) (· < 256 ^ (hi - lo)) := by
  rw [uint_eq hl hh]
  exact .pure (field_lt ..)

theorem decodeOne_spec {off : Nat} (h : off < b.length) :
    Spec (decodeOne b off) fun r =>
      (off + headerLen ≤ r.2 ∧ r.2 ≤ b.length) ∧ r.1.value.length < 2 ^ 32 := by
  refine (Agree.slice h.le le_rfl).bind fun rest hr => ?_
  have hl : rest.length = b.length - off := by simp [hr]
  refine .ite (fun _ => ?_) fun hs => ?_
  · refine (Agree.ite (Q := fun _ => True) (fun h2 => ?_) fun _ => .pure trivial).bind
      fun _ _ => .fail _
    exact (uint_spec (by omega) h2).mono fun _ _ => trivial
  · simp only [headerLen] at hs ⊢
    refine (uint_spec (by omega) (by omega)).bind fun tag _ => ?_
    refine (Agree.index (by omega)).bind fun type _ => ?_
    refine (uint_spec (by omega) (by omega)).bind fun length hlt => ?_
    refine .check fun _ => ?_
    refine .check fun ht => ?_
    refine .check fun _ => ?_
    refine (Agree.slice (by omega) (by omega)).bind fun value hv => .pure ⟨by omega, ?_⟩
    simp only [hv, List.length_take]
    omega

theorem decodeFrom_spec {k off : Nat} (h : b.length - off ≤ k) :
    Spec (decodeFrom b k off) fun es => ∀ e ∈ es, e.value.length < 2 ^ 32 := by
  induction k generalizing off
  case zero =>
    have : ¬off < b.length := by omega
    simp only [decodeFrom, this, if_false]
    exact .pure nofun
  case succ k ih =>
    refine .ite (fun ho => ?_) fun _ => .pure nofun
    refine (decodeOne_spec ho).bind fun r ⟨hr, hv⟩ => ?_
    simp only [headerLen] at hr
    exact (ih (by omega)).bind fun _ hes => .pure (List.forall_mem_cons.mpr ⟨hv, hes⟩)

theorem decode_spec (b : Bytes) : Spec (decode b) fun es => ∀ e ∈ es, e.value.length < 2 ^ 32 :=
  decodeFrom_spec (by omega)

namespace Entry

variable (e : Entry)

theorem check_spec (want : ValueType) :
    Spec (e.check want) fun _ => ∀ n, fixedLen want = some n → e.value.length = n := by
  refine .check fun _ => ?_
  refine (Agree.failIf ..).mono fun _ h n hn => ?_
  simp only [hn, Option.any_some, decide_eq_true_eq, not_not] at h
  exact h.symm

theorem checkValue_spec (want : ValueType) :
    Spec (e.checkValue want) fun _ =>
      (∀ n, fixedLen want = some n → e.value.length = n) ∧
      (want = typeU64 → field e.value 0 8 ≤ maxU64) := by
  refine (e.check_spec want).bind fun _ hl => ?_
  refine (Agree.when (Q := True) fun hb => ?_).bind fun _ _ => ?_
  · have := hl 1 (by rw [hb]; rfl)
    refine (Agree.index (by omega)).bind fun _ _ => ?_
    exact (Agree.failIf ..).mono fun _ _ => trivial
  refine (Agree.when (Q := field e.value 0 8 ≤ maxU64) fun hu => ?_).bind fun _ hu => ?_
  · have := hl 8 (by rw [hu]; rfl)
    rw [uint_eq (by omega) (by omega)]
    exact (Agree.failIf ..).mono fun _ h => Nat.le_of_not_lt h
  refine (Agree.when (Q := True) fun _ => ?_).mono fun _ _ => ⟨hl, hu⟩
  exact (Agree.failIf ..).mono fun _ _ => trivial

theorem u8_spec : Spec e.u8 fun _ => True := by
  refine (e.check_spec typeU8).bind fun _ hl => ?_
  have := hl 1 rfl
  exact (Agree.index (by omega)).mono fun _ _ => trivial

theorem i64_spec : Spec e.i64 fun _ => True := by
  refine (e.check_spec typeI64).bind fun _ hl => ?_
  have := hl 8 rfl
  exact (uint_spec (by omega) (by omega)).bind fun _ _ => .pure trivial

theorem u64_spec : Spec e.u64 (· ≤ maxU64) := by
  refine (e.checkValue_spec typeU64).bind fun _ ⟨hl, hv⟩ => ?_
  have := hl 8 rfl
  rw [uint_eq (by omega) (by omega)]
  exact .pure (hv rfl)

theorem nested_spec : Spec e.nested fun _ => True :=
  (e.check_spec typeTLV).bind fun _ _ => (decode_spec _).mapErr.mono fun _ _ => trivial

end Entry

theorem validateEntries_spec {nested : Registry → Entry → Run Err Unit} (reg : Registry) (minor : Nat)
    (hn : ∀ reg e, Spec (nested reg e) fun _ => True) (es : List Entry) (seen : List Nat) :
    Spec (validateEntries nested reg minor es seen) fun _ => True := by
  induction es generalizing seen
  case nil => exact .pure trivial
  case cons e es hi =>
    simp only [validateEntries]
    split
    · exact hi seen
    · refine .ite (fun _ => hi seen) fun _ => ?_
      refine (e.checkValue_spec _).bind fun _ _ => ?_
      refine (Agree.when (Q := True) fun _ => ?_).bind fun _ _ => ?_
      · split
        · exact hn ..
        · exact .pure trivial
      refine .check fun _ => ?_
      exact hi _

theorem checkRequired_spec (minor : Nat) (seen : List Nat) (reg : Registry) :
    Spec (checkRequired minor seen reg) fun _ => True := by
  induction reg
  case nil => exact .pure trivial
  case cons f fs hi => exact .check fun _ => hi

theorem validateAt_spec (minor room : Nat) (reg : Registry) (es : List Entry) :
    Spec (validateAt minor room reg es) fun _ => True := by
  induction room generalizing reg es
  case zero =>
    rw [validateAt]
    refine (validateEntries_spec reg minor (fun _ _ => .fail _) es []).bind fun seen _ => ?_
    exact checkRequired_spec ..
  case succ room hi =>
    rw [validateAt]
    refine (validateEntries_spec reg minor (fun _ e => ?_) es []).bind fun seen _ => ?_
    · exact (decode_spec _).mapErr.bind fun _ _ => (hi ..).mapErr
    · exact checkRequired_spec ..

theorem elements_spec {w : Nat} {n i : Nat} (h : w * (i + n) ≤ b.length) :
    Spec (elements w b n i) fun vs => ∀ v ∈ vs, v < 256 ^ w := by
  induction n generalizing i
  case zero => exact .pure (by simp)
  case succ n hi =>
    have hm : w * (i + (n + 1)) = w * i + w + w * n := by ring
    have hs : w * (i + 1 + n) = w * i + w + w * n := by ring
    refine (uint_spec (by omega) (by omega)).bind fun v hv => ?_
    refine (hi (by omega)).bind fun vs hvs => .pure ?_
    rw [Nat.add_sub_cancel_left] at hv
    exact List.forall_mem_cons.mpr ⟨hv, hvs⟩

theorem decodeU32Array_spec (b : Bytes) :
    Spec (decodeU32Array b) fun vs => ∀ v ∈ vs, v < 2 ^ 32 := by
  refine .check fun _ => ?_
  exact elements_spec (by omega)

theorem checkElements_spec (vs : List Nat) (i : Nat) :
    Spec (checkElements vs i) fun _ => True := by
  induction vs generalizing i
  case nil => exact .pure trivial
  case cons v vs hi => exact .check fun _ => hi _

theorem decodeU64Array_spec (b : Bytes) : Spec (decodeU64Array b) fun _ => True := by
  refine .check fun _ => ?_
  refine (elements_spec (by omega)).bind fun _ _ => ?_
  exact (checkElements_spec ..).bind fun _ _ => .pure trivial

theorem decodeSeqRange_spec (b : Bytes) :
    Spec (decodeSeqRange b) fun r => r.first ≤ maxU64 ∧ r.last ≤ maxU64 := by
  refine .check fun hl => ?_
  rw [not_not] at hl
  simp (disch := omega) only [uint_eq, bind_ok]
  refine .check fun hm => .pure ?_
  simpa only [not_or, not_lt] using hm

end Tracepack.Tlv
