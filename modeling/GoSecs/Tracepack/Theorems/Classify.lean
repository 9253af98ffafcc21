import GoSecs.Hsms.Theorems.Frame
import GoSecs.Tracepack.Classify
import GoSecs.Tracepack.Theorems.SecsItem

open Run List
open Secs2 (FormatCode Item decodeItem decodeHeader decodeLeaf decodeChildren decodeFirstItem)

namespace Tracepack.SecsItem

variable {b : Bytes} {room off count : Nat} {h : Header}

theorem toNat_and_three (c : UInt8) : (c &&& 0x03).toNat = c.toNat % 4 := by
  rw [UInt8.toNat_and]
  exact Nat.and_two_pow_sub_one_eq_mod c.toNat 2

theorem toNat_shiftRight_two (c : UInt8) : (c >>> 2).toNat = c.toNat / 4 := by
  rw [UInt8.toNat_shiftRight, Nat.shiftRight_eq_div_pow]
  rfl

theorem decodeHeader_of_some (hh : header? b off = some h) :
    decodeHeader b off = .ok { code := h.code.toNat, length := h.length, pos := h.body } := by
  have ⟨first, hf, hc, hb, hn, hl, hlen⟩ := header?_eq_some hh
  have ⟨hlt, hf⟩ := List.getElem?_eq_some_iff.mp hf
  rw [toNat_and_three] at hb hn hlen
  rw [decodeHeader, if_neg (by omega), Secs2.index_ok hlt, Secs2.ok_bind, hf]
  simp only [if_neg hn]
  rw [if_neg (by omega), Secs2.slice_ok (by omega) (by omega), Secs2.ok_bind, hc,
    toNat_shiftRight_two, hlen, hb, Nat.add_sub_cancel_left]

theorem decodeHeader_of_none (hh : header? b off = none) :
    ∃ text, decodeHeader b off = .error (.err text) := by
  unfold decodeHeader
  split
  case isTrue => exact ⟨_, rfl⟩
  case isFalse hlt =>
    have hlt := not_le.mp hlt
    simp only [header?, getElem?_eq_getElem hlt, toNat_and_three] at hh
    rw [Secs2.index_ok hlt, Secs2.ok_bind]
    dsimp only
    split
    case isTrue => exact ⟨_, rfl⟩
    case isFalse hn =>
      split
      case isTrue => exact ⟨_, rfl⟩
      case isFalse hl => simp [hn, hl] at hh

-- The two tables of the format codes.
theorem elementSize_eq (c : UInt8) : elementSize c =
    (FormatCode.ofCode c.toNat).bind fun fc => if fc = .list then none else some fc.width := by
  have key : ∀ n < 256, elementSize (.ofNat n) =
      (FormatCode.ofCode (UInt8.ofNat n).toNat).bind
        fun fc => if fc = .list then none else some fc.width := by
    decide +kernel
  simpa using key c.toNat c.toNat_lt

theorem length_lt (hh : header? b off = some h) : h.length < 2 ^ 24 := by
  have ⟨first, _, _, _, _, _, hl⟩ := header?_eq_some hh
  rw [toNat_and_three] at hl
  have hk : ((b.drop (off + 1)).take (first.toNat % 4)).length ≤ 3 := by simp; omega
  calc h.length < 256 ^ _ := hl ▸ BigEndian.nat_lt _
    _ ≤ 256 ^ 3 := Nat.pow_le_pow_right (by decide) hk
    _ = 2 ^ 24  := by norm_num

theorem leafOk_iff {fc : FormatCode} (hf : FormatCode.ofCode h.code.toNat = some fc) (hl : fc ≠ .list)
    (hb : h.body ≤ b.length) : LeafOk b h ↔ h.body + h.length ≤ b.length ∧
      (Secs2.leafOf fc ((b.drop h.body).take h.length)).isSome := by
  have hs : elementSize h.code = some fc.width := by rw [elementSize_eq, hf]; exact if_neg hl
  have hc : h.code = localizedCode ↔ fc = .localizedStr := by
    rw [← UInt8.toNat_inj, ← FormatCode.code_of_ofCode hf]
    cases fc <;> decide
  rw [Secs2.leafOf_isSome_iff, length_take, length_drop]
  simp only [LeafOk, hs, Option.mem_def, Option.some.injEq, exists_eq_left', hc,
    Nat.dvd_iff_mod_eq_zero]
  constructor
  · rintro ⟨h₁, h₂, h₃⟩
    rw [Nat.min_eq_left h₃]
    exact ⟨by omega, hl, h₁, fun hf => by have := not_and.mp h₂ hf; omega⟩
  · rintro ⟨h₁, _, h₂, h₃⟩
    rw [Nat.min_eq_left (by omega)] at h₂ h₃
    exact ⟨h₂, fun hf => by have := h₃ hf.1; omega, by omega⟩

def depthText : String :=
  s!"list nesting depth exceeds maximum allowed: {Secs2.maxListDepth}"

-- Two walks over the text from `off` on end in the same way and at the same place.
inductive Agree (b : Bytes) (off : Nat) {α : Type} :
    Run Fault (Nat × Bool) → Except Secs2.Fault (α × Nat) → Prop
  | ok {stop content x} :
    off ≤ stop → stop ≤ b.length → Agree b off (.ok (stop, content)) (.ok (x, stop))
  | invalid {text} : Agree b off (fail .invalid) (.error (.err text))
  | depth {d} : Agree b off (fail (.depth d)) (.error (.err depthText))

namespace Agree

variable {α β : Type} {x : Run Fault (Nat × Bool)} {y : Except Secs2.Fault (α × Nat)}

theorem bind {k : Nat × Bool → Run Fault (Nat × Bool)}
    {k' : α × Nat → Except Secs2.Fault (β × Nat)} (h : Agree b off x y)
    (hk : ∀ stop content a, off ≤ stop → stop ≤ b.length →
      Agree b off (k (stop, content)) (k' (a, stop))) : Agree b off (x >>= k) (y >>= k') := by
  cases h
  case ok h₁ h₂ => exact hk _ _ _ h₁ h₂
  case invalid  => exact .invalid
  case depth    => exact .depth

theorem mono {off' : Nat} (h : Agree b off x y) (ho : off' ≤ off) : Agree b off' x y := by
  cases h
  case ok h₁ h₂ => exact .ok (ho.trans h₁) h₂
  case invalid  => exact .invalid
  case depth    => exact .depth

theorem items {f : Nat → Run Fault (Nat × Bool)} {g : Nat → Except Secs2.Fault (Item × Nat)}
    (hf : ∀ off, Agree b off (f off) (g off)) (hoff : off ≤ b.length) :
    Agree b off (validateItems f count off) (decodeChildren g count off) := by
  induction count generalizing off
  case zero => exact .ok le_rfl hoff
  case succ count ih =>
    refine (hf off).bind fun next _ _ h₁ h₂ => ?_
    dsimp only
    exact mono (bind (ih h₂) fun _ _ _ h₃ h₄ => .ok h₃ h₄) h₁

end Agree

theorem leaf_agree {fc : FormatCode} {content : Bool} (hh : header? b off = some h)
    (hf : FormatCode.ofCode h.code.toNat = some fc) (hl : fc ≠ .list) :
    Agree b off (if LeafOk b h then .ok (h.body + h.length, content) else fail .invalid)
      (decodeLeaf fc b off h.body h.length) := by
  have ⟨h₁, h₂⟩ := header?_bounds hh
  have hiff := leafOk_iff hf hl h₂
  by_cases hok : LeafOk b h
  case pos =>
    have ⟨h₃, h₄⟩ := hiff.mp hok
    have ⟨l, hl⟩ := Option.isSome_iff_exists.mp h₄
    rw [if_pos hok, Secs2.decodeLeaf_complete (by omega) h₃ (length_lt hh) hl]
    exact .ok (by omega) h₃
  case neg =>
    rw [if_neg hok]
    rw [hiff, not_and_or, not_le, Option.not_isSome_iff_eq_none] at hok
    have ⟨text, ht⟩ := Secs2.decodeLeaf_error off hl h₂ hok
    exact ht ▸ .invalid

theorem validate_agree : Agree b off (validate b room off) (decodeItem b room off) := by
  induction room using Nat.strong_induction_on generalizing off
  case h room ih =>
    rw [validate_eq, decodeItem]
    cases hh : header? b off
    case none =>
      obtain ⟨text, ht⟩ := decodeHeader_of_none hh
      rw [ht]
      exact .invalid
    case some h =>
      obtain ⟨h₁, h₂⟩ := header?_bounds hh
      rw [decodeHeader_of_some hh, Secs2.ok_bind]
      dsimp only
      by_cases hc : h.code = listCode
      case pos =>
        rw [if_pos hc, hc, show FormatCode.ofCode listCode.toNat = some .list from rfl]
        cases room
        case zero => exact .depth
        case succ room =>
          dsimp only
          rw [if_neg (not_not.mpr rfl)]
          by_cases hl : (b.length - h.body) / 2 < h.length
          case pos =>
            rw [if_pos hl, if_pos (by omega)]
            exact .invalid
          case neg =>
            rw [if_neg hl, if_neg (by omega), ← bind_pure (validateItems _ _ _)]
            refine .bind (.mono (.items (fun off => ih room (Nat.lt_succ_self room)) h₂) (by omega))
              fun stop _ _ h₃ h₄ => ?_
            dsimp only
            rw [Secs2.slice_ok h₃ h₄, Secs2.ok_bind]
            exact .ok h₃ h₄
      case neg =>
        rw [if_neg hc]
        cases hf : FormatCode.ofCode h.code.toNat
        case none =>
          rw [if_neg (by simp [LeafOk, elementSize_eq, hf])]
          exact .invalid
        case some fc =>
          have hl : fc ≠ .list := by
            rintro rfl
            exact hc (UInt8.toNat_inj.mp (FormatCode.code_of_ofCode hf).symm)
          dsimp only
          rw [if_pos hl]
          exact leaf_agree hh hf hl

theorem validate_ok_iff {stop : Nat} : (∃ content, validate b room off = .ok (stop, content)) ↔
    ∃ x, decodeItem b room off = .ok (x, stop) := by
  have ha := @validate_agree b room off
  revert ha
  generalize validate b room off = v, decodeItem b room off = d
  intro ha
  cases ha <;> simp [fail]

-- The walk over a whole text, and how many bytes the decoder finds behind the first item.
theorem first_agree (hb : b ≠ []) :
    (∃ stop content x n, validate b maxDepth 0 = .ok (stop, content) ∧
      decodeFirstItem b = .ok (x, n) ∧ stop + n = b.length) ∨
    (∃ text, validate b maxDepth 0 = fail .invalid ∧ decodeFirstItem b = .error (.err text)) ∨
    ∃ d, validate b maxDepth 0 = fail (.depth d) ∧ decodeFirstItem b = .error (.err depthText) := by
  have ha : Agree b 0 _ (decodeItem b Secs2.maxListDepth 0) := @validate_agree b maxDepth 0
  rw [decodeFirstItem, if_neg (by simpa using hb)]
  revert ha
  generalize validate b maxDepth 0 = v, decodeItem b Secs2.maxListDepth 0 = d
  intro ha
  cases ha
  case ok stop content x _ hs =>
    exact .inl ⟨stop, content, x, b.length - stop, rfl, rfl, Nat.add_sub_of_le hs⟩
  case invalid text => exact .inr (.inl ⟨text, rfl, rfl⟩)
  case depth d => exact .inr (.inr ⟨d, rfl, rfl⟩)

theorem decodeFirstItem_ok_iff {n : Nat} (hb : b ≠ []) : (∃ x, decodeFirstItem b = .ok (x, n)) ↔
    ∃ stop content, validate b maxDepth 0 = .ok (stop, content) ∧ stop + n = b.length := by
  rcases first_agree hb with ⟨stop, content, x, m, hv, hd, hl⟩ | ⟨text, hv, hd⟩ | ⟨d, hv, hd⟩
  case inl => simp [hv, hd]; omega
  all_goals simp [hv, hd, fail]

theorem screen_one_iff (hb : b ≠ []) : (∃ content, screen b = .ok ⟨b, true, content⟩) ↔
    ∃ x, decodeFirstItem b = .ok (x, 0) := by
  rcases first_agree hb with ⟨stop, content, x, m, hv, hd, hl⟩ | ⟨text, hv, hd⟩ | ⟨d, hv, hd⟩
  case inl => simp [screen, hb, hv, hd]; omega
  all_goals simp [screen, hb, hv, hd, fail]

theorem screen_depth {d : Nat} (hb : b ≠ []) (hs : screen b = fail (.depth d)) :
    decodeFirstItem b = .error (.err depthText) := by
  rcases first_agree hb with ⟨stop, content, x, m, hv, _⟩ | ⟨text, hv, _⟩ | ⟨d, _, hd⟩
  case inr.inr => exact hd
  all_goals simp [screen, hb, hv, fail] at hs

end Tracepack.SecsItem

namespace Tracepack.Classify

open Hsms SecsItem

variable {text : Bytes} {h : Hsms.Header} {ceiling : Nat}

theorem classifyFrame_data (h₄ : h.h4 = 0) (h₅ : h.h5 = 0) (ht : text ≠ [])
    (hn : 10 + text.length ≤ maxMessageSize) (hc : ceiling = 0 ∨ 14 + text.length ≤ ceiling) :
    classifyFrame (BigEndian.intBytes 4 (10 + text.length : Nat) ++ h.bytes ++ text) ceiling =
      match decodeFirstItem text with
      | .ok (_, 0) => (.ok, 0)
      | .ok (_, n + 1) => (.okWithTrailing, n + 1)
      | .error _ => (.itemDecodeError, 0) := by
  have hd := decodeHSMSMessage_frame (h := h) hn
  rw [decodeOwnedFrame_bytes, decodeBody_data h₄ h₅] at hd
  have hv := nat_intBytes_four hn
  have hp : (BigEndian.intBytes 4 (10 + text.length : Nat)).length = 4 := BigEndian.length_intBytes ..
  generalize BigEndian.intBytes 4 (10 + text.length : Nat) = p at *
  have hl : (p ++ h.bytes ++ text).length = 14 + text.length := by
    simp only [length_append, hp, length_header]
  have ht₄ : (p ++ h.bytes ++ text).take 4 = p := by rw [append_assoc, ← hp, take_left]
  have hbyte (i : Nat) : (p ++ h.bytes ++ text).getD (4 + i) 0 = (h.bytes ++ text).getD i 0 := by
    rw [append_assoc, getD_eq_getElem?_getD, getElem?_append_right (by omega), hp,
      Nat.add_sub_cancel_left, getD_eq_getElem?_getD]
  have h₈ : (p ++ h.bytes ++ text).getD ptypeOffset 0 = 0 := (hbyte 4).trans h₄
  have h₉ : (p ++ h.bytes ++ text).getD stypeOffset 0 = 0 := (hbyte 5).trans h₅
  have hs : isValidSType 0 = true := rfl
  simp only [classifyFrame, hl, h₈, h₉, hs, minFrameLen, lengthPrefixLen, headerLen, ht₄, hv]
  rw [if_neg (by omega), if_neg (by omega), if_neg (by simp), if_neg (by simp), if_neg (by simp),
    if_neg (by omega), classifyParsed, hd]
  rcases hx : decodeFirstItem text with _ | ⟨_, _ | n⟩ <;>
    simp [DataMessage.item, DataMessage.trailingBytes, DataMessage.decoded, DataMessage.decode,
      Body.len, Body.appendTo, ht, hx]

-- The classifier, the decoder and the walk that masking relies on take the same decision.
theorem classifier_walk_agree (h₄ : h.h4 = 0) (h₅ : h.h5 = 0) (ht : text ≠ [])
    (hn : 10 + text.length ≤ maxMessageSize) (hc : ceiling = 0 ∨ 14 + text.length ≤ ceiling) :
    let classified := classifyFrame (DataMessage.toBytes ⟨h, .raw text, none⟩) ceiling
    (classified = (.ok, 0) ↔ ∃ x, decodeFirstItem text = .ok (x, 0)) ∧
    ((∃ content, screen text = .ok ⟨text, true, content⟩) ↔ ∃ x, decodeFirstItem text = .ok (x, 0)) ∧
    (∀ n > 0, classified = (.okWithTrailing, n) ↔
      ∃ stop content, validate text maxDepth 0 = .ok (stop, content) ∧ stop + n = text.length) ∧
    (∀ d, screen text = fail (.depth d) → decodeFirstItem text = .error (.err depthText)) ∧
    (∀ room off stop, (∃ content, validate text room off = .ok (stop, content)) ↔
      ∃ x, decodeItem text room off = .ok (x, stop)) ∧
    ∀ room off r, validate text room off = .ok r →
      (endOf text (text.length + 1) off : Run Err Nat) = .ok r.1 := by
  have hf : DataMessage.toBytes ⟨h, .raw text, none⟩ =
      BigEndian.intBytes 4 (10 + text.length : Nat) ++ h.bytes ++ text := by
    simp [DataMessage.toBytes, Body.appendTo, Body.len]
  have hd := classifyFrame_data h₄ h₅ ht hn hc
  refine ⟨?_, screen_one_iff ht, fun n hp => ?_, fun _ => screen_depth ht,
    fun _ _ _ => validate_ok_iff, fun _ _ _ hv => ?_⟩
  · rw [hf, hd]
    rcases decodeFirstItem text with _ | ⟨_, _ | n⟩ <;> simp
  · rw [hf, hd, ← decodeFirstItem_ok_iff ht]
    rcases decodeFirstItem text with _ | ⟨_, _ | n⟩ <;> simp
    omega
  · obtain ⟨_, ht⟩ := tree_of_validate hv
    rw [endOf_text ht, ← Except.ok.inj ((validate_of_tree ht).symm.trans hv)]

theorem classifier_walk_agree_trailing :
    let frame := DataMessage.toBytes ⟨Hsms.Header.zero, .raw [0x41, 1, 65, 0], none⟩
    classifyFrame frame 0 = (.okWithTrailing, 1) ↔
      ∃ stop content, validate [0x41, 1, 65, 0] maxDepth 0 = .ok (stop, content) ∧ stop + 1 = 4 :=
  (classifier_walk_agree rfl rfl (by decide) (by decide) (.inl rfl)).2.2.1 1 (by decide)

end Tracepack.Classify
