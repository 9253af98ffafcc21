import GoSecs.Tracepack.Theorems.Tlv
import GoSecs.Tracepack.ZstdFrame

-- The walk over a zstd frame reads the frame and nothing behind it.

open Run LittleEndian List

namespace Tracepack.Codec

variable {src src' : Bytes} {fuel fuel' off lo hi k m n : Nat} {hdr : ZstdFrameHeader}

-- As far as both go, `src'` is the first `n` bytes of `src`.
def Agrees (n : Nat) (src src' : Bytes) : Prop :=
  ∀ k ≤ n, k ≤ src'.length → src'.take k = src.take k

section Cut

variable {α β : Type} {a : α} {b : β} {x : Run Err α} {f : α → Run Err β}

-- The run comes to `a` in a text of `n` bytes or more, and finds one of `m` bytes cut.
def Cut (m n : Nat) (a : α) (x : Run Err α) : Prop :=
  if n ≤ m then x = .ok a else ∃ e, x = fail e ∧ e.is .incompleteStream = true

theorem Cut.bind (hx : Cut m k a x) (hk : k ≤ n) (hf : k ≤ m → Cut m n b (f a)) :
    Cut m n b (x >>= f) := by
  unfold Cut at hx
  split at hx
  case isTrue hle => exact hx ▸ hf hle
  case isFalse hlt =>
    obtain ⟨e, rfl, he⟩ := hx
    rw [Cut, if_neg (by omega)]
    exact ⟨e, rfl, he⟩

theorem Cut.pass (hx : x = .ok a) (hf : Cut m n b (f a)) : Cut m n b (x >>= f) :=
  hx ▸ hf

theorem Cut.done (h : n ≤ m) : Cut m n a (Pure.pure a) := by
  rw [Cut, if_pos h]
  rfl

theorem Cut.need {c : Prop} [Decidable c] {format : String} {args : List Arg} (h : c ↔ m < k) :
    Cut m k () (failIf c (incomplete format args)) := by
  unfold Cut failIf
  split
  case isTrue hle  => exact if_neg fun hc => absurd (h.mp hc) (Nat.not_lt.mpr hle)
  case isFalse hlt => exact ⟨_, if_pos (h.mpr (Nat.lt_of_not_le hlt)), rfl⟩

end Cut

theorem slice_agrees (h : Agrees n src src') (hn : hi ≤ n) (hm : hi ≤ src'.length) :
    (slice src' lo hi : Run Err Bytes) = slice src lo hi := by
  rw [← slice_take (s := src) le_rfl, ← h hi hn hm, slice_take le_rfl]

theorem uint_agrees (h : Agrees n src src') (hn : hi ≤ n) (hm : hi ≤ src'.length) :
    Format.uint src' lo hi = Format.uint src lo hi := by
  rw [Format.uint, Format.uint, slice_agrees h hn hm]

theorem index_agrees (h : Agrees n src src') (hn : k < n) (hm : k < src'.length) :
    (index src' k : Run Err UInt8) = index src k := by
  have := congrArg (·[k]?) (h (k + 1) hn hm)
  simp only [getElem?_take, Nat.lt_succ_self, if_true] at this
  rw [index, index, this]

theorem window_agrees {b : Bool} (h : Agrees n src src') (hn : hi ≤ n) (hm : hi ≤ src'.length)
    (hb : zstdFrameMagicLen + 1 < hi) : zstdWindow src' b lo hi = zstdWindow src b lo hi := by
  unfold zstdWindow
  rw [slice_agrees h hn hm, index_agrees h (hb.trans_le hn) (hb.trans_le hm)]

theorem walkZstdBlocks_cut (h : walkZstdBlocks src fuel off = .ok n) (ha : Agrees n src src')
    (hf : src'.length < off + 3 * fuel') :
    off ≤ n ∧ (off ≤ src'.length → Cut src'.length n n (walkZstdBlocks src' fuel' off)) := by
  induction fuel generalizing off fuel'
  case zero => cases h
  case succ fuel hi =>
    obtain ⟨_, _, h⟩ := bind_eq_ok.mp h
    obtain ⟨header, hh, h⟩ := bind_eq_ok.mp h
    obtain ⟨c, hc, h⟩ := bind_eq_ok.mp h
    obtain ⟨_, _, h⟩ := bind_eq_ok.mp h
    have hn : off + 3 + c ≤ n := by
      split at h
      case isTrue  => exact Nat.le_of_eq (Except.ok.inj h)
      case isFalse =>
        have hf' : src'.length < off + 3 + c + 3 * fuel' := by omega
        exact (hi h hf').1
    refine ⟨by omega, fun ho => ?_⟩
    cases fuel'
    case zero => omega
    case succ fuel' =>
      refine (Cut.need .rfl).bind (show off + 3 ≤ n by omega) fun h3 => ?_
      refine .pass ((uint_agrees ha (show off + 3 ≤ n by omega) h3).trans hh) ?_
      refine .pass hc ?_
      refine (Cut.need .rfl).bind hn fun hm => ?_
      split at h
      case isTrue hl =>
        obtain rfl := Except.ok.inj h
        rw [if_pos hl]
        exact Cut.done hm
      case isFalse hl =>
        have hf' : src'.length < off + 3 + c + 3 * fuel' := by omega
        rw [if_neg hl]
        exact (hi h hf').2 hm

theorem lt_headerLen (b : Bool) (d flag : Nat) : zstdFrameMagicLen + 1 <
    (zstdFrameMagicLen + 1 + if b then 0 else 1) + d + if flag = 0 ∧ b then 1 else flag := by
  cases b <;> grind

theorem parseZstdFrameHeader_cut (h : parseZstdFrameHeader src = .ok hdr)
    (ha : Agrees n src src') (hn : hdr.headerLen ≤ n) :
    Cut src'.length hdr.headerLen hdr (parseZstdFrameHeader src') := by
  obtain ⟨_, _, h⟩ := bind_eq_ok.mp h
  obtain ⟨magic, hmagic, h⟩ := bind_eq_ok.mp h
  obtain ⟨_, hm, h⟩ := bind_eq_ok.mp h
  obtain ⟨_, _, h⟩ := bind_eq_ok.mp h
  obtain ⟨fhd, hfhd, h⟩ := bind_eq_ok.mp h
  obtain ⟨d, hd, h⟩ := bind_eq_ok.mp h
  obtain ⟨flag, hflag, h⟩ := bind_eq_ok.mp h
  obtain ⟨_, _, h⟩ := bind_eq_ok.mp h
  obtain ⟨w, hw, h⟩ := bind_eq_ok.mp h
  obtain rfl := Except.ok.inj h
  have h6 := lt_headerLen (fhd.toNat.testBit 5) d flag
  have hn6 : 6 ≤ n := h6.trans_le hn
  unfold parseZstdFrameHeader
  refine (Cut.need .rfl).bind (Nat.le_trans (by decide) h6) fun (h4 : 4 ≤ src'.length) => ?_
  refine .pass ((uint_agrees ha (show 4 ≤ n by omega) h4).trans hmagic) ?_
  refine .pass hm ?_
  have hlt : src'.length = 4 ↔ src'.length < 5 := by omega
  refine (Cut.need hlt).bind (Nat.le_of_succ_le h6) fun h5 => ?_
  refine .pass ((index_agrees ha (show 4 < n by omega) h5).trans hfhd) ?_
  refine .pass hd ?_
  refine .pass hflag ?_
  refine (Cut.need .rfl).bind le_rfl fun hm => ?_
  refine .pass ((window_agrees ha hn hm h6).trans hw) ?_
  exact Cut.done hm

theorem zstdContentSize_spec {field : Bytes} (h : field.length ∈ [1, 2, 4, 8]) :
    Spec (zstdContentSize field) fun _ => True := by
  simp only [mem_cons, not_mem_nil, or_false] at h
  rcases h with h | h | h | h <;> simp only [zstdContentSize, h]
  case inr.inr.inr => exact (Tlv.uint_spec (by decide) h.ge).mono fun _ _ => trivial
  all_goals exact .pure trivial

theorem zstdWindow_spec {b : Bool} (hb : b = true → hi - lo ∈ [1, 2, 4, 8] ∧ lo ≤ hi)
    (hm : hi ≤ src.length) (h5 : zstdFrameMagicLen + 1 < hi) :
    Spec (zstdWindow src b lo hi) fun _ => True := by
  refine .ite (fun h => ?_) fun _ =>
    (Agree.index (h5.trans_le hm)).bind fun _ _ => .pure trivial
  refine (Agree.slice (hb h).right hm).bind fun field hf => zstdContentSize_spec ?_
  rw [hf, length_take, length_drop, min_eq_left (by omega)]
  exact (hb h).left

theorem parseZstdFrameHeader_spec (src : Bytes) :
    Spec (parseZstdFrameHeader src) fun hdr => hdr.headerLen ≤ src.length := by
  refine .check fun h4 => ?_
  refine (Tlv.uint_spec (by decide) (Nat.le_of_not_lt h4)).bind fun _ _ => ?_
  refine .check fun _ => ?_
  refine .check fun h5 => ?_
  refine (Agree.index (Nat.lt_of_le_of_ne (Nat.le_of_not_lt h4) (Ne.symm h5))).bind fun fhd _ => ?_
  refine (Agree.index (Nat.mod_lt _ (by decide))).bind fun d _ => ?_
  have hbyte : fhd.toNat / 64 < zstdContentSizeLen.length :=
    Nat.div_lt_of_lt_mul (UInt8.toNat_lt fhd)
  refine (Agree.index hbyte).bind fun flag hflag => ?_
  have hflag : flag ∈ zstdContentSizeLen := hflag ▸ getElem_mem _
  refine .check fun hl => ?_
  have hl := Nat.le_of_not_lt hl
  refine (zstdWindow_spec (fun hb => ⟨?_, Nat.sub_le ..⟩) hl (lt_headerLen ..)).bind fun _ _ =>
    Agree.pure hl
  rw [Nat.sub_sub_self (Nat.le_add_left ..), hb]
  simp only [zstdContentSizeLen, mem_cons, not_mem_nil, or_false] at hflag
  rcases hflag with rfl | rfl | rfl | rfl <;> decide

theorem walkZstdBlocks_spec (hf : src.length < off + 3 * fuel) (ho : off ≤ src.length) :
    Spec (walkZstdBlocks src fuel off) fun n => n ≤ src.length := by
  induction fuel generalizing off
  case zero => omega
  case succ fuel hi =>
    unfold walkZstdBlocks
    refine .check fun h3 => ?_
    refine (Tlv.uint_spec (Nat.le_add_right ..) (Nat.le_of_not_lt h3)).bind fun _ _ => ?_
    refine (show Spec (zstdContentLen off _) fun _ => True from ?_).bind fun c _ => ?_
    · unfold zstdContentLen
      split
      all_goals first | exact .pure trivial | exact .fail _
    refine .check fun hc => ?_
    have hf' : src.length < off + 3 + c + 3 * fuel := by omega
    have hc := Nat.le_of_not_lt hc
    exact .ite (fun _ => .pure hc) fun _ => hi hf' hc

theorem walkZstdFrame_spec (src : Bytes) : Spec (walkZstdFrame src) fun r => r.1 ≤ src.length := by
  refine (parseZstdFrameHeader_spec src).bind fun hdr hh => ?_
  refine .check fun _ => ?_
  refine .check fun _ => ?_
  refine (walkZstdBlocks_spec (by omega) hh).bind fun stop hs => ?_
  refine .ite (fun _ => ?_) fun _ => .pure hs
  exact .check fun hc => .pure (Nat.le_of_not_lt hc)

theorem walkZstdFrame_cut {w : Nat} (h : walkZstdFrame src = .ok (n, w)) (ha : Agrees n src src') :
    Cut src'.length n (n, w) (walkZstdFrame src') := by
  obtain ⟨hdr, hh, h⟩ := bind_eq_ok.mp h
  obtain ⟨_, hd, h⟩ := bind_eq_ok.mp h
  obtain ⟨_, hw, h⟩ := bind_eq_ok.mp h
  obtain ⟨stop, hs, h⟩ := bind_eq_ok.mp h
  have hstop : stop ≤ n := by
    split at h
    case isTrue  =>
      obtain ⟨_, _, h⟩ := bind_eq_ok.mp h
      cases h
      exact Nat.le_add_right ..
    case isFalse => cases h; exact le_rfl
  have hb := walkZstdBlocks_cut hs (fun k hk => ha k (hk.trans hstop))
    (show src'.length < hdr.headerLen + 3 * (src'.length + 1) by omega)
  have hle := hb.1.trans hstop
  refine (parseZstdFrameHeader_cut hh ha hle).bind hle fun hm => ?_
  refine .pass hd ?_
  refine .pass hw ?_
  refine (hb.2 hm).bind hstop fun hsm => ?_
  split at h
  case isTrue hc =>
    obtain ⟨_, _, h⟩ := bind_eq_ok.mp h
    cases h
    rw [if_pos hc]
    exact (Cut.need .rfl).bind le_rfl Cut.done
  case isFalse hc =>
    cases h
    rw [if_neg hc]
    exact Cut.done hsm

theorem walkZstdFrame_selfDelimiting :
    (∀ src n w, walkZstdFrame src = .ok (n, w) →
      n ≤ src.length ∧
      (∀ src', src.take n <+: src' → walkZstdFrame src' = .ok (n, w)) ∧
      ∀ m < n, ∃ e, walkZstdFrame (src.take m) = fail e ∧ e.is .incompleteStream = true) ∧
    (∀ src, (walkZstdFrame src).Safe) ∧
    ∀ a b v w, walkZstdFrame a = .ok (a.length, v) → walkZstdFrame b = .ok (b.length, w) →
      a <+: b → a = b := by
  have hcut {src n w} (h : walkZstdFrame src = .ok (n, w)) :
      ∀ src', src.take n <+: src' → walkZstdFrame src' = .ok (n, w) := by
    intro src' hp
    have hn := (walkZstdFrame_spec src).post _ h
    have hlen : n ≤ src'.length := by simpa [hn] using hp.length_le
    have ha : Agrees n src src' := by
      intro k hk _
      obtain ⟨t, rfl⟩ := hp
      rw [List.take_append_of_le_length (by simp; omega), List.take_take, min_eq_left hk]
    have hc := walkZstdFrame_cut h ha
    rwa [Cut, if_pos hlen] at hc
  refine ⟨fun src n w h => ⟨(walkZstdFrame_spec src).post _ h, hcut h, fun m hm => ?_⟩,
    fun src => (walkZstdFrame_spec src).safe, fun a b v w ha hb hp => ?_⟩
  · have ha : Agrees n src (src.take m) := by
      intro k _ hk
      rw [List.take_take, min_eq_left (by simp at hk; omega)]
    have hc := walkZstdFrame_cut h ha
    rwa [Cut, if_neg (by simp; omega)] at hc
  · have := hcut ha b (by simpa using hp)
    rw [hb] at this
    exact hp.eq_of_length (Prod.mk.inj (Except.ok.inj this)).1.symm

-- An empty frame of one segment with one empty block.
example : walkZstdFrame [0x28, 0xB5, 0x2F, 0xFD, 0x20, 0, 1, 0, 0] = .ok (9, 0) := by decide +kernel

end Tracepack.Codec
