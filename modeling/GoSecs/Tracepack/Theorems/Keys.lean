import GoSecs.Lib.Civil
import GoSecs.Tracepack.Bus

open Run Strings Strconv List

namespace Tracepack

open Format (UUID)

variable {s t e : Bytes} {u : UUID} {n : Nat} {c : UInt8}

section Escape

variable {keep : UInt8 → Bool} {errs : EscapeErrors}

theorem upperHex_index (h : n < 16) : indexByte upperHex (upperHex.getD n 0) = some n := by
  interval_cases n <;> decide

theorem upperHex_of_index (h : indexByte upperHex c = some n) :
    n < 16 ∧ upperHex.getD n 0 = c := by
  have ⟨hn, hc, _⟩ := findIdx?_eq_some_iff_getElem.mp h
  refine ⟨hn, ?_⟩
  rw [getD_eq_getElem?_getD, getElem?_eq_getElem hn, Option.getD_some]
  exact beq_iff_eq.mp hc

theorem toNat_two {hi lo : Nat} (hh : hi < 16) (hl : lo < 16) :
    (UInt8.ofNat (hi * 16 + lo)).toNat = hi * 16 + lo :=
  UInt8.toNat_ofNat_of_lt' (by show hi * 16 + lo < 256; omega)

theorem escape_of_unescape {i : Nat} (h : unescape keep errs i s = .ok e) : escape keep e = s := by
  fun_induction unescape keep errs i s generalizing e
  case case1 => cases h; rfl
  case case2 hk hi =>
    have ⟨e', he, h⟩ := bind_eq_ok.mp h
    cases h
    rw [escape, flatMap_cons, escapeByte, if_pos hk]
    exact congrArg (_ :: ·) (hi he)
  case case5 i c hk hc a b s hi lo hlo hhi hv hih =>
    have ⟨e', he, h⟩ := bind_eq_ok.mp h
    cases h
    have ⟨hh, ha⟩ := upperHex_of_index hhi
    have ⟨hl, hb⟩ := upperHex_of_index hlo
    rw [escape, flatMap_cons, escapeByte, if_neg hv, toNat_two hh hl]
    have hd : (hi * 16 + lo) / 16 = hi := by omega
    have hm : (hi * 16 + lo) % 16 = lo := by omega
    rw [hd, hm, ha, hb, not_not.mp hc]
    exact congrArg (fun t => '%'.toUInt8 :: a :: b :: t) (hih he)
  all_goals cases h

theorem unescape_kept {i : Nat} (hk : keep c) :
    unescape keep errs i (c :: s) =
      (unescape keep errs (i + 1) s >>= fun t => pure (c :: t)) := by
  rw [unescape.eq_def]
  exact if_pos hk

theorem unescape_escape (hp : keep '%'.toUInt8 = false) (i : Nat) :
    unescape keep errs i (escape keep e) = .ok e := by
  induction e generalizing i
  case nil => rfl
  case cons c e hi =>
    rw [escape, flatMap_cons, escapeByte]
    have hlt := c.toNat_lt
    have hc : c.toNat / 16 * 16 + c.toNat % 16 = c.toNat := Nat.div_add_mod' ..
    split
    case isTrue hk =>
      show unescape keep errs i (c :: escape keep e) = _
      rw [unescape_kept hk, hi]
      rfl
    case isFalse hk =>
      show unescape keep errs i ('%'.toUInt8 :: upperHex.getD (c.toNat / 16) 0 ::
        upperHex.getD (c.toNat % 16) 0 :: escape keep e) = _
      rw [unescape, if_neg (by simp [hp]), if_neg (by simp), upperHex_index (by omega),
        upperHex_index (by omega)]
      simp only [hc, UInt8.ofNat_toNat]
      rw [if_neg hk, hi]
      rfl

theorem mem_escape (h : c ∈ escape keep s) :
    keep c ∨ c = '%'.toUInt8 ∨ c ∈ upperHex := by
  have ⟨d, _, hd⟩ := mem_flatMap.mp h
  have hlt := d.toNat_lt
  have hmem {n : Nat} (hn : n < 16) : upperHex.getD n 0 ∈ upperHex := by
    interval_cases n <;> decide
  rw [escapeByte] at hd
  split at hd
  case isTrue hk => exact .inl (mem_singleton.mp hd ▸ hk)
  case isFalse =>
    simp only [mem_cons, not_mem_nil, or_false] at hd
    rcases hd with rfl | rfl | rfl
    · exact .inr (.inl rfl)
    · exact .inr (.inr (hmem (by omega)))
    · exact .inr (.inr (hmem (by omega)))

end Escape

section Uuid

theorem length_uuidString (u : UUID) : (uuidString u).length = uuidStringLen := by
  simp only [uuidString, length_append, Hex.length_encode, length_take, length_drop]
  simp [ascii, uuidStringLen, u.length]

theorem decodeGroup_eq {lo hi : Nat} (h : (slice s lo hi : Run Err Bytes) = .ok (Hex.encode t)) :
    decodeGroup s (lo, hi) = .ok t := by
  rw [decodeGroup, h, bind_ok, Hex.decode_encode]
  rfl

-- The groups of a UUID and the hyphens between them are where the parser looks for them.
theorem uuid_groups {a b c d e : Bytes} (ha : a.length = 8) (hb : b.length = 4) (hc : c.length = 4)
    (hd : d.length = 4) (he : e.length = 12)
    (hs : s = a ++ ascii "-" ++ b ++ ascii "-" ++ c ++ ascii "-" ++ d ++ ascii "-" ++ e) :
    ([8, 13, 18, 23].mapM (index s) : Run Err Bytes) = .ok (List.replicate 4 '-'.toUInt8) ∧
    (slice s 0 8 : Run Err Bytes) = .ok a ∧ (slice s 9 13 : Run Err Bytes) = .ok b ∧
    (slice s 14 18 : Run Err Bytes) = .ok c ∧ (slice s 19 23 : Run Err Bytes) = .ok d ∧
    (slice s 24 36 : Run Err Bytes) = .ok e := by
  match a, ha, b, hb, c, hc, d, hd, e, he with
  | [_, _, _, _, _, _, _, _], _, [_, _, _, _], _, [_, _, _, _], _, [_, _, _, _], _,
    [_, _, _, _, _, _, _, _, _, _, _, _], _ =>
    -- The bytes one by one, so that no text is evaluated again for each of the six.
    simp only [show ascii "-" = ['-'.toUInt8] from rfl, cons_append, nil_append] at hs
    subst hs
    exact ⟨rfl, rfl, rfl, rfl, rfl, rfl⟩

theorem ofBytes_groups : ∀ u : UUID, UUID.ofBytes [u.bytes.take 4, (u.bytes.drop 4).take 2,
    (u.bytes.drop 6).take 2, (u.bytes.drop 8).take 2, u.bytes.drop 10].flatten = .ok u
  | ⟨[_, _, _, _, _, _, _, _, _, _, _, _, _, _, _, _], _⟩ => rfl

theorem parseUUID_uuidString (u : UUID) : parseUUID (uuidString u) = .ok u := by
  have hl := u.length
  have ⟨hh, h₁, h₂, h₃, h₄, h₅⟩ := uuid_groups (s := uuidString u)
    (by rw [Hex.length_encode, length_take]; omega)
    (by rw [Hex.length_encode, length_take, length_drop]; omega)
    (by rw [Hex.length_encode, length_take, length_drop]; omega)
    (by rw [Hex.length_encode, length_take, length_drop]; omega)
    (by rw [Hex.length_encode, length_drop]; omega) rfl
  rw [parseUUID, if_neg (not_not.mpr (length_uuidString u)), hh, bind_ok, failIf,
    if_neg (not_not.mpr rfl)]
  simp only [UUID.groups, mapM_cons, mapM_nil, decodeGroup_eq h₁, decodeGroup_eq h₂,
    decodeGroup_eq h₃, decodeGroup_eq h₄, decodeGroup_eq h₅, bind_ok, pure_eq]
  exact ofBytes_groups u

theorem parseKeyUUID_iff : parseKeyUUID s = .ok u ↔ uuidString u = s := by
  constructor
  case mp =>
    intro h
    have ⟨u', _, h⟩ := bind_eq_ok.mp h
    have ⟨_, hs, h⟩ := bind_eq_ok.mp h
    cases h
    exact not_not.mp (failIf_eq_ok.mp hs)
  case mpr =>
    rintro rfl
    rw [parseKeyUUID, parseUUID_uuidString, bind_ok, failIf, if_neg (not_not.mpr rfl)]
    rfl

theorem mem_uuidString (h : c ∈ uuidString u) :
    c = '-'.toUInt8 ∨ c ∈ Hex.lowerDigits := by
  have hyphen (h : c ∈ ascii "-") : c = '-'.toUInt8 := mem_singleton.mp h
  simp only [uuidString, mem_append] at h
  rcases h with (((((((h | h) | h) | h) | h) | h) | h) | h) | h
  all_goals first | exact .inl (hyphen h) | exact .inr (Hex.mem_encode h)

end Uuid

section Equipment

variable {equipment : Bytes}

def Storable (equipment : Bytes) : Prop :=
  equipment ≠ [] ∧ equipment ≠ ascii "." ∧ equipment ≠ ascii ".."

theorem checkEquipment_iff {x : Unit} : checkEquipment equipment = .ok x ↔ Storable equipment := by
  rw [checkEquipment, failIf_eq_ok, not_or, not_or, Storable]

theorem unescapeEquipmentID_iff : unescapeEquipmentID s = .ok equipment ↔
    Storable equipment ∧ s = escapeEquipmentID equipment := by
  rw [unescapeEquipmentID]
  constructor
  case mp =>
    intro h
    have ⟨e, he, h⟩ := bind_eq_ok.mp h
    have ⟨_, hc, h⟩ := bind_eq_ok.mp h
    cases h
    exact ⟨checkEquipment_iff.mp hc, (escape_of_unescape he).symm⟩
  case mpr =>
    rintro ⟨hc, rfl⟩
    rw [escapeEquipmentID, unescape_escape rfl, bind_ok, checkEquipment_iff (x := ()) |>.mpr hc]
    rfl

theorem slash_not_mem_escape : '/'.toUInt8 ∉ escapeEquipmentID equipment := by
  intro h
  rcases mem_escape h with h | h | h
  all_goals exact absurd h (by decide)

theorem slash_not_mem_uuidString : '/'.toUInt8 ∉ uuidString u := by
  intro h
  rcases mem_uuidString h with h | h
  all_goals exact absurd h (by decide)

end Equipment

section Split

variable {pre area key : Bytes} {comps : List Bytes} {n : Nat}

def joinKey (pre area : Bytes) (comps : List Bytes) : Bytes :=
  keyArea pre area ++ ['/'.toUInt8].intercalate comps

theorem eq_joinKey (h : splitKey pre area key n = .ok comps) :
    comps.length = n ∧ key = joinKey pre area comps := by
  have ⟨_, hp, h⟩ := bind_eq_ok.mp h
  have ⟨_, hn, h⟩ := bind_eq_ok.mp h
  cases h
  have ⟨rest, hr⟩ := isPrefixOf_iff_prefix.mp (Bool.of_not_eq_false (failIf_eq_ok.mp hp))
  refine ⟨not_not.mp (failIf_eq_ok.mp hn), ?_⟩
  rw [joinKey, intercalate_splitOn, ← hr, drop_left]

theorem splitKey_joinKey (hc : ∀ c ∈ comps, '/'.toUInt8 ∉ c) (hn : comps ≠ []) :
    splitKey pre area (joinKey pre area comps) comps.length = .ok comps := by
  have hp : hasPrefix (joinKey pre area comps) (keyArea pre area) = true :=
    isPrefixOf_iff_prefix.mpr (prefix_append ..)
  rw [splitKey, failIf, if_neg (by simp [hp])]
  simp only [joinKey, drop_left, splitOn_intercalate _ hc hn]
  rw [failIf, if_neg (not_not.mpr rfl)]
  rfl

end Split

section Names

variable {file a b : Bytes} {k : Nat}

-- The name of a file: something of `k` bytes and the id of a pack.
def fileName (a b : Bytes) : Bytes :=
  a ++ (ascii "-" ++ (b ++ keyPackSuffix))

theorem eq_fileName (hl : file.length = k + 1 + uuidStringLen + 4)
    (hd : file[k]? = some '-'.toUInt8) (hs : keyPackSuffix.isSuffixOf file = true) :
    ∃ a b, a.length = k ∧ b.length = uuidStringLen ∧ file = fileName a b := by
  have ⟨r, hr⟩ := isSuffixOf_iff_suffix.mp hs
  have hrl : r.length = k + 1 + uuidStringLen := by
    have := congrArg List.length hr
    rw [length_append, hl] at this
    exact Nat.add_right_cancel this
  have hk : k < r.length := by omega
  rw [← hr, getElem?_append_left hk, getElem?_eq_getElem hk, Option.some.injEq] at hd
  refine ⟨r.take k, r.drop (k + 1), ?_, ?_, ?_⟩
  · rw [length_take]
    omega
  · rw [length_drop]
    omega
  · calc file = r ++ keyPackSuffix := hr.symm
      _ = r.take k ++ r.drop k ++ keyPackSuffix := by rw [take_append_drop]
      _ = _ := by
        rw [drop_eq_getElem_cons hk, hd, append_assoc]
        rfl

theorem slice_fileName (ha : a.length = k) (hb : b.length = uuidStringLen)
    (hn : n = k + 1 + uuidStringLen) :
    (slice (fileName a b) 0 k : Run Err Bytes) = .ok a ∧
    (slice (fileName a b) (k + 1) n : Run Err Bytes) = .ok b := by
  have he : fileName a b = (a ++ ascii "-") ++ (b ++ keyPackSuffix) := by
    rw [fileName, append_assoc]
  refine ⟨slice_middle (a := []) rfl (by omega), ?_⟩
  rw [he]
  refine slice_middle ?_ (by omega)
  rw [length_append, ha]
  rfl

theorem fileName_iff (file a b : Bytes) (hn : n = k + 1 + uuidStringLen) :
    ¬(file.length ≠ k + 1 + uuidStringLen + 4 ∨ file[k]? ≠ some '-'.toUInt8 ∨
        keyPackSuffix.isSuffixOf file = false) ∧
      (slice file 0 k : Run Err Bytes) = .ok a ∧ (slice file (k + 1) n : Run Err Bytes) = .ok b ↔
    a.length = k ∧ b.length = uuidStringLen ∧ file = fileName a b := by
  simp only [not_or, not_not, Bool.not_eq_false]
  constructor
  case mp =>
    rintro ⟨⟨hl, hd, hs⟩, h₁, h₂⟩
    obtain ⟨a', b', ha, hb, rfl⟩ := eq_fileName hl hd hs
    have ⟨h₁', h₂'⟩ := slice_fileName ha hb hn
    cases h₁.symm.trans h₁'
    cases h₂.symm.trans h₂'
    exact ⟨ha, hb, rfl⟩
  case mpr =>
    rintro ⟨ha, hb, rfl⟩
    refine ⟨⟨?_, ?_, ?_⟩, slice_fileName ha hb hn⟩
    · simp only [fileName, length_append, ha, hb]
      simp [ascii, keyPackSuffix]
      omega
    · rw [fileName, getElem?_append_right (by omega), ha, Nat.sub_self]
      rfl
    · refine isSuffixOf_iff_suffix.mpr ⟨a ++ (ascii "-" ++ b), ?_⟩
      simp only [fileName, append_assoc]

theorem slash_not_mem_fileName (ha : '/'.toUInt8 ∉ a) (hb : '/'.toUInt8 ∉ b) :
    '/'.toUInt8 ∉ fileName a b := by
  intro h
  simp only [fileName, mem_append] at h
  rcases h with h | h | h | h
  case inl => exact ha h
  case inr.inl => exact absurd h (by decide)
  case inr.inr.inl => exact hb h
  case inr.inr.inr => exact absurd h (by decide)

theorem slash_not_mem_decimal (h : Decimal s) : '/'.toUInt8 ∉ s :=
  fun hs => absurd (h _ hs) (by decide)

end Names

section Digits

variable {k n bitSize : Nat}

theorem parseDigits_eq_ok :
    parseDigits s bitSize = .ok n ↔ parseUint s 10 bitSize = (n, none) := by
  rw [parseDigits]
  rcases parseUint s 10 bitSize with ⟨m, _ | e⟩
  all_goals simp [fail]

theorem parseDigits_iff (hk : 0 < k) (hs : s.length = k) :
    parseDigits s bitSize = .ok n ↔
      n < 10 ^ k ∧ n < 2 ^ effectiveBits bitSize ∧ s = pad k n := by
  have hne : s ≠ [] := ne_nil_of_length_pos (hs ▸ hk)
  rw [parseDigits_eq_ok, parseUint_ten_iff]
  constructor
  case mp =>
    rintro ⟨_, hd, rfl, hn⟩
    exact ⟨hs ▸ decimalValue_lt hd, hn, hs ▸ eq_pad hd (hs ▸ hk)⟩
  case mpr =>
    rintro ⟨_, hn, rfl⟩
    exact ⟨hne, decimal_pad, decimalValue_pad, hn⟩

end Digits

section Segment

variable {pre key equipment : Bytes} {capture pack : UUID} {seqFirst : Nat} {p : SegmentKeyParts}

def segmentComps (p : SegmentKeyParts) : List Bytes :=
  [escapeEquipmentID p.equipment, uuidString p.capture,
    fileName (pad seqFirstDigits p.seqFirst) (uuidString p.pack)]

theorem length_pad_seqFirst (h : seqFirst ≤ 2 ^ 63 - 1) :
    (pad seqFirstDigits seqFirst).length = seqFirstDigits :=
  length_pad (by decide) (h.trans_lt (by decide))

theorem segmentKey_iff :
    segmentKey pre p.equipment p.capture p.seqFirst p.pack = .ok key ↔
      Storable p.equipment ∧ p.seqFirst ≤ 2 ^ 63 - 1 ∧
        key = joinKey pre (ascii "staging") (segmentComps p) := by
  have hjoin : joinKey pre (ascii "staging") (segmentComps p) =
      keyArea pre (ascii "staging") ++ escapeEquipmentID p.equipment ++ ascii "/" ++
        uuidString p.capture ++ ascii "/" ++ pad seqFirstDigits p.seqFirst ++ ascii "-" ++
        uuidString p.pack ++ keyPackSuffix := by
    simp [joinKey, segmentComps, fileName, List.intercalate, ascii]
  simp only [segmentKey, stagingKeyDir, bind_eq_ok, mapErr_eq_ok, failIf_eq_ok, checkEquipment_iff,
    pure_eq, Except.ok.injEq, hjoin, not_lt]
  constructor
  case mp =>
    rintro ⟨_, ⟨_, hs, rfl⟩, _, hn, rfl⟩
    exact ⟨hs, hn, rfl⟩
  case mpr =>
    rintro ⟨hs, hn, rfl⟩
    exact ⟨_, ⟨(), hs, rfl⟩, (), hn, rfl⟩

theorem parseSegmentKey_comps {e c file : Bytes}
    (h : splitKey pre (ascii "staging") key 3 = .ok [e, c, file]) :
    parseSegmentKey pre key = .ok p ↔
      [e, c, file] = segmentComps p ∧ Storable p.equipment ∧ p.seqFirst ≤ 2 ^ 63 - 1 := by
  have hname {a b : Bytes} := fileName_iff file a b (k := seqFirstDigits) rfl
  rw [parseSegmentKey, h]
  simp only [bind_ok, Run.index, getElem?_cons_zero, getElem?_cons_succ, bind_eq_ok,
    mapErr_eq_ok, failIf_eq_ok, unescapeEquipmentID_iff, parseKeyUUID_iff, pure_eq, not_lt]
  constructor
  case mp =>
    rintro ⟨_, ⟨hs, rfl⟩, _, rfl, _, hf, a, ha, n, hn, _, hle, b, hb, _, rfl, h⟩
    cases h
    obtain ⟨hl, _, rfl⟩ := hname.mp ⟨hf, ha, hb⟩
    obtain ⟨_, _, hd⟩ := (parseDigits_iff (by decide) hl).mp hn
    exact ⟨by rw [segmentComps, ← hd], hs, hle⟩
  case mpr =>
    rintro ⟨hc, hs, hle⟩
    cases hc
    have hl := length_pad_seqFirst hle
    obtain ⟨hf, ha, hb⟩ := hname.mpr ⟨hl, length_uuidString p.pack, rfl⟩
    have hd : parseKeyDigits (pad seqFirstDigits p.seqFirst) = .ok p.seqFirst :=
      (parseDigits_iff (by decide) hl).mpr ⟨hle.trans_lt (by decide), hle.trans_lt (by decide), rfl⟩
    exact ⟨_, ⟨hs, rfl⟩, _, rfl, (), hf, _, ha, _, hd, (), hle, _, hb, _, rfl, rfl⟩

theorem segmentComps_slash : ∀ c ∈ segmentComps p, '/'.toUInt8 ∉ c :=
  forall_mem_cons.mpr ⟨slash_not_mem_escape, forall_mem_cons.mpr
    ⟨slash_not_mem_uuidString, forall_mem_singleton.mpr (slash_not_mem_fileName
      (slash_not_mem_decimal decimal_pad) slash_not_mem_uuidString)⟩⟩

theorem parseSegmentKey_iff : parseSegmentKey pre key = .ok p ↔
    segmentKey pre p.equipment p.capture p.seqFirst p.pack = .ok key := by
  rw [segmentKey_iff]
  constructor
  case mp =>
    intro h
    have ⟨comps, hc, _⟩ := bind_eq_ok.mp h
    have ⟨hl, hkey⟩ := eq_joinKey hc
    obtain ⟨e, c, file, rfl⟩ := length_eq_three.mp hl
    have ⟨he, hs, hn⟩ := (parseSegmentKey_comps hc).mp h
    exact ⟨hs, hn, he ▸ hkey⟩
  case mpr =>
    rintro ⟨hs, hn, rfl⟩
    exact (parseSegmentKey_comps (splitKey_joinKey segmentComps_slash nofun)).mpr ⟨rfl, hs, hn⟩

end Segment

section Hour

variable {cal : Calendar} {year month day hour : Bytes} {h : Int} {k : Nat} {v : Int}

theorem checkKeyHour_iff {x : Unit} : checkKeyHour h = .ok x ↔ minKeyHour ≤ h ∧ h ≤ maxKeyHour := by
  rw [checkKeyHour, failIf_eq_ok, not_or, not_lt, not_lt]

theorem padInt_nat : padInt k n = pad k n := by
  rw [padInt, if_neg (by omega), Int.natAbs_natCast]

theorem length_padInt (hk : 0 < k) (h₀ : 0 ≤ v) (h₁ : v < 10 ^ k) :
    (padInt k v).length = k := by
  obtain ⟨n, rfl⟩ := Int.eq_ofNat_of_zero_le h₀
  rw [padInt_nat]
  exact length_pad hk (by exact_mod_cast h₁)

theorem slash_not_mem_padInt (h₀ : 0 ≤ v) : '/'.toUInt8 ∉ padInt k v := by
  obtain ⟨n, rfl⟩ := Int.eq_ofNat_of_zero_le h₀
  rw [padInt_nat]
  exact slash_not_mem_decimal decimal_pad

theorem parseDigits_padInt {bitSize : Nat} (hk : 0 < k) (h₀ : 0 ≤ v) (h₁ : v < 10 ^ k)
    (hb : 10 ^ k ≤ 2 ^ effectiveBits bitSize) : parseDigits (padInt k v) bitSize = .ok v.toNat := by
  have hl := length_padInt hk h₀ h₁
  obtain ⟨n, rfl⟩ := Int.eq_ofNat_of_zero_le h₀
  have h₁ : n < 10 ^ k := by exact_mod_cast h₁
  rw [padInt_nat] at *
  exact (parseDigits_iff hk hl).mpr ⟨h₁, h₁.trans_le hb, rfl⟩

-- The hour of a key in four numerals.
def hourComps (cal : Calendar) (h : Int) : List Bytes :=
  [padInt 4 (cal.fields h).year, padInt 2 (cal.fields h).month, padInt 2 (cal.fields h).day,
    padInt 2 (cal.fields h).hour]

theorem parseKeyHour_sound (hp : parseKeyHour cal year month day hour = .ok h) :
    (minKeyHour ≤ h ∧ h ≤ maxKeyHour) ∧ [year, month, day, hour] = hourComps cal h := by
  have ⟨_, hl, hp⟩ := bind_eq_ok.mp hp
  have ⟨y, hy, hp⟩ := bind_eq_ok.mp hp
  have ⟨m, hm, hp⟩ := bind_eq_ok.mp hp
  have ⟨d, hd, hp⟩ := bind_eq_ok.mp hp
  have ⟨n, hn, hp⟩ := bind_eq_ok.mp hp
  have ⟨_, hf, hp⟩ := bind_eq_ok.mp hp
  have ⟨_, hc, hp⟩ := bind_eq_ok.mp hp
  cases hp
  have hl := failIf_eq_ok.mp hl
  simp only [not_or, not_not] at hl
  have ⟨_, _, hy⟩ := (parseDigits_iff (by decide) hl.1).mp hy
  have ⟨_, _, hm⟩ := (parseDigits_iff (by decide) hl.2.1).mp hm
  have ⟨_, _, hd⟩ := (parseDigits_iff (by decide) hl.2.2.1).mp hd
  have ⟨_, _, hn⟩ := (parseDigits_iff (by decide) hl.2.2.2).mp hn
  refine ⟨checkKeyHour_iff.mp hc, ?_⟩
  rw [hourComps, not_not.mp (failIf_eq_ok.mp hf)]
  simp only [padInt_nat, ← hy, ← hm, ← hd, ← hn]

theorem parseKeyHour_hourComps (hh : minKeyHour ≤ h ∧ h ≤ maxKeyHour) :
    parseKeyHour cal (padInt 4 (cal.fields h).year) (padInt 2 (cal.fields h).month)
      (padInt 2 (cal.fields h).day) (padInt 2 (cal.fields h).hour) = .ok h := by
  have ⟨hy₀, hy⟩ := cal.year_range h hh.1 hh.2
  have ⟨hm₀, hm⟩ := cal.month_range h hh.1 hh.2
  have ⟨hd₀, hd⟩ := cal.day_range h hh.1 hh.2
  have ⟨hn₀, hn⟩ := cal.hour_range h hh.1 hh.2
  have hf : CalendarHour.mk (cal.fields h).year.toNat (cal.fields h).month.toNat
      (cal.fields h).day.toNat (cal.fields h).hour.toNat = cal.fields h := by
    simp only [Int.toNat_of_nonneg, *]
  have hdate := cal.date_fields h hh.1 hh.2
  refine bind_eq_ok.mpr ⟨(), failIf_eq_ok.mpr ?_, ?_⟩
  · simp [length_padInt, *]
  refine bind_eq_ok.mpr ⟨_, parseDigits_padInt (by decide) hy₀ hy (by decide), ?_⟩
  refine bind_eq_ok.mpr ⟨_, parseDigits_padInt (by decide) hm₀ hm (by decide), ?_⟩
  refine bind_eq_ok.mpr ⟨_, parseDigits_padInt (by decide) hd₀ hd (by decide), ?_⟩
  refine bind_eq_ok.mpr ⟨_, parseDigits_padInt (by decide) hn₀ hn (by decide), ?_⟩
  simp only [hf, hdate]
  refine bind_eq_ok.mpr ⟨(), failIf_eq_ok.mpr (not_not.mpr rfl), ?_⟩
  exact bind_eq_ok.mpr ⟨(), checkKeyHour_iff.mpr hh, rfl⟩

end Hour

section Archive

variable {cal : Calendar} {pre key : Bytes} {p : ArchiveKeyParts}

def archiveComps (cal : Calendar) (p : ArchiveKeyParts) : List Bytes :=
  escapeEquipmentID p.equipment :: (hourComps cal p.hour ++
    [fileName (uuidString p.capture) (uuidString p.pack)])

theorem archiveKey_iff :
    archiveKey cal pre p.equipment p.capture p.hour p.pack = .ok key ↔
      Storable p.equipment ∧ (minKeyHour ≤ p.hour ∧ p.hour ≤ maxKeyHour) ∧
        key = joinKey pre (ascii "archive") (archiveComps cal p) := by
  have hjoin : joinKey pre (ascii "archive") (archiveComps cal p) =
      keyArea pre (ascii "archive") ++ escapeEquipmentID p.equipment ++ ascii "/" ++
        padInt 4 (cal.fields p.hour).year ++ ascii "/" ++ padInt 2 (cal.fields p.hour).month ++
        ascii "/" ++ padInt 2 (cal.fields p.hour).day ++ ascii "/" ++
        padInt 2 (cal.fields p.hour).hour ++ ascii "/" ++ uuidString p.capture ++ ascii "-" ++
        uuidString p.pack ++ keyPackSuffix := by
    simp [joinKey, archiveComps, hourComps, fileName, List.intercalate, ascii]
  simp only [archiveKey, archiveKeyDir, bind_eq_ok, mapErr_eq_ok, checkEquipment_iff,
    checkKeyHour_iff, pure_eq, Except.ok.injEq, hjoin]
  constructor
  case mp =>
    rintro ⟨_, ⟨_, hs, _, hh, rfl⟩, rfl⟩
    exact ⟨hs, hh, rfl⟩
  case mpr =>
    rintro ⟨hs, hh, rfl⟩
    exact ⟨_, ⟨(), hs, (), hh, rfl⟩, rfl⟩

theorem parseArchiveKey_comps {e year month day hour file : Bytes}
    (h : splitKey pre (ascii "archive") key 6 = .ok [e, year, month, day, hour, file]) :
    parseArchiveKey cal pre key = .ok p ↔
      [e, year, month, day, hour, file] = archiveComps cal p ∧ Storable p.equipment ∧
        minKeyHour ≤ p.hour ∧ p.hour ≤ maxKeyHour := by
  have hname {a b : Bytes} := fileName_iff file a b (k := uuidStringLen) rfl
  rw [parseArchiveKey, h]
  simp only [bind_ok, Run.index, getElem?_cons_zero, getElem?_cons_succ, bind_eq_ok,
    mapErr_eq_ok, failIf_eq_ok, unescapeEquipmentID_iff, parseKeyUUID_iff, pure_eq]
  constructor
  case mp =>
    rintro ⟨_, ⟨hs, rfl⟩, _, hh, _, hf, _, ha, _, rfl, _, hb, _, rfl, h⟩
    cases h
    obtain ⟨_, _, rfl⟩ := hname.mp ⟨hf, ha, hb⟩
    obtain ⟨hh, hcomps⟩ := parseKeyHour_sound hh
    exact ⟨by rw [archiveComps, ← hcomps]; rfl, hs, hh⟩
  case mpr =>
    rintro ⟨hc, hs, hh⟩
    cases hc
    obtain ⟨hf, ha, hb⟩ := hname.mpr ⟨length_uuidString p.capture, length_uuidString p.pack, rfl⟩
    exact ⟨_, ⟨hs, rfl⟩, _, parseKeyHour_hourComps hh, (), hf, _, ha, _, rfl, _, hb, _, rfl, rfl⟩

theorem archiveComps_slash (hh : minKeyHour ≤ p.hour ∧ p.hour ≤ maxKeyHour) :
    ∀ c ∈ archiveComps cal p, '/'.toUInt8 ∉ c := by
  have hy := (cal.year_range p.hour hh.1 hh.2).1
  have hm := (cal.month_range p.hour hh.1 hh.2).1
  have hd := (cal.day_range p.hour hh.1 hh.2).1
  have hn := (cal.hour_range p.hour hh.1 hh.2).1
  refine forall_mem_cons.mpr ⟨slash_not_mem_escape, forall_mem_append.mpr ⟨?_,
    forall_mem_singleton.mpr
      (slash_not_mem_fileName slash_not_mem_uuidString slash_not_mem_uuidString)⟩⟩
  simp [hourComps, slash_not_mem_padInt, *]

theorem parseArchiveKey_iff : parseArchiveKey cal pre key = .ok p ↔
    archiveKey cal pre p.equipment p.capture p.hour p.pack = .ok key := by
  rw [archiveKey_iff]
  constructor
  case mp =>
    intro h
    have ⟨comps, hc, _⟩ := bind_eq_ok.mp h
    have ⟨hl, hkey⟩ := eq_joinKey hc
    match comps, hl with
    | [e, year, month, day, hour, file], _ =>
      have ⟨he, hs, hh⟩ := (parseArchiveKey_comps hc).mp h
      exact ⟨hs, hh, he ▸ hkey⟩
  case mpr =>
    rintro ⟨hs, hh, rfl⟩
    exact (parseArchiveKey_comps (splitKey_joinKey (archiveComps_slash hh) nofun)).mpr ⟨rfl, hs, hh⟩

-- Hours of the Gregorian calendar.
def gregorian : Calendar where
  fields h :=
    let d := (Civil.Ordinal.ofDays (h / 24)).toDate
    { year := d.year, month := d.month, day := d.day, hour := h % 24 }
  date f := (Civil.Date.mk f.year f.month f.day).toOrdinal.toDays * 24 + f.hour
  date_fields := fun h _ _ => by
    simp only
    rw [Civil.toOrdinal_toDate (Civil.ofDays_day _), Civil.toDays_ofDays]
    omega
  year_range  := fun h h₀ h₁ => by
    have hr := Civil.toDate_range (Civil.ofDays_day (h / 24))
    have hy := Civil.ofDays_year (h / 24)
    simp only [minKeyHour, maxKeyHour] at *
    omega
  month_range := fun h _ _ => by
    have hr := Civil.toDate_range (Civil.ofDays_day (h / 24))
    simp only
    omega
  day_range   := fun h _ _ => by
    have hr := Civil.toDate_range (Civil.ofDays_day (h / 24))
    simp only
    omega
  hour_range  := fun h _ _ => by
    simp only
    omega

-- The first hour that a key can name is in 1677, and a year that is no leap year has no 29 February.
example : hourComps gregorian minKeyHour = [ascii "1677", ascii "09", ascii "21", ascii "00"] ∧
    parseKeyHour gregorian (ascii "2023") (ascii "02") (ascii "29") (ascii "07") =
      fail (.text "hour %s%s%s%s not a calendar hour"
        [.bytes (ascii "2023"), .bytes (ascii "02"), .bytes (ascii "29"), .bytes (ascii "07")]) := by
  decide +kernel

end Archive
end Tracepack
