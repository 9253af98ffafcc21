import GoSecs.Tracepack.Theorems.Tlv

open Run LittleEndian List

namespace Tracepack.Tlv

open Format (uint uint_eq)

structure Entry.Ok (e : Entry) : Prop where
  tag_pos : e.tag ≠ 0
  tag_lt  : e.tag < 2 ^ 16
  length  : e.value.length < 2 ^ 32
  fixed   : ∀ n ∈ fixedLen e.type, e.value.length = n

def Entry.moved (e : Entry) (off : Nat) : Entry :=
  { e with offset := off }

def placed : Nat → List Entry → List Entry
  | _,   [] => []
  | off, e :: es => e.moved off :: placed (off + headerLen + e.value.length) es

variable {e : Entry} {es ds : List Entry} {off tag : Nat} {reg : Registry} {v : Nat}

@[simp]
theorem moved_tag (e : Entry) (off : Nat) : (e.moved off).tag = e.tag :=
  rfl

@[simp]
theorem moved_value (e : Entry) (off : Nat) : (e.moved off).value = e.value :=
  rfl

@[simp]
theorem placed_nil : placed off [] = [] :=
  rfl

@[simp]
theorem placed_cons : placed off (e :: es) =
    e.moved off :: placed (off + headerLen + e.value.length) es :=
  rfl

theorem placed_append (off : Nat) (es ds : List Entry) :
    ∃ off', placed off (es ++ ds) = placed off es ++ placed off' ds := by
  induction es generalizing off
  case nil => exact ⟨off, rfl⟩
  case cons e es hi =>
    have ⟨off', h⟩ := hi (off + headerLen + e.value.length)
    exact ⟨off', by simp [h]⟩

theorem mem_placed {d : Entry} (h : d ∈ placed off es) :
    ∃ e ∈ es, ∃ o, d = e.moved o := by
  induction es generalizing off
  case nil => simp at h
  case cons e es hi =>
    rcases mem_cons.mp h with rfl | h
    · exact ⟨e, mem_cons_self, off, rfl⟩
    · have ⟨e', he, ho⟩ := hi h
      exact ⟨e', mem_cons_of_mem _ he, ho⟩

@[simp]
theorem map_tag_placed : (placed off es).map Entry.tag = es.map Entry.tag := by
  induction es generalizing off
  case nil => rfl
  case cons e es hi => simp [hi]

@[simp]
theorem length_appendEntry (e : Entry) : (appendEntry e).length = headerLen + e.value.length := by
  simp [appendEntry, headerLen]
  omega

theorem decodeOne_appendEntry (h : e.Ok) (pre rest : Bytes) :
    decodeOne (pre ++ (appendEntry e ++ rest)) pre.length =
      .ok (e.moved pre.length, pre.length + headerLen + e.value.length) := by
  have hlen : (appendEntry e ++ rest).length = headerLen + e.value.length + rest.length := by
    simp
  have hslice : (slice (pre ++ (appendEntry e ++ rest)) pre.length
      (pre ++ (appendEntry e ++ rest)).length : Run Err Bytes) = .ok (appendEntry e ++ rest) := by
    rw [slice_eq (by simp) le_rfl]
    simp
  have htag : field (appendEntry e ++ rest) 0 2 = e.tag := by
    simp only [appendEntry, append_assoc, field_bytes]
    exact Nat.mod_eq_of_lt h.tag_lt
  have hlength : field (appendEntry e ++ rest) 4 4 = e.value.length := by
    simp only [appendEntry, append_assoc]
    rw [field_append (by simp), field_append (by simp)]
    simp only [length_bytes, length_cons, length_nil]
    exact (field_bytes 4 _ _).trans (Nat.mod_eq_of_lt h.length)
  have htype : (appendEntry e ++ rest)[2]? = some e.type := by
    simp [appendEntry, bytes]
  have hvalue : ((appendEntry e ++ rest).drop 8).take (8 + e.value.length - 8) = e.value := by
    simp [appendEntry, bytes]
  have hfixed : (fixedLen e.type).any (· ≠ e.value.length) = false := by
    cases hf : fixedLen e.type
    case none   => simp
    case some n => simp [h.fixed n hf]
  simp only [decodeOne, hslice, bind_ok, hlen]
  rw [if_neg (by omega), uint_eq (by omega) (by rw [hlen, headerLen]; omega),
    uint_eq (by omega) (by rw [hlen, headerLen]; omega), index, htype]
  simp only [bind_ok, pure_eq, htag, hlength, Nat.sub_zero, Nat.reduceSub, failIf, h.tag_pos,
    if_false, hfixed, Bool.false_eq_true]
  rw [if_neg (by omega)]
  simp only [bind_ok, headerLen]
  rw [slice_eq (by omega) (by rw [hlen, headerLen]; omega), hvalue]
  simp only [bind_ok, Nat.add_assoc]
  rfl

theorem decodeFrom_flatMap (h : ∀ e ∈ es, e.Ok) {k : Nat} (hk : es.length ≤ k) (pre : Bytes) :
    decodeFrom (pre ++ es.flatMap appendEntry) k pre.length = .ok (placed pre.length es) := by
  induction es generalizing k pre
  case nil =>
    cases k <;> simp [decodeFrom]
  case cons e es hi =>
    obtain ⟨he, hes⟩ := forall_mem_cons.mp h
    obtain ⟨k, rfl⟩ : ∃ j, k = j + 1 := ⟨k - 1, by simp at hk; omega⟩
    have hlt : pre.length < (pre ++ (e :: es).flatMap appendEntry).length := by
      simp [headerLen]
    have hnext := hi hes (k := k) (by simpa using hk) (pre ++ appendEntry e)
    rw [decodeFrom, if_pos hlt, flatMap_cons, decodeOne_appendEntry he]
    simp only [append_assoc, length_append, length_appendEntry] at hnext
    simp only [bind_ok, Nat.add_assoc, hnext, placed_cons, pure_eq]

theorem decode_flatMap (h : ∀ e ∈ es, e.Ok) :
    decode (es.flatMap appendEntry) = .ok (placed 0 es) := by
  have hlen : es.length ≤ (es.flatMap appendEntry).length := by
    clear h
    induction es
    case nil => simp
    case cons e es hi =>
      simp only [flatMap_cons, length_cons, length_append, length_appendEntry,
        headerLen]
      omega
  exact decodeFrom_flatMap h hlen []

section Values

variable (tag off : Nat)

@[simp]
theorem tag_u8Entry (v : UInt8) : (u8Entry tag v).tag = tag :=
  rfl

@[simp]
theorem tag_i64Entry (v : Int) : (i64Entry tag v).tag = tag :=
  rfl

@[simp]
theorem tag_u64Entry (v : Nat) : (u64Entry tag v).tag = tag :=
  rfl

theorem check_eq_ok {want : ValueType} (ht : e.type = want)
    (hf : ∀ n ∈ fixedLen want, e.value.length = n) : e.check want = .ok () := by
  have hfixed : (fixedLen want).any (· ≠ e.value.length) = false := by
    cases h : fixedLen want
    case none   => rfl
    case some n => simp [hf n h]
  simp only [Entry.check, failIf, ht, ne_eq, not_true, if_false, hfixed, Bool.false_eq_true]
  rfl

theorem check_u8Entry (v : UInt8) : ((u8Entry tag v).moved off).check typeU8 = .ok () :=
  check_eq_ok rfl fun _ hn => Option.some.inj hn

@[simp]
theorem u8_u8Entry (v : UInt8) : ((u8Entry tag v).moved off).u8 = .ok v := by
  rw [Entry.u8, check_u8Entry]
  rfl

@[simp]
theorem checkValue_u8Entry (v : UInt8) : ((u8Entry tag v).moved off).checkValue typeU8 = .ok () := by
  rw [Entry.checkValue, check_u8Entry]
  rfl

theorem check_i64Entry (v : Int) : ((i64Entry tag v).moved off).check typeI64 = .ok () := by
  refine check_eq_ok rfl fun n hn => ?_
  rw [← Option.some.inj hn]
  exact length_intBytes 8 v

@[simp]
theorem checkValue_i64Entry (v : Int) :
    ((i64Entry tag v).moved off).checkValue typeI64 = .ok () := by
  rw [Entry.checkValue, check_i64Entry]
  rfl

theorem i64_i64Entry {v : Int} (h : InRange 8 v) : ((i64Entry tag v).moved off).i64 = .ok v := by
  have hv : uint (intBytes 8 v) 0 8 = .ok (nat (intBytes 8 v)) := by
    rw [uint_eq (by omega) (by simp), field, drop_zero, take_of_length_le (by simp)]
  rw [Entry.i64, check_i64Entry]
  simp [Entry.moved, i64Entry, hv, signed_intBytes h]

theorem uint_bytes8 (h : v ≤ maxU64) : uint (bytes 8 v) 0 8 = .ok v := by
  have hv : field (bytes 8 v ++ []) 0 8 = v % 256 ^ 8 := field_bytes 8 v []
  simp only [maxU64] at h
  rw [uint_eq (by omega) (by simp), ← append_nil (bytes 8 v), hv, Nat.mod_eq_of_lt (by omega)]

theorem checkValue_u64Entry (h : v ≤ maxU64) :
    ((u64Entry tag v).moved off).checkValue typeU64 = .ok () := by
  have hc : ((u64Entry tag v).moved off).check typeU64 = .ok () := by
    refine check_eq_ok rfl fun n hn => ?_
    rw [← Option.some.inj hn]
    exact length_bytes 8 v
  rw [Entry.checkValue, hc]
  simp only [bind_ok, Entry.moved, u64Entry, uint_bytes8 h]
  simp [when, failIf, Nat.not_lt.mpr h, typeU64, typeBool, typeUTF8]

theorem u64_u64Entry (h : v ≤ maxU64) : ((u64Entry tag v).moved off).u64 = .ok v := by
  rw [Entry.u64, checkValue_u64Entry tag off h]
  exact uint_bytes8 h

@[simp]
theorem checkValue_bytesEntry (v : Bytes) :
    ((bytesEntry tag v).moved off).checkValue typeBytes = .ok () :=
  rfl

@[simp]
theorem checkValue_nestedEntry (es : List Entry) :
    ((nestedEntry tag es).moved off).checkValue typeTLV = .ok () :=
  rfl

theorem nested_nestedEntry (h : ∀ e ∈ es, e.Ok) :
    ((nestedEntry tag es).moved off).nested = .ok (placed 0 es) := by
  have hc : ((nestedEntry tag es).moved off).check typeTLV = .ok () := check_eq_ok rfl nofun
  rw [Entry.nested, hc]
  simp [Entry.moved, nestedEntry, decode_flatMap h]

end Values

section Fold

variable {α β : Type} {step : β → Entry → Run Err β} {b b' b'' : β}

theorem foldlM_placed_append (hes : ∀ off, (placed off es).foldlM step b = .ok b')
    (hds : ∀ off, (placed off ds).foldlM step b' = .ok b'') (off : Nat) :
    (placed off (es ++ ds)).foldlM step b = .ok b'' := by
  obtain ⟨off', h⟩ := placed_append off es ds
  rw [h, foldlM_append, hes, bind_ok, hds]

theorem foldlM_placed_cons (he : ∀ off, step b (e.moved off) = .ok b')
    (hes : ∀ off, (placed off es).foldlM step b' = .ok b'') (off : Nat) :
    (placed off (e :: es)).foldlM step b = .ok b'' := by
  rw [placed_cons, foldlM_cons, he, bind_ok, hes]

theorem set_eq_ok {x : Run Err α} {a : α} {f : α → β} (k : Err → Err) (h : x = .ok a) :
    mapErr k (x >>= fun a => pure (f a)) = .ok (f a) := by
  rw [h]
  rfl

theorem foldlM_placed_map {f : α → Entry} {as : List α} (add : β → List α → β)
    (hnil : ∀ b, add b [] = b) (hadd : ∀ b as as', add (add b as) as' = add b (as ++ as'))
    (h : ∀ a ∈ as, ∀ off b, step b ((f a).moved off) = .ok (add b [a])) (b : β) (off : Nat) :
    (placed off (as.map f)).foldlM step b = .ok (add b as) := by
  induction as generalizing off b
  case nil => simp [hnil, pure_eq]
  case cons a as hi =>
    have ⟨ha, has⟩ := forall_mem_cons.mp h
    rw [map_cons, placed_cons, foldlM_cons, ha, bind_ok, hi has, hadd,
      singleton_append]

end Fold

section Validation

variable {minor room : Nat} {seen : List Nat}

-- The entries pass the validation wherever they lie.
def Passes (minor room : Nat) (reg : Registry) (es : List Entry) : Prop :=
  ∀ off, validateAt minor room reg (placed off es) = .ok ()

def Repeatable (reg : Registry) (tag : Nat) : Prop :=
  ∀ f, reg.lookup tag = some f → f.repeatable = true

-- The entry passes the checks of its field, with `room` levels of nesting left below it.
def Fits (minor room : Nat) (reg : Registry) (e : Entry) : Prop :=
  ∃ f, reg.lookup e.tag = some f ∧ f.since ≤ minor ∧
    (∀ off, (e.moved off).checkValue f.type = .ok ()) ∧
    (f.type = typeTLV → ∀ reg' ∈ f.nested, ∃ ds, e.value = ds.flatMap appendEntry ∧
      (∀ d ∈ ds, d.Ok) ∧ Passes minor room reg' ds)

theorem validateEntries_eq_ok {nested : Registry → Entry → Run Err Unit}
    (h : ∀ e ∈ es, ∃ f, reg.lookup e.tag = some f ∧ f.since ≤ minor ∧
      e.checkValue f.type = .ok () ∧ (f.type = typeTLV → ∀ reg' ∈ f.nested, nested reg' e = .ok ()))
    (hd : (es.map Entry.tag).Pairwise fun a b => a = b → Repeatable reg a)
    (hs : ∀ e ∈ es, e.tag ∈ seen → Repeatable reg e.tag) :
    validateEntries nested reg minor es seen = .ok ((es.map Entry.tag).reverse ++ seen) := by
  induction es generalizing seen
  case nil => rfl
  case cons e es hi =>
    have ⟨⟨f, hl, hsince, hv, hn⟩, hes⟩ := forall_mem_cons.mp h
    have ⟨hse, hses⟩ := forall_mem_cons.mp hs
    have ⟨hde, hds⟩ := pairwise_cons.mp hd
    have hdup : ¬(e.tag ∈ seen ∧ f.repeatable = false) := by
      rintro ⟨hm, hf⟩
      simp [hse hm f hl] at hf
    have hseen : ∀ d ∈ es, d.tag ∈ e.tag :: seen → Repeatable reg d.tag := by
      intro d hd hm
      rcases mem_cons.mp hm with he | hm
      · exact he ▸ hde d.tag (mem_map_of_mem hd) he.symm
      · exact hses d hd hm
    have hrest := hi hes hds hseen
    rw [map_cons, reverse_cons, append_assoc, singleton_append, ← hrest]
    simp only [validateEntries, hl, Nat.not_lt.mpr hsince, if_false, hv, bind_ok, when, failIf, hdup]
    split
    case isFalse => rfl
    case isTrue ht =>
      split
      case h_1 reg' hreg => rw [hn ht reg' hreg]; rfl
      case h_2 => rfl

theorem checkRequired_eq_ok
    (h : ∀ p ∈ reg, p.2.required = true → p.1 ∈ seen) : checkRequired minor seen reg = .ok () := by
  induction reg
  case nil => rfl
  case cons p reg hi =>
    have ⟨hp, hreg⟩ := forall_mem_cons.mp h
    have hc : ¬(p.1 ∉ seen ∧ p.2.required = true ∧ p.2.since ≤ minor) := fun hc => hc.1 (hp hc.2.1)
    simp [checkRequired, failIf, hc, pure_eq, bind_ok, hi hreg]

structure Sits (minor room : Nat) (reg : Registry) (e : Entry) : Prop where
  ok   : e.Ok
  fits : Fits minor room reg e

abbrev Registry.Tagged (reg : Registry) : Prop :=
  ∀ p ∈ reg, p.1 ≠ 0 ∧ p.1 < 2 ^ 16

theorem passes_succ (h : ∀ e ∈ es, Sits minor room reg e)
    (hd : (es.map Entry.tag).Pairwise fun a b => a = b → Repeatable reg a)
    (hr : ∀ p ∈ reg, p.2.required = true → p.1 ∈ es.map Entry.tag) :
    Passes minor (room + 1) reg es := by
  intro off
  rw [validateAt, validateEntries_eq_ok (fun d hd => ?_) (by simpa using hd) (by simp), bind_ok]
  · exact checkRequired_eq_ok (by simpa using hr)
  · obtain ⟨e, he, o, rfl⟩ := mem_placed hd
    obtain ⟨f, hl, hs, hv, hn⟩ := (h e he).fits
    refine ⟨f, hl, hs, hv o, fun ht reg' hr' => ?_⟩
    obtain ⟨ds, hval, hok, hp⟩ := hn ht reg' hr'
    simp [hval, decode_flatMap hok, hp 0]

variable {f : Field}

theorem Sits.of_field (hk : reg.Tagged) (hl : reg.lookup e.tag = some f) (hs : f.since = 0)
    (hv : ∀ off, (e.moved off).checkValue f.type = .ok ()) (hlen : e.value.length < 2 ^ 32)
    (hn : f.type = typeTLV → ∀ reg' ∈ f.nested, ∃ ds, e.value = ds.flatMap appendEntry ∧
      (∀ d ∈ ds, d.Ok) ∧ Passes minor room reg' ds) : Sits minor room reg e := by
  have ⟨_, _, hm, _⟩ := lookup_eq_some_iff.mp hl
  have ⟨h₀, h₁⟩ := hk (e.tag, f) (by simp [hm])
  refine ⟨⟨h₀, h₁, hlen, fun n hf => ?_⟩, f, hl, by omega, hv, hn⟩
  obtain ⟨_, hc, _⟩ := bind_eq_ok.mp (hv 0)
  obtain ⟨_, ht, hc⟩ := bind_eq_ok.mp hc
  have ht : e.type = f.type := not_not.mp (failIf_eq_ok.mp ht)
  have hc := failIf_eq_ok.mp hc
  rw [← ht, hf] at hc
  exact (not_not.mp fun hne => hc (decide_eq_true hne)).symm

theorem Sits.u8 (hk : reg.Tagged) (hl : reg.lookup tag = some f) (ht : f.type = typeU8)
    (hs : f.since = 0) (v : UInt8) : Sits minor room reg (u8Entry tag v) :=
  .of_field hk hl hs (fun off => ht ▸ checkValue_u8Entry tag off v) (by simp [u8Entry])
    fun h => nomatch ht ▸ h

theorem Sits.i64 (hk : reg.Tagged) (hl : reg.lookup tag = some f) (ht : f.type = typeI64)
    (hs : f.since = 0) (v : Int) : Sits minor room reg (i64Entry tag v) :=
  .of_field hk hl hs (fun off => ht ▸ checkValue_i64Entry tag off v) (by simp [i64Entry])
    fun h => nomatch ht ▸ h

theorem Sits.u64 (hk : reg.Tagged) (hl : reg.lookup tag = some f) (ht : f.type = typeU64)
    (hs : f.since = 0) (hv : v ≤ maxU64) : Sits minor room reg (u64Entry tag v) :=
  .of_field hk hl hs (fun off => ht ▸ checkValue_u64Entry tag off hv) (by simp [u64Entry])
    fun h => nomatch ht ▸ h

theorem Sits.bytes (hk : reg.Tagged) (hl : reg.lookup tag = some f) (ht : f.type = typeBytes)
    (hs : f.since = 0) {v : Bytes} (hv : v.length < 2 ^ 32) :
    Sits minor room reg (bytesEntry tag v) :=
  .of_field hk hl hs (fun off => ht ▸ checkValue_bytesEntry tag off v) hv fun h => nomatch ht ▸ h

theorem Sits.nested (hk : reg.Tagged) (hl : reg.lookup tag = some f) (ht : f.type = typeTLV)
    (hs : f.since = 0) (hlen : (nestedEntry tag ds).value.length < 2 ^ 32) (hok : ∀ d ∈ ds, d.Ok)
    (hp : ∀ reg' ∈ f.nested, Passes minor room reg' ds) :
    Sits minor room reg (nestedEntry tag ds) :=
  .of_field hk hl hs (fun off => ht ▸ checkValue_nestedEntry tag off ds) hlen
    fun _ reg' h => ⟨ds, rfl, hok, hp reg' h⟩

theorem pairwise_of_nodup {tags : List Nat} (h : tags.Nodup) :
    tags.Pairwise fun a b => a = b → Repeatable reg a :=
  h.imp fun hne he => absurd he hne

theorem pairwise_append_repeats {singles reps : List Nat} (h : singles.Nodup)
    (hr : ∀ t ∈ reps, Repeatable reg t) :
    (singles ++ reps).Pairwise fun a b => a = b → Repeatable reg a := by
  refine pairwise_append.mpr ⟨pairwise_of_nodup h, ?_, ?_⟩
  · exact pairwise_of_forall_mem_list fun a ha _ _ _ => hr a ha
  · exact fun a _ b hb he => he ▸ hr b hb

end Validation

section Arrays

theorem elements_flatMap {w : Nat} {vs : List Nat} (h : ∀ v ∈ vs, v < 256 ^ w) {i : Nat}
    {pre : Bytes} (hp : pre.length = w * i) :
    elements w (pre ++ vs.flatMap (bytes w)) vs.length i = .ok vs := by
  induction vs generalizing i pre
  case nil => rfl
  case cons v vs hi =>
    have ⟨hv, hvs⟩ := forall_mem_cons.mp h
    have hrest := @hi hvs (i + 1) (pre ++ bytes w v) (by simp [hp, Nat.mul_add])
    have hfield : field (pre ++ (bytes w v ++ vs.flatMap (bytes w))) (w * i) w = v := by
      rw [field_append (by omega), hp, Nat.sub_self, field_bytes, Nat.mod_eq_of_lt hv]
    rw [flatMap_cons, length_cons, elements, uint_eq (by omega) (by simp; omega),
      Nat.add_sub_cancel_left, hfield, ← append_assoc, hrest]
    rfl

theorem length_flatMap_bytes (w : Nat) (vs : List Nat) :
    (vs.flatMap (bytes w)).length = w * vs.length := by
  induction vs
  case nil => simp
  case cons v vs hi => simp [hi, Nat.mul_add, Nat.add_comm]

theorem decodeU32Array_append {vs : List Nat} (h : ∀ v ∈ vs, v < 2 ^ 32) :
    decodeU32Array (appendU32Array vs) = .ok vs := by
  have hlen := length_flatMap_bytes 4 vs
  have he := @elements_flatMap 4 vs h 0 [] rfl
  simp only [decodeU32Array, appendU32Array, hlen, failIf, Nat.mul_mod_right, ne_eq, not_true,
    if_false, pure_eq, bind_ok, Nat.mul_div_cancel_left vs.length (show 0 < 4 by omega)]
  exact he

theorem checkElements_eq_ok {vs : List Nat} (h : ∀ v ∈ vs, v ≤ maxU64) (i : Nat) :
    checkElements vs i = .ok () := by
  induction vs generalizing i
  case nil => rfl
  case cons v vs hi =>
    have ⟨hv, hvs⟩ := forall_mem_cons.mp h
    simp [checkElements, failIf, Nat.not_lt.mpr hv, hi hvs]

theorem decodeU64Array_append {vs : List Nat} (h : ∀ v ∈ vs, v ≤ maxU64) :
    decodeU64Array (appendU64Array vs) = .ok vs := by
  have hlen := length_flatMap_bytes 8 vs
  have he : elements 8 (vs.flatMap (bytes 8)) vs.length 0 = .ok vs := by
    refine @elements_flatMap 8 vs (fun v hv => ?_) 0 [] rfl
    have := h v hv
    simp only [maxU64] at this
    omega
  simp [decodeU64Array, appendU64Array, hlen, failIf,
    Nat.mul_div_cancel_left vs.length (show 0 < 8 by omega), he, checkElements_eq_ok h]

theorem decodeSeqRange_append {r : SeqRange} (hf : r.first ≤ maxU64) (hl : r.last ≤ maxU64) :
    decodeSeqRange (appendSeqRange r) = .ok r := by
  have hlen : (bytes 8 r.first ++ bytes 8 r.last).length = 16 := by simp
  have hmax : ¬(maxU64 < r.first ∨ maxU64 < r.last) := by omega
  have hfirst : field (bytes 8 r.first ++ bytes 8 r.last) 0 8 = r.first := by
    rw [field_bytes, Nat.mod_eq_of_lt]
    simp only [maxU64] at hf
    omega
  have hlast : field (bytes 8 r.first ++ bytes 8 r.last) 8 8 = r.last := by
    rw [field_append (by simp), length_bytes, ← append_nil (bytes 8 r.last), field_bytes,
      Nat.mod_eq_of_lt]
    simp only [maxU64] at hl
    omega
  simp only [decodeSeqRange, appendSeqRange, hlen, failIf, ne_eq, not_true, if_false, pure_eq, bind_ok]
  rw [uint_eq (by omega) (by omega), uint_eq (by omega) (by omega)]
  simp [bind_ok, Nat.reduceSub, hfirst, hlast, hmax]

end Arrays
end Tracepack.Tlv
