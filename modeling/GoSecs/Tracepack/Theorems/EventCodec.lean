import GoSecs.Tracepack.EventCodec
import GoSecs.Tracepack.Theorems.Tlv

open Run

namespace Tracepack

open Tlv

namespace Tlv.Entry

variable (e : Entry)

theorem bool_spec : Spec e.bool fun _ => True := by
  refine (e.checkValue_spec typeBool).bind fun _ ⟨hl, _⟩ => ?_
  have := hl 1 rfl
  exact (Agree.index (by omega)).bind fun _ _ => .pure trivial

theorem uuid_spec : Spec e.uuid fun _ => True := by
  refine (e.check_spec typeUUID).bind fun _ hl => ?_
  have := hl 16 rfl
  rw [Format.UUID.ofBytes, dif_pos (by omega)]
  exact .pure trivial

theorem utf8_spec : Spec e.utf8 fun _ => True :=
  (e.checkValue_spec typeUTF8).bind fun _ _ => .pure trivial

theorem bytes_spec : Spec e.bytes fun _ => True :=
  (e.check_spec typeBytes).bind fun _ _ => .pure trivial

end Tlv.Entry

theorem setField_spec {decode : Entry → Run Err β} {Q : β → Prop} (assign : α → β → α) (a : α)
    {e : Entry} (h : Spec (decode e) Q) : Spec (setField decode assign a e) fun _ => True :=
  h.bind fun _ _ => .pure trivial

-- No setter breaks off.
def Setters.Safe (setters : Setters α) : Prop :=
  ∀ s ∈ setters, ∀ a e, Spec (s.2 a e) fun _ => True

theorem decodeKeeping_spec {setters : Setters α} (hs : setters.Safe) (keep : α → RawEntry → α)
    (zero : α) (entries : List Entry) :
    Spec (decodeKeeping setters keep zero entries) fun _ => True := by
  refine .foldlM trivial fun a e _ _ => ?_
  split
  case h_1 set hset =>
    have ⟨_, _, hm, _⟩ := List.lookup_eq_some_iff.mp hset
    exact hs (e.tag, set) (by simp [hm]) a e
  case h_2 => exact .pure trivial

theorem setPrimarySystemBytes_spec (t : TransportEvent) (e : Entry) :
    Spec (setPrimarySystemBytes t e) fun _ => True :=
  e.bytes_spec.bind fun _ _ => .check fun _ => .pure trivial

theorem transportEventSetters_safe : transportEventSetters.Safe := by
  have u8 {assign} (a : TransportEvent) (e : Entry) := setField_spec assign a e.u8_spec
  have u64 {assign} (a : TransportEvent) (e : Entry) := setField_spec assign a e.u64_spec
  have i64 {assign} (a : TransportEvent) (e : Entry) := setField_spec assign a e.i64_spec
  have utf8 {assign} (a : TransportEvent) (e : Entry) := setField_spec assign a e.utf8_spec
  have bool {assign} (a : TransportEvent) (e : Entry) := setField_spec assign a e.bool_spec
  simp only [Setters.Safe, transportEventSetters, List.forall_mem_cons]
  exact ⟨u8, u8, u8, u8, utf8, u8, u8, bool, u64, u64, u64, setPrimarySystemBytes_spec, u8, u64, u64,
    i64, i64, utf8, i64, by simp⟩

theorem annotationSetters_safe : annotationSetters.Safe := by
  have u64 {assign} (a : Annotation) (e : Entry) := setField_spec assign a e.u64_spec
  simp only [Setters.Safe, annotationSetters, List.forall_mem_cons]
  exact ⟨fun a e => setField_spec _ a e.u8_spec, fun a e => setField_spec _ a e.uuid_spec, u64, u64,
    fun a e => setField_spec _ a e.utf8_spec, fun a e => setField_spec _ a e.bytes_spec, u64, u64, u64,
    by simp⟩

theorem parseTransportEvent_spec (b : Bytes) : Spec (parseTransportEvent b) fun _ => True := by
  refine (decode_spec b).bind fun entries _ => ?_
  refine (validateAt_spec ..).bind fun _ _ => ?_
  exact decodeKeeping_spec transportEventSetters_safe ..

theorem parseAnnotation_spec (b : Bytes) : Spec ( parseAnnotation b) fun _ => True := by
  refine (decode_spec b).bind fun entries _ => ?_
  refine (validateAt_spec ..).bind fun _ _ => ?_
  refine (decodeKeeping_spec annotationSetters_safe ..).bind fun _ _ => ?_
  exact .check fun _ => .pure trivial

end Tracepack
